import Mathlib.Algebra.BigOperators.Finprod
import PagedTables.Proofs.Lock.Quiescence
import PagedTables.Proofs.Pool.Tally
import PagedTables.Proofs.Workload.Ownership

/-! Who uses the pages of a pool: the guards that have not been let go of, and the operations between
pinning a page and having used it. The pins of a page are the number of its users throughout. -/

namespace PagedTables

def Stage.pinned : Stage → List (PageId × Nat)
  | working _ task => task.pinned
  | _ => []

theorem Call.Begins.pinned {pool : Pool} {owner : TransactionId} {call : Call} {progress : Progress}
    (begins : call.Begins pool owner progress) : progress.pinned = [] := by
  cases begins with
  | failed failure => rfl
  | fetches page mode => rfl
  | scans table file registered => exact Cursor.pinned_advance _ true
  | resumes cursor => exact Cursor.pinned_advance _ false
  | places table tuple file registered some => rfl
  | appends table tuple file registered none => rfl
  | removes tuple record placed => rfl

theorem Hook.tallied {pool : Pool} {tally : Tally} (tallied : pool.cache.Tallied tally)
    (hook : Hook) : (hook.run pool).1.cache.Tallied tally :=
  hook.run_keeps (fun later => later.cache.Tallied tally)
    (fun _ page tallied => Pool.tallied_flushPage tallied page)
    (fun _ page tallied => Pool.tallied_discardPage tallied page) (fun _ _ _ tallied => tallied) tallied

namespace Workload

/-- The pages that a transaction uses, with their stays: those under its guards, and the one that its
operation has pinned. -/
def pinned (work : Workload) (owner : TransactionId) : List (PageId × Nat) :=
  ((work.guards owner).map fun guard => (guard.page, guard.stay)) ++ (work.stage owner).pinned

noncomputable def users (work : Workload) : Tally :=
  fun page stay => ∑ᶠ owner, (work.pinned owner).count (page, stay)

variable {work later : Workload} {step : Step} {action : Action} {owner other : TransactionId}
  {page : PageId} {stay : Nat}

theorem exists_user (used : work.users page stay ≠ 0) : ∃ owner, (page, stay) ∈ work.pinned owner := by
  by_contra! none
  refine used ?_
  have zero : ∀ owner, (work.pinned owner).count (page, stay) = 0 :=
    fun owner => List.count_eq_zero.mpr (none owner)
  simp only [users, zero, finsum_zero]

theorem exists_others (theirs : ∀ other, other ≠ owner → later.pinned other = work.pinned other) :
    ∃ others : Tally, work.users = others.plus (work.pinned owner) ∧
      later.users = others.plus (later.pinned owner) := by
  have := Fintype.ofFinite TransactionId
  classical
  refine ⟨fun page stay => ∑ other ∈ Finset.univ.erase owner, (work.pinned other).count (page, stay),
    ?_, ?_⟩
  · funext page stay
    rw [users, finsum_eq_sum_of_fintype, Tally.plus, Finset.sum_erase_add _ _ (Finset.mem_univ owner)]
  · funext page stay
    rw [users, finsum_eq_sum_of_fintype, Tally.plus,
      ← Finset.sum_erase_add _ _ (Finset.mem_univ owner)]
    refine congrArg (· + _) (Finset.sum_congr rfl fun other apart => ?_)
    rw [theirs other (Finset.ne_of_mem_erase apart)]

theorem users_pos (member : (page, stay) ∈ work.pinned owner) : work.users page stay ≠ 0 := by
  have same : ∀ other, other ≠ owner → work.pinned other = work.pinned other := fun _ _ => rfl
  obtain ⟨others, users, _⟩ := exists_others same
  rw [users, Tally.plus]
  exact Nat.ne_of_gt (Nat.lt_of_lt_of_le (List.count_pos_iff.mpr member) (Nat.le_add_left _ _))

theorem users_eq_guards (quiet : ∀ other, (page, stay) ∉ (work.stage other).pinned) :
    work.users page stay =
      ∑ᶠ other, (work.guards other).countP fun held => held.page = page ∧ held.stay = stay := by
  refine finsum_congr fun other => ?_
  rw [pinned, List.count_append, List.count_eq_zero.mpr (quiet other), Nat.add_zero, List.count,
    List.countP_map]
  refine List.countP_congr fun held _ => ?_
  simp only [Function.comp_apply, beq_iff_eq, Prod.mk.injEq, decide_eq_true_eq]

theorem exists_others_next (work : Workload) (mine : action.owner? = some owner) :
    ∃ others : Tally, work.users = others.plus (work.pinned owner) ∧
      (work.next (.act action)).users = others.plus ((work.next (.act action)).pinned owner) := by
  refine exists_others fun other apart => ?_
  have stranger : action.owner? ≠ some other :=
    fun same => apart (Option.some.inj (same.symm.trans mine))
  obtain ⟨stage, guards⟩ := work.next_of_ne stranger
  rw [pinned, pinned, stage, guards]

theorem pinned_follow (work : Workload) (owner : TransactionId) (call : Call) (progress : Progress) :
    ((work.follow owner call progress).pinned owner).Perm
      ((work.guards owner).map (fun guard => (guard.page, guard.stay)) ++ progress.pinned) := by
  rw [pinned, follow_guards, follow_stage, Function.update_self, Function.update_self]
  cases progress with
  | running task => exact .refl _
  | finished finish =>
    cases finish with
    | failed failure => exact .refl _
    | locked => exact .refl _
    | modified pages => exact .refl _
    | scanned cursor failure => exact .refl _
    | guarded guard =>
      simp only [List.map_cons, Progress.stage, Stage.pinned, List.append_nil]
      exact (List.perm_append_singleton _ _).symm

theorem pinned_advance {call : Call} {task : Task} (here : work.stage owner = .working call task) :
    ((work.next (.act (.advance owner))).pinned owner).Perm
      ((work.guards owner).map (fun guard => (guard.page, guard.stay)) ++
        (task.step work.pool).2.pinned) := by
  simp only [next, after, here]
  exact (work.look_rests owner task).2 ▸ pinned_follow _ owner call _

theorem pinned_expire {call : Call} {task : Task} (here : work.stage owner = .working call task) :
    ((work.next (.act (.expire owner))).pinned owner).Perm
      ((work.guards owner).map (fun guard => (guard.page, guard.stay)) ++
        (task.expire work.pool).2.pinned) := by
  simp only [next, after, here]
  exact pinned_follow _ owner call _

def pins? (work : Workload) : Step → Option PageId
  | .act (.advance owner) =>
    match work.stage owner with
    | .working _ task => task.pins?
    | _ => none
  | _ => none

/-- A page that is pinned has fewer than 2 ^ 32 users with the new one. -/
def Roomy (work : Workload) (step : Step) : Prop :=
  ∀ page, work.pins? step = some page → ∀ resident, work.pool.cache.frames[page]? = some resident →
    work.users page resident.stay + 1 < 2 ^ 32

theorem users_next_of_perm (mine : action.owner? = some owner)
    (perm : ((work.next (.act action)).pinned owner).Perm (work.pinned owner)) :
    (work.next (.act action)).users = work.users := by
  obtain ⟨others, users, users'⟩ := work.exists_others_next mine
  rw [users, users', others.plus_perm perm]

theorem users_next_settle (possible : work.Possible (.act (.settle owner))) :
    (work.next (.act (.settle owner))).users = work.users := by
  obtain ⟨commit, rest, here⟩ := exists_ending possible.1
  refine users_next_of_perm rfl (.of_eq ?_)
  simp only [next, after, giveUp, here, pinned]
  split
  · cases rest <;> simp only [Function.update_self, Stage.pinned]
  · simp only [Function.update_self, Stage.pinned]

theorem tallied_settle {tally : Tally} (tallied : work.pool.cache.Tallied tally)
    (possible : work.Possible (.act (.settle owner))) :
    (work.next (.act (.settle owner))).pool.cache.Tallied tally := by
  obtain ⟨commit, rest, here⟩ := exists_ending possible.1
  simp only [next, after, giveUp, here]
  split
  · cases rest with
    | nil => exact tallied
    | cons page rest =>
      cases commit with
      | true => exact Pool.tallied_flushPage tallied page
      | false => exact Pool.tallied_discardPage tallied page
  · exact tallied

section Turn

variable (tallied : work.pool.cache.Tallied work.users)
include tallied

theorem tallied_drop {guard : Guard} (possible : work.Possible (.act (.drop owner guard))) :
    (work.next (.act (.drop owner guard))).pool.cache.Tallied
      (work.next (.act (.drop owner guard))).users := by
  have mine : (Action.drop owner guard).owner? = some owner := rfl
  obtain ⟨others, users, users'⟩ := work.exists_others_next mine
  have perm : (work.pinned owner).Perm
      ((work.next (.act (.drop owner guard))).pinned owner ++ [(guard.page, guard.stay)]) := by
    have kept := (List.perm_cons_erase possible).map fun guard => (guard.page, guard.stay)
    simp only [next, after, pinned, Function.update_self]
    exact (kept.append_right _).trans (List.perm_append_singleton _ _).symm
  rw [users, others.plus_perm perm, others.plus_append] at tallied
  rw [users']
  exact Pool.tallied_drop tallied

theorem tallied_advance (possible : work.Possible (.act (.advance owner)))
    (roomy : work.Roomy (.act (.advance owner))) :
    (work.next (.act (.advance owner))).pool.cache.Tallied
      (work.next (.act (.advance owner))).users := by
  have mine : (Action.advance owner).owner? = some owner := rfl
  obtain ⟨call, task, here⟩ := exists_working possible
  obtain ⟨others, users, users'⟩ := work.exists_others_next mine
  rw [users, pinned, here, others.plus_append] at tallied
  rw [(next_advance here).1, users', others.plus_perm (pinned_advance here), others.plus_append]
  refine Task.tallied_step tallied fun page pins resident present => ?_
  have room := roomy page (by simp only [pins?, here, pins]) resident present
  rw [users, pinned, here, others.plus_append] at room
  exact Nat.lt_of_le_of_lt (Nat.succ_le_succ (Nat.le_add_right _ _)) room

theorem tallied_expire (possible : work.Possible (.act (.expire owner))) :
    (work.next (.act (.expire owner))).pool.cache.Tallied
      (work.next (.act (.expire owner))).users := by
  have mine : (Action.expire owner).owner? = some owner := rfl
  obtain ⟨call, task, here⟩ := exists_working (Stage.isWorking_of_isWaiting possible)
  obtain ⟨others, users, users'⟩ := work.exists_others_next mine
  rw [users, pinned, here, others.plus_append] at tallied
  rw [(next_expire here).1, users', others.plus_perm (pinned_expire here), others.plus_append]
  refine Task.tallied_expire tallied ?_
  simpa only [Possible, here, Stage.isWaiting] using possible

theorem tallied_next (possible : work.Possible step) (roomy : work.Roomy step) :
    (work.next step).pool.cache.Tallied (work.next step).users := by
  -- Users come and go with the actions of their transaction; a hook moves pages and no users.
  cases step with
  | hook hook => exact Hook.tallied tallied hook
  | act action =>
    cases action with
    | create name schema =>
      have same : (work.next (.act (.create name schema))).pool.cache = work.pool.cache :=
        (Filing.created name schema).cache
      rw [same]
      exact tallied
    | attach name schema =>
      have same : (work.next (.act (.attach name schema))).pool.cache = work.pool.cache :=
        (Filing.opened name schema).cache
      rw [same]
      exact tallied
    | drop owner guard => exact tallied_drop tallied possible
    | advance owner => exact tallied_advance tallied possible roomy
    | expire owner => exact tallied_expire tallied possible
    | call owner call =>
      rw [(work.next_call owner call).1, users_next_of_perm rfl]
      · exact tallied
      · refine (pinned_follow work owner call _).trans ?_
        rw [(call.begins_begin work.pool owner).pinned, pinned, possible]
        exact .refl _
    | finish owner commit =>
      rw [users_next_of_perm rfl]
      · exact tallied
      · have idle : work.stage owner = .idle := possible
        simp only [next, after, pinned, Function.update_self, idle]
        exact .refl _
    | settle owner =>
      rw [users_next_settle possible]
      exact tallied_settle tallied possible

end Turn

def Light (work : Workload) (step : Step) : Prop :=
  ∀ page ∈ work.pins? step, ∀ resident ∈ work.pool.cache.frames[page]?, resident.frame.pins + 1 ≠ 0

instance (work : Workload) : DecidablePred work.Light := fun step =>
  inferInstanceAs (Decidable (∀ page ∈ work.pins? step, _))

theorem Light.roomy (light : work.Light step) (tallied : work.pool.cache.Tallied work.users) :
    work.Roomy step := by
  intro page pins resident present
  have room := light page pins resident present
  rw [← tallied.cached page resident present]
  by_contra full
  refine room (UInt32.toNat_inj.mp ?_)
  have bound := resident.frame.pins.toNat_lt
  have last : resident.frame.pins.toNat + 1 = 2 ^ 32 := by omega
  rw [UInt32.toNat_add]
  exact (congrArg (· % 2 ^ 32) last).trans (Nat.mod_self _)

theorem tallied_start {config : Config} {disk : Disk} {pool : Pool}
    (made : Pool.start config disk = .ok pool) :
    (start pool).pool.cache.Tallied (start pool).users := by
  have none : (start pool).users = fun _ _ => 0 := by
    funext page stay
    simp only [users, pinned, start, List.map_nil, Stage.pinned, List.append_nil, List.count_nil,
      finsum_zero]
  rw [none]
  obtain rfl := Pool.start_eq made
  exact Cache.tallied_empty

theorem tallied_of_course {first : Workload} (tallied : first.pool.cache.Tallied first.users)
    (course : Course Roomy first work) : work.pool.cache.Tallied work.users := by
  induction course with
  | start => exact tallied
  | step step _ possible roomy ih => exact tallied_next ih possible roomy

end Workload
end PagedTables

import Mathlib.Data.List.Perm.Basic
import PagedTables.Proofs.Pool.Tally
import PagedTables.Proofs.Sequence.Books
import PagedTables.Proofs.Sequence.Upkeep

/-! A pool that many operations share. The steps of the operations come in any order, and between them
tables are added, transactions end, and users change pages under their guards. As long as there are fewer
than 2 ^ 32 users at once, no page has too many. -/

namespace PagedTables

/-- A pool at work: the operations that are under way, the fetched pages that are not let go of yet, and
what came of all page requests so far, the last one first. -/
structure Service where
  pool : Pool
  tasks : List Task
  guards : List Guard
  log : List Fate
deriving DecidableEq

inductive Service.Turn
  /-- An operation starts, up to its first lock request. -/
  | begin (task : Task)
  | advance (index : Nat)
  | expire (index : Nat)
  | drop (guard : Guard)
  /-- Something else that requests no page. -/
  | touch (touch : Touch)
deriving DecidableEq

def Task.isNew : Task → Bool
  | access current => current.phase = .ask
  | extend _ _ => true

def Progress.guards : Progress → List Guard
  | finished (.guarded guard) => [guard]
  | _ => []

def Touch.isDrop : Touch → Bool
  | drop _ => true
  | _ => false

namespace Service

def start (pool : Pool) : Service := ⟨pool, [], [], []⟩

def put (service : Service) (index : Nat) (task : Task) (result : Pool × Progress) : Service where
  pool := result.1
  tasks := result.2.tasks ++ service.tasks.eraseIdx index
  guards := result.2.guards ++ service.guards
  log := (task.fate service.pool result.2).toList ++ service.log

/-- What cannot be done is left undone. -/
def turn (service : Service) : Turn → Service
  | .begin task =>
    if task.isNew then { service with tasks := task :: service.tasks } else service
  | .advance index =>
    match service.tasks[index]? with
    | some task => service.put index task (task.step service.pool)
    | none => service
  | .expire index =>
    match service.tasks[index]? with
    | some task =>
      if task.isWaiting then service.put index task (task.expire service.pool) else service
    | none => service
  | .drop guard =>
    if guard ∈ service.guards then
      { service with pool := (service.pool.drop guard).1, guards := service.guards.erase guard }
    else service
  | .touch touch =>
    if touch.isAside && !touch.isDrop then { service with pool := touch.run service.pool } else service

def Reaches (service later : Service) : Prop :=
  ∃ turns : List Turn, turns.foldl turn service = later

variable {service later : Service}

theorem Reaches.refl (service : Service) : service.Reaches service := ⟨[], rfl⟩

theorem Reaches.turn (reaches : service.Reaches later) (turn : Turn) :
    service.Reaches (later.turn turn) := by
  obtain ⟨turns, rfl⟩ := reaches
  exact ⟨turns ++ [turn], List.foldl_append⟩

end Service

theorem Call.begin_isNew {call : Call} {pool : Pool} {owner : TransactionId} {task : Task}
    (begun : call.begin pool owner = .running task) : task.isNew = true := by
  have begins := call.begins_begin pool owner
  have advanced : ∀ (cursor : Cursor) (toEnd : Bool), cursor.advance toEnd = .running task →
      task.isNew = true := by
    intro cursor toEnd advances
    unfold Cursor.advance at advances
    split at advances <;> cases advances
    rfl
  generalize call.begin pool owner = progress at begins begun
  cases begins with
  | failed failure => cases begun
  | scans table file registered => exact advanced _ _ begun
  | resumes cursor => exact advanced _ _ begun
  | fetches page mode =>
    cases begun
    rfl
  | places table tuple file registered some =>
    cases begun
    rfl
  | appends table tuple file registered none =>
    cases begun
    rfl
  | removes tuple record placed =>
    cases begun
    rfl

theorem Call.guards_begin (call : Call) (pool : Pool) (owner : TransactionId) :
    (call.begin pool owner).guards = [] := by
  have advanced : ∀ (cursor : Cursor) (toEnd : Bool), (cursor.advance toEnd).guards = [] := by
    intro cursor toEnd
    unfold Cursor.advance
    split <;> rfl
  have begins := call.begins_begin pool owner
  generalize call.begin pool owner = progress at begins ⊢
  cases begins with
  | failed failure => rfl
  | scans table file registered => exact advanced _ _
  | resumes cursor => exact advanced _ _
  | fetches page mode => rfl
  | places table tuple file registered some => rfl
  | appends table tuple file registered none => rfl
  | removes tuple record placed => rfl

namespace Service

theorem reaches_run (service : Service) (patient : Bool) {task : Task} (new : task.isNew = true) :
    ∃ log, service.Reaches ⟨(service.pool.run patient (.running task)).1,
      (service.pool.run patient (.running task)).2.tasks ++ service.tasks,
      (service.pool.run patient (.running task)).2.guards ++ service.guards, log⟩ := by
  have begun : service.Reaches ⟨service.pool, [task] ++ service.tasks, service.guards, service.log⟩ :=
    ⟨[.begin task], if_pos new⟩
  refine Pool.runSteps_keeps (fun between progress => ∃ log, service.Reaches
      ⟨between, progress.tasks ++ service.tasks, progress.guards ++ service.guards, log⟩)
    (fun between task ran => ?_) (fun between task waiting ran => ?_) patient
    (service.pool.stepsFor task) ⟨service.log, begun⟩
  · obtain ⟨log, ran⟩ := ran
    exact ⟨_, ran.turn (.advance 0)⟩
  · obtain ⟨log, ran⟩ := ran
    have expired := ran.turn (.expire 0)
    simp only [turn, Progress.tasks, List.singleton_append, List.getElem?_cons_zero, waiting,
      if_true] at expired
    exact ⟨_, expired⟩

/-- Whatever is asked of a pool at work takes some turns. -/
theorem reaches_perform (service : Service) (operation : Operation) :
    ∃ later, service.Reaches later ∧ later.pool = (service.pool.perform operation).1 := by
  have aside : (Touch.perform operation).isAside = true →
      ∃ later, service.Reaches later ∧ later.pool = (service.pool.perform operation).1 :=
    fun aside => ⟨_, ⟨[.touch (.perform operation)], rfl⟩,
      congrArg Service.pool (if_pos (Bool.and_eq_true_iff.mpr ⟨aside, rfl⟩))⟩
  cases operation with
  | create name schema => exact aside rfl
  | attach name schema => exact aside rfl
  | rewind cursor => exact aside rfl
  | complete owner commit => exact aside rfl
  | hook hook => exact aside rfl
  | call owner call =>
    simp only [Pool.perform]
    have ran : ∃ tasks log, service.Reaches
        ⟨(service.pool.run false (call.begin service.pool owner)).1, tasks,
          (service.pool.run false (call.begin service.pool owner)).2.guards ++ service.guards,
          log⟩ := by
      cases begun : call.begin service.pool owner with
      | finished finish =>
        have none : (Progress.finished finish).guards = [] := begun ▸ call.guards_begin _ owner
        refine ⟨service.tasks, service.log, ?_⟩
        show service.Reaches ⟨service.pool, _, (Progress.finished finish).guards ++ _, _⟩
        rw [none]
        exact .refl service
      | running task =>
        obtain ⟨log, ran⟩ := service.reaches_run false (call.begin_isNew begun)
        exact ⟨_, log, ran⟩
    -- The caller looks at a fetched page and lets go of it: one turn more.
    obtain ⟨tasks, log, ran⟩ := ran
    generalize service.pool.run false (call.begin service.pool owner) = result at ran ⊢
    obtain ⟨later, progress⟩ := result
    cases progress with
    | running task => exact ⟨_, ran, rfl⟩
    | finished finish =>
      cases finish with
      | guarded guard =>
        exact ⟨_, ran.turn (.drop guard), congrArg Service.pool (if_pos List.mem_cons_self)⟩
      | failed failure => exact ⟨_, ran, rfl⟩
      | locked => exact ⟨_, ran, rfl⟩
      | modified pages => exact ⟨_, ran, rfl⟩
      | scanned cursor failure => exact ⟨_, ran, rfl⟩

end Service

theorem Task.pinned_of_isNew {task : Task} (new : task.isNew = true) : task.pinned = [] := by
  cases task with
  | extend owner job => rfl
  | access access =>
    obtain ⟨owner, page, purpose, phase⟩ := access
    obtain rfl : phase = .ask := of_decide_eq_true new
    rfl

theorem Task.pinned_of_pins? {task : Task} {page : PageId} (pins : task.pins? = some page) :
    task.pinned = [] := by
  cases task with
  | extend owner job => rfl
  | access access =>
    obtain ⟨owner, wanted, purpose, phase⟩ := access
    cases phase with
    | pin => rfl
    | ask => rfl
    | wait => rfl
    | use stay => cases pins

theorem Task.expire_uncrowded {task : Task} (waiting : task.isWaiting = true) (pool : Pool)
    (progress : Progress) : task.fate pool progress ≠ some .crowded := by
  cases task with
  | extend owner job => cases waiting
  | access access =>
    have phase : access.phase = .wait := of_decide_eq_true waiting
    exact Access.fate_ne_crowded (by simp [phase]) _ _

theorem Task.length_pinned_le (task : Task) : task.pinned.length ≤ 1 := by
  unfold pinned
  split
  · exact Nat.le_refl 1
  · exact Nat.zero_le 1

theorem Progress.length_le (progress : Progress) :
    progress.guards.length + progress.tasks.length ≤ 1 := by
  cases progress with
  | running task => exact Nat.le_refl 1
  | finished finish => cases finish <;> simp [guards, tasks]

theorem Progress.pinned_eq (progress : Progress) : progress.pinned =
    progress.guards.map (fun guard => (guard.page, guard.stay)) ++
      progress.tasks.flatMap Task.pinned := by
  cases progress with
  | running task => exact (List.append_nil _).symm
  | finished finish => cases finish <;> rfl

theorem Pool.tallied_edit {pool : Pool} {tally : Tally} {α : Type} (tallied : pool.cache.Tallied tally)
    (guard : Guard) (change : HeapPage → Except Failure (HeapPage × α)) :
    (pool.edit guard change).1.cache.Tallied tally := by
  unfold edit
  cases pool.view guard with
  | none => exact tallied
  | some heap =>
    simp only
    cases change heap with
    | error failure => exact tallied
    | ok result => exact tallied_change tallied guard result.1

theorem Touch.tallied_run {touch : Touch} {pool : Pool} {tally : Tally}
    (aside : touch.isAside = true) (other : touch.isDrop = false)
    (tallied : pool.cache.Tallied tally) : (touch.run pool).cache.Tallied tally := by
  refine aside_keeps (fun pool => pool.cache.Tallied tally)
    (fun _ _ _ cache _ tallied => cache ▸ tallied)
    (fun _ _ guard tallied => Pool.tallied_edit tallied guard _)
    (fun _ guard same _ => ?_) (fun _ page tallied => Pool.tallied_flushPage tallied page)
    (fun _ page tallied => Pool.tallied_discardPage tallied page) aside tallied
  rw [same] at other
  cases other

namespace Service

variable {first : Pool} {service : Service} {index : Nat} {task : Task} {result : Pool × Progress}

def users (service : Service) : Nat := service.guards.length + service.tasks.length

def pinned (service : Service) : List (PageId × Nat) :=
  service.guards.map (fun guard => (guard.page, guard.stay)) ++ service.tasks.flatMap Task.pinned

theorem length_pinned_le (service : Service) : service.pinned.length ≤ service.users := by
  have each : (service.tasks.flatMap Task.pinned).length ≤ service.tasks.length := by
    induction service.tasks with
    | nil => exact Nat.le_refl 0
    | cons task tasks ih =>
      rw [List.flatMap_cons, List.length_append, List.length_cons, Nat.add_comm]
      exact Nat.add_le_add ih task.length_pinned_le
  rw [pinned, List.length_append, List.length_map]
  exact Nat.add_le_add_left each _

def without (service : Service) (index : Nat) : Service :=
  { service with tasks := service.tasks.eraseIdx index }

theorem users_without (there : service.tasks[index]? = some task) :
    (service.without index).users + 1 = service.users := by
  obtain ⟨inside, _⟩ := List.getElem?_eq_some_iff.mp there
  rw [users, users, without, Nat.add_assoc, List.length_eraseIdx_add_one inside]

theorem pinned_without (there : service.tasks[index]? = some task) :
    service.pinned.Perm ((service.without index).pinned ++ task.pinned) := by
  obtain ⟨inside, rfl⟩ := List.getElem?_eq_some_iff.mp there
  have split := (List.getElem_cons_eraseIdx_perm inside).flatMap_right Task.pinned
  rw [List.flatMap_cons] at split
  refine (split.symm.trans List.perm_append_comm).append_left _ |>.trans ?_
  rw [pinned, without, List.append_assoc]

theorem pinned_put (service : Service) (index : Nat) (task : Task) (result : Pool × Progress) :
    (service.put index task result).pinned.Perm
      ((service.without index).pinned ++ result.2.pinned) := by
  rw [Progress.pinned_eq, pinned, pinned, put, without, List.map_append, List.flatMap_append]
  refine List.perm_iff_count.mpr fun entry => ?_
  simp only [List.count_append]
  omega

theorem users_turn_le (service : Service) (turn : Turn) :
    (service.turn turn).users ≤ service.users + 1 := by
  have put : ∀ {index : Nat} {task : Task} (result : Pool × Progress),
      service.tasks[index]? = some task → (service.put index task result).users ≤ service.users + 1 := by
    intro index task result there
    have one := result.2.length_le
    have less := users_without there
    simp only [users, Service.put, without, List.length_append] at less ⊢
    omega
  cases turn with
  | begin task =>
    simp only [Service.turn]
    split
    · simp only [users, List.length_cons]
      omega
    · exact Nat.le_succ _
  | advance index =>
    simp only [Service.turn]
    split
    · next task there => exact put _ there
    · exact Nat.le_succ _
  | expire index =>
    simp only [Service.turn]
    split
    · next task there =>
      split
      · exact put _ there
      · exact Nat.le_succ _
    · exact Nat.le_succ _
  | drop guard =>
    simp only [Service.turn]
    split
    · exact Nat.le_trans (Nat.add_le_add_right (List.length_erase_le) _) (Nat.le_succ _)
    · exact Nat.le_succ _
  | touch touch =>
    simp only [Service.turn]
    split <;> exact Nat.le_succ _

theorem users_turns_le (turns : List Turn) (service : Service) :
    (turns.foldl turn service).users ≤ service.users + turns.length := by
  induction turns generalizing service with
  | nil => exact Nat.le_refl _
  | cons turn turns ih =>
    have one := service.users_turn_le turn
    have rest := ih (service.turn turn)
    rw [List.foldl_cons, List.length_cons]
    omega

/-- The pins of each page are its users, and no request has found them too many. -/
structure Attended (service : Service) : Prop where
  tallied : service.pool.cache.Tallied (Tally.plus (fun _ _ => 0) service.pinned)
  uncrowded : service.log.count .crowded = 0

theorem Attended.put (attended : service.Attended) (there : service.tasks[index]? = some task)
    (tallied : ∀ tally : Tally, (∀ page stay, tally page stay ≤ (service.without index).users) →
      service.pool.cache.Tallied (tally.plus task.pinned) →
        result.1.cache.Tallied (tally.plus result.2.pinned) ∧
          task.fate service.pool result.2 ≠ some .crowded) :
    (service.put index task result).Attended := by
  have few : ∀ page stay, Tally.plus (fun _ _ => 0) (service.without index).pinned page stay ≤
      (service.without index).users := by
    intro page stay
    rw [Tally.plus, Nat.zero_add]
    exact Nat.le_trans List.count_le_length (length_pinned_le _)
  have before := attended.tallied
  rw [Tally.plus_perm _ (pinned_without there), Tally.plus_append] at before
  obtain ⟨after, uncrowded⟩ := tallied _ few before
  constructor
  · rw [Tally.plus_perm _ (service.pinned_put index task result), Tally.plus_append]
    exact after
  · rw [Service.put, List.count_append, attended.uncrowded, Nat.add_zero, List.count_eq_zero]
    exact fun crowded => uncrowded (Option.mem_toList.mp crowded)

theorem Attended.turn (attended : service.Attended) (few : service.users < 2 ^ 32) (turn : Turn) :
    (service.turn turn).Attended := by
  cases turn with
  | begin task =>
    simp only [Service.turn]
    split
    · next new =>
      refine ⟨?_, attended.uncrowded⟩
      rw [pinned, List.flatMap_cons, task.pinned_of_isNew new]
      exact attended.tallied
    · exact attended
  | advance index =>
    simp only [Service.turn]
    cases there : service.tasks[index]? with
    | none => exact attended
    | some task =>
      -- Without the task there are fewer users than the bound, so there is room for its pin.
      refine attended.put there fun tally below tallied => ?_
      have others : (service.without index).users + 1 < 2 ^ 32 := (users_without there).symm ▸ few
      have room : ∀ page stay, tally page stay + 1 < 2 ^ 32 := fun page stay =>
        Nat.lt_of_le_of_lt (Nat.succ_le_succ (below page stay)) others
      refine ⟨Task.tallied_step tallied fun page _ resident _ => room page resident.stay, ?_⟩
      intro crowded
      obtain ⟨page, resident, asked, present, full⟩ := Task.crowded_iff.mp crowded
      -- A full count would be that of as many users as there can be.
      rw [Task.pinned_of_pins? asked, Tally.plus_nil] at tallied
      have count := tallied.pins_add_one present (room page resident.stay)
      rw [full] at count
      cases count
  | expire index =>
    simp only [Service.turn]
    cases there : service.tasks[index]? with
    | none => exact attended
    | some task =>
      simp only
      split
      · next waiting =>
        exact attended.put there fun tally _ tallied =>
          ⟨Task.tallied_expire tallied waiting, Task.expire_uncrowded waiting _ _⟩
      · exact attended
  | drop guard =>
    simp only [Service.turn]
    split
    · next held =>
      refine ⟨Pool.tallied_drop ?_, attended.uncrowded⟩
      rw [← Tally.plus_append]
      have perm := (List.perm_cons_erase held).map fun guard => (guard.page, guard.stay)
      have all : service.pinned.Perm
          (({ service with guards := service.guards.erase guard } : Service).pinned ++
            [(guard.page, guard.stay)]) :=
        (perm.append_right _).trans (List.perm_append_singleton _ _).symm
      exact Tally.plus_perm _ all ▸ attended.tallied
    · exact attended
  | touch touch =>
    simp only [Service.turn]
    split
    · next aside =>
      obtain ⟨aside, other⟩ := Bool.and_eq_true_iff.mp aside
      have other : touch.isDrop = false := by simpa using other
      exact ⟨Touch.tallied_run aside other attended.tallied, attended.uncrowded⟩
    · exact attended

theorem attended_start {config : Config} {disk : Disk} (made : Pool.start config disk = .ok first) :
    (start first).Attended := by
  refine ⟨?_, rfl⟩
  rw [Pool.start_eq made]
  exact Cache.tallied_empty

theorem Attended.turns (attended : service.Attended) (turns : List Turn)
    (few : ∀ before, before <+: turns → (before.foldl Service.turn service).users < 2 ^ 32) :
    (turns.foldl Service.turn service).Attended := by
  induction turns generalizing service with
  | nil => exact attended
  | cons turn turns ih =>
    refine ih (attended.turn (few [] List.nil_prefix) turn) fun before initial => ?_
    exact few (turn :: before) ((List.prefix_cons_inj turn).mpr initial)

end Service
end PagedTables

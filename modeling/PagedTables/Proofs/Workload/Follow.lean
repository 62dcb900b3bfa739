import PagedTables.Proofs.Workload.Advance

/-! What is written down of an operation's step, and what that comes to in the ledger. -/

namespace PagedTables

namespace Event

theorem openEdits_changes (owner other : TransactionId) (page : PageId) (edit? : Option Edit)
    (pages : List PageId) (earlier : List Event) :
    openEdits other page
        ((pages.filterMap fun place => edit?.map fun edit => changed owner place edit) ++ earlier) =
      openEdits other page earlier ++
        if owner = other then
          edit?.toList.flatMap fun edit => List.replicate (pages.count page) edit
        else [] := by
  cases edit? with
  | none => simp
  | some edit =>
    induction pages with
    | nil => simp
    | cons place pages ih =>
      simp only [Option.map_some, List.filterMap_cons, List.cons_append, openEdits,
        Option.toList_some, List.flatMap_cons, List.flatMap_nil, List.append_nil] at ih ⊢
      rw [ih]
      by_cases mine : owner = other <;> by_cases here : place = page
      · simp [mine, here, List.replicate_succ', List.append_assoc]
      · simp [mine, here, List.count_cons_of_ne here]
      · simp [mine]
      · simp [mine]

theorem committedEdits_changes (owner : TransactionId) (page : PageId) (edit? : Option Edit)
    (pages : List PageId) (earlier : List Event) :
    committedEdits page
        ((pages.filterMap fun place => edit?.map fun edit => changed owner place edit) ++ earlier) =
      committedEdits page earlier := by
  cases edit? with
  | none => simp
  | some edit =>
    induction pages with
    | nil => rfl
    | cons place pages ih => exact ih

end Event

namespace Workload

variable {start : Disk} {work : Workload} {owner : TransactionId} {call : Call} {task : Task}

theorem follow_committed (work : Workload) (owner : TransactionId) (call : Call)
    (progress : Progress) (page : PageId) :
    Event.committedEdits page (work.follow owner call progress).history =
      Event.committedEdits page work.history := by
  cases progress with
  | running task => rfl
  | finished finish =>
    cases finish with
    | modified pages => exact Event.committedEdits_changes owner page call.edit? pages work.history
    | guarded guard => rfl
    | failed failure => rfl
    | locked => rfl
    | scanned cursor failure => rfl

theorem follow_made_of_ne (work : Workload) {owner other : TransactionId} (apart : other ≠ owner)
    (call : Call) (progress : Progress) (page : PageId) :
    (work.follow owner call progress).made other page = work.made other page := by
  cases progress with
  | running task => rfl
  | finished finish =>
    cases finish with
    | modified pages =>
      have changes := Event.openEdits_changes owner other page call.edit? pages work.history
      rwa [if_neg (Ne.symm apart), List.append_nil] at changes
    | guarded guard => rfl
    | failed failure => rfl
    | locked => rfl
    | scanned cursor failure => rfl

theorem follow_pending (work : Workload) (owner : TransactionId) (call : Call)
    (progress : Progress) (page : PageId) :
    (work.follow owner call progress).ledger.pending owner page =
      work.made owner page ++ progress.halfway call page := by
  simp only [ledger, follow_stage, Function.update_self]
  cases progress with
  | running task => rfl
  | finished finish =>
    cases finish with
    | modified pages =>
      have changes := Event.openEdits_changes owner owner page call.edit? pages work.history
      rwa [if_pos rfl] at changes
    | guarded guard => exact (List.append_nil _).symm
    | failed failure => exact (List.append_nil _).symm
    | locked => exact (List.append_nil _).symm
    | scanned cursor failure => exact (List.append_nil _).symm

theorem follow_ledger (work : Workload) {owner : TransactionId}
    (quiet : (work.stage owner).isEnding = false) (call : Call) (progress : Progress) :
    (work.follow owner call progress).ledger =
      work.ledger.revise owner fun page => work.made owner page ++ progress.halfway call page := by
  have committed : (work.follow owner call progress).ledger.committed = work.ledger.committed :=
    funext (work.follow_committed owner call progress)
  have pending : (work.follow owner call progress).ledger.pending =
      Function.update work.ledger.pending owner fun page =>
        work.made owner page ++ progress.halfway call page := by
    funext other page
    by_cases mine : other = owner
    · rw [mine, Function.update_self, follow_pending]
    · rw [Function.update_of_ne mine]
      simp only [ledger, follow_stage, Function.update_of_ne mine, work.follow_made_of_ne mine]
  have written : (work.follow owner call progress).ledger.written = work.ledger.written := by
    funext other page
    by_cases mine : other = owner
    · subst mine
      rw [written_of_not_ending quiet page, written_of_not_ending]
      rw [follow_stage, Function.update_self]
      cases progress <;> rfl
    · simp only [ledger, follow_stage, Function.update_of_ne mine, work.follow_made_of_ne mine]
  exact Ledger.ext committed pending written

theorem Coherent.follow (coherent : work.Coherent start)
    (quiet : (work.stage owner).isEnding = false) {pool : Pool} {progress : Progress}
    (moved : Task.Moved start work.ledger work.pool call (work.made owner) owner
      (pool, progress)) :
    Turn start work (({ work with pool } : Workload).follow owner call progress) owner := by
  have after : (({ work with pool } : Workload).follow owner call progress).ledger =
      work.ledger.revise owner fun page => work.made owner page ++ progress.halfway call page :=
    follow_ledger { work with pool } quiet call progress
  -- The ledger gains what the operation has done halfway, and that is what the step was shown to
  -- keep.
  have fits := moved.fits
  have kept : ∀ guard ∈ work.guards owner, pool.locks.table.Holds owner guard.page .shared :=
    fun guard member => moved.keeps _ _ ((coherent.inStep owner).guards guard member)
  refine ⟨?_, fun other apart => ?_, fun other apart => ?_,
    ⟨fun guard member => ?_, fun call' task here => ?_, fun commit rest here => ?_⟩,
    fun _ _ page => ⟨fun mode holds => ?_, fun _ => ?_, ?_⟩⟩
  · rw [after, follow_pool]
    exact moved.move
  · rw [follow_stage, Function.update_of_ne apart]
  · rw [follow_guards, Function.update_of_ne apart]
  · rw [follow_guards, Function.update_self] at member
    rw [follow_pool]
    split at member
    · next guarded =>
      rcases List.mem_cons.mp member with rfl | old
      · exact fits
      · exact kept guard old
    · exact kept guard member
  · rw [follow_stage, Function.update_self] at here
    rw [after, follow_pool]
    cases progress with
    | running task =>
      cases here
      exact fits
    | finished finish => cases here
  · rw [follow_stage, Function.update_self] at here
    cases progress <;> cases here
  · rw [follow_pool]
    exact moved.keeps page mode holds
  · rw [after]
    rfl
  · obtain ⟨edits, appends⟩ := moved.appends page
    exact ⟨edits, by rw [after, Ledger.pending_revise, appends]⟩

end Workload
end PagedTables

import PagedTables.Proofs.Workload.Actions
import PagedTables.Proofs.Workload.Reuse

/-! What is in the files. At every point of every run, a page of a file is what the transactions that
have committed make of it, one after another. -/

namespace PagedTables.Workload

section Complete

variable {allowed : Action → Prop} {first work later : Workload} {owner : TransactionId}

theorem Run.trans (run : Run allowed first work) (run' : Run allowed work later) :
    Run allowed first later := by
  induction run' with
  | start => exact run
  | step action _ kind enabled ih => exact ih.step action kind enabled

theorem Run.mono {wider : Action → Prop} (run : Run allowed first work)
    (wide : ∀ action, allowed action → wider action) : Run wider first work := by
  induction run with
  | start => exact .start
  | step action _ kind enabled ih => exact .step action ih (wide action kind) enabled

theorem Run.once (action : Action) (kind : allowed action) (enabled : work.Enabled action) :
    Run allowed work (work.after action) :=
  .step action .start kind enabled

theorem run_settle {commit : Bool} {rest : List PageId} {pool : Pool}
    (here : work.stage owner = .ending commit rest)
    (settled : if commit then work.pool.flushEach rest = (pool, .ok ())
      else work.pool.discardEach rest = pool) :
    Run (· = .settle owner) work
      { work with
        pool := pool.releaseAll owner
        stage := Function.update work.stage owner .idle
        history := .ended owner commit :: work.history } := by
  -- By induction on the pages that are still to be settled.
  induction rest generalizing work with
  | nil =>
    have same : work.pool = pool := by
      cases commit with
      | true => exact congrArg Prod.fst settled
      | false => exact settled
    have last : Run (· = .settle owner) work (work.after (.settle owner)) :=
      .once _ rfl (by simp [Enabled, canSettle, here, Stage.isEnding])
    simpa only [after, here, same] using last
  | cons page rest ih =>
    have next : (work.pool.settlePage commit page).2.isOk = true ∧
        if commit then (work.pool.settlePage commit page).1.flushEach rest = (pool, .ok ())
        else (work.pool.settlePage commit page).1.discardEach rest = pool := by
      cases commit with
      | false => exact ⟨rfl, settled⟩
      | true =>
        simp only [if_true, Pool.flushEach, Pool.settlePage] at settled ⊢
        split at settled
        · cases settled
        · next flushed same =>
          rw [same]
          exact ⟨rfl, settled⟩
    have step : Run (· = .settle owner) work (work.after (.settle owner)) :=
      .once _ rfl (by simpa [Enabled, canSettle, here] using next.1)
    have there : (work.after (.settle owner)).stage owner = .ending commit rest := by
      simp [after, here]
    refine step.trans ?_
    have onward := ih there (by simpa only [after, here] using next.2)
    simpa only [after, here, Function.update_idem] using onward

theorem run_complete {commit : Bool} {pool : Pool} (idle : work.stage owner = .idle)
    (released : work.guards owner = [])
    (completed : work.pool.complete owner commit = (pool, .ok ())) :
    Run (fun action => action = .finish owner commit ∨ action = .settle owner) work
      { work with pool, history := .ended owner commit :: work.history } := by
  obtain ⟨settled, same, whole⟩ : ∃ settled : Pool, settled.releaseAll owner = pool ∧
      if commit then work.pool.flushEach (work.pool.heldPages owner) = (settled, .ok ())
      else work.pool.discardEach (work.pool.heldPages owner) = settled := by
    cases commit with
    | false => exact ⟨_, congrArg Prod.fst completed, rfl⟩
    | true =>
      simp only [Pool.complete, if_true, Pool.flushHeld] at completed
      split at completed
      · cases completed
      · next settled flushed => exact ⟨settled, congrArg Prod.fst completed, flushed⟩
  have finish : Run (fun action => action = .finish owner commit ∨ action = .settle owner) work
      (work.after (.finish owner commit)) := .once _ (.inl rfl) ⟨idle, released⟩
  have here : (work.after (.finish owner commit)).stage owner =
      .ending commit (work.pool.heldPages owner) := by simp [after]
  have settle := run_settle here whole
  have stage : Function.update work.stage owner .idle = work.stage := by
    rw [← idle, Function.update_eq_self]
  simp only [after, Function.update_idem, stage, same] at settle
  exact finish.trans (settle.mono fun _ => .inr)

end Complete

def Committing (work : Workload) (owner : TransactionId) (page : PageId) : Prop :=
  ∃ rest, work.stage owner = .ending true rest ∧ page ∉ rest ∧ work.made owner page ≠ []

theorem written_of_committing {work : Workload} {owner : TransactionId} {page : PageId}
    (committing : work.Committing owner page) :
    work.ledger.written owner page = work.made owner page := by
  obtain ⟨rest, here, written, _⟩ := committing
  simp [ledger, here, Stage.written, written]

theorem committing_of_written {work : Workload} {owner : TransactionId} {page : PageId}
    (written : work.ledger.written owner page ≠ []) : work.Committing owner page := by
  simp only [ledger] at written
  cases here : work.stage owner with
  | idle => simp [here, Stage.written] at written
  | working call task => simp [here, Stage.written] at written
  | ending commit rest =>
    cases commit with
    | false => simp [here, Stage.written] at written
    | true =>
      simp only [here, Stage.written, ne_eq, ite_eq_left_iff, not_forall] at written
      obtain ⟨absent, edits⟩ := written
      exact ⟨rest, here, absent, edits⟩

/-- A page of a file has the edits of the transactions that have committed, in the order of their
commits, and those of a commit that is not over but has come by the page. No other edit shows. -/
theorem stored_eq_committed {config : Config} {disk : Disk} {pool : Pool} {work : Workload}
    {page : PageId} {file : HeapFile} (small : config.pageSize < 2 ^ 32)
    (begins : Pool.start config disk = .ok pool) (run : Run (fun _ => True) (start pool) work)
    (few : work.registrations ≤ 2 ^ 32)
    (registered : work.pool.tables[page.table]? = some file) :
    ((∀ owner, ¬work.Committing owner page) →
      file.stored work.pool.disk page =
        file.replayed disk page (Event.committedEdits page work.history)) ∧
    ∀ owner, work.Committing owner page →
      file.stored work.pool.disk page =
        file.replayed disk page (Event.committedEdits page work.history ++ work.made owner page) := by
  have balanced := (coherent_of_run run few (coherent_start small begins)).balanced page
  constructor
  · intro nobody
    refine balanced.settled file registered fun owner => ?_
    by_contra written
    exact nobody owner (committing_of_written written)
  · intro owner committing
    have written := written_of_committing committing
    obtain ⟨_, _, _, edits⟩ := committing
    rw [← written] at edits ⊢
    exact balanced.ahead file owner registered edits

/-- The first writer commits while the second waits; the second aborts. The commit of the third has
written its page and not given its lock back. -/
def threeWriters : List Action :=
  .create "numbers" numbers :: puts ⟨1⟩ 7 7 ++ puts ⟨2⟩ 9 1 ++
    [.finish ⟨1⟩ true, .settle ⟨1⟩, .settle ⟨1⟩] ++ List.replicate 6 (.advance ⟨2⟩) ++
    [.finish ⟨2⟩ false, .settle ⟨2⟩, .settle ⟨2⟩] ++ puts ⟨3⟩ 5 6 ++ [.finish ⟨3⟩ true, .settle ⟨3⟩]

theorem stored_eq_committed_threeWriters :
    let work := threeWriters.foldl after (start smallPool)
    let page : PageId := ⟨⟨0⟩, 0⟩
    ∃ file, work.pool.tables[page.table]? = some file ∧
      file.stored work.pool.disk page = file.replayed .blank page
        [.insert (.ofFields [.int 7]), .insert (.ofFields [.int 5])] := by
  intro work page
  have begins : Pool.start smallPool.config .blank = .ok smallPool := rfl
  have run : Run (fun _ => True) (start smallPool) work :=
    Run.of_legal threeWriters .start (fun _ _ => trivial) (by decide +kernel)
  have third : work.stage ⟨3⟩ = .ending true [] := by decide +kernel
  have committed : Event.committedEdits page work.history = [.insert (.ofFields [.int 7])] := by
    decide +kernel
  have made : work.made ⟨3⟩ page = [.insert (.ofFields [.int 5])] := by decide +kernel
  have present : work.pool.tables[page.table]?.isSome = true := by decide +kernel
  obtain ⟨file, registered⟩ := Option.isSome_iff_exists.mp present
  have stored := (stored_eq_committed (by decide) begins run (by decide +kernel) registered).2 ⟨3⟩
    ⟨[], third, List.not_mem_nil, by simp [made]⟩
  rw [committed, made] at stored
  exact ⟨file, registered, stored⟩

/-- A table has the id and the cached page of another one, which a number was put into. The next number
goes on that page, and both are written over what there is in the file. -/
theorem not_stored_eq_committed :
    ¬∀ {config : Config} {disk : Disk} {pool : Pool} {work : Workload} {page : PageId}
      {file : HeapFile}, config.pageSize < 2 ^ 32 → Pool.start config disk = .ok pool →
      Run (fun _ => True) (start pool) work → work.pool.tables[page.table]? = some file →
        ∀ owner, work.Committing owner page → file.stored work.pool.disk page =
          file.replayed disk page (Event.committedEdits page work.history ++ work.made owner page) := by
  intro stored
  let page : PageId := ⟨⟨0⟩, 0⟩
  let fills : List Action := .create "numbers" numbers :: filling
  let filled := fills.foldl after (start archived)
  let writes : List Action :=
    .attach "archive" numbers :: puts ⟨2⟩ 8 6 ++ [.finish ⟨2⟩ true, .settle ⟨2⟩]
  let work := writes.foldl after (filled.passed (2 ^ 32 - 1))
  have made : Pool.start archived.config archived.disk = .ok archived := rfl
  have run : Run (fun _ => True) (start archived) filled :=
    .of_legal fills .start (fun _ _ => trivial) (by decide +kernel)
  have missing : filled.pool.disk.find "missing" = .error (.system SystemError.noSuchFile) := by
    decide +kernel
  have passed := run.passed missing numbers trivial (2 ^ 32 - 1)
  have onward : Run (fun _ => True) (start archived) work :=
    passed.of_legal writes (fun _ _ => trivial) (by decide +kernel)
  have written : work.stage ⟨2⟩ = .ending true [] ∧ work.made ⟨2⟩ page ≠ [] := by decide +kernel
  have differs : (work.pool.tables[page.table]?.any fun file => file.stored work.pool.disk page ≠
      file.replayed archived.disk page
        (Event.committedEdits page work.history ++ work.made ⟨2⟩ page)) = true := by decide +kernel
  obtain ⟨file, registered, differs⟩ := (Option.any_eq_true _ _).mp differs
  exact of_decide_eq_true differs (stored (by decide) made onward registered ⟨2⟩
    ⟨[], written.1, List.not_mem_nil, written.2⟩)

end PagedTables.Workload

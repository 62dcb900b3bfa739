import Mathlib.Data.List.Chain
import PagedTables.Proofs.Lock.Quiescence

/-! Deadlocks are real. As long as locks are only given back all at once, every edge of the wait
graph stands for a request that waits and a holder that is in its way, so a request is refused as a
deadlock only if it closes a circle of such requests. -/

namespace PagedTables
open Relation

namespace LockTable

/-- A transaction holds the page that another one asks for, and one of them wants it for itself. -/
def Conflicts (table : LockTable) (request : LockRequest) (holder : TransactionId) : Prop :=
  holder ≠ request.owner ∧ ∃ lock, table.locks[request.page]? = some lock ∧
    holder ∈ lock.holders ∧ (lock.mode = .exclusive ∨ request.mode = .exclusive)

theorem conflicts_of_refused {table : LockTable} {request : LockRequest} {holder : TransactionId}
    (refused : Lock.request table.locks[request.page]? request.owner request.mode = .refused)
    (held : holder ∈ table.holdersOf request.page) (apart : holder ≠ request.owner) :
    table.Conflicts request holder := by
  obtain ⟨lock, found, _, exclusive⟩ := Lock.request_eq_refused_iff.mp refused
  obtain ⟨same, present, member⟩ := mem_holdersOf.mp held
  obtain rfl : same = lock := by simpa [present] using found
  exact ⟨apart, same, found, member, exclusive⟩

theorem Conflicts.grant {table : LockTable} {request : LockRequest} {holder : TransactionId}
    (conflicts : table.Conflicts request holder) {page : PageId} {owner : TransactionId}
    {mode : LockMode} {lock : Lock}
    (answer : Lock.request table.locks[page]? owner mode = .granted lock ∨
      Lock.request table.locks[page]? owner mode = .joined lock) :
    (table.grant page owner lock).Conflicts request holder := by
  obtain ⟨apart, wanted, found, member, exclusive⟩ := conflicts
  by_cases same : request.page = page
  · subst same
    refine ⟨apart, lock, by simp [getElem?_grant], ?_⟩
    rcases answer with plain | joining
    · rcases Lock.request_granted plain with ⟨free, _⟩ | ⟨old, held, holders, _, raised, _⟩
      · rw [free] at found
        cases found
      · obtain rfl : old = wanted := by simpa [held] using found
        exact ⟨holders ▸ member, exclusive.imp_left fun mode => (raised (.inl mode)).1⟩
    · obtain ⟨old, held, shared, _, _, rfl⟩ := Lock.request_joined joining
      obtain rfl : old = wanted := by simpa [held] using found
      exact ⟨Lock.mem_insert.mpr (.inr member), exclusive⟩
  · exact ⟨apart, wanted, by rwa [getElem?_grant, if_neg same], member, exclusive⟩

theorem Conflicts.releaseAll {table : LockTable} {request : LockRequest} {holder : TransactionId}
    (conflicts : table.Conflicts request holder) {owner : TransactionId} (other : holder ≠ owner) :
    (table.releaseAll owner).Conflicts request holder := by
  obtain ⟨apart, lock, found, member, exclusive⟩ := conflicts
  refine ⟨apart, ?_⟩
  rw [getElem?_releaseAll, found]
  split
  · cases left : lock.without owner with
    | none => exact absurd (Lock.without_eq_none.mp left holder member) other
    | some smaller =>
      obtain ⟨mode, members⟩ := Lock.without_eq_some left
      exact ⟨smaller, left, (members holder).mpr ⟨other, member⟩, mode ▸ exclusive⟩
  · exact ⟨lock, rfl, member, exclusive⟩

end LockTable

namespace LockManager

/-- A transaction has a request that waits, or is just being made, for a page that the other one
holds. -/
def Obstructs (table : LockTable) (requests : List LockRequest)
    (waiter holder : TransactionId) : Prop :=
  ∃ request ∈ requests, request.owner = waiter ∧ table.Conflicts request holder

/-- Every edge stands for a request that waits. -/
def Justified (manager : LockManager) : Prop :=
  ∀ waiter holder, manager.table.waits.Waits waiter holder →
    Obstructs manager.table manager.waiting waiter holder

variable {manager : LockManager} {request : LockRequest}

theorem Obstructs.cons {table : LockTable} {requests : List LockRequest}
    {waiter holder : TransactionId} (obstructs : Obstructs table requests waiter holder) :
    Obstructs table (request :: requests) waiter holder := by
  obtain ⟨other, member, rest⟩ := obstructs
  exact ⟨other, List.mem_cons_of_mem _ member, rest⟩

theorem Obstructs.withdraw {table : LockTable} {waiter holder : TransactionId}
    (obstructs : Obstructs table manager.waiting waiter holder) (apart : waiter ≠ request.owner) :
    Obstructs table (manager.withdraw request).waiting waiter holder := by
  obtain ⟨other, member, rfl, conflicts⟩ := obstructs
  refine ⟨other, mem_waiting_withdraw.mpr ⟨member, ?_⟩, rfl, conflicts⟩
  rintro rfl
  exact apart rfl

theorem Justified.refuse (justified : manager.Justified)
    (refused : Lock.request manager.table.locks[request.page]? request.owner request.mode =
      .refused) {waiter holder : TransactionId}
    (edge : (manager.table.waits.setWaiting request.owner
      (manager.table.holdersOf request.page).toList).Waits waiter holder) :
    (waiter = request.owner ∧ manager.table.Conflicts request holder) ∨
      (waiter ≠ request.owner ∧ Obstructs manager.table manager.waiting waiter holder) := by
  rw [LockTable.waits_refuse] at edge
  split at edge
  · next own => exact .inl ⟨own, LockTable.conflicts_of_refused refused edge.1 edge.2⟩
  · next apart => exact .inr ⟨apart, justified waiter holder edge⟩

theorem Justified.look (justified : manager.Justified) (request : LockRequest)
    (waiter holder : TransactionId)
    (edge : (manager.look request).1.table.waits.Waits waiter holder) :
    (waiter = request.owner ∧ (manager.look request).2 = .refused ∧
      (manager.look request).1.table.Conflicts request holder) ∨
      (waiter ≠ request.owner ∧
        Obstructs (manager.look request).1.table (manager.look request).1.waiting waiter holder) := by
  have outcome := manager.table.attempt_outcome request.page request.owner request.mode
  have kept : (manager.look request).1.waiting = (manager.withdraw request).waiting := rfl
  rw [kept]
  -- The owner's edges are new or gone, so every old one belongs to a request that still waits.
  simp only [LockManager.look] at edge ⊢
  generalize manager.table.attempt request.page request.owner request.mode = result
    at outcome edge ⊢
  cases outcome with
  | granted lock answer =>
    obtain ⟨apart, edge⟩ := WaitGraph.waits_clearWaiting.mp edge
    obtain ⟨other, member, own, conflicts⟩ := (justified waiter holder edge).withdraw apart
    exact .inr ⟨apart, other, member, own, conflicts.grant (.inl answer)⟩
  | joined lock answer =>
    obtain ⟨apart, edge⟩ := WaitGraph.waits_clearWaiting.mp edge
    obtain ⟨other, member, own, conflicts⟩ := (justified waiter holder edge).withdraw apart
    exact .inr ⟨apart, other, member, own, conflicts.grant (.inr answer)⟩
  | refused answer free =>
    rcases justified.refuse answer edge with ⟨own, conflicts⟩ | ⟨apart, obstructs⟩
    · exact .inl ⟨own, rfl, conflicts⟩
    · exact .inr ⟨apart, obstructs.withdraw apart⟩
  | deadlock answer closed =>
    obtain ⟨apart, edge⟩ := WaitGraph.waits_clearWaiting.mp edge
    rcases justified.refuse answer edge with ⟨own, _⟩ | ⟨_, obstructs⟩
    · exact absurd own apart
    · exact .inr ⟨apart, obstructs.withdraw apart⟩

theorem Justified.releaseAll (justified : manager.Justified) {owner : TransactionId} :
    ({ manager with table := manager.table.releaseAll owner } : LockManager).Justified := by
  intro waiter holder edge
  obtain ⟨_, other, edge⟩ := WaitGraph.waits_remove.mp edge
  obtain ⟨request, member, own, conflicts⟩ := justified waiter holder edge
  exact ⟨request, member, own, conflicts.releaseAll other⟩

theorem exists_nodup_path {relation : TransactionId → TransactionId → Prop}
    {start goal : TransactionId} (path : ReflTransGen relation start goal) :
    ∃ rest, List.IsChain relation (start :: rest) ∧ (start :: rest).getLast? = some goal ∧
      (start :: rest).Nodup := by
  induction path using ReflTransGen.head_induction_on with
  | refl => exact ⟨[], by simp⟩
  | @head start next edge _ ih =>
    obtain ⟨rest, chain, last, distinct⟩ := ih
    -- If the start comes again, the path begins there instead.
    by_cases seen : start ∈ next :: rest
    · obtain ⟨before, behind, split⟩ := List.append_of_mem seen
      rw [split] at chain last distinct
      refine ⟨behind, chain.right_of_append, ?_, (List.nodup_append.mp distinct).2.1⟩
      rwa [List.getLast?_append_of_ne_nil _ (List.cons_ne_nil _ _)] at last
    · exact ⟨next :: rest, chain.cons_cons edge, by rwa [List.getLast?_cons_cons],
        List.nodup_cons.mpr ⟨seen, distinct⟩⟩

theorem Justified.circle (justified : manager.Justified)
    (deadlock : (manager.table.attempt request.page request.owner request.mode).2 = .deadlock) :
    ∃ circle, List.IsChain (Obstructs manager.table (request :: manager.waiting))
        (request.owner :: circle) ∧
      circle.getLast? = some request.owner ∧ circle.Nodup := by
  have outcome := manager.table.attempt_outcome request.page request.owner request.mode
  generalize manager.table.attempt request.page request.owner request.mode = result
    at outcome deadlock
  cases outcome with
  | granted lock answer => cases deadlock
  | joined lock answer => cases deadlock
  | refused answer free => cases deadlock
  | deadlock answer closed =>
    -- An edge of the cycle is one of the request's own or stands for a request that waits.
    have cycle := TransGen.mono (p := Obstructs manager.table (request :: manager.waiting))
      (fun waiter holder edge => ?_) _ _ (WaitGraph.isOnCycle_iff.mp closed)
    · obtain ⟨next, edge, path⟩ := TransGen.head'_iff.mp cycle
      obtain ⟨rest, chain, last, distinct⟩ := exists_nodup_path path
      exact ⟨next :: rest, chain.cons_cons edge, last, distinct⟩
    · rcases justified.refuse answer edge with ⟨rfl, conflicts⟩ | ⟨_, obstructs⟩
      · exact ⟨request, List.mem_cons_self, rfl, conflicts⟩
      · exact obstructs.cons

end LockManager

namespace Traffic

variable {traffic : Traffic} {request : LockRequest}

theorem justified_answer (justified : traffic.manager.Justified)
    {refused : LockManager → LockRequest → LockManager}
    (kind : refused = .sleep ∨ refused = .giveUp) :
    (traffic.answer request refused).manager.Justified := by
  have edges := fun waiter holder => justified.look request waiter holder
  simp only [answer]
  generalize traffic.manager.look request = result at edges ⊢
  obtain ⟨manager, decision⟩ := result
  have others : decision ≠ .refused → manager.Justified := fun plain waiter holder edge =>
    (edges waiter holder edge).elim (fun own => absurd own.2.1 plain) (·.2)
  cases decision with
  | granted => exact others (by simp)
  | joined => exact others (by simp)
  | deadlock => exact others (by simp)
  | refused =>
    rcases kind with rfl | rfl
    · intro waiter holder edge
      rcases edges waiter holder edge with ⟨rfl, _, conflicts⟩ | ⟨_, other, member, rest⟩
      · exact ⟨request, LockManager.mem_waiting_sleep.mpr (.inr rfl), rfl, conflicts⟩
      · exact ⟨other, LockManager.mem_waiting_sleep.mpr (.inl member), rest⟩
    · intro waiter holder edge
      obtain ⟨apart, edge⟩ := WaitGraph.waits_clearWaiting.mp edge
      rcases edges waiter holder edge with ⟨own, _⟩ | ⟨_, obstructs⟩
      · exact absurd own apart
      · exact obstructs

theorem justified_after (justified : traffic.manager.Justified) {turn : Turn}
    (strict : turn.isStrict = true) : (traffic.after turn).manager.Justified := by
  cases turn with
  | ask request => exact justified_answer justified (.inl rfl)
  | retry request => exact justified_answer justified (.inl rfl)
  | expire request => exact justified_answer justified (.inr rfl)
  | tryOnce request => cases strict
  | release page owner => cases strict
  | releaseAll owner => exact justified.releaseAll
  | notify =>
    intro waiter holder edge
    obtain ⟨request, member, rest⟩ := justified waiter holder edge
    exact ⟨request, LockManager.mem_waiting_wake.mpr member, rest⟩

theorem Run.justified (run : Run (Turn.isStrict ·) traffic) : traffic.manager.Justified := by
  induction run with
  | start =>
    intro waiter holder edge
    exact absurd edge (WaitGraph.not_waits_empty waiter holder)
  | step turn _ strict _ ih => exact justified_after ih strict

/-- Edges never tell a lie, and a deadlock is only reported where there is one. -/
theorem deadlock_closes_circle {traffic : Traffic} (run : Run (Turn.isStrict ·) traffic) :
    traffic.manager.table.waits.Acyclic ∧
    (∀ waiter holder, traffic.manager.table.waits.Waits waiter holder →
      LockManager.Obstructs traffic.manager.table traffic.manager.waiting waiter holder) ∧
    ∀ request : LockRequest,
      (traffic.manager.acquire request.page request.owner request.mode).2 = .deadlock ∨
        (traffic.manager.expire request.page request.owner request.mode).2 = .deadlock →
      ∃ circle,
        List.IsChain
          (LockManager.Obstructs traffic.manager.table (request :: traffic.manager.waiting))
          (request.owner :: circle) ∧
        circle.getLast? = some request.owner ∧ circle.Nodup := by
  refine ⟨run.sound.acyclic, run.justified, fun request deadlock => run.justified.circle ?_⟩
  rw [LockManager.acquire_answer, LockManager.expire_answer] at deadlock
  generalize traffic.manager.table.attempt request.page request.owner request.mode = result
    at deadlock ⊢
  obtain ⟨table, decision⟩ := result
  cases decision <;> simp at deadlock ⊢

/-- The late reader asks for what the writer holds. -/
theorem deadlock_lateReader :
    let traffic := lateReader.foldl after start
    (traffic.manager.acquire ⟨⟨0⟩, 1⟩ ⟨4⟩ .exclusive).2 = .deadlock ∧
      ∃ circle,
        List.IsChain
          (LockManager.Obstructs traffic.manager.table
            (⟨⟨⟨0⟩, 1⟩, ⟨4⟩, .exclusive⟩ :: traffic.manager.waiting)) (⟨4⟩ :: circle) ∧
        circle.getLast? = some ⟨4⟩ ∧ circle.Nodup := by
  intro traffic
  have run : Run (Turn.isStrict ·) traffic :=
    Run.of_legal lateReader .start (by decide +kernel)
  have deadlock : (traffic.manager.acquire ⟨⟨0⟩, 1⟩ ⟨4⟩ .exclusive).2 = .deadlock := by
    decide +kernel
  exact ⟨deadlock, (deadlock_closes_circle run).2.2 ⟨⟨⟨0⟩, 1⟩, ⟨4⟩, .exclusive⟩ (.inl deadlock)⟩

end Traffic
end PagedTables

import PagedTables.Lock.Manager
import PagedTables.Proofs.Lock.Attempt

/-! The lock manager as a step relation. Its steps are its critical sections, in any order; whoever
has to wake the others does so in a section of its own, so that others can come in between. -/

namespace PagedTables

namespace LockManager

def waiting (manager : LockManager) : List LockRequest := manager.sleeping ++ manager.due

def Idle (manager : LockManager) (owner : TransactionId) : Prop :=
  ∀ request ∈ manager.waiting, request.owner ≠ owner

/-- Looks at a request once; nobody is woken yet, and the request is not put to sleep. -/
def look (manager : LockManager) (request : LockRequest) : LockManager × Decision :=
  let (table, decision) := manager.table.attempt request.page request.owner request.mode
  ({ manager.withdraw request with table }, decision)

def sleep (manager : LockManager) (request : LockRequest) : LockManager :=
  { manager with sleeping := manager.sleeping ++ [request] }

def giveUp (manager : LockManager) (request : LockRequest) : LockManager :=
  { manager with table := manager.table.clearWaiting request.owner }

end LockManager

inductive Turn
  | ask (request : LockRequest)
  | retry (request : LockRequest)
  | expire (request : LockRequest)
  | tryOnce (request : LockRequest)
  | release (page : PageId) (owner : TransactionId)
  | releaseAll (owner : TransactionId)
  | notify
deriving DecidableEq

/-- Locks are given back all at once, and whoever is refused waits. -/
def Turn.isStrict : Turn → Bool
  | .ask _ | .retry _ | .expire _ | .releaseAll _ | .notify => true
  | .tryOnce _ | .release _ _ => false

structure Traffic where
  manager : LockManager
  /-- How many times everybody is still to be woken. -/
  notices : Nat
deriving DecidableEq

namespace Traffic

def start : Traffic := ⟨.empty, 0⟩

def answer (traffic : Traffic) (request : LockRequest)
    (refused : LockManager → LockRequest → LockManager) : Traffic :=
  match traffic.manager.look request with
  | (manager, .granted) => { traffic with manager }
  | (manager, .joined) => ⟨manager, traffic.notices + 1⟩
  | (manager, .refused) => { traffic with manager := refused manager request }
  | (manager, .deadlock) => { traffic with manager }

def Enabled (traffic : Traffic) : Turn → Prop
  | .ask request => traffic.manager.Idle request.owner
  | .retry request => request ∈ traffic.manager.due
  | .expire request => request ∈ traffic.manager.waiting
  | .tryOnce request => traffic.manager.Idle request.owner
  | .release _ owner => traffic.manager.Idle owner
  | .releaseAll owner => traffic.manager.Idle owner
  | .notify => 0 < traffic.notices

def after (traffic : Traffic) : Turn → Traffic
  | .ask request => traffic.answer request .sleep
  | .retry request => traffic.answer request .sleep
  | .expire request => traffic.answer request .giveUp
  | .tryOnce request => traffic.answer request fun manager _ => manager
  | .release page owner =>
    let manager := traffic.manager
    ⟨{ manager with table := manager.table.release page owner }, traffic.notices + 1⟩
  | .releaseAll owner =>
    let manager := traffic.manager
    ⟨{ manager with table := manager.table.releaseAll owner }, traffic.notices + 1⟩
  | .notify => ⟨traffic.manager.wake, traffic.notices - 1⟩

/-- What a run of turns of an allowed kind leads to. A transaction has at most one request that
waits, and does nothing else meanwhile. -/
inductive Run (allowed : Turn → Prop) : Traffic → Prop
  | start : Run allowed start
  | step {traffic : Traffic} (turn : Turn) (run : Run allowed traffic) (kind : allowed turn)
      (enabled : traffic.Enabled turn) : Run allowed (traffic.after turn)

instance (traffic : Traffic) : (turn : Turn) → Decidable (traffic.Enabled turn)
  | .ask request | .tryOnce request =>
    inferInstanceAs (Decidable (∀ other ∈ traffic.manager.waiting, other.owner ≠ request.owner))
  | .retry request => inferInstanceAs (Decidable (request ∈ traffic.manager.due))
  | .expire request => inferInstanceAs (Decidable (request ∈ traffic.manager.waiting))
  | .release _ owner | .releaseAll owner =>
    inferInstanceAs (Decidable (∀ other ∈ traffic.manager.waiting, other.owner ≠ owner))
  | .notify => inferInstanceAs (Decidable (0 < traffic.notices))

def Legal (allowed : Turn → Bool) : Traffic → List Turn → Bool
  | _, [] => true
  | traffic, turn :: turns =>
    allowed turn && decide (traffic.Enabled turn) && Legal allowed (traffic.after turn) turns

theorem Run.of_legal {allowed : Turn → Bool} {traffic : Traffic} (turns : List Turn)
    (run : Run (allowed ·) traffic) (legal : Legal allowed traffic turns = true) :
    Run (allowed ·) (turns.foldl after traffic) := by
  induction turns generalizing traffic with
  | nil => exact run
  | cons turn turns ih =>
    simp only [Legal, Bool.and_eq_true, decide_eq_true_eq] at legal
    exact ih (.step turn run legal.1.1 legal.1.2) legal.2

def deliver (traffic : Traffic) : LockManager :=
  if traffic.notices = 0 then traffic.manager else traffic.manager.wake

end Traffic

namespace LockManager

theorem acquire_eq_deliver (manager : LockManager) (request : LockRequest) :
    (manager.acquire request.page request.owner request.mode).1 =
      ((⟨manager, 0⟩ : Traffic).after (.ask request)).deliver := by
  simp only [acquire, Traffic.after, Traffic.answer, look, withdraw]
  generalize manager.table.attempt request.page request.owner request.mode = result
  obtain ⟨table, decision⟩ := result
  cases decision <;> rfl

theorem expire_eq_deliver (manager : LockManager) (request : LockRequest) :
    (manager.expire request.page request.owner request.mode).1 =
      ((⟨manager, 0⟩ : Traffic).after (.expire request)).deliver := by
  simp only [expire, Traffic.after, Traffic.answer, look, withdraw]
  generalize manager.table.attempt request.page request.owner request.mode = result
  obtain ⟨table, decision⟩ := result
  cases decision <;> rfl

theorem withdraw_of_idle {manager : LockManager} {request : LockRequest}
    (idle : manager.Idle request.owner) : manager.withdraw request = manager := by
  have kept : ∀ list : List LockRequest, (∀ other ∈ list, other.owner ≠ request.owner) →
      list.filter (· ≠ request) = list := by
    intro list apart
    rw [List.filter_eq_self]
    intro other member
    simpa using fun same => apart other member (congrArg LockRequest.owner same)
  have sleeping := kept manager.sleeping fun other member =>
    idle other (List.mem_append_left _ member)
  have due := kept manager.due fun other member => idle other (List.mem_append_right _ member)
  simp only [withdraw, sleeping, due]

theorem tryAcquire_eq_deliver {manager : LockManager} {request : LockRequest}
    (idle : manager.Idle request.owner) :
    (manager.tryAcquire request.page request.owner request.mode).1 =
      ((⟨manager, 0⟩ : Traffic).after (.tryOnce request)).deliver := by
  simp only [tryAcquire, Traffic.after, Traffic.answer, look, withdraw_of_idle idle]
  generalize manager.table.attempt request.page request.owner request.mode = result
  obtain ⟨table, decision⟩ := result
  cases decision <;> rfl

theorem release_eq_deliver (manager : LockManager) (page : PageId) (owner : TransactionId) :
    manager.release page owner = ((⟨manager, 0⟩ : Traffic).after (.release page owner)).deliver :=
  rfl

theorem releaseAll_eq_deliver (manager : LockManager) (owner : TransactionId) :
    manager.releaseAll owner = ((⟨manager, 0⟩ : Traffic).after (.releaseAll owner)).deliver :=
  rfl

theorem acquire_answer (manager : LockManager) (request : LockRequest) :
    (manager.acquire request.page request.owner request.mode).2 =
      match (manager.table.attempt request.page request.owner request.mode).2 with
      | .granted => .granted
      | .joined => .granted
      | .refused => .waiting
      | .deadlock => .deadlock := by
  simp only [acquire, withdraw]
  generalize manager.table.attempt request.page request.owner request.mode = result
  obtain ⟨table, decision⟩ := result
  cases decision <;> rfl

theorem expire_answer (manager : LockManager) (request : LockRequest) :
    (manager.expire request.page request.owner request.mode).2 =
      match (manager.table.attempt request.page request.owner request.mode).2 with
      | .granted => .granted
      | .joined => .granted
      | .refused => .timedOut
      | .deadlock => .deadlock := by
  simp only [expire, withdraw]
  generalize manager.table.attempt request.page request.owner request.mode = result
  obtain ⟨table, decision⟩ := result
  cases decision <;> rfl

theorem mem_waiting {manager : LockManager} {request : LockRequest} :
    request ∈ manager.waiting ↔ request ∈ manager.sleeping ∨ request ∈ manager.due :=
  List.mem_append

theorem mem_waiting_withdraw {manager : LockManager} {request other : LockRequest} :
    other ∈ (manager.withdraw request).waiting ↔ other ∈ manager.waiting ∧ other ≠ request := by
  simp only [waiting, withdraw, List.mem_append, List.mem_filter, decide_eq_true_eq]
  tauto

theorem mem_waiting_wake {manager : LockManager} {request : LockRequest} :
    request ∈ manager.wake.waiting ↔ request ∈ manager.waiting := by
  simp only [waiting, wake, List.nil_append, List.mem_append]
  tauto

theorem mem_waiting_sleep {manager : LockManager} {request other : LockRequest} :
    other ∈ (manager.sleep request).waiting ↔ other ∈ manager.waiting ∨ other = request := by
  simp only [waiting, sleep, List.mem_append, List.mem_singleton]
  tauto

end LockManager
end PagedTables

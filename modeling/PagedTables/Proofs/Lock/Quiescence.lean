import Mathlib.Data.Fintype.EquivFin
import Mathlib.Order.WellFounded
import PagedTables.Proofs.Lock.Sections

/-! What requests that wait can rely on. Once everybody was woken who had to be, and has tried again,
each request that still waits has to, its edges are the holders that are in its way, and some
transaction that waits for nobody is behind it. -/

namespace PagedTables
open Relation

namespace LockTable

/-- A request that would be refused, and whose owner's edges lead to the holders in its way. -/
structure Blocks (table : LockTable) (request : LockRequest) : Prop where
  refused : Lock.request table.locks[request.page]? request.owner request.mode = .refused
  edges : ∀ holder, table.waits.Waits request.owner holder ↔
    holder ∈ table.holdersOf request.page ∧ holder ≠ request.owner

theorem Blocks.exists_holder {table : LockTable} {request : LockRequest}
    (blocks : table.Blocks request) (valid : table.Valid) :
    ∃ holder, table.waits.Waits request.owner holder := by
  obtain ⟨lock, found, sole, _⟩ := Lock.request_eq_refused_iff.mp blocks.refused
  obtain ⟨holder, member, apart⟩ :=
    Lock.isSoleHolder_eq_false (valid request.page lock found).held sole
  exact ⟨holder, (blocks.edges holder).mpr ⟨mem_holdersOf.mpr ⟨lock, found, member⟩, apart⟩⟩

theorem Blocks.clearWaiting {table : LockTable} {request : LockRequest}
    (blocks : table.Blocks request) {owner : TransactionId} (apart : request.owner ≠ owner) :
    (table.clearWaiting owner).Blocks request := by
  refine ⟨blocks.refused, fun holder => ?_⟩
  rw [LockTable.clearWaiting, WaitGraph.waits_clearWaiting, blocks.edges holder]
  exact and_iff_right apart

theorem Blocks.grant {table : LockTable} {request : LockRequest} (blocks : table.Blocks request)
    {page : PageId} {owner : TransactionId} {mode : LockMode} {lock : Lock}
    (apart : request.owner ≠ owner)
    (answer : Lock.request table.locks[page]? owner mode = .granted lock) :
    (table.grant page owner lock).Blocks request := by
  have edges : ∀ holder, (table.grant page owner lock).waits.Waits request.owner holder ↔
      holder ∈ table.holdersOf request.page ∧ holder ≠ request.owner := fun holder => by
    rw [LockTable.grant, WaitGraph.waits_clearWaiting, blocks.edges holder]
    exact and_iff_right apart
  -- On the page itself no holder has been added, and a lock that was exclusive still is.
  by_cases same : request.page = page
  · subst same
    obtain ⟨waited, found, sole, exclusive⟩ := Lock.request_eq_refused_iff.mp blocks.refused
    rcases Lock.request_granted answer with ⟨free, _⟩ | ⟨old, held, holders, _, raised, _⟩
    · rw [free] at found
      cases found
    · obtain rfl : old = waited := by simpa [held] using found
      constructor
      · refine Lock.request_eq_refused_iff.mpr ⟨lock, by simp [getElem?_grant], ?_, ?_⟩
        · simpa [Lock.isSoleHolder, holders] using sole
        · exact exclusive.imp_left fun mode => (raised (.inl mode)).1
      · intro holder
        rw [edges holder]
        simp [mem_holdersOf, getElem?_grant, held, holders]
  · constructor
    · rw [getElem?_grant, if_neg same]
      exact blocks.refused
    · intro holder
      rw [edges holder, mem_holdersOf, mem_holdersOf, getElem?_grant, if_neg same]

/-- Only a request that joins a lock can change what others wait for. -/
theorem Blocks.attempt {table : LockTable} {request : LockRequest} (blocks : table.Blocks request)
    {page : PageId} {owner : TransactionId} {mode : LockMode} (apart : request.owner ≠ owner)
    (plain : (table.attempt page owner mode).2 ≠ .joined) :
    (table.attempt page owner mode).1.Blocks request := by
  have outcome := table.attempt_outcome page owner mode
  generalize table.attempt page owner mode = result at outcome plain ⊢
  cases outcome with
  | granted lock answer => exact blocks.grant apart answer
  | joined lock answer => exact absurd rfl plain
  | refused answer free =>
    refine ⟨blocks.refused, fun holder => ?_⟩
    rw [waits_refuse, if_neg apart]
    exact blocks.edges holder
  | deadlock answer closed =>
    refine ⟨blocks.refused, fun holder => ?_⟩
    rw [WaitGraph.waits_clearWaiting, waits_refuse, if_neg apart, and_iff_right apart]
    exact blocks.edges holder

theorem blocks_attempt {table : LockTable} {request : LockRequest}
    (refused : (table.attempt request.page request.owner request.mode).2 = .refused) :
    (table.attempt request.page request.owner request.mode).1.Blocks request := by
  have outcome := table.attempt_outcome request.page request.owner request.mode
  generalize table.attempt request.page request.owner request.mode = result at outcome refused ⊢
  cases outcome with
  | granted lock answer => cases refused
  | joined lock answer => cases refused
  | refused answer free =>
    refine ⟨answer, fun holder => ?_⟩
    rw [waits_refuse, if_pos rfl]
    rfl
  | deadlock answer closed => cases refused

theorem Blocks.refused_again {table : LockTable} {request : LockRequest}
    (blocks : table.Blocks request) (acyclic : table.waits.Acyclic) :
    (table.attempt request.page request.owner request.mode).2 = .refused := by
  have outcome := table.attempt_outcome request.page request.owner request.mode
  generalize table.attempt request.page request.owner request.mode = result at outcome ⊢
  cases outcome with
  | granted lock answer => exact absurd (blocks.refused.symm.trans answer) (by simp)
  | joined lock answer => exact absurd (blocks.refused.symm.trans answer) (by simp)
  | refused answer free => rfl
  | deadlock answer closed =>
    -- The edges would be the old ones, and those made no cycle.
    have same : (table.waits.setWaiting request.owner
        (table.holdersOf request.page).toList).Acyclic :=
      acyclic.mono fun waiter holder edge => by
        rw [waits_refuse] at edge
        split at edge
        · next own => exact own ▸ (blocks.edges holder).mpr edge
        · exact edge
    exact absurd (WaitGraph.isOnCycle_iff.mp closed) (same request.owner)

end LockTable

namespace Traffic

/-- What every turn keeps. As long as nobody is to be woken, sleeping requests are blocked for good
reason. -/
structure Sound (traffic : Traffic) : Prop where
  valid : traffic.manager.table.Valid
  acyclic : traffic.manager.table.waits.Acyclic
  single : ∀ a ∈ traffic.manager.waiting, ∀ b ∈ traffic.manager.waiting, a.owner = b.owner → a = b
  blocked : traffic.notices = 0 →
    ∀ request ∈ traffic.manager.sleeping, traffic.manager.table.Blocks request

theorem sound_start : start.Sound where
  valid := LockTable.valid_empty
  acyclic := WaitGraph.acyclic_empty
  single := by simp [start, LockManager.empty, LockManager.waiting]
  blocked := by simp [start, LockManager.empty]

variable {traffic : Traffic} {request : LockRequest}

theorem Sound.look (sound : traffic.Sound)
    (apart : ∀ other ∈ traffic.manager.waiting, other ≠ request → other.owner ≠ request.owner)
    (plain : (traffic.manager.look request).2 ≠ .joined) (told : traffic.notices = 0) :
    ∀ other ∈ (traffic.manager.look request).1.sleeping,
      other.owner ≠ request.owner ∧ (traffic.manager.look request).1.table.Blocks other := by
  intro other member
  obtain ⟨member, different⟩ : other ∈ traffic.manager.sleeping ∧ other ≠ request := by
    simpa [LockManager.look, LockManager.withdraw] using member
  have foreign := apart other (LockManager.mem_waiting.mpr (.inl member)) different
  exact ⟨foreign, (sound.blocked told other member).attempt foreign plain⟩

theorem Sound.answer (sound : traffic.Sound)
    (apart : ∀ other ∈ traffic.manager.waiting, other ≠ request → other.owner ≠ request.owner)
    {refused : LockManager → LockRequest → LockManager}
    (kind : refused = .sleep ∨ refused = .giveUp ∨ refused = fun manager _ => manager) :
    (traffic.answer request refused).Sound := by
  have valid : (traffic.manager.look request).1.table.Valid := sound.valid.attempt _ _ _
  have acyclic : (traffic.manager.look request).1.table.waits.Acyclic :=
    LockTable.acyclic_attempt sound.acyclic _ _ _
  have left : ∀ other, other ∈ (traffic.manager.look request).1.waiting ↔
      other ∈ traffic.manager.waiting ∧ other ≠ request :=
    fun _ => LockManager.mem_waiting_withdraw
  have single : ∀ a ∈ (traffic.manager.look request).1.waiting,
      ∀ b ∈ (traffic.manager.look request).1.waiting, a.owner = b.owner → a = b :=
    fun a ha b hb => sound.single a ((left a).mp ha).1 b ((left b).mp hb).1
  have blocked := sound.look apart
  have own : (traffic.manager.look request).2 = .refused →
      (traffic.manager.look request).1.table.Blocks request := LockTable.blocks_attempt
  have foreign : ∀ other ∈ (traffic.manager.look request).1.waiting, other.owner ≠ request.owner :=
    fun other member => apart other ((left other).mp member).1 ((left other).mp member).2
  simp only [Traffic.answer]
  generalize traffic.manager.look request = result at valid acyclic single blocked own foreign ⊢
  obtain ⟨manager, decision⟩ := result
  -- A joined lock starts a notice, so nothing is promised of the sleepers until it is delivered.
  cases decision with
  | granted => exact ⟨valid, acyclic, single, fun told other member =>
      (blocked (by simp) told other member).2⟩
  | joined => exact ⟨valid, acyclic, single, fun told => absurd told (Nat.succ_ne_zero _)⟩
  | deadlock => exact ⟨valid, acyclic, single, fun told other member =>
      (blocked (by simp) told other member).2⟩
  | refused =>
    rcases kind with rfl | rfl | rfl
    · refine ⟨valid, acyclic, ?_, ?_⟩
      · intro a ha b hb same
        rcases LockManager.mem_waiting_sleep.mp ha with old | rfl <;>
          rcases LockManager.mem_waiting_sleep.mp hb with other | rfl
        · exact single a old b other same
        · exact absurd same (foreign a old)
        · exact absurd same.symm (foreign b other)
        · rfl
      · intro told other member
        rcases List.mem_append.mp member with old | new
        · exact (blocked (by simp) told other old).2
        · rw [List.mem_singleton.mp new]
          exact own rfl
    · refine ⟨valid, acyclic.clearWaiting _, single, fun told other member => ?_⟩
      obtain ⟨different, blocks⟩ := blocked (by simp) told other member
      exact blocks.clearWaiting different
    · exact ⟨valid, acyclic, single, fun told other member =>
        (blocked (by simp) told other member).2⟩

theorem Sound.after (sound : traffic.Sound) {turn : Turn} (enabled : traffic.Enabled turn) :
    (traffic.after turn).Sound := by
  have wanted : ∀ request ∈ traffic.manager.waiting,
      ∀ other ∈ traffic.manager.waiting, other ≠ request → other.owner ≠ request.owner :=
    fun _ known other member different same =>
      different (sound.single other member _ known same)
  cases turn with
  | ask request => exact sound.answer (fun other member _ => enabled other member) (.inl rfl)
  | retry request =>
    exact sound.answer (wanted request (LockManager.mem_waiting.mpr (.inr enabled))) (.inl rfl)
  | expire request => exact sound.answer (wanted request enabled) (.inr (.inl rfl))
  | tryOnce request =>
    exact sound.answer (fun other member _ => enabled other member) (.inr (.inr rfl))
  | release page owner =>
    exact ⟨sound.valid.release page owner, sound.acyclic.clearWaiting owner, sound.single,
      fun told => absurd told (Nat.succ_ne_zero _)⟩
  | releaseAll owner =>
    exact ⟨sound.valid.releaseAll owner, sound.acyclic.remove owner, sound.single,
      fun told => absurd told (Nat.succ_ne_zero _)⟩
  | notify =>
    refine ⟨sound.valid, sound.acyclic, fun a ha b hb => ?_, fun _ other member => ?_⟩
    · exact sound.single a (LockManager.mem_waiting_wake.mp ha) b (LockManager.mem_waiting_wake.mp hb)
    · cases member

theorem Run.sound {allowed : Turn → Prop} (run : Run allowed traffic) : traffic.Sound := by
  induction run with
  | start => exact sound_start
  | step turn _ _ enabled ih => exact ih.after enabled

end Traffic

instance : Finite TransactionId :=
  Finite.of_injective (fun transaction : TransactionId =>
    (⟨transaction.raw.toNat, transaction.raw.toNat_lt⟩ : Fin (2 ^ 64))) fun a b same => by
      cases a
      cases b
      exact congrArg TransactionId.mk (UInt64.toNat.inj (Fin.mk.inj same))

namespace LockManager

def WaitsFor (manager : LockManager) (waiter holder : TransactionId) : Prop :=
  ∃ request ∈ manager.waiting, request.owner = waiter ∧
    holder ∈ manager.table.holdersOf request.page ∧ holder ≠ waiter

theorem wellFounded_waitsFor {manager : LockManager}
    (acyclic : ∀ transaction, ¬TransGen manager.WaitsFor transaction transaction) :
    WellFounded (Function.swap (TransGen manager.WaitsFor)) := by
  have irrefl : Std.Irrefl (Function.swap (TransGen manager.WaitsFor)) := ⟨acyclic⟩
  have trans : IsTrans TransactionId (Function.swap (TransGen manager.WaitsFor)) :=
    ⟨fun _ _ _ first second => second.trans first⟩
  exact Finite.wellFounded_of_trans_of_irrefl _

end LockManager

namespace Traffic

/-- Nobody waits in vain, or in a circle, once everybody was told and has tried again. -/
theorem waits_exact_of_quiet {allowed : Turn → Prop} {traffic : Traffic} (run : Run allowed traffic)
    (told : traffic.notices = 0) (tried : traffic.manager.due = []) :
    (∀ request ∈ traffic.manager.waiting,
      (traffic.manager.acquire request.page request.owner request.mode).2 = .waiting ∧
      (∀ holder, traffic.manager.table.waits.Waits request.owner holder ↔
        holder ∈ traffic.manager.table.holdersOf request.page ∧ holder ≠ request.owner) ∧
      ∃ holder, traffic.manager.table.waits.Waits request.owner holder) ∧
    (∀ transaction, ¬TransGen traffic.manager.WaitsFor transaction transaction) ∧
    (∀ chain : ℕ → TransactionId, ∃ n, ¬traffic.manager.WaitsFor (chain n) (chain (n + 1))) ∧
    ∀ request ∈ traffic.manager.waiting,
      ∃ free, TransGen traffic.manager.WaitsFor request.owner free ∧ traffic.manager.Idle free := by
  have sound := run.sound
  have blocks : ∀ request ∈ traffic.manager.waiting, traffic.manager.table.Blocks request := by
    intro request member
    rcases LockManager.mem_waiting.mp member with asleep | due
    · exact sound.blocked told request asleep
    · rw [tried] at due
      cases due
  have acyclic : ∀ transaction, ¬TransGen traffic.manager.WaitsFor transaction transaction := by
    intro transaction cycle
    refine sound.acyclic transaction (TransGen.mono ?_ _ _ cycle)
    rintro waiter holder ⟨request, member, rfl, held⟩
    exact ((blocks request member).edges holder).mpr held
  have wellFounded := LockManager.wellFounded_waitsFor acyclic
  refine ⟨fun request member => ⟨?_, (blocks request member).edges,
    (blocks request member).exists_holder sound.valid⟩, acyclic, fun chain => ?_,
    fun request member => ?_⟩
  · rw [LockManager.acquire_answer, (blocks request member).refused_again sound.acyclic]
  · by_contra! endless
    obtain ⟨_, ⟨n, rfl⟩, last⟩ := wellFounded.has_min (Set.range chain) ⟨chain 0, 0, rfl⟩
    exact last (chain (n + 1)) ⟨n + 1, rfl⟩ (.single (endless n))
  · have next : ∀ request ∈ traffic.manager.waiting,
        ∃ holder, traffic.manager.WaitsFor request.owner holder := by
      intro request member
      obtain ⟨holder, edge⟩ := (blocks request member).exists_holder sound.valid
      exact ⟨holder, request, member, rfl, ((blocks request member).edges holder).mp edge⟩
    -- Whoever is last on a chain from the request waits for nobody.
    obtain ⟨free, path, last⟩ := wellFounded.has_min
      {holder | TransGen traffic.manager.WaitsFor request.owner holder}
      ((next request member).imp fun _ => .single)
    refine ⟨free, path, fun other known own => ?_⟩
    obtain ⟨holder, edge⟩ := next other known
    rw [own] at edge
    exact last holder (path.tail edge) (.single edge)

/-- A reader joins the lock that a writer waits for: the writer is woken and waits for both
readers. -/
def lateReader : List Turn :=
  [.ask ⟨⟨⟨0⟩, 0⟩, ⟨2⟩, .shared⟩, .ask ⟨⟨⟨0⟩, 1⟩, ⟨1⟩, .exclusive⟩,
    .ask ⟨⟨⟨0⟩, 0⟩, ⟨1⟩, .exclusive⟩, .ask ⟨⟨⟨0⟩, 0⟩, ⟨4⟩, .shared⟩, .notify,
    .retry ⟨⟨⟨0⟩, 0⟩, ⟨1⟩, .exclusive⟩]

theorem waits_exact_lateReader :
    let traffic := lateReader.foldl after start
    traffic.manager.waiting = [⟨⟨⟨0⟩, 0⟩, ⟨1⟩, .exclusive⟩] ∧
      (traffic.manager.acquire ⟨⟨0⟩, 0⟩ ⟨1⟩ .exclusive).2 = .waiting ∧
      traffic.manager.table.waits.Waits ⟨1⟩ ⟨2⟩ ∧ traffic.manager.table.waits.Waits ⟨1⟩ ⟨4⟩ := by
  intro traffic
  have run : Run (fun turn => turn.isStrict) traffic :=
    Run.of_legal lateReader .start (by decide +kernel)
  have waiting : traffic.manager.waiting = [⟨⟨⟨0⟩, 0⟩, ⟨1⟩, .exclusive⟩] := by decide +kernel
  have known := (waits_exact_of_quiet run (by decide +kernel) (by decide +kernel)).1
    ⟨⟨⟨0⟩, 0⟩, ⟨1⟩, .exclusive⟩ (by simp [waiting])
  refine ⟨waiting, known.1, (known.2.1 ⟨2⟩).mpr ?_, (known.2.1 ⟨4⟩).mpr ?_⟩
  · decide +kernel
  · decide +kernel

end Traffic
end PagedTables

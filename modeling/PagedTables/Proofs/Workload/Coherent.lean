import PagedTables.Proofs.Pool.Move
import PagedTables.Proofs.Workload.Run

/-! What holds between any two actions. The pool balances with the edits that the history and the
operations under way account for, and each transaction has the locks and the pages it goes by. -/

namespace PagedTables

namespace Task

def marks (page : PageId) : Task → Bool
  | access ⟨_, place, .mark, _⟩ => place = page
  | _ => false

/-- The edit that an operation has made when it is about to succeed. -/
def halfway (call : Call) (page : PageId) (task : Task) : List Edit :=
  if task.marks page then call.edit?.toList else []

end Task

namespace Stage

/-- The edits that stand in the cache only; `made` are those of operations that succeeded. -/
def pending (page : PageId) (made : List Edit) : Stage → List Edit
  | idle => made
  | working call task => made ++ task.halfway call page
  | ending _ rest => if page ∈ rest then made else []

def written (page : PageId) (made : List Edit) : Stage → List Edit
  | ending true rest => if page ∈ rest then [] else made
  | _ => []

theorem pending_ending {commit : Bool} {rest : List PageId} {page : PageId} {made : List Edit}
    (listed : page ∉ rest → made = []) : (ending commit rest).pending page made = made := by
  by_cases here : page ∈ rest
  · simp [pending, here]
  · simp [pending, listed here]

theorem written_ending {commit : Bool} {rest : List PageId} {page : PageId} {made : List Edit}
    (listed : page ∉ rest → made = []) : (ending commit rest).written page made = [] := by
  by_cases here : page ∈ rest <;> cases commit
  · rfl
  · simp [written, here]
  · rfl
  · simp [written, listed here]

end Stage

namespace Workload

def made (work : Workload) (owner : TransactionId) (page : PageId) : List Edit :=
  Event.openEdits owner page work.history

def ledger (work : Workload) : Ledger where
  committed page := Event.committedEdits page work.history
  pending owner page := (work.stage owner).pending page (work.made owner page)
  written owner page := (work.stage owner).written page (work.made owner page)

end Workload

structure Insertion.Fits (pool : Pool) (call : Call) (job : Insertion) : Prop where
  remarked : job.remarked = true
  called : ∃ table, call = .insert table job.tuple
  registered : pool.tables[job.file.table]? = some job.file

def Purpose.Fits (pool : Pool) (call : Call) (owner : TransactionId) : Purpose → Prop
  | lock _ => False
  | guard _ => True
  | place job _ => job.Fits pool call
  | claim job => job.Fits pool call
  | remove tuple remarked => remarked = true ∧ call = .delete tuple
  | mark => call.edit?.isSome = true
  | visit cursor _ => cursor.owner = owner

namespace Access

/-- The user of a page has its lock. A writer's page is in the cache and stays there; a reader's page
may stand aside, but then it still is as it was. -/
structure InUse (start : Disk) (ledger : Ledger) (pool : Pool) (access : Access) (stay : Nat) :
    Prop where
  holds : pool.locks.table.Holds access.owner access.page access.purpose.mode
  cached : access.purpose.mode = .exclusive → ∃ resident,
    pool.cache.frames[access.page]? = some resident ∧ resident.stay = stay ∧
      resident.frame.pins ≠ 0
  aside : ∃ file, pool.tables[access.page.table]? = some file ∧
    ∀ gone ∈ pool.cache.departed, gone.stay = stay → gone.frame.id = access.page →
      file.replayed start access.page
          (ledger.committed access.page ++ ledger.pending access.owner access.page) =
        .ok gone.frame.page.slots

structure Fits (start : Disk) (ledger : Ledger) (pool : Pool) (call : Call) (access : Access) :
    Prop where
  purpose : access.purpose.Fits pool call access.owner
  pinning : access.phase = .pin →
    pool.locks.table.Holds access.owner access.page access.purpose.mode
  inUse : ∀ stay, access.phase = .use stay → access.InUse start ledger pool stay
  marking : access.purpose = .mark → access.phase ≠ .wait ∧
    (access.phase = .ask ∨ access.phase = .pin → ∀ resident : Resident,
      pool.cache.frames[access.page]? = some resident → resident.frame.pins + 1 ≠ 0)

end Access

def Task.Fits (start : Disk) (ledger : Ledger) (pool : Pool) (call : Call) : Task → Prop
  | access current => current.Fits start ledger pool call
  | extend _ job => job.Fits pool call

namespace Workload

/-- A transaction has the locks of the pages it uses and goes on as it should. -/
structure InStep (start : Disk) (work : Workload) (owner : TransactionId) : Prop where
  guards : ∀ guard ∈ work.guards owner, work.pool.locks.table.Holds owner guard.page .shared
  working : ∀ call task, work.stage owner = .working call task →
    task.owner = owner ∧ task.Fits start work.ledger work.pool call
  ending : ∀ commit rest, work.stage owner = .ending commit rest →
    rest.Nodup ∧ (∀ page ∈ rest, work.pool.locks.table.Holds owner page .shared) ∧
      work.guards owner = []

structure Coherent (start : Disk) (work : Workload) : Prop where
  numbered : work.pool.Numbered work.registrations
  sound : work.pool.Sound start
  balanced : ∀ page, work.pool.Balanced start work.ledger page
  inStep : ∀ owner, work.InStep start owner

structure Keeps (work later : Workload) (owner : TransactionId) (page : PageId) : Prop where
  holds : ∀ mode, work.pool.locks.table.Holds owner page mode →
    later.pool.locks.table.Holds owner page mode
  committed : work.pool.locks.table.Holds owner page .shared →
    later.ledger.committed page = work.ledger.committed page
  pending : ∃ edits, later.ledger.pending owner page = work.ledger.pending owner page ++ edits

/-- One transaction has made a move. It is in step afterwards, and has lost nothing unless it is about
to end. -/
structure Turn (start : Disk) (work later : Workload) (owner : TransactionId) : Prop where
  move : work.pool.Move start owner work.ledger later.ledger later.pool
  stage : ∀ other, other ≠ owner → later.stage other = work.stage other
  guards : ∀ other, other ≠ owner → later.guards other = work.guards other
  inStep : later.InStep start owner
  keeps : (work.stage owner).isEnding = false → (later.stage owner).isEnding = false →
    ∀ page, Keeps work later owner page

end Workload

section Others

variable {start : Disk} {ledger ledger' : Ledger} {pool later : Pool} {call : Call}
  {owner : TransactionId}

theorem Frame.isEvictable_of_pins {frame : Frame} (pinned : frame.pins ≠ 0) :
    frame.isEvictable = false := by
  simp [isEvictable, isPinned, pinned]

theorem Frame.isEvictable_of_dirty {frame : Frame} {writer : TransactionId}
    (dirty : frame.page.dirtiedBy = some writer) : frame.isEvictable = false := by
  simp [isEvictable, HeapPage.isDirty, dirty]

theorem Purpose.Fits.move (move : pool.Move start owner ledger ledger' later)
    {other : TransactionId} {purpose : Purpose} (fits : purpose.Fits pool call other) :
    purpose.Fits later call other := by
  cases purpose with
  | place job stop => exact ⟨fits.remarked, fits.called, move.tables _ _ fits.registered⟩
  | claim job => exact ⟨fits.remarked, fits.called, move.tables _ _ fits.registered⟩
  | lock mode => exact fits
  | guard mode => exact fits
  | remove tuple remarked => exact fits
  | mark => exact fits
  | visit cursor toEnd => exact fits

theorem Access.InUse.move {access : Access} {stay : Nat}
    (inUse : access.InUse start ledger pool stay)
    (move : pool.Move start owner ledger ledger' later) (apart : access.owner ≠ owner)
    (valid : pool.locks.table.Valid) (balanced : pool.Balanced start ledger access.page)
    (unwritten : ledger.written access.owner access.page = []) :
    access.InUse start ledger' later stay where
  holds := move.holds _ _ _ apart inUse.holds
  cached exclusive := by
    obtain ⟨resident, present, stays, pinned⟩ := inUse.cached exclusive
    have holds := exclusive ▸ inUse.holds
    exact ⟨resident, move.frames _ _ resident apart holds present (Frame.isEvictable_of_pins pinned),
      stays, pinned⟩
  aside := by
    have holds := inUse.holds.shared
    obtain ⟨file, registered, same⟩ := inUse.aside
    refine ⟨file, move.tables _ file registered, fun gone member stays named => ?_⟩
    rw [move.committed _ _ apart holds, move.pending _ _ apart]
    rcases move.departed _ _ gone apart holds member named with ⟨before, old, equal⟩ | cached
    · obtain ⟨stays', named', heap⟩ := Resident.rested_eq_iff.mp equal
      rw [heap]
      exact same before old (stays'.symm.trans stays) (named'.symm.trans named)
    -- A page that has just been put aside was what everybody saw until then.
    · have view := balanced.logical_eq valid registered holds
      rw [unwritten, List.append_nil] at view
      simpa only [Pool.logical, cached] using view.symm

theorem Access.Fits.move {access : Access} (fits : access.Fits start ledger pool call)
    (move : pool.Move start owner ledger ledger' later) (apart : access.owner ≠ owner)
    (valid : pool.locks.table.Valid) (balanced : pool.Balanced start ledger access.page)
    (unwritten : ledger.written access.owner access.page = [])
    (edited : access.purpose = .mark → ledger.pending access.owner access.page ≠ []) :
    access.Fits start ledger' later call where
  purpose := fits.purpose.move move
  pinning phase := move.holds _ _ _ apart (fits.pinning phase)
  inUse stay phase := (fits.inUse stay phase).move move apart valid balanced unwritten
  marking purpose := by
    refine (fits.marking purpose).imp id fun room phase resident present => ?_
    -- The page has an edit that is not saved, so it is still where it was.
    have edits := edited purpose
    obtain ⟨heap, here, dirty⟩ := balanced.cached access.owner edits
    obtain ⟨before, found, rfl⟩ := Option.map_eq_some_iff.mp here
    have kept := move.frames _ _ before apart (balanced.locked _ (.inl edits)) found
      (Frame.isEvictable_of_dirty dirty)
    obtain rfl : before = resident := Option.some.inj (kept.symm.trans present)
    exact room phase before found

end Others

namespace Workload

variable {start : Disk} {work later : Workload} {owner other : TransactionId}

theorem written_of_not_ending (h : (work.stage owner).isEnding = false) (page : PageId) :
    work.ledger.written owner page = [] := by
  show (work.stage owner).written page _ = []
  cases stage : work.stage owner with
  | ending commit rest => simp [stage, Stage.isEnding] at h
  | idle => rfl
  | working call task => rfl

theorem Coherent.inStep_move (coherent : work.Coherent start)
    (move : work.pool.Move start owner work.ledger later.ledger later.pool) (apart : other ≠ owner)
    (stage : later.stage other = work.stage other)
    (guards : later.guards other = work.guards other) : later.InStep start other where
  guards guard member :=
    move.holds _ _ _ apart ((coherent.inStep other).guards guard (guards ▸ member))
  working call task here := by
    rw [stage] at here
    obtain ⟨mine, fits⟩ := (coherent.inStep other).working call task here
    refine ⟨mine, ?_⟩
    cases task with
    | extend owner job => exact ⟨fits.remarked, fits.called, move.tables _ _ fits.registered⟩
    | access access =>
      obtain rfl : access.owner = other := mine
      refine Access.Fits.move fits move apart coherent.sound.valid (coherent.balanced access.page)
        (written_of_not_ending (by simp [here, Stage.isEnding]) access.page) fun purpose => ?_
      have edit := fits.purpose
      rw [purpose] at edit
      obtain ⟨edit, found⟩ := Option.isSome_iff_exists.mp edit
      obtain ⟨holder, page, purpose', phase⟩ := access
      obtain rfl : purpose' = .mark := purpose
      simp [ledger, here, Stage.pending, Task.halfway, Task.marks, found]
  ending commit rest here := by
    rw [stage] at here
    obtain ⟨nodup, held, none⟩ := (coherent.inStep other).ending commit rest here
    exact ⟨nodup, fun page member => move.holds _ _ _ apart (held page member), guards.trans none⟩

theorem Turn.coherent (turn : Turn start work later owner) (coherent : work.Coherent start)
    (numbered : later.pool.Numbered later.registrations) : later.Coherent start where
  numbered := numbered
  sound := turn.move.sound
  balanced := turn.move.balanced
  inStep other := by
    by_cases same : other = owner
    · exact same ▸ turn.inStep
    · exact coherent.inStep_move turn.move same (turn.stage other same) (turn.guards other same)

theorem Turn.keeps_any (turn : Turn start work later owner)
    (before : (work.stage other).isEnding = false) (after : (later.stage other).isEnding = false)
    (page : PageId) : Keeps work later other page := by
  by_cases same : other = owner
  · subst same
    exact turn.keeps before after page
  · exact ⟨fun mode => turn.move.holds other page mode same, turn.move.committed other page same,
      [], by rw [turn.move.pending other page same, List.append_nil]⟩

theorem Keeps.refl (work : Workload) (owner : TransactionId) (page : PageId) :
    Keeps work work owner page :=
  ⟨fun _ => id, fun _ => rfl, [], (List.append_nil _).symm⟩

theorem Keeps.trans {last : Workload} {page : PageId} (h : Keeps work later owner page)
    (h' : Keeps later last owner page) : Keeps work last owner page where
  holds mode holds := h'.holds mode (h.holds mode holds)
  committed holds := (h'.committed (h.holds _ holds)).trans (h.committed holds)
  pending := by
    obtain ⟨first, pending⟩ := h.pending
    obtain ⟨second, pending'⟩ := h'.pending
    exact ⟨first ++ second, by rw [pending', pending, List.append_assoc]⟩

end Workload
end PagedTables

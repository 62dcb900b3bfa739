import Mathlib.Logic.Function.Basic
import PagedTables.Proofs.Storage.RoundTrip

/-! A page as a finite map from slots to tuples. An insertion fills the least free slot, a deletion
frees the slot that its record id names, and a call that fails leaves the page as it was. -/

namespace PagedTables.HeapPage

def held (page : HeapPage) (slot : Nat) : Option Tuple := page.slots[slot]?.join

structure LeastFree (page : HeapPage) (slot : Nat) : Prop where
  inside : slot < page.layout.numSlots
  free : page.held slot = none
  least : ∀ earlier < slot, (page.held earlier).isSome

def Full (page : HeapPage) : Prop := ∀ slot < page.layout.numSlots, (page.held slot).isSome

structure Sets (page : HeapPage) (slot : Nat) (entry : Option Tuple) (later : HeapPage) : Prop where
  held : later.held = Function.update page.held slot entry
  rest : { later with slots := page.slots } = page

/-- The ways an insertion goes. What was put is taken out again by any tuple with its record id. -/
inductive Inserts (page : HeapPage) (tuple : Tuple) : Except Failure (HeapPage × RecordId) → Prop
  | misfit (cause : Mismatch) (bad : page.schema.mismatch? tuple = some cause) :
      Inserts page tuple (.error (.error (.schemaMismatch cause)))
  | full (valid : page.schema.validate tuple = .ok ()) (full : page.Full) :
      Inserts page tuple (.error (.error (.pageFull page.id)))
  | placed (valid : page.schema.validate tuple = .ok ()) (slot : Nat) (least : page.LeastFree slot)
      (later : HeapPage)
      (sets : page.Sets slot (some (tuple.setRecordId (some ⟨page.id, slot⟩))) later)
      (undone : ∀ named : Tuple, named.recordId = some ⟨page.id, slot⟩ →
        later.delete named = .ok page) :
      Inserts page tuple (.ok (later, ⟨page.id, slot⟩))

inductive Deletes (page : HeapPage) (tuple : Tuple) : Except Failure HeapPage → Prop
  | unplaced (none : tuple.recordId = none) :
      Deletes page tuple (.error (.error (.tupleNotFound (.unplaced tuple))))
  | elsewhere (record : RecordId) (placed : tuple.recordId = some record)
      (other : record.page ≠ page.id) :
      Deletes page tuple (.error (.error (.tupleNotFound (.otherPage record page.id))))
  | free (slot : Nat) (placed : tuple.recordId = some ⟨page.id, slot⟩)
      (free : page.held slot = none) :
      Deletes page tuple (.error (.error (.tupleNotFound (.freeSlot ⟨page.id, slot⟩))))
  | freed (slot : Nat) (placed : tuple.recordId = some ⟨page.id, slot⟩)
      (used : (page.held slot).isSome) (later : HeapPage) (sets : page.Sets slot none later) :
      Deletes page tuple (.ok later)

def Fails (page : HeapPage) : PageCall → Prop
  | .insert tuple => ∃ failure, page.insert tuple = .error failure
  | .delete tuple => ∃ failure, page.delete tuple = .error failure
  | .markDirty _ => False

/-- The page is a map from its slots to tuples of the schema, and that is all there is to the calls
on it. -/
structure Maps (id : PageId) (schema : Schema) (layout : PageLayout) (page : HeapPage) : Prop where
  slotted : page.Slotted id schema layout
  used : ∀ slot, page.isUsed slot = (page.held slot).isSome
  count : page.tuples.length + page.freeCount = layout.numSlots
  listed : page.tuples = (List.range layout.numSlots).filterMap page.held
  inserts : ∀ tuple, page.Inserts tuple (page.insert tuple)
  misfit_iff : ∀ tuple, (∃ cause, page.insert tuple = .error (.error (.schemaMismatch cause))) ↔
    schema.validate tuple ≠ .ok ()
  full_iff : ∀ tuple, schema.validate tuple = .ok () →
    (page.insert tuple = .error (.error (.pageFull id)) ↔ page.Full)
  deletes : ∀ tuple, page.Deletes tuple (page.delete tuple)
  freed_iff : ∀ tuple, (∃ later, page.delete tuple = .ok later) ↔
    ∃ slot, tuple.recordId = some ⟨id, slot⟩ ∧ (page.held slot).isSome
  marked : ∀ owner, (page.markDirty owner).held = page.held
  failed : ∀ call, page.Fails call → page.perform call = page

variable {id : PageId} {schema : Schema} {layout : PageLayout} {page : HeapPage} {slot : Nat}
  {tuple : Tuple}

theorem isUsed_eq (page : HeapPage) (slot : Nat) : page.isUsed slot = (page.held slot).isSome := by
  unfold isUsed held
  cases page.slots[slot]? with
  | none => rfl
  | some entry => cases entry <;> rfl

theorem held_eq_some_iff : page.held slot = some tuple ↔ page.slots[slot]? = some (some tuple) := by
  rw [held, Option.join_eq_some_iff]

theorem held_of_lt (inside : slot < page.slots.length) : page.held slot = page.slots[slot] := by
  rw [held, List.getElem?_eq_getElem inside, Option.join_some]

theorem sets_set (inside : slot < page.slots.length) (entry : Option Tuple) :
    page.Sets slot entry { page with slots := page.slots.set slot entry } where
  held := by
    funext other
    unfold held
    rw [List.getElem?_set, Function.update_apply]
    by_cases same : slot = other
    · subst same
      rw [if_pos rfl, if_pos rfl, if_pos inside, Option.join_some]
    · rw [if_neg same, if_neg (Ne.symm same)]
  rest := rfl

theorem Slotted.slots_eq (slotted : page.Slotted id schema layout) :
    page.slots = (List.range layout.numSlots).map page.held := by
  refine List.ext_getElem (by simp [slotted.count]) fun slot inside _ => ?_
  rw [List.getElem_map, List.getElem_range, held_of_lt inside]

theorem Slotted.tuples_eq (slotted : page.Slotted id schema layout) :
    page.tuples = (List.range layout.numSlots).filterMap page.held := by
  rw [tuples, slotted.slots_eq, List.filterMap_map]
  rfl

theorem length_tuples_add_freeCount (page : HeapPage) :
    page.tuples.length + page.freeCount = page.slots.length := by
  rw [tuples, freeCount, List.length_filterMap_eq_countP,
    List.length_eq_countP_add_countP (fun slot => slot.isSome)]
  congr 2
  funext slot
  cases slot <;> rfl

theorem Slotted.firstFree_eq_none_iff (slotted : page.Slotted id schema layout) :
    page.firstFree = none ↔ page.Full := by
  unfold firstFree Full
  rw [List.findIdx?_eq_none_iff, slotted.layout]
  constructor
  · intro used slot inside
    have low : slot < page.slots.length := slotted.count ▸ inside
    rw [held_of_lt low]
    simpa using used _ (List.getElem_mem low)
  · intro full entry member
    obtain ⟨slot, low, rfl⟩ := List.mem_iff_getElem.mp member
    have used := full slot (slotted.count ▸ low)
    rw [held_of_lt low] at used
    simpa using used

theorem Slotted.leastFree_of_firstFree (slotted : page.Slotted id schema layout)
    (first : page.firstFree = some slot) : page.LeastFree slot := by
  obtain ⟨low, free, least⟩ := List.findIdx?_eq_some_iff_getElem.mp first
  refine ⟨?_, ?_, fun earlier less => ?_⟩
  · rwa [slotted.layout, ← slotted.count]
  · simpa [held_of_lt low] using free
  · have used := least earlier less
    rw [held_of_lt (less.trans low)]
    exact Option.ne_none_iff_isSome.mp (by simpa using used)

theorem delete_of_used {record : RecordId} (placed : tuple.recordId = some record)
    (here : record.page = page.id) (used : (page.held record.slot).isSome) :
    page.delete tuple = .ok { page with slots := page.slots.set record.slot none } := by
  simp only [delete, placed, here, if_true, isUsed_eq, used]

theorem delete_of_put {stored named : Tuple} (inside : slot < page.slots.length)
    (free : page.held slot = none) (placed : named.recordId = some ⟨page.id, slot⟩) :
    delete { page with slots := page.slots.set slot (some stored) } named = .ok page := by
  let put : HeapPage := { page with slots := page.slots.set slot (some stored) }
  have used : (put.held slot).isSome := by
    rw [(sets_set inside (some stored)).held, Function.update_self, Option.isSome_some]
  have freed : put.delete named = .ok { put with slots := put.slots.set slot none } :=
    delete_of_used placed rfl used
  rw [held_of_lt inside] at free
  rwa [List.set_set, ← free, List.set_getElem_self] at freed

theorem Slotted.inserts_insert (slotted : page.Slotted id schema layout) (tuple : Tuple) :
    page.Inserts tuple (page.insert tuple) := by
  cases bad : page.schema.mismatch? tuple with
  | some cause =>
    have refused : page.insert tuple = .error (.error (.schemaMismatch cause)) := by
      simp only [HeapPage.insert, Schema.validate, bad, bind, Except.bind]
    rw [refused]
    exact .misfit cause bad
  | none =>
    have valid : page.schema.validate tuple = .ok () := by rw [Schema.validate, bad]
    unfold HeapPage.insert
    rw [valid]
    cases first : page.firstFree with
    | none => exact .full valid (slotted.firstFree_eq_none_iff.mp first)
    | some slot =>
      have least := slotted.leastFree_of_firstFree first
      have inside : slot < page.slots.length := by
        rw [slotted.count, ← slotted.layout]
        exact least.inside
      exact .placed valid slot least _ (sets_set inside _)
        fun named placed => delete_of_put inside least.free placed

theorem deletes_delete (page : HeapPage) (tuple : Tuple) :
    page.Deletes tuple (page.delete tuple) := by
  cases placed : tuple.recordId with
  | none =>
    rw [delete, placed]
    exact .unplaced placed
  | some record =>
    by_cases here : record.page = page.id
    · obtain ⟨_, slot⟩ := record
      obtain rfl : _ = page.id := here
      cases used : (page.held slot).isSome with
      | true =>
        rw [delete_of_used placed rfl used]
        obtain ⟨stored, found⟩ := Option.isSome_iff_exists.mp used
        have inside := (List.getElem?_eq_some_iff.mp (held_eq_some_iff.mp found)).1
        exact .freed slot placed used _ (sets_set inside none)
      | false =>
        have refused : page.delete tuple =
            .error (.error (.tupleNotFound (.freeSlot ⟨page.id, slot⟩))) := by
          simp [delete, placed, isUsed_eq, used]
        rw [refused]
        exact .free slot placed (by simpa using used)
    · rw [delete, placed]
      simp only [if_neg here]
      exact .elsewhere record placed here

theorem LeastFree.not_full (least : page.LeastFree slot) : ¬page.Full := by
  intro full
  have used := full slot least.inside
  rw [least.free] at used
  cases used

theorem Inserts.misfit_iff {result : Except Failure (HeapPage × RecordId)}
    (inserts : page.Inserts tuple result) :
    (∃ cause, result = .error (.error (.schemaMismatch cause))) ↔
      page.schema.validate tuple ≠ .ok () := by
  cases inserts with
  | misfit cause bad => simp [Schema.validate, bad]
  | full valid _ => simp [valid]
  | placed valid _ _ _ _ _ => simp [valid]

theorem Inserts.full_iff {result : Except Failure (HeapPage × RecordId)}
    (inserts : page.Inserts tuple result) (valid : page.schema.validate tuple = .ok ()) :
    result = .error (.error (.pageFull page.id)) ↔ page.Full := by
  cases inserts with
  | misfit cause bad => simp [Schema.validate, bad] at valid
  | full _ full => exact iff_of_true rfl full
  | placed _ slot least _ _ _ => exact iff_of_false (fun same => by cases same) least.not_full

theorem Deletes.freed_iff {result : Except Failure HeapPage} (deletes : page.Deletes tuple result) :
    (∃ later, result = .ok later) ↔
      ∃ slot, tuple.recordId = some ⟨page.id, slot⟩ ∧ (page.held slot).isSome := by
  cases deletes with
  | unplaced none => simp [none]
  | elsewhere record placed other =>
    refine iff_of_false (fun ⟨_, same⟩ => by cases same) ?_
    rintro ⟨slot, here, _⟩
    rw [placed] at here
    exact other (congrArg RecordId.page (Option.some.inj here))
  | free slot placed free => simp [placed, free]
  | freed slot placed used later _ => exact iff_of_true ⟨later, rfl⟩ ⟨slot, placed, used⟩

theorem perform_of_fails {call : PageCall} (fails : page.Fails call) : page.perform call = page := by
  cases call with
  | insert tuple =>
    obtain ⟨failure, answer⟩ := fails
    simp only [perform, answer]
  | delete tuple =>
    obtain ⟨failure, answer⟩ := fails
    simp only [perform, answer]
  | markDirty owner => exact fails.elim

theorem Slotted.maps (slotted : page.Slotted id schema layout) : page.Maps id schema layout where
  slotted := slotted
  used := isUsed_eq page
  count := (length_tuples_add_freeCount page).trans slotted.count
  listed := slotted.tuples_eq
  inserts := slotted.inserts_insert
  misfit_iff := fun tuple => slotted.schema ▸ (slotted.inserts_insert tuple).misfit_iff
  full_iff := fun tuple => by
    rw [← slotted.id, ← slotted.schema]
    exact (slotted.inserts_insert tuple).full_iff
  deletes := deletes_delete page
  freed_iff := fun tuple => slotted.id ▸ (deletes_delete page tuple).freed_iff
  marked := fun _ => rfl
  failed := fun _ => perform_of_fails

/-- A page that was made new or read is such a map after any calls. -/
theorem maps_of_calls
    (obtained : allocate id schema layout = .ok page ∨
      ∃ data, ofBytes id schema layout data = .ok page) (calls : List PageCall) :
    (calls.foldl perform page).Maps id schema layout := by
  have first : page.Slotted id schema layout := by
    rcases obtained with new | ⟨data, read⟩
    · unfold allocate at new
      split at new
      · obtain rfl := Except.ok.inj new
        exact slotted_blank id schema layout
      · cases new
    · exact (slotted_of_ofBytes read).1
  exact (first.run calls).maps

/-- The first slot is freed between two insertions, so the second fills it again. -/
theorem maps_of_calls_refilled :
    let calls : List PageCall := [.insert ⟨[.int 1, .str "one"], none⟩,
      .insert ⟨[.int 2, .str "two"], none⟩, .delete ⟨[], some ⟨⟨⟨0⟩, 5⟩, 0⟩⟩,
      .delete ⟨[], some ⟨⟨⟨0⟩, 5⟩, 9⟩⟩, .insert ⟨[.int 3, .str "three"], none⟩]
    let page := calls.foldl perform (blank ⟨⟨0⟩, 5⟩ names ⟨64, 14, 4, 1⟩)
    page.Maps ⟨⟨0⟩, 5⟩ names ⟨64, 14, 4, 1⟩ ∧
      page.tuples.map Tuple.recordId = [some ⟨⟨⟨0⟩, 5⟩, 0⟩, some ⟨⟨⟨0⟩, 5⟩, 1⟩] ∧
      page.held 0 = some ⟨[.int 3, .str "three"], some ⟨⟨⟨0⟩, 5⟩, 0⟩⟩ := by
  intro calls page
  exact ⟨maps_of_calls (.inl (by decide)) calls, by decide +kernel, by decide +kernel⟩

end PagedTables.HeapPage

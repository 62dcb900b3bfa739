import PagedTables.Proofs.Storage.Edit

/-! Pages in memory after any calls. However a page was obtained and whatever was done to it since, it
can be written, and it is read back as it was, apart from its dirty mark. -/

namespace PagedTables

inductive PageCall
  | insert (tuple : Tuple)
  | delete (tuple : Tuple)
  | markDirty (owner : Option TransactionId)
deriving DecidableEq

namespace HeapPage

variable {id : PageId} {schema : Schema} {layout : PageLayout} {pageSize width : Nat}
  {page : HeapPage}

/-- The page after a call. A call that fails leaves it as it was. -/
def perform (page : HeapPage) : PageCall → HeapPage
  | .insert tuple =>
    match page.insert tuple with
    | .ok (later, _) => later
    | .error _ => page
  | .delete tuple =>
    match page.delete tuple with
    | .ok later => later
    | .error _ => page
  | .markDirty owner => page.markDirty owner

structure Fits (id : PageId) (schema : Schema) (layout : PageLayout) (page : HeapPage) : Prop where
  sound : page.Sound
  id : page.id = id
  schema : page.schema = schema
  layout : page.layout = layout

theorem Slotted.perform (slotted : page.Slotted id schema layout) (call : PageCall) :
    (page.perform call).Slotted id schema layout := by
  cases call with
  | insert tuple =>
    cases answer : page.insert tuple with
    | error failure => simpa only [HeapPage.perform, answer] using slotted
    | ok both => simpa only [HeapPage.perform, answer] using slotted.insert answer
  | delete tuple =>
    cases answer : page.delete tuple with
    | error failure => simpa only [HeapPage.perform, answer] using slotted
    | ok later => simpa only [HeapPage.perform, answer] using slotted.delete answer
  | markDirty owner => exact slotted.markDirty owner

theorem Slotted.run (slotted : page.Slotted id schema layout) (calls : List PageCall) :
    (calls.foldl HeapPage.perform page).Slotted id schema layout := by
  induction calls generalizing page with
  | nil => exact slotted
  | cons call calls ih => exact ih (slotted.perform call)

theorem slotted_blank (id : PageId) (schema : Schema) (layout : PageLayout) :
    (blank id schema layout).Slotted id schema layout where
  count := List.length_replicate
  stored := fun slot tuple found => by simp [blank, List.getElem?_replicate] at found
  id := rfl
  schema := rfl
  layout := rfl

theorem slotted_of_ofBytes {data : Bytes} (h : ofBytes id schema layout data = .ok page) :
    page.Slotted id schema layout ∧ page.dirtiedBy = none := by
  unfold ofBytes at h
  split at h
  · exact slotted_of_read h
  · cases h

theorem Slotted.fits (slotted : page.Slotted id schema layout) (valid : layout.Valid)
    (width : layout.tupleWidth = schema.size) : page.Fits id schema layout :=
  ⟨slotted.sound valid width, slotted.id, slotted.schema, slotted.layout⟩

theorem Fits.run (fits : page.Fits id schema layout) (calls : List PageCall) :
    (calls.foldl HeapPage.perform page).Fits id schema layout := by
  obtain ⟨sound, rfl, rfl, rfl⟩ := fits
  exact (sound.slotted.run calls).fits sound.layout sound.width

theorem fits_blank (valid : layout.Valid) (width : layout.tupleWidth = schema.size) :
    (blank id schema layout).Fits id schema layout :=
  (slotted_blank id schema layout).fits valid width

theorem allocate_eq_ok (valid : layout.Valid) :
    allocate id schema layout = .ok (blank id schema layout) := by
  have within := valid.within
  have small := valid.small
  have slots : layout.numSlots * 1 ≤ layout.numSlots * layout.tupleWidth :=
    Nat.mul_le_mul_left _ valid.width_pos
  refine if_pos ?_
  unfold slotLimit
  omega

theorem fits_of_ofBytes (valid : layout.Valid) (width : layout.tupleWidth = schema.size)
    {data : Bytes} (h : ofBytes id schema layout data = .ok page) :
    page.Fits id schema layout :=
  (slotted_of_ofBytes h).1.fits valid width

theorem clean_of_ofBytes (valid : layout.Valid) (width : layout.tupleWidth = schema.size)
    {data : Bytes} (h : ofBytes id schema layout data = .ok page) : page.markDirty none = page := by
  unfold ofBytes at h
  split at h
  · obtain ⟨_, _, _, _, clean⟩ := sound_of_read valid width h
    rw [markDirty, ← clean]
  · cases h

theorem Fits.toBytes (fits : page.Fits id schema layout) :
    ∃ bytes, page.toBytes = .ok bytes ∧ bytes.length = layout.pageSize ∧
      ofBytes id schema layout bytes = .ok (page.markDirty none) := by
  obtain ⟨sound, rfl, rfl, rfl⟩ := fits
  obtain ⟨bytes, put, puts⟩ := sound.exists_put 0 (.zeros page.layout.pageSize)
  have length : bytes.length = page.layout.pageSize := by
    rw [puts.length, Nat.zero_add]
    exact Nat.max_self _
  refine ⟨bytes, put, length, ?_⟩
  rw [ofBytes, if_pos length]
  exact puts.reads bytes fun _ _ _ => rfl

/-- A page that was made new or read, after any calls, is written in exactly its size and read back
clean, with the same tuples in the same slots. -/
theorem ofBytes_toBytes_of_calls (sized : schema.width = .ok width) (small : pageSize < 2 ^ 32)
    (laid : PageLayout.forSizes pageSize width = .ok layout)
    (obtained : allocate id schema layout = .ok page ∨
      ∃ data, ofBytes id schema layout data = .ok page) (calls : List PageCall) :
    ∃ bytes, (calls.foldl perform page).toBytes = .ok bytes ∧ bytes.length = pageSize ∧
      ofBytes id schema layout bytes = .ok ((calls.foldl perform page).markDirty none) := by
  obtain ⟨valid, pageSize_eq, width_eq⟩ := PageLayout.valid_of_forSizes small laid
  have width : layout.tupleWidth = schema.size := width_eq.trans (Schema.width_eq sized)
  have first : page.Fits id schema layout := by
    rcases obtained with new | ⟨data, read⟩
    · obtain rfl : blank id schema layout = page := by
        simpa only [allocate_eq_ok valid, Except.ok.injEq] using new
      exact fits_blank valid width
    · exact fits_of_ofBytes valid width read
  exact pageSize_eq ▸ (first.run calls).toBytes

def names : Schema := ⟨[.int, .str 6], List.cons_ne_nil _ _⟩

/-- Two rows are stored, one that does not fit is refused, and the first is taken out again. -/
theorem ofBytes_toBytes_names :
    let calls : List PageCall := [.insert ⟨[.int 1, .str "naïve"], none⟩, .insert ⟨[.int 2], none⟩,
      .insert ⟨[.int 3, .str ""], none⟩, .delete ⟨[], some ⟨⟨⟨0⟩, 5⟩, 0⟩⟩, .markDirty (some ⟨7⟩)]
    let page := calls.foldl perform (blank ⟨⟨0⟩, 5⟩ names ⟨64, 14, 4, 1⟩)
    page.slots = [none, some ⟨[.int 3, .str ""], some ⟨⟨⟨0⟩, 5⟩, 1⟩⟩, none, none] ∧
      ∃ bytes, page.toBytes = .ok bytes ∧ bytes.length = 64 ∧
        ofBytes ⟨⟨0⟩, 5⟩ names ⟨64, 14, 4, 1⟩ bytes = .ok (page.markDirty none) := by
  intro calls page
  have sized : names.width = .ok 14 := by decide
  have laid : PageLayout.forSizes 64 14 = .ok ⟨64, 14, 4, 1⟩ := by decide
  exact ⟨by decide +kernel,
    ofBytes_toBytes_of_calls sized (by decide) laid (.inl (by decide)) calls⟩

end HeapPage
end PagedTables

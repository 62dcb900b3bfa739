import PagedTables.Pool.Basic

/-! Why a page cannot be read: there is no such table, no such page, or what is there is no page. -/

namespace PagedTables

/-- Why a page was not read. A fault is a size or an offset that does not fit. -/
inductive Failure.Unread (page : PageId) : Failure → Prop
  | noTable : Unread page (.error (.tableNotFound page.table))
  | noPage : Unread page (.error (.pageNotFound page))
  | corrupt (cause : Corruption) : Unread page (.error (.corruptPage page cause))
  | fault (cause : Fault) : Unread page (.fault cause)

theorem exists_of_mapM_error {α β ε : Type} {f : α → Except ε β} {xs : List α} {failure : ε}
    (h : xs.mapM f = .error failure) : ∃ x ∈ xs, f x = .error failure := by
  induction xs with
  | nil => cases h
  | cons x xs ih =>
    rw [List.mapM_cons] at h
    cases first : f x with
    | error other =>
      simp only [first, bind, Except.bind, Except.error.injEq] at h
      exact ⟨x, List.mem_cons_self, h ▸ first⟩
    | ok y =>
      simp only [first, bind, Except.bind] at h
      cases rest : xs.mapM f with
      | error other =>
        simp only [rest, Except.error.injEq] at h
        obtain ⟨z, member, bad⟩ := ih (h ▸ rest)
        exact ⟨z, List.mem_cons_of_mem x member, bad⟩
      | ok ys =>
        simp only [rest, pure, Except.pure] at h
        cases h

variable {id : PageId} {failure : Failure}

theorem fault_of_mulSized {a b : Nat} (h : mulSized a b = .error failure) :
    ∃ cause, failure = .fault cause := by
  unfold mulSized at h
  split at h <;> cases h
  exact ⟨_, rfl⟩

theorem fault_of_addSized {a b : Nat} (h : addSized a b = .error failure) :
    ∃ cause, failure = .fault cause := by
  unfold addSized at h
  split at h <;> cases h
  exact ⟨_, rfl⟩

theorem PageLayout.fault_of_slotStart {layout : PageLayout} {slot : Nat}
    (h : layout.slotStart slot = .error failure) : ∃ cause, failure = .fault cause := by
  simp only [slotStart, bind, Except.bind] at h
  split at h
  · next product =>
    cases h
    exact fault_of_mulSized product
  · exact fault_of_addSized h

theorem HeapPage.corrupt_of_read {schema : Schema} {layout : PageLayout} {data : Bytes} {start : Nat}
    (h : read id schema layout data start = .error failure) :
    (∃ cause, failure = .error (.corruptPage id cause)) ∨ ∃ cause, failure = .fault cause := by
  unfold read at h
  cases made : (List.range layout.numSlots).mapM (readSlot id schema layout
      (data.read start layout.headerLength).toArray data start) with
  | ok slots =>
    simp only [made, bind, Except.bind, pure, Except.pure] at h
    cases h
  | error other =>
    simp only [made, bind, Except.bind, Except.error.injEq] at h
    subst h
    obtain ⟨slot, _, bad⟩ := exists_of_mapM_error made
    unfold readSlot Bitmap.get at bad
    split at bad
    · simp only [bind, Except.bind, pure, Except.pure] at bad
      split at bad
      · cases place : layout.slotStart slot with
        | error cause =>
          simp only [place, Except.error.injEq] at bad
          exact .inr (PageLayout.fault_of_slotStart (bad ▸ place))
        | ok first =>
          simp only [place] at bad
          split at bad <;> cases bad
          exact .inl ⟨_, rfl⟩
      · cases bad
    · cases bad
      exact .inr ⟨_, rfl⟩

theorem HeapPage.unread_of_read {schema : Schema} {layout : PageLayout} {data : Bytes} {start : Nat}
    (h : read id schema layout data start = .error failure) : failure.Unread id := by
  rcases corrupt_of_read h with ⟨cause, rfl⟩ | ⟨cause, rfl⟩
  · exact .corrupt cause
  · exact .fault cause

theorem HeapFile.unread_of_readPage {file : HeapFile} {disk : Disk}
    (h : file.readPage disk id = .error failure) : failure.Unread id := by
  unfold readPage at h
  split at h
  · cases h
    exact .noPage
  · simp only [bind, Except.bind] at h
    split at h
    · next product =>
      cases h
      obtain ⟨cause, rfl⟩ := fault_of_mulSized product
      exact .fault cause
    · split at h
      · next sum =>
        cases h
        obtain ⟨cause, rfl⟩ := fault_of_addSized sum
        exact .fault cause
      · split at h
        · cases h
          exact .noPage
        · exact HeapPage.unread_of_read h

theorem Pool.unread_of_readPage {pool : Pool} (h : pool.readPage id = .error failure) :
    failure.Unread id := by
  unfold readPage file at h
  cases found : pool.tables[id.table]? with
  | none =>
    simp only [found, bind, Except.bind] at h
    cases h
    exact .noTable
  | some file =>
    simp only [found, bind, Except.bind] at h
    exact HeapFile.unread_of_readPage h

end PagedTables

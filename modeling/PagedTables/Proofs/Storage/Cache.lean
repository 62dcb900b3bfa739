import PagedTables.Cache.Basic
import PagedTables.Proofs.Storage.Line

/-! What happens to the cached pages: users come and go, one page makes room for another, and a page
that is dropped stays aside for its users. -/

namespace PagedTables

namespace Resident

def rested (resident : Resident) : Resident :=
  { resident with frame := { resident.frame with pins := 0, latch := .shared 0 } }

theorem rested_eq_iff {a b : Resident} :
    a.rested = b.rested ↔
      a.stay = b.stay ∧ a.frame.id = b.frame.id ∧ a.frame.page = b.frame.page := by
  obtain ⟨stay, id, page, pins, latch⟩ := a
  obtain ⟨stay', id', page', pins', latch'⟩ := b
  simp [rested]

def changed (change : HeapPage → HeapPage) (resident : Resident) : Resident :=
  { resident with frame := { resident.frame with page := change resident.frame.page } }

theorem rested_changed (change : HeapPage → HeapPage) {a b : Resident} (same : a.rested = b.rested) :
    (a.changed change).rested = (b.changed change).rested := by
  obtain ⟨stay, id, page⟩ := rested_eq_iff.mp same
  exact rested_eq_iff.mpr ⟨stay, id, congrArg change page⟩

end Resident

namespace Frame

theorem unpin_unlatch_rested (stay : Nat) (frame : Frame) :
    (⟨stay, frame.unpin.1.unlatch⟩ : Resident).rested = (⟨stay, frame⟩ : Resident).rested := by
  obtain ⟨id, page, pins, latch⟩ := frame
  cases latch <;> rfl

end Frame

namespace Cache

variable {cache later : Cache} {page other : PageId} {stay : Nat} {resident found : Resident}

/-- Stays are given out once: no two cached pages share one, nor one with a page aside. -/
structure Distinct (cache : Cache) : Prop where
  below : ∀ (page : PageId) (resident : Resident), cache.frames[page]? = some resident →
    resident.stay < cache.nextStay
  aside : ∀ resident ∈ cache.departed, resident.stay < cache.nextStay
  apart : ∀ (page : PageId) (resident : Resident), cache.frames[page]? = some resident →
    ∀ gone ∈ cache.departed, gone.stay ≠ resident.stay
  once : ∀ (page : PageId) (resident : Resident) (other : PageId) (present : Resident),
    cache.frames[page]? = some resident → cache.frames[other]? = some present →
      resident.stay = present.stay → page = other

theorem distinct_empty : empty.Distinct where
  below page resident h := by simp [empty] at h
  aside resident h := by simp [empty] at h
  apart page resident h := by simp [empty] at h
  once page resident other present h := by simp [empty] at h

theorem Distinct.of_stays (distinct : cache.Distinct)
    (frames : ∀ (page : PageId) (resident : Resident), later.frames[page]? = some resident →
      ∃ before, cache.frames[page]? = some before ∧ before.stay = resident.stay)
    (departed : ∀ gone ∈ later.departed, ∃ before ∈ cache.departed, before.stay = gone.stay)
    (nextStay : later.nextStay = cache.nextStay) : later.Distinct where
  below page resident present := by
    obtain ⟨before, found, stays⟩ := frames page resident present
    exact stays ▸ nextStay ▸ distinct.below page before found
  aside gone member := by
    obtain ⟨before, member, stays⟩ := departed gone member
    exact stays ▸ nextStay ▸ distinct.aside before member
  apart page resident present gone member := by
    obtain ⟨before, found, stays⟩ := frames page resident present
    obtain ⟨old, member, stays'⟩ := departed gone member
    exact stays ▸ stays' ▸ distinct.apart page before found old member
  once first resident second present found found' equal := by
    obtain ⟨before, old, stays⟩ := frames first resident found
    obtain ⟨before', old', stays'⟩ := frames second present found'
    exact distinct.once first before second before' old old' (stays.trans (equal.trans stays'.symm))

theorem mem_keys_iff : page ∈ cache.frames.keys ↔ ∃ resident, cache.frames[page]? = some resident := by
  rw [Std.ExtTreeMap.mem_keys, Std.ExtTreeMap.mem_iff_isSome_getElem?, Option.isSome_iff_exists]

theorem size_le (h : ∀ (page : PageId) (resident : Resident), later.frames[page]? = some resident →
    ∃ before, cache.frames[page]? = some before) : later.size ≤ cache.size := by
  unfold size
  rw [← Std.ExtTreeMap.length_keys, ← Std.ExtTreeMap.length_keys]
  refine later.frames.nodup_keys.length_le_of_subset fun page member => ?_
  obtain ⟨resident, present⟩ := mem_keys_iff.mp member
  exact mem_keys_iff.mpr (h page resident present)

theorem size_lt (h : ∀ (other : PageId) (resident : Resident), later.frames[other]? = some resident →
    ∃ before, cache.frames[other]? = some before) (present : cache.frames[page]? = some found)
    (gone : later.frames[page]? = none) : later.size < cache.size := by
  have listed : page ∈ cache.frames.keys := mem_keys_iff.mpr ⟨found, present⟩
  have unlisted : page ∉ later.frames.keys := by
    intro member
    obtain ⟨resident, here⟩ := mem_keys_iff.mp member
    rw [gone] at here
    cases here
  unfold size
  rw [← Std.ExtTreeMap.length_keys, ← Std.ExtTreeMap.length_keys]
  have distinct := List.nodup_cons.mpr ⟨unlisted, later.frames.nodup_keys⟩
  refine distinct.length_le_of_subset fun other member => ?_
  rcases List.mem_cons.mp member with rfl | member
  · exact listed
  · obtain ⟨resident, here⟩ := mem_keys_iff.mp member
    exact mem_keys_iff.mpr (h other resident here)

/-- A page's users came or went. One that stands aside may be gone with its last user. -/
structure Visits (page : PageId) (cache later : Cache) : Prop where
  elsewhere : ∀ other, other ≠ page → later.frames[other]? = cache.frames[other]?
  here : later.frames[page]?.map Resident.rested = cache.frames[page]?.map Resident.rested
  departed : ∀ gone ∈ later.departed, ∃ before ∈ cache.departed, gone.rested = before.rested
  nextStay : later.nextStay = cache.nextStay

theorem Visits.refl (page : PageId) (cache : Cache) : Visits page cache cache :=
  ⟨fun _ _ => rfl, rfl, fun gone member => ⟨gone, member, rfl⟩, rfl⟩

theorem Visits.rested (h : Visits page cache later) (other : PageId) :
    later.frames[other]?.map Resident.rested = cache.frames[other]?.map Resident.rested := by
  by_cases same : other = page
  · exact same ▸ h.here
  · rw [h.elsewhere other same]

theorem Visits.exists_before (h : Visits page cache later)
    (present : later.frames[other]? = some resident) :
    ∃ before, cache.frames[other]? = some before ∧ resident.rested = before.rested := by
  have same := h.rested other
  rw [present, Option.map_some, eq_comm, Option.map_eq_some_iff] at same
  obtain ⟨before, found, same⟩ := same
  exact ⟨before, found, same.symm⟩

theorem Visits.size_le (h : Visits page cache later) : later.size ≤ cache.size :=
  Cache.size_le fun _ _ present => (h.exists_before present).imp fun _ found => found.1

theorem Distinct.visits (distinct : cache.Distinct) (h : Visits page cache later) :
    later.Distinct := by
  refine distinct.of_stays (fun other resident present => ?_) (fun gone member => ?_) h.nextStay
  · obtain ⟨before, found, same⟩ := h.exists_before present
    exact ⟨before, found, (Resident.rested_eq_iff.mp same).1.symm⟩
  · obtain ⟨before, member, same⟩ := h.departed gone member
    exact ⟨before, member, (Resident.rested_eq_iff.mp same).1.symm⟩

theorem getElem?_update :
    (cache.update page resident).frames[other]? =
      if other = page ∧ cache.frames[page]?.any (fun present => present.stay = resident.stay) then
        some resident
      else cache.frames[other]? := by
  unfold update
  cases here : cache.frames[page]?.any fun present => present.stay = resident.stay with
  | true =>
    simp only [↓reduceIte, Std.ExtTreeMap.getElem?_insert, Std.LawfulEqOrd.compare_eq_iff_eq,
      and_true, @eq_comm _ other]
  | false => simp

theorem size_update (cache : Cache) (page : PageId) (resident : Resident) :
    (cache.update page resident).size = cache.size := by
  unfold update
  split
  · next present =>
    have cached : cache.frames.contains page = true := by
      rw [Std.ExtTreeMap.contains_eq_isSome_getElem?]
      exact Option.isSome_of_any present
    exact Std.ExtTreeMap.size_insert.trans (if_pos cached)
  · rfl

theorem mem_departed_update (member : found ∈ (cache.update page resident).departed) :
    found ∈ cache.departed ∨
      found = resident ∧
        cache.frames[page]?.any (fun present => present.stay = resident.stay) = false := by
  unfold update at member
  split at member
  · exact .inl member
  · next aside =>
    obtain ⟨old, present, kept⟩ := List.mem_filterMap.mp member
    split at kept
    · split at kept
      · exact .inr ⟨(Option.some.inj kept).symm, by simpa using aside⟩
      · cases kept
    · cases kept
      exact .inl present

theorem nextStay_update : (cache.update page resident).nextStay = cache.nextStay := by
  unfold update
  split <;> rfl

theorem find?_cases (h : cache.find? page stay = some found) :
    found.stay = stay ∧ (cache.frames[page]? = some found ∨
      found ∈ cache.departed ∧ found.frame.id = page ∧
        cache.frames[page]?.any (fun present => present.stay = stay) = false) := by
  unfold find? at h
  rw [Option.or_eq_some_iff] at h
  rcases h with here | ⟨absent, aside⟩
  · obtain ⟨present, same⟩ := Option.filter_eq_some_iff.mp here
    exact ⟨by simpa using same, .inl present⟩
  · have same := List.find?_some aside
    simp only [Bool.and_eq_true, decide_eq_true_eq] at same
    refine ⟨same.1, .inr ⟨List.mem_of_find?_eq_some aside, same.2, ?_⟩⟩
    cases present : cache.frames[page]? with
    | none => rfl
    | some resident =>
      rw [present] at absent
      simpa using absent

/-- A page that a user may see: the cached one of the stay, or one that stands aside. -/
def Shows (cache : Cache) (page : PageId) (stay : Nat) (heap : HeapPage) : Prop :=
  ∃ resident : Resident, resident.stay = stay ∧ resident.frame.page = heap ∧
    (cache.frames[page]? = some resident ∨
      resident ∈ cache.departed ∧ resident.frame.id = page)

theorem shows_of_find? (h : cache.find? page stay = some found) :
    cache.Shows page stay found.frame.page := by
  obtain ⟨stays, place⟩ := find?_cases h
  exact ⟨found, stays, rfl, place.imp id fun aside => ⟨aside.1, aside.2.1⟩⟩

theorem Shows.visits {heap : HeapPage} (shows : later.Shows page stay heap)
    (h : Visits other cache later) : cache.Shows page stay heap := by
  obtain ⟨after, stays, same, here | ⟨aside, named⟩⟩ := shows
  · obtain ⟨before, found, equal⟩ := h.exists_before here
    obtain ⟨stays', _, same'⟩ := Resident.rested_eq_iff.mp equal
    exact ⟨before, stays'.symm.trans stays, same'.symm.trans same, .inl found⟩
  · obtain ⟨before, member, equal⟩ := h.departed after aside
    obtain ⟨stays', named', same'⟩ := Resident.rested_eq_iff.mp equal
    exact ⟨before, stays'.symm.trans stays, same'.symm.trans same,
      .inr ⟨member, named'.symm.trans named⟩⟩

theorem find?_of_cached (present : cache.frames[page]? = some found) :
    cache.find? page found.stay = some found := by
  simp [find?, present]

theorem visits_update (h : cache.find? page stay = some found)
    (same : resident.rested = found.rested) : Visits page cache (cache.update page resident) := by
  -- The stay is that of the cached page or of one aside, never of both.
  obtain ⟨stays, place⟩ := find?_cases h
  have stay' := (Resident.rested_eq_iff.mp same).1
  refine ⟨fun other apart => ?_, ?_, fun gone member => ?_, nextStay_update⟩
  · rw [getElem?_update, if_neg fun both => apart both.1]
  · rw [getElem?_update]
    split
    · next here =>
      rcases place with present | ⟨_, _, absent⟩
      · rw [present, Option.map_some, Option.map_some, same]
      · rw [stay', stays, absent] at here
        cases here.2
    · rfl
  · rcases mem_departed_update member with before | ⟨rfl, absent⟩
    · exact ⟨gone, before, rfl⟩
    · rcases place with present | ⟨aside, _, _⟩
      · simp [present, stay'] at absent
      · exact ⟨found, aside, same⟩

structure Replaces (page : PageId) (resident : Resident) (cache later : Cache) : Prop where
  frames : ∀ other, later.frames[other]? =
    if other = page then some resident else cache.frames[other]?
  departed : later.departed = cache.departed
  nextStay : later.nextStay = cache.nextStay

theorem replaces_update (present : cache.frames[page]? = some found) (frame : Frame) :
    Replaces page ⟨found.stay, frame⟩ cache (cache.update page ⟨found.stay, frame⟩) where
  frames other := by
    rw [getElem?_update]
    simp [present]
  departed := by
    unfold update
    rw [if_pos (by simp [present])]
  nextStay := nextStay_update

theorem Replaces.cached (h : Replaces page resident cache later) :
    later.frames[page]? = some resident := by
  rw [h.frames, if_pos rfl]

theorem Replaces.elsewhere (h : Replaces page resident cache later) (apart : other ≠ page) :
    later.frames[other]? = cache.frames[other]? := by
  rw [h.frames, if_neg apart]

theorem Replaces.cases {after : Resident} (h : Replaces page after cache later)
    (present : later.frames[other]? = some resident) :
    other = page ∧ resident = after ∨ other ≠ page ∧ cache.frames[other]? = some resident := by
  rw [h.frames] at present
  split at present
  · next same => exact .inl ⟨same, (Option.some.inj present).symm⟩
  · next apart => exact .inr ⟨apart, present⟩

theorem Replaces.trans {last : Cache} (h : Replaces page found cache later)
    (h' : Replaces page resident later last) : Replaces page resident cache last where
  frames other := by
    rw [h'.frames, h.frames]
    split <;> rfl
  departed := h'.departed.trans h.departed
  nextStay := h'.nextStay.trans h.nextStay

theorem Replaces.visits {cache later : Cache} {page : PageId} {before after : Resident}
    (h : Replaces page after cache later) (present : cache.frames[page]? = some before)
    (same : after.rested = before.rested) : Visits page cache later where
  elsewhere _ apart := h.elsewhere apart
  here := by rw [h.cached, present, Option.map_some, Option.map_some, same]
  departed gone member := ⟨gone, h.departed ▸ member, rfl⟩
  nextStay := h.nextStay

theorem Replaces.size_le (h : Replaces page resident cache later)
    (present : cache.frames[page]? = some found) : later.size ≤ cache.size := by
  refine Cache.size_le fun other entry here => ?_
  rcases h.cases here with ⟨rfl, _⟩ | ⟨_, here⟩
  · exact ⟨found, present⟩
  · exact ⟨entry, here⟩

theorem Distinct.replaces (distinct : cache.Distinct) (present : cache.frames[page]? = some found)
    (same : resident.stay = found.stay) (h : Replaces page resident cache later) :
    later.Distinct := by
  refine distinct.of_stays (fun other after here => ?_) (fun gone member => ?_) h.nextStay
  · rcases h.cases here with ⟨rfl, rfl⟩ | ⟨_, here⟩
    · exact ⟨found, present, same.symm⟩
    · exact ⟨after, here, rfl⟩
  · exact ⟨gone, h.departed ▸ member, rfl⟩

/-- A page was used within a stay: it is as it was, or as `change` leaves it. -/
structure Rewrites (page : PageId) (stay : Nat) (change : HeapPage → HeapPage)
    (cache later : Cache) : Prop where
  elsewhere : ∀ other, other ≠ page → later.frames[other]? = cache.frames[other]?
  here : later.frames[page]?.map Resident.rested = cache.frames[page]?.map Resident.rested ∨
    ∃ resident, cache.frames[page]? = some resident ∧ resident.stay = stay ∧
      later.frames[page]?.map Resident.rested = some (resident.changed change).rested
  departed : ∀ gone ∈ later.departed, ∃ before ∈ cache.departed, gone.rested = before.rested ∨
    before.stay = stay ∧ before.frame.id = page ∧ gone.rested = (before.changed change).rested
  nextStay : later.nextStay = cache.nextStay

variable {change : HeapPage → HeapPage} {last : Cache}

theorem Visits.rewrites (h : Visits page cache later) (stay : Nat) (change : HeapPage → HeapPage) :
    Rewrites page stay change cache later where
  elsewhere := h.elsewhere
  here := .inl h.here
  departed gone member := by
    obtain ⟨before, member, same⟩ := h.departed gone member
    exact ⟨before, member, .inl same⟩
  nextStay := h.nextStay

theorem Rewrites.visits (h : Rewrites page stay change cache later)
    (still : ∀ heap, change heap = heap) : Visits page cache later := by
  have unchanged : ∀ resident : Resident, resident.changed change = resident := fun resident => by
    rw [Resident.changed, still]
  refine ⟨h.elsewhere, ?_, fun gone member => ?_, h.nextStay⟩
  · rcases h.here with same | ⟨resident, present, _, same⟩
    · exact same
    · rw [same, present, unchanged, Option.map_some]
  · obtain ⟨before, member, same | ⟨_, _, same⟩⟩ := h.departed gone member
    · exact ⟨before, member, same⟩
    · exact ⟨before, member, unchanged before ▸ same⟩

theorem Visits.trans_rewrites (h : Visits page cache later)
    (h' : Rewrites page stay change later last) : Rewrites page stay change cache last where
  elsewhere other apart := (h'.elsewhere other apart).trans (h.elsewhere other apart)
  here := by
    rcases h'.here with same | ⟨resident, present, stays, changed⟩
    · exact .inl (same.trans h.here)
    · obtain ⟨before, found, same⟩ := h.exists_before present
      refine .inr ⟨before, found, (Resident.rested_eq_iff.mp same).1.symm.trans stays, ?_⟩
      rw [changed, Resident.rested_changed change same]
  departed gone member := by
    obtain ⟨between, member, cases⟩ := h'.departed gone member
    obtain ⟨before, member, same⟩ := h.departed between member
    refine ⟨before, member, cases.imp (·.trans same) fun ⟨stays, named, changed⟩ => ?_⟩
    obtain ⟨stays', named', _⟩ := Resident.rested_eq_iff.mp same
    exact ⟨stays'.symm.trans stays, named'.symm.trans named,
      changed.trans (Resident.rested_changed change same)⟩
  nextStay := h'.nextStay.trans h.nextStay

theorem Rewrites.trans_visits (h : Rewrites page stay change cache later)
    (h' : Visits page later last) : Rewrites page stay change cache last where
  elsewhere other apart := (h'.elsewhere other apart).trans (h.elsewhere other apart)
  here := by
    rw [h'.here]
    exact h.here
  departed gone member := by
    obtain ⟨between, member, same⟩ := h'.departed gone member
    obtain ⟨before, member, cases⟩ := h.departed between member
    exact ⟨before, member, cases.imp same.trans fun ⟨stays, named, changed⟩ =>
      ⟨stays, named, same.trans changed⟩⟩
  nextStay := h'.nextStay.trans h.nextStay

theorem rewrites_update (h : cache.find? page stay = some found) (change : HeapPage → HeapPage) :
    Rewrites page stay change cache (cache.update page (found.changed change)) := by
  obtain ⟨stays, place⟩ := find?_cases h
  have stay' : (found.changed change).stay = stay := stays
  refine ⟨fun other apart => ?_, ?_, fun gone member => ?_, nextStay_update⟩
  · rw [getElem?_update, if_neg fun both => apart both.1]
  · rcases place with present | ⟨_, _, absent⟩
    · refine .inr ⟨found, present, stays, ?_⟩
      rw [getElem?_update, if_pos ⟨rfl, by simp [present, stay', stays]⟩, Option.map_some]
    · rw [getElem?_update, stay', absent]
      simp
  · rcases mem_departed_update member with before | ⟨rfl, absent⟩
    · exact ⟨gone, before, .inl rfl⟩
    · rcases place with present | ⟨aside, named, _⟩
      · simp [present, stay', stays] at absent
      · exact ⟨found, aside, .inr ⟨stays, named, rfl⟩⟩

theorem Rewrites.cases (h : Rewrites page stay change cache later)
    (present : later.frames[other]? = some resident) :
    ∃ before, cache.frames[other]? = some before ∧ (resident.rested = before.rested ∨
      other = page ∧ before.stay = stay ∧ resident.rested = (before.changed change).rested) := by
  have kept : later.frames[other]?.map Resident.rested = cache.frames[other]?.map Resident.rested →
      ∃ before, cache.frames[other]? = some before ∧ resident.rested = before.rested := by
    intro same
    rw [present, Option.map_some, eq_comm, Option.map_eq_some_iff] at same
    obtain ⟨before, found, same⟩ := same
    exact ⟨before, found, same.symm⟩
  by_cases same : other = page
  · subst same
    rcases h.here with same | ⟨before, found, stays, changed⟩
    · obtain ⟨before, found, same⟩ := kept same
      exact ⟨before, found, .inl same⟩
    · rw [present, Option.map_some, Option.some.injEq] at changed
      exact ⟨before, found, .inr ⟨rfl, stays, changed⟩⟩
  · obtain ⟨before, found, same⟩ := kept (by rw [h.elsewhere other same])
    exact ⟨before, found, .inl same⟩

theorem Rewrites.size_le (h : Rewrites page stay change cache later) : later.size ≤ cache.size :=
  Cache.size_le fun _ _ present => (h.cases present).imp fun _ found => found.1

theorem Distinct.rewrites (distinct : cache.Distinct)
    (h : Rewrites page stay change cache later) : later.Distinct := by
  refine distinct.of_stays (fun other resident present => ?_) (fun gone member => ?_) h.nextStay
  · obtain ⟨before, found, same | ⟨_, _, same⟩⟩ := h.cases present
    · exact ⟨before, found, (Resident.rested_eq_iff.mp same).1.symm⟩
    · exact ⟨before, found, (Resident.rested_eq_iff.mp same).1.symm⟩
  · obtain ⟨before, member, same | ⟨_, _, same⟩⟩ := h.departed gone member
    · exact ⟨before, member, (Resident.rested_eq_iff.mp same).1.symm⟩
    · exact ⟨before, member, (Resident.rested_eq_iff.mp same).1.symm⟩

theorem of_evict (h : cache.evict = some later) :
    ∃ (page : PageId) (resident : Resident),
      cache.frames[page]? = some resident ∧ resident.frame.isEvictable = true ∧
      (∀ other, later.frames[other]? = if other = page then none else cache.frames[other]?) ∧
      later.departed = cache.departed ∧ later.nextStay = cache.nextStay := by
  unfold evict at h
  split at h
  · next order asked page chosen =>
    have may : cache.isEvictable page = true := LoadOrder.evictable_of_victim (by rw [chosen])
    cases h
    unfold isEvictable at may
    split at may
    · next resident present =>
      refine ⟨page, resident, present, may, fun other => ?_, rfl, rfl⟩
      simp only [Std.ExtTreeMap.getElem?_erase, Std.LawfulEqOrd.compare_eq_iff_eq,
        @eq_comm _ other]
    · cases may
  · cases h

theorem cached_of_left
    (frames : ∀ other, later.frames[other]? = if other = page then none else cache.frames[other]?)
    (present : later.frames[other]? = some resident) :
    other ≠ page ∧ cache.frames[other]? = some resident := by
  rw [frames] at present
  split at present
  · cases present
  · next apart => exact ⟨apart, present⟩

theorem size_of_left
    (frames : ∀ other, later.frames[other]? = if other = page then none else cache.frames[other]?)
    (present : cache.frames[page]? = some resident) : later.size + 1 = cache.size := by
  have back : later.frames.insert page resident = cache.frames := by
    apply Std.ExtTreeMap.ext_getElem?
    intro other
    simp only [frames, Std.ExtTreeMap.getElem?_insert, Std.LawfulEqOrd.compare_eq_iff_eq,
      @eq_comm _ other]
    split
    · next same => exact same ▸ present.symm
    · rfl
  have gone : later.frames.contains page = false := by
    rw [Std.ExtTreeMap.contains_eq_isSome_getElem?, frames, if_pos rfl, Option.isSome_none]
  unfold size
  rw [← back, Std.ExtTreeMap.size_insert, gone]
  rfl

theorem size_evict (h : cache.evict = some later) : later.size + 1 = cache.size := by
  obtain ⟨_, _, present, _, frames, _⟩ := of_evict h
  exact size_of_left frames present

theorem Distinct.evict (distinct : cache.Distinct) (h : cache.evict = some later) :
    later.Distinct := by
  obtain ⟨_, _, _, _, frames, departed, nextStay⟩ := of_evict h
  refine distinct.of_stays (fun other resident here => ?_) (fun gone member => ?_) nextStay
  · exact ⟨resident, (cached_of_left frames here).2, rfl⟩
  · exact ⟨gone, departed ▸ member, rfl⟩

theorem size_load {heap : HeapPage} (absent : cache.frames[heap.id]? = none) :
    (cache.load heap).1.size = cache.size + 1 := by
  have uncached : ¬cache.frames.contains heap.id = true := by
    simp [Std.ExtTreeMap.contains_eq_isSome_getElem?, absent]
  exact Std.ExtTreeMap.size_insert.trans (if_neg uncached)

theorem getElem?_load {heap : HeapPage} :
    (cache.load heap).1.frames[other]? =
      if other = heap.id then some ⟨cache.nextStay, (Frame.load heap).pin.1⟩
      else cache.frames[other]? := by
  simp only [load, Std.ExtTreeMap.getElem?_insert, Std.LawfulEqOrd.compare_eq_iff_eq,
    @eq_comm _ other]

theorem cached_of_load {heap : HeapPage}
    (present : (cache.load heap).1.frames[other]? = some resident) :
    other = heap.id ∧ resident = ⟨cache.nextStay, (Frame.load heap).pin.1⟩ ∨
      cache.frames[other]? = some resident := by
  rw [getElem?_load] at present
  split at present
  · next same => exact .inl ⟨same, (Option.some.inj present).symm⟩
  · exact .inr present

theorem Distinct.load (distinct : cache.Distinct) (heap : HeapPage) :
    (cache.load heap).1.Distinct := by
  refine ⟨fun other resident here => ?_, fun gone member => ?_,
    fun other resident here gone member => ?_, fun first a second b here here' same => ?_⟩
  · rcases cached_of_load here with ⟨_, rfl⟩ | old
    · exact Nat.lt_succ_self _
    · exact Nat.lt_succ_of_lt (distinct.below other resident old)
  · exact Nat.lt_succ_of_lt (distinct.aside gone member)
  · rcases cached_of_load here with ⟨_, rfl⟩ | old
    · exact Nat.ne_of_lt (distinct.aside gone member)
    · exact distinct.apart other resident old gone member
  · rcases cached_of_load here with ⟨rfl, rfl⟩ | old <;>
      rcases cached_of_load here' with ⟨rfl, rfl⟩ | old'
    · rfl
    · exact absurd same.symm (Nat.ne_of_lt (distinct.below second b old'))
    · exact absurd same (Nat.ne_of_lt (distinct.below first a old))
    · exact distinct.once first a second b old old' same

theorem of_discard (h : cache.discard page = some later) :
    ∃ resident, cache.frames[page]? = some resident ∧
      (∀ other, later.frames[other]? = if other = page then none else cache.frames[other]?) ∧
      (∀ gone ∈ later.departed, gone ∈ cache.departed ∨ gone = resident) ∧
      later.nextStay = cache.nextStay := by
  unfold discard at h
  split at h
  · cases h
  · next resident present =>
    cases h
    refine ⟨resident, present, fun other => ?_, fun gone member => ?_, rfl⟩
    · simp only [Std.ExtTreeMap.getElem?_erase, Std.LawfulEqOrd.compare_eq_iff_eq,
        @eq_comm _ other]
    · split at member
      · rcases List.mem_append.mp member with before | last
        · exact .inl before
        · exact .inr (List.mem_singleton.mp last)
      · exact .inl member

theorem size_discard (h : cache.discard page = some later) : later.size + 1 = cache.size := by
  obtain ⟨_, present, frames, _⟩ := of_discard h
  exact size_of_left frames present

theorem Distinct.discards (distinct : cache.Distinct) (h : cache.discard page = some later) :
    later.Distinct := by
  obtain ⟨resident, present, frames, departed, nextStay⟩ := of_discard h
  have before : ∀ (other : PageId) (found : Resident), later.frames[other]? = some found →
      other ≠ page ∧ cache.frames[other]? = some found := fun _ _ here => cached_of_left frames here
  refine ⟨fun other found here => ?_, fun gone member => ?_, fun other found here gone member => ?_,
    fun first a second b here here' same => ?_⟩
  · exact nextStay ▸ distinct.below other found (before other found here).2
  · rcases departed gone member with old | rfl
    · exact nextStay ▸ distinct.aside gone old
    · exact nextStay ▸ distinct.below page gone present
  · obtain ⟨apart, here⟩ := before other found here
    rcases departed gone member with old | rfl
    · exact distinct.apart other found here gone old
    · exact fun same => apart (distinct.once page gone other found present here same).symm
  · exact distinct.once first a second b (before first a here).2 (before second b here').2 same

theorem discard_eq_none (h : cache.discard page = none) : cache.frames[page]? = none := by
  unfold discard at h
  split at h
  · next absent => exact absent
  · cases h

end Cache
end PagedTables

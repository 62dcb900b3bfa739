import Mathlib.Algebra.Group.Nat.Defs
import Mathlib.Data.List.Nodup
import PagedTables.Proofs.Storage.Cache

/-! Pages and their users. The pins of a page, in the cache or aside, are counted by the users of its
stay, and no page that has a user is lost. -/

namespace PagedTables

/-- How many users the stays of pages have. -/
abbrev Tally := PageId → Nat → Nat

def Tally.plus (tally : Tally) (pinned : List (PageId × Nat)) : Tally :=
  fun page stay => tally page stay + pinned.count (page, stay)

theorem Tally.plus_append (tally : Tally) (pinned others : List (PageId × Nat)) :
    tally.plus (pinned ++ others) = (tally.plus pinned).plus others := by
  funext page stay
  simp only [plus, List.count_append, Nat.add_assoc]

theorem Tally.plus_perm (tally : Tally) {pinned others : List (PageId × Nat)}
    (perm : pinned.Perm others) : tally.plus pinned = tally.plus others := by
  funext page stay
  simp only [plus, perm.count_eq]

@[simp]
theorem Tally.plus_nil (tally : Tally) : tally.plus [] = tally := rfl

theorem Tally.plus_singleton_self (tally : Tally) (page : PageId) (stay : Nat) :
    tally.plus [(page, stay)] page stay = tally page stay + 1 := by
  simp [plus]

theorem Tally.plus_singleton_of_ne (tally : Tally) {page other : PageId} {stay stay' : Nat}
    (apart : (other, stay') ≠ (page, stay)) :
    tally.plus [(page, stay)] other stay' = tally other stay' := by
  simp [plus, apart.symm]

theorem Frame.isPinned_iff {frame : Frame} : frame.isPinned = true ↔ frame.pins.toNat ≠ 0 := by
  rw [isPinned, decide_eq_true_eq, ne_eq, ne_eq, ← UInt32.toNat_inj]
  rfl

theorem Frame.pins_of_isEvictable {frame : Frame} (may : frame.isEvictable = true) :
    frame.pins.toNat = 0 := by
  simp only [isEvictable, Bool.and_eq_true, Bool.not_eq_true'] at may
  by_contra pinned
  rw [isPinned_iff.mpr pinned] at may
  cases may.1.1

namespace Cache

/-- Each page has as many pins as users, and each user's page is in the cache or aside. -/
structure Tallied (tally : Tally) (cache : Cache) : Prop where
  distinct : cache.Distinct
  single : (cache.departed.map Resident.stay).Nodup
  named : ∀ (page : PageId) (resident : Resident), cache.frames[page]? = some resident →
    resident.frame.id = page
  cached : ∀ (page : PageId) (resident : Resident), cache.frames[page]? = some resident →
    resident.frame.pins.toNat = tally page resident.stay
  aside : ∀ gone ∈ cache.departed, gone.frame.pins.toNat = tally gone.frame.id gone.stay
  lodged : ∀ (page : PageId) (stay : Nat), tally page stay ≠ 0 →
    (∃ resident, cache.frames[page]? = some resident ∧ resident.stay = stay) ∨
      ∃ gone ∈ cache.departed, gone.frame.id = page ∧ gone.stay = stay

variable {cache later : Cache} {tally tally' : Tally} {page other : PageId} {stay : Nat}
  {resident before after : Resident}

theorem tallied_empty : empty.Tallied fun _ _ => 0 where
  distinct := distinct_empty
  single := List.nodup_nil
  named page resident present := by simp [empty] at present
  cached page resident present := by simp [empty] at present
  aside gone member := by cases member
  lodged page stay used := absurd rfl used

theorem Tallied.eq_of_stay (tallied : cache.Tallied tally) {gone gone' : Resident}
    (member : gone ∈ cache.departed) (member' : gone' ∈ cache.departed)
    (same : gone.stay = gone'.stay) : gone = gone' :=
  List.inj_on_of_nodup_map tallied.single member member' same

theorem Tallied.find?_of_aside (tallied : cache.Tallied tally) {gone : Resident}
    (member : gone ∈ cache.departed) :
    cache.find? gone.frame.id gone.stay = some gone := by
  have absent : cache.frames[gone.frame.id]?.filter (fun present => present.stay = gone.stay) =
      none := by
    rw [Option.filter_eq_none_iff]
    intro present here
    simpa using (tallied.distinct.apart _ present here gone member).symm
  have listed : (cache.departed.find? fun other =>
      other.stay = gone.stay && other.frame.id = gone.frame.id).isSome := by
    rw [List.find?_isSome]
    exact ⟨gone, member, by simp⟩
  obtain ⟨found, entry⟩ := Option.isSome_iff_exists.mp listed
  have same := List.find?_some entry
  simp only [Bool.and_eq_true, decide_eq_true_eq] at same
  rw [find?, absent, entry, Option.none_or]
  exact congrArg some (tallied.eq_of_stay (List.mem_of_find?_eq_some entry) member same.1)

theorem Tallied.of_find? (tallied : cache.Tallied tally)
    (found : cache.find? page stay = some resident) :
    resident.stay = stay ∧ resident.frame.id = page ∧
      resident.frame.pins.toNat = tally page stay := by
  obtain ⟨rfl, present | ⟨member, rfl, _⟩⟩ := find?_cases found
  · exact ⟨rfl, tallied.named page resident present, tallied.cached page resident present⟩
  · exact ⟨rfl, rfl, tallied.aside resident member⟩

theorem Tallied.exists_find? (tallied : cache.Tallied tally) (used : tally page stay ≠ 0) :
    ∃ resident, cache.find? page stay = some resident ∧
      resident.frame.pins.toNat = tally page stay ∧ resident.frame.pins ≠ 0 := by
  have found : ∃ resident, cache.find? page stay = some resident := by
    rcases tallied.lodged page stay used with ⟨resident, present, rfl⟩ | ⟨gone, member, rfl, rfl⟩
    · exact ⟨resident, find?_of_cached present⟩
    · exact ⟨gone, tallied.find?_of_aside member⟩
  obtain ⟨resident, found⟩ := found
  obtain ⟨_, _, count⟩ := tallied.of_find? found
  refine ⟨resident, found, count, fun none => used ?_⟩
  rw [← count, none]
  rfl

theorem Tallied.pins_add_one (tallied : cache.Tallied tally)
    (present : cache.frames[page]? = some resident) (room : tally page resident.stay + 1 < 2 ^ 32) :
    (resident.frame.pins + 1).toNat = tally page resident.stay + 1 := by
  rw [UInt32.toNat_add, tallied.cached page resident present]
  exact Nat.mod_eq_of_lt room

theorem Tallied.unused (tallied : cache.Tallied tally) (page : PageId) :
    tally page cache.nextStay = 0 := by
  by_contra used
  rcases tallied.lodged page cache.nextStay used with ⟨resident, present, same⟩ |
    ⟨gone, member, _, same⟩
  · exact absurd same (Nat.ne_of_lt (tallied.distinct.below page resident present))
  · exact absurd same (Nat.ne_of_lt (tallied.distinct.aside gone member))

theorem Tallied.replaces (tallied : cache.Tallied tally)
    (present : cache.frames[page]? = some before) (h : Replaces page after cache later)
    (stays : after.stay = before.stay) (named : after.frame.id = before.frame.id)
    (here : after.frame.pins.toNat = tally' page before.stay)
    (elsewhere : ∀ other stay, (other, stay) ≠ (page, before.stay) →
      tally' other stay = tally other stay) : later.Tallied tally' := by
  refine ⟨tallied.distinct.replaces present stays h, h.departed ▸ tallied.single,
    fun other resident found => ?_, fun other resident found => ?_, fun gone member => ?_,
    fun other stay used => ?_⟩
  · rcases h.cases found with ⟨rfl, rfl⟩ | ⟨_, found⟩
    · exact named.trans (tallied.named other before present)
    · exact tallied.named other resident found
  · rcases h.cases found with ⟨rfl, rfl⟩ | ⟨apart, found⟩
    · rw [here, stays]
    · rw [tallied.cached other resident found, elsewhere other _ (by simp [apart])]
  · rw [h.departed] at member
    have apart := tallied.distinct.apart page before present gone member
    rw [tallied.aside gone member, elsewhere _ _ (by simp [apart])]
  · by_cases same : (other, stay) = (page, before.stay)
    · cases same
      exact .inl ⟨after, h.cached, stays⟩
    · rw [elsewhere other stay same] at used
      rcases tallied.lodged other stay used with ⟨resident, found, rfl⟩ | aside
      · refine .inl ⟨resident, ?_, rfl⟩
        rw [h.elsewhere, found]
        rintro rfl
        obtain rfl := Option.some.inj (found.symm.trans present)
        exact same rfl
      · exact .inr (h.departed ▸ aside)

theorem mem_departed_update_iff
    (absent : cache.frames[page]?.any (fun present => present.stay = after.stay) = false) :
    resident ∈ (cache.update page after).departed ↔
      resident ∈ cache.departed ∧ resident.stay ≠ after.stay ∨
        resident = after ∧ after.frame.isPinned = true ∧
          ∃ old ∈ cache.departed, old.stay = after.stay := by
  rw [update, if_neg (by simp [absent]), List.mem_filterMap]
  constructor
  · rintro ⟨old, member, kept⟩
    split at kept
    · next same =>
      split at kept
      · next pinned =>
        exact .inr ⟨(Option.some.inj kept).symm, pinned, old, member, same⟩
      · cases kept
    · next apart =>
      cases kept
      exact .inl ⟨member, apart⟩
  · rintro (⟨member, apart⟩ | ⟨rfl, pinned, old, member, same⟩)
    · exact ⟨resident, member, if_neg apart⟩
    · exact ⟨old, member, by rw [if_pos same, if_pos pinned]⟩

theorem single_update (single : (cache.departed.map Resident.stay).Nodup) :
    ((cache.update page after).departed.map Resident.stay).Nodup := by
  unfold update
  split
  · exact single
  · refine single.sublist ?_
    generalize cache.departed = departed
    induction departed with
    | nil => exact .slnil
    | cons other departed ih =>
      by_cases same : other.stay = after.stay
      · by_cases pinned : after.frame.isPinned = true
        · simpa [List.filterMap_cons, same, pinned] using ih
        · simpa [List.filterMap_cons, same, pinned] using ih.cons after.stay
      · simpa [List.filterMap_cons, same] using ih

theorem Tallied.update_aside (tallied : cache.Tallied tally) (member : before ∈ cache.departed)
    (stays : after.stay = before.stay) (named : after.frame.id = before.frame.id)
    (here : after.frame.pins.toNat = tally' before.frame.id before.stay)
    (elsewhere : ∀ other stay, (other, stay) ≠ (before.frame.id, before.stay) →
      tally' other stay = tally other stay) :
    (cache.update before.frame.id after).Tallied tally' := by
  have absent : cache.frames[before.frame.id]?.any (fun present => present.stay = after.stay) =
      false := by
    cases present : cache.frames[before.frame.id]? with
    | none => rfl
    | some resident =>
      simpa [stays] using (tallied.distinct.apart _ resident present before member).symm
  have frames : ∀ other : PageId,
      (cache.update before.frame.id after).frames[other]? = cache.frames[other]? := by
    intro other
    rw [getElem?_update, if_neg (by simp [absent])]
  have departed : ∀ gone, gone ∈ (cache.update before.frame.id after).departed ↔
      gone ∈ cache.departed ∧ gone.stay ≠ after.stay ∨
        gone = after ∧ after.frame.isPinned = true := by
    intro gone
    rw [mem_departed_update_iff absent]
    have old : ∃ old ∈ cache.departed, old.stay = after.stay := ⟨before, member, stays.symm⟩
    simp only [old, and_true]
  -- The page aside is the only one of its stay, so the other ones have the users that they had.
  refine ⟨?_, single_update tallied.single, fun other resident found => ?_,
    fun other resident found => ?_, fun gone entry => ?_, fun other stay used => ?_⟩
  · refine tallied.distinct.of_stays (fun other resident found => ?_) (fun gone entry => ?_)
      nextStay_update
    · exact ⟨resident, frames other ▸ found, rfl⟩
    · rcases (departed gone).mp entry with ⟨old, _⟩ | ⟨rfl, _⟩
      · exact ⟨gone, old, rfl⟩
      · exact ⟨before, member, stays.symm⟩
  · exact tallied.named other resident (frames other ▸ found)
  · rw [frames] at found
    have apart := tallied.distinct.apart other resident found before member
    rw [tallied.cached other resident found, elsewhere _ _ (by simp [apart.symm])]
  · rcases (departed gone).mp entry with ⟨old, apart⟩ | ⟨rfl, _⟩
    · rw [tallied.aside gone old, elsewhere _ _ (by simp [stays ▸ apart])]
    · rw [here, named, stays]
  · by_cases same : (other, stay) = (before.frame.id, before.stay)
    · cases same
      refine .inr ⟨after, (departed after).mpr (.inr ⟨rfl, ?_⟩), named, stays⟩
      rw [Frame.isPinned_iff, here]
      exact used
    · rw [elsewhere other stay same] at used
      rcases tallied.lodged other stay used with ⟨resident, found, rfl⟩ | ⟨gone, old, rfl, rfl⟩
      · exact .inl ⟨resident, (frames other).trans found, rfl⟩
      · refine .inr ⟨gone, (departed gone).mpr (.inl ⟨old, fun equal => same ?_⟩), rfl, rfl⟩
        rw [tallied.eq_of_stay old member (equal.trans stays)]

theorem Tallied.update (tallied : cache.Tallied tally) (found : cache.find? page stay = some before)
    (stays : after.stay = before.stay) (named : after.frame.id = before.frame.id)
    (here : after.frame.pins.toNat = tally' page stay)
    (elsewhere : ∀ other stay', (other, stay') ≠ (page, stay) →
      tally' other stay' = tally other stay') : (cache.update page after).Tallied tally' := by
  obtain ⟨rfl, present | ⟨member, rfl, _⟩⟩ := find?_cases found
  · obtain ⟨_, frame⟩ := after
    cases stays
    exact tallied.replaces present (replaces_update present frame) rfl named here elsewhere
  · exact tallied.update_aside member stays named here elsewhere

theorem Tallied.evict (tallied : cache.Tallied tally) (evicted : cache.evict = some later) :
    later.Tallied tally := by
  obtain ⟨victim, chosen, present, may, frames, departed, _⟩ := of_evict evicted
  refine ⟨tallied.distinct.evict evicted, departed ▸ tallied.single, fun other resident found => ?_,
    fun other resident found => ?_, fun gone member => ?_, fun other stay used => ?_⟩
  · exact tallied.named other resident (cached_of_left frames found).2
  · exact tallied.cached other resident (cached_of_left frames found).2
  · exact tallied.aside gone (departed ▸ member)
  · rcases tallied.lodged other stay used with ⟨resident, found, rfl⟩ | aside
    · refine .inl ⟨resident, ?_, rfl⟩
      rw [frames, if_neg, found]
      rintro rfl
      obtain rfl := Option.some.inj (found.symm.trans present)
      rw [← tallied.cached other resident present, Frame.pins_of_isEvictable may] at used
      exact used rfl
    · exact .inr (departed ▸ aside)

theorem Tallied.load (tallied : cache.Tallied tally) {heap : HeapPage}
    (absent : cache.frames[heap.id]? = none) :
    (cache.load heap).1.Tallied (tally.plus [(heap.id, cache.nextStay)]) := by
  have others : ∀ other stay, stay < cache.nextStay →
      tally.plus [(heap.id, cache.nextStay)] other stay = tally other stay :=
    fun other stay below => tally.plus_singleton_of_ne fun same =>
      absurd (congrArg Prod.snd same) (Nat.ne_of_lt below)
  refine ⟨tallied.distinct.load heap, tallied.single, fun other resident found => ?_,
    fun other resident found => ?_, fun gone member => ?_, fun other stay used => ?_⟩
  · rcases cached_of_load found with ⟨rfl, rfl⟩ | old
    · rfl
    · exact tallied.named other resident old
  · rcases cached_of_load found with ⟨rfl, rfl⟩ | old
    · rw [tally.plus_singleton_self, tallied.unused]
      rfl
    · rw [others other _ (tallied.distinct.below other resident old)]
      exact tallied.cached other resident old
  · rw [others _ _ (tallied.distinct.aside gone member)]
    exact tallied.aside gone member
  · by_cases same : (other, stay) = (heap.id, cache.nextStay)
    · cases same
      exact .inl ⟨_, getElem?_load.trans (if_pos rfl), rfl⟩
    · rw [tally.plus_singleton_of_ne same] at used
      rcases tallied.lodged other stay used with ⟨resident, found, rfl⟩ | aside
      · refine .inl ⟨resident, ?_, rfl⟩
        rw [getElem?_load, if_neg, found]
        rintro rfl
        rw [absent] at found
        cases found
      · exact .inr aside

theorem departed_discard (drops : cache.discard page = some later)
    (present : cache.frames[page]? = some resident) :
    later.departed = cache.departed ++ if resident.frame.isPinned then [resident] else [] := by
  rw [discard, present] at drops
  cases drops
  simp only
  split <;> simp

theorem Tallied.discard (tallied : cache.Tallied tally) (drops : cache.discard page = some later) :
    later.Tallied tally := by
  obtain ⟨dropped, present, frames, _⟩ := of_discard drops
  have departed := departed_discard drops present
  have members : ∀ gone, gone ∈ later.departed ↔
      gone ∈ cache.departed ∨ dropped.frame.isPinned = true ∧ gone = dropped := by
    intro gone
    rw [departed, List.mem_append]
    cases dropped.frame.isPinned <;> simp
  refine ⟨tallied.distinct.discards drops, ?_, fun other resident found => ?_,
    fun other resident found => ?_, fun gone member => ?_, fun other stay used => ?_⟩
  · rw [departed]
    split
    · rw [List.map_append, List.nodup_append]
      refine ⟨tallied.single, List.nodup_singleton _, fun stay old stay' new => ?_⟩
      obtain ⟨gone, member, rfl⟩ := List.mem_map.mp old
      rw [List.map_singleton, List.mem_singleton] at new
      exact new ▸ tallied.distinct.apart page dropped present gone member
    · simpa using tallied.single
  · exact tallied.named other resident (cached_of_left frames found).2
  · exact tallied.cached other resident (cached_of_left frames found).2
  · rcases (members gone).mp member with old | ⟨_, rfl⟩
    · exact tallied.aside gone old
    · rw [tallied.named page gone present]
      exact tallied.cached page gone present
  · -- A used page that is dropped has pins, so it is put aside and not lost.
    rcases tallied.lodged other stay used with ⟨resident, found, rfl⟩ | ⟨gone, member, rest⟩
    · by_cases same : other = page
      · subst same
        obtain rfl := Option.some.inj (found.symm.trans present)
        refine .inr ⟨resident, (members resident).mpr (.inr ⟨?_, rfl⟩),
          tallied.named other resident present, rfl⟩
        rw [Frame.isPinned_iff, tallied.cached other resident present]
        exact used
      · exact .inl ⟨resident, by rw [frames, if_neg same, found], rfl⟩
    · exact .inr ⟨gone, (members gone).mpr (.inl member), rest⟩

end Cache
end PagedTables

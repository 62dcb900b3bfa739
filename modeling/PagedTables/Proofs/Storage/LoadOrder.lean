import PagedTables.Proofs.Storage.Cache

/-! The order of loads and the cached pages are kept apart, and each change is made to both: the order
has a place for each cached page and for no other, by when the pages' stays began. -/

namespace PagedTables

def Resident.label (resident : Resident) : Nat × PageId × PageId :=
  (resident.stay, resident.frame.id, resident.frame.page.id)

namespace Cache

variable {cache later last : Cache} {page other : PageId} {stay : Nat} {resident : Resident}

def Precedes (cache : Cache) (page other : PageId) : Prop :=
  ∀ first second : Resident, cache.frames[page]? = some first →
    cache.frames[other]? = some second → first.stay < second.stay

/-- The cached pages stand in line in the order in which their stays began. -/
structure Lined (cache : Cache) : Prop where
  tracked : ∀ page, page ∈ cache.order.tracked ↔ page ∈ cache.frames
  queued : ∀ page, page ∈ cache.order.queue ↔ page ∈ cache.order.tracked
  once : cache.order.queue.Nodup
  begun : cache.order.queue.Pairwise cache.Precedes
  named : ∀ (page : PageId) (resident : Resident), cache.frames[page]? = some resident →
    resident.frame.id = page ∧ resident.frame.page.id = page
  past : ∀ (page : PageId) (resident : Resident), cache.frames[page]? = some resident →
    resident.stay < cache.nextStay

theorem mem_frames_iff : page ∈ cache.frames ↔ ∃ resident, cache.frames[page]? = some resident := by
  rw [Std.ExtTreeMap.mem_iff_isSome_getElem?, Option.isSome_iff_exists]

theorem lined_empty : empty.Lined where
  tracked page := by simp [empty, LoadOrder.empty]
  queued page := by simp [empty, LoadOrder.empty]
  once := List.nodup_nil
  begun := List.Pairwise.nil
  named page resident present := by simp [empty] at present
  past page resident present := by simp [empty] at present

theorem Lined.listed (lined : cache.Lined) : cache.order.Listed :=
  ⟨lined.once, fun page => (lined.queued page).symm⟩

theorem Lined.size_eq (lined : cache.Lined) : cache.order.size = cache.size := by
  have same := (List.perm_ext_iff_of_nodup lined.once cache.frames.nodup_keys).mpr fun page => by
    rw [lined.queued, Std.ExtTreeMap.mem_keys, lined.tracked]
  rw [lined.listed.size_eq, size, ← Std.ExtTreeMap.length_keys, same.length_eq]

theorem Lined.relabelled (lined : cache.Lined)
    (labels : ∀ page : PageId,
      later.frames[page]?.map Resident.label = cache.frames[page]?.map Resident.label)
    (order : later.order = cache.order) (nextStay : later.nextStay = cache.nextStay) :
    later.Lined := by
  have before : ∀ (page : PageId) (resident : Resident), later.frames[page]? = some resident →
      ∃ old, cache.frames[page]? = some old ∧ old.label = resident.label := by
    intro page resident present
    have same := labels page
    rw [present, Option.map_some, eq_comm, Option.map_eq_some_iff] at same
    exact same
  have stays : ∀ {old new : Resident}, old.label = new.label → old.stay = new.stay :=
    fun same => congrArg Prod.fst same
  refine ⟨fun page => ?_, fun page => ?_, order ▸ lined.once, ?_, fun page resident present => ?_,
    fun page resident present => ?_⟩
  · have kept := congrArg Option.isSome (labels page)
    rw [Option.isSome_map, Option.isSome_map] at kept
    rw [order, lined.tracked, Std.ExtTreeMap.mem_iff_isSome_getElem?,
      Std.ExtTreeMap.mem_iff_isSome_getElem?, kept]
  · rw [order, lined.queued]
  · rw [order]
    refine lined.begun.imp fun precedes first second present present' => ?_
    obtain ⟨old, found, same⟩ := before _ first present
    obtain ⟨old', found', same'⟩ := before _ second present'
    exact stays same ▸ stays same' ▸ precedes old old' found found'
  · obtain ⟨old, found, same⟩ := before page resident present
    obtain ⟨id, heap⟩ := lined.named page old found
    have names := congrArg Prod.snd same
    exact ⟨(congrArg Prod.fst names).symm.trans id, (congrArg Prod.snd names).symm.trans heap⟩
  · obtain ⟨old, found, same⟩ := before page resident present
    exact stays same ▸ nextStay ▸ lined.past page old found

theorem Rewrites.labels {change : HeapPage → HeapPage} (h : Rewrites page stay change cache later)
    (named : ∀ heap, (change heap).id = heap.id) (other : PageId) :
    later.frames[other]?.map Resident.label = cache.frames[other]?.map Resident.label := by
  have labels : ∀ resident : Resident, resident.rested.label = resident.label := fun _ => rfl
  by_cases same : other = page
  · subst same
    rcases h.here with same | ⟨before, present, _, same⟩
    · have labelled := congrArg (Option.map Resident.label) same
      simpa only [Option.map_map, Function.comp_def, labels] using labelled
    · have labelled := congrArg (Option.map Resident.label) same
      simp only [Option.map_map, Function.comp_def, Option.map_some, labels] at labelled
      rw [labelled, present, Option.map_some]
      simp only [Resident.label, Resident.changed, named]
  · rw [h.elsewhere other same]

theorem Replaces.labels {before after : Resident} (h : Replaces page after cache later)
    (present : cache.frames[page]? = some before) (same : after.label = before.label)
    (other : PageId) :
    later.frames[other]?.map Resident.label = cache.frames[other]?.map Resident.label := by
  rw [h.frames]
  split
  · next here => rw [here, present, Option.map_some, Option.map_some, same]
  · rfl

theorem order_update : (cache.update page resident).order = cache.order := by
  unfold update
  split <;> rfl

structure Leaves (page : PageId) (cache later : Cache) : Prop where
  frames : ∀ other, later.frames[other]? = if other = page then none else cache.frames[other]?
  queue : later.order.queue = cache.order.queue.erase page
  tracked : later.order.tracked = cache.order.tracked.erase page
  nextStay : later.nextStay = cache.nextStay

theorem Lined.leaves (lined : cache.Lined) (h : Leaves page cache later) : later.Lined := by
  have before : ∀ (other : PageId) (resident : Resident), later.frames[other]? = some resident →
      cache.frames[other]? = some resident := fun _ _ present => (cached_of_left h.frames present).2
  have member : ∀ other, other ∈ later.order.tracked ↔ other ≠ page ∧ other ∈ cache.order.tracked := by
    intro other
    rw [h.tracked, Std.ExtTreeSet.mem_erase, ne_eq, Std.LawfulEqOrd.compare_eq_iff_eq, ne_comm]
  refine ⟨fun other => ?_, fun other => ?_, ?_, ?_, fun other resident present => ?_,
    fun other resident present => ?_⟩
  · rw [member, lined.tracked, mem_frames_iff, mem_frames_iff, h.frames]
    split
    · next same => simp [same]
    · next apart => simp [apart]
  · rw [h.queue, lined.once.mem_erase_iff, member, lined.queued]
  · exact h.queue ▸ lined.once.erase page
  · rw [h.queue]
    refine (lined.begun.sublist List.erase_sublist).imp fun precedes first second here here' => ?_
    exact precedes first second (before _ first here) (before _ second here')
  · exact lined.named other resident (before other resident present)
  · exact h.nextStay ▸ lined.past other resident (before other resident present)

theorem leaves_evict (h : cache.evict = some later) :
    ∃ page, (cache.order.evict cache.isEvictable).2.victim = some page ∧
      Leaves page cache later := by
  unfold evict at h
  split at h
  · next order asked page chosen =>
    cases h
    have forgot := LoadOrder.evict_order (by rw [chosen])
    rw [chosen] at forgot
    refine ⟨page, by rw [chosen], fun other => ?_, congrArg LoadOrder.queue forgot,
      congrArg LoadOrder.tracked forgot, rfl⟩
    simp only [Std.ExtTreeMap.getElem?_erase, Std.LawfulEqOrd.compare_eq_iff_eq, @eq_comm _ other]
  · cases h

theorem Lined.leaves_discard (lined : cache.Lined) (h : cache.discard page = some later) :
    Leaves page cache later := by
  unfold discard at h
  split at h
  · cases h
  · next resident present =>
    cases h
    have queued : page ∈ cache.order.queue :=
      (lined.queued page).mpr ((lined.tracked page).mpr (mem_frames_iff.mpr ⟨resident, present⟩))
    have forgot := lined.listed.remove_eq queued
    refine ⟨fun other => ?_, congrArg LoadOrder.queue forgot, congrArg LoadOrder.tracked forgot, rfl⟩
    simp only [Std.ExtTreeMap.getElem?_erase, Std.LawfulEqOrd.compare_eq_iff_eq, @eq_comm _ other]

theorem Lined.not_mem_queue (lined : cache.Lined) (absent : cache.frames[page]? = none) :
    page ∉ cache.order.queue := by
  rw [lined.queued, lined.tracked, mem_frames_iff, absent]
  simp

theorem Lined.order_load (lined : cache.Lined) {heap : HeapPage}
    (absent : cache.frames[heap.id]? = none) :
    (cache.load heap).1.order =
      ⟨cache.order.queue ++ [heap.id], cache.order.tracked.insert heap.id⟩ := by
  have unqueued := lined.not_mem_queue absent
  rw [lined.queued] at unqueued
  exact if_neg (by rwa [Std.ExtTreeSet.contains_iff_mem])

theorem Lined.load (lined : cache.Lined) {heap : HeapPage}
    (absent : cache.frames[heap.id]? = none) : (cache.load heap).1.Lined := by
  have unqueued := lined.not_mem_queue absent
  have recorded := lined.order_load absent
  have appended := lined.listed.append unqueued
  have member : ∀ other, other ∈ cache.order.tracked.insert heap.id ↔
      other = heap.id ∨ other ∈ cache.order.tracked := by
    intro other
    rw [Std.ExtTreeSet.mem_insert, Std.LawfulEqOrd.compare_eq_iff_eq, eq_comm]
  have cached : ∀ other : PageId, other ∈ cache.order.queue →
      (cache.load heap).1.frames[other]? = cache.frames[other]? := by
    intro other queued
    have apart : other ≠ heap.id := fun same => unqueued (same ▸ queued)
    rw [getElem?_load, if_neg apart]
  refine ⟨fun other => ?_, fun other => ?_, ?_, ?_, fun other resident present => ?_,
    fun other resident present => ?_⟩
  · rw [recorded, member, lined.tracked, mem_frames_iff, mem_frames_iff, getElem?_load]
    split
    · next same => simp [same]
    · next apart => simp [apart]
  · rw [recorded]
    exact (appended.members other).symm
  · rw [recorded]
    exact appended.once
  · -- The new page has the last place, and its stay is numbered above all others.
    rw [recorded, List.pairwise_append]
    refine ⟨lined.begun.imp_of_mem fun here here' precedes => ?_, List.pairwise_singleton _ _,
      fun other queued last member first second present present' => ?_⟩
    · unfold Precedes
      rw [cached _ here, cached _ here']
      exact precedes
    · obtain rfl := List.mem_singleton.mp member
      rw [cached other queued] at present
      rw [getElem?_load, if_pos rfl] at present'
      obtain rfl := Option.some.inj present'
      exact lined.past other first present
  · rcases cached_of_load present with ⟨same, rfl⟩ | old
    · exact ⟨same.symm, same.symm⟩
    · exact lined.named other resident old
  · rcases cached_of_load present with ⟨_, rfl⟩ | old
    · exact Nat.lt_succ_self _
    · exact Nat.lt_succ_of_lt (lined.past other resident old)

/-- Stays are numbered as they begin: those with a number that was given out before began before. -/
structure Follows (cache later : Cache) : Prop where
  nextStay : cache.nextStay ≤ later.nextStay
  stayed : ∀ (page : PageId) (resident : Resident), later.frames[page]? = some resident →
    resident.stay < cache.nextStay →
      ∃ before, cache.frames[page]? = some before ∧ before.stay = resident.stay

theorem Follows.refl (cache : Cache) : cache.Follows cache :=
  ⟨Nat.le_refl _, fun _ resident present _ => ⟨resident, present, rfl⟩⟩

theorem Follows.trans (h : cache.Follows later) (h' : later.Follows last) : cache.Follows last := by
  refine ⟨Nat.le_trans h.nextStay h'.nextStay, fun page resident present early => ?_⟩
  obtain ⟨between, found, same⟩ :=
    h'.stayed page resident present (Nat.lt_of_lt_of_le early h.nextStay)
  obtain ⟨before, found, same'⟩ := h.stayed page between found (same ▸ early)
  exact ⟨before, found, same'.trans same⟩

theorem follows_relabelled
    (labels : ∀ page : PageId,
      later.frames[page]?.map Resident.label = cache.frames[page]?.map Resident.label)
    (nextStay : later.nextStay = cache.nextStay) : cache.Follows later := by
  refine ⟨Nat.le_of_eq nextStay.symm, fun page resident present _ => ?_⟩
  have same := labels page
  rw [present, Option.map_some, eq_comm, Option.map_eq_some_iff] at same
  obtain ⟨before, found, same⟩ := same
  exact ⟨before, found, congrArg Prod.fst same⟩

theorem Leaves.follows (h : Leaves page cache later) : cache.Follows later :=
  ⟨Nat.le_of_eq h.nextStay.symm, fun _ resident present _ =>
    ⟨resident, (cached_of_left h.frames present).2, rfl⟩⟩

theorem follows_load (cache : Cache) (heap : HeapPage) : cache.Follows (cache.load heap).1 := by
  refine ⟨Nat.le_succ _, fun page resident present early => ?_⟩
  rcases cached_of_load present with ⟨_, rfl⟩ | old
  · exact absurd early (Nat.lt_irrefl _)
  · exact ⟨resident, old, rfl⟩

end Cache
end PagedTables

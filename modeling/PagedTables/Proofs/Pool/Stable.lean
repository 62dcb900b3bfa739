import PagedTables.Proofs.Pool.Alike
import PagedTables.Proofs.Pool.Deed

/-! A page that a transaction has locked is shown as it was, whatever the others do; so is a page that
left the cache while its reader was using it. -/

namespace PagedTables.Pool

/-- What is on the stay of a page that has left the cache is what the page is shown as. -/
def Seen (pool : Pool) (page : PageId) (stay : Nat) : Prop :=
  ∀ gone ∈ pool.cache.departed, gone.stay = stay → gone.frame.id = page →
    pool.shown page = .ok gone.frame.page

def Labelled (pool : Pool) : Prop := ∀ gone ∈ pool.cache.departed, gone.frame.page.id = gone.frame.id

variable {start : Disk} {pool later : Pool} {page place : PageId} {owner other : TransactionId}
  {mode mode' : LockMode} {stay : Nat} {file : HeapFile}

theorem Seen.serves (seen : pool.Seen page stay) (serves : Serves place pool later) :
    later.Seen page stay := by
  intro gone member stays named
  obtain ⟨before, member, same⟩ := serves.departed gone member
  obtain ⟨stay', id, heap⟩ := Resident.rested_eq_iff.mp same
  rw [← serves.alike.shown page, heap]
  exact seen before member (stay'.symm.trans stays) (id.symm.trans named)

theorem Fresh.shown_of_shows (fresh : pool.Fresh start) {heap : HeapPage} (seen : pool.Seen page stay)
    (shows : pool.cache.Shows page stay heap) : pool.shown page = .ok heap := by
  obtain ⟨resident, stays, rfl, present | ⟨aside, named⟩⟩ := shows
  · exact fresh.shown_cached present
  · exact seen resident aside stays named

theorem Owned.unchanged (owned : pool.Owned) (holds : pool.locks.table.Holds other page mode)
    (holds' : pool.locks.table.Holds owner page mode') (apart : other ≠ owner) :
    pool.changed? page = none := by
  by_contra changed
  obtain ⟨heap, changed⟩ := Option.ne_none_iff_exists'.mp changed
  obtain ⟨resident, present, rfl, dirty⟩ := changed?_eq_some.mp changed
  obtain ⟨writer, mark⟩ := Option.isSome_iff_exists.mp dirty
  have locked := owned.locked page resident writer present mark
  exact apart ((locked.alone owned.valid holds).trans (locked.alone owned.valid holds').symm)

theorem Fresh.readPage_flushPage (fresh : pool.Fresh start) (apart : place ≠ page) :
    (pool.flushPage page).1.readPage place = pool.readPage place := by
  have flushes := pool.flushPage_flushes page
  generalize pool.flushPage page = result at flushes ⊢
  cases flushes with
  | absent absent => rfl
  | clean resident present clean => rfl
  | failed failure => rfl
  | written resident present writer dirty file registered disk writes cache replaces stats =>
    obtain ⟨_, stored, named⟩ := fresh.flushes present registered writes replaces stats
    exact fresh.sound.readPage_eq registered stored.elsewhere fun table =>
      stored.kept place table (named.symm ▸ apart)

theorem Owned.elsewhere_or_still (owned : pool.Owned) {access : Access}
    (holds : pool.locks.table.Holds access.owner access.page access.purpose.mode)
    (holds' : pool.locks.table.Holds other page mode) (apart : other ≠ access.owner) :
    page ≠ access.page ∨ ∀ heap, (access.result heap).1 = heap := by
  by_cases here : page = access.page
  · subst here
    refine .inr fun heap => (access.result_cases heap).resolve_right fun writes => ?_
    exact apart ((writes.1 ▸ holds).alone owned.valid holds')
  · exact .inl here

theorem Deed.shown_eq (fresh : pool.Fresh start) (owned : pool.Owned) (deed : Deed pool owner later)
    (holds : pool.locks.table.Holds other page mode) (apart : other ≠ owner) :
    later.shown page = pool.shown page := by
  cases deed with
  | served place later serves => exact (serves.alike.shown page).symm
  | relocked locks further stats => rfl
  | released saved => rfl
  | used access stay held cache rewrites =>
    rcases owned.elsewhere_or_still held holds apart with elsewhere | still
    · refine shown_congr (changed?_of_rested ?_) rfl
      rw [rewrites.elsewhere page elsewhere]
    · exact ((Serves.of_visits (rewrites.visits still) pool.stats).alike.shown page).symm
  | flushed place held =>
    by_cases here : page = place
    · subst here
      rw [flushPage_fst_of_clean (owned.unchanged holds held apart)]
    · exact shown_congr (flushPage_changed?_of_ne here) (fresh.readPage_flushPage here)
  | discarded place held =>
    obtain ⟨cache, stats, same, after⟩ := pool.discardPage_changed place
    rw [same]
    refine shown_congr ((after page).trans ?_) rfl
    split
    · next here =>
      subst here
      exact (owned.unchanged holds held apart).symm
    · rfl

inductive Gone (pool : Pool) (owner : TransactionId) (gone : Resident) : Prop
  | kept (before : Resident) (member : before ∈ pool.cache.departed)
      (same : gone.rested = before.rested)
  | used (access : Access) (mine : access.owner = owner)
      (holds : pool.locks.table.Holds access.owner access.page access.purpose.mode)
      (before : Resident) (member : before ∈ pool.cache.departed)
      (there : before.frame.id = access.page)
      (same : gone.rested = (before.changed fun heap => (access.result heap).1).rested)
  | dropped (page : PageId) (present : pool.cache.frames[page]? = some gone)

theorem Deed.gone (deed : Deed pool owner later) {gone : Resident}
    (member : gone ∈ later.cache.departed) : Gone pool owner gone := by
  cases deed with
  | relocked locks further stats => exact .kept gone member rfl
  | released saved => exact .kept gone member rfl
  | served place later serves =>
    obtain ⟨before, member, same⟩ := serves.departed gone member
    exact .kept before member same
  | used access stay held cache rewrites =>
    obtain ⟨before, member, same | ⟨_, there, same⟩⟩ := rewrites.departed gone member
    · exact .kept before member same
    · exact .used access rfl held before member there same
  | flushed place held =>
    have flushes := pool.flushPage_flushes place
    generalize pool.flushPage place = result at flushes member
    cases flushes with
    | absent absent => exact .kept gone member rfl
    | clean resident present clean => exact .kept gone member rfl
    | failed failure => exact .kept gone member rfl
    | written resident present writer dirty file registered disk writes cache replaces stats =>
      exact .kept gone (replaces.departed ▸ member) rfl
  | discarded place held =>
    have discards := pool.discardPage_discards place
    generalize pool.discardPage place = result at discards member
    cases discards with
    | absent absent => exact .kept gone member rfl
    | dropped cache drops stats =>
      obtain ⟨resident, present, _, departed, _⟩ := Cache.of_discard drops
      rcases departed gone member with before | rfl
      · exact .kept gone before rfl
      · exact .dropped place present

theorem Deed.seen (fresh : pool.Fresh start) (owned : pool.Owned) (deed : Deed pool owner later)
    (holds : pool.locks.table.Holds other page mode) (apart : other ≠ owner)
    (seen : pool.Seen page stay) : later.Seen page stay := by
  intro gone member stays named
  rw [deed.shown_eq fresh owned holds apart]
  cases deed.gone member with
  | kept before member same =>
    obtain ⟨stay', id, heap⟩ := Resident.rested_eq_iff.mp same
    rw [heap]
    exact seen before member (stay'.symm.trans stays) (id.symm.trans named)
  | used access mine held before member there same =>
    obtain ⟨stay', id, heap⟩ := Resident.rested_eq_iff.mp same
    have id : gone.frame.id = before.frame.id := id
    have heap : gone.frame.page = (access.result before.frame.page).1 := heap
    rcases owned.elsewhere_or_still held holds (mine ▸ apart) with elsewhere | still
    · exact absurd (named.symm.trans (id.trans there)) elsewhere
    · rw [heap, still]
      exact seen before member (stay'.symm.trans stays) (id.symm.trans named)
  | dropped place present =>
    obtain rfl := (fresh.sound.named place gone present).symm.trans named
    exact fresh.shown_cached present

theorem Deed.labelled (fresh : pool.Fresh start) (owned : pool.Owned) (deed : Deed pool owner later)
    (labelled : pool.Labelled) : later.Labelled := by
  intro gone member
  cases deed.gone member with
  | kept before member same =>
    obtain ⟨_, id, heap⟩ := Resident.rested_eq_iff.mp same
    rw [heap, id]
    exact labelled before member
  | used access mine held before member there same =>
    obtain ⟨_, id, heap⟩ := Resident.rested_eq_iff.mp same
    have id : gone.frame.id = before.frame.id := id
    have heap : gone.frame.page = (access.result before.frame.page).1 := heap
    rw [heap, id, ← labelled before member]
    rcases access.result_cases before.frame.page with still | ⟨_, written⟩
    · rw [still]
    · exact written.id
  | dropped place present => rw [owned.named place gone present, fresh.sound.named place gone present]

end PagedTables.Pool

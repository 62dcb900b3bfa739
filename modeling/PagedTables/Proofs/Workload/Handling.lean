import PagedTables.Proofs.Pool.Cleaning
import PagedTables.Proofs.Storage.RoundTrip
import PagedTables.Proofs.Workload.Freshness
import PagedTables.Proofs.Workload.Settlement

/-! All changes are written at once, whatever has been done to a pool until then: by its transactions,
by hooks, and by users who change pages under their guards. Files may be of any length. -/

namespace PagedTables

namespace Pool

variable {start : Disk} {pool later : Pool} {page : PageId} {guard : Guard} {heap : HeapPage}
  {calls : List PageCall}

/-- Makes calls on the page under a guard. Nobody else sees the page until they are all made. -/
def handle (pool : Pool) (guard : Guard) (calls : List PageCall) : Pool :=
  (pool.edit guard fun heap => .ok (calls.foldl HeapPage.perform heap, ())).1

def Marked (pool : Pool) (guard : Guard) (calls : List PageCall) : Prop :=
  ∀ heap, pool.view guard = some heap → calls.foldl HeapPage.perform heap = heap ∨
    (calls.foldl HeapPage.perform heap).dirtiedBy ≠ none

theorem handle_cases (pool : Pool) (guard : Guard) (calls : List PageCall) :
    pool.handle guard calls = pool ∨ ∃ cache, pool.handle guard calls = { pool with cache } ∧
      Cache.Rewrites guard.page guard.stay (calls.foldl HeapPage.perform) pool.cache cache := by
  unfold handle edit
  cases view : pool.view guard with
  | none => exact .inl rfl
  | some heap => exact .inr (rewrites_change view (calls.foldl HeapPage.perform))

theorem Houses.perform {file : HeapFile} (housed : pool.Houses page heap file)
    (calls : List PageCall) : pool.Houses page (calls.foldl HeapPage.perform heap) file := by
  have fits : heap.Fits page file.schema file.layout :=
    ⟨housed.sound, housed.id, housed.schema, housed.layout⟩
  have run := fits.run calls
  exact ⟨housed.table, run.id, run.schema, run.layout, run.sound, housed.covers⟩

theorem Sound.handle (sound : pool.Sound start) (guard : Guard) (calls : List PageCall) :
    (pool.handle guard calls).Sound start := by
  rcases pool.handle_cases guard calls with same | ⟨cache, same, rewrites⟩
  · rwa [same]
  · rw [same]
    exact sound.changes rewrites fun _ _ housed => housed.perform calls

theorem Fresh.handle (fresh : pool.Fresh start) (marked : pool.Marked guard calls) :
    (pool.handle guard calls).Fresh start := by
  rcases pool.handle_cases guard calls with same | ⟨cache, same, rewrites⟩
  · rwa [same]
  · rw [same]
    refine fresh.changes rewrites (fun _ _ housed => housed.perform calls) fun resident here stays => ?_
    exact marked resident.frame.page (view_cached guard here stays)

theorem sameTables_handle (pool : Pool) (guard : Guard) (calls : List PageCall) :
    pool.SameTables (pool.handle guard calls) := by
  rcases pool.handle_cases guard calls with same | ⟨cache, same, _⟩ <;> rw [same] <;>
    exact ⟨rfl, rfl⟩

theorem Sound.settlePage (sound : pool.Sound start) (commit : Bool) (page : PageId) :
    (pool.settlePage commit page).1.Sound start := by
  cases commit with
  | true => exact sound.flushPage page
  | false => exact sound.discardPage page

theorem Sound.hook (sound : pool.Sound start) (hook : Hook) : (hook.run pool).1.Sound start := by
  refine hook.run_keeps (Sound start) (fun _ page sound => sound.flushPage page)
    (fun _ page sound => sound.discardPage page) (fun pool owner page sound => ?_) sound
  have valid : (pool.locks.release page owner).table.Valid := sound.valid.release page owner
  exact sound.relocked valid (sound.indexed.release page owner) pool.stats

theorem Sound.stepsTo (sound : pool.Sound start) {task : Task} {result : Pool × Progress}
    (steps : task.StepsTo pool result)
    (registered : ∀ job, task.job? = some job → job.Registered pool) : result.1.Sound start := by
  have relocked : ∀ {locks : LockManager}, pool.locks.table.Extends locks.table →
      ∀ stats, ({ pool with locks, stats } : Pool).Sound start := fun further =>
    sound.relocked (further.valid sound.valid) (further.indexed sound.indexed)
  cases steps with
  | granted access locks further holds => exact relocked further pool.stats
  | refused access locks further => exact relocked further pool.stats
  | stopped access locks further stats finish stops => exact relocked further stats
  | pinned access phase later serves size resident present => exact sound.serves serves
  | homeless access phase later serves size finish stops => exact sound.serves serves
  | looked access stay phase cache visits => exact sound.serves (.of_visits visits pool.stats)
  | guarded access stay phase cache visits => exact sound.serves (.of_visits visits pool.stats)
  | used access stay phase cache rewrites heap shows progress leads => exact sound.rewrites rewrites
  | appended worker job disk page appends => exact sound.appended (registered job rfl) appends
  | unextended worker job failure => exact sound
  | idled => exact sound

end Pool

/-- What is done to a pool: a step of its transactions or a hook, or a user's calls on the page under
its guard. -/
inductive Handling
  | step (step : Step)
  | calls (guard : Guard) (calls : List PageCall)

namespace Workload

variable {start : Disk} {first work : Workload} {step : Step} {handling : Handling}
  {allowed : Workload → Handling → Prop}

def handled (work : Workload) : Handling → Workload
  | .step step => work.next step
  | .calls guard calls => { work with pool := work.pool.handle guard calls }

def Able (work : Workload) : Handling → Prop
  | .step step => work.Possible step ∧ work.Sited step
  | .calls _ _ => True

/-- A file that is made longer has fewer pages than there are page numbers, and whoever changes a page
marks it. -/
def Careful (work : Workload) : Handling → Prop
  | .step step => work.Roomed step
  | .calls guard calls => work.pool.Marked guard calls

inductive Handled (allowed : Workload → Handling → Prop) (first : Workload) : Workload → Prop
  | start : Handled allowed first first
  | after {work : Workload} (handling : Handling) (handled : Handled allowed first work)
      (able : work.Able handling) (kind : allowed work handling) :
      Handled allowed first (work.handled handling)

theorem Handled.mono {wider : Workload → Handling → Prop} (handled : Handled allowed first work)
    (h : ∀ work handling, allowed work handling → wider work handling) :
    Handled wider first work := by
  induction handled with
  | start => exact .start
  | after handling _ able kind ih => exact .after handling ih able (h _ _ kind)

theorem Course.handled (course : Course (fun work step => work.Sited step ∧ work.Roomed step) first work) :
    Handled Careful first work := by
  induction course with
  | start => exact .start
  | step step _ possible kind ih => exact .after (.step step) ih ⟨possible, kind.1⟩ kind.2

/-- Each page has its place, and tuples are on their way to tables that there are. -/
structure Rooted (start : Disk) (work : Workload) : Prop where
  numbered : work.pool.Numbered work.registrations
  sound : work.pool.Sound start
  enrolled : work.Enrolled

theorem Enrolled.handle (enrolled : work.Enrolled) (guard : Guard) (calls : List PageCall) :
    (work.handled (.calls guard calls)).Enrolled :=
  enrolled.of_next
    (fun _ _ registered => (work.pool.sameTables_handle guard calls).tables.symm ▸ registered)
    fun _ => .inl rfl

theorem registrations_le_handled (work : Workload) (handling : Handling) :
    work.registrations ≤ (work.handled handling).registrations := by
  cases handling with
  | calls guard calls => exact Nat.le_refl _
  | step step => exact (work.registers_next step).le

theorem Rooted.handled (rooted : work.Rooted start) (able : work.Able handling)
    (few : (work.handled handling).registrations ≤ 2 ^ 32) :
    (work.handled handling).Rooted start := by
  obtain ⟨numbered, sound, enrolled⟩ := rooted
  cases handling with
  | calls guard calls =>
    exact ⟨numbered.same (work.pool.sameTables_handle guard calls), sound.handle guard calls,
      enrolled.handle guard calls⟩
  | step step =>
    obtain ⟨possible, sited⟩ := able
    refine ⟨(work.registers_next step).numbered numbered, ?_,
      enrolled.next numbered sound possible sited few⟩
    refine next_keeps (fun later => later.Sound start) numbered sound possible sited few sound
      (fun _ registers => registers.sound sound)
      (fun owner call task result here steps _ => sound.stepsTo steps (enrolled owner call task here))
      (fun _ _ visits => sound.serves (.of_visits visits _)) sound.settlePage (fun owner => ?_)
      sound.hook
    have valid : (work.pool.locks.releaseAll owner).table.Valid := sound.valid.releaseAll owner
    exact sound.relocked valid (sound.indexed.releaseAll owner) _

theorem rooted_of_handled (rooted : first.Rooted start) (handled : Handled allowed first work)
    (few : work.registrations ≤ 2 ^ 32) : work.Rooted start := by
  induction handled with
  | start => exact rooted
  | @after work handling _ able _ ih =>
    exact (ih (Nat.le_trans (work.registrations_le_handled handling) few)).handled able few

theorem current_of_careful (current : first.Current start) (handled : Handled Careful first work)
    (few : work.registrations ≤ 2 ^ 32) : work.Current start := by
  induction handled with
  | start => exact current
  | @after work handling _ able careful ih =>
    have current := ih (Nat.le_trans (work.registrations_le_handled handling) few)
    cases handling with
    | step step => exact current.next able.1 able.2 few careful
    | calls guard calls =>
      have enrolled : work.Enrolled := current.registered
      exact ⟨current.numbered.same (work.pool.sameTables_handle guard calls),
        current.fresh.handle careful, enrolled.handle guard calls⟩

/-- All changes can be written at once if each of them can be written and no user's latch is in the way.
In whichever order that is done, it comes to the same, and to do it again does nothing. What is cached
then is what the files have if whoever changed a page has marked it and no file got more pages than there
are numbers. -/
theorem flushAll_cleans {config : Config} {pool : Pool} (small : config.pageSize < 2 ^ 32)
    (made : Pool.start config start = .ok pool)
    (reached : Handled (fun _ _ => True) (Workload.start pool) work)
    (few : work.registrations ≤ 2 ^ 32) (writable : work.pool.Writable) (free : work.pool.Unlatched) :
    ∃ later, work.pool.flushAll = (later, .ok ()) ∧ work.pool.Cleans later ∧
      (∀ pages, pages.Perm work.pool.cache.frames.keys →
        work.pool.flushEach pages = (later, .ok ())) ∧
      (∀ pages, later.flushEach pages = (later, .ok ())) ∧
      (Handled Careful (Workload.start pool) work → ∀ (page : PageId) (resident : Resident),
        later.cache.frames[page]? = some resident →
          later.readPage page = .ok resident.frame.page) := by
  have rooted := rooted_of_handled
    ⟨numbered_start made, Pool.sound_start small made, fun _ _ _ here => by cases here⟩ reached few
  obtain ⟨later, cleans, orders, again⟩ := rooted.sound.cleans_flushEach writable free
  have flushed := orders _ (.refl _)
  refine ⟨later, flushed, cleans, orders, again, fun careful page resident present => ?_⟩
  have fresh := (current_of_careful (current_start small made) careful few).fresh.flushEach
    work.pool.cache.frames.keys
  rw [flushed] at fresh
  refine fresh.clean page resident present ?_
  have none := cleans.unchanged page
  rw [Pool.changed?_of_cached present, ite_eq_right_iff] at none
  simpa [HeapPage.isDirty] using none

def twoWriters : List Action :=
  .create "numbers" numbers :: puts ⟨1⟩ 7 7 ++
    [.create "letters" numbers, .call ⟨2⟩ (.insert ⟨1⟩ (.ofFields [.int 8]))] ++
    List.replicate 7 (.advance ⟨2⟩)

/-- The second one puts another number in its page, under a guard. Both pages are written, the later one
first. -/
theorem flushAll_cleans_twoWriters :
    let pool := { smallPool with config := { pageSize := 16, poolPages := 2 } }
    let placed := (twoWriters.map Step.act).foldl next (Workload.start pool)
    let work := placed.handled
      (.calls ⟨⟨⟨1⟩, 0⟩, 1, true⟩ [.insert (.ofFields [.int 9]), .markDirty (some ⟨2⟩)])
    work.pool.changedPages = [⟨⟨0⟩, 0⟩, ⟨⟨1⟩, 0⟩] ∧
      ∃ later, work.pool.flushAll = (later, .ok ()) ∧
        work.pool.flushEach [⟨⟨1⟩, 0⟩, ⟨⟨0⟩, 0⟩] = (later, .ok ()) ∧ work.pool.Cleans later ∧
        ∀ (page : PageId) (resident : Resident), later.cache.frames[page]? = some resident →
          later.readPage page = .ok resident.frame.page := by
  intro pool placed work
  have made : Pool.start pool.config .blank = .ok pool := rfl
  have course : Course (fun work step => work.Sited step ∧ work.Roomed step) (Workload.start pool)
      placed := .of_takes _ .start (by decide +kernel)
  have marked : ((placed.pool.view ⟨⟨⟨1⟩, 0⟩, 1, true⟩).all fun heap =>
      ([PageCall.insert (.ofFields [.int 9]), .markDirty (some ⟨2⟩)].foldl HeapPage.perform
        heap).dirtiedBy ≠ none) = true := by decide +kernel
  have careful : Handled Careful (Workload.start pool) work := by
    refine .after _ course.handled trivial fun heap view => .inr ?_
    rw [view] at marked
    exact of_decide_eq_true marked
  have reached : Handled (fun _ _ => True) (Workload.start pool) work :=
    careful.mono fun _ _ _ => trivial
  have keys : [⟨⟨1⟩, 0⟩, ⟨⟨0⟩, 0⟩].Perm work.pool.cache.frames.keys := by decide +kernel
  obtain ⟨later, flushed, cleans, orders, _, reads⟩ :=
    flushAll_cleans (by decide) made reached (by decide +kernel) (by decide +kernel)
      (by decide +kernel)
  exact ⟨by decide +kernel, later, flushed, orders _ keys, cleans, reads careful⟩

/-- A number is read from the first of 2 ^ 32 pages. The next page goes over it. -/
theorem not_flushAll_reads :
    ¬∀ {config : Config} {start : Disk} {pool : Pool} {work : Workload}, config.pageSize < 2 ^ 32 →
      Pool.start config start = .ok pool →
      Course (fun work step => work.Sited step) (Workload.start pool) work →
      work.registrations ≤ 2 ^ 32 → work.pool.Writable → work.pool.Unlatched →
      ∃ later, work.pool.flushAll = (later, .ok ()) ∧ ∀ (page : PageId) (resident : Resident),
        later.cache.frames[page]? = some resident →
          later.readPage page = .ok resident.frame.page := by
  intro reads
  let start := Disk.blank.setContents "numbers" ((Bytes.zeros (16 * 2 ^ 32)).write 0 [1])
  let pool := { smallPool with disk := start }
  let steps : List Action := [.attach "numbers" numbers, .call ⟨2⟩ (.fetch ⟨⟨0⟩, 0⟩ .shared),
    .advance ⟨2⟩, .advance ⟨2⟩, .advance ⟨2⟩, .call ⟨3⟩ (.insert ⟨0⟩ (.ofFields [.int 8])),
    .advance ⟨3⟩]
  have made : Pool.start smallPool.config start = .ok pool := rfl
  have course : Course (fun work step => work.Sited step) (Workload.start pool)
      ((steps.map Step.act).foldl next (Workload.start pool)) :=
    .of_takes _ .start (by decide +kernel)
  obtain ⟨later, flushed, same⟩ := reads (by decide) made course (by decide +kernel) (by decide +kernel)
    (by decide +kernel)
  have differs : (((steps.map Step.act).foldl next (Workload.start pool)).pool.flushAll.1.cache.frames[
      (⟨⟨0⟩, 0⟩ : PageId)]?.any fun resident =>
        ((steps.map Step.act).foldl next (Workload.start pool)).pool.flushAll.1.readPage ⟨⟨0⟩, 0⟩ ≠
          .ok resident.frame.page) = true := by decide +kernel
  rw [flushed] at differs
  obtain ⟨resident, present, other⟩ := (Option.any_eq_true _ _).mp differs
  exact of_decide_eq_true other (same _ resident present)

end Workload
end PagedTables

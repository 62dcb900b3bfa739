import PagedTables.Proofs.Workload.Users

/-! Pages that are in use. None is lost, and none leaves the cache to make room; one that is dropped
while others use it is theirs to the end, but is not in the cache any more. -/

namespace PagedTables.Workload

variable {config : Config} {disk : Disk} {pool : Pool} {work : Workload} {step : Step}
  {owner : TransactionId} {page : PageId} {stay : Nat}

def drops? (work : Workload) : Step → Option PageId
  | .act (.settle owner) =>
    match work.stage owner with
    | .ending false (page :: _) => some page
    | _ => none
  | .hook (.discardPage page) => some page
  | _ => none

/-- The page of a stay is not dropped as long as anybody uses it. -/
def Considerate (page : PageId) (stay : Nat) (work : Workload) (step : Step) : Prop :=
  work.drops? step = some page → ∀ owner, (page, stay) ∉ work.pinned owner

theorem departed_next (possible : work.Possible step) {gone : Resident}
    (member : gone ∈ (work.next step).pool.cache.departed) :
    (∃ before ∈ work.pool.cache.departed,
      gone.stay = before.stay ∧ gone.frame.id = before.frame.id) ∨
      ∃ page, work.drops? step = some page ∧ work.pool.cache.frames[page]? = some gone ∧
        gone.frame.isPinned = true := by
  have kept : gone ∈ work.pool.cache.departed → ∃ before ∈ work.pool.cache.departed,
      gone.stay = before.stay ∧ gone.frame.id = before.frame.id :=
    fun old => ⟨gone, old, rfl, rfl⟩
  -- A page is put aside by a hook that drops it and by an abort; all else leaves those there as
  -- they are.
  cases step with
  | hook hook =>
    cases hook with
    | flushPage page => exact .inl (kept (work.pool.departed_flushPage page ▸ member))
    | flushHeld owner => exact .inl (kept (Pool.departed_flushEach _ work.pool ▸ member))
    | flushAll => exact .inl (kept (Pool.departed_flushEach _ work.pool ▸ member))
    | releasePage owner page => exact .inl (kept member)
    | discardPage page =>
      exact (Pool.gone_discardPage member).imp kept fun present => ⟨page, rfl, present⟩
  | act action =>
    cases action with
    | create name schema => exact .inl (kept ((Filing.created name schema).cache ▸ member))
    | attach name schema => exact .inl (kept ((Filing.opened name schema).cache ▸ member))
    | call owner call => exact .inl (kept ((work.next_call owner call).1 ▸ member))
    | finish owner commit => exact .inl (kept member)
    | drop owner guard =>
      obtain ⟨cache, same, visits⟩ := work.pool.visits_drop guard
      have old : gone ∈ (work.pool.drop guard).1.cache.departed := member
      rw [same] at old
      obtain ⟨before, old, equal⟩ := visits.departed gone old
      obtain ⟨stays, named, _⟩ := Resident.rested_eq_iff.mp equal
      exact .inl ⟨before, old, stays, named⟩
    | advance owner | expire owner =>
      obtain ⟨call, task, result, here, steps, pool, _⟩ := exists_stepsTo possible rfl
      rw [pool] at member
      exact .inl (steps.departed member)
    | settle owner =>
      obtain ⟨commit, rest, here⟩ := exists_ending possible.1
      simp only [next, after, giveUp, here] at member
      split at member
      · cases rest with
        | nil => exact .inl (kept member)
        | cons page rest =>
          cases commit with
          | true => exact .inl (kept (work.pool.departed_flushPage page ▸ member))
          | false =>
            refine (Pool.gone_discardPage member).imp kept fun present => ⟨page, ?_, present⟩
            simp only [drops?, here]
      · exact .inl (kept member)

structure Resides (page : PageId) (stay : Nat) (work : Workload) : Prop where
  tallied : work.pool.cache.Tallied work.users
  here : ∀ gone ∈ work.pool.cache.departed, gone.frame.id = page → gone.stay ≠ stay

theorem Resides.next (resides : work.Resides page stay) (possible : work.Possible step)
    (roomy : work.Roomy step) (considerate : work.Considerate page stay step) :
    (work.next step).Resides page stay := by
  refine ⟨tallied_next resides.tallied possible roomy, fun gone member named stays => ?_⟩
  rcases departed_next possible member with ⟨before, old, stays', named'⟩ |
    ⟨dropped, drops, present, pinned⟩
  · exact resides.here before old (named'.symm.trans named) (stays'.symm.trans stays)
  · obtain rfl : dropped = page := (resides.tallied.named dropped gone present).symm.trans named
    subst stays
    -- Whoever has pinned the dropped page uses it.
    have used : work.users dropped gone.stay ≠ 0 := by
      rw [← resides.tallied.cached dropped gone present]
      exact Frame.isPinned_iff.mp pinned
    obtain ⟨owner, uses⟩ := exists_user used
    exact considerate drops owner uses

theorem resides_start (made : Pool.start config disk = .ok pool) (page : PageId) (stay : Nat) :
    (start pool).Resides page stay := by
  refine ⟨tallied_start made, fun gone member => ?_⟩
  obtain rfl := Pool.start_eq made
  cases member

theorem resides_of_course {first : Workload} (resides : first.Resides page stay)
    (course : Course (fun work step => work.Roomy step ∧ work.Considerate page stay step) first
      work) : work.Resides page stay := by
  induction course with
  | start => exact resides
  | step step _ possible kind ih => exact ih.next possible kind.1 kind.2

theorem Resides.exists_cached (resides : work.Resides page stay)
    (uses : (page, stay) ∈ work.pinned owner) :
    ∃ resident, work.pool.cache.frames[page]? = some resident ∧ resident.stay = stay := by
  rcases resides.tallied.lodged page stay (users_pos uses) with here | ⟨gone, member, named, stays⟩
  · exact here
  · exact absurd stays (resides.here gone member named)

def Unused (page : PageId) (work : Workload) (step : Step) : Prop :=
  work.drops? step = some page →
    ∀ resident ∈ work.pool.cache.frames[page]?, resident.frame.pins = 0

instance (page : PageId) (work : Workload) : DecidablePred (Unused page work) := fun step =>
  inferInstanceAs (Decidable (work.drops? step = some page → _))

theorem Unused.considerate (unused : work.Unused page step) (resides : work.Resides page stay) :
    work.Considerate page stay step := by
  intro drops owner uses
  obtain ⟨resident, present, rfl⟩ := resides.exists_cached uses
  have count := resides.tallied.cached page resident present
  rw [unused drops resident present] at count
  exact users_pos uses count.symm

theorem Course.considerate (made : Pool.start config disk = .ok pool) (stay : Nat)
    (course : Course (fun work step => work.Light step ∧ work.Unused page step)
      (Workload.start pool) work) :
    Course (fun work step => work.Roomy step ∧ work.Considerate page stay step)
      (Workload.start pool) work :=
  course.under (resides_start made page stay)
    (fun _ _ resides possible kind => resides.next possible kind.1 kind.2)
    fun _ _ resides kind => ⟨kind.1.roomy resides.tallied, kind.2.considerate resides⟩

/-- Each page has as many pins as users, so whoever uses a page finds it and lets go of it without the
count falling below zero. Unless it is dropped while it is in use, the page under a guard is in the
cache, has as many pins as guards while no operation is about to use it, and is found by whoever
fetches it. -/
theorem guarded_resides (made : Pool.start config disk = .ok pool)
    (course : Course Roomy (start pool) work) :
    (∀ (page : PageId) (resident : Resident), work.pool.cache.frames[page]? = some resident →
      resident.frame.pins.toNat = work.users page resident.stay) ∧
    (∀ owner, ∀ place ∈ work.pinned owner, ∃ resident,
      work.pool.cache.find? place.1 place.2 = some resident ∧
        resident.frame.pins.toNat = work.users place.1 place.2 ∧ resident.frame.pins ≠ 0 ∧
        ∀ writable, (work.pool.drop ⟨place.1, place.2, writable⟩).2 = .ok ()) ∧
    ∀ owner, ∀ guard ∈ work.guards owner,
      Course (fun work step => work.Roomy step ∧ work.Considerate guard.page guard.stay step)
        (start pool) work → ∃ resident,
        work.pool.cache.frames[guard.page]? = some resident ∧
          work.pool.cache.find? guard.page guard.stay = some resident ∧
          ((∀ other, (guard.page, guard.stay) ∉ (work.stage other).pinned) →
            resident.frame.pins.toNat = ∑ᶠ other, (work.guards other).countP fun held =>
              held.page = guard.page ∧ held.stay = guard.stay) ∧
          (work.users guard.page guard.stay + 1 < 2 ^ 32 → ∃ cache,
            work.pool.pin guard.page =
              (({ work.pool with cache } : Pool).count .hits, .ok guard.stay)) := by
  have tallied := tallied_of_course (tallied_start made) course
  refine ⟨tallied.cached, fun owner place uses => ?_, fun owner guard member course => ?_⟩
  · have used := users_pos uses
    obtain ⟨resident, found, count, pinned⟩ := tallied.exists_find? used
    exact ⟨resident, found, count, pinned, fun writable => Pool.drop_of_used tallied used⟩
  · have resides := resides_of_course (resides_start made guard.page guard.stay) course
    have uses : (guard.page, guard.stay) ∈ work.pinned owner :=
      List.mem_append_left _ (List.mem_map_of_mem member)
    obtain ⟨resident, present, stays⟩ := resides.exists_cached uses
    rw [← stays]
    refine ⟨resident, present, Cache.find?_of_cached present, fun quiet => ?_, fun room => ?_⟩
    · rw [tallied.cached _ resident present, users_eq_guards quiet]
    · exact Pool.pin_of_tallied tallied present room

/-- The page of a number that was put into a table has two readers, and one of them ends. -/
def sharing (commit : Bool) : List Action :=
  let reads (owner : TransactionId) : List Action :=
    .call owner (.fetch ⟨⟨0⟩, 0⟩ .shared) :: List.replicate 3 (.advance owner)
  .create "numbers" numbers :: puts ⟨1⟩ 7 7 ++
    [.finish ⟨1⟩ true, .settle ⟨1⟩, .settle ⟨1⟩] ++ reads ⟨2⟩ ++ reads ⟨3⟩ ++
    [.drop ⟨3⟩ ⟨⟨⟨0⟩, 0⟩, 0, false⟩, .finish ⟨3⟩ commit, .settle ⟨3⟩]

theorem guarded_resides_sharing :
    let work := ((sharing true).map Step.act).foldl next (start smallPool)
    let page : PageId := ⟨⟨0⟩, 0⟩
    ⟨page, 0, false⟩ ∈ work.guards ⟨2⟩ ∧ ∃ resident cache,
      work.pool.cache.frames[page]? = some resident ∧
        work.pool.cache.find? page 0 = some resident ∧
        (∑ᶠ other, (work.guards other).countP fun held => held.page = page ∧ held.stay = 0) = 1 ∧
        work.pool.pin page = (({ work.pool with cache } : Pool).count .hits, .ok 0) := by
  intro work page
  have made : Pool.start smallPool.config .blank = .ok smallPool := rfl
  have light : Course (fun work step => work.Light step ∧ work.Unused page step)
      (start smallPool) work := .of_takes _ .start (by decide +kernel)
  have course := light.considerate made 0
  have member : ⟨page, 0, false⟩ ∈ work.guards ⟨2⟩ := by decide +kernel
  have pins : (work.pool.pins? page) = some 1 := by decide +kernel
  have quiet : ∀ other, (page, 0) ∉ (work.stage other).pinned := by
    intro other
    by_cases worker : other ∈ [(⟨1⟩ : TransactionId), ⟨2⟩, ⟨3⟩]
    · revert other
      decide +kernel
    · have idle : work.stage other = .idle :=
        stage_foldl_of_not_mem worker _ (by decide) (start smallPool)
      rw [idle]
      exact List.not_mem_nil
  obtain ⟨counts, _, stays⟩ := guarded_resides made (course.mono fun _ _ kind => kind.1)
  obtain ⟨resident, present, found, guards, hit⟩ := stays ⟨2⟩ _ member course
  obtain ⟨before, here, one⟩ := Option.map_eq_some_iff.mp pins
  obtain rfl := Option.some.inj (here.symm.trans present)
  have stay : before.stay = 0 := (Cache.find?_cases found).1
  have few : work.users page 0 + 1 < 2 ^ 32 := by
    rw [← stay, ← counts page before present, one]
    decide
  obtain ⟨cache, hit⟩ := hit few
  have guards := guards quiet
  rw [one] at guards
  exact ⟨member, before, cache, present, found, guards.symm, hit⟩

/-- No latch is in anybody's way, transactions let go of their pages before they end, and nothing is
done behind their backs. -/
def tidy (work : Workload) : Step → Bool
  | .act (.finish owner _) => work.guards owner = []
  | .act (.advance owner) =>
    match work.stage owner with
    | .working _ (.access ⟨_, page, purpose, .use stay⟩) =>
      (work.pool.latch ⟨page, stay, purpose.mode = .exclusive⟩).isSome
    | _ => true
  | .act _ => true
  | .hook _ => false

/-- A page that is in use can leave the cache. One of two readers of a page aborts, and with it goes
the page that it has locked. -/
theorem not_guarded_resides :
    ¬∀ {config : Config} {disk : Disk} {pool : Pool} {work : Workload} {owner : TransactionId}
      {guard : Guard}, Pool.start config disk = .ok pool →
      Course (fun work step => work.tidy step = true ∧ work.Roomy step) (start pool) work →
      guard ∈ work.guards owner →
        ∃ resident, work.pool.cache.frames[guard.page]? = some resident ∧
          resident.stay = guard.stay := by
  intro resides
  have made : Pool.start smallPool.config .blank = .ok smallPool := rfl
  let work := ((sharing false).map Step.act).foldl next (start smallPool)
  have light : Course (fun work step => work.tidy step = true ∧ work.Light step)
      (start smallPool) work := .of_takes _ .start (by decide +kernel)
  have course : Course (fun work step => work.tidy step = true ∧ work.Roomy step)
      (start smallPool) work :=
    light.under (tallied_start made)
      (fun _ _ tallied possible kind => tallied_next tallied possible kind.2)
      fun _ _ tallied kind => ⟨kind.1, kind.2.roomy tallied⟩
  have member : ⟨⟨⟨0⟩, 0⟩, 0, false⟩ ∈ work.guards ⟨2⟩ := by decide +kernel
  obtain ⟨resident, present, _⟩ := resides made course member
  have gone : work.pool.cache.frames[(⟨⟨0⟩, 0⟩ : PageId)]? = none := by decide +kernel
  cases gone.symm.trans present

end PagedTables.Workload

import PagedTables.Proofs.Workload.Follow
import PagedTables.Proofs.Workload.Registrations

/-! Every action leaves the whole coherent, and so does every run. -/

namespace PagedTables.Workload

variable {start : Disk} {work : Workload} {owner : TransactionId} {call : Call} {task : Task}

section Operation

theorem Coherent.look (coherent : work.Coherent start) (owner : TransactionId) (task : Task) :
    (work.look owner task).Coherent start := by
  rcases work.look_cases owner task with same | ⟨page, slots, _, same⟩
  · rwa [same]
  · rw [same]
    exact ⟨coherent.numbered, coherent.sound, coherent.balanced, fun other =>
      ⟨(coherent.inStep other).guards, (coherent.inStep other).working,
        (coherent.inStep other).ending⟩⟩

theorem Coherent.ready (coherent : work.Coherent start)
    (here : work.stage owner = .working call task) :
    task.owner = owner ∧ task.Ready start work.ledger work.pool call (work.made owner) := by
  obtain ⟨rfl, fits⟩ := (coherent.inStep owner).working call task here
  refine ⟨rfl, coherent.sound, coherent.balanced, fits, fun page => ?_, fun page => ?_⟩
  · exact written_of_not_ending (by simp [here, Stage.isEnding]) page
  · simp [ledger, here, Stage.pending]

theorem Coherent.after_call (coherent : work.Coherent start) (idle : work.stage owner = .idle)
    (call : Call) : Turn start work (work.after (.call owner call)) owner := by
  have fresh : (call.begin work.pool owner).Fresh start work.ledger work.pool call owner :=
    Call.fresh_begin coherent.sound call owner
  have same : work.ledger.revise owner (fun page => work.made owner page ++
      (call.begin work.pool owner).halfway call page) = work.ledger :=
    Ledger.revise_eq_self fun page => by simp [fresh.halfway page, ledger, idle, Stage.pending]
  refine coherent.follow (by simp [idle, Stage.isEnding])
    ⟨?_, fun _ _ => id, fun page => ⟨[], ?_⟩, ?_⟩
  · rw [same]
    exact Pool.move_relock coherent.sound coherent.balanced (.of_same rfl rfl) work.pool.stats
  · simp [fresh.halfway page, ledger, idle, Stage.pending]
  · rw [same]
    exact fresh.fits

theorem Coherent.after_advance (coherent : work.Coherent start) (bounded : work.pool.Bounded)
    (here : work.stage owner = .working call task) :
    Turn start work (work.after (.advance owner)) owner := by
  obtain ⟨rfl, ready⟩ := coherent.ready here
  have moved := ready.step bounded
  have seen := coherent.look task.owner task
  have quiet : (work.stage task.owner).isEnding = false := by simp [here, Stage.isEnding]
  simp only [after, here]
  rcases work.look_cases task.owner task with same | ⟨page, slots, _, same⟩
  · rw [same]
    exact coherent.follow quiet moved
  · rw [same] at seen ⊢
    have turn := seen.follow quiet moved
    exact ⟨turn.move, turn.stage, turn.guards, turn.inStep, fun before after page =>
      have keeps := turn.keeps before after page
      ⟨keeps.holds, keeps.committed, keeps.pending⟩⟩

theorem Coherent.after_expire (coherent : work.Coherent start)
    (here : work.stage owner = .working call task) (waiting : task.isWaiting = true) :
    Turn start work (work.after (.expire owner)) owner := by
  obtain ⟨mine, ready⟩ := coherent.ready here
  have moved := ready.expire waiting
  rw [mine] at moved
  simp only [after, here]
  exact coherent.follow (by simp [here, Stage.isEnding]) moved

end Operation

section Table

theorem Coherent.move_all (coherent : work.Coherent start) {pool : Pool} {registrations : Nat}
    (move : ∀ owner, work.pool.Move start owner work.ledger work.ledger pool)
    (owner : TransactionId) : Turn start work { work with pool, registrations } owner := by
  have apart : ∃ another : TransactionId, owner ≠ another := by
    by_cases first : owner = ⟨0⟩
    · exact ⟨⟨1⟩, by rw [first]; decide⟩
    · exact ⟨⟨0⟩, first⟩
  obtain ⟨another, apart⟩ := apart
  have move' := move another
  exact ⟨move owner, fun _ _ => rfl, fun _ _ => rfl, coherent.inStep_move move' apart rfl rfl,
    fun _ _ page => ⟨fun mode => move'.holds owner page mode apart, fun _ => rfl, [],
      (List.append_nil _).symm⟩⟩

theorem Coherent.move_registers (coherent : work.Coherent start) {pool : Pool}
    (registers : work.pool.Registers pool) (owner : TransactionId) :
    work.pool.Move start owner work.ledger work.ledger pool := by
  cases registers with
  | failed disk grows nextTable => exact Pool.move_grow coherent.sound coherent.balanced grows _
  | added disk grows nextTable table free file proper same isFile fresh =>
    exact Pool.move_register coherent.sound coherent.balanced grows free proper same isFile fresh _

theorem Coherent.after_create (coherent : work.Coherent start) (few : work.registrations < 2 ^ 32)
    (name : String) (schema : Schema) (owner : TransactionId) :
    Turn start work (work.after (.create name schema)) owner := by
  have registers := coherent.sound.registers_create (coherent.numbered.hasTableId few) name schema
  exact coherent.move_all (coherent.move_registers registers) owner

theorem Coherent.after_attach (coherent : work.Coherent start) (few : work.registrations < 2 ^ 32)
    {name : String} {schema : Schema} (enabled : work.Enabled (.attach name schema))
    (owner : TransactionId) : Turn start work (work.after (.attach name schema)) owner := by
  have registers :=
    coherent.sound.registers_unregistered (coherent.numbered.hasTableId few) enabled
  exact coherent.move_all (coherent.move_registers registers) owner

end Table

theorem Coherent.after_drop (coherent : work.Coherent start) {guard : Guard}
    (enabled : work.Enabled (.drop owner guard)) :
    Turn start work (work.after (.drop owner guard)) owner := by
  obtain ⟨idle, member⟩ := enabled
  obtain ⟨cache, same, visits⟩ := work.pool.visits_drop guard
  have holds := (coherent.inStep owner).guards guard member
  simp only [after, same]
  refine ⟨Pool.move_serve coherent.sound coherent.balanced (.of_visits visits work.pool.stats) holds,
    fun _ _ => rfl, fun other apart => Function.update_of_ne apart _ _,
    ⟨fun guard member => ?_, fun call task here => ?_, fun commit rest here => ?_⟩,
    fun _ _ page => ⟨fun _ => id, fun _ => rfl, [], (List.append_nil _).symm⟩⟩
  · simp only [Function.update_self] at member
    exact (coherent.inStep owner).guards guard (List.mem_of_mem_erase member)
  · rw [idle] at here
    cases here
  · rw [idle] at here
    cases here

section End

theorem mem_heldPages (sound : work.pool.Sound start) {page : PageId} :
    page ∈ work.pool.heldPages owner ↔ work.pool.locks.table.Holds owner page .shared :=
  Pool.mem_heldPages_iff sound.indexed

theorem Coherent.after_finish (coherent : work.Coherent start) {commit : Bool}
    (enabled : work.Enabled (.finish owner commit)) :
    Turn start work (work.after (.finish owner commit)) owner := by
  obtain ⟨idle, released⟩ := enabled
  have sound := coherent.sound
  -- A page that was edited is locked, so it is one of those to be written or dropped.
  have listed : ∀ page, page ∉ work.pool.heldPages owner → work.made owner page = [] := by
    intro page absent
    by_contra edits
    have pending : work.ledger.pending owner page ≠ [] := by
      simpa [ledger, idle, Stage.pending] using edits
    have holds := (coherent.balanced page).locked owner (.inl pending)
    exact absent ((mem_heldPages sound).mpr holds.shared)
  have same : (work.after (.finish owner commit)).ledger = work.ledger := by
    refine Ledger.ext rfl (funext₂ fun other page => ?_) (funext₂ fun other page => ?_)
    · by_cases mine : other = owner
      · subst mine
        simp only [ledger, after, made, Function.update_self, idle]
        exact Stage.pending_ending (listed page)
      · simp only [ledger, after, made, Function.update_of_ne mine]
    · by_cases mine : other = owner
      · subst mine
        simp only [ledger, after, made, Function.update_self, idle]
        exact Stage.written_ending (listed page)
      · simp only [ledger, after, made, Function.update_of_ne mine]
  have move : work.pool.Move start owner work.ledger (work.after (.finish owner commit)).ledger
      (work.after (.finish owner commit)).pool := by
    rw [same]
    exact Pool.move_relock sound coherent.balanced (.of_same rfl rfl) work.pool.stats
  refine ⟨move, fun other apart => Function.update_of_ne apart _ _, fun _ _ => rfl,
    ⟨(coherent.inStep owner).guards, fun call task here => ?_, fun commit' rest here => ?_⟩,
    fun _ ending => ?_⟩
  · simp [after] at here
  · simp only [after, Function.update_self, Stage.ending.injEq] at here
    obtain ⟨rfl, rfl⟩ := here
    refine ⟨?_, fun page member => (mem_heldPages sound).mp member, released⟩
    have distinct := (work.pool.locks.table.heldBy owner).distinct_toList
    exact distinct.imp fun apart same => apart (Std.LawfulEqOrd.compare_eq_iff_eq.mpr same)
  · simp [after, Stage.isEnding] at ending

section Settle

variable {pool : Pool} {ledger ledger' : Ledger} {page : PageId}
  (sound : pool.Sound start) (balanced : ∀ page, pool.Balanced start ledger page)
  (mine : pool.locks.table.Holds owner page .shared)
  (differs : Pool.Ledger.Differs owner page ledger ledger')
  (unwritten : ledger.written owner page = []) (saved : ledger'.pending owner page = [])
include sound balanced differs unwritten saved

theorem move_clean (commit : Bool)
    (kept : ledger'.written owner page = if commit then ledger.pending owner page else [])
    (clean : ∀ heap, pool.heap? page = some heap → heap.dirtiedBy = none) :
    pool.Move start owner ledger ledger' pool := by
  have none : ledger.pending owner page = [] := by
    by_contra edits
    obtain ⟨heap, present, mark⟩ := (balanced page).cached owner edits
    rw [clean heap present] at mark
    cases mark
  have same : ledger' = ledger := differs.eq_self (saved.trans none.symm)
    (by rw [kept, none, unwritten, ite_self])
  rw [same]
  exact Pool.move_relock sound balanced (.of_same rfl rfl) pool.stats

include mine

theorem move_discardPage (kept : ledger'.written owner page = []) :
    pool.Move start owner ledger ledger' (pool.discardPage page) := by
  have discards := pool.discardPage_discards page
  generalize pool.discardPage page = later at discards ⊢
  cases discards with
  | absent absent =>
    refine move_clean sound balanced differs unwritten saved false kept fun heap present => ?_
    simp [Pool.heap?, absent] at present
  | dropped cache drops stats =>
    exact Pool.move_discard sound balanced differs mine drops stats saved (kept.trans unwritten.symm)

theorem move_flushPage (kept : ledger'.written owner page = ledger.pending owner page)
    (done : (pool.flushPage page).2.isOk = true) :
    pool.Move start owner ledger ledger' (pool.flushPage page).1 := by
  have still := move_clean sound balanced differs unwritten saved true kept
  have flushes := pool.flushPage_flushes page
  generalize pool.flushPage page = result at flushes done ⊢
  cases flushes with
  | absent absent => exact still fun heap here => by simp [Pool.heap?, absent] at here
  | clean resident present clean =>
    refine still fun heap here => ?_
    simp only [Pool.heap?, present, Option.map_some, Option.some.injEq] at here
    exact here ▸ clean
  | failed failure => simp [Except.isOk, Except.toBool] at done
  | written resident present writer dirty file registered disk writes cache replaces stats =>
    obtain ⟨holder, housed⟩ := sound.housed page resident present
    obtain rfl : holder = file := by
      rw [housed.id, housed.table] at registered
      exact Option.some.inj registered
    -- Whoever made it dirty has it exclusively, so that is the one who commits.
    have edits := (balanced page).marked resident.frame.page writer (by simp [Pool.heap?, present])
      dirty
    obtain rfl : owner = writer :=
      ((balanced page).locked writer (.inl edits)).alone sound.valid mine
    have proper := (sound.proper _ _ housed.table).1
    have stored := proper.writes housed.sound housed.schema housed.layout
      (housed.id ▸ housed.covers) writes
    exact Pool.move_flush sound balanced differs present dirty housed stored replaces saved kept stats

theorem move_settle {commit : Bool}
    (kept : ledger'.written owner page = if commit then ledger.pending owner page else [])
    (done : (pool.settlePage commit page).2.isOk = true) :
    pool.Move start owner ledger ledger' (pool.settlePage commit page).1 := by
  cases commit with
  | false => exact move_discardPage sound balanced mine differs unwritten saved kept
  | true => exact move_flushPage sound balanced mine differs unwritten saved kept done

end Settle

theorem ledger_differs {later : Workload} {commit : Bool} {page : PageId} {rest : List PageId}
    (history : later.history = work.history)
    (here : work.stage owner = .ending commit (page :: rest))
    (mine : later.stage owner = .ending commit rest)
    (theirs : ∀ other, other ≠ owner → later.stage other = work.stage other) :
    Pool.Ledger.Differs owner page work.ledger later.ledger := by
  have made : later.made = work.made := funext₂ fun other place => by rw [Workload.made, history]; rfl
  refine ⟨funext fun place => by simp only [ledger, history], fun other place apart => ?_,
    fun other place apart => ?_⟩
  · by_cases same : other = owner
    · subst same
      have elsewhere := apart.resolve_left fun apart => apart rfl
      simp [ledger, made, mine, here, Stage.pending, elsewhere]
    · simp [ledger, made, theirs other same]
  · by_cases same : other = owner
    · subst same
      have elsewhere := apart.resolve_left fun apart => apart rfl
      cases commit <;> simp [ledger, made, mine, here, Stage.written, elsewhere]
    · simp [ledger, made, theirs other same]

theorem Coherent.after_settlePage (coherent : work.Coherent start) {commit : Bool} {page : PageId}
    {rest : List PageId} (here : work.stage owner = .ending commit (page :: rest))
    (done : (work.pool.settlePage commit page).2.isOk = true) :
    Turn start work (work.after (.settle owner)) owner := by
  obtain ⟨nodup, held, released⟩ := (coherent.inStep owner).ending commit _ here
  obtain ⟨absent, nodup⟩ := List.nodup_cons.mp nodup
  have after : work.after (.settle owner) =
      { work with
        pool := (work.pool.settlePage commit page).1
        stage := Function.update work.stage owner (.ending commit rest) } := by
    simp only [Workload.after, here]
  rw [after]
  generalize settled : ({ work with
        pool := (work.pool.settlePage commit page).1
        stage := Function.update work.stage owner (.ending commit rest) } : Workload) = later
  have made : later.made = work.made := by rw [← settled]; rfl
  have mine : later.stage owner = .ending commit rest := by rw [← settled]; simp
  have theirs : ∀ other, other ≠ owner → later.stage other = work.stage other := by
    intro other apart
    rw [← settled]
    exact Function.update_of_ne apart _ _
  have history : later.history = work.history := by rw [← settled]
  have differs := ledger_differs history here mine theirs
  -- The edits of the page that is settled move on in the ledger; those of the pages in `rest` are
  -- pending as before.
  have move : work.pool.Move start owner work.ledger later.ledger
      (work.pool.settlePage commit page).1 := by
    refine move_settle coherent.sound coherent.balanced (held page List.mem_cons_self) differs ?_ ?_
      ?_ done
    · cases commit <;> simp [ledger, here, Stage.written]
    · simp [ledger, mine, Stage.pending, absent]
    · cases commit <;> simp [ledger, mine, here, Stage.pending, Stage.written, absent, made]
  subst settled
  refine ⟨move, theirs, fun _ _ => rfl,
    ⟨fun guard member => ?_, fun call task working => ?_, fun commit' rest' ending => ?_⟩,
    fun quiet => ?_⟩
  · rw [released] at member
    cases member
  · rw [mine] at working
    cases working
  · rw [mine, Stage.ending.injEq] at ending
    obtain ⟨rfl, rfl⟩ := ending
    refine ⟨nodup, fun other member => ?_, released⟩
    show (work.pool.settlePage commit page).1.locks.table.Holds owner other .shared
    rw [Pool.settlePage_locks]
    exact held other (List.mem_cons_of_mem _ member)
  · simp [here, Stage.isEnding] at quiet

theorem Coherent.after_release (coherent : work.Coherent start) {commit : Bool}
    (here : work.stage owner = .ending commit []) :
    Turn start work (work.after (.settle owner)) owner := by
  obtain ⟨_, _, released⟩ := (coherent.inStep owner).ending commit _ here
  have move : work.pool.Move start owner work.ledger (work.after (.settle owner)).ledger
      (work.pool.releaseAll owner) := by
    refine Pool.move_release coherent.sound coherent.balanced (fun page => ?_) (fun page => ?_)
      (fun page => ?_) fun other page apart => ?_
    · simp [ledger, here, Stage.pending]
    · cases commit <;> simp [ledger, after, here, Stage.written, Event.committedEdits, made]
    · simp [ledger, after, here, Stage.pending, Stage.written, made, Event.openEdits]
    · simp [ledger, after, here, made, Event.openEdits, Function.update_of_ne apart, Ne.symm apart]
  simp only [after, here] at move ⊢
  refine ⟨move, fun other apart => Function.update_of_ne apart _ _, fun _ _ => rfl,
    ⟨fun guard member => ?_, fun call task working => ?_, fun commit' rest ending => ?_⟩,
    fun quiet => ?_⟩
  · simp [released] at member
  · simp at working
  · simp at ending
  · simp [here, Stage.isEnding] at quiet

end End

theorem Coherent.turn (coherent : work.Coherent start) {action : Action}
    (enabled : work.Enabled action) (few : (work.after action).registrations ≤ 2 ^ 32) :
    ∃ owner, Turn start work (work.after action) owner := by
  cases action with
  | create name schema => exact ⟨⟨0⟩, coherent.after_create few name schema ⟨0⟩⟩
  | attach name schema => exact ⟨⟨0⟩, coherent.after_attach few enabled ⟨0⟩⟩
  | call owner call => exact ⟨owner, coherent.after_call enabled call⟩
  | drop owner guard => exact ⟨owner, coherent.after_drop enabled⟩
  | finish owner commit => exact ⟨owner, coherent.after_finish enabled⟩
  | advance owner =>
    obtain ⟨working, bounded⟩ := enabled
    cases here : work.stage owner with
    | working call task => exact ⟨owner, coherent.after_advance bounded here⟩
    | idle => simp [here, Stage.isWorking] at working
    | ending commit rest => simp [here, Stage.isWorking] at working
  | expire owner =>
    cases here : work.stage owner with
    | working call task =>
      have waiting : task.isWaiting = true := by simpa [Enabled, here, Stage.isWaiting] using enabled
      exact ⟨owner, coherent.after_expire here waiting⟩
    | idle => simp [Enabled, here, Stage.isWaiting] at enabled
    | ending commit rest => simp [Enabled, here, Stage.isWaiting] at enabled
  | settle owner =>
    cases here : work.stage owner with
    | ending commit rest =>
      cases rest with
      | nil => exact ⟨owner, coherent.after_release here⟩
      | cons page rest =>
        have done : (work.pool.settlePage commit page).2.isOk = true := by
          simpa [Enabled, canSettle, here] using enabled
        exact ⟨owner, coherent.after_settlePage here done⟩
    | idle => simp [Enabled, canSettle, here, Stage.isEnding] at enabled
    | working call task => simp [Enabled, canSettle, here, Stage.isEnding] at enabled

theorem coherent_start {config : Config} {pool : Pool} (small : config.pageSize < 2 ^ 32)
    (h : Pool.start config start = .ok pool) : (Workload.start pool).Coherent start := by
  have sound := Pool.sound_start small h
  have unregistered : ∀ table : TableId, pool.tables[table]? = none := fun table => by
    simp [Pool.start_eq h]
  have uncached : ∀ page, pool.heap? page = none := fun page => by
    simp [Pool.start_eq h, Pool.heap?, Cache.empty]
  refine ⟨numbered_start h, sound, fun page => ?_, fun owner => ⟨?_, ?_, ?_⟩⟩
  · refine ⟨fun file found => ?_, fun file owner found => ?_, fun file heap found => ?_,
      fun file heap owner found => ?_, fun heap owner present => ?_,
      fun owner edits => absurd rfl edits, fun owner edits => ?_, fun owner => .inl rfl,
      fun _ => ⟨rfl, fun _ => rfl⟩⟩
    · exact absurd (found.symm.trans (unregistered _)) (by simp)
    · exact absurd (found.symm.trans (unregistered _)) (by simp)
    · exact absurd (found.symm.trans (unregistered _)) (by simp)
    · exact absurd (found.symm.trans (unregistered _)) (by simp)
    · exact absurd (present.symm.trans (uncached page)) (by simp)
    · rcases edits with edits | edits <;> exact absurd rfl edits
  · exact fun guard member => absurd member List.not_mem_nil
  · exact fun call task here => by cases here
  · exact fun commit rest here => by cases here

theorem coherent_of_run {allowed : Action → Prop} {first : Workload} (run : Run allowed first work)
    (few : work.registrations ≤ 2 ^ 32) (coherent : first.Coherent start) : work.Coherent start := by
  induction run with
  | start => exact coherent
  | @step work action run kind enabled ih =>
    have registers := work.registers_after action
    have coherent := ih (Nat.le_trans registers.le few)
    obtain ⟨owner, turn⟩ := coherent.turn enabled few
    exact turn.coherent coherent (registers.numbered coherent.numbered)

end PagedTables.Workload

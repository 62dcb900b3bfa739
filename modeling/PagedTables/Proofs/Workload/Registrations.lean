import PagedTables.Proofs.Workload.Course

/-! How many tables were asked for, in every run and course. Each of them uses up a table id, also when
there is no file for it; after 2 ^ 32 of them the ids begin again. -/

namespace PagedTables.Workload

variable {work first later : Workload} {count : Nat} {step : Step} {action : Action}

inductive Registers (work later : Workload) : Prop
  | asked (disk : Disk) (made : Except Failure HeapFile)
      (pool : later.pool = (({ work.pool with disk } : Pool).register made).1)
      (count : later.registrations = work.registrations + 1)
  | same (same : work.pool.SameTables later.pool) (count : later.registrations = work.registrations)

theorem registrations_after (work : Workload) {owner : TransactionId}
    (mine : action.owner? = some owner) :
    (work.after action).registrations = work.registrations := by
  cases action with
  | create name schema => cases mine
  | attach name schema => cases mine
  | call owner call => exact work.follow_registrations _ _ _
  | advance owner | expire owner =>
    simp only [after]
    split
    · simp
    · rfl
  | drop owner guard => rfl
  | finish owner commit => rfl
  | settle owner =>
    simp only [after]
    split <;> rfl

theorem registers_after (work : Workload) (action : Action) :
    Registers work (work.after action) := by
  have still : work.pool.SameTables work.pool := ⟨rfl, rfl⟩
  have mine : ∀ {owner : TransactionId}, action.owner? = some owner →
      work.pool.SameTables (work.after action).pool → Registers work (work.after action) :=
    fun mine same => .same same (work.registrations_after mine)
  cases action with
  | create name schema => exact .asked _ _ rfl rfl
  | attach name schema => exact .asked work.pool.disk _ rfl rfl
  | drop owner guard => exact mine rfl (work.pool.sameTables_drop guard)
  | finish owner commit => exact mine rfl still
  | call owner call =>
    refine mine rfl ?_
    rw [after, follow_pool]
    exact still
  | advance owner =>
    refine mine rfl ?_
    simp only [after]
    split
    · next call task here =>
      rw [follow_pool]
      exact (task.stepsTo_step work.pool).sameTables
    · exact still
  | expire owner =>
    refine mine rfl ?_
    simp only [after]
    split
    · next call task here =>
      rw [follow_pool]
      exact (task.stepsTo_expired work.pool).sameTables
    · exact still
  | settle owner =>
    refine mine rfl ?_
    simp only [after]
    split
    · exact work.pool.sameTables_settlePage _ _
    · exact ⟨rfl, rfl⟩
    · exact still

theorem registers_next (work : Workload) (step : Step) : Registers work (work.next step) := by
  cases step with
  | hook hook => exact .same (hook.sameTables work.pool) rfl
  | act action =>
    cases action with
    | settle owner =>
      simp only [next]
      split
      · exact work.registers_after _
      · exact .same ⟨rfl, rfl⟩ rfl
    | create name schema => exact work.registers_after (.create name schema)
    | attach name schema => exact work.registers_after (.attach name schema)
    | call owner call => exact work.registers_after (.call owner call)
    | advance owner => exact work.registers_after (.advance owner)
    | expire owner => exact work.registers_after (.expire owner)
    | drop owner guard => exact work.registers_after (.drop owner guard)
    | finish owner commit => exact work.registers_after (.finish owner commit)

theorem Registers.le (registers : Registers work later) :
    work.registrations ≤ later.registrations := by
  cases registers with
  | asked disk made pool count => exact count ▸ Nat.le_succ _
  | same same count => exact Nat.le_of_eq count.symm

theorem Registers.numbered (registers : Registers work later)
    (numbered : work.pool.Numbered work.registrations) : later.pool.Numbered later.registrations := by
  cases registers with
  | same same count => exact count ▸ numbered.same same
  | asked disk made pool count =>
    rw [pool, count]
    have same : work.pool.SameTables { work.pool with disk } := ⟨rfl, rfl⟩
    exact (numbered.same same).register made

theorem Course.registrations_le {allowed : Workload → Step → Prop}
    (course : Course allowed first work) : first.registrations ≤ work.registrations := by
  induction course with
  | start => exact Nat.le_refl _
  | @step work step _ _ _ ih => exact Nat.le_trans ih (work.registers_next step).le

theorem Run.registrations_le {allowed : Action → Prop} (run : Run allowed first work) :
    first.registrations ≤ work.registrations := by
  induction run with
  | start => exact Nat.le_refl _
  | @step work action _ _ _ ih => exact Nat.le_trans ih (work.registers_after action).le

theorem numbered_start {config : Config} {start : Disk} {pool : Pool}
    (made : Pool.start config start = .ok pool) :
    (Workload.start pool).pool.Numbered (Workload.start pool).registrations := by
  obtain rfl := Pool.start_eq made
  exact ⟨rfl, fun table file found => by simp [Workload.start] at found⟩

end PagedTables.Workload

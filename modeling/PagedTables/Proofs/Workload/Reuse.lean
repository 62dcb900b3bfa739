import PagedTables.Proofs.Workload.Registrations

/-! A file that is not there uses up a table id when it is asked for. When all ids are used up, a new
table gets the id of an old one, and with it the pages of the old one that are in the cache. -/

namespace PagedTables

variable {disk : Disk} {name : String} {cause : DiskError}

theorem HeapFile.attach_of_find (missing : disk.find name = .error cause) (table : TableId)
    (schema : Schema) (pageSize : Nat) :
    attach disk name table schema pageSize = .error (.error (.disk cause)) := by
  unfold attach
  simp only [Disk.find, bind, Except.bind] at missing
  split at missing
  · next failure resolved =>
    cases missing
    rw [resolved]
  · next path resolved => simp only [resolved, missing]

namespace Pool

/-- So many files were asked for that are not there. -/
def passed (pool : Pool) (count : Nat) : Pool :=
  { pool with nextTable := pool.nextTable + .ofNat count }

theorem passed_zero (pool : Pool) : pool.passed 0 = pool := by
  unfold passed
  rw [show UInt32.ofNat 0 = 0 from rfl, UInt32.add_zero]

theorem openTable_passed {pool : Pool} (missing : pool.disk.find name = .error cause)
    (schema : Schema) (count : Nat) :
    (pool.passed count).openTable name schema =
      (pool.passed (count + 1), .error (.error (.disk cause))) := by
  have failed := HeapFile.attach_of_find missing ⟨(pool.passed count).nextTable⟩ schema
    pool.config.pageSize
  unfold openTable
  rw [show HeapFile.attach (pool.passed count).disk _ _ _ (pool.passed count).config.pageSize = _
    from failed]
  simp only [register, passed, UInt32.ofNat_add, UInt32.add_assoc]
  rfl

end Pool

namespace Workload

variable {first work : Workload}

def passed (work : Workload) (count : Nat) : Workload :=
  { work with pool := work.pool.passed count, registrations := work.registrations + count }

theorem passed_zero (work : Workload) : work.passed 0 = work := by
  unfold passed
  rw [Pool.passed_zero, Nat.add_zero]

theorem after_passed (missing : work.pool.disk.find name = .error cause) (schema : Schema)
    (count : Nat) : (work.passed count).after (.attach name schema) = work.passed (count + 1) := by
  simp only [after, passed, Pool.openTable_passed missing, Nat.add_assoc]

theorem unregistered_passed (missing : work.pool.disk.find name = .error cause) (schema : Schema)
    (count : Nat) : (work.passed count).pool.Unregistered (HeapFile.attach
      (work.passed count).pool.disk name ⟨(work.passed count).pool.nextTable⟩ schema
        (work.passed count).pool.config.pageSize) := by
  rw [show HeapFile.attach (work.passed count).pool.disk _ _ _ _ = _ from
    HeapFile.attach_of_find missing _ _ _]
  trivial

theorem Run.passed {allowed : Action → Prop} (run : Run allowed first work)
    (missing : work.pool.disk.find name = .error cause) (schema : Schema)
    (kind : allowed (.attach name schema)) (count : Nat) : Run allowed first (work.passed count) := by
  induction count with
  | zero => rwa [passed_zero]
  | succ count ih =>
    rw [← after_passed missing schema]
    exact .step _ ih kind (unregistered_passed missing schema count)

theorem Course.passed {allowed : Workload → Step → Prop} (course : Course allowed first work)
    (missing : work.pool.disk.find name = .error cause) (schema : Schema)
    (kind : ∀ work, Filed work (.act (.attach name schema)) → allowed work (.act (.attach name schema)))
    (count : Nat) : Course allowed first (work.passed count) := by
  induction count with
  | zero => rwa [passed_zero]
  | succ count ih =>
    rw [← after_passed missing schema]
    exact .step (.act (.attach name schema)) ih trivial
      (kind _ (unregistered_passed missing schema count))

def archived : Pool :=
  { smallPool with
    disk := ⟨(∅ : Std.ExtTreeMap String DiskEntry).insert "archive"
      (.file ((Bytes.zeros 16).write 0 [1]))⟩ }

end Workload
end PagedTables

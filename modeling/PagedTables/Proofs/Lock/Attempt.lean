import Mathlib.Tactic.ByContra
import Mathlib.Tactic.Tauto
import PagedTables.Lock.Table
import PagedTables.Proofs.Lock.WaitGraph

/-! What one attempt, and giving locks back, does to the holders of every page. -/

namespace PagedTables

namespace Lock

structure Valid (lock : Lock) : Prop where
  held : ∃ owner, owner ∈ lock.holders
  alone : lock.mode = .exclusive → ∀ a ∈ lock.holders, ∀ b ∈ lock.holders, a = b

theorem isSoleHolder_iff {lock : Lock} {owner : TransactionId} :
    lock.isSoleHolder owner = true ↔ ∀ holder, holder ∈ lock.holders ↔ holder = owner := by
  have members : ∀ holder, holder ∈ lock.holders.toList ↔ holder ∈ lock.holders :=
    fun holder => Std.ExtTreeSet.mem_toList
  simp only [isSoleHolder, Bool.and_eq_true, decide_eq_true_eq, Std.ExtTreeSet.contains_iff_mem,
    ← Std.ExtTreeSet.length_toList, ← members]
  have distinct : lock.holders.toList.Nodup :=
    Std.ExtTreeSet.distinct_toList.imp fun apart same =>
      apart (Std.LawfulEqOrd.compare_eq_iff_eq.mpr same)
  constructor
  · rintro ⟨one, member⟩ holder
    obtain ⟨only, list⟩ := List.length_eq_one_iff.mp one
    simp only [list, List.mem_singleton] at member ⊢
    rw [member]
  · intro only
    have member : owner ∈ lock.holders.toList := (only owner).mpr rfl
    refine ⟨?_, member⟩
    obtain ⟨before, behind, list⟩ := List.append_of_mem member
    rw [list] at distinct only ⊢
    cases before with
    | cons first before =>
      have same := (only first).mp (by simp)
      simp [same] at distinct
    | nil =>
      cases behind with
      | nil => rfl
      | cons second behind =>
        have same := (only second).mp (by simp)
        simp [same] at distinct

theorem isSoleHolder_eq_false {lock : Lock} {owner : TransactionId}
    (valid : ∃ holder, holder ∈ lock.holders) (sole : lock.isSoleHolder owner = false) :
    ∃ holder ∈ lock.holders, holder ≠ owner := by
  by_contra! all
  obtain ⟨holder, member⟩ := valid
  have only : lock.isSoleHolder owner = true := by
    refine isSoleHolder_iff.mpr fun other => ⟨all other, ?_⟩
    rintro rfl
    exact all holder member ▸ member
  rw [sole] at only
  exact Bool.noConfusion only

theorem request_eq_refused_iff {lock? : Option Lock} {owner : TransactionId} {mode : LockMode} :
    request lock? owner mode = .refused ↔
      ∃ lock, lock? = some lock ∧ lock.isSoleHolder owner = false ∧
        (lock.mode = .exclusive ∨ mode = .exclusive) := by
  cases lock? with
  | none => simp [request]
  | some lock =>
    cases sole : lock.isSoleHolder owner <;> cases held : lock.mode <;> cases mode <;>
      simp [request, sole, held]
    all_goals split <;> simp

theorem request_granted {lock? : Option Lock} {lock : Lock} {owner : TransactionId}
    {mode : LockMode} (h : request lock? owner mode = .granted lock) :
    (lock? = none ∧ lock = first mode owner) ∨
      ∃ old, lock? = some old ∧ lock.holders = old.holders ∧ owner ∈ old.holders ∧
        (old.mode = .exclusive ∨ mode = .exclusive → lock.mode = .exclusive ∧
          old.isSoleHolder owner = true) ∧
        (old.mode = .shared → mode = .shared → lock.mode = .shared) := by
  cases lock? with
  | none =>
    simp only [request, Verdict.granted.injEq] at h
    exact .inl ⟨rfl, h.symm⟩
  | some old =>
    refine .inr ⟨old, rfl, ?_⟩
    have inside : old.isSoleHolder owner = true → owner ∈ old.holders :=
      fun sole => (isSoleHolder_iff.mp sole owner).mpr rfl
    cases sole : old.isSoleHolder owner <;> cases held : old.mode <;> cases mode <;>
      simp only [request, sole, held, ne_eq, reduceCtorEq, not_true_eq_false, not_false_eq_true,
        ↓reduceIte, Bool.false_eq_true, Verdict.granted.injEq] at h
    case false.shared.shared =>
      split at h
      · next member =>
        cases h
        simp [held, Std.ExtTreeSet.contains_iff_mem.mp member]
      · cases h
    case true.shared.shared =>
      split at h
      · next member =>
        cases h
        simp [held, Std.ExtTreeSet.contains_iff_mem.mp member]
      · cases h
    all_goals
      subst h
      simp [held, inside sole]

theorem request_joined {lock? : Option Lock} {lock : Lock} {owner : TransactionId}
    {mode : LockMode} (h : request lock? owner mode = .joined lock) :
    ∃ old, lock? = some old ∧ old.mode = .shared ∧ mode = .shared ∧ owner ∉ old.holders ∧
      lock = { old with holders := old.holders.insert owner } := by
  cases lock? with
  | none => simp [request] at h
  | some old =>
    refine ⟨old, rfl, ?_⟩
    cases held : old.mode <;> cases mode <;>
      simp only [request, held, ne_eq, reduceCtorEq, not_true_eq_false, not_false_eq_true,
        ↓reduceIte] at h
    case shared.shared =>
      split at h
      · cases h
      · next outside =>
        cases h
        exact ⟨rfl, rfl, fun member => outside (Std.ExtTreeSet.contains_iff_mem.mpr member), rfl⟩
    all_goals split at h <;> cases h

def without (owner : TransactionId) (lock : Lock) : Option Lock :=
  if (lock.holders.erase owner).isEmpty then none
  else some { lock with holders := lock.holders.erase owner }

theorem mem_erase {owner holder : TransactionId} {holders : TransactionSet} :
    holder ∈ holders.erase owner ↔ holder ≠ owner ∧ holder ∈ holders := by
  rw [Std.ExtTreeSet.mem_erase, ne_eq, Std.LawfulEqOrd.compare_eq_iff_eq, ← ne_eq, ne_comm]

theorem mem_insert {owner holder : TransactionId} {holders : TransactionSet} :
    holder ∈ holders.insert owner ↔ holder = owner ∨ holder ∈ holders := by
  rw [Std.ExtTreeSet.mem_insert, Std.LawfulEqOrd.compare_eq_iff_eq, eq_comm]

theorem mem_first {owner holder : TransactionId} {mode : LockMode} :
    holder ∈ (first mode owner).holders ↔ holder = owner := by
  rw [first, Std.ExtTreeSet.singleton_eq_insert, mem_insert]
  simp

theorem without_eq_none {owner : TransactionId} {lock : Lock} :
    lock.without owner = none ↔ ∀ holder ∈ lock.holders, holder = owner := by
  unfold without
  split
  · next empty =>
    have none := Std.ExtTreeSet.eq_empty_iff_forall_not_mem.mp (Std.ExtTreeSet.isEmpty_iff.mp empty)
    simp only [mem_erase, not_and'] at none
    simpa using none
  · next some =>
    rw [Std.ExtTreeSet.isEmpty_iff, Std.ExtTreeSet.eq_empty_iff_forall_not_mem] at some
    simp only [mem_erase, not_and'] at some
    simpa using some

theorem without_eq_some {owner : TransactionId} {lock left : Lock}
    (h : lock.without owner = some left) :
    left.mode = lock.mode ∧
      ∀ holder, holder ∈ left.holders ↔ holder ≠ owner ∧ holder ∈ lock.holders := by
  unfold without at h
  split at h
  · cases h
  · cases h
    exact ⟨rfl, fun holder => mem_erase⟩

theorem without_without (owner : TransactionId) (lock : Lock) :
    (lock.without owner).bind (without owner) = lock.without owner := by
  cases h : lock.without owner with
  | none => rfl
  | some left =>
    have again : left.holders.erase owner = left.holders := by
      refine Std.ExtTreeSet.ext_mem fun holder => ?_
      rw [mem_erase, (without_eq_some h).2]
      tauto
    have some : left.holders.isEmpty = false := by
      unfold without at h
      split at h
      · cases h
      · next some =>
        cases h
        simpa using some
    simp [without, again, some]

end Lock

namespace LockTable

def Valid (table : LockTable) : Prop :=
  ∀ (page : PageId) (lock : Lock), table.locks[page]? = some lock → lock.Valid

theorem valid_empty : empty.Valid := by
  intro page lock h
  simp [empty] at h

theorem mem_holdersOf {table : LockTable} {page : PageId} {owner : TransactionId} :
    owner ∈ table.holdersOf page ↔
      ∃ lock, table.locks[page]? = some lock ∧ owner ∈ lock.holders := by
  unfold holdersOf
  cases table.locks[page]? with
  | none => simp
  | some lock => simp

theorem getElem?_grant {table : LockTable} {page other : PageId} {owner : TransactionId}
    {lock : Lock} :
    (table.grant page owner lock).locks[other]? =
      if other = page then some lock else table.locks[other]? := by
  simp only [grant, Std.ExtTreeMap.getElem?_insert, Std.LawfulEqOrd.compare_eq_iff_eq,
    @eq_comm _ other]

theorem getElem?_dropHolder {locks : Std.ExtTreeMap PageId Lock} {page other : PageId}
    {owner : TransactionId} :
    (dropHolder locks page owner)[other]? =
      if other = page then locks[other]?.bind (Lock.without owner) else locks[other]? := by
  unfold dropHolder
  by_cases same : other = page
  · subst same
    cases found : locks[other]? with
    | none => simp [found]
    | some lock =>
      simp only [Option.bind_some, ↓reduceIte, Lock.without]
      split <;> simp
  · rw [if_neg same]
    cases found : locks[page]? with
    | none => rfl
    | some lock =>
      simp only
      split
      · simp [Std.ExtTreeMap.getElem?_erase, Ne.symm same]
      · simp [Std.ExtTreeMap.getElem?_insert, Ne.symm same]

theorem getElem?_foldl_dropHolder {locks : Std.ExtTreeMap PageId Lock} {pages : List PageId}
    {other : PageId} {owner : TransactionId} :
    (pages.foldl (dropHolder · · owner) locks)[other]? =
      if other ∈ pages then locks[other]?.bind (Lock.without owner) else locks[other]? := by
  induction pages generalizing locks with
  | nil => simp
  | cons page pages ih =>
    rw [List.foldl_cons, ih, getElem?_dropHolder]
    by_cases same : other = page
    · subst same
      simp only [↓reduceIte, List.mem_cons, true_or, ite_eq_right_iff]
      cases locks[other]? with
      | none => simp
      | some lock => exact fun _ => Lock.without_without owner lock
    · simp only [same, ↓reduceIte, List.mem_cons, false_or]

theorem getElem?_releaseAll {table : LockTable} {page : PageId} {owner : TransactionId} :
    (table.releaseAll owner).locks[page]? =
      if page ∈ table.heldBy owner then table.locks[page]?.bind (Lock.without owner)
      else table.locks[page]? := by
  simp only [releaseAll, getElem?_foldl_dropHolder, Std.ExtTreeSet.mem_toList]

theorem getElem?_release {table : LockTable} {page other : PageId} {owner : TransactionId} :
    (table.release page owner).locks[other]? =
      if other = page then table.locks[other]?.bind (Lock.without owner)
      else table.locks[other]? := getElem?_dropHolder

inductive Outcome (table : LockTable) (page : PageId) (owner : TransactionId) (mode : LockMode) :
    LockTable × Decision → Prop
  | granted (lock : Lock) (answer : Lock.request table.locks[page]? owner mode = .granted lock) :
      Outcome table page owner mode (table.grant page owner lock, .granted)
  | joined (lock : Lock) (answer : Lock.request table.locks[page]? owner mode = .joined lock) :
      Outcome table page owner mode (table.grant page owner lock, .joined)
  | refused (answer : Lock.request table.locks[page]? owner mode = .refused)
      (free : (table.waits.setWaiting owner (table.holdersOf page).toList).isOnCycle owner = false) :
      Outcome table page owner mode
        ({ table with waits := table.waits.setWaiting owner (table.holdersOf page).toList },
          .refused)
  | deadlock (answer : Lock.request table.locks[page]? owner mode = .refused)
      (closed : (table.waits.setWaiting owner (table.holdersOf page).toList).isOnCycle owner = true) :
      Outcome table page owner mode
        ({ table with
            waits := (table.waits.setWaiting owner (table.holdersOf page).toList).clearWaiting
              owner },
          .deadlock)

theorem attempt_outcome (table : LockTable) (page : PageId) (owner : TransactionId)
    (mode : LockMode) : Outcome table page owner mode (table.attempt page owner mode) := by
  unfold attempt
  split
  · next lock answer => exact .granted lock answer
  · next lock answer => exact .joined lock answer
  · next answer =>
    simp only [refuse]
    cases tested : (table.waits.setWaiting owner (table.holdersOf page).toList).isOnCycle owner with
    | true => exact .deadlock answer tested
    | false => exact .refused answer tested

theorem waits_refuse {table : LockTable} {page : PageId} {owner waiter holder : TransactionId} :
    (table.waits.setWaiting owner (table.holdersOf page).toList).Waits waiter holder ↔
      if waiter = owner then holder ∈ table.holdersOf page ∧ holder ≠ owner
      else table.waits.Waits waiter holder := by
  simp only [WaitGraph.waits_setWaiting, Std.ExtTreeSet.mem_toList]

theorem valid_of_request {table : LockTable} {page : PageId}
    {owner : TransactionId} {mode : LockMode} {lock : Lock}
    (answer : Lock.request table.locks[page]? owner mode = .granted lock ∨
      Lock.request table.locks[page]? owner mode = .joined lock) : lock.Valid := by
  rcases answer with plain | joining
  · rcases Lock.request_granted plain with ⟨_, rfl⟩ | ⟨old, found, same, member, raised, kept⟩
    · refine ⟨⟨owner, Lock.mem_first.mpr rfl⟩, fun _ a ha b hb => ?_⟩
      rw [Lock.mem_first.mp ha, Lock.mem_first.mp hb]
    · refine ⟨⟨owner, same ▸ member⟩, fun exclusive a ha b hb => ?_⟩
      rw [same] at ha hb
      -- A lock is raised for a sole holder only; one that is not raised stays shared.
      by_cases asked : old.mode = .exclusive ∨ mode = .exclusive
      · have only := Lock.isSoleHolder_iff.mp (raised asked).2
        rw [(only a).mp ha, (only b).mp hb]
      · have shared : old.mode = .shared ∧ mode = .shared := by
          cases h : old.mode <;> cases mode <;> simp_all
        rw [kept shared.1 shared.2] at exclusive
        cases exclusive
  · obtain ⟨old, found, shared, _, _, rfl⟩ := Lock.request_joined joining
    refine ⟨⟨owner, Lock.mem_insert.mpr (.inl rfl)⟩, fun exclusive => ?_⟩
    rw [shared] at exclusive
    cases exclusive

theorem Valid.grant {table : LockTable} (valid : table.Valid) {page : PageId}
    {owner : TransactionId} {lock : Lock} (entered : lock.Valid) :
    (table.grant page owner lock).Valid := by
  intro other found h
  rw [getElem?_grant] at h
  split at h
  · cases h
    exact entered
  · exact valid other found h

theorem Valid.attempt {table : LockTable} (valid : table.Valid) (page : PageId)
    (owner : TransactionId) (mode : LockMode) : (table.attempt page owner mode).1.Valid := by
  have outcome := table.attempt_outcome page owner mode
  generalize table.attempt page owner mode = result at outcome ⊢
  cases outcome with
  | granted lock answer => exact valid.grant (valid_of_request (.inl answer))
  | joined lock answer => exact valid.grant (valid_of_request (.inr answer))
  | refused answer free => exact valid
  | deadlock answer closed => exact valid

theorem Valid.of_without {table smaller : LockTable} (valid : table.Valid) (owner : TransactionId)
    (fewer : ∀ page : PageId, smaller.locks[page]? = table.locks[page]? ∨
      smaller.locks[page]? = table.locks[page]?.bind (Lock.without owner)) : smaller.Valid := by
  intro page left h
  rcases fewer page with same | less
  · exact valid page left (same ▸ h)
  · rw [less, Option.bind_eq_some_iff] at h
    obtain ⟨lock, found, h⟩ := h
    have entered := valid page lock found
    obtain ⟨mode, members⟩ := Lock.without_eq_some h
    refine ⟨?_, fun exclusive a ha b hb => ?_⟩
    · by_contra! nobody
      have all : lock.without owner = none := by
        refine Lock.without_eq_none.mpr fun holder member => ?_
        by_contra apart
        exact nobody holder ((members holder).mpr ⟨apart, member⟩)
      rw [all] at h
      cases h
    · exact entered.alone (mode ▸ exclusive) a ((members a).mp ha).2 b ((members b).mp hb).2

theorem Valid.release {table : LockTable} (valid : table.Valid) (page : PageId)
    (owner : TransactionId) : (table.release page owner).Valid :=
  valid.of_without owner fun other => by
    rw [getElem?_release]
    split
    · exact .inr rfl
    · exact .inl rfl

theorem Valid.releaseAll {table : LockTable} (valid : table.Valid) (owner : TransactionId) :
    (table.releaseAll owner).Valid :=
  valid.of_without owner fun other => by
    rw [getElem?_releaseAll]
    split
    · exact .inr rfl
    · exact .inl rfl

theorem acyclic_attempt {table : LockTable} (acyclic : table.waits.Acyclic) (page : PageId)
    (owner : TransactionId) (mode : LockMode) :
    (table.attempt page owner mode).1.waits.Acyclic := by
  have outcome := table.attempt_outcome page owner mode
  generalize table.attempt page owner mode = result at outcome ⊢
  cases outcome with
  | granted lock answer => exact acyclic.clearWaiting owner
  | joined lock answer => exact acyclic.clearWaiting owner
  | refused answer free => exact acyclic.setWaiting free
  | deadlock answer closed =>
    refine acyclic.mono fun waiter holder edge => ?_
    obtain ⟨apart, edge⟩ := WaitGraph.waits_clearWaiting.mp edge
    rwa [waits_refuse, if_neg apart] at edge

end LockTable
end PagedTables

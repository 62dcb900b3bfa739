import PagedTables.Cache.LoadOrder

/-! A load order keeps a queue of pages and, apart from it, the set of the pages that are in it. What
is seen of both is one line of pages without repetitions, in the order in which they were loaded. -/

namespace PagedTables.LoadOrder

universe u

variable {Memory : Type u} {memory later : Memory} {order : LoadOrder} {page : PageId}
  {line next : List PageId}

structure Listed (order : LoadOrder) : Prop where
  once : order.queue.Nodup
  members : ∀ page, page ∈ order.tracked ↔ page ∈ order.queue

inductive Call (Memory : Type u)
  | load (page : PageId)
  | remove (page : PageId)
  | evict (mayGo : PageId → Memory → Bool × Memory)

def perform (order : LoadOrder) (memory : Memory) : Call Memory → LoadOrder × Option PageId × Memory
  | .load page => (order.recordLoad page, none, memory)
  | .remove page => (order.remove page, none, memory)
  | .evict mayGo => order.evictAsking mayGo memory

/-- Calls one after another. Each answers the page that it picks and the number of tracked pages. -/
def run (order : LoadOrder) (memory : Memory) :
    List (Call Memory) → LoadOrder × List (Option PageId × Nat) × Memory
  | [] => (order, [], memory)
  | call :: calls =>
    match order.perform memory call with
    | (order, victim, memory) =>
      match run order memory calls with
      | (last, answers, memory) => (last, (victim, order.size) :: answers, memory)

inductive Stay (mayGo : PageId → Memory → Bool × Memory) : List PageId → Memory → Memory → Prop
  | nil (memory : Memory) : Stay mayGo [] memory memory
  | cons {page : PageId} {pages : List PageId} {memory between later : Memory}
      (stays : mayGo page memory = (false, between)) (rest : Stay mayGo pages between later) :
      Stay mayGo (page :: pages) memory later

inductive Moves (line : List PageId) (memory : Memory) :
    Call Memory → List PageId → Option PageId → Memory → Prop
  | joins (page : PageId) (new : page ∉ line) :
      Moves line memory (.load page) (line ++ [page]) none memory
  | known (page : PageId) (present : page ∈ line) : Moves line memory (.load page) line none memory
  | leaves (page : PageId) (before after : List PageId) (place : line = before ++ page :: after) :
      Moves line memory (.remove page) (before ++ after) none memory
  | unknown (page : PageId) (absent : page ∉ line) :
      Moves line memory (.remove page) line none memory
  | goes (mayGo : PageId → Memory → Bool × Memory) (page : PageId) (before after : List PageId)
      (between later : Memory) (place : line = before ++ page :: after)
      (passed : Stay mayGo before memory between) (last : mayGo page between = (true, later)) :
      Moves line memory (.evict mayGo) (before ++ after) (some page) later
  | spared (mayGo : PageId → Memory → Bool × Memory) (later : Memory)
      (passed : Stay mayGo line memory later) : Moves line memory (.evict mayGo) line none later

/-- One call on a line. The pages that are in it before and after stand in the same order. -/
structure Takes (line : List PageId) (memory : Memory) (call : Call Memory) (next : List PageId)
    (answer : Option PageId × Nat) (later : Memory) : Prop where
  moves : Moves line memory call next answer.1 later
  size : answer.2 = next.length
  once : next.Nodup
  kept : next.filter (· ∈ line) = line.filter (· ∈ next)

inductive TakesAll : List PageId → Memory → List (Call Memory) → List PageId →
    List (Option PageId × Nat) → Memory → Prop
  | nil (line : List PageId) (memory : Memory) : TakesAll line memory [] line [] memory
  | cons {line next last : List PageId} {memory between later : Memory} {call : Call Memory}
      {calls : List (Call Memory)} {answer : Option PageId × Nat}
      {answers : List (Option PageId × Nat)} (first : Takes line memory call next answer between)
      (rest : TakesAll next between calls last answers later) :
      TakesAll line memory (call :: calls) last (answer :: answers) later

theorem search_victim (tracked : PageSet) (evictable : PageId → Bool) (queue asked : List PageId) :
    (search tracked (recording evictable) queue asked).1 =
      queue.find? fun page => tracked.contains page && evictable page := by
  induction queue generalizing asked with
  | nil => rfl
  | cons page queue ih =>
    rw [search, List.find?_cons, recording]
    cases tracked.contains page with
    | false => exact ih asked
    | true =>
      cases evictable page with
      | false => exact ih (page :: asked)
      | true => rfl

theorem evict_victim (order : LoadOrder) (evictable : PageId → Bool) :
    (order.evict evictable).2.victim =
      order.queue.find? fun page => order.tracked.contains page && evictable page := by
  rw [← search_victim _ _ _ [], evict, evictAsking]
  rcases search order.tracked (recording evictable) order.queue [] with ⟨_ | page, asked⟩ <;> rfl

theorem evictable_of_victim {evictable : PageId → Bool}
    (h : (order.evict evictable).2.victim = some page) : evictable page = true := by
  rw [evict_victim] at h
  have both := List.find?_some h
  exact (Bool.and_eq_true_iff.mp both).2

theorem evict_order {evictable : PageId → Bool}
    (h : (order.evict evictable).2.victim = some page) :
    (order.evict evictable).1 = ⟨order.queue.erase page, order.tracked.erase page⟩ := by
  rw [evict, evictAsking] at h ⊢
  rcases searched : search order.tracked (recording evictable) order.queue [] with ⟨_ | victim, asked⟩
  · rw [searched] at h
    cases h
  · rw [searched] at h
    obtain rfl : victim = page := Option.some.inj h
    rfl

theorem listed_empty : empty.Listed := ⟨List.nodup_nil, fun page => by simp [empty]⟩

theorem nodup_toList (pages : PageSet) : pages.toList.Nodup :=
  Std.ExtTreeSet.distinct_toList.imp fun {_ _} apart same =>
    apart (Std.LawfulEqOrd.compare_eq_iff_eq.mpr same)

theorem Listed.size_eq (listed : order.Listed) : order.size = order.queue.length := by
  have same := (List.perm_ext_iff_of_nodup (nodup_toList order.tracked) listed.once).mpr fun page => by
    rw [Std.ExtTreeSet.mem_toList, listed.members]
  rw [size, ← Std.ExtTreeSet.length_toList, same.length_eq]

theorem Listed.contains_iff (listed : order.Listed) :
    order.tracked.contains page = true ↔ page ∈ order.queue := by
  rw [Std.ExtTreeSet.contains_iff_mem, listed.members]

theorem Listed.append (listed : order.Listed) (new : page ∉ order.queue) :
    Listed ⟨order.queue ++ [page], order.tracked.insert page⟩ where
  once := by
    refine List.pairwise_append.mpr ⟨listed.once, List.pairwise_singleton _ _,
      fun other queued last member same => ?_⟩
    obtain rfl := List.mem_singleton.mp member
    exact new (same ▸ queued)
  members other := by
    rw [Std.ExtTreeSet.mem_insert, Std.LawfulEqOrd.compare_eq_iff_eq, listed.members,
      List.mem_append, List.mem_singleton, or_comm, eq_comm]

theorem Listed.erase (listed : order.Listed) (page : PageId) :
    Listed ⟨order.queue.erase page, order.tracked.erase page⟩ where
  once := listed.once.erase page
  members other := by
    show other ∈ order.tracked.erase page ↔ other ∈ order.queue.erase page
    rw [Std.ExtTreeSet.mem_erase, ne_eq, Std.LawfulEqOrd.compare_eq_iff_eq, listed.members,
      listed.once.mem_erase_iff, eq_comm]

theorem Listed.erase_place {before after : List PageId} (listed : order.Listed)
    (place : order.queue = before ++ page :: after) :
    order.queue.erase page = before ++ after := by
  obtain ⟨_, _, apart⟩ := List.nodup_append.mp (place ▸ listed.once)
  have elsewhere : page ∉ before := fun member => apart page member page List.mem_cons_self rfl
  rw [place, List.erase_append_right _ elsewhere, List.erase_cons_head]

theorem sublist_of_place {before after : List PageId} (place : line = before ++ page :: after) :
    (before ++ after).Sublist line :=
  place ▸ (List.sublist_cons_self page after).append_left before

theorem search_cases {tracked : PageSet} {queue : List PageId}
    (known : ∀ page ∈ queue, tracked.contains page = true)
    (mayGo : PageId → Memory → Bool × Memory) (memory : Memory) :
    (∃ later, Stay mayGo queue memory later ∧
      search tracked mayGo queue memory = (none, later)) ∨
    ∃ before page after between later, queue = before ++ page :: after ∧
      Stay mayGo before memory between ∧ mayGo page between = (true, later) ∧
        search tracked mayGo queue memory = (some page, later) := by
  induction queue generalizing memory with
  | nil => exact .inl ⟨memory, .nil memory, rfl⟩
  | cons page queue ih =>
    have here := known page List.mem_cons_self
    have behind := fun other member => known other (List.mem_cons_of_mem page member)
    rw [search, if_pos here]
    cases asked : mayGo page memory with
    | mk answer between =>
      cases answer with
      | true => exact .inr ⟨[], page, queue, memory, between, rfl, .nil memory, asked, rfl⟩
      | false =>
        rcases ih behind between with ⟨later, stay, searched⟩ | found
        · exact .inl ⟨later, .cons asked stay, searched⟩
        · obtain ⟨before, victim, after, last, later, rfl, stay, goes, searched⟩ := found
          exact .inr ⟨page :: before, victim, after, last, later, rfl, .cons asked stay, goes, searched⟩

theorem Listed.recordLoad (listed : order.Listed) (page : PageId) :
    (order.recordLoad page).Listed ∧
      Moves order.queue memory (.load page) (order.recordLoad page).queue none memory := by
  by_cases present : page ∈ order.queue
  · rw [LoadOrder.recordLoad, if_pos (listed.contains_iff.mpr present)]
    exact ⟨listed, .known page present⟩
  · rw [LoadOrder.recordLoad, if_neg fun tracked => present (listed.contains_iff.mp tracked)]
    exact ⟨listed.append present, .joins page present⟩

theorem Listed.remove_eq (listed : order.Listed) (present : page ∈ order.queue) :
    order.remove page = ⟨order.queue.erase page, order.tracked.erase page⟩ := by
  rw [LoadOrder.remove, if_pos (listed.contains_iff.mpr present), listed.once.erase_eq_filter]
  congr 1
  exact List.filter_congr fun other _ => by simp [bne, BEq.beq]

theorem Listed.remove (listed : order.Listed) (page : PageId) :
    (order.remove page).Listed ∧
      Moves order.queue memory (.remove page) (order.remove page).queue none memory := by
  by_cases present : page ∈ order.queue
  · obtain ⟨before, after, place⟩ := List.append_of_mem present
    rw [listed.remove_eq present]
    exact ⟨listed.erase page, listed.erase_place place ▸ .leaves page before after place⟩
  · rw [LoadOrder.remove, if_neg fun tracked => present (listed.contains_iff.mp tracked)]
    exact ⟨listed, .unknown page present⟩

theorem Listed.evictAsking (listed : order.Listed) (mayGo : PageId → Memory → Bool × Memory)
    (memory : Memory) :
    let (later, victim, memory') := order.evictAsking mayGo memory
    later.Listed ∧ Moves order.queue memory (.evict mayGo) later.queue victim memory' := by
  have known : ∀ page ∈ order.queue, order.tracked.contains page = true :=
    fun _ member => listed.contains_iff.mpr member
  rcases search_cases known mayGo memory with ⟨later, stay, searched⟩ | found
  · simp only [LoadOrder.evictAsking, searched]
    exact ⟨listed, .spared mayGo later stay⟩
  · obtain ⟨before, page, after, between, later, place, passed, goes, searched⟩ := found
    simp only [LoadOrder.evictAsking, searched]
    exact ⟨listed.erase page, listed.erase_place place ▸
      .goes mayGo page before after between later place passed goes⟩

theorem Listed.perform (listed : order.Listed) (memory : Memory) (call : Call Memory) :
    let (later, victim, memory') := order.perform memory call
    later.Listed ∧ Moves order.queue memory call later.queue victim memory' := by
  cases call with
  | load page => exact listed.recordLoad page
  | remove page => exact listed.remove page
  | evict mayGo => exact listed.evictAsking mayGo memory

theorem filter_mem_part (part : next.Sublist line) (once : line.Nodup) :
    line.filter (· ∈ next) = next := by
  induction part with
  | slnil => rfl
  | @cons next line page part ih =>
    obtain ⟨new, once⟩ := List.nodup_cons.mp once
    have gone : page ∉ next := fun member => new (part.subset member)
    rw [List.filter_cons_of_neg (by simpa using gone), ih once]
  | @cons_cons next line page part ih =>
    obtain ⟨new, once⟩ := List.nodup_cons.mp once
    have behind : ∀ other ∈ line, decide (other ∈ page :: next) = decide (other ∈ next) := by
      intro other member
      have apart : other ≠ page := fun same => new (same ▸ member)
      simp [apart]
    rw [List.filter_cons_of_pos (by simp), List.filter_congr behind, ih once]

theorem kept_of_sublist (part : next.Sublist line) (once : line.Nodup) :
    next.filter (· ∈ line) = line.filter (· ∈ next) := by
  rw [filter_mem_part part once, List.filter_eq_self]
  exact fun page member => decide_eq_true (part.subset member)

theorem Moves.kept {call : Call Memory} {victim : Option PageId}
    (moves : Moves line memory call next victim later) (once : line.Nodup) (once' : next.Nodup) :
    next.filter (· ∈ line) = line.filter (· ∈ next) := by
  cases moves with
  | joins page new => exact (kept_of_sublist (List.sublist_append_left line [page]) once').symm
  | known page present => rfl
  | leaves page before after place => exact kept_of_sublist (sublist_of_place place) once
  | unknown page absent => rfl
  | goes mayGo page before after between later place passed last =>
    exact kept_of_sublist (sublist_of_place place) once
  | spared mayGo later passed => rfl

theorem Listed.takes (listed : order.Listed) (memory : Memory) (call : Call Memory) :
    let (later, victim, memory') := order.perform memory call
    later.Listed ∧ Takes order.queue memory call later.queue (victim, later.size) memory' := by
  obtain ⟨kept, moves⟩ := listed.perform memory call
  exact ⟨kept, moves, kept.size_eq, kept.once, moves.kept listed.once kept.once⟩

theorem Listed.run (listed : order.Listed) (memory : Memory) (calls : List (Call Memory)) :
    let (last, answers, memory') := order.run memory calls
    last.Listed ∧ TakesAll order.queue memory calls last.queue answers memory' := by
  induction calls generalizing order memory with
  | nil => exact ⟨listed, .nil order.queue memory⟩
  | cons call calls ih =>
    obtain ⟨kept, takes⟩ := listed.takes memory call
    obtain ⟨last, rest⟩ := ih kept (order.perform memory call).2.2
    exact ⟨last, .cons takes rest⟩

/-- After any calls, a load order has done what a line of pages does that is empty at first. -/
theorem follows_line (memory : Memory) (calls : List (Call Memory)) :
    let (last, answers, memory') := empty.run memory calls
    last.Listed ∧ TakesAll [] memory calls last.queue answers memory' :=
  listed_empty.run memory calls

/-- The second page asked about may go. It is page 1 at first, and then page 2: page 1 came back
behind it. -/
example :
    let page : UInt32 → PageId := fun number => ⟨⟨0⟩, number⟩
    let second : PageId → Nat → Bool × Nat := fun _ asked => (asked % 2 = 1, asked + 1)
    (empty.run 0 [.load (page 0), .load (page 1), .load (page 2), .evict second, .load (page 1),
      .evict second]).2 =
        ([(none, 1), (none, 2), (none, 3), (some (page 1), 2), (none, 3), (some (page 2), 2)], 4) := by
  decide +kernel

end PagedTables.LoadOrder

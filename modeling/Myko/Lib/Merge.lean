import Mathlib.Algebra.BigOperators.Group.List.Basic
import Mathlib.Algebra.GroupWithZero.Nat
import Mathlib.Data.List.Sort
import Mathlib.Data.Prod.Lex

/-!
Merging ascending lists through a queue of their next elements. Whoever visits the merged elements sees every
element of the lists once, in order.
-/

variable {α σ : Type} [LinearOrder α]

/-- What is left of each list, the next element of each that has one, least first, and the last element visited. -/
structure Merge (α : Type) where
  iterators : List (List α)
  pending : List (α × Nat)
  previous : Option α

namespace Merge

def push (pending : List (α × Nat)) (entry : α × Nat) : List (α × Nat) :=
  pending.orderedInsert (fun a b => toLex a ≤ toLex b) entry

def start (buckets : List (List α)) : Merge α where
  iterators := buckets.map List.tail
  pending := (buckets.zipIdx.filterMap fun entry => entry.1.head?.map fun first => (first, entry.2)).foldl push []
  previous := none

/-- Visit what is left, for at most `fuel` elements taken from the queue; nothing when that is not enough. -/
def run (visit : σ → α → σ) : Nat → Merge α → σ → Option σ
  | fuel, merge, acc =>
    match merge.pending, fuel with
    | [], _ => some acc
    | _ :: _, 0 => none
    | (id, index) :: rest, fuel + 1 =>
      let acc := if merge.previous = some id then acc else visit acc id
      match merge.iterators[index]? with
      | some (next :: later) =>
        run visit fuel ⟨merge.iterators.set index later, push rest (next, index), some id⟩ acc
      | _ => run visit fuel ⟨merge.iterators, rest, some id⟩ acc

/-- The queue is in order and has an entry for each list with something left, below all that is left of it. -/
structure Ready (merge : Merge α) : Prop where
  ordered : merge.pending.Pairwise fun a b => toLex a ≤ toLex b
  ascending : ∀ list ∈ merge.iterators, list.Pairwise (· < ·)
  waiting : ∀ index list, merge.iterators[index]? = some list → list ≠ [] →
    ∃ first, (first, index) ∈ merge.pending ∧ ∀ y ∈ list, first < y
  beyond : ∀ previous, merge.previous = some previous → ∀ entry ∈ merge.pending, previous ≤ entry.1

/-- The element is still to come. -/
def Left (merge : Merge α) (y : α) : Prop := y ∈ merge.pending.map Prod.fst ∨ ∃ list ∈ merge.iterators, y ∈ list

theorem mem_push {pending : List (α × Nat)} {entry other : α × Nat} :
    other ∈ push pending entry ↔ other = entry ∨ other ∈ pending := List.mem_orderedInsert _

theorem length_push (pending : List (α × Nat)) (entry : α × Nat) : (push pending entry).length = pending.length + 1 :=
  List.orderedInsert_length _ _ _

theorem ordered_push {pending : List (α × Nat)} (ordered : pending.Pairwise fun a b => toLex a ≤ toLex b)
    (entry : α × Nat) : (push pending entry).Pairwise fun a b => toLex a ≤ toLex b := by
  induction pending with
  | nil => exact List.pairwise_singleton _ _
  | cons first rest ih =>
    obtain ⟨least, ordered⟩ := List.pairwise_cons.mp ordered
    unfold push
    rw [List.orderedInsert_cons]
    split
    · rename_i below
      refine List.pairwise_cons.mpr ⟨fun other among => ?_, List.pairwise_cons.mpr ⟨least, ordered⟩⟩
      rcases List.mem_cons.mp among with rfl | among
      · exact below
      · exact le_trans below (least other among)
    · rename_i above
      refine List.pairwise_cons.mpr ⟨fun other among => ?_, ih ordered⟩
      rcases mem_push.mp among with rfl | among
      · exact le_of_not_ge above
      · exact least other among

theorem fst_le {a b : α × Nat} (le : toLex a ≤ toLex b) : a.1 ≤ b.1 := by
  rcases Prod.Lex.toLex_le_toLex.mp le with less | ⟨same, -⟩
  · exact le_of_lt less
  · exact le_of_eq same

omit [LinearOrder α] in
theorem length_set {iterators : List (List α)} {index : Nat} {next : α} {later : List α}
    (here : iterators[index]? = some (next :: later)) :
    ((iterators.set index later).map List.length).sum + 1 = (iterators.map List.length).sum := by
  induction iterators generalizing index with
  | nil => cases here
  | cons list rest ih =>
    cases index with
    | zero =>
      cases here
      simp only [List.set_cons_zero, List.map_cons, List.sum_cons, List.length_cons]
      omega
    | succ index =>
      have shorter := @ih index here
      simp only [List.set_cons_succ, List.map_cons, List.sum_cons]
      omega

section
variable {iterators : List (List α)} {id next : α} {index : Nat} {rest : List (α × Nat)} {previous : Option α}
  {later : List α}

theorem Ready.least (ready : Ready ⟨iterators, (id, index) :: rest, previous⟩) {entry : α × Nat}
    (among : entry ∈ (id, index) :: rest) : id ≤ entry.1 := by
  rcases List.mem_cons.mp among with rfl | among
  · exact le_refl _
  · exact fst_le ((List.pairwise_cons.mp ready.ordered).1 entry among)

/-- The queue moves on to the next element of the list it has just taken one of. -/
theorem Ready.advance (ready : Ready ⟨iterators, (id, index) :: rest, previous⟩)
    (here : iterators[index]? = some (next :: later)) :
    Ready ⟨iterators.set index later, push rest (next, index), some id⟩ := by
  obtain ⟨first, stands, above⟩ := ready.waiting index _ here (List.cons_ne_nil _ _)
  have ascending := List.pairwise_cons.mp (ready.ascending _ (List.mem_of_getElem? here))
  constructor
  case ordered => exact ordered_push (List.pairwise_cons.mp ready.ordered).2 _
  case ascending =>
    intro list among
    rcases List.mem_or_eq_of_mem_set among with old | rfl
    · exact ready.ascending list old
    · exact ascending.2
  case waiting =>
    intro other list found left
    by_cases same : index = other
    · subst same
      rw [List.getElem?_set_self (List.getElem?_eq_some_iff.mp here).1] at found
      cases found
      exact ⟨next, mem_push.mpr (.inl rfl), ascending.1⟩
    · dsimp only at found
      rw [List.getElem?_set_ne same] at found
      obtain ⟨first, stands, above⟩ := ready.waiting other list found left
      rcases List.mem_cons.mp stands with taken | stands
      · cases taken
        exact absurd rfl same
      · exact ⟨first, mem_push.mpr (.inr stands), above⟩
  case beyond =>
    rintro _ ⟨⟩ entry among
    rcases mem_push.mp among with rfl | among
    · exact (ready.least stands).trans (le_of_lt (above next List.mem_cons_self))
    · exact ready.least (List.mem_cons_of_mem _ among)

/-- The list that an element was taken of has nothing left. -/
theorem Ready.drained (ready : Ready ⟨iterators, (id, index) :: rest, previous⟩)
    (none : ∀ next later, iterators[index]? ≠ some (next :: later)) : Ready ⟨iterators, rest, some id⟩ := by
  constructor
  case ordered => exact (List.pairwise_cons.mp ready.ordered).2
  case ascending => exact ready.ascending
  case waiting =>
    intro other list found left
    obtain ⟨first, stands, above⟩ := ready.waiting other list found left
    rcases List.mem_cons.mp stands with taken | stands
    · cases taken
      cases list with
      | nil => exact absurd rfl left
      | cons next later => exact absurd found (none next later)
    · exact ⟨first, stands, above⟩
  case beyond =>
    rintro _ ⟨⟩ entry among
    exact ready.least (List.mem_cons_of_mem _ among)

theorem left_next (here : iterators[index]? = some (next :: later)) (other : Option α) (y : α) :
    Left ⟨iterators, (id, index) :: rest, previous⟩ y ↔
      y = id ∨ Left ⟨iterators.set index later, push rest (next, index), other⟩ y := by
  have inside := (List.getElem?_eq_some_iff.mp here).1
  unfold Left
  simp only [List.mem_map, List.mem_cons, mem_push]
  constructor
  · rintro (⟨entry, rfl | among, rfl⟩ | ⟨list, among, within⟩)
    · exact .inl rfl
    · exact .inr (.inl ⟨entry, .inr among, rfl⟩)
    · obtain ⟨place, found⟩ := List.getElem?_of_mem among
      by_cases same : index = place
      · subst same
        cases here.symm.trans found
        rcases List.mem_cons.mp within with rfl | within
        · exact .inr (.inl ⟨(y, index), .inl rfl, rfl⟩)
        · exact .inr (.inr ⟨later, List.mem_set inside later, within⟩)
      · refine .inr (.inr ⟨list, List.mem_of_getElem? (i := place) ?_, within⟩)
        rw [List.getElem?_set_ne same, found]
  · rintro (rfl | ⟨entry, rfl | among, rfl⟩ | ⟨list, among, within⟩)
    · exact .inl ⟨_, .inl rfl, rfl⟩
    · exact .inr ⟨_, List.mem_of_getElem? here, List.mem_cons_self⟩
    · exact .inl ⟨entry, .inr among, rfl⟩
    · rcases List.mem_or_eq_of_mem_set among with old | rfl
      · exact .inr ⟨list, old, within⟩
      · exact .inr ⟨_, List.mem_of_getElem? here, List.mem_cons_of_mem _ within⟩

omit [LinearOrder α] in
theorem left_drained (other : Option α) (y : α) :
    Left ⟨iterators, (id, index) :: rest, previous⟩ y ↔ y = id ∨ Left ⟨iterators, rest, other⟩ y := by
  unfold Left
  rw [List.map_cons, List.mem_cons, or_assoc]

end

/-- What is still to come lies beyond the last element visited. -/
theorem Ready.le_left {merge : Merge α} (ready : merge.Ready) {id y : α} (previous : merge.previous = some id)
    (left : merge.Left y) : id ≤ y := by
  rcases left with among | ⟨list, among, within⟩
  · obtain ⟨entry, stands, rfl⟩ := List.mem_map.mp among
    exact ready.beyond id previous entry stands
  · obtain ⟨place, found⟩ := List.getElem?_of_mem among
    obtain ⟨first, stands, above⟩ := ready.waiting place list found (List.ne_nil_of_mem within)
    exact (ready.beyond id previous _ stands).trans (le_of_lt (above y within))

/-- The elements visited after one has been taken, with that one or without it. -/
theorem visits_cons {merge after : Merge α} {id : α} {list : List α} (ready : after.Ready)
    (taken : after.previous = some id) (beyond : ∀ previous, merge.previous = some previous → previous ≤ id)
    (left : ∀ y, merge.Left y ↔ y = id ∨ after.Left y) (ascending : list.Pairwise (· < ·))
    (members : ∀ y, y ∈ list ↔ after.Left y ∧ after.previous ≠ some y) :
    let visited := if merge.previous = some id then list else id :: list
    visited.Pairwise (· < ·) ∧ ∀ y, y ∈ visited ↔ merge.Left y ∧ merge.previous ≠ some y := by
  intro visited
  have later : ∀ y ∈ list, id < y := by
    intro y among
    obtain ⟨left, other⟩ := (members y).mp among
    refine lt_of_le_of_ne (ready.le_left taken left) ?_
    rintro rfl
    exact other taken
  by_cases again : merge.previous = some id
  · have same : visited = list := if_pos again
    rw [same]
    refine ⟨ascending, fun y => ?_⟩
    rw [members, left, taken, again]
    constructor
    · rintro ⟨left, other⟩
      exact ⟨.inr left, other⟩
    · rintro ⟨rfl | left, other⟩
      · exact absurd rfl other
      · exact ⟨left, other⟩
  · have same : visited = id :: list := if_neg again
    rw [same]
    refine ⟨List.pairwise_cons.mpr ⟨later, ascending⟩, fun y => ?_⟩
    rw [List.mem_cons, left]
    constructor
    · rintro (rfl | among)
      · exact ⟨.inl rfl, again⟩
      · refine ⟨.inr ((members y).mp among).1, fun before => ?_⟩
        exact absurd (beyond y before) (not_le.mpr (later y among))
    · rintro ⟨rfl | left, -⟩
      · exact .inl rfl
      · by_cases first : y = id
        · exact .inl first
        · refine .inr ((members y).mpr ⟨left, fun same => first ?_⟩)
          rw [taken] at same
          exact (Option.some.inj same).symm

/-- Nothing is left once the queue is empty. -/
theorem Ready.not_left {iterators : List (List α)} {previous : Option α} (ready : Ready ⟨iterators, [], previous⟩)
    (y : α) : ¬Left ⟨iterators, [], previous⟩ y := by
  rintro (among | ⟨list, among, within⟩)
  · cases among
  · obtain ⟨place, found⟩ := List.getElem?_of_mem among
    obtain ⟨first, stands, -⟩ := ready.waiting place list found (List.ne_nil_of_mem within)
    cases stands

/-- The visits are those of the elements still to come, each once and in order, without the last one visited. -/
theorem run_spec {fuel : Nat} {merge : Merge α} (ready : merge.Ready)
    (enough : merge.pending.length + (merge.iterators.map List.length).sum ≤ fuel) :
    ∃ list : List α, list.Pairwise (· < ·) ∧ (∀ y, y ∈ list ↔ merge.Left y ∧ merge.previous ≠ some y) ∧
      ∀ (visit : σ → α → σ) (acc : σ), run visit fuel merge acc = some (list.foldl visit acc) := by
  induction fuel generalizing merge with
  | zero =>
    obtain ⟨iterators, pending, previous⟩ := merge
    cases pending with
    | nil =>
      refine ⟨[], List.Pairwise.nil, fun y => ?_, fun visit acc => by unfold run; rfl⟩
      exact ⟨fun none => (by cases none), fun left => absurd left.1 (ready.not_left y)⟩
    | cons entry rest =>
      rw [List.length_cons] at enough
      omega
  | succ fuel ih =>
    obtain ⟨iterators, pending, previous⟩ := merge
    cases pending with
    | nil =>
      refine ⟨[], List.Pairwise.nil, fun y => ?_, fun visit acc => by unfold run; rfl⟩
      exact ⟨fun none => (by cases none), fun left => absurd left.1 (ready.not_left y)⟩
    | cons entry rest =>
      obtain ⟨id, index⟩ := entry
      rw [List.length_cons] at enough
      have beyond : ∀ before, previous = some before → before ≤ id := fun before same =>
        ready.beyond before same _ List.mem_cons_self
      have visited : ∀ (visit : σ → α → σ) (acc : σ) (list : List α),
          (if previous = some id then list else id :: list).foldl visit acc =
            list.foldl visit (if previous = some id then acc else visit acc id) := by
        intro visit acc list
        split <;> rfl
      by_cases more : ∃ next later, iterators[index]? = some (next :: later)
      · obtain ⟨next, later, here⟩ := more
        have shorter := length_set here
        obtain ⟨list, ascending, members, runs⟩ := ih (ready.advance here) (by
          dsimp only
          rw [length_push]
          dsimp only at enough
          omega)
        obtain ⟨ascending, members⟩ := visits_cons (ready.advance here) rfl beyond (left_next here (some id))
          ascending members
        refine ⟨_, ascending, members, fun visit acc => ?_⟩
        unfold run
        dsimp only
        rw [here]
        dsimp only
        rw [runs, visited]
      · have none : ∀ next later, iterators[index]? ≠ some (next :: later) := fun next later here =>
          more ⟨next, later, here⟩
        obtain ⟨list, ascending, members, runs⟩ := ih (ready.drained none) (by
          dsimp only at enough ⊢
          omega)
        obtain ⟨ascending, members⟩ := visits_cons (ready.drained none) rfl beyond (left_drained (some id))
          ascending members
        refine ⟨_, ascending, members, fun visit acc => ?_⟩
        unfold run
        dsimp only
        split
        · rename_i next later here
          exact absurd here (none next later)
        · rw [runs, visited]

theorem mem_pushed {entries pending : List (α × Nat)} {entry : α × Nat} :
    entry ∈ entries.foldl push pending ↔ entry ∈ entries ∨ entry ∈ pending := by
  induction entries generalizing pending with
  | nil => simp
  | cons first entries ih =>
    rw [List.foldl_cons, ih, mem_push, List.mem_cons, or_left_comm, or_assoc]

theorem ordered_pushed (entries : List (α × Nat)) {pending : List (α × Nat)}
    (ordered : pending.Pairwise fun a b => toLex a ≤ toLex b) :
    (entries.foldl push pending).Pairwise fun a b => toLex a ≤ toLex b := by
  induction entries generalizing pending with
  | nil => exact ordered
  | cons first entries ih => exact ih (ordered_push ordered first)

theorem length_pushed (entries pending : List (α × Nat)) :
    (entries.foldl push pending).length = entries.length + pending.length := by
  induction entries generalizing pending with
  | nil => simp
  | cons first entries ih =>
    rw [List.foldl_cons, ih, length_push, List.length_cons]
    omega

theorem mem_pending_start {buckets : List (List α)} {first : α} {index : Nat} :
    (first, index) ∈ (start buckets).pending ↔ ∃ later, buckets[index]? = some (first :: later) := by
  unfold start
  dsimp only
  rw [mem_pushed, List.mem_filterMap]
  constructor
  · rintro (⟨⟨bucket, place⟩, listed, head⟩ | none)
    · obtain ⟨other, begins, same⟩ := Option.map_eq_some_iff.mp head
      cases same
      obtain ⟨later, rfl⟩ := List.head?_eq_some_iff.mp begins
      exact ⟨later, List.mem_zipIdx_iff_getElem?.mp listed⟩
    · cases none
  · rintro ⟨later, found⟩
    exact .inl ⟨(first :: later, index), List.mem_zipIdx_iff_getElem?.mpr found, rfl⟩

/-- At the start every list waits with its first element. -/
theorem ready_start {buckets : List (List α)} (ascending : ∀ bucket ∈ buckets, bucket.Pairwise (· < ·)) :
    (start buckets).Ready := by
  constructor
  case ordered => exact ordered_pushed _ List.Pairwise.nil
  case ascending =>
    intro list among
    obtain ⟨bucket, listed, rfl⟩ := List.mem_map.mp among
    exact (ascending bucket listed).sublist (List.tail_sublist bucket)
  case waiting =>
    intro index list found left
    unfold start at found
    rw [List.getElem?_map] at found
    obtain ⟨bucket, listed, rfl⟩ := Option.map_eq_some_iff.mp found
    cases bucket with
    | nil => exact absurd rfl left
    | cons first later =>
      exact ⟨first, mem_pending_start.mpr ⟨later, listed⟩,
        (List.pairwise_cons.mp (ascending _ (List.mem_of_getElem? listed))).1⟩
  case beyond =>
    intro previous none
    cases none

theorem left_start {buckets : List (List α)} {y : α} : (start buckets).Left y ↔ ∃ bucket ∈ buckets, y ∈ bucket := by
  constructor
  · rintro (among | ⟨list, among, within⟩)
    · obtain ⟨⟨first, index⟩, stands, rfl⟩ := List.mem_map.mp among
      obtain ⟨later, found⟩ := mem_pending_start.mp stands
      exact ⟨_, List.mem_of_getElem? found, List.mem_cons_self⟩
    · obtain ⟨bucket, listed, rfl⟩ := List.mem_map.mp among
      exact ⟨bucket, listed, List.mem_of_mem_tail within⟩
  · rintro ⟨bucket, among, within⟩
    cases bucket with
    | nil => cases within
    | cons first later =>
      rcases List.mem_cons.mp within with rfl | within
      · obtain ⟨index, found⟩ := List.getElem?_of_mem among
        exact .inl (List.mem_map.mpr ⟨(y, index), mem_pending_start.mpr ⟨later, found⟩, rfl⟩)
      · exact .inr ⟨later, List.mem_map.mpr ⟨_, among, rfl⟩, within⟩

/-- A merge takes as many turns as the lists have elements. -/
theorem turns_start (buckets : List (List α)) :
    (start buckets).pending.length + ((start buckets).iterators.map List.length).sum =
      (buckets.map List.length).sum := by
  have heads : (buckets.zipIdx.filterMap fun entry => entry.1.head?.map fun first => (first, entry.2)).length +
      ((buckets.map List.tail).map List.length).sum = (buckets.map List.length).sum := by
    generalize 0 = offset
    induction buckets generalizing offset with
    | nil => rfl
    | cons bucket buckets ih =>
      have later := ih (offset + 1)
      rw [List.zipIdx_cons, List.filterMap_cons]
      cases bucket with
      | nil => simpa using later
      | cons first rest =>
        simp only [List.head?_cons, Option.map_some, List.length_cons, List.map_cons, List.tail_cons, List.sum_cons]
        omega
  unfold start
  dsimp only
  rw [length_pushed, List.length_nil]
  exact heads

/-- A merge visits every element of the lists once, in order. -/
theorem run_start {buckets : List (List α)} (ascending : ∀ bucket ∈ buckets, bucket.Pairwise (· < ·)) :
    ∃ list : List α, list.Pairwise (· < ·) ∧ (∀ y, y ∈ list ↔ ∃ bucket ∈ buckets, y ∈ bucket) ∧
      ∀ (visit : σ → α → σ) (acc : σ),
        run visit (buckets.map List.length).sum (start buckets) acc = some (list.foldl visit acc) := by
  obtain ⟨list, ordered, members, runs⟩ := run_spec (σ := σ) (ready_start ascending) (turns_start buckets).le
  refine ⟨list, ordered, fun y => ?_, runs⟩
  rw [members, left_start]
  exact and_iff_left (fun none => by cases none)

end Merge

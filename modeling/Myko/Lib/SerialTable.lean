import Mathlib.Logic.Function.Basic
import Myko.Lib.KeyedLog
import Myko.Lib.MapDiff

/-!
Tables whose rows take the next serial id when they are inserted and are seen once the transaction
that inserted them commits, and readers that page through them in id order.
-/

/-- The rows that are seen, by id. -/
abbrev SerialRows (E : Type) := OrdMap Nat E

namespace SerialRows

variable {E : Type}

/-- The greatest id, or zero when there is no row. -/
def maxId (rows : SerialRows E) : Nat := rows.toList.foldl (fun most row => max most row.1) 0

/-- The rows above `low` up to `high`, in id order. -/
def between (rows : SerialRows E) (low high : Nat) : List (Nat × E) :=
  rows.toList.filter fun row => low < row.1 ∧ row.1 ≤ high

def upto (rows : SerialRows E) (bound : Nat) : SerialRows E := rows.filter fun id _ => id ≤ bound

/-- The first rows above the cursor, at most `limit` of them. -/
def page (rows : SerialRows E) (cursor limit : Nat) : List (Nat × E) :=
  (rows.toList.filter fun row => cursor < row.1).take limit

/-- Where a cursor stands once a page has been read. -/
def frontier (cursor : Nat) (page : List (Nat × E)) : Nat :=
  (page.getLast?.map Prod.fst).getD cursor

theorem sorted (rows : SerialRows E) : rows.toList.Pairwise fun a b => a.1 < b.1 := by
  have ordered : rows.toList.Pairwise fun a b => compare a.1 b.1 = .lt :=
    Std.ExtTreeMap.ordered_keys_toList
  exact ordered.imp fun less => Nat.compare_eq_lt.mp less

theorem mem_toList {rows : SerialRows E} {row : Nat × E} :
    row ∈ rows.toList ↔ rows[row.1]? = some row.2 := OrdMap.mem_toList

/-- Two lists in id order with the same rows are the same list. -/
theorem eq_of_rows {xs ys : List (Nat × E)} (hx : xs.Pairwise fun a b => a.1 < b.1)
    (hy : ys.Pairwise fun a b => a.1 < b.1) (same : ∀ row, row ∈ xs ↔ row ∈ ys) : xs = ys := by
  have irrefl : Std.Irrefl fun a b : Nat × E => a.1 < b.1 := ⟨fun a => Nat.lt_irrefl a.1⟩
  have asymm : Std.Antisymm fun a b : Nat × E => a.1 < b.1 :=
    ⟨fun a b hab hba => absurd hab (Nat.lt_asymm hba)⟩
  exact hx.eq_of_mem_iff hy fun {row} => same row

theorem mem_between {rows : SerialRows E} {low high : Nat} {row : Nat × E} :
    row ∈ rows.between low high ↔ rows[row.1]? = some row.2 ∧ low < row.1 ∧ row.1 ≤ high := by
  simp [between, mem_toList]

theorem sorted_between (rows : SerialRows E) (low high : Nat) :
    (rows.between low high).Pairwise fun a b => a.1 < b.1 := rows.sorted.filter _

theorem get_upto (rows : SerialRows E) (bound id : Nat) :
    (rows.upto bound)[id]? = if id ≤ bound then rows[id]? else none := by
  have same : ∀ e, (rows.upto bound)[id]? = some e ↔ id ≤ bound ∧ rows[id]? = some e := by
    intro e
    rw [← OrdMap.mem_toList, upto, Std.ExtTreeMap.toList_filter, List.mem_filter, OrdMap.mem_toList]
    simp [and_comm]
  by_cases within : id ≤ bound
  · rw [if_pos within]
    exact Option.ext fun e => (same e).trans (and_iff_right within)
  · rw [if_neg within]
    exact Option.eq_none_iff_forall_not_mem.mpr fun e h => within ((same e).mp h).1

theorem le_maxId {rows : SerialRows E} {id : Nat} {e : E} (h : rows[id]? = some e) :
    id ≤ rows.maxId := by
  have grows : ∀ (xs : List (Nat × E)) (most : Nat),
      most ≤ xs.foldl (fun most row => max most row.1) most ∧
        ∀ row ∈ xs, row.1 ≤ xs.foldl (fun most row => max most row.1) most := by
    intro xs
    induction xs with
    | nil => intro most; simp
    | cons row rest ih =>
      intro most
      obtain ⟨start, later⟩ := ih (max most row.1)
      rw [List.foldl_cons]
      refine ⟨by omega, fun other member => ?_⟩
      rcases List.mem_cons.mp member with rfl | member
      · omega
      · exact later other member
  exact (grows rows.toList 0).2 (id, e) (OrdMap.mem_toList.mpr h)

theorem maxId_le {rows : SerialRows E} {bound : Nat} (h : ∀ id e, rows[id]? = some e → id ≤ bound) :
    rows.maxId ≤ bound := by
  have least : ∀ (xs : List (Nat × E)) (most : Nat), most ≤ bound → (∀ row ∈ xs, row.1 ≤ bound) →
      xs.foldl (fun most row => max most row.1) most ≤ bound := by
    intro xs
    induction xs with
    | nil => intro most small _; exact small
    | cons row rest ih =>
      intro most small within
      rw [List.foldl_cons]
      have here := within row List.mem_cons_self
      exact ih _ (by omega) fun other member => within other (List.mem_cons_of_mem _ member)
  exact least rows.toList 0 (Nat.zero_le _) fun row member =>
    h row.1 row.2 (OrdMap.mem_toList.mp member)

theorem le_frontier (cursor : Nat) {rows : List (Nat × E)} (sorted : rows.Pairwise fun a b => a.1 < b.1)
    {row : Nat × E} (member : row ∈ rows) : row.1 ≤ frontier cursor rows := by
  obtain ⟨front, last, rfl⟩ : ∃ front last, rows = front ++ [last] :=
    ⟨rows.dropLast, rows.getLast (List.ne_nil_of_mem member), (List.dropLast_append_getLast _).symm⟩
  have top : frontier cursor (front ++ [last]) = last.1 := by simp [frontier]
  rw [top]
  rcases List.mem_append.mp member with earlier | same
  · exact Nat.le_of_lt ((List.pairwise_append.mp sorted).2.2 row earlier last (by simp))
  · rw [List.mem_singleton.mp same]

/-- The last row of a list in id order is the one with the greatest id. -/
theorem getLast?_eq_some {rows : List (Nat × E)} (sorted : rows.Pairwise fun a b => a.1 < b.1)
    {row : Nat × E} : rows.getLast? = some row ↔ row ∈ rows ∧ ∀ other ∈ rows, other.1 ≤ row.1 := by
  constructor
  · intro last
    refine ⟨List.mem_of_getLast? last, fun other member => ?_⟩
    have bound := le_frontier 0 sorted member
    rwa [frontier, last] at bound
  · rintro ⟨member, greatest⟩
    cases last : rows.getLast? with
    | none => simp [List.getLast?_eq_none_iff.mp last] at member
    | some top =>
      have topMember := List.mem_of_getLast? last
      have below := le_frontier 0 sorted member
      rw [frontier, last] at below
      obtain ⟨front, back, split⟩ := List.append_of_mem member
      rw [split] at sorted topMember greatest
      have apart := List.pairwise_append.mp sorted
      rcases List.mem_append.mp topMember with early | late
      · exact absurd (apart.2.2 top early row List.mem_cons_self) (by simpa using below)
      · rcases List.mem_cons.mp late with rfl | late
        · rfl
        · have above := (List.pairwise_cons.mp apart.2.1).1 top late
          have bound := greatest top (by simp [late])
          omega

section Effects

open KeyedLog

variable {K V : Type} [DecidableEq K] {effect : E → Option (K × Option V)} {key : K}

/-- The rows that write a key, in id order. -/
def writing (effect : E → Option (K × Option V)) (key : K) (rows : List (Nat × E)) : List (Nat × E) :=
  rows.filter fun row => (effectOn effect key row.2).isSome

theorem lastEffect_writing (rows : List (Nat × E)) :
    lastEffect effect key ((writing effect key rows).map Prod.snd) =
      lastEffect effect key (rows.map Prod.snd) := by
  have kept : (writing effect key rows).map Prod.snd =
      (rows.map Prod.snd).filter fun e => (effectOn effect key e).isSome := by
    rw [writing, List.filter_map]
    rfl
  rw [kept]
  exact lastEffect_filter fun e _ silent => Option.not_isSome_iff_eq_none.mp (by simp [silent])

/-- What rows leave under a key depends only on which of them write it. -/
theorem lastEffect_congr {xs ys : List (Nat × E)} (hx : xs.Pairwise fun a b => a.1 < b.1)
    (hy : ys.Pairwise fun a b => a.1 < b.1)
    (same : ∀ row, (effectOn effect key row.2).isSome → (row ∈ xs ↔ row ∈ ys)) :
    lastEffect effect key (xs.map Prod.snd) = lastEffect effect key (ys.map Prod.snd) := by
  have equal : writing effect key xs = writing effect key ys := by
    refine eq_of_rows (hx.filter _) (hy.filter _) fun row => ?_
    rw [writing, writing, List.mem_filter, List.mem_filter]
    exact and_congr_left (same row)
  rw [← lastEffect_writing, equal, lastEffect_writing]

/-- The greatest of the rows that write a key decides. -/
theorem lastEffect_top {xs : List (Nat × E)} (sorted : xs.Pairwise fun a b => a.1 < b.1) {row : Nat × E}
    {value : Option V} (member : row ∈ xs) (writes : effectOn effect key row.2 = some value)
    (top : ∀ other ∈ xs, (effectOn effect key other.2).isSome → other.1 ≤ row.1) :
    lastEffect effect key (xs.map Prod.snd) = some value := by
  have last : (writing effect key xs).getLast? = some row := by
    refine (getLast?_eq_some (sorted.filter _)).mpr ⟨List.mem_filter.mpr ⟨member, by simp [writes]⟩, ?_⟩
    intro other listed
    obtain ⟨inside, does⟩ := List.mem_filter.mp listed
    exact top other inside does
  obtain ⟨front, split⟩ := List.getLast?_eq_some_iff.mp last
  rw [← lastEffect_writing, split, List.map_append, List.map_singleton, lastEffect_concat, writes,
    Option.some_or]

end Effects

theorem cursor_le_frontier {cursor : Nat} {rows : List (Nat × E)} (above : ∀ row ∈ rows, cursor < row.1) :
    cursor ≤ frontier cursor rows := by
  unfold frontier
  cases last : rows.getLast? with
  | none => exact Nat.le_refl _
  | some row => exact Nat.le_of_lt (above row (List.mem_of_getLast? last))

theorem above_of_page {rows : SerialRows E} {cursor limit : Nat} {row : Nat × E}
    (member : row ∈ rows.page cursor limit) : rows[row.1]? = some row.2 ∧ cursor < row.1 := by
  have inside := List.mem_of_mem_take member
  simpa [mem_toList] using inside

theorem sorted_page (rows : SerialRows E) (cursor limit : Nat) :
    (rows.page cursor limit).Pairwise fun a b => a.1 < b.1 :=
  (rows.sorted.filter _).sublist (List.take_sublist _ _)

/-- A page holds every row between the cursor and its frontier. -/
theorem page_eq_between (rows : SerialRows E) (cursor limit : Nat) :
    rows.page cursor limit = rows.between cursor (frontier cursor (rows.page cursor limit)) := by
  have pageSorted := rows.sorted_page cursor limit
  refine eq_of_rows pageSorted (rows.sorted_between _ _) fun row => ?_
  rw [mem_between]
  constructor
  · intro member
    obtain ⟨stored, above⟩ := above_of_page member
    exact ⟨stored, above, le_frontier _ pageSorted member⟩
  · rintro ⟨stored, above, within⟩
    have inside : row ∈ rows.toList.filter fun row => cursor < row.1 := by
      simp [mem_toList, stored, above]
    have whole := List.take_append_drop limit (rows.toList.filter fun row => cursor < row.1)
    rw [← whole, List.mem_append] at inside
    rcases inside with here | later
    · exact here
    · -- A row left for a later page is above the whole page.
      have ordered : (rows.toList.filter fun row => cursor < row.1).Pairwise fun a b => a.1 < b.1 :=
        rows.sorted.filter _
      rw [← whole] at ordered
      have beyond := (List.pairwise_append.mp ordered).2.2
      cases last : (rows.page cursor limit).getLast? with
      | none =>
        rw [frontier, last] at within
        exact absurd within (Nat.not_le.mpr above)
      | some top =>
        rw [frontier, last] at within
        have less := beyond top (List.mem_of_getLast? last) row later
        exact absurd within (Nat.not_le.mpr less)

theorem page_eq_nil {rows : SerialRows E} {cursor limit : Nat} (positive : 0 < limit) :
    rows.page cursor limit = [] ↔ ∀ id e, rows[id]? = some e → id ≤ cursor := by
  rw [page, List.take_eq_nil_iff, or_iff_right (by omega), List.filter_eq_nil_iff]
  constructor
  · intro none id e stored
    simpa using none (id, e) (OrdMap.mem_toList.mpr stored)
  · intro within row member
    simpa using within row.1 row.2 (OrdMap.mem_toList.mp member)

theorem between_append (rows : SerialRows E) {low middle high : Nat} (first : low ≤ middle)
    (second : middle ≤ high) :
    rows.between low middle ++ rows.between middle high = rows.between low high := by
  refine eq_of_rows ?_ (rows.sorted_between _ _) fun row => ?_
  · refine List.pairwise_append.mpr ⟨rows.sorted_between _ _, rows.sorted_between _ _, ?_⟩
    intro a ha b hb
    have := (mem_between.mp ha).2.2
    have := (mem_between.mp hb).2.1
    omega
  · rw [List.mem_append, mem_between, mem_between, mem_between]
    constructor
    · rintro (⟨stored, above, within⟩ | ⟨stored, above, within⟩)
      · exact ⟨stored, above, by omega⟩
      · exact ⟨stored, by omega, within⟩
    · rintro ⟨stored, above, within⟩
      by_cases early : row.1 ≤ middle
      · exact .inl ⟨stored, above, early⟩
      · exact .inr ⟨stored, by omega, within⟩

theorem mem_toList_upto {rows : SerialRows E} {bound : Nat} {row : Nat × E} :
    row ∈ (rows.upto bound).toList ↔ rows[row.1]? = some row.2 ∧ row.1 ≤ bound := by
  rw [mem_toList, get_upto]
  by_cases within : row.1 ≤ bound <;> simp [within]

/-- A view that ends below a bound is the view of all its own rows. -/
theorem upto_maxId (rows : SerialRows E) : rows.upto rows.maxId = rows := by
  refine OrdMap.ext fun id => ?_
  rw [get_upto]
  cases stored : rows[id]? with
  | none => rw [ite_self]
  | some e => rw [if_pos (le_maxId stored)]

end SerialRows

/-- A serial table under transactions. Ids are never given out twice. -/
structure SerialTable (T E : Type) where
  lastId : Nat
  rows : SerialRows E
  pending : T → List (Nat × E)
  rows_le : ∀ id e, rows[id]? = some e → id ≤ lastId
  pending_le : ∀ t, ∀ row ∈ pending t, row.1 ≤ lastId
  pending_fresh : ∀ t, ∀ row ∈ pending t, rows[row.1]? = none
  pending_sorted : ∀ t, (pending t).Pairwise fun a b => a.1 < b.1
  pending_apart : ∀ t u, t ≠ u → ∀ row ∈ pending t, ∀ other ∈ pending u, row.1 ≠ other.1

namespace SerialTable

variable {T E : Type} [DecidableEq T]

def empty : SerialTable T E where
  lastId := 0
  rows := ∅
  pending _ := []
  rows_le _ _ h := by simp at h
  pending_le _ _ h := by simp at h
  pending_fresh _ _ h := by simp at h
  pending_sorted _ := List.Pairwise.nil
  pending_apart _ _ _ _ h := by simp at h

theorem get_insertMany (rows : SerialRows E) {entries : List (Nat × E)}
    (sorted : entries.Pairwise fun a b => a.1 < b.1) (id : Nat) (e : E) :
    (OrdMap.insertMany rows entries)[id]? = some e ↔
      (id, e) ∈ entries ∨ (∀ row ∈ entries, row.1 ≠ id) ∧ rows[id]? = some e := by
  induction entries generalizing rows with
  | nil => simp [OrdMap.insertMany]
  | cons entry rest ih =>
    have tail := List.pairwise_cons.mp sorted
    rw [OrdMap.insertMany, List.foldl_cons, ← OrdMap.insertMany, ih _ tail.2, OrdMap.get_insert]
    by_cases here : id = entry.1
    · subst here
      have later : ∀ row ∈ rest, row.1 ≠ entry.1 := fun row member =>
        Nat.ne_of_gt (tail.1 row member)
      have absent : (entry.1, e) ∉ rest := fun member => later _ member rfl
      rw [if_pos rfl]
      constructor
      · rintro (member | ⟨_, same⟩)
        · exact absurd member absent
        · cases same
          exact .inl List.mem_cons_self
      · rintro (member | ⟨apart, _⟩)
        · rcases List.mem_cons.mp member with same | member
          · exact .inr ⟨later, by rw [← same]⟩
          · exact absurd member absent
        · exact absurd rfl (apart entry List.mem_cons_self)
    · rw [if_neg here]
      have split : (id, e) ∈ entry :: rest ↔ (id, e) ∈ rest := by
        rw [List.mem_cons]
        exact or_iff_right fun same => here (by rw [← same])
      rw [split, List.forall_mem_cons, and_iff_right (Ne.symm here)]

/-- Insert a row in a transaction. -/
def insert (table : SerialTable T E) (t : T) (e : E) : SerialTable T E where
  lastId := table.lastId + 1
  rows := table.rows
  pending := Function.update table.pending t (table.pending t ++ [(table.lastId + 1, e)])
  rows_le id e h := Nat.le_succ_of_le (table.rows_le id e h)
  pending_le u row member := by
    by_cases same : u = t
    · subst same
      rw [Function.update_self, List.mem_append, List.mem_singleton] at member
      rcases member with member | rfl
      · exact Nat.le_succ_of_le (table.pending_le u row member)
      · exact Nat.le_refl _
    · rw [Function.update_of_ne same] at member
      exact Nat.le_succ_of_le (table.pending_le u row member)
  pending_fresh u row member := by
    have new : table.rows[table.lastId + 1]? = none := by
      cases stored : table.rows[table.lastId + 1]? with
      | none => rfl
      | some e => exact absurd (table.rows_le _ e stored) (by omega)
    by_cases same : u = t
    · subst same
      rw [Function.update_self, List.mem_append, List.mem_singleton] at member
      rcases member with member | rfl
      · exact table.pending_fresh u row member
      · exact new
    · rw [Function.update_of_ne same] at member
      exact table.pending_fresh u row member
  pending_sorted u := by
    by_cases same : u = t
    · subst same
      rw [Function.update_self]
      refine List.pairwise_append.mpr ⟨table.pending_sorted u, List.pairwise_singleton _ _, ?_⟩
      intro row member other last
      rw [List.mem_singleton.mp last]
      exact Nat.lt_succ_of_le (table.pending_le u row member)
    · rw [Function.update_of_ne same]
      exact table.pending_sorted u
  pending_apart u v apart row member other member' := by
    by_cases same : u = t
    · subst same
      rw [Function.update_of_ne (Ne.symm apart)] at member'
      rw [Function.update_self, List.mem_append, List.mem_singleton] at member
      rcases member with member | rfl
      · exact table.pending_apart u v apart row member other member'
      · exact Nat.ne_of_gt (Nat.lt_succ_of_le (table.pending_le v other member'))
    · rw [Function.update_of_ne same] at member
      by_cases same' : v = t
      · subst same'
        rw [Function.update_self, List.mem_append, List.mem_singleton] at member'
        rcases member' with member' | rfl
        · exact table.pending_apart u v apart row member other member'
        · exact Nat.ne_of_lt (Nat.lt_succ_of_le (table.pending_le u row member))
      · rw [Function.update_of_ne same'] at member'
        exact table.pending_apart u v apart row member other member'

/-- Give up the rows of a transaction; their ids stay used. -/
def rollback (table : SerialTable T E) (t : T) : SerialTable T E where
  lastId := table.lastId
  rows := table.rows
  pending := Function.update table.pending t []
  rows_le := table.rows_le
  pending_le u row member := by
    by_cases same : u = t
    · subst same; simp at member
    · rw [Function.update_of_ne same] at member
      exact table.pending_le u row member
  pending_fresh u row member := by
    by_cases same : u = t
    · subst same; simp at member
    · rw [Function.update_of_ne same] at member
      exact table.pending_fresh u row member
  pending_sorted u := by
    by_cases same : u = t
    · subst same; simp
    · rw [Function.update_of_ne same]
      exact table.pending_sorted u
  pending_apart u v apart row member other member' := by
    by_cases same : u = t
    · subst same; simp at member
    · rw [Function.update_of_ne same] at member
      by_cases same' : v = t
      · subst same'; simp at member'
      · rw [Function.update_of_ne same'] at member'
        exact table.pending_apart u v apart row member other member'

/-- Make the rows of a transaction seen. -/
def commit (table : SerialTable T E) (t : T) : SerialTable T E where
  lastId := table.lastId
  rows := OrdMap.insertMany table.rows (table.pending t)
  pending := (table.rollback t).pending
  rows_le id e h := by
    rcases (get_insertMany table.rows (table.pending_sorted t) id e).mp h with member | ⟨_, stored⟩
    · exact table.pending_le t (id, e) member
    · exact table.rows_le id e stored
  pending_le := (table.rollback t).pending_le
  pending_fresh u row member := by
    have kept : u ≠ t ∧ row ∈ table.pending u := by
      by_cases same : u = t
      · subst same; simp [rollback] at member
      · exact ⟨same, by simpa [rollback, Function.update_of_ne same] using member⟩
    refine Option.eq_none_iff_forall_not_mem.mpr fun e h => ?_
    rcases (get_insertMany table.rows (table.pending_sorted t) row.1 e).mp h with mine | ⟨_, stored⟩
    · exact table.pending_apart u t kept.1 row kept.2 _ mine rfl
    · rw [table.pending_fresh u row kept.2] at stored
      cases stored
  pending_sorted := (table.rollback t).pending_sorted
  pending_apart := (table.rollback t).pending_apart

@[simp] theorem rows_insert (table : SerialTable T E) (t : T) (e : E) :
    (table.insert t e).rows = table.rows := rfl

@[simp] theorem rows_rollback (table : SerialTable T E) (t : T) :
    (table.rollback t).rows = table.rows := rfl

/-- The rows seen after a commit are the rows seen before and those of the transaction. -/
theorem get_commit (table : SerialTable T E) (t : T) (id : Nat) (e : E) :
    (table.commit t).rows[id]? = some e ↔
      (id, e) ∈ table.pending t ∨ table.rows[id]? = some e := by
  have fresh : ∀ row ∈ table.pending t, table.rows[row.1]? = none := table.pending_fresh t
  change (OrdMap.insertMany table.rows (table.pending t))[id]? = some e ↔ _
  rw [get_insertMany table.rows (table.pending_sorted t)]
  constructor
  · rintro (member | ⟨_, stored⟩)
    · exact .inl member
    · exact .inr stored
  · rintro (member | stored)
    · exact .inl member
    · refine .inr ⟨fun row member same => ?_, stored⟩
      have none := fresh row member
      rw [same, stored] at none
      cases none

theorem pending_insert (table : SerialTable T E) (t u : T) (e : E) :
    (table.insert t e).pending u =
      if u = t then table.pending t ++ [(table.lastId + 1, e)] else table.pending u := by
  by_cases same : u = t
  · subst same
    simp [insert]
  · simp [insert, same]

theorem pending_rollback (table : SerialTable T E) (t u : T) :
    (table.rollback t).pending u = if u = t then [] else table.pending u := by
  by_cases same : u = t
  · subst same
    simp [rollback]
  · simp [rollback, same]

theorem pending_commit (table : SerialTable T E) (t u : T) :
    (table.commit t).pending u = if u = t then [] else table.pending u := table.pending_rollback t u

end SerialTable

import Mathlib.Data.List.Nodup
import Mathlib.Logic.Function.Basic

/-!
Maps that enumerate their keys in the order in which they were first set.
-/

/-- The entries in that order, one for each key. -/
structure InsertionMap (K V : Type) where
  entries : List (K × V)
  nodup : (entries.map Prod.fst).Nodup

namespace InsertionMap

variable {K V : Type}

def empty : InsertionMap K V := ⟨[], List.nodup_nil⟩

theorem eq_empty {m : InsertionMap K V} (none : m.entries = []) : empty = m := by
  obtain ⟨entries, nodup⟩ := m
  subst none
  rfl

def keys (m : InsertionMap K V) : List K := m.entries.map Prod.fst

def values (m : InsertionMap K V) : List V := m.entries.map Prod.snd

variable [DecidableEq K] {m : InsertionMap K V} {key other : K} {value : V}

def get (m : InsertionMap K V) (key : K) : Option V :=
  (m.entries.find? fun entry => entry.1 = key).map Prod.snd

/-- Write an entry in place, or after all others. -/
def put (key : K) (value : V) : List (K × V) → List (K × V)
  | [] => [(key, value)]
  | entry :: rest => if entry.1 = key then (key, value) :: rest else entry :: put key value rest

theorem mem_map_put {entries : List (K × V)} :
    other ∈ (put key value entries).map Prod.fst ↔ other = key ∨ other ∈ entries.map Prod.fst := by
  induction entries with
  | nil => simp [put]
  | cons entry rest ih =>
    unfold put
    split
    · next here =>
      subst here
      simp
    · rw [List.map_cons, List.mem_cons, ih, List.map_cons, List.mem_cons]
      exact or_left_comm

theorem nodup_put {entries : List (K × V)} (nodup : (entries.map Prod.fst).Nodup) :
    ((put key value entries).map Prod.fst).Nodup := by
  induction entries with
  | nil => exact List.nodup_singleton _
  | cons entry rest ih =>
    obtain ⟨fresh, rest_nodup⟩ := List.nodup_cons.mp nodup
    unfold put
    split
    · next here =>
      subst here
      exact nodup
    · next apart =>
      refine List.nodup_cons.mpr ⟨fun again => ?_, ih rest_nodup⟩
      rcases mem_map_put.mp again with same | later
      · exact apart same
      · exact fresh later

def set (m : InsertionMap K V) (key : K) (value : V) : InsertionMap K V :=
  ⟨put key value m.entries, nodup_put m.nodup⟩

def delete (m : InsertionMap K V) (key : K) : InsertionMap K V where
  entries := m.entries.filter fun entry => entry.1 ≠ key
  nodup := m.nodup.sublist (List.filter_sublist.map _)

/-! ### What a map holds -/

@[simp] theorem get_empty : (empty : InsertionMap K V).get key = none := rfl

theorem get_set (m : InsertionMap K V) (key : K) (value : V) (other : K) :
    (m.set key value).get other = if other = key then some value else m.get other := by
  have found : ∀ entries : List (K × V), ((put key value entries).find? fun entry => entry.1 = other) =
      if other = key then some (key, value) else entries.find? fun entry => entry.1 = other := by
    intro entries
    induction entries with
    | nil =>
      by_cases here : other = key
      · simp [put, here]
      · simp [put, here, Ne.symm here]
    | cons entry rest ih =>
      unfold put
      split
      · next first =>
        by_cases here : other = key
        · simp [here]
        · simp [first, here, Ne.symm here]
      · next first =>
        by_cases here : entry.1 = other
        · have apart : other ≠ key := fun same => first (here.trans same)
          simp [here, apart]
        · rw [List.find?_cons_of_neg (by simpa using here), ih, List.find?_cons_of_neg (by simpa using here)]
  unfold get
  show Option.map _ ((put key value m.entries).find? _) = _
  rw [found]
  split <;> rfl

theorem get_delete (m : InsertionMap K V) (key other : K) :
    (m.delete key).get other = if other = key then none else m.get other := by
  have found : ∀ entries : List (K × V),
      ((entries.filter fun entry => entry.1 ≠ key).find? fun entry => entry.1 = other) =
        if other = key then none else entries.find? fun entry => entry.1 = other := by
    intro entries
    induction entries with
    | nil => simp
    | cons entry rest ih =>
      by_cases first : entry.1 = key
      · rw [List.filter_cons_of_neg (by simpa using first), ih]
        by_cases here : other = key
        · rw [if_pos here, if_pos here]
        · have apart : entry.1 ≠ other := fun same => here (same.symm.trans first)
          rw [if_neg here, if_neg here, List.find?_cons_of_neg (by simpa using apart)]
      · rw [List.filter_cons_of_pos (by simpa using first)]
        by_cases at_other : entry.1 = other
        · have apart : other ≠ key := fun same => first (at_other.trans same)
          simp [at_other, apart]
        · rw [List.find?_cons_of_neg (by simpa using at_other), ih,
            List.find?_cons_of_neg (by simpa using at_other)]
  unfold get
  show Option.map _ ((m.entries.filter _).find? _) = _
  rw [found]
  split <;> rfl

theorem get_eq_some_iff : m.get key = some value ↔ (key, value) ∈ m.entries := by
  have go : ∀ entries : List (K × V), (entries.map Prod.fst).Nodup →
      ((entries.find? fun entry => entry.1 = key).map Prod.snd = some value ↔ (key, value) ∈ entries) := by
    intro entries
    induction entries with
    | nil => simp
    | cons entry rest ih =>
      intro nodup
      obtain ⟨fresh, rest_nodup⟩ := List.nodup_cons.mp nodup
      by_cases here : entry.1 = key
      · subst here
        have later : (entry.1, value) ∉ rest := fun among => fresh (List.mem_map.mpr ⟨_, among, rfl⟩)
        simp [later, Prod.ext_iff, eq_comm]
      · rw [List.find?_cons_of_neg (by simpa using here), ih rest_nodup, List.mem_cons]
        simp [Prod.ext_iff, Ne.symm here]
  exact go m.entries m.nodup

theorem mem_keys : key ∈ m.keys ↔ (m.get key).isSome = true := by
  rw [keys, List.mem_map, Option.isSome_iff_exists]
  simp only [get_eq_some_iff, Prod.exists, exists_and_right, exists_eq_right]

theorem entries_ne_nil_iff : m.entries ≠ [] ↔ ∃ key value, m.get key = some value := by
  simp only [get_eq_some_iff, List.ne_nil_iff_exists_cons]
  constructor
  · rintro ⟨entry, rest, entries⟩
    exact ⟨entry.1, entry.2, by simp [entries]⟩
  · rintro ⟨key, value, among⟩
    obtain ⟨entry, rest, entries⟩ := List.exists_cons_of_ne_nil (List.ne_nil_of_mem among)
    exact ⟨entry, rest, entries⟩

/-- Writing all its entries in order builds what a map holds. -/
theorem foldl_update_entries (m : InsertionMap K V) :
    m.entries.foldl (fun (c : K → Option V) entry => Function.update c entry.1 (some entry.2)) (fun _ => none) =
      m.get := by
  have go : ∀ (entries : List (K × V)) (c : K → Option V), (entries.map Prod.fst).Nodup → ∀ key,
      entries.foldl (fun (c : K → Option V) entry => Function.update c entry.1 (some entry.2)) c key =
        (((entries.find? fun entry => entry.1 = key).map Prod.snd).or (c key)) := by
    intro entries
    induction entries with
    | nil => exact fun _ _ _ => rfl
    | cons entry rest ih =>
      intro c nodup key
      obtain ⟨fresh, rest_nodup⟩ := List.nodup_cons.mp nodup
      rw [List.foldl_cons, ih _ rest_nodup]
      by_cases here : entry.1 = key
      · subst here
        have none_later : (rest.find? fun other => decide (other.1 = entry.1)) = none := by
          refine List.find?_eq_none.mpr fun other among same => fresh ?_
          rw [← of_decide_eq_true same]
          exact List.mem_map_of_mem among
        simp [none_later]
      · rw [List.find?_cons_of_neg (by simpa using here), Function.update_of_ne (Ne.symm here)]
  funext key
  rw [go m.entries _ m.nodup]
  exact Option.or_none

end InsertionMap

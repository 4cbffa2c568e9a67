import Mathlib.Data.List.Basic

/-!
Lists that arrive in segments: what a read returns ends at the latest where a segment ends. And the first
place of a pattern in a list of which only the beginning has arrived.
-/

/-- What is still to arrive, in the segments it arrives in. -/
structure Segments (α : Type) where
  parts : List (List α)
  filled : ∀ part ∈ parts, part ≠ []

namespace Segments

variable {α : Type}

def items (self : Segments α) : List α := self.parts.flatten

theorem filled_tail {part : List α} {rest : List (List α)} (filled : ∀ other ∈ part :: rest, other ≠ []) :
    ∀ other ∈ rest, other ≠ [] := fun other member => filled other (List.mem_cons_of_mem part member)

theorem filled_drop {part : List α} {rest : List (List α)} (filled : ∀ other ∈ part :: rest, other ≠ [])
    {capacity : Nat} (longer : capacity < part.length) : ∀ other ∈ part.drop capacity :: rest, other ≠ [] := by
  intro other member
  rcases List.mem_cons.mp member with rfl | member
  · exact fun empty => absurd (List.drop_eq_nil_iff.mp empty) (by omega)
  · exact filled_tail filled other member

/-- One read: a segment, or as much of it as there is room for. -/
def read (self : Segments α) (capacity : Nat) : List α × Segments α :=
  match self with
  | ⟨[], filled⟩ => ([], ⟨[], filled⟩)
  | ⟨part :: rest, filled⟩ =>
    if longer : capacity < part.length then
      (part.take capacity, ⟨part.drop capacity :: rest, filled_drop filled longer⟩)
    else (part, ⟨rest, filled_tail filled⟩)

variable {self : Segments α} {capacity : Nat}

theorem read_long {part : List α} {rest : List (List α)} {filled : ∀ other ∈ part :: rest, other ≠ []}
    (longer : capacity < part.length) : (mk (part :: rest) filled).read capacity =
      (part.take capacity, ⟨part.drop capacity :: rest, filled_drop filled longer⟩) := dif_pos longer

theorem read_short {part : List α} {rest : List (List α)} {filled : ∀ other ∈ part :: rest, other ≠ []}
    (fits : ¬capacity < part.length) :
    (mk (part :: rest) filled).read capacity = (part, ⟨rest, filled_tail filled⟩) := dif_neg fits

theorem read_append (self : Segments α) (capacity : Nat) :
    (self.read capacity).1 ++ (self.read capacity).2.items = self.items := by
  rcases self with ⟨_ | ⟨part, rest⟩, filled⟩
  · rfl
  · by_cases longer : capacity < part.length
    · rw [read_long longer]
      dsimp only [items]
      rw [List.flatten_cons, ← List.append_assoc, List.take_append_drop, List.flatten_cons]
    · rw [read_short longer]
      rfl

theorem read_length_le (self : Segments α) (capacity : Nat) : (self.read capacity).1.length ≤ capacity := by
  rcases self with ⟨_ | ⟨part, rest⟩, filled⟩
  · exact Nat.zero_le capacity
  · by_cases longer : capacity < part.length
    · rw [read_long longer]
      exact List.length_take_le capacity part
    · rw [read_short longer]
      exact Nat.le_of_not_lt longer

/-- A read returns nothing at the end only. -/
theorem read_nil_iff (room : 0 < capacity) : (self.read capacity).1 = [] ↔ self.items = [] := by
  constructor
  · intro nothing
    rcases self with ⟨_ | ⟨part, rest⟩, filled⟩
    · rfl
    · have some_item := filled part List.mem_cons_self
      by_cases longer : capacity < part.length
      · rw [read_long longer] at nothing
        exact (List.take_eq_nil_iff.mp nothing).elim (fun none => by omega) fun empty => absurd empty some_item
      · rw [read_short longer] at nothing
        exact absurd nothing some_item
  · intro ended
    have whole := read_append self capacity
    rw [ended] at whole
    exact (List.append_eq_nil_iff.mp whole).1

theorem read_shorter (more : (self.read capacity).1 ≠ []) :
    (self.read capacity).2.items.length < self.items.length := by
  have whole := congrArg List.length (read_append self capacity)
  have some_item := List.length_pos_iff.mpr more
  rw [List.length_append] at whole
  omega

/-! ### Two ways to cut a list -/

/-- One item at a time. -/
def singly (items : List α) : Segments α where
  parts := items.map fun item => [item]
  filled := by simp

/-- All at once. -/
def whole (items : List α) : Segments α where
  parts := [items].filter fun part => part ≠ []
  filled := by simp

@[simp] theorem items_singly (items : List α) : (singly items).items = items := by
  induction items with
  | nil => rfl
  | cons item rest ih => exact congrArg (item :: ·) ih

@[simp] theorem items_whole (items : List α) : (whole items).items = items := by
  cases items with
  | nil => rfl
  | cons item rest => exact List.append_nil _

theorem read_singly {item : α} {rest : List α} (room : 0 < capacity) :
    (singly (item :: rest)).read capacity = ([item], singly rest) :=
  read_short (Nat.not_lt.mpr room)

theorem read_whole (items : List α) (capacity : Nat) :
    (whole items).read capacity = (items.take capacity, whole (items.drop capacity)) := by
  cases items with
  | nil =>
    rw [List.take_nil, List.drop_nil]
    rfl
  | cons item rest =>
    by_cases longer : capacity < (item :: rest).length
    · have left : (item :: rest).drop capacity ≠ [] := fun empty =>
        absurd (List.drop_eq_nil_iff.mp empty) (by omega)
      refine (dif_pos longer).trans (Prod.ext rfl ?_)
      simp [whole, left]
    · rw [List.take_of_length_le (by omega), List.drop_eq_nil_of_le (by omega)]
      exact dif_neg longer

end Segments

/-! ### The first place of a pattern -/

section
variable {α : Type} [DecidableEq α]

/-- Where a pattern first starts. -/
def List.placeOf (pattern : List α) : List α → Option Nat
  | [] => none
  | item :: rest =>
    if pattern <+: item :: rest then some 0 else (placeOf pattern rest).map (· + 1)

variable {pattern : List α}

theorem List.placeOf_le {items : List α} {place : Nat} (found : placeOf pattern items = some place) :
    place + pattern.length ≤ items.length := by
  induction items generalizing place with
  | nil => cases found
  | cons item rest ih =>
    rw [placeOf] at found
    split at found
    · rename_i here
      obtain rfl := Option.some.inj found
      rw [Nat.zero_add]
      exact here.length_le
    · obtain ⟨later, before, rfl⟩ := Option.map_eq_some_iff.mp found
      have bound := ih before
      rw [length_cons]
      omega

/-- In what has arrived the pattern is found once it has arrived whole, and at the same place. -/
theorem List.placeOf_take (some_item : pattern ≠ []) (items : List α) (arrived : Nat) :
    placeOf pattern (items.take arrived) =
      (placeOf pattern items).filter fun place => place + pattern.length ≤ arrived := by
  have filled := length_pos_iff.mpr some_item
  induction items generalizing arrived with
  | nil => rw [take_nil]; rfl
  | cons item rest ih =>
    cases arrived with
    | zero =>
      rw [take_zero]
      refine (Option.filter_eq_none_iff.mpr fun place _ => ?_).symm
      rw [decide_eq_true_eq]
      omega
    | succ arrived =>
      have arrives : pattern <+: item :: rest.take arrived ↔
          pattern <+: item :: rest ∧ pattern.length ≤ arrived + 1 := by
        rw [← take_succ_cons, prefix_take_iff]
      rw [take_succ_cons, placeOf, placeOf]
      by_cases here : pattern <+: item :: rest
      · by_cases fits : pattern.length ≤ arrived + 1
        · rw [if_pos (arrives.mpr ⟨here, fits⟩), if_pos here]
          exact (Option.filter_some_pos (by simpa using fits)).symm
        · rw [if_neg fun both => fits (arrives.mp both).2, if_pos here, ih]
          have missing : (placeOf pattern rest).filter (fun place => place + pattern.length ≤ arrived) = none := by
            refine Option.filter_eq_none_iff.mpr fun place _ => ?_
            rw [decide_eq_true_eq]
            omega
          rw [missing]
          exact (Option.filter_some_neg (by simpa using fits)).symm
      · rw [if_neg fun both => here (arrives.mp both).1, if_neg here, ih]
        cases placeOf pattern rest with
        | none => rfl
        | some place =>
          rw [Option.map_some, Option.filter_some, Option.filter_some, Nat.add_right_comm]
          by_cases fits : place + pattern.length ≤ arrived
          · rw [if_pos (by simpa using fits), if_pos (by simpa using fits)]
            rfl
          · rw [if_neg (by simpa using fits), if_neg (by simpa using fits)]
            rfl

/-- A pattern is not found before its first item is there. -/
theorem List.placeOf_append {first : α} {others items : List α} (absent : first ∉ items) :
    placeOf (first :: others) (items ++ first :: others) = some items.length := by
  induction items with
  | nil => exact if_pos (List.prefix_refl _)
  | cons item rest ih =>
    have apart : ¬first :: others <+: item :: (rest ++ first :: others) := by
      intro here
      exact absent (List.mem_cons.mpr (.inl (List.cons_prefix_cons.mp here).1))
    rw [cons_append, placeOf, if_neg apart, ih fun member => absent (List.mem_cons_of_mem item member)]
    rfl

end

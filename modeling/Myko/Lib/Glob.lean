import Mathlib.Data.List.Infix

/-!
Patterns in which one symbol stands for any text.
-/

namespace Myko.Glob

variable {α : Type*} (star : α)

/-- The pattern gives the text when each `star` in it is replaced by some text. -/
inductive Denotes : List α → List α → Prop where
  | nil : Denotes [] []
  | literal {c : α} {pattern text : List α} : c ≠ star → Denotes pattern text → Denotes (c :: pattern) (c :: text)
  | star {pattern text : List α} (filling : List α) :
      Denotes pattern text → Denotes (star :: pattern) (filling ++ text)

variable {star : α} {pattern text : List α}

theorem denotes_nil : Denotes star [] text ↔ text = [] :=
  ⟨fun h => by cases h; rfl, by rintro rfl; exact .nil⟩

theorem denotes_star_cons :
    Denotes star (star :: pattern) text ↔ ∃ filling rest, text = filling ++ rest ∧ Denotes star pattern rest := by
  constructor
  · intro h
    cases h with
    | literal different => exact absurd rfl different
    | star filling denotes => exact ⟨filling, _, rfl, denotes⟩
  · rintro ⟨filling, rest, rfl, denotes⟩
    exact .star filling denotes

theorem denotes_literal_append {literal : List α} (plain : star ∉ literal) :
    Denotes star (literal ++ pattern) text ↔ ∃ rest, text = literal ++ rest ∧ Denotes star pattern rest := by
  induction literal generalizing text with
  | nil => simp
  | cons c literal ih =>
    have different : c ≠ star := fun h => plain (h ▸ List.mem_cons_self)
    have ih (text : List α) := @ih text fun h => plain (List.mem_cons_of_mem _ h)
    constructor
    · intro h
      cases h with
      | literal _ denotes =>
        obtain ⟨rest, rfl, remains⟩ := (ih _).mp denotes
        exact ⟨rest, rfl, remains⟩
      | star => exact absurd rfl different
    · rintro ⟨rest, rfl, denotes⟩
      exact .literal different ((ih _).mpr ⟨rest, rfl, denotes⟩)

theorem denotes_plain (plain : star ∉ pattern) : Denotes star pattern text ↔ text = pattern := by
  have literal : Denotes star (pattern ++ []) text ↔ _ := denotes_literal_append plain
  simpa [denotes_nil] using literal

theorem denotes_all : Denotes star [star] text :=
  denotes_star_cons.mpr ⟨text, [], by simp, .nil⟩

/-- One star at the end: the texts that start with what is before it. -/
theorem denotes_append_star (plain : star ∉ pattern) : Denotes star (pattern ++ [star]) text ↔ pattern <+: text := by
  rw [denotes_literal_append plain]
  constructor
  · rintro ⟨rest, rfl, -⟩
    exact List.prefix_append pattern rest
  · rintro ⟨rest, rfl⟩
    exact ⟨rest, rfl, denotes_all⟩

/-- One star in front: the texts that end with what is behind it. -/
theorem denotes_cons_star (plain : star ∉ pattern) : Denotes star (star :: pattern) text ↔ pattern <:+ text := by
  rw [denotes_star_cons]
  constructor
  · rintro ⟨filling, rest, rfl, denotes⟩
    rw [denotes_plain plain] at denotes
    exact denotes ▸ List.suffix_append filling rest
  · rintro ⟨filling, rfl⟩
    exact ⟨filling, pattern, rfl, (denotes_plain plain).mpr rfl⟩

variable [DecidableEq α]

/-- The text in which every star is replaced by nothing. -/
def erased (star : α) (pattern : List α) : List α := pattern.filter (· ≠ star)

@[simp] theorem erased_cons_star : erased star (star :: pattern) = erased star pattern :=
  List.filter_cons_of_neg (by simp)

theorem erased_cons_of_ne {c : α} (different : c ≠ star) : erased star (c :: pattern) = c :: erased star pattern :=
  List.filter_cons_of_pos (by simpa using different)

theorem denotes_erased : Denotes star pattern (erased star pattern) := by
  induction pattern with
  | nil => exact .nil
  | cons c pattern ih =>
    by_cases same : c = star
    · rw [same, erased_cons_star]
      exact .star [] ih
    · rw [erased_cons_of_ne same]
      exact .literal same ih

theorem star_not_mem_erased : star ∉ erased star pattern := by
  simp [erased]

end Myko.Glob

import Mathlib.Data.List.Basic

/-!
The words of a text: the longest parts of it without a separator that are not empty.
-/

namespace Myko.Words

variable {α β : Type*}

def words (separates : α → Bool) (text : List α) : List (List α) :=
  (text.splitOnP separates).filter fun part => !part.isEmpty

variable {separates : α → Bool}

theorem splitOnP_map (f : β → α) (text : List β) :
    (text.map f).splitOnP separates = (text.splitOnP fun b => separates (f b)).map (List.map f) := by
  induction text with
  | nil => rfl
  | cons b rest ih =>
    rw [List.map_cons, List.splitOnP_cons_eq_if_modifyHead, List.splitOnP_cons_eq_if_modifyHead, ih]
    cases separates (f b) with
    | true => rfl
    | false =>
      cases split : rest.splitOnP fun b => separates (f b) with
      | nil => exact absurd split (List.splitOnP_ne_nil _ rest)
      | cons part parts => rfl

theorem words_map (f : β → α) (text : List β) :
    words separates (text.map f) = (words (fun b => separates (f b)) text).map (List.map f) := by
  unfold words
  rw [splitOnP_map, List.filter_map]
  congr 1
  exact List.filter_congr fun part _ => by cases part <;> rfl

theorem words_append_cons {separator : α} (separating : separates separator = true) (first rest : List α) :
    words separates (first ++ separator :: rest) = words separates first ++ words separates rest := by
  unfold words
  rw [List.splitOnP_append_cons first rest separating, List.filter_append]

/-- The words of parts that are joined, with a separator behind each. -/
theorem words_joined {separator : α} (separating : separates separator = true) (parts : List (List α)) :
    words separates (parts.flatMap fun part => part ++ [separator]) = parts.flatMap (words separates) := by
  induction parts with
  | nil => rfl
  | cons part rest ih =>
    rw [List.flatMap_cons, List.append_assoc, List.singleton_append, words_append_cons separating, ih,
      List.flatMap_cons]

theorem words_ne_nil {text word : List α} (listed : word ∈ words separates text) : word ≠ [] := by
  have kept := (List.mem_filter.mp listed).2
  rintro rfl
  cases kept

theorem separator_not_mem_part {text part : List α} (listed : part ∈ text.splitOnP separates) :
    ∀ a ∈ part, separates a = false := by
  induction text generalizing part with
  | nil =>
    rw [List.splitOnP_nil, List.mem_singleton] at listed
    subst listed
    exact fun a none => absurd none List.not_mem_nil
  | cons first rest ih =>
    obtain ⟨part', parts', split'⟩ := List.exists_cons_of_ne_nil (List.splitOnP_ne_nil separates rest)
    rw [split'] at ih
    rw [List.splitOnP_cons_eq_if_modifyHead, split'] at listed
    cases here : separates first with
    | true =>
      rw [here, if_pos rfl] at listed
      rcases List.mem_cons.mp listed with rfl | later
      · exact fun a none => absurd none List.not_mem_nil
      · exact ih later
    | false =>
      rw [here, if_neg Bool.false_ne_true, List.modifyHead_cons] at listed
      rcases List.mem_cons.mp listed with rfl | later
      · intro a within
        rcases List.mem_cons.mp within with rfl | within
        · exact here
        · exact ih List.mem_cons_self a within
      · exact ih (List.mem_cons_of_mem _ later)

theorem mem_part {text word : List α} (listed : word ∈ words separates text) :
    word ∈ text.splitOnP separates := (List.mem_filter.mp listed).1

end Myko.Words

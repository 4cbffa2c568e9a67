import Mathlib.Data.List.Destutter
import Mathlib.Data.List.Sort

/-!
Comparisons in which some elements need not compare, and lists sorted by one that keep one of every run of
elements that are the same.
-/

/-- Which elements are less than which, and which are the same. An element that compares with nothing is not
even the same as itself. -/
structure Comparison (T : Type) where
  less : T → T → Bool
  same : T → T → Bool
  less_asymm : ∀ {a b : T}, less a b = true → less b a = false
  less_trans : ∀ {a b c : T}, less a b = true → less b c = true → less a c = true
  same_symm : ∀ {a b : T}, same a b = true → same b a = true
  same_trans : ∀ {a b c : T}, same a b = true → same b c = true → same a c = true
  less_congr : ∀ {a b : T}, same a b = true → ∀ c, less a c = less b c
  congr_less : ∀ {a b : T}, same a b = true → ∀ c, less c a = less c b

namespace Comparison

variable {T : Type}

def ofLinearOrder [LinearOrder T] : Comparison T where
  less a b := decide (a < b)
  same a b := decide (a = b)
  less_asymm := by
    intro a b below
    exact decide_eq_false (of_decide_eq_true below).asymm
  less_trans := by
    intro a b c first second
    exact decide_eq_true ((of_decide_eq_true first).trans (of_decide_eq_true second))
  same_symm := by
    intro a b same
    exact decide_eq_true (of_decide_eq_true same).symm
  same_trans := by
    intro a b c first second
    exact decide_eq_true ((of_decide_eq_true first).trans (of_decide_eq_true second))
  less_congr := by
    intro a b same c
    rw [of_decide_eq_true same]
  congr_less := by
    intro a b same c
    rw [of_decide_eq_true same]

variable (comparison : Comparison T)

/-- Any two elements compare. -/
def Total : Prop := ∀ a b, comparison.less a b = true ∨ comparison.same a b = true ∨ comparison.less b a = true

theorem total_ofLinearOrder [LinearOrder T] : (ofLinearOrder : Comparison T).Total := by
  intro a b
  rcases lt_trichotomy a b with below | same | above
  · exact .inl (decide_eq_true below)
  · exact .inr (.inl (decide_eq_true same))
  · exact .inr (.inr (decide_eq_true above))

def NotAfter (a b : T) : Prop := comparison.less b a = false

def Differ (a b : T) : Prop := comparison.same a b = false

instance : DecidableRel comparison.NotAfter := fun a b => inferInstanceAs (Decidable (comparison.less b a = false))

instance : DecidableRel comparison.Differ := fun a b => inferInstanceAs (Decidable (comparison.same a b = false))

/-- Sorted by insertion. Where elements do not compare, another sort may leave another order. -/
def sort (list : List T) : List T := list.insertionSort comparison.NotAfter

/-- Sorted, with one of every run of the same. -/
def distinct (list : List T) : List T := (comparison.sort list).destutter comparison.Differ

/-- An element that is the same as this one is in the list. -/
def Has (list : List T) (element : T) : Prop := ∃ a ∈ list, comparison.same a element = true

variable {comparison}

theorem less_irrefl (a : T) : comparison.less a a = false := by
  cases less : comparison.less a a with
  | false => rfl
  | true => exact less.symm.trans (comparison.less_asymm less)

theorem notAfter_of_not {a b : T} (after : ¬ comparison.NotAfter a b) : comparison.NotAfter b a :=
  comparison.less_asymm (eq_true_of_ne_false after)

theorem mem_sort {list : List T} {a : T} : a ∈ comparison.sort list ↔ a ∈ list :=
  List.mem_insertionSort _

/-! ### What is kept -/

variable (comparison) in
theorem kept_destutter' (last : T) (list : List T) :
    ∀ a ∈ last :: list, ∃ kept ∈ list.destutter' comparison.Differ last,
      kept = a ∨ comparison.same kept a = true := by
  induction list generalizing last with
  | nil =>
    intro a among
    exact ⟨last, List.mem_destutter' _ _ _, .inl (List.mem_singleton.mp among).symm⟩
  | cons next rest ih =>
    intro a among
    by_cases differs : comparison.Differ last next
    · rw [List.destutter'_cons_pos _ differs]
      rcases List.mem_cons.mp among with rfl | among
      · exact ⟨a, List.mem_cons_self, .inl rfl⟩
      · obtain ⟨kept, there, covers⟩ := ih next a among
        exact ⟨kept, List.mem_cons_of_mem _ there, covers⟩
    · rw [List.destutter'_cons_neg _ differs]
      have same : comparison.same last next = true := eq_true_of_ne_false differs
      rcases List.mem_cons.mp among with rfl | among
      · exact ih a a List.mem_cons_self
      rcases List.mem_cons.mp among with rfl | among
      · -- What is dropped is the same as the last that was kept.
        obtain ⟨kept, there, rfl | covers⟩ := ih last last List.mem_cons_self
        · exact ⟨kept, there, .inr same⟩
        · exact ⟨kept, there, .inr (comparison.same_trans covers same)⟩
      · exact ih last a (List.mem_cons_of_mem _ among)

theorem has_destutter {list : List T} {element : T} :
    comparison.Has (list.destutter comparison.Differ) element ↔ comparison.Has list element := by
  constructor
  · rintro ⟨a, among, same⟩
    exact ⟨a, (List.destutter_sublist _ list).subset among, same⟩
  · rintro ⟨a, among, same⟩
    cases list with
    | nil => cases among
    | cons last rest =>
      obtain ⟨kept, there, rfl | covers⟩ := kept_destutter' comparison last rest a among
      · exact ⟨kept, there, same⟩
      · exact ⟨kept, there, comparison.same_trans covers same⟩

theorem has_distinct {list : List T} {element : T} :
    comparison.Has (comparison.distinct list) element ↔ comparison.Has list element := by
  unfold distinct
  rw [has_destutter]
  unfold Has
  simp only [mem_sort]

/-! ### A second time -/

theorem isChain_orderedInsert (a : T) {list : List T} (chain : list.IsChain comparison.NotAfter) :
    (list.orderedInsert comparison.NotAfter a).IsChain comparison.NotAfter := by
  induction list with
  | nil => exact List.isChain_singleton a
  | cons first rest ih =>
    rw [List.orderedInsert_cons]
    split
    · rename_i before
      exact List.isChain_cons_cons.mpr ⟨before, chain⟩
    · rename_i after
      have inserted := ih (List.IsChain.tail chain)
      have behind := notAfter_of_not after
      cases rest with
      | nil => exact List.isChain_cons_cons.mpr ⟨behind, List.isChain_singleton a⟩
      | cons second rest =>
        by_cases before : comparison.NotAfter a second
        · rw [List.orderedInsert_cons_of_le _ _ before] at inserted ⊢
          exact List.isChain_cons_cons.mpr ⟨behind, inserted⟩
        · rw [List.orderedInsert_of_not_le _ _ before] at inserted ⊢
          exact List.isChain_cons_cons.mpr ⟨(List.isChain_cons_cons.mp chain).1, inserted⟩

variable (comparison) in
theorem isChain_sort (list : List T) : (comparison.sort list).IsChain comparison.NotAfter := by
  induction list with
  | nil => exact List.isChain_nil
  | cons first rest ih => exact isChain_orderedInsert first ih

theorem sort_of_isChain {list : List T} (chain : list.IsChain comparison.NotAfter) :
    comparison.sort list = list := by
  induction list with
  | nil => rfl
  | cons first rest ih =>
    show (comparison.sort rest).orderedInsert comparison.NotAfter first = first :: rest
    rw [ih (List.IsChain.tail chain)]
    cases rest with
    | nil => rfl
    | cons second rest => exact List.orderedInsert_cons_of_le _ _ (List.isChain_cons_cons.mp chain).1

variable (comparison) in
theorem destutter'_eq_cons (first : T) (list : List T) :
    ∃ rest, list.destutter' comparison.Differ first = first :: rest := by
  induction list with
  | nil => exact ⟨[], rfl⟩
  | cons next list ih =>
    by_cases differs : comparison.Differ first next
    · exact ⟨_, List.destutter'_cons_pos _ differs⟩
    · rw [List.destutter'_cons_neg _ differs]
      exact ih

/-- Dropping what is the same as the last leaves the rest in order behind it. -/
theorem isChain_destutter' (last : T) {list : List T} (chain : (last :: list).IsChain comparison.NotAfter) :
    (list.destutter' comparison.Differ last).IsChain comparison.NotAfter := by
  induction list generalizing last with
  | nil => exact List.isChain_singleton last
  | cons next rest ih =>
    obtain ⟨before, later⟩ := List.isChain_cons_cons.mp chain
    by_cases differs : comparison.Differ last next
    · rw [List.destutter'_cons_pos _ differs]
      have behind := ih next later
      obtain ⟨kept, starts⟩ := destutter'_eq_cons comparison next rest
      rw [starts] at behind ⊢
      exact List.isChain_cons_cons.mpr ⟨before, behind⟩
    · rw [List.destutter'_cons_neg _ differs]
      have same : comparison.same last next = true := eq_true_of_ne_false differs
      apply ih
      cases rest with
      | nil => exact List.isChain_singleton last
      | cons second rest =>
        obtain ⟨order, later⟩ := List.isChain_cons_cons.mp later
        have order : comparison.NotAfter last second := (comparison.congr_less same second).trans order
        exact List.isChain_cons_cons.mpr ⟨order, later⟩

variable (comparison) in
theorem isChain_distinct (list : List T) : (comparison.distinct list).IsChain comparison.NotAfter := by
  have sorted := isChain_sort comparison list
  unfold distinct
  cases ordered : comparison.sort list with
  | nil => exact List.isChain_nil
  | cons first rest =>
    rw [ordered] at sorted
    exact isChain_destutter' first sorted

variable (comparison) in
theorem distinct_distinct (list : List T) :
    comparison.distinct (comparison.distinct list) = comparison.distinct list := by
  show (comparison.sort (comparison.distinct list)).destutter comparison.Differ = _
  rw [sort_of_isChain (isChain_distinct comparison list)]
  exact List.destutter_idem _ _

/-! ### Where all elements compare -/

theorem same_refl (total : comparison.Total) (a : T) : comparison.same a a = true := by
  rcases total a a with below | same | below
  · rw [less_irrefl] at below
    cases below
  · exact same
  · rw [less_irrefl] at below
    cases below

theorem less_of_distinct (total : comparison.Total) {a b : T} (order : comparison.NotAfter a b)
    (differ : comparison.Differ a b) : comparison.less a b = true := by
  rcases total a b with below | same | above
  · exact below
  · rw [differ] at same
    cases same
  · rw [order] at above
    cases above

variable (comparison) in
theorem pairwise_distinct (total : comparison.Total) (list : List T) :
    (comparison.distinct list).Pairwise fun a b => comparison.less a b = true := by
  have ordered := isChain_distinct comparison list
  have differ : (comparison.distinct list).IsChain comparison.Differ := List.isChain_destutter _ _
  have : IsTrans T fun a b => comparison.less a b = true := ⟨fun _ _ _ => comparison.less_trans⟩
  rw [← List.isChain_iff_pairwise]
  generalize comparison.distinct list = kept at ordered differ
  induction kept with
  | nil => exact List.isChain_nil
  | cons first rest ih =>
    have later := ih (List.IsChain.tail ordered) (List.IsChain.tail differ)
    cases rest with
    | nil => exact List.isChain_singleton first
    | cons second rest =>
      have order := (List.isChain_cons_cons.mp ordered).1
      have apart := (List.isChain_cons_cons.mp differ).1
      exact List.isChain_cons_cons.mpr ⟨less_of_distinct total order apart, later⟩

theorem not_less_of_same {a b : T} (same : comparison.same a b = true) : comparison.less a b = false :=
  (comparison.less_congr same b).trans (less_irrefl b)

/-- Two lists that ascend and have the same elements agree place by place. -/
theorem forall₂_same {list other : List T} (ascending : list.Pairwise fun a b => comparison.less a b = true)
    (otherAscending : other.Pairwise fun a b => comparison.less a b = true)
    (covered : ∀ a ∈ list, ∃ b ∈ other, comparison.same a b = true)
    (covers : ∀ b ∈ other, ∃ a ∈ list, comparison.same a b = true) :
    List.Forall₂ (fun a b => comparison.same a b = true) list other := by
  induction list generalizing other with
  | nil =>
    cases other with
    | nil => exact .nil
    | cons b others =>
      obtain ⟨a, among, _⟩ := covers b List.mem_cons_self
      cases among
  | cons a rest ih =>
    cases other with
    | nil =>
      obtain ⟨b, among, _⟩ := covered a List.mem_cons_self
      cases among
    | cons b others =>
      obtain ⟨first, restAscending⟩ := List.pairwise_cons.mp ascending
      obtain ⟨otherFirst, othersAscending⟩ := List.pairwise_cons.mp otherAscending
      -- Each head is the same as something in the other list, which is not before the other head.
      have heads : comparison.same a b = true := by
        obtain ⟨b', among, same⟩ := covered a List.mem_cons_self
        rcases List.mem_cons.mp among with rfl | among
        · exact same
        obtain ⟨a', among', same'⟩ := covers b List.mem_cons_self
        rcases List.mem_cons.mp among' with rfl | among'
        · exact same'
        have below : comparison.less b a = true := by
          rw [comparison.congr_less same b]
          exact otherFirst b' among
        have above : comparison.less a b = true := by
          rw [← comparison.congr_less same' a]
          exact first a' among'
        rw [comparison.less_asymm above] at below
        cases below
      refine .cons heads (ih restAscending othersAscending ?_ ?_)
      · intro later among
        obtain ⟨b', among', same⟩ := covered later (List.mem_cons_of_mem _ among)
        rcases List.mem_cons.mp among' with rfl | among'
        · have alike := comparison.same_trans heads (comparison.same_symm same)
          have below := first later among
          rw [not_less_of_same alike] at below
          cases below
        · exact ⟨b', among', same⟩
      · intro later among
        obtain ⟨a', among', same⟩ := covers later (List.mem_cons_of_mem _ among)
        rcases List.mem_cons.mp among' with rfl | among'
        · have alike := comparison.same_trans (comparison.same_symm heads) same
          have below := otherFirst later among
          rw [not_less_of_same alike] at below
          cases below
        · exact ⟨a', among', same⟩

/-- Lists with the same elements, in whatever order and however often, come out the same. -/
theorem same_distinct (total : comparison.Total) {list other : List T}
    (alike : ∀ element, comparison.Has list element ↔ comparison.Has other element) :
    List.Forall₂ (fun a b => comparison.same a b = true) (comparison.distinct list)
      (comparison.distinct other) := by
  have alike : ∀ element, comparison.Has (comparison.distinct list) element ↔
      comparison.Has (comparison.distinct other) element := by
    intro element
    rw [has_distinct, has_distinct]
    exact alike element
  apply forall₂_same (pairwise_distinct comparison total list) (pairwise_distinct comparison total other)
  · intro a among
    obtain ⟨b, there, same⟩ := (alike a).mp ⟨a, among, same_refl total a⟩
    exact ⟨b, there, comparison.same_symm same⟩
  · intro b among
    exact (alike b).mpr ⟨b, among, same_refl total b⟩

end Comparison

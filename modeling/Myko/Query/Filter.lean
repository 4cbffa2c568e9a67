import Mathlib.Data.List.Infix
import Mathlib.Data.String.Basic
import Myko.Lib.Comparison

/-!
The filters a query puts on the fields of an item. A type of field has the operations that mean something for
it: ids are matched exactly, numbers may lie in a range, strings may contain or start with another. The
canonical form of a filter is what its cache key is made of.
-/

namespace Myko.Query

/-- One id, or any of a set. -/
inductive IdFilter (T : Type) where
  | eq (value : T)
  | isIn (values : List T)

/-- One value of a type that has nothing but equality, or any of a set. -/
inductive EqFilter (T : Type) where
  | eq (value : T)
  | isIn (values : List T)

inductive StringFilter where
  | eq (value : String)
  | isIn (values : List String)
  | contains (needle : String)
  | startsWith (start : String)

/-- The bounds of a range belong to it, and either may be absent. -/
inductive NumericFilter (T : Type) where
  | eq (value : T)
  | isIn (values : List T)
  | range (min max : Option T)

variable {T F : Type} (comparison : Comparison T)

def inMatches (values : List T) (value : T) : Bool := values.any fun v => comparison.same v value

def canonicalInValues (values : List T) : List T := comparison.distinct values

/-- A set of one value is the value. -/
def collapse (eq : T → F) (isIn : List T → F) : List T → F
  | [only] => eq only
  | values => isIn values

/-! ### What a filter matches -/

def IdFilter.matchesValue : IdFilter T → T → Bool
  | .eq expected, value => comparison.same value expected
  | .isIn values, value => inMatches comparison values value

/-- The ids that can match. -/
def IdFilter.keyValues : IdFilter T → List T
  | .eq value => [value]
  | .isIn values => values

def EqFilter.matchesValue : EqFilter T → T → Bool
  | .eq expected, value => comparison.same value expected
  | .isIn values, value => inMatches comparison values value

/-- Strings are ordered by their characters, and equal when they are the same. -/
def strings : Comparison String := .ofLinearOrder

def StringFilter.matchesValue : StringFilter → String → Bool
  | .eq expected, value => strings.same value expected
  | .isIn values, value => inMatches strings values value
  | .contains needle, value => decide (needle.toList <:+: value.toList)
  | .startsWith start, value => start.toList.isPrefixOf value.toList

def NumericFilter.matchesValue : NumericFilter T → T → Bool
  | .eq expected, value => comparison.same value expected
  | .isIn values, value => inMatches comparison values value
  | .range min max, value =>
    min.all (fun min => comparison.less min value || comparison.same value min) &&
      max.all fun max => comparison.less value max || comparison.same value max

/-! ### Canonical forms -/

def IdFilter.canonicalize : IdFilter T → IdFilter T
  | .eq value => .eq value
  | .isIn values => collapse .eq .isIn (canonicalInValues comparison values)

def EqFilter.canonicalize : EqFilter T → EqFilter T
  | .eq value => .eq value
  | .isIn values => collapse .eq .isIn (canonicalInValues comparison values)

def StringFilter.canonicalize : StringFilter → StringFilter
  | .eq value => .eq value
  | .isIn values => collapse .eq .isIn (canonicalInValues strings values)
  | .contains needle => .contains needle
  | .startsWith start => .startsWith start

/-- The values of a numeric filter need not all compare. -/
def NumericFilter.canonicalize : NumericFilter T → NumericFilter T
  | .isIn values => collapse .eq .isIn (canonicalInValues comparison values)
  | .range (some a) (some b) => if comparison.same a b then .eq a else .range (some a) (some b)
  | .eq value => .eq value
  | .range min max => .range min max

/-! ### The same, and the same but for their sets -/

/-- Equality of filters is equality of their values, place by place. -/
def IdFilter.Same : IdFilter T → IdFilter T → Prop
  | .eq a, .eq b => comparison.same a b = true
  | .isIn as, .isIn bs => List.Forall₂ (fun a b => comparison.same a b = true) as bs
  | _, _ => False

def EqFilter.Same : EqFilter T → EqFilter T → Prop
  | .eq a, .eq b => comparison.same a b = true
  | .isIn as, .isIn bs => List.Forall₂ (fun a b => comparison.same a b = true) as bs
  | _, _ => False

def NumericFilter.Same : NumericFilter T → NumericFilter T → Prop
  | .eq a, .eq b => comparison.same a b = true
  | .isIn as, .isIn bs => List.Forall₂ (fun a b => comparison.same a b = true) as bs
  | .range min max, .range min' max' =>
    Option.Rel (fun a b => comparison.same a b = true) min min' ∧
      Option.Rel (fun a b => comparison.same a b = true) max max'
  | _, _ => False

/-- They differ at most in the order and the repetition of a set's values. -/
def IdFilter.SameSets : IdFilter T → IdFilter T → Prop
  | .isIn as, .isIn bs => ∀ value, value ∈ as ↔ value ∈ bs
  | filter, other => filter = other

def EqFilter.SameSets : EqFilter T → EqFilter T → Prop
  | .isIn as, .isIn bs => ∀ value, value ∈ as ↔ value ∈ bs
  | filter, other => filter = other

def StringFilter.SameSets : StringFilter → StringFilter → Prop
  | .isIn as, .isIn bs => ∀ value, value ∈ as ↔ value ∈ bs
  | filter, other => filter = other

def NumericFilter.SameSets : NumericFilter T → NumericFilter T → Prop
  | .isIn as, .isIn bs => ∀ value, value ∈ as ↔ value ∈ bs
  | filter, other => filter = other

/-! ### Sets of values -/

section Sets

variable {comparison}

theorem same_comm (a b : T) : comparison.same a b = comparison.same b a :=
  Bool.eq_iff_iff.mpr ⟨comparison.same_symm, comparison.same_symm⟩

theorem inMatches_iff {values : List T} {value : T} :
    inMatches comparison values value = true ↔ comparison.Has values value := by
  unfold inMatches Comparison.Has
  rw [List.any_eq_true]

theorem inMatches_canonical (values : List T) (value : T) :
    inMatches comparison (canonicalInValues comparison values) value = inMatches comparison values value := by
  rw [Bool.eq_iff_iff, inMatches_iff, inMatches_iff]
  exact Comparison.has_distinct

variable {eq : T → F} {isIn : List T → F}

theorem collapse_matches (accepts : F → T → Bool)
    (onEq : ∀ expected value, accepts (eq expected) value = comparison.same value expected)
    (onIn : ∀ values value, accepts (isIn values) value = inMatches comparison values value)
    (values : List T) (value : T) :
    accepts (collapse eq isIn (canonicalInValues comparison values)) value =
      inMatches comparison values value := by
  rw [← inMatches_canonical]
  rcases canonicalInValues comparison values with _ | ⟨only, _ | ⟨second, rest⟩⟩
  · exact onIn [] value
  · have single : inMatches comparison [only] value = comparison.same only value := Bool.or_false _
    rw [single, same_comm only value]
    exact onEq only value
  · exact onIn (only :: second :: rest) value

theorem collapse_canonical (canonical : F → F) (onEq : ∀ value, canonical (eq value) = eq value)
    (onIn : ∀ values, canonical (isIn values) = collapse eq isIn (canonicalInValues comparison values))
    (values : List T) :
    canonical (collapse eq isIn (canonicalInValues comparison values)) =
      collapse eq isIn (canonicalInValues comparison values) := by
  have again := comparison.distinct_distinct values
  unfold canonicalInValues at onIn ⊢
  rcases kept : comparison.distinct values with _ | ⟨first, _ | ⟨second, rest⟩⟩
  · rw [kept] at again
    show canonical (isIn []) = isIn []
    rw [onIn, again]
    rfl
  · exact onEq first
  · rw [kept] at again
    show canonical (isIn (first :: second :: rest)) = isIn (first :: second :: rest)
    rw [onIn, again]
    rfl

variable (eq isIn) in
theorem collapse_same (Same : F → F → Prop) (total : comparison.Total)
    (onEq : ∀ a b, comparison.same a b = true → Same (eq a) (eq b))
    (onIn : ∀ as bs, List.Forall₂ (fun a b => comparison.same a b = true) as bs → Same (isIn as) (isIn bs))
    {as bs : List T} (sets : ∀ value, value ∈ as ↔ value ∈ bs) :
    Same (collapse eq isIn (canonicalInValues comparison as))
      (collapse eq isIn (canonicalInValues comparison bs)) := by
  have alike : ∀ element, comparison.Has as element ↔ comparison.Has bs element := by
    intro element
    unfold Comparison.Has
    simp only [sets]
  have places := Comparison.same_distinct total alike
  unfold canonicalInValues
  generalize comparison.distinct as = kept at places ⊢
  generalize comparison.distinct bs = kept' at places ⊢
  cases places with
  | nil => exact onIn [] [] .nil
  | @cons a b rest rest' same later =>
    cases later with
    | nil => exact onEq a b same
    | cons next later => exact onIn _ _ (.cons same (.cons next later))

theorem eq_of_forall₂ (identical : ∀ a b, comparison.same a b = true → a = b) {as bs : List T}
    (places : List.Forall₂ (fun a b => comparison.same a b = true) as bs) : as = bs := by
  induction places with
  | nil => rfl
  | cons same _ ih => rw [identical _ _ same, ih]

theorem forall₂_refl (total : comparison.Total) (values : List T) :
    List.Forall₂ (fun a b => comparison.same a b = true) values values := by
  induction values with
  | nil => exact .nil
  | cons value rest ih => exact .cons (Comparison.same_refl total value) ih

theorem rel_refl (total : comparison.Total) (bound : Option T) :
    Option.Rel (fun a b => comparison.same a b = true) bound bound := by
  cases bound with
  | none => exact .none
  | some value => exact .some (Comparison.same_refl total value)

end Sets

theorem strings_total : strings.Total := Comparison.total_ofLinearOrder

theorem strings_identical (a b : String) (same : strings.same a b = true) : a = b := of_decide_eq_true same

/-! ### The canonical form matches the same values -/

section Canonical

variable {comparison}

theorem IdFilter.matchesValue_canonicalize (filter : IdFilter T) (value : T) :
    (filter.canonicalize comparison).matchesValue comparison value = filter.matchesValue comparison value := by
  cases filter with
  | eq expected => rfl
  | isIn values => exact collapse_matches (matchesValue comparison) (fun _ _ => rfl) (fun _ _ => rfl) values value

theorem EqFilter.matchesValue_canonicalize (filter : EqFilter T) (value : T) :
    (filter.canonicalize comparison).matchesValue comparison value = filter.matchesValue comparison value := by
  cases filter with
  | eq expected => rfl
  | isIn values => exact collapse_matches (matchesValue comparison) (fun _ _ => rfl) (fun _ _ => rfl) values value

theorem StringFilter.matchesValue_canonicalize (filter : StringFilter) (value : String) :
    filter.canonicalize.matchesValue value = filter.matchesValue value := by
  cases filter with
  | eq expected => rfl
  | isIn values => exact collapse_matches matchesValue (fun _ _ => rfl) (fun _ _ => rfl) values value
  | contains needle => rfl
  | startsWith start => rfl

/-- Between two bounds that are the same lies what is the same as they are. -/
theorem matches_point {a b : T} (same : comparison.same a b = true) (value : T) :
    comparison.same value a =
      ((comparison.less a value || comparison.same value a) &&
        (comparison.less value b || comparison.same value b)) := by
  rw [← comparison.congr_less same value]
  have upper : comparison.same value b = comparison.same value a := by
    rw [Bool.eq_iff_iff]
    exact ⟨fun held => comparison.same_trans held (comparison.same_symm same),
      fun held => comparison.same_trans held same⟩
  rw [upper]
  cases point : comparison.same value a with
  | true => simp
  | false =>
    cases above : comparison.less a value with
    | false => rfl
    | true => simp [comparison.less_asymm above]

theorem NumericFilter.matchesValue_canonicalize (filter : NumericFilter T) (value : T) :
    (filter.canonicalize comparison).matchesValue comparison value = filter.matchesValue comparison value := by
  cases filter with
  | eq expected => rfl
  | isIn values => exact collapse_matches (matchesValue comparison) (fun _ _ => rfl) (fun _ _ => rfl) values value
  | range min max =>
    cases min with
    | none => rfl
    | some a =>
      cases max with
      | none => rfl
      | some b =>
        show matchesValue comparison (if comparison.same a b then .eq a else .range (some a) (some b)) value = _
        split
        · rename_i same
          exact matches_point same value
        · rfl

/-! ### Canonical twice -/

theorem IdFilter.canonicalize_canonicalize (filter : IdFilter T) :
    (filter.canonicalize comparison).canonicalize comparison = filter.canonicalize comparison := by
  cases filter with
  | eq value => rfl
  | isIn values => exact collapse_canonical (canonicalize comparison) (fun _ => rfl) (fun _ => rfl) values

theorem EqFilter.canonicalize_canonicalize (filter : EqFilter T) :
    (filter.canonicalize comparison).canonicalize comparison = filter.canonicalize comparison := by
  cases filter with
  | eq value => rfl
  | isIn values => exact collapse_canonical (canonicalize comparison) (fun _ => rfl) (fun _ => rfl) values

theorem StringFilter.canonicalize_canonicalize (filter : StringFilter) :
    filter.canonicalize.canonicalize = filter.canonicalize := by
  cases filter with
  | isIn values => exact collapse_canonical canonicalize (fun _ => rfl) (fun _ => rfl) values
  | _ => rfl

theorem NumericFilter.canonicalize_canonicalize (filter : NumericFilter T) :
    (filter.canonicalize comparison).canonicalize comparison = filter.canonicalize comparison := by
  cases filter with
  | eq value => rfl
  | isIn values => exact collapse_canonical (canonicalize comparison) (fun _ => rfl) (fun _ => rfl) values
  | range min max =>
    cases min with
    | none => rfl
    | some a =>
      cases max with
      | none => rfl
      | some b =>
        by_cases same : comparison.same a b = true
        · have point : (range (some a) (some b)).canonicalize comparison = .eq a := if_pos same
          rw [point]
          rfl
        · have kept : (range (some a) (some b)).canonicalize comparison = .range (some a) (some b) := if_neg same
          rw [kept, kept]

/-! ### Filters that differ in their sets -/

theorem IdFilter.same_canonicalize (total : comparison.Total) {filter other : IdFilter T}
    (sets : SameSets filter other) :
    Same comparison (filter.canonicalize comparison) (other.canonicalize comparison) := by
  cases filter with
  | eq value =>
    cases sets
    exact Comparison.same_refl total value
  | isIn as =>
    cases other with
    | eq value => cases sets
    | isIn bs =>
      exact collapse_same eq isIn (Same comparison) total (fun _ _ same => same) (fun _ _ places => places) sets

theorem EqFilter.same_canonicalize (total : comparison.Total) {filter other : EqFilter T}
    (sets : SameSets filter other) :
    Same comparison (filter.canonicalize comparison) (other.canonicalize comparison) := by
  cases filter with
  | eq value =>
    cases sets
    exact Comparison.same_refl total value
  | isIn as =>
    cases other with
    | eq value => cases sets
    | isIn bs =>
      exact collapse_same eq isIn (Same comparison) total (fun _ _ same => same) (fun _ _ places => places) sets

theorem StringFilter.canonicalize_congr {filter other : StringFilter} (sets : SameSets filter other) :
    filter.canonicalize = other.canonicalize := by
  cases filter with
  | isIn as =>
    cases other with
    | isIn bs =>
      refine collapse_same eq isIn Eq strings_total ?_ ?_ sets
      · intro a b same
        rw [strings_identical a b same]
      · intro as bs places
        rw [eq_of_forall₂ strings_identical places]
    | _ => cases sets
  | _ =>
    cases sets
    rfl

theorem NumericFilter.Same.refl (total : comparison.Total) (filter : NumericFilter T) :
    Same comparison filter filter := by
  cases filter with
  | eq value => exact Comparison.same_refl total value
  | isIn values => exact forall₂_refl total values
  | range min max => exact ⟨rel_refl total min, rel_refl total max⟩

theorem NumericFilter.same_canonicalize (total : comparison.Total) {filter other : NumericFilter T}
    (sets : SameSets filter other) :
    Same comparison (filter.canonicalize comparison) (other.canonicalize comparison) := by
  cases filter with
  | eq value =>
    cases sets
    exact Same.refl total _
  | isIn as =>
    cases other with
    | isIn bs =>
      exact collapse_same eq isIn (Same comparison) total (fun _ _ same => same) (fun _ _ places => places) sets
    | _ => cases sets
  | range min max =>
    cases sets
    exact Same.refl total _

/-! ### Values that are identical when they are the same -/

theorem IdFilter.eq_of_same (identical : ∀ a b, comparison.same a b = true → a = b) {filter other : IdFilter T}
    (same : Same comparison filter other) : filter = other := by
  cases filter <;> cases other
  · rw [identical _ _ same]
  · cases same
  · cases same
  · rw [eq_of_forall₂ identical same]

theorem EqFilter.eq_of_same (identical : ∀ a b, comparison.same a b = true → a = b) {filter other : EqFilter T}
    (same : Same comparison filter other) : filter = other := by
  cases filter <;> cases other
  · rw [identical _ _ same]
  · cases same
  · cases same
  · rw [eq_of_forall₂ identical same]

theorem eq_of_rel (identical : ∀ a b, comparison.same a b = true → a = b) {bound other : Option T}
    (same : Option.Rel (fun a b => comparison.same a b = true) bound other) : bound = other := by
  cases same with
  | none => rfl
  | some same => rw [identical _ _ same]

theorem NumericFilter.eq_of_same (identical : ∀ a b, comparison.same a b = true → a = b)
    {filter other : NumericFilter T} (same : Same comparison filter other) : filter = other := by
  cases filter with
  | eq a =>
    cases other with
    | eq b => rw [identical _ _ same]
    | _ => cases same
  | isIn as =>
    cases other with
    | isIn bs => rw [eq_of_forall₂ identical same]
    | _ => cases same
  | range min max =>
    cases other with
    | range min' max' => rw [eq_of_rel identical same.1, eq_of_rel identical same.2]
    | _ => cases same

end Canonical

end Myko.Query

import Mathlib.Data.Prod.Lex
import Mathlib.Algebra.Order.Ring.Int
import Mathlib.Order.Compare

/-!
How well an entity matches a query: in tiers, and by a number within some of them.
-/

namespace Myko.Search.Typed

inductive Score where
  | exact
  | prefixed
  /-- The score of the fuzzy matcher, where more is better. -/
  | subsequence (score : Nat)
  /-- An edit distance, where less is better. -/
  | typo (distance : Nat)
  deriving DecidableEq

namespace Score

def tier : Score → Nat
  | exact => 3
  | prefixed => 2
  | subsequence _ => 1
  | typo _ => 0

def cmp (a b : Score) : Ordering :=
  let tierOrder := compare a.tier b.tier
  if tierOrder ≠ .eq then tierOrder
  else
    match a, b with
    | subsequence a, subsequence b => compare a b
    | typo a, typo b => compare b a
    | _, _ => .eq

/-- The number within a tier, the greater the better. -/
def inner : Score → Int
  | subsequence score => score
  | typo distance => -distance
  | _ => 0

def place (score : Score) : Lex (Nat × Int) := toLex (score.tier, score.inner)

theorem place_injective : Function.Injective place := by
  intro a b same
  obtain ⟨tiers, inners⟩ := Prod.mk.inj (toLex.injective same)
  cases a <;> cases b <;> simp_all [tier, inner]

instance : LinearOrder Score := LinearOrder.lift' place place_injective

variable {a b : Score}

theorem lt_iff : a < b ↔ a.tier < b.tier ∨ a.tier = b.tier ∧ a.inner < b.inner := Prod.Lex.toLex_lt_toLex

theorem le_iff : a ≤ b ↔ a.tier < b.tier ∨ a.tier = b.tier ∧ a.inner ≤ b.inner := Prod.Lex.toLex_le_toLex

theorem lt_of_tier (below : a.tier < b.tier) : a < b := lt_iff.mpr (.inl below)

/-- The comparison is that of a linear order. -/
theorem compares_cmp (a b : Score) : (a.cmp b).Compares a b := by
  unfold cmp
  rcases lt_trichotomy a.tier b.tier with below | same | above
  · rw [compare_lt_iff_lt.mpr below]
    exact lt_of_tier below
  · rw [compare_eq_iff_eq.mpr same]
    cases a with
    | subsequence score =>
      cases b with
      | subsequence score' =>
        show (compare score score').Compares _ _
        rcases lt_trichotomy score score' with less | rfl | more
        · rw [compare_lt_iff_lt.mpr less]
          exact lt_iff.mpr (.inr ⟨rfl, Int.ofNat_lt.mpr less⟩)
        · rw [compare_eq_iff_eq.mpr rfl]
          rfl
        · rw [compare_gt_iff_gt.mpr more]
          exact lt_iff.mpr (.inr ⟨rfl, Int.ofNat_lt.mpr more⟩)
      | _ => cases same
    | typo distance =>
      cases b with
      | typo distance' =>
        show (compare distance' distance).Compares _ _
        rcases lt_trichotomy distance' distance with less | rfl | more
        · rw [compare_lt_iff_lt.mpr less]
          exact lt_iff.mpr (.inr ⟨rfl, Int.neg_lt_neg (Int.ofNat_lt.mpr less)⟩)
        · rw [compare_eq_iff_eq.mpr rfl]
          rfl
        · rw [compare_gt_iff_gt.mpr more]
          exact lt_iff.mpr (.inr ⟨rfl, Int.neg_lt_neg (Int.ofNat_lt.mpr more)⟩)
      | _ => cases same
    | _ =>
      cases b with
      | exact => first | rfl | cases same
      | prefixed => first | rfl | cases same
      | _ => cases same
  · rw [compare_gt_iff_gt.mpr above]
    exact lt_of_tier above

theorem cmp_eq_gt : a.cmp b = .gt ↔ b < a := (compares_cmp a b).eq_gt

theorem cmp_isLE : (b.cmp a).isLE = true ↔ b ≤ a := by
  rw [← not_lt, ← cmp_eq_gt, Ordering.isLE_iff_ne_gt]

end Score

end Myko.Search.Typed

import Mathlib.Logic.Function.Basic
import Myko.Lib.MapDiff

/-!
The parent that each child names, kept together with the children of each parent.
-/

namespace ReverseIndex

variable {K P : Type} [Ord K] [Std.TransOrd K] [Std.LawfulEqOrd K] [DecidableEq K] [DecidableEq P]

/-- Every parent lists the children that name it, and a parent without children has no list. -/
structure Mirrors (parents : K → Option P) (children : P → Option (OrdSet K)) : Prop where
  listed : ∀ p k, k ∈ (children p).getD ∅ ↔ parents k = some p
  inhabited : ∀ p ids, children p = some ids → ∃ k, k ∈ ids

variable {parents : K → Option P} {children other : P → Option (OrdSet K)}

omit [DecidableEq K] [DecidableEq P] [Std.LawfulEqOrd K] in
theorem mirrors_empty : Mirrors (fun _ : K => none) fun _ : P => none where
  listed p k := by simp
  inhabited p ids none := by cases none

omit [DecidableEq K] [DecidableEq P] in
/-- The parents that children name leave no choice of the lists. -/
theorem Mirrors.unique (mirrors : Mirrors parents children) (mirrors' : Mirrors parents other) :
    children = other := by
  have same : ∀ p, (children p).getD ∅ = (other p).getD ∅ := fun p =>
    OrdSet.ext fun k => (mirrors.listed p k).trans (mirrors'.listed p k).symm
  funext p
  cases first : children p with
  | none =>
    cases second : other p with
    | none => rfl
    | some ids =>
      obtain ⟨k, member⟩ := mirrors'.inhabited p ids second
      have named := (mirrors'.listed p k).mp (by rw [second]; exact member)
      have absent := (mirrors.listed p k).mpr named
      rw [first] at absent
      simp at absent
  | some ids =>
    cases second : other p with
    | none =>
      obtain ⟨k, member⟩ := mirrors.inhabited p ids first
      have named := (mirrors.listed p k).mp (by rw [first]; exact member)
      have absent := (mirrors'.listed p k).mpr named
      rw [second] at absent
      simp at absent
    | some ids' => simpa [first, second] using same p

/-- File a child that names no parent yet. -/
theorem Mirrors.file (mirrors : Mirrors parents children) {k : K} (fresh : parents k = none) (p : P) :
    Mirrors (Function.update parents k (some p))
      (Function.update children p (some (((children p).getD ∅).insert k))) where
  listed q j := by
    by_cases same : j = k
    · subst same
      rw [Function.update_self]
      by_cases here : q = p
      · subst here
        simp
      · have absent : j ∉ (children q).getD ∅ := fun member => by
          have named := (mirrors.listed q j).mp member
          rw [fresh] at named
          cases named
        rw [Function.update_of_ne here]
        exact ⟨fun member => absurd member absent, fun named => absurd (Option.some.inj named).symm here⟩
    · rw [Function.update_of_ne same]
      by_cases here : q = p
      · subst here
        rw [Function.update_self, Option.getD_some, OrdSet.mem_insert, mirrors.listed]
        exact or_iff_right same
      · rw [Function.update_of_ne here]
        exact mirrors.listed q j
  inhabited q ids found := by
    by_cases here : q = p
    · subst here
      rw [Function.update_self] at found
      cases found
      exact ⟨k, OrdSet.mem_insert.mpr (.inl rfl)⟩
    · rw [Function.update_of_ne here] at found
      exact mirrors.inhabited q ids found

omit [DecidableEq K] [DecidableEq P] [Std.LawfulEqOrd K] in
/-- A parent that is named has a list. -/
theorem Mirrors.list_of_named (mirrors : Mirrors parents children) {k : K} {p : P}
    (named : parents k = some p) : ∃ ids, children p = some ids := by
  have member := (mirrors.listed p k).mpr named
  cases list : children p with
  | some ids => exact ⟨ids, rfl⟩
  | none =>
    rw [list] at member
    simp at member

/-- Take a child from under its parent, and the list with it when it was the last one. -/
theorem Mirrors.unfile (mirrors : Mirrors parents children) {k : K} {p : P}
    (named : parents k = some p) {ids : OrdSet K} (list : children p = some ids) :
    Mirrors (Function.update parents k none) (Function.update children p
      (if (ids.erase k).isEmpty then none else some (ids.erase k))) := by
  have left : ∀ q, ((Function.update children p
      (if (ids.erase k).isEmpty then none else some (ids.erase k))) q).getD ∅ =
      if q = p then ids.erase k else (children q).getD ∅ := by
    intro q
    by_cases here : q = p
    · subst here
      rw [Function.update_self, if_pos rfl]
      cases empty : (ids.erase k).isEmpty with
      | true => simpa using (Std.ExtTreeSet.isEmpty_iff.mp empty).symm
      | false => rfl
    · rw [Function.update_of_ne here, if_neg here]
  constructor
  · intro q j
    rw [left]
    by_cases same : j = k
    · subst same
      rw [Function.update_self]
      refine ⟨fun member => ?_, fun none => nomatch none⟩
      by_cases here : q = p
      · rw [if_pos here, OrdSet.mem_erase] at member
        exact absurd rfl member.1
      · rw [if_neg here, mirrors.listed, named] at member
        exact absurd (Option.some.inj member).symm here
    · rw [Function.update_of_ne same, ← mirrors.listed]
      by_cases here : q = p
      · subst here
        rw [if_pos rfl, OrdSet.mem_erase, list]
        exact and_iff_right same
      · rw [if_neg here]
  · intro q found some
    by_cases here : q = p
    · subst here
      rw [Function.update_self] at some
      split at some
      · cases some
      · rename_i rest
        cases some
        by_contra none
        push Not at none
        apply rest
        rw [Std.ExtTreeSet.isEmpty_iff]
        exact OrdSet.ext fun j => ⟨fun member => absurd member (none j), fun member => absurd member (by simp)⟩
    · rw [Function.update_of_ne here] at some
      exact mirrors.inhabited q found some

end ReverseIndex

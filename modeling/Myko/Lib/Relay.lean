import Mathlib.Data.Fintype.Pigeonhole
import Mathlib.Logic.Hydra
import Mathlib.Logic.Relation
import Mathlib.Order.WellFounded

/-!
Tokens that are passed on. A move takes one token away and leaves tokens at each place that comes next and nowhere
else, as many as it likes; whether the moves end is decided by where the tokens are, not by the order of the moves.
-/

namespace Relay
open Relation

variable {P : Type*} {next : P → P → Prop}

/-- One token is passed on. -/
def Passes (next : P → P → Prop) (before after : Multiset P) : Prop :=
  ∃ place rest passed, before = place ::ₘ rest ∧ after = rest + passed ∧ ∀ p, p ∈ passed ↔ next place p

/-- From the place a token can come to go round. -/
def Circles (next : P → P → Prop) (place : P) : Prop :=
  ∃ p, ReflTransGen next place p ∧ TransGen next p p

theorem Circles.of_next {place p : P} (step : next place p) (circles : Circles next p) : Circles next place := by
  obtain ⟨round, there, back⟩ := circles
  exact ⟨round, .head step there, back⟩

/-- Who can go round can take the first step of it. -/
theorem Circles.onward {place : P} (circles : Circles next place) : ∃ p, next place p ∧ Circles next p := by
  obtain ⟨round, there, back⟩ := circles
  rcases ReflTransGen.cases_head there with rfl | ⟨p, step, there⟩
  · obtain ⟨p, step, there⟩ := TransGen.head'_iff.mp back
    exact ⟨p, step, place, there, back⟩
  · exact ⟨p, step, round, there, back⟩

/-- Wherever all paths of a finite graph end, none of them goes round, and the other way about. -/
theorem acc_iff [Finite P] {place : P} : Acc (fun p q => next q p) place ↔ ¬Circles next place := by
  constructor
  · intro ends
    induction ends with
    | intro place _ ih =>
      intro circles
      obtain ⟨p, step, again⟩ := circles.onward
      exact ih p step again
  · intro straight
    by_contra endless
    obtain ⟨path, start, steps⟩ := not_acc_iff_exists_descending_chain.mp endless
    obtain ⟨m, n, apart, same⟩ := Finite.exists_ne_map_eq_of_infinite path
    have reaches : ∀ n k, ReflTransGen next (path n) (path (n + k)) := by
      intro n k
      induction k with
      | zero => exact .refl
      | succ k ih => exact .tail ih (steps (n + k))
    have returns : ∀ m n, m < n → path m = path n → Circles next place := by
      intro m n before same
      obtain ⟨k, rfl⟩ := Nat.exists_eq_add_of_lt before
      have there : ReflTransGen next place (path m) := by
        rw [← start]
        simpa using reaches 0 m
      refine ⟨path m, there, ?_⟩
      conv_rhs => rw [same]
      exact .tail' (reaches m k) (steps (m + k))
    rcases Nat.lt_or_gt_of_ne apart with before | after
    · exact straight (returns m n before same)
    · exact straight (returns n m after same.symm)

/-- A token that can go round is passed on to one that can. -/
theorem Passes.circles {before after : Multiset P} (passes : Passes next before after)
    (circles : ∃ p ∈ before, Circles next p) : ∃ p ∈ after, Circles next p := by
  obtain ⟨place, rest, passed, rfl, rfl, exact⟩ := passes
  obtain ⟨p, here, circles⟩ := circles
  rcases Multiset.mem_cons.mp here with rfl | here
  · obtain ⟨q, step, again⟩ := circles.onward
    exact ⟨q, Multiset.mem_add.mpr (.inr ((exact q).mpr step)), again⟩
  · exact ⟨p, Multiset.mem_add.mpr (.inl here), circles⟩

theorem Passes.straight {before after : Multiset P} (passes : Passes next before after)
    (straight : ∀ p ∈ before, ¬Circles next p) : ∀ p ∈ after, ¬Circles next p := by
  obtain ⟨place, rest, passed, rfl, rfl, exact⟩ := passes
  intro p here circles
  rcases Multiset.mem_add.mp here with here | here
  · exact straight p (Multiset.mem_cons_of_mem here) circles
  · exact straight place (Multiset.mem_cons_self place rest) (circles.of_next ((exact p).mp here))

/-- Tokens of which none can go round are passed on only so often. -/
theorem passes_end [Finite P] {tokens : Multiset P} (straight : ∀ p ∈ tokens, ¬Circles next p) :
    Acc (fun after before => Passes next before after) tokens := by
  -- The order on places leaves out the steps from where one can go round, so that nothing is below itself.
  let below : P → P → Prop := fun p q => next q p ∧ ¬Circles next q
  have irreflexive : Std.Irrefl below := ⟨fun p ⟨step, straight⟩ => straight ⟨p, .refl, .single step⟩⟩
  have places : ∀ p, ¬Circles next p → Acc below p := fun p straight =>
    Subrelation.accessible (fun step => step.1) (acc_iff.mpr straight)
  have heads : Acc (CutExpand below) tokens :=
    acc_of_singleton fun p here => (places p (straight p here)).cutExpand
  induction heads with
  | intro tokens _ ih =>
    refine .intro tokens fun after passes => ih after ?_ (passes.straight straight)
    obtain ⟨place, rest, passed, rfl, rfl, exact⟩ := passes
    refine ⟨passed, place, fun p among => ⟨(exact p).mp among, straight place (Multiset.mem_cons_self _ _)⟩, ?_⟩
    rw [← Multiset.singleton_add, add_comm, add_assoc]

end Relay

import Mathlib.Data.Nat.Find

/-!
Walks in a graph, counted by their steps: who is how far from a start, and the walks that get there.
-/

variable {N E : Type}

/-- `n` steps lead from the start to the node. -/
inductive Steps (next : N → N → Prop) (start : N) : Nat → N → Prop where
  | start : Steps next start 0 start
  | step {n : Nat} {x y : N} (before : Steps next start n x) (here : next x y) : Steps next start (n + 1) y

/-- The node is `n` steps from the start and no fewer. -/
def AtDistance (next : N → N → Prop) (start : N) (n : Nat) (x : N) : Prop :=
  Steps next start n x ∧ ∀ m, Steps next start m x → n ≤ m

/-- The edge leads from one node to the other. -/
def Linked (neighbors : N → List (E × N)) (x y : N) : Prop := ∃ edge, (edge, y) ∈ neighbors x

/-- A walk from the start, with its nodes and its edges in order. -/
inductive Trail (neighbors : N → List (E × N)) (start : N) : List N → List E → N → Prop where
  | start : Trail neighbors start [start] [] start
  | step {nodes : List N} {edges : List E} {x y : N} {edge : E} (before : Trail neighbors start nodes edges x)
    (here : (edge, y) ∈ neighbors x) : Trail neighbors start (nodes ++ [y]) (edges ++ [edge]) y

section
variable {next : N → N → Prop} {start : N} {n : Nat} {x y : N}

theorem Steps.zero (steps : Steps next start 0 x) : x = start := by
  cases steps
  rfl

theorem AtDistance.zero : AtDistance next start 0 start := ⟨.start, fun _ _ => Nat.zero_le _⟩

theorem AtDistance.unique {m : Nat} (h : AtDistance next start n x) (h' : AtDistance next start m x) : n = m :=
  Nat.le_antisymm (h.2 m h'.1) (h'.2 n h.1)

theorem AtDistance.ne_start (h : AtDistance next start (n + 1) x) : x ≠ start := by
  rintro rfl
  have none := h.2 0 .start
  omega

theorem Steps.mono {other : N → N → Prop} (onward : ∀ x y, next x y → other x y) (steps : Steps next start n x) :
    Steps other start n x := by
  induction steps with
  | start => exact .start
  | step _ here ih => exact .step ih (onward _ _ here)

/-- Whoever is reached is reached soonest in some number of steps. -/
theorem Steps.atDistance (steps : Steps next start n x) : ∃ m ≤ n, AtDistance next start m x := by
  classical
  have some : ∃ m, Steps next start m x := ⟨n, steps⟩
  exact ⟨Nat.find some, Nat.find_min' some steps, Nat.find_spec some, fun m steps => Nat.find_min' some steps⟩

/-- The last step to a node comes from one step nearer. -/
theorem AtDistance.before (h : AtDistance next start (n + 1) y) :
    ∃ x, AtDistance next start n x ∧ next x y := by
  obtain ⟨steps, least⟩ := h
  cases steps with
  | @step _ x _ before here =>
    refine ⟨x, ⟨before, fun m other => ?_⟩, here⟩
    have longer := least (m + 1) (.step other here)
    omega

theorem Trail.steps {neighbors : N → List (E × N)} {nodes : List N} {edges : List E}
    (trail : Trail neighbors start nodes edges x) : Steps (Linked neighbors) start edges.length x := by
  induction trail with
  | start => exact .start
  | step _ here ih =>
    rw [List.length_append]
    exact .step ih ⟨_, here⟩

end

/-! ### Walks that know where to go -/

/-- The places visited from one on, until there is no next one. -/
inductive Visited (next : N → Option N) : N → List N → Prop where
  | stop {x : N} (last : next x = none) : Visited next x [x]
  | step {x y : N} {later : List N} (here : next x = some y) (rest : Visited next y later) :
    Visited next x (x :: later)

section
variable {next : N → Option N} {x : N} {places : List N}

/-- What every step keeps holds wherever the walk comes by. -/
theorem Visited.invariant {holds : N → Prop} (visited : Visited next x places) (start : holds x)
    (kept : ∀ x y, holds x → next x = some y → holds y) : ∀ place ∈ places, holds place := by
  induction visited with
  | stop _ => simpa using start
  | step here _ ih => exact List.forall_mem_cons.mpr ⟨start, ih (kept _ _ start here)⟩

end

import Mathlib.Data.Finset.Card
import Mathlib.Data.List.Chain
import Mathlib.Data.Finset.Filter
import Mathlib.Logic.Function.Basic

/-!
Depth-first search for a cycle. A node is marked while it stands on the path that is searched, and again once
everything behind it is.
-/

namespace DepthFirst

inductive Mark where
  | visiting
  | visited
  deriving DecidableEq

section
variable {N : Type}

/-- The marks after searching from each node in turn, or the first cycle found. -/
def visitAll (visit : (N → Option Mark) → N → Option (Except (List N) (N → Option Mark))) :
    List N → (N → Option Mark) → Option (Except (List N) (N → Option Mark))
  | [], marks => some (.ok marks)
  | node :: rest, marks =>
    match visit marks node with
    | some (.ok marks) => visitAll visit rest marks
    | other => other

/-- A walk that ends where it starts. -/
def ClosedWalk (next : N → List N) (walk : List N) : Prop :=
  ∃ node path, walk = node :: path ++ [node] ∧ walk.IsChain fun x y => y ∈ next x

theorem ClosedWalk.transGen {next : N → List N} {walk : List N} (closed : ClosedWalk next walk) :
    ∃ node, Relation.TransGen (fun x y => y ∈ next x) node node := by
  obtain ⟨node, path, rfl, chain⟩ := closed
  have reaches : ∀ (path : List N) (start : N), (start :: path ++ [node]).IsChain (fun x y => y ∈ next x) →
      Relation.TransGen (fun x y => y ∈ next x) start node := by
    intro path
    induction path with
    | nil => exact fun start chain => .single (List.isChain_cons_cons.mp chain).1
    | cons first rest ih =>
      intro start chain
      obtain ⟨here, later⟩ := List.isChain_cons_cons.mp chain
      exact .head here (ih first later)
  exact ⟨node, reaches path node chain⟩

end

variable {N : Type} [DecidableEq N] (next : N → List N)

/-- Search from a node at the end of the path; nothing when the steps run out. -/
def visit : Nat → List N → (N → Option Mark) → N → Option (Except (List N) (N → Option Mark))
  | 0, _, _, _ => none
  | steps + 1, stack, marks, node =>
    match marks node with
    | some .visiting => some (.error (stack.drop ((stack.idxOf? node).getD 0) ++ [node]))
    | some .visited => some (.ok marks)
    | none =>
      match visitAll (visit steps (stack ++ [node])) (next node) (Function.update marks node (some .visiting)) with
      | some (.ok marks) => some (.ok (Function.update marks node (some .visited)))
      | other => other

/-- The nodes on the path are those under way, and no walk goes on for ever from one that is done. -/
structure Colours (stack : List N) (marks : N → Option Mark) : Prop where
  onPath : ∀ x, marks x = some .visiting ↔ x ∈ stack
  done : ∀ x, marks x = some .visited → Acc (fun y x => y ∈ next x) x

variable {next} {stack : List N} {marks marks' : N → Option Mark} {node : N} {steps : Nat}

/-- What is done stays done. -/
def Keeps (marks marks' : N → Option Mark) : Prop := ∀ x, marks x = some .visited → marks' x = some .visited

theorem Colours.enter (colours : Colours next stack marks) (fresh : marks node = none) :
    Colours next (stack ++ [node]) (Function.update marks node (some .visiting)) ∧
      Keeps marks (Function.update marks node (some .visiting)) := by
  refine ⟨⟨fun x => ?_, fun x visited => ?_⟩, fun x visited => ?_⟩
  · rw [List.mem_append, List.mem_singleton, ← colours.onPath]
    by_cases here : x = node
    · subst here
      simp
    · rw [Function.update_of_ne here]
      simp [here]
  · by_cases here : x = node
    · subst here
      rw [Function.update_self] at visited
      cases visited
    · rw [Function.update_of_ne here] at visited
      exact colours.done x visited
  · have apart : x ≠ node := by
      rintro rfl
      rw [fresh] at visited
      cases visited
    rw [Function.update_of_ne apart]
    exact visited

theorem Colours.leave (colours : Colours next (stack ++ [node]) marks) (unlisted : node ∉ stack)
    (done : ∀ y ∈ next node, marks y = some .visited) :
    Colours next stack (Function.update marks node (some .visited)) := by
  refine ⟨fun x => ?_, fun x visited => ?_⟩
  · have path := colours.onPath x
    rw [List.mem_append, List.mem_singleton] at path
    by_cases here : x = node
    · subst here
      simp [unlisted]
    · rw [Function.update_of_ne here, path]
      simp [here]
  · by_cases here : x = node
    · subst here
      exact ⟨x, fun y successor => colours.done y (done y successor)⟩
    · rw [Function.update_of_ne here] at visited
      exact colours.done x visited

/-! ### Nothing found -/

omit [DecidableEq N] in
theorem visitAll_ok {visit : (N → Option Mark) → N → Option (Except (List N) (N → Option Mark))}
    (each : ∀ {marks marks' node}, Colours next stack marks → visit marks node = some (.ok marks') →
      Colours next stack marks' ∧ Keeps marks marks' ∧ marks' node = some .visited) {nodes : List N}
    (colours : Colours next stack marks) (run : visitAll visit nodes marks = some (.ok marks')) :
    Colours next stack marks' ∧ Keeps marks marks' ∧ ∀ node ∈ nodes, marks' node = some .visited := by
  induction nodes generalizing marks with
  | nil =>
    cases run
    exact ⟨colours, fun _ visited => visited, fun _ listed => nomatch listed⟩
  | cons node rest ih =>
    unfold visitAll at run
    split at run
    · rename_i mid first
      obtain ⟨colours, kept, visited⟩ := each colours first
      obtain ⟨colours, kept', others⟩ := ih colours run
      refine ⟨colours, fun x visited => kept' x (kept x visited), fun x listed => ?_⟩
      rcases List.mem_cons.mp listed with rfl | listed
      · exact kept' x visited
      · exact others x listed
    · rename_i failed
      exact absurd run (failed marks')

theorem visit_ok (colours : Colours next stack marks) (run : visit next steps stack marks node = some (.ok marks')) :
    Colours next stack marks' ∧ Keeps marks marks' ∧ marks' node = some .visited := by
  induction steps generalizing stack marks node marks' with
  | zero => cases run
  | succ steps ih =>
    unfold visit at run
    split at run
    · cases run
    · rename_i visited
      cases run
      exact ⟨colours, fun _ visited => visited, visited⟩
    · rename_i fresh
      split at run
      · rename_i mid searched
        cases run
        obtain ⟨entered, kept⟩ := colours.enter fresh
        obtain ⟨colours', kept', others⟩ := visitAll_ok ih entered searched
        have unlisted : node ∉ stack := by
          intro listed
          rw [(colours.onPath node).mpr listed] at fresh
          cases fresh
        refine ⟨colours'.leave unlisted others, fun x visited => ?_, Function.update_self ..⟩
        by_cases here : x = node
        · rw [here, Function.update_self]
        · rw [Function.update_of_ne here]
          exact kept' x (kept x visited)
      · rename_i failed
        exact absurd run (failed marks')

/-! ### A cycle found -/

omit [DecidableEq N] in
theorem visitAll_error {visit : (N → Option Mark) → N → Option (Except (List N) (N → Option Mark))}
    (each : ∀ {marks marks' node}, Colours next stack marks → visit marks node = some (.ok marks') →
      Colours next stack marks' ∧ Keeps marks marks' ∧ marks' node = some .visited)
    {nodes cycle : List N} (colours : Colours next stack marks)
    (run : visitAll visit nodes marks = some (.error cycle)) :
    ∃ marks', ∃ node ∈ nodes, Colours next stack marks' ∧ visit marks' node = some (.error cycle) := by
  induction nodes generalizing marks with
  | nil => cases run
  | cons node rest ih =>
    unfold visitAll at run
    split at run
    · rename_i mid first
      obtain ⟨marks', found, listed, colours, search⟩ := ih (each colours first).1 run
      exact ⟨marks', found, List.mem_cons_of_mem _ listed, colours, search⟩
    · exact ⟨marks, node, List.mem_cons_self, colours, run⟩

theorem closedWalk_of_back (chain : (stack ++ [node]).IsChain fun x y => y ∈ next x) (listed : node ∈ stack) :
    ClosedWalk next (stack.drop ((stack.idxOf? node).getD 0) ++ [node]) := by
  have within := List.idxOf_lt_length_of_mem listed
  have position : stack.idxOf? node = some (stack.idxOf node) := by
    rw [List.idxOf?_eq_some_iff]
    exact ⟨within, List.getElem_idxOf within, fun j earlier => by
      simpa using List.not_of_lt_findIdx earlier⟩
  rw [position, Option.getD_some]
  refine ⟨node, stack.drop (stack.idxOf node + 1), ?_, ?_⟩
  · rw [List.drop_eq_getElem_cons within, List.getElem_idxOf within]
  · have dropped := chain.drop (stack.idxOf node)
    rwa [List.drop_append_of_le_length within.le] at dropped

theorem visit_error {cycle : List N} (colours : Colours next stack marks)
    (chain : (stack ++ [node]).IsChain fun x y => y ∈ next x)
    (run : visit next steps stack marks node = some (.error cycle)) : ClosedWalk next cycle := by
  induction steps generalizing stack marks node with
  | zero => cases run
  | succ steps ih =>
    unfold visit at run
    split at run
    · rename_i visiting
      cases run
      exact closedWalk_of_back chain ((colours.onPath node).mp visiting)
    · cases run
    · rename_i fresh
      split at run
      · cases run
      · obtain ⟨marks', successor, listed, colours', search⟩ :=
          visitAll_error visit_ok (colours.enter fresh).1 run
        refine ih colours' ?_ search
        refine List.isChain_append.mpr ⟨chain, .singleton _, fun x last y first => ?_⟩
        rw [List.getLast?_concat, Option.mem_some_iff] at last
        obtain rfl : successor = y := Option.mem_some_iff.mp first
        rwa [← last]

/-! ### The steps are enough -/

/-- The nodes not come to yet. -/
def fresh (nodes : Finset N) (marks : N → Option Mark) : Finset N := nodes.filter fun x => marks x = none

section
variable {nodes : Finset N}

theorem fresh_enter (inside : node ∈ nodes) (new : marks node = none) (mark : Mark) :
    (fresh nodes (Function.update marks node (some mark))).card < (fresh nodes marks).card := by
  refine Finset.card_lt_card (Finset.ssubset_iff_subset_ne.mpr ⟨fun x member => ?_, fun same => ?_⟩)
  · obtain ⟨inside, unmarked⟩ := Finset.mem_filter.mp member
    refine Finset.mem_filter.mpr ⟨inside, ?_⟩
    by_cases here : x = node
    · rwa [here]
    · rwa [Function.update_of_ne here] at unmarked
  · have member : node ∈ fresh nodes marks := Finset.mem_filter.mpr ⟨inside, new⟩
    rw [← same] at member
    have unmarked := (Finset.mem_filter.mp member).2
    rw [Function.update_self] at unmarked
    cases unmarked

omit [DecidableEq N] in
theorem fresh_mono (colours : Colours next stack marks) (colours' : Colours next stack marks')
    (kept : Keeps marks marks') : (fresh nodes marks').card ≤ (fresh nodes marks).card := by
  refine Finset.card_le_card fun x member => ?_
  obtain ⟨inside, unmarked⟩ := Finset.mem_filter.mp member
  refine Finset.mem_filter.mpr ⟨inside, ?_⟩
  cases before : marks x with
  | none => rfl
  | some mark =>
    cases mark with
    | visiting =>
      rw [(colours'.onPath x).mpr ((colours.onPath x).mp before)] at unmarked
      cases unmarked
    | visited =>
      rw [kept x before] at unmarked
      cases unmarked

omit [DecidableEq N] in
theorem visitAll_returns {visit : (N → Option Mark) → N → Option (Except (List N) (N → Option Mark))} {bound : Nat}
    (each : ∀ {marks marks' node}, Colours next stack marks → visit marks node = some (.ok marks') →
      Colours next stack marks' ∧ Keeps marks marks' ∧ marks' node = some .visited)
    (returns : ∀ {marks node}, Colours next stack marks → node ∈ nodes → (fresh nodes marks).card < bound →
      visit marks node ≠ none) {listed : List N} (inside : ∀ node ∈ listed, node ∈ nodes)
    (colours : Colours next stack marks) (few : (fresh nodes marks).card < bound) :
    visitAll visit listed marks ≠ none := by
  induction listed generalizing marks with
  | nil => exact Option.some_ne_none _
  | cons node rest ih =>
    unfold visitAll
    split
    · rename_i mid first
      obtain ⟨colours', kept, -⟩ := each colours first
      exact ih (fun other later => inside other (List.mem_cons_of_mem _ later)) colours'
        ((fresh_mono colours colours' kept).trans_lt few)
    · exact returns colours (inside node List.mem_cons_self) few

theorem visit_returns (closed : ∀ x ∈ nodes, ∀ y ∈ next x, y ∈ nodes) (colours : Colours next stack marks)
    (inside : node ∈ nodes) (few : (fresh nodes marks).card < steps) :
    visit next steps stack marks node ≠ none := by
  induction steps generalizing stack marks node with
  | zero => exact absurd few (Nat.not_lt_zero _)
  | succ steps ih =>
    unfold visit
    split
    · exact Option.some_ne_none _
    · exact Option.some_ne_none _
    · rename_i new
      have less := fresh_enter inside new .visiting
      have searched := visitAll_returns visit_ok ih (closed node inside) (colours.enter new).1 (by omega)
      split
      · exact Option.some_ne_none _
      · exact searched

end

/-! ### The whole search -/

variable (next) in
/-- A cycle found from one of the nodes, if there is one. -/
def findCycle (steps : Nat) (nodes : List N) : Option (Option (List N)) :=
  (visitAll (visit next steps []) nodes fun _ => none).map fun result =>
    match result with
    | .ok _ => none
    | .error cycle => some cycle

omit [DecidableEq N] in
theorem colours_start : Colours next [] fun _ => none :=
  ⟨fun _ => ⟨fun visiting => (nomatch visiting), fun listed => (nomatch listed)⟩, fun _ visited => (nomatch visited)⟩

/-- With steps for all nodes that matter the search answers: with a closed walk, or with nothing when there is no
cycle. -/
theorem findCycle_spec {order : List N} {nodes : Finset N} (closed : ∀ x ∈ nodes, ∀ y ∈ next x, y ∈ nodes)
    (inside : ∀ x ∈ order, x ∈ nodes) (sources : ∀ x, next x ≠ [] → x ∈ order) (few : nodes.card < steps) :
    ∃ result, findCycle next steps order = some result ∧
      (result.isSome = true ↔ ∃ x, Relation.TransGen (fun x y => y ∈ next x) x x) ∧
      ∀ cycle ∈ result, ClosedWalk next cycle := by
  have enough : (fresh nodes fun _ => none).card < steps := (Finset.card_filter_le _ _).trans_lt few
  obtain ⟨result, run⟩ := Option.ne_none_iff_exists'.mp
    (visitAll_returns visit_ok (fun colours here few => visit_returns closed colours here few) inside
      colours_start enough)
  unfold findCycle
  rw [run, Option.map_some]
  cases result with
  | ok marks =>
    obtain ⟨colours, -, visited⟩ := visitAll_ok visit_ok colours_start run
    refine ⟨none, rfl, ⟨fun found => (nomatch found), fun cyclic => ?_⟩, fun _ found => (nomatch found)⟩
    obtain ⟨x, cycle⟩ := cyclic
    have ends : ∀ x, Acc (fun y x => y ∈ next x) x := by
      intro x
      by_cases bare : next x = []
      · exact ⟨x, fun y successor => by rw [bare] at successor; cases successor⟩
      · exact colours.done x (visited x (sources x bare))
    have swapped := Relation.transGen_swap.mpr cycle
    exact absurd swapped ((WellFounded.transGen ⟨ends⟩).asymmetric x x swapped)
  | error cycle =>
    have walk : ClosedWalk next cycle := by
      obtain ⟨marks, node, -, colours, search⟩ := visitAll_error visit_ok colours_start run
      exact visit_error colours (.singleton _) search
    refine ⟨some cycle, rfl, ⟨fun _ => walk.transGen, fun _ => rfl⟩, fun other found => ?_⟩
    cases found
    exact walk

end DepthFirst

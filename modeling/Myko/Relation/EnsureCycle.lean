import Myko.Lib.DepthFirst
import Myko.Relation.Tables

/-!
Types that are ensured for one another. Ensured entities get fresh ids, so relations whose types depend on one
another in a circle are refused when the tables are built.
-/

namespace Myko

namespace RelationshipTables

/-- The types ensured for each item of a type. -/
def dependents (tables : RelationshipTables) (dependency : String) : List String :=
  ((tables.ensureForBy dependency).map EnsureForLookup.localType).eraseDups

/-- The search for a cycle, given the dependencies in the order in which their map is gone through. -/
def ensureForCycle (tables : RelationshipTables) (order : List String) : Option (Option (List String)) :=
  DepthFirst.findCycle tables.dependents (2 * tables.ensureForByDependency.length + 1) order

theorem mem_dependents {tables : RelationshipTables} {dependency dependent : String} :
    dependent ∈ tables.dependents dependency ↔
      ∃ lookup, (dependency, lookup) ∈ tables.ensureForByDependency ∧ lookup.localType = dependent := by
  unfold dependents ensureForBy
  simp only [List.mem_eraseDups, List.mem_map, List.mem_filter, decide_eq_true_eq]
  constructor
  · rintro ⟨lookup, ⟨⟨_, lookup⟩, ⟨listed, rfl⟩, rfl⟩, rfl⟩
    exact ⟨lookup, listed, rfl⟩
  · rintro ⟨lookup, listed, rfl⟩
    exact ⟨lookup, ⟨(dependency, lookup), ⟨listed, rfl⟩, rfl⟩, rfl⟩

theorem mem_ensureForByDependency {relations : List Relation} {dependency : String} {lookup : EnsureForLookup} :
    (dependency, lookup) ∈ (ofRelations relations).ensureForByDependency ↔
      .ensureFor lookup ∈ relations ∧ dependency ∈ lookup.dependencies.map Prod.fst := by
  have grown : ∀ (relations : List Relation) (tables : RelationshipTables),
      (dependency, lookup) ∈ (relations.foldl register tables).ensureForByDependency ↔
        (dependency, lookup) ∈ tables.ensureForByDependency ∨
          .ensureFor lookup ∈ relations ∧ dependency ∈ lookup.dependencies.map Prod.fst := by
    intro relations
    induction relations with
    | nil => simp
    | cons relation rest ih =>
      intro tables
      rw [List.foldl_cons, ih]
      cases relation with
      | belongsTo key => simp [register]
      | ownsMany other => simp [register]
      | ensureFor other =>
        have added : (dependency, lookup) ∈ (tables.register (.ensureFor other)).ensureForByDependency ↔
            (dependency, lookup) ∈ tables.ensureForByDependency ∨
              other = lookup ∧ dependency ∈ lookup.dependencies.map Prod.fst := by
          simp only [register, List.mem_append, List.mem_map, List.mem_eraseDups]
          refine or_congr_right ⟨?_, ?_⟩
          · rintro ⟨foreignType, listed, same⟩
            obtain ⟨rfl, rfl⟩ := Prod.mk.inj same
            exact ⟨rfl, listed⟩
          · rintro ⟨rfl, listed⟩
            exact ⟨dependency, listed, rfl⟩
        rw [added, List.mem_cons, Relation.ensureFor.injEq, or_assoc, ← or_and_right, eq_comm]
  have none : (dependency, lookup) ∉ empty.ensureForByDependency := List.not_mem_nil
  rw [ofRelations, grown, or_iff_right none]

end RelationshipTables

/-- A type is ensured for each item of another. -/
def EnsuredFor (relations : List Relation) (dependency dependent : String) : Prop :=
  ∃ lookup, .ensureFor lookup ∈ relations ∧ dependency ∈ lookup.dependencies.map Prod.fst ∧
    lookup.localType = dependent

theorem mem_dependents_iff {relations : List Relation} {dependency dependent : String} :
    dependent ∈ (RelationshipTables.ofRelations relations).dependents dependency ↔
      EnsuredFor relations dependency dependent := by
  simp only [RelationshipTables.mem_dependents, RelationshipTables.mem_ensureForByDependency, EnsuredFor, and_assoc]

/-- A cycle is reported exactly when some type comes to be ensured for itself, and what is reported leads from a type
back to it. -/
theorem ensure_for_cycle_iff (relations : List Relation) {order : List String}
    (keys : ∀ dependency, dependency ∈ order ↔
      dependency ∈ (RelationshipTables.ofRelations relations).ensureForByDependency.map Prod.fst) :
    ∃ result, (RelationshipTables.ofRelations relations).ensureForCycle order = some result ∧
      (result.isSome = true ↔ ∃ entityType, Relation.TransGen (EnsuredFor relations) entityType entityType) ∧
      ∀ cycle ∈ result, ∃ entityType path, cycle = entityType :: path ++ [entityType] ∧
        cycle.IsChain (EnsuredFor relations) := by
  let tables := RelationshipTables.ofRelations relations
  let nodes := ((tables.ensureForByDependency.map Prod.fst) ++
    tables.ensureForByDependency.map fun entry => entry.2.localType).toFinset
  have edge : (fun x y => y ∈ tables.dependents x) = EnsuredFor relations := by
    funext dependency dependent
    exact propext mem_dependents_iff
  have few : nodes.card < 2 * tables.ensureForByDependency.length + 1 := by
    have counted := List.toFinset_card_le ((tables.ensureForByDependency.map Prod.fst) ++
      tables.ensureForByDependency.map fun entry => entry.2.localType)
    rw [List.length_append, List.length_map, List.length_map] at counted
    change nodes.card ≤ _ at counted
    omega
  have inside : ∀ x ∈ order, x ∈ nodes := fun x listed =>
    List.mem_toFinset.mpr (List.mem_append_left _ ((keys x).mp listed))
  have closed : ∀ x ∈ nodes, ∀ y ∈ tables.dependents x, y ∈ nodes := by
    intro x _ y successor
    obtain ⟨lookup, listed, rfl⟩ := RelationshipTables.mem_dependents.mp successor
    have among := List.mem_map_of_mem (f := fun entry => entry.2.localType) listed
    exact List.mem_toFinset.mpr (List.mem_append_right _ among)
  have sources : ∀ x, tables.dependents x ≠ [] → x ∈ order := by
    intro x some
    obtain ⟨dependent, successor⟩ := List.exists_mem_of_ne_nil _ some
    obtain ⟨lookup, listed, -⟩ := RelationshipTables.mem_dependents.mp successor
    exact (keys x).mpr (List.mem_map_of_mem (f := Prod.fst) listed)
  obtain ⟨result, run, found, walks⟩ := DepthFirst.findCycle_spec closed inside sources few
  rw [edge] at found
  refine ⟨result, run, found, fun cycle reported => ?_⟩
  obtain ⟨entityType, path, same, chain⟩ := walks cycle reported
  rw [edge] at chain
  exact ⟨entityType, path, same, chain⟩

namespace Sample

def cycleA : EnsureForLookup where
  localType := "CycleA"
  dependencies := [("CycleB", "cycle_b_id")]
  blank := []
  defaults := []

def cycleB : EnsureForLookup where
  localType := "CycleB"
  dependencies := [("CycleA", "cycle_a_id")]
  blank := []
  defaults := []

example : (RelationshipTables.ofRelations [.ensureFor cycleA, .ensureFor cycleB]).ensureForCycle ["CycleA", "CycleB"] =
    some (some ["CycleA", "CycleB", "CycleA"]) := by decide

theorem cycle_between_two : ∃ result,
    (RelationshipTables.ofRelations [.ensureFor cycleA, .ensureFor cycleB]).ensureForCycle ["CycleA", "CycleB"] =
      some result ∧
      (result.isSome = true ↔ ∃ entityType,
        Relation.TransGen (EnsuredFor [.ensureFor cycleA, .ensureFor cycleB]) entityType entityType) ∧
      ∀ cycle ∈ result, ∃ entityType path, cycle = entityType :: path ++ [entityType] ∧
        cycle.IsChain (EnsuredFor [.ensureFor cycleA, .ensureFor cycleB]) :=
  ensure_for_cycle_iff _ fun dependency => by
    have listed : (RelationshipTables.ofRelations [.ensureFor cycleA, .ensureFor cycleB]).ensureForByDependency.map
      Prod.fst = ["CycleB", "CycleA"] := by decide
    rw [listed, List.mem_pair, List.mem_pair, or_comm]

end Sample

end Myko

import Myko.Graph.DeletePlan
import Myko.Graph.ExactTraversal
import Myko.Graph.Lookup

/-!
Traversal over the two layouts of an edge type: the maps kept of its ends, or an adjacency built for the request
from the stored edges. They list the same neighbors, but for what becomes of self-loops on the way back.
-/

namespace Myko

/-- Whether a traversal in the direction leaves a node along edges that have it at the position. -/
def EdgeRegistration.needs (registration : EdgeRegistration) (direction : Direction) : EndPosition → Bool
  | .a => direction ≠ .reverse || registration.shape = .undirected
  | .b => direction ≠ .forward || registration.shape = .undirected

/-- The edge belongs to the scope, if one is asked for. -/
def IndexedEdge.within (edge : IndexedEdge) (scope : Option IndexValue) : Prop :=
  ¬(scope.isSome ∧ edge.scope ≠ scope)

instance (edge : IndexedEdge) (scope : Option IndexValue) : Decidable (edge.within scope) :=
  inferInstanceAs (Decidable ¬(scope.isSome ∧ edge.scope ≠ scope))

section
variable (registration : EdgeRegistration) (direction : Direction) (scope : Option IndexValue)

def projectedNeighbor (node : EntityRef) (edge : IndexedEdge) : Option EntityRef :=
  if edge.endpoints.a.entity = node ∧ registration.needs direction .a then some edge.endpoints.b.entity
  else if edge.endpoints.b.entity = node ∧ registration.needs direction .b then some edge.endpoints.a.entity
  else none

/-- The entry that an edge of the scope makes in a list of neighbors. -/
def neighborEntry (neighbor : IndexedEdge → Option EntityRef) (id : String) : Option IndexedEdge →
    Option (String × EntityRef)
  | none => none
  | some edge => if edge.within scope then (neighbor edge).map fun neighbor => (id, neighbor) else none

def projectedTraversalNeighbors (edges : EdgeTypeState) (node : EntityRef) : List (String × EntityRef) :=
  let candidates : OrdSet String := ∅
  let candidates := if registration.needs direction .a then
    GraphView.extendIds candidates (edges.aEntities node) else candidates
  let candidates := if registration.needs direction .b then
    GraphView.extendIds candidates (edges.bEntities node) else candidates
  (candidates.toList.filterMap fun id =>
    neighborEntry scope (projectedNeighbor registration direction node) id (edges.edges id)).reverse

abbrev Adjacency := EntityRef → Option (List (String × EntityRef))

def Adjacency.push (adjacency : Adjacency) (node : EntityRef) (entry : String × EntityRef) : Adjacency :=
  Function.update adjacency node (some ((adjacency node).getD [] ++ [entry]))

/-- One stored item enters the adjacency, a self-loop as seen from its first end only. -/
def demandItem (adjacency : Adjacency) (item : Item) : Adjacency :=
  match registration.edgeOf (some item) with
  | none => adjacency
  | some edge =>
    if edge.within scope then
      let adjacency := if registration.needs direction .a then
        adjacency.push edge.endpoints.a.entity (item.id, edge.endpoints.b.entity) else adjacency
      if registration.needs direction .b ∧ edge.endpoints.a.entity ≠ edge.endpoints.b.entity then
        adjacency.push edge.endpoints.b.entity (item.id, edge.endpoints.a.entity)
      else adjacency
    else adjacency

end

namespace GraphView

variable (view : GraphView)

def traversalUsesProjection (registration : EdgeRegistration) (direction : Direction) : Bool :=
  (!registration.needs direction .a || view.schema.projectsEndpoint registration.edgeType .a) &&
    (!registration.needs direction .b || view.schema.projectsEndpoint registration.edgeType .b)

def demandTraversalAdjacency (registration : EdgeRegistration) (direction : Direction)
    (scope : Option IndexValue) : Adjacency :=
  let adjacency := (view.registry.snapshot registration.edgeType).foldl (demandItem registration direction scope)
    fun _ => none
  fun node => (adjacency node).map fun neighbors => neighbors.mergeSort fun a b => toLex b ≤ toLex a

/-- What the search is given as the neighbors of a node. -/
def traversalNeighbors (registration : EdgeRegistration) (direction : Direction) (scope : Option IndexValue) :
    EntityRef → List (String × EntityRef) :=
  if view.traversalUsesProjection registration direction then
    projectedTraversalNeighbors registration direction scope (view.state.edgeTypes registration.edgeType)
  else
    let adjacency := view.demandTraversalAdjacency registration direction scope
    fun node => (adjacency node).getD []

-- an edge type that was never indexed has empty maps, with which the search ends where it starts
def traverseBounded (edgeType : String) (request : TraversalRequest) : Option TraversalRun :=
  match view.schema.registration edgeType with
  | none => some (.emptyAt request.start request.target)
  | some registration =>
    request.runBoundedTraversal (view.traversalNeighbors registration request.direction request.scope)

/-- A stored edge of the scope leads on from the one node to the other. -/
def Leads (registration : EdgeRegistration) (direction : Direction) (scope : Option IndexValue)
    (x y : EntityRef) : Prop :=
  ∃ id edge, registration.storedEdges view.registry id = some edge ∧ edge.within scope ∧
    ((registration.needs direction .a ∧ edge.endpoints.a.entity = x ∧ edge.endpoints.b.entity = y) ∨
      (registration.needs direction .b ∧ edge.endpoints.b.entity = x ∧ edge.endpoints.a.entity = y))

/-- A traversal against directed edges comes to a stored self-loop of the scope before it is `maxDepth` deep. -/
def MeetsLoop (registration : EdgeRegistration) (direction : Direction) (scope : Option IndexValue)
    (start : EntityRef) (maxDepth : Nat) : Prop :=
  direction = .reverse ∧ registration.shape = .directed ∧ ∃ k < maxDepth, ∃ id edge,
    registration.storedEdges view.registry id = some edge ∧ edge.within scope ∧
      edge.endpoints.a.entity = edge.endpoints.b.entity ∧
        Steps (view.Leads registration direction scope) start k edge.endpoints.a.entity

end GraphView

theorem needs_a {registration : EdgeRegistration} {direction : Direction} :
    registration.needs direction .a = false ↔ direction = .reverse ∧ registration.shape = .directed := by
  unfold EdgeRegistration.needs
  cases direction <;> cases registration.shape <;> simp

theorem projectedNeighbor_end {registration : EdgeRegistration} {direction : Direction} {node neighbor : EntityRef}
    {edge : IndexedEdge} (leads : projectedNeighbor registration direction node edge = some neighbor) :
    neighbor = edge.endpoints.a.entity ∨ neighbor = edge.endpoints.b.entity := by
  unfold projectedNeighbor at leads
  split at leads
  · exact .inr (Option.some.inj leads).symm
  · split at leads
    · exact .inl (Option.some.inj leads).symm
    · cases leads

theorem needs_either {registration : EdgeRegistration} {direction : Direction} :
    registration.needs direction .a = true ∨ registration.needs direction .b = true := by
  unfold EdgeRegistration.needs
  cases direction <;> simp

/-! ### The neighbors that the maps give -/

section
variable {registration : EdgeRegistration} {direction : Direction} {scope : Option IndexValue}
  {edges : EdgeTypeState} {node : EntityRef}

theorem neighborEntry_eq_some {neighbor : IndexedEdge → Option EntityRef} {id : String} {edge : Option IndexedEdge}
    {entry : String × EntityRef} :
    neighborEntry scope neighbor id edge = some entry ↔
      entry.1 = id ∧ ∃ found, edge = some found ∧ found.within scope ∧ neighbor found = some entry.2 := by
  obtain ⟨listed, other⟩ := entry
  unfold neighborEntry
  cases edge with
  | none => simp
  | some edge =>
    dsimp only
    split
    · rename_i within
      rw [Option.map_eq_some_iff]
      constructor
      · rintro ⟨found, leads, same⟩
        cases same
        exact ⟨rfl, edge, rfl, within, leads⟩
      · rintro ⟨rfl, found, same, -, leads⟩
        cases same
        exact ⟨other, leads, rfl⟩
    · rename_i outside
      constructor
      · intro none
        cases none
      · rintro ⟨-, found, same, within, -⟩
        cases same
        exact absurd within outside

/-- Edges later in the order come first. -/
theorem sorted_projected :
    (projectedTraversalNeighbors registration direction scope edges node).Pairwise
      fun p q => q.1 < p.1 := by
  unfold projectedTraversalNeighbors
  dsimp only
  generalize (if registration.needs direction .b = true then _ else _ : OrdSet String) = candidates
  rw [List.pairwise_reverse, List.pairwise_filterMap]
  have ordered : candidates.toList.Pairwise fun a b => compare a b = .lt := Std.ExtTreeSet.ordered_toList
  refine ordered.imp fun {id other} before entry here entry' there => ?_
  rw [(neighborEntry_eq_some.mp here).1, (neighborEntry_eq_some.mp there).1]
  exact compare_lt_iff_lt.mp before

end

section
variable {view : GraphView} {registration : EdgeRegistration} {direction : Direction} {scope : Option IndexValue}
  {node : EntityRef}

theorem mem_projected (coherent : view.state.Coherent view.schema view.registry)
    (registered : registration ∈ view.schema.registrations)
    (projects : view.traversalUsesProjection registration direction = true) {entry : String × EntityRef} :
    entry ∈ projectedTraversalNeighbors registration direction scope
        (view.state.edgeTypes registration.edgeType) node ↔
      ∃ edge, registration.storedEdges view.registry entry.1 = some edge ∧ edge.within scope ∧
        projectedNeighbor registration direction node edge = some entry.2 := by
  have kept : ∀ position, registration.needs direction position = true →
      view.schema.projectsEndpoint registration.edgeType position = true := by
    unfold GraphView.traversalUsesProjection at projects
    rw [Bool.and_eq_true, Bool.or_eq_true, Bool.or_eq_true] at projects
    intro position needed
    cases position with
    | a => simpa [needed] using projects.1
    | b => simpa [needed] using projects.2
  have any : view.schema.projectsAnyEndpoint registration.edgeType = true := by
    unfold GraphSchema.projectsAnyEndpoint
    rw [Bool.or_eq_true]
    exact needs_either.imp (kept .a) (kept .b)
  have edges : ∀ id, (view.state.edgeTypes registration.edgeType).edges id =
      registration.storedEdges view.registry id := fun id => by
    rw [(coherent.indexes registration registered).edges, if_pos any]
  have touched : ∀ position, registration.needs direction position = true → ∀ id, _ ↔
      view.Touches registration position node id := fun position needed id =>
    lists_iff coherent registered (kept position needed)
  unfold projectedTraversalNeighbors
  dsimp only
  rw [List.mem_reverse, List.mem_filterMap]
  simp only [neighborEntry_eq_some, edges, OrdSet.mem_toList]
  constructor
  · rintro ⟨id, -, rfl, found⟩
    exact found
  · rintro ⟨edge, stored, within, leads⟩
    refine ⟨entry.1, ?_, rfl, edge, stored, within, leads⟩
    rw [mem_extendIf, mem_extendIf]
    unfold projectedNeighbor at leads
    split at leads
    · rename_i here
      refine .inl (.inr ⟨here.2, mem_bucketIds.mpr ?_⟩)
      exact (touched .a here.2 entry.1).mpr ⟨edge, stored, here.1⟩
    · split at leads
      · rename_i here
        refine .inr ⟨here.2, mem_bucketIds.mpr ?_⟩
        exact (touched .b here.2 entry.1).mpr ⟨edge, stored, here.1⟩
      · cases leads

end

/-! ### The neighbors that the stored edges give -/

section
variable (registration : EdgeRegistration) (direction : Direction) (scope : Option IndexValue)

/-- What an edge adds to the neighbors of a node. -/
def demandedNeighbor (node : EntityRef) (edge : IndexedEdge) : Option EntityRef :=
  if registration.needs direction .a ∧ edge.endpoints.a.entity = node then some edge.endpoints.b.entity
  else if registration.needs direction .b ∧ edge.endpoints.a.entity ≠ edge.endpoints.b.entity ∧
      edge.endpoints.b.entity = node then some edge.endpoints.a.entity
  else none

def demandedEntry (node : EntityRef) (item : Item) : Option (String × EntityRef) :=
  neighborEntry scope (demandedNeighbor registration direction node) item.id (registration.edgeOf (some item))

theorem getD_push (adjacency : Adjacency) (node other : EntityRef) (entry : String × EntityRef) :
    (adjacency.push node entry other).getD [] =
      (adjacency other).getD [] ++ if node = other then [entry] else [] := by
  unfold Adjacency.push
  by_cases same : node = other
  · subst same
    rw [Function.update_self, if_pos rfl]
    rfl
  · rw [Function.update_of_ne (Ne.symm same), if_neg same, List.append_nil]

theorem getD_demandItem (adjacency : Adjacency) (item : Item) (node : EntityRef) :
    (demandItem registration direction scope adjacency item node).getD [] =
      (adjacency node).getD [] ++ (demandedEntry registration direction scope node item).toList := by
  unfold demandItem demandedEntry neighborEntry
  cases registration.edgeOf (some item) with
  | none => simp
  | some edge =>
    by_cases within : edge.within scope
    · simp only [if_pos within]
      unfold demandedNeighbor
      by_cases a : registration.needs direction .a = true <;>
        by_cases b : registration.needs direction .b = true <;>
          by_cases loop : edge.endpoints.a.entity = edge.endpoints.b.entity <;>
            by_cases here : edge.endpoints.a.entity = node <;>
              by_cases there : edge.endpoints.b.entity = node <;>
                simp_all [getD_push]
    · simp [within]

theorem getD_demanded (items : List Item) (adjacency : Adjacency) (node : EntityRef) :
    (items.foldl (demandItem registration direction scope) adjacency node).getD [] =
      (adjacency node).getD [] ++ items.filterMap (demandedEntry registration direction scope node) := by
  induction items generalizing adjacency with
  | nil => simp
  | cons item items ih =>
    rw [List.foldl_cons, ih, getD_demandItem, List.append_assoc, List.filterMap_cons]
    cases demandedEntry registration direction scope node item with
    | none => rfl
    | some entry => rfl

end

section
variable {view : GraphView} {registration : EdgeRegistration} {direction : Direction} {scope : Option IndexValue}
  {node : EntityRef}

theorem traversalNeighbors_demanded (demands : view.traversalUsesProjection registration direction = false) :
    view.traversalNeighbors registration direction scope node =
      ((view.registry.snapshot registration.edgeType).filterMap
        (demandedEntry registration direction scope node)).mergeSort fun a b => toLex b ≤ toLex a := by
  have listed := getD_demanded registration direction scope (view.registry.snapshot registration.edgeType)
    (fun _ => none) node
  unfold GraphView.traversalNeighbors GraphView.demandTraversalAdjacency
  rw [demands, if_neg Bool.false_ne_true]
  dsimp only
  rw [Option.getD_none, List.nil_append] at listed
  rw [← listed]
  cases (view.registry.snapshot registration.edgeType).foldl (demandItem registration direction scope)
    (fun _ => none) node with
  | none => simp
  | some neighbors => rfl

/-- A stored edge is extracted from a stored item. -/
theorem snapshot_of_storedEdges {registry : StoreRegistry} {id : String} {edge : IndexedEdge}
    (stored : registration.storedEdges registry id = some edge) :
    ∃ item ∈ registry.snapshot registration.edgeType, item.id = id ∧ registration.edgeOf (some item) = some edge := by
  obtain ⟨item, value, extracted⟩ := EdgeRegistration.value_of_stored stored
  exact ⟨item, StoreRegistry.snapshot_of_getValue value, (StoreRegistry.getValue_keyed value).2, extracted⟩

theorem mem_demanded {entry : String × EntityRef} :
    entry ∈ (view.registry.snapshot registration.edgeType).filterMap
        (demandedEntry registration direction scope node) ↔
      ∃ edge, registration.storedEdges view.registry entry.1 = some edge ∧ edge.within scope ∧
        demandedNeighbor registration direction node edge = some entry.2 := by
  rw [List.mem_filterMap]
  unfold demandedEntry
  simp only [neighborEntry_eq_some]
  constructor
  · rintro ⟨item, among, named, edge, extracted, found⟩
    obtain ⟨typed, stored⟩ := StoreRegistry.mem_snapshot.mp among
    have value : view.registry.getValue registration.edgeType item.id = some item := typed ▸ stored
    refine ⟨edge, ?_, found⟩
    rw [named, EdgeRegistration.storedEdges, value, extracted]
  · rintro ⟨edge, stored, found⟩
    obtain ⟨item, among, named, extracted⟩ := snapshot_of_storedEdges stored
    exact ⟨item, among, named.symm, edge, extracted, found⟩

theorem nodup_demanded : ((view.registry.snapshot registration.edgeType).filterMap
    (demandedEntry registration direction scope node)).Nodup := by
  have ids := view.registry.snapshot_nodup_ids registration.edgeType
  refine List.Nodup.of_map Prod.fst (ids.sublist ?_)
  generalize view.registry.snapshot registration.edgeType = items
  induction items with
  | nil => exact .slnil
  | cons item items ih =>
    rw [List.filterMap_cons]
    cases listed : demandedEntry registration direction scope node item with
    | none => exact .cons _ ih
    | some entry =>
      rw [List.map_cons, List.map_cons, (neighborEntry_eq_some.mp listed).1]
      exact .cons_cons _ ih

/-- Every end of every stored edge. -/
def GraphView.storedEnds (view : GraphView) (registration : EdgeRegistration) : List EntityRef :=
  (view.registry.snapshot registration.edgeType).flatMap fun item =>
    (registration.edgeOf (some item)).toList.flatMap fun edge => [edge.endpoints.a.entity, edge.endpoints.b.entity]

section
variable (coherent : view.state.Coherent view.schema view.registry)
  (registered : registration ∈ view.schema.registrations)
  (projects : view.traversalUsesProjection registration direction = true)
include coherent registered projects

theorem mem_storedEnds {entry : String × EntityRef} (listed : entry ∈ projectedTraversalNeighbors registration direction
    scope (view.state.edgeTypes registration.edgeType) node) : entry.2 ∈ view.storedEnds registration := by
  obtain ⟨edge, stored, -, leads⟩ := (mem_projected coherent registered projects).mp listed
  obtain ⟨item, held, -, extracted⟩ := snapshot_of_storedEdges stored
  refine List.mem_flatMap.mpr ⟨item, held, List.mem_flatMap.mpr ⟨edge, ?_, ?_⟩⟩
  · rw [extracted]
    exact List.mem_singleton_self edge
  · simpa using projectedNeighbor_end leads

theorem length_projected_le : (projectedTraversalNeighbors registration direction scope
    (view.state.edgeTypes registration.edgeType) node).length ≤
      (view.registry.snapshot registration.edgeType).length := by
  have nodup : ((projectedTraversalNeighbors registration direction scope
      (view.state.edgeTypes registration.edgeType) node).map Prod.fst).Nodup := by
    refine List.Pairwise.map _ (fun p q (less : q.1 < p.1) same => ?_) sorted_projected
    exact absurd less (by simp [same])
  have held : (projectedTraversalNeighbors registration direction scope
      (view.state.edgeTypes registration.edgeType) node).map Prod.fst ⊆
        (view.registry.snapshot registration.edgeType).map Item.id := by
    intro id listed
    obtain ⟨entry, among, rfl⟩ := List.mem_map.mp listed
    obtain ⟨edge, stored, -⟩ := (mem_projected coherent registered projects).mp among
    obtain ⟨item, held, named, -⟩ := snapshot_of_storedEdges stored
    exact List.mem_map.mpr ⟨item, held, named⟩
  have count := (nodup.subperm held).length_le
  rwa [List.length_map, List.length_map] at count

end

/-- The two layouts list the same neighbors of a node without a self-loop, and of every node unless the traversal
goes against directed edges. -/
theorem projected_eq_demanded {other : GraphView} (coherent : view.state.Coherent view.schema view.registry)
    (registered : registration ∈ view.schema.registrations) (registry : other.registry = view.registry)
    (projects : view.traversalUsesProjection registration direction = true)
    (demands : other.traversalUsesProjection registration direction = false)
    (straight : registration.needs direction .a = true ∨ ∀ id edge,
      registration.storedEdges view.registry id = some edge → edge.within scope →
        edge.endpoints.a.entity = node → edge.endpoints.b.entity ≠ node) :
    view.traversalNeighbors registration direction scope node =
      other.traversalNeighbors registration direction scope node := by
  rw [traversalNeighbors_demanded demands, registry]
  unfold GraphView.traversalNeighbors
  rw [if_pos projects]
  have same : ∀ edge id, registration.storedEdges view.registry id = some edge → edge.within scope →
      projectedNeighbor registration direction node edge = demandedNeighbor registration direction node edge := by
    intro edge id stored within
    unfold projectedNeighbor demandedNeighbor
    by_cases here : edge.endpoints.a.entity = node
    · by_cases there : edge.endpoints.b.entity = node
      · rcases straight with a | none
        · simp [here, a]
        · exact absurd there (none id edge stored within here)
      · simp [here, there]
    · by_cases there : edge.endpoints.b.entity = node
      · have apart : edge.endpoints.a.entity ≠ edge.endpoints.b.entity := fun same => here (same.trans there)
        simp [here, there]
      · simp [here, there]
  have down : (projectedTraversalNeighbors registration direction scope
      (view.state.edgeTypes registration.edgeType) node).Pairwise fun p q => toLex q ≤ toLex p :=
    sorted_projected.imp fun less => Prod.Lex.toLex_le_toLex.mpr (.inl less)
  have sorted : ∀ entries : List (String × EntityRef),
      (entries.mergeSort fun a b => toLex b ≤ toLex a).Pairwise fun p q => toLex q ≤ toLex p := fun entries =>
    (List.pairwise_mergeSort (fun p q r h h' => by simpa using le_trans (of_decide_eq_true h') (of_decide_eq_true h))
      (fun p q => by simpa using le_total (toLex q) (toLex p)) entries).imp of_decide_eq_true
  have nodup : (projectedTraversalNeighbors registration direction scope
      (view.state.edgeTypes registration.edgeType) node).Nodup :=
    sorted_projected.imp fun less same => absurd less (by simp [same])
  refine List.Perm.eq_of_pairwise (fun p q _ _ h h' => toLex.injective (le_antisymm h' h)) down (sorted _) ?_
  refine .trans ?_ (List.mergeSort_perm _ _).symm
  refine (List.perm_ext_iff_of_nodup nodup nodup_demanded).mpr fun entry => ?_
  rw [mem_projected coherent registered projects, mem_demanded]
  refine exists_congr fun edge => and_congr_right fun stored => and_congr_right fun within => ?_
  rw [same edge entry.1 stored within]

/-- The neighbors that the maps give are where the stored edges lead. -/
theorem linked_projected (coherent : view.state.Coherent view.schema view.registry)
    (registered : registration ∈ view.schema.registrations)
    (projects : view.traversalUsesProjection registration direction = true) {x y : EntityRef} :
    Linked (view.traversalNeighbors registration direction scope) x y ↔
      view.Leads registration direction scope x y := by
  unfold Linked GraphView.Leads GraphView.traversalNeighbors
  rw [if_pos projects]
  simp only [mem_projected coherent registered projects]
  refine exists_congr fun id => exists_congr fun edge => and_congr_right fun _ => and_congr_right fun _ => ?_
  unfold projectedNeighbor
  split
  · rename_i here
    rw [Option.some.injEq]
    constructor
    · exact fun there => .inl ⟨here.2, here.1, there⟩
    · rintro (⟨-, -, there⟩ | ⟨-, there, rfl⟩)
      · exact there
      · exact there.trans here.1.symm
  · rename_i elsewhere
    split
    · rename_i here
      rw [Option.some.injEq]
      constructor
      · exact fun there => .inr ⟨here.2, here.1, there⟩
      · rintro (⟨needed, there, -⟩ | ⟨-, -, there⟩)
        · exact absurd ⟨there, needed⟩ elsewhere
        · exact there
    · rename_i nowhere
      constructor
      · intro none
        cases none
      · rintro (⟨needed, there, -⟩ | ⟨needed, there, -⟩)
        · exact absurd ⟨there, needed⟩ elsewhere
        · exact absurd ⟨there, needed⟩ nowhere

end

/-! ### What the search sees of its neighbors -/

namespace TraversalRequest

variable {request : TraversalRequest} {neighbors others : EntityRef → List (String × EntityRef)}

theorem mem_queue_visitNeighbors {node : EntityRef} {depth : Nat} {rest : List (String × EntityRef)} {s : Search}
    {entry : EntityRef × Nat} (queued : entry ∈ (request.visitNeighbors node depth rest s).1.queue) :
    entry ∈ s.queue ∨ (entry.2 = depth + 1 ∧ ∃ edgeId, (edgeId, entry.1) ∈ rest) := by
  induction rest generalizing s with
  | nil => exact .inl queued
  | cons pair rest ih =>
    have later : ∀ {t : Search}, entry ∈ (request.visitNeighbors node depth rest t).1.queue →
        entry ∈ t.queue ∨ (entry.2 = depth + 1 ∧ ∃ edgeId, (edgeId, entry.1) ∈ pair :: rest) := fun queued =>
      (ih queued).imp_right (And.imp_right fun ⟨edgeId, among⟩ => ⟨edgeId, List.mem_cons_of_mem pair among⟩)
    obtain ⟨edgeId, neighbor⟩ := pair
    rw [visitNeighbors] at queued
    split at queued
    · exact .inl queued
    · dsimp only at queued
      split at queued
      · exact later (t := request.traverse edgeId s) queued
      · split at queued
        · exact .inl queued
        · split at queued
          · exact .inl queued
          · rcases later queued with old | new
            · rcases List.mem_append.mp old with old | last
              · exact .inl old
              · rw [List.mem_singleton.mp last]
                exact .inr ⟨rfl, edgeId, List.mem_cons_self⟩
            · exact .inr new

/-- A search looks only at the neighbors of nodes that fewer than `maxDepth` steps lead to. -/
theorem search_congr
    (agree : ∀ k < request.maxDepth, ∀ x, Steps (Linked neighbors) request.start k x → neighbors x = others x)
    {fuel : Nat} {s : Search} (queued : ∀ entry ∈ s.queue, Steps (Linked neighbors) request.start entry.2 entry.1) :
    request.search neighbors fuel s = request.search others fuel s := by
  induction fuel generalizing s with
  | zero =>
    unfold search
    cases s.queue with
    | nil => rfl
    | cons entry queue => rfl
  | succ fuel ih =>
    unfold search
    cases here : s.queue with
    | nil => rfl
    | cons entry queue =>
      obtain ⟨node, depth⟩ := entry
      rw [here] at queued
      have rest : ∀ entry ∈ queue, Steps (Linked neighbors) request.start entry.2 entry.1 := fun entry among =>
        queued entry (List.mem_cons_of_mem _ among)
      dsimp only
      split
      · exact ih rest
      · rename_i shallow
        have steps : Steps (Linked neighbors) request.start depth node := queued (node, depth) List.mem_cons_self
        rw [← agree depth (not_le.mp shallow) node steps]
        split
        · rfl
        · rename_i t visited
          refine ih fun entry among => ?_
          have among : entry ∈ (request.visitNeighbors node depth (neighbors node).reverse
              { s with queue }).1.queue := by
            rw [visited]
            exact among
          rcases mem_queue_visitNeighbors among with old | ⟨deeper, edgeId, listed⟩
          · exact rest entry old
          · rw [deeper]
            exact .step steps ⟨edgeId, List.mem_reverse.mp listed⟩

theorem runBoundedTraversal_congr
    (agree : ∀ k < request.maxDepth, ∀ x, Steps (Linked neighbors) request.start k x → neighbors x = others x) :
    request.runBoundedTraversal neighbors = request.runBoundedTraversal others := by
  have started : ∀ entry ∈ request.initial.queue, Steps (Linked neighbors) request.start entry.2 entry.1 := by
    intro entry among
    rw [List.mem_singleton.mp among]
    exact .start
  unfold runBoundedTraversal
  rw [search_congr agree started]

/-- Each node that is taken up counts its edges at most once. -/
theorem traversedEdges_visitNeighbors (request : TraversalRequest) (node : EntityRef) (depth : Nat)
    (rest : List (String × EntityRef)) (s : Search) :
    (request.visitNeighbors node depth rest s).1.traversedEdges ≤ s.traversedEdges + rest.length := by
  induction rest generalizing s with
  | nil => exact Nat.le_refl _
  | cons pair rest ih =>
    have later : ∀ t : Search, t.traversedEdges = s.traversedEdges + 1 →
        (request.visitNeighbors node depth rest t).1.traversedEdges ≤ s.traversedEdges + (pair :: rest).length := by
      intro t counted
      have more := ih t
      rw [List.length_cons]
      omega
    obtain ⟨edgeId, neighbor⟩ := pair
    rw [visitNeighbors]
    split
    · exact Nat.le_add_right _ _
    · dsimp only
      split
      · exact later _ rfl
      · split
        · exact Nat.add_le_add_left (Nat.le_add_left _ _) _
        · split
          · exact Nat.add_le_add_left (Nat.le_add_left _ _) _
          · exact later _ rfl

theorem traversedEdges_search {most : Nat} (few : ∀ x, (neighbors x).length ≤ most) {fuel : Nat} {s t : Search}
    (run : request.search neighbors fuel s = some t) : t.traversedEdges ≤ s.traversedEdges + fuel * most := by
  induction fuel generalizing s with
  | zero =>
    unfold search at run
    cases here : s.queue with
    | nil =>
      rw [here] at run
      cases run
      exact Nat.le_add_right _ _
    | cons entry queue =>
      rw [here] at run
      cases run
  | succ fuel ih =>
    unfold search at run
    cases here : s.queue with
    | nil =>
      rw [here] at run
      cases run
      exact Nat.le_add_right _ _
    | cons entry queue =>
      rw [here] at run
      obtain ⟨node, depth⟩ := entry
      dsimp only at run
      rw [Nat.succ_mul]
      split at run
      · have later := ih run
        dsimp only at later
        omega
      · have one := traversedEdges_visitNeighbors request node depth (neighbors node).reverse { s with queue }
        have length := few node
        rw [List.length_reverse] at one
        split at run
        · rename_i u visited
          cases run
          rw [visited] at one
          dsimp only at one
          omega
        · rename_i u visited
          have later := ih run
          rw [visited] at one
          dsimp only at one
          omega

/-- Limits beyond the size of the graph never break a search off. -/
theorem whole_of_large {U : List EntityRef} {most : Nat} (inside : ∀ x, ∀ pair ∈ neighbors x, pair.2 ∈ U)
    (few : ∀ x, (neighbors x).length ≤ most) (nodes : U.length < request.maxNodes)
    (edges : (request.maxNodes + 1) * most < request.maxEdges) {s : Search}
    (run : request.search neighbors (request.maxNodes + 1) request.initial = some s)
    (ended : Ended request neighbors s) : s.truncated = false := by
  have traversed : s.traversedEdges ≤ 0 + (request.maxNodes + 1) * most := traversedEdges_search few run
  obtain ⟨done, node, rest, queue, frontier, how⟩ := ended
  rcases how with ⟨-, -, limit⟩ | ⟨-, -, whole, -⟩ | ⟨running, -⟩
  · have within : s.visited ⊆ request.start :: U := by
      intro x seen
      obtain ⟨k, stands⟩ := frontier.mem_visited.mp seen
      have steps := (frontier.distance _ stands).1
      cases steps with
      | start => exact List.mem_cons_self
      | step _ joined =>
        obtain ⟨edgeId, listed⟩ := joined
        exact List.mem_cons_of_mem _ (inside _ _ listed)
    have count := (frontier.nodup.subperm within).length_le
    rw [List.length_cons] at count
    dsimp only at count
    omega
  · exact whole
  · exact running.truncated

end TraversalRequest

/-! ### The two layouts side by side -/

theorem GraphSchema.SameTypes.registration {schema other : GraphSchema} (types : schema.SameTypes other)
    {edgeType : String} {registration : EdgeRegistration}
    (registered : schema.registration edgeType = some registration) :
    ∃ same, other.registration edgeType = some same ∧ same.bare = registration.bare := by
  obtain ⟨among, rfl⟩ := GraphSchema.registration_mem registered
  obtain ⟨same, among, bare⟩ := types.bare among
  have typed : same.bare.edgeType = registration.bare.edgeType := by rw [bare]
  refine ⟨same, ?_, bare⟩
  rw [← GraphSchema.registration_of_mem among]
  exact congrArg other.registration typed.symm

section
variable {view other : GraphView} (coherent : view.state.Coherent view.schema view.registry)
  (registry : other.registry = view.registry) (types : view.schema.SameTypes other.schema) {edgeType : String}
  {registration : EdgeRegistration} (registered : view.schema.registration edgeType = some registration)

include types registered in
/-- The registrations that the two schemas have for a type give the same neighbors. -/
theorem traverseBounded_of_registered (request : TraversalRequest) :
    other.traverseBounded edgeType request =
      request.runBoundedTraversal (other.traversalNeighbors registration request.direction request.scope) := by
  obtain ⟨same, found, bare⟩ := types.registration registered
  have neighbors : ∀ (registration : EdgeRegistration) direction scope,
      other.traversalNeighbors registration direction scope =
        other.traversalNeighbors registration.bare direction scope := fun _ _ _ => rfl
  unfold GraphView.traverseBounded
  rw [found]
  dsimp only
  rw [neighbors same, bare, ← neighbors registration]

include coherent registered registry in
/-- The neighbor lists agree wherever the search may look, unless it meets a self-loop on its way back. -/
theorem traversalNeighbors_agree {direction : Direction}
    (projects : view.traversalUsesProjection registration direction = true)
    (demands : other.traversalUsesProjection registration direction = false) {scope : Option IndexValue}
    {start : EntityRef} {maxDepth : Nat} (straight : ¬view.MeetsLoop registration direction scope start maxDepth)
    {k : Nat} (shallow : k < maxDepth) {x : EntityRef}
    (steps : Steps (Linked (view.traversalNeighbors registration direction scope)) start k x) :
    view.traversalNeighbors registration direction scope x =
      other.traversalNeighbors registration direction scope x := by
  have among := (GraphSchema.registration_mem registered).1
  refine projected_eq_demanded coherent among registry projects demands ?_
  cases needed : registration.needs direction .a with
  | true => exact .inl rfl
  | false =>
    refine .inr fun id edge stored within here there => straight ?_
    obtain ⟨backward, directed⟩ := needs_a.mp needed
    refine ⟨backward, directed, k, shallow, id, edge, stored, within, here.trans there.symm, ?_⟩
    rw [here]
    exact steps.mono fun _ _ => (linked_projected coherent among projects).mp

include coherent registered registry types in
/-- A self-loop that is met is reported from the maps and not from the stored edges. -/
theorem loop_told_apart {direction : Direction}
    (projects : view.traversalUsesProjection registration direction = true)
    (demands : other.traversalUsesProjection registration direction = false) {scope : Option IndexValue}
    {start : EntityRef} {maxDepth : Nat} (meets : view.MeetsLoop registration direction scope start maxDepth) :
    ∃ request : TraversalRequest, request.start = start ∧ request.direction = direction ∧ request.scope = scope ∧
      request.maxDepth = maxDepth ∧ view.traverseBounded edgeType request ≠ other.traverseBounded edgeType request := by
  obtain ⟨backward, directed, k, shallow, id, edge, stored, within, loop, steps⟩ := meets
  have among := (GraphSchema.registration_mem registered).1
  have backwards := needs_a.mpr ⟨backward, directed⟩
  let items := view.registry.snapshot registration.edgeType
  let ends := view.storedEnds registration
  let request : TraversalRequest := {
    start, direction, scope, maxDepth
    maxNodes := ends.length + 1
    maxEdges := (ends.length + 2) * items.length + 1
    collectEdges := true
    target := none
    recordPath := false }
  refine ⟨request, rfl, rfl, rfl, rfl, fun same => ?_⟩
  have projected : view.traversalNeighbors registration direction scope =
      projectedTraversalNeighbors registration direction scope (view.state.edgeTypes registration.edgeType) :=
    if_pos projects
  have inside : ∀ x, ∀ pair ∈ view.traversalNeighbors registration direction scope x,
      pair.2 ∈ view.storedEnds registration := by
    rw [projected]
    exact fun x pair listed => mem_storedEnds coherent among projects listed
  have few : ∀ x, (view.traversalNeighbors registration direction scope x).length ≤ items.length := by
    rw [projected]
    exact fun x => length_projected_le coherent among projects
  have elsewhere : request.target ≠ some request.start := fun none => (by cases none)
  obtain ⟨s, path, search, ended, run, exact⟩ := TraversalRequest.runBoundedTraversal_of_search
    (view.traversalNeighbors registration direction scope) elsewhere
  obtain ⟨s', path', -, -, run', exact'⟩ := TraversalRequest.runBoundedTraversal_of_search
    (other.traversalNeighbors registration direction scope) elsewhere
  have whole : s.truncated = false :=
    TraversalRequest.whole_of_large inside few (Nat.lt_succ_self _) (Nat.lt_succ_self _) search ended
  rw [traverseBounded_of_registered rfl registered, traverseBounded_of_registered types registered, run, run'] at same
  have reports := Option.some.inj same
  -- the loop is an incidence of a node near enough, and nothing else has its id
  obtain ⟨k', nearer, distance⟩ := (steps.mono fun _ _ => (linked_projected coherent among projects).mpr).atDistance
  have listed : (id, edge.endpoints.a.entity) ∈
      view.traversalNeighbors registration direction scope edge.endpoints.a.entity := by
    rw [projected]
    refine (mem_projected coherent among projects).mpr ⟨edge, stored, within, ?_⟩
    have needed := needs_either.resolve_left (by rw [backwards]; exact Bool.false_ne_true)
    unfold projectedNeighbor
    rw [backwards, if_neg (fun both => Bool.false_ne_true both.2), if_pos ⟨loop.symm, needed⟩]
  have found := exact.allEdgeIds whole rfl rfl _ k' id _ (nearer.trans_lt shallow) distance listed
  rw [reports] at found
  obtain ⟨x, -, y, -, -, listed⟩ := exact'.edgeIds id found
  rw [traversalNeighbors_demanded demands, List.mem_mergeSort] at listed
  have demanded := mem_demanded.mp listed
  rw [registry] at demanded
  obtain ⟨twin, held, -, leads⟩ := demanded
  cases stored.symm.trans held
  unfold demandedNeighbor at leads
  rw [backwards, if_neg (fun both => Bool.false_ne_true both.1), if_neg (fun all => all.2.1 loop)] at leads
  cases leads

include coherent registry types registered in
/-- Where the maps of the ends are used the traversals are those over the stored edges, whatever the limits and
the target, just when no traversal so deep meets a self-loop against its direction. -/
theorem traversal_layout_iff {direction : Direction}
    (projects : view.traversalUsesProjection registration direction = true)
    (demands : other.traversalUsesProjection registration direction = false) (scope : Option IndexValue)
    (start : EntityRef) (maxDepth : Nat) :
    (∀ request : TraversalRequest, request.start = start → request.direction = direction →
        request.scope = scope → request.maxDepth = maxDepth →
          view.traverseBounded edgeType request = other.traverseBounded edgeType request) ↔
      ¬view.MeetsLoop registration direction scope start maxDepth := by
  constructor
  · intro equal meets
    obtain ⟨request, rfl, rfl, rfl, rfl, apart⟩ :=
      loop_told_apart coherent registry types registered projects demands meets
    exact apart (equal request rfl rfl rfl rfl)
  · rintro straight request rfl rfl rfl rfl
    rw [traverseBounded_of_registered rfl registered, traverseBounded_of_registered types registered]
    exact request.runBoundedTraversal_congr fun k shallow x steps =>
      traversalNeighbors_agree coherent registry registered projects demands straight shallow steps

end

namespace GraphSample

/-- Three steps along the ties are the same from the maps and from the store. -/
theorem ties_from_x :
    (view .eager .eager).traverseBounded "tie" ⟨⟨"node", "x"⟩, .forward, none, 3, 9, 9, true, none, false⟩ =
      (view .demandDriven .demandDriven).traverseBounded "tie"
        ⟨⟨"node", "x"⟩, .forward, none, 3, 9, 9, true, none, false⟩ := by
  have registry : (view .demandDriven .demandDriven).registry = (view .eager .eager).registry := rfl
  have types : (view .eager .eager).schema.SameTypes (view .demandDriven .demandDriven).schema := rfl
  have registered : (view .eager .eager).schema.registration "tie" = some ties := rfl
  have projects : (view .eager .eager).traversalUsesProjection ties .forward = true := by decide
  have demands : (view .demandDriven .demandDriven).traversalUsesProjection ties .forward = false := by decide
  have straight : ¬(view .eager .eager).MeetsLoop ties .forward none ⟨"node", "x"⟩ 3 := fun meets => by cases meets.1
  exact (traversal_layout_iff (coherent .eager .eager) registry types registered projects demands none _ 3).mpr
    straight _ rfl rfl rfl rfl

/-- Back from a node with a tie to itself the maps give that tie and the store does not. -/
theorem loop_is_missed :
    let looped := stored.writeAll [⟨.set, tie "l" "x" "x"⟩]
    let back : TraversalRequest := ⟨⟨"node", "x"⟩, .reverse, none, 1, 9, 9, true, none, false⟩
    (∀ a b, (viewOf looped a b).state.Coherent (viewOf looped a b).schema looped) ∧
      ((viewOf looped .eager .eager).traverseBounded "tie" back).map (fun run => run.result.edgeIds) =
        some ["l"] ∧
      ((viewOf looped .demandDriven .demandDriven).traverseBounded "tie" back).map
        (fun run => run.result.edgeIds) = some [] := by
  intro looped back
  refine ⟨fun a b => ?_, ?_, ?_⟩
  · refine @coherent_viewOf looped a b 3 ?_
    cases a <;> cases b <;> rfl
  · decide
  · decide

end GraphSample
end Myko

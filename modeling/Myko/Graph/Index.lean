import Myko.Lib.SecondaryIndex
import Myko.Lib.StateError
import Myko.Graph.EdgeIds
import Myko.Graph.Schema

/-!
The adjacency and pair indexes kept over the edge stores: one write of an edge reindexes it from the
stored edge it replaces to the one written, and `rebuild` indexes the stores afresh.
-/

namespace Myko
open StateError

structure EdgePairKey where
  scope : Option IndexValue
  a : EndpointValue
  b : EndpointValue
  deriving DecidableEq

structure IndexedEdge where
  id : String
  endpoints : EdgeEndpoints
  scope : Option IndexValue
  deriving DecidableEq

structure EdgeTypeState where
  generation : Nat
  edges : String → Option IndexedEdge
  a : EndpointValue → Option EdgeIds
  b : EndpointValue → Option EdgeIds
  aEntities : EntityRef → Option EdgeIds
  bEntities : EntityRef → Option EdgeIds
  pairs : EdgePairKey → Option EdgeIds

structure GraphState where
  generation : Nat
  edgeTypes : String → EdgeTypeState

abbrev GraphM := EStateM String GraphState

/-- The largest value of the counters, which stay there once they reach it. -/
def u64Max : Nat := 2 ^ 64 - 1

def saturatingSucc (n : Nat) : Nat := min (n + 1) u64Max

def EdgeTypeState.empty : EdgeTypeState where
  generation := 0
  edges _ := none
  a _ := none
  b _ := none
  aEntities _ := none
  bEntities _ := none
  pairs _ := none

def GraphState.empty : GraphState where
  generation := 0
  edgeTypes _ := EdgeTypeState.empty

namespace EdgeRegistration

def pairKeyFromValues (registration : EdgeRegistration) (a b : EndpointValue)
    (scope : Option IndexValue) : EdgePairKey :=
  if registration.shape = .undirected ∧ b < a then ⟨scope, b, a⟩ else ⟨scope, a, b⟩

def pairKey (registration : EdgeRegistration) (endpoints : EdgeEndpoints)
    (scope : Option IndexValue) : EdgePairKey :=
  registration.pairKeyFromValues endpoints.a endpoints.b scope

def projectsPairs (registration : EdgeRegistration) : Bool :=
  registration.pairPolicy = .unique || registration.pairProjection = .eager

def indexedEdge (registration : EdgeRegistration) (item : Item) : Except String IndexedEdge := do
  let endpoints ← registration.extract item
  let scope ← registration.extractScope item
  return ⟨item.id, endpoints, scope⟩

end EdgeRegistration

section
variable {K : Type} [DecidableEq K]

def insertIncidence (map : K → Option EdgeIds) (key : K) (id : String) : K → Option EdgeIds :=
  match map key with
  | some ids => Function.update map key (some (ids.insert id))
  | none => Function.update map key (some (.one id))

def removeIncidence (map : K → Option EdgeIds) (key : K) (id : String) : K → Option EdgeIds :=
  match map key with
  | none => map
  | some ids =>
    match ids.remove id with
    | (_, true) => Function.update map key none
    | (kept, false) => Function.update map key (some kept)

end

def removeIndexed (registration : EdgeRegistration) (state : EdgeTypeState) (edge : IndexedEdge) :
    EdgeTypeState :=
  let state := { state with
    a := removeIncidence state.a edge.endpoints.a edge.id
    b := removeIncidence state.b edge.endpoints.b edge.id
    aEntities := removeIncidence state.aEntities edge.endpoints.a.entity edge.id
    bEntities := removeIncidence state.bEntities edge.endpoints.b.entity edge.id }
  if registration.projectsPairs then
    { state with
      pairs := removeIncidence state.pairs (registration.pairKey edge.endpoints edge.scope) edge.id }
  else state

def insertIndexed (schema : GraphSchema) (registration : EdgeRegistration) (state : EdgeTypeState)
    (edge : IndexedEdge) : EdgeTypeState :=
  let state := if schema.projectsEndpoint registration.edgeType .a then
      { state with
        a := insertIncidence state.a edge.endpoints.a edge.id
        aEntities := insertIncidence state.aEntities edge.endpoints.a.entity edge.id }
    else state
  let state := if schema.projectsEndpoint registration.edgeType .b then
      { state with
        b := insertIncidence state.b edge.endpoints.b edge.id
        bEntities := insertIncidence state.bEntities edge.endpoints.b.entity edge.id }
    else state
  let state := if registration.projectsPairs then
      { state with
        pairs := insertIncidence state.pairs (registration.pairKey edge.endpoints edge.scope) edge.id }
    else state
  if schema.projectsAnyEndpoint registration.edgeType then
    { state with edges := Function.update state.edges edge.id (some edge) }
  else state

/-- Drop the old value of an edge from the index of its type. -/
def dropEdge (registration : EdgeRegistration) (edge : IndexedEdge) (state : EdgeTypeState) :
    EdgeTypeState :=
  removeIndexed registration { state with edges := Function.update state.edges edge.id none } edge

namespace GraphState

def updateType (state : GraphState) (edgeType : String) (f : EdgeTypeState → EdgeTypeState) :
    GraphState :=
  { state with edgeTypes := Function.update state.edgeTypes edgeType (f (state.edgeTypes edgeType)) }

def bump (state : GraphState) (edgeType : String) : GraphState :=
  { state.updateType edgeType fun edges => { edges with generation := saturatingSucc edges.generation }
    with generation := saturatingSucc state.generation }

end GraphState

/-- Update all adjacency projections after canonical reduction. -/
def applyEdge (schema : GraphSchema) (old new : Option Item) : GraphM Nat := do
  let some item := new.or old | throw "graph mutation has no canonical item"
  let some registration := schema.registration item.entityType | return (← get).generation
  if let some old := old then
    let indexed ← passOn (registration.indexedEdge old)
    modify fun state => state.updateType registration.edgeType (dropEdge registration indexed)
  if let some new := new then
    let indexed ← passOn (registration.indexedEdge new)
    modify fun state => state.updateType registration.edgeType fun edges =>
      insertIndexed schema registration edges indexed
  modify fun state => state.bump registration.edgeType
  return (← get).generation

/-- Rebuild the entire derived index from canonical edge stores. -/
def rebuild (schema : GraphSchema) (registry : StoreRegistry) : GraphM Nat := do
  set GraphState.empty
  each (fun registration =>
    each (fun item => discard (applyEdge schema none (some item)))
      (registry.snapshot registration.edgeType)) schema.registrations
  return (← get).generation

/-! ### What a bucket holds -/

/-- The id stands in the bucket of the key. -/
def Holds {K : Type} (map : K → Option EdgeIds) (key : K) (id : String) : Prop :=
  ∃ ids, map key = some ids ∧ id ∈ ids

def CanonicalMap {K : Type} (map : K → Option EdgeIds) : Prop :=
  ∀ key ids, map key = some ids → ids.Canonical

section
variable {K : Type} [DecidableEq K] {map : K → Option EdgeIds}

theorem holds_insertIncidence {key other : K} {id candidate : String} :
    Holds (insertIncidence map key id) other candidate ↔
      Holds map other candidate ∨ (other = key ∧ candidate = id) := by
  unfold Holds insertIncidence
  by_cases same : other = key
  · subst same
    cases found : map other with
    | none => simp
    | some ids => simp [EdgeIds.mem_insert, or_comm]
  · cases found : map key with
    | none => simp [same]
    | some ids => simp [same]

theorem holds_removeIncidence {key other : K} {id candidate : String} :
    Holds (removeIncidence map key id) other candidate ↔
      Holds map other candidate ∧ ¬(other = key ∧ candidate = id) := by
  unfold Holds removeIncidence
  by_cases same : other = key
  · subst same
    cases found : map other with
    | none => simp [found]
    | some ids =>
      cases removed : ids.remove id with
      | mk kept empty =>
        cases empty with
        | true =>
          have gone : (ids.remove id).2 = true := by rw [removed]
          simpa [removed] using fun member => EdgeIds.remove_empty gone member
        | false =>
          have left : (ids.remove id).2 = false := by rw [removed]
          have members := @EdgeIds.mem_remove _ _ candidate left
          rw [removed] at members
          simpa [removed] using members
  · cases found : map key with
    | none => simp [same]
    | some ids =>
      cases removed : ids.remove id with
      | mk kept empty => cases empty <;> simp [same, removed]

theorem canonical_insertIncidence (canonical : CanonicalMap map) (key : K) (id : String) :
    CanonicalMap (insertIncidence map key id) := by
  intro other ids lookup
  unfold insertIncidence at lookup
  by_cases same : other = key
  · subst same
    cases found : map other with
    | none =>
      simp only [found, Function.update_self, Option.some.injEq] at lookup
      subst lookup
      trivial
    | some before =>
      simp only [found, Function.update_self, Option.some.injEq] at lookup
      subst lookup
      exact EdgeIds.insert_canonical (canonical _ _ found) id
  · cases found : map key with
    | none => exact canonical other ids (by simpa [found, Function.update_of_ne same] using lookup)
    | some before => exact canonical other ids (by simpa [found, Function.update_of_ne same] using lookup)

theorem canonical_removeIncidence (canonical : CanonicalMap map) (key : K) (id : String) :
    CanonicalMap (removeIncidence map key id) := by
  intro other ids lookup
  unfold removeIncidence at lookup
  cases found : map key with
  | none => exact canonical other ids (by simpa [found] using lookup)
  | some before =>
    cases removed : before.remove id with
    | mk kept empty =>
      simp only [found, removed] at lookup
      by_cases same : other = key
      · subst same
        cases empty with
        | true => simp at lookup
        | false =>
          simp only [Function.update_self, Option.some.injEq] at lookup
          subst lookup
          have left : (before.remove id).2 = false := by rw [removed]
          have remaining := EdgeIds.remove_canonical left
          rwa [removed] at remaining
      · exact canonical other ids (by cases empty <;> simpa [Function.update_of_ne same] using lookup)

omit [DecidableEq K] in
/-- Canonical maps that hold the same ids are the same map. -/
theorem CanonicalMap.ext {other : K → Option EdgeIds} (canonical : CanonicalMap map)
    (canonical' : CanonicalMap other) (h : ∀ key id, Holds map key id ↔ Holds other key id) :
    map = other := by
  have inhabited : ∀ ids : EdgeIds, ids.Canonical → ∃ id, id ∈ ids := by
    rintro (id | ids) several
    · exact ⟨id, EdgeIds.mem_one.mpr rfl⟩
    · obtain ⟨id, -, member, -⟩ := OrdSet.two_le_size.mp several
      exact ⟨id, EdgeIds.mem_many.mpr member⟩
  funext key
  cases left : map key with
  | none =>
    cases right : other key with
    | none => rfl
    | some ids =>
      obtain ⟨id, member⟩ := inhabited ids (canonical' _ _ right)
      obtain ⟨_, lookup, -⟩ := (h key id).mpr ⟨ids, right, member⟩
      simp [left] at lookup
  | some ids =>
    cases right : other key with
    | none =>
      obtain ⟨id, member⟩ := inhabited ids (canonical _ _ left)
      obtain ⟨_, lookup, -⟩ := (h key id).mp ⟨ids, left, member⟩
      simp [right] at lookup
    | some others =>
      congr 1
      refine (canonical _ _ left).ext (canonical' _ _ right) fun id => ?_
      simpa [Holds, left, right] using h key id

end

/-! ### The five maps as one index -/

inductive IndexKey where
  | a (endpoint : EndpointValue)
  | b (endpoint : EndpointValue)
  | aEntity (entity : EntityRef)
  | bEntity (entity : EntityRef)
  | pair (key : EdgePairKey)

namespace EdgeTypeState

def bucket (state : EdgeTypeState) : IndexKey → Option EdgeIds
  | .a endpoint => state.a endpoint
  | .b endpoint => state.b endpoint
  | .aEntity entity => state.aEntities entity
  | .bEntity entity => state.bEntities entity
  | .pair key => state.pairs key

/-- Which edges the index lists under which key. -/
def Incident (state : EdgeTypeState) : SecondaryIndex.Entries IndexKey String :=
  Holds state.bucket

/-- The maps without the counter. -/
def projections (state : EdgeTypeState) : EdgeTypeState := { state with generation := 0 }

theorem projections_eq {state other : EdgeTypeState} (edges : state.edges = other.edges)
    (buckets : state.bucket = other.bucket) : state.projections = other.projections := by
  have a : state.a = other.a := funext fun endpoint => congrFun buckets (.a endpoint)
  have b : state.b = other.b := funext fun endpoint => congrFun buckets (.b endpoint)
  have aEntities : state.aEntities = other.aEntities :=
    funext fun entity => congrFun buckets (.aEntity entity)
  have bEntities : state.bEntities = other.bEntities :=
    funext fun entity => congrFun buckets (.bEntity entity)
  have pairs : state.pairs = other.pairs := funext fun key => congrFun buckets (.pair key)
  simp [projections, edges, a, b, aEntities, bEntities, pairs]

end EdgeTypeState

/-- Whether the edge type keeps the map a key belongs to. -/
def projectsKey (schema : GraphSchema) (registration : EdgeRegistration) : IndexKey → Prop
  | .a _ | .aEntity _ => schema.projectsEndpoint registration.edgeType .a = true
  | .b _ | .bEntity _ => schema.projectsEndpoint registration.edgeType .b = true
  | .pair _ => registration.projectsPairs = true

namespace IndexedEdge

/-- The key of an edge in the map that `key` belongs to is `key`. -/
def At (registration : EdgeRegistration) (edge : IndexedEdge) : IndexKey → Prop
  | .a endpoint => endpoint = edge.endpoints.a
  | .b endpoint => endpoint = edge.endpoints.b
  | .aEntity entity => entity = edge.endpoints.a.entity
  | .bEntity entity => entity = edge.endpoints.b.entity
  | .pair key => key = registration.pairKey edge.endpoints edge.scope

/-- The keys an edge is listed under. -/
def keys (schema : GraphSchema) (registration : EdgeRegistration) (edge : IndexedEdge) :
    Set IndexKey :=
  {key | edge.At registration key ∧ projectsKey schema registration key}

def keySet (schema : GraphSchema) (registration : EdgeRegistration) (edge : Option IndexedEdge) :
    Set IndexKey :=
  {key | ∃ listed, edge = some listed ∧ key ∈ listed.keys schema registration}

@[simp] theorem mem_keySet_none {schema : GraphSchema} {registration : EdgeRegistration}
    {key : IndexKey} : key ∈ keySet schema registration none ↔ False := by
  simp [keySet]

@[simp] theorem mem_keySet_some {schema : GraphSchema} {registration : EdgeRegistration}
    {edge : IndexedEdge} {key : IndexKey} :
    key ∈ keySet schema registration (some edge) ↔ key ∈ edge.keys schema registration := by
  simp [keySet]

end IndexedEdge

/-! ### What one write does to the index -/

theorem insertIndexed_edges (schema : GraphSchema) (registration : EdgeRegistration)
    (state : EdgeTypeState) (edge : IndexedEdge) :
    (insertIndexed schema registration state edge).edges =
      if schema.projectsAnyEndpoint registration.edgeType then
        Function.update state.edges edge.id (some edge) else state.edges := by
  unfold insertIndexed
  dsimp only
  split_ifs <;> rfl

theorem insertIndexed_a (schema : GraphSchema) (registration : EdgeRegistration)
    (state : EdgeTypeState) (edge : IndexedEdge) :
    (insertIndexed schema registration state edge).a =
      if schema.projectsEndpoint registration.edgeType .a then
        insertIncidence state.a edge.endpoints.a edge.id else state.a := by
  unfold insertIndexed
  dsimp only
  split_ifs <;> rfl

theorem insertIndexed_aEntities (schema : GraphSchema) (registration : EdgeRegistration)
    (state : EdgeTypeState) (edge : IndexedEdge) :
    (insertIndexed schema registration state edge).aEntities =
      if schema.projectsEndpoint registration.edgeType .a then
        insertIncidence state.aEntities edge.endpoints.a.entity edge.id else state.aEntities := by
  unfold insertIndexed
  dsimp only
  split_ifs <;> rfl

theorem insertIndexed_b (schema : GraphSchema) (registration : EdgeRegistration)
    (state : EdgeTypeState) (edge : IndexedEdge) :
    (insertIndexed schema registration state edge).b =
      if schema.projectsEndpoint registration.edgeType .b then
        insertIncidence state.b edge.endpoints.b edge.id else state.b := by
  unfold insertIndexed
  dsimp only
  split_ifs <;> rfl

theorem insertIndexed_bEntities (schema : GraphSchema) (registration : EdgeRegistration)
    (state : EdgeTypeState) (edge : IndexedEdge) :
    (insertIndexed schema registration state edge).bEntities =
      if schema.projectsEndpoint registration.edgeType .b then
        insertIncidence state.bEntities edge.endpoints.b.entity edge.id else state.bEntities := by
  unfold insertIndexed
  dsimp only
  split_ifs <;> rfl

theorem insertIndexed_pairs (schema : GraphSchema) (registration : EdgeRegistration)
    (state : EdgeTypeState) (edge : IndexedEdge) :
    (insertIndexed schema registration state edge).pairs =
      if registration.projectsPairs then
        insertIncidence state.pairs (registration.pairKey edge.endpoints edge.scope) edge.id
      else state.pairs := by
  unfold insertIndexed
  dsimp only
  split_ifs <;> rfl

theorem dropEdge_edges (registration : EdgeRegistration) (edge : IndexedEdge)
    (state : EdgeTypeState) :
    (dropEdge registration edge state).edges = Function.update state.edges edge.id none := by
  unfold dropEdge removeIndexed
  dsimp only
  split_ifs <;> rfl

theorem dropEdge_a (registration : EdgeRegistration) (edge : IndexedEdge)
    (state : EdgeTypeState) :
    (dropEdge registration edge state).a = removeIncidence state.a edge.endpoints.a edge.id := by
  unfold dropEdge removeIndexed
  dsimp only
  split_ifs <;> rfl

theorem dropEdge_b (registration : EdgeRegistration) (edge : IndexedEdge)
    (state : EdgeTypeState) :
    (dropEdge registration edge state).b = removeIncidence state.b edge.endpoints.b edge.id := by
  unfold dropEdge removeIndexed
  dsimp only
  split_ifs <;> rfl

theorem dropEdge_aEntities (registration : EdgeRegistration) (edge : IndexedEdge)
    (state : EdgeTypeState) :
    (dropEdge registration edge state).aEntities = removeIncidence state.aEntities edge.endpoints.a.entity edge.id := by
  unfold dropEdge removeIndexed
  dsimp only
  split_ifs <;> rfl

theorem dropEdge_bEntities (registration : EdgeRegistration) (edge : IndexedEdge)
    (state : EdgeTypeState) :
    (dropEdge registration edge state).bEntities = removeIncidence state.bEntities edge.endpoints.b.entity edge.id := by
  unfold dropEdge removeIndexed
  dsimp only
  split_ifs <;> rfl

theorem dropEdge_pairs (registration : EdgeRegistration) (edge : IndexedEdge)
    (state : EdgeTypeState) :
    (dropEdge registration edge state).pairs =
      if registration.projectsPairs then
        removeIncidence state.pairs (registration.pairKey edge.endpoints edge.scope) edge.id
      else state.pairs := by
  unfold dropEdge removeIndexed
  dsimp only
  split_ifs <;> rfl

section
variable {schema : GraphSchema} {registration : EdgeRegistration} {state : EdgeTypeState}

theorem incident_insertIndexed {edge : IndexedEdge} {key : IndexKey} {id : String} :
    (insertIndexed schema registration state edge).Incident key id ↔
      state.Incident key id ∨ (id = edge.id ∧ key ∈ edge.keys schema registration) := by
  have gated : ∀ {K : Type} [DecidableEq K] {map : K → Option EdgeIds} {at_ other : K}
      {projected : Bool},
      Holds (if projected then insertIncidence map at_ edge.id else map) other id ↔
        Holds map other id ∨ (id = edge.id ∧ other = at_ ∧ projected = true) := by
    intro K _ map at_ other projected
    cases projected with
    | true => rw [if_pos rfl, holds_insertIncidence]; tauto
    | false => simp
  cases key with
  | a endpoint =>
    change Holds (insertIndexed schema registration state edge).a endpoint id ↔ _
    rw [insertIndexed_a]
    exact gated
  | b endpoint =>
    change Holds (insertIndexed schema registration state edge).b endpoint id ↔ _
    rw [insertIndexed_b]
    exact gated
  | aEntity entity =>
    change Holds (insertIndexed schema registration state edge).aEntities entity id ↔ _
    rw [insertIndexed_aEntities]
    exact gated
  | bEntity entity =>
    change Holds (insertIndexed schema registration state edge).bEntities entity id ↔ _
    rw [insertIndexed_bEntities]
    exact gated
  | pair key =>
    change Holds (insertIndexed schema registration state edge).pairs key id ↔ _
    rw [insertIndexed_pairs]
    exact gated

/-- Nothing is listed in a map the edge type does not keep. -/
def EdgeTypeState.Projected (schema : GraphSchema) (registration : EdgeRegistration)
    (state : EdgeTypeState) : Prop :=
  ∀ key id, state.Incident key id → projectsKey schema registration key

/-- Edges are taken from the endpoint maps whether or not the type keeps them; there is nothing to
take where it does not. -/
theorem incident_dropEdge (projected : state.Projected schema registration) {edge : IndexedEdge}
    {key : IndexKey} {id : String} :
    (dropEdge registration edge state).Incident key id ↔
      state.Incident key id ∧ ¬(id = edge.id ∧ key ∈ edge.keys schema registration) := by
  have listed : state.Incident key id ∧ ¬(edge.At registration key ∧ id = edge.id) ↔
      state.Incident key id ∧ ¬(id = edge.id ∧ key ∈ edge.keys schema registration) := by
    constructor
    · rintro ⟨held, other⟩
      exact ⟨held, fun ⟨same, filed⟩ => other ⟨filed.1, same⟩⟩
    · rintro ⟨held, other⟩
      exact ⟨held, fun ⟨here, same⟩ => other ⟨same, here, projected key id held⟩⟩
  rw [← listed]
  cases key with
  | a endpoint =>
    change Holds (dropEdge registration edge state).a endpoint id ↔ _
    rw [dropEdge_a]
    exact holds_removeIncidence
  | b endpoint =>
    change Holds (dropEdge registration edge state).b endpoint id ↔ _
    rw [dropEdge_b]
    exact holds_removeIncidence
  | aEntity entity =>
    change Holds (dropEdge registration edge state).aEntities entity id ↔ _
    rw [dropEdge_aEntities]
    exact holds_removeIncidence
  | bEntity entity =>
    change Holds (dropEdge registration edge state).bEntities entity id ↔ _
    rw [dropEdge_bEntities]
    exact holds_removeIncidence
  | pair key =>
    change Holds (dropEdge registration edge state).pairs key id ↔ _
    rw [dropEdge_pairs]
    cases kept : registration.projectsPairs with
    | true => exact holds_removeIncidence
    | false =>
      have none : ¬state.Incident (.pair key) id := fun held => by
        simpa [projectsKey, kept] using projected _ _ held
      exact ⟨fun held => absurd held none, fun held => absurd held.1 none⟩

theorem projected_insertIndexed (projected : state.Projected schema registration)
    (edge : IndexedEdge) :
    (insertIndexed schema registration state edge).Projected schema registration := by
  intro key id held
  rcases incident_insertIndexed.mp held with before | ⟨-, filed⟩
  · exact projected key id before
  · exact filed.2

theorem projected_dropEdge (projected : state.Projected schema registration) (edge : IndexedEdge) :
    (dropEdge registration edge state).Projected schema registration :=
  fun key id held => projected key id ((incident_dropEdge projected).mp held).1

theorem canonical_insertIndexed (canonical : CanonicalMap state.bucket) (edge : IndexedEdge) :
    CanonicalMap (insertIndexed schema registration state edge).bucket := by
  have gated : ∀ {K : Type} [DecidableEq K] {map : K → Option EdgeIds} {key : K}
      {projected : Bool}, CanonicalMap map →
      CanonicalMap (if projected then insertIncidence map key edge.id else map) := by
    intro K _ map key projected before
    cases projected with
    | true => exact canonical_insertIncidence before key edge.id
    | false => exact before
  intro key ids lookup
  cases key with
  | a endpoint =>
    change (insertIndexed schema registration state edge).a endpoint = some ids at lookup
    rw [insertIndexed_a] at lookup
    exact gated (fun k => canonical (.a k)) endpoint ids lookup
  | b endpoint =>
    change (insertIndexed schema registration state edge).b endpoint = some ids at lookup
    rw [insertIndexed_b] at lookup
    exact gated (fun k => canonical (.b k)) endpoint ids lookup
  | aEntity entity =>
    change (insertIndexed schema registration state edge).aEntities entity = some ids at lookup
    rw [insertIndexed_aEntities] at lookup
    exact gated (fun k => canonical (.aEntity k)) entity ids lookup
  | bEntity entity =>
    change (insertIndexed schema registration state edge).bEntities entity = some ids at lookup
    rw [insertIndexed_bEntities] at lookup
    exact gated (fun k => canonical (.bEntity k)) entity ids lookup
  | pair key =>
    change (insertIndexed schema registration state edge).pairs key = some ids at lookup
    rw [insertIndexed_pairs] at lookup
    exact gated (fun k => canonical (.pair k)) key ids lookup

theorem canonical_dropEdge (canonical : CanonicalMap state.bucket) (edge : IndexedEdge) :
    CanonicalMap (dropEdge registration edge state).bucket := by
  intro key ids lookup
  cases key with
  | a endpoint =>
    change (dropEdge registration edge state).a endpoint = some ids at lookup
    rw [dropEdge_a] at lookup
    exact canonical_removeIncidence (fun k => canonical (.a k)) _ _ endpoint ids lookup
  | b endpoint =>
    change (dropEdge registration edge state).b endpoint = some ids at lookup
    rw [dropEdge_b] at lookup
    exact canonical_removeIncidence (fun k => canonical (.b k)) _ _ endpoint ids lookup
  | aEntity entity =>
    change (dropEdge registration edge state).aEntities entity = some ids at lookup
    rw [dropEdge_aEntities] at lookup
    exact canonical_removeIncidence (fun k => canonical (.aEntity k)) _ _ entity ids lookup
  | bEntity entity =>
    change (dropEdge registration edge state).bEntities entity = some ids at lookup
    rw [dropEdge_bEntities] at lookup
    exact canonical_removeIncidence (fun k => canonical (.bEntity k)) _ _ entity ids lookup
  | pair key =>
    change (dropEdge registration edge state).pairs key = some ids at lookup
    rw [dropEdge_pairs] at lookup
    split at lookup
    · exact canonical_removeIncidence (fun k => canonical (.pair k)) _ _ key ids lookup
    · exact canonical (.pair key) ids lookup

end

/-! ### The index of one edge type -/

/-- The index of an edge type, whatever it lists: only maps the type keeps, in canonical buckets. -/
structure EdgeTypeState.Sound (schema : GraphSchema) (registration : EdgeRegistration)
    (state : EdgeTypeState) : Prop where
  projected : state.Projected schema registration
  canonical : CanonicalMap state.bucket

/-- The index of an edge type is that of a map from ids to edges. -/
structure EdgeTypeState.Indexes (schema : GraphSchema) (registration : EdgeRegistration)
    (state : EdgeTypeState) (stored : String → Option IndexedEdge) : Prop extends
    state.Sound schema registration where
  edges : ∀ id, state.edges id =
    if schema.projectsAnyEndpoint registration.edgeType then stored id else none
  incident : SecondaryIndex.Exact state.Incident fun id =>
    IndexedEdge.keySet schema registration (stored id)

/-- An index is determined by the edges it is the index of. -/
theorem EdgeTypeState.Indexes.unique {schema : GraphSchema} {registration : EdgeRegistration}
    {state other : EdgeTypeState} {stored : String → Option IndexedEdge}
    (h : state.Indexes schema registration stored) (h' : other.Indexes schema registration stored) :
    state.projections = other.projections := by
  refine projections_eq (funext fun id => (h.edges id).trans (h'.edges id).symm) ?_
  exact h.canonical.ext h'.canonical fun key id => (h.incident key id).trans (h'.incident key id).symm

theorem indexes_projections {schema : GraphSchema} {registration : EdgeRegistration}
    {state : EdgeTypeState} {stored : String → Option IndexedEdge} :
    state.projections.Indexes schema registration stored ↔ state.Indexes schema registration stored :=
  ⟨fun h => ⟨⟨h.projected, h.canonical⟩, h.edges, h.incident⟩,
    fun h => ⟨⟨h.projected, h.canonical⟩, h.edges, h.incident⟩⟩

end Myko

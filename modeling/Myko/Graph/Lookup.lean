import Myko.Graph.Watch

/-!
Looking edges up: by the maps an edge type keeps, else by a scan of its store. Over a coherent index
both find the stored edges that match.
-/

namespace Myko

/-- The ids of a bucket, if there is one. -/
def bucketIds (bucket : Option EdgeIds) : List String :=
  match bucket with
  | some ids => ids.ids
  | none => []

namespace GraphView

variable (view : GraphView)

def bucketAt (edges : EdgeTypeState) (position : EndPosition) (endpoint : EndpointValue) :
    Option EdgeIds :=
  match position with
  | .a => edges.a endpoint
  | .b => edges.b endpoint

/-- The stored edges whose endpoints match, found by looking at all of them. -/
def scan (registration : EdgeRegistration) (matchesEndpoints : EdgeEndpoints → Bool) : List String :=
  ((view.registry.snapshot registration.edgeType).filter
    (itemMatches registration matchesEndpoints)).map Item.id

def edgeIdsAt (registration : EdgeRegistration) (position : EndPosition) (endpoint : EndpointValue) :
    List String :=
  if !view.schema.projectsEndpoint registration.edgeType position then
    view.scan registration fun endpoints => endpoints.at position = endpoint
  else bucketIds (bucketAt (view.state.edgeTypes registration.edgeType) position endpoint)

def extendIds (ids : OrdSet String) (bucket : Option EdgeIds) : OrdSet String :=
  match bucket with
  | some bucket => bucket.ids.foldl (fun ids id => ids.insert id) ids
  | none => ids

def edgeIdsManyAt (registration : EdgeRegistration) (position : EndPosition)
    (endpoints : List EndpointValue) : List String :=
  if endpoints.isEmpty then []
  else if !view.schema.projectsEndpoint registration.edgeType position then
    view.scan registration fun candidate => candidate.at position ∈ endpoints
  else
    let edges := view.state.edgeTypes registration.edgeType
    (endpoints.foldl (fun ids endpoint => extendIds ids (bucketAt edges position endpoint)) ∅).toList

def usesUnscopedPairFastPath (registration : EdgeRegistration) : Bool :=
  registration.projectsPairs && registration.scopeType.isNone

def indexedIdsBetween (registration : EdgeRegistration) (edges : EdgeTypeState)
    (a b : EndpointValue) : List String :=
  let aEager := view.schema.projectsEndpoint registration.edgeType .a
  let bEager := view.schema.projectsEndpoint registration.edgeType .b
  if aEager && bEager && registration.shape = .directed then
    match edges.a a, edges.b b with
    | some aIds, some bIds =>
      if aIds.len ≤ bIds.len then aIds.ids.filter bIds.contains else bIds.ids.filter aIds.contains
    | _, _ => []
  else
    let undirected := registration.shape = .undirected
    let candidates : OrdSet String := ∅
    let candidates := if aEager then extendIds candidates (edges.a a) else candidates
    let candidates := if aEager ∧ undirected then extendIds candidates (edges.a b) else candidates
    let candidates := if bEager then extendIds candidates (edges.b b) else candidates
    let candidates := if bEager ∧ undirected then extendIds candidates (edges.b a) else candidates
    candidates.toList.filter fun id =>
      (edges.edges id).any fun edge => endpointsMatch registration edge.endpoints a b

def edgeIdsBetween (registration : EdgeRegistration) (a b : EndpointValue) : List String :=
  let edges := view.state.edgeTypes registration.edgeType
  if usesUnscopedPairFastPath registration then
    bucketIds (edges.pairs (registration.pairKeyFromValues a b none))
  else if !view.schema.projectsAnyEndpoint registration.edgeType then
    view.scan registration fun endpoints => endpointsMatch registration endpoints a b
  else view.indexedIdsBetween registration edges a b

def edgeIdsIncident (registration : EdgeRegistration) (endpoint : EndpointValue) : List String :=
  ((view.edgeIdsAt registration .a endpoint ++ view.edgeIdsAt registration .b endpoint).mergeSort
    (· ≤ ·)).dedup

def edgeCountAt (registration : EdgeRegistration) (position : EndPosition)
    (endpoint : EndpointValue) : Nat :=
  if !view.schema.projectsEndpoint registration.edgeType position then
    ((view.registry.snapshot registration.edgeType).filter (itemMatches registration
      fun endpoints => endpoints.at position = endpoint)).length
  else
    match bucketAt (view.state.edgeTypes registration.edgeType) position endpoint with
    | some ids => ids.len
    | none => 0

def edgeCountBetween (registration : EdgeRegistration) (a b : EndpointValue) : Nat :=
  if usesUnscopedPairFastPath registration then
    match (view.state.edgeTypes registration.edgeType).pairs
        (registration.pairKeyFromValues a b none) with
    | some ids => ids.len
    | none => 0
  else (view.edgeIdsBetween registration a b).length

/-- The edges of one type that a selection finds. -/
def edgeIds (registration : EdgeRegistration) : GraphSelection → List String
  | .at position endpoint => view.edgeIdsAt registration position endpoint
  | .manyAt position endpoints => view.edgeIdsManyAt registration position endpoints
  | .between a b => view.edgeIdsBetween registration a b
  | .incident endpoint => view.edgeIdsIncident registration endpoint

end GraphView

/-- What a watch of a selection begins with. -/
def GraphView.watchMatching (view : GraphView) (registration : EdgeRegistration)
    (selection : GraphSelection) : GraphWatch where
  registration := registration
  selection := selection
  output := .map (OrdMap.insertMany ∅ ((view.edgeIds registration selection).filterMap fun id =>
    (view.registry.getValue registration.edgeType id).map fun item => (id, item)))

def GraphView.watchCountAt (view : GraphView) (registration : EdgeRegistration)
    (position : EndPosition) (endpoint : EndpointValue) : GraphWatch where
  registration := registration
  selection := .at position endpoint
  output := .count (view.edgeCountAt registration position endpoint)

def GraphView.watchCountBetween (view : GraphView) (registration : EdgeRegistration)
    (a b : EndpointValue) : GraphWatch where
  registration := registration
  selection := .between a b
  output := .count (view.edgeCountBetween registration a b)

/-! ### What lookups find -/

theorem mem_bucketIds {K : Type} {map : K → Option EdgeIds} {key : K} {id : String} :
    id ∈ bucketIds (map key) ↔ Holds map key id := by
  unfold bucketIds Holds
  cases map key with
  | none => simp
  | some ids => simp [EdgeIds.mem_def]

theorem nodup_bucketIds (bucket : Option EdgeIds) : (bucketIds bucket).Nodup := by
  cases bucket with
  | none => exact List.nodup_nil
  | some ids =>
    cases ids with
    | one id => exact List.nodup_singleton id
    | many ids => exact OrdSet.nodup_toList ids

theorem length_bucketIds (bucket : Option EdgeIds) :
    (bucketIds bucket).length = match bucket with
      | some ids => ids.len
      | none => 0 := by
  cases bucket with
  | none => rfl
  | some ids =>
    cases ids with
    | one id => rfl
    | many ids => exact Std.ExtTreeSet.length_toList

theorem mem_extendIds {ids : OrdSet String} {bucket : Option EdgeIds} {id : String} :
    id ∈ GraphView.extendIds ids bucket ↔ id ∈ ids ∨ id ∈ bucketIds bucket := by
  have inserted : ∀ (list : List String) (ids : OrdSet String),
      id ∈ list.foldl (fun ids id => ids.insert id) ids ↔ id ∈ ids ∨ id ∈ list := by
    intro list
    induction list with
    | nil => simp
    | cons first rest ih =>
      intro ids
      rw [List.foldl_cons, ih, OrdSet.mem_insert, List.mem_cons]
      tauto
  cases bucket with
  | none => simp [GraphView.extendIds, bucketIds]
  | some bucket => exact inserted bucket.ids ids

theorem mem_extendIf {p : Prop} [Decidable p] {ids : OrdSet String} {bucket : Option EdgeIds}
    {id : String} :
    id ∈ (if p then GraphView.extendIds ids bucket else ids) ↔
      id ∈ ids ∨ (p ∧ id ∈ bucketIds bucket) := by
  by_cases h : p <;> simp [h, mem_extendIds]

theorem mem_scan_stored {view : GraphView} {registration : EdgeRegistration} {matchesEndpoints : EdgeEndpoints → Bool}
    {id : String} : id ∈ view.scan registration matchesEndpoints ↔
      ∃ item, view.registry.getValue registration.edgeType id = some item ∧
        itemMatches registration matchesEndpoints item = true := by
  unfold GraphView.scan
  rw [List.mem_map]
  constructor
  · rintro ⟨item, member, rfl⟩
    obtain ⟨listed, hit⟩ := List.mem_filter.mp member
    obtain ⟨sameType, stored⟩ := StoreRegistry.mem_snapshot.mp listed
    exact ⟨item, sameType ▸ stored, hit⟩
  · rintro ⟨item, stored, hit⟩
    exact ⟨item, List.mem_filter.mpr ⟨StoreRegistry.snapshot_of_getValue stored, hit⟩,
      (StoreRegistry.getValue_keyed stored).2⟩

section
variable {view : GraphView} {registration : EdgeRegistration}
  (coherent : view.state.Coherent view.schema view.registry)
  (registered : registration ∈ view.schema.registrations)
include coherent registered

/-- A stored item of an edge type is a stored edge, with the endpoints it extracts. -/
theorem matches_iff (matchesEndpoints : EdgeEndpoints → Bool) (id : String) :
    (∃ item, view.registry.getValue registration.edgeType id = some item ∧
      itemMatches registration matchesEndpoints item = true) ↔
    ∃ edge, registration.storedEdges view.registry id = some edge ∧
      matchesEndpoints edge.endpoints = true := by
  have extracts := coherent.extracts registration registered id
  unfold EdgeRegistration.storedEdges
  cases stored : view.registry.getValue registration.edgeType id with
  | none => simp [EdgeRegistration.edgeOf]
  | some item =>
    rw [stored] at extracts
    obtain ⟨edge, indexed⟩ := extracts item rfl
    have endpoints := (EdgeRegistration.read_of_indexed indexed).1
    have edgeOf : registration.edgeOf (some item) = some edge := by
      simp [EdgeRegistration.edgeOf, indexed, Except.toOption]
    rw [edgeOf]
    simp [itemMatches, endpoints]

theorem mem_scan {matchesEndpoints : EdgeEndpoints → Bool} {id : String} :
    id ∈ view.scan registration matchesEndpoints ↔
      ∃ edge, registration.storedEdges view.registry id = some edge ∧
        matchesEndpoints edge.endpoints = true := by
  rw [← matches_iff coherent registered]
  exact mem_scan_stored

theorem mem_bucketAt (position : EndPosition) {endpoint : EndpointValue} {id : String}
    (kept : view.schema.projectsEndpoint registration.edgeType position = true) :
    id ∈ bucketIds (GraphView.bucketAt (view.state.edgeTypes registration.edgeType) position endpoint) ↔
      ∃ edge, registration.storedEdges view.registry id = some edge ∧
        edge.endpoints.at position = endpoint := by
  have incident := (coherent.indexes registration registered).incident
  cases position with
  | a =>
    refine mem_bucketIds.trans ((incident (.a endpoint) id).trans ?_)
    constructor
    · rintro ⟨edge, stored, at_, -⟩
      exact ⟨edge, stored, at_.symm⟩
    · rintro ⟨edge, stored, rfl⟩
      exact ⟨edge, stored, rfl, kept⟩
  | b =>
    refine mem_bucketIds.trans ((incident (.b endpoint) id).trans ?_)
    constructor
    · rintro ⟨edge, stored, at_, -⟩
      exact ⟨edge, stored, at_.symm⟩
    · rintro ⟨edge, stored, rfl⟩
      exact ⟨edge, stored, rfl, kept⟩

theorem mem_edgeIdsAt {position : EndPosition} {endpoint : EndpointValue} {id : String} :
    id ∈ view.edgeIdsAt registration position endpoint ↔
      ∃ edge, registration.storedEdges view.registry id = some edge ∧
        edge.endpoints.at position = endpoint := by
  unfold GraphView.edgeIdsAt
  cases kept : view.schema.projectsEndpoint registration.edgeType position with
  | false => simp [mem_scan coherent registered]
  | true => exact mem_bucketAt coherent registered position kept

theorem mem_edgeIdsManyAt {position : EndPosition} {endpoints : List EndpointValue} {id : String} :
    id ∈ view.edgeIdsManyAt registration position endpoints ↔
      ∃ edge, registration.storedEdges view.registry id = some edge ∧
        edge.endpoints.at position ∈ endpoints := by
  unfold GraphView.edgeIdsManyAt
  cases empty : endpoints.isEmpty with
  | true => simp [List.isEmpty_iff.mp empty]
  | false =>
    cases kept : view.schema.projectsEndpoint registration.edgeType position with
    | false => simp [mem_scan coherent registered]
    | true =>
      have union : ∀ (listed : List EndpointValue) (ids : OrdSet String),
          id ∈ listed.foldl (fun ids endpoint => GraphView.extendIds ids
            (GraphView.bucketAt (view.state.edgeTypes registration.edgeType) position endpoint)) ids ↔
          id ∈ ids ∨ ∃ edge, registration.storedEdges view.registry id = some edge ∧
            edge.endpoints.at position ∈ listed := by
        intro listed
        induction listed with
        | nil => simp
        | cons first rest ih =>
          intro ids
          rw [List.foldl_cons, ih, mem_extendIds, mem_bucketAt coherent registered position kept]
          simp only [List.mem_cons]
          constructor
          · rintro ((before | ⟨edge, stored, here⟩) | ⟨edge, stored, later⟩)
            · exact .inl before
            · exact .inr ⟨edge, stored, .inl here⟩
            · exact .inr ⟨edge, stored, .inr later⟩
          · rintro (before | ⟨edge, stored, here | later⟩)
            · exact .inl (.inl before)
            · exact .inl (.inr ⟨edge, stored, here⟩)
            · exact .inr ⟨edge, stored, later⟩
      simp only [Bool.not_true, Bool.false_eq_true, ↓reduceIte, OrdSet.mem_toList, union]
      simp

theorem mem_edgeIdsIncident {endpoint : EndpointValue} {id : String} :
    id ∈ view.edgeIdsIncident registration endpoint ↔
      ∃ edge, registration.storedEdges view.registry id = some edge ∧
        (edge.endpoints.a = endpoint ∨ edge.endpoints.b = endpoint) := by
  unfold GraphView.edgeIdsIncident
  rw [List.mem_dedup, List.mem_mergeSort, List.mem_append, mem_edgeIdsAt coherent registered,
    mem_edgeIdsAt coherent registered, ← exists_or]
  exact exists_congr fun edge => and_or_left.symm

omit coherent registered in
theorem contains_iff {ids : EdgeIds} {id : String} : ids.contains id = true ↔ id ∈ ids := by
  cases ids with
  | one other => simp [EdgeIds.contains, eq_comm]
  | many ids => simp [EdgeIds.contains]

omit coherent registered in
/-- Two pairs have one key when they match, whichever way round an undirected type has them. -/
theorem pairKeyFromValues_eq {a b : EndpointValue} {endpoints : EdgeEndpoints}
    {scope other : Option IndexValue} :
    registration.pairKeyFromValues a b scope = registration.pairKey endpoints other ↔
      scope = other ∧ endpointsMatch registration endpoints a b = true := by
  obtain ⟨c, d⟩ := endpoints
  unfold EdgeRegistration.pairKey EdgeRegistration.pairKeyFromValues endpointsMatch
  cases registration.shape with
  | directed =>
    simp only [reduceCtorEq, false_and, ↓reduceIte, EdgePairKey.mk.injEq, decide_false, Bool.false_and,
      Bool.or_false, Bool.and_eq_true, decide_eq_true_eq]
    rw [eq_comm (a := a), eq_comm (a := b)]
  | undirected =>
    simp only [true_and, Bool.or_eq_true, Bool.and_eq_true, decide_eq_true_eq, decide_true, Bool.true_and]
    by_cases swapped : b < a <;> by_cases swapped' : d < c <;> simp only [swapped, swapped', ↓reduceIte,
      EdgePairKey.mk.injEq]
    · grind
    · grind
    · grind
    · grind

theorem scope_of_stored {id : String} {edge : IndexedEdge} (unscoped : registration.scopeType = none)
    (stored : registration.storedEdges view.registry id = some edge) : edge.scope = none := by
  have extracts := coherent.extracts registration registered id
  unfold EdgeRegistration.storedEdges at stored
  rcases extracts_cases extracts with ⟨-, none⟩ | ⟨item, found, -, indexed, same⟩
  · rw [none] at stored
    cases stored
  · rw [same] at stored
    cases stored
    obtain ⟨-, inScope⟩ := EdgeRegistration.read_of_indexed indexed
    exact registration.unscoped unscoped item edge.scope inScope

theorem mem_indexedIdsBetween {a b : EndpointValue} {id : String}
    (kept : view.schema.projectsAnyEndpoint registration.edgeType = true) :
    id ∈ view.indexedIdsBetween registration (view.state.edgeTypes registration.edgeType) a b ↔
      ∃ edge, registration.storedEdges view.registry id = some edge ∧
        endpointsMatch registration edge.endpoints a b = true := by
  have edges : ∀ id, (view.state.edgeTypes registration.edgeType).edges id =
      registration.storedEdges view.registry id := fun id => by
    rw [(coherent.indexes registration registered).edges, if_pos kept]
  have atA : ∀ endpoint, view.schema.projectsEndpoint registration.edgeType .a = true →
      (id ∈ bucketIds ((view.state.edgeTypes registration.edgeType).a endpoint) ↔
        ∃ edge, registration.storedEdges view.registry id = some edge ∧ edge.endpoints.a = endpoint) :=
    fun endpoint kept => mem_bucketAt coherent registered .a kept
  have atB : ∀ endpoint, view.schema.projectsEndpoint registration.edgeType .b = true →
      (id ∈ bucketIds ((view.state.edgeTypes registration.edgeType).b endpoint) ↔
        ∃ edge, registration.storedEdges view.registry id = some edge ∧ edge.endpoints.b = endpoint) :=
    fun endpoint kept => mem_bucketAt coherent registered .b kept
  unfold GraphView.indexedIdsBetween
  dsimp only
  split
  · rename_i both
    simp only [Bool.and_eq_true, decide_eq_true_eq] at both
    obtain ⟨⟨aEager, bEager⟩, directed⟩ := both
    have matched : ∀ endpoints : EdgeEndpoints, endpointsMatch registration endpoints a b = true ↔
        endpoints.a = a ∧ endpoints.b = b := by
      intro endpoints
      simp [endpointsMatch, directed]
    have joined : (id ∈ bucketIds ((view.state.edgeTypes registration.edgeType).a a) ∧
        id ∈ bucketIds ((view.state.edgeTypes registration.edgeType).b b)) ↔
        ∃ edge, registration.storedEdges view.registry id = some edge ∧
          endpointsMatch registration edge.endpoints a b = true := by
      rw [atA a aEager, atB b bEager]
      simp only [matched]
      constructor
      · rintro ⟨⟨edge, stored, here⟩, other, stored', there⟩
        obtain rfl := Option.some.inj (stored.symm.trans stored')
        exact ⟨edge, stored, here, there⟩
      · rintro ⟨edge, stored, here, there⟩
        exact ⟨⟨edge, stored, here⟩, edge, stored, there⟩
    rw [← joined]
    cases (view.state.edgeTypes registration.edgeType).a a with
    | none => simp [bucketIds]
    | some aIds =>
      cases (view.state.edgeTypes registration.edgeType).b b with
      | none => simp [bucketIds]
      | some bIds =>
        dsimp only [bucketIds]
        split
        · rw [List.mem_filter, contains_iff, EdgeIds.mem_def]
        · rw [List.mem_filter, contains_iff, EdgeIds.mem_def, and_comm]
  · rw [List.mem_filter, OrdSet.mem_toList, edges]
    simp only [mem_extendIf, Option.any_eq_true]
    constructor
    · rintro ⟨-, edge, stored, matched⟩
      exact ⟨edge, stored, matched⟩
    · rintro ⟨edge, stored, matched⟩
      refine ⟨?_, edge, stored, matched⟩
      have ends : (edge.endpoints.a = a ∧ edge.endpoints.b = b) ∨
          (registration.shape = .undirected ∧ edge.endpoints.a = b ∧ edge.endpoints.b = a) := by
        simpa [endpointsMatch, and_assoc] using matched
      have eager := Bool.or_eq_true_iff.mp kept
      rcases eager with aEager | bEager
      · rcases ends with ⟨rfl, -⟩ | ⟨undirected, rfl, -⟩
        · exact .inl (.inl (.inl (.inr ⟨aEager, (atA _ aEager).mpr ⟨edge, stored, rfl⟩⟩)))
        · exact .inl (.inl (.inr ⟨⟨aEager, by simpa using undirected⟩,
            (atA _ aEager).mpr ⟨edge, stored, rfl⟩⟩))
      · rcases ends with ⟨-, rfl⟩ | ⟨undirected, -, rfl⟩
        · exact .inl (.inr ⟨bEager, (atB _ bEager).mpr ⟨edge, stored, rfl⟩⟩)
        · exact .inr ⟨⟨bEager, by simpa using undirected⟩, (atB _ bEager).mpr ⟨edge, stored, rfl⟩⟩

theorem mem_edgeIdsBetween {a b : EndpointValue} {id : String} :
    id ∈ view.edgeIdsBetween registration a b ↔
      ∃ edge, registration.storedEdges view.registry id = some edge ∧
        endpointsMatch registration edge.endpoints a b = true := by
  unfold GraphView.edgeIdsBetween
  dsimp only
  split
  · rename_i fast
    obtain ⟨pairs, unscoped⟩ := Bool.and_eq_true_iff.mp fast
    refine mem_bucketIds.trans
      (((coherent.indexes registration registered).incident (.pair _) id).trans ?_)
    constructor
    · rintro ⟨edge, stored, at_, -⟩
      exact ⟨edge, stored, (pairKeyFromValues_eq.mp at_).2⟩
    · rintro ⟨edge, stored, matched⟩
      have scope := scope_of_stored coherent registered (Option.isNone_iff_eq_none.mp unscoped) stored
      exact ⟨edge, stored, pairKeyFromValues_eq.mpr ⟨scope.symm, matched⟩, pairs⟩
  · split
    · exact mem_scan coherent registered
    · rename_i kept
      exact mem_indexedIdsBetween coherent registered (by simpa using kept)

/-- Over a coherent index a selection finds the stored edges that match it. -/
theorem mem_edgeIds (selection : GraphSelection) (id : String) :
    id ∈ view.edgeIds registration selection ↔
      ∃ item, view.registry.getValue registration.edgeType id = some item ∧
        itemMatches registration (selection.matchesEndpoints registration) item = true := by
  rw [matches_iff coherent registered]
  cases selection with
  | «at» position endpoint =>
    simpa [GraphView.edgeIds, GraphSelection.matchesEndpoints] using mem_edgeIdsAt coherent registered
  | manyAt position endpoints =>
    simpa [GraphView.edgeIds, GraphSelection.matchesEndpoints] using mem_edgeIdsManyAt coherent registered
  | between a b => exact mem_edgeIdsBetween coherent registered
  | incident endpoint =>
    simpa [GraphView.edgeIds, GraphSelection.matchesEndpoints] using mem_edgeIdsIncident coherent registered

end

theorem nodup_scan (view : GraphView) (registration : EdgeRegistration)
    (matchesEndpoints : EdgeEndpoints → Bool) : (view.scan registration matchesEndpoints).Nodup :=
  (view.registry.snapshot_nodup_ids registration.edgeType).sublist (List.filter_sublist.map Item.id)

theorem nodup_indexedIdsBetween (view : GraphView) (registration : EdgeRegistration) (edges : EdgeTypeState)
    (a b : EndpointValue) : (view.indexedIdsBetween registration edges a b).Nodup := by
  unfold GraphView.indexedIdsBetween
  dsimp only
  split
  · split
    · rename_i aIds bIds _ _
      split
      · exact (nodup_bucketIds (some aIds)).filter _
      · exact (nodup_bucketIds (some bIds)).filter _
    · exact List.nodup_nil
  · exact (OrdSet.nodup_toList _).filter _

/-- A selection finds an edge once. -/
theorem nodup_edgeIds (view : GraphView) (registration : EdgeRegistration)
    (selection : GraphSelection) : (view.edgeIds registration selection).Nodup := by
  cases selection with
  | «at» position endpoint =>
    unfold GraphView.edgeIds GraphView.edgeIdsAt
    dsimp only
    split
    · exact nodup_scan _ _ _
    · exact nodup_bucketIds _
  | manyAt position endpoints =>
    unfold GraphView.edgeIds GraphView.edgeIdsManyAt
    dsimp only
    split
    · exact List.nodup_nil
    · split
      · exact nodup_scan _ _ _
      · exact OrdSet.nodup_toList _
  | between a b =>
    unfold GraphView.edgeIds GraphView.edgeIdsBetween
    dsimp only
    split
    · exact nodup_bucketIds _
    · split
      · exact nodup_scan _ _ _
      · exact nodup_indexedIdsBetween _ _ _ _ _
  | incident endpoint => exact List.nodup_dedup _

/-- What is counted is what is found. -/
theorem edgeCountAt_eq (view : GraphView) (registration : EdgeRegistration) (position : EndPosition)
    (endpoint : EndpointValue) :
    view.edgeCountAt registration position endpoint =
      (view.edgeIds registration (.at position endpoint)).length := by
  unfold GraphView.edgeIds GraphView.edgeCountAt GraphView.edgeIdsAt
  dsimp only
  split
  · rw [GraphView.scan, List.length_map]
  · rw [length_bucketIds]

theorem edgeCountBetween_eq (view : GraphView) (registration : EdgeRegistration)
    (a b : EndpointValue) :
    view.edgeCountBetween registration a b = (view.edgeIds registration (.between a b)).length := by
  unfold GraphView.edgeIds GraphView.edgeCountBetween
  dsimp only
  split
  · rename_i fast
    rw [GraphView.edgeIdsBetween, if_pos fast, length_bucketIds]
  · rfl

end Myko

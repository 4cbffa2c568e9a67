import Myko.Lib.Collect
import Myko.Graph.Sample

/-!
The plan for deleting an entity, over a coherent index: what refuses it and which edges go with the entity is
said by the stored edges and the delete policies alone.
-/

namespace Myko

/-- A stored edge of the type has the entity at that end. -/
def GraphView.Touches (view : GraphView) (registration : EdgeRegistration) (position : EndPosition)
    (endpoint : EntityRef) (id : String) : Prop :=
  ∃ edge, registration.storedEdges view.registry id = some edge ∧
    (edge.endpoints.at position).entity = endpoint

/-- Some stored edge stands in the way of deleting the entity. -/
def GraphView.Restricted (view : GraphView) (endpoint : EntityRef) : Prop :=
  ∃ registration ∈ view.schema.registrations, ∃ position id,
    registration.deletePolicy position = .restrictEndpointDelete ∧
      view.Touches registration position endpoint id

/-- The edge is to go with the entity. -/
def GraphView.Follows (view : GraphView) (endpoint : EntityRef) (edgeType id : String) : Prop :=
  ∃ registration ∈ view.schema.registrations, registration.edgeType = edgeType ∧
    ∃ position, registration.deletePolicy position = .cascadeEdge ∧ view.Touches registration position endpoint id

/-- The entity-level map of that end lists the edge with the entity. -/
def GraphView.Lists (view : GraphView) (registration : EdgeRegistration) (position : EndPosition)
    (endpoint : EntityRef) (id : String) : Prop :=
  Holds (match position with
    | .a => (view.state.edgeTypes registration.edgeType).aEntities
    | .b => (view.state.edgeTypes registration.edgeType).bEntities) endpoint id

/-- A registration without its choice of what to keep an index of. -/
def EdgeRegistration.bare (registration : EdgeRegistration) : EdgeRegistration :=
  { registration with adjacency := .demandDriven, pairProjection := .intersectAdjacency }

/-- The same edge types, whatever endpoints are kept. -/
def GraphSchema.SameTypes (schema other : GraphSchema) : Prop :=
  schema.registrations.map EdgeRegistration.bare = other.registrations.map EdgeRegistration.bare

theorem GraphSchema.SameTypes.bare {schema other : GraphSchema} (types : schema.SameTypes other)
    {registration : EdgeRegistration} (registered : registration ∈ schema.registrations) :
    ∃ same ∈ other.registrations, same.bare = registration.bare := by
  have among : registration.bare ∈ schema.registrations.map EdgeRegistration.bare := List.mem_map_of_mem registered
  rw [types] at among
  exact List.mem_map.mp among

theorem EdgeIds.mem_of_first {ids : EdgeIds} {id : String} (first : ids.first = some id) : id ∈ ids := by
  cases ids with
  | one other =>
    cases first
    exact EdgeIds.mem_one.mpr rfl
  | many others => exact EdgeIds.mem_many.mpr (Std.ExtTreeSet.min?_mem first)

theorem EdgeIds.not_mem_of_first {ids : EdgeIds} (first : ids.first = none) (id : String) : id ∉ ids := by
  cases ids with
  | one other => cases first
  | many others =>
    rw [EdgeIds.mem_many]
    have empty := Std.ExtTreeSet.min?_eq_none_iff.mp first
    rw [empty]
    exact Std.ExtTreeSet.not_mem_empty

theorem mem_of_holds {K : Type} {map : K → Option EdgeIds} {key : K} {id : String} {ids : EdgeIds}
    (held : Holds map key id) (present : map key = some ids) : id ∈ ids := by
  obtain ⟨other, same, among⟩ := held
  obtain rfl := Option.some.inj (present.symm.trans same)
  exact among

theorem EndPosition.exists_iff {p : EndPosition → Prop} : (∃ position, p position) ↔ p .a ∨ p .b := by
  constructor
  · rintro ⟨position, here⟩
    cases position with
    | a => exact .inl here
    | b => exact .inr here
  · rintro (here | here)
    · exact ⟨.a, here⟩
    · exact ⟨.b, here⟩

theorem EdgeRegistration.storedEdges_eq_some {registration : EdgeRegistration} {registry : StoreRegistry} {id : String}
    {edge : IndexedEdge} : registration.storedEdges registry id = some edge ↔
      ∃ item, registry.getValue registration.edgeType id = some item ∧ registration.indexedEdge item = .ok edge := by
  constructor
  · intro stored
    obtain ⟨item, value, read⟩ := value_of_stored stored
    refine ⟨item, value, ?_⟩
    unfold edgeOf at read
    rw [Option.bind_some] at read
    cases indexed : registration.indexedEdge item with
    | error e =>
      rw [indexed] at read
      cases read
    | ok other =>
      rw [indexed] at read
      cases read
      rfl
  · rintro ⟨item, value, indexed⟩
    unfold storedEdges edgeOf
    rw [value, Option.bind_some, indexed]
    rfl

section
variable {view : GraphView} {registration : EdgeRegistration}

/-- What the maps of one end contribute, by what they list. -/
theorem collects_listed (endpoint : EntityRef) (cascade : List (String × String)) (position : EndPosition) :
    Collects cascade
      (view.schema.projectsEndpoint registration.edgeType position = true ∧
        registration.deletePolicy position = .restrictEndpointDelete ∧
          ∃ id, view.Lists registration position endpoint id)
      (fun edge => edge.1 = registration.edgeType ∧
        view.schema.projectsEndpoint registration.edgeType position = true ∧
          registration.deletePolicy position = .cascadeEdge ∧
            view.Lists registration position endpoint edge.2)
      (view.planIndexed endpoint registration cascade position) := by
  unfold GraphView.planIndexed GraphView.Lists
  cases kept : view.schema.projectsEndpoint registration.edgeType position with
  | false => exact Collects.nothing (by simp) (by simp)
  | true =>
    simp only [Bool.not_true, Bool.false_eq_true, if_false, true_and]
    cases position
    all_goals
      dsimp only
      split
      · rename_i absent
        refine Collects.nothing ?_ fun edge => ?_
        · rintro ⟨-, id, ids, present, -⟩
          exact absurd (absent.symm.trans present) (by simp)
        · rintro ⟨-, -, ids, present, -⟩
          exact absurd (absent.symm.trans present) (by simp)
      · rename_i ids present
        split
        · rename_i restricts
          cases first : ids.first with
          | some id => exact Collects.error ⟨restricts, id, ids, present, EdgeIds.mem_of_first first⟩ _
          | none =>
            refine Collects.nothing ?_ fun edge => ?_
            · rintro ⟨-, id, held⟩
              exact EdgeIds.not_mem_of_first first id (mem_of_holds held present)
            · rintro ⟨-, cascades, -⟩
              rw [restricts] at cascades
              cases cascades
        · rename_i cascades
          refine Collects.union (fun bad => ?_) fun edge => ?_
          · rw [cascades] at bad
            exact absurd bad.1 (by simp)
          rw [List.mem_map]
          constructor
          · rintro ⟨typed, -, held⟩
            exact ⟨edge.2, mem_of_holds held present, Prod.ext typed.symm rfl⟩
          · rintro ⟨id, among, rfl⟩
            exact ⟨rfl, cascades, ids, present, among⟩
        · rename_i retains
          refine Collects.nothing (by simp [retains]) ?_
          rintro edge ⟨-, cascades, -⟩
          rw [retains] at cascades
          cases cascades

/-- What a look at one stored edge contributes, for the ends without a map. -/
theorem collects_read (endpoint : EntityRef) (cascade : List (String × String)) {item : Item} {indexed : IndexedEdge}
    (value : view.registry.getValue registration.edgeType item.id = some item)
    (extracted : registration.indexedEdge item = .ok indexed) :
    Collects cascade
      (∃ position, view.schema.projectsEndpoint registration.edgeType position = false ∧
        registration.deletePolicy position = .restrictEndpointDelete ∧
          view.Touches registration position endpoint item.id)
      (fun edge => edge = (registration.edgeType, item.id) ∧
        ∃ position, view.schema.projectsEndpoint registration.edgeType position = false ∧
          registration.deletePolicy position = .cascadeEdge ∧
            view.Touches registration position endpoint item.id)
      (view.planScanned endpoint registration cascade item) := by
  have known := EdgeRegistration.storedEdges_eq_some.mpr ⟨item, value, extracted⟩
  have touches : ∀ position, view.Touches registration position endpoint item.id ↔
      (indexed.endpoints.at position).entity = endpoint := by
    intro position
    constructor
    · rintro ⟨edge, found, here⟩
      cases known.symm.trans found
      exact here
    · exact fun here => ⟨indexed, known, here⟩
  unfold GraphView.planScanned
  rw [extracted]
  have ends : ∀ position ∈ [EndPosition.a, .b], ∀ acc : List (String × String), Collects acc
      (view.schema.projectsEndpoint registration.edgeType position = false ∧
        registration.deletePolicy position = .restrictEndpointDelete ∧
          view.Touches registration position endpoint item.id)
      (fun edge => edge = (registration.edgeType, item.id) ∧
        view.schema.projectsEndpoint registration.edgeType position = false ∧
          registration.deletePolicy position = .cascadeEdge ∧
            view.Touches registration position endpoint item.id)
      (view.planScannedAt endpoint registration indexed acc position) := by
    intro position _ acc
    unfold GraphView.planScannedAt GraphView.needsScan
    rw [touches]
    by_cases here : (indexed.endpoints.at position).entity = endpoint
    · cases kept : view.schema.projectsEndpoint registration.edgeType position with
      | true => exact Collects.nothing (by simp) (by simp)
      | false =>
        cases policy : registration.deletePolicy position with
        | retainDangling => exact Collects.nothing (by simp) (by simp)
        | restrictEndpointDelete =>
          rw [if_neg (by simp [here])]
          exact Collects.error ⟨rfl, rfl, here⟩ _
        | cascadeEdge =>
          rw [if_neg (by simp [here])]
          refine Collects.union (fun bad => absurd bad.2.1 (by simp)) fun edge => ?_
          rw [List.mem_singleton, EdgeRegistration.indexedEdge_id extracted]
          exact ⟨And.left, fun same => ⟨same, rfl, rfl, here⟩⟩
    · rw [if_pos (.inr here)]
      exact Collects.nothing (fun touched => here touched.2.2) fun edge added => here added.2.2.2
  refine (Collects.foldlM ends cascade).congr ?_ fun edge => ?_
  · simp only [List.mem_cons, List.not_mem_nil, or_false, exists_eq_or_imp, exists_eq_left,
      EndPosition.exists_iff]
  · simp only [List.mem_cons, List.not_mem_nil, or_false, exists_eq_or_imp, exists_eq_left,
      EndPosition.exists_iff, and_or_left]

/-- A type that restricts or cascades at no end without a map is not looked up. -/
theorem collects_unneeded (endpoint : EntityRef) (cascade : List (String × String))
    (unneeded : ¬(view.needsScan registration .a || view.needsScan registration .b) = true) :
    Collects cascade
      (∃ position, view.schema.projectsEndpoint registration.edgeType position = false ∧
        registration.deletePolicy position = .restrictEndpointDelete ∧
          ∃ id, view.Touches registration position endpoint id)
      (fun edge => edge.1 = registration.edgeType ∧ ∃ position,
        view.schema.projectsEndpoint registration.edgeType position = false ∧
          registration.deletePolicy position = .cascadeEdge ∧
            view.Touches registration position endpoint edge.2)
      (pure cascade : Except String _) := by
  have both : (view.schema.projectsEndpoint registration.edgeType .a = false →
        registration.deletePolicy .a = .retainDangling) ∧
      (view.schema.projectsEndpoint registration.edgeType .b = false →
        registration.deletePolicy .b = .retainDangling) := by
    simpa [GraphView.needsScan] using unneeded
  have retained : ∀ position, view.schema.projectsEndpoint registration.edgeType position = false →
      registration.deletePolicy position = .retainDangling := by
    intro position
    cases position with
    | a => exact both.1
    | b => exact both.2
  refine Collects.nothing ?_ ?_
  · rintro ⟨position, unkept, policy, -⟩
    rw [retained position unkept] at policy
    cases policy
  · rintro edge ⟨-, position, unkept, policy, -⟩
    rw [retained position unkept] at policy
    cases policy

theorem touched_listed {position : EndPosition} {endpoint : EntityRef} {id : String}
    (touches : view.Touches registration position endpoint id) :
    ∃ item ∈ view.registry.snapshot registration.edgeType, item.id = id := by
  obtain ⟨edge, stored, -⟩ := touches
  obtain ⟨item, value, -⟩ := EdgeRegistration.value_of_stored stored
  exact ⟨item, StoreRegistry.snapshot_of_getValue value, (StoreRegistry.getValue_keyed value).2⟩

end

section
variable {view : GraphView} {registration : EdgeRegistration}
  (coherent : view.state.Coherent view.schema view.registry) (registered : registration ∈ view.schema.registrations)
include coherent registered

/-- The entity-level map lists the edges that touch the entity. -/
theorem lists_iff {position : EndPosition} {endpoint : EntityRef} {id : String}
    (kept : view.schema.projectsEndpoint registration.edgeType position = true) :
    view.Lists registration position endpoint id ↔ view.Touches registration position endpoint id := by
  have incident := (coherent.indexes registration registered).incident
  cases position with
  | a =>
    refine (incident (.aEntity endpoint) id).trans ⟨?_, ?_⟩
    · rintro ⟨edge, stored, here, -⟩
      exact ⟨edge, stored, here.symm⟩
    · rintro ⟨edge, stored, rfl⟩
      exact ⟨edge, stored, rfl, kept⟩
  | b =>
    refine (incident (.bEntity endpoint) id).trans ⟨?_, ?_⟩
    · rintro ⟨edge, stored, here, -⟩
      exact ⟨edge, stored, here.symm⟩
    · rintro ⟨edge, stored, rfl⟩
      exact ⟨edge, stored, rfl, kept⟩

/-- What the maps of one end contribute. -/
theorem collects_planIndexed (endpoint : EntityRef) (cascade : List (String × String)) (position : EndPosition) :
    Collects cascade
      (view.schema.projectsEndpoint registration.edgeType position = true ∧
        registration.deletePolicy position = .restrictEndpointDelete ∧
          ∃ id, view.Touches registration position endpoint id)
      (fun edge => edge.1 = registration.edgeType ∧
        view.schema.projectsEndpoint registration.edgeType position = true ∧
          registration.deletePolicy position = .cascadeEdge ∧
            view.Touches registration position endpoint edge.2)
      (view.planIndexed endpoint registration cascade position) := by
  refine (collects_listed endpoint cascade position).congr ?_ fun edge => ?_
  · exact and_congr_right fun kept => and_congr_right fun _ =>
      exists_congr fun id => lists_iff coherent registered kept
  · exact and_congr_right fun _ => and_congr_right fun kept => and_congr_right fun _ =>
      lists_iff coherent registered kept

theorem read_of_listed {item : Item} (listed : item ∈ view.registry.snapshot registration.edgeType) :
    view.registry.getValue registration.edgeType item.id = some item ∧
      ∃ indexed, registration.indexedEdge item = .ok indexed := by
  obtain ⟨typed, stored⟩ := StoreRegistry.mem_snapshot.mp listed
  have value : view.registry.getValue registration.edgeType item.id = some item := typed ▸ stored
  have extracts := coherent.extracts registration registered item.id
  rw [value] at extracts
  exact ⟨value, extracts item rfl⟩

end

theorem keys_lookedUp {registry : StoreRegistry} {named : List (String × String)}
    (stored : ∀ edge ∈ named, ∃ item, registry.getValue edge.1 edge.2 = some item) :
    (named.filterMap fun edge => registry.getValue edge.1 edge.2).map
      (fun item => (item.entityType, item.id)) = named := by
  induction named with
  | nil => rfl
  | cons edge rest ih =>
    obtain ⟨item, value⟩ := stored edge List.mem_cons_self
    obtain ⟨typed, same⟩ := StoreRegistry.getValue_keyed value
    simp only [List.filterMap_cons, value]
    rw [List.map_cons,
      ih fun other listed => stored other (List.mem_cons_of_mem edge listed), typed, same]

section
variable {view : GraphView} (coherent : view.state.Coherent view.schema view.registry)
include coherent

/-- What is collected before the stored edges are looked up. -/
theorem collects_endpoints (endpoint : EntityRef) (indexed : List (String × String)) :
    Collects indexed
      (∃ registration ∈ view.schema.registrations, ∃ position,
        view.schema.projectsEndpoint registration.edgeType position = false ∧
          registration.deletePolicy position = .restrictEndpointDelete ∧
            ∃ id, view.Touches registration position endpoint id)
      (fun edge => ∃ registration ∈ view.schema.registrations, edge.1 = registration.edgeType ∧ ∃ position,
        view.schema.projectsEndpoint registration.edgeType position = false ∧
          registration.deletePolicy position = .cascadeEdge ∧
            view.Touches registration position endpoint edge.2)
      (view.schema.registrations.foldlM (fun cascade registration =>
        if view.needsScan registration .a || view.needsScan registration .b then
          (view.registry.snapshot registration.edgeType).foldlM
            (view.planScanned endpoint registration) cascade
        else pure cascade) indexed) := by
  refine Collects.foldlM (fun registration registered acc => ?_) indexed
  split
  · have read : ∀ item ∈ view.registry.snapshot registration.edgeType, _ := fun _ listed => read_of_listed coherent registered listed
    refine (Collects.foldlM (fun item listed acc =>
      collects_read endpoint acc (read item listed).1 (read item listed).2.choose_spec) acc).congr ?_ fun edge => ?_
    · constructor
      · rintro ⟨item, listed, position, unkept, policy, touches⟩
        exact ⟨position, unkept, policy, item.id, touches⟩
      · rintro ⟨position, unkept, policy, id, touches⟩
        obtain ⟨item, listed, rfl⟩ := touched_listed touches
        exact ⟨item, listed, position, unkept, policy, touches⟩
    · constructor
      · rintro ⟨item, listed, rfl, position, unkept, policy, touches⟩
        exact ⟨rfl, position, unkept, policy, touches⟩
      · rintro ⟨typed, position, unkept, policy, touches⟩
        obtain ⟨item, listed, same⟩ := touched_listed touches
        refine ⟨item, listed, Prod.ext typed same.symm, position, unkept, policy, ?_⟩
        rwa [same]
  · rename_i unneeded
    exact collects_unneeded endpoint acc unneeded

/-- The edges named by the plan, and when there is none. -/
theorem endpointDeletePlan_spec (endpoint : EntityRef) : ∃ named : Except String (List (String × String)),
    view.endpointDeletePlan endpoint =
        (named.map fun cascade => cascade.filterMap fun edge => view.registry.getValue edge.1 edge.2) ∧
      Collects [] (view.Restricted endpoint) (fun edge => view.Follows endpoint edge.1 edge.2) named := by
  have maps : Collects ([] : List (String × String))
      (∃ registration ∈ view.schema.registrations, ∃ position ∈ [EndPosition.b, .a],
        view.schema.projectsEndpoint registration.edgeType position = true ∧
          registration.deletePolicy position = .restrictEndpointDelete ∧
            ∃ id, view.Touches registration position endpoint id)
      (fun edge => ∃ registration ∈ view.schema.registrations, ∃ position ∈ [EndPosition.b, .a],
        edge.1 = registration.edgeType ∧
          view.schema.projectsEndpoint registration.edgeType position = true ∧
            registration.deletePolicy position = .cascadeEdge ∧
              view.Touches registration position endpoint edge.2)
      (view.schema.registrations.foldlM (fun cascade registration =>
        [EndPosition.b, .a].foldlM (view.planIndexed endpoint registration) cascade) []) :=
    Collects.foldlM (fun registration registered acc => Collects.foldlM (fun position _ acc =>
      collects_planIndexed coherent registered endpoint acc position) acc) []
  have either : ∀ position : EndPosition, position ∈ [EndPosition.b, .a] := fun position => by cases position <;> simp
  refine ⟨_, ?_, (maps.bind fun indexed _ => collects_endpoints coherent endpoint indexed).congr ?_ fun edge => ?_⟩
  · have shape : ∀ (first : Except String (List (String × String)))
        (next : List (String × String) → Except String (List (String × String)))
        (lookUp : List (String × String) → List Item),
        (first >>= fun indexed => next indexed >>= fun cascade => pure (lookUp cascade)) =
          (first >>= next).map lookUp := by
      intro first next lookUp
      cases first with
      | error _ => rfl
      | ok indexed =>
        change (next indexed >>= _) = (next indexed).map lookUp
        cases next indexed <;> rfl
    exact shape _ _ _
  · constructor
    · rintro (⟨registration, registered, position, -, -, policy, id, touches⟩ |
        ⟨registration, registered, position, -, policy, id, touches⟩)
      · exact ⟨registration, registered, position, id, policy, touches⟩
      · exact ⟨registration, registered, position, id, policy, touches⟩
    · rintro ⟨registration, registered, position, id, policy, touches⟩
      cases kept : view.schema.projectsEndpoint registration.edgeType position with
      | true => exact .inl ⟨registration, registered, position, either position, kept, policy, id, touches⟩
      | false => exact .inr ⟨registration, registered, position, kept, policy, id, touches⟩
  · constructor
    · rintro (⟨registration, registered, position, -, typed, -, policy, touches⟩ |
        ⟨registration, registered, typed, position, -, policy, touches⟩)
      · exact ⟨registration, registered, typed.symm, position, policy, touches⟩
      · exact ⟨registration, registered, typed.symm, position, policy, touches⟩
    · rintro ⟨registration, registered, typed, position, policy, touches⟩
      cases kept : view.schema.projectsEndpoint registration.edgeType position with
      | true => exact .inl ⟨registration, registered, position, either position, typed.symm, kept, policy, touches⟩
      | false => exact .inr ⟨registration, registered, typed.symm, position, kept, policy, touches⟩

theorem endpointDeletePlan_iff (endpoint : EntityRef) :
    ((∃ error, view.endpointDeletePlan endpoint = .error error) ↔ view.Restricted endpoint) ∧
      ∀ cascades, view.endpointDeletePlan endpoint = .ok cascades →
        (cascades.map fun item => (item.entityType, item.id)).Nodup ∧
          (∀ item ∈ cascades, view.registry.getValue item.entityType item.id = some item) ∧
          ∀ edgeType id, (edgeType, id) ∈ cascades.map (fun item => (item.entityType, item.id)) ↔
            view.Follows endpoint edgeType id := by
  obtain ⟨named, plan, collects⟩ := endpointDeletePlan_spec coherent endpoint
  rw [plan]
  refine ⟨?_, fun cascades planned => ?_⟩
  · rw [← collects.error_iff]
    cases named with
    | error e => exact ⟨fun _ => ⟨e, rfl⟩, fun _ => ⟨e, rfl⟩⟩
    | ok named => exact ⟨fun failed => (by obtain ⟨_, failed⟩ := failed; cases failed), fun failed => by
        obtain ⟨_, failed⟩ := failed
        cases failed⟩
  · cases named with
    | error e => cases planned
    | ok named =>
      cases planned
      obtain ⟨-, nodup, members⟩ := collects.2 named rfl
      have stored : ∀ edge ∈ named, ∃ item, view.registry.getValue edge.1 edge.2 = some item := by
        intro edge among
        obtain ⟨registration, -, typed, position, -, found, stored, -⟩ :=
          ((members edge).mp among).resolve_left (by simp)
        obtain ⟨item, value, -⟩ := EdgeRegistration.value_of_stored stored
        rw [typed] at value
        exact ⟨item, value⟩
      rw [keys_lookedUp stored]
      refine ⟨nodup List.nodup_nil, fun item among => ?_, fun edgeType id => ?_⟩
      · obtain ⟨edge, -, value⟩ := List.mem_filterMap.mp among
        obtain ⟨typed, same⟩ := StoreRegistry.getValue_keyed value
        rw [typed, same]
        exact value
      · exact (members (edgeType, id)).trans (or_iff_right (by simp))

end

theorem restricted_congr {view other : GraphView} (registry : other.registry = view.registry)
    (types : view.schema.SameTypes other.schema) (endpoint : EntityRef) :
    (view.Restricted endpoint → other.Restricted endpoint) ∧
      ∀ edgeType id, view.Follows endpoint edgeType id → other.Follows endpoint edgeType id := by
  have touches : ∀ {registration same : EdgeRegistration}, same.bare = registration.bare →
      ∀ position id, view.Touches registration position endpoint id → other.Touches same position endpoint id := by
    rintro registration same bare position id ⟨edge, found, here⟩
    refine ⟨edge, ?_, here⟩
    have bares : same.bare.storedEdges other.registry id = registration.bare.storedEdges view.registry id := by
      rw [bare, registry]
    exact bares.trans found
  have policies : ∀ {registration same : EdgeRegistration}, same.bare = registration.bare →
      ∀ position, same.deletePolicy position = registration.deletePolicy position := by
    intro registration same bare position
    have equal : same.bare.deletePolicy position = registration.bare.deletePolicy position := by rw [bare]
    exact equal
  constructor
  · rintro ⟨registration, registered, position, id, policy, touching⟩
    obtain ⟨same, among, bare⟩ := types.bare registered
    exact ⟨same, among, position, id, (policies bare position).trans policy, touches bare position id touching⟩
  · rintro edgeType id ⟨registration, registered, rfl, position, policy, touching⟩
    obtain ⟨same, among, bare⟩ := types.bare registered
    have typed : same.bare.edgeType = registration.bare.edgeType := by rw [bare]
    exact ⟨same, among, typed, position, (policies bare position).trans policy, touches bare position id touching⟩

/-- Deleting an entity is refused exactly when a stored edge restricts it; otherwise the plan names each edge
that goes with it once. What endpoints are kept makes no difference. -/
theorem delete_plan_exact {view : GraphView} (coherent : view.state.Coherent view.schema view.registry)
    (endpoint : EntityRef) :
    ((∃ error, view.endpointDeletePlan endpoint = .error error) ↔ view.Restricted endpoint) ∧
      (∀ cascades, view.endpointDeletePlan endpoint = .ok cascades →
        (cascades.map fun item => (item.entityType, item.id)).Nodup ∧
          (∀ item ∈ cascades, view.registry.getValue item.entityType item.id = some item) ∧
          ∀ edgeType id, (edgeType, id) ∈ cascades.map (fun item => (item.entityType, item.id)) ↔
            view.Follows endpoint edgeType id) ∧
      ∀ other : GraphView, other.state.Coherent other.schema other.registry → other.registry = view.registry →
        view.schema.SameTypes other.schema →
          ((∃ error, view.endpointDeletePlan endpoint = .error error) ↔
              ∃ error, other.endpointDeletePlan endpoint = .error error) ∧
            ∀ cascades cascades', view.endpointDeletePlan endpoint = .ok cascades →
              other.endpointDeletePlan endpoint = .ok cascades' → cascades.Perm cascades' := by
  obtain ⟨refused, planned⟩ := endpointDeletePlan_iff coherent endpoint
  refine ⟨refused, planned, fun other coherent' registry types => ?_⟩
  obtain ⟨refused', planned'⟩ := endpointDeletePlan_iff coherent' endpoint
  have onward := restricted_congr registry types endpoint
  have back := restricted_congr registry.symm (Eq.symm types) endpoint
  refine ⟨refused.trans (Iff.trans ⟨onward.1, back.1⟩ refused'.symm), fun cascades cascades' plan plan' => ?_⟩
  obtain ⟨nodup, stored, members⟩ := planned cascades plan
  obtain ⟨nodup', stored', members'⟩ := planned' cascades' plan'
  refine (List.perm_ext_iff_of_nodup nodup.of_map nodup'.of_map).mpr fun item => ?_
  have looked : ∀ {items : List Item} {registry : StoreRegistry}, registry = view.registry →
      (∀ item ∈ items, registry.getValue item.entityType item.id = some item) → ∀ item,
      item ∈ items ↔ (item.entityType, item.id) ∈ items.map (fun item => (item.entityType, item.id)) ∧
        view.registry.getValue item.entityType item.id = some item := by
    rintro items registry rfl stored item
    refine ⟨fun among => ⟨List.mem_map_of_mem among, stored item among⟩, fun named => ?_⟩
    obtain ⟨⟨twin, among, same⟩, value⟩ := named.imp_left List.mem_map.mp
    obtain ⟨typed, twinId⟩ := Prod.mk.inj same
    have twinStored := stored twin among
    rw [typed, twinId, value] at twinStored
    rw [Option.some.inj twinStored]
    exact among
  rw [looked rfl stored, looked registry stored', members, members']
  exact and_congr_left fun _ => ⟨onward.2 _ _, back.2 _ _⟩

namespace GraphSample

/-- The node that a tie starts from takes it along, with or without a map of the ends. -/
theorem delete_plan_of_x : ∃ cascades cascades',
    (view .eager .eager).endpointDeletePlan ⟨"node", "x"⟩ = .ok cascades ∧
      (view .demandDriven .eager).endpointDeletePlan ⟨"node", "x"⟩ = .ok cascades' ∧ cascades.Perm cascades' := by
  obtain ⟨-, -, layouts⟩ := delete_plan_exact (coherent .eager .eager) ⟨"node", "x"⟩
  obtain ⟨-, same⟩ := layouts (view .demandDriven .eager) (coherent .demandDriven .eager) rfl rfl
  exact ⟨_, _, rfl, rfl, same _ _ rfl rfl⟩

end GraphSample
end Myko

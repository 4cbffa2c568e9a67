import Myko.Graph.DeletePlan

/-!
The plan for deleting an entity, over an index that lists every stored edge and maybe more: what holds the
entity back still refuses its deletion, and what is to go with it is still planned.
-/

namespace Myko

section
variable {view : GraphView} {registration : EdgeRegistration}

/-- The entity-level map lists an edge that touches the entity. -/
theorem lists_of_touches (covering : view.state.Covering view.schema view.registry)
    (registered : registration ∈ view.schema.registrations) {position : EndPosition} {endpoint : EntityRef}
    {id : String} (kept : view.schema.projectsEndpoint registration.edgeType position = true)
    (touches : view.Touches registration position endpoint id) : view.Lists registration position endpoint id := by
  obtain ⟨edge, stored, rfl⟩ := touches
  have covers := (covering registration registered).covers
  cases position with
  | a =>
    refine covers (.aEntity edge.endpoints.a.entity) id ?_
    dsimp only
    rw [stored, IndexedEdge.mem_keySet_some]
    exact ⟨rfl, kept⟩
  | b =>
    refine covers (.bEntity edge.endpoints.b.entity) id ?_
    dsimp only
    rw [stored, IndexedEdge.mem_keySet_some]
    exact ⟨rfl, kept⟩

/-- What the maps of one end contribute at the least. -/
theorem gathers_planIndexed (covering : view.state.Covering view.schema view.registry)
    (registered : registration ∈ view.schema.registrations) (endpoint : EntityRef)
    (cascade : List (String × String)) (position : EndPosition) :
    Gathers cascade
      (view.schema.projectsEndpoint registration.edgeType position = true ∧
        registration.deletePolicy position = .restrictEndpointDelete ∧
          ∃ id, view.Touches registration position endpoint id)
      (fun edge => edge.1 = registration.edgeType ∧
        view.schema.projectsEndpoint registration.edgeType position = true ∧
          registration.deletePolicy position = .cascadeEdge ∧
            view.Touches registration position endpoint edge.2)
      (view.planIndexed endpoint registration cascade position) := by
  refine Gathers.of_collects (collects_listed endpoint cascade position) ?_ fun edge => ?_
  · rintro ⟨kept, policy, id, touches⟩
    exact ⟨kept, policy, id, lists_of_touches covering registered kept touches⟩
  · rintro ⟨typed, kept, policy, touches⟩
    exact ⟨typed, kept, policy, lists_of_touches covering registered kept touches⟩

/-- What a look at one stored edge contributes at the least, for the ends without a map. -/
theorem gathers_planScanned (endpoint : EntityRef) (cascade : List (String × String)) {item : Item}
    (listed : item ∈ view.registry.snapshot registration.edgeType) :
    Gathers cascade
      (∃ position, view.schema.projectsEndpoint registration.edgeType position = false ∧
        registration.deletePolicy position = .restrictEndpointDelete ∧
          view.Touches registration position endpoint item.id)
      (fun edge => edge = (registration.edgeType, item.id) ∧
        ∃ position, view.schema.projectsEndpoint registration.edgeType position = false ∧
          registration.deletePolicy position = .cascadeEdge ∧
            view.Touches registration position endpoint item.id)
      (view.planScanned endpoint registration cascade item) := by
  obtain ⟨typed, stored⟩ := StoreRegistry.mem_snapshot.mp listed
  have value : view.registry.getValue registration.edgeType item.id = some item := typed ▸ stored
  cases extracted : registration.indexedEdge item with
  | ok indexed => exact Gathers.of_collects (collects_read endpoint cascade value extracted) id fun _ => id
  | error e =>
    unfold GraphView.planScanned
    rw [extracted]
    exact Gathers.error e

end

section
variable {view : GraphView}

/-- What is collected at least before the stored edges are looked up. -/
theorem gathers_endpoints (endpoint : EntityRef) (indexed : List (String × String)) :
    Gathers indexed
      (∃ registration ∈ view.schema.registrations, ∃ position,
        view.schema.projectsEndpoint registration.edgeType position = false ∧
          registration.deletePolicy position = .restrictEndpointDelete ∧
            ∃ id, view.Touches registration position endpoint id)
      (fun edge => ∃ registration ∈ view.schema.registrations, edge.1 = registration.edgeType ∧ ∃ position,
        view.schema.projectsEndpoint registration.edgeType position = false ∧
          registration.deletePolicy position = .cascadeEdge ∧
            view.Touches registration position endpoint edge.2)
      (view.schema.registrations.foldlM (fun cascade registration =>
        if view.needsScan registration .a || view.needsScan registration .b then
          (view.registry.snapshot registration.edgeType).foldlM
            (view.planScanned endpoint registration) cascade
        else pure cascade) indexed) := by
  refine Gathers.foldlM (fun registration registered acc => ?_) indexed
  split
  · refine (Gathers.foldlM (fun item listed acc => gathers_planScanned endpoint acc listed) acc).mono ?_ fun edge => ?_
    · rintro ⟨position, unkept, policy, id, touches⟩
      obtain ⟨item, listed, rfl⟩ := touched_listed touches
      exact ⟨item, listed, position, unkept, policy, touches⟩
    · rintro ⟨typed, position, unkept, policy, touches⟩
      obtain ⟨item, listed, same⟩ := touched_listed touches
      refine ⟨item, listed, Prod.ext typed same.symm, position, unkept, policy, ?_⟩
      rwa [same]
  · rename_i unneeded
    exact Gathers.of_collects (collects_unneeded endpoint acc unneeded) id fun _ => id

/-- A deletion that is planned is not held back, and the plan names every edge that is to follow. -/
theorem endpointDeletePlan_covers (covering : view.state.Covering view.schema view.registry) {endpoint : EntityRef}
    {cascades : List Item} (planned : view.endpointDeletePlan endpoint = .ok cascades) :
    ¬view.Restricted endpoint ∧ ∀ {edgeType id}, view.Follows endpoint edgeType id → ∀ {item},
      view.registry.getValue edgeType id = some item → item ∈ cascades := by
  have either : ∀ position : EndPosition, position ∈ [EndPosition.b, .a] := fun position => by cases position <;> simp
  unfold GraphView.endpointDeletePlan at planned
  obtain ⟨indexed, maps, planned⟩ := StateError.except_bind_ok planned
  obtain ⟨named, ends, planned⟩ := StateError.except_bind_ok planned
  cases planned
  have first := Gathers.foldlM (fun registration registered acc => Gathers.foldlM (fun position _ acc =>
      gathers_planIndexed covering registered endpoint acc position) acc) [] indexed maps
  have rest := gathers_endpoints endpoint indexed named ends
  constructor
  · rintro ⟨registration, registered, position, id, policy, touches⟩
    cases kept : view.schema.projectsEndpoint registration.edgeType position with
    | true => exact first.1 ⟨registration, registered, position, either position, kept, policy, id, touches⟩
    | false => exact rest.1 ⟨registration, registered, position, kept, policy, id, touches⟩
  · rintro edgeType id ⟨registration, registered, typed, position, policy, touches⟩ item value
    have listed : (edgeType, id) ∈ named := by
      cases kept : view.schema.projectsEndpoint registration.edgeType position with
      | true =>
        exact rest.2.1 (first.2.2 (edgeType, id)
          ⟨registration, registered, position, either position, typed.symm, kept, policy, touches⟩)
      | false => exact rest.2.2 (edgeType, id) ⟨registration, registered, typed.symm, position, kept, policy, touches⟩
    exact List.mem_filterMap.mpr ⟨(edgeType, id), listed, value⟩

end
end Myko

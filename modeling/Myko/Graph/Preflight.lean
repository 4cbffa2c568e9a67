import Myko.Graph.Coherence

/-!
The checks made on edges before they are written, and the work that deleting an endpoint asks for.
Both are decided from the stores and the index as they stand before the write.
-/

namespace Myko

/-- What the checks of the graph index read. -/
structure GraphView where
  schema : GraphSchema
  registry : StoreRegistry
  applyModes : String → Option EdgeApplyMode
  state : GraphState

def EndPosition.debug : EndPosition → String
  | .a => "A"
  | .b => "B"

namespace GraphView

def entityExists (view : GraphView) (entity : EntityRef) : Bool :=
  (view.registry.getValue entity.entityType entity.id).isSome

/-- An override holds for ordinary authoritative mutations only. -/
def effectiveApplyMode (view : GraphView) (edgeType : String) (requested : EdgeApplyMode) :
    EdgeApplyMode :=
  if requested ≠ .authoritative then requested else (view.applyModes edgeType).getD requested

def validateEndpoint (view : GraphView) (registration : EdgeRegistration)
    (endpoints : EdgeEndpoints) (position : EndPosition) : Except String Unit := do
  let entity := (endpoints.at position).entity
  if !view.schema.requirementAccepts (registration.endpoint position) entity.entityType then
    throw s!"{registration.edgeType} endpoint {position.debug} rejects entity type {entity.entityType}"
  if !view.entityExists entity then
    throw s!"{registration.edgeType} endpoint {position.debug} does not exist: {entity.entityType}:{entity.id}"

def validatePair (view : GraphView) (registration : EdgeRegistration) (candidate : Item)
    (endpoints : EdgeEndpoints) (ignored : List String) : Except String Unit := do
  let scope ← registration.extractScope candidate
  let key := registration.pairKey endpoints scope
  let occupant := ((view.state.edgeTypes registration.edgeType).pairs key).bind fun existing =>
    existing.conflictingIdIgnoring candidate.id ignored
  match occupant with
  | some existing => throw s!"{registration.edgeType} pair is already occupied by edge {existing}"
  | none => pure ()

def validate (view : GraphView) (registration : EdgeRegistration) (candidate : Item)
    (ignored : List String) : Except String Unit := do
  let endpoints ← registration.extract candidate
  view.validateEndpoint registration endpoints .a
  view.validateEndpoint registration endpoints .b
  if registration.selfLoops = .reject ∧ endpoints.a = endpoints.b then
    throw s!"{registration.edgeType} rejects self-loops"
  match registration.validate with
  | some validate => validate view.entityExists candidate
  | none => pure ()
  if registration.pairPolicy = .unique then
    view.validatePair registration candidate endpoints ignored

/-- Validate an edge mutation before canonical reduction. Only an authoritative one is rejected. -/
def preflightIgnoring (view : GraphView) (old new : Option Item) (mode : EdgeApplyMode)
    (ignored : List String) : Except String Unit :=
  match new.or old with
  | none => throw "graph mutation has no canonical item"
  | some item =>
    match view.schema.registration item.entityType, new with
    | some registration, some candidate =>
      match view.validate registration candidate ignored with
      | .ok () => pure ()
      | .error error =>
        if view.effectiveApplyMode registration.edgeType mode = .authoritative then throw error
        else pure ()
    | _, _ => pure ()

def preflight (view : GraphView) (old new : Option Item) (mode : EdgeApplyMode) :
    Except String Unit := view.preflightIgnoring old new mode []

/-- The reservations of unique pairs that conflict within one batch, given those made so far. -/
def reserve (view : GraphView) (mode : EdgeApplyMode) :
    List Item → (String × EdgePairKey → Option String) → Except String Unit
  | [], _ => pure ()
  | item :: rest, reservations =>
    match view.schema.registration item.entityType with
    | none => reserve view mode rest reservations
    | some registration =>
      if registration.pairPolicy ≠ .unique then reserve view mode rest reservations
      else do
        let endpoints ← registration.extract item
        let scope ← registration.extractScope item
        let key := (registration.edgeType, registration.pairKey endpoints scope)
        match reservations key with
        | some existing =>
          if existing ≠ item.id ∧
              view.effectiveApplyMode registration.edgeType mode = .authoritative then
            throw s!"{registration.edgeType} batch contains duplicate pair reservations {existing} and {item.id}"
        | none => pure ()
        reserve view mode rest (Function.update reservations key (some item.id))

def preflightBatch (view : GraphView) (items : List Item) (mode : EdgeApplyMode) :
    Except String Unit := view.reserve mode items fun _ => none

/-- The ids of one type that a replacement deletes. -/
def ignoredIds (deletes : List Item) (entityType : String) : List String :=
  (deletes.filter fun item => item.entityType = entityType).map Item.id

/-- Validate an atomic replacement against the final pair occupancy. -/
def preflightReplaceBatch (view : GraphView) (upserts deletes : List Item) (mode : EdgeApplyMode) :
    Except String Unit := do
  view.preflightBatch upserts mode
  upserts.forM fun item =>
    view.preflightIgnoring none (some item) mode (ignoredIds deletes item.entityType)

/-! ### Deleting an endpoint -/

def restrictError (endpoint : EntityRef) (edgeType id : String) (position : EndPosition) : String :=
  s!"cannot delete {endpoint.entityType}:{endpoint.id}; {edgeType} edge {id} is incident at {position.debug}"

/-- The edges one registration finds incident by its entity-level index. -/
def planIndexed (view : GraphView) (endpoint : EntityRef) (registration : EdgeRegistration)
    (cascade : List (String × String)) (position : EndPosition) :
    Except String (List (String × String)) :=
  let edges := view.state.edgeTypes registration.edgeType
  let ids := match position with
    | .a => edges.aEntities endpoint
    | .b => edges.bEntities endpoint
  if !view.schema.projectsEndpoint registration.edgeType position then pure cascade
  else
    match ids with
    | none => pure cascade
    | some ids =>
      match registration.deletePolicy position with
      | .restrictEndpointDelete =>
        match ids.first with
        | some id => throw (restrictError endpoint registration.edgeType id position)
        | none => pure cascade
      | .cascadeEdge => pure (ids.ids.map (Prod.mk registration.edgeType) ∪ cascade)
      | .retainDangling => pure cascade

/-- Whether one end of an edge type has to be scanned for. -/
def needsScan (view : GraphView) (registration : EdgeRegistration) (position : EndPosition) : Bool :=
  !view.schema.projectsEndpoint registration.edgeType position &&
    registration.deletePolicy position ≠ .retainDangling

def planScannedAt (view : GraphView) (endpoint : EntityRef) (registration : EdgeRegistration)
    (indexed : IndexedEdge) (cascade : List (String × String)) (position : EndPosition) :
    Except String (List (String × String)) :=
  if !view.needsScan registration position ∨ (indexed.endpoints.at position).entity ≠ endpoint then
    pure cascade
  else
    match registration.deletePolicy position with
    | .restrictEndpointDelete =>
      throw (restrictError endpoint registration.edgeType indexed.id position)
    | .cascadeEdge => pure ([(registration.edgeType, indexed.id)] ∪ cascade)
    | .retainDangling => pure cascade

def planScanned (view : GraphView) (endpoint : EntityRef) (registration : EdgeRegistration)
    (cascade : List (String × String)) (item : Item) : Except String (List (String × String)) := do
  let indexed ← registration.indexedEdge item
  [EndPosition.a, .b].foldlM (view.planScannedAt endpoint registration indexed) cascade

/-- Enforce restrict and cascade policies for the deletion of an entity: the edges to delete with it. -/
def endpointDeletePlan (view : GraphView) (endpoint : EntityRef) : Except String (List Item) := do
  let indexed ← view.schema.registrations.foldlM (fun cascade registration =>
    [EndPosition.b, .a].foldlM (view.planIndexed endpoint registration) cascade) []
  let cascade ← view.schema.registrations.foldlM (fun cascade registration =>
    if view.needsScan registration .a || view.needsScan registration .b then
      (view.registry.snapshot registration.edgeType).foldlM
        (view.planScanned endpoint registration) cascade
    else pure cascade) indexed
  return cascade.filterMap fun edge => view.registry.getValue edge.1 edge.2

end GraphView

/-! ### What the checks establish -/

theorem EdgeIds.conflictingIdIgnoring_none {self : EdgeIds} {candidate : String}
    {ignored : List String} : self.conflictingIdIgnoring candidate ignored = none ↔
      ∀ id ∈ self, id = candidate ∨ id ∈ ignored := by
  cases self with
  | one existing =>
    simp only [mem_one, forall_eq, conflictingIdIgnoring]
    split
    · rename_i apart
      simp [apart.1, apart.2]
    · rename_i known
      simpa [or_iff_not_imp_left] using known
  | many ids =>
    simp only [conflictingIdIgnoring, List.find?_eq_none, OrdSet.mem_toList, mem_many]
    simp [or_iff_not_imp_left]

namespace GraphView

/-- What validation establishes of an edge that is to be written. -/
structure Validated (view : GraphView) (registration : EdgeRegistration) (candidate : Item)
    (ignored : List String) (endpoints : EdgeEndpoints) : Prop where
  extracts : registration.extract candidate = .ok endpoints
  accepts : ∀ position, view.schema.requirementAccepts (registration.endpoint position)
    (endpoints.at position).entity.entityType = true
  present : ∀ position, view.entityExists (endpoints.at position).entity = true
  vacant : registration.pairPolicy = .unique → ∀ scope, registration.extractScope candidate = .ok scope →
    ∀ id, Holds (view.state.edgeTypes registration.edgeType).pairs (registration.pairKey endpoints scope) id →
      id = candidate.id ∨ id ∈ ignored

variable {view : GraphView} {registration : EdgeRegistration} {candidate : Item} {ignored : List String}
  {endpoints : EdgeEndpoints}

theorem validateEndpoint_ok {position : EndPosition} :
    view.validateEndpoint registration endpoints position = .ok () ↔
      view.schema.requirementAccepts (registration.endpoint position)
          (endpoints.at position).entity.entityType = true ∧
        view.entityExists (endpoints.at position).entity = true := by
  unfold validateEndpoint
  dsimp only
  cases view.schema.requirementAccepts (registration.endpoint position)
      (endpoints.at position).entity.entityType with
  | false => exact ⟨fun h => (by cases h), fun h => (by simp at h)⟩
  | true =>
    cases view.entityExists (endpoints.at position).entity with
    | false => exact ⟨fun h => (by cases h), fun h => (by simp at h)⟩
    | true => exact ⟨fun _ => ⟨rfl, rfl⟩, fun _ => rfl⟩

theorem validatePair_ok : view.validatePair registration candidate endpoints ignored = .ok () ↔
    ∃ scope, registration.extractScope candidate = .ok scope ∧
      ∀ id, Holds (view.state.edgeTypes registration.edgeType).pairs
        (registration.pairKey endpoints scope) id → id = candidate.id ∨ id ∈ ignored := by
  unfold validatePair
  cases registration.extractScope candidate with
  | error error =>
    refine ⟨fun h => (by cases h), fun found => ?_⟩
    obtain ⟨_, h, _⟩ := found
    cases h
  | ok scope =>
    simp only [Except.ok.injEq, exists_eq_left', Holds, Bind.bind, Except.bind]
    cases (view.state.edgeTypes registration.edgeType).pairs (registration.pairKey endpoints scope) with
    | none =>
      refine ⟨fun _ id held => ?_, fun _ => rfl⟩
      obtain ⟨_, absent, _⟩ := held
      cases absent
    | some ids =>
      have known := @EdgeIds.conflictingIdIgnoring_none ids candidate.id ignored
      simp only [Option.bind_some, Option.some.injEq, exists_eq_left']
      rw [← known]
      cases ids.conflictingIdIgnoring candidate.id ignored with
      | none => exact ⟨fun _ => rfl, fun _ => rfl⟩
      | some existing => exact ⟨fun h => (by cases h), fun h => by cases h⟩

theorem validate_iff : view.validate registration candidate ignored = .ok () ↔
    ∃ endpoints, registration.extract candidate = .ok endpoints ∧
      (∀ position, view.validateEndpoint registration endpoints position = .ok ()) ∧
      ¬(registration.selfLoops = .reject ∧ endpoints.a = endpoints.b) ∧
      (∀ validate, registration.validate = some validate →
        validate view.entityExists candidate = .ok ()) ∧
      (registration.pairPolicy = .unique →
        view.validatePair registration candidate endpoints ignored = .ok ()) := by
  unfold validate
  constructor
  · intro h
    obtain ⟨endpoints, extracts, h⟩ := StateError.except_bind_ok h
    obtain ⟨_, a, h⟩ := StateError.except_bind_ok h
    obtain ⟨_, b, h⟩ := StateError.except_bind_ok h
    have ends : ∀ position, view.validateEndpoint registration endpoints position = .ok () := by
      intro position
      cases position with
      | a => exact a
      | b => exact b
    refine ⟨endpoints, extracts, ends, ?_⟩
    by_cases loop : registration.selfLoops = .reject ∧ endpoints.a = endpoints.b
    · simp only [if_pos loop] at h
      cases h
    simp only [if_neg loop] at h
    refine ⟨loop, ?_⟩
    split at h
    · rename_i validate declared
      obtain ⟨_, accepted, h⟩ := StateError.except_bind_ok h
      refine ⟨fun other same => ?_, fun unique => by rwa [if_pos unique] at h⟩
      obtain rfl : validate = other := Option.some.inj (declared.symm.trans same)
      exact accepted
    · rename_i undeclared
      refine ⟨fun other same => ?_, fun unique => by rwa [if_pos unique] at h⟩
      rw [undeclared] at same
      cases same
  · rintro ⟨endpoints, extracts, ends, loop, accepted, pair⟩
    rw [extracts]
    change (view.validateEndpoint registration endpoints .a >>= fun _ => _) = _
    rw [ends .a]
    change (view.validateEndpoint registration endpoints .b >>= fun _ => _) = _
    rw [ends .b]
    change (if registration.selfLoops = .reject ∧ endpoints.a = endpoints.b then _ else _) = _
    rw [if_neg loop]
    have last : (if registration.pairPolicy = .unique then
        view.validatePair registration candidate endpoints ignored else pure ()) = .ok () := by
      split
      · exact pair ‹_›
      · rfl
    cases declared : registration.validate with
    | none => exact last
    | some validate =>
      change (validate view.entityExists candidate >>= fun _ => _) = _
      rw [accepted validate declared]
      exact last

theorem validate_ok (h : view.validate registration candidate ignored = .ok ()) :
    ∃ endpoints, view.Validated registration candidate ignored endpoints := by
  obtain ⟨endpoints, extracts, ends, -, -, pair⟩ := validate_iff.mp h
  refine ⟨endpoints, extracts, fun position => (validateEndpoint_ok.mp (ends position)).1,
    fun position => (validateEndpoint_ok.mp (ends position)).2, fun unique scope inScope id held => ?_⟩
  obtain ⟨found, extracted, vacant⟩ := validatePair_ok.mp (pair unique)
  obtain rfl : found = scope := Except.ok.inj (extracted.symm.trans inScope)
  exact vacant id held

/-- An authoritative write of an edge is planned only if it validates. -/
theorem validate_of_preflight {old : Option Item} {mode : EdgeApplyMode}
    (registered : view.schema.registration candidate.entityType = some registration)
    (authoritative : view.effectiveApplyMode registration.edgeType mode = .authoritative)
    (h : view.preflightIgnoring old (some candidate) mode ignored = .ok ()) :
    view.validate registration candidate ignored = .ok () := by
  unfold preflightIgnoring at h
  simp only [Option.some_or, registered] at h
  cases checked : view.validate registration candidate ignored with
  | ok _ => rfl
  | error error =>
    rw [checked] at h
    simp only [authoritative, ↓reduceIte] at h
    cases h

theorem preflightIgnoring_ok {old : Option Item} {mode : EdgeApplyMode}
    (registered : view.schema.registration candidate.entityType = some registration)
    (authoritative : view.effectiveApplyMode registration.edgeType mode = .authoritative)
    (h : view.preflightIgnoring old (some candidate) mode ignored = .ok ()) :
    ∃ endpoints, view.Validated registration candidate ignored endpoints :=
  validate_ok (validate_of_preflight registered authoritative h)

/-- What validates has both endpoints and, where pairs are unique, a scope or none to compare. -/
theorem indexed_of_validate (h : view.validate registration candidate ignored = .ok ())
    (unique : registration.pairPolicy = .unique) : ∃ edge, registration.indexedEdge candidate = .ok edge := by
  obtain ⟨endpoints, extracts, -, -, -, pair⟩ := validate_iff.mp h
  obtain ⟨scope, inScope, -⟩ := validatePair_ok.mp (pair unique)
  exact ⟨⟨candidate.id, endpoints, scope⟩, by unfold EdgeRegistration.indexedEdge; rw [extracts, inScope]; rfl⟩

/-- Two edges of one batch do not reserve one pair, and none takes a pair reserved before. -/
theorem reserve_ok {mode : EdgeApplyMode} {items : List Item}
    {reservations : String × EdgePairKey → Option String}
    (h : view.reserve mode items reservations = .ok ())
    (unique : registration.pairPolicy = .unique)
    (registered : view.schema.registration registration.edgeType = some registration)
    (authoritative : view.effectiveApplyMode registration.edgeType mode = .authoritative) :
    ∀ key : EdgePairKey,
      let takes := fun item : Item => item.entityType = registration.edgeType ∧
        ∃ edge, registration.indexedEdge item = .ok edge ∧ registration.pairKey edge.endpoints edge.scope = key
      (∀ item ∈ items, takes item → ∀ id, reservations (registration.edgeType, key) = some id →
        id = item.id) ∧
      ∀ item ∈ items, ∀ other ∈ items, takes item → takes other → item.id = other.id := by
  intro key takes
  induction items generalizing reservations with
  | nil => exact ⟨fun _ member => absurd member (by simp), fun _ member => absurd member (by simp)⟩
  | cons first rest ih =>
    rw [reserve] at h
    -- a first item that does not take the pair leaves its reservation as it is
    have skip : ¬takes first → ∀ {later : String × EdgePairKey → Option String},
        later (registration.edgeType, key) = reservations (registration.edgeType, key) →
        view.reserve mode rest later = .ok () →
        (∀ item ∈ first :: rest, takes item → ∀ id,
          reservations (registration.edgeType, key) = some id → id = item.id) ∧
        ∀ item ∈ first :: rest, ∀ other ∈ first :: rest, takes item → takes other →
          item.id = other.id := by
      intro apart later same run
      obtain ⟨reserved, pairs⟩ := ih run
      have within : ∀ item ∈ first :: rest, takes item → item ∈ rest := by
        intro item member takes_
        rcases List.mem_cons.mp member with rfl | member
        · exact absurd takes_ apart
        · exact member
      refine ⟨fun item member takes_ id held => ?_, fun item member other member' takes_ takes' => ?_⟩
      · exact reserved item (within item member takes_) takes_ id (same.trans held)
      · exact pairs item (within item member takes_) other (within other member' takes') takes_ takes'
    cases found : view.schema.registration first.entityType with
    | none =>
      rw [found] at h
      refine skip (fun takes_ => ?_) rfl h
      rw [takes_.1, registered] at found
      cases found
    | some entry =>
      rw [found] at h
      dsimp only at h
      have sameType := (GraphSchema.registration_mem found).2
      split at h
      · rename_i parallel
        refine skip (fun takes_ => parallel ?_) rfl h
        rw [takes_.1, registered] at found
        cases found
        exact unique
      · obtain ⟨endpoints, extracted, h⟩ := StateError.except_bind_ok h
        obtain ⟨scope, inScope, h⟩ := StateError.except_bind_ok h
        by_cases here : entry.edgeType = registration.edgeType ∧ entry.pairKey endpoints scope = key
        · obtain ⟨typed, rfl⟩ := here
          obtain rfl : registration = entry := by
            rw [← sameType, typed, registered] at found
            exact Option.some.inj found
          have checked : (∀ id, reservations (registration.edgeType, registration.pairKey endpoints scope) =
              some id → id = first.id) ∧
              view.reserve mode rest (Function.update reservations
                (registration.edgeType, registration.pairKey endpoints scope) (some first.id)) = .ok () := by
            cases reserved : reservations (registration.edgeType, registration.pairKey endpoints scope) with
            | none =>
              rw [reserved] at h
              exact ⟨fun _ absent => absurd absent (by simp), h⟩
            | some existing =>
              rw [reserved] at h
              dsimp only at h
              split at h
              · cases h
              · rename_i agree
                have same : existing = first.id := by
                  by_contra different
                  exact agree ⟨different, authoritative⟩
                exact ⟨fun id held => (Option.some.inj held).symm.trans same, h⟩
          obtain ⟨agree, run⟩ := checked
          obtain ⟨reserved, pairs⟩ := ih run
          have next : ∀ item ∈ rest, takes item → first.id = item.id := fun item member takes_ =>
            reserved item member takes_ first.id (Function.update_self ..)
          refine ⟨fun item member takes_ id held => ?_, fun item member other member' takes_ takes' => ?_⟩
          · rcases List.mem_cons.mp member with rfl | member
            · exact agree id held
            · exact (agree id held).trans (next item member takes_)
          · rcases List.mem_cons.mp member with rfl | later <;>
              rcases List.mem_cons.mp member' with rfl | later'
            · rfl
            · exact next other later' takes'
            · exact (next item later takes_).symm
            · exact pairs item later other later' takes_ takes'
        · have apart : ¬takes first := by
            rintro ⟨typed, edge, indexed, rfl⟩
            obtain rfl : registration = entry := by
              rw [typed, registered] at found
              exact Option.some.inj found
            apply here
            refine ⟨rfl, ?_⟩
            unfold EdgeRegistration.indexedEdge at indexed
            rw [extracted, inScope] at indexed
            cases indexed
            rfl
          have kept : (Function.update reservations (entry.edgeType, entry.pairKey endpoints scope)
              (some first.id)) (registration.edgeType, key) = reservations (registration.edgeType, key) := by
            refine Function.update_of_ne (fun same => here ?_) _ _
            obtain ⟨typed, rfl⟩ := Prod.mk.inj same
            exact ⟨typed.symm, rfl⟩
          refine skip apart kept ?_
          split at h
          · split at h
            · cases h
            · exact h
          · exact h

theorem forM_ok {α : Type} {f : α → Except String Unit} {items : List α}
    (h : items.forM f = .ok ()) : ∀ item ∈ items, f item = .ok () := by
  induction items with
  | nil => simp
  | cons item rest ih =>
    obtain ⟨_, first, h⟩ := StateError.except_bind_ok
      (h : (f item >>= fun _ => rest.forM f) = .ok ())
    intro other member
    rcases List.mem_cons.mp member with rfl | member
    · exact first
    · exact ih h other member

theorem preflightReplaceBatch_ok {upserts deletes : List Item} {mode : EdgeApplyMode}
    (h : view.preflightReplaceBatch upserts deletes mode = .ok ()) :
    view.preflightBatch upserts mode = .ok () ∧ ∀ item ∈ upserts,
      view.preflightIgnoring none (some item) mode (ignoredIds deletes item.entityType) = .ok () := by
  obtain ⟨_, batch, h⟩ := StateError.except_bind_ok h
  exact ⟨batch, forM_ok h⟩

end GraphView

end Myko

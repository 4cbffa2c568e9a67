import Myko.Graph.Index

/-!
What a write, a batch of writes and a rebuild make of the index of an edge type.
-/

namespace Myko
open StateError SecondaryIndex

variable {schema : GraphSchema} {registration : EdgeRegistration}

/-- Take an edge from its old place in the index to its new one. -/
def reindex (schema : GraphSchema) (registration : EdgeRegistration) (old new : Option IndexedEdge)
    (state : EdgeTypeState) : EdgeTypeState :=
  let state := match old with
    | some edge => dropEdge registration edge state
    | none => state
  match new with
  | some edge => insertIndexed schema registration state edge
  | none => state

/-- A batch, where the old place of every edge is the one it had before the batch. -/
def reindexAll (schema : GraphSchema) (registration : EdgeRegistration)
    (stored : String → Option IndexedEdge) (changes : List (String × Option IndexedEdge))
    (state : EdgeTypeState) : EdgeTypeState :=
  changes.foldl (fun state change => reindex schema registration (stored change.1) change.2 state) state

/-- Edges that stand under their own id. -/
def OwnId (stored : String → Option IndexedEdge) : Prop :=
  ∀ id edge, stored id = some edge → edge.id = id

def OwnIds (changes : List (String × Option IndexedEdge)) : Prop :=
  ∀ id edge, (id, some edge) ∈ changes → edge.id = id

section
variable {state : EdgeTypeState}

theorem sound_reindex (sound : state.Sound schema registration) (old new : Option IndexedEdge) :
    (reindex schema registration old new state).Sound schema registration := by
  cases old with
  | none =>
    cases new with
    | none => exact sound
    | some edge =>
      exact ⟨projected_insertIndexed sound.projected edge, canonical_insertIndexed sound.canonical edge⟩
  | some before =>
    have dropped : (dropEdge registration before state).Sound schema registration :=
      ⟨projected_dropEdge sound.projected before, canonical_dropEdge sound.canonical before⟩
    cases new with
    | none => exact dropped
    | some edge =>
      exact ⟨projected_insertIndexed dropped.projected edge,
        canonical_insertIndexed dropped.canonical edge⟩

theorem incident_reindex (sound : state.Sound schema registration) {id : String}
    {old new : Option IndexedEdge} (oldId : ∀ edge, old = some edge → edge.id = id)
    (newId : ∀ edge, new = some edge → edge.id = id) (key : IndexKey) (candidate : String) :
    (reindex schema registration old new state).Incident key candidate ↔
      refile state.Incident id (IndexedEdge.keySet schema registration old)
        (IndexedEdge.keySet schema registration new) key candidate := by
  have dropped : (match old with
      | some edge => dropEdge registration edge state
      | none => state).Incident key candidate ↔ state.Incident key candidate ∧
        ¬(candidate = id ∧ key ∈ IndexedEdge.keySet schema registration old) := by
    cases old with
    | none => simp
    | some before =>
      rw [IndexedEdge.mem_keySet_some, ← oldId before rfl]
      exact incident_dropEdge sound.projected
  unfold reindex refile
  cases new with
  | none => simpa using dropped
  | some edge =>
    rw [IndexedEdge.mem_keySet_some, ← newId edge rfl]
    rw [newId edge rfl, ← dropped, ← newId edge rfl]
    exact incident_insertIndexed

theorem edges_reindex {id : String} {old new : Option IndexedEdge}
    (oldId : ∀ edge, old = some edge → edge.id = id)
    (newId : ∀ edge, new = some edge → edge.id = id) (candidate : String) :
    (reindex schema registration old new state).edges candidate =
      if candidate = id then
        (match new with
          | some edge => if schema.projectsAnyEndpoint registration.edgeType then some edge
              else if old = none then state.edges id else none
          | none => if old = none then state.edges id else none)
      else state.edges candidate := by
  unfold reindex
  cases old with
  | none =>
    cases new with
    | none => by_cases here : candidate = id <;> simp [here]
    | some edge =>
      obtain rfl := newId edge rfl
      rw [insertIndexed_edges]
      by_cases here : candidate = edge.id <;> by_cases kept : schema.projectsAnyEndpoint registration.edgeType <;>
        simp [here, kept]
  | some before =>
    obtain rfl := oldId before rfl
    cases new with
    | none =>
      simp only [dropEdge_edges]
      by_cases here : candidate = before.id <;> simp [here]
    | some edge =>
      have same := newId edge rfl
      simp only [insertIndexed_edges, dropEdge_edges, same]
      by_cases here : candidate = before.id <;>
        by_cases kept : schema.projectsAnyEndpoint registration.edgeType <;> simp [here, kept]

end

section
variable {state : EdgeTypeState} {stored : String → Option IndexedEdge}
  {changes : List (String × Option IndexedEdge)}

theorem reindexAll_append (schema : GraphSchema) (registration : EdgeRegistration)
    (stored : String → Option IndexedEdge) (first rest : List (String × Option IndexedEdge))
    (state : EdgeTypeState) :
    reindexAll schema registration stored (first ++ rest) state =
      reindexAll schema registration stored rest (reindexAll schema registration stored first state) :=
  List.foldl_append

/-- The changes as changes of keys. -/
def keyChanges (schema : GraphSchema) (registration : EdgeRegistration)
    (changes : List (String × Option IndexedEdge)) : List (String × Set IndexKey) :=
  changes.map fun change => (change.1, IndexedEdge.keySet schema registration change.2)

/-- The edges after a batch: for each id the last edge given to it, else the stored one. -/
def edgesAfter (stored : String → Option IndexedEdge) (changes : List (String × Option IndexedEdge))
    (id : String) : Option IndexedEdge :=
  (((changes.filter fun change => change.1 = id).map Prod.snd).getLast?).getD (stored id)

theorem sound_reindexAll (sound : state.Sound schema registration)
    (stored : String → Option IndexedEdge) (changes : List (String × Option IndexedEdge)) :
    (reindexAll schema registration stored changes state).Sound schema registration := by
  induction changes generalizing state with
  | nil => exact sound
  | cons change rest ih => exact ih (sound_reindex sound _ _)

theorem incident_reindexAll (sound : state.Sound schema registration) (own : OwnId stored)
    (owns : OwnIds changes) (key : IndexKey) (id : String) :
    (reindexAll schema registration stored changes state).Incident key id ↔
      refileAll (fun id => IndexedEdge.keySet schema registration (stored id)) state.Incident
        (keyChanges schema registration changes) key id := by
  have entries_eq : ∀ (changes : List (String × Option IndexedEdge)) (state : EdgeTypeState),
      state.Sound schema registration → OwnIds changes →
      (reindexAll schema registration stored changes state).Incident =
        refileAll (fun id => IndexedEdge.keySet schema registration (stored id)) state.Incident
          (keyChanges schema registration changes) := by
    intro changes
    induction changes with
    | nil => intros; rfl
    | cons change rest ih =>
      intro state sound owns
      have step : (reindex schema registration (stored change.1) change.2 state).Incident =
          refile state.Incident change.1
            (IndexedEdge.keySet schema registration (stored change.1))
            (IndexedEdge.keySet schema registration change.2) := by
        funext key id
        refine propext (incident_reindex sound (fun edge h => own _ _ h) (fun edge h => ?_) key id)
        exact owns _ _ (by rw [← h]; exact List.mem_cons_self)
      change (reindexAll schema registration stored rest _).Incident = _
      rw [ih _ (sound_reindex sound _ _) (fun id edge h => owns id edge (List.mem_cons_of_mem _ h)), step]
      rfl
  rw [entries_eq changes state sound owns]

theorem keysAfter_keyChanges (schema : GraphSchema) (registration : EdgeRegistration)
    (stored : String → Option IndexedEdge) (changes : List (String × Option IndexedEdge))
    (id : String) :
    keysAfter (fun id => IndexedEdge.keySet schema registration (stored id))
        (keyChanges schema registration changes) id =
      IndexedEdge.keySet schema registration (edgesAfter stored changes id) := by
  have given : keysOf (keyChanges schema registration changes) id =
      ((changes.filter fun change => change.1 = id).map Prod.snd).map
        (IndexedEdge.keySet schema registration) := by
    simp [keysOf, keyChanges, List.filter_map, Function.comp_def]
  rw [keysAfter, given, edgesAfter, List.getLast?_map]
  cases ((changes.filter fun change => change.1 = id).map Prod.snd).getLast? <;> rfl

theorem edgesAfter_concat (stored : String → Option IndexedEdge)
    (changes : List (String × Option IndexedEdge)) (id candidate : String) (new : Option IndexedEdge) :
    edgesAfter stored (changes ++ [(id, new)]) candidate =
      if id = candidate then new else edgesAfter stored changes candidate := by
  by_cases same : id = candidate <;> simp [edgesAfter, same]

theorem edges_reindexAll (own : OwnId stored) (owns : OwnIds changes)
    (before : ∀ id, state.edges id =
      if schema.projectsAnyEndpoint registration.edgeType then stored id else none)
    (deleted : ∀ change ∈ changes, change.2 = none → stored change.1 ≠ none) (id : String) :
    (reindexAll schema registration stored changes state).edges id =
      if schema.projectsAnyEndpoint registration.edgeType then edgesAfter stored changes id
      else none := by
  induction changes using List.reverseRecOn generalizing id with
  | nil => exact before id
  | append_singleton changes change ih =>
    obtain ⟨changed, new⟩ := change
    have ih := ih (fun id edge h => owns id edge (List.mem_append_left _ h))
      (fun change h => deleted change (List.mem_append_left _ h))
    rw [reindexAll_append, edgesAfter_concat]
    change (reindex schema registration (stored changed) new _).edges id = _
    have oldId : ∀ edge, stored changed = some edge → edge.id = changed := fun edge h => own _ _ h
    have newId : ∀ edge, new = some edge → edge.id = changed := fun edge h => owns _ _ (by simp [h])
    rw [edges_reindex oldId newId]
    by_cases here : id = changed
    · subst here
      cases new with
      | none =>
        have had := deleted (id, none) (by simp) rfl
        simp [had]
      | some edge =>
        by_cases kept : schema.projectsAnyEndpoint registration.edgeType
        · simp [kept]
        · have absent := ih id
          rw [if_neg kept] at absent
          simp [kept, absent]
    · rw [if_neg here, if_neg (Ne.symm here), ih id]

/-- A batch turns the index of the stored edges into the index of the edges after it exactly when
every key it gives on the way is one its edge had before or has in the end. -/
theorem indexes_reindexAll_iff (indexes : state.Indexes schema registration stored)
    (own : OwnId stored) (owns : OwnIds changes)
    (deleted : ∀ change ∈ changes, change.2 = none → stored change.1 ≠ none) :
    (reindexAll schema registration stored changes state).Indexes schema registration
        (edgesAfter stored changes) ↔
      Settled (fun id => IndexedEdge.keySet schema registration (stored id))
        (keyChanges schema registration changes) := by
  have sound := indexes.toSound
  rw [← exact_refileAll_iff indexes.incident]
  constructor
  · intro after key id
    rw [← incident_reindexAll sound own owns, keysAfter_keyChanges]
    exact after.incident key id
  · intro exact_
    refine ⟨sound_reindexAll sound stored changes,
      fun id => edges_reindexAll own owns indexes.edges deleted id, fun key id => ?_⟩
    rw [incident_reindexAll sound own owns]
    exact (exact_ key id).trans (by rw [keysAfter_keyChanges])

end
/-! ### Writes one after the other -/

/-- Writes made one after the other, where the old place of every edge is the one it has by then. -/
def reindexEach (schema : GraphSchema) (registration : EdgeRegistration)
    (stored : String → Option IndexedEdge) :
    List (String × Option IndexedEdge) → EdgeTypeState → EdgeTypeState
  | [], state => state
  | change :: rest, state =>
    reindexEach schema registration (Function.update stored change.1 change.2) rest
      (reindex schema registration (stored change.1) change.2 state)

section
variable {state : EdgeTypeState} {stored : String → Option IndexedEdge}
  {changes : List (String × Option IndexedEdge)}

theorem ownId_update {id : String} {new : Option IndexedEdge} (own : OwnId stored)
    (newId : ∀ edge, new = some edge → edge.id = id) : OwnId (Function.update stored id new) := by
  intro other edge held
  by_cases same : other = id
  · subst same
    exact newId edge (by simpa using held)
  · rw [Function.update_of_ne same] at held
    exact own other edge held

theorem sound_reindexEach (sound : state.Sound schema registration) :
    (reindexEach schema registration stored changes state).Sound schema registration := by
  induction changes generalizing state stored with
  | nil => exact sound
  | cons change rest ih => exact ih (sound_reindex sound _ _)

theorem incident_reindexEach (sound : state.Sound schema registration) (own : OwnId stored)
    (owns : OwnIds changes) (key : IndexKey) (id : String) :
    (reindexEach schema registration stored changes state).Incident key id ↔
      refileEach (fun id => IndexedEdge.keySet schema registration (stored id)) state.Incident
        (keyChanges schema registration changes) key id := by
  suffices same : (reindexEach schema registration stored changes state).Incident =
      refileEach (fun id => IndexedEdge.keySet schema registration (stored id)) state.Incident
        (keyChanges schema registration changes) by rw [same]
  induction changes generalizing state stored with
  | nil => rfl
  | cons change rest ih =>
    have newId : ∀ edge, change.2 = some edge → edge.id = change.1 := fun edge held =>
      owns _ _ (by rw [← held]; exact List.mem_cons_self)
    have step : (reindex schema registration (stored change.1) change.2 state).Incident =
        refile state.Incident change.1
          (IndexedEdge.keySet schema registration (stored change.1))
          (IndexedEdge.keySet schema registration change.2) := by
      funext key id
      exact propext (incident_reindex sound (fun edge held => own _ _ held) newId key id)
    rw [reindexEach, ih (sound_reindex sound _ _) (ownId_update own newId)
      (fun id edge listed => owns id edge (List.mem_cons_of_mem _ listed)), step]
    have keys : (fun id => IndexedEdge.keySet schema registration
          (Function.update stored change.1 change.2 id)) =
        Function.update (fun id => IndexedEdge.keySet schema registration (stored id)) change.1
          (IndexedEdge.keySet schema registration change.2) := by
      funext id
      by_cases same : id = change.1
      · subst same
        simp
      · simp [Function.update_of_ne same]
    rw [keys]
    rfl

/-- The edges an index keeps are those it was given last, if its type keeps edges. -/
theorem edges_puts {old new : Option IndexedEdge} {id : String} (put : new ≠ none)
    (oldId : ∀ edge, old = some edge → edge.id = id) (newId : ∀ edge, new = some edge → edge.id = id)
    (unkept : schema.projectsAnyEndpoint registration.edgeType = false → ∀ id, state.edges id = none)
    (candidate : String) : (reindex schema registration old new state).edges candidate =
      if candidate = id then
        if schema.projectsAnyEndpoint registration.edgeType then new else none
      else state.edges candidate := by
  rw [edges_reindex oldId newId]
  cases new with
  | none => exact absurd rfl put
  | some edge =>
    cases kept : schema.projectsAnyEndpoint registration.edgeType with
    | true => rfl
    | false =>
      rw [unkept kept id]
      simp

theorem edges_unkept {old new : Option IndexedEdge} {id : String} (put : new ≠ none)
    (oldId : ∀ edge, old = some edge → edge.id = id) (newId : ∀ edge, new = some edge → edge.id = id)
    (unkept : schema.projectsAnyEndpoint registration.edgeType = false → ∀ id, state.edges id = none) :
    schema.projectsAnyEndpoint registration.edgeType = false →
      ∀ id, (reindex schema registration old new state).edges id = none := by
  intro kept candidate
  rw [edges_puts put oldId newId unkept, kept, unkept kept candidate]
  simp

theorem edgesAfter_cons (stored : String → Option IndexedEdge) (change : String × Option IndexedEdge)
    (rest : List (String × Option IndexedEdge)) :
    edgesAfter stored (change :: rest) = edgesAfter (Function.update stored change.1 change.2) rest := by
  funext id
  unfold edgesAfter
  by_cases same : change.1 = id
  · subst same
    rw [List.filter_cons_of_pos (by simp), List.map_cons, List.getLast?_cons, Function.update_self]
    rfl
  · rw [List.filter_cons_of_neg (by simp [same]), Function.update_of_ne (Ne.symm same)]

theorem edges_reindexEach (own : OwnId stored) (owns : OwnIds changes)
    (puts : ∀ change ∈ changes, change.2 ≠ none)
    (unkept : schema.projectsAnyEndpoint registration.edgeType = false → ∀ id, state.edges id = none)
    (id : String) : (reindexEach schema registration stored changes state).edges id =
      if id ∈ changes.map Prod.fst then
        if schema.projectsAnyEndpoint registration.edgeType then edgesAfter stored changes id else none
      else state.edges id := by
  induction changes generalizing state stored with
  | nil => rfl
  | cons change rest ih =>
    have put := puts change List.mem_cons_self
    have oldId : ∀ edge, stored change.1 = some edge → edge.id = change.1 := fun edge held => own _ _ held
    have newId : ∀ edge, change.2 = some edge → edge.id = change.1 := fun edge held =>
      owns _ _ (by rw [← held]; exact List.mem_cons_self)
    rw [reindexEach, ih (ownId_update own newId)
      (fun id edge listed => owns id edge (List.mem_cons_of_mem _ listed))
      (fun change listed => puts change (List.mem_cons_of_mem _ listed)) (edges_unkept put oldId newId unkept),
      edgesAfter_cons, edges_puts put oldId newId unkept]
    by_cases later : id ∈ rest.map Prod.fst
    · have among : id ∈ (change :: rest).map Prod.fst := List.mem_cons_of_mem _ later
      rw [if_pos later, if_pos among]
    · rw [if_neg later]
      by_cases here : id = change.1
      · subst here
        have last : edgesAfter (Function.update stored change.1 change.2) rest change.1 = change.2 := by
          unfold edgesAfter
          have none : rest.filter (fun other => decide (other.1 = change.1)) = [] := by
            refine List.filter_eq_nil_iff.mpr fun other listed same => later ?_
            exact List.mem_map.mpr ⟨other, listed, of_decide_eq_true same⟩
          rw [none, Function.update_self]
          rfl
        have among : change.1 ∈ (change :: rest).map Prod.fst := List.mem_cons_self
        rw [if_pos rfl, if_pos among, last]
      · rw [if_neg here, if_neg]
        simp only [List.map_cons, List.mem_cons, not_or]
        exact ⟨here, later⟩

theorem edges_reindexAll_puts (own : OwnId stored) (owns : OwnIds changes)
    (puts : ∀ change ∈ changes, change.2 ≠ none)
    (unkept : schema.projectsAnyEndpoint registration.edgeType = false → ∀ id, state.edges id = none)
    (id : String) : (reindexAll schema registration stored changes state).edges id =
      if id ∈ changes.map Prod.fst then
        if schema.projectsAnyEndpoint registration.edgeType then edgesAfter stored changes id else none
      else state.edges id := by
  suffices both : (schema.projectsAnyEndpoint registration.edgeType = false →
        ∀ id, (reindexAll schema registration stored changes state).edges id = none) ∧
      ∀ id, (reindexAll schema registration stored changes state).edges id =
        if id ∈ changes.map Prod.fst then
          if schema.projectsAnyEndpoint registration.edgeType then edgesAfter stored changes id else none
        else state.edges id from both.2 id
  induction changes using List.reverseRecOn with
  | nil => exact ⟨unkept, fun _ => rfl⟩
  | append_singleton changes change ih =>
    obtain ⟨changed, new⟩ := change
    obtain ⟨unkept, ih⟩ := ih (fun id edge listed => owns id edge (List.mem_append_left _ listed))
      fun change listed => puts change (List.mem_append_left _ listed)
    have put : new ≠ none := puts (changed, new) (by simp)
    have oldId : ∀ edge, stored changed = some edge → edge.id = changed := fun edge held => own _ _ held
    have newId : ∀ edge, new = some edge → edge.id = changed := fun edge held => owns _ _ (by simp [held])
    rw [reindexAll_append]
    refine ⟨edges_unkept put oldId newId unkept, fun id => ?_⟩
    change (reindex schema registration (stored changed) new _).edges id = _
    rw [edges_puts put oldId newId unkept, edgesAfter_concat, ih]
    by_cases here : id = changed
    · subst here
      simp
    · rw [if_neg here, if_neg (Ne.symm here)]
      exact if_congr (by simp [here]) rfl rfl

end
/-! ### The index functions of the graph state -/

/-- The edge an item is, if it extracts. -/
def EdgeRegistration.edgeOf (registration : EdgeRegistration) (item : Option Item) :
    Option IndexedEdge :=
  item.bind fun value => (registration.indexedEdge value).toOption

def EdgeRegistration.Extracts (registration : EdgeRegistration) (item : Option Item) : Prop :=
  ∀ value, item = some value → ∃ edge, registration.indexedEdge value = .ok edge

/-- The edges of one type in the stores. -/
def EdgeRegistration.storedEdges (registration : EdgeRegistration) (registry : StoreRegistry)
    (id : String) : Option IndexedEdge :=
  registration.edgeOf (registry.getValue registration.edgeType id)

namespace EdgeRegistration

theorem extracts_none (registration : EdgeRegistration) : registration.Extracts none := by
  intro value h
  cases h

theorem read_of_indexed {item : Item} {edge : IndexedEdge} (indexed : registration.indexedEdge item = .ok edge) :
    registration.extract item = .ok edge.endpoints ∧ registration.extractScope item = .ok edge.scope := by
  unfold indexedEdge at indexed
  obtain ⟨endpoints, extracted, indexed⟩ := StateError.except_bind_ok indexed
  obtain ⟨scope, inScope, indexed⟩ := StateError.except_bind_ok indexed
  cases indexed
  exact ⟨extracted, inScope⟩

/-- A stored edge is read off a stored item. -/
theorem value_of_stored {registry : StoreRegistry} {id : String} {edge : IndexedEdge}
    (stored : registration.storedEdges registry id = some edge) :
    ∃ item, registry.getValue registration.edgeType id = some item ∧ registration.edgeOf (some item) = some edge := by
  unfold storedEdges at stored
  cases value : registry.getValue registration.edgeType id with
  | none =>
    rw [value] at stored
    cases stored
  | some item =>
    rw [value] at stored
    exact ⟨item, rfl, stored⟩

theorem indexedEdge_id {item : Item} {edge : IndexedEdge}
    (h : registration.indexedEdge item = .ok edge) : edge.id = item.id := by
  unfold indexedEdge at h
  cases endpoints : registration.extract item with
  | error e => simp [endpoints, bind, Except.bind] at h
  | ok value =>
    cases scope : registration.extractScope item with
    | error e => simp [endpoints, scope, bind, Except.bind] at h
    | ok value =>
      simp only [endpoints, scope, bind, Except.bind, pure, Except.pure, Except.ok.injEq] at h
      rw [← h]

theorem edgeOf_id {item : Item} {edge : IndexedEdge}
    (h : registration.edgeOf (some item) = some edge) : edge.id = item.id := by
  unfold edgeOf at h
  cases extracted : registration.indexedEdge item with
  | error e => simp [extracted, Except.toOption] at h
  | ok value =>
    rw [← indexedEdge_id extracted]
    simpa [extracted, Except.toOption] using (congrArg (Option.map IndexedEdge.id) h).symm

theorem ownId_storedEdges (registration : EdgeRegistration) (registry : StoreRegistry) :
    OwnId (registration.storedEdges registry) := by
  intro id edge h
  unfold storedEdges at h
  cases stored : registry.getValue registration.edgeType id with
  | none => simp [stored, edgeOf] at h
  | some item =>
    rw [stored] at h
    rw [edgeOf_id h, (StoreRegistry.getValue_keyed stored).2]

end EdgeRegistration

theorem extracts_cases {item : Option Item} (h : registration.Extracts item) :
    (item = none ∧ registration.edgeOf item = none) ∨
      ∃ value edge, item = some value ∧ registration.indexedEdge value = .ok edge ∧
        registration.edgeOf item = some edge := by
  cases item with
  | none => exact .inl ⟨rfl, rfl⟩
  | some value =>
    obtain ⟨edge, extracted⟩ := h value rfl
    refine .inr ⟨value, edge, rfl, extracted, ?_⟩
    simp [EdgeRegistration.edgeOf, extracted, Except.toOption]

/-- Apply one write to the graph state, all its values extracting. -/
def GraphState.reindexed (schema : GraphSchema) (registration : EdgeRegistration)
    (old new : Option Item) (state : GraphState) : GraphState :=
  (state.updateType registration.edgeType
    (reindex schema registration (registration.edgeOf old) (registration.edgeOf new))).bump
      registration.edgeType

theorem updateType_updateType (state : GraphState) (edgeType : String)
    (f g : EdgeTypeState → EdgeTypeState) :
    (state.updateType edgeType f).updateType edgeType g = state.updateType edgeType (g ∘ f) := by
  simp [GraphState.updateType]

theorem applyEdge_registered {old new : Option Item} {item : Item}
    (present : new.or old = some item)
    (registered : schema.registration item.entityType = some registration)
    (oldExtracts : registration.Extracts old) (newExtracts : registration.Extracts new)
    (state : GraphState) :
    applyEdge schema old new state =
      .ok (state.reindexed schema registration old new).generation
        (state.reindexed schema registration old new) := by
  unfold applyEdge
  rw [present]
  simp only [registered]
  rcases extracts_cases oldExtracts with ⟨rfl, oldEdge⟩ | ⟨before, edge, rfl, extracted, oldEdge⟩ <;>
    rcases extracts_cases newExtracts with ⟨rfl, newEdge⟩ | ⟨after, edge', rfl, extracted', newEdge⟩
  · simp at present
  · simp only [GraphState.reindexed, oldEdge, newEdge, extracted', passOn, pure_bind]
    rfl
  · simp only [GraphState.reindexed, oldEdge, newEdge, extracted, passOn, pure_bind]
    rfl
  · simp only [GraphState.reindexed, oldEdge, newEdge, extracted, extracted', passOn, pure_bind]
    change EStateM.Result.ok _ (((state.updateType _ _).updateType _ _).bump _) = _
    rw [updateType_updateType]
    rfl

theorem applyEdge_unregistered {old new : Option Item} {item : Item}
    (present : new.or old = some item) (unregistered : schema.registration item.entityType = none)
    (state : GraphState) : applyEdge schema old new state = .ok state.generation state := by
  unfold applyEdge
  rw [present]
  simp only [unregistered]
  rfl

/-- A write of an edge goes through only if both its values extract. -/
theorem applyEdge_ok_extracts {old new : Option Item} {item : Item}
    (present : new.or old = some item)
    (registered : schema.registration item.entityType = some registration)
    {state after : GraphState} {generation : Nat}
    (h : applyEdge schema old new state = .ok generation after) :
    registration.Extracts old ∧ registration.Extracts new := by
  unfold applyEdge at h
  rw [present] at h
  simp only [registered] at h
  have extracts : ∀ {value : Item} {edge : IndexedEdge} {s t : GraphState},
      (passOn (registration.indexedEdge value) : GraphM IndexedEdge) s = .ok edge t →
      registration.Extracts (some value) := by
    intro value edge s t run other same
    cases same
    exact ⟨edge, (passOn_ok run).1⟩
  cases old with
  | none =>
    cases new with
    | none => simp at present
    | some value =>
      obtain ⟨_, _, run, _⟩ := bind_ok h
      exact ⟨registration.extracts_none, extracts run⟩
  | some before =>
    obtain ⟨_, _, run, h⟩ := bind_ok h
    refine ⟨extracts run, ?_⟩
    cases new with
    | none => exact registration.extracts_none
    | some value =>
      obtain ⟨_, _, _, h⟩ := bind_ok h
      obtain ⟨_, _, run', _⟩ := bind_ok h
      exact extracts run'

theorem reindexed_edgeTypes_self (schema : GraphSchema) (registration : EdgeRegistration)
    (old new : Option Item) (state : GraphState) :
    ((state.reindexed schema registration old new).edgeTypes registration.edgeType).projections =
      (reindex schema registration (registration.edgeOf old) (registration.edgeOf new)
        (state.edgeTypes registration.edgeType)).projections := by
  simp [GraphState.reindexed, GraphState.bump, GraphState.updateType, EdgeTypeState.projections]

theorem reindexed_edgeTypes_of_ne (schema : GraphSchema) (old new : Option Item) (state : GraphState)
    {edgeType : String} (other : edgeType ≠ registration.edgeType) :
    (state.reindexed schema registration old new).edgeTypes edgeType = state.edgeTypes edgeType := by
  simp [GraphState.reindexed, GraphState.bump, GraphState.updateType, other]

end Myko

import Myko.Server.Frame

/-!
What the commit of a mutation does to the stores and the graph index: nothing, or all its writes and
an index brought forward over as many of them as the persisters let it reach.
-/

namespace Myko
open StateError

variable {ctx : MykoServerContext}

/-- The writes of a mutation, in the order the index sees them. -/
def changesOf (s : ServerState) (pending : PendingMutation) : List Change :=
  match pending.kind with
  | .uniform items change => (groupByType items).flatten.map (Change.mk change)
  | .replace upserts deletes _ =>
    (effectiveDeletes s deletes).map (Change.mk .del) ++ upserts.map (Change.mk .set)

def coordinatedOf (ctx : MykoServerContext) (pending : PendingMutation) : Bool :=
  match pending.kind with
  | .uniform items change => items.any fun item => ctx.schema.coordinates item change
  | .replace upserts deletes _ => replaceCoordinated ctx upserts deletes

/-- The answer of the persister a change is offered to, if it is offered to one. -/
def offer (ctx : MykoServerContext) (origin : Origin) (offered : List Change) (change : Change) :
    Option (Except PersistError Unit) :=
  if origin.shouldProduce then
    (ctx.persister change.item.entityType).map fun persist => persist offered change
  else none

/-- The writes up to the first one its persister rejects, that one included. -/
def processed (ctx : MykoServerContext) (origin : Origin) : List Change → List Change → List Change
  | _, [] => []
  | offered, change :: rest =>
    match offer ctx origin offered change with
    | none => change :: processed ctx origin offered rest
    | some (.ok ()) => change :: processed ctx origin (offered ++ [change]) rest
    | some (.error _) => [change]

/-! ### Grouping -/

theorem flatMap_filter_perm {α β : Type} [DecidableEq β] (f : α → β) {keys : List β}
    (nodup : keys.Nodup) (items : List α) (covers : ∀ item ∈ items, f item ∈ keys) :
    (keys.flatMap fun key => items.filter fun item => f item = key).Perm items := by
  induction keys generalizing items with
  | nil =>
    have none : items = [] := List.eq_nil_iff_forall_not_mem.mpr fun item member => by
      simpa using covers item member
    simp [none]
  | cons key keys ih =>
    obtain ⟨fresh, nodup⟩ := List.nodup_cons.mp nodup
    have others : (keys.flatMap fun other => items.filter fun item => f item = other) =
        keys.flatMap fun other => (items.filter fun item => !decide (f item = key)).filter
          fun item => f item = other := by
      refine List.flatMap_congr fun other member => ?_
      rw [List.filter_filter]
      refine List.filter_congr fun item _ => ?_
      by_cases here : f item = other
      · have different : f item ≠ key := fun same => fresh (same ▸ here ▸ member)
        simp [here, here ▸ different]
      · simp [here]
    rw [List.flatMap_cons, others]
    have within : ∀ item ∈ items.filter fun item => !decide (f item = key), f item ∈ keys := by
      intro item member
      have listed := covers item (List.mem_filter.mp member).1
      have different : f item ≠ key := by simpa using (List.mem_filter.mp member).2
      simpa [different] using listed
    have rest := ih nodup _ within
    exact (rest.append_left _).trans (List.filter_append_perm (fun item => decide (f item = key)) items)

theorem entityTypes_nodup (items : List Item) : (entityTypes items).Nodup :=
  (List.perm_insertionSort _ _).nodup_iff.mpr (List.nodup_dedup _)

theorem mem_entityTypes {items : List Item} {entityType : String} :
    entityType ∈ entityTypes items ↔ ∃ item ∈ items, item.entityType = entityType := by
  rw [entityTypes, (List.perm_insertionSort _ _).mem_iff, List.mem_dedup, List.mem_map]

theorem flatten_groupByType (items : List Item) :
    (groupByType items).flatten =
      (entityTypes items).flatMap fun entityType => items.filter fun item => item.entityType = entityType := by
  rw [groupByType, List.flatMap_def]
  rfl

theorem groupByType_perm (items : List Item) : (groupByType items).flatten.Perm items := by
  rw [flatten_groupByType]
  exact flatMap_filter_perm Item.entityType (entityTypes_nodup items) items
    fun item member => mem_entityTypes.mpr ⟨item, member, rfl⟩

/-- Grouping keeps the order among the items of one type. -/
theorem filter_groupByType (items : List Item) (p : Item → Bool) {entityType : String}
    (typed : ∀ item ∈ items, p item = true → item.entityType = entityType) :
    (groupByType items).flatten.filter p = items.filter p := by
  rw [flatten_groupByType, List.filter_flatMap]
  have kept : ∀ other, (items.filter fun item => item.entityType = other).filter p =
      if other = entityType then items.filter p else [] := by
    intro other
    rw [List.filter_filter]
    by_cases here : other = entityType
    · rw [if_pos here]
      refine List.filter_congr fun item member => ?_
      cases hit : p item with
      | true => simp [typed item member hit, here]
      | false => rfl
    · rw [if_neg here, List.filter_eq_nil_iff]
      intro item member
      cases hit : p item with
      | true => simp [typed item member hit, Ne.symm here]
      | false => simp
  simp only [kept]
  by_cases listed : entityType ∈ entityTypes items
  · obtain ⟨before, after, split⟩ := List.append_of_mem listed
    have nodup := entityTypes_nodup items
    rw [split, List.nodup_append, List.nodup_cons] at nodup
    have none : ∀ part : List String, entityType ∉ part →
        part.flatMap (fun other => if other = entityType then items.filter p else []) = [] := by
      intro part absent
      rw [List.flatMap_eq_nil_iff]
      intro other member
      have different : other ≠ entityType := fun same => absent (same ▸ member)
      rw [if_neg different]
    have earlier : entityType ∉ before := fun member =>
      nodup.2.2 entityType member entityType List.mem_cons_self rfl
    rw [split, List.flatMap_append, List.flatMap_cons, if_pos rfl, none before earlier,
      none after nodup.2.1.1]
    simp
  · have absent : items.filter p = [] := List.filter_eq_nil_iff.mpr fun item member hit =>
      listed (mem_entityTypes.mpr ⟨item, member, typed item member hit⟩)
    rw [absent]
    simp

/-! ### The writes to the stores -/

theorem writeAll_flatten (registry : StoreRegistry) (groups : List (List Change)) :
    groups.foldl StoreRegistry.writeAll registry = registry.writeAll groups.flatten := by
  induction groups generalizing registry with
  | nil => rfl
  | cons group rest ih => rw [List.foldl_cons, ih, List.flatten_cons, StoreRegistry.writeAll_append]

/-- Writes of different entities may be made in any order. -/
theorem writeAll_perm {changes others : List Change} (perm : changes.Perm others)
    (nodup : (changes.map Change.key).Nodup) (registry : StoreRegistry) :
    registry.writeAll changes = registry.writeAll others := by
  refine StoreRegistry.ext fun entityType id => ?_
  rw [StoreRegistry.getValue_writeAll, StoreRegistry.getValue_writeAll]
  have same := perm.filter fun change => decide (change.key = (entityType, id))
  have once : (changes.filter fun change => change.key = (entityType, id)).length ≤ 1 := by
    have count := List.nodup_iff_count_le_one.mp nodup (entityType, id)
    rw [List.count, List.countP_map, List.countP_eq_length_filter] at count
    simpa [Function.comp_def, beq_eq_decide] using count
  have equal : (others.filter fun change => change.key = (entityType, id)) =
      changes.filter fun change => change.key = (entityType, id) := by
    rcases Nat.le_one_iff_eq_zero_or_eq_one.mp once with zero | one
    · have none := List.eq_nil_of_length_eq_zero zero
      rw [none] at same ⊢
      exact List.nil_perm.mp same
    · obtain ⟨change, only⟩ := List.length_eq_one_iff.mp one
      rw [only] at same ⊢
      exact (List.singleton_perm.mp same).symm
  rw [equal]

/-! ### Planning and applying -/

/-- What a mutation will ask to be deleted, decided before anything is written; nothing when it does
not apply. -/
def planPending (ctx : MykoServerContext) (s : ServerState) (pending : PendingMutation) :
    Except PersistError (Option (List Item)) :=
  match pending.kind with
  | .uniform [] _ => .ok (some [])
  | .uniform [item] change =>
    some <$> planItem ctx s (coordinatedOf ctx pending) change pending.mode item
  | .uniform (first :: rest) change =>
    some <$> planGrouped ctx s (coordinatedOf ctx pending) (first :: rest) first change pending.mode
  | .replace upserts deletes expected =>
    match upserts.head?.or deletes.head?, firstRepeated (deletes ++ upserts) [] with
    | none, _ => .ok (some [])
    | some _, some item =>
      .error (graphError item "replacement batch contains the same entity ID more than once")
    | some first, none =>
      if coordinatedOf ctx pending && expected.any (· ≠ s.graph.generation) then .ok none
      else some <$> planReplace ctx s (coordinatedOf ctx pending) upserts deletes first pending.mode

/-- What is written once the plan made in state `s` stands. -/
def applyPending (ctx : MykoServerContext) (s : ServerState) (pending : PendingMutation) :
    ServerM Unit :=
  match pending.kind with
  | .uniform [] _ => pure ()
  | .uniform [item] change => do
    let coordinated := coordinatedOf ctx pending
    reduceOne ctx ⟨change, item⟩
    indexItem ctx s.registry coordinated ⟨change, item⟩
    let persisted ← attempt (persistItem ctx pending.origin ⟨change, item⟩)
    let watched ← attempt (
      if coordinated && hasWatchSubscribers s.watches &&
          (ctx.schema.registration item.entityType).isSome then
        liftWatches item
          (publishWatchChange ctx.schema (s.registry.canonicalItem item) (newValue change item))
      else pure ())
    passOn persisted
    passOn watched
  | .uniform (first :: rest) change => do
    let items := first :: rest
    let coordinated := coordinatedOf ctx pending
    let changes := (groupByType items).flatten.map (Change.mk change)
    let watch := if coordinated && hasWatchSubscribers s.watches then
      watchChanges ctx s.registry changes else []
    modify fun t => { t with
      registry := (groupByType items).foldl
        (fun registry group => registry.writeAll (group.map (Change.mk change))) s.registry }
    let mutated ← attempt (each (indexAndPersist ctx s.registry coordinated pending.origin) changes)
    let watched ← attempt (
      if watch.isEmpty then pure () else liftWatches first (publishWatchChanges ctx.schema watch))
    passOn mutated
    passOn watched
  | .replace upserts deletes _ =>
    match upserts.head?.or deletes.head? with
    | none => pure ()
    | some first => do
      let coordinated := coordinatedOf ctx pending
      let effective := effectiveDeletes s deletes
      let changes := effective.map (Change.mk .del) ++ upserts.map (Change.mk .set)
      let watch := if coordinated && hasWatchSubscribers s.watches then
        watchChanges ctx s.registry changes else []
      modify fun t => { t with
        registry := (entityTypes (effective ++ upserts)).foldl
          (fun registry entityType => registry.writeAll (replaceWrites upserts effective entityType))
          s.registry }
      each (indexAndPersist ctx s.registry coordinated pending.origin) changes
      if !watch.isEmpty then liftWatches first (publishWatchChanges ctx.schema watch)

/-- A commit plans, and then writes or leaves everything as it was. -/
theorem commitPending_eq (ctx : MykoServerContext) (pending : PendingMutation) (s : ServerState) :
    commitPending ctx pending s =
      match planPending ctx s pending with
      | .error error => .error error s
      | .ok none => .ok none s
      | .ok (some cascades) => (applyPending ctx s pending >>= fun _ => pure (some cascades)) s := by
  have lifted : ∀ {α : Type} (result : Except PersistError α) (rest : α → ServerM (Option (List Item)))
      (s : ServerState), ((passOn result : ServerM α) >>= rest) s =
        match result with
        | .ok value => rest value s
        | .error error => .error error s := by
    intro α result rest s
    cases result <;> rfl
  obtain ⟨kind, origin, mode, depth, chain⟩ := pending
  cases kind with
  | uniform items change =>
    match items with
    | [] => rfl
    | [item] =>
      have single : coordinatedOf ctx ⟨.uniform [item] change, origin, mode, depth, chain⟩ =
          ctx.schema.coordinates item change := by simp [coordinatedOf]
      simp only [commitPending, planPending, applyPending, commitOne, map_eq_pure_bind, bind_assoc,
        pure_bind, single]
      rw [bind_of_ok (get_eq s), lifted]
      cases planItem ctx s (ctx.schema.coordinates item change) change mode item <;> rfl
    | first :: second :: rest =>
      simp only [commitPending, planPending, applyPending, commitGrouped, map_eq_pure_bind, bind_assoc,
        pure_bind, coordinatedOf]
      rw [bind_of_ok (get_eq s), lifted]
      cases planGrouped ctx s ((first :: second :: rest).any fun item =>
        ctx.schema.coordinates item change) (first :: second :: rest) first change mode <;> rfl
  | replace upserts deletes expected =>
    cases named : upserts.head?.or deletes.head? with
    | none => simp [commitPending, planPending, applyPending, named]
    | some first =>
      have told : coordinatedOf ctx ⟨.replace upserts deletes expected, origin, mode, depth, chain⟩ =
          replaceCoordinated ctx upserts deletes := rfl
      simp only [commitPending, planPending, applyPending, commitReplace, named, told]
      cases repeated : firstRepeated (deletes ++ upserts) [] with
      | some item => rfl
      | none =>
        dsimp only [pure_bind]
        rw [bind_of_ok (get_eq s)]
        by_cases stale : (replaceCoordinated ctx upserts deletes &&
            expected.any (· ≠ s.graph.generation)) = true
        · simp only [stale, if_true]
          rfl
        · simp only [stale, if_false, Bool.false_eq_true]
          rw [lifted]
          cases planReplace ctx s (replaceCoordinated ctx upserts deletes) upserts deletes first mode with
          | error error => rfl
          | ok cascades =>
            simp only [each_append, bind_assoc, Functor.map, Except.map]
            generalize (if replaceCoordinated ctx upserts deletes && hasWatchSubscribers s.watches then
              watchChanges ctx s.registry _ else []) = watch
            cases watch.isEmpty <;> rfl

/-! ### Indexing and persisting a batch -/

/-- A write the index is told of whenever it keeps the type, and can then act on. -/
structure Ready (ctx : MykoServerContext) (before : StoreRegistry) (coordinated : Bool)
    (change : Change) : Prop where
  told : (ctx.schema.registration change.item.entityType).isSome → coordinated = true
  effective : coordinated = true → Effective before change

theorem indexItem_run {before : StoreRegistry} {coordinated : Bool} {change : Change}
    (ready : Ready ctx before coordinated change) (extracts : ChangeExtracts ctx.schema before change)
    (s : ServerState) :
    indexItem ctx before coordinated change s =
      .ok () { s with graph := reindexChange ctx.schema before s.graph change } := by
  unfold indexItem
  cases coordinated with
  | true =>
    have applied := applyEdge_change (ready.effective rfl) extracts s.graph
    have run : liftGraph change.item
        (applyEdge ctx.schema (before.canonicalItem change.item) change.value) s =
        .ok (reindexChange ctx.schema before s.graph change).generation
          { s with graph := reindexChange ctx.schema before s.graph change } := by
      unfold liftGraph
      rw [applied]
    rw [if_pos rfl]
    exact bind_of_ok run
  | false =>
    have unregistered : ctx.schema.registration change.item.entityType = none := by
      cases found : ctx.schema.registration change.item.entityType with
      | none => rfl
      | some registration => exact absurd (ready.told (by rw [found]; rfl)) (by simp)
    simp only [reindexChange, unregistered]
    rfl

theorem indexItem_ok {before : StoreRegistry} {coordinated : Bool} {change : Change}
    (ready : Ready ctx before coordinated change) {s t : ServerState}
    (run : indexItem ctx before coordinated change s = .ok () t) :
    ChangeExtracts ctx.schema before change ∧
      t = { s with graph := reindexChange ctx.schema before s.graph change } := by
  have extracts : ChangeExtracts ctx.schema before change := by
    intro registration found
    obtain rfl := ready.told (by rw [found]; rfl)
    obtain ⟨_, u, run, _⟩ := bind_ok run
    unfold liftGraph at run
    cases applied : applyEdge ctx.schema (before.canonicalItem change.item) change.value s.graph with
    | ok generation graph =>
      exact applyEdge_change_extracts (ready.effective rfl) applied registration found
    | error error graph =>
      rw [applied] at run
      cases run
  refine ⟨extracts, ?_⟩
  rw [indexItem_run ready extracts] at run
  cases run
  rfl

theorem persistItem_eq (ctx : MykoServerContext) (origin : Origin) (change : Change)
    (s : ServerState) :
    persistItem ctx origin change s =
      match offer ctx origin s.offered change with
      | none => .ok () s
      | some (.ok ()) => .ok () { s with offered := s.offered ++ [change] }
      | some (.error error) => .error error { s with offered := s.offered ++ [change] } := by
  unfold persistItem persistDyn offer
  by_cases produces : origin.shouldProduce
  · simp only [produces, ↓reduceIte]
    cases found : ctx.persister change.item.entityType with
    | none => rfl
    | some persist =>
      dsimp only [Option.map_some]
      rw [bind_of_ok (get_eq s), bind_of_ok (modify_eq _ s)]
      cases persist s.offered change <;> rfl
  · simp only [produces]
    rfl

section
variable {before : StoreRegistry} {coordinated : Bool} {origin : Origin}

/-- Where every write can be indexed, the index goes as far as the persisters let it. -/
theorem final_indexAndPersist {changes : List Change}
    (ready : ∀ change ∈ changes, Ready ctx before coordinated change)
    (extracts : ∀ change ∈ changes, ChangeExtracts ctx.schema before change) (s : ServerState) :
    (final (each (indexAndPersist ctx before coordinated origin) changes) s).graph =
      reindexChanges ctx.schema before s.graph (processed ctx origin s.offered changes) := by
  induction changes generalizing s with
  | nil => rfl
  | cons change rest ih =>
    have ih := ih (fun other member => ready other (List.mem_cons_of_mem _ member))
      fun other member => extracts other (List.mem_cons_of_mem _ member)
    have indexed := indexItem_run (ready change List.mem_cons_self)
      (extracts change List.mem_cons_self) s
    rw [each, processed]
    have step : indexAndPersist ctx before coordinated origin change s =
        persistItem ctx origin change
          { s with graph := reindexChange ctx.schema before s.graph change } := bind_of_ok indexed
    rw [persistItem_eq] at step
    dsimp only at step
    rw [final_bind]
    cases answer : offer ctx origin s.offered change with
    | none =>
      rw [answer] at step
      rw [step]
      exact ih _
    | some result =>
      cases result with
      | ok _ =>
        rw [answer] at step
        rw [step]
        exact ih _
      | error error =>
        rw [answer] at step
        rw [step]
        rfl

theorem indexAndPersist_ok {changes : List Change}
    (ready : ∀ change ∈ changes, Ready ctx before coordinated change) {s t : ServerState}
    (run : each (indexAndPersist ctx before coordinated origin) changes s = .ok () t) :
    (∀ change ∈ changes, ChangeExtracts ctx.schema before change) ∧
      t.graph = reindexChanges ctx.schema before s.graph changes := by
  induction changes generalizing s with
  | nil =>
    cases run
    exact ⟨fun _ member => absurd member (by simp), rfl⟩
  | cons change rest ih =>
    obtain ⟨_, u, step, run⟩ := bind_ok run
    obtain ⟨_, v, indexed, persisted⟩ := bind_ok step
    obtain ⟨extracts, rfl⟩ := indexItem_ok (ready change List.mem_cons_self) indexed
    obtain ⟨others, graph⟩ := ih (fun other member => ready other (List.mem_cons_of_mem _ member)) run
    have same : u.graph = reindexChange ctx.schema before s.graph change := by
      rw [persistItem_eq] at persisted
      split at persisted <;> cases persisted <;> rfl
    refine ⟨fun other member => ?_, by rw [graph, same]; rfl⟩
    rcases List.mem_cons.mp member with rfl | member
    · exact extracts
    · exact others other member

end

/-! ### What the write of a mutation leaves alone -/

structure Writes (s t : ServerState) : Prop where
  applyModes : t.applyModes = s.applyModes
  searchIndex : t.searchIndex = s.searchIndex
  sink : t.sink = s.sink
  uuids : t.uuids = s.uuids
  causal : t.causal = s.causal
  causalLimits : t.causalLimits = s.causalLimits
  ingestBuffers : t.ingestBuffers = s.ingestBuffers
  parentByChild : t.relations.parentByChild = s.relations.parentByChild
  childrenByParent : t.relations.childrenByParent = s.relations.childrenByParent

theorem Writes.refl (s : ServerState) : Writes s s := ⟨rfl, rfl, rfl, rfl, rfl, rfl, rfl, rfl, rfl⟩

theorem Writes.trans {s t u : ServerState} (h₁ : Writes s t) (h₂ : Writes t u) : Writes s u :=
  ⟨h₂.applyModes.trans h₁.applyModes, h₂.searchIndex.trans h₁.searchIndex, h₂.sink.trans h₁.sink,
    h₂.uuids.trans h₁.uuids, h₂.causal.trans h₁.causal, h₂.causalLimits.trans h₁.causalLimits,
    h₂.ingestBuffers.trans h₁.ingestBuffers, h₂.parentByChild.trans h₁.parentByChild,
    h₂.childrenByParent.trans h₁.childrenByParent⟩

/-- The stages that follow the write to the stores leave these alone as well. -/
structure Follows (s t : ServerState) : Prop extends Writes s t where
  registry : t.registry = s.registry
  ensureForInFlight : t.relations.ensureForInFlight = s.relations.ensureForInFlight

theorem Follows.refl (s : ServerState) : Follows s s := ⟨Writes.refl s, rfl, rfl⟩

theorem Follows.trans {s t u : ServerState} (h₁ : Follows s t) (h₂ : Follows t u) : Follows s u :=
  ⟨h₁.toWrites.trans h₂.toWrites, h₂.registry.trans h₁.registry,
    h₂.ensureForInFlight.trans h₁.ensureForInFlight⟩

/-- Telling the index and the persisters leaves the watches alone as well. -/
structure Indexing (s t : ServerState) : Prop extends Follows s t where
  watches : t.watches = s.watches

theorem indexing_frame : Frame Indexing Indexing :=
  Frame.always (fun s => ⟨Follows.refl s, rfl⟩) fun h₁ h₂ =>
    ⟨h₁.toFollows.trans h₂.toFollows, h₂.watches.trans h₁.watches⟩

theorem moves_indexItem (before : StoreRegistry) (coordinated : Bool) (change : Change) :
    Moves Indexing Indexing (indexItem ctx before coordinated change) := by
  refine Moves.ite (fun _ => Moves.bind indexing_frame ?_ fun _ => Moves.pure indexing_frame _)
    fun _ => Moves.pure indexing_frame _
  intro s
  unfold liftGraph
  cases applyEdge ctx.schema (before.canonicalItem change.item) change.value s.graph with
  | ok _ _ => exact ⟨⟨⟨rfl, rfl, rfl, rfl, rfl, rfl, rfl, rfl, rfl⟩, rfl, rfl⟩, rfl⟩
  | error _ _ => exact ⟨⟨⟨rfl, rfl, rfl, rfl, rfl, rfl, rfl, rfl, rfl⟩, rfl, rfl⟩, rfl⟩

/-- Offering a change to its persister leaves the index alone too. -/
theorem moves_persistItem (ctx : MykoServerContext) (origin : Origin) (change : Change) :
    Moves (fun s t => Indexing s t ∧ t.graph = s.graph) (fun s t => Indexing s t ∧ t.graph = s.graph)
      (persistItem ctx origin change) := by
  intro s
  rw [persistItem_eq]
  have offering : Indexing s { s with offered := s.offered ++ [change] } :=
    ⟨⟨⟨rfl, rfl, rfl, rfl, rfl, rfl, rfl, rfl, rfl⟩, rfl, rfl⟩, rfl⟩
  cases offer ctx origin s.offered change with
  | none => exact ⟨indexing_frame.refl s, rfl⟩
  | some result =>
    cases result with
    | ok _ => exact ⟨offering, rfl⟩
    | error _ => exact ⟨offering, rfl⟩

theorem moves_indexAndPersist (ctx : MykoServerContext) (before : StoreRegistry) (coordinated : Bool)
    (origin : Origin) (changes : List Change) :
    Moves Indexing Indexing (each (indexAndPersist ctx before coordinated origin) changes) := by
  refine Moves.each indexing_frame fun change _ => ?_
  refine Moves.bind indexing_frame (moves_indexItem before coordinated change) fun _ => ?_
  have persist := moves_persistItem ctx origin change
  exact Moves.intro (fun _ _ _ run => (persist.ok run).1) fun _ _ _ run => (persist.error run).1

/-- Telling the watches changes nothing else. -/
structure Watching (s t : ServerState) : Prop extends Follows s t where
  graph : t.graph = s.graph

theorem watching_frame : Frame Watching Watching :=
  Frame.always (fun s => ⟨Follows.refl s, rfl⟩) fun h₁ h₂ =>
    ⟨h₁.toFollows.trans h₂.toFollows, h₂.graph.trans h₁.graph⟩

theorem liftWatches_eq (item : Item) (publish : List GraphWatch → Except String (List GraphWatch))
    (s : ServerState) :
    liftWatches item publish s =
      match publish s.watches with
      | .ok watches => .ok () { s with watches }
      | .error error => .error (graphError item error) s := by
  unfold liftWatches
  rw [bind_of_ok (get_eq s)]
  cases publish s.watches <;> rfl

theorem moves_liftWatches (item : Item)
    (publish : List GraphWatch → Except String (List GraphWatch)) :
    Moves Watching Watching (liftWatches item publish) := by
  intro s
  rw [liftWatches_eq]
  cases publish s.watches with
  | ok _ => exact ⟨⟨⟨rfl, rfl, rfl, rfl, rfl, rfl, rfl, rfl, rfl⟩, rfl, rfl⟩, rfl⟩
  | error _ => exact watching_frame.refl s

/-! ### What a plan promises -/

theorem planItem_ok {s : ServerState} {change : MEventType} {mode : EdgeApplyMode} {item : Item}
    {cascades : List Item} (plan : planItem ctx s true change mode item = .ok cascades) :
    (match change with
      | .del => (s.view ctx).endpointDeletePlan ⟨item.entityType, item.id⟩ = .ok cascades
      | .set => cascades = []) ∧
    (s.view ctx).preflight (s.registry.canonicalItem item) (newValue change item) mode = .ok () := by
  unfold planItem at plan
  simp only [Bool.not_true, Bool.false_eq_true, ↓reduceIte] at plan
  cases change with
  | set =>
    obtain ⟨edges, planned, plan⟩ := except_bind_ok plan
    obtain ⟨_, checked, plan⟩ := except_bind_ok plan
    cases planned
    cases plan
    exact ⟨rfl, mapError_ok checked⟩
  | del =>
    obtain ⟨edges, planned, plan⟩ := except_bind_ok plan
    obtain ⟨_, checked, plan⟩ := except_bind_ok plan
    cases plan
    exact ⟨mapError_ok planned, mapError_ok checked⟩

theorem planGrouped_ok {s : ServerState} {coordinated : Bool} {items : List Item} {first : Item}
    {change : MEventType} {mode : EdgeApplyMode} {cascades : List Item}
    (plan : planGrouped ctx s coordinated items first change mode = .ok cascades) :
    (change = .set → coordinated = true → (s.view ctx).preflightBatch items mode = .ok ()) ∧
    ∀ item ∈ items, ∃ planned ⊆ cascades, planItem ctx s coordinated change mode item = .ok planned := by
  have finish : ∀ {cascades : List Item}, (do
      let cascades ← (groupByType items).flatten.mapM (planItem ctx s coordinated change mode)
      return cascades.flatten) = Except.ok cascades →
      ∀ item ∈ items, ∃ planned ⊆ cascades,
        planItem ctx s coordinated change mode item = .ok planned := by
    intro cascades run item member
    obtain ⟨plans, each_planned, same⟩ := except_bind_ok run
    cases same
    obtain ⟨planned, listed, plan⟩ := mapM_ok each_planned item ((groupByType_perm items).mem_iff.mpr member)
    exact ⟨planned, fun _ edge => List.mem_flatten_of_mem listed edge, plan⟩
  unfold planGrouped at plan
  by_cases checks : change = .set ∧ coordinated = true
  · rw [if_pos checks] at plan
    obtain ⟨_, batch, plan⟩ := except_bind_ok plan
    exact ⟨fun _ _ => mapError_ok batch, finish plan⟩
  · rw [if_neg checks] at plan
    exact ⟨fun isSet told => absurd ⟨isSet, told⟩ checks, finish plan⟩

theorem planReplace_ok {s : ServerState} {upserts deletes : List Item} {first : Item}
    {mode : EdgeApplyMode} {cascades : List Item}
    (plan : planReplace ctx s true upserts deletes first mode = .ok cascades) :
    (s.view ctx).preflightReplaceBatch upserts (effectiveDeletes s deletes) mode = .ok () ∧
    ∀ item ∈ effectiveDeletes s deletes, ∃ planned ⊆ cascades,
      (s.view ctx).endpointDeletePlan ⟨item.entityType, item.id⟩ = .ok planned := by
  unfold planReplace at plan
  simp only [↓reduceIte] at plan
  obtain ⟨plans, planned, plan⟩ := except_bind_ok plan
  obtain ⟨_, batch, plan⟩ := except_bind_ok plan
  cases plan
  refine ⟨mapError_ok batch, fun item member => ?_⟩
  obtain ⟨edges, listed, plan⟩ := mapM_ok planned item member
  exact ⟨edges, fun _ edge => List.mem_flatten_of_mem listed edge, mapError_ok plan⟩

theorem firstRepeated_none {items : List Item} {seen : List (String × String)}
    (h : firstRepeated items seen = none) :
    (items.map fun item => (item.entityType, item.id)).Nodup ∧
      ∀ item ∈ items, (item.entityType, item.id) ∉ seen := by
  induction items generalizing seen with
  | nil => simp
  | cons item rest ih =>
    rw [firstRepeated] at h
    split at h
    · cases h
    · rename_i fresh
      obtain ⟨nodup, unseen⟩ := ih h
      have apart : (item.entityType, item.id) ∉ rest.map fun item => (item.entityType, item.id) := by
        intro member
        obtain ⟨other, listed, same⟩ := List.mem_map.mp member
        exact unseen other listed (same ▸ List.mem_cons_self)
      refine ⟨List.nodup_cons.mpr ⟨apart, nodup⟩, fun other member => ?_⟩
      rcases List.mem_cons.mp member with rfl | member
      · exact fresh
      · exact fun before => unseen other member (List.mem_cons_of_mem _ before)

/-- A replacement that is planned names every entity once. -/
theorem replace_nodup {s : ServerState} {pending : PendingMutation} {upserts deletes : List Item}
    {expected : Option Nat} (kind : pending.kind = .replace upserts deletes expected)
    {result : Option (List Item)} (plan : planPending ctx s pending = .ok result) :
    ((deletes ++ upserts).map fun item => (item.entityType, item.id)).Nodup := by
  unfold planPending at plan
  rw [kind] at plan
  dsimp only at plan
  cases repeated : firstRepeated (deletes ++ upserts) [] with
  | none => exact (firstRepeated_none repeated).1
  | some item =>
    rw [repeated] at plan
    cases named : upserts.head?.or deletes.head? with
    | none => cases upserts <;> cases deletes <;> simp_all
    | some first =>
      rw [named] at plan
      cases plan

theorem mem_changesOf {s : ServerState} {pending : PendingMutation} {change : Change}
    (member : change ∈ changesOf s pending) :
    (∃ items, pending.kind = .uniform items change.kind ∧ change.item ∈ items) ∨
      ∃ upserts deletes expected, pending.kind = .replace upserts deletes expected ∧
        ((change.kind = .del ∧ change.item ∈ effectiveDeletes s deletes) ∨
          (change.kind = .set ∧ change.item ∈ upserts)) := by
  unfold changesOf at member
  cases kind : pending.kind with
  | uniform items uniform =>
    rw [kind] at member
    obtain ⟨item, listed, rfl⟩ := List.mem_map.mp member
    exact .inl ⟨items, rfl, (groupByType_perm items).mem_iff.mp listed⟩
  | replace upserts deletes expected =>
    rw [kind] at member
    refine .inr ⟨upserts, deletes, expected, rfl, ?_⟩
    rcases List.mem_append.mp member with member | member
    · obtain ⟨item, listed, rfl⟩ := List.mem_map.mp member
      exact .inl ⟨rfl, listed⟩
    · obtain ⟨item, listed, rfl⟩ := List.mem_map.mp member
      exact .inr ⟨rfl, listed⟩

theorem mem_items_of_change {s : ServerState} {pending : PendingMutation} {change : Change}
    (member : change ∈ changesOf s pending) : change.item ∈ pending.items := by
  unfold PendingMutation.items
  rcases mem_changesOf member with ⟨items, kind, listed⟩ | ⟨upserts, deletes, expected, kind, listed⟩
  · rw [kind]
    exact listed
  · rw [kind]
    rcases listed with ⟨-, deleted⟩ | ⟨-, put⟩
    · exact List.mem_append_right _ (List.mem_filter.mp deleted).1
    · exact List.mem_append_left _ put

/-- Outside the graph there are no registered edges. -/
theorem told_of_registered {s : ServerState} {pending : PendingMutation} {change : Change}
    (member : change ∈ changesOf s pending)
    (registered : (ctx.schema.registration change.item.entityType).isSome) :
    coordinatedOf ctx pending = true := by
  unfold coordinatedOf
  rcases mem_changesOf member with ⟨items, kind, listed⟩ | ⟨upserts, deletes, expected, kind, listed⟩
  · rw [kind]
    exact List.any_eq_true.mpr ⟨_, listed, GraphSchema.coordinates_of_registered registered⟩
  · rw [kind]
    unfold replaceCoordinated
    rw [Bool.or_eq_true]
    rcases listed with ⟨-, listed⟩ | ⟨-, listed⟩
    · exact .inl (List.any_eq_true.mpr ⟨_, (List.mem_filter.mp listed).1,
        GraphSchema.coordinates_of_registered registered⟩)
    · exact .inr (List.any_eq_true.mpr ⟨_, listed, GraphSchema.coordinates_of_registered registered⟩)

theorem effective_of_preflight {s : ServerState} {change : MEventType} {item : Item}
    {mode : EdgeApplyMode}
    (checked : (s.view ctx).preflight (s.registry.canonicalItem item) (newValue change item) mode =
      .ok ()) : Effective s.registry ⟨change, item⟩ := by
  intro nothing
  unfold GraphView.preflight GraphView.preflightIgnoring newValue at checked
  rw [nothing] at checked
  cases checked

/-- Each item of a uniform mutation that is planned has a plan of its own. -/
theorem planItem_of_plan {s : ServerState} {pending : PendingMutation} {items : List Item} {change : MEventType}
    (kind : pending.kind = .uniform items change) {cascades : Option (List Item)}
    (plan : planPending ctx s pending = .ok cascades) {item : Item} (listed : item ∈ items) :
    ∃ planned, planItem ctx s (coordinatedOf ctx pending) change pending.mode item = .ok planned := by
  unfold planPending at plan
  rw [kind] at plan
  match items, listed with
  | [only], listed =>
    obtain rfl := List.mem_singleton.mp listed
    obtain ⟨planned, plan, -⟩ := except_map_ok plan
    exact ⟨planned, plan⟩
  | first :: second :: rest, listed =>
    obtain ⟨_, plan, -⟩ := except_map_ok plan
    obtain ⟨planned, -, plan⟩ := (planGrouped_ok plan).2 item listed
    exact ⟨planned, plan⟩

/-- What was planned can be brought to the index. -/
theorem ready_of_plan {s : ServerState} {pending : PendingMutation} {cascades : List Item}
    (plan : planPending ctx s pending = .ok (some cascades)) :
    ∀ change ∈ changesOf s pending, Ready ctx s.registry (coordinatedOf ctx pending) change := by
  intro change member
  refine ⟨told_of_registered member, fun told => ?_⟩
  obtain ⟨kind, origin, mode, depth, chain⟩ := pending
  cases kind with
  | uniform items uniform =>
    unfold changesOf at member
    obtain ⟨item, listed, rfl⟩ := List.mem_map.mp member
    have named := (groupByType_perm items).mem_iff.mp listed
    obtain ⟨planned, own⟩ := planItem_of_plan rfl plan named
    rw [told] at own
    exact effective_of_preflight (planItem_ok own).2
  | replace upserts deletes expected =>
    unfold changesOf at member
    rcases List.mem_append.mp member with member | member
    · obtain ⟨item, listed, rfl⟩ := List.mem_map.mp member
      have present := (List.mem_filter.mp listed).2
      simpa [Effective, Change.value, Option.isSome_iff_ne_none] using present
    · obtain ⟨item, -, rfl⟩ := List.mem_map.mp member
      simp [Effective, Change.value]

/-! ### What a write leaves -/

/-- The combinations an item stands for, by the type that is ensured. -/
def reservationsOf (ctx : MykoServerContext) (item : Item) : List (String × List String) :=
  ctx.tables.ensureForByDependency.filterMap fun entry =>
    if entry.2.localType = item.entityType then
      (entry.2.combination item).map fun combo => (entry.2.localType, combo)
    else none

/-- What is left of the reservations once a mutation is written: an item put on its own frees its own. -/
def unreserved (ctx : MykoServerContext) (inFlight : List (String × List String)) :
    PendingMutationKind → List (String × List String)
  | .uniform [item] .set => inFlight.filter fun key => !(reservationsOf ctx item).contains key
  | _ => inFlight

theorem reduceOne_run (ctx : MykoServerContext) (change : Change) (s : ServerState) : ∃ t,
    reduceOne ctx change s = .ok () t ∧ Writes s t ∧ t.registry = s.registry.write change ∧
      t.graph = s.graph ∧ t.watches = s.watches ∧ t.offered = s.offered ∧
      t.relations.ensureForInFlight =
        unreserved ctx s.relations.ensureForInFlight (.uniform [change.item] change.kind) := by
  obtain ⟨kind, item⟩ := change
  unfold reduceOne
  rw [bind_of_ok (modify_eq _ s)]
  cases kind with
  | set =>
    refine ⟨_, rfl, ⟨rfl, rfl, rfl, rfl, rfl, rfl, rfl, rfl, rfl⟩, rfl, rfl, rfl, rfl, ?_⟩
    refine List.filter_congr fun key _ => ?_
    simp [reservationsOf]
  | del => exact ⟨_, rfl, ⟨rfl, rfl, rfl, rfl, rfl, rfl, rfl, rfl, rfl⟩, rfl, rfl, rfl, rfl, rfl⟩

/-- The writes of a replacement may be made type by type. -/
theorem replaceWrites_eq (registry : StoreRegistry) {upserts deletes : List Item}
    (nodup : ((deletes ++ upserts).map fun item => (item.entityType, item.id)).Nodup) :
    (entityTypes (deletes ++ upserts)).foldl
      (fun registry entityType => registry.writeAll (replaceWrites upserts deletes entityType)) registry =
    registry.writeAll (deletes.map (Change.mk .del) ++ upserts.map (Change.mk .set)) := by
  let changes := deletes.map (Change.mk .del) ++ upserts.map (Change.mk .set)
  have grouped : ∀ entityType, replaceWrites upserts deletes entityType =
      changes.filter fun change => change.item.entityType = entityType := by
    intro entityType
    simp [changes, replaceWrites, ofType, List.filter_map, Function.comp_def]
  have flat : (entityTypes (deletes ++ upserts)).foldl
      (fun registry entityType => registry.writeAll (replaceWrites upserts deletes entityType)) registry =
      registry.writeAll ((entityTypes (deletes ++ upserts)).flatMap fun entityType =>
        changes.filter fun change => change.item.entityType = entityType) := by
    rw [List.flatMap_def, ← writeAll_flatten, List.foldl_map]
    simp only [grouped]
  have keys : changes.map Change.key =
      (deletes ++ upserts).map fun item => (item.entityType, item.id) := by
    simp [changes, Change.key, Function.comp_def]
  have perm := flatMap_filter_perm (fun change : Change => change.item.entityType)
    (entityTypes_nodup (deletes ++ upserts)) changes (by
      intro change member
      rw [mem_entityTypes]
      rcases List.mem_append.mp member with member | member
      · obtain ⟨item, listed, rfl⟩ := List.mem_map.mp member
        exact ⟨item, List.mem_append_left _ listed, rfl⟩
      · obtain ⟨item, listed, rfl⟩ := List.mem_map.mp member
        exact ⟨item, List.mem_append_right _ listed, rfl⟩)
  rw [flat]
  refine writeAll_perm perm ?_ registry
  rw [(perm.map Change.key).nodup_iff, keys]
  exact nodup

/-- What a mutation leaves once its writes have begun. -/
structure Applied (ctx : MykoServerContext) (s : ServerState) (pending : PendingMutation)
    (t : ServerState) : Prop extends Writes s t where
  registry : t.registry = s.registry.writeAll (changesOf s pending)
  graph : (∀ change ∈ changesOf s pending, ChangeExtracts ctx.schema s.registry change) →
    t.graph = reindexChanges ctx.schema s.registry s.graph
      (processed ctx pending.origin s.offered (changesOf s pending))

/-- What it leaves when nothing fails. -/
structure Committed (ctx : MykoServerContext) (s : ServerState) (pending : PendingMutation)
    (t : ServerState) : Prop extends Writes s t where
  registry : t.registry = s.registry.writeAll (changesOf s pending)
  extracts : ∀ change ∈ changesOf s pending, ChangeExtracts ctx.schema s.registry change
  graph : t.graph = reindexChanges ctx.schema s.registry s.graph (changesOf s pending)
  watches : publishWatchChanges ctx.schema (watchChanges ctx s.registry (changesOf s pending)) s.watches =
    .ok t.watches
  ensureForInFlight : t.relations.ensureForInFlight =
    unreserved ctx s.relations.ensureForInFlight pending.kind

/-- Telling the watches of one change is telling them of a batch of one. -/
theorem publishWatchChange_eq (old new : Option Item) (watches : List GraphWatch) :
    publishWatchChange ctx.schema old new watches =
      publishWatchChanges ctx.schema [(old, new)] watches := by
  unfold publishWatchChange publishWatchChanges
  split
  · rfl
  · cases diff : watchDiffFromChange ctx.schema old new <;> simp [diff]

theorem publishWatchChanges_nil (watches : List GraphWatch) :
    publishWatchChanges ctx.schema [] watches = .ok watches := by
  unfold publishWatchChanges
  split <;> rfl

theorem publishWatchChanges_unwatched (changes : List (Option Item × Option Item))
    {watches : List GraphWatch} (none : hasWatchSubscribers watches = false) :
    publishWatchChanges ctx.schema changes watches = .ok watches := by
  unfold publishWatchChanges
  rw [none]
  rfl

theorem processed_singleton (origin : Origin) (offered : List Change) (change : Change) :
    processed ctx origin offered [change] = [change] := by
  unfold processed
  cases offer ctx origin offered change with
  | none => rfl
  | some result => cases result <;> rfl

theorem moves_watchIf {p : Prop} [Decidable p] (item : Item)
    (publish : List GraphWatch → Except String (List GraphWatch)) :
    Moves Watching Watching (if p then liftWatches item publish else pure ()) :=
  Moves.ite (fun _ => moves_liftWatches item publish) fun _ => Moves.pure watching_frame _

/-! One lemma for each way of writing: an item, a batch, a replacement. -/

section
variable {s : ServerState} {cascades : List Item} {origin : Origin} {mode : EdgeApplyMode} {depth : Nat}
  {chain : List String}

theorem changesOf_single (s : ServerState) (item : Item) (change : MEventType) (origin : Origin)
    (mode : EdgeApplyMode) (depth : Nat) (chain : List String) :
    changesOf s ⟨.uniform [item] change, origin, mode, depth, chain⟩ = [⟨change, item⟩] := by
  simp [changesOf, groupByType_singleton]

/-- Stores written, then the index and the persisters told, then the watches, whatever fails on the way. -/
structure Told (ctx : MykoServerContext) (s : ServerState) (pending : PendingMutation)
    (written t : ServerState) : Prop extends Writes s written where
  graph : written.graph = s.graph
  offered : written.offered = s.offered
  registry : written.registry = s.registry.writeAll (changesOf s pending)
  ensureForInFlight : written.relations.ensureForInFlight =
    unreserved ctx s.relations.ensureForInFlight pending.kind
  watching : Watching (final (each (indexAndPersist ctx s.registry (coordinatedOf ctx pending)
    pending.origin) (changesOf s pending)) written) t

theorem Told.applied {pending : PendingMutation} {written t : ServerState} (told : Told ctx s pending written t)
    (plan : planPending ctx s pending = .ok (some cascades)) : Applied ctx s pending t := by
  have indexing := (moves_indexAndPersist ctx s.registry (coordinatedOf ctx pending)
    pending.origin (changesOf s pending)).final written
  refine ⟨(told.toWrites.trans indexing.toWrites).trans told.watching.toWrites, ?_, fun extracts => ?_⟩
  · rw [told.watching.registry, indexing.registry, told.registry]
  · rw [told.watching.graph, final_indexAndPersist (ready_of_plan plan) extracts, told.graph, told.offered]

theorem Told.inFlight {pending : PendingMutation} {written t : ServerState} (told : Told ctx s pending written t) :
    t.relations.ensureForInFlight = unreserved ctx s.relations.ensureForInFlight pending.kind := by
  have indexing := (moves_indexAndPersist ctx s.registry (coordinatedOf ctx pending)
    pending.origin (changesOf s pending)).final written
  rw [told.watching.ensureForInFlight, indexing.ensureForInFlight, told.ensureForInFlight]

theorem told_single (s : ServerState) (item : Item) (change : MEventType) (origin : Origin)
    (mode : EdgeApplyMode) (depth : Nat) (chain : List String) :
    ∃ written, Told ctx s ⟨.uniform [item] change, origin, mode, depth, chain⟩ written
      (final (applyPending ctx s ⟨.uniform [item] change, origin, mode, depth, chain⟩) s) := by
  obtain ⟨written, reduced, writes, registry, graph, -, offered, reserved⟩ :=
    reduceOne_run ctx ⟨change, item⟩ s
  refine ⟨written, writes, graph, offered, ?_, reserved, ?_⟩
  · rw [changesOf_single]
    exact registry
  rw [changesOf_single]
  unfold applyPending
  dsimp only
  rw [final_bind, reduced, each, indexAndPersist]
  dsimp only
  rw [bind_assoc, final_bind, final_bind]
  cases indexItem ctx s.registry
    (coordinatedOf ctx ⟨.uniform [item] change, origin, mode, depth, chain⟩) ⟨change, item⟩ written with
  | error error t => exact watching_frame.refl t
  | ok _ t =>
    dsimp only
    have persisted : final (do
        persistItem ctx origin ⟨change, item⟩
        each (indexAndPersist ctx s.registry
          (coordinatedOf ctx ⟨.uniform [item] change, origin, mode, depth, chain⟩) origin) []) t =
        final (persistItem ctx origin ⟨change, item⟩) t := by
      rw [final_bind]
      unfold final
      cases persistItem ctx origin ⟨change, item⟩ t <;> rfl
    rw [final_both, persisted]
    exact (moves_watchIf _ _).final _

theorem told_grouped (s : ServerState) (first second : Item) (rest : List Item) (change : MEventType)
    (origin : Origin) (mode : EdgeApplyMode) (depth : Nat) (chain : List String) :
    ∃ written, Told ctx s ⟨.uniform (first :: second :: rest) change, origin, mode, depth, chain⟩ written
      (final (applyPending ctx s
        ⟨.uniform (first :: second :: rest) change, origin, mode, depth, chain⟩) s) := by
  let written : ServerState := { s with
    registry := (groupByType (first :: second :: rest)).foldl
      (fun registry group => registry.writeAll (group.map (Change.mk change))) s.registry }
  have writes : Writes s written := ⟨rfl, rfl, rfl, rfl, rfl, rfl, rfl, rfl, rfl⟩
  refine ⟨written, writes, rfl, rfl, ?_, rfl, ?_⟩
  · change (groupByType _).foldl _ s.registry = s.registry.writeAll ((groupByType _).flatten.map _)
    rw [List.map_flatten, ← writeAll_flatten, List.foldl_map]
  unfold applyPending
  dsimp only
  rw [final_bind, modify_eq]
  dsimp only
  rw [final_both]
  exact (Moves.ite (fun _ => Moves.pure watching_frame _) fun _ => moves_liftWatches _ _ :
    Moves Watching Watching _).final _

theorem told_replace {upserts deletes : List Item} {expected : Option Nat}
    (plan : planPending ctx s ⟨.replace upserts deletes expected, origin, mode, depth, chain⟩ =
      .ok (some cascades)) :
    ∃ written, Told ctx s ⟨.replace upserts deletes expected, origin, mode, depth, chain⟩ written
      (final (applyPending ctx s ⟨.replace upserts deletes expected, origin, mode, depth, chain⟩) s) := by
  have distinct := replace_nodup rfl plan
  have nodup : ((effectiveDeletes s deletes ++ upserts).map fun item => (item.entityType, item.id)).Nodup :=
    distinct.sublist ((List.filter_sublist.append_right upserts).map _)
  cases named : upserts.head?.or deletes.head? with
  | none =>
    have none : upserts = [] ∧ deletes = [] := by
      cases upserts <;> cases deletes <;> simp_all
    obtain ⟨rfl, rfl⟩ := none
    exact ⟨s, Writes.refl s, rfl, rfl, rfl, rfl, watching_frame.refl s⟩
  | some first =>
    let written : ServerState := { s with
      registry := (entityTypes (effectiveDeletes s deletes ++ upserts)).foldl
        (fun registry entityType =>
          registry.writeAll (replaceWrites upserts (effectiveDeletes s deletes) entityType)) s.registry }
    have writes : Writes s written := ⟨rfl, rfl, rfl, rfl, rfl, rfl, rfl, rfl, rfl⟩
    refine ⟨written, writes, rfl, rfl, replaceWrites_eq s.registry nodup, rfl, ?_⟩
    unfold applyPending
    dsimp only
    rw [named]
    dsimp only
    rw [final_bind, modify_eq]
    dsimp only
    rw [final_bind]
    unfold changesOf final
    dsimp only
    cases each (indexAndPersist ctx s.registry _ origin) _ written with
    | error error t => exact watching_frame.refl t
    | ok _ t => exact (moves_watchIf _ _).final _

theorem told_of_plan {pending : PendingMutation} (plan : planPending ctx s pending = .ok (some cascades)) :
    ∃ written, Told ctx s pending written (final (applyPending ctx s pending) s) := by
  obtain ⟨kind, origin, mode, depth, chain⟩ := pending
  cases kind with
  | uniform items change =>
    match items with
    | [] => exact ⟨s, Writes.refl s, rfl, rfl, rfl, rfl, watching_frame.refl s⟩
    | [item] => exact told_single s item change origin mode depth chain
    | first :: second :: rest => exact told_grouped s first second rest change origin mode depth chain
  | replace upserts deletes expected => exact told_replace plan

/-- Whatever fails on the way, the stores hold all writes of a planned mutation, and the index those
that were processed. -/
theorem applied_of_plan {pending : PendingMutation}
    (plan : planPending ctx s pending = .ok (some cascades)) :
    Applied ctx s pending (final (applyPending ctx s pending) s) := by
  obtain ⟨written, told⟩ := told_of_plan plan
  exact told.applied plan

/-- So do the reservations: they are freed before anything can fail. -/
theorem inFlight_of_plan {pending : PendingMutation} (plan : planPending ctx s pending = .ok (some cascades)) :
    (final (applyPending ctx s pending) s).relations.ensureForInFlight =
      unreserved ctx s.relations.ensureForInFlight pending.kind := by
  obtain ⟨written, told⟩ := told_of_plan plan
  exact told.inFlight

theorem liftWatches_ok {item : Item} {publish : List GraphWatch → Except String (List GraphWatch)}
    {t u : ServerState} (run : liftWatches item publish t = .ok () u) :
    publish t.watches = .ok u.watches := by
  rw [liftWatches_eq] at run
  cases published : publish t.watches with
  | error error =>
    rw [published] at run
    cases run
  | ok watches =>
    rw [published] at run
    cases run
    rfl

/-- Whether or not a mutation bothers to tell the watches, they hold what telling them gives. -/
theorem watched_of_ok {pending : PendingMutation} (item : Item) {t u : ServerState}
    (same : t.watches = s.watches) {watch : List (Option Item × Option Item)}
    (told : watch = if coordinatedOf ctx pending && hasWatchSubscribers s.watches then
      watchChanges ctx s.registry (changesOf s pending) else [])
    (run : (if watch.isEmpty then pure () else
      liftWatches item (publishWatchChanges ctx.schema watch) : ServerM Unit) t = .ok () u) :
    publishWatchChanges ctx.schema (watchChanges ctx s.registry (changesOf s pending)) s.watches =
      .ok u.watches := by
  cases watched : hasWatchSubscribers s.watches with
  | false =>
    rw [watched, Bool.and_false] at told
    subst told
    obtain ⟨-, rfl⟩ := pure_ok run
    rw [publishWatchChanges_unwatched _ watched, same]
  | true =>
    have changes : watch = watchChanges ctx s.registry (changesOf s pending) := by
      rw [told, watched, Bool.and_true]
      split
      · rfl
      · rename_i uncoordinated
        symm
        rw [watchChanges, List.map_eq_nil_iff, List.filter_eq_nil_iff]
        exact fun change member registered => uncoordinated (told_of_registered member registered)
    rw [← changes]
    cases watch with
    | nil =>
      obtain ⟨-, rfl⟩ := pure_ok run
      rw [publishWatchChanges_nil, same]
    | cons first rest =>
      rw [← same]
      exact liftWatches_ok run

theorem committed_of_told {pending : PendingMutation}
    (plan : planPending ctx s pending = .ok (some cascades)) {written mid t : ServerState}
    (told : each (indexAndPersist ctx s.registry (coordinatedOf ctx pending) pending.origin)
      (changesOf s pending) written = .ok () mid)
    (writes : Writes s written) (graph : written.graph = s.graph)
    (registry : written.registry = s.registry.writeAll (changesOf s pending))
    (reserved : written.relations.ensureForInFlight =
      unreserved ctx s.relations.ensureForInFlight pending.kind)
    (watching : Watching mid t)
    (watches : publishWatchChanges ctx.schema (watchChanges ctx s.registry (changesOf s pending))
      s.watches = .ok t.watches) : Committed ctx s pending t := by
  have indexing := (moves_indexAndPersist ctx s.registry (coordinatedOf ctx pending)
    pending.origin (changesOf s pending)).ok told
  obtain ⟨extracts, indexed⟩ := indexAndPersist_ok (ready_of_plan plan) told
  refine ⟨(writes.trans indexing.toWrites).trans watching.toWrites, ?_, extracts, ?_, watches, ?_⟩
  · rw [watching.registry, indexing.registry, registry]
  · rw [watching.graph, indexed, graph]
  · rw [watching.ensureForInFlight, indexing.ensureForInFlight, reserved]

theorem committed_single {item : Item} {change : MEventType} {t : ServerState}
    (plan : planPending ctx s ⟨.uniform [item] change, origin, mode, depth, chain⟩ =
      .ok (some cascades))
    (run : applyPending ctx s ⟨.uniform [item] change, origin, mode, depth, chain⟩ s = .ok () t) :
    Committed ctx s ⟨.uniform [item] change, origin, mode, depth, chain⟩ t := by
  obtain ⟨written, reduced, writes, registry, graph, watches, -, reserved⟩ :=
    reduceOne_run ctx ⟨change, item⟩ s
  unfold applyPending at run
  dsimp only at run
  rw [bind_of_ok reduced] at run
  obtain ⟨_, indexed, index, run⟩ := bind_ok run
  obtain ⟨mid, persisted, watched⟩ := both_ok run
  have told : each (indexAndPersist ctx s.registry
      (coordinatedOf ctx ⟨.uniform [item] change, origin, mode, depth, chain⟩) origin)
      [⟨change, item⟩] written = .ok () mid := by
    rw [each, indexAndPersist, bind_assoc, bind_of_ok index, bind_of_ok persisted]
    rfl
  have unwatched : mid.watches = s.watches := by
    rw [((moves_indexAndPersist ctx s.registry _ origin [⟨change, item⟩]).ok told).watches,
      watches]
  rw [← changesOf_single s item change origin mode depth chain] at told
  refine committed_of_told plan told writes graph ?_ reserved ((moves_watchIf _ _).ok watched) ?_
  · rw [changesOf_single]
    exact registry
  · refine watched_of_ok item unwatched rfl ?_
    rw [changesOf_single, ← watched]
    have publish : publishWatchChange ctx.schema (s.registry.canonicalItem item) (newValue change item) =
        publishWatchChanges ctx.schema [(s.registry.canonicalItem item, newValue change item)] :=
      funext (publishWatchChange_eq _ _)
    rw [publish]
    cases watching : coordinatedOf ctx ⟨.uniform [item] change, origin, mode, depth, chain⟩ &&
        hasWatchSubscribers s.watches with
    | false => simp
    | true =>
      cases registered : (ctx.schema.registration item.entityType).isSome with
      | false => simp [watchChanges, registered]
      | true => simp [watchChanges, registered, newValue]

theorem committed_grouped {first second : Item} {rest : List Item} {change : MEventType}
    {t : ServerState}
    (plan : planPending ctx s ⟨.uniform (first :: second :: rest) change, origin, mode, depth, chain⟩ =
      .ok (some cascades))
    (run : applyPending ctx s
      ⟨.uniform (first :: second :: rest) change, origin, mode, depth, chain⟩ s = .ok () t) :
    Committed ctx s ⟨.uniform (first :: second :: rest) change, origin, mode, depth, chain⟩ t := by
  unfold applyPending at run
  dsimp only at run
  rw [bind_of_ok (modify_eq _ s)] at run
  obtain ⟨mid, told, watched⟩ := both_ok run
  have unwatched := ((moves_indexAndPersist ctx s.registry _ origin _).ok told).watches
  refine committed_of_told plan told ⟨rfl, rfl, rfl, rfl, rfl, rfl, rfl, rfl, rfl⟩ rfl ?_ ?_
    ?_ (watched_of_ok first unwatched rfl watched)
  · change (groupByType _).foldl _ s.registry = s.registry.writeAll ((groupByType _).flatten.map _)
    rw [List.map_flatten, ← writeAll_flatten, List.foldl_map]
  · rfl
  · exact (Moves.ite (fun _ => Moves.pure watching_frame _) fun _ => moves_liftWatches _ _ :
      Moves Watching Watching _).ok watched

theorem committed_replace {upserts deletes : List Item} {expected : Option Nat} {t : ServerState}
    (plan : planPending ctx s ⟨.replace upserts deletes expected, origin, mode, depth, chain⟩ =
      .ok (some cascades))
    (run : applyPending ctx s ⟨.replace upserts deletes expected, origin, mode, depth, chain⟩ s =
      .ok () t) :
    Committed ctx s ⟨.replace upserts deletes expected, origin, mode, depth, chain⟩ t := by
  have distinct := replace_nodup rfl plan
  have nodup : ((effectiveDeletes s deletes ++ upserts).map fun item => (item.entityType, item.id)).Nodup :=
    distinct.sublist ((List.filter_sublist.append_right upserts).map _)
  cases named : upserts.head?.or deletes.head? with
  | none =>
    have none : upserts = [] ∧ deletes = [] := by
      cases upserts <;> cases deletes <;> simp_all
    obtain ⟨rfl, rfl⟩ := none
    obtain ⟨-, rfl⟩ := pure_ok run
    exact ⟨Writes.refl _, rfl, fun _ member => absurd member (by simp [changesOf, effectiveDeletes]), rfl,
      publishWatchChanges_nil _, rfl⟩
  | some first =>
    unfold applyPending at run
    dsimp only at run
    rw [named] at run
    dsimp only at run
    rw [bind_of_ok (modify_eq _ s)] at run
    obtain ⟨_, mid, told, watched⟩ := bind_ok run
    have unwatched := ((moves_indexAndPersist ctx s.registry _ origin _).ok told).watches
    refine committed_of_told plan told ⟨rfl, rfl, rfl, rfl, rfl, rfl, rfl, rfl, rfl⟩ rfl
      (replaceWrites_eq s.registry nodup) rfl ((moves_watchIf _ _).ok watched) ?_
    refine watched_of_ok first unwatched rfl ?_
    have flip : ∀ watch : List (Option Item × Option Item),
        (if watch.isEmpty then pure () else
          liftWatches first (publishWatchChanges ctx.schema watch) : ServerM Unit) =
        if !watch.isEmpty then liftWatches first (publishWatchChanges ctx.schema watch) else pure () := by
      intro watch
      cases watch <;> rfl
    rw [flip]
    exact watched

/-- A mutation whose commit goes through leaves stores, index and watches with all its writes. -/
theorem committed_of_ok {pending : PendingMutation} {t : ServerState}
    (plan : planPending ctx s pending = .ok (some cascades))
    (run : applyPending ctx s pending s = .ok () t) : Committed ctx s pending t := by
  obtain ⟨kind, origin, mode, depth, chain⟩ := pending
  cases kind with
  | uniform items change =>
    match items with
    | [] =>
      obtain ⟨-, rfl⟩ := pure_ok run
      exact ⟨Writes.refl _, rfl, fun _ member => absurd member (by simp [changesOf, groupByType_nil]),
        rfl, publishWatchChanges_nil _, rfl⟩
    | [item] => exact committed_single plan run
    | first :: second :: rest => exact committed_grouped plan run
  | replace upserts deletes expected => exact committed_replace plan run

end

/-! ### The three ways a commit ends -/

theorem commitPending_ok {pending : PendingMutation} {s t : ServerState} {result : Option (List Item)}
    (run : commitPending ctx pending s = .ok result t) :
    planPending ctx s pending = .ok result ∧
      (match result with
        | none => t = s
        | some _ => Committed ctx s pending t) := by
  rw [commitPending_eq] at run
  cases plan : planPending ctx s pending with
  | error error =>
    rw [plan] at run
    cases run
  | ok planned =>
    rw [plan] at run
    cases planned with
    | none =>
      cases run
      exact ⟨rfl, rfl⟩
    | some cascades =>
      obtain ⟨_, u, applied, run⟩ := bind_ok run
      obtain ⟨rfl, rfl⟩ := pure_ok run
      exact ⟨rfl, committed_of_ok plan applied⟩

/-- Either nothing was written, or everything was. -/
theorem commitPending_final (ctx : MykoServerContext) (pending : PendingMutation) (s : ServerState) :
    (final (commitPending ctx pending) s = s ∧
      ∀ cascades, planPending ctx s pending ≠ .ok (some cascades)) ∨
    ∃ cascades, planPending ctx s pending = .ok (some cascades) ∧
      Applied ctx s pending (final (commitPending ctx pending) s) := by
  have run := commitPending_eq ctx pending s
  cases plan : planPending ctx s pending with
  | error error =>
    rw [plan] at run
    exact .inl ⟨final_of_error run, fun _ => by simp⟩
  | ok planned =>
    rw [plan] at run
    cases planned with
    | none => exact .inl ⟨final_of_ok run, fun _ => by simp⟩
    | some cascades =>
      refine .inr ⟨cascades, rfl, ?_⟩
      have applied := applied_of_plan plan
      have same : final (commitPending ctx pending) s = final (applyPending ctx s pending) s := by
        unfold final
        rw [run]
        dsimp only
        rw [bind_eq]
        cases applyPending ctx s pending s <;> rfl
      rw [same]
      exact applied

end Myko

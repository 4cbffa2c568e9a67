import Myko.Server.Submit

/-!
What each stage of the pipeline leaves alone. Relationship work keeps to its own indexes and to what
it submits; a submission inside a root only queues.
-/

namespace Myko
open StateError

/-- The canonical part of a state: the stores and what the graph index makes of them. -/
structure SameCore (s t : ServerState) : Prop where
  registry : t.registry = s.registry
  graph : t.graph = s.graph
  applyModes : t.applyModes = s.applyModes
  watches : t.watches = s.watches

theorem SameCore.refl (s : ServerState) : SameCore s s := ⟨rfl, rfl, rfl, rfl⟩

theorem SameCore.trans {s t u : ServerState} (h₁ : SameCore s t) (h₂ : SameCore t u) : SameCore s u :=
  ⟨h₂.registry.trans h₁.registry, h₂.graph.trans h₁.graph, h₂.applyModes.trans h₁.applyModes,
    h₂.watches.trans h₁.watches⟩

/-- Only the indexes of relationships and of search, the sink and the supply of ids may differ. -/
structure Aside (s t : ServerState) : Prop extends SameCore s t where
  offered : t.offered = s.offered
  causal : t.causal = s.causal
  causalLimits : t.causalLimits = s.causalLimits
  ingestBuffers : t.ingestBuffers = s.ingestBuffers

/-- Of the relationship indexes only the reservations may differ. -/
structure Reserves (s t : ServerState) : Prop extends Aside s t where
  parentByChild : t.relations.parentByChild = s.relations.parentByChild
  childrenByParent : t.relations.childrenByParent = s.relations.childrenByParent

/-- Neither the reservations nor the supply of ids differ. -/
structure Shelves (s t : ServerState) : Prop extends Aside s t where
  ensureForInFlight : t.relations.ensureForInFlight = s.relations.ensureForInFlight
  uuids : t.uuids = s.uuids

namespace RelationIndexes

theorem ensure_inFlight (indexes : RelationIndexes) (registry : StoreRegistry) (lookup : BelongsToLookup) :
    (indexes.ensureBelongsToIndexLoaded registry lookup).ensureForInFlight = indexes.ensureForInFlight := by
  unfold ensureBelongsToIndexLoaded
  split <;> rfl

theorem remove_inFlight (indexes : RelationIndexes) (lookup : BelongsToLookup) (child : String) :
    (indexes.removeBelongsToChild lookup child).ensureForInFlight = indexes.ensureForInFlight := by
  unfold removeBelongsToChild
  split
  · rfl
  · split
    · rfl
    · dsimp only
      split
      · rfl
      · split <;> rfl

theorem index_inFlight (indexes : RelationIndexes) (lookup : BelongsToLookup) (item : Item) :
    (indexes.indexBelongsToChild lookup item).ensureForInFlight = indexes.ensureForInFlight := by
  unfold indexBelongsToChild
  dsimp only
  split
  · exact remove_inFlight indexes lookup item.id
  · exact remove_inFlight indexes lookup item.id

end RelationIndexes

/-- What the pipeline submits of its own accord: deletions, parents that lose a child, one ensured
entity. -/
inductive Derivable : List Item → MEventType → Origin → Prop where
  | cascade (items : List Item) : Derivable items .del .cascade
  | fixup {items : List Item}
    (distinct : (items.map fun item => (item.entityType, item.id)).Nodup) :
    Derivable items .set .relationshipFixup
  | ensure (item : Item) : Derivable [item] .set .cascade

/-- Parents found in one store lose a child under their own ids. -/
theorem fixup_distinct (registry : StoreRegistry) (lookup : OwnsManyLookup) (child : String) :
    (((findParentsContaining registry lookup child).filterMap fun parent =>
      lookup.removeId parent child).map fun item => (item.entityType, item.id)).Nodup := by
  have kept : ∀ parents : List Item,
      ((parents.filterMap fun parent => lookup.removeId parent child).map Item.id).Sublist
        (parents.map Item.id) := by
    intro parents
    induction parents with
    | nil => exact .slnil
    | cons parent rest ih =>
      rw [List.filterMap_cons]
      cases removed : lookup.removeId parent child with
      | none => exact ih.cons _
      | some item =>
        obtain ⟨ids, -, rfl⟩ := Option.map_eq_some_iff.mp removed
        exact ih.cons_cons _
  have found : ((findParentsContaining registry lookup child).map Item.id).Nodup :=
    (registry.snapshot_nodup_ids lookup.localType).sublist (List.filter_sublist.map Item.id)
  have ids := found.sublist (kept _)
  refine List.Nodup.of_map Prod.snd ?_
  rw [List.map_map]
  exact ids

section
variable {R E : ServerState → ServerState → Prop} (frame : Frame R E)
  (reserves : ∀ {s t}, Reserves s t → R s t)
  (reservesFailed : ∀ {s t u}, E s t → Reserves t u → E s u)
include reserves

theorem moves_unreserve (reservation : String × List String) : Moves R E (unreserve reservation) :=
  Moves.modify fun _ => reserves ⟨⟨⟨rfl, rfl, rfl, rfl⟩, rfl, rfl, rfl, rfl⟩, rfl, rfl⟩

theorem moves_indexSearch (change : MEventType) (item : Item) : Moves R E (indexSearch change item) :=
  Moves.modify fun _ => reserves ⟨⟨⟨rfl, rfl, rfl, rfl⟩, rfl, rfl, rfl, rfl⟩, rfl, rfl⟩

variable {submit : Submit}
  (submits : ∀ {items change origin}, Derivable items change origin →
    Moves R E (submit items change origin))
include frame reservesFailed submits

theorem moves_ensureCombination (ctx : MykoServerContext) (lookup : EnsureForLookup)
    (combo : List String) : Moves R E (ensureCombination ctx submit lookup combo) := by
  have reserve : Moves R E (modify fun s => { s with
      relations := { s.relations with
        ensureForInFlight := (lookup.localType, combo) :: s.relations.ensureForInFlight } } :
      ServerM Unit) :=
    Moves.modify fun _ => reserves ⟨⟨⟨rfl, rfl, rfl, rfl⟩, rfl, rfl, rfl, rfl⟩, rfl, rfl⟩
  have draw : Moves R E (modify fun s => { s with uuids := s.uuids + 1 } : ServerM Unit) :=
    Moves.modify fun _ => reserves ⟨⟨⟨rfl, rfl, rfl, rfl⟩, rfl, rfl, rfl, rfl⟩, rfl, rfl⟩
  refine Moves.bind frame (Moves.get frame) fun s => Moves.ite (fun _ => Moves.pure frame _) fun _ => ?_
  refine Moves.bind frame reserve fun _ => ?_
  refine Moves.ite (fun _ => ?_) fun _ => ?_
  · exact Moves.bind frame (moves_unreserve reserves _) fun _ => Moves.pure frame _
  · refine Moves.bind frame draw fun _ => ?_
    refine Moves.attempt_bind frame (submits (.ensure _)) (fun _ => Moves.pure frame _) fun e => ?_
    refine Moves.intro (fun s _ t run => ?_) fun s _ t run a failed => ?_
    · obtain ⟨_, _, _, run⟩ := bind_ok run
      cases run
    · cases run
      exact reservesFailed failed ⟨⟨⟨rfl, rfl, rfl, rfl⟩, rfl, rfl, rfl, rfl⟩, rfl, rfl⟩

theorem moves_ensureCombinations (ctx : MykoServerContext) (lookup : EnsureForLookup)
    (combos existing : List (List String)) :
    Moves R E (ensureCombinations ctx submit lookup combos existing) := by
  induction combos generalizing existing with
  | nil => exact Moves.pure frame _
  | cons combo rest ih =>
    refine Moves.ite (fun _ => ih existing) fun _ => ?_
    exact Moves.bind frame
      (moves_ensureCombination frame reserves reservesFailed submits ctx lookup combo) fun _ => ih _

theorem moves_handleEnsureForType (ctx : MykoServerContext) (entityType : String) :
    Moves R E (handleEnsureForType ctx submit entityType) := by
  refine Moves.each frame fun lookup _ => Moves.bind frame (Moves.get frame) fun s => ?_
  exact moves_ensureCombinations frame reserves reservesFailed submits ctx lookup _ _

end

section
variable {R E : ServerState → ServerState → Prop} (frame : Frame R E)
  (shelves : ∀ {s t}, Shelves s t → R s t)
include frame shelves

omit frame in
theorem moves_modifyRelations {f : RelationIndexes → StoreRegistry → RelationIndexes}
    (keeps : ∀ indexes registry, (f indexes registry).ensureForInFlight = indexes.ensureForInFlight) :
    Moves R E (modifyRelations f) :=
  Moves.modify fun _ => shelves ⟨⟨⟨rfl, rfl, rfl, rfl⟩, rfl, rfl, rfl, rfl⟩, keeps _ _, rfl⟩

theorem moves_findChildrenByFk (lookup : BelongsToLookup) (parent : String) :
    Moves R E (findChildrenByFk lookup parent) := by
  refine Moves.bind frame (moves_modifyRelations shelves fun _ _ => RelationIndexes.ensure_inFlight _ _ _) fun _ => ?_
  refine Moves.bind frame (Moves.get frame) fun s => ?_
  split <;> exact Moves.pure frame _

variable {submit : Submit} (cascades : ∀ items, Moves R E (submit items .del .cascade))
include cascades

omit shelves in
theorem moves_publishDelCascade (items : List Item) (skip : Bool) :
    Moves R E (if !skip then submit items .del .cascade else pure ()) :=
  Moves.ite (fun _ => cascades items) fun _ => Moves.pure frame _

theorem moves_handleBelongsToCascadeBatch (ctx : MykoServerContext) (items : List Item) :
    Moves R E (handleBelongsToCascadeBatch ctx submit items) := by
  unfold handleBelongsToCascadeBatch
  split
  · exact Moves.pure frame _
  · refine Moves.each frame fun lookup _ => Moves.bind frame ?_ fun children => ?_
    · refine Moves.foldlM frame (fun found item => ?_) _ _
      exact Moves.bind frame (moves_findChildrenByFk frame shelves _ _) fun _ => Moves.pure frame _
    · exact moves_publishDelCascade frame cascades _ _

omit shelves in
theorem moves_handleOwnsManyParentDeleteBatch (ctx : MykoServerContext) (items : List Item) :
    Moves R E (handleOwnsManyParentDeleteBatch ctx submit items) := by
  unfold handleOwnsManyParentDeleteBatch
  split
  · exact Moves.pure frame _
  · refine Moves.each frame fun lookup _ => Moves.bind frame (Moves.get frame) fun s => ?_
    exact moves_publishDelCascade frame cascades _ _

omit shelves in
theorem moves_handleEnsureForDeleteBatch (ctx : MykoServerContext) (items : List Item) :
    Moves R E (handleEnsureForDeleteBatch ctx submit items) := by
  unfold handleEnsureForDeleteBatch
  split
  · exact Moves.pure frame _
  · refine Moves.each frame fun lookup _ => Moves.bind frame (Moves.get frame) fun s => ?_
    exact moves_publishDelCascade frame cascades _ _

theorem moves_forwardDelBatch {ctx : MykoServerContext} {items : List Item}
    (fixups : ∀ item ∈ items, Moves R E (handleOwnsManyChildDelete ctx submit item)) :
    Moves R E (forwardDelBatch ctx submit items) := by
  refine Moves.bind frame (moves_handleBelongsToCascadeBatch frame shelves cascades ctx items) fun _ => ?_
  refine Moves.bind frame (moves_handleOwnsManyParentDeleteBatch frame cascades ctx items) fun _ => ?_
  refine Moves.bind frame (moves_handleEnsureForDeleteBatch frame cascades ctx items) fun _ => ?_
  refine Moves.each frame fun item member => ?_
  refine Moves.bind frame (fixups item member) fun _ => ?_
  refine Moves.each frame fun lookup _ => ?_
  exact moves_modifyRelations shelves fun _ _ => RelationIndexes.remove_inFlight _ _ _

omit cascades in
theorem moves_forwardSetBatch {ctx : MykoServerContext} {items : List Item}
    (ensures : ∀ item ∈ items, Moves R E (handleEnsureForType ctx submit item.entityType)) :
    Moves R E (forwardSetBatch ctx submit items) := by
  unfold forwardSetBatch
  split
  · exact Moves.pure frame _
  · refine Moves.bind frame (Moves.each frame fun lookup _ => ?_) fun _ => ?_
    · refine Moves.bind frame ?_ fun _ => Moves.each frame fun item _ => ?_
      · exact moves_modifyRelations shelves fun _ _ => RelationIndexes.ensure_inFlight _ _ _
      · exact moves_modifyRelations shelves fun _ _ => RelationIndexes.index_inFlight _ _ _
    · exact ensures _ List.mem_cons_self

theorem moves_applyEffects {ctx : MykoServerContext} {items : List Item} {change : MEventType} {origin : Origin}
    (fixups : change = .del → origin.shouldCascade = true →
      ∀ item ∈ items, Moves R E (handleOwnsManyChildDelete ctx submit item))
    (ensures : change = .set → origin.shouldCascade = true →
      ∀ item ∈ items, Moves R E (handleEnsureForType ctx submit item.entityType)) :
    Moves R E (applyEffects ctx submit items change origin) := by
  have search : ∀ item, Moves R E (indexSearch change item) := fun item =>
    Moves.modify fun _ => shelves ⟨⟨⟨rfl, rfl, rfl, rfl⟩, rfl, rfl, rfl, rfl⟩, rfl, rfl⟩
  refine Moves.bind frame (Moves.each frame fun item _ => search item) fun _ => ?_
  have produce : Moves R E (if origin.shouldProduce then
      modify fun s => { s with sink := s.sink ++ items.map (Change.mk change) } else pure () :
      ServerM Unit) :=
    Moves.ite (fun _ => Moves.modify fun _ => shelves ⟨⟨⟨rfl, rfl, rfl, rfl⟩, rfl, rfl, rfl, rfl⟩, rfl, rfl⟩)
      fun _ => Moves.pure frame _
  refine Moves.ite (fun cascading => ?_) fun _ => produce
  cases change with
  | set => exact Moves.bind frame (moves_forwardSetBatch frame shelves (ensures rfl cascading)) fun _ => produce
  | del =>
    exact Moves.bind frame (moves_forwardDelBatch frame shelves cascades (fixups rfl cascading)) fun _ => produce

end

section
variable {R E : ServerState → ServerState → Prop} (frame : Frame R E) {submit : Submit}
  (submits : ∀ {items change origin}, Derivable items change origin →
    Moves R E (submit items change origin))
include frame submits

theorem moves_publish {items : List Item} {change : MEventType} {origin : Origin} {skip : Bool}
    (derivable : Derivable items change origin) :
    Moves R E (if !skip then submit items change origin else pure ()) :=
  Moves.ite (fun _ => submits derivable) fun _ => Moves.pure frame _

theorem moves_handleOwnsManyChildDelete (ctx : MykoServerContext) (item : Item) :
    Moves R E (handleOwnsManyChildDelete ctx submit item) := by
  refine Moves.each frame fun lookup _ => Moves.bind frame (Moves.get frame) fun s => ?_
  exact moves_publish frame submits (.fixup (fixup_distinct _ lookup _))

end

/-! ### Submissions inside a root -/

/-- Only the causal transaction may differ, and it stays open or closed. -/
structure Queues (s t : ServerState) : Prop extends SameCore s t where
  relations : t.relations = s.relations
  searchIndex : t.searchIndex = s.searchIndex
  offered : t.offered = s.offered
  sink : t.sink = s.sink
  uuids : t.uuids = s.uuids
  causalLimits : t.causalLimits = s.causalLimits
  ingestBuffers : t.ingestBuffers = s.ingestBuffers
  isSome : t.causal.isSome = s.causal.isSome

theorem Queues.refl (s : ServerState) : Queues s s :=
  ⟨⟨rfl, rfl, rfl, rfl⟩, rfl, rfl, rfl, rfl, rfl, rfl, rfl, rfl⟩

theorem Queues.trans {s t u : ServerState} (h₁ : Queues s t) (h₂ : Queues t u) : Queues s u :=
  ⟨h₁.toSameCore.trans h₂.toSameCore, h₂.relations.trans h₁.relations,
    h₂.searchIndex.trans h₁.searchIndex, h₂.offered.trans h₁.offered, h₂.sink.trans h₁.sink,
    h₂.uuids.trans h₁.uuids, h₂.causalLimits.trans h₁.causalLimits,
    h₂.ingestBuffers.trans h₁.ingestBuffers, h₂.isSome.trans h₁.isSome⟩

theorem queues_frame : Frame Queues Queues := Frame.always Queues.refl Queues.trans

theorem moves_withCausal {α : Type} (first : Item) (step : CausalM α) :
    Moves Queues Queues (withCausal first step) := by
  intro s
  unfold withCausal
  cases causal : s.causal with
  | none => exact Queues.refl s
  | some state =>
    cases run : step state with
    | ok value after =>
      simp only [run]
      exact ⟨⟨rfl, rfl, rfl, rfl⟩, rfl, rfl, rfl, rfl, rfl, rfl, rfl, by simp [causal]⟩
    | error e after =>
      simp only [run]
      exact ⟨⟨rfl, rfl, rfl, rfl⟩, rfl, rfl, rfl, rfl, rfl, rfl, rfl, by simp [causal]⟩

theorem moves_enqueueCausal (ctx : MykoServerContext) (items : List Item) (change : MEventType)
    (origin : Origin) (mode : EdgeApplyMode) :
    Moves Queues Queues (enqueueCausal ctx items change origin mode) := by
  unfold enqueueCausal
  split
  · exact Moves.pure queues_frame _
  · exact Moves.bind queues_frame (Moves.get queues_frame) fun _ => moves_withCausal _ _

theorem moves_submitDerived (ctx : MykoServerContext) (items : List Item) (change : MEventType)
    (origin : Origin) : Moves Queues Queues (submitDerived ctx items change origin) :=
  Moves.bind queues_frame (Moves.get queues_frame) fun _ =>
    Moves.ite (fun _ => moves_enqueueCausal ctx items change origin .authoritative)
      fun _ => Moves.pure queues_frame _

/-! ### Commit and effects -/

/-- The commit of a pending mutation: the deletions its plan asks for, unless it did not apply. -/
def commitPending (ctx : MykoServerContext) (pending : PendingMutation) : ServerM (Option (List Item)) :=
  match pending.kind with
  | .uniform [] _ => pure (some [])
  | .uniform [item] change => some <$> commitOne ctx item change pending.origin pending.mode
  | .uniform (first :: rest) change =>
    some <$> commitGrouped ctx (first :: rest) first change pending.origin pending.mode
  | .replace upserts deletes expected =>
    match upserts.head?.or deletes.head? with
    | none => pure (some [])
    | some first => commitReplace ctx upserts deletes first pending.origin pending.mode expected

/-- The groups whose effects follow a commit made in state `before`. -/
def effectGroups (pending : PendingMutation) (before : ServerState) :
    List (List Item × MEventType) :=
  match pending.kind with
  | .uniform items change => (groupByType items).map fun group => (group, change)
  | .replace upserts deletes _ =>
    (entityTypes (effectiveDeletes before deletes ++ upserts)).flatMap fun entityType =>
      [(ofType entityType (effectiveDeletes before deletes), .del), (ofType entityType upserts, .set)]

def PendingMutation.items (pending : PendingMutation) : List Item :=
  match pending.kind with
  | .uniform items _ => items
  | .replace upserts deletes _ => upserts ++ deletes

def effectsPending (ctx : MykoServerContext) (submit : Submit) (pending : PendingMutation)
    (before : ServerState) (cascades : List Item) : ServerM Unit :=
  if pending.items.isEmpty then pure ()
  else do
    each (fun group => applyEffects ctx submit group.1 group.2 pending.origin)
      (effectGroups pending before)
    submit cascades .del .cascade

theorem groupByType_nil : groupByType [] = [] := rfl

theorem groupByType_singleton (item : Item) : groupByType [item] = [[item]] := by
  simp [groupByType, entityTypes, ofType]

theorem reducePending_eq (ctx : MykoServerContext) (submit : Submit) (pending : PendingMutation) :
    reducePending ctx submit pending = (do
      let before ← get
      match ← commitPending ctx pending with
      | none => return false
      | some cascades =>
        effectsPending ctx submit pending before cascades
        return true) := by
  obtain ⟨kind, origin, mode, depth, chain⟩ := pending
  funext s
  rw [bind_of_ok (get_eq s)]
  cases kind with
  | uniform items change =>
    match items with
    | [] => rfl
    | [item] =>
      simp only [reducePending, emitOne, commitPending, effectsPending, PendingMutation.items,
        effectGroups, groupByType_singleton, List.map_cons, List.map_nil, each, List.isEmpty_cons,
        Bool.false_eq_true, ↓reduceIte, bind_assoc, map_eq_pure_bind, pure_bind]
    | first :: second :: rest =>
      have groups : ∀ groups : List (List Item),
          each (fun group : List Item × MEventType => applyEffects ctx submit group.1 group.2 origin)
            (groups.map fun group => (group, change)) =
          each (fun group => applyEffects ctx submit group change origin) groups := by
        intro groups
        induction groups with
        | nil => rfl
        | cons group rest ih => rw [List.map_cons, each, each, ih]
      simp only [reducePending, emitGrouped, commitPending, effectsPending, PendingMutation.items,
        effectGroups, groups, List.isEmpty_cons, Bool.false_eq_true, ↓reduceIte, bind_assoc,
        map_eq_pure_bind, pure_bind]
  | replace upserts deletes expected =>
    cases named : upserts.head?.or deletes.head? with
    | none =>
      have empty : (upserts ++ deletes).isEmpty = true := by
        cases upserts <;> cases deletes <;> simp_all
      simp [reducePending, emitReplaceGrouped, commitPending, effectsPending, PendingMutation.items,
        named, empty]
    | some first =>
      have inhabited : (upserts ++ deletes).isEmpty = false := by
        cases upserts <;> cases deletes <;> simp_all
      have groups : ∀ entityTypes : List String,
          each (fun group : List Item × MEventType => applyEffects ctx submit group.1 group.2 origin)
            (entityTypes.flatMap fun entityType =>
              [(ofType entityType (effectiveDeletes s deletes), .del), (ofType entityType upserts, .set)]) =
          each (fun entityType => do
            applyEffects ctx submit (ofType entityType (effectiveDeletes s deletes)) .del origin
            applyEffects ctx submit (ofType entityType upserts) .set origin) entityTypes := by
        intro entityTypes
        rw [← each_flatMap]
        congr 1
        funext entityType
        simp [each]
      simp only [reducePending, emitReplaceGrouped, commitPending, effectsPending,
        PendingMutation.items, effectGroups, groups, named, inhabited, Bool.false_eq_true, ↓reduceIte]
      rw [bind_of_ok (get_eq s)]
      refine congrFun (congrArg (commitReplace ctx upserts deletes first origin mode expected >>= ·) ?_) s
      funext result
      cases result with
      | none => rfl
      | some cascades => simp only [bind_assoc]

/-- The items a pending mutation puts. -/
def PendingMutation.puts (pending : PendingMutation) : List Item :=
  match pending.kind with
  | .uniform items .set => items
  | .uniform _ .del => []
  | .replace upserts _ _ => upserts

theorem mem_puts_of_group {pending : PendingMutation} {before : ServerState} {items : List Item} {item : Item}
    (group : (items, .set) ∈ effectGroups pending before) (member : item ∈ items) : item ∈ pending.puts := by
  unfold effectGroups at group
  unfold PendingMutation.puts
  cases kind : pending.kind with
  | uniform all change =>
    rw [kind] at group
    obtain ⟨others, grouped, same⟩ := List.mem_map.mp group
    cases same
    obtain ⟨entityType, -, rfl⟩ := List.mem_map.mp grouped
    exact (List.mem_filter.mp member).1
  | replace upserts deletes expected =>
    rw [kind] at group
    obtain ⟨entityType, -, listed⟩ := List.mem_flatMap.mp group
    simp only [List.mem_cons, Prod.mk.injEq, reduceCtorEq, and_false, and_true, List.not_mem_nil, or_false,
      false_or] at listed
    subst listed
    exact (List.mem_filter.mp member).1

theorem mem_items_of_group {pending : PendingMutation} {before : ServerState} {items : List Item}
    {change : MEventType} {item : Item} (group : (items, change) ∈ effectGroups pending before)
    (member : item ∈ items) : item ∈ pending.items := by
  unfold effectGroups at group
  unfold PendingMutation.items
  cases kind : pending.kind with
  | uniform all change =>
    rw [kind] at group
    obtain ⟨others, grouped, same⟩ := List.mem_map.mp group
    cases same
    obtain ⟨entityType, -, rfl⟩ := List.mem_map.mp grouped
    exact (List.mem_filter.mp member).1
  | replace upserts deletes expected =>
    rw [kind] at group
    obtain ⟨entityType, -, listed⟩ := List.mem_flatMap.mp group
    simp only [List.mem_cons, Prod.mk.injEq, List.not_mem_nil, or_false] at listed
    rcases listed with ⟨rfl, -⟩ | ⟨rfl, -⟩
    · exact List.mem_append_right _ (List.mem_filter.mp (List.mem_filter.mp member).1).1
    · exact List.mem_append_left _ (List.mem_filter.mp member).1

/-- The effects move along what bookkeeping and submissions move along. -/
theorem moves_effectsPending_of {R E : ServerState → ServerState → Prop} (frame : Frame R E)
    (shelves : ∀ {s t}, Shelves s t → R s t) {ctx : MykoServerContext} {submit : Submit}
    (cascades : ∀ items, Moves R E (submit items .del .cascade)) {pending : PendingMutation}
    (fixups : pending.origin.shouldCascade = true → ∀ item ∈ pending.items,
      Moves R E (handleOwnsManyChildDelete ctx submit item))
    (ensures : pending.origin.shouldCascade = true → ∀ item ∈ pending.puts,
      Moves R E (handleEnsureForType ctx submit item.entityType)) (before : ServerState) (gone : List Item) :
    Moves R E (effectsPending ctx submit pending before gone) := by
  refine Moves.ite (fun _ => Moves.pure frame _) fun _ => Moves.bind frame ?_ fun _ => cascades _
  refine Moves.each frame fun group member => ?_
  refine moves_applyEffects frame shelves cascades (fun _ cascading item among => ?_)
    fun put cascading item among => ?_
  · exact fixups cascading item (mem_items_of_group member among)
  · have puts : (group.1, .set) ∈ effectGroups pending before := by
      rw [← put]
      exact member
    exact ensures cascading item (mem_puts_of_group puts among)

theorem moves_effectsPending {R E : ServerState → ServerState → Prop} (frame : Frame R E)
    (aside : ∀ {s t}, Aside s t → R s t) (asideFailed : ∀ {s t u}, E s t → Aside t u → E s u)
    {submit : Submit}
    (submits : ∀ {items change origin}, Derivable items change origin →
      Moves R E (submit items change origin))
    (ctx : MykoServerContext) (pending : PendingMutation) (before : ServerState)
    (cascades : List Item) : Moves R E (effectsPending ctx submit pending before cascades) := by
  refine moves_effectsPending_of frame (fun kept => aside kept.toAside) (fun _ => submits (.cascade _))
    (fun _ item _ => moves_handleOwnsManyChildDelete frame submits ctx item) (fun _ item _ => ?_) before cascades
  exact moves_handleEnsureForType frame (fun kept => aside kept.toAside)
    (fun failed kept => asideFailed failed kept.toAside) submits ctx _

/-- Effects that go through keep whatever bookkeeping and submissions that go through keep. -/
theorem effects_keep {J : ServerState → Prop} {submit : Submit}
    (aside : ∀ {s t}, Aside s t → J s → J t)
    (submits : ∀ {items change origin s t}, Derivable items change origin →
      submit items change origin s = .ok () t → J s → J t)
    {ctx : MykoServerContext} {pending : PendingMutation} {before s t : ServerState}
    {cascades : List Item}
    (run : effectsPending ctx submit pending before cascades s = .ok () t) (holds : J s) : J t := by
  have frame : Frame (fun s t => J s → J t) fun _ _ : ServerState => True :=
    Frame.returning (fun _ h => h) fun h h' before => h' (h before)
  have submitting : ∀ {items change origin}, Derivable items change origin →
      Moves (fun s t => J s → J t) (fun _ _ => True) (submit items change origin) :=
    fun derivable => Moves.intro (fun _ _ _ run => submits derivable run) fun _ _ _ _ => trivial
  exact (moves_effectsPending frame aside (fun _ _ => trivial) submitting ctx pending before
    cascades).ok run holds

theorem final_reducePending_ok {ctx : MykoServerContext} {submit : Submit}
    {pending : PendingMutation} {s : ServerState} {t : ServerState} {cascades : Option (List Item)}
    (run : commitPending ctx pending s = .ok cascades t) :
    final (reducePending ctx submit pending) s =
      match cascades with
      | none => t
      | some cascades => final (effectsPending ctx submit pending s cascades) t := by
  rw [reducePending_eq]
  unfold final
  rw [bind_of_ok (get_eq s), bind_of_ok run]
  cases cascades with
  | none => rfl
  | some cascades =>
    dsimp only
    rw [bind_eq]
    cases effectsPending ctx submit pending s cascades t <;> rfl

theorem final_reducePending_error {ctx : MykoServerContext} {submit : Submit}
    {pending : PendingMutation} {s t : ServerState} {error : PersistError}
    (run : commitPending ctx pending s = .error error t) :
    final (reducePending ctx submit pending) s = t := by
  rw [reducePending_eq]
  unfold final
  rw [bind_of_ok (get_eq s), bind_of_error run]

/-- A reduction goes through if its commit does and then its effects do. -/
theorem reducePending_ok {ctx : MykoServerContext} {submit : Submit} {pending : PendingMutation}
    {s t : ServerState} {applied : Bool}
    (run : reducePending ctx submit pending s = .ok applied t) :
    (commitPending ctx pending s = .ok none t ∧ applied = false) ∨
      ∃ cascades u, commitPending ctx pending s = .ok (some cascades) u ∧
        effectsPending ctx submit pending s cascades u = .ok () t ∧ applied = true := by
  rw [reducePending_eq, bind_of_ok (get_eq s)] at run
  obtain ⟨result, u, commit, run⟩ := bind_ok run
  cases result with
  | none =>
    obtain ⟨rfl, rfl⟩ := pure_ok run
    exact .inl ⟨commit, rfl⟩
  | some cascades =>
    obtain ⟨_, v, effects, run⟩ := bind_ok run
    obtain ⟨rfl, rfl⟩ := pure_ok run
    exact .inr ⟨cascades, u, commit, effects, rfl⟩

/-- After its commit, a mutation moves along any relation that bookkeeping and queueing keep. -/
theorem moves_after_commit {R : ServerState → ServerState → Prop} (frame : Frame R R)
    (aside : ∀ {s t}, Aside s t → R s t) {submit : Submit}
    (submits : ∀ {items change origin}, Derivable items change origin →
      Moves R R (submit items change origin))
    (ctx : MykoServerContext) (pending : PendingMutation) (s : ServerState) :
    R (final (commitPending ctx pending) s) (final (reducePending ctx submit pending) s) := by
  cases run : commitPending ctx pending s with
  | error error t =>
    rw [final_reducePending_error run, final_of_error run]
    exact frame.refl t
  | ok cascades t =>
    rw [final_reducePending_ok run, final_of_ok run]
    cases cascades with
    | none => exact frame.refl t
    | some cascades =>
      exact (moves_effectsPending frame aside (fun h h' => frame.trans h (aside h')) submits ctx
        pending s cascades).final t

/-- What a reduction does to the stores and the graph is done by its commit. -/
theorem sameCore_after_commit (ctx : MykoServerContext) (pending : PendingMutation)
    (s : ServerState) : SameCore (final (commitPending ctx pending) s)
      (final (reducePending ctx (submitDerived ctx) pending) s) := by
  refine moves_after_commit (Frame.always SameCore.refl SameCore.trans) Aside.toSameCore
    (fun {items change origin} _ => ?_) ctx pending s
  have queues := moves_submitDerived ctx items change origin
  exact Moves.intro (fun _ _ _ run => (queues.ok run).toSameCore)
    fun _ _ _ run => (queues.error run).toSameCore

end Myko

import Myko.Server.Provenance

/-!
What comes of events as they are applied: they are written, and offered to the persister of their type ahead of all that
follows from them.
-/

namespace Myko
open StateError

/-- Neither the checks of the graph nor its index have a part in the type. -/
def Plain (ctx : MykoServerContext) (entityType : String) : Prop :=
  ∀ item change, item.entityType = entityType → ctx.schema.coordinates item change = false

variable {ctx : MykoServerContext} {item : Item} {s : ServerState}

/-! ### One mutation -/

section
variable (plain : Plain ctx item.entityType) (persisted : (ctx.persister item.entityType).isSome = true)
include plain persisted

/-- The commit of an item of such a type always goes through, up to the answer of its persister. -/
theorem commit_plain (change : MEventType) (mode : EdgeApplyMode) (depth : Nat) (chain : List String) (s : ServerState) :
    (final (commitPending ctx ⟨.uniform [item] change, .localOrigin, mode, depth, chain⟩) s).offered =
        s.offered ++ [⟨change, item⟩] ∧
      (final (commitPending ctx ⟨.uniform [item] change, .localOrigin, mode, depth, chain⟩) s).registry =
        s.registry.write ⟨change, item⟩ := by
  have apart : coordinatedOf ctx ⟨.uniform [item] change, .localOrigin, mode, depth, chain⟩ = false := by
    simp [coordinatedOf, plain item change rfl]
  have plan : planPending ctx s ⟨.uniform [item] change, .localOrigin, mode, depth, chain⟩ = .ok (some []) := by
    rw [planPending, apart]
    rfl
  have same : final (commitPending ctx ⟨.uniform [item] change, .localOrigin, mode, depth, chain⟩) s =
      final (applyPending ctx s ⟨.uniform [item] change, .localOrigin, mode, depth, chain⟩) s := by
    have run := commitPending_eq ctx ⟨.uniform [item] change, .localOrigin, mode, depth, chain⟩ s
    rw [plan] at run
    unfold final
    rw [run]
    dsimp only
    rw [bind_eq]
    cases applyPending ctx s ⟨.uniform [item] change, .localOrigin, mode, depth, chain⟩ s <;> rfl
  obtain ⟨written, reduced, -, registry, -, -, offered, -⟩ := reduceOne_run ctx ⟨change, item⟩ s
  obtain ⟨persister, found⟩ := Option.isSome_iff_exists.mp persisted
  have handed : final (persistItem ctx .localOrigin ⟨change, item⟩) written =
      { written with offered := written.offered ++ [⟨change, item⟩] } := by
    unfold final
    rw [persistItem_eq]
    simp only [offer, Origin.shouldProduce, found, ↓reduceIte, Option.map_some]
    cases persister written.offered ⟨change, item⟩ <;> rfl
  have indexed : indexItem ctx s.registry false ⟨change, item⟩ written = .ok () written := rfl
  have done : final (applyPending ctx s ⟨.uniform [item] change, .localOrigin, mode, depth, chain⟩) s =
      { written with offered := written.offered ++ [⟨change, item⟩] } := by
    unfold applyPending
    dsimp only
    rw [apart, final_bind, reduced]
    dsimp only
    rw [final_bind, indexed]
    dsimp only
    rw [final_both, handed]
    rfl
  rw [same, done]
  exact ⟨congrArg (· ++ [_]) offered, registry⟩

/-- Nothing else is offered before the queue is turned to again. -/
theorem reduce_plain (change : MEventType) (mode : EdgeApplyMode) (depth : Nat) (chain : List String) (s : ServerState) :
    (final (reducePending ctx (submitDerived ctx) ⟨.uniform [item] change, .localOrigin, mode, depth, chain⟩)
        s).offered = s.offered ++ [⟨change, item⟩] ∧
      (final (reducePending ctx (submitDerived ctx) ⟨.uniform [item] change, .localOrigin, mode, depth, chain⟩)
        s).registry = s.registry.write ⟨change, item⟩ := by
  obtain ⟨offered, registry⟩ := commit_plain plain persisted change mode depth chain s
  let Same : ServerState → ServerState → Prop := fun s t => t.offered = s.offered ∧ t.registry = s.registry
  have frame : Frame Same Same := Frame.always (fun _ => ⟨rfl, rfl⟩) fun h h' => ⟨h'.1.trans h.1, h'.2.trans h.2⟩
  have submits : ∀ {items : List Item} {change : MEventType} {origin : Origin}, Derivable items change origin →
      Moves Same Same (submitDerived ctx items change origin) := by
    intro items change origin _
    have queues := moves_submitDerived ctx items change origin
    exact Moves.intro (fun _ _ _ run => ⟨(queues.ok run).offered, (queues.ok run).registry⟩)
      fun _ _ _ run => ⟨(queues.error run).offered, (queues.error run).registry⟩
  have after := moves_after_commit frame (fun aside => ⟨aside.offered, aside.registry⟩) submits
    ctx ⟨.uniform [item] change, .localOrigin, mode, depth, chain⟩ s
  exact ⟨after.1.trans offered, after.2.trans registry⟩

end

/-! ### One submission -/

/-- What has been offered since goes on from there. -/
abbrev OffersOn (ctx : MykoServerContext) (before : List Change) (s : ServerState) : Prop :=
  Carries ctx (fun _ => True) before s

theorem inherits_anything (ctx : MykoServerContext) : Inherited ctx fun _ => True :=
  ⟨fun _ _ => trivial, fun _ _ _ => trivial⟩

theorem offersOn_of_same {before : List Change} (same : s.offered = before) : OffersOn ctx before s :=
  ⟨fun _ _ _ _ => trivial, ⟨[], by rw [same, List.append_nil], fun _ among => nomatch among⟩,
    fun _ _ _ _ _ _ => trivial, fun _ _ _ _ _ => trivial⟩

theorem OffersOn.later {before : List Change} (on : OffersOn ctx before s) :
    ∃ later, s.offered = before ++ later := by
  obtain ⟨later, same, -⟩ := on.offered
  exact ⟨later, same⟩

theorem OffersOn.same {before : List Change} {t : ServerState} (on : OffersOn ctx before s)
    (same : t.offered = s.offered) : OffersOn ctx before t :=
  ⟨fun _ _ _ _ => trivial, same ▸ on.offered, fun _ _ _ _ _ _ => trivial, fun _ _ _ _ _ => trivial⟩

theorem submit_nothing (outside : s.causal = none) (change : MEventType) (origin : Origin) (mode : EdgeApplyMode) :
    submitMutationMode ctx [] change origin mode s = .ok () s := by
  have alone : needsCausalRoot ctx [] change origin = false := by simp [needsCausalRoot]
  unfold submitMutationMode
  rw [bind_of_ok (get_eq s), outside, alone]
  rfl

section
variable (plain : Plain ctx item.entityType) (persisted : (ctx.persister item.entityType).isSome = true)
include plain persisted

/-- Whatever becomes of the submission, its item was the first to be offered. -/
theorem submit_offers (outside : s.causal = none) (change : MEventType) (mode : EdgeApplyMode) :
    OffersOn ctx (s.offered ++ [⟨change, item⟩])
      (final (submitMutationMode ctx [item] change .localOrigin mode) s) := by
  unfold submitMutationMode
  rw [final_bind, get_eq]
  dsimp only
  simp only [outside, Option.isSome_none, Bool.false_eq_true, ↓reduceIte]
  by_cases rooted : needsCausalRoot ctx [item] change .localOrigin = true
  · simp only [rooted, ↓reduceIte]
    rw [final_discard]
    obtain ⟨t, queued⟩ := enqueueCausal_own ctx [item] change .localOrigin mode s
    obtain ⟨c, rfl, submitted⟩ := enqueueCausal_ok rfl queued
    have waits : c.queue = [uniformPending ctx (.begin (ctx.uuid s.uuids)) [item] change .localOrigin mode] :=
      submitted.queue
    have drained : OffersOn ctx (s.offered ++ [⟨change, item⟩]) (final (drain ctx (submitDerived ctx) false
        (drainBound s.causalLimits [item])) { s.opened ctx with causal := some c }) := by
      rw [drainBound, drain, final_bind, popPending_cons rfl waits]
      dsimp only
      rw [final_bind]
      have reduced := (reduce_plain plain persisted change (Option.getD none mode) 0
        ([] ++ [s!"{Origin.debug .localOrigin}:{change.debug}@{0}"]) { s.opened ctx with causal := some (c.pop
          (uniformPending ctx (.begin (ctx.uuid s.uuids)) [item] change .localOrigin mode) []) }).1
      cases run : reducePending ctx (submitDerived ctx)
          (uniformPending ctx (.begin (ctx.uuid s.uuids)) [item] change .localOrigin mode)
          { s.opened ctx with causal := some (c.pop
            (uniformPending ctx (.begin (ctx.uuid s.uuids)) [item] change .localOrigin mode) []) } with
      | error error u => exact offersOn_of_same ((congrArg ServerState.offered (final_of_error run)).symm.trans reduced)
      | ok applied u =>
        have first : OffersOn ctx (s.offered ++ [⟨change, item⟩]) u :=
          offersOn_of_same ((congrArg ServerState.offered (final_of_ok run)).symm.trans reduced)
        exact (keeps_drain submitDerived_items (inherits_anything ctx) false _).final first
    unfold final at drained ⊢
    rw [runRoot_eq, queued]
    dsimp only at drained ⊢
    cases run : drain ctx (submitDerived ctx) false (drainBound s.causalLimits [item])
        { s.opened ctx with causal := some c } with
    | error error u =>
      rw [run] at drained
      exact drained.same rfl
    | ok applied u =>
      rw [run] at drained
      exact drained.same rfl
  · simp only [rooted, Bool.false_eq_true, ↓reduceIte]
    rw [final_discard]
    exact offersOn_of_same (reduce_plain plain persisted change mode 0 [] s).1

/-- Where nothing can follow from it, the item is all that is written. -/
theorem submit_writes {change : MEventType} (outside : s.causal = none) (mode : EdgeApplyMode)
    (alone : needsCausalRoot ctx [item] change .localOrigin = false) :
    (final (submitMutationMode ctx [item] change .localOrigin mode) s).registry =
        s.registry.write ⟨change, item⟩ ∧
      (final (submitMutationMode ctx [item] change .localOrigin mode) s).causal = none := by
  unfold submitMutationMode
  rw [final_bind, get_eq]
  dsimp only
  simp only [outside, Option.isSome_none, Bool.false_eq_true, ↓reduceIte, alone]
  rw [final_discard]
  exact ⟨(reduce_plain plain persisted change mode 0 [] s).2, reducePending_causal outside⟩

end

/-! ### Many at once -/

/-- Grouping by type does not change what a batch writes. -/
theorem writeAll_regrouped (registry : StoreRegistry) (items : List Item) (change : MEventType) :
    registry.writeAll ((groupByType items).flatten.map (Change.mk change)) =
      registry.writeAll (items.map (Change.mk change)) := by
  refine StoreRegistry.ext fun entityType id => ?_
  have listed := filter_groupByType items (fun item => (item.entityType, item.id) = (entityType, id))
    fun item _ here => congrArg Prod.fst (of_decide_eq_true here)
  have about : ∀ items : List Item, (items.map (Change.mk change)).filter (fun change => change.key = (entityType, id)) =
      (items.filter fun item => (item.entityType, item.id) = (entityType, id)).map (Change.mk change) := by
    intro items
    rw [List.filter_map]
    rfl
  rw [StoreRegistry.getValue_writeAll, StoreRegistry.getValue_writeAll, about, about, listed]

/-- Items of the type are the store's business only: no check, no relation and no persister can turn them away. -/
structure Simple (ctx : MykoServerContext) (entityType : String) : Prop where
  plain : Plain ctx entityType
  unrelated : ∀ change, ctx.tables.coordinates entityType change = false
  accepted : ∀ persist, ctx.persister entityType = some persist → ∀ offered change,
    change.item.entityType = entityType → persist offered change = .ok ()

section
variable {items : List Item} (simple : ∀ item ∈ items, Simple ctx item.entityType)
include simple

theorem forward_simple (submit : Submit) (change : MEventType) (s : ServerState) :
    (match change with
      | .set => forwardSetBatch ctx submit items
      | .del => forwardDelBatch ctx submit items) s = .ok () s := by
  cases items with
  | nil => cases change <;> rfl
  | cons first rest =>
    cases change with
    | set =>
      have none := (simple first List.mem_cons_self).unrelated .set
      simp only [RelationshipTables.coordinates, Bool.or_eq_false_iff, Bool.not_eq_false', List.isEmpty_iff] at none
      show forwardSetBatch ctx submit (first :: rest) s = _
      rw [forwardSetBatch, handleEnsureForType, none.1, none.2]
      rfl
    | del =>
      have none : ∀ item ∈ first :: rest, _ := fun item among => (simple item among).unrelated .del
      simp only [RelationshipTables.coordinates, Bool.or_eq_false_iff, Bool.not_eq_false', List.isEmpty_iff] at none
      obtain ⟨⟨⟨⟨belongs, -⟩, owns⟩, -⟩, ensures⟩ := none first List.mem_cons_self
      let forget : Item → ServerM Unit := fun item => do
        handleOwnsManyChildDelete ctx submit item
        each (fun lookup => modifyRelations fun indexes _ => indexes.removeBelongsToChild lookup item.id)
          (ctx.tables.belongsToByLocal item.entityType)
      have idle : ∀ item ∈ first :: rest, ∀ t, t = s → ∃ u, forget item t = .ok () u ∧ u = s := by
        intro item among t same
        obtain ⟨⟨⟨⟨-, children⟩, -⟩, parents⟩, -⟩ := none item among
        refine ⟨t, ?_, same⟩
        show (handleOwnsManyChildDelete ctx submit item >>= fun _ => each _ (ctx.tables.belongsToByLocal _)) t = _
        rw [handleOwnsManyChildDelete, parents, children]
        rfl
      have children : each forget (first :: rest) s = .ok () s := by
        obtain ⟨t, run, same⟩ := each_returns idle rfl
        rw [run, same]
      show forwardDelBatch ctx submit (first :: rest) s = _
      rw [forwardDelBatch, handleBelongsToCascadeBatch, handleOwnsManyParentDeleteBatch, handleEnsureForDeleteBatch,
        belongs, owns, ensures]
      exact children

theorem effects_simple (submit : Submit) (change : MEventType) (origin : Origin) (s : ServerState) :
    ∃ t, applyEffects ctx submit items change origin s = .ok () t ∧ t.causal = s.causal := by
  have search : ∀ item ∈ items, ∀ t : ServerState, t.causal = s.causal →
      ∃ u, indexSearch change item t = .ok () u ∧ u.causal = s.causal :=
    fun item _ t same => ⟨_, modify_eq _ t, same⟩
  obtain ⟨u, searched, causal⟩ := each_returns search rfl
  have forwarded := forward_simple simple submit change u
  rw [applyEffects, bind_of_ok searched]
  cases change <;> cases origin <;> first
    | exact ⟨u, rfl, causal⟩
    | (dsimp only at forwarded
       simp only [Origin.shouldCascade, Origin.shouldProduce, ↓reduceIte]
       rw [bind_of_ok forwarded]
       exact ⟨_, rfl, causal⟩)

/-- A batch of such items goes through. -/
theorem commit_simple (change : MEventType) (origin : Origin) (mode : EdgeApplyMode) (s : ServerState) :
    ∃ t, commitPending ctx (directPending items change origin mode) s = .ok (some []) t := by
  have apart : coordinatedOf ctx (directPending items change origin mode) = false := by
    show (items.any fun item => ctx.schema.coordinates item change) = false
    rw [List.any_eq_false]
    intro item among
    simp [(simple item among).plain item change rfl]
  have grouped : ∀ groups : List Item, groups.mapM (planItem ctx s false change mode) =
      Except.ok (groups.map fun _ => []) := by
    intro groups
    induction groups with
    | nil => rfl
    | cons item rest ih =>
      rw [List.mapM_cons, ih]
      rfl
  have persists : ∀ item ∈ items, ∀ t, ∃ u, persistItem ctx origin ⟨change, item⟩ t = .ok () u := by
    intro item among t
    rw [persistItem_eq, offer]
    cases produces : origin.shouldProduce with
    | false => exact ⟨t, rfl⟩
    | true =>
      cases found : ctx.persister item.entityType with
      | none => exact ⟨t, rfl⟩
      | some persist =>
        have answer := (simple item among).accepted persist found t.offered ⟨change, item⟩ rfl
        simp only [↓reduceIte, Option.map_some, answer]
        exact ⟨_, rfl⟩
  have offers : ∀ written ∈ (groupByType items).flatten.map (Change.mk change), ∀ t, True →
      ∃ u, indexAndPersist ctx s.registry false origin written t = .ok () u ∧ True := by
    intro written among t _
    obtain ⟨item, listed, rfl⟩ := List.mem_map.mp among
    obtain ⟨u, run⟩ := persists item ((groupByType_perm items).mem_iff.mp listed) t
    exact ⟨u, run, trivial⟩
  have applies : ∃ t, applyPending ctx s (directPending items change origin mode) s = .ok () t := by
    unfold applyPending
    rw [apart]
    match items with
    | [] => exact ⟨s, rfl⟩
    | [item] =>
      obtain ⟨t, reduced, -⟩ := reduceOne_run ctx ⟨change, item⟩ s
      obtain ⟨u, handed⟩ := persists item List.mem_cons_self t
      refine ⟨u, ?_⟩
      dsimp only [directPending]
      rw [bind_of_ok reduced]
      exact both_returns handed rfl
    | first :: second :: rest =>
      dsimp only [directPending]
      rw [bind_of_ok (modify_eq _ s)]
      obtain ⟨u, told, -⟩ := each_returns offers trivial
      exact ⟨u, both_returns told rfl⟩
  have plan : planPending ctx s (directPending items change origin mode) = .ok (some []) := by
    unfold planPending
    rw [apart]
    match items with
    | [] => rfl
    | [item] => rfl
    | first :: second :: rest =>
      have none : ∀ groups : List Item, (groups.map fun _ => ([] : List Item)).flatten = [] := by
        intro groups
        induction groups with
        | nil => rfl
        | cons _ rest ih => exact ih
      dsimp only [directPending]
      rw [planGrouped, if_neg (by simp)]
      dsimp only
      rw [grouped]
      exact congrArg (fun cascades => Except.ok (some cascades)) (none _)
  obtain ⟨t, run⟩ := applies
  refine ⟨t, ?_⟩
  rw [commitPending_eq, plan]
  dsimp only
  rw [bind_of_ok run]
  rfl

/-- Submitted outside a root, they are written and nothing else happens to the stores. -/
theorem submit_simple (change : MEventType) (mode : EdgeApplyMode) (outside : s.causal = none) :
    ∃ t, submitMutationMode ctx items change .localOrigin mode s = .ok () t ∧ t.causal = none ∧
      t.registry = s.registry.writeAll (items.map (Change.mk change)) := by
  have alone : needsCausalRoot ctx items change .localOrigin = false := by
    rw [needsCausalRoot, Bool.and_eq_false_iff, List.any_eq_false]
    refine .inr fun item among => ?_
    simp [(simple item among).plain item change rfl, (simple item among).unrelated change]
  obtain ⟨u, committed⟩ := commit_simple simple change .localOrigin mode s
  have written : Committed ctx s (directPending items change .localOrigin mode) u := (commitPending_ok committed).2
  have closed : u.causal = none := written.causal.trans outside
  have cascades : ∀ t : ServerState, t.causal = none → submitDerived ctx [] .del .cascade t = .ok () t := by
    intro t none
    rw [submitDerived, bind_of_ok (get_eq t), none]
    rfl
  have effects : ∃ t, effectsPending ctx (submitDerived ctx) (directPending items change .localOrigin mode) s [] u =
      .ok () t ∧ t.causal = none := by
    rw [effectsPending]
    split
    · exact ⟨u, rfl, closed⟩
    · have groups : ∀ group ∈ effectGroups (directPending items change .localOrigin mode) s, ∀ t : ServerState,
          t.causal = none → ∃ v, applyEffects ctx (submitDerived ctx) group.1 group.2
            (directPending items change .localOrigin mode).origin t = .ok () v ∧ v.causal = none := by
        intro group among t none
        have within : ∀ item ∈ group.1, Simple ctx item.entityType := fun item listed =>
          simple item (mem_items_of_group among listed)
        obtain ⟨v, run, same⟩ := effects_simple within (submitDerived ctx) group.2 .localOrigin t
        exact ⟨v, run, same.trans none⟩
      obtain ⟨v, run, none⟩ := each_returns groups closed
      exact ⟨v, by rw [bind_of_ok run]; exact cascades v none, none⟩
  obtain ⟨t, run, none⟩ := effects
  have reduced : reducePending ctx (submitDerived ctx) (directPending items change .localOrigin mode) s = .ok true t := by
    rw [reducePending_eq, bind_of_ok (get_eq s), bind_of_ok committed]
    dsimp only
    rw [bind_of_ok run]
    rfl
  refine ⟨t, ?_, none, ?_⟩
  · unfold submitMutationMode
    rw [bind_of_ok (get_eq s), outside, alone]
    exact discard_of_ok reduced
  · have same := sameCore_after_commit ctx (directPending items change .localOrigin mode) s
    rw [final_of_ok committed, final_of_ok reduced] at same
    rw [same.registry, written.registry]
    exact writeAll_regrouped s.registry items change

end

/-- What a batch of events writes: the items it sets, and then those it deletes. -/
def eventWrites (ctx : MykoServerContext) (events : List MEvent) : List Change :=
  (parsedItems ctx events .set).map (Change.mk .set) ++ (parsedItems ctx events .del).map (Change.mk .del)

section
variable {events : List MEvent} (simple : ∀ event ∈ events, Simple ctx event.itemType)
include simple

theorem immediate_simple (outside : s.causal = none) :
    ∃ t, each (Submission.run ctx) (Call.immediate ctx events) s = .ok () t ∧ t.causal = none ∧
      t.registry = s.registry.writeAll (eventWrites ctx events) := by
  have parsed : ∀ change, ∀ item ∈ parsedItems ctx events change, Simple ctx item.entityType := by
    intro change item among
    obtain ⟨event, present, parses⟩ := List.mem_filterMap.mp among
    rw [ctx.parser_type _ _ _ parses]
    exact simple event (List.mem_filter.mp present).1
  rw [Call.immediate]
  split
  · rename_i empty
    have sets : parsedItems ctx events .set = [] := List.length_eq_zero_iff.mp (by omega)
    have dels : parsedItems ctx events .del = [] := List.length_eq_zero_iff.mp (by omega)
    refine ⟨s, rfl, outside, ?_⟩
    rw [eventWrites, sets, dels]
    rfl
  · obtain ⟨t, sets, closed, written⟩ := submit_simple (parsed .set) .set .import outside
    obtain ⟨u, dels, closed, gone⟩ := submit_simple (parsed .del) .del .import closed
    refine ⟨u, ?_, closed, ?_⟩
    · rw [each, Submission.run, bind_of_ok sets, each, Submission.run, bind_of_ok dels]
      rfl
    · rw [gone, written, eventWrites, StoreRegistry.writeAll_append]

/-- A batch that is applied at once leaves its writes in the stores. -/
theorem batch_simple (atOnce : ∀ event ∈ events, ctx.bufferPolicy event.itemType = .none)
    (outside : s.causal = none) :
    (final ((Call.applyEventBatch events).run ctx) s).registry = s.registry.writeAll (eventWrites ctx events) := by
  have submits : (Call.applyEventBatch events).Submits := trivial
  obtain ⟨buffers, same⟩ := final_call ctx submits s
  have held : events.filter (fun event => !isBuffered ctx event) = events :=
    List.filter_eq_self.mpr fun event among => by simp [isBuffered, atOnce event among]
  obtain ⟨t, run, -, written⟩ := immediate_simple simple outside
  have all : each (Submission.run ctx) ((Call.applyEventBatch events).submissions ctx s)
      ((Call.applyEventBatch events).start s) = .ok () t := by
    show each _ (Call.immediate ctx (events.filter fun event => !isBuffered ctx event)) s = _
    rw [held]
    exact run
  rw [same, final_of_ok all]
  exact written

end

/-! ### One event -/

/-- Calls and submissions keep whatever is always the case, outside a root. -/
theorem anything_kept (ctx : MykoServerContext) : CallInvariant ctx (fun _ _ => True) (fun _ _ => True)
    (fun _ _ => True) (fun _ => True) (fun _ => True) fun _ => True :=
  ⟨⟨fun _ _ _ _ _ => trivial, fun _ _ _ _ => trivial, fun _ _ _ _ => trivial, fun _ _ _ _ _ => trivial,
    fun _ _ => trivial⟩, fun _ => entries_always _ _, fun _ => trivial, fun _ _ _ _ => trivial⟩

theorem call_outside (outside : s.causal = none) (call : Call) : (final (call.run ctx) s).causal = none :=
  (call_keeps (anything_kept ctx) trivial outside trivial (fun _ _ => trivial) (.inl fun _ => trivial)).2

theorem submit_outside (outside : s.causal = none) (items : List Item) (change : MEventType) (origin : Origin)
    (mode : EdgeApplyMode) : (final (submitMutationMode ctx items change origin mode) s).causal = none :=
  (submit_keeps (anything_kept ctx).toRootInvariant trivial outside trivial (fun _ _ => trivial)
    (.inl fun _ => trivial)).2

theorem call_offers (ctx : MykoServerContext) (call : Call) (s : ServerState) :
    ∃ later, (final (call.run ctx) s).offered = s.offered ++ later := by
  have supplies : call.Supplies ctx fun _ => True := by
    cases call <;> simp [Call.Supplies]
  have on : OffersOn ctx s.offered (final (call.run ctx) s) :=
    (Call.keeps_run (inherits_anything ctx) supplies).final (offersOn_of_same rfl)
  exact on.later

section
variable {event : MEvent} (parses : ctx.parser event.itemType event.item = some item)
  (atOnce : ctx.bufferPolicy event.itemType = .none)
include parses atOnce

/-- An event that is applied at once comes down to the submission of its item. -/
theorem event_submits (outside : s.causal = none) :
    SameButBuffers (final (submitMutationMode ctx [item] event.changeType .localOrigin .import) s)
      (final ((Call.applyEventBatch [event]).run ctx) s) := by
  have submits : (Call.applyEventBatch [event]).Submits := trivial
  have submitted := final_call ctx submits s
  have held : [event].filter (fun event => !isBuffered ctx event) = [event] := by
    simp [isBuffered, atOnce]
  obtain ⟨kind, itemType, payload⟩ := event
  cases kind with
  | set =>
    have items : Call.immediate ctx [⟨.set, itemType, payload⟩] = [.uniform [item] .set .localOrigin .import,
        .uniform [] .del .localOrigin .import] := by
      simp [Call.immediate, parsedItems, parses]
    simp only [Call.submissions, Call.start, held, items, each, Submission.run] at submitted
    have after : (final (submitMutationMode ctx [item] .set .localOrigin .import) s).causal = none :=
      submit_outside outside _ _ _ _
    rw [final_bind] at submitted
    cases run : submitMutationMode ctx [item] .set .localOrigin .import s with
    | error error t =>
      rw [run] at submitted
      rwa [final_of_error run]
    | ok _ t =>
      rw [final_of_ok run] at after
      rw [run] at submitted
      dsimp only at submitted
      rw [final_bind, submit_nothing after] at submitted
      rwa [final_of_ok run]
  | del =>
    have items : Call.immediate ctx [⟨.del, itemType, payload⟩] = [.uniform [] .set .localOrigin .import,
        .uniform [item] .del .localOrigin .import] := by
      simp [Call.immediate, parsedItems, parses]
    simp only [Call.submissions, Call.start, held, items] at submitted
    rw [each, Submission.run, final_bind, submit_nothing outside] at submitted
    dsimp only at submitted
    rwa [final_each_singleton] at submitted

variable (plain : Plain ctx event.itemType) (persisted : (ctx.persister event.itemType).isSome = true)
include plain persisted

/-- What follows from an event is offered after it. -/
theorem event_offers (outside : s.causal = none) : ∃ later,
    (final ((Call.applyEventBatch [event]).run ctx) s).offered = s.offered ++ ⟨event.changeType, item⟩ :: later := by
  have typed := ctx.parser_type _ _ _ parses
  rw [← typed] at plain persisted
  obtain ⟨buffers, same⟩ := event_submits parses atOnce outside
  obtain ⟨later, offered⟩ := (submit_offers plain persisted outside event.changeType .import).later
  refine ⟨later, ?_⟩
  rw [same]
  simpa using offered

theorem event_writes (outside : s.causal = none)
    (alone : needsCausalRoot ctx [item] event.changeType .localOrigin = false) :
    (final ((Call.applyEventBatch [event]).run ctx) s).registry =
      s.registry.write ⟨event.changeType, item⟩ := by
  have typed := ctx.parser_type _ _ _ parses
  rw [← typed] at plain persisted
  obtain ⟨buffers, same⟩ := event_submits parses atOnce outside
  rw [same]
  exact (submit_writes plain persisted outside .import alone).1

end

end Myko

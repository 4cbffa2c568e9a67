import Myko.Graph.EdgeSync
import Myko.Server.LiveWindow

/-!
Reconciling an endpoint: the difference between the wanted edges and those found there is replaced under the generation
it was planned at, and planned anew as long as others move the graph on.
-/

namespace Myko
open StateError

structure CommandError where
  tx : String
  commandId : String
  message : String

/-- The command that is handled. -/
structure CommandContext where
  tx : String
  commandId : String

abbrev CommandM := EStateM CommandError ServerState

def PersistError.text (error : PersistError) : String :=
  s!"persist failed for {error.entityType}: {error.message}"

namespace CommandContext

def graphCommandError (command : CommandContext) (message : String) : CommandError :=
  ⟨command.tx, command.commandId, message⟩

/-- Call the server, whose errors become errors of the command. -/
def call {α : Type} (command : CommandContext) (m : ServerM α) : CommandM α := fun s =>
  match m s with
  | .ok value t => .ok value t
  | .error error t => .error (command.graphCommandError error.text) t

def check {α : Type} (command : CommandContext) (result : Except String α) : CommandM α :=
  passOn (result.mapError command.graphCommandError)

end CommandContext

/-- What others do while an attempt is under way: before it lists the edges, before it reads them, and before it
replaces them. -/
structure Others where
  listing : ServerState → ServerState
  reading : ServerState → ServerState
  replacing : ServerState → ServerState

namespace Others

def act (others : Others) (s : ServerState) : ServerState := others.replacing (others.reading (others.listing s))

/-- Nobody else writes. -/
def none : Others := ⟨id, id, id⟩

end Others

namespace GraphSync

variable (ctx : MykoServerContext) (command : CommandContext) (order : HashOrder)

/-- One attempt: what it did, or nothing when it has to be made again. -/
def reconcileOnce (sync : GraphSync) (others : Others) : CommandM (Option GraphSyncResult) := do
  let generation := (← get).graph.generation
  modify others.listing
  let ids := ((← get).view ctx).edgeIdsAt sync.registration sync.position sync.endpoint
  modify others.reading
  let current := sync.current (← get).registry ids
  modify others.replacing
  let plan := sync.plan order current
  if plan.upserts.isEmpty && plan.deletes.isEmpty then
    return if (← get).graph.generation = generation then some plan.result else Option.none
  else
    let applied ← command.call
      (submitReplaceMutationInner ctx plan.upserts plan.deletes .localOrigin (some generation))
    return if applied then some plan.result else Option.none

def reconcile (sync : GraphSync) (others : Nat → Others) : Nat → CommandM GraphSyncResult
  | 0 => throw (command.graphCommandError
      "graph endpoint kept changing; reconciliation retry budget exhausted")
  | left + 1 => do
    match ← sync.reconcileOnce ctx command order (others left) with
    | some result => return result
    | none => sync.reconcile others left

end GraphSync

/-- Make the edges the exact edge set of an endpoint and a scope. -/
def graphSyncAt {Json : Type} (ctx : MykoServerContext) (command : CommandContext) (order : HashOrder)
    (fromSerializable : Json → Except String IndexValue) (others : Nat → Others) (registration : EdgeRegistration)
    (position : EndPosition) (endpoint : EndpointValue) (scope : Option Json) (edges : List Item)
    (typed : ∀ edge ∈ edges, edge.entityType = registration.edgeType) : CommandM GraphSyncResult := do
  if ctx.schema.registrations.isEmpty then
    throw (command.graphCommandError "application has no graph registrations")
  else
    let expectedScope ← command.check (scope.mapM fromSerializable)
    if registration.scopeType.isSome ≠ expectedScope.isSome then
      throw (command.graphCommandError
        (if registration.scopeType.isSome then "scoped graph reconciliation requires a scope"
        else "unscoped graph reconciliation does not accept a scope"))
    else
      let sync : GraphSync := ⟨registration, position, endpoint, expectedScope, edges, typed⟩
      command.check (sync.checkEdges edges [])
      sync.reconcile ctx command order others 64

/-! ### The root of a replacement -/

section
variable {ctx : MykoServerContext} {s t : ServerState} {upserts deletes : List Item} {expected : Option Nat}

/-- What the root of a replacement reduces after the replacement itself. -/
def laterReductions (ctx : MykoServerContext) (upserts deletes : List Item) (expected : Option Nat) (s : ServerState) :
    List Reduction :=
  (rootReductions ctx true (upserts ++ deletes)
    (enqueueCausalReplace ctx upserts deletes .localOrigin .authoritative expected) s).tail

theorem unseen_of_fresh {change : MEventType} {seen : List TransitionKey} {items : List Item}
    (nodup : (items.map Item.id).Nodup) (fresh : ∀ item ∈ items, transitionKey ctx change item ∉ seen) :
    unseen ctx change seen items = items := by
  induction items generalizing seen with
  | nil => rfl
  | cons item rest ih =>
    obtain ⟨apart, nodup⟩ := List.nodup_cons.mp nodup
    rw [unseen, if_neg (fresh item List.mem_cons_self), ih nodup]
    intro other member seen
    rcases List.mem_cons.mp seen with same | seen
    · have same : other.id = item.id := congrArg TransitionKey.id same
      exact apart (same ▸ List.mem_map_of_mem member)
    · exact fresh other (List.mem_cons_of_mem _ member) seen

theorem unseenReplace_of_nodup (put : (upserts.map Item.id).Nodup) (deleted : (deletes.map Item.id).Nodup) :
    unseenReplace ctx [] upserts deletes = (upserts, deletes) := by
  have dels : unseen ctx .del [] deletes = deletes := unseen_of_fresh deleted fun _ _ => List.not_mem_nil
  unfold unseenReplace
  rw [dels, unseen_of_fresh put]
  intro edge _ seen
  unfold seenAfter at seen
  rw [List.append_nil, List.mem_reverse] at seen
  obtain ⟨old, -, same⟩ := List.mem_map.mp seen
  have operation : 2 = 1 := congrArg TransitionKey.operation same
  cases operation

/-- A replacement that applies is reduced first, and what follows from it goes through. -/
theorem replace_applied (outside : s.causal = none) (named : (upserts.isEmpty && deletes.isEmpty) = false)
    (all : unseenReplace ctx [] upserts deletes = (upserts, deletes))
    (run : submitReplaceMutationInner ctx upserts deletes .localOrigin expected s = .ok true t) :
    ∃ first u pending, SameCore s first ∧ pending.kind = .replace upserts deletes expected ∧
      reducePending ctx (submitDerived ctx) pending first = .ok true u ∧
      Trail ctx u (laterReductions ctx upserts deletes expected s) t ∧
      Allowed (Reduces ctx) (laterReductions ctx upserts deletes expected s) := by
  unfold submitReplaceMutationInner at run
  rw [named, if_neg (by simp), bind_of_ok (get_eq s), outside] at run
  have run : runRoot ctx (submitDerived ctx) true (upserts ++ deletes)
    (enqueueCausalReplace ctx upserts deletes .localOrigin .authoritative expected) s = .ok true t := run
  obtain ⟨u, v, queued, drained, rfl⟩ := runRoot_ok run
  obtain ⟨c, rfl, extended, -, -⟩ := enqueueCausalReplace_ok (c := .begin (ctx.uuid s.uuids)) rfl queued
  have queue : c.queue = [replacePending ctx (.begin (ctx.uuid s.uuids)) upserts deletes .localOrigin .authoritative
      expected] := by
    have all : unseenReplace ctx (CausalState.begin (ctx.uuid s.uuids)).seen upserts deletes = (upserts, deletes) := all
    have others : (upserts, deletes) ≠ ([], []) := by
      intro none
      obtain ⟨rfl, rfl⟩ := Prod.mk.inj none
      cases named
    rw [extended.queue, if_neg (all ▸ others)]
    rfl
  have kind : (replacePending ctx (.begin (ctx.uuid s.uuids)) upserts deletes .localOrigin .authoritative
      expected).kind = .replace upserts deletes expected := by
    change PendingMutationKind.replace (unseenReplace ctx [] upserts deletes).1
      (unseenReplace ctx [] upserts deletes).2 expected = _
    rw [all]
  generalize replacePending ctx (.begin (ctx.uuid s.uuids)) upserts deletes .localOrigin .authoritative
    expected = pending at queue kind
  have reductions : rootReductions ctx true (upserts ++ deletes)
      (enqueueCausalReplace ctx upserts deletes .localOrigin .authoritative expected) s =
      drainReductions ctx true (drainBound s.causalLimits (upserts ++ deletes))
        { s.opened ctx with causal := some c } := by
    unfold rootReductions
    rw [queued]
  unfold laterReductions
  rw [reductions]
  unfold drainBound at drained ⊢
  rw [drain, bind_of_ok (popPending_cons rfl queue)] at drained
  rw [drainReductions, popPending_cons rfl queue]
  obtain ⟨applied, w, reduced, drained⟩ := bind_ok drained
  dsimp only
  rw [reduced]
  cases applied with
  | false =>
    obtain ⟨same, -⟩ := pure_ok drained
    cases same
  | true =>
    have drained : drain ctx (submitDerived ctx) true ((upserts ++ deletes).length +
      s.causalLimits.maxDerivedMutations) w = .ok true v := drained
    refine ⟨_, w, pending, ?_, kind, reduced, ?_, drain_reduces drained⟩
    · exact ⟨rfl, rfl, rfl, rfl⟩
    have trail : Trail ctx w _ _ :=
      Trail.drained true ((upserts ++ deletes).length + s.causalLimits.maxDerivedMutations) w
    rw [final_of_ok drained] at trail
    exact trail.after ⟨rfl, rfl, rfl, rfl⟩

/-- The stored edges of a type and their index. -/
structure SameEdges (edgeType : String) (s t : ServerState) : Prop where
  store : t.registry.store edgeType = s.registry.store edgeType
  index : t.graph.edgeTypes edgeType = s.graph.edgeTypes edgeType

theorem SameEdges.refl (edgeType : String) (s : ServerState) : SameEdges edgeType s s := ⟨rfl, rfl⟩

theorem SameEdges.trans {edgeType : String} {s t u : ServerState} (h₁ : SameEdges edgeType s t)
    (h₂ : SameEdges edgeType t u) : SameEdges edgeType s u :=
  ⟨h₂.store.trans h₁.store, h₂.index.trans h₁.index⟩

theorem SameCore.sameEdges (edgeType : String) {s t : ServerState} (same : SameCore s t) : SameEdges edgeType s t :=
  ⟨by rw [same.registry], by rw [same.graph]⟩

/-- No reduction writes an item of the type. -/
def LeavesAlone (edgeType : String) (reductions : List Reduction) : Prop :=
  ∀ reduction ∈ reductions, ∀ change ∈ changesOf reduction.1 reduction.2, change.item.entityType ≠ edgeType

theorem store_writeAll {edgeType : String} {changes : List Change}
    (apart : ∀ change ∈ changes, change.item.entityType ≠ edgeType) (registry : StoreRegistry) :
    (registry.writeAll changes).store edgeType = registry.store edgeType := by
  induction changes generalizing registry with
  | nil => rfl
  | cons change rest ih =>
    obtain ⟨kind, item⟩ := change
    have other : edgeType ≠ item.entityType := fun same => apart _ List.mem_cons_self same.symm
    change ((registry.write ⟨kind, item⟩).writeAll rest).store edgeType = _
    rw [ih fun change member => apart change (List.mem_cons_of_mem _ member)]
    cases kind <;> exact Function.update_of_ne other _ _

theorem reindexChanges_of_ne {schema : GraphSchema} {edgeType : String} {changes : List Change}
    (apart : ∀ change ∈ changes, change.item.entityType ≠ edgeType) (before : StoreRegistry) (state : GraphState) :
    (reindexChanges schema before state changes).edgeTypes edgeType = state.edgeTypes edgeType := by
  induction changes generalizing state with
  | nil => rfl
  | cons change rest ih =>
    change (reindexChanges schema before (reindexChange schema before state change) rest).edgeTypes edgeType = _
    rw [ih fun change member => apart change (List.mem_cons_of_mem _ member), reindexChange]
    cases found : schema.registration change.item.entityType with
    | none => rfl
    | some registration =>
      refine reindexed_edgeTypes_of_ne _ _ _ _ fun same => apart change List.mem_cons_self ?_
      exact (GraphSchema.registration_mem found).2.symm.trans same.symm

theorem Trail.sameEdges {edgeType : String} {reductions : List Reduction} (trail : Trail ctx s reductions t)
    (reduces : Allowed (Reduces ctx) reductions) (alone : LeavesAlone edgeType reductions) :
    SameEdges edgeType s t := by
  induction trail with
  | nil same => exact same.sameEdges edgeType
  | @cons s t reduction rest same later ih =>
    refine (same.sameEdges edgeType).trans (SameEdges.trans ?_ (ih
      (fun other member => reduces other (List.mem_cons_of_mem _ member))
      fun other member => alone other (List.mem_cons_of_mem _ member)))
    obtain ⟨applied, u, reduced⟩ := reduces reduction List.mem_cons_self
    have apart := alone reduction List.mem_cons_self
    rw [final_of_ok reduced]
    rcases reduced_ok reduced with ⟨-, rfl⟩ | ⟨_, v, -, committed, core⟩
    · exact SameEdges.refl edgeType _
    · refine SameEdges.trans ⟨?_, ?_⟩ (core.sameEdges edgeType)
      · rw [committed.registry]
        exact store_writeAll apart _
      · rw [committed.graph]
        exact reindexChanges_of_ne apart _ _

/-- A reduction that applies has been planned and committed. -/
theorem reduced_applied {pending : PendingMutation}
    (run : reducePending ctx (submitDerived ctx) pending s = .ok true t) :
    ∃ cascades u, planPending ctx s pending = .ok (some cascades) ∧ Committed ctx s pending u ∧
      SameCore u t := by
  rcases reducePending_ok run with ⟨-, none⟩ | ⟨cascades, u, commit, -, -⟩
  · cases none
  · obtain ⟨plan, committed⟩ := commitPending_ok commit
    have same := sameCore_after_commit ctx pending s
    rw [final_of_ok commit, final_of_ok run] at same
    exact ⟨cascades, u, plan, committed, same⟩

end

/-- A coordinated replacement is planned under the generation it expects. -/
theorem generation_of_plan {ctx : MykoServerContext} {s : ServerState} {pending : PendingMutation}
    {upserts deletes cascades : List Item} {generation : Nat} (named : (upserts.isEmpty && deletes.isEmpty) = false)
    (kind : pending.kind = .replace upserts deletes (some generation)) (coordinated : coordinatedOf ctx pending = true)
    (plan : planPending ctx s pending = .ok (some cascades)) : generation = s.graph.generation := by
  unfold planPending at plan
  rw [kind, coordinated] at plan
  dsimp only at plan
  cases first : upserts.head?.or deletes.head? with
  | none =>
    have empty : upserts = [] ∧ deletes = [] := by
      cases upserts <;> cases deletes <;> simp_all
    obtain ⟨rfl, rfl⟩ := empty
    cases named
  | some item =>
    rw [first] at plan
    cases repeated : firstRepeated (deletes ++ upserts) [] with
    | some item =>
      rw [repeated] at plan
      cases plan
    | none =>
      rw [repeated] at plan
      dsimp only at plan
      by_contra moved
      rw [if_pos (by simpa using moved)] at plan
      cases plan

/-- Whatever others write of a type moves the graph on. -/
structure Others.Minds (edgeType : String) (others : Others) : Prop where
  causal : ∀ s, (others.act s).causal = s.causal
  listing : ∀ s, (others.act s).graph.generation = s.graph.generation →
    SameEdges edgeType (others.listing s) (others.act s)
  reading : ∀ s, (others.act s).graph.generation = s.graph.generation →
    SameEdges edgeType (others.reading (others.listing s)) (others.act s)

theorem Others.none_minds (edgeType : String) : Others.none.Minds edgeType :=
  ⟨fun _ => rfl, fun s _ => SameEdges.refl edgeType s, fun s _ => SameEdges.refl edgeType s⟩

/-! ### One attempt -/

namespace GraphSync

variable {ctx : MykoServerContext} {command : CommandContext} {order : HashOrder} {sync : GraphSync}
  {s t : ServerState}

/-- What is planned for the edges there are. -/
def planAt (ctx : MykoServerContext) (order : HashOrder) (sync : GraphSync) (s : ServerState) : GraphSyncPlan :=
  sync.plan order (sync.found (s.view ctx))

def PlansNothing (plan : GraphSyncPlan) : Prop := (plan.upserts.isEmpty && plan.deletes.isEmpty) = true

theorem changesOf_plan {first : ServerState} (same : SameCore s first) {pending : PendingMutation}
    {expected : Option Nat} (kind : pending.kind =
      .replace (sync.planAt ctx order s).upserts (sync.planAt ctx order s).deletes expected) :
    changesOf first pending = writes (sync.planAt ctx order s) := by
  have effective : effectiveDeletes first (sync.planAt ctx order s).deletes = (sync.planAt ctx order s).deletes := by
    refine List.filter_eq_self.mpr fun old deleted => ?_
    have stored : sync.values s.registry old.id = some old := stored_found old (mem_deletes.mp deleted).1
    rw [same.registry, StoreRegistry.canonicalItem_of_getValue stored]
    rfl
  unfold changesOf
  rw [kind]
  dsimp only
  rw [effective]
  rfl

theorem nodup_upserts (checked : sync.Checked) {current : List Item} :
    ((sync.plan order current).upserts.map Item.id).Nodup := by
  rw [plan_upserts]
  exact checked.nodup.sublist (List.filter_sublist.map Item.id)

/-- A replacement of edges that applies was planned under the generation it finds. -/
theorem generation_of_applied (checked : sync.Checked) (registered : sync.registration ∈ ctx.schema.registrations)
    (outside : s.causal = none) {registry : StoreRegistry} {ids : List String} {generation : Nat}
    (named : ¬PlansNothing (sync.plan order (sync.current registry ids)))
    (run : submitReplaceMutationInner ctx (sync.plan order (sync.current registry ids)).upserts
      (sync.plan order (sync.current registry ids)).deletes .localOrigin (some generation) s = .ok true t) :
    generation = s.graph.generation := by
  have named := Bool.eq_false_of_not_eq_true named
  obtain ⟨first, u, pending, same, kind, reduced, -, -⟩ :=
    replace_applied outside named
      (unseenReplace_of_nodup (nodup_upserts checked) (nodup_deletes (nodup_current _ _))) run
  obtain ⟨cascades, v, plan, -, -⟩ := reduced_applied reduced
  have coordinates : ∀ item : Item, item.entityType = sync.registration.edgeType → ∀ change,
      ctx.schema.coordinates item change = true := by
    intro item typed change
    refine GraphSchema.coordinates_of_registered ?_
    rw [typed, GraphSchema.registration_of_mem registered]
    rfl
  have coordinated : coordinatedOf ctx pending = true := by
    unfold coordinatedOf
    rw [kind]
    unfold replaceCoordinated
    rw [Bool.or_eq_true]
    cases upserts : (sync.plan order (sync.current registry ids)).upserts with
    | cons edge rest =>
      have put : edge ∈ (sync.plan order (sync.current registry ids)).upserts := upserts ▸ List.mem_cons_self
      rw [plan_upserts] at put
      have typed := sync.typed edge (List.mem_filter.mp put).1
      exact .inr (List.any_eq_true.mpr ⟨edge, List.mem_cons_self, coordinates edge typed _⟩)
    | nil =>
      cases deletes : (sync.plan order (sync.current registry ids)).deletes with
      | cons old rest =>
        have deleted : old ∈ (sync.plan order (sync.current registry ids)).deletes := deletes ▸ List.mem_cons_self
        have typed := (StoreRegistry.getValue_keyed (mem_current.mp (mem_deletes.mp deleted).1).2.1).1
        exact .inl (List.any_eq_true.mpr ⟨old, List.mem_cons_self, coordinates old typed _⟩)
      | nil =>
        rw [upserts, deletes] at named
        cases named
  rw [← same.graph]
  exact generation_of_plan named kind coordinated plan

/-- The index hears of all the writes of a replacement that applies. -/
theorem applied_told (checked : sync.Checked) (registered : sync.registration ∈ ctx.schema.registrations)
    (outside : s.causal = none) (named : ¬PlansNothing (sync.planAt ctx order s)) {expected : Option Nat}
    (run : submitReplaceMutationInner ctx (sync.planAt ctx order s).upserts (sync.planAt ctx order s).deletes
      .localOrigin expected s = .ok true t)
    (alone : LeavesAlone sync.registration.edgeType (laterReductions ctx (sync.planAt ctx order s).upserts
      (sync.planAt ctx order s).deletes expected s)) :
    sync.Told (sync.planAt ctx order s) (s.view ctx) (t.view ctx) := by
  obtain ⟨first, u, pending, same, kind, reduced, trail, reduces⟩ :=
    replace_applied outside (Bool.eq_false_of_not_eq_true named)
      (unseenReplace_of_nodup (nodup_upserts checked) (nodup_deletes (nodup_found _))) run
  obtain ⟨cascades, v, -, committed, core⟩ := reduced_applied reduced
  have changes := changesOf_plan same kind
  have after := (core.sameEdges sync.registration.edgeType).trans (trail.sameEdges reduces alone)
  refine ⟨rfl, ?_, ?_⟩
  · funext id
    change (t.registry.store sync.registration.edgeType)[id]? = _
    rw [after.store, committed.registry, changes, same.registry]
    rfl
  · change (t.graph.edgeTypes sync.registration.edgeType).projections = _
    rw [after.index, committed.graph, changes, same.graph, same.registry]
    exact reindexChanges_edgeTypes registered _ _ _

theorem told_nothing (nothing : PlansNothing (sync.planAt ctx order s)) :
    sync.Told (sync.planAt ctx order s) (s.view ctx) (s.view ctx) := by
  have none : writes (sync.planAt ctx order s) = [] := by
    obtain ⟨noUpserts, noDeletes⟩ := Bool.and_eq_true_iff.mp nothing
    unfold writes
    rw [List.isEmpty_iff.mp noUpserts, List.isEmpty_iff.mp noDeletes]
    rfl
  refine ⟨rfl, ?_, ?_⟩
  · rw [none]
    rfl
  · rw [none]
    rfl

/-- What an attempt reads. -/
def readAt (ctx : MykoServerContext) (sync : GraphSync) (others : Others) (s : ServerState) : List Item :=
  sync.current (others.reading (others.listing s)).registry
    (((others.listing s).view ctx).edgeIdsAt sync.registration sync.position sync.endpoint)

theorem reconcileOnce_cases {others : Others} {answer : Option GraphSyncResult}
    (run : sync.reconcileOnce ctx command order others s = .ok answer t) :
    (PlansNothing (sync.plan order (sync.readAt ctx others s)) ∧ t = others.act s ∧
      answer = if (others.act s).graph.generation = s.graph.generation then
        some (sync.plan order (sync.readAt ctx others s)).result else none) ∨
    (¬PlansNothing (sync.plan order (sync.readAt ctx others s)) ∧ ∃ applied,
      submitReplaceMutationInner ctx (sync.plan order (sync.readAt ctx others s)).upserts
        (sync.plan order (sync.readAt ctx others s)).deletes .localOrigin (some s.graph.generation) (others.act s) =
        .ok applied t ∧
      answer = if applied then some (sync.plan order (sync.readAt ctx others s)).result else none) := by
  unfold reconcileOnce at run
  rw [bind_of_ok (get_eq s), bind_of_ok (modify_eq _ s), bind_of_ok (get_eq _), bind_of_ok (modify_eq _ _),
    bind_of_ok (get_eq _), bind_of_ok (modify_eq _ _)] at run
  split at run
  · rename_i nothing
    rw [bind_of_ok (get_eq _)] at run
    obtain ⟨rfl, rfl⟩ := pure_ok run
    exact .inl ⟨nothing, rfl, rfl⟩
  · rename_i something
    obtain ⟨applied, u, called, run⟩ := bind_ok run
    obtain ⟨rfl, rfl⟩ := pure_ok run
    refine .inr ⟨something, applied, ?_, rfl⟩
    unfold CommandContext.call at called
    split at called
    · rename_i value v replaced
      cases called
      exact replaced
    · cases called

/-- What is read is there when the graph has not moved on. -/
theorem readAt_eq {others : Others} (minds : others.Minds sync.registration.edgeType)
    (same : (others.act s).graph.generation = s.graph.generation) :
    sync.readAt ctx others s = sync.found ((others.act s).view ctx) := by
  have listing := minds.listing s same
  have reading := minds.reading s same
  have ids : ((others.listing s).view ctx).edgeIdsAt sync.registration sync.position sync.endpoint =
      ((others.act s).view ctx).edgeIdsAt sync.registration sync.position sync.endpoint := by
    unfold GraphView.edgeIdsAt GraphView.scan StoreRegistry.snapshot ServerState.view
    dsimp only
    rw [listing.store, listing.index]
  have values : sync.values (others.reading (others.listing s)).registry = sync.values (others.act s).registry := by
    funext id
    change ((others.reading (others.listing s)).registry.store _)[id]? = ((others.act s).registry.store _)[id]?
    rw [reading.store]
  unfold readAt found current
  rw [ids]
  exact congrArg (fun value => List.filter sync.inScope (List.filterMap value _)) values

theorem reconcileOnce_ok (checked : sync.Checked) (registered : sync.registration ∈ ctx.schema.registrations)
    {others : Others} (minds : others.Minds sync.registration.edgeType) (outside : s.causal = none)
    {result : GraphSyncResult} (run : sync.reconcileOnce ctx command order others s = .ok (some result) t) :
    result = (sync.planAt ctx order (others.act s)).result ∧
      ((PlansNothing (sync.planAt ctx order (others.act s)) ∧ t = others.act s) ∨
        (¬PlansNothing (sync.planAt ctx order (others.act s)) ∧
          submitReplaceMutationInner ctx (sync.planAt ctx order (others.act s)).upserts
            (sync.planAt ctx order (others.act s)).deletes .localOrigin (some (others.act s).graph.generation)
            (others.act s) = .ok true t)) := by
  have outside : (others.act s).causal = none := (minds.causal s).trans outside
  unfold planAt
  rcases reconcileOnce_cases run with ⟨nothing, rfl, answer⟩ | ⟨something, applied, replaced, answer⟩
  · split at answer
    · rename_i same
      rw [readAt_eq minds same] at nothing answer
      exact ⟨Option.some.inj answer, .inl ⟨nothing, rfl⟩⟩
    · cases answer
  · cases applied with
    | false => cases answer
    | true =>
      have same := generation_of_applied checked registered outside something replaced
      have read : sync.readAt ctx others s = sync.found ((others.act s).view ctx) := readAt_eq minds same.symm
      rw [read] at something replaced answer
      exact ⟨Option.some.inj answer, .inr ⟨something, same ▸ replaced⟩⟩

theorem reconcileOnce_causal {others : Others} (minds : others.Minds sync.registration.edgeType)
    (outside : s.causal = none) {answer : Option GraphSyncResult}
    (run : sync.reconcileOnce ctx command order others s = .ok answer t) : t.causal = none := by
  have outside : (others.act s).causal = none := (minds.causal s).trans outside
  rcases reconcileOnce_cases run with ⟨-, rfl, -⟩ | ⟨something, applied, replaced, -⟩
  · exact outside
  · have something := Bool.eq_false_of_not_eq_true something
    unfold submitReplaceMutationInner at replaced
    rw [something, if_neg (by simp), bind_of_ok (get_eq _), outside] at replaced
    rw [← final_of_ok replaced]
    exact runRoot_causal _

/-! ### The attempts -/

/-- The state in which the last attempt replaces. -/
def syncsFrom (ctx : MykoServerContext) (command : CommandContext) (order : HashOrder) (sync : GraphSync)
    (others : Nat → Others) : Nat → ServerState → ServerState
  | 0, s => s
  | left + 1, s =>
    match sync.reconcileOnce ctx command order (others left) s with
    | .ok none t => syncsFrom ctx command order sync others left t
    | _ => (others left).act s

/-- What is reduced after the replacement of a plan. -/
def laterWork (ctx : MykoServerContext) (order : HashOrder) (sync : GraphSync) (s : ServerState) : List Reduction :=
  laterReductions ctx (sync.planAt ctx order s).upserts (sync.planAt ctx order s).deletes
    (some s.graph.generation) s

theorem reconcile_ok (checked : sync.Checked) (registered : sync.registration ∈ ctx.schema.registrations)
    {others : Nat → Others} (minds : ∀ left, (others left).Minds sync.registration.edgeType) {left : Nat}
    (outside : s.causal = none) {result : GraphSyncResult}
    (run : sync.reconcile ctx command order others left s = .ok result t)
    (alone : LeavesAlone sync.registration.edgeType
      (sync.laterWork ctx order (syncsFrom ctx command order sync others left s))) :
    result = (sync.planAt ctx order (syncsFrom ctx command order sync others left s)).result ∧
      sync.Told (sync.planAt ctx order (syncsFrom ctx command order sync others left s))
        ((syncsFrom ctx command order sync others left s).view ctx) (t.view ctx) := by
  induction left generalizing s with
  | zero => cases run
  | succ left ih =>
    unfold reconcile at run
    obtain ⟨answer, u, once, run⟩ := bind_ok run
    unfold syncsFrom at alone ⊢
    rw [once] at alone ⊢
    cases answer with
    | none => exact ih (reconcileOnce_causal (minds left) outside once) run alone
    | some found =>
      obtain ⟨rfl, rfl⟩ := pure_ok run
      have outside' : ((others left).act s).causal = none := ((minds left).causal s).trans outside
      obtain ⟨planned, ⟨nothing, rfl⟩ | ⟨something, replaced⟩⟩ :=
        reconcileOnce_ok checked registered (minds left) outside once
      · exact ⟨planned, told_nothing nothing⟩
      · exact ⟨planned, applied_told checked registered outside' something replaced alone⟩

/-- Nothing is written where the wanted edges are found. -/
theorem reconcile_nothing (same : ∀ edge, edge ∈ sync.found (t.view ctx) ↔ edge ∈ sync.edges) (left : Nat) :
    sync.reconcile ctx command order (fun _ => Others.none) (left + 1) t = .ok ⟨0, 0, 0, sync.edges.length⟩ t := by
  have plan : sync.plan order (sync.found (t.view ctx)) = ⟨⟨0, 0, 0, sync.edges.length⟩, [], []⟩ :=
    plan_nothing (nodup_found _) same
  have once : sync.reconcileOnce ctx command order Others.none t = .ok (some ⟨0, 0, 0, sync.edges.length⟩) t := by
    unfold reconcileOnce
    rw [bind_of_ok (get_eq t), bind_of_ok (modify_eq _ t), bind_of_ok (get_eq _), bind_of_ok (modify_eq _ _),
      bind_of_ok (get_eq _), bind_of_ok (modify_eq _ _)]
    change (if ((sync.plan order (sync.found (t.view ctx))).upserts.isEmpty &&
      (sync.plan order (sync.found (t.view ctx))).deletes.isEmpty) = true then _ else _ : CommandM _) t = _
    rw [if_pos (by rw [plan]; rfl), bind_of_ok (get_eq t)]
    change EStateM.Result.ok (if t.graph.generation = t.graph.generation then
      some (sync.plan order (sync.found (t.view ctx))).result else none) t = _
    rw [if_pos rfl, plan]
  unfold reconcile
  rw [bind_of_ok once]
  rfl

/-! ### The command -/

section
variable {Json : Type} {fromSerializable : Json → Except String IndexValue} {others : Nat → Others}
  {scope : Option Json} {result : GraphSyncResult}

/-- The checks do not look at the state. -/
theorem passes_checks (encoded : scope.mapM fromSerializable = .ok sync.scope)
    (run : graphSyncAt ctx command order fromSerializable others sync.registration sync.position sync.endpoint scope
      sync.edges sync.typed s = .ok result t) :
    sync.Checked ∧ ∀ (order : HashOrder) (others : Nat → Others) (s : ServerState),
      graphSyncAt ctx command order fromSerializable others sync.registration sync.position sync.endpoint scope
        sync.edges sync.typed s = sync.reconcile ctx command order others 64 s := by
  unfold graphSyncAt CommandContext.check at run ⊢
  rw [encoded] at run ⊢
  cases unregistered : ctx.schema.registrations.isEmpty with
  | true =>
    rw [unregistered] at run
    cases run
  | false =>
    rw [unregistered] at run
    by_cases mismatch : sync.registration.scopeType.isSome ≠ sync.scope.isSome
    · have run : (if sync.registration.scopeType.isSome ≠ sync.scope.isSome then _ else _ : CommandM _) s = _ := run
      rw [if_pos mismatch] at run
      cases run
    · have run : (if sync.registration.scopeType.isSome ≠ sync.scope.isSome then _ else _ : CommandM _) s = _ := run
      rw [if_neg mismatch] at run
      obtain ⟨_, u, checks, -⟩ := bind_ok run
      obtain ⟨checks, -⟩ := passOn_ok checks
      have checks : sync.checkEdges sync.edges [] = .ok () := mapError_ok checks
      obtain ⟨each_edge, nodup⟩ := checked_of_ok checks
      refine ⟨⟨fun edge wanted => (each_edge edge wanted).1, nodup⟩, fun order others s => ?_⟩
      change (if sync.registration.scopeType.isSome ≠ sync.scope.isSome then _ else _ : CommandM _) s = _
      rw [if_neg mismatch]
      change (passOn ((sync.checkEdges sync.edges []).mapError command.graphCommandError) >>= fun _ => _) s = _
      rw [checks]
      rfl

/-- The wanted edges are the edges there, and they are written once and for all. -/
structure Reconciled (ctx : MykoServerContext) (command : CommandContext)
    (fromSerializable : Json → Except String IndexValue) (scope : Option Json) (sync : GraphSync) (s t : ServerState)
    (result : GraphSyncResult) : Prop extends
    sync.Exact (sync.values s.registry) (sync.values t.registry) result where
  again : ∀ order, graphSyncAt ctx command order fromSerializable (fun _ => Others.none) sync.registration sync.position
    sync.endpoint scope sync.edges sync.typed t = .ok ⟨0, 0, 0, sync.edges.length⟩ t

end

end GraphSync

/-- A reconciliation whose own writes are all that happens to edges of the type is exact if and only if none of the
wanted edges lies elsewhere before and the lookup finds the edges that lie there. -/
theorem graph_sync_exact {Json : Type} {ctx : MykoServerContext} {command : CommandContext} {order : HashOrder}
    {fromSerializable : Json → Except String IndexValue} {others : Nat → Others} {sync : GraphSync}
    {scope : Option Json} {s t : ServerState} {result : GraphSyncResult}
    (registered : sync.registration ∈ ctx.schema.registrations) (outside : s.causal = none)
    (encoded : scope.mapM fromSerializable = .ok sync.scope)
    (minds : ∀ left, (others left).Minds sync.registration.edgeType)
    (run : graphSyncAt ctx command order fromSerializable others sync.registration sync.position sync.endpoint scope
      sync.edges sync.typed s = .ok result t)
    (alone : LeavesAlone sync.registration.edgeType
      (sync.laterWork ctx order (sync.syncsFrom ctx command order others 64 s))) :
    sync.Reconciled ctx command fromSerializable scope (sync.syncsFrom ctx command order others 64 s) t result ↔
      sync.Unmoved (sync.values (sync.syncsFrom ctx command order others 64 s).registry) ∧
        sync.Finds (sync.found ((sync.syncsFrom ctx command order others 64 s).view ctx))
          (sync.values (sync.syncsFrom ctx command order others 64 s).registry) := by
  obtain ⟨checked, passes⟩ := GraphSync.passes_checks encoded run
  rw [passes] at run
  obtain ⟨rfl, told⟩ := GraphSync.reconcile_ok checked registered minds outside run alone
  have after : sync.values t.registry = sync.outcome _ _ := GraphSync.values_after checked told
  constructor
  · rintro ⟨exact, -⟩
    rw [after] at exact
    exact ⟨GraphSync.unmoved_of_exact checked (fun _ _ stored => (StoreRegistry.getValue_keyed stored).2) exact,
      GraphSync.finds_of_exact checked (GraphSync.nodup_found _) GraphSync.stored_found exact⟩
  · rintro ⟨unmoved, finds⟩
    refine ⟨?_, fun order => ?_⟩
    · rw [after]
      exact GraphSync.exact_of_finds checked (GraphSync.nodup_found _)
        (fun _ _ stored => (StoreRegistry.getValue_keyed stored).2) unmoved finds
    · rw [passes]
      exact GraphSync.reconcile_nothing (GraphSync.found_after checked told) 63

namespace Sample

def hashOrder : HashOrder := ⟨id, fun _ => .refl _⟩

def noScope (_ : Unit) : Except String IndexValue := .error "no scope is encoded"

def syncCommand : CommandContext := ⟨"tx", "SyncLinks"⟩

/-- A link from `x` to `y`. -/
def linked : ServerState := final (set server (link "e" "x" "y")) nodes

def linksOfX : GraphSync where
  registration := links
  position := .a
  endpoint := x
  scope := none
  edges := [link "f" "x" "x"]
  typed edge wanted := by
    rw [List.mem_singleton.mp wanted]
    rfl

/-- Another link in its place. -/
theorem links_replaced : ∃ t, graphSyncAt server syncCommand hashOrder noScope (fun _ => Others.none) links .a x none
      linksOfX.edges linksOfX.typed linked = .ok ⟨1, 0, 1, 0⟩ t ∧
    linksOfX.Reconciled server syncCommand noScope none linked t ⟨1, 0, 1, 0⟩ := by
  have returns : EStateM.run' (graphSyncAt server syncCommand hashOrder noScope (fun _ => Others.none) links .a x none
      linksOfX.edges linksOfX.typed) linked = some ⟨1, 0, 1, 0⟩ := by decide +kernel
  obtain ⟨t, run⟩ := ok_of_run' returns
  refine ⟨t, run, ?_⟩
  have coherent : linked.graph.Coherent schema linked.registry :=
    (coherent_commits server).run (coherent_empty schema) (fun _ _ step submits => step.1.succeeds submits)
      (.call (.set (link "e" "x" "y")) nodes_tidy ⟨ok_of_run' (by decide +kernel), trivial⟩)
  have outside : linked.causal = none := Option.isNone_iff_eq_none.mp (by decide +kernel)
  have once : EStateM.run' (linksOfX.reconcileOnce server syncCommand hashOrder Others.none) linked =
      some (some ⟨1, 0, 1, 0⟩) := by decide +kernel
  obtain ⟨u, once⟩ := ok_of_run' once
  have start : linksOfX.syncsFrom server syncCommand hashOrder (fun _ => Others.none) 64 linked = linked := by
    unfold GraphSync.syncsFrom
    rw [once]
    rfl
  have alone : LeavesAlone "link" (linksOfX.laterWork server hashOrder linked) := by
    have none : linksOfX.laterWork server hashOrder linked = [] := List.isEmpty_iff.mp (by decide +kernel)
    rw [none]
    exact fun _ member => absurd member List.not_mem_nil
  have unmoved : linksOfX.Unmoved (linksOfX.values linked.registry) := by
    intro edge wanted old was
    rw [List.mem_singleton.mp wanted] at was
    have absent : linked.registry.getValue "link" "f" = none := by decide +kernel
    cases absent.symm.trans was
  have finds : linksOfX.Finds (linksOfX.found (linked.view server)) (linksOfX.values linked.registry) := by
    have coherent : (linked.view server).state.Coherent (linked.view server).schema (linked.view server).registry :=
      coherent
    exact GraphSync.finds_of_coherent coherent List.mem_cons_self
  rw [← start] at alone unmoved finds
  have run : graphSyncAt server syncCommand hashOrder noScope (fun _ => Others.none) linksOfX.registration
    linksOfX.position linksOfX.endpoint none linksOfX.edges linksOfX.typed linked = .ok ⟨1, 0, 1, 0⟩ t := run
  have exact : linksOfX.Reconciled server syncCommand noScope none
      (linksOfX.syncsFrom server syncCommand hashOrder (fun _ => Others.none) 64 linked) t ⟨1, 0, 1, 0⟩ :=
    (graph_sync_exact List.mem_cons_self outside rfl (fun _ => Others.none_minds _) run alone).mpr
      ⟨unmoved, finds⟩
  rw [start] at exact
  exact exact

/-- A mark of any item, a mark among them, at a node. -/
def mark (id markedType marked target : String) : Item where
  entityType := "mark"
  id := id
  fields := [("markedType", .text markedType), ("marked", .text marked), ("target", .text target)]

def markEndpoints (item : Item) : Except String EdgeEndpoints :=
  if item.entityType = "mark" then
    match item.field "markedType", item.field "marked", item.field "target" with
    | some (.text markedType), some (.text marked), some (.text target) =>
      .ok ⟨⟨⟨markedType, marked⟩, none⟩, ⟨⟨"node", target⟩, none⟩⟩
    | _, _, _ => .error "mark without an endpoint"
  else .error "not a mark"

def marks : EdgeRegistration :=
  { links with
    edgeType := "mark"
    endpointA := .anyRegisteredItem
    extract := markEndpoints
    typed := fun item endpoints h => by
      unfold markEndpoints at h
      split at h
      · assumption
      · cases h }

def markServer : MykoServerContext :=
  { server with
    schema :=
      { registrations := [marks]
        distinct := by decide
        overrides := fun _ => none
        categories := fun _ => []
        itemTypes := ["node", "mark"] } }

/-- Marks of `x` and of `y` at `y`, and a mark of the first mark at `y` as well. -/
def marked : ServerState :=
  final (set markServer (mark "f" "mark" "e" "y"))
    (final (batchSet markServer [mark "e" "node" "x" "y", mark "g" "node" "y" "y"])
      (final (batchSet markServer [node "x", node "y"]) .initial))

def marksAtY : GraphSync where
  registration := marks
  position := .b
  endpoint := y
  scope := none
  edges := [mark "f" "mark" "e" "y", mark "g" "node" "y" "y"]
  typed edge wanted := by
    rcases List.mem_pair.mp wanted with rfl | rfl <;> rfl

/-- The mark that is not wanted takes the wanted one, which was to stay, with it. -/
theorem sync_deletes_wanted_mark : Run markServer (fun s call => call.Returns markServer s) marked ∧
    ∃ t, graphSyncAt markServer syncCommand hashOrder noScope (fun _ => Others.none) marks .b y none marksAtY.edges
      marksAtY.typed marked = .ok ⟨0, 0, 1, 2⟩ t ∧
    t.registry.getValue "mark" "f" = none ∧
    ¬marksAtY.Reconciled markServer syncCommand noScope none marked t ⟨0, 0, 1, 2⟩ := by
  have returns : EStateM.run' (graphSyncAt markServer syncCommand hashOrder noScope (fun _ => Others.none) marks .b y
      none marksAtY.edges marksAtY.typed) marked = some ⟨0, 0, 1, 2⟩ := by decide +kernel
  obtain ⟨t, run⟩ := ok_of_run' returns
  have gone : (final (graphSyncAt markServer syncCommand hashOrder noScope (fun _ => Others.none) marks .b y none
      marksAtY.edges marksAtY.typed) marked).registry.getValue "mark" "f" = none := by decide +kernel
  rw [final_of_ok run] at gone
  refine ⟨?_, t, run, gone, fun reconciled => ?_⟩
  · refine .call (.set (mark "f" "mark" "e" "y"))
      (.call (.batchSet [mark "e" "node" "x" "y", mark "g" "node" "y" "y"])
        (.call (.batchSet [node "x", node "y"]) .initial ?_) ?_) ?_
    · exact ok_of_run' (by decide +kernel)
    · exact ok_of_run' (by decide +kernel)
    · exact ok_of_run' (by decide +kernel)
  · have there := ((reconciled.there (mark "f" "mark" "e" "y")).mpr List.mem_cons_self).1
    cases gone.symm.trans there

end Sample

end Myko

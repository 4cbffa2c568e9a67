import Myko.Graph.DeletePlan
import Myko.Server.IndexCoherence

/-!
Restrict policies against whole deletions. The entities a call names are checked before anything is written,
those it comes to over cascade policies only when their turn comes.
-/

namespace Myko
open StateError

variable {ctx : MykoServerContext}

/-- What is to go with the named entities, over the cascade policies alone. -/
inductive GraphView.DeleteClosure (view : GraphView) (named : List EntityRef) : EntityRef → Prop where
  | named {entity : EntityRef} (listed : entity ∈ named) : DeleteClosure view named entity
  | cascade {endpoint : EntityRef} {edgeType id : String} (gone : DeleteClosure view named endpoint)
      (follows : view.Follows endpoint edgeType id) : DeleteClosure view named ⟨edgeType, id⟩

/-- An edge that is not to go as well stands in the way of deleting the entity. -/
def GraphView.Protected (view : GraphView) (named : List EntityRef) (entity : EntityRef) : Prop :=
  ∃ registration ∈ view.schema.registrations, ∃ position id,
    registration.deletePolicy position = .restrictEndpointDelete ∧
      view.Touches registration position entity id ∧ ¬view.DeleteClosure named ⟨registration.edgeType, id⟩

/-- The deletion comes to an entity that is protected. -/
def GraphView.MeetsProtected (view : GraphView) (named : List EntityRef) : Prop :=
  ∃ entity, view.DeleteClosure named entity ∧ view.Protected named entity

def entityOf (item : Item) : EntityRef := ⟨item.entityType, item.id⟩

/-- The events of a batch that are applied at once. -/
def atOnce (ctx : MykoServerContext) (events : List MEvent) : List MEvent :=
  events.filter fun event => !isBuffered ctx event

/-- The entities a call deletes by name. -/
def Call.deleted (ctx : MykoServerContext) : Call → List EntityRef
  | .del item => [entityOf item]
  | .batchDel items => items.map entityOf
  | .delById entityType id => [⟨entityType, id⟩]
  | .applyEventBatch events => (parsedItems ctx (atOnce ctx events) .del).map entityOf
  | _ => []

/-- The graph is told of the deletion, and one of the items named is restricted itself or is not stored. -/
def RefusesItems (ctx : MykoServerContext) (s : ServerState) (items : List Item) : Prop :=
  (∃ item ∈ items, ctx.schema.coordinates item .del) ∧
    ∃ item ∈ items, (s.view ctx).Restricted (entityOf item) ∨ s.registry.canonicalItem item = none

/-- The call is refused by the check of the items it names. A deletion by id is never checked, and the
deletions among wire events only once the writes among them are made. -/
def Call.RefusedAtOnce (ctx : MykoServerContext) (s : ServerState) : Call → Prop
  | .del item => RefusesItems ctx s [item]
  | .batchDel items => RefusesItems ctx s items
  | .applyEventBatch events => parsedItems ctx (atOnce ctx events) .set = [] ∧
      RefusesItems ctx s (parsedItems ctx (atOnce ctx events) .del)
  | _ => False

/-! ### The items a root keeps -/

theorem coordinates_congr {schema : GraphSchema} {item other : Item} (same : item.entityType = other.entityType)
    (change : MEventType) : schema.coordinates item change = schema.coordinates other change := by
  unfold GraphSchema.coordinates
  rw [same]

/-- Of two items with one transition, one is kept, unless the transition was seen before. -/
theorem kept_of_listed (ctx : MykoServerContext) (change : MEventType) {items : List Item} {item : Item}
    (listed : item ∈ items) (seen : List TransitionKey) (fresh : transitionKey ctx change item ∉ seen) :
    ∃ kept ∈ unseen ctx change seen items, transitionKey ctx change kept = transitionKey ctx change item := by
  induction items generalizing seen with
  | nil => simp at listed
  | cons first rest ih =>
    rw [unseen]
    by_cases same : transitionKey ctx change first = transitionKey ctx change item
    · rw [same, if_neg fresh]
      exact ⟨first, List.mem_cons_self, same⟩
    · have later : item ∈ rest := by
        rcases List.mem_cons.mp listed with rfl | later
        · exact absurd rfl same
        · exact later
      split
      · exact ih later seen fresh
      · obtain ⟨kept, member, key⟩ := ih later (transitionKey ctx change first :: seen)
          (by simpa [fresh] using Ne.symm same)
        exact ⟨kept, List.mem_cons_of_mem _ member, key⟩

theorem entityOf_of_key {change : MEventType} {item other : Item}
    (same : transitionKey ctx change item = transitionKey ctx change other) :
    item.entityType = other.entityType ∧ item.id = other.id :=
  ⟨congrArg TransitionKey.entityType same, congrArg TransitionKey.id same⟩

/-- Losing repeated transitions, a deletion is refused as before. -/
theorem refuses_unseen {s : ServerState} {items : List Item} (refuses : RefusesItems ctx s items) :
    RefusesItems ctx s (unseen ctx .del [] items) := by
  obtain ⟨⟨told, listed, coordinated⟩, item, listed', refused⟩ := refuses
  constructor
  · obtain ⟨kept, member, key⟩ := kept_of_listed ctx .del listed [] List.not_mem_nil
    exact ⟨kept, member, (coordinates_congr (entityOf_of_key key).1 .del).trans coordinated⟩
  · obtain ⟨kept, member, key⟩ := kept_of_listed ctx .del listed' [] List.not_mem_nil
    obtain ⟨typed, id⟩ := entityOf_of_key key
    refine ⟨kept, member, ?_⟩
    unfold entityOf StoreRegistry.canonicalItem
    rw [typed, id]
    exact refused

/-! ### The refusal -/

/-- A deletion of which one item is restricted has no plan. -/
theorem plan_refused {s : ServerState} (coherent : s.graph.Coherent ctx.schema s.registry)
    {pending : PendingMutation} {items : List Item} (kind : pending.kind = .uniform items .del)
    (refuses : RefusesItems ctx s items) : ∃ error, planPending ctx s pending = .error error := by
  cases plan : planPending ctx s pending with
  | error error => exact ⟨error, rfl⟩
  | ok cascades =>
    obtain ⟨⟨told, named, coordinated⟩, item, listed, refused⟩ := refuses
    have heard : coordinatedOf ctx pending = true := by
      unfold coordinatedOf
      rw [kind]
      exact List.any_eq_true.mpr ⟨told, named, coordinated⟩
    obtain ⟨planned, own⟩ := planItem_of_plan kind plan listed
    rw [heard] at own
    obtain ⟨deletes, checked⟩ := planItem_ok own
    rcases refused with restricted | absent
    · have index : (s.view ctx).state.Coherent (s.view ctx).schema (s.view ctx).registry := coherent
      obtain ⟨error, refusal⟩ := (endpointDeletePlan_iff index (entityOf item)).1.mpr restricted
      have allowed : (s.view ctx).endpointDeletePlan (entityOf item) = .ok planned := deletes
      rw [refusal] at allowed
      cases allowed
    · have effective := effective_of_preflight checked
      exact absurd absent effective

theorem reduce_refused {s : ServerState} {pending : PendingMutation} {error : PersistError}
    (plan : planPending ctx s pending = .error error) :
    reducePending ctx (submitDerived ctx) pending s = .error error s := by
  have commit : commitPending ctx pending s = .error error s := by
    rw [commitPending_eq, plan]
  rw [reducePending_eq, bind_of_ok (get_eq s), bind_eq, commit]

/-- A root whose first mutation has no plan leaves the stores as they were. -/
theorem drain_refused {s : ServerState} {c : CausalState} {pending : PendingMutation} {queue : List PendingMutation}
    (causal : s.causal = some c) (queued : c.queue = pending :: queue) {error : PersistError}
    (plan : planPending ctx { s with causal := some (c.pop pending queue) } pending = .error error)
    (halt : Bool) (fuel : Nat) :
    drain ctx (submitDerived ctx) halt (fuel + 1) s =
      .error error { s with causal := some (c.pop pending queue) } := by
  rw [drain, bind_of_ok (popPending_cons causal queued)]
  dsimp only
  rw [bind_eq, reduce_refused plan]

/-- A deletion that is refused at once leaves the stores as they were. -/
theorem submit_refused {s : ServerState} (outside : s.causal = none)
    (coherent : s.graph.Coherent ctx.schema s.registry) {items : List Item} {mode : EdgeApplyMode}
    (refuses : RefusesItems ctx s items) :
    ∃ error t, submitMutationMode ctx items .del .localOrigin mode s = .error error t ∧
      t.registry = s.registry := by
  have rooted : needsCausalRoot ctx items .del .localOrigin = true := by
    obtain ⟨⟨told, named, coordinated⟩, -⟩ := refuses
    unfold needsCausalRoot
    rw [Bool.and_eq_true, List.any_eq_true]
    exact ⟨rfl, told, named, by rw [coordinated, Bool.or_true]⟩
  have kept := refuses_unseen refuses
  obtain ⟨t, entered⟩ := enqueueCausal_own ctx items .del .localOrigin mode s
  obtain ⟨c, rfl, submitted⟩ := enqueueCausal_ok rfl entered
  have queued : c.queue = [uniformPending ctx (.begin (ctx.uuid s.uuids)) items .del .localOrigin mode] := by
    have inhabited : unseen ctx .del (CausalState.begin (ctx.uuid s.uuids)).seen items ≠ [] := by
      obtain ⟨⟨told, named, -⟩, -⟩ := kept
      exact List.ne_nil_of_mem named
    have queue := submitted.queue
    rw [if_neg inhabited] at queue
    exact queue
  obtain ⟨error, plan⟩ : ∃ error, planPending ctx { s.opened ctx with causal := some (c.pop _ []) }
      (uniformPending ctx (.begin (ctx.uuid s.uuids)) items .del .localOrigin mode) = .error error :=
    plan_refused coherent rfl kept
  have causal : ({ s.opened ctx with causal := some c } : ServerState).causal = some c := rfl
  have drained := drain_refused causal queued plan false (items.length + s.causalLimits.maxDerivedMutations)
  have root : ∃ t, runRoot ctx (submitDerived ctx) false items
      (enqueueCausal ctx items .del .localOrigin mode) s = .error error t ∧ t.registry = s.registry := by
    rw [runRoot_eq, entered]
    dsimp only
    unfold drainBound
    rw [drained]
    exact ⟨_, rfl, rfl⟩
  obtain ⟨t, root, same⟩ := root
  refine ⟨error, t, ?_, same⟩
  unfold submitMutationMode
  rw [bind_of_ok (get_eq s), outside, rooted]
  exact discard_of_error root

theorem nothing_kept : CallInvariant ctx (fun _ _ => True) (fun _ _ => True) (fun _ _ => True) (fun _ => True)
    (fun _ => True) (fun _ => True) where
  enter _ _ _ _ _ := trivial
  replace _ _ _ _ := trivial
  reduce _ _ _ _ := trivial
  direct _ _ _ _ _ := trivial
  close _ _ := trivial
  entries _ := entries_always _ _
  buffers _ := trivial
  other _ _ _ _ := trivial

/-- Between calls no root is under way. -/
theorem run_outside {s : ServerState} (run : Run ctx (fun _ _ => True) s) : s.causal = none :=
  (run_keeps nothing_kept trivial (fun _ _ _ _ _ => trivial) run).2

theorem named_of_refuses {s : ServerState} {items : List Item} (refuses : RefusesItems ctx s items) : items ≠ [] := by
  obtain ⟨⟨item, listed, -⟩, -⟩ := refuses
  exact List.ne_nil_of_mem listed

/-- Wire events that write nothing are refused as their deletions are. -/
theorem events_refused {s : ServerState} (outside : s.causal = none)
    (coherent : s.graph.Coherent ctx.schema s.registry) {events : List MEvent}
    (writes : parsedItems ctx (atOnce ctx events) .set = [])
    (refuses : RefusesItems ctx s (parsedItems ctx (atOnce ctx events) .del)) :
    ∃ error t, discard (applyEventBatch ctx events) s = .error error t ∧ t.registry = s.registry := by
  obtain ⟨rest, -, split⟩ := applyEventBatch_eq ctx events
  have immediate : Call.immediate ctx (atOnce ctx events) =
      [.uniform [] .set .localOrigin .import,
        .uniform (parsedItems ctx (atOnce ctx events) .del) .del .localOrigin .import] := by
    have length := List.length_pos_iff.mpr (named_of_refuses refuses)
    unfold Call.immediate
    rw [writes, if_neg (by simp only [List.length_nil]; omega)]
  have nothing : submitMutationMode ctx [] .set .localOrigin .import s = .ok () s := by
    unfold submitMutationMode
    rw [bind_of_ok (get_eq s), outside]
    rfl
  obtain ⟨error, t, refused, same⟩ : ∃ error t,
      submitMutationMode ctx (parsedItems ctx (atOnce ctx events) .del) .del .localOrigin .import s = .error error t ∧
        t.registry = s.registry := submit_refused outside coherent refuses
  refine ⟨error, t, discard_of_error ?_, same⟩
  rw [split]
  change (each (Submission.run ctx) (Call.immediate ctx (atOnce ctx events)) >>= fun _ => rest) s = _
  refine bind_of_error ?_
  rw [immediate, each, each]
  exact (bind_of_ok nothing).trans (bind_of_error refused)

/-- A deletion that comes to a protected entity fails and changes nothing, where its index is that of the stores
and the deletion is refused at once whenever there is such an entity. -/
theorem restrict_atomic {s : ServerState} (run : Run ctx (fun _ _ => True) s)
    (indexed : s.graph.MatchesRebuild ctx.schema s.registry) (call : Call)
    (refused : (s.view ctx).MeetsProtected (call.deleted ctx) → call.RefusedAtOnce ctx s) :
    (s.view ctx).MeetsProtected (call.deleted ctx) →
      ∃ error t, call.run ctx s = .error error t ∧ t.registry = s.registry := by
  intro met
  have outside := run_outside run
  have coherent := matchesRebuild_iff.mp indexed
  have refused := refused met
  cases call with
  | del item => exact submit_refused outside coherent refused
  | batchDel items =>
    have inhabited : items.isEmpty = false := List.isEmpty_eq_false_iff.mpr (named_of_refuses refused)
    change ∃ error t, batchDel ctx items s = .error error t ∧ t.registry = s.registry
    unfold batchDel
    rw [inhabited]
    exact submit_refused outside coherent refused
  | applyEventBatch events => exact events_refused outside coherent refused.1 refused.2
  | _ => exact absurd refused (fun none => none)

namespace Sample

/-- A note about a link, which holds the link back. -/
def note (id about target : String) : Item where
  entityType := "note"
  id := id
  fields := [("source", .text about), ("target", .text target)]

def noteEndpoints (item : Item) : Except String EdgeEndpoints :=
  if item.entityType = "note" then
    match item.field "source", item.field "target" with
    | some (.text about), some (.text target) => .ok ⟨⟨⟨"link", about⟩, none⟩, ⟨⟨"node", target⟩, none⟩⟩
    | _, _ => .error "note without an endpoint"
  else .error "not a note"

def notes : EdgeRegistration where
  edgeType := "note"
  shape := .directed
  pairPolicy := .parallel
  pairProjection := .intersectAdjacency
  endpointA := .concrete "link"
  endpointB := .concrete "node"
  scopeType := none
  adjacency := .eager
  selfLoops := .allow
  aDelete := .restrictEndpointDelete
  bDelete := .retainDangling
  extract := noteEndpoints
  extractScope _ := .ok none
  validate := none
  typed item endpoints h := by
    unfold noteEndpoints at h
    split at h
    · assumption
    · cases h
  unscoped := links.unscoped

/-- A server whose links are written about. -/
def annotated : MykoServerContext :=
  { server with
    schema :=
      { registrations := [links, notes]
        distinct := by decide
        overrides := fun _ => none
        categories := fun _ => []
        itemTypes := ["node", "link", "note"] } }

def nodesAndLink : ServerState :=
  final (set annotated (link "e" "x" "y"))
    (final (set annotated (node "y")) (final (set annotated (node "x")) .initial))

/-- The link that starts from one node is written about. -/
def linkWrittenAbout : ServerState := final (set annotated (note "n" "e" "y")) nodesAndLink

theorem heard_set (s : ServerState) (item : Item) {t : ServerState} {pending : PendingMutation}
    (only : (Call.set item).reductions annotated s = [(t, pending)])
    (kind : pending.kind = .uniform [item] .set)
    (extracts : ChangeExtracts annotated.schema t.registry ⟨.set, item⟩) :
    HeardCall annotated s (.set item) := by
  refine ⟨fun r member => ?_, fun _ _ same => by cases same⟩
  rw [only] at member
  obtain rfl := List.mem_singleton.mp member
  exact heard_single kind extracts

theorem extracts_of_new (registration : EdgeRegistration) {registry : StoreRegistry} {item : Item}
    (found : annotated.schema.registration item.entityType = some registration)
    (fresh : registry.canonicalItem item = none)
    (indexed : ∃ edge, registration.indexedEdge item = .ok edge) :
    ChangeExtracts annotated.schema registry ⟨.set, item⟩ := by
  intro other found'
  obtain rfl := Option.some.inj (found.symm.trans found')
  rw [fresh]
  refine ⟨registration.extracts_none, fun value same => ?_⟩
  obtain rfl := Option.some.inj same
  exact indexed

theorem linkWrittenAbout_heard : Run annotated (HeardCall annotated) linkWrittenAbout := by
  have node_x := heard_set .initial (node "x") rfl rfl fun _ found => by cases found
  have node_y := heard_set (final (set annotated (node "x")) .initial) (node "y") rfl rfl
    fun _ found => by cases found
  have link_e := heard_set (final (set annotated (node "y")) (final (set annotated (node "x")) .initial))
    (link "e" "x" "y") rfl rfl (extracts_of_new links rfl rfl ⟨_, rfl⟩)
  have note_n := heard_set nodesAndLink (note "n" "e" "y") rfl rfl (extracts_of_new notes rfl rfl ⟨_, rfl⟩)
  exact .call _ (.call _ (.call _ (.call _ .initial node_x) node_y) link_e) note_n

theorem linkWrittenAbout_run : Run annotated (fun _ _ => True) linkWrittenAbout :=
  .call (.set (note "n" "e" "y")) (.call (.set (link "e" "x" "y")) (.call (.set (node "y"))
    (.call (.set (node "x")) .initial trivial) trivial) trivial) trivial

theorem linkWrittenAbout_indexed :
    linkWrittenAbout.graph.MatchesRebuild annotated.schema linkWrittenAbout.registry :=
  matchesRebuild_iff.mpr
    (run_keeps (heard_calls annotated) (coherent_empty annotated.schema) (fun _ _ step => step.1)
      linkWrittenAbout_heard).1

/-- No deletion takes a note along that it does not name. -/
theorem note_stays {s : ServerState} {named : List EntityRef} {id : String} (unnamed : ⟨"note", id⟩ ∉ named) :
    ¬(s.view annotated).DeleteClosure named ⟨"note", id⟩ := by
  intro gone
  cases gone with
  | named listed => exact unnamed listed
  | cascade gone follows =>
    obtain ⟨registration, registered, typed, position, policy, -⟩ := follows
    have listed : registration ∈ [links, notes] := registered
    have either : registration = links ∨ registration = notes := by simpa using listed
    rcases either with rfl | rfl
    · exact absurd typed (by decide)
    · cases position <;> cases policy

theorem link_protected {named : List EntityRef} (unnamed : ⟨"note", "n"⟩ ∉ named) :
    (linkWrittenAbout.view annotated).Protected named ⟨"link", "e"⟩ :=
  ⟨notes, .tail _ (.head _), .a, "n", rfl, ⟨_, rfl, rfl⟩, note_stays unnamed⟩

theorem link_not_deleted : ∃ error t,
    (Call.del (link "e" "x" "y")).run annotated linkWrittenAbout = .error error t ∧
      t.registry = linkWrittenAbout.registry := by
  have met : (linkWrittenAbout.view annotated).MeetsProtected ((Call.del (link "e" "x" "y")).deleted annotated) :=
    ⟨⟨"link", "e"⟩, .named (by decide), link_protected (by decide)⟩
  refine restrict_atomic linkWrittenAbout_run linkWrittenAbout_indexed _ (fun _ => ?_) met
  refine ⟨⟨_, .head _, rfl⟩, _, .head _, .inl ?_⟩
  exact ⟨notes, .tail _ (.head _), .a, "n", rfl, _, rfl, rfl⟩

/-- The node goes before the link that starts from it is found to be written about. -/
theorem node_deleted_before_refusal : ∃ s, ∃ call : Call, ∃ error t,
    Run annotated (fun _ _ => True) s ∧ s.graph.MatchesRebuild annotated.schema s.registry ∧
      (s.view annotated).MeetsProtected (call.deleted annotated) ∧ call.run annotated s = .error error t ∧
        t.registry ≠ s.registry := by
  refine ⟨linkWrittenAbout, .del (node "x"), _, _, linkWrittenAbout_run, linkWrittenAbout_indexed,
    ⟨⟨"link", "e"⟩, ?_, link_protected (by decide)⟩, rfl, fun same => ?_⟩
  · have follows : (linkWrittenAbout.view annotated).Follows ⟨"node", "x"⟩ "link" "e" :=
      ⟨links, .head _, rfl, .a, rfl, _, rfl, rfl⟩
    exact .cascade (.named (by decide)) follows
  · have gone := congrArg (fun registry => (registry.getValue "node" "x").isSome) same
    exact absurd gone (by decide +kernel)

end Sample

end Myko

import Myko.Graph.LiveWatch
import Myko.Server.LiveWindow

/-!
The watches of a server through its calls. A commit publishes its changes once, and every watch that is open makes of
them what it can.
-/

namespace Myko
open StateError

variable {ctx : MykoServerContext}

/-- A mutation is rejected, or the index hears of it, the persisters take it if it replaces edges that are watched, and
every open watch follows it. -/
structure Watchable (ctx : MykoServerContext) (s : ServerState) (pending : PendingMutation) : Prop where
  heard : Heard ctx s pending
  taken : TakenWhole ctx s pending ∨ ∀ watch ∈ s.watches, ∀ change ∈ changesOf s pending,
    watch.hits (s.registry.canonicalItem change.item) = false ∧ watch.hits change.value = false
  follows : ∀ cascades, planPending ctx s pending = .ok (some cascades) →
    ∀ watch ∈ s.watches, watch.Follows s.registry (changesOf s pending)

/-- What a call reduces can be followed, and it deletes no edge by id that the index keeps or that a watch is on. -/
structure WatchableCall (ctx : MykoServerContext) (s : ServerState) (call : Call) : Prop where
  reduced : Allowed (Watchable ctx) (call.reductions ctx s)
  indexed : ∀ entityType id, call = .delById entityType id → ∀ registration,
    ctx.schema.registration entityType = some registration → KeepsIndex ctx.schema registration →
      s.registry.getValue entityType id = none
  watched : ∀ entityType id, call = .delById entityType id → ∀ watch ∈ s.watches,
    watch.hits (s.registry.getValue entityType id) = false

/-- The index matches the stores, and the watches hold what matches. -/
structure WatchesHold (ctx : MykoServerContext) (s : ServerState) : Prop where
  coherent : s.graph.Coherent ctx.schema s.registry
  registered : ∀ watch ∈ s.watches, watch.registration ∈ ctx.schema.registrations
  holds : ∀ watch ∈ s.watches, watch.Holds (s.registry.getValue watch.registration.edgeType)

variable {s t : ServerState} {pending : PendingMutation}

theorem publishWatchChanges_ok {schema : GraphSchema} {changes : List (Option Item × Option Item)}
    (routed : ∀ change ∈ changes, ∀ item, change.1 = some item ∨ change.2 = some item →
      ∃ routes, watchRoutesForRegistered schema item = .ok routes) (watches : List GraphWatch) :
    ∃ after, publishWatchChanges schema changes watches = .ok after := by
  have diffs := routes_of_published routed
  unfold publishWatchChanges
  split
  · exact ⟨watches, rfl⟩
  · split
    · exact ⟨watches, rfl⟩
    · rename_i diff only
      obtain ⟨routes, found⟩ := diffs diff (only ▸ List.mem_singleton_self diff)
      unfold publishWatchDiff
      rw [found]
      exact ⟨_, rfl⟩
    · obtain ⟨routes, found⟩ := routes_of_diffs diffs
      unfold publishWatchDiff watchRoutesForDiff
      rw [found]
      exact ⟨_, rfl⟩

theorem WatchesHold.core (hold : WatchesHold ctx s) (same : SameCore s t) : WatchesHold ctx t := by
  obtain ⟨coherent, registered, holds⟩ := hold
  rw [← same.registry, ← same.graph] at coherent
  rw [← same.watches] at registered holds
  rw [← same.registry] at holds
  exact ⟨coherent, registered, holds⟩

/-- A commit that can be followed is heard by every watch. -/
theorem watches_heard (hold : WatchesHold ctx s) (watchable : Watchable ctx s pending) {cascades : List Item}
    (plan : planPending ctx s pending = .ok (some cascades)) :
    (final (commitPending ctx pending) s).watches =
      s.watches.map fun watch => watch.hearAll s.registry (changesOf s pending) := by
  rcases watchable.heard with rejected | ⟨extracts, -, -⟩
  · exact absurd plan (rejected cascades)
  obtain ⟨after, told⟩ := publishWatchChanges_ok (routes_of_watchChanges extracts) s.watches
  have heard : toldWatches ctx s pending = s.watches.map fun watch => watch.hearAll s.registry (changesOf s pending) := by
    unfold toldWatches
    rw [told]
    exact GraphWatch.heard_of_published hold.registered told
  rw [watches_committed plan, heard]
  rcases watchable.taken with taken | quiet
  · rw [if_pos (publishes_of_planned plan extracts taken)]
  · have same : (s.watches.map fun watch => watch.hearAll s.registry (changesOf s pending)) = s.watches :=
      (List.map_congr_left fun watch member => GraphWatch.hearAll_quiet (quiet watch member)).trans (List.map_id _)
    rw [same, ite_self]

theorem WatchesHold.reduced (hold : WatchesHold ctx s) (watchable : Watchable ctx s pending) :
    WatchesHold ctx (final (reducePending ctx (submitDerived ctx) pending) s) := by
  refine WatchesHold.core ?_ (sameCore_after_commit ctx pending s)
  have coherent := coherent_committed hold.coherent watchable.heard
  rcases commitPending_final ctx pending s with ⟨unchanged, -⟩ | ⟨cascades, plan, applied⟩
  · rw [unchanged]
    exact hold
  · have heard := watches_heard hold watchable plan
    refine ⟨coherent, fun watch member => ?_, fun watch member => ?_⟩
    · rw [heard] at member
      obtain ⟨before, listed, rfl⟩ := List.mem_map.mp member
      rw [GraphWatch.registration_hearAll]
      exact hold.registered before listed
    · rw [heard] at member
      obtain ⟨before, listed, rfl⟩ := List.mem_map.mp member
      rw [applied.registry, GraphWatch.registration_hearAll]
      exact (hold.holds before listed).hearAll (watchable.follows cascades plan before listed)

theorem WatchesHold.opened (hold : WatchesHold ctx s) (edgeType : String)
    {watch : GraphView → EdgeRegistration → GraphWatch}
    (holds : ∀ registration ∈ ctx.schema.registrations, (watch (s.view ctx) registration).registration = registration ∧
      (watch (s.view ctx) registration).Holds (s.registry.getValue registration.edgeType)) :
    WatchesHold ctx (final (discard (openWatch ctx edgeType watch)) s) := by
  rw [final_openWatch]
  have added : ∀ opened ∈ ((ctx.schema.registration edgeType).map (watch (s.view ctx))).toList,
      opened.registration ∈ ctx.schema.registrations ∧
        opened.Holds (s.registry.getValue opened.registration.edgeType) := by
    intro opened member
    obtain ⟨registration, found, rfl⟩ := Option.map_eq_some_iff.mp (Option.mem_toList.mp member)
    have registered := (GraphSchema.registration_mem found).1
    obtain ⟨same, held⟩ := holds registration registered
    rw [same]
    exact ⟨registered, held⟩
  refine ⟨hold.coherent, fun opened member => ?_, fun opened member => ?_⟩
  · rcases List.mem_append.mp member with before | opens
    · exact hold.registered opened before
    · exact (added opened opens).1
  · rcases List.mem_append.mp member with before | opens
    · exact hold.holds opened before
    · exact (added opened opens).2

/-- An entity that no watch is on may go. -/
theorem WatchesHold.forgotten (hold : WatchesHold ctx s) {entityType id : String}
    (indexed : ∀ registration, ctx.schema.registration entityType = some registration →
      KeepsIndex ctx.schema registration → s.registry.getValue entityType id = none)
    (watched : ∀ watch ∈ s.watches, watch.hits (s.registry.getValue entityType id) = false) (same : t.graph = s.graph)
    (removed : t.registry = s.registry.remove entityType id) (watches : t.watches = s.watches) : WatchesHold ctx t := by
  refine ⟨?_, ?_, ?_⟩
  · rw [same, removed]
    exact coherent_remove hold.coherent indexed
  · rw [watches]
    exact hold.registered
  · rw [watches, removed]
    exact fun watch member => (hold.holds watch member).remove (watched watch member)

/-- The calls of which every watch hears keep the watches. -/
theorem watchable_calls (ctx : MykoServerContext) :
    CallInvariant ctx (WatchableCall ctx) (fun _ _ => True) (Watchable ctx) (fun _ => True)
      (WatchesHold ctx) (WatchesHold ctx) where
  enter {s t _ _ _ _} hold _ _ _ queued := by
    obtain ⟨c, rfl, -⟩ := enqueueCausal_ok rfl queued
    exact hold.core ⟨rfl, rfl, rfl, rfl⟩
  replace {s t _ _} hold _ _ queued := by
    obtain ⟨c, rfl, -⟩ := enqueueCausalReplace_ok rfl queued
    exact hold.core ⟨rfl, rfl, rfl, rfl⟩
  reduce hold _ _ watchable := WatchesHold.reduced (hold.core ⟨rfl, rfl, rfl, rfl⟩) watchable
  direct hold _ _ _ watchable := WatchesHold.reduced hold watchable
  close hold _ := hold.core ⟨rfl, rfl, rfl, rfl⟩
  entries _ := entries_always _ _
  buffers hold := hold.core ⟨rfl, rfl, rfl, rfl⟩
  other {s call} hold _ other step := by
    cases call with
    | delById entityType id =>
      obtain ⟨_, _, same⟩ := final_delById ctx entityType id s
      change WatchesHold ctx (final (delById ctx entityType id) s)
      rw [same]
      exact hold.forgotten (step.indexed entityType id rfl) (step.watched entityType id rfl) rfl rfl rfl
    | setEdgeApplyMode edgeType mode =>
      obtain ⟨_, same, -⟩ := final_setEdgeApplyMode ctx edgeType mode s
      change WatchesHold ctx (final (discard (setEdgeApplyMode ctx edgeType mode)) s)
      rw [same]
      exact ⟨hold.coherent, hold.registered, hold.holds⟩
    | setCausalLimits limits => exact ⟨hold.coherent, hold.registered, hold.holds⟩
    | watch edgeType selection =>
      exact hold.opened edgeType fun registration registered =>
        ⟨rfl, @GraphWatch.holds_watchMatching (s.view ctx) registration hold.coherent registered selection⟩
    | watchCountAt edgeType position endpoint =>
      exact hold.opened edgeType fun registration registered =>
        ⟨rfl, @GraphWatch.holds_watchCountAt (s.view ctx) registration hold.coherent registered position endpoint⟩
    | watchCountBetween edgeType a b =>
      exact hold.opened edgeType fun registration registered =>
        ⟨rfl, @GraphWatch.holds_watchCountBetween (s.view ctx) registration hold.coherent registered a b⟩
    | _ => exact absurd trivial other

/-- One write alone is followed if it extracts. -/
theorem watchable_single {item : Item} {change : MEventType} (kind : pending.kind = .uniform [item] change)
    (extracts : ChangeExtracts ctx.schema s.registry ⟨change, item⟩) : Watchable ctx s pending where
  heard := heard_single kind extracts
  taken := .inl fun _ _ _ _ replaces => by cases kind.symm.trans replaces
  follows _ _ watch _ := by
    obtain ⟨_, origin, mode, depth, chain⟩ := pending
    cases kind
    rw [changesOf_single]
    exact GraphWatch.follows_of_distinct watch (List.nodup_singleton _)

namespace Sample

theorem watchable_set {s t : ServerState} {pending : PendingMutation} (item : Item)
    (only : (Call.set item).reductions server s = [(t, pending)]) (kind : pending.kind = .uniform [item] .set)
    (extracts : ChangeExtracts server.schema t.registry ⟨.set, item⟩) : WatchableCall server s (.set item) where
  reduced r member := by
    rw [only] at member
    obtain rfl := List.mem_singleton.mp member
    exact watchable_single kind extracts
  indexed _ _ same := by cases same
  watched _ _ same := by cases same

/-- The links of `x` are counted, and a batch is about to turn one of them that is new. -/
def counting : ServerState :=
  final ((Call.watchCountAt "link" .a x).run server)
    (final ((Call.batchSet [node "x", node "y", node "z"]).run server) .initial)

def turnedAtOnce : Call := .batchSet [link "e" "x" "y", link "e" "x" "z"]

def miscounts (view : GraphView) (watch : GraphWatch) : Bool :=
  match watch.output with
  | .map _ => false
  | .count count => count ≠ (view.edgeIds watch.registration watch.selection).length

end Sample

end Myko

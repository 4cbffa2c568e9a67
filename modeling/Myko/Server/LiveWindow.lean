import Myko.Graph.LiveWindow
import Myko.Server.IndexCoherence

/-!
Windows kept through the calls of a server. A commit publishes its changes once they are written, and each window
that is open then looks again or is left as it is.
-/

namespace Myko
open StateError Query

variable {ctx : MykoServerContext}

/-! ### From reduction to reduction -/

/-- Reductions that lead from one state to another, each begun with the stores and the index the one before it left. -/
inductive Trail (ctx : MykoServerContext) : ServerState → List Reduction → ServerState → Prop where
  | nil {s t : ServerState} (same : SameCore s t) : Trail ctx s [] t
  | cons {s t : ServerState} {reduction : Reduction} {rest : List Reduction} (same : SameCore s reduction.1)
    (later : Trail ctx (final (reducePending ctx (submitDerived ctx) reduction.2) reduction.1) rest t) :
    Trail ctx s (reduction :: rest) t

namespace Trail

variable {s s' t t' u : ServerState} {reductions others : List Reduction}

theorem before (same : SameCore s s') (trail : Trail ctx s' reductions t) : Trail ctx s reductions t := by
  cases trail with
  | nil same' => exact .nil (same.trans same')
  | cons same' later => exact .cons (same.trans same') later

theorem after (trail : Trail ctx s reductions t) (same : SameCore t t') : Trail ctx s reductions t' := by
  induction trail with
  | nil same' => exact .nil (same'.trans same)
  | cons same' _ ih => exact .cons same' (ih same)

theorem append (trail : Trail ctx s reductions t) (later : Trail ctx t others u) :
    Trail ctx s (reductions ++ others) u := by
  induction trail with
  | nil same => exact later.before same
  | cons same _ ih => exact .cons same (ih later)

theorem drained (halt : Bool) (fuel : Nat) (s : ServerState) :
    Trail ctx s (drainReductions ctx halt fuel s) (final (drain ctx (submitDerived ctx) halt fuel) s) := by
  induction fuel generalizing s with
  | zero => exact .nil (SameCore.refl s)
  | succ fuel ih =>
    rw [drain, drainReductions, final_bind]
    rcases popPending_cases s with pop | ⟨c, pending, queue, causal, queued, pop⟩
    · rw [pop]
      exact .nil (SameCore.refl s)
    · rw [pop]
      dsimp only
      have popped : SameCore s { s with causal := some (c.pop pending queue) } := ⟨rfl, rfl, rfl, rfl⟩
      refine .cons popped ?_
      dsimp only
      rw [final_bind]
      cases run : reducePending ctx (submitDerived ctx) pending { s with causal := some (c.pop pending queue) } with
      | error error u =>
        rw [final_of_error run]
        exact .nil (SameCore.refl u)
      | ok applied u =>
        rw [final_of_ok run]
        dsimp only
        split
        · exact .nil (SameCore.refl u)
        · exact ih u

theorem rooted {halt : Bool} {items : List Item} {enqueue : ServerM Unit}
    (queued : enqueue (s.opened ctx) = .ok () t) (same : SameCore s t) :
    Trail ctx s (rootReductions ctx halt items enqueue s)
      (final (runRoot ctx (submitDerived ctx) halt items enqueue) s) := by
  have closed : ∀ u : ServerState, SameCore u u.closed := fun _ => ⟨rfl, rfl, rfl, rfl⟩
  have through := (Trail.drained halt (drainBound s.causalLimits items) t : Trail ctx _ _ _).after (closed _)
  unfold rootReductions final at *
  rw [runRoot_eq, queued]
  dsimp only at through ⊢
  refine Trail.before same ?_
  cases run : drain ctx (submitDerived ctx) halt (drainBound s.causalLimits items) t <;> rw [run] at through <;>
    exact through

theorem submitted (outside : s.causal = none) : ∀ submission : Submission,
    Trail ctx s (submission.reductions ctx s) (final (submission.run ctx) s) ∧
      (final (submission.run ctx) s).causal = none := by
  intro submission
  cases submission with
  | uniform items change origin mode =>
    unfold Submission.reductions Submission.run submitReductions submitMutationMode
    dsimp only
    rw [final_bind, get_eq]
    dsimp only
    simp only [outside, Option.isSome_none, Bool.false_eq_true, ↓reduceIte]
    by_cases rooted : needsCausalRoot ctx items change origin = true
    · simp only [rooted, ↓reduceIte]
      rw [final_discard]
      obtain ⟨t, queued⟩ := enqueueCausal_own ctx items change origin mode s
      refine ⟨Trail.rooted queued ?_, runRoot_causal s⟩
      obtain ⟨c, rfl, -⟩ := enqueueCausal_ok rfl queued
      exact ⟨rfl, rfl, rfl, rfl⟩
    · simp only [rooted, Bool.false_eq_true, ↓reduceIte]
      rw [final_discard]
      exact ⟨.cons (SameCore.refl s) (.nil (SameCore.refl _)), reducePending_causal outside⟩
  | replace upserts deletes =>
    unfold Submission.reductions Submission.run replaceReductions submitReplaceMutationInner
    dsimp only
    rw [final_discard]
    by_cases empty : (upserts.isEmpty && deletes.isEmpty) = true
    · rw [if_pos empty, empty, Bool.or_true, if_pos rfl]
      exact ⟨.nil (SameCore.refl s), outside⟩
    · rw [if_neg empty, final_bind, get_eq]
      dsimp only
      simp only [outside, Option.isSome_none, Bool.false_or, Bool.false_eq_true, empty, ↓reduceIte]
      obtain ⟨t, queued⟩ := enqueueCausalReplace_own ctx upserts deletes .localOrigin .authoritative none s
      refine ⟨Trail.rooted queued ?_, runRoot_causal s⟩
      obtain ⟨c, rfl, -⟩ := enqueueCausalReplace_ok rfl queued
      exact ⟨rfl, rfl, rfl, rfl⟩

theorem submissions (submissions : List Submission) (outside : s.causal = none) :
    Trail ctx s (submissionReductions ctx submissions s) (final (each (Submission.run ctx) submissions) s) := by
  induction submissions generalizing s with
  | nil => exact .nil (SameCore.refl s)
  | cons submission rest ih =>
    have first : Trail ctx s (submission.reductions ctx s) (final (submission.run ctx) s) ∧ _ :=
      Trail.submitted outside submission
    obtain ⟨first, closed⟩ := first
    rw [submissionReductions, each, final_bind]
    cases run : submission.run ctx s with
    | error error t =>
      rw [final_of_error run] at first
      rw [List.append_nil]
      exact first
    | ok _ t =>
      rw [final_of_ok run] at first closed
      exact first.append (ih closed)

/-- The reductions of a call lead to the state it leaves. -/
theorem called {call : Call} (submits : call.Submits) (outside : s.causal = none) :
    Trail ctx s (call.reductions ctx s) (final (call.run ctx) s) := by
  have started : SameCore s (call.start s) ∧ (call.start s).causal = none := by
    cases call with
    | flushBufferedEventsForType entityType => exact ⟨⟨rfl, rfl, rfl, rfl⟩, outside⟩
    | _ => exact ⟨SameCore.refl s, outside⟩
  obtain ⟨buffers, same⟩ := final_call ctx submits s
  rw [same]
  exact (Trail.submissions _ started.2).before started.1 |>.after ⟨rfl, rfl, rfl, rfl⟩

end Trail

/-! ### What a reduction publishes -/

def succeeds {α : Type} (m : ServerM α) (s : ServerState) : Bool :=
  match m s with
  | .ok _ _ => true
  | .error _ _ => false

/-- A state whose stores have been written by a mutation. -/
def ServerState.written (s : ServerState) (pending : PendingMutation) : ServerState :=
  { s with registry := s.registry.writeAll (changesOf s pending) }

/-- Whether a reduction comes to publish its changes. A write on its own is published once it is indexed, a batch
whatever the index and the persisters answer, and a replacement if they take all of it. -/
def publishes (ctx : MykoServerContext) (s : ServerState) (pending : PendingMutation) : Bool :=
  match planPending ctx s pending, pending.kind with
  | .ok (some _), .uniform [item] change =>
    succeeds (indexItem ctx s.registry (coordinatedOf ctx pending) ⟨change, item⟩) (s.written pending)
  | .ok (some _), .uniform _ _ => true
  | .ok (some _), .replace _ _ _ =>
    succeeds (each (indexAndPersist ctx s.registry (coordinatedOf ctx pending) pending.origin) (changesOf s pending))
      (s.written pending)
  | _, _ => false

namespace WindowWatch

/-- What a watch makes of a reduction. -/
def hear (ctx : MykoServerContext) (watch : WindowWatch) (s : ServerState) (pending : PendingMutation) :
    Option WindowWatch :=
  if publishes ctx s pending then
    match watch.publish ((final (commitPending ctx pending) s).view ctx)
      (watchChanges ctx s.registry (changesOf s pending)) with
    | .ok heard => heard
    | .error _ => some watch
  else some watch

/-- What it makes of several, one after the other. -/
def hears (ctx : MykoServerContext) (watch : WindowWatch) (reductions : List Reduction) : Option WindowWatch :=
  reductions.foldlM (fun watch reduction => watch.hear ctx reduction.1 reduction.2) watch

end WindowWatch

/-- A replacement that passes its checks is taken by the persisters. -/
def TakenWhole (ctx : MykoServerContext) (s : ServerState) (pending : PendingMutation) : Prop :=
  ∀ upserts deletes expected cascades, pending.kind = .replace upserts deletes expected →
    planPending ctx s pending = .ok (some cascades) → ∃ t, applyPending ctx s pending s = .ok () t

section
variable {s : ServerState} {pending : PendingMutation} {cascades : List Item}

/-- What is planned, extracts and is taken is published. -/
theorem publishes_of_planned (plan : planPending ctx s pending = .ok (some cascades))
    (extracts : ∀ change ∈ changesOf s pending, ChangeExtracts ctx.schema s.registry change)
    (taken : TakenWhole ctx s pending) : publishes ctx s pending = true := by
  have ready := ready_of_plan plan
  unfold publishes
  rw [plan]
  obtain ⟨kind, origin, mode, depth, chain⟩ := pending
  cases kind with
  | uniform items change =>
    match items with
    | [] => rfl
    | first :: second :: rest => rfl
    | [item] =>
      have listed : (⟨change, item⟩ : Change) ∈ changesOf s ⟨.uniform [item] change, origin, mode, depth, chain⟩ := by
        rw [changesOf_single]
        exact List.mem_singleton_self _
      dsimp only
      unfold succeeds
      rw [indexItem_run (ready _ listed) (extracts _ listed)]
  | replace upserts deletes expected =>
    obtain ⟨t, run⟩ := taken upserts deletes expected cascades rfl plan
    have distinct := replace_nodup rfl plan
    have nodup : ((effectiveDeletes s deletes ++ upserts).map fun item => (item.entityType, item.id)).Nodup :=
      distinct.sublist ((List.filter_sublist.append_right upserts).map _)
    dsimp only
    unfold succeeds
    cases named : upserts.head?.or deletes.head? with
    | none =>
      have none : upserts = [] ∧ deletes = [] := by
        cases upserts <;> cases deletes <;> simp_all
      obtain ⟨rfl, rfl⟩ := none
      rfl
    | some first =>
      unfold applyPending at run
      dsimp only at run
      rw [named] at run
      dsimp only at run
      rw [bind_of_ok (modify_eq _ s), replaceWrites_eq s.registry nodup] at run
      obtain ⟨_, mid, told, -⟩ := bind_ok run
      have changes : changesOf s ⟨.replace upserts deletes expected, origin, mode, depth, chain⟩ =
        (effectiveDeletes s deletes).map (Change.mk .del) ++ upserts.map (Change.mk .set) := rfl
      unfold ServerState.written
      rw [changes, told]

/-- What the watches hold once they have been told of the changes, if they can be. -/
def toldWatches (ctx : MykoServerContext) (s : ServerState) (pending : PendingMutation) : List GraphWatch :=
  match publishWatchChanges ctx.schema (watchChanges ctx s.registry (changesOf s pending)) s.watches with
  | .ok watches => watches
  | .error _ => s.watches

theorem watches_of_publishing (item : Item) {t : ServerState} (same : t.watches = s.watches)
    {watch : List (Option Item × Option Item)}
    (told : watch = if coordinatedOf ctx pending && hasWatchSubscribers s.watches then
      watchChanges ctx s.registry (changesOf s pending) else []) :
    (final (if watch.isEmpty then pure () else
      liftWatches item (publishWatchChanges ctx.schema watch) : ServerM Unit) t).watches = toldWatches ctx s pending := by
  unfold toldWatches
  cases watched : hasWatchSubscribers s.watches with
  | false =>
    rw [watched, Bool.and_false] at told
    subst told
    rw [publishWatchChanges_unwatched _ watched]
    exact same
  | true =>
    have changes : watch = watchChanges ctx s.registry (changesOf s pending) := by
      rw [told, watched, Bool.and_true]
      split
      · rfl
      · rename_i uncoordinated
        symm
        rw [watchChanges, List.map_eq_nil_iff, List.filter_eq_nil_iff]
        exact fun change member registered => uncoordinated (told_of_registered member registered)
    rw [← changes]
    cases watch with
    | nil =>
      rw [publishWatchChanges_nil]
      exact same
    | cons first rest =>
      rw [List.isEmpty_cons, if_neg Bool.false_ne_true]
      unfold final
      rw [liftWatches_eq, same]
      cases publishWatchChanges ctx.schema (first :: rest) s.watches with
      | ok watches => rfl
      | error error => exact same

theorem succeeds_indexItem {before : StoreRegistry} {coordinated : Bool} {change : Change} {t : ServerState}
    (same : t.graph = s.graph) :
    succeeds (indexItem ctx before coordinated change) t = succeeds (indexItem ctx before coordinated change) s := by
  have lifted : ∀ u : ServerState, succeeds (indexItem ctx before true change) u =
      match applyEdge ctx.schema (before.canonicalItem change.item) change.value u.graph with
      | .ok _ _ => true
      | .error _ _ => false := by
    intro u
    unfold succeeds indexItem
    rw [if_pos rfl]
    cases applied : applyEdge ctx.schema (before.canonicalItem change.item) change.value u.graph with
    | ok generation graph =>
      rw [discard_of_ok (a := generation) (t := { u with graph }) (by unfold liftGraph; rw [applied])]
    | error error graph =>
      rw [discard_of_error (e := graphError change.item error) (t := { u with graph })
        (by unfold liftGraph; rw [applied])]
  cases coordinated with
  | false => rfl
  | true => rw [lifted, lifted, same]

theorem toldWatches_nothing (none : changesOf s pending = []) : toldWatches ctx s pending = s.watches := by
  have unwatched : watchChanges ctx s.registry (changesOf s pending) = [] := by
    rw [none]
    rfl
  rw [toldWatches, unwatched, publishWatchChanges_nil]

section
variable {origin : Origin} {mode : EdgeApplyMode} {depth : Nat} {chain : List String}

/-- A write on its own is published once it is indexed. -/
theorem watches_single {item : Item} {change : MEventType}
    (plan : planPending ctx s ⟨.uniform [item] change, origin, mode, depth, chain⟩ = .ok (some cascades)) :
    let pending : PendingMutation := ⟨.uniform [item] change, origin, mode, depth, chain⟩
    (final (applyPending ctx s pending) s).watches =
      if publishes ctx s pending then toldWatches ctx s pending else s.watches := by
  obtain ⟨written, reduced, -, -, graph, watches, -, -⟩ := reduceOne_run ctx ⟨change, item⟩ s
  have told : publishes ctx s ⟨.uniform [item] change, origin, mode, depth, chain⟩ =
      succeeds (indexItem ctx s.registry
        (coordinatedOf ctx ⟨.uniform [item] change, origin, mode, depth, chain⟩) ⟨change, item⟩) written := by
    unfold publishes
    rw [plan]
    exact succeeds_indexItem graph.symm
  dsimp only
  rw [told]
  unfold applyPending succeeds
  dsimp only
  rw [final_bind, reduced]
  dsimp only
  rw [final_bind]
  cases index : indexItem ctx s.registry (coordinatedOf ctx ⟨.uniform [item] change, origin, mode, depth, chain⟩)
      ⟨change, item⟩ written with
  | error error t =>
    have kept := ((moves_indexItem s.registry _ _).error index).watches
    exact kept.trans watches
  | ok _ t =>
    have kept := ((moves_indexItem s.registry _ _).ok index).watches
    have publish : publishWatchChange ctx.schema (s.registry.canonicalItem item) (newValue change item) =
        publishWatchChanges ctx.schema [(s.registry.canonicalItem item, newValue change item)] :=
      funext (publishWatchChange_eq _ _)
    have single : changesOf s ⟨.uniform [item] change, origin, mode, depth, chain⟩ = [⟨change, item⟩] :=
      changesOf_single s item change origin mode depth chain
    have unwatched := ((moves_persistItem ctx origin ⟨change, item⟩).final t).1.watches
    dsimp only
    rw [final_both, if_pos rfl, publish, ← watches_of_publishing item ((unwatched.trans kept).trans watches) rfl,
      single]
    unfold watchChanges
    cases coordinatedOf ctx ⟨.uniform [item] change, origin, mode, depth, chain⟩ <;>
      cases hasWatchSubscribers s.watches <;>
      cases registered : (ctx.schema.registration item.entityType).isSome <;> simp [registered, newValue]

/-- A batch is published whatever the index and the persisters answer. -/
theorem watches_batch {first second : Item} {rest : List Item} {change : MEventType}
    (plan : planPending ctx s ⟨.uniform (first :: second :: rest) change, origin, mode, depth, chain⟩ =
      .ok (some cascades)) :
    let pending : PendingMutation := ⟨.uniform (first :: second :: rest) change, origin, mode, depth, chain⟩
    (final (applyPending ctx s pending) s).watches =
      if publishes ctx s pending then toldWatches ctx s pending else s.watches := by
  have told : publishes ctx s ⟨.uniform (first :: second :: rest) change, origin, mode, depth, chain⟩ = true := by
    unfold publishes
    rw [plan]
  dsimp only
  rw [told, if_pos rfl]
  unfold applyPending
  dsimp only
  rw [final_bind, modify_eq]
  dsimp only
  rw [final_both]
  refine watches_of_publishing first ?_ rfl
  exact ((moves_indexAndPersist ctx s.registry _ origin _).final _).watches

/-- A replacement is published if index and persisters take all of it. -/
theorem watches_replace {upserts deletes : List Item} {expected : Option Nat} {first : Item}
    (named : upserts.head?.or deletes.head? = some first)
    (plan : planPending ctx s ⟨.replace upserts deletes expected, origin, mode, depth, chain⟩ = .ok (some cascades)) :
    let pending : PendingMutation := ⟨.replace upserts deletes expected, origin, mode, depth, chain⟩
    (final (applyPending ctx s pending) s).watches =
      if publishes ctx s pending then toldWatches ctx s pending else s.watches := by
  have distinct := replace_nodup rfl plan
  have nodup : ((effectiveDeletes s deletes ++ upserts).map fun item => (item.entityType, item.id)).Nodup :=
    distinct.sublist ((List.filter_sublist.append_right upserts).map _)
  have told : publishes ctx s ⟨.replace upserts deletes expected, origin, mode, depth, chain⟩ =
      succeeds (each (indexAndPersist ctx s.registry
        (coordinatedOf ctx ⟨.replace upserts deletes expected, origin, mode, depth, chain⟩) origin)
        (changesOf s ⟨.replace upserts deletes expected, origin, mode, depth, chain⟩))
        (s.written ⟨.replace upserts deletes expected, origin, mode, depth, chain⟩) := by
    unfold publishes
    rw [plan]
  have changes : changesOf s ⟨.replace upserts deletes expected, origin, mode, depth, chain⟩ =
    (effectiveDeletes s deletes).map (Change.mk .del) ++ upserts.map (Change.mk .set) := rfl
  have written : { s with registry := s.registry.writeAll ((effectiveDeletes s deletes).map (Change.mk .del) ++
      upserts.map (Change.mk .set)) } = s.written ⟨.replace upserts deletes expected, origin, mode, depth, chain⟩ :=
    rfl
  dsimp only
  rw [told]
  unfold applyPending succeeds
  dsimp only
  rw [named]
  dsimp only
  rw [final_bind, modify_eq, replaceWrites_eq s.registry nodup]
  dsimp only
  rw [final_bind, written, ← changes]
  cases told : each (indexAndPersist ctx s.registry
      (coordinatedOf ctx ⟨.replace upserts deletes expected, origin, mode, depth, chain⟩) origin)
      (changesOf s ⟨.replace upserts deletes expected, origin, mode, depth, chain⟩)
      (s.written ⟨.replace upserts deletes expected, origin, mode, depth, chain⟩) with
  | error error t => exact ((moves_indexAndPersist ctx s.registry _ origin _).error told).watches
  | ok _ t =>
    have kept : t.watches = s.watches := ((moves_indexAndPersist ctx s.registry _ origin _).ok told).watches
    rw [if_pos rfl, ← watches_of_publishing first kept rfl]
    dsimp only
    cases coordinatedOf ctx ⟨.replace upserts deletes expected, origin, mode, depth, chain⟩ &&
      hasWatchSubscribers s.watches <;>
      cases watchChanges ctx s.registry (changesOf s ⟨.replace upserts deletes expected, origin, mode, depth, chain⟩) <;>
      rfl

end

/-- The watches of a server are told of a reduction just where it publishes. -/
theorem watches_committed (plan : planPending ctx s pending = .ok (some cascades)) :
    (final (commitPending ctx pending) s).watches =
      if publishes ctx s pending then toldWatches ctx s pending else s.watches := by
  have committed : (final (commitPending ctx pending) s).watches = (final (applyPending ctx s pending) s).watches := by
    have run := commitPending_eq ctx pending s
    rw [plan] at run
    unfold final
    rw [run]
    dsimp only
    rw [bind_eq]
    cases applyPending ctx s pending s <;> rfl
  rw [committed]
  obtain ⟨kind, origin, mode, depth, chain⟩ := pending
  cases kind with
  | uniform items change =>
    match items with
    | [] =>
      rw [toldWatches_nothing rfl]
      exact (ite_self s.watches).symm
    | [_] => exact watches_single plan
    | _ :: _ :: _ => exact watches_batch plan
  | replace upserts deletes expected =>
    cases named : upserts.head?.or deletes.head? with
    | none =>
      have none : upserts = [] ∧ deletes = [] := by
        cases upserts <;> cases deletes <;> simp_all
      obtain ⟨rfl, rfl⟩ := none
      rw [toldWatches_nothing rfl]
      exact (ite_self s.watches).symm
    | some first => exact watches_replace named plan

/-- A change of an edge that extracts is routed. -/
theorem routes_of_extracts {schema : GraphSchema} {registration : EdgeRegistration} {item : Item}
    (found : schema.registration item.entityType = some registration)
    (extracts : registration.Extracts (some item)) : ∃ routes, watchRoutesForRegistered schema item = .ok routes := by
  obtain ⟨edge, indexed⟩ := extracts item rfl
  have endpoints := (EdgeRegistration.read_of_indexed indexed).1
  unfold watchRoutesForRegistered
  rw [found]
  exact ⟨_, watchRoutesForItem_of_extract endpoints⟩

/-- Every edge among the changes of a batch that extracts is routed. -/
theorem routes_of_watchChanges (extracts : ∀ change ∈ changesOf s pending, ChangeExtracts ctx.schema s.registry change) :
    ∀ change ∈ watchChanges ctx s.registry (changesOf s pending), ∀ item, change.1 = some item ∨ change.2 = some item →
      ∃ routes, watchRoutesForRegistered ctx.schema item = .ok routes := by
  intro change member item here
  obtain ⟨written, among, rfl⟩ := List.mem_map.mp member
  obtain ⟨among, registered⟩ := List.mem_filter.mp among
  obtain ⟨entry, found⟩ := Option.isSome_iff_exists.mp registered
  obtain ⟨old, new⟩ := extracts written among entry found
  rcases here with here | here
  · dsimp only at here
    have typed := (StoreRegistry.getValue_keyed here).1
    rw [here] at old
    exact routes_of_extracts (by rw [typed]; exact found) old
  · dsimp only at here
    rw [here] at new
    obtain ⟨kind, value⟩ := written
    cases kind with
    | del => cases here
    | set =>
      cases here
      exact routes_of_extracts found new

theorem routes_of_change {schema : GraphSchema} {old new : Option Item} {diff : GraphWatchDiff}
    (same : watchDiffFromChange schema old new = some diff)
    (routed : ∀ item, old = some item ∨ new = some item → ∃ routes, watchRoutesForRegistered schema item = .ok routes) :
    ∃ routes, watchRoutesForDiff schema diff = .ok routes := by
  unfold watchDiffFromChange at same
  split at same
  · cases same
  · split at same
    · cases same
    · split at same
      · cases same
        unfold watchRoutesForDiff
        exact routed _ (.inr rfl)
      · cases same
        unfold watchRoutesForDiff
        exact routed _ (.inl rfl)
      · cases same
        obtain ⟨before, first⟩ := routed _ (.inl rfl)
        obtain ⟨now, second⟩ := routed _ (.inr rfl)
        unfold watchRoutesForDiff
        rw [first, second]
        exact ⟨_, rfl⟩
      · cases same

theorem routes_of_diffs {schema : GraphSchema} {diffs : List GraphWatchDiff}
    (routed : ∀ diff ∈ diffs, ∃ routes, watchRoutesForDiff schema diff = .ok routes) :
    ∃ routes, watchRoutesForDiffs schema diffs = .ok routes := by
  induction diffs with
  | nil => exact ⟨[], rfl⟩
  | cons diff rest ih =>
    obtain ⟨first, own⟩ := routed diff List.mem_cons_self
    obtain ⟨others, later⟩ := ih fun other member => routed other (List.mem_cons_of_mem _ member)
    unfold watchRoutesForDiffs
    rw [own, later]
    exact ⟨_, rfl⟩

theorem routes_of_published {schema : GraphSchema} {changes : List (Option Item × Option Item)}
    (routed : ∀ change ∈ changes, ∀ item, change.1 = some item ∨ change.2 = some item →
      ∃ routes, watchRoutesForRegistered schema item = .ok routes) :
    ∀ diff ∈ changes.filterMap fun change => watchDiffFromChange schema change.1 change.2,
      ∃ routes, watchRoutesForDiff schema diff = .ok routes := by
  intro diff among
  obtain ⟨change, listed, same⟩ := List.mem_filterMap.mp among
  exact routes_of_change same (routed change listed)

theorem affectedBy_ok (watch : WindowWatch) {schema : GraphSchema} {changes : List (Option Item × Option Item)}
    (routed : ∀ change ∈ changes, ∀ item, change.1 = some item ∨ change.2 = some item →
      ∃ routes, watchRoutesForRegistered schema item = .ok routes) :
    ∃ affected, watch.affectedBy schema changes = .ok affected := by
  have diffs := routes_of_published routed
  have one : ∀ {diff}, (∃ routes, watchRoutesForDiff schema diff = .ok routes) →
      ∃ affected, watch.affected schema diff = .ok affected := by
    rintro diff ⟨routes, found⟩
    unfold WindowWatch.affected
    rw [found]
    exact ⟨_, rfl⟩
  unfold WindowWatch.affectedBy
  split
  · exact ⟨false, rfl⟩
  · rename_i diff listed
    exact one (diffs diff (listed ▸ List.mem_singleton_self diff))
  · obtain ⟨routes, found⟩ := routes_of_diffs diffs
    refine one ⟨routes, ?_⟩
    unfold watchRoutesForDiff
    exact found

end

/-! ### A watch along a run -/

section
variable {registration : EdgeRegistration} {target : WindowTarget}

/-- The condition on a reduction: the index hears of it, a replacement is taken by the persisters, and an edge that
stays between two ends a window is on keeps its scope or goes on having none. -/
structure Followed (ctx : MykoServerContext) (registration : EdgeRegistration) (target : WindowTarget) (s : ServerState)
    (pending : PendingMutation) : Prop where
  heard : Heard ctx s pending
  taken : TakenWhole ctx s pending
  stays : StaysShown registration target s.registry (changesOf s pending)

variable {s t : ServerState} {pending : PendingMutation} {watch : WindowWatch}

theorem UpToDate.core (fresh : UpToDate registration target (s.view ctx) watch) (same : SameCore s t) :
    UpToDate registration target (t.view ctx) watch := by
  have views : t.view ctx = s.view ctx := by
    unfold ServerState.view
    rw [same.registry, same.graph, same.applyModes]
  rwa [views]

/-- A watch hears of a reduction and is fresh again. -/
theorem UpToDate.hear (fresh : UpToDate registration target (s.view ctx) watch)
    (followed : Followed ctx registration target s pending) :
    ∃ after, watch.hear ctx s pending = some after ∧
      UpToDate registration target ((final (reducePending ctx (submitDerived ctx) pending) s).view ctx) after := by
  have same := sameCore_after_commit ctx pending s
  have coherent := coherent_committed fresh.coherent followed.heard
  unfold WindowWatch.hear
  rcases commitPending_final ctx pending s with ⟨unchanged, unplanned⟩ | ⟨cascades, plan, applied⟩
  · rw [unchanged] at same
    have silent : publishes ctx s pending = false := by
      unfold publishes
      split
      · exact absurd ‹planPending ctx s pending = _› (unplanned _)
      · exact absurd ‹planPending ctx s pending = _› (unplanned _)
      · exact absurd ‹planPending ctx s pending = _› (unplanned _)
      · rfl
    rw [if_neg (by simp [silent])]
    exact ⟨watch, rfl, fresh.core same⟩
  · rcases followed.heard with rejected | ⟨extracts, -, -⟩
    · exact absurd plan (rejected cascades)
    have told := publishes_of_planned plan extracts followed.taken
    rw [if_pos told]
    have routed := routes_of_watchChanges extracts
    obtain ⟨affected, decided⟩ := affectedBy_ok watch routed
    have same_schema : ((final (commitPending ctx pending) s).view ctx).schema = (s.view ctx).schema := rfl
    have looks := fresh.look same_schema coherent fresh.valid
    have publish : ∃ after, watch.publish ((final (commitPending ctx pending) s).view ctx)
        (watchChanges ctx s.registry (changesOf s pending)) = .ok (some after) := by
      unfold WindowWatch.publish
      have schema : ((final (commitPending ctx pending) s).view ctx).schema = ctx.schema := rfl
      rw [schema, decided]
      obtain ⟨looked, found, -⟩ := looks
      cases affected with
      | true => exact ⟨looked, congrArg Except.ok found⟩
      | false => exact ⟨watch, rfl⟩
    obtain ⟨after, published⟩ := publish
    rw [published]
    refine ⟨after, rfl, ?_⟩
    have committed : UpToDate registration target ((final (commitPending ctx pending) s).view ctx) after :=
      fresh.publish same_schema applied.registry coherent followed.stays published
    exact committed.core same

theorem UpToDate.hears {reductions : List Reduction} (fresh : UpToDate registration target (s.view ctx) watch)
    (trail : Trail ctx s reductions t) (followed : Allowed (Followed ctx registration target) reductions) :
    ∃ after, watch.hears ctx reductions = some after ∧ UpToDate registration target (t.view ctx) after := by
  induction trail generalizing watch with
  | nil same => exact ⟨watch, rfl, fresh.core same⟩
  | @cons s t reduction rest same _ ih =>
    obtain ⟨heard, hear, again⟩ := (fresh.core same).hear (followed reduction List.mem_cons_self)
    obtain ⟨after, hears, kept⟩ := ih again fun r member => followed r (List.mem_cons_of_mem _ member)
    refine ⟨after, ?_, kept⟩
    unfold WindowWatch.hears at hears ⊢
    rw [List.foldlM_cons, hear]
    exact hears

/-- The condition on a call: the index hears of it, and its reductions may be followed. -/
def FollowedCall (ctx : MykoServerContext) (registration : EdgeRegistration) (target : WindowTarget) (s : ServerState)
    (call : Call) : Prop :=
  HeardCall ctx s call ∧ Allowed (Followed ctx registration target) (call.reductions ctx s)

/-- A watch from its opening on: its window is moved, and calls are made. -/
inductive Watched (ctx : MykoServerContext) (registration : EdgeRegistration) (target : WindowTarget) :
    ServerState → WindowWatch → Prop where
  | opened {s : ServerState} {window : QueryWindow} {watch : WindowWatch} (run : Run ctx (HeardCall ctx) s)
    (registered : registration ∈ ctx.schema.registrations)
    (opened : (s.view ctx).watchWindowMatching registration target window = some watch) :
    Watched ctx registration target s watch
  | window {s : ServerState} {watch after : WindowWatch} {next : Option QueryWindow}
    (watched : Watched ctx registration target s watch) (moved : watch.setWindow (s.view ctx) next = some after) :
    Watched ctx registration target s after
  | cursor {s : ServerState} {watch after : WindowWatch} {next : QueryCursorWindow}
    (watched : Watched ctx registration target s watch) (moved : watch.setCursorWindow (s.view ctx) next = some after) :
    Watched ctx registration target s after
  | called {s : ServerState} {watch after : WindowWatch} {call : Call}
    (watched : Watched ctx registration target s watch) (followed : FollowedCall ctx registration target s call)
    (hears : watch.hears ctx (call.reductions ctx s) = some after) :
    Watched ctx registration target (final (call.run ctx) s) after

/-- A call that submits nothing forgets no edge the window is on. -/
theorem UpToDate.other (fresh : UpToDate registration target (s.view ctx) watch) {call : Call} (other : ¬call.Submits)
    (heard : HeardCall ctx s call)
    (coherent : (final (call.run ctx) s).graph.Coherent ctx.schema (final (call.run ctx) s).registry) :
    UpToDate registration target ((final (call.run ctx) s).view ctx) watch := by
  have kept : KeepsIndex ctx.schema registration := by
    have projected := fresh.projected
    cases target with
    | ends position watched =>
      refine .inl (Bool.or_eq_true_iff.mpr ?_)
      cases position with
      | a => exact .inl projected
      | b => exact .inr projected
    | between a b => exact .inr projected
  refine fresh.same rfl coherent fun id => ?_
  have looked : (final (call.run ctx) s).registry.getValue registration.edgeType id =
      s.registry.getValue registration.edgeType id := by
    rcases final_other ctx other s with ⟨entityType, forgotten, _, _, rfl, same⟩ | ⟨_, _, _, -, same, -⟩ |
      ⟨_, same⟩ | ⟨_, same⟩
    · rw [same]
      dsimp only
      rw [StoreRegistry.getValue_remove]
      split
      · rename_i here
        obtain ⟨rfl, rfl⟩ := here
        exact (heard.2 _ _ rfl registration (GraphSchema.registration_of_mem fresh.registered) kept).symm
      · rfl
    · rw [same]
    · rw [same]
    · rw [same]
  have looked : ((final (call.run ctx) s).view ctx).registry.getValue registration.edgeType id =
      (s.view ctx).registry.getValue registration.edgeType id := looked
  rw [looked]
  exact ⟨Iff.rfl, fun item _ stored _ => stored⟩

/-- A followed call leaves the watch fresh. -/
theorem UpToDate.called (fresh : UpToDate registration target (s.view ctx) watch) (outside : s.causal = none)
    {call : Call} (followed : FollowedCall ctx registration target s call) :
    (∃ after, watch.hears ctx (call.reductions ctx s) = some after ∧
      UpToDate registration target ((final (call.run ctx) s).view ctx) after) ∧
      (final (call.run ctx) s).causal = none := by
  obtain ⟨coherent, closed⟩ := call_keeps (heard_calls ctx) fresh.coherent outside followed.1
    followed.1.1 (.inl fun _ => trivial)
  refine ⟨?_, closed⟩
  by_cases submits : call.Submits
  · exact fresh.hears (Trail.called submits outside) followed.2
  · refine ⟨watch, ?_, fresh.other submits followed.1 coherent⟩
    have none : call.reductions ctx s = [] := by
      cases call <;> first | rfl | exact absurd trivial submits
    rw [none]
    rfl

theorem Watched.fresh (watched : Watched ctx registration target s watch) :
    UpToDate registration target (s.view ctx) watch ∧ s.causal = none := by
  induction watched with
  | opened run registered opened =>
    obtain ⟨coherent, outside⟩ := run_keeps (heard_calls ctx) (coherent_empty ctx.schema) (fun _ _ step => step.1) run
    exact ⟨UpToDate.opened coherent registered opened, outside⟩
  | window watched moved ih =>
    obtain ⟨fresh, outside⟩ := ih
    refine ⟨?_, outside⟩
    unfold WindowWatch.setWindow at moved
    split at moved
    · cases moved
      exact fresh
    · have valid : (GraphWindowSelection.offset ‹Option QueryWindow›).Valid := trivial
      obtain ⟨after, looked, again⟩ := fresh.look rfl fresh.coherent valid
      cases moved.symm.trans looked
      exact again
  | cursor watched moved ih =>
    obtain ⟨fresh, outside⟩ := ih
    refine ⟨?_, outside⟩
    unfold WindowWatch.setCursorWindow at moved
    split at moved
    · cases moved
      exact fresh
    · rename_i valid
      split at moved
      · cases moved
        exact fresh
      · have one_way : (GraphWindowSelection.cursor ‹QueryCursorWindow›).Valid := valid
        obtain ⟨after, looked, again⟩ := fresh.look rfl fresh.coherent one_way
        cases moved.symm.trans looked
        exact again
  | called watched followed hears ih =>
    obtain ⟨fresh, outside⟩ := ih
    obtain ⟨⟨after, heard, again⟩, closed⟩ := fresh.called outside followed
    cases hears.symm.trans heard
    exact ⟨again, closed⟩

/-- A followed call never leaves the watch without an answer. -/
theorem Watched.goes_on (watched : Watched ctx registration target s watch) {call : Call}
    (followed : FollowedCall ctx registration target s call) :
    ∃ after, Watched ctx registration target (final (call.run ctx) s) after := by
  obtain ⟨fresh, outside⟩ := watched.fresh
  obtain ⟨⟨after, heard, -⟩, -⟩ := fresh.called outside followed
  exact ⟨after, .called watched followed heard⟩

end

namespace Sample

/-- The links that leave `x`. -/
def fromX : WindowTarget := .ends .a (.at x)

theorem followed_set {s t : ServerState} {pending : PendingMutation} (item : Item)
    (only : (Call.set item).reductions server s = [(t, pending)]) (kind : pending.kind = .uniform [item] .set)
    (extracts : ChangeExtracts server.schema t.registry ⟨.set, item⟩) :
    FollowedCall server links fromX s (.set item) := by
  have heard := heard_single kind extracts
  refine ⟨⟨fun r member => ?_, fun _ _ same => by cases same⟩, fun r member => ?_⟩
  · rw [only] at member
    obtain rfl := List.mem_singleton.mp member
    exact heard
  · rw [only] at member
    obtain rfl := List.mem_singleton.mp member
    refine ⟨heard, fun _ _ _ _ replaces _ => ?_, staysShown_ends _ _ _ _⟩
    cases kind.symm.trans replaces

end Sample

end Myko

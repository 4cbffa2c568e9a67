import Myko.Server.Sample

/-!
Reservations of ensured combinations. A combination is reserved when its entity is submitted and free again once that
entity is put on its own; in between the entity waits in the queue of the root.
-/

namespace Myko
open StateError

abbrev Reservation := String × List String

variable {ctx : MykoServerContext} {past : List Reservation} {s t : ServerState}

/-- A queued mutation that frees a reservation when it is written. -/
def Frees (ctx : MykoServerContext) (key : Reservation) (pending : PendingMutation) : Prop :=
  ∃ item, pending.kind = .uniform [item] .set ∧ key ∈ reservationsOf ctx item

/-- Every reservation made since `past` waits in the queue. -/
def Waits (ctx : MykoServerContext) (past : List Reservation) (s : ServerState) : Prop :=
  ∃ c, s.causal = some c ∧ ∀ key ∈ s.relations.ensureForInFlight,
    key ∈ past ∨ ∃ pending ∈ c.queue, Frees ctx key pending

/-- An id that will not be drawn. -/
def NotDrawn (ctx : MykoServerContext) (uuids : Nat) (id : String) : Prop := ∀ n, uuids ≤ n → id ≠ ctx.uuid n

theorem NotDrawn.mono {uuids later : Nat} {id : String} (fresh : NotDrawn ctx uuids id) (le : uuids ≤ later) :
    NotDrawn ctx later id := fun n drawn => fresh n (le.trans drawn)

/-- No id that is stored, queued to be put or seen to be put will be drawn. -/
structure Supplied (ctx : MykoServerContext) (s : ServerState) : Prop where
  stored : ∀ entityType id item, s.registry.getValue entityType id = some item → NotDrawn ctx s.uuids id
  seen : ∀ c, s.causal = some c → ∀ transition ∈ c.seen, transition.operation = 1 →
    NotDrawn ctx s.uuids transition.id
  queued : ∀ c, s.causal = some c → ∀ pending ∈ c.queue, ∀ item ∈ pending.puts, NotDrawn ctx s.uuids item.id

structure Held (ctx : MykoServerContext) (past : List Reservation) (s : ServerState) : Prop where
  waits : Waits ctx past s
  supplied : Supplied ctx s

/-- What is made for a combination stands for it. -/
def MakesCombinations (ctx : MykoServerContext) : Prop :=
  ∀ entry ∈ ctx.tables.ensureForByDependency, ∀ n combo, combo.length = entry.2.dependencies.length →
    (entry.2.localType, combo) ∈ reservationsOf ctx (bakeServerOwner ctx (entry.2.makeEntity (ctx.uuid n) combo))

@[simp] theorem bakeServerOwner_id (item : Item) : (bakeServerOwner ctx item).id = item.id := by
  unfold bakeServerOwner
  split
  · rfl
  · split <;> simp

@[simp] theorem makeEntity_id (lookup : EnsureForLookup) (id : String) (combo : List String) :
    (lookup.makeEntity id combo).id = id := by
  have keyed : ∀ (entries : List (ForeignKey × String)) (item : Item),
      (entries.foldl (fun entity key => entity.setField key.1.field (.text key.2)) item).id = item.id := by
    intro entries
    induction entries with
    | nil => exact fun item => rfl
    | cons entry rest ih => exact fun item => (ih _).trans (Item.setField_id item _ _)
  have defaulted : ∀ (entries : List (String × Field)) (item : Item),
      (entries.foldl (fun entity value => entity.setField value.1 value.2) item).id = item.id := by
    intro entries
    induction entries with
    | nil => exact fun item => rfl
    | cons entry rest ih => exact fun item => (ih _).trans (Item.setField_id item _ _)
  unfold EnsureForLookup.makeEntity
  exact (defaulted _ _).trans (keyed _ _)

theorem length_cartesianProduct {sets : List (List String)} {combo : List String}
    (among : combo ∈ cartesianProduct sets) : combo.length = sets.length := by
  have grown : ∀ (sets : List (List String)) (combos : List (List String)) (n : Nat),
      (∀ combo ∈ combos, combo.length = n) →
      ∀ combo ∈ sets.foldl (fun combos set =>
        combos.flatMap fun combo => set.map fun id => combo ++ [id]) combos, combo.length = n + sets.length := by
    intro sets
    induction sets with
    | nil => exact fun combos n own combo among => own combo among
    | cons set rest ih =>
      intro combos n own combo among
      rw [List.foldl_cons] at among
      rw [ih _ (n + 1) (fun longer member => ?_) combo among, List.length_cons]
      · omega
      · obtain ⟨shorter, present, member⟩ := List.mem_flatMap.mp member
        obtain ⟨id, -, rfl⟩ := List.mem_map.mp member
        rw [List.length_append, own shorter present, List.length_singleton]
  cases sets with
  | nil => cases among
  | cons first rest =>
    have length := grown (first :: rest) [[]] 0 (by simp) combo among
    rwa [Nat.zero_add] at length

/-! ### Effects that go through -/

theorem Held.shelves (held : Held ctx past s) (kept : Shelves s t) : Held ctx past t := by
  obtain ⟨⟨c, causal, waits⟩, ⟨stored, seen, queued⟩⟩ := held
  refine ⟨⟨c, kept.causal.trans causal, ?_⟩, ?_, ?_, ?_⟩
  · rwa [kept.ensureForInFlight]
  · rwa [kept.registry, kept.uuids]
  · rwa [kept.causal, kept.uuids]
  · rwa [kept.causal, kept.uuids]

theorem id_of_seenAfter {change : MEventType} {seen : List TransitionKey} {items : List Item}
    {transition : TransitionKey} (member : transition ∈ seenAfter ctx change seen items) :
    transition ∈ seen ∨ ∃ item ∈ items, transition = transitionKey ctx change item := by
  unfold seenAfter at member
  rcases List.mem_append.mp member with new | before
  · obtain ⟨item, listed, rfl⟩ := List.mem_map.mp (List.mem_reverse.mp new)
    exact .inr ⟨item, (unseen_sublist change seen items).mem listed, rfl⟩
  · exact .inl before

/-- A transaction that has queued and seen more, none of it put under an id still to be drawn. -/
theorem Held.extends (held : Held ctx past s) {c c' : CausalState} (causal : s.causal = some c)
    {added : List PendingMutation} (extended : Extends c c' added)
    (seen : ∀ transition ∈ c'.seen, transition.operation = 1 →
      transition ∈ c.seen ∨ NotDrawn ctx s.uuids transition.id)
    (queued : ∀ pending ∈ added, ∀ item ∈ pending.puts, NotDrawn ctx s.uuids item.id) :
    Held ctx past { s with causal := some c' } := by
  obtain ⟨⟨c₀, causal', waits⟩, supplied⟩ := held
  obtain rfl : c = c₀ := Option.some.inj (causal.symm.trans causal')
  refine ⟨⟨c', rfl, fun key listed => ?_⟩, supplied.stored, ?_, ?_⟩
  · refine (waits key listed).imp_right fun ⟨pending, member, frees⟩ => ⟨pending, ?_, frees⟩
    rw [extended.queue]
    exact List.mem_append_left _ member
  · rintro _ ⟨⟩ transition member put
    exact (seen transition member put).elim (fun before => supplied.seen c causal transition before put) id
  · rintro _ ⟨⟩ pending member
    rw [extended.queue] at member
    rcases List.mem_append.mp member with before | new
    · exact supplied.queued c causal pending before
    · exact queued pending new

/-- A submission of items whose ids are not to be drawn. -/
theorem Held.submitted (held : Held ctx past s) {c c' : CausalState} (causal : s.causal = some c)
    {limits : CausalLimits} {items : List Item} {change : MEventType} {origin : Origin} {mode : EdgeApplyMode}
    (own : change = .set → ∀ item ∈ items, NotDrawn ctx s.uuids item.id)
    (submitted : Submitted ctx limits items change origin mode c c') :
    Held ctx past { s with causal := some c' } := by
  refine held.extends causal submitted.toExtends (fun transition member put => ?_) fun pending member item listed => ?_
  · rw [submitted.seen] at member
    refine (id_of_seenAfter member).imp_right fun ⟨item, listed, same⟩ => ?_
    subst same
    cases change with
    | set => exact own rfl item listed
    | del => cases put
  · split at member
    · cases member
    · obtain rfl := List.mem_singleton.mp member
      cases change with
      | set => exact own rfl item ((unseen_sublist .set c.seen items).mem listed)
      | del => cases listed

theorem Held.submit (held : Held ctx past s) {items : List Item} {change : MEventType} {origin : Origin}
    (own : change = .set → ∀ item ∈ items, NotDrawn ctx s.uuids item.id)
    (run : submitDerived ctx items change origin s = .ok () t) : Held ctx past t := by
  rcases submitDerived_ok run with ⟨-, rfl⟩ | ⟨c, c', causal, rfl, submitted⟩
  · exact held
  · exact held.submitted causal own submitted

/-- The relation along which effects that go through move. -/
def Holding (ctx : MykoServerContext) (past : List Reservation) (s t : ServerState) : Prop :=
  Held ctx past s → Held ctx past t

theorem holding_frame : Frame (Holding ctx past) fun _ _ : ServerState => True :=
  Frame.returning (fun _ held => held) fun first second held => second (first held)

section
variable (faithful : MakesCombinations ctx) (apart : Function.Injective ctx.uuid)
include faithful apart

/-- A created item is none that was drawn before, so it is queued for its combination. -/
theorem Held.created (held : Held ctx past s) {lookup : EnsureForLookup} {entityType : String}
    (listed : lookup ∈ ctx.tables.ensureForBy entityType) {combo : List String}
    (length : combo.length = lookup.dependencies.length) {u : ServerState}
    (run : publishSetCascade ctx (submitDerived ctx) (lookup.makeEntity (ctx.uuid s.uuids) combo)
      { s with
        relations := { s.relations with
          ensureForInFlight := (lookup.localType, combo) :: s.relations.ensureForInFlight }
        uuids := s.uuids + 1 } = .ok () u) : Held ctx past u := by
  obtain ⟨⟨c, causal, waits⟩, ⟨stored, seen, queued⟩⟩ := held
  rcases submitDerived_ok run with ⟨none, -⟩ | ⟨c₀, c', causal', rfl, added⟩
  · rw [show s.causal = some c from causal] at none
    cases none
  obtain rfl : c = c₀ := Option.some.inj (causal.symm.trans causal')
  have drawn : (bakeServerOwner ctx (lookup.makeEntity (ctx.uuid s.uuids) combo)).id = ctx.uuid s.uuids := by
    simp
  have registered : (entityType, lookup) ∈ ctx.tables.ensureForByDependency := by
    obtain ⟨entry, member, rfl⟩ := List.mem_map.mp listed
    obtain ⟨member, here⟩ := List.mem_filter.mp member
    rwa [← of_decide_eq_true here]
  have stands := faithful _ registered s.uuids combo length
  generalize bakeServerOwner ctx (lookup.makeEntity (ctx.uuid s.uuids) combo) = entity at drawn stands added
  have new : transitionKey ctx .set entity ∉ c.seen := fun before =>
    seen c causal _ before rfl s.uuids le_rfl drawn
  have passes : unseen ctx .set c.seen [entity] = [entity] := by
    rw [unseen, if_neg new, unseen]
  have queue := added.queue
  rw [passes, if_neg (List.cons_ne_nil _ _)] at queue
  have later : NotDrawn ctx (s.uuids + 1) entity.id := by
    intro n above same
    have repeated := apart (drawn.symm.trans same)
    omega
  refine ⟨⟨c', rfl, fun key member => ?_⟩, fun entityType id item found =>
    (stored entityType id item found).mono (Nat.le_succ _), ?_, ?_⟩
  · rw [queue]
    rcases List.mem_cons.mp member with rfl | member
    · refine .inr ⟨_, List.mem_append_right _ (List.mem_singleton_self _), entity, ?_, stands⟩
      unfold uniformPending
      rw [passes]
    · rcases waits key member with before | ⟨pending, before, frees⟩
      · exact .inl before
      · exact .inr ⟨pending, List.mem_append_left _ before, frees⟩
  · rintro _ ⟨⟩ transition member put
    rw [added.seen] at member
    rcases id_of_seenAfter member with before | ⟨item, listed, rfl⟩
    · exact (seen c causal transition before put).mono (Nat.le_succ _)
    · rw [List.mem_singleton.mp listed]
      exact later
  · rintro _ ⟨⟩ pending member item among
    rw [queue] at member
    rcases List.mem_append.mp member with before | added
    · exact (queued c causal pending before item among).mono (Nat.le_succ _)
    · obtain rfl := List.mem_singleton.mp added
      have same : item ∈ unseen ctx .set c.seen [entity] := among
      rw [passes] at same
      rw [List.mem_singleton.mp same]
      exact later

/-- A reservation is taken with its entity in the queue, or not at all. -/
theorem Held.ensureCombination (held : Held ctx past s) {lookup : EnsureForLookup} {entityType : String}
    (listed : lookup ∈ ctx.tables.ensureForBy entityType) {combo : List String}
    (length : combo.length = lookup.dependencies.length) {created : Bool}
    (run : ensureCombination ctx (submitDerived ctx) lookup combo s = .ok created t) : Held ctx past t := by
  unfold Myko.ensureCombination at run
  rw [bind_of_ok (get_eq s)] at run
  split at run
  · obtain ⟨-, rfl⟩ := pure_ok run
    exact held
  rw [bind_of_ok (modify_eq _ s)] at run
  split at run
  · rw [unreserve, bind_of_ok (modify_eq _ _)] at run
    obtain ⟨-, rfl⟩ := pure_ok run
    obtain ⟨⟨c, causal, waits⟩, ⟨stored, seen, queued⟩⟩ := held
    refine ⟨⟨c, causal, fun key member => waits key ?_⟩, stored, seen, queued⟩
    obtain ⟨member, other⟩ := List.mem_filter.mp member
    exact (List.mem_cons.mp member).resolve_left (of_decide_eq_true other)
  · rw [bind_of_ok (modify_eq _ _)] at run
    obtain ⟨result, u, submitted, run⟩ := bind_ok run
    cases result with
    | error error =>
      obtain ⟨_, _, _, run⟩ := bind_ok run
      cases run
    | ok _ =>
      obtain ⟨-, rfl⟩ := pure_ok run
      exact held.created faithful apart listed length (attempt_ok submitted)

theorem holding_ensureCombinations {lookup : EnsureForLookup} {entityType : String}
    (listed : lookup ∈ ctx.tables.ensureForBy entityType) {combos : List (List String)}
    (length : ∀ combo ∈ combos, combo.length = lookup.dependencies.length) (existing : List (List String)) :
    Moves (Holding ctx past) (fun _ _ => True)
      (ensureCombinations ctx (submitDerived ctx) lookup combos existing) := by
  induction combos generalizing existing with
  | nil => exact Moves.pure holding_frame _
  | cons combo rest ih =>
    have later := fun existing => ih (fun other among => length other (List.mem_cons_of_mem _ among)) existing
    refine Moves.ite (fun _ => later existing) fun _ => Moves.bind holding_frame ?_ fun _ => later _
    exact Moves.intro (fun _ _ _ run held => held.ensureCombination faithful apart listed
      (length combo List.mem_cons_self) run) fun _ _ _ _ => trivial

theorem holding_handleEnsureForType (entityType : String) :
    Moves (Holding ctx past) (fun _ _ => True) (handleEnsureForType ctx (submitDerived ctx) entityType) := by
  refine Moves.each holding_frame fun lookup listed => Moves.bind holding_frame (Moves.get holding_frame) fun s => ?_
  refine holding_ensureCombinations faithful apart listed (fun combo among => ?_) _
  rw [length_cartesianProduct among, List.length_map]

end

/-- Parents that lose a child are put under ids that are stored. -/
theorem holding_handleOwnsManyChildDelete (item : Item) : Moves (Holding ctx past) (fun _ _ => True)
    (handleOwnsManyChildDelete ctx (submitDerived ctx) item) := by
  refine Moves.each holding_frame fun lookup _ => Moves.intro (fun s _ t run held => ?_) fun _ _ _ _ => trivial
  rw [bind_of_ok (get_eq s)] at run
  split at run
  · refine held.submit (fun _ parent listed => ?_) run
    obtain ⟨before, found, removed⟩ := List.mem_filterMap.mp listed
    obtain ⟨ids, -, rfl⟩ := Option.map_eq_some_iff.mp removed
    obtain ⟨-, stored⟩ := StoreRegistry.mem_snapshot.mp (List.mem_filter.mp found).1
    rw [Item.setField_id]
    exact held.supplied.stored _ _ _ stored
  · obtain ⟨-, rfl⟩ := pure_ok run
    exact held

/-- Effects that go through leave every reservation in the queue. -/
theorem Held.effects (faithful : MakesCombinations ctx) (apart : Function.Injective ctx.uuid)
    {pending : PendingMutation} {before : ServerState} {cascades : List Item} (held : Held ctx past s)
    (run : effectsPending ctx (submitDerived ctx) pending before cascades s = .ok () t) : Held ctx past t := by
  have deletes : ∀ items, Moves (Holding ctx past) (fun _ _ => True)
      (submitDerived ctx items .del .cascade) := by
    refine fun items => Moves.intro (fun s _ t run held => ?_) fun _ _ _ _ => trivial
    exact held.submit (fun put : MEventType.del = .set => by cases put) run
  have ensures : pending.origin.shouldCascade = true → ∀ item ∈ pending.puts,
      Moves (Holding ctx past) (fun _ _ => True) (handleEnsureForType ctx (submitDerived ctx) item.entityType) :=
    fun _ item _ => holding_handleEnsureForType faithful apart item.entityType
  have moves := moves_effectsPending_of holding_frame (fun kept held => held.shelves kept) deletes
    (fun _ item _ => holding_handleOwnsManyChildDelete item) ensures before cascades
  exact moves.ok run held

/-! ### One reduction -/

theorem mem_unreserved {inFlight : List Reservation} {kind : PendingMutationKind} {key : Reservation}
    (member : key ∈ unreserved ctx inFlight kind) : key ∈ inFlight := by
  unfold unreserved at member
  split at member
  · exact (List.mem_filter.mp member).1
  · exact member

theorem not_frees_of_unreserved {inFlight : List Reservation} {pending : PendingMutation} {key : Reservation}
    (member : key ∈ unreserved ctx inFlight pending.kind) : ¬Frees ctx key pending := by
  rintro ⟨item, kind, own⟩
  rw [kind, unreserved] at member
  have kept := (List.mem_filter.mp member).2
  simp [own] at kept

/-- What a mutation puts is among its items. -/
theorem mem_puts_of_change {pending : PendingMutation} {change : Change} {item : Item}
    (member : change ∈ changesOf s pending) (put : change.value = some item) : item ∈ pending.puts := by
  obtain ⟨kind, named⟩ := change
  cases kind with
  | del => cases put
  | set =>
    obtain rfl : named = item := Option.some.inj put
    unfold changesOf at member
    unfold PendingMutation.puts
    cases shape : pending.kind with
    | uniform items change =>
      rw [shape] at member
      obtain ⟨other, listed, same⟩ := List.mem_map.mp member
      cases same
      exact (groupByType_perm items).mem_iff.mp listed
    | replace upserts deletes expected =>
      rw [shape] at member
      rcases List.mem_append.mp member with member | member
      · obtain ⟨other, -, same⟩ := List.mem_map.mp member
        cases same
      · obtain ⟨other, listed, same⟩ := List.mem_map.mp member
        cases same
        exact listed

section
variable {c : CausalState} {pending : PendingMutation} {queue : List PendingMutation}

theorem Held.committed (held : Held ctx past s) (causal : s.causal = some c) (queued : c.queue = pending :: queue)
    (committed : Committed ctx (s.popped c pending queue) pending t) : Held ctx past t := by
  obtain ⟨⟨c₀, causal', waits⟩, supplied⟩ := held
  obtain rfl : c = c₀ := Option.some.inj (causal.symm.trans causal')
  have after : t.causal = some (c.pop pending queue) := committed.causal
  have puts := supplied.queued c causal pending (queued ▸ List.mem_cons_self)
  refine ⟨⟨_, after, fun key member => ?_⟩, fun entityType id item found => ?_, ?_, ?_⟩
  · rw [committed.ensureForInFlight] at member
    refine (waits key (mem_unreserved member)).imp_right fun ⟨other, listed, frees⟩ => ⟨other, ?_, frees⟩
    rw [queued] at listed
    rcases List.mem_cons.mp listed with rfl | listed
    · exact absurd frees (not_frees_of_unreserved member)
    · exact listed
  · rw [committed.uuids]
    rw [committed.registry] at found
    rcases StoreRegistry.getValue_writeAll_cases _ _ entityType id with ⟨change, member, key, same⟩ | ⟨-, same⟩
    · obtain ⟨-, rfl⟩ := StoreRegistry.getValue_keyed found
      rw [same] at found
      exact puts item (mem_puts_of_change member found)
    · rw [same] at found
      exact supplied.stored entityType id item found
  · intro c' same transition member put
    rw [after] at same
    cases same
    rw [committed.uuids]
    exact supplied.seen c causal transition member put
  · intro c' same other member item listed
    rw [after] at same
    cases same
    rw [committed.uuids]
    exact supplied.queued c causal other (queued ▸ List.mem_cons_of_mem _ member) item listed

/-- A reduction that goes through, or does not apply. -/
theorem Held.reduced (faithful : MakesCombinations ctx) (apart : Function.Injective ctx.uuid) (held : Held ctx past s)
    (causal : s.causal = some c) (queued : c.queue = pending :: queue) {applied : Bool}
    (run : reducePending ctx (submitDerived ctx) pending (s.popped c pending queue) = .ok applied t) :
    (applied = false ∧ t = s.popped c pending queue) ∨ (applied = true ∧ Held ctx past t) := by
  rcases reducePending_ok run with ⟨commit, unapplied⟩ | ⟨cascades, u, commit, effects, applied⟩
  · exact .inl ⟨unapplied, (commitPending_ok commit).2⟩
  · obtain ⟨-, committed⟩ := commitPending_ok commit
    exact .inr ⟨applied, (held.committed causal queued committed).effects faithful apart effects⟩

/-- The reservations once the write of a mutation is done or refused. -/
def afterWrite (ctx : MykoServerContext) (s : ServerState) (pending : PendingMutation) : List Reservation :=
  match planPending ctx s pending with
  | .ok (some _) => unreserved ctx s.relations.ensureForInFlight pending.kind
  | _ => s.relations.ensureForInFlight

theorem inFlight_commitPending (ctx : MykoServerContext) (pending : PendingMutation) (s : ServerState) :
    (final (commitPending ctx pending) s).relations.ensureForInFlight = afterWrite ctx s pending := by
  have run := commitPending_eq ctx pending s
  unfold afterWrite
  cases plan : planPending ctx s pending with
  | error error =>
    rw [plan] at run
    rw [final_of_error run]
  | ok planned =>
    rw [plan] at run
    cases planned with
    | none => rw [final_of_ok run]
    | some cascades =>
      have reserved := inFlight_of_plan plan
      dsimp only at run ⊢
      rw [← reserved]
      unfold final
      rw [run, bind_eq]
      cases applyPending ctx s pending s <;> rfl

/-- Nobody depends on what a mutation puts. -/
def Unensuring (ctx : MykoServerContext) (pending : PendingMutation) : Prop :=
  pending.origin.shouldCascade = true → ∀ item ∈ pending.puts, ctx.tables.ensureForBy item.entityType = []

/-- A reduction submits no ensured entity: its write fails or nobody depends on what it puts. -/
def Quiet (ctx : MykoServerContext) (s : ServerState) (pending : PendingMutation) : Prop :=
  (∃ error t, commitPending ctx pending s = .error error t) ∨ Unensuring ctx pending

/-- A reduction goes through, or it fails with no ensured entity waiting: none is left of those queued before, and
it submits none. -/
def Clears (ctx : MykoServerContext) (past : List Reservation) (s : ServerState) (pending : PendingMutation) : Prop :=
  Reduces ctx s pending ∨ ((∀ key ∈ afterWrite ctx s pending, key ∈ past) ∧ Quiet ctx s pending)

/-- Effects that ensure nothing leave the reservations as they are, however they end. -/
theorem inFlight_effects {before : ServerState} {cascades : List Item} (quiet : Unensuring ctx pending) :
    (final (effectsPending ctx (submitDerived ctx) pending before cascades) s).relations.ensureForInFlight =
      s.relations.ensureForInFlight := by
  let same : ServerState → ServerState → Prop := fun s t =>
    t.relations.ensureForInFlight = s.relations.ensureForInFlight
  have frame : Frame same same := Frame.always (fun _ => rfl) fun first second => second.trans first
  have submits : ∀ {items change origin}, Derivable items change origin →
      Moves same same (submitDerived ctx items change origin) := by
    intro items change origin _
    have queues := moves_submitDerived ctx items change origin
    exact Moves.intro (fun _ _ _ run => congrArg RelationIndexes.ensureForInFlight (queues.ok run).relations)
      fun _ _ _ run => congrArg RelationIndexes.ensureForInFlight (queues.error run).relations
  have ensures : pending.origin.shouldCascade = true → ∀ item ∈ pending.puts,
      Moves same same (handleEnsureForType ctx (submitDerived ctx) item.entityType) := by
    intro cascading item put
    unfold handleEnsureForType
    rw [quiet cascading item put]
    exact Moves.pure frame _
  have moves := moves_effectsPending_of frame (fun kept => kept.ensureForInFlight) (fun _ => submits (.cascade _))
    (fun _ item _ => moves_handleOwnsManyChildDelete frame submits ctx item) ensures before cascades
  exact moves.final s

theorem inFlight_of_error {error : PersistError} (quiet : Quiet ctx s pending)
    (run : reducePending ctx (submitDerived ctx) pending s = .error error t) :
    t.relations.ensureForInFlight = afterWrite ctx s pending := by
  rw [← final_of_error run, ← inFlight_commitPending]
  cases commit : commitPending ctx pending s with
  | error error u => rw [final_reducePending_error commit, final_of_error commit]
  | ok cascades u =>
    rw [final_of_ok commit, final_reducePending_ok commit]
    cases cascades with
    | none => rfl
    | some cascades =>
      rcases quiet with ⟨error, v, failed⟩ | quiet
      · rw [commit] at failed
        cases failed
      · rw [inFlight_effects quiet]

theorem cleared_of_error {error : PersistError} (clears : Clears ctx past s pending)
    (run : reducePending ctx (submitDerived ctx) pending s = .error error t) :
    ∀ key ∈ t.relations.ensureForInFlight, key ∈ past := by
  rcases clears with ⟨applied, u, reduced⟩ | ⟨left, quiet⟩
  · rw [run] at reduced
    cases reduced
  · rwa [inFlight_of_error quiet run]

end

/-! ### A root -/

section
variable (faithful : MakesCombinations ctx) (apart : Function.Injective ctx.uuid) {limits : CausalLimits}
include faithful apart

/-- A drain that never leaves an ensured entity behind leaves no reservation. -/
theorem drain_clears {halt : Bool} {fuel bound : Nat} {c : CausalState} (waiting : Waiting limits bound s c)
    (enough : bound < fuel) (held : Held ctx past s)
    (allowed : Allowed (Clears ctx past) (drainReductions ctx halt fuel s)) :
    ∀ key ∈ (final (drain ctx (submitDerived ctx) halt fuel) s).relations.ensureForInFlight, key ∈ past := by
  induction fuel generalizing s c bound with
  | zero => omega
  | succ fuel ih =>
    rw [drain, final_bind]
    cases queued : c.queue with
    | nil =>
      rw [popPending_nil waiting.causal queued]
      intro key member
      obtain ⟨c', causal, waits⟩ := held.waits
      obtain rfl : c = c' := Option.some.inj (waiting.causal.symm.trans causal)
      rcases waits key member with before | ⟨pending, listed, -⟩
      · exact before
      rw [queued] at listed
      cases listed
    | cons pending rest =>
      have popped : popPending s = .ok (some pending) (s.popped c pending rest) :=
        popPending_cons waiting.causal queued
      rw [drainReductions, popped] at allowed
      rw [popped]
      dsimp only at allowed ⊢
      have clears := allowed _ List.mem_cons_self
      rw [final_bind]
      cases run : reducePending ctx (submitDerived ctx) pending (s.popped c pending rest) with
      | error error u => exact cleared_of_error clears run
      | ok applied u =>
        obtain ⟨rfl, bound', c', waiting', enough'⟩ := waiting.reduced enough queued run
        have later := (held.reduced faithful apart waiting.causal queued run).resolve_left fun stops => by simp at stops
        rw [run] at allowed
        simp only [Bool.not_true, Bool.and_false, Bool.false_eq_true, ↓reduceIte] at allowed ⊢
        exact ih waiting' enough' later.2 fun r member => allowed r (List.mem_cons_of_mem _ member)

end

/-- A drain that leaves no reservation has left no ensured entity behind. -/
theorem clears_of_drained {halt : Bool} {fuel : Nat} {s : ServerState}
    (quiet : Allowed (fun s pending => Reduces ctx s pending ∨ Quiet ctx s pending) (drainReductions ctx halt fuel s))
    (drained : ∀ key ∈ (final (drain ctx (submitDerived ctx) halt fuel) s).relations.ensureForInFlight, key ∈ past) :
    Allowed (Clears ctx past) (drainReductions ctx halt fuel s) := by
  induction fuel generalizing s with
  | zero => exact fun _ member => absurd member (by simp [drainReductions])
  | succ fuel ih =>
    rw [drain, final_bind] at drained
    rw [drainReductions] at quiet ⊢
    rcases popPending_cases s with pop | ⟨c, pending, queue, causal, queued, pop⟩
    · rw [pop]
      exact fun _ member => absurd member (by simp)
    · rw [pop] at quiet drained ⊢
      dsimp only at quiet drained ⊢
      rw [final_bind] at drained
      intro r member
      cases run : reducePending ctx (submitDerived ctx) pending
          { s with causal := some (c.pop pending queue) } with
      | error error u =>
        rw [run] at member drained
        obtain rfl := List.mem_singleton.mp member
        rcases quiet _ List.mem_cons_self with reduces | quiet
        · exact .inl reduces
        · refine .inr ⟨?_, quiet⟩
          rw [← inFlight_of_error quiet run]
          exact drained
      | ok applied u =>
        rw [run] at member drained quiet
        dsimp only at member drained quiet
        rcases List.mem_cons.mp member with rfl | member
        · exact .inl ⟨applied, u, run⟩
        · split at member
          · cases member
          · rename_i goes
            rw [if_neg goes] at drained quiet
            exact ih (fun r member => quiet r (List.mem_cons_of_mem _ member)) drained r member

/-- A root of its own: a mutation that may derive others, or a replacement, possibly of one generation of the graph. -/
inductive CausalRoot where
  | mutation (items : List Item) (change : MEventType) (origin : Origin) (mode : EdgeApplyMode)
  | replacement (upserts deletes : List Item) (origin : Origin) (expected : Option Nat)

namespace CausalRoot

def items : CausalRoot → List Item
  | mutation items _ _ _ => items
  | replacement upserts deletes _ _ => upserts ++ deletes

def halt : CausalRoot → Bool
  | mutation .. => false
  | replacement .. => true

def enqueue (ctx : MykoServerContext) : CausalRoot → ServerM Unit
  | mutation items change origin mode => enqueueCausal ctx items change origin mode
  | replacement upserts deletes origin expected =>
    enqueueCausalReplace ctx upserts deletes origin .authoritative expected

def run (ctx : MykoServerContext) (root : CausalRoot) : ServerM Bool :=
  runRoot ctx (submitDerived ctx) root.halt root.items (root.enqueue ctx)

def reductions (ctx : MykoServerContext) (root : CausalRoot) : ServerState → List Reduction :=
  rootReductions ctx root.halt root.items (root.enqueue ctx)

end CausalRoot

/-- A root may open where no id that is stored or submitted will be drawn. -/
structure Opens (ctx : MykoServerContext) (s : ServerState) (root : CausalRoot) : Prop where
  named : root.items ≠ []
  stored : ∀ entityType id item, s.registry.getValue entityType id = some item → NotDrawn ctx s.uuids id
  submitted : ∀ item ∈ root.items, NotDrawn ctx s.uuids item.id

section
variable {root : CausalRoot} (opens : Opens ctx s root)
include opens

theorem held_opened : Held ctx s.relations.ensureForInFlight (s.opened ctx) := by
  refine ⟨⟨_, rfl, fun key member => .inl member⟩, fun entityType id item found =>
    (opens.stored entityType id item found).mono (Nat.le_succ _), ?_, ?_⟩
  · rintro _ ⟨⟩ transition member
    cases member
  · rintro _ ⟨⟩ pending member
    cases member

/-- A root just opened has its own mutation queued, alone. -/
theorem held_enqueued (run : root.enqueue ctx (s.opened ctx) = .ok () t) :
    Held ctx s.relations.ensureForInFlight t ∧ ∃ c, t.causal = some c ∧ t.causalLimits = s.causalLimits ∧
      c.derivedCount = 0 ∧ (c.queue = [] ∨ ∃ pending, c.queue = [pending]) := by
  have own : ∀ item ∈ root.items, NotDrawn ctx (s.opened ctx).uuids item.id := fun item listed =>
    (opens.submitted item listed).mono (Nat.le_succ _)
  cases root with
  | mutation items change origin mode =>
    obtain ⟨c', rfl, submitted⟩ := enqueueCausal_ok rfl run
    refine ⟨(held_opened opens).submitted rfl (fun _ => own) submitted, c', rfl, rfl, submitted.own rfl, ?_⟩
    rw [submitted.queue]
    split
    · exact .inl rfl
    · exact .inr ⟨_, rfl⟩
  | replacement upserts deletes origin expected =>
    obtain ⟨c', rfl, extended, seen, counted⟩ := enqueueCausalReplace_ok rfl run
    refine ⟨(held_opened opens).extends rfl extended (fun transition member put => ?_)
      fun pending member item listed => ?_, c', rfl, rfl, counted rfl, ?_⟩
    · rw [seen] at member
      rcases id_of_seenAfter member with before | ⟨item, listed, rfl⟩
      · rcases id_of_seenAfter before with before | ⟨item, listed, rfl⟩
        · exact .inl before
        · cases put
      · exact .inr (own item (List.mem_append_left _ listed))
    · split at member
      · cases member
      · obtain rfl := List.mem_singleton.mp member
        exact own item (List.mem_append_left _ ((unseen_sublist .set _ upserts).mem listed))
    · rw [extended.queue]
      split
      · exact .inl rfl
      · exact .inr ⟨_, rfl⟩

end

/-- The first reduction of a root may not apply; then the root is over. -/
theorem first_clears (faithful : MakesCombinations ctx) (apart : Function.Injective ctx.uuid) {halt : Bool}
    {fuel : Nat} {c : CausalState} {pending : PendingMutation} (held : Held ctx past s) (causal : s.causal = some c)
    (queued : c.queue = [pending]) (derived : c.derivedCount = 0)
    (halts : Conditional pending → halt = true) (enough : s.causalLimits.maxDerivedMutations < fuel)
    (allowed : Allowed (Clears ctx past) (drainReductions ctx halt (fuel + 1) s)) :
    ∀ key ∈ (final (drain ctx (submitDerived ctx) halt (fuel + 1)) s).relations.ensureForInFlight, key ∈ past := by
  have popped : popPending s = .ok (some pending) (s.popped c pending []) := popPending_cons causal queued
  rw [drain, final_bind, popped]
  rw [drainReductions, popped] at allowed
  dsimp only at allowed ⊢
  have clears := allowed _ List.mem_cons_self
  rw [final_bind]
  cases run : reducePending ctx (submitDerived ctx) pending (s.popped c pending []) with
  | error error u => exact cleared_of_error clears run
  | ok applied u =>
    rw [run] at allowed
    dsimp only at allowed ⊢
    rcases held.reduced faithful apart causal queued run with ⟨rfl, rfl⟩ | ⟨rfl, later⟩
    · have conditional : Conditional pending := by
        by_contra unconditional
        cases applied_of_unconditional unconditional run
      rw [halts conditional]
      intro key member
      obtain ⟨c', causal', waits⟩ := held.waits
      obtain rfl : c = c' := Option.some.inj (causal.symm.trans causal')
      rcases waits key member with before | ⟨other, listed, item, kind, -⟩
      · exact before
      rw [queued, List.mem_singleton] at listed
      obtain ⟨upserts, deletes, generation, replacing⟩ := conditional
      rw [← listed, kind] at replacing
      cases replacing
    · have draining : Draining s.causalLimits s.causalLimits.maxDerivedMutations (s.popped c pending []) := by
        refine ⟨c.pop pending [], ⟨rfl, rfl, ?_, fun other member => by cases member⟩, Nat.succ_pos _⟩
        unfold credit CausalState.pop
        simp [derived]
      obtain ⟨c', waiting, -⟩ := draining_reducePending draining run
      rw [Bool.not_true, Bool.and_false] at allowed ⊢
      exact drain_clears faithful apart waiting enough later fun r member => allowed r (List.mem_cons_of_mem _ member)

theorem CausalRoot.final_run (root : CausalRoot) (run : root.enqueue ctx (s.opened ctx) = .ok () t) :
    (final (root.run ctx) s).relations.ensureForInFlight = (final (drain ctx (submitDerived ctx) root.halt
      (drainBound s.causalLimits root.items)) t).relations.ensureForInFlight := by
  unfold CausalRoot.run final
  rw [runRoot_eq, run]
  dsimp only
  cases drain ctx (submitDerived ctx) root.halt (drainBound s.causalLimits root.items) t <;> rfl

theorem CausalRoot.enqueue_opened (root : CausalRoot) (s : ServerState) :
    ∃ t, root.enqueue ctx (s.opened ctx) = .ok () t := by
  cases root with
  | mutation items change origin mode => exact enqueueCausal_own ctx items change origin mode s
  | replacement upserts deletes origin expected =>
    exact enqueueCausalReplace_own ctx upserts deletes origin .authoritative expected s

theorem CausalRoot.drained_of_clears (faithful : MakesCombinations ctx) (apart : Function.Injective ctx.uuid)
    {root : CausalRoot} (opens : Opens ctx s root)
    (allowed : Allowed (Clears ctx s.relations.ensureForInFlight) (root.reductions ctx s)) :
    ∀ key ∈ (final (root.run ctx) s).relations.ensureForInFlight, key ∈ s.relations.ensureForInFlight := by
  obtain ⟨t, run⟩ := root.enqueue_opened s
  have conditional : ∀ c, t.causal = some c → ∀ pending ∈ c.queue, Conditional pending → root.halt = true := by
    intro c causal pending listed ⟨upserts, deletes, generation, kind⟩
    cases root with
    | mutation items change origin mode =>
      obtain ⟨c', rfl, submitted⟩ := enqueueCausal_ok rfl run
      cases causal
      rw [submitted.queue] at listed
      split at listed
      · cases listed
      · rw [List.mem_singleton.mp listed] at kind
        cases kind
    | replacement => rfl
  obtain ⟨held, c, causal, bounds, derived, queue⟩ := held_enqueued opens run
  rw [root.final_run run]
  unfold CausalRoot.reductions rootReductions at allowed
  rw [run] at allowed
  dsimp only at allowed
  have length := List.length_pos_iff.mpr opens.named
  obtain ⟨fuel, bound⟩ : ∃ fuel, drainBound s.causalLimits root.items = fuel + 1 := ⟨_, rfl⟩
  rw [bound] at allowed ⊢
  unfold drainBound at bound
  rcases queue with queue | ⟨pending, queue⟩
  · rw [drain, final_bind, popPending_nil causal queue]
    intro key member
    obtain ⟨c', causal', waits⟩ := held.waits
    obtain rfl : c = c' := Option.some.inj (causal.symm.trans causal')
    rcases waits key member with before | ⟨pending, listed, -⟩
    · exact before
    rw [queue] at listed
    cases listed
  · refine first_clears faithful apart held causal queue derived
      (conditional c causal pending (queue ▸ List.mem_singleton_self pending)) ?_ allowed
    rw [bounds]
    omega

/-- A root that returns has only gone through reductions. -/
theorem CausalRoot.clears_of_ok {root : CausalRoot} {applied : Bool} (run : root.run ctx s = .ok applied t) :
    Allowed (Clears ctx past) (root.reductions ctx s) := by
  obtain ⟨u, v, queued, drained, -⟩ := runRoot_ok run
  unfold CausalRoot.reductions rootReductions
  rw [queued]
  exact fun r member => .inl (drain_reduces drained r member)

/-- A root none of whose reductions fails with an ensured entity waiting leaves no reservation of its own, however
it ends; and one that leaves none had no such failure, unless it failed among the ensured entities it submitted. -/
theorem CausalRoot.reservations_drained (faithful : MakesCombinations ctx) (apart : Function.Injective ctx.uuid)
    (root : CausalRoot) (opens : Opens ctx s root) :
    let drained := ∀ key ∈ (final (root.run ctx) s).relations.ensureForInFlight, key ∈ s.relations.ensureForInFlight
    let clears := Allowed (Clears ctx s.relations.ensureForInFlight) (root.reductions ctx s)
    (clears → drained) ∧ (Allowed (fun s pending => Reduces ctx s pending ∨ Quiet ctx s pending)
      (root.reductions ctx s) → drained → clears) := by
  refine ⟨CausalRoot.drained_of_clears faithful apart opens, fun quiet drained => ?_⟩
  obtain ⟨t, run⟩ := root.enqueue_opened s
  rw [root.final_run run] at drained
  unfold CausalRoot.reductions rootReductions at quiet ⊢
  rw [run] at quiet ⊢
  exact clears_of_drained quiet drained

namespace Sample

def site (id : String) : Item := ⟨"site", id, []⟩

/-- A gauge for every site. -/
def gauges : EnsureForLookup where
  localType := "gauge"
  dependencies := [("site", "site")]
  blank := [("site", .text "")]
  defaults := []

/-- A server whose persister takes gauges or refuses them. -/
def gaugeServer (refuses : Bool) : MykoServerContext :=
  { server with
    relations := [.ensureFor gauges]
    uuid n := String.ofList (List.replicate n 'u')
    persister entityType := if entityType = "gauge" ∧ refuses then some fun _ _ => .error ⟨"gauge", "full"⟩ else none }

def gaugeState : ServerState := { ServerState.initial with causalLimits := ⟨4, 8⟩ }

def twoSites : CausalRoot := .mutation [site "a", site "b"] .set .localOrigin .authoritative

theorem gauges_made (refuses : Bool) : MakesCombinations (gaugeServer refuses) := by
  intro entry listed n combo length
  obtain rfl : entry = ("site", gauges) := List.mem_singleton.mp listed
  obtain ⟨id, rfl⟩ := List.length_eq_one_iff.mp length
  exact List.mem_singleton.mpr rfl

theorem uuids_apart (refuses : Bool) : Function.Injective (gaugeServer refuses).uuid := by
  intro m n same
  have chars : List.replicate m 'u' = List.replicate n 'u' := String.ofList_injective same
  simpa using congrArg List.length chars

theorem not_drawn {id : String} (refuses : Bool) (apart : ∃ char ∈ id.toList, char ≠ 'u') :
    NotDrawn (gaugeServer refuses) 0 id := by
  rintro n - same
  obtain ⟨char, listed, other⟩ := apart
  have drawn : id = String.ofList (List.replicate n 'u') := same
  rw [drawn, String.toList_ofList] at listed
  exact other (List.eq_of_mem_replicate listed)

theorem twoSites_opens (refuses : Bool) : Opens (gaugeServer refuses) gaugeState twoSites where
  named := List.cons_ne_nil _ _
  stored entityType id item found := by
    have none : gaugeState.registry.getValue entityType id = none := StoreRegistry.getValue_empty entityType id
    rw [none] at found
    cases found
  submitted item listed := by
    simp only [CausalRoot.items, twoSites, List.mem_cons, List.not_mem_nil, or_false] at listed
    rcases listed with rfl | rfl
    · exact not_drawn refuses ⟨'a', by decide, by decide⟩
    · exact not_drawn refuses ⟨'b', by decide, by decide⟩

/-- Both gauges are put, and neither stays reserved. -/
theorem gauges_put : (final (twoSites.run (gaugeServer false)) gaugeState).relations.ensureForInFlight = [] := by
  have clears : Allowed (Clears (gaugeServer false) gaugeState.relations.ensureForInFlight)
      (twoSites.reductions (gaugeServer false) gaugeState) := by
    have returns : EStateM.run' (twoSites.run (gaugeServer false)) gaugeState = some true := by decide +kernel
    obtain ⟨t, run⟩ := ok_of_run' returns
    exact CausalRoot.clears_of_ok run
  have drained := (twoSites.reservations_drained (gauges_made false) (uuids_apart false) (twoSites_opens false)).1 clears
  have none : gaugeState.relations.ensureForInFlight = [] := rfl
  rw [none] at drained
  exact List.subset_nil.mp drained

/-- The persister refuses the first gauge, and the second one stays reserved though it is never put. -/
theorem gauge_left_reserved : ∃ error t, twoSites.run (gaugeServer true) gaugeState = .error error t ∧
    ¬∀ key ∈ t.relations.ensureForInFlight, key ∈ gaugeState.relations.ensureForInFlight := by
  have refused : EStateM.run' (twoSites.run (gaugeServer true)) gaugeState = none := by decide +kernel
  have left : ("gauge", ["b"]) ∈ (final (twoSites.run (gaugeServer true)) gaugeState).relations.ensureForInFlight := by
    decide +kernel
  obtain ⟨error, failed⟩ := error_final_of_run' refused
  refine ⟨error, _, failed, fun drained => ?_⟩
  exact absurd (drained ("gauge", ["b"]) left) List.not_mem_nil

end Sample

end Myko

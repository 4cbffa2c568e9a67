import Myko.Server.Run

/-!
Where items come from. What holds of every item a call submits, and stays with an item that loses a child
and with an ensured one, holds of every item that is stored, queued or offered to a persister.
-/

namespace Myko
open StateError

variable {ctx : MykoServerContext} {Ok : Item → Prop} {before : List Change}

/-- What the items derived by the relationship manager take over. -/
structure Inherited (ctx : MykoServerContext) (Ok : Item → Prop) : Prop where
  loses : ∀ {lookup : OwnsManyLookup} {parent item : Item} {id : String},
    lookup.removeId parent id = some item → Ok parent → Ok item
  ensured : ∀ {entityType : String} {lookup : EnsureForLookup} {combo : List String} (n : Nat),
    lookup ∈ ctx.tables.ensureForBy entityType →
    (∀ id ∈ combo, ∃ dependency ∈ lookup.dependencies, ∃ item, Ok item ∧ item.entityType = dependency.1 ∧
      item.id = id) → Ok (bakeServerOwner ctx (lookup.makeEntity (ctx.uuid n) combo))

/-- The items of a server, and the ones offered to persisters since those `before`. -/
structure Carries (ctx : MykoServerContext) (Ok : Item → Prop) (before : List Change) (s : ServerState) : Prop where
  stored : ∀ entityType id item, s.registry.getValue entityType id = some item → Ok item
  offered : ∃ later, s.offered = before ++ later ∧
    ∀ change ∈ later, Ok change.item ∧ (ctx.persister change.item.entityType).isSome
  queued : ∀ c, s.causal = some c → ∀ pending ∈ c.queue, ∀ item ∈ pending.items, Ok item
  buffered : ∀ entityType, ∀ event ∈ s.ingestBuffers entityType, ∀ item,
    ctx.parser event.itemType event.item = some item → Ok item

abbrev KeepsItems (ctx : MykoServerContext) (Ok : Item → Prop) (before : List Change) {α : Type} (m : ServerM α)
    (Q : α → Prop) : Prop :=
  Keeps (Carries ctx Ok before) m Q

/-- Handing over items that are fine. -/
def SubmitsItems (ctx : MykoServerContext) (Ok : Item → Prop) (before : List Change) (submit : Submit) : Prop :=
  ∀ items change origin, (∀ item ∈ items, Ok item) →
    KeepsItems ctx Ok before (submit items change origin) fun _ => True

theorem Carries.congr {s t : ServerState} (holds : Carries ctx Ok before s) (registry : t.registry = s.registry)
    (offered : t.offered = s.offered) (causal : t.causal = s.causal)
    (buffers : t.ingestBuffers = s.ingestBuffers) : Carries ctx Ok before t :=
  ⟨by rw [registry]; exact holds.stored, by rw [offered]; exact holds.offered,
    by rw [causal]; exact holds.queued, by rw [buffers]; exact holds.buffered⟩

theorem Carries.snapshot {s : ServerState} (holds : Carries ctx Ok before s) {entityType : String} {item : Item}
    (among : item ∈ s.registry.snapshot entityType) : Ok item :=
  holds.stored _ _ item (StoreRegistry.mem_snapshot.mp among).2

theorem Carries.write {s : ServerState} (holds : Carries ctx Ok before s) {registry : StoreRegistry}
    (written : ∀ entityType id item, registry.getValue entityType id = some item → Ok item) :
    Carries ctx Ok before { s with registry } :=
  ⟨written, holds.offered, holds.queued, holds.buffered⟩

theorem stored_writeAll {registry : StoreRegistry} {changes : List Change}
    (stored : ∀ entityType id item, registry.getValue entityType id = some item → Ok item)
    (fine : ∀ change ∈ changes, Ok change.item) {entityType id : String} {item : Item}
    (found : (registry.writeAll changes).getValue entityType id = some item) : Ok item := by
  rcases registry.getValue_writeAll_cases changes entityType id with ⟨change, among, -, same⟩ | ⟨-, same⟩
  · rw [same] at found
    obtain ⟨kind, written⟩ := change
    cases kind with
    | set =>
      cases found
      exact fine _ among
    | del => cases found
  · rw [same] at found
    exact stored _ _ _ found

theorem Carries.buffer {s : ServerState} (holds : Carries ctx Ok before s) {entityType : String}
    {events : List MEvent}
    (fine : ∀ event ∈ events, ∀ item, ctx.parser event.itemType event.item = some item → Ok item) :
    Carries ctx Ok before { s with
      ingestBuffers := Function.update s.ingestBuffers entityType (s.ingestBuffers entityType ++ events) } := by
  refine ⟨holds.stored, holds.offered, holds.queued, fun other event among => ?_⟩
  dsimp only at among
  by_cases same : other = entityType
  · subst same
    rw [Function.update_self] at among
    rcases List.mem_append.mp among with among | among
    · exact holds.buffered other event among
    · exact fine event among
  · rw [Function.update_of_ne same] at among
    exact holds.buffered other event among

/-! ### The relationship manager -/

theorem keeps_modifyRelations (f : RelationIndexes → StoreRegistry → RelationIndexes) :
    KeepsItems ctx Ok before (modifyRelations f) fun _ => True :=
  Keeps.modify fun _ holds => holds.congr rfl rfl rfl rfl

theorem keeps_findChildrenByFk (lookup : BelongsToLookup) (parent : String) :
    KeepsItems ctx Ok before (findChildrenByFk lookup parent) fun children => ∀ item ∈ children, Ok item := by
  refine Keeps.bind (keeps_modifyRelations _) fun _ _ => Keeps.bind Keeps.get fun s holds => ?_
  split
  · refine Keeps.pure fun item among => ?_
    obtain ⟨id, -, found⟩ := List.mem_filterMap.mp among
    exact holds.stored _ _ item found
  · exact Keeps.pure fun item among => holds.snapshot (List.mem_filter.mp among).1

theorem mem_firstById {items : List Item} {item : Item} (among : item ∈ firstById items) : item ∈ items := by
  have kept : ∀ (items kept : List Item), item ∈ items.foldl
      (fun kept item => if kept.any (·.id = item.id) then kept else kept ++ [item]) kept →
      item ∈ kept ∨ item ∈ items := by
    intro items
    induction items with
    | nil => exact fun _ => .inl
    | cons first rest ih =>
      intro kept among
      rcases ih _ among with among | among
      · dsimp only at among
        split at among
        · exact .inl among
        · rcases List.mem_append.mp among with among | among
          · exact .inl among
          · exact .inr (List.mem_cons.mpr (.inl (List.mem_singleton.mp among)))
      · exact .inr (List.mem_cons_of_mem _ among)
  exact (kept items [] among).resolve_left (List.not_mem_nil)

section
variable {submit : Submit} (submits : SubmitsItems ctx Ok before submit)
include submits

theorem keeps_publish {items : List Item} {change : MEventType} {origin : Origin} {skip : Bool}
    (fine : ∀ item ∈ items, Ok item) :
    KeepsItems ctx Ok before (if !skip then submit items change origin else pure ()) fun _ => True :=
  Keeps.ite (fun _ => submits _ _ _ fine) fun _ => Keeps.pure trivial

theorem keeps_handleBelongsToCascadeBatch (items : List Item) :
    KeepsItems ctx Ok before (handleBelongsToCascadeBatch ctx submit items) fun _ => True := by
  unfold handleBelongsToCascadeBatch
  split
  · exact Keeps.pure trivial
  · refine Keeps.each fun lookup _ => Keeps.bind (Keeps.foldlM (H := fun found => ∀ item ∈ found, Ok item)
      (fun found item _ fine => ?_) fun _ among => nomatch among) fun children fine => ?_
    · refine Keeps.bind (keeps_findChildrenByFk lookup item.id) fun children found => Keeps.pure ?_
      intro child among
      rcases List.mem_append.mp among with among | among
      · exact fine child among
      · exact found child among
    · exact keeps_publish submits fun item among => fine item (mem_firstById among)

theorem keeps_handleOwnsManyParentDeleteBatch (items : List Item) :
    KeepsItems ctx Ok before (handleOwnsManyParentDeleteBatch ctx submit items) fun _ => True := by
  unfold handleOwnsManyParentDeleteBatch
  split
  · exact Keeps.pure trivial
  · refine Keeps.each fun lookup _ => Keeps.bind Keeps.get fun s holds => keeps_publish submits ?_
    intro item among
    obtain ⟨id, -, found⟩ := List.mem_filterMap.mp among
    exact holds.stored _ _ item found

theorem keeps_handleEnsureForDeleteBatch (items : List Item) :
    KeepsItems ctx Ok before (handleEnsureForDeleteBatch ctx submit items) fun _ => True := by
  unfold handleEnsureForDeleteBatch
  split
  · exact Keeps.pure trivial
  · refine Keeps.each fun lookup _ => Keeps.bind Keeps.get fun s holds => keeps_publish submits ?_
    exact fun item among => holds.snapshot (List.mem_filter.mp among).1

variable (inherited : Inherited ctx Ok)
include inherited

theorem keeps_handleOwnsManyChildDelete (item : Item) :
    KeepsItems ctx Ok before (handleOwnsManyChildDelete ctx submit item) fun _ => True := by
  refine Keeps.each fun lookup _ => Keeps.bind Keeps.get fun s holds => keeps_publish submits ?_
  intro parent among
  obtain ⟨before, found, removed⟩ := List.mem_filterMap.mp among
  exact inherited.loses removed (holds.snapshot (List.mem_filter.mp found).1)

theorem keeps_forwardDelBatch (items : List Item) :
    KeepsItems ctx Ok before (forwardDelBatch ctx submit items) fun _ => True := by
  refine Keeps.bind (keeps_handleBelongsToCascadeBatch submits items) fun _ _ => ?_
  refine Keeps.bind (keeps_handleOwnsManyParentDeleteBatch submits items) fun _ _ => ?_
  refine Keeps.bind (keeps_handleEnsureForDeleteBatch submits items) fun _ _ => ?_
  refine Keeps.each fun item _ => ?_
  refine Keeps.bind (keeps_handleOwnsManyChildDelete submits inherited item) fun _ _ => ?_
  exact Keeps.each fun lookup _ => keeps_modifyRelations _

end

theorem mem_cartesianProduct {sets : List (List String)} {combo : List String} {id : String}
    (among : combo ∈ cartesianProduct sets) (listed : id ∈ combo) : ∃ ids ∈ sets, id ∈ ids := by
  have grown : ∀ (sets : List (List String)) (combos : List (List String)) (combo : List String),
      combo ∈ sets.foldl (fun combos ids => combos.flatMap fun combo => ids.map fun id => combo ++ [id]) combos →
      ∀ id ∈ combo, (∃ before ∈ combos, id ∈ before) ∨ ∃ ids ∈ sets, id ∈ ids := by
    intro sets
    induction sets with
    | nil => exact fun combos combo among id listed => .inl ⟨combo, among, listed⟩
    | cons first rest ih =>
      intro combos combo among id listed
      rcases ih _ combo among id listed with ⟨before, extended, listed⟩ | ⟨ids, present, listed⟩
      · obtain ⟨shorter, present, extended⟩ := List.mem_flatMap.mp extended
        obtain ⟨last, fresh, rfl⟩ := List.mem_map.mp extended
        rcases List.mem_append.mp listed with listed | listed
        · exact .inl ⟨shorter, present, listed⟩
        · refine .inr ⟨first, List.mem_cons_self, ?_⟩
          rwa [List.mem_singleton.mp listed]
      · exact .inr ⟨ids, List.mem_cons_of_mem _ present, listed⟩
  cases sets with
  | nil => cases among
  | cons first rest =>
    rcases grown (first :: rest) [[]] combo among id listed with ⟨before, present, listed⟩ | found
    · rw [List.mem_singleton.mp present] at listed
      cases listed
    · exact found

section
variable {submit : Submit} (submits : SubmitsItems ctx Ok before submit) (inherited : Inherited ctx Ok)
include submits inherited

theorem keeps_ensureCombination {entityType : String} {lookup : EnsureForLookup} {combo : List String}
    (listed : lookup ∈ ctx.tables.ensureForBy entityType)
    (dependencies : ∀ id ∈ combo, ∃ dependency ∈ lookup.dependencies, ∃ item, Ok item ∧
      item.entityType = dependency.1 ∧ item.id = id) :
    KeepsItems ctx Ok before (ensureCombination ctx submit lookup combo) fun _ => True := by
  have unreserves : KeepsItems ctx Ok before (unreserve (lookup.localType, combo)) fun _ => True :=
    Keeps.modify fun _ holds => holds.congr rfl rfl rfl rfl
  refine Keeps.bind Keeps.get fun s _ => Keeps.ite (fun _ => Keeps.pure trivial) fun _ => ?_
  refine Keeps.bind (Keeps.modify fun _ holds => holds.congr rfl rfl rfl rfl) fun _ _ => ?_
  refine Keeps.ite (fun _ => Keeps.bind unreserves fun _ _ => Keeps.pure trivial) fun _ => ?_
  refine Keeps.bind (Keeps.modify fun _ holds => holds.congr rfl rfl rfl rfl) fun _ _ => ?_
  have fine : ∀ item ∈ [bakeServerOwner ctx (lookup.makeEntity (ctx.uuid s.uuids) combo)], Ok item := by
    intro item among
    rw [List.mem_singleton.mp among]
    exact inherited.ensured s.uuids listed dependencies
  refine Keeps.bind (Keeps.attempt (submits _ _ _ fine)) fun result _ => ?_
  cases result with
  | ok _ => exact Keeps.pure trivial
  | error e => exact Keeps.bind unreserves fun _ _ => Keeps.throw e

theorem keeps_ensureCombinations {entityType : String} {lookup : EnsureForLookup}
    (listed : lookup ∈ ctx.tables.ensureForBy entityType) {combos : List (List String)}
    (dependencies : ∀ combo ∈ combos, ∀ id ∈ combo, ∃ dependency ∈ lookup.dependencies, ∃ item, Ok item ∧
      item.entityType = dependency.1 ∧ item.id = id) (existing : List (List String)) :
    KeepsItems ctx Ok before (ensureCombinations ctx submit lookup combos existing) fun _ => True := by
  induction combos generalizing existing with
  | nil => exact Keeps.pure trivial
  | cons combo rest ih =>
    have later := fun existing => ih (fun other among => dependencies other (List.mem_cons_of_mem _ among)) existing
    refine Keeps.ite (fun _ => later existing) fun _ => ?_
    exact Keeps.bind (keeps_ensureCombination submits inherited listed (dependencies combo List.mem_cons_self))
      fun _ _ => later _

theorem keeps_handleEnsureForType (entityType : String) :
    KeepsItems ctx Ok before (handleEnsureForType ctx submit entityType) fun _ => True := by
  refine Keeps.each fun lookup listed => Keeps.bind Keeps.get fun s holds => ?_
  refine keeps_ensureCombinations submits inherited listed (fun combo among id present => ?_) _
  obtain ⟨ids, listed, present⟩ := mem_cartesianProduct among present
  obtain ⟨dependency, known, rfl⟩ := List.mem_map.mp listed
  obtain ⟨item, stored, rfl⟩ := List.mem_map.mp present
  exact ⟨dependency, known, item, holds.snapshot stored, (StoreRegistry.mem_snapshot.mp stored).1, rfl⟩

theorem keeps_forwardSetBatch (items : List Item) :
    KeepsItems ctx Ok before (forwardSetBatch ctx submit items) fun _ => True := by
  unfold forwardSetBatch
  split
  · exact Keeps.pure trivial
  · refine Keeps.bind (Keeps.each fun lookup _ => ?_) fun _ _ =>
      keeps_handleEnsureForType submits inherited _
    exact Keeps.bind (keeps_modifyRelations _) fun _ _ => Keeps.each fun item _ => keeps_modifyRelations _

theorem keeps_applyEffects (items : List Item) (change : MEventType) (origin : Origin) :
    KeepsItems ctx Ok before (applyEffects ctx submit items change origin) fun _ => True := by
  refine Keeps.bind (Keeps.each fun item _ => Keeps.modify fun _ holds => holds.congr rfl rfl rfl rfl)
    fun _ _ => ?_
  have produce : KeepsItems ctx Ok before (if origin.shouldProduce then
      modify fun s => { s with sink := s.sink ++ items.map (Change.mk change) } else pure () :
      ServerM Unit) fun _ => True :=
    Keeps.ite (fun _ => Keeps.modify fun _ holds => holds.congr rfl rfl rfl rfl) fun _ => Keeps.pure trivial
  refine Keeps.ite (fun _ => ?_) fun _ => produce
  cases change with
  | set => exact Keeps.bind (keeps_forwardSetBatch submits inherited items) fun _ _ => produce
  | del => exact Keeps.bind (keeps_forwardDelBatch submits inherited items) fun _ _ => produce

end

/-! ### The queue -/

/-- The items of the mutations that wait in a transaction. -/
def CausalState.Carries (Ok : Item → Prop) (c : CausalState) : Prop :=
  ∀ pending ∈ c.queue, ∀ item ∈ pending.items, Ok item

theorem keeps_acceptTransitions (limits : CausalLimits) (change : MEventType) (depth : Nat)
    (chain : List String) {items : List Item} (fine : ∀ item ∈ items, Ok item) :
    Keeps (CausalState.Carries Ok) (acceptTransitions ctx limits change depth chain items)
      fun accepted => ∀ item ∈ accepted, Ok item := by
  induction items with
  | nil => exact Keeps.pure fun _ among => nomatch among
  | cons item rest ih =>
    have later := ih fun other among => fine other (List.mem_cons_of_mem _ among)
    refine Keeps.bind Keeps.get fun c carries => Keeps.ite (fun _ => later) fun _ => ?_
    have budget : Keeps (CausalState.Carries Ok) (checkBudget limits item depth chain) fun _ => True :=
      Keeps.bind Keeps.get fun _ _ => Keeps.ite (fun _ => Keeps.throw _) fun _ => Keeps.pure trivial
    refine Keeps.bind (G := fun _ => True) (fun _ _ => ⟨carries, trivial⟩) fun _ _ => ?_
    refine Keeps.bind budget fun _ _ => ?_
    refine Keeps.bind later fun accepted found => Keeps.pure fun other among => ?_
    rcases List.mem_cons.mp among with rfl | among
    · exact fine other List.mem_cons_self
    · exact found other among

theorem keeps_checkDepth (limits : CausalLimits) (first : Item) (depth : Nat) (chain : List String) :
    Keeps (CausalState.Carries Ok) (checkDepth limits first depth chain) fun _ => True :=
  Keeps.bind Keeps.get fun _ _ => Keeps.ite (fun _ => Keeps.throw _) fun _ => Keeps.pure trivial

theorem keeps_pushPending {pending : PendingMutation} (fine : ∀ item ∈ pending.items, Ok item) :
    Keeps (CausalState.Carries Ok) (pushPending pending) fun _ => True := by
  refine Keeps.modify fun c carries other among => ?_
  rcases List.mem_append.mp among with among | among
  · exact carries other among
  · rw [List.mem_singleton.mp among]
    exact fine

theorem keeps_enqueueUniform (limits : CausalLimits) (first : Item) {items : List Item} (change : MEventType)
    (origin : Origin) (mode : EdgeApplyMode) (fine : ∀ item ∈ items, Ok item) :
    Keeps (CausalState.Carries Ok) (enqueueUniform ctx limits first items change origin mode)
      fun _ => True := by
  refine Keeps.bind Keeps.get fun c _ => Keeps.bind (keeps_checkDepth _ _ _ _) fun _ _ => ?_
  refine Keeps.bind (keeps_acceptTransitions _ _ _ _ fine) fun accepted found => ?_
  exact Keeps.ite (fun _ => keeps_pushPending found) fun _ => Keeps.pure trivial

theorem keeps_enqueueReplace (limits : CausalLimits) (first : Item) {upserts deletes : List Item}
    (origin : Origin) (mode : EdgeApplyMode) (expected : Option Nat)
    (fine : ∀ item ∈ upserts ++ deletes, Ok item) :
    Keeps (CausalState.Carries Ok) (enqueueReplace ctx limits first upserts deletes origin mode expected)
      fun _ => True := by
  refine Keeps.bind Keeps.get fun c _ => Keeps.bind (keeps_checkDepth _ _ _ _) fun _ _ => ?_
  refine Keeps.bind (keeps_acceptTransitions _ _ _ _ fun item among =>
    fine item (List.mem_append_right _ among)) fun gone removed => ?_
  refine Keeps.bind (keeps_acceptTransitions _ _ _ _ fun item among =>
    fine item (List.mem_append_left _ among)) fun put kept => ?_
  refine Keeps.ite (fun _ => keeps_pushPending fun item among => ?_) fun _ => Keeps.pure trivial
  rcases List.mem_append.mp among with among | among
  · exact kept item among
  · exact removed item among

theorem keeps_withCausal {first : Item} {step : CausalM Unit}
    (keeps : Keeps (CausalState.Carries Ok) step fun _ => True) :
    KeepsItems ctx Ok before (withCausal first step) fun _ => True := by
  intro s holds
  unfold withCausal
  cases causal : s.causal with
  | none => exact holds
  | some c =>
    have put : ∀ {c'}, CausalState.Carries Ok c' → Carries ctx Ok before { s with causal := some c' } := by
      intro c' carries
      refine ⟨holds.stored, holds.offered, fun c same => ?_, holds.buffered⟩
      cases same
      exact carries
    have before : CausalState.Carries Ok c := holds.queued c causal
    dsimp only
    cases run : step c with
    | ok value c' => exact ⟨put (keeps.ok before run).1, trivial⟩
    | error e c' => exact put (keeps.error before run)

theorem keeps_enqueueCausal {items : List Item} (change : MEventType) (origin : Origin) (mode : EdgeApplyMode)
    (fine : ∀ item ∈ items, Ok item) :
    KeepsItems ctx Ok before (enqueueCausal ctx items change origin mode) fun _ => True := by
  cases items with
  | nil => exact Keeps.pure trivial
  | cons first rest =>
    exact Keeps.bind Keeps.get fun s _ => keeps_withCausal (keeps_enqueueUniform _ _ _ _ _ fine)

theorem keeps_enqueueCausalReplace {upserts deletes : List Item} (origin : Origin) (mode : EdgeApplyMode)
    (expected : Option Nat) (fine : ∀ item ∈ upserts ++ deletes, Ok item) :
    KeepsItems ctx Ok before (enqueueCausalReplace ctx upserts deletes origin mode expected) fun _ => True := by
  unfold enqueueCausalReplace
  split
  · exact Keeps.pure trivial
  · exact Keeps.bind Keeps.get fun s _ => keeps_withCausal (keeps_enqueueReplace _ _ _ _ _ fine)

theorem submitDerived_items : SubmitsItems ctx Ok before (submitDerived ctx) := fun _ change origin fine =>
  Keeps.bind Keeps.get fun _ _ => Keeps.ite (fun _ => keeps_enqueueCausal change origin _ fine) fun _ =>
    Keeps.pure trivial

theorem keeps_popPending : KeepsItems ctx Ok before popPending fun popped =>
    ∀ pending, popped = some pending → ∀ item ∈ pending.items, Ok item := by
  intro s holds
  rcases popPending_cases s with pop | ⟨c, pending, queue, causal, queued, pop⟩
  · rw [pop]
    exact ⟨holds, fun _ none => nomatch none⟩
  · rw [pop]
    have waiting := holds.queued c causal
    rw [queued] at waiting
    refine ⟨⟨holds.stored, holds.offered, fun c' same => ?_, holds.buffered⟩, fun other same => ?_⟩
    · cases same
      exact fun other among => waiting other (List.mem_cons_of_mem _ among)
    · cases same
      exact waiting pending List.mem_cons_self

/-! ### Plans and commits -/

theorem endpointDeletePlan_stored {view : GraphView} {endpoint : EntityRef} {cascades : List Item}
    (plan : view.endpointDeletePlan endpoint = .ok cascades) {item : Item} (among : item ∈ cascades) :
    ∃ entityType id, view.registry.getValue entityType id = some item := by
  obtain ⟨indexed, _, plan⟩ := except_bind_ok plan
  obtain ⟨edges, _, plan⟩ := except_bind_ok plan
  cases plan
  obtain ⟨edge, -, found⟩ := List.mem_filterMap.mp among
  exact ⟨edge.1, edge.2, found⟩

theorem flatten_items {items : List Item} {f : Item → Except PersistError (List Item)}
    {plans : List (List Item)} (planned : items.mapM f = .ok plans)
    (each_item : ∀ item ∈ items, ∀ cascades, f item = .ok cascades → ∀ edge ∈ cascades, Ok edge) :
    ∀ edge ∈ plans.flatten, Ok edge := by
  induction items generalizing plans with
  | nil =>
    cases planned
    exact fun _ among => nomatch among
  | cons item rest ih =>
    rw [List.mapM_cons] at planned
    obtain ⟨first, run, planned⟩ := except_bind_ok planned
    obtain ⟨others, later, planned⟩ := except_bind_ok planned
    cases planned
    intro edge among
    rw [List.flatten_cons] at among
    rcases List.mem_append.mp among with among | among
    · exact each_item item List.mem_cons_self first run edge among
    · exact ih later (fun other present => each_item other (List.mem_cons_of_mem _ present)) edge among

section
variable {s : ServerState} (holds : Carries ctx Ok before s)
include holds

theorem planItem_items {coordinated : Bool} {change : MEventType} {mode : EdgeApplyMode} {item : Item}
    {cascades : List Item} (plan : planItem ctx s coordinated change mode item = .ok cascades) :
    ∀ edge ∈ cascades, Ok edge := by
  cases coordinated with
  | false =>
    cases plan
    exact fun _ among => nomatch among
  | true =>
    obtain ⟨planned, -⟩ := planItem_ok plan
    cases change with
    | set =>
      rw [planned]
      exact fun _ among => nomatch among
    | del =>
      intro edge among
      obtain ⟨entityType, id, found⟩ := endpointDeletePlan_stored planned among
      exact holds.stored entityType id edge found

theorem planGrouped_items {coordinated : Bool} {items : List Item} {first : Item} {change : MEventType}
    {mode : EdgeApplyMode} {cascades : List Item}
    (plan : planGrouped ctx s coordinated items first change mode = .ok cascades) :
    ∀ edge ∈ cascades, Ok edge := by
  have finish : ∀ {cascades : List Item}, (do
      let cascades ← (groupByType items).flatten.mapM (planItem ctx s coordinated change mode)
      return cascades.flatten) = Except.ok cascades → ∀ edge ∈ cascades, Ok edge := by
    intro cascades run
    obtain ⟨plans, planned, same⟩ := except_bind_ok run
    cases same
    exact flatten_items planned fun item _ _ plan => planItem_items holds plan
  unfold planGrouped at plan
  by_cases checks : change = .set ∧ coordinated = true
  · rw [if_pos checks] at plan
    obtain ⟨_, _, plan⟩ := except_bind_ok plan
    exact finish plan
  · rw [if_neg checks] at plan
    exact finish plan

theorem planReplace_items {coordinated : Bool} {upserts deletes : List Item} {first : Item}
    {mode : EdgeApplyMode} {cascades : List Item}
    (plan : planReplace ctx s coordinated upserts deletes first mode = .ok cascades) :
    ∀ edge ∈ cascades, Ok edge := by
  unfold planReplace at plan
  obtain ⟨plans, planned, plan⟩ := except_bind_ok plan
  have fine := flatten_items planned fun item _ cascades run => by
    cases coordinated with
    | false =>
      cases run
      exact fun _ among => nomatch among
    | true =>
      intro edge among
      obtain ⟨entityType, id, found⟩ := endpointDeletePlan_stored (mapError_ok run) among
      exact holds.stored entityType id edge found
  cases coordinated with
  | false =>
    cases plan
    exact fine
  | true =>
    obtain ⟨_, _, plan⟩ := except_bind_ok plan
    cases plan
    exact fine

end

theorem keeps_reduceOne {change : Change} (fine : Ok change.item) :
    KeepsItems ctx Ok before (reduceOne ctx change) fun _ => True := by
  refine Keeps.bind (Keeps.modify fun s holds => holds.write fun entityType id item found => ?_) fun _ _ => ?_
  · have written : ∀ other ∈ [change], Ok other.item := fun other among => by
      rw [List.mem_singleton.mp among]
      exact fine
    exact stored_writeAll holds.stored written found
  · refine Keeps.ite (fun _ => ?_) fun _ => Keeps.pure trivial
    exact Keeps.modify fun _ holds => holds.congr rfl rfl rfl rfl

theorem keeps_persistDyn {change : Change} (fine : Ok change.item) :
    KeepsItems ctx Ok before (persistDyn ctx change) fun _ => True := by
  unfold persistDyn
  split
  · exact Keeps.pure trivial
  · rename_i known
    refine Keeps.bind Keeps.get fun s _ => Keeps.bind (Keeps.modify fun t holds => ?_) fun _ _ =>
      Keeps.passOn fun _ _ => trivial
    obtain ⟨later, offered, free⟩ := holds.offered
    refine ⟨holds.stored, ⟨later ++ [change], ?_, fun other among => ?_⟩, holds.queued, holds.buffered⟩
    · show t.offered ++ [change] = before ++ (later ++ [change])
      rw [offered, List.append_assoc]
    rcases List.mem_append.mp among with among | among
    · exact free other among
    · rw [List.mem_singleton.mp among]
      exact ⟨fine, by rw [known]; rfl⟩

theorem keeps_indexItem (registry : StoreRegistry) (coordinated : Bool) (change : Change) :
    KeepsItems ctx Ok before (indexItem ctx registry coordinated change) fun _ => True := by
  refine Keeps.ite (fun _ => Keeps.discard (G := fun _ => True) fun s holds => ?_) fun _ => Keeps.pure trivial
  unfold liftGraph
  cases applyEdge ctx.schema (registry.canonicalItem change.item) change.value s.graph with
  | ok value graph => exact ⟨holds.congr rfl rfl rfl rfl, trivial⟩
  | error e graph => exact holds.congr rfl rfl rfl rfl

theorem keeps_persistItem (origin : Origin) {change : Change} (fine : Ok change.item) :
    KeepsItems ctx Ok before (persistItem ctx origin change) fun _ => True :=
  Keeps.ite (fun _ => keeps_persistDyn fine) fun _ => Keeps.pure trivial

theorem keeps_indexAndPersist (registry : StoreRegistry) (coordinated : Bool) (origin : Origin)
    {changes : List Change} (fine : ∀ change ∈ changes, Ok change.item) :
    KeepsItems ctx Ok before (each (indexAndPersist ctx registry coordinated origin) changes) fun _ => True :=
  Keeps.each fun change among => Keeps.bind (keeps_indexItem registry coordinated change) fun _ _ =>
    keeps_persistItem origin (fine change among)

theorem keeps_liftWatches (item : Item) (publish : List GraphWatch → Except String (List GraphWatch)) :
    KeepsItems ctx Ok before (liftWatches item publish) fun _ => True :=
  Keeps.bind Keeps.get fun _ _ => Keeps.bind (Keeps.passOn (G := fun _ => True) fun _ _ => trivial)
    fun _ _ => Keeps.modify fun _ holds => holds.congr rfl rfl rfl rfl

theorem keeps_commitOne {item : Item} (change : MEventType) (origin : Origin) (mode : EdgeApplyMode)
    (fine : Ok item) :
    KeepsItems ctx Ok before (commitOne ctx item change origin mode) fun cascades => ∀ edge ∈ cascades, Ok edge := by
  refine Keeps.bind Keeps.get fun s holds => Keeps.bind
    (Keeps.passOn (G := fun cascades => ∀ edge ∈ cascades, Ok edge) fun _ plan => planItem_items holds plan)
    fun cascades planned => ?_
  refine Keeps.bind (keeps_reduceOne fine) fun _ _ => Keeps.bind (keeps_indexItem _ _ _) fun _ _ => ?_
  refine Keeps.bind (Keeps.attempt (keeps_persistItem origin fine)) fun persisted _ => ?_
  refine Keeps.bind (Keeps.attempt (G := fun _ => True) (Keeps.ite (fun _ => keeps_liftWatches _ _)
    fun _ => Keeps.pure trivial)) fun watched _ => ?_
  refine Keeps.bind (Keeps.passOn (G := fun _ => True) fun _ _ => trivial) fun _ _ => ?_
  exact Keeps.bind (Keeps.passOn (G := fun _ => True) fun _ _ => trivial) fun _ _ => Keeps.pure planned

theorem stored_groups {registry : StoreRegistry} {groups : List (List Change)}
    (stored : ∀ entityType id item, registry.getValue entityType id = some item → Ok item)
    (fine : ∀ group ∈ groups, ∀ change ∈ group, Ok change.item) {entityType id : String} {item : Item}
    (found : (groups.foldl StoreRegistry.writeAll registry).getValue entityType id = some item) : Ok item := by
  induction groups generalizing registry with
  | nil => exact stored _ _ _ found
  | cons group rest ih =>
    have written : ∀ entityType id item, (registry.writeAll group).getValue entityType id = some item → Ok item :=
      fun _ _ _ => stored_writeAll stored (fine group List.mem_cons_self)
    exact ih written (fun other among => fine other (List.mem_cons_of_mem _ among)) found

theorem keeps_commitGrouped {items : List Item} (first : Item) (change : MEventType) (origin : Origin)
    (mode : EdgeApplyMode) (fine : ∀ item ∈ items, Ok item) :
    KeepsItems ctx Ok before (commitGrouped ctx items first change origin mode)
      fun cascades => ∀ edge ∈ cascades, Ok edge := by
  have grouped : ∀ item ∈ (groupByType items).flatten, Ok item := fun item among =>
    fine item ((groupByType_perm items).mem_iff.mp among)
  refine Keeps.bind Keeps.get fun s holds => Keeps.bind
    (Keeps.passOn (G := fun cascades => ∀ edge ∈ cascades, Ok edge) fun _ plan => planGrouped_items holds plan)
    fun cascades planned => ?_
  refine Keeps.bind (Keeps.modify fun t held => held.write fun entityType id item found => ?_) fun _ _ => ?_
  · rw [← List.foldl_map] at found
    refine stored_groups held.stored (fun group among written present => ?_) found
    obtain ⟨listed, listing, rfl⟩ := List.mem_map.mp among
    obtain ⟨item, member, rfl⟩ := List.mem_map.mp present
    exact grouped item (List.mem_flatten_of_mem listing member)
  · have offered : ∀ written ∈ (groupByType items).flatten.map (Change.mk change), Ok written.item := by
      intro written among
      obtain ⟨item, present, rfl⟩ := List.mem_map.mp among
      exact grouped item present
    refine Keeps.bind (Keeps.attempt (keeps_indexAndPersist _ _ origin offered)) fun mutated _ => ?_
    refine Keeps.bind (Keeps.attempt (G := fun _ => True) (Keeps.ite (fun _ => Keeps.pure trivial)
      fun _ => keeps_liftWatches _ _)) fun watched _ => ?_
    refine Keeps.bind (Keeps.passOn (G := fun _ => True) fun _ _ => trivial) fun _ _ => ?_
    exact Keeps.bind (Keeps.passOn (G := fun _ => True) fun _ _ => trivial) fun _ _ => Keeps.pure planned

theorem replaceWrites_fine {upserts deletes : List Item} (fine : ∀ item ∈ upserts ++ deletes, Ok item)
    {entityType : String} {change : Change} (among : change ∈ replaceWrites upserts deletes entityType) :
    Ok change.item := by
  rcases List.mem_append.mp among with among | among
  · obtain ⟨item, present, rfl⟩ := List.mem_map.mp among
    exact fine item (List.mem_append_right _ (List.mem_filter.mp present).1)
  · obtain ⟨item, present, rfl⟩ := List.mem_map.mp among
    exact fine item (List.mem_append_left _ (List.mem_filter.mp present).1)

theorem keeps_commitReplace {upserts deletes : List Item} (first : Item) (origin : Origin)
    (mode : EdgeApplyMode) (expected : Option Nat) (fine : ∀ item ∈ upserts ++ deletes, Ok item) :
    KeepsItems ctx Ok before (commitReplace ctx upserts deletes first origin mode expected)
      fun result => ∀ cascades, result = some cascades → ∀ edge ∈ cascades, Ok edge := by
  unfold commitReplace
  split
  · exact Keeps.bind (G := fun _ => False) (Keeps.throw _) fun _ never => never.elim
  · refine Keeps.bind Keeps.get fun s holds => ?_
    refine Keeps.ite (fun _ => Keeps.pure fun _ none => nomatch none) fun _ => ?_
    have effective : ∀ item ∈ upserts ++ effectiveDeletes s deletes, Ok item := by
      intro item among
      rcases List.mem_append.mp among with among | among
      · exact fine item (List.mem_append_left _ among)
      · exact fine item (List.mem_append_right _ (List.mem_filter.mp among).1)
    refine Keeps.bind (Keeps.passOn (G := fun cascades => ∀ edge ∈ cascades, Ok edge)
      fun _ plan => planReplace_items holds plan) fun cascades planned => ?_
    refine Keeps.bind (Keeps.modify fun t held => held.write fun entityType id item found => ?_) fun _ _ => ?_
    · rw [← List.foldl_map] at found
      refine stored_groups held.stored (fun group among change present => ?_) found
      obtain ⟨entityType, -, rfl⟩ := List.mem_map.mp among
      exact replaceWrites_fine effective present
    · refine Keeps.bind (keeps_indexAndPersist _ _ origin fun change among => ?_) fun _ _ => ?_
      · obtain ⟨item, present, rfl⟩ := List.mem_map.mp among
        exact effective item (List.mem_append_right _ present)
      refine Keeps.bind (keeps_indexAndPersist _ _ origin fun change among => ?_) fun _ _ => ?_
      · obtain ⟨item, present, rfl⟩ := List.mem_map.mp among
        exact effective item (List.mem_append_left _ present)
      have finish : KeepsItems ctx Ok before (pure (some cascades) : ServerM (Option (List Item)))
          fun result => ∀ cascades, result = some cascades → ∀ edge ∈ cascades, Ok edge := by
        refine Keeps.pure fun found same => ?_
        cases same
        exact planned
      exact Keeps.ite (fun _ => Keeps.bind (keeps_liftWatches _ _) fun _ _ => finish) fun _ => finish

/-! ### Reductions -/

section
variable {submit : Submit} (submits : SubmitsItems ctx Ok before submit) (inherited : Inherited ctx Ok)
include submits inherited

theorem keeps_reducePending {pending : PendingMutation} (fine : ∀ item ∈ pending.items, Ok item) :
    KeepsItems ctx Ok before (reducePending ctx submit pending) fun _ => True := by
  have grouped : ∀ items change, (∀ item ∈ items, Ok item) →
      KeepsItems ctx Ok before (emitGrouped ctx submit items change pending.origin pending.mode) fun _ => True := by
    intro items change fine
    cases items with
    | nil => exact Keeps.pure trivial
    | cons first rest =>
      refine Keeps.bind (keeps_commitGrouped _ _ _ _ fine) fun cascades planned => ?_
      refine Keeps.bind (Keeps.each fun group _ => keeps_applyEffects submits inherited _ _ _) fun _ _ => ?_
      exact submits _ _ _ planned
  obtain ⟨kind, origin, mode, depth, chain⟩ := pending
  cases kind with
  | uniform items change =>
    match items with
    | [] => exact Keeps.bind (grouped [] change fine) fun _ _ => Keeps.pure trivial
    | [item] =>
      refine Keeps.bind (G := fun _ => True) ?_ fun _ _ => Keeps.pure trivial
      refine Keeps.bind (keeps_commitOne change origin mode (fine item List.mem_cons_self)) fun cascades planned => ?_
      exact Keeps.bind (keeps_applyEffects submits inherited _ _ _) fun _ _ => submits _ _ _ planned
    | first :: second :: rest => exact Keeps.bind (grouped _ change fine) fun _ _ => Keeps.pure trivial
  | replace upserts deletes expected =>
    unfold reducePending emitReplaceGrouped
    dsimp only
    split
    · exact Keeps.pure trivial
    · refine Keeps.bind Keeps.get fun s _ => Keeps.bind (keeps_commitReplace _ _ _ _ fine)
        fun result planned => ?_
      cases result with
      | none => exact Keeps.pure trivial
      | some cascades =>
        refine Keeps.bind (Keeps.each fun entityType _ => ?_) fun _ _ => ?_
        · exact Keeps.bind (keeps_applyEffects submits inherited _ _ _) fun _ _ =>
            keeps_applyEffects submits inherited _ _ _
        · exact Keeps.bind (submits _ _ _ (planned cascades rfl)) fun _ _ => Keeps.pure trivial

theorem keeps_drain (halt : Bool) (fuel : Nat) :
    KeepsItems ctx Ok before (drain ctx submit halt fuel) fun _ => True := by
  induction fuel with
  | zero => exact Keeps.pure trivial
  | succ fuel ih =>
    refine Keeps.bind keeps_popPending fun popped waiting => ?_
    cases popped with
    | none => exact Keeps.pure trivial
    | some pending =>
      refine Keeps.bind (keeps_reducePending submits inherited (waiting pending rfl)) fun applied _ => ?_
      exact Keeps.ite (fun _ => Keeps.pure trivial) fun _ => ih

theorem keeps_runRoot {halt : Bool} {items : List Item} {enqueue : ServerM Unit}
    (enqueues : KeepsItems ctx Ok before enqueue fun _ => True) :
    KeepsItems ctx Ok before (runRoot ctx submit halt items enqueue) fun _ => True := by
  refine Keeps.bind (Keeps.modify fun s holds => ⟨holds.stored, holds.offered, fun c same => ?_,
    holds.buffered⟩) fun _ _ => ?_
  · cases same
    exact fun _ among => nomatch among
  refine Keeps.bind Keeps.get fun s _ => ?_
  refine Keeps.bind (Keeps.attempt (Keeps.bind enqueues fun _ _ => keeps_drain submits inherited _ _))
    fun result _ => ?_
  refine Keeps.bind (Keeps.modify fun s holds => ⟨holds.stored, holds.offered, fun _ none => (nomatch none),
    holds.buffered⟩) fun _ _ => ?_
  exact Keeps.passOn fun _ _ => trivial

end

/-! ### Calls -/

section
variable (inherited : Inherited ctx Ok)
include inherited

theorem keeps_submitMutationMode {items : List Item} (change : MEventType) (origin : Origin)
    (mode : EdgeApplyMode) (fine : ∀ item ∈ items, Ok item) :
    KeepsItems ctx Ok before (submitMutationMode ctx items change origin mode) fun _ => True := by
  have enqueues : KeepsItems ctx Ok before (enqueueCausal ctx items change origin mode) fun _ => True :=
    keeps_enqueueCausal change origin mode fine
  refine Keeps.bind Keeps.get fun s _ => Keeps.ite (fun _ => enqueues) fun _ => Keeps.ite (fun _ => ?_) fun _ => ?_
  · exact Keeps.discard (keeps_runRoot submitDerived_items inherited enqueues)
  · exact Keeps.discard (keeps_reducePending submitDerived_items inherited fine)

theorem keeps_submitReplaceMutationInner {upserts deletes : List Item} (origin : Origin)
    (expected : Option Nat) (fine : ∀ item ∈ upserts ++ deletes, Ok item) :
    KeepsItems ctx Ok before (submitReplaceMutationInner ctx upserts deletes origin expected) fun _ => True := by
  refine Keeps.ite (fun _ => Keeps.pure trivial) fun _ => Keeps.bind Keeps.get fun s _ => ?_
  have alone : KeepsItems ctx Ok before (runRoot ctx (submitDerived ctx) true (upserts ++ deletes)
      (enqueueCausalReplace ctx upserts deletes origin .authoritative expected)) fun _ => True :=
    keeps_runRoot submitDerived_items inherited (keeps_enqueueCausalReplace _ _ _ fine)
  refine Keeps.ite (fun _ => Keeps.ite (fun _ => Keeps.pure trivial) fun _ => ?_) fun _ => alone
  exact Keeps.bind (keeps_enqueueCausalReplace _ _ _ fine) fun _ _ => Keeps.pure trivial

theorem keeps_applyEventBatchImmediate {events : List MEvent}
    (fine : ∀ event ∈ events, ∀ item, ctx.parser event.itemType event.item = some item → Ok item) :
    KeepsItems ctx Ok before (applyEventBatchImmediate ctx events) fun _ => True := by
  have parsed : ∀ change, ∀ item ∈ parsedItems ctx events change, Ok item := by
    intro change item among
    obtain ⟨event, present, parses⟩ := List.mem_filterMap.mp among
    exact fine event (List.mem_filter.mp present).1 item parses
  refine Keeps.ite (fun _ => Keeps.pure trivial) fun _ => ?_
  refine Keeps.bind (keeps_submitMutationMode inherited _ _ _ (parsed .set)) fun _ _ => ?_
  exact Keeps.bind (keeps_submitMutationMode inherited _ _ _ (parsed .del)) fun _ _ => Keeps.pure trivial

theorem keeps_applyEventBatch {events : List MEvent}
    (fine : ∀ event ∈ events, ∀ item, ctx.parser event.itemType event.item = some item → Ok item) :
    KeepsItems ctx Ok before (applyEventBatch ctx events) fun _ => True := by
  have immediate : KeepsItems ctx Ok before (applyEventBatchImmediate ctx (events.filter fun event =>
      !isBuffered ctx event)) fun _ => True :=
    keeps_applyEventBatchImmediate inherited fun event among => fine event (List.mem_filter.mp among).1
  have buffering : ∀ accepted, KeepsItems ctx Ok before (do
      each (fun entityType => enqueueBufferedEvents entityType
        ((events.filter (isBuffered ctx)).filter fun event => event.itemType = entityType))
        ((events.filter (isBuffered ctx)).map MEvent.itemType).dedup
      return accepted + (events.filter (isBuffered ctx)).length : ServerM Nat) fun _ => True := by
    intro accepted
    refine Keeps.bind (Keeps.each fun entityType _ => Keeps.modify fun s holds => ?_) fun _ _ => Keeps.pure trivial
    exact holds.buffer fun event among => fine event (List.mem_filter.mp (List.mem_filter.mp among).1).1
  refine Keeps.ite (fun _ => Keeps.bind (G := fun _ => True) (Keeps.pure trivial) fun _ _ => buffering _)
    fun _ => ?_
  exact Keeps.bind immediate fun _ _ => buffering _

theorem keeps_flushBufferedEventsForType (entityType : String) :
    KeepsItems ctx Ok before (flushBufferedEventsForType ctx entityType) fun _ => True := by
  refine Keeps.bind Keeps.get fun s holds => Keeps.ite (fun _ => Keeps.pure trivial) fun _ => ?_
  refine Keeps.bind (Keeps.modify fun t held => ?_) fun _ _ => ?_
  · refine ⟨held.stored, held.offered, held.queued, fun other event among => ?_⟩
    by_cases same : other = entityType
    · dsimp only at among
      rw [same, Function.update_self] at among
      cases among
    · dsimp only at among
      rw [Function.update_of_ne same] at among
      exact held.buffered other event among
  · refine Keeps.bind (Keeps.attempt (keeps_applyEventBatchImmediate inherited fun event among =>
      holds.buffered entityType event among)) fun result _ => ?_
    cases result with
    | ok count => exact Keeps.pure trivial
    | error e => exact Keeps.pure trivial

end

theorem keeps_delById (entityType id : String) :
    KeepsItems ctx Ok before (delById ctx entityType id) fun _ => True := by
  refine Keeps.bind Keeps.get fun s holds => Keeps.bind (Keeps.modify fun t held => ?_) fun _ _ => ?_
  · refine ⟨fun other key item found => held.stored other key item ?_, held.offered, held.queued, held.buffered⟩
    rw [StoreRegistry.getValue_remove] at found
    split at found
    · cases found
    · exact found
  · cases found : s.registry.getValue entityType id with
    | none => exact Keeps.pure trivial
    | some item =>
      refine Keeps.bind (keeps_persistDyn (holds.stored _ _ item found)) fun _ _ => ?_
      exact Keeps.modify fun _ held => held.congr rfl rfl rfl rfl

theorem keeps_openWatch (edgeType : String) (watch : GraphView → EdgeRegistration → GraphWatch) :
    KeepsItems ctx Ok before (openWatch ctx edgeType watch) fun _ => True := by
  unfold openWatch
  split
  · exact Keeps.pure trivial
  · exact Keeps.bind (Keeps.modify fun _ holds => holds.congr rfl rfl rfl rfl) fun _ _ => Keeps.pure trivial

namespace Call

/-- What holds of every item a call supplies. -/
def Supplies (ctx : MykoServerContext) (Ok : Item → Prop) : Call → Prop
  | set item | setDyn item | setTransient item | del item => Ok item
  | batchSet items | batchDel items => ∀ item ∈ items, Ok item
  | replaceBatchAny upserts deletes => ∀ item ∈ upserts ++ deletes, Ok item
  | applyEventBatch events =>
    ∀ event ∈ events, ∀ item, ctx.parser event.itemType event.item = some item → Ok item
  | _ => True

theorem keeps_run (inherited : Inherited ctx Ok) {call : Call} (supplies : call.Supplies ctx Ok) :
    KeepsItems ctx Ok before (call.run ctx) fun _ => True := by
  have single : ∀ item change origin, Ok item →
      KeepsItems ctx Ok before (submitMutation ctx [item] change origin) fun _ => True := by
    intro item change origin fine
    refine keeps_submitMutationMode inherited _ _ _ fun other among => ?_
    rw [List.mem_singleton.mp among]
    exact fine
  cases call with
  | set item => exact single item _ _ supplies
  | setDyn item => exact single item _ _ supplies
  | setTransient item => exact single item _ _ supplies
  | del item => exact single item _ _ supplies
  | batchSet items =>
    exact Keeps.ite (fun _ => Keeps.pure trivial) fun _ => keeps_submitMutationMode inherited _ _ _ supplies
  | batchDel items =>
    exact Keeps.ite (fun _ => Keeps.pure trivial) fun _ => keeps_submitMutationMode inherited _ _ _ supplies
  | replaceBatchAny upserts deletes =>
    exact Keeps.discard (keeps_submitReplaceMutationInner inherited _ _ supplies)
  | delById entityType id => exact keeps_delById entityType id
  | applyEventBatch events => exact Keeps.discard (keeps_applyEventBatch inherited supplies)
  | flushBufferedEventsForType entityType =>
    exact Keeps.discard (keeps_flushBufferedEventsForType inherited entityType)
  | setEdgeApplyMode edgeType mode =>
    refine Keeps.discard (G := fun _ => True) (Keeps.ite (fun _ => Keeps.pure trivial) fun _ => ?_)
    exact Keeps.bind (Keeps.modify fun _ holds => holds.congr rfl rfl rfl rfl) fun _ _ => Keeps.pure trivial
  | setCausalLimits limits => exact Keeps.modify fun _ holds => holds.congr rfl rfl rfl rfl
  | watch edgeType selection => exact Keeps.discard (keeps_openWatch _ _)
  | watchCountAt edgeType position endpoint => exact Keeps.discard (keeps_openWatch _ _)
  | watchCountBetween edgeType a b => exact Keeps.discard (keeps_openWatch _ _)

end Call

/-- Everything offered so far is as far back as one needs to look. -/
theorem Carries.rebase {s : ServerState} (holds : Carries ctx Ok before s) : Carries ctx Ok s.offered s :=
  ⟨holds.stored, ⟨[], (List.append_nil _).symm, fun _ among => (nomatch among)⟩, holds.queued, holds.buffered⟩

theorem carries_initial : Carries ctx Ok [] .initial :=
  ⟨fun _ _ _ found => (nomatch found), ⟨[], rfl, fun _ among => (nomatch among)⟩, fun _ none => (nomatch none),
    fun _ _ among => (nomatch among)⟩

end Myko

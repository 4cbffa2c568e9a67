import Myko.Server.CascadeReach
import Myko.Server.ForeignKeys

/-!
Whom a root of deletions leaves behind. Deletions derive deletions and rewritten parents only, so an entity comes back
only if it waits to be put when it is deleted, and a dependent stays only if the deletion does not find it.
-/

namespace Myko
open StateError

variable {ctx : MykoServerContext}

/-- An entity that may not stay without the other: a stored child that names it, a stored child in its array, or what
was ensured for it. -/
inductive Dependent (ctx : MykoServerContext) (registry : StoreRegistry) (entity : EntityRef) : EntityRef → Prop
  | child {lookup : BelongsToLookup} {id : String} {item : Item} (registered : lookup ∈ ctx.tables.belongsTo)
    (typed : lookup.foreignType = entity.entityType) (stored : registry.getValue lookup.localType id = some item)
    (named : lookup.extractFk item = some entity.id) : Dependent ctx registry entity ⟨lookup.localType, id⟩
  | owned {lookup : OwnsManyLookup} {parent child : Item} {id : String} (registered : lookup ∈ ctx.tables.ownsMany)
    (typed : lookup.localType = entity.entityType)
    (present : registry.getValue entity.entityType entity.id = some parent) (listed : id ∈ lookup.owned parent)
    (stored : registry.getValue lookup.foreignType id = some child) :
    Dependent ctx registry entity ⟨lookup.foreignType, id⟩
  | ensured {lookup : EnsureForLookup} {key : ForeignKey} {id : String} {item : Item}
    (registered : lookup ∈ ctx.tables.ensureForBy entity.entityType) (depends : key ∈ lookup.keys)
    (typed : key.foreignType = entity.entityType) (stored : registry.getValue lookup.localType id = some item)
    (named : key.extractFk item = some entity.id) : Dependent ctx registry entity ⟨lookup.localType, id⟩

theorem Dependent.present {registry : StoreRegistry} {entity other : EntityRef}
    (dependent : Dependent ctx registry entity other) : ¬registry.Absent other := by
  intro absent
  unfold StoreRegistry.Absent at absent
  cases dependent with
  | child _ _ stored _ =>
    rw [stored] at absent
    cases absent
  | owned _ _ _ _ stored =>
    rw [stored] at absent
    cases absent
  | ensured _ _ _ stored _ =>
    rw [stored] at absent
    cases absent

/-- The items a mutation is asked to delete. -/
def PendingMutation.condemned (pending : PendingMutation) : List Item :=
  match pending.kind with
  | .uniform items .del => items
  | .uniform _ .set => []
  | .replace _ deletes _ => deletes

/-- The deletion of an entity is queued. -/
def CausalState.Condemns (c : CausalState) (entity : EntityRef) : Prop :=
  ∃ pending ∈ c.queue, ∃ item ∈ pending.condemned, entityOf item = entity

/-- A deletion that takes all with it: nobody it deletes waits in the queue to be put, and whoever depends on an entity
it deletes is deleted as well, has a deletion queued, or is found. -/
structure TakesAll (ctx : MykoServerContext) (s : ServerState) (pending : PendingMutation) : Prop where
  unput : ∀ c, s.causal = some c → ∀ item ∈ pending.deletions s, ¬PutQueued c (item.entityType, item.id)
  finds : ∀ c, s.causal = some c → ∀ item ∈ pending.deletions s, ∀ other,
    Dependent ctx s.registry (entityOf item) other →
      (∃ same ∈ pending.deletions s, entityOf same = other) ∨ c.Condemns other ∨
        ∃ item' ∈ pending.deletions s, ∃ child, entityOf child = other ∧ Finds ctx s item' child

/-- An item as it was at the start, but for ids in its arrays of children that are gone. -/
def KeptFrom (ctx : MykoServerContext) (start : StoreRegistry) (gone : List EntityRef) (item : Item) : Prop :=
  ∃ before, start.getValue item.entityType item.id = some before ∧
    (∀ key : ForeignKey, key.extractFk item = key.extractFk before) ∧
    ∀ lookup ∈ ctx.tables.ownsMany, ∀ id ∈ lookup.owned before,
      ⟨lookup.foreignType, id⟩ ∈ gone ∨ id ∈ lookup.owned item

variable {start registry : StoreRegistry} {gone more : List EntityRef} {item parent parent' : Item}

theorem KeptFrom.append (kept : KeptFrom ctx start gone item) : KeptFrom ctx start (gone ++ more) item := by
  obtain ⟨before, was, keys, arrays⟩ := kept
  exact ⟨before, was, keys, fun lookup registered id listed =>
    (arrays lookup registered id listed).imp_left fun lost => List.mem_append_left _ lost⟩

theorem extractFk_removeId {lookup : OwnsManyLookup} {id : String} (removed : lookup.removeId parent id = some parent')
    (key : ForeignKey) : key.extractFk parent' = key.extractFk parent := by
  obtain ⟨ids, found, rfl⟩ := Option.map_eq_some_iff.mp removed
  unfold ForeignKey.extractFk
  rw [Item.setField_entityType, Item.field_setField]
  by_cases own : key.field = lookup.field
  · -- the field is an array before and after, so it names no parent
    have array : parent.field key.field = some (.ids ids) := by
      unfold OwnsManyLookup.extractIds at found
      split at found
      · rw [own]
        split at found
        · rename_i values held
          rw [held, Option.some.inj found]
        · cases found
      · cases found
    rw [if_pos own, array]
  · rw [if_neg own]

/-- A parent that loses a child that is gone. -/
theorem KeptFrom.fixup (kept : KeptFrom ctx start gone parent) (fields : FieldsApart ctx) {items : List Item}
    {lookup : OwnsManyLookup} (fixup : Fixup ctx registry items parent' item lookup parent) :
    KeptFrom ctx start (gone ++ items.map entityOf) parent' := by
  obtain ⟨before, was, keys, arrays⟩ := kept
  obtain ⟨-, same⟩ := OwnsManyLookup.removeId_cases fixup.removed
  refine ⟨before, ?_, fun key => (extractFk_removeId fixup.removed key).trans (keys key),
    fun other registered id listed => ?_⟩
  · rw [same]
    exact was
  · rcases arrays other registered id listed with lost | present
    · exact .inl (List.mem_append_left _ lost)
    · by_cases own : other = lookup
      · subst own
        by_cases taken : id = item.id
        · left
          have here : (⟨other.foreignType, id⟩ : EntityRef) = entityOf item := by
            rw [taken, fixup.typed]
            rfl
          rw [here]
          exact List.mem_append_right _ (List.mem_map_of_mem fixup.deleted)
        · right
          rw [OwnsManyLookup.owned_removeId fixup.removed]
          exact List.mem_filter.mpr ⟨present, decide_eq_true taken⟩
      · right
        rw [OwnsManyLookup.owned_removeId_of_ne fixup.removed fun typed field =>
          own (fields lookup fixup.registered other registered typed field)]
        exact present

/-- A mutation of a root of deletions: a deletion that cascades, or rewritten parents, from which nothing follows. -/
inductive OfDeletion (pending : PendingMutation) : Prop where
  | deletes (puts : pending.puts = []) (cascades : pending.origin.shouldCascade = true)
  | fixup {batch : List Item} (kind : pending.kind = .uniform batch .set)
    (silent : pending.origin.shouldCascade = false)

theorem FromDelete.ofDeletion {pending : PendingMutation} (follows : FromDelete pending) : OfDeletion pending := by
  cases follows with
  | del items kind cascades =>
    refine .deletes ?_ cascades
    unfold PendingMutation.puts
    rw [kind]
  | fixup items kind silent => exact .fixup kind silent

/-- Whom the root has to delete: the items it began with, and whoever depended on an entity that is gone. -/
def Due (ctx : MykoServerContext) (start : StoreRegistry) (items : List Item) (gone : List EntityRef)
    (other : EntityRef) : Prop :=
  (∃ item ∈ items, entityOf item = other) ∨ ∃ entity ∈ gone, Dependent ctx start entity other

/-- A root of deletions under way. Nobody who is gone is stored or waits to be put, and whoever has to go is gone or
condemned. -/
structure Closes (ctx : MykoServerContext) (start : StoreRegistry) (items : List Item) (gone : List EntityRef)
    (s : ServerState) (c : CausalState) : Prop where
  causal : s.causal = some c
  queue : ∀ pending ∈ c.queue, OfDeletion pending
  queued : ∀ pending ∈ c.queue, ∀ parent ∈ pending.puts, entityOf parent ∉ gone ∧ KeptFrom ctx start gone parent
  stored : ∀ entityType id item, s.registry.getValue entityType id = some item →
    ⟨entityType, id⟩ ∉ gone ∧ KeptFrom ctx start gone item
  absent : ∀ entity, s.registry.Absent entity → entity ∈ gone ∨ start.Absent entity
  seen : ∀ transition ∈ c.seen, transition.operation = 2 →
    ⟨transition.entityType, transition.id⟩ ∈ gone ∨ c.Condemns ⟨transition.entityType, transition.id⟩ ∨
      start.Absent ⟨transition.entityType, transition.id⟩
  due : ∀ other, Due ctx start items gone other → other ∈ gone ∨ c.Condemns other ∨ start.Absent other

variable {items : List Item} {s t u : ServerState} {c c' : CausalState} {entity other : EntityRef}

/-- Whoever depended on an entity still stored depends on it now, or is gone. -/
theorem Closes.dependent (closes : Closes ctx start items gone s c) (dependent : Dependent ctx start entity other)
    (stays : entity ∉ gone) : other ∈ gone ∨ Dependent ctx s.registry entity other := by
  have now : ∀ {entityType id before}, start.getValue entityType id = some before → ⟨entityType, id⟩ ∉ gone →
      ∃ item, s.registry.getValue entityType id = some item ∧
        (∀ key : ForeignKey, key.extractFk item = key.extractFk before) ∧
        ∀ lookup ∈ ctx.tables.ownsMany, ∀ child ∈ lookup.owned before,
          ⟨lookup.foreignType, child⟩ ∈ gone ∨ child ∈ lookup.owned item := by
    intro entityType id before was stays
    cases here : s.registry.getValue entityType id with
    | none =>
      rcases closes.absent ⟨entityType, id⟩ here with lost | never
      · exact absurd lost stays
      · unfold StoreRegistry.Absent at never
        rw [was] at never
        cases never
    | some item =>
      obtain ⟨-, before', was', keys, arrays⟩ := closes.stored entityType id item here
      obtain ⟨rfl, rfl⟩ := StoreRegistry.getValue_keyed here
      obtain rfl : before = before' := Option.some.inj (was.symm.trans was')
      exact ⟨item, rfl, keys, arrays⟩
  by_cases lost : other ∈ gone
  · exact .inl lost
  cases dependent with
  | child registered typed stored named =>
    obtain ⟨item, here, keys, -⟩ := now stored lost
    exact .inr (.child registered typed here ((keys _).trans named))
  | owned registered typed present listed stored =>
    obtain ⟨parent, here, -, arrays⟩ := now present stays
    obtain ⟨child, there, -⟩ := now stored lost
    exact .inr (.owned registered typed here ((arrays _ registered _ listed).resolve_left lost) there)
  | ensured registered depends typed stored named =>
    obtain ⟨item, here, keys, -⟩ := now stored lost
    exact .inr (.ensured registered depends typed here ((keys _).trans named))

/-- Whoever depends on an entity that is gone depended on it before. -/
theorem Closes.depended (closes : Closes ctx start items gone s c) (lost : entity ∈ gone)
    (dependent : Dependent ctx s.registry entity other) : Dependent ctx start entity other := by
  cases dependent with
  | child registered typed stored named =>
    obtain ⟨-, before, was, keys, -⟩ := closes.stored _ _ _ stored
    obtain ⟨here, rfl⟩ := StoreRegistry.getValue_keyed stored
    rw [here] at was
    exact .child registered typed was ((keys _).symm.trans named)
  | owned registered typed present listed stored => exact absurd lost (closes.stored _ _ _ present).1
  | ensured registered depends typed stored named =>
    obtain ⟨-, before, was, keys, -⟩ := closes.stored _ _ _ stored
    obtain ⟨here, rfl⟩ := StoreRegistry.getValue_keyed stored
    rw [here] at was
    exact .ensured registered depends typed was ((keys _).symm.trans named)

/-! ### One reduction -/

theorem absent_of_deletion {pending : PendingMutation} (puts : pending.puts = [])
    (committed : Committed ctx s pending u) : ∀ item ∈ pending.deletions s, u.registry.canonicalItem item = none := by
  intro item listed
  unfold StoreRegistry.canonicalItem
  rw [committed.registry]
  rcases getValue_of_deletes (s := s) puts item.entityType item.id with ⟨-, none⟩ | ⟨others, -⟩
  · exact none
  · exact absurd rfl (others item listed)

section
variable {pending : PendingMutation} {queue : List PendingMutation}

theorem CausalState.Condemns.grown (condemns : c.Condemns entity) (grown : c.queue <+: c'.queue) :
    c'.Condemns entity := by
  obtain ⟨pending, queued, condemned⟩ := condemns
  exact ⟨pending, grown.subset queued, condemned⟩

theorem CausalState.Awaits.condemns (awaits : c.Awaits entity) : c.Condemns entity := by
  obtain ⟨pending, queued, items, kind, item, listed, same⟩ := awaits
  refine ⟨pending, queued, item, ?_, same⟩
  unfold PendingMutation.condemned
  rw [kind]
  exact listed

theorem condemns_pop (queued : c.queue = pending :: queue) (condemns : c.Condemns entity) :
    (∃ item ∈ pending.condemned, entityOf item = entity) ∨ (c.pop pending queue).Condemns entity := by
  obtain ⟨other, member, item, listed, same⟩ := condemns
  rw [queued] at member
  rcases List.mem_cons.mp member with rfl | member
  · exact .inl ⟨item, listed, same⟩
  · exact .inr ⟨other, member, item, listed, same⟩

/-- What a mutation is asked to delete it deletes, or is not stored. -/
theorem deletion_of_condemned (listed : item ∈ pending.condemned) :
    item ∈ pending.deletions s ∨ s.registry.canonicalItem item = none := by
  unfold PendingMutation.condemned at listed
  unfold PendingMutation.deletions
  match shape : pending.kind with
  | .uniform items .del =>
    rw [shape] at listed
    exact .inl listed
  | .uniform items .set =>
    rw [shape] at listed
    cases listed
  | .replace upserts deletes expected =>
    rw [shape] at listed
    cases stored : s.registry.canonicalItem item with
    | none => exact .inr rfl
    | some found => exact .inl (List.mem_filter.mpr ⟨listed, by rw [stored]; rfl⟩)

theorem Finds.committed {child : Item} (finds : Finds ctx s item child) (committed : Committed ctx s pending u)
    (puts : pending.puts = []) (stays : ∀ same ∈ pending.deletions s, entityOf same ≠ entityOf child) :
    Finds ctx u item child := by
  have kept : ∀ {entityType id}, s.registry.getValue entityType id = some child →
      u.registry.getValue entityType id = some child := by
    intro entityType id stored
    obtain ⟨rfl, rfl⟩ := StoreRegistry.getValue_keyed stored
    rw [committed.registry]
    rcases getValue_of_deletes (s := s) puts child.entityType child.id with ⟨⟨same, listed, here⟩, -⟩ | ⟨-, value⟩
    · exact absurd here (stays same listed)
    · exact value.trans stored
  cases finds with
  | child registered typed stored named listed =>
    refine .child registered typed (kept stored) named ?_
    intro loaded children under
    rw [committed.parentByChild] at loaded
    rw [committed.childrenByParent] at under
    exact listed loaded children under
  | owned registered typed listed stored => exact .owned registered typed listed (kept stored)
  | ensured registered depends typed stored named => exact .ensured registered depends typed (kept stored) named

/-- A mutation that only deletes. -/
theorem Closes.delete (fields : FieldsApart ctx) (closes : Closes ctx start items gone s c)
    (queued : c.queue = pending :: queue) (puts : pending.puts = []) (cascades : pending.origin.shouldCascade = true)
    (whole : TakesAll ctx (s.popped c pending queue) pending)
    (committed : Committed ctx (s.popped c pending queue) pending u) {planned : List Item}
    (run : effectsPending ctx (submitDerived ctx) pending (s.popped c pending queue) planned u = .ok () t) :
    ∃ c', Closes ctx start items (gone ++ (pending.deletions (s.popped c pending queue)).map entityOf) t c' := by
  have after : u.causal = some (c.pop pending queue) := committed.causal
  obtain ⟨pursues, notes⟩ := pursued_of_effects puts after (absent_of_deletion puts committed) run
  obtain ⟨stores, -, grows⟩ := pursues rfl
  obtain ⟨c', causal, pursuing⟩ := grows _ after
  obtain ⟨added, queue', own⟩ := pursuing.fixing.grown
  have grown := pursuing.queueing.grown
  -- what is stored after the commit was stored before, and is not deleted
  have kept : ∀ {entityType id found}, u.registry.getValue entityType id = some found →
      s.registry.getValue entityType id = some found ∧
        ⟨entityType, id⟩ ∉ (pending.deletions (s.popped c pending queue)).map entityOf := by
    intro entityType id found stored
    rw [committed.registry] at stored
    rcases getValue_of_deletes (s := s.popped c pending queue) puts entityType id with ⟨-, none⟩ | ⟨others, value⟩
    · rw [none] at stored
      cases stored
    · refine ⟨value.symm.trans stored, fun member => ?_⟩
      obtain ⟨item, listed, same⟩ := List.mem_map.mp member
      exact others item listed same
  have lasting : ∀ {entityType id found}, u.registry.getValue entityType id = some found →
      ⟨entityType, id⟩ ∉ gone ++ (pending.deletions (s.popped c pending queue)).map entityOf ∧
        KeptFrom ctx start gone found := by
    intro entityType id found stored
    obtain ⟨before, spared⟩ := kept stored
    obtain ⟨stays, from_start⟩ := closes.stored entityType id found before
    exact ⟨fun member => (List.mem_append.mp member).elim stays spared, from_start⟩
  have condemned : ∀ {entity : EntityRef}, c.Condemns entity →
      entity ∈ gone ++ (pending.deletions (s.popped c pending queue)).map entityOf ∨ c'.Condemns entity ∨
        start.Absent entity := by
    intro entity condemns
    rcases condemns_pop queued condemns with ⟨item, listed, rfl⟩ | later
    · rcases deletion_of_condemned (s := s.popped c pending queue) listed with deleted | none
      · exact .inl (List.mem_append_right _ (List.mem_map_of_mem deleted))
      · exact (closes.absent (entityOf item) none).imp (List.mem_append_left _) .inr
    · exact .inr (.inl (later.grown grown))
  have seen : ∀ transition ∈ c'.seen, transition.operation = 2 →
      ⟨transition.entityType, transition.id⟩ ∈ gone ++ (pending.deletions (s.popped c pending queue)).map entityOf ∨
        c'.Condemns ⟨transition.entityType, transition.id⟩ ∨
        start.Absent ⟨transition.entityType, transition.id⟩ := by
    intro transition member deletion
    rcases pursuing.queueing.seen transition member deletion with before | awaits
    · rcases closes.seen transition before deletion with lost | condemns | never
      · exact .inl (List.mem_append_left _ lost)
      · exact condemned condemns
      · exact .inr (.inr never)
    · exact .inr (.inl awaits.condemns)
  refine ⟨c', causal, fun other member => ?_, fun other member parent put => ?_, fun entityType id found stored => ?_,
    fun entity none => ?_, seen, fun other due => ?_⟩
  · rw [queue'] at member
    rcases List.mem_append.mp member with before | new
    · exact closes.queue other (queued ▸ List.mem_cons_of_mem _ before)
    · exact (own other new).1.ofDeletion
  · rw [queue'] at member
    rcases List.mem_append.mp member with before | new
    · obtain ⟨stays, from_start⟩ := closes.queued other (queued ▸ List.mem_cons_of_mem _ before) parent put
      refine ⟨fun member => ?_, from_start.append⟩
      rcases List.mem_append.mp member with lost | deleted
      · exact stays lost
      · obtain ⟨item, listed, same⟩ := List.mem_map.mp deleted
        refine whole.unput _ rfl item listed ⟨other, before, parent, put, ?_⟩
        exact Prod.ext (congrArg EntityRef.entityType same).symm (congrArg EntityRef.id same).symm
    · obtain ⟨item, lookup, old, fixup⟩ := (own other new).2 parent put
      obtain ⟨stays, from_start⟩ := lasting fixup.stored
      obtain ⟨-, same⟩ := OwnsManyLookup.removeId_cases fixup.removed
      refine ⟨?_, from_start.fixup fields fixup⟩
      rw [same]
      exact stays
  · rw [stores] at stored
    obtain ⟨stays, from_start⟩ := lasting stored
    exact ⟨stays, from_start.append⟩
  · rw [stores, committed.registry] at none
    rcases getValue_of_deletes (s := s.popped c pending queue) puts entity.entityType entity.id with
      ⟨⟨item, listed, same⟩, -⟩ | ⟨-, value⟩
    · exact .inl (List.mem_append_right _ (List.mem_map.mpr ⟨item, listed, same⟩))
    · exact (closes.absent entity (value.symm.trans none)).imp_left (List.mem_append_left _)
  · by_cases before : Due ctx start items gone other
    · rcases closes.due other before with lost | condemns | never
      · exact .inl (List.mem_append_left _ lost)
      · exact condemned condemns
      · exact .inr (.inr never)
    rcases due with asked | ⟨entity, member, dependent⟩
    · exact absurd (.inl asked) before
    rcases List.mem_append.mp member with lost | deleted
    · exact absurd (.inr ⟨entity, lost, dependent⟩) before
    -- the entity is deleted here, and the other depends on it now
    by_cases lost : entity ∈ gone
    · exact absurd (.inr ⟨entity, lost, dependent⟩) before
    obtain ⟨item, listed, rfl⟩ := List.mem_map.mp deleted
    rcases closes.dependent dependent lost with gone' | now
    · exact .inl (List.mem_append_left _ gone')
    rcases whole.finds _ rfl item listed other now with
      ⟨same, among, rfl⟩ | condemns | ⟨item', listed', child, rfl, finds⟩
    · exact .inl (List.mem_append_right _ (List.mem_map_of_mem among))
    · exact .inr (.inl (condemns.grown grown))
    · by_cases taken : ∃ same ∈ pending.deletions (s.popped c pending queue), entityOf same = entityOf child
      · obtain ⟨same, among, here⟩ := taken
        rw [← here]
        exact .inl (List.mem_append_right _ (List.mem_map_of_mem among))
      · have found := finds.committed committed puts fun same among here => taken ⟨same, among, here⟩
        obtain ⟨c'', causal', noted⟩ := notes cascades item' listed' child found
        obtain rfl : c' = c'' := Option.some.inj (causal.symm.trans causal')
        exact seen _ noted rfl

/-- The effects of a mutation that does not cascade. -/
theorem pursued_of_silent {before : ServerState} {planned : List Item} (silent : pending.origin.shouldCascade = false)
    (run : effectsPending ctx (submitDerived ctx) pending before planned s = .ok () t) :
    Pursues ctx s.registry [] s t := by
  have moves : Moves (Pursues ctx s.registry []) (fun _ _ => True)
      (effectsPending ctx (submitDerived ctx) pending before planned) := by
    refine Moves.ite (fun _ => Moves.pure pursues_frame _) fun _ => Moves.bind pursues_frame ?_ fun _ =>
      pursues_cascade planned
    refine Moves.each pursues_frame fun group _ => Moves.bind pursues_frame (pursues_search _ _) fun _ =>
      Moves.ite (fun cascades => ?_) fun _ => pursues_produce _ _
    rw [silent] at cascades
    cases cascades
  exact moves.ok run

/-- A batch of rewritten parents is put. -/
theorem Closes.put (closes : Closes ctx start items gone s c) (queued : c.queue = pending :: queue)
    {batch : List Item} (kind : pending.kind = .uniform batch .set) (silent : pending.origin.shouldCascade = false)
    (committed : Committed ctx (s.popped c pending queue) pending u) {planned : List Item}
    (run : effectsPending ctx (submitDerived ctx) pending (s.popped c pending queue) planned u = .ok () t) :
    ∃ c', Closes ctx start items gone t c' := by
  obtain ⟨stores, -, grows⟩ := pursued_of_silent silent run rfl
  obtain ⟨c', causal, pursuing⟩ := grows _ committed.causal
  obtain ⟨added, queue', own⟩ := pursuing.fixing.grown
  have condemned : ∀ {entity : EntityRef}, c.Condemns entity → c'.Condemns entity := by
    intro entity condemns
    rcases condemns_pop queued condemns with ⟨item, listed, -⟩ | later
    · unfold PendingMutation.condemned at listed
      rw [kind] at listed
      cases listed
    · exact later.grown pursuing.queueing.grown
  have written : ∀ entityType id, (∃ parent ∈ pending.puts, (parent.entityType, parent.id) = (entityType, id) ∧
      u.registry.getValue entityType id = some parent) ∨
        u.registry.getValue entityType id = s.registry.getValue entityType id := by
    intro entityType id
    rw [committed.registry]
    rcases StoreRegistry.getValue_writeAll_cases s.registry (changesOf (s.popped c pending queue) pending) entityType id
      with ⟨change, member, key, value⟩ | ⟨-, value⟩
    · have set : change.value = some change.item := by
        rcases mem_changesOf member with ⟨_, kind', -⟩ | ⟨_, _, _, kind', -⟩
        · rw [kind] at kind'
          unfold Change.value
          rw [← (PendingMutationKind.uniform.inj kind').2]
        · rw [kind] at kind'
          cases kind'
      exact .inl ⟨change.item, mem_puts_of_change member set, key, value.trans set⟩
    · exact .inr value
  refine ⟨c', causal, fun other member => ?_, fun other member parent put => ?_, fun entityType id found stored => ?_,
    fun entity none => ?_, fun transition member deletion => ?_, fun other due => ?_⟩
  · rw [queue'] at member
    rcases List.mem_append.mp member with before | new
    · exact closes.queue other (queued ▸ List.mem_cons_of_mem _ before)
    · exact (own other new).1.ofDeletion
  · rw [queue'] at member
    rcases List.mem_append.mp member with before | new
    · exact closes.queued other (queued ▸ List.mem_cons_of_mem _ before) parent put
    · obtain ⟨item, lookup, parent, fixup⟩ := (own other new).2 parent put
      cases fixup.deleted
  · rw [stores] at stored
    rcases written entityType id with ⟨parent, put, key, value⟩ | value
    · obtain rfl : parent = found := Option.some.inj (value.symm.trans stored)
      obtain ⟨rfl, rfl⟩ := Prod.mk.inj key
      exact closes.queued pending (queued ▸ List.mem_cons_self) parent put
    · exact closes.stored entityType id found (value.symm.trans stored)
  · rw [stores] at none
    rcases written entity.entityType entity.id with ⟨parent, -, -, value⟩ | value
    · unfold StoreRegistry.Absent at none
      rw [value] at none
      cases none
    · exact closes.absent entity (value.symm.trans none)
  · rcases pursuing.queueing.seen transition member deletion with before | awaits
    · exact (closes.seen transition before deletion).imp_right fun either => either.imp_left condemned
    · exact .inr (.inl awaits.condemns)
  · exact (closes.due other due).imp_right fun either => either.imp_left condemned

/-- One reduction of such a root. -/
theorem Closes.reduced (fields : FieldsApart ctx) (closes : Closes ctx start items gone s c)
    (queued : c.queue = pending :: queue) (whole : TakesAll ctx (s.popped c pending queue) pending)
    (run : reducePending ctx (submitDerived ctx) pending (s.popped c pending queue) = .ok true t) :
    ∃ c', Closes ctx start items (gone ++ (pending.deletions (s.popped c pending queue)).map entityOf) t c' := by
  rcases reducePending_ok run with ⟨-, stopped⟩ | ⟨planned, u, commit, effects, -⟩
  · cases stopped
  obtain ⟨-, committed⟩ := commitPending_ok commit
  cases closes.queue pending (queued ▸ List.mem_cons_self) with
  | deletes puts cascades => exact closes.delete fields queued puts cascades whole committed effects
  | fixup kind silent =>
    have none : pending.deletions (s.popped c pending queue) = [] := by
      unfold PendingMutation.deletions
      rw [kind]
    rw [none, List.map_nil, List.append_nil]
    exact closes.put queued kind silent committed effects

end

/-! ### Whole roots -/

/-- The entities the reductions of a run delete. -/
def goneBy (reductions : List Reduction) : List EntityRef :=
  reductions.flatMap fun reduction => (reduction.2.deletions reduction.1).map entityOf

/-- A drain whose deletions take all with them. -/
theorem drain_closes (fields : FieldsApart ctx) {limits : CausalLimits} {bound fuel : Nat} {halt applied : Bool}
    (waiting : Waiting limits bound s c) (enough : bound < fuel) (closes : Closes ctx start items gone s c)
    (allowed : Allowed (TakesAll ctx) (drainReductions ctx halt fuel s))
    (run : drain ctx (submitDerived ctx) halt fuel s = .ok applied t) :
    ∃ c', c'.queue = [] ∧ Closes ctx start items (gone ++ goneBy (drainReductions ctx halt fuel s)) t c' :=
  drain_collects (f := fun reduction => (reduction.2.deletions reduction.1).map entityOf)
    (K := Closes ctx start items) Closes.causal
    (fun closes queued whole run => closes.reduced fields queued whole run) waiting enough closes allowed run

/-- A root whose own mutation deletes the items and cascades: a batch of deletions, or a replacement of nothing else. -/
inductive CausalRoot.Deletes (items : List Item) : CausalRoot → Prop
  | batch (named : items ≠ []) {origin : Origin} (cascades : origin.shouldCascade = true) (mode : EdgeApplyMode) :
    Deletes items (.mutation items .del origin mode)
  | replacement (named : items ≠ []) {origin : Origin} (cascades : origin.shouldCascade = true) :
    Deletes items (.replacement [] items origin none)

/-- A root just opened that has nothing queued but one deletion. -/
structure OpensWith (ctx : MykoServerContext) (items : List Item) (pending : PendingMutation) (s : ServerState)
    (c : CausalState) : Prop where
  puts : pending.puts = []
  cascades : pending.origin.shouldCascade = true
  condemned : pending.condemned = unseen ctx .del [] items
  causal : s.causal = some c
  queue : c.queue = if unseen ctx .del [] items = [] then [] else [pending]
  seen : c.seen = seenAfter ctx .del [] items

theorem OpensWith.only {pending : PendingMutation} (opens : OpensWith ctx items pending s c) :
    ∀ other ∈ c.queue, other = pending := by
  intro other member
  rw [opens.queue] at member
  split at member
  · cases member
  · exact List.mem_singleton.mp member

theorem OpensWith.closes {pending : PendingMutation} (opens : OpensWith ctx items pending s c) :
    Closes ctx s.registry items [] s c := by
  have known : ∀ transition ∈ c.seen, c.Condemns ⟨transition.entityType, transition.id⟩ := by
    intro transition member
    rw [opens.seen] at member
    obtain ⟨item, passed, rfl⟩ := (mem_seenAfter.mp member).resolve_left List.not_mem_nil
    refine ⟨pending, ?_, item, opens.condemned ▸ passed, rfl⟩
    rw [opens.queue, if_neg (List.ne_nil_of_mem passed)]
    exact List.mem_singleton_self _
  refine ⟨opens.causal, fun other member => ?_, fun other member parent put => ?_, fun entityType id item stored => ?_,
    fun entity none => .inr none, fun transition member _ => .inr (.inl (known transition member)), fun other due => ?_⟩
  · rw [opens.only other member]
    exact .deletes opens.puts opens.cascades
  · rw [opens.only other member, opens.puts] at put
    cases put
  · refine ⟨List.not_mem_nil, item, ?_, fun _ => rfl, fun _ _ _ listed => .inr listed⟩
    exact StoreRegistry.canonicalItem_of_getValue stored
  · rcases due with ⟨item, listed, rfl⟩ | ⟨entity, lost, -⟩
    · have noted : transitionKey ctx .del item ∈ c.seen := opens.seen ▸ key_mem_seenAfter listed
      exact .inr (.inl (known _ noted))
    · cases lost

theorem CausalRoot.Deletes.opened {root : CausalRoot} (deletes : root.Deletes items)
    (queued : root.enqueue ctx (s.opened ctx) = .ok () u) : ∃ bound c pending,
      bound < drainBound s.causalLimits root.items ∧ Waiting s.causalLimits bound u c ∧
        OpensWith ctx items pending u c ∧ u.registry = s.registry ∧ u.relations = s.relations := by
  have bounded : ∀ {others : List Item}, others ≠ [] →
      s.causalLimits.maxDerivedMutations + 1 < drainBound s.causalLimits others := by
    intro others named
    have length := List.length_pos_of_ne_nil named
    unfold drainBound
    omega
  cases deletes with
  | @batch named origin cascades mode =>
    obtain ⟨c, waiting⟩ := waiting_enqueueCausal queued
    obtain ⟨c', rfl, submitted⟩ := enqueueCausal_ok rfl queued
    obtain rfl : c = c' := Option.some.inj (waiting.causal.symm.trans rfl)
    exact ⟨_, c, uniformPending ctx (.begin (ctx.uuid s.uuids)) items .del origin mode, bounded named, waiting,
      ⟨rfl, cascades, rfl, rfl, submitted.queue, submitted.seen⟩, rfl, rfl⟩
  | @replacement named origin cascades =>
    obtain ⟨c, waiting⟩ := waiting_enqueueCausalReplace queued
    obtain ⟨c', rfl, submitted, seen, -⟩ := enqueueCausalReplace_ok rfl queued
    obtain rfl : c = c' := Option.some.inj (waiting.causal.symm.trans rfl)
    refine ⟨_, c, replacePending ctx (.begin (ctx.uuid s.uuids)) [] items origin .authoritative none,
      bounded (by rwa [CausalRoot.items, List.nil_append]), waiting, ⟨rfl, cascades, rfl, rfl, ?_, seen⟩, rfl, rfl⟩
    have queue := submitted.queue
    have passed : unseenReplace ctx (CausalState.begin (ctx.uuid s.uuids)).seen [] items =
        ([], unseen ctx .del [] items) := rfl
    rw [passed] at queue
    simp only [Prod.mk.injEq, true_and] at queue
    exact queue

/-- A root of deletions each of which takes all with it. Whoever is deleted stays away, whoever depended on one of them
is deleted as well, and nobody who is stored in the end depends on one. -/
theorem CausalRoot.cascade_closed (fields : FieldsApart ctx) {root : CausalRoot} (deletes : root.Deletes items)
    {applied : Bool} (run : root.run ctx s = .ok applied t)
    (whole : Allowed (TakesAll ctx) (root.reductions ctx s)) :
    let gone := goneBy (root.reductions ctx s)
    (∀ item ∈ items, s.registry.canonicalItem item ≠ none → entityOf item ∈ gone) ∧
      ∀ entity ∈ gone, t.registry.Absent entity ∧
        ∀ other, (Dependent ctx s.registry entity other → other ∈ gone) ∧ ¬Dependent ctx t.registry entity other := by
  obtain ⟨u, v, queued, drained, rfl⟩ := runRoot_ok run
  unfold CausalRoot.reductions rootReductions at whole ⊢
  rw [queued] at whole ⊢
  dsimp only at whole ⊢
  obtain ⟨bound, c, pending, enough, waiting, opens, stores, -⟩ := deletes.opened queued
  obtain ⟨c', empty, closes⟩ := drain_closes fields waiting enough (stores ▸ opens.closes) whole drained
  rw [List.nil_append] at closes
  have settled : ∀ other, Due ctx s.registry items (goneBy (drainReductions ctx root.halt
      (drainBound s.causalLimits root.items) u)) other → ¬s.registry.Absent other →
      other ∈ goneBy (drainReductions ctx root.halt (drainBound s.causalLimits root.items) u) := by
    intro other due present
    rcases closes.due other due with lost | ⟨pending, waits, -⟩ | never
    · exact lost
    · rw [empty] at waits
      cases waits
    · exact absurd never present
  refine ⟨fun item listed present => settled _ (.inl ⟨item, listed, rfl⟩) present, fun entity lost => ⟨?_, fun other =>
    ⟨fun dependent => settled other (.inr ⟨entity, lost, dependent⟩) dependent.present, fun dependent => ?_⟩⟩⟩
  · cases stored : v.registry.getValue entity.entityType entity.id with
    | none => exact stored
    | some item => exact absurd lost (closes.stored _ _ item stored).1
  · have before := closes.depended lost dependent
    have lost' := settled other (.inr ⟨entity, lost, before⟩) before.present
    cases stored : v.registry.getValue other.entityType other.id with
    | none => exact dependent.present stored
    | some item => exact (closes.stored _ _ item stored).1 lost'

/-! ### Where nobody is owned -/

theorem FilesChildren.lists {indexes : RelationIndexes} {lookup : BelongsToLookup}
    (files : FilesChildren registry indexes lookup) {id parent : String} {child : Item}
    (stored : registry.getValue lookup.localType id = some child) (named : lookup.extractFk child = some parent) :
    indexes.Lists lookup parent id := by
  intro loaded children under
  obtain ⟨parents, loaded⟩ := Option.ne_none_iff_exists'.mp loaded
  obtain ⟨-, children', under', mirrors⟩ := files.sound parents loaded
  obtain rfl := Option.some.inj (under.symm.trans under')
  exact (mirrors.listed parent id).mpr ((files.entries parents loaded id child stored).trans named)

/-- A root of deletions under way that has no parent to rewrite, with every stored child filed. -/
structure Unowned (ctx : MykoServerContext) (s : ServerState) (c : CausalState) : Prop where
  causal : s.causal = some c
  filed : AllFiled ctx s
  queue : ∀ pending ∈ c.queue, pending.puts = [] ∧ (pending.origin.shouldCascade = true ∨ pending.items = [])

variable {pending : PendingMutation} {queue : List PendingMutation}

theorem Unowned.takesAll (unowned : ctx.tables.ownsMany = []) (plain : Unowned ctx s c)
    (queued : c.queue = pending :: queue) : TakesAll ctx (s.popped c pending queue) pending where
  unput c' causal item _ := by
    obtain rfl := Option.some.inj causal
    rintro ⟨other, waits, parent, put, -⟩
    rw [(plain.queue other (queued ▸ List.mem_cons_of_mem _ waits)).1] at put
    cases put
  finds c' _ item listed other dependent := by
    refine .inr (.inr ⟨item, listed, ?_⟩)
    have own : ∀ {entityType id child}, s.registry.getValue entityType id = some child →
        entityOf child = ⟨entityType, id⟩ := by
      intro entityType id child stored
      obtain ⟨rfl, rfl⟩ := StoreRegistry.getValue_keyed stored
      rfl
    cases dependent with
    | child registered typed stored named =>
      exact ⟨_, own stored, .child registered typed stored named ((plain.filed _ registered).lists stored named)⟩
    | owned registered =>
      rw [unowned] at registered
      cases registered
    | ensured registered depends typed stored named =>
      exact ⟨_, own stored, .ensured registered depends typed stored named⟩

theorem Unowned.reduced (unowned : ctx.tables.ownsMany = []) (plain : Unowned ctx s c)
    (queued : c.queue = pending :: queue)
    (run : reducePending ctx (submitDerived ctx) pending (s.popped c pending queue) = .ok true t) :
    ∃ c', Unowned ctx t c' := by
  obtain ⟨puts, cascades⟩ := plain.queue pending (queued ▸ List.mem_cons_self)
  have keeps : KeepsChildren ctx (s.popped c pending queue) pending := by
    rcases cascades with cascades | none
    · exact .inr (.inl ⟨cascades, true, t, run⟩)
    · refine .inr (.inr fun lookup _ parents _ id written => ?_)
      obtain ⟨change, member, -⟩ := written
      have named := mem_items_of_change member
      rw [none] at named
      cases named
  have filed : AllFiled ctx t := fun lookup registered => by
    have kept := filesChildren_reduced registered (s := s.popped c pending queue) (plain.filed lookup registered) keeps
    rwa [final_of_ok run] at kept
  rcases reducePending_ok run with ⟨-, stopped⟩ | ⟨planned, u, commit, effects, -⟩
  · cases stopped
  obtain ⟨-, committed⟩ := commitPending_ok commit
  obtain ⟨pursues, -⟩ := pursued_of_effects puts committed.causal (absent_of_deletion puts committed) effects
  obtain ⟨-, -, grows⟩ := pursues rfl
  obtain ⟨c', causal, pursuing⟩ := grows _ committed.causal
  obtain ⟨added, queue', own⟩ := pursuing.fixing.grown
  refine ⟨c', causal, filed, fun other member => ?_⟩
  rw [queue'] at member
  rcases List.mem_append.mp member with before | new
  · exact plain.queue other (queued ▸ List.mem_cons_of_mem _ before)
  obtain ⟨follows, fixups⟩ := own other new
  have none : other.puts = [] := by
    refine List.eq_nil_iff_forall_not_mem.mpr fun parent put => ?_
    obtain ⟨_, lookup, _, fixup⟩ := fixups parent put
    have registered := fixup.registered
    rw [unowned] at registered
    cases registered
  refine ⟨none, ?_⟩
  cases follows with
  | del items kind cascades => exact .inl cascades
  | fixup items kind silent =>
    right
    unfold PendingMutation.puts at none
    rw [kind] at none
    unfold PendingMutation.items
    rw [kind]
    exact none

/-- Where no type owns another and the indexes file every stored child, a root of deletions takes all with it. -/
theorem CausalRoot.unowned_takesAll (unowned : ctx.tables.ownsMany = []) (filed : AllFiled ctx s) {root : CausalRoot}
    (deletes : root.Deletes items) {applied : Bool} (run : root.run ctx s = .ok applied t) :
    Allowed (TakesAll ctx) (root.reductions ctx s) := by
  obtain ⟨u, v, queued, drained, -⟩ := runRoot_ok run
  unfold CausalRoot.reductions rootReductions
  rw [queued]
  dsimp only
  obtain ⟨bound, c, pending, enough, waiting, opens, stores, relations⟩ := deletes.opened queued
  have start : Unowned ctx u c := by
    refine ⟨opens.causal, fun lookup registered => ?_, fun other member => ?_⟩
    · rw [stores, relations]
      exact filed lookup registered
    · rw [opens.only other member]
      exact ⟨opens.puts, .inl opens.cascades⟩
  exact drain_allows Unowned.causal (fun plain queued => ⟨plain.takesAll unowned queued, plain.reduced unowned queued⟩)
    waiting enough start drained

namespace Sample

/-- Deletions alone, with nothing queued, of items as they are stored. -/
def plain (reductions : List Reduction) : Bool :=
  reductions.all fun reduction =>
    match reduction.2.kind, reduction.1.causal with
    | .uniform items .del, some c =>
      c.queue.isEmpty && items.all fun item => (reduction.1.registry.canonicalItem item).all (· = item)
    | _, _ => false

theorem takesAll_of_plain {reductions : List Reduction} (checked : plain reductions = true) :
    Allowed (TakesAll crewServer) reductions := by
  rintro ⟨s, pending⟩ member
  have here := List.all_eq_true.mp checked _ member
  dsimp only at here
  split at here
  · rename_i items c kind causal
    rw [Bool.and_eq_true, List.isEmpty_iff, List.all_eq_true] at here
    obtain ⟨queue, asStored⟩ := here
    have deletions : pending.deletions s = items := by
      unfold PendingMutation.deletions
      rw [kind]
    refine ⟨fun c' causal' item _ => ?_, fun c' causal' item listed other dependent => ?_⟩
    · obtain rfl := Option.some.inj (causal.symm.trans causal')
      rintro ⟨pending', waits, -⟩
      rw [queue] at waits
      cases waits
    · rw [deletions] at listed ⊢
      cases dependent with
      | child registered => cases registered
      | ensured registered => cases registered
      | @owned lookup parent child id registered typed present ids stored =>
        have same := asStored item listed
        rw [show s.registry.canonicalItem item = some parent from present, Option.all_some] at same
        obtain rfl : parent = item := of_decide_eq_true same
        refine .inr (.inr ⟨parent, listed, child, ?_, .owned registered typed ids stored⟩)
        obtain ⟨typed', rfl⟩ := StoreRegistry.getValue_keyed stored
        unfold entityOf
        rw [typed']
  · cases here

theorem crew_fieldsApart : FieldsApart crewServer := by
  intro lookup registered other registered' _ _
  rw [List.mem_singleton.mp registered, List.mem_singleton.mp registered']

/-- A crew is deleted with its members. -/
theorem crew_leaves_whole : ∃ t, (leaves [crew "k" ["a", "b"]]).run crewServer crewState = .ok true t ∧
    t.registry.Absent ⟨"crew", "k"⟩ ∧ ∀ id ∈ ["a", "b"], t.registry.Absent ⟨"member", id⟩ := by
  have returns : EStateM.run' ((leaves [crew "k" ["a", "b"]]).run crewServer) crewState = some true := by
    decide +kernel
  have checked : plain ((leaves [crew "k" ["a", "b"]]).reductions crewServer crewState) = true := by decide +kernel
  have stored : crewState.registry.getValue "crew" "k" = some (crew "k" ["a", "b"]) := by decide +kernel
  obtain ⟨t, run⟩ := ok_of_run' returns
  obtain ⟨own, closed⟩ := CausalRoot.cascade_closed crew_fieldsApart
    (.batch (List.cons_ne_nil _ _) rfl .authoritative) run (takesAll_of_plain checked)
  have gone := own (crew "k" ["a", "b"]) List.mem_cons_self (by
    rw [show crewState.registry.canonicalItem (crew "k" ["a", "b"]) = some (crew "k" ["a", "b"]) from stored]
    exact Option.some_ne_none _)
  obtain ⟨absent, dependents⟩ := closed _ gone
  refine ⟨t, run, absent, fun id listed => ?_⟩
  have present : crewState.registry.getValue "member" id = some (member id) := by
    rcases List.mem_pair.mp listed with rfl | rfl <;> decide +kernel
  have owned : Dependent crewServer crewState.registry ⟨"crew", "k"⟩ ⟨crewMembers.foreignType, id⟩ :=
    .owned List.mem_cons_self rfl stored listed present
  exact (closed _ ((dependents _).1 owned)).1

/-- A crew that also belongs to its captain, the member named first. -/
def captained (id captain : String) (members : List String) : Item :=
  ⟨"crew", id, [("captain", .text captain), ("members", .ids members)]⟩

def captainServer : MykoServerContext :=
  { crewServer with relations := [.belongsTo ⟨"crew", "member", "captain"⟩, .ownsMany crewMembers] }

/-- What is left once a crew and its members have been put. -/
def captainState : ServerState :=
  final (batchSet captainServer [captained "k" "a" ["a", "b"], member "a", member "b"]) .initial

/-- The captain is deleted, and the crew with the captain; then it is put as it was rewritten while it was still
stored. -/
theorem crew_put_back : ∃ t, (leaves [member "a"]).run captainServer captainState = .ok true t ∧
    ⟨"crew", "k"⟩ ∈ goneBy ((leaves [member "a"]).reductions captainServer captainState) ∧
      ∃ crew, t.registry.getValue "crew" "k" = some crew := by
  have returns : EStateM.run' ((leaves [member "a"]).run captainServer) captainState = some true := by
    decide +kernel
  have deleted : ⟨"crew", "k"⟩ ∈ goneBy ((leaves [member "a"]).reductions captainServer captainState) := by
    decide +kernel
  have stands : ((final ((leaves [member "a"]).run captainServer) captainState).registry.getValue "crew" "k").isSome =
      true := by decide +kernel
  obtain ⟨t, run⟩ := ok_of_run' returns
  rw [final_of_ok run] at stands
  exact ⟨t, run, deleted, Option.isSome_iff_exists.mp stands⟩

end Sample

end Myko

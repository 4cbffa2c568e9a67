import Myko.Server.Reservations

/-!
Parents that list the children they own. A deleted child leaves the arrays that list it by rewritten parents, computed
where the child is deleted and put when their turn in the queue comes.
-/

namespace Myko
open StateError

namespace Item

theorem find_assign (name other : String) (value : Field) (fields : List (String × Field)) :
    (assign name value fields).find? (fun entry => entry.1 = other) =
      if other = name then some (name, value) else fields.find? fun entry => entry.1 = other := by
  induction fields with
  | nil =>
    by_cases own : other = name
    · simp [assign, own]
    · simp [assign, own, Ne.symm own]
  | cons entry rest ih =>
    rw [assign]
    by_cases own : other = name
    · subst own
      by_cases here : entry.1 = other
      · simp [here]
      · rw [if_neg here, List.find?_cons_of_neg (by simpa using here), ih, if_pos rfl, if_pos rfl]
    · by_cases here : entry.1 = name
      · rw [if_pos here, if_neg own, List.find?_cons_of_neg (by simpa using Ne.symm own),
          List.find?_cons_of_neg (by simpa [here] using Ne.symm own)]
      · rw [if_neg here, List.find?_cons, List.find?_cons, ih, if_neg own, if_neg own]

theorem field_setField (item : Item) (name other : String) (value : Field) :
    (item.setField name value).field other = if other = name then some value else item.field other := by
  unfold field setField
  rw [find_assign]
  split <;> rfl

end Item

namespace OwnsManyLookup

variable {lookup other : OwnsManyLookup} {parent parent' : Item} {id : String}

/-- The children a parent lists. -/
def owned (lookup : OwnsManyLookup) (parent : Item) : List String := (lookup.extractIds parent).getD []

theorem removeId_cases (removed : lookup.removeId parent id = some parent') :
    parent.entityType = lookup.localType ∧
      parent' = parent.setField lookup.field (.ids ((lookup.owned parent).filter (· ≠ id))) := by
  obtain ⟨ids, found, rfl⟩ := Option.map_eq_some_iff.mp removed
  have typed : parent.entityType = lookup.localType := by
    unfold extractIds at found
    split at found
    · assumption
    · cases found
  unfold owned
  rw [found]
  exact ⟨typed, rfl⟩

theorem removeId_of_listed (listed : id ∈ lookup.owned parent) :
    ∃ parent', lookup.removeId parent id = some parent' := by
  unfold removeId
  unfold owned at listed
  cases found : lookup.extractIds parent with
  | none =>
    rw [found] at listed
    cases listed
  | some ids => exact ⟨_, rfl⟩

theorem owned_removeId (removed : lookup.removeId parent id = some parent') :
    lookup.owned parent' = (lookup.owned parent).filter (· ≠ id) := by
  obtain ⟨typed, rfl⟩ := removeId_cases removed
  generalize (lookup.owned parent).filter (· ≠ id) = ids
  unfold owned extractIds
  rw [Item.setField_entityType, if_pos typed, Item.field_setField, if_pos rfl]
  rfl

theorem owned_removeId_of_ne (removed : lookup.removeId parent id = some parent')
    (apart : other.localType = lookup.localType → other.field ≠ lookup.field) :
    other.owned parent' = other.owned parent := by
  obtain ⟨typed, rfl⟩ := removeId_cases removed
  unfold owned extractIds
  rw [Item.setField_entityType]
  by_cases own : parent.entityType = other.localType
  · rw [if_pos own, if_pos own, Item.field_setField, if_neg (apart (own.symm.trans typed))]
  · rw [if_neg own, if_neg own]

end OwnsManyLookup

variable {ctx : MykoServerContext} {registry : StoreRegistry} {items : List Item} {c₀ c c' : CausalState}
  {s t : ServerState}

/-! ### What a deletion submits -/

/-- A parent without one of the deleted children it lists. -/
structure Fixup (ctx : MykoServerContext) (registry : StoreRegistry) (items : List Item) (parent' : Item)
    (item : Item) (lookup : OwnsManyLookup) (parent : Item) : Prop where
  deleted : item ∈ items
  registered : lookup ∈ ctx.tables.ownsMany
  typed : lookup.foreignType = item.entityType
  stored : registry.canonicalItem parent = some parent
  listed : item.id ∈ lookup.owned parent
  removed : lookup.removeId parent item.id = some parent'

/-- A mutation a deletion may lead to: a deletion again, or rewritten parents, from which nothing follows. -/
inductive FromDelete (pending : PendingMutation) : Prop where
  | del (items : List Item) (kind : pending.kind = .uniform items .del) (origin : pending.origin.shouldCascade = true)
  | fixup (items : List Item) (kind : pending.kind = .uniform items .set)
    (origin : pending.origin.shouldCascade = false)

/-- Someone waits to be put under an id. -/
def PutQueued (c : CausalState) (key : String × String) : Prop :=
  ∃ pending ∈ c.queue, ∃ parent ∈ pending.puts, (parent.entityType, parent.id) = key

theorem PutQueued.mono {key : String × String} (queued : PutQueued c key) (grown : c.queue <+: c'.queue) :
    PutQueued c' key := by
  obtain ⟨pending, member, put⟩ := queued
  exact ⟨pending, grown.subset member, put⟩

/-- A transaction in the effects of a deletion that began with `c₀`. -/
structure Fixing (ctx : MykoServerContext) (registry : StoreRegistry) (items : List Item) (c₀ c : CausalState) :
    Prop where
  grown : ∃ added, c.queue = c₀.queue ++ added ∧ ∀ pending ∈ added, FromDelete pending ∧
    ∀ parent' ∈ pending.puts, ∃ item lookup parent, Fixup ctx registry items parent' item lookup parent
  seen : ∀ transition ∈ c.seen, transition.operation = 1 →
    transition ∈ c₀.seen ∨ PutQueued c (transition.entityType, transition.id)

/-- Submitting what a deletion leads to. -/
theorem Fixing.submitted (fixing : Fixing ctx registry items c₀ c) {limits : CausalLimits} {others : List Item}
    {change : MEventType} {origin : Origin} {mode : EdgeApplyMode}
    (submitted : Submitted ctx limits others change origin mode c c')
    (cascading : origin.shouldCascade = decide (change = .del))
    (fixups : change = .set → ∀ parent' ∈ others,
      ∃ item lookup parent, Fixup ctx registry items parent' item lookup parent) :
    Fixing ctx registry items c₀ c' ∧ c.queue <+: c'.queue := by
  obtain ⟨added, queue, own⟩ := fixing.grown
  have prefixed : c.queue <+: c'.queue := by
    rw [submitted.queue]
    exact List.prefix_append _ _
  have puts : ∀ parent' ∈ (uniformPending ctx c others change origin mode).puts,
      change = .set ∧ parent' ∈ unseen ctx change c.seen others := by
    intro parent' put
    cases change with
    | set => exact ⟨rfl, put⟩
    | del => cases put
  refine ⟨⟨⟨added ++ (if unseen ctx change c.seen others = [] then [] else
    [uniformPending ctx c others change origin mode]), ?_, ?_⟩, ?_⟩, prefixed⟩
  · rw [submitted.queue, queue, List.append_assoc]
  · intro pending member
    rcases List.mem_append.mp member with before | new
    · exact own pending before
    · split at new
      · cases new
      · obtain rfl := List.mem_singleton.mp new
        refine ⟨?_, fun parent' put => ?_⟩
        · cases change with
          | set => exact .fixup _ rfl cascading
          | del => exact .del _ rfl cascading
        · obtain ⟨set, passed⟩ := puts parent' put
          exact fixups set parent' ((unseen_sublist change c.seen others).mem passed)
  · intro transition member put
    rw [submitted.seen] at member
    rcases mem_seenAfter.mp member with before | ⟨item, passed, rfl⟩
    · exact (fixing.seen transition before put).imp_right fun queued => queued.mono prefixed
    · right
      cases change with
      | del => cases put
      | set =>
        refine ⟨uniformPending ctx c others .set origin mode, ?_, item, passed, rfl⟩
        rw [submitted.queue, if_neg (List.ne_nil_of_mem passed)]
        exact List.mem_append_right _ (List.mem_singleton_self _)

/-- The relation along which the effects of a deletion move. -/
def Fixes (ctx : MykoServerContext) (registry : StoreRegistry) (items : List Item) (c₀ : CausalState)
    (s t : ServerState) : Prop :=
  ∀ c, s.registry = registry → s.causal = some c → Fixing ctx registry items c₀ c →
    t.registry = registry ∧ ∃ c', t.causal = some c' ∧ Fixing ctx registry items c₀ c' ∧ c.queue <+: c'.queue

theorem fixes_frame : Frame (Fixes ctx registry items c₀) fun _ _ : ServerState => True :=
  Frame.returning (fun _ c stores causal fixing => ⟨stores, c, causal, fixing, List.prefix_refl _⟩)
    fun first second c stores causal fixing => by
      obtain ⟨stores', c', causal', fixing', grown⟩ := first c stores causal fixing
      obtain ⟨stores'', c'', causal'', fixing'', grown'⟩ := second c' stores' causal' fixing'
      exact ⟨stores'', c'', causal'', fixing'', grown.trans grown'⟩

theorem fixes_shelves (kept : Shelves s t) : Fixes ctx registry items c₀ s t := fun c stores causal fixing =>
  ⟨kept.registry.trans stores, c, kept.causal.trans causal, fixing, List.prefix_refl _⟩

theorem fixes_submit {others : List Item} {change : MEventType} {origin : Origin}
    (cascading : origin.shouldCascade = decide (change = .del))
    (fixups : s.registry = registry → change = .set → ∀ parent' ∈ others,
      ∃ item lookup parent, Fixup ctx registry items parent' item lookup parent)
    (run : submitDerived ctx others change origin s = .ok () t) : Fixes ctx registry items c₀ s t := by
  intro c stores causal fixing
  rcases submitDerived_ok run with ⟨none, -⟩ | ⟨c₁, c', causal', rfl, submitted⟩
  · rw [none] at causal
    cases causal
  obtain rfl : c = c₁ := Option.some.inj (causal.symm.trans causal')
  obtain ⟨fixing', grown⟩ := fixing.submitted submitted cascading (fixups stores)
  exact ⟨stores, c', rfl, fixing', grown⟩

theorem fixes_cascade (gone : List Item) :
    Moves (Fixes ctx registry items c₀) (fun _ _ => True) (submitDerived ctx gone .del .cascade) :=
  Moves.intro (fun _ _ _ run => fixes_submit rfl (fun _ set => by cases set) run) fun _ _ _ _ => trivial

/-- What is done for one relation when a child is deleted. -/
def fixupParents (ctx : MykoServerContext) (item : Item) (lookup : OwnsManyLookup) : ServerM Unit := do
  let s ← get
  let updates := (findParentsContaining s.registry lookup item.id).filterMap fun parent =>
    lookup.removeId parent item.id
  if !updates.isEmpty then publishRelationshipFixupBatch (submitDerived ctx) updates

theorem mem_findParentsContaining {lookup : OwnsManyLookup} {child : String} {parent : Item} :
    parent ∈ findParentsContaining registry lookup child ↔ parent.entityType = lookup.localType ∧
      registry.canonicalItem parent = some parent ∧ child ∈ lookup.owned parent := by
  unfold findParentsContaining OwnsManyLookup.owned
  rw [List.mem_filter, StoreRegistry.mem_snapshot, and_assoc, List.contains_iff_mem]

section
variable {item : Item} {lookup : OwnsManyLookup} (deleted : item ∈ items)
  (registered : lookup ∈ ctx.tables.ownsMany) (typed : lookup.foreignType = item.entityType)
include deleted registered typed

theorem fixup_of_update {parent' : Item}
    (update : parent' ∈ (findParentsContaining registry lookup item.id).filterMap fun parent =>
      lookup.removeId parent item.id) :
    ∃ item lookup parent, Fixup ctx registry items parent' item lookup parent := by
  obtain ⟨parent, found, removed⟩ := List.mem_filterMap.mp update
  obtain ⟨-, stored, listed⟩ := mem_findParentsContaining.mp found
  exact ⟨item, lookup, parent, deleted, registered, typed, stored, listed, removed⟩

theorem fixes_fixupParents : Moves (Fixes ctx registry items c₀) (fun _ _ => True) (fixupParents ctx item lookup) := by
  refine Moves.intro (fun s _ t run => ?_) fun _ _ _ _ => trivial
  unfold fixupParents at run
  rw [bind_of_ok (get_eq s)] at run
  split at run
  · have cascading : Origin.relationshipFixup.shouldCascade = decide (MEventType.set = .del) := rfl
    refine fixes_submit cascading (fun stores _ parent' update => ?_) run
    rw [stores] at update
    exact fixup_of_update deleted registered typed update
  · obtain ⟨-, rfl⟩ := pure_ok run
    exact fixes_frame.refl _

/-- Every stored parent that lists the child has been rewritten, now or before. -/
theorem put_of_fixupParents {parent parent' : Item} (fixup : Fixup ctx registry items parent' item lookup parent)
    (stores : s.registry = registry) (causal : s.causal = some c) (fixing : Fixing ctx registry items c₀ c)
    (run : fixupParents ctx item lookup s = .ok () t) :
    transitionKey ctx .set parent' ∈ c₀.seen ∨
      ∃ c', t.causal = some c' ∧ PutQueued c' (parent.entityType, parent.id) := by
  obtain ⟨typed', same⟩ := OwnsManyLookup.removeId_cases fixup.removed
  have update : parent' ∈ (findParentsContaining registry lookup item.id).filterMap fun parent =>
      lookup.removeId parent item.id :=
    List.mem_filterMap.mpr ⟨parent, mem_findParentsContaining.mpr ⟨typed', fixup.stored, fixup.listed⟩, fixup.removed⟩
  unfold fixupParents at run
  rw [bind_of_ok (get_eq s), stores] at run
  rw [if_pos (by simpa using List.ne_nil_of_mem update)] at run
  rcases submitDerived_ok run with ⟨none, -⟩ | ⟨c₁, c', causal', rfl, submitted⟩
  · rw [none] at causal
    cases causal
  obtain rfl : c = c₁ := Option.some.inj (causal.symm.trans causal')
  obtain ⟨fixing', -⟩ := fixing.submitted submitted rfl fun _ parent' update =>
    fixup_of_update deleted registered typed update
  have seen : transitionKey ctx .set parent' ∈ c'.seen := by
    rw [submitted.seen]
    exact key_mem_seenAfter update
  refine (fixing'.seen _ seen rfl).imp_right fun queued => ⟨c', rfl, ?_⟩
  have named : ((transitionKey ctx .set parent').entityType, (transitionKey ctx .set parent').id) =
      (parent.entityType, parent.id) := by
    rw [same]
    rfl
  rwa [named] at queued

end

theorem handleOwnsManyChildDelete_eq (ctx : MykoServerContext) (item : Item) :
    handleOwnsManyChildDelete ctx (submitDerived ctx) item =
      each (fixupParents ctx item) (ctx.tables.ownsManyByForeign item.entityType) := rfl

theorem mem_ownsManyByForeign {lookup : OwnsManyLookup} {entityType : String} :
    lookup ∈ ctx.tables.ownsManyByForeign entityType ↔
      lookup ∈ ctx.tables.ownsMany ∧ lookup.foreignType = entityType := by
  unfold RelationshipTables.ownsManyByForeign
  rw [List.mem_filter, decide_eq_true_eq]

theorem fixes_lookups {item : Item} (deleted : item ∈ items) : ∀ lookup ∈ ctx.tables.ownsManyByForeign item.entityType,
    Moves (Fixes ctx registry items c₀) (fun _ _ => True) (fixupParents ctx item lookup) := by
  intro lookup member
  obtain ⟨registered, typed⟩ := mem_ownsManyByForeign.mp member
  exact fixes_fixupParents deleted registered typed

theorem fixes_handleOwnsManyChildDelete {item : Item} (deleted : item ∈ items) :
    Moves (Fixes ctx registry items c₀) (fun _ _ => True) (handleOwnsManyChildDelete ctx (submitDerived ctx) item) :=
  Moves.each fixes_frame (fixes_lookups deleted)

/-- Somewhere between the ends of a run something is done. -/
def Visits (R : ServerState → ServerState → Prop) (m : ServerM Unit) (s t : ServerState) : Prop :=
  ∃ u v, R s u ∧ m u = .ok () v ∧ R v t

theorem Visits.within {R E : ServerState → ServerState → Prop} (frame : Frame R E) {m : ServerM Unit}
    {s s' t t' : ServerState} (before : R s s') (visits : Visits R m s' t') (after : R t' t) : Visits R m s t := by
  obtain ⟨u, v, first, run, rest⟩ := visits
  exact ⟨u, v, frame.trans before first, run, frame.trans rest after⟩

/-- The deletion of a batch comes by every relation of every child in it. -/
theorem visits_forwardDelBatch {batch : List Item} (subset : batch ⊆ items)
    (run : forwardDelBatch ctx (submitDerived ctx) batch s = .ok () t) {item : Item} (member : item ∈ batch)
    {lookup : OwnsManyLookup} (registered : lookup ∈ ctx.tables.ownsManyByForeign item.entityType) :
    Visits (Fixes ctx registry items c₀) (fixupParents ctx item lookup) s t := by
  unfold forwardDelBatch at run
  obtain ⟨_, s₁, children, run⟩ := bind_ok run
  obtain ⟨_, s₂, owned, run⟩ := bind_ok run
  obtain ⟨_, s₃, ensured, run⟩ := bind_ok run
  have frame : Frame (Fixes ctx registry items c₀) fun _ _ : ServerState => True := fixes_frame
  have before : Fixes ctx registry items c₀ s s₃ :=
    frame.trans ((moves_handleBelongsToCascadeBatch frame fixes_shelves fixes_cascade ctx batch).ok children)
      (frame.trans ((moves_handleOwnsManyParentDeleteBatch frame fixes_cascade ctx batch).ok owned)
        ((moves_handleEnsureForDeleteBatch frame fixes_cascade ctx batch).ok ensured))
  have removes : ∀ item : Item, Moves (Fixes ctx registry items c₀) (fun _ _ => True)
      (each (fun lookup => modifyRelations fun indexes _ => indexes.removeBelongsToChild lookup item.id)
        (ctx.tables.belongsToByLocal item.entityType)) := fun item =>
    Moves.each frame fun lookup _ =>
      moves_modifyRelations fixes_shelves fun _ _ => RelationIndexes.remove_inFlight _ _ _
  have steps : ∀ item ∈ batch, Moves (Fixes ctx registry items c₀) (fun _ _ => True) (do
      handleOwnsManyChildDelete ctx (submitDerived ctx) item
      each (fun lookup => modifyRelations fun indexes _ => indexes.removeBelongsToChild lookup item.id)
        (ctx.tables.belongsToByLocal item.entityType)) := fun item member =>
    Moves.bind frame (fixes_handleOwnsManyChildDelete (subset member)) fun _ => removes item
  obtain ⟨u, v, reached, visit, rest⟩ := Moves.each_visits frame steps run item member
  obtain ⟨_, w, deletes, forgets⟩ := bind_ok visit
  rw [handleOwnsManyChildDelete_eq] at deletes
  exact Visits.within frame (frame.trans before reached)
    (Moves.each_visits frame (fixes_lookups (subset member)) deletes lookup registered)
    (frame.trans ((removes item).ok forgets) rest)

/-- So do the effects of the mutation that deletes it. -/
theorem visits_effectsPending {pending : PendingMutation} {before : ServerState} {gone : List Item}
    (kind : pending.kind = .uniform items .del) (cascading : pending.origin.shouldCascade = true)
    (run : effectsPending ctx (submitDerived ctx) pending before gone s = .ok () t) {item : Item}
    (member : item ∈ items) {lookup : OwnsManyLookup}
    (registered : lookup ∈ ctx.tables.ownsManyByForeign item.entityType) :
    Visits (Fixes ctx registry items c₀) (fixupParents ctx item lookup) s t := by
  have frame : Frame (Fixes ctx registry items c₀) fun _ _ : ServerState => True := fixes_frame
  have inhabited : ¬pending.items.isEmpty = true := by
    unfold PendingMutation.items
    rw [kind]
    simpa using List.ne_nil_of_mem member
  unfold effectsPending at run
  rw [if_neg inhabited] at run
  obtain ⟨_, mid, groups, cascade⟩ := bind_ok run
  have steps : ∀ group ∈ effectGroups pending before, Moves (Fixes ctx registry items c₀) (fun _ _ => True)
      (applyEffects ctx (submitDerived ctx) group.1 group.2 pending.origin) := by
    intro group listed
    unfold effectGroups at listed
    rw [kind] at listed
    obtain ⟨batch, grouped, rfl⟩ := List.mem_map.mp listed
    obtain ⟨entityType, -, rfl⟩ := List.mem_map.mp grouped
    exact moves_applyEffects frame fixes_shelves fixes_cascade (fun _ _ item among =>
      fixes_handleOwnsManyChildDelete (List.mem_filter.mp among).1) fun set => by cases set
  have listed : (ofType item.entityType items, MEventType.del) ∈ effectGroups pending before := by
    unfold effectGroups
    rw [kind]
    refine List.mem_map.mpr ⟨_, List.mem_map.mpr ⟨item.entityType, ?_, rfl⟩, rfl⟩
    exact mem_entityTypes.mpr ⟨item, member, rfl⟩
  obtain ⟨u, v, reached, visit, rest⟩ := Moves.each_visits frame steps groups _ listed
  unfold applyEffects at visit
  obtain ⟨_, w, searched, visit⟩ := bind_ok visit
  have searches : ∀ item, Moves (Fixes ctx registry items c₀) (fun _ _ => True) (indexSearch .del item) := fun item =>
    Moves.modify fun _ => fixes_shelves ⟨⟨⟨rfl, rfl, rfl, rfl⟩, rfl, rfl, rfl, rfl⟩, rfl, rfl⟩
  have search := (Moves.each frame fun item _ => searches item).ok searched
  rw [if_pos cascading] at visit
  obtain ⟨_, x, forward, produce⟩ := bind_ok visit
  have produced : Fixes ctx registry items c₀ x v := by
    refine (Moves.ite (fun _ => Moves.modify fun _ => ?_) fun _ => Moves.pure frame _ :
      Moves _ (fun _ _ => True) _).ok produce
    exact fixes_shelves ⟨⟨⟨rfl, rfl, rfl, rfl⟩, rfl, rfl, rfl, rfl⟩, rfl, rfl⟩
  refine Visits.within frame (frame.trans reached search) (visits_forwardDelBatch (fun item among =>
    (List.mem_filter.mp among).1) forward (List.mem_filter.mpr ⟨member, decide_eq_true rfl⟩) registered)
    (frame.trans produced (frame.trans rest ((fixes_cascade gone).ok cascade)))

/-- The effects of a deletion rewrite every stored parent that lists one of the deleted children. -/
theorem fixing_of_effects {pending : PendingMutation} {before : ServerState} {gone : List Item}
    (kind : pending.kind = .uniform items .del) (cascading : pending.origin.shouldCascade = true)
    (causal : s.causal = some c₀)
    (run : effectsPending ctx (submitDerived ctx) pending before gone s = .ok () t) :
    t.registry = s.registry ∧ ∃ c, t.causal = some c ∧ Fixing ctx s.registry items c₀ c ∧ c₀.queue <+: c.queue ∧
      ∀ parent' item lookup parent, Fixup ctx s.registry items parent' item lookup parent →
        transitionKey ctx .set parent' ∈ c₀.seen ∨ PutQueued c (parent.entityType, parent.id) := by
  have frame : Frame (Fixes ctx s.registry items c₀) fun _ _ : ServerState => True := fixes_frame
  have start : Fixing ctx s.registry items c₀ c₀ :=
    ⟨⟨[], by simp, fun _ member => nomatch member⟩, fun transition seen _ => .inl seen⟩
  have puts : pending.puts = [] := by
    unfold PendingMutation.puts
    rw [kind]
  have named : pending.items = items := by
    unfold PendingMutation.items
    rw [kind]
  have moves : Fixes ctx s.registry items c₀ s t := by
    refine (moves_effectsPending_of frame fixes_shelves fixes_cascade (fun _ item member => ?_)
      (fun _ item put => ?_) before gone).ok run
    · exact fixes_handleOwnsManyChildDelete (named ▸ member)
    · rw [puts] at put
      cases put
  obtain ⟨stores, c, causal', fixing, grown⟩ := moves c₀ rfl causal start
  refine ⟨stores, c, causal', fixing, grown, fun parent' item lookup parent fixup => ?_⟩
  obtain ⟨u, v, reached, visit, rest⟩ := visits_effectsPending kind cascading run fixup.deleted
    (mem_ownsManyByForeign.mpr ⟨fixup.registered, fixup.typed⟩)
  obtain ⟨stores', c₁, causal₁, fixing₁, -⟩ := reached c₀ rfl causal start
  rcases put_of_fixupParents fixup.deleted fixup.registered fixup.typed fixup stores' causal₁ fixing₁ visit with
    seen | ⟨c₂, causal₂, queued⟩
  · exact .inl seen
  · have moves : Moves (Fixes ctx s.registry items c₀) (fun _ _ => True) (fixupParents ctx item lookup) :=
      fixes_fixupParents fixup.deleted fixup.registered fixup.typed
    have moved := moves.ok visit
    obtain ⟨stores₂, c₂', causal₂', fixing₂, -⟩ := moved c₁ stores' causal₁ fixing₁
    obtain rfl : c₂ = c₂' := Option.some.inj (causal₂.symm.trans causal₂')
    obtain ⟨-, c₃, causal₃, -, grown₃⟩ := rest c₂ stores₂ causal₂ fixing₂
    obtain rfl : c = c₃ := Option.some.inj (causal'.symm.trans causal₃)
    exact .inr (queued.mono grown₃)

/-! ### What the arrays come to -/

/-- The arrays of a parent without what is gone, and otherwise as they were. -/
def Trimmed (ctx : MykoServerContext) (gone : List (String × String)) (before parent : Item) : Prop :=
  ∀ lookup ∈ ctx.tables.ownsMany,
    lookup.owned parent = (lookup.owned before).filter fun id => !gone.contains (lookup.foreignType, id)

variable {gone more : List (String × String)} {before parent : Item}

theorem trimmed_iff : Trimmed ctx gone before parent ↔ ∀ lookup ∈ ctx.tables.ownsMany,
    lookup.owned parent = (lookup.owned before).filter fun id => (lookup.foreignType, id) ∉ gone := by
  have same : ∀ (lookup : OwnsManyLookup) (id : String),
      (!gone.contains (lookup.foreignType, id)) = decide ((lookup.foreignType, id) ∉ gone) := by
    intro lookup id
    rw [List.contains_eq_mem, decide_not]
  simp only [Trimmed, same]

theorem Trimmed.owned (trimmed : Trimmed ctx gone before parent) {lookup : OwnsManyLookup}
    (registered : lookup ∈ ctx.tables.ownsMany)
    (unlisted : ∀ id ∈ lookup.owned parent, (lookup.foreignType, id) ∉ more) :
    lookup.owned parent = (lookup.owned before).filter fun id => (lookup.foreignType, id) ∉ gone ++ more := by
  rw [trimmed_iff.mp trimmed lookup registered]
  refine List.filter_congr fun id listed => decide_eq_decide.mpr ?_
  rw [List.mem_append, not_or]
  refine ⟨fun kept => ⟨kept, unlisted id ?_⟩, And.left⟩
  rw [trimmed_iff.mp trimmed lookup registered]
  exact List.mem_filter.mpr ⟨listed, decide_eq_true kept⟩

theorem Trimmed.append (trimmed : Trimmed ctx gone before parent)
    (unlisted : ∀ lookup ∈ ctx.tables.ownsMany, ∀ id ∈ lookup.owned parent, (lookup.foreignType, id) ∉ more) :
    Trimmed ctx (gone ++ more) before parent :=
  trimmed_iff.mpr fun lookup registered => trimmed.owned registered (unlisted lookup registered)

/-- A field is registered for one relation. -/
def FieldsApart (ctx : MykoServerContext) : Prop :=
  ∀ lookup ∈ ctx.tables.ownsMany, ∀ other ∈ ctx.tables.ownsMany,
    other.localType = lookup.localType → other.field = lookup.field → other = lookup

/-- A parent that lists just one of the deleted children loses it. -/
theorem Trimmed.fixup (trimmed : Trimmed ctx gone before parent) (fields : FieldsApart ctx) {parent' item : Item}
    {lookup : OwnsManyLookup} (fixup : Fixup ctx registry items parent' item lookup parent)
    (single : ∀ item' ∈ items, ∀ lookup' ∈ ctx.tables.ownsMany, lookup'.foreignType = item'.entityType →
      item'.id ∈ lookup'.owned parent → lookup' = lookup ∧ item'.id = item.id) :
    Trimmed ctx (gone ++ items.map fun item => (item.entityType, item.id)) before parent' := by
  refine trimmed_iff.mpr fun other registered => ?_
  have listed_of : ∀ id, (other.foreignType, id) ∈ items.map (fun item => (item.entityType, item.id)) →
      id ∈ other.owned parent → other = lookup ∧ id = item.id := by
    intro id member listed
    obtain ⟨item', deleted, same⟩ := List.mem_map.mp member
    obtain ⟨typed, rfl⟩ := Prod.mk.inj same
    exact single item' deleted other registered typed.symm listed
  by_cases own : other = lookup
  · subst own
    rw [OwnsManyLookup.owned_removeId fixup.removed, trimmed_iff.mp trimmed other registered, List.filter_filter]
    refine List.filter_congr fun id listed => ?_
    rw [← Bool.decide_and]
    refine decide_eq_decide.mpr ?_
    rw [List.mem_append, not_or, and_comm]
    refine and_congr_right fun kept => not_congr ?_
    have present : id ∈ other.owned parent := by
      rw [trimmed_iff.mp trimmed other registered]
      exact List.mem_filter.mpr ⟨listed, decide_eq_true kept⟩
    refine ⟨fun same => ?_, fun member => (listed_of id member present).2⟩
    rw [same, fixup.typed]
    exact List.mem_map_of_mem fixup.deleted
  · rw [OwnsManyLookup.owned_removeId_of_ne fixup.removed fun typed field =>
      own (fields lookup fixup.registered other registered typed field)]
    exact trimmed.owned registered fun id listed member => own (listed_of id member listed).1

/-- What a deletion has to find for its rewritten parents not to undo one another: a parent that stays lists one of
the children, by one relation, no more; none that waits to be put lists any, stored or as it will be put; and no
rewritten parent repeats what the root has put before. -/
structure FixesApart (ctx : MykoServerContext) (registry : StoreRegistry) (c : CausalState) (items : List Item) :
    Prop where
  single : ∀ {parent first second item other lookup lookup'}, Fixup ctx registry items first item lookup parent →
    Fixup ctx registry items second other lookup' parent → lookup' = lookup ∧ other.id = item.id
  waiting : ∀ pending ∈ c.queue, ∀ parent ∈ pending.puts, ∀ item ∈ items, ∀ lookup ∈ ctx.tables.ownsMany,
    lookup.foreignType = item.entityType → item.id ∉ lookup.owned parent
  stored : ∀ {parent parent' item lookup}, Fixup ctx registry items parent' item lookup parent →
    ¬PutQueued c (parent.entityType, parent.id)
  unseen : ∀ {parent parent' item lookup}, Fixup ctx registry items parent' item lookup parent →
    transitionKey ctx .set parent' ∉ c.seen

/-- A child deleted alone, by the one relation there is and before anything is put. -/
theorem FixesApart.alone {item : Item} {lookup : OwnsManyLookup} (one : ctx.tables.ownsMany = [lookup])
    (queue : c.queue = []) (unput : ∀ transition ∈ c.seen, transition.operation ≠ 1) :
    FixesApart ctx registry c [item] := by
  refine ⟨fun first second => ⟨?_, ?_⟩, fun pending waits => ?_, fun _ queued => ?_, fun _ seen => unput _ seen rfl⟩
  · have registered := second.registered
    have registered' := first.registered
    rw [one] at registered registered'
    rw [List.mem_singleton.mp registered, List.mem_singleton.mp registered']
  · rw [List.mem_singleton.mp second.deleted, List.mem_singleton.mp first.deleted]
  · rw [queue] at waits
    cases waits
  · obtain ⟨pending, waits, _⟩ := queued
    rw [queue] at waits
    cases waits

/-- The condition on a reduction: a deletion finds its parents apart, once its children have left the stores. -/
def DeletesApart (ctx : MykoServerContext) (s : ServerState) (pending : PendingMutation) : Prop :=
  ∀ items c, pending.kind = .uniform items .del → s.causal = some c →
    FixesApart ctx (s.registry.writeAll (changesOf s pending)) c items

/-- The entities a mutation deletes. -/
def PendingMutation.deleted (pending : PendingMutation) : List (String × String) :=
  match pending.kind with
  | .uniform items .del => items.map fun item => (item.entityType, item.id)
  | _ => []

/-- A root of a deletion under way: every parent is stored, or waits to be put, without the children gone so far. -/
structure Trims (ctx : MykoServerContext) (start : StoreRegistry) (gone : List (String × String)) (s : ServerState)
    (c : CausalState) : Prop where
  causal : s.causal = some c
  queue : ∀ pending ∈ c.queue, FromDelete pending
  queued : ∀ pending ∈ c.queue, ∀ parent ∈ pending.puts, ∃ before,
    start.getValue parent.entityType parent.id = some before ∧ Trimmed ctx gone before parent
  stored : ∀ entityType id parent, s.registry.getValue entityType id = some parent → ∃ before,
    start.getValue entityType id = some before ∧ (Trimmed ctx gone before parent ∨ PutQueued c (entityType, id))

section
variable {start : StoreRegistry} {pending : PendingMutation} {queue : List PendingMutation}

theorem putQueued_pop {key : String × String} (queued : c.queue = pending :: queue) (waits : PutQueued c key) :
    (∃ parent ∈ pending.puts, (parent.entityType, parent.id) = key) ∨ PutQueued (c.pop pending queue) key := by
  obtain ⟨other, member, put⟩ := waits
  rw [queued] at member
  rcases List.mem_cons.mp member with rfl | member
  · exact .inl put
  · exact .inr ⟨other, member, put⟩

/-- A batch of rewritten parents is put. -/
theorem Trims.put (trims : Trims ctx start gone s c) (queued : c.queue = pending :: queue) {batch : List Item}
    (kind : pending.kind = .uniform batch .set) (silent : pending.origin.shouldCascade = false) {u : ServerState}
    (committed : Committed ctx (s.popped c pending queue) pending u) {cascades : List Item}
    (run : effectsPending ctx (submitDerived ctx) pending (s.popped c pending queue) cascades u = .ok () t) :
    ∃ c', Trims ctx start gone t c' := by
  have frame : Frame (Fixes ctx u.registry [] (c.pop pending queue)) fun _ _ : ServerState => True := fixes_frame
  have moves : Fixes ctx u.registry [] (c.pop pending queue) u t := by
    refine (moves_effectsPending_of frame fixes_shelves fixes_cascade (fun cascading => ?_)
      (fun cascading => ?_) _ _).ok run
    all_goals
      rw [silent] at cascading
      cases cascading
  obtain ⟨stores, c', causal, fixing, grown⟩ := moves _ rfl committed.causal
    ⟨⟨[], by simp, fun _ member => nomatch member⟩, fun transition seen _ => .inl seen⟩
  obtain ⟨added, queue', own⟩ := fixing.grown
  have puts : pending.puts = batch := by
    unfold PendingMutation.puts
    rw [kind]
  have changes : changesOf (s.popped c pending queue) pending = (groupByType batch).flatten.map (Change.mk .set) := by
    unfold changesOf
    rw [kind]
  refine ⟨c', causal, fun other member => ?_, fun other member parent put => ?_, fun entityType id parent found => ?_⟩
  · rw [queue'] at member
    rcases List.mem_append.mp member with before | new
    · exact trims.queue other (queued ▸ List.mem_cons_of_mem _ before)
    · exact (own other new).1
  · rw [queue'] at member
    rcases List.mem_append.mp member with before | new
    · exact trims.queued other (queued ▸ List.mem_cons_of_mem _ before) parent put
    · obtain ⟨item, lookup, parent, fixup⟩ := (own other new).2 parent put
      cases fixup.deleted
  · rw [stores, committed.registry, changes] at found
    rcases StoreRegistry.getValue_writeAll_cases _ _ entityType id with ⟨change, member, key, same⟩ | ⟨others, same⟩
    · obtain ⟨rfl, rfl⟩ := StoreRegistry.getValue_keyed found
      rw [same] at found
      obtain ⟨item, listed, rfl⟩ := List.mem_map.mp member
      obtain rfl : item = parent := Option.some.inj found
      have put : item ∈ pending.puts := puts ▸ (groupByType_perm batch).mem_iff.mp listed
      obtain ⟨before, was, trimmed⟩ := trims.queued pending (queued ▸ List.mem_cons_self) item put
      exact ⟨before, was, .inl trimmed⟩
    · rw [same] at found
      obtain ⟨before, was, either⟩ := trims.stored entityType id parent found
      refine ⟨before, was, either.imp_right fun waits => ?_⟩
      rcases putQueued_pop queued waits with ⟨item, put, key⟩ | waits
      · have listed := (groupByType_perm batch).mem_iff.mpr (puts ▸ put)
        exact absurd key (others ⟨.set, item⟩ (List.mem_map_of_mem listed))
      · exact waits.mono grown

theorem listed_fixup {registry : StoreRegistry} {parent item : Item}
    (stored : registry.canonicalItem parent = some parent) (deleted : item ∈ items) {lookup : OwnsManyLookup}
    (registered : lookup ∈ ctx.tables.ownsMany) (typed : lookup.foreignType = item.entityType)
    (listed : item.id ∈ lookup.owned parent) :
    ∃ parent', Fixup ctx registry items parent' item lookup parent := by
  obtain ⟨parent', removed⟩ := OwnsManyLookup.removeId_of_listed listed
  exact ⟨parent', deleted, registered, typed, stored, listed, removed⟩

/-- A delete puts nothing, so what the stores keep has come about as before. -/
theorem Trims.kept (trims : Trims ctx start gone s c) (queued : c.queue = pending :: queue)
    (kind : pending.kind = .uniform items .del) {u : ServerState}
    (committed : Committed ctx (s.popped c pending queue) pending u) {entityType id : String} {parent : Item}
    (found : u.registry.getValue entityType id = some parent) :
    ∃ before, start.getValue entityType id = some before ∧
      (Trimmed ctx gone before parent ∨ PutQueued (c.pop pending queue) (entityType, id)) := by
  have puts : pending.puts = [] := by
    unfold PendingMutation.puts
    rw [kind]
  have stays : s.registry.getValue entityType id = some parent := by
    rw [committed.registry] at found
    rcases StoreRegistry.getValue_writeAll_cases _ _ entityType id with ⟨change, member, key, same⟩ | ⟨-, same⟩
    · rw [same] at found
      have put := mem_puts_of_change member found
      rw [puts] at put
      cases put
    · exact same.symm.trans found
  obtain ⟨before, was, either⟩ := trims.stored entityType id parent stays
  refine ⟨before, was, either.imp_right fun waits => ?_⟩
  rcases putQueued_pop queued waits with ⟨item, put, -⟩ | waits
  · rw [puts] at put
    cases put
  · exact waits

/-- A batch of children is deleted, and the parents that list them are rewritten. -/
theorem Trims.delete (fields : FieldsApart ctx) (trims : Trims ctx start gone s c) (queued : c.queue = pending :: queue)
    (kind : pending.kind = .uniform items .del) (cascading : pending.origin.shouldCascade = true)
    (apart : DeletesApart ctx (s.popped c pending queue) pending) {u : ServerState}
    (committed : Committed ctx (s.popped c pending queue) pending u) {cascades : List Item}
    (run : effectsPending ctx (submitDerived ctx) pending (s.popped c pending queue) cascades u = .ok () t) :
    ∃ c', Trims ctx start (gone ++ pending.deleted) t c' := by
  obtain ⟨stores, c', causal, fixing, grown, fixed⟩ := fixing_of_effects kind cascading committed.causal run
  obtain ⟨added, queue', own⟩ := fixing.grown
  have apart := apart items _ kind rfl
  rw [← committed.registry] at apart
  have deleted : pending.deleted = items.map fun item => (item.entityType, item.id) := by
    unfold PendingMutation.deleted
    rw [kind]
  rw [deleted]
  refine ⟨c', causal, fun other member => ?_, fun other member parent put => ?_, fun entityType id parent found => ?_⟩
  · rw [queue'] at member
    rcases List.mem_append.mp member with before | new
    · exact trims.queue other (queued ▸ List.mem_cons_of_mem _ before)
    · exact (own other new).1
  · rw [queue'] at member
    rcases List.mem_append.mp member with before | new
    · obtain ⟨p₀, start, trimmed⟩ := trims.queued other (queued ▸ List.mem_cons_of_mem _ before) parent put
      refine ⟨p₀, start, trimmed.append fun lookup registered id listed member => ?_⟩
      obtain ⟨item, among, same⟩ := List.mem_map.mp member
      obtain ⟨typed, rfl⟩ := Prod.mk.inj same
      exact apart.waiting other before parent put item among lookup registered typed.symm listed
    · obtain ⟨item, lookup, old, fixup⟩ := (own other new).2 parent put
      obtain ⟨p₀, start, either⟩ := trims.kept queued kind committed fixup.stored
      have trimmed := either.resolve_right (apart.stored fixup)
      obtain ⟨-, same⟩ := OwnsManyLookup.removeId_cases fixup.removed
      refine ⟨p₀, ?_, trimmed.fixup fields fixup fun item' among lookup' registered typed listed => ?_⟩
      · rw [same]
        exact start
      · obtain ⟨parent', other⟩ := listed_fixup fixup.stored among registered typed listed
        exact apart.single fixup other
  · rw [stores] at found
    obtain ⟨p₀, start, either⟩ := trims.kept queued kind committed found
    obtain ⟨rfl, rfl⟩ := StoreRegistry.getValue_keyed found
    refine ⟨p₀, start, ?_⟩
    rcases either with trimmed | waits
    · by_cases listed : ∃ item ∈ items, ∃ lookup ∈ ctx.tables.ownsMany, lookup.foreignType = item.entityType ∧
          item.id ∈ lookup.owned parent
      · obtain ⟨item, among, lookup, registered, typed, listed⟩ := listed
        obtain ⟨parent', fixup⟩ := listed_fixup found among registered typed listed
        exact .inr ((fixed parent' item lookup parent fixup).resolve_left (apart.unseen fixup))
      · refine .inl (trimmed.append fun lookup registered id present member => listed ?_)
        obtain ⟨item, among, same⟩ := List.mem_map.mp member
        obtain ⟨typed, rfl⟩ := Prod.mk.inj same
        exact ⟨item, among, lookup, registered, typed.symm, present⟩
    · exact .inr (waits.mono grown)

/-- One reduction of such a root. -/
theorem Trims.reduced (fields : FieldsApart ctx) (trims : Trims ctx start gone s c) (queued : c.queue = pending :: queue)
    (apart : DeletesApart ctx (s.popped c pending queue) pending)
    (run : reducePending ctx (submitDerived ctx) pending (s.popped c pending queue) = .ok true t) :
    ∃ c', Trims ctx start (gone ++ pending.deleted) t c' := by
  rcases reducePending_ok run with ⟨-, stopped⟩ | ⟨cascades, u, commit, effects, -⟩
  · cases stopped
  obtain ⟨-, committed⟩ := commitPending_ok commit
  cases trims.queue pending (queued ▸ List.mem_cons_self) with
  | del items kind cascading => exact trims.delete fields queued kind cascading apart committed effects
  | fixup items kind silent =>
    have none : pending.deleted = [] := by
      unfold PendingMutation.deleted
      rw [kind]
    rw [none, List.append_nil]
    exact trims.put queued kind silent committed effects

end

/-- The entities the reductions of a run delete. -/
def deletedBy (reductions : List Reduction) : List (String × String) :=
  reductions.flatMap fun reduction => reduction.2.deleted

/-- A drain whose deletions find their parents apart. -/
theorem drain_trims (fields : FieldsApart ctx) {limits : CausalLimits} {bound fuel : Nat} {start : StoreRegistry}
    {halt applied : Bool} (waiting : Waiting limits bound s c) (enough : bound < fuel)
    (trims : Trims ctx start gone s c)
    (allowed : Allowed (DeletesApart ctx) (drainReductions ctx halt fuel s))
    (run : drain ctx (submitDerived ctx) halt fuel s = .ok applied t) :
    ∃ c', c'.queue = [] ∧ Trims ctx start (gone ++ deletedBy (drainReductions ctx halt fuel s)) t c' :=
  drain_collects (f := fun reduction => reduction.2.deleted) (K := Trims ctx start) Trims.causal
    (fun trims queued apart run => trims.reduced fields queued apart run) waiting enough trims allowed run

/-- What a call deletes is deleted by the reductions of its root. -/
theorem mem_deletedBy {items : List Item} {origin : Origin} {mode : EdgeApplyMode} {fuel : Nat} {halt : Bool}
    (causal : s.causal = some c)
    (queue : c.queue = if unseen ctx .del [] items = [] then [] else
      [uniformPending ctx c₀ items .del origin mode]) (fresh : c₀.seen = []) {item : Item} (listed : item ∈ items) :
    (item.entityType, item.id) ∈ deletedBy (drainReductions ctx halt (fuel + 1) s) := by
  obtain ⟨passed, among, same⟩ : ∃ passed ∈ unseen ctx .del [] items,
      transitionKey ctx .del passed = transitionKey ctx .del item := by
    have known : transitionKey ctx .del item ∈ seenAfter ctx .del [] items := key_mem_seenAfter listed
    exact (mem_seenAfter.mp known).resolve_left List.not_mem_nil
  rw [if_neg (List.ne_nil_of_mem among)] at queue
  have deleted : (uniformPending ctx c₀ items .del origin mode).deleted =
      (unseen ctx .del [] items).map fun item => (item.entityType, item.id) := by
    unfold PendingMutation.deleted uniformPending
    rw [fresh]
  rw [drainReductions, popPending_cons causal queue]
  refine List.mem_flatMap.mpr ⟨_, List.mem_cons_self, ?_⟩
  rw [deleted]
  refine List.mem_map.mpr ⟨passed, among, ?_⟩
  exact Prod.ext (congrArg TransitionKey.entityType same) (congrArg TransitionKey.id same)

/-- A root that deletes children and whose deletions find their parents apart: the parents that remain have lost
every child deleted, and their other children stand in the order they had. -/
theorem CausalRoot.arrays_trimmed (fields : FieldsApart ctx) {items : List Item} {origin : Origin}
    {mode : EdgeApplyMode} (rooted : needsCausalRoot ctx items .del origin = true) {applied : Bool}
    (run : (CausalRoot.mutation items .del origin mode).run ctx s = .ok applied t)
    (apart : Allowed (DeletesApart ctx) ((CausalRoot.mutation items .del origin mode).reductions ctx s)) :
    let deleted := deletedBy ((CausalRoot.mutation items .del origin mode).reductions ctx s)
    (∀ item ∈ items, (item.entityType, item.id) ∈ deleted) ∧
      ∀ lookup ∈ ctx.tables.ownsMany, ∀ id parent, t.registry.getValue lookup.localType id = some parent →
        ∃ before, s.registry.getValue lookup.localType id = some before ∧
          lookup.owned parent = (lookup.owned before).filter fun child => (lookup.foreignType, child) ∉ deleted := by
  obtain ⟨cascading, coordinated⟩ := Bool.and_eq_true_iff.mp rooted
  obtain ⟨first, present, -⟩ := List.any_eq_true.mp coordinated
  have length := List.length_pos_of_mem present
  obtain ⟨u, v, queued, drained, rfl⟩ := runRoot_ok run
  unfold CausalRoot.reductions rootReductions at apart ⊢
  rw [queued] at apart ⊢
  dsimp only at apart ⊢
  obtain ⟨c, waiting⟩ := waiting_enqueueCausal queued
  obtain ⟨c', rfl, submitted⟩ := enqueueCausal_ok rfl queued
  obtain rfl : c = c' := Option.some.inj (waiting.causal.symm.trans rfl)
  have queue := submitted.queue
  change c.queue = [] ++ _ at queue
  rw [List.nil_append] at queue
  refine ⟨fun item listed => mem_deletedBy rfl queue rfl listed, fun lookup registered id parent found => ?_⟩
  have start : Trims ctx s.registry [] { s.opened ctx with causal := some c } c := by
    refine ⟨rfl, fun pending member => ?_, fun pending member parent put => ?_, fun entityType id parent found => ?_⟩
    · rw [queue] at member
      split at member
      · cases member
      · obtain rfl := List.mem_singleton.mp member
        exact .del _ rfl cascading
    · rw [queue] at member
      split at member
      · cases member
      · obtain rfl := List.mem_singleton.mp member
        cases put
    · exact ⟨parent, found, .inl fun lookup _ => by simp⟩
  have enough : s.causalLimits.maxDerivedMutations + 1 < drainBound s.causalLimits items := by
    unfold drainBound
    omega
  obtain ⟨c', empty, trims⟩ := drain_trims fields waiting enough start apart drained
  obtain ⟨before, was, either⟩ := trims.stored lookup.localType id parent found
  refine ⟨before, was, ?_⟩
  rcases either with trimmed | ⟨pending, waits, -⟩
  swap
  · rw [empty] at waits
    cases waits
  exact trimmed_iff.mp trimmed lookup registered

namespace Sample

def crewMembers : OwnsManyLookup := ⟨"crew", "member", "members"⟩

def crew (id : String) (members : List String) : Item := ⟨"crew", id, [("members", .ids members)]⟩

def member (id : String) : Item := ⟨"member", id, []⟩

def crewServer : MykoServerContext := { server with relations := [.ownsMany crewMembers] }

/-- A crew of two, with its members. -/
def crewState : ServerState :=
  { ServerState.initial with
    registry := StoreRegistry.empty.writeAll
      ([crew "k" ["a", "b"], member "a", member "b"].map (Change.mk .set))
    causalLimits := ⟨4, 8⟩ }

def leaves (members : List Item) : CausalRoot := .mutation members .del .localOrigin .authoritative

/-- One member is deleted at a time, before anything is put. -/
def alone (reductions : List Reduction) : Bool :=
  reductions.all fun reduction =>
    match reduction.2.kind, reduction.1.causal with
    | .uniform items .del, some c => items.length = 1 && c.queue.isEmpty && c.seen.all (·.operation ≠ 1)
    | _, _ => true

theorem apart_of_alone {reductions : List Reduction} (checked : alone reductions = true) :
    Allowed (DeletesApart crewServer) reductions := by
  rintro ⟨s, pending⟩ member items c kind causal
  have here := List.all_eq_true.mp checked _ member
  dsimp only at kind causal here
  rw [kind, causal] at here
  simp only [Bool.and_eq_true, decide_eq_true_eq, List.isEmpty_iff, List.all_eq_true] at here
  obtain ⟨⟨length, queue⟩, unput⟩ := here
  obtain ⟨item, rfl⟩ := List.length_eq_one_iff.mp length
  exact FixesApart.alone rfl queue unput

/-- One of two members leaves, and the crew keeps the other one. -/
theorem crew_loses_member : ∃ t, (leaves [member "a"]).run crewServer crewState = .ok true t ∧
    ∀ id parent, t.registry.getValue "crew" id = some parent → ∃ before,
      crewState.registry.getValue "crew" id = some before ∧
        crewMembers.owned parent = (crewMembers.owned before).filter fun child => ("member", child) ∉
          deletedBy ((leaves [member "a"]).reductions crewServer crewState) := by
  have returns : EStateM.run' ((leaves [member "a"]).run crewServer) crewState = some true := by decide +kernel
  have checked : alone ((leaves [member "a"]).reductions crewServer crewState) = true := by decide +kernel
  have fields : FieldsApart crewServer := by
    intro lookup registered other registered' _ _
    rw [List.mem_singleton.mp registered, List.mem_singleton.mp registered']
  obtain ⟨t, run⟩ := ok_of_run' returns
  exact ⟨t, run,
    (CausalRoot.arrays_trimmed fields (by decide) run (apart_of_alone checked)).2 crewMembers List.mem_cons_self⟩

/-- Two members leave together: each leaves the crew as it was stored, and the crew put last lists the one that was
taken out of the other. -/
theorem crew_keeps_deleted_member : ∃ t, (leaves [member "a", member "b"]).run crewServer crewState = .ok true t ∧
    ∃ parent, t.registry.getValue "crew" "k" = some parent ∧ "a" ∈ crewMembers.owned parent := by
  have returns : EStateM.run' ((leaves [member "a", member "b"]).run crewServer) crewState = some true := by
    decide +kernel
  have found : (final ((leaves [member "a", member "b"]).run crewServer) crewState).registry.getValue "crew" "k" =
      some (crew "k" ["a"]) := by decide +kernel
  obtain ⟨t, run⟩ := ok_of_run' returns
  rw [final_of_ok run] at found
  exact ⟨t, run, _, found, List.mem_singleton_self "a"⟩

end Sample

end Myko

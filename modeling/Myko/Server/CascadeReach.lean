import Myko.Server.ChildIndex
import Myko.Server.DanglingEdges
import Myko.Server.ParentArrays
import Myko.Server.Provenance

/-!
Whom a deletion reaches. The effects of a deletion look children up by their foreign keys, by the arrays of the deleted
parents and by the combinations they were ensured for; whoever is found has a deletion submitted, which the root takes
note of if it has not before.
-/

namespace Myko
open StateError

namespace RelationIndexes

variable {indexes after : RelationIndexes} {lookup other : BelongsToLookup} {registry : StoreRegistry}
  {parent id child : String}

/-- Once the index of a lookup is loaded, it lists the child under the parent. -/
def Lists (indexes : RelationIndexes) (lookup : BelongsToLookup) (parent id : String) : Prop :=
  indexes.parentByChild lookup.id ≠ none → ∀ children, indexes.childrenByParent lookup.id = some children →
    id ∈ (children parent).getD ∅

theorem SameFor.lists (same : SameFor lookup indexes after) (lists : indexes.Lists lookup parent id) :
    after.Lists lookup parent id := by
  intro loaded children listed
  rw [same.parentByChild] at loaded
  rw [same.childrenByParent] at listed
  exact lists loaded children listed

theorem lists_ensure (own : other.id = lookup.id → other = lookup)
    (named : registry.foreignKeys lookup id = some parent) (lists : indexes.Lists lookup parent id) :
    (indexes.ensureBelongsToIndexLoaded registry other).Lists lookup parent id := by
  unfold ensureBelongsToIndexLoaded
  split
  · exact lists
  · by_cases here : other.id = lookup.id
    · obtain rfl := own here
      intro _ children listed
      obtain ⟨-, loaded, listed', mirrors⟩ := filed_load indexes registry other
      obtain rfl := Option.some.inj (listed.symm.trans listed')
      exact (mirrors.listed parent id).mpr named
    · exact (load_other indexes registry here).lists lists

/-- Another child is forgotten. -/
theorem lists_remove (own : other.id = lookup.id → other = lookup) (apart : other = lookup → child ≠ id)
    (lists : indexes.Lists lookup parent id) : (indexes.removeBelongsToChild other child).Lists lookup parent id := by
  by_cases here : other.id = lookup.id
  swap
  · exact (remove_other indexes here child).lists lists
  obtain rfl := own here
  have different := apart rfl
  unfold removeBelongsToChild
  cases loaded : indexes.parentByChild other.id with
  | none => exact lists
  | some parents =>
    have listing : ∀ children, indexes.childrenByParent other.id = some children → id ∈ (children parent).getD ∅ :=
      lists (by rw [loaded]; exact Option.some_ne_none _)
    dsimp only
    cases parents child with
    | none => exact lists
    | some former =>
      dsimp only
      cases listed : indexes.childrenByParent other.id with
      | none =>
        intro _ children found
        exact listing children found
      | some children =>
        dsimp only
        cases under : children former with
        | none =>
          intro _ children' found
          exact listing children' found
        | some ids =>
          intro _ children' found
          dsimp only at found
          rw [Function.update_self] at found
          obtain rfl := Option.some.inj found
          have member := listing children listed
          by_cases same : parent = former
          · subst same
            rw [under, Option.getD_some] at member
            have kept : id ∈ ids.erase child := OrdSet.mem_erase.mpr ⟨Ne.symm different, member⟩
            have inhabited : (ids.erase child).isEmpty = false := by
              rw [Std.ExtTreeSet.isEmpty_eq_false_iff]
              intro none
              rw [none] at kept
              exact absurd kept Std.ExtTreeSet.not_mem_empty
            rw [Function.update_self, inhabited]
            exact kept
          · rw [Function.update_of_ne same]
            exact member

end RelationIndexes

variable {ctx : MykoServerContext} {registry : StoreRegistry} {items : List Item} {c c' c'' : CausalState}
  {s t u : ServerState}

theorem foreignKeys_of_stored {lookup : BelongsToLookup} {id parent : String} {child : Item}
    (stored : registry.getValue lookup.localType id = some child) (named : lookup.extractFk child = some parent) :
    registry.foreignKeys lookup id = some parent := by
  unfold StoreRegistry.foreignKeys
  rw [stored, Option.bind_some, named]

/-! ### The transaction while a deletion has its effects -/

/-- Deletions and rewritten parents are queued, and of every deletion seen since, one is queued. -/
structure Pursuing (ctx : MykoServerContext) (registry : StoreRegistry) (items : List Item) (c c' : CausalState) :
    Prop where
  fixing : Fixing ctx registry items c c'
  queueing : Queueing c c'
  kept : c.seen ⊆ c'.seen

theorem Pursuing.refl (c : CausalState) : Pursuing ctx registry items c c where
  fixing := ⟨⟨[], by simp, fun _ member => nomatch member⟩, fun _ member _ => .inl member⟩
  queueing := ⟨List.prefix_refl _, fun _ member _ => .inl member⟩
  kept := List.Subset.refl _

theorem Pursuing.trans (first : Pursuing ctx registry items c c') (second : Pursuing ctx registry items c' c'') :
    Pursuing ctx registry items c c'' := by
  obtain ⟨added, queue, own⟩ := first.fixing.grown
  obtain ⟨more, queue', own'⟩ := second.fixing.grown
  refine ⟨⟨⟨added ++ more, by rw [queue', queue, List.append_assoc], fun pending member => ?_⟩,
    fun transition member put => ?_⟩, ⟨first.queueing.grown.trans second.queueing.grown,
      fun transition member deletion => ?_⟩, List.Subset.trans first.kept second.kept⟩
  · rcases List.mem_append.mp member with before | later
    · exact own pending before
    · exact own' pending later
  · rcases second.fixing.seen transition member put with before | queued
    · exact (first.fixing.seen transition before put).imp_right fun queued => queued.mono second.queueing.grown
    · exact .inr queued
  · rcases second.queueing.seen transition member deletion with before | awaits
    · exact (first.queueing.seen transition before deletion).imp_right fun awaits => awaits.mono second.queueing.grown
    · exact .inr awaits

theorem pursuing_submitted {limits : CausalLimits} {others : List Item} {change : MEventType} {origin : Origin}
    {mode : EdgeApplyMode} (submitted : Submitted ctx limits others change origin mode c c')
    (cascading : origin.shouldCascade = decide (change = .del))
    (fixups : change = .set → ∀ parent' ∈ others,
      ∃ item lookup parent, Fixup ctx registry items parent' item lookup parent) :
    Pursuing ctx registry items c c' := by
  have start : Pursuing ctx registry items c c := Pursuing.refl c
  refine ⟨(start.fixing.submitted submitted cascading fixups).1, start.queueing.submitted submitted, ?_⟩
  intro transition member
  rw [submitted.seen]
  exact mem_seenAfter.mpr (.inl member)

/-- The relation along which the effects of a deletion move: the stores stay, stored children stay listed, and the
transaction grows. -/
def Pursues (ctx : MykoServerContext) (registry : StoreRegistry) (items : List Item) (s t : ServerState) : Prop :=
  s.registry = registry → t.registry = registry ∧
    (∀ lookup ∈ ctx.tables.belongsTo, ∀ parent id, registry.foreignKeys lookup id = some parent →
      s.relations.Lists lookup parent id → t.relations.Lists lookup parent id) ∧
    ∀ c, s.causal = some c → ∃ c', t.causal = some c' ∧ Pursuing ctx registry items c c'

theorem pursues_frame : Frame (Pursues ctx registry items) fun _ _ : ServerState => True :=
  Frame.returning (fun _ stores => ⟨stores, fun _ _ _ _ _ lists => lists, fun c causal => ⟨c, causal, Pursuing.refl c⟩⟩)
    fun first second stores => by
      obtain ⟨stores', lists, grows⟩ := first stores
      obtain ⟨stores'', lists', grows'⟩ := second stores'
      refine ⟨stores'', fun lookup registered parent id named listed =>
        lists' lookup registered parent id named (lists lookup registered parent id named listed), fun c causal => ?_⟩
      obtain ⟨c', causal', pursuing⟩ := grows c causal
      obtain ⟨c'', causal'', pursuing'⟩ := grows' c' causal'
      exact ⟨c'', causal'', pursuing.trans pursuing'⟩

theorem pursues_of_same (stores : t.registry = s.registry) (relations : t.relations = s.relations)
    (causal : t.causal = s.causal) : Pursues ctx registry items s t := fun start =>
  ⟨stores.trans start, fun _ _ _ _ _ lists => relations ▸ lists, fun c causal' =>
    ⟨c, causal.trans causal', Pursuing.refl c⟩⟩

theorem pursues_indexes {f : RelationIndexes → StoreRegistry → RelationIndexes}
    (keeps : ∀ lookup ∈ ctx.tables.belongsTo, ∀ parent id indexes, registry.foreignKeys lookup id = some parent →
      indexes.Lists lookup parent id → (f indexes registry).Lists lookup parent id) :
    Moves (Pursues ctx registry items) (fun _ _ => True) (modifyRelations f) := by
  refine Moves.modify fun s start => ⟨start, fun lookup registered parent id named lists => ?_, fun c causal =>
    ⟨c, causal, Pursuing.refl c⟩⟩
  dsimp only
  rw [start]
  exact keeps lookup registered parent id s.relations named lists

theorem pursues_submit {others : List Item} {change : MEventType} {origin : Origin}
    (cascading : origin.shouldCascade = decide (change = .del))
    (fixups : s.registry = registry → change = .set → ∀ parent' ∈ others,
      ∃ item lookup parent, Fixup ctx registry items parent' item lookup parent)
    (run : submitDerived ctx others change origin s = .ok () t) : Pursues ctx registry items s t := by
  intro stores
  rcases submitDerived_ok run with ⟨-, rfl⟩ | ⟨c, c', causal, rfl, submitted⟩
  · exact pursues_frame.refl _ stores
  · refine ⟨stores, fun _ _ _ _ _ lists => lists, fun c₀ causal' => ?_⟩
    obtain rfl : c = c₀ := Option.some.inj (causal.symm.trans causal')
    exact ⟨c', rfl, pursuing_submitted submitted cascading (fixups stores)⟩

theorem pursues_cascade (gone : List Item) :
    Moves (Pursues ctx registry items) (fun _ _ => True) (submitDerived ctx gone .del .cascade) :=
  Moves.intro (fun _ _ _ run => pursues_submit rfl (fun _ set => by cases set) run) fun _ _ _ _ => trivial

theorem pursues_load {other : BelongsToLookup} (registered : other ∈ ctx.tables.belongsTo) :
    Moves (Pursues ctx registry items) (fun _ _ => True)
      (modifyRelations fun indexes registry => indexes.ensureBelongsToIndexLoaded registry other) :=
  pursues_indexes fun _ registered' _ _ _ named lists =>
    RelationIndexes.lists_ensure (lookup_unique registered' registered) named lists

/-- A child that has left the stores is forgotten. -/
theorem pursues_forget {other : BelongsToLookup} (registered : other ∈ ctx.tables.belongsTo) {child : String}
    (gone : registry.getValue other.localType child = none) :
    Moves (Pursues ctx registry items) (fun _ _ => True)
      (modifyRelations fun indexes _ => indexes.removeBelongsToChild other child) := by
  refine pursues_indexes fun lookup registered' parent id indexes named lists => ?_
  refine RelationIndexes.lists_remove (lookup_unique registered' registered) ?_ lists
  rintro rfl rfl
  unfold StoreRegistry.foreignKeys at named
  rw [gone] at named
  cases named

theorem pursues_findChildrenByFk {lookup : BelongsToLookup} (registered : lookup ∈ ctx.tables.belongsTo)
    (parent : String) : Moves (Pursues ctx registry items) (fun _ _ => True) (findChildrenByFk lookup parent) := by
  refine Moves.bind pursues_frame (pursues_load registered) fun _ => ?_
  refine Moves.bind pursues_frame (Moves.get pursues_frame) fun s => ?_
  split <;> exact Moves.pure pursues_frame _

theorem mem_belongsToByForeign {lookup : BelongsToLookup} {entityType : String} :
    lookup ∈ ctx.tables.belongsToByForeign entityType ↔
      lookup ∈ ctx.tables.belongsTo ∧ lookup.foreignType = entityType := by
  unfold RelationshipTables.belongsToByForeign
  rw [List.mem_filter, decide_eq_true_eq]

theorem mem_ownsManyByLocal {lookup : OwnsManyLookup} {entityType : String} :
    lookup ∈ ctx.tables.ownsManyByLocal entityType ↔
      lookup ∈ ctx.tables.ownsMany ∧ lookup.localType = entityType := by
  unfold RelationshipTables.ownsManyByLocal
  rw [List.mem_filter, decide_eq_true_eq]

/-! ### Who is found -/

/-- The transaction under way knows of the deletion of an item. -/
def Noted (ctx : MykoServerContext) (s : ServerState) (item : Item) : Prop :=
  ∃ c, s.causal = some c ∧ transitionKey ctx .del item ∈ c.seen

theorem Noted.pursued {item : Item} (noted : Noted ctx s item) (stores : s.registry = registry)
    (pursues : Pursues ctx registry items s t) : Noted ctx t item := by
  obtain ⟨c, causal, seen⟩ := noted
  obtain ⟨-, -, grows⟩ := pursues stores
  obtain ⟨c', causal', pursuing⟩ := grows c causal
  exact ⟨c', causal', pursuing.kept seen⟩

/-- What is submitted is noted. -/
theorem noted_of_submit {gone : List Item} (inside : s.causal.isSome = true)
    (run : submitDerived ctx gone .del .cascade s = .ok () t) {item : Item} (listed : item ∈ gone) :
    Noted ctx t item := by
  rcases submitDerived_ok run with ⟨none, -⟩ | ⟨c, c', -, rfl, submitted⟩
  · rw [none] at inside
    cases inside
  · refine ⟨c', rfl, ?_⟩
    rw [submitted.seen]
    exact key_mem_seenAfter listed

theorem noted_of_publish {gone : List Item} (inside : s.causal.isSome = true)
    (run : (if !gone.isEmpty then publishDelCascadeBatch (submitDerived ctx) gone else pure ()) s = .ok () t)
    {item : Item} (listed : item ∈ gone) : Noted ctx t item := by
  rw [if_pos (by simpa using List.ne_nil_of_mem listed)] at run
  exact noted_of_submit inside run listed

/-- A child that names the parent and, once the index is loaded, is listed under it, is found. -/
theorem findChildrenByFk_ok {lookup : BelongsToLookup} {parent : String} {children : List Item}
    (run : findChildrenByFk lookup parent s = .ok children t) :
    t = { s with relations := s.relations.ensureBelongsToIndexLoaded s.registry lookup } ∧
      (∀ child ∈ children, child ∈ s.registry.snapshot lookup.localType) ∧
      ∀ id child, s.registry.getValue lookup.localType id = some child → lookup.extractFk child = some parent →
        s.relations.Lists lookup parent id → child ∈ children := by
  unfold findChildrenByFk at run
  rw [bind_of_ok (modifyRelations_eq _ s), bind_of_ok (get_eq _)] at run
  dsimp only at run
  cases found : (s.relations.ensureBelongsToIndexLoaded s.registry lookup).childrenByParent lookup.id with
  | some under =>
    rw [found] at run
    obtain ⟨rfl, rfl⟩ := pure_ok run
    refine ⟨rfl, fun child member => ?_, fun id child stored named lists => ?_⟩
    · obtain ⟨id, -, stored⟩ := List.mem_filterMap.mp member
      exact StoreRegistry.snapshot_of_getValue stored
    · have loaded := RelationIndexes.lists_ensure (fun _ => rfl) (foreignKeys_of_stored stored named) lists
      have listed := loaded (RelationIndexes.ensure_loaded s.relations s.registry lookup) under found
      exact List.mem_filterMap.mpr ⟨id, OrdSet.mem_toList.mpr listed, stored⟩
  | none =>
    rw [found] at run
    obtain ⟨rfl, rfl⟩ := pure_ok run
    refine ⟨rfl, fun child member => (List.mem_filter.mp member).1, fun id child stored named _ => ?_⟩
    exact List.mem_filter.mpr ⟨StoreRegistry.snapshot_of_getValue stored, decide_eq_true named⟩

/-- The children of one lookup for each of the items. -/
def gatherChildren (lookup : BelongsToLookup) (items found : List Item) : ServerM (List Item) :=
  items.foldlM (fun found item => do
    let children ← findChildrenByFk lookup item.id
    return found ++ children) found

theorem gatherChildren_ok {lookup : BelongsToLookup} {found children : List Item}
    (run : gatherChildren lookup items found s = .ok children t) :
    t.causal = s.causal ∧ found ⊆ children ∧
      (∀ child ∈ children, child ∈ found ∨ child ∈ s.registry.snapshot lookup.localType) ∧
      ∀ item ∈ items, ∀ id child, s.registry.getValue lookup.localType id = some child →
        lookup.extractFk child = some item.id → s.relations.Lists lookup item.id id → child ∈ children := by
  induction items generalizing s found with
  | nil =>
    obtain ⟨rfl, rfl⟩ := pure_ok run
    exact ⟨rfl, List.Subset.refl _, fun child member => .inl member, fun item member => nomatch member⟩
  | cons first rest ih =>
    unfold gatherChildren at run
    rw [List.foldlM_cons] at run
    obtain ⟨next, u, step, run⟩ := bind_ok run
    obtain ⟨own, v, find, step⟩ := bind_ok step
    obtain ⟨rfl, rfl⟩ := pure_ok step
    obtain ⟨rfl, stored, finds⟩ := findChildrenByFk_ok find
    obtain ⟨causal, kept, among, gathers⟩ := ih run
    refine ⟨causal, fun child member => kept (List.mem_append_left _ member), fun child member => ?_,
      fun item listed id child present named lists => ?_⟩
    · rcases among child member with before | later
      · exact (List.mem_append.mp before).imp_right (stored child)
      · exact .inr later
    · rcases List.mem_cons.mp listed with rfl | listed
      · exact kept (List.mem_append_right _ (finds id child present named lists))
      · exact gathers item listed id child present named
          (RelationIndexes.lists_ensure (fun _ => rfl) (foreignKeys_of_stored present named) lists)

/-- Of each id one item is kept. -/
theorem firstById_covers (items : List Item) : ∀ item ∈ items, ∃ kept ∈ firstById items, kept.id = item.id := by
  unfold firstById
  induction items using List.reverseRecOn with
  | nil => exact fun item member => nomatch member
  | append_singleton items last ih =>
    rw [List.foldl_append, List.foldl_cons, List.foldl_nil]
    intro item member
    split
    · rename_i before
      rcases List.mem_append.mp member with earlier | single
      · exact ih item earlier
      · obtain rfl := List.mem_singleton.mp single
        obtain ⟨kept, listed, same⟩ := List.any_eq_true.mp before
        exact ⟨kept, listed, of_decide_eq_true same⟩
    · rcases List.mem_append.mp member with earlier | single
      · obtain ⟨kept, listed, same⟩ := ih item earlier
        exact ⟨kept, List.mem_append_left _ listed, same⟩
      · obtain rfl := List.mem_singleton.mp single
        exact ⟨item, List.mem_append_right _ (List.mem_singleton_self _), rfl⟩

/-- What is done for one lookup of foreign keys when its parents are deleted. -/
def cascadeChildren (ctx : MykoServerContext) (items : List Item) (lookup : BelongsToLookup) : ServerM Unit := do
  let children ← gatherChildren lookup items []
  let children := firstById children
  if !children.isEmpty then publishDelCascadeBatch (submitDerived ctx) children

theorem noted_of_cascadeChildren {lookup : BelongsToLookup} (inside : s.causal.isSome = true)
    (run : cascadeChildren ctx items lookup s = .ok () t) {item : Item} (listed : item ∈ items) {id : String}
    {child : Item} (stored : s.registry.getValue lookup.localType id = some child)
    (named : lookup.extractFk child = some item.id) (lists : s.relations.Lists lookup item.id id) :
    Noted ctx t child := by
  unfold cascadeChildren at run
  obtain ⟨children, u, gather, run⟩ := bind_ok run
  obtain ⟨causal, -, among, gathers⟩ := gatherChildren_ok gather
  have found := gathers item listed id child stored named lists
  obtain ⟨kept, first, same⟩ := firstById_covers children child found
  -- children of one id are the one stored under it
  have own : kept = child := by
    have present : ∀ other ∈ children, s.registry.getValue lookup.localType other.id = some other := by
      intro other member
      obtain ⟨typed, stands⟩ := StoreRegistry.mem_snapshot.mp ((among other member).resolve_left List.not_mem_nil)
      rwa [StoreRegistry.canonicalItem, typed] at stands
    have stands := present kept (mem_firstById first)
    rw [same, present child found] at stands
    exact (Option.some.inj stands).symm
  rw [own] at first
  exact noted_of_publish (causal ▸ inside) run first

/-- What is done for one lookup of arrays when its parents are deleted. -/
def cascadeOwned (ctx : MykoServerContext) (items : List Item) (lookup : OwnsManyLookup) : ServerM Unit := do
  let childIds : OrdSet String := items.foldl (fun ids item =>
    ((lookup.extractIds item).getD []).foldl (fun ids id => ids.insert id) ids) ∅
  let s ← get
  let children := childIds.toList.filterMap (s.registry.getValue lookup.foreignType)
  if !children.isEmpty then publishDelCascadeBatch (submitDerived ctx) children

theorem mem_foldl_insert {ids : List String} {set : OrdSet String} {id : String} (member : id ∈ ids ∨ id ∈ set) :
    id ∈ ids.foldl (fun ids id => ids.insert id) set := by
  induction ids generalizing set with
  | nil => exact member.resolve_left List.not_mem_nil
  | cons first rest ih =>
    rw [List.foldl_cons]
    refine ih ?_
    rcases member with listed | before
    · exact (List.mem_cons.mp listed).symm.imp_right fun same => OrdSet.mem_insert.mpr (.inl same)
    · exact .inr (OrdSet.mem_insert.mpr (.inr before))

theorem noted_of_cascadeOwned {lookup : OwnsManyLookup} (inside : s.causal.isSome = true)
    (run : cascadeOwned ctx items lookup s = .ok () t) {item : Item} (listed : item ∈ items) {id : String}
    (owned : id ∈ lookup.owned item) {child : Item} (stored : s.registry.getValue lookup.foreignType id = some child) :
    Noted ctx t child := by
  have collected : ∀ (items : List Item) (set : OrdSet String), (item ∈ items ∨ id ∈ set) →
      id ∈ items.foldl (fun ids item => ((lookup.extractIds item).getD []).foldl (fun ids id => ids.insert id) ids)
        set := by
    intro items
    induction items with
    | nil => exact fun set member => member.resolve_left List.not_mem_nil
    | cons first rest ih =>
      intro set member
      rw [List.foldl_cons]
      refine ih _ ?_
      rcases member with listed | before
      · rcases List.mem_cons.mp listed with rfl | listed
        · exact .inr (mem_foldl_insert (.inl owned))
        · exact .inl listed
      · exact .inr (mem_foldl_insert (.inr before))
  unfold cascadeOwned at run
  dsimp only at run
  rw [bind_of_ok (get_eq s)] at run
  refine noted_of_publish inside run (List.mem_filterMap.mpr ⟨id, ?_, stored⟩)
  exact OrdSet.mem_toList.mpr (collected items ∅ (.inl listed))

/-- What is done for one ensured type when its dependencies are deleted. -/
def cascadeEnsured (ctx : MykoServerContext) (items : List Item) (entityType : String) (lookup : EnsureForLookup) :
    ServerM Unit := do
  let dependencies := lookup.keys.filter fun key => key.foreignType = entityType
  let s ← get
  let orphaned := (s.registry.snapshot lookup.localType).filter fun item =>
    dependencies.any fun key => (key.extractFk item).any fun id => items.any (·.id = id)
  if !orphaned.isEmpty then publishDelCascadeBatch (submitDerived ctx) orphaned

theorem noted_of_cascadeEnsured {entityType : String} {lookup : EnsureForLookup} (inside : s.causal.isSome = true)
    (run : cascadeEnsured ctx items entityType lookup s = .ok () t) {item : Item} (listed : item ∈ items)
    {key : ForeignKey} (depends : key ∈ lookup.keys) (typed : key.foreignType = entityType) {id : String} {child : Item}
    (stored : s.registry.getValue lookup.localType id = some child) (named : key.extractFk child = some item.id) :
    Noted ctx t child := by
  unfold cascadeEnsured at run
  dsimp only at run
  rw [bind_of_ok (get_eq s)] at run
  refine noted_of_publish inside run (List.mem_filter.mpr ⟨StoreRegistry.snapshot_of_getValue stored, ?_⟩)
  refine List.any_eq_true.mpr ⟨key, List.mem_filter.mpr ⟨depends, decide_eq_true typed⟩, ?_⟩
  rw [named, Option.any_some]
  exact List.any_eq_true.mpr ⟨item, listed, decide_eq_true rfl⟩

/-! ### The effects of a deletion -/

theorem handleBelongsToCascadeBatch_cons (first : Item) (rest : List Item) :
    handleBelongsToCascadeBatch ctx (submitDerived ctx) (first :: rest) =
      each (cascadeChildren ctx (first :: rest)) (ctx.tables.belongsToByForeign first.entityType) := rfl

theorem handleOwnsManyParentDeleteBatch_cons (first : Item) (rest : List Item) :
    handleOwnsManyParentDeleteBatch ctx (submitDerived ctx) (first :: rest) =
      each (cascadeOwned ctx (first :: rest)) (ctx.tables.ownsManyByLocal first.entityType) := rfl

theorem handleEnsureForDeleteBatch_cons (first : Item) (rest : List Item) :
    handleEnsureForDeleteBatch ctx (submitDerived ctx) (first :: rest) =
      each (cascadeEnsured ctx (first :: rest) first.entityType) (ctx.tables.ensureForBy first.entityType) := rfl

variable {batch : List Item}

theorem pursues_publish (gone : List Item) (skip : Bool) : Moves (Pursues ctx registry items) (fun _ _ => True)
    (if !skip then publishDelCascadeBatch (submitDerived ctx) gone else pure ()) :=
  moves_publishDelCascade pursues_frame pursues_cascade gone skip

theorem pursues_cascadeChildren {lookup : BelongsToLookup} (registered : lookup ∈ ctx.tables.belongsTo) :
    Moves (Pursues ctx registry items) (fun _ _ => True) (cascadeChildren ctx batch lookup) := by
  refine Moves.bind pursues_frame (Moves.foldlM pursues_frame (fun found item => ?_) _ _) fun children =>
    pursues_publish _ _
  exact Moves.bind pursues_frame (pursues_findChildrenByFk registered _) fun _ => Moves.pure pursues_frame _

theorem pursues_cascadeOwned (lookup : OwnsManyLookup) :
    Moves (Pursues ctx registry items) (fun _ _ => True) (cascadeOwned ctx batch lookup) :=
  Moves.bind pursues_frame (Moves.get pursues_frame) fun _ => pursues_publish _ _

theorem pursues_cascadeEnsured (entityType : String) (lookup : EnsureForLookup) :
    Moves (Pursues ctx registry items) (fun _ _ => True) (cascadeEnsured ctx batch entityType lookup) :=
  Moves.bind pursues_frame (Moves.get pursues_frame) fun _ => pursues_publish _ _

theorem pursues_handleBelongsToCascadeBatch (batch : List Item) : Moves (Pursues ctx registry items) (fun _ _ => True)
    (handleBelongsToCascadeBatch ctx (submitDerived ctx) batch) := by
  cases batch with
  | nil => exact Moves.pure pursues_frame _
  | cons first rest =>
    rw [handleBelongsToCascadeBatch_cons]
    exact Moves.each pursues_frame fun lookup member => pursues_cascadeChildren (mem_belongsToByForeign.mp member).1

theorem pursues_fixupParents {item : Item} {lookup : OwnsManyLookup} (deleted : item ∈ items)
    (registered : lookup ∈ ctx.tables.ownsMany) (typed : lookup.foreignType = item.entityType) :
    Moves (Pursues ctx registry items) (fun _ _ => True) (fixupParents ctx item lookup) := by
  refine Moves.intro (fun s _ t run => ?_) fun _ _ _ _ => trivial
  unfold fixupParents at run
  rw [bind_of_ok (get_eq s)] at run
  split at run
  · have cascading : Origin.relationshipFixup.shouldCascade = decide (MEventType.set = .del) := rfl
    refine pursues_submit cascading (fun stores _ parent' update => ?_) run
    rw [stores] at update
    exact fixup_of_update deleted registered typed update
  · obtain ⟨-, rfl⟩ := pure_ok run
    exact pursues_frame.refl _

/-- The children that are deleted have left the stores. -/
theorem pursues_forgets (subset : batch ⊆ items) (gone : ∀ item ∈ items, registry.canonicalItem item = none) :
    Moves (Pursues ctx registry items) (fun _ _ => True) (each (fun item => do
      handleOwnsManyChildDelete ctx (submitDerived ctx) item
      each (fun lookup => modifyRelations fun indexes _ => indexes.removeBelongsToChild lookup item.id)
        (ctx.tables.belongsToByLocal item.entityType)) batch) := by
  refine Moves.each pursues_frame fun item member => Moves.bind pursues_frame ?_ fun _ => ?_
  · rw [handleOwnsManyChildDelete_eq]
    refine Moves.each pursues_frame fun lookup listed => ?_
    obtain ⟨registered, typed⟩ := mem_ownsManyByForeign.mp listed
    exact pursues_fixupParents (subset member) registered typed
  · refine Moves.each pursues_frame fun lookup listed => ?_
    obtain ⟨registered, here⟩ := List.mem_filter.mp listed
    refine pursues_forget registered ?_
    rw [of_decide_eq_true here]
    exact gone item (subset member)

theorem pursues_forwardDelBatch (subset : batch ⊆ items) (gone : ∀ item ∈ items, registry.canonicalItem item = none) :
    Moves (Pursues ctx registry items) (fun _ _ => True) (forwardDelBatch ctx (submitDerived ctx) batch) := by
  refine Moves.bind pursues_frame (pursues_handleBelongsToCascadeBatch batch) fun _ => ?_
  refine Moves.bind pursues_frame (moves_handleOwnsManyParentDeleteBatch pursues_frame pursues_cascade ctx batch)
    fun _ => ?_
  refine Moves.bind pursues_frame (moves_handleEnsureForDeleteBatch pursues_frame pursues_cascade ctx batch)
    fun _ => ?_
  exact pursues_forgets subset gone

theorem pursues_produce (change : MEventType) (origin : Origin) : Moves (Pursues ctx registry items) (fun _ _ => True)
    (if origin.shouldProduce then
      modify fun s => { s with sink := s.sink ++ batch.map (Change.mk change) } else pure () : ServerM Unit) :=
  Moves.ite (fun _ => Moves.modify fun _ => pursues_of_same rfl rfl rfl) fun _ => Moves.pure pursues_frame _

theorem pursues_search (change : MEventType) (batch : List Item) : Moves (Pursues ctx registry items) (fun _ _ => True)
    (each (indexSearch change) batch) :=
  Moves.each pursues_frame fun _ _ => Moves.modify fun _ => pursues_of_same rfl rfl rfl

theorem pursues_applyEffects {origin : Origin} (subset : batch ⊆ items)
    (gone : ∀ item ∈ items, registry.canonicalItem item = none) : Moves (Pursues ctx registry items) (fun _ _ => True)
      (applyEffects ctx (submitDerived ctx) batch .del origin) := by
  refine Moves.bind pursues_frame (pursues_search .del batch) fun _ => Moves.ite (fun _ => ?_) fun _ =>
    pursues_produce .del origin
  exact Moves.bind pursues_frame (pursues_forwardDelBatch subset gone) fun _ => pursues_produce .del origin

/-- Nothing is written by a replacement that only deletes. -/
theorem pursues_applyEffects_nil (origin : Origin) : Moves (Pursues ctx registry items) (fun _ _ => True)
    (applyEffects ctx (submitDerived ctx) [] .set origin) := by
  refine Moves.bind pursues_frame (pursues_search .set []) fun _ => Moves.ite (fun _ => ?_) fun _ =>
    pursues_produce .set origin
  exact Moves.bind pursues_frame (Moves.pure pursues_frame _) fun _ => pursues_produce .set origin

/-- A child that the deletion of an item finds in the state it is looked for: it names the item and is listed under it,
its id is in an array of the item, or it was ensured for the item. -/
inductive Finds (ctx : MykoServerContext) (s : ServerState) (item : Item) : Item → Prop
  | child {lookup : BelongsToLookup} {id : String} {child : Item} (registered : lookup ∈ ctx.tables.belongsTo)
    (typed : lookup.foreignType = item.entityType) (stored : s.registry.getValue lookup.localType id = some child)
    (named : lookup.extractFk child = some item.id) (listed : s.relations.Lists lookup item.id id) :
    Finds ctx s item child
  | owned {lookup : OwnsManyLookup} {id : String} {child : Item} (registered : lookup ∈ ctx.tables.ownsMany)
    (typed : lookup.localType = item.entityType) (listed : id ∈ lookup.owned item)
    (stored : s.registry.getValue lookup.foreignType id = some child) : Finds ctx s item child
  | ensured {lookup : EnsureForLookup} {key : ForeignKey} {id : String} {child : Item}
    (registered : lookup ∈ ctx.tables.ensureForBy item.entityType) (depends : key ∈ lookup.keys)
    (typed : key.foreignType = item.entityType) (stored : s.registry.getValue lookup.localType id = some child)
    (named : key.extractFk child = some item.id) : Finds ctx s item child

theorem Finds.pursued {item child : Item} (finds : Finds ctx s item child) (stores : s.registry = registry)
    (pursues : Pursues ctx registry items s t) : Finds ctx t item child := by
  obtain ⟨stores', lists, -⟩ := pursues stores
  cases finds with
  | child registered typed stored named listed =>
    rw [stores] at stored
    exact .child registered typed (stores' ▸ stored) named
      (lists _ registered item.id _ (foreignKeys_of_stored stored named) listed)
  | owned registered typed listed stored =>
    rw [stores] at stored
    exact .owned registered typed listed (stores' ▸ stored)
  | ensured registered depends typed stored named =>
    rw [stores] at stored
    exact .ensured registered depends typed (stores' ▸ stored) named

/-- In a root under way, with the stores as they are when a deletion has its effects. -/
def Underneath (registry : StoreRegistry) (s : ServerState) : Prop := s.registry = registry ∧ s.causal.isSome = true

theorem Underneath.pursued (under : Underneath registry s) (pursues : Pursues ctx registry items s t) :
    Underneath registry t := by
  obtain ⟨stores, -, grows⟩ := pursues under.1
  obtain ⟨c, causal⟩ := Option.isSome_iff_exists.mp under.2
  obtain ⟨c', causal', -⟩ := grows c causal
  exact ⟨stores, by rw [causal']; rfl⟩

/-- Whoever one of the steps notes stays noted. -/
theorem noted_of_each {α : Type} {f : α → ServerM Unit} {steps : List α} {child : Item}
    (moves : ∀ a ∈ steps, Moves (Pursues ctx registry items) (fun _ _ => True) (f a)) (under : Underneath registry s)
    (run : each f steps s = .ok () t) {a : α} (member : a ∈ steps)
    (notes : ∀ u v, Pursues ctx registry items s u → f a u = .ok () v → Noted ctx v child) : Noted ctx t child := by
  obtain ⟨u, v, reached, visit, rest⟩ := Moves.each_visits pursues_frame moves run a member
  have there := under.pursued reached
  exact (notes u v reached visit).pursued ((moves a member).ok visit there.1).1 rest

/-- Whoever is found for an item of a batch is noted. -/
theorem noted_of_forwardDelBatch (subset : batch ⊆ items) (gone : ∀ item ∈ items, registry.canonicalItem item = none)
    {entityType : String} (typed : ∀ item ∈ batch, item.entityType = entityType) (under : Underneath registry s)
    (run : forwardDelBatch ctx (submitDerived ctx) batch s = .ok () t) {item child : Item} (listed : item ∈ batch)
    (finds : Finds ctx s item child) : Noted ctx t child := by
  unfold forwardDelBatch at run
  obtain ⟨_, s₁, children, run⟩ := bind_ok run
  obtain ⟨_, s₂, owned, run⟩ := bind_ok run
  obtain ⟨_, s₃, ensured, run⟩ := bind_ok run
  have first : Pursues ctx registry items s s₁ := (pursues_handleBelongsToCascadeBatch batch).ok children
  have second : Pursues ctx registry items s₁ s₂ :=
    (moves_handleOwnsManyParentDeleteBatch pursues_frame pursues_cascade ctx batch).ok owned
  have third : Pursues ctx registry items s₂ s₃ :=
    (moves_handleEnsureForDeleteBatch pursues_frame pursues_cascade ctx batch).ok ensured
  have last : Pursues ctx registry items s₃ t := (pursues_forgets subset gone).ok run
  have under₁ := under.pursued first
  have under₂ := under₁.pursued second
  have under₃ := under₂.pursued third
  cases batch with
  | nil => cases listed
  | cons head rest =>
    have same : item.entityType = head.entityType := (typed item listed).trans (typed head List.mem_cons_self).symm
    cases finds with
    | child registered here stored named lists =>
      refine Noted.pursued (Noted.pursued (Noted.pursued ?_ under₁.1 second) under₂.1 third) under₃.1 last
      rw [handleBelongsToCascadeBatch_cons] at children
      refine noted_of_each (fun lookup member => pursues_cascadeChildren (mem_belongsToByForeign.mp member).1) under
        children (mem_belongsToByForeign.mpr ⟨registered, here.trans same⟩)
        fun u v (reached : Pursues ctx registry items s u) visit => ?_
      have there := under.pursued reached
      rw [under.1] at stored
      have lists' := (reached under.1).2.1 _ registered item.id _ (foreignKeys_of_stored stored named) lists
      rw [← there.1] at stored
      exact noted_of_cascadeChildren there.2 visit listed stored named lists'
    | owned registered here own stored =>
      refine Noted.pursued (Noted.pursued ?_ under₂.1 third) under₃.1 last
      rw [handleOwnsManyParentDeleteBatch_cons] at owned
      refine noted_of_each (fun lookup _ => pursues_cascadeOwned lookup) under₁ owned
        (mem_ownsManyByLocal.mpr ⟨registered, here.trans same⟩)
        fun u v (reached : Pursues ctx registry items s₁ u) visit => ?_
      have there := under₁.pursued reached
      rw [under.1, ← there.1] at stored
      exact noted_of_cascadeOwned there.2 visit listed own stored
    | ensured registered depends here stored named =>
      refine Noted.pursued ?_ under₃.1 last
      rw [handleEnsureForDeleteBatch_cons] at ensured
      rw [same] at registered
      refine noted_of_each (fun lookup _ => pursues_cascadeEnsured _ lookup) under₂ ensured registered
        fun u v (reached : Pursues ctx registry items s₂ u) visit => ?_
      have there := under₂.pursued reached
      rw [under.1, ← there.1] at stored
      exact noted_of_cascadeEnsured there.2 visit listed depends (here.trans same) stored named

/-! ### The mutation it is the effect of -/

/-- The items a mutation deletes. -/
def PendingMutation.deletions (pending : PendingMutation) (s : ServerState) : List Item :=
  match pending.kind with
  | .uniform items .del => items
  | .uniform _ .set => []
  | .replace _ deletes _ => effectiveDeletes s deletes

section
variable {pending : PendingMutation} (puts : pending.puts = [])
include puts

theorem mem_changesOf_of_deletes {change : Change} :
    change ∈ changesOf s pending ↔ change.kind = .del ∧ change.item ∈ pending.deletions s := by
  unfold PendingMutation.puts at puts
  unfold changesOf PendingMutation.deletions
  obtain ⟨kind, item⟩ := change
  match shape : pending.kind with
  | .uniform items .del =>
    rw [List.mem_map]
    constructor
    · rintro ⟨other, listed, same⟩
      cases same
      exact ⟨rfl, (groupByType_perm items).mem_iff.mp listed⟩
    · rintro ⟨rfl, listed⟩
      exact ⟨item, (groupByType_perm items).mem_iff.mpr listed, rfl⟩
  | .uniform items .set =>
    rw [shape] at puts
    obtain rfl : items = [] := puts
    simp [groupByType_nil]
  | .replace upserts deletes expected =>
    rw [shape] at puts
    obtain rfl : upserts = [] := puts
    dsimp only
    rw [List.map_nil, List.append_nil, List.mem_map]
    constructor
    · rintro ⟨other, listed, same⟩
      cases same
      exact ⟨rfl, listed⟩
    · rintro ⟨rfl, listed⟩
      exact ⟨item, listed, rfl⟩

/-- The deleted entities leave the stores, and the others stay as they are. -/
theorem getValue_of_deletes (entityType id : String) :
    ((∃ item ∈ pending.deletions s, entityOf item = ⟨entityType, id⟩) ∧
        (s.registry.writeAll (changesOf s pending)).getValue entityType id = none) ∨
      (∀ item ∈ pending.deletions s, entityOf item ≠ ⟨entityType, id⟩) ∧
        (s.registry.writeAll (changesOf s pending)).getValue entityType id = s.registry.getValue entityType id := by
  rcases StoreRegistry.getValue_writeAll_cases s.registry (changesOf s pending) entityType id with
    ⟨⟨kind, item⟩, member, key, value⟩ | ⟨others, value⟩
  · obtain ⟨deletes, listed⟩ := (mem_changesOf_of_deletes puts).mp member
    obtain rfl : kind = .del := deletes
    exact .inl ⟨⟨item, listed, congrArg (fun key => (⟨key.1, key.2⟩ : EntityRef)) key⟩, value⟩
  · refine .inr ⟨fun item listed same => ?_, value⟩
    refine others ⟨.del, item⟩ ((mem_changesOf_of_deletes puts).mpr ⟨rfl, listed⟩) ?_
    exact Prod.ext (congrArg EntityRef.entityType same) (congrArg EntityRef.id same)

theorem effectGroups_of_deletes {group : List Item × MEventType} (member : group ∈ effectGroups pending s) :
    (∃ entityType, group = (ofType entityType (pending.deletions s), .del)) ∨ group = ([], .set) := by
  unfold PendingMutation.puts at puts
  unfold effectGroups at member
  unfold PendingMutation.deletions
  match shape : pending.kind with
  | .uniform items .del =>
    rw [shape] at member
    obtain ⟨batch, grouped, rfl⟩ := List.mem_map.mp member
    obtain ⟨entityType, -, rfl⟩ := List.mem_map.mp grouped
    exact .inl ⟨entityType, rfl⟩
  | .uniform items .set =>
    rw [shape] at puts member
    obtain rfl : items = [] := puts
    cases member
  | .replace upserts deletes expected =>
    rw [shape] at puts member
    obtain rfl : upserts = [] := puts
    obtain ⟨entityType, -, listed⟩ := List.mem_flatMap.mp member
    rcases List.mem_pair.mp listed with rfl | rfl
    · exact .inl ⟨entityType, rfl⟩
    · exact .inr rfl

omit puts in
theorem mem_effectGroups_of_deletion {item : Item} (listed : item ∈ pending.deletions s) :
    (ofType item.entityType (pending.deletions s), .del) ∈ effectGroups pending s := by
  unfold effectGroups
  unfold PendingMutation.deletions at listed ⊢
  match shape : pending.kind with
  | .uniform items .del =>
    rw [shape] at listed
    exact List.mem_map.mpr ⟨_, List.mem_map.mpr ⟨item.entityType, mem_entityTypes.mpr ⟨item, listed, rfl⟩, rfl⟩, rfl⟩
  | .uniform items .set =>
    rw [shape] at listed
    cases listed
  | .replace upserts deletes expected =>
    rw [shape] at listed
    refine List.mem_flatMap.mpr ⟨item.entityType, mem_entityTypes.mpr ⟨item, ?_, rfl⟩, List.mem_cons_self⟩
    exact List.mem_append_left _ listed

omit puts in
theorem items_of_deletion {item : Item} (listed : item ∈ pending.deletions s) : pending.items ≠ [] := by
  unfold PendingMutation.deletions at listed
  unfold PendingMutation.items
  match shape : pending.kind with
  | .uniform items .del =>
    rw [shape] at listed
    exact List.ne_nil_of_mem listed
  | .uniform items .set =>
    rw [shape] at listed
    cases listed
  | .replace upserts deletes expected =>
    rw [shape] at listed
    exact List.ne_nil_of_mem (List.mem_append_right _ (List.mem_filter.mp listed).1)

/-- The effects of a mutation that only deletes: the stores stay, the transaction grows by deletions and rewritten
parents, and whoever is found for an item deleted is noted. -/
theorem pursued_of_effects {before : ServerState} {cascades : List Item} (causal : s.causal = some c)
    (gone : ∀ item ∈ pending.deletions before, s.registry.canonicalItem item = none)
    (run : effectsPending ctx (submitDerived ctx) pending before cascades s = .ok () t) :
    Pursues ctx s.registry (pending.deletions before) s t ∧ (pending.origin.shouldCascade = true →
      ∀ item ∈ pending.deletions before, ∀ child, Finds ctx s item child → Noted ctx t child) := by
  have under : Underneath s.registry s := ⟨rfl, by rw [causal]; rfl⟩
  have steps : ∀ group ∈ effectGroups pending before,
      Moves (Pursues ctx s.registry (pending.deletions before)) (fun _ _ => True)
        (applyEffects ctx (submitDerived ctx) group.1 group.2 pending.origin) := by
    intro group member
    rcases effectGroups_of_deletes puts member with ⟨entityType, rfl⟩ | rfl
    · exact pursues_applyEffects (fun item among => (List.mem_filter.mp among).1) gone
    · exact pursues_applyEffects_nil _
  unfold effectsPending at run
  split at run
  · rename_i none
    obtain ⟨-, rfl⟩ := pure_ok run
    refine ⟨pursues_frame.refl _, fun _ item listed => ?_⟩
    exact absurd (List.isEmpty_iff.mp none) (items_of_deletion listed)
  · obtain ⟨_, u, groups, cascade⟩ := bind_ok run
    have first : Pursues ctx s.registry (pending.deletions before) s u := (Moves.each pursues_frame steps).ok groups
    have last : Pursues ctx s.registry (pending.deletions before) u t := (pursues_cascade cascades).ok cascade
    refine ⟨pursues_frame.trans first last, fun cascading item listed child finds => ?_⟩
    refine Noted.pursued ?_ (under.pursued first).1 last
    refine noted_of_each steps under groups (mem_effectGroups_of_deletion listed) fun v w reached visit => ?_
    unfold applyEffects at visit
    obtain ⟨_, x, searched, visit⟩ := bind_ok visit
    rw [if_pos cascading] at visit
    obtain ⟨_, y, forward, produce⟩ := bind_ok visit
    have search : Pursues ctx s.registry (pending.deletions before) v x := (pursues_search .del _).ok searched
    have there := (under.pursued reached).pursued search
    have subset : ofType item.entityType (pending.deletions before) ⊆ pending.deletions before := fun _ among =>
      (List.mem_filter.mp among).1
    have forwards : Pursues ctx s.registry (pending.deletions before) x y :=
      (pursues_forwardDelBatch subset gone).ok forward
    have produced : Pursues ctx s.registry (pending.deletions before) y w := (pursues_produce .del _).ok produce
    have found : Finds ctx x item child := (finds.pursued under.1 reached).pursued (under.pursued reached).1 search
    refine Noted.pursued ?_ (there.pursued forwards).1 produced
    exact noted_of_forwardDelBatch subset gone (fun other among => of_decide_eq_true (List.mem_filter.mp among).2)
      there forward (List.mem_filter.mpr ⟨listed, decide_eq_true rfl⟩) found

end

end Myko

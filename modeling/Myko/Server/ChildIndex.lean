import Myko.Lib.ReverseIndex
import Myko.Server.Run

/-!
The reverse index of foreign keys against the stores of children. Relationship work files the children
it hears of as the stores have them, and leaves the others as they were.
-/

namespace Myko
open StateError ReverseIndex

/-! ### Lookups -/

/-- Lookups are numbered as they are registered. -/
theorem belongsTo_numbered (relations : List Relation) :
    ((RelationshipTables.ofRelations relations).belongsTo.map BelongsToLookup.id).Nodup ∧
      ∀ lookup ∈ (RelationshipTables.ofRelations relations).belongsTo,
        lookup.id ≤ (RelationshipTables.ofRelations relations).nextBelongsToId := by
  induction relations using List.reverseRecOn with
  | nil =>
    refine ⟨List.nodup_nil, fun _ member => absurd member ?_⟩
    simp [RelationshipTables.ofRelations, RelationshipTables.empty]
  | append_singleton relations relation ih =>
    have step : RelationshipTables.ofRelations (relations ++ [relation]) =
        (RelationshipTables.ofRelations relations).register relation := List.foldl_append
    rw [step]
    obtain ⟨nodup, within⟩ := ih
    cases relation with
    | ownsMany lookup => exact ⟨nodup, within⟩
    | ensureFor lookup => exact ⟨nodup, within⟩
    | belongsTo key =>
      constructor
      · change List.Nodup (List.map _ (_ ++ _))
        rw [List.map_append, List.nodup_append]
        refine ⟨nodup, List.nodup_singleton _, fun id member other single => ?_⟩
        obtain ⟨lookup, listed, rfl⟩ := List.mem_map.mp member
        have bound := within lookup listed
        simp only [List.map_cons, List.map_nil, List.mem_singleton] at single
        omega
      · intro lookup member
        rcases List.mem_append.mp member with listed | single
        · exact (within lookup listed).trans (Nat.le_succ _)
        · obtain rfl := List.mem_singleton.mp single
          exact Nat.le_refl _

theorem lookup_unique {ctx : MykoServerContext} {lookup other : BelongsToLookup}
    (registered : lookup ∈ ctx.tables.belongsTo) (registered' : other ∈ ctx.tables.belongsTo)
    (same : other.id = lookup.id) : other = lookup :=
  List.inj_on_of_nodup_map (belongsTo_numbered ctx.relations).1 registered' registered same

/-- The foreign key of each stored child. -/
def StoreRegistry.foreignKeys (registry : StoreRegistry) (lookup : BelongsToLookup) (id : String) :
    Option String :=
  (registry.getValue lookup.localType id).bind lookup.extractFk

namespace RelationIndexes

variable {indexes : RelationIndexes} {lookup other : BelongsToLookup} {parents : String → Option String}

/-- The index of a lookup is loaded and files each child under `parents`. -/
structure Filed (indexes : RelationIndexes) (lookup : BelongsToLookup)
    (parents : String → Option String) : Prop where
  parentByChild : indexes.parentByChild lookup.id = some parents
  children : ∃ children, indexes.childrenByParent lookup.id = some children ∧ Mirrors parents children

/-- The two maps of a loaded index mirror each other. -/
def Sound (indexes : RelationIndexes) (lookup : BelongsToLookup) : Prop :=
  ∀ parents, indexes.parentByChild lookup.id = some parents → indexes.Filed lookup parents

theorem Filed.sound (filed : indexes.Filed lookup parents) : indexes.Sound lookup := fun parents' loaded => by
  obtain rfl : parents = parents' := Option.some.inj (filed.parentByChild.symm.trans loaded)
  exact filed

/-! ### One lookup's own steps -/

/-- Filing children one after the other, each of them once. -/
theorem mirrors_foldl {extractFk : Item → Option String}
    {file : (String → Option String) × (String → Option (OrdSet String)) → Item →
      (String → Option String) × (String → Option (OrdSet String))}
    (skip : ∀ maps item, extractFk item = none → file maps item = maps)
    (put : ∀ maps item parent, extractFk item = some parent → file maps item =
      (Function.update maps.1 item.id (some parent),
        Function.update maps.2 parent (some (((maps.2 parent).getD ∅).insert item.id))))
    {items : List Item} (nodup : (items.map Item.id).Nodup)
    (maps : (String → Option String) × (String → Option (OrdSet String)))
    (mirrors : Mirrors maps.1 maps.2) (fresh : ∀ item ∈ items, maps.1 item.id = none) :
    Mirrors (items.foldl file maps).1 (items.foldl file maps).2 ∧
      (∀ item ∈ items, (items.foldl file maps).1 item.id = extractFk item) ∧
      ∀ id, id ∉ items.map Item.id → (items.foldl file maps).1 id = maps.1 id := by
  induction items generalizing maps with
  | nil => exact ⟨mirrors, fun _ member => absurd member (by simp), fun _ _ => rfl⟩
  | cons item rest ih =>
    obtain ⟨apart, nodup⟩ := List.nodup_cons.mp nodup
    have step : Mirrors (file maps item).1 (file maps item).2 ∧
        (file maps item).1 item.id = extractFk item ∧
        ∀ id, id ≠ item.id → (file maps item).1 id = maps.1 id := by
      cases fk : extractFk item with
      | none =>
        rw [skip maps item fk]
        exact ⟨mirrors, fresh item List.mem_cons_self, fun _ _ => rfl⟩
      | some parent =>
        rw [put maps item parent fk]
        refine ⟨mirrors.file (fresh item List.mem_cons_self) parent, Function.update_self _ _ _, ?_⟩
        exact fun id different => Function.update_of_ne different _ _
    obtain ⟨mirrors', own, others⟩ := step
    have fresh' : ∀ later ∈ rest, (file maps item).1 later.id = none := by
      intro later member
      rw [others later.id fun same => apart (same ▸ List.mem_map_of_mem member)]
      exact fresh later (List.mem_cons_of_mem _ member)
    obtain ⟨whole, filed, untouched⟩ := ih nodup _ mirrors' fresh'
    rw [List.foldl_cons]
    refine ⟨whole, fun later member => ?_, fun id absent => ?_⟩
    · rcases List.mem_cons.mp member with rfl | member
      · rw [untouched _ apart, own]
      · exact filed later member
    · rw [List.map_cons, List.mem_cons, not_or] at absent
      rw [untouched id absent.2, others id absent.1]

/-- A load files every stored child under its foreign key. -/
theorem filed_load (indexes : RelationIndexes) (registry : StoreRegistry) (lookup : BelongsToLookup) :
    (indexes.load registry lookup).Filed lookup (registry.foreignKeys lookup) := by
  unfold load
  extract_lets file maps
  have skip : ∀ maps item, lookup.extractFk item = none → file maps item = maps := by
    intro maps item none
    simp only [file, none]
  have put : ∀ maps item parent, lookup.extractFk item = some parent → file maps item =
      (Function.update maps.1 item.id (some parent),
        Function.update maps.2 parent (some (((maps.2 parent).getD ∅).insert item.id))) := by
    intro maps item parent some
    simp only [file, some]
  obtain ⟨mirrors, filed, absent⟩ := mirrors_foldl skip put
    (registry.snapshot_nodup_ids lookup.localType) (fun _ => none, fun _ => none) mirrors_empty
    fun _ _ => rfl
  have keys : maps.1 = registry.foreignKeys lookup := by
    funext id
    unfold StoreRegistry.foreignKeys
    cases stored : registry.getValue lookup.localType id with
    | some item =>
      obtain ⟨-, rfl⟩ := StoreRegistry.getValue_keyed stored
      exact filed item (StoreRegistry.snapshot_of_getValue stored)
    | none =>
      refine absent id fun member => ?_
      obtain ⟨item, listed, rfl⟩ := List.mem_map.mp member
      obtain ⟨sameType, found⟩ := StoreRegistry.mem_snapshot.mp listed
      rw [StoreRegistry.canonicalItem, sameType, stored] at found
      cases found
  refine ⟨?_, maps.2, by simp, keys ▸ mirrors⟩
  simp [keys]

theorem filed_remove (filed : indexes.Filed lookup parents) (child : String) :
    (indexes.removeBelongsToChild lookup child).Filed lookup (Function.update parents child none) := by
  obtain ⟨loaded, children, listed, mirrors⟩ := filed
  unfold removeBelongsToChild
  rw [loaded]
  dsimp only
  cases named : parents child with
  | none =>
    have same : Function.update parents child none = parents := by
      rw [← named]
      exact Function.update_eq_self _ _
    rw [same]
    exact ⟨loaded, children, listed, mirrors⟩
  | some parent =>
    obtain ⟨ids, list⟩ := mirrors.list_of_named named
    dsimp only
    rw [listed]
    dsimp only
    rw [list]
    exact ⟨Function.update_self _ _ _, _, Function.update_self _ _ _, mirrors.unfile named list⟩

theorem filed_index (filed : indexes.Filed lookup parents) (item : Item) :
    (indexes.indexBelongsToChild lookup item).Filed lookup
      (Function.update parents item.id (lookup.extractFk item)) := by
  have removed := filed_remove filed item.id
  unfold indexBelongsToChild
  cases named : lookup.extractFk item with
  | none => exact removed
  | some parent =>
    obtain ⟨loaded, children, listed, mirrors⟩ := removed
    dsimp only
    rw [loaded, listed]
    have again : Function.update parents item.id (some parent) =
        Function.update (Function.update parents item.id none) item.id (some parent) := by simp
    rw [again]
    exact ⟨Function.update_self _ _ _, _, Function.update_self _ _ _,
      mirrors.file (Function.update_self _ _ _) parent⟩

theorem remove_unloaded (unloaded : indexes.parentByChild lookup.id = none) (child : String) :
    indexes.removeBelongsToChild lookup child = indexes := by
  unfold removeBelongsToChild
  rw [unloaded]

/-! ### The steps of other lookups -/

/-- Nothing changed for a lookup. -/
structure SameFor (lookup : BelongsToLookup) (before after : RelationIndexes) : Prop where
  parentByChild : after.parentByChild lookup.id = before.parentByChild lookup.id
  childrenByParent : after.childrenByParent lookup.id = before.childrenByParent lookup.id

theorem SameFor.trans {before mid after : RelationIndexes} (h : SameFor lookup before mid)
    (h' : SameFor lookup mid after) : SameFor lookup before after :=
  ⟨h'.parentByChild.trans h.parentByChild, h'.childrenByParent.trans h.childrenByParent⟩

theorem load_other (indexes : RelationIndexes) (registry : StoreRegistry) (apart : other.id ≠ lookup.id) :
    SameFor lookup indexes (indexes.load registry other) :=
  ⟨Function.update_of_ne (Ne.symm apart) _ _, Function.update_of_ne (Ne.symm apart) _ _⟩

theorem remove_other (indexes : RelationIndexes) (apart : other.id ≠ lookup.id) (child : String) :
    SameFor lookup indexes (indexes.removeBelongsToChild other child) := by
  unfold removeBelongsToChild
  split
  · exact ⟨rfl, rfl⟩
  · split
    · exact ⟨rfl, rfl⟩
    · dsimp only
      split
      · exact ⟨Function.update_of_ne (Ne.symm apart) _ _, rfl⟩
      · split
        · exact ⟨Function.update_of_ne (Ne.symm apart) _ _, rfl⟩
        · exact ⟨Function.update_of_ne (Ne.symm apart) _ _, Function.update_of_ne (Ne.symm apart) _ _⟩

theorem index_other (indexes : RelationIndexes) (apart : other.id ≠ lookup.id) (item : Item) :
    SameFor lookup indexes (indexes.indexBelongsToChild other item) := by
  have removed := remove_other indexes apart item.id
  unfold indexBelongsToChild
  dsimp only
  split
  · exact removed
  · exact removed.trans ⟨Function.update_of_ne (Ne.symm apart) _ _, Function.update_of_ne (Ne.symm apart) _ _⟩

/-! ### Relationship work -/

/-- What relationship work makes of the index of a lookup: a child is filed as the stores have it, or,
unless it has been heard of, as it was before. -/
structure Brings (registry : StoreRegistry) (lookup : BelongsToLookup) (heard : Set String)
    (before after : RelationIndexes) : Prop where
  sound : before.Sound lookup → after.Sound lookup
  entries : before.Sound lookup → ∀ parents, after.parentByChild lookup.id = some parents → ∀ id,
    parents id = registry.foreignKeys lookup id ∨ id ∉ heard ∧
      ∃ earlier, before.parentByChild lookup.id = some earlier ∧ parents id = earlier id

variable {registry : StoreRegistry} {heard later : Set String} {before mid after : RelationIndexes}

theorem SameFor.brings (same : SameFor lookup before after) : Brings registry lookup ∅ before after where
  sound sound parents loaded := by
    rw [same.parentByChild] at loaded
    obtain ⟨-, children, listed, mirrors⟩ := sound parents loaded
    exact ⟨same.parentByChild.trans loaded, children, same.childrenByParent.trans listed, mirrors⟩
  entries _ parents loaded id :=
    .inr ⟨Set.notMem_empty id, parents, same.parentByChild ▸ loaded, rfl⟩

theorem Brings.trans (first : Brings registry lookup heard before mid)
    (second : Brings registry lookup later mid after) :
    Brings registry lookup (heard ∪ later) before after where
  sound sound := second.sound (first.sound sound)
  entries sound parents loaded id := by
    rcases second.entries (first.sound sound) parents loaded id with filed | ⟨unheard, earlier, loaded', same⟩
    · exact .inl filed
    · rcases first.entries sound earlier loaded' id with filed | ⟨unheard', start, loaded'', same'⟩
      · exact .inl (same.trans filed)
      · exact .inr ⟨fun member => member.elim unheard' unheard, start, loaded'', same.trans same'⟩

theorem Brings.mono (brings : Brings registry lookup later before after) (fewer : heard ⊆ later) :
    Brings registry lookup heard before after where
  sound := brings.sound
  entries sound parents loaded id := (brings.entries sound parents loaded id).imp_right
    fun ⟨unheard, rest⟩ => ⟨fun member => unheard (fewer member), rest⟩

/-- A loaded index that files every child as the stores have it. -/
theorem Filed.brings (filed : after.Filed lookup parents) (heard : Set String)
    (entries : ∀ id, parents id = registry.foreignKeys lookup id ∨ id ∉ heard ∧
      ∃ earlier, before.parentByChild lookup.id = some earlier ∧ parents id = earlier id) :
    Brings registry lookup heard before after where
  sound _ := filed.sound
  entries _ parents' loaded id := by
    obtain rfl : parents = parents' := Option.some.inj (filed.parentByChild.symm.trans loaded)
    exact entries id

/-- Children filed one after the other end up where the last item of each puts them. -/
theorem get_filedAll (extractFk : Item → Option String) (parents : String → Option String)
    (items : List Item) (id : String) :
    (items.foldl (fun parents item => Function.update parents item.id (extractFk item)) parents) id =
      ((items.filter fun item => item.id = id).getLast?).elim (parents id) extractFk := by
  induction items using List.reverseRecOn with
  | nil => rfl
  | append_singleton items item ih =>
    rw [List.foldl_append, List.filter_append]
    by_cases here : item.id = id
    · subst here
      simp
    · simpa [here, Function.update_of_ne (Ne.symm here)] using ih

theorem filed_indexAll (filed : indexes.Filed lookup parents) (items : List Item) :
    (items.foldl (fun indexes item => indexes.indexBelongsToChild lookup item) indexes).Filed lookup
      (items.foldl (fun parents item => Function.update parents item.id (lookup.extractFk item)) parents) := by
  induction items generalizing indexes parents with
  | nil => exact filed
  | cons item rest ih => exact ih (filed_index filed item)

/-- Of each id the last item is the stored one. -/
def Stored (registry : StoreRegistry) (items : List Item) : Prop :=
  ∀ id item, (items.filter fun item => item.id = id).getLast? = some item →
    registry.canonicalItem item = some item

/-- Indexing a batch of children that reached the stores files them as the stores have them. -/
theorem brings_index (loaded : indexes.parentByChild lookup.id ≠ none) {items : List Item}
    (typed : ∀ item ∈ items, item.entityType = lookup.localType) (stored : Stored registry items) :
    Brings registry lookup {id | id ∈ items.map Item.id} indexes
      (items.foldl (fun indexes item => indexes.indexBelongsToChild lookup item) indexes) := by
  obtain ⟨parents, loaded⟩ := Option.ne_none_iff_exists'.mp loaded
  refine ⟨fun sound => (filed_indexAll (sound parents loaded) items).sound, fun sound parents' filed id => ?_⟩
  have indexed := (filed_indexAll (sound parents loaded) items).parentByChild
  obtain rfl := Option.some.inj (indexed.symm.trans filed)
  rw [get_filedAll]
  cases last : (items.filter fun item => item.id = id).getLast? with
  | none =>
    refine .inr ⟨fun listed => ?_, parents, loaded, rfl⟩
    obtain ⟨item, member, rfl⟩ := List.mem_map.mp listed
    have kept := List.filter_eq_nil_iff.mp (List.getLast?_eq_none_iff.mp last) item member
    simp at kept
  | some item =>
    obtain ⟨member, here⟩ := List.mem_filter.mp (List.mem_of_getLast? last)
    have found := stored id item last
    rw [StoreRegistry.canonicalItem, typed item member, of_decide_eq_true here] at found
    simp [StoreRegistry.foreignKeys, found]

theorem brings_ensure (indexes : RelationIndexes) (registry : StoreRegistry)
    (own : other.id = lookup.id → other = lookup) :
    Brings registry lookup ∅ indexes (indexes.ensureBelongsToIndexLoaded registry other) := by
  unfold ensureBelongsToIndexLoaded
  split
  · exact SameFor.brings ⟨rfl, rfl⟩
  · by_cases here : other.id = lookup.id
    · obtain rfl := own here
      exact (filed_load indexes registry other).brings ∅ fun id => .inl rfl
    · exact (load_other indexes registry here).brings

theorem ensure_loaded (indexes : RelationIndexes) (registry : StoreRegistry) (lookup : BelongsToLookup) :
    (indexes.ensureBelongsToIndexLoaded registry lookup).parentByChild lookup.id ≠ none := by
  unfold ensureBelongsToIndexLoaded
  split
  · rename_i loaded
    exact Option.isSome_iff_ne_none.mp loaded
  · rw [(filed_load indexes registry lookup).parentByChild]
    exact Option.some_ne_none _

/-- Forgetting a child that has left the stores. -/
theorem brings_remove {child : String} (gone : registry.getValue lookup.localType child = none) :
    Brings registry lookup {child} indexes (indexes.removeBelongsToChild lookup child) := by
  cases loaded : indexes.parentByChild lookup.id with
  | none =>
    rw [remove_unloaded loaded]
    refine ⟨id, fun _ parents filed => ?_⟩
    rw [loaded] at filed
    cases filed
  | some parents =>
    refine ⟨fun sound => (filed_remove (sound parents loaded) child).sound, fun sound parents' filed id => ?_⟩
    have removed := (filed_remove (sound parents loaded) child).parentByChild
    obtain rfl := Option.some.inj (removed.symm.trans filed)
    by_cases here : id = child
    · subst here
      left
      simp [StoreRegistry.foreignKeys, gone]
    · exact .inr ⟨here, parents, loaded, Function.update_of_ne here _ _⟩

theorem index_others (indexes : RelationIndexes) (apart : other.id ≠ lookup.id) (items : List Item) :
    SameFor lookup indexes
      (items.foldl (fun indexes item => indexes.indexBelongsToChild other item) indexes) := by
  induction items generalizing indexes with
  | nil => exact ⟨rfl, rfl⟩
  | cons item rest ih => exact (index_other indexes apart item).trans (ih _)

end RelationIndexes

/-! ### The relationship manager at work -/

open RelationIndexes

variable {ctx : MykoServerContext} {registry : StoreRegistry} {lookup : BelongsToLookup}
  {heard later : Set String} {s t u : ServerState}

/-- Relationship work, done while the stores stay as they are. -/
def Tells (registry : StoreRegistry) (lookup : BelongsToLookup) (heard : Set String)
    (s t : ServerState) : Prop :=
  s.registry = registry → t.registry = registry ∧ Brings registry lookup heard s.relations t.relations

theorem tells_of_same (stores : t.registry = s.registry)
    (same : SameFor lookup s.relations t.relations) : Tells registry lookup ∅ s t :=
  fun start => ⟨stores.trans start, same.brings⟩

theorem Tells.trans (first : Tells registry lookup heard s t) (second : Tells registry lookup later t u) :
    Tells registry lookup (heard ∪ later) s u := fun start => by
  obtain ⟨mid, brings⟩ := first start
  obtain ⟨stop, brings'⟩ := second mid
  exact ⟨stop, brings.trans brings'⟩

theorem Tells.mono (tells : Tells registry lookup later s t) (fewer : heard ⊆ later) :
    Tells registry lookup heard s t := fun start =>
  ⟨(tells start).1, (tells start).2.mono fewer⟩

theorem tells_frame : Frame (Tells registry lookup ∅) (Tells registry lookup ∅) :=
  Frame.always (fun _ => tells_of_same rfl ⟨rfl, rfl⟩) fun first second =>
    (first.trans second).mono (Set.empty_subset _)

theorem tells_submitDerived (ctx : MykoServerContext) {items : List Item} {change : MEventType}
    {origin : Origin} (_ : Derivable items change origin) :
    Moves (Tells registry lookup ∅) (Tells registry lookup ∅) (submitDerived ctx items change origin) := by
  have queues := moves_submitDerived ctx items change origin
  have tells : ∀ {s t : ServerState}, Queues s t → Tells registry lookup ∅ s t := fun kept =>
    tells_of_same kept.registry ⟨by rw [kept.relations], by rw [kept.relations]⟩
  exact Moves.intro (fun _ _ _ run => tells (queues.ok run)) fun _ _ _ run => tells (queues.error run)

theorem tells_after {α β : Type} {m : ServerM α} {rest : α → ServerM β}
    (first : Moves (Tells registry lookup ∅) (Tells registry lookup ∅) m)
    (later : ∀ a, Moves (Tells registry lookup heard) (Tells registry lookup ∅) (rest a)) :
    Moves (Tells registry lookup heard) (Tells registry lookup ∅) (m >>= rest) := by
  refine Moves.seq first later id (fun first rest => ?_)
    fun first rest => (first.trans rest).mono (Set.empty_subset _)
  exact (first.trans rest).mono Set.subset_union_right

theorem tells_before {α β : Type} {m : ServerM α} {rest : α → ServerM β}
    (first : Moves (Tells registry lookup heard) (Tells registry lookup ∅) m)
    (later : ∀ a, Moves (Tells registry lookup ∅) (Tells registry lookup ∅) (rest a)) :
    Moves (Tells registry lookup heard) (Tells registry lookup ∅) (m >>= rest) := by
  refine Moves.seq first later id (fun first rest => ?_)
    fun first rest => (first.trans rest).mono (Set.empty_subset _)
  exact (first.trans rest).mono Set.subset_union_left

theorem tells_reserves (kept : Reserves s t) : Tells registry lookup ∅ s t :=
  tells_of_same kept.registry ⟨congrFun kept.parentByChild _, congrFun kept.childrenByParent _⟩

/-- What is heard of in the steps of a list, each of which tells of its own. -/
theorem tells_each {α : Type} {f : α → ServerM Unit} {items : List α} {heard : α → Set String}
    (step : ∀ a ∈ items, Moves (Tells registry lookup (heard a)) (Tells registry lookup ∅) (f a)) :
    Moves (Tells registry lookup {id | ∃ a ∈ items, id ∈ heard a}) (Tells registry lookup ∅)
      (each f items) := by
  induction items with
  | nil => exact fun s => (tells_of_same rfl ⟨rfl, rfl⟩ : Tells registry lookup ∅ s s).mono fun _ h => by simp at h
  | cons a rest ih =>
    have others := ih fun b member => step b (List.mem_cons_of_mem _ member)
    refine Moves.seq (step a List.mem_cons_self) (fun _ => others) id (fun first second => ?_)
      fun first second => (first.trans second).mono (Set.empty_subset _)
    refine (first.trans second).mono ?_
    rintro id ⟨b, member, here⟩
    rcases List.mem_cons.mp member with rfl | member
    · exact .inl here
    · exact .inr ⟨b, member, here⟩

/-- A load tells of no child in particular. -/
theorem tells_load {other : BelongsToLookup} (own : other.id = lookup.id → other = lookup) :
    Moves (Tells registry lookup ∅) (Tells registry lookup ∅)
      (modifyRelations fun indexes registry => indexes.ensureBelongsToIndexLoaded registry other) :=
  Moves.modify fun s start => ⟨start, start ▸ brings_ensure s.relations s.registry own⟩

theorem tells_findChildren {other : BelongsToLookup} (own : other.id = lookup.id → other = lookup)
    (parent : String) :
    Moves (Tells registry lookup ∅) (Tells registry lookup ∅) (findChildrenByFk other parent) := by
  refine Moves.bind tells_frame (tells_load own) fun _ => ?_
  refine Moves.bind tells_frame (Moves.get tells_frame) fun s => ?_
  split
  · exact Moves.pure tells_frame _
  · exact Moves.pure tells_frame _

theorem modifyRelations_eq (f : RelationIndexes → StoreRegistry → RelationIndexes) (s : ServerState) :
    modifyRelations f s = .ok () { s with relations := f s.relations s.registry } := rfl

theorem each_modifyRelations (f : Item → RelationIndexes → RelationIndexes) (items : List Item)
    (s : ServerState) :
    each (fun item => modifyRelations fun indexes _ => f item indexes) items s =
      .ok () { s with relations := items.foldl (fun indexes item => f item indexes) s.relations } := by
  induction items generalizing s with
  | nil => rfl
  | cons item rest ih =>
    rw [each_cons, bind_of_ok (modifyRelations_eq _ s), ih]
    rfl

/-- Indexing a batch of children that reached the stores. -/
theorem tells_index {other : BelongsToLookup} (own : other.id = lookup.id → other = lookup)
    {items : List Item} (typed : ∀ item ∈ items, item.entityType = other.localType)
    (stored : Stored registry items) :
    Moves (Tells registry lookup {id | other = lookup ∧ id ∈ items.map Item.id}) (Tells registry lookup ∅) (do
      modifyRelations fun indexes registry => indexes.ensureBelongsToIndexLoaded registry other
      each (fun item => modifyRelations fun indexes _ => indexes.indexBelongsToChild other item) items) := by
  intro s
  rw [bind_of_ok (modifyRelations_eq _ s), each_modifyRelations fun item indexes =>
    indexes.indexBelongsToChild other item]
  dsimp only
  rintro rfl
  refine ⟨rfl, ?_⟩
  have loading := brings_ensure s.relations s.registry own
  by_cases here : other.id = lookup.id
  · obtain rfl := own here
    have indexing := brings_index (ensure_loaded s.relations s.registry other) typed stored
    exact (loading.trans indexing).mono fun id member => .inr member.2
  · have indexing := index_others (s.relations.ensureBelongsToIndexLoaded s.registry other) here items
    refine (loading.trans indexing.brings).mono ?_
    rintro id ⟨rfl, -⟩
    exact absurd rfl here

/-- Forgetting a child that has left the stores. -/
theorem tells_remove {other : BelongsToLookup} (own : other.id = lookup.id → other = lookup)
    {child : String} (gone : registry.getValue other.localType child = none) :
    Moves (Tells registry lookup {id | other = lookup ∧ id = child}) (Tells registry lookup ∅)
      (modifyRelations fun indexes _ => indexes.removeBelongsToChild other child) := by
  refine Moves.modify fun s start => ⟨start, ?_⟩
  by_cases here : other.id = lookup.id
  · obtain rfl := own here
    exact (brings_remove gone).mono fun id member => member.2
  · refine (remove_other s.relations here child).brings.mono ?_
    rintro id ⟨rfl, -⟩
    exact absurd rfl here

/-- The children of a lookup among some items. -/
def childrenOf (lookup : BelongsToLookup) (items : List Item) : Set String :=
  {id | ∃ item ∈ items, item.entityType = lookup.localType ∧ item.id = id}

section
variable (registered : lookup ∈ ctx.tables.belongsTo) {items : List Item} {entityType : String}
  (typed : ∀ item ∈ items, item.entityType = entityType)
include registered

omit typed in
theorem tells_cascade (items : List Item) :
    Moves (Tells registry lookup ∅) (Tells registry lookup ∅)
      (handleBelongsToCascadeBatch ctx (submitDerived ctx) items) := by
  unfold handleBelongsToCascadeBatch
  split
  · exact Moves.pure tells_frame _
  · refine Moves.each tells_frame fun other member => Moves.bind tells_frame ?_ fun children => ?_
    · refine Moves.foldlM tells_frame (fun found item => ?_) _ _
      refine Moves.bind tells_frame (tells_findChildren (fun same => ?_) _) fun _ => Moves.pure tells_frame _
      exact lookup_unique registered (List.mem_filter.mp member).1 same
    · exact moves_publishDelCascade tells_frame (fun _ => tells_submitDerived ctx (.cascade _)) _ _

include typed

/-- Children set are heard of once they are forwarded. -/
theorem tells_forwardSetBatch (stored : Stored registry items) :
    Moves (Tells registry lookup (childrenOf lookup items)) (Tells registry lookup ∅)
      (forwardSetBatch ctx (submitDerived ctx) items) := by
  unfold forwardSetBatch
  split
  · refine fun s => Tells.mono (tells_of_same rfl ⟨rfl, rfl⟩) ?_
    rintro id ⟨item, member, -⟩
    simp at member
  · rename_i first rest
    have ensures : Moves (Tells registry lookup ∅) (Tells registry lookup ∅)
        (handleEnsureForType ctx (submitDerived ctx) first.entityType) := by
      exact moves_handleEnsureForType tells_frame tells_reserves
        (fun failed kept => tells_frame.trans failed (tells_reserves kept)) (tells_submitDerived ctx) ctx _
    have sameType : ∀ item ∈ first :: rest, item.entityType = first.entityType := fun item member =>
      (typed item member).trans (typed first List.mem_cons_self).symm
    have indexing : ∀ other ∈ ctx.tables.belongsToByLocal first.entityType, Moves
        (Tells registry lookup {id | other = lookup ∧ id ∈ (first :: rest).map Item.id})
        (Tells registry lookup ∅) (do
          modifyRelations fun indexes registry => indexes.ensureBelongsToIndexLoaded registry other
          each (fun item => modifyRelations fun indexes _ => indexes.indexBelongsToChild other item)
            (first :: rest)) := by
      intro other member
      obtain ⟨listed, here⟩ := List.mem_filter.mp member
      refine tells_index (fun same => lookup_unique registered listed same) (fun item among => ?_) stored
      exact (sameType item among).trans (of_decide_eq_true here).symm
    refine tells_before ?_ fun _ => ensures
    refine Moves.intro (fun s _ t run => ?_) fun s _ t run => (tells_each indexing).error run
    refine ((tells_each indexing).ok run).mono ?_
    rintro id ⟨item, member, here, rfl⟩
    refine ⟨lookup, List.mem_filter.mpr ⟨registered, ?_⟩, rfl, List.mem_map_of_mem member⟩
    exact decide_eq_true (here.symm.trans (sameType item member))

omit typed in
/-- Children deleted are heard of once they are forwarded. -/
theorem tells_forwardDelBatch (gone : ∀ item ∈ items, registry.canonicalItem item = none) :
    Moves (Tells registry lookup (childrenOf lookup items)) (Tells registry lookup ∅)
      (forwardDelBatch ctx (submitDerived ctx) items) := by
  have cascades : ∀ items, Moves (Tells registry lookup ∅) (Tells registry lookup ∅)
      (submitDerived ctx items .del .cascade) := fun items => tells_submitDerived ctx (.cascade items)
  refine tells_after (tells_cascade registered items) fun _ => ?_
  refine tells_after (moves_handleOwnsManyParentDeleteBatch tells_frame cascades ctx items) fun _ => ?_
  refine tells_after (moves_handleEnsureForDeleteBatch tells_frame cascades ctx items) fun _ => ?_
  have forgets : ∀ item ∈ items, Moves
      (Tells registry lookup {id | item.entityType = lookup.localType ∧ item.id = id})
      (Tells registry lookup ∅) (do
        handleOwnsManyChildDelete ctx (submitDerived ctx) item
        each (fun lookup => modifyRelations fun indexes _ => indexes.removeBelongsToChild lookup item.id)
          (ctx.tables.belongsToByLocal item.entityType)) := by
    intro item member
    refine tells_after (moves_handleOwnsManyChildDelete tells_frame (tells_submitDerived ctx) ctx item) fun _ => ?_
    have removes : ∀ other ∈ ctx.tables.belongsToByLocal item.entityType,
        Moves (Tells registry lookup {id | other = lookup ∧ id = item.id}) (Tells registry lookup ∅)
          (modifyRelations fun indexes _ => indexes.removeBelongsToChild other item.id) := by
      intro other listed
      obtain ⟨listed, here⟩ := List.mem_filter.mp listed
      refine tells_remove (fun same => lookup_unique registered listed same) ?_
      rw [of_decide_eq_true here]
      exact gone item member
    refine Moves.intro (fun s _ t run => ?_) fun s _ t run => (tells_each removes).error run
    refine ((tells_each removes).ok run).mono ?_
    rintro id ⟨here, rfl⟩
    exact ⟨lookup, List.mem_filter.mpr ⟨registered, decide_eq_true here.symm⟩, rfl, rfl⟩
  exact tells_each forgets

theorem tells_applyEffects {change : MEventType} (origin : Origin)
    (stored : change = .set → Stored registry items)
    (gone : change = .del → ∀ item ∈ items, registry.canonicalItem item = none) :
    Moves (Tells registry lookup {id | origin.shouldCascade = true ∧ id ∈ childrenOf lookup items})
      (Tells registry lookup ∅) (applyEffects ctx (submitDerived ctx) items change origin) := by
  refine tells_after (Moves.each tells_frame fun item _ => moves_indexSearch tells_reserves change item)
    fun _ => ?_
  have produce : Moves (Tells registry lookup ∅) (Tells registry lookup ∅) (if origin.shouldProduce then
      modify fun s => { s with sink := s.sink ++ items.map (Change.mk change) } else pure () :
      ServerM Unit) :=
    Moves.ite (fun _ => Moves.modify fun _ => tells_of_same rfl ⟨rfl, rfl⟩)
      fun _ => Moves.pure tells_frame _
  by_cases cascades : origin.shouldCascade = true
  · simp only [cascades, ↓reduceIte, true_and, Set.ofPred_mem_eq]
    cases change with
    | set => exact tells_before (tells_forwardSetBatch registered typed (stored rfl)) fun _ => produce
    | del => exact tells_before (tells_forwardDelBatch registered (gone rfl)) fun _ => produce
  · simp only [cascades, Bool.false_eq_true, ↓reduceIte, false_and, Set.ofPred_false]
    exact produce

end

/-! ### A whole mutation -/

/-- The children of a lookup that a mutation writes. -/
def writtenChildren (lookup : BelongsToLookup) (s : ServerState) (pending : PendingMutation) :
    Set String :=
  {id | ∃ change ∈ changesOf s pending, change.key = (lookup.localType, id)}

/-- An entity that is written holds what one of its writes left. -/
theorem canonicalItem_writeAll (registry : StoreRegistry) {changes : List Change} {change : Change}
    (member : change ∈ changes) : ∃ last ∈ changes, last.key = change.key ∧
      (registry.writeAll changes).canonicalItem change.item = last.value := by
  unfold StoreRegistry.canonicalItem
  rw [StoreRegistry.getValue_writeAll]
  cases last : (changes.filter fun other =>
      other.key = (change.item.entityType, change.item.id)).getLast? with
  | some found =>
    obtain ⟨listed, here⟩ := List.mem_filter.mp (List.mem_of_getLast? last)
    exact ⟨found, listed, of_decide_eq_true here, rfl⟩
  | none =>
    have kept := List.filter_eq_nil_iff.mp (List.getLast?_eq_none_iff.mp last) change member
    simp [Change.key] at kept

/-- Writing items type by type, the last item of each id stands. -/
theorem stored_group (registry : StoreRegistry) (items : List Item) (entityType : String) :
    Stored (registry.writeAll ((groupByType items).flatten.map (Change.mk .set))) (ofType entityType items) := by
  intro id item last
  let p : Item → Bool := fun other => decide ((other.entityType, other.id) = (entityType, id))
  have same : (ofType entityType items).filter (fun item => item.id = id) = items.filter p := by
    rw [ofType, List.filter_filter]
    refine List.filter_congr fun other _ => ?_
    simp [p, Bool.and_comm]
  rw [same] at last
  have here : (item.entityType, item.id) = (entityType, id) :=
    of_decide_eq_true (List.mem_filter.mp (List.mem_of_getLast? last)).2
  obtain ⟨rfl, rfl⟩ := Prod.mk.inj here
  have grouped : (groupByType items).flatten.filter p = items.filter p :=
    filter_groupByType items p fun other _ here => congrArg Prod.fst (of_decide_eq_true here)
  unfold StoreRegistry.canonicalItem
  rw [StoreRegistry.getValue_writeAll, List.filter_map]
  have written : (groupByType items).flatten.filter
      ((fun change : Change => decide (change.key = (item.entityType, item.id))) ∘ Change.mk .set) =
      (groupByType items).flatten.filter p := rfl
  rw [written, grouped, List.getLast?_map, last]
  rfl

theorem getValue_unwritten {pending : PendingMutation} {id : String}
    (unwritten : id ∉ writtenChildren lookup s pending) :
    (s.registry.writeAll (changesOf s pending)).getValue lookup.localType id =
      s.registry.getValue lookup.localType id := by
  rw [StoreRegistry.getValue_writeAll]
  have none : ((changesOf s pending).filter fun change => change.key = (lookup.localType, id)) = [] := by
    rw [List.filter_eq_nil_iff]
    intro change member here
    exact unwritten ⟨change, member, of_decide_eq_true here⟩
  rw [none]
  rfl

/-- The groups whose effects follow a commit are each of one type, and the stores have them. -/
theorem effectGroups_stored {pending : PendingMutation} {cascades : List Item}
    (plan : planPending ctx s pending = .ok (some cascades)) {group : List Item × MEventType}
    (member : group ∈ effectGroups pending s) :
    (∃ entityType, ∀ item ∈ group.1, item.entityType = entityType) ∧
      (group.2 = .set → Stored (s.registry.writeAll (changesOf s pending)) group.1) ∧
      (group.2 = .del → ∀ item ∈ group.1,
        (s.registry.writeAll (changesOf s pending)).canonicalItem item = none) := by
  have typed : ∀ (entityType : String) (items : List Item), ∀ item ∈ ofType entityType items,
      item.entityType = entityType := fun entityType items item listed =>
    of_decide_eq_true (List.mem_filter.mp listed).2
  unfold effectGroups at member
  unfold changesOf
  cases kind : pending.kind with
  | uniform items change =>
    rw [kind] at member
    obtain ⟨own, listed, rfl⟩ := List.mem_map.mp member
    obtain ⟨entityType, -, rfl⟩ := List.mem_map.mp listed
    refine ⟨⟨entityType, typed entityType items⟩, ?_, ?_⟩
    · rintro rfl
      exact stored_group s.registry items entityType
    · rintro rfl item among
      have written : Change.mk .del item ∈ (groupByType items).flatten.map (Change.mk .del) :=
        List.mem_map_of_mem ((groupByType_perm items).mem_iff.mpr (List.mem_filter.mp among).1)
      obtain ⟨last, listed, -, value⟩ := canonicalItem_writeAll s.registry written
      obtain ⟨other, -, rfl⟩ := List.mem_map.mp listed
      exact value
  | replace upserts deletes expected =>
    have distinct := replace_nodup kind plan
    have nodup : (((effectiveDeletes s deletes).map (Change.mk .del) ++
        upserts.map (Change.mk .set)).map Change.key).Nodup := by
      have keys : ((effectiveDeletes s deletes).map (Change.mk .del) ++
          upserts.map (Change.mk .set)).map Change.key =
          (effectiveDeletes s deletes ++ upserts).map fun item => (item.entityType, item.id) := by
        simp [Change.key, Function.comp_def]
      rw [keys]
      exact distinct.sublist ((List.filter_sublist.append_right upserts).map _)
    have stands : ∀ {change : Change}, change ∈ (effectiveDeletes s deletes).map (Change.mk .del) ++
        upserts.map (Change.mk .set) → (s.registry.writeAll ((effectiveDeletes s deletes).map
          (Change.mk .del) ++ upserts.map (Change.mk .set))).canonicalItem change.item = change.value := by
      intro change listed
      obtain ⟨last, listed', same, value⟩ := canonicalItem_writeAll s.registry listed
      rw [value, List.inj_on_of_nodup_map nodup listed' listed same]
    rw [kind] at member
    obtain ⟨entityType, -, member⟩ := List.mem_flatMap.mp member
    rcases List.mem_pair.mp member with rfl | rfl
    · refine ⟨⟨entityType, typed entityType _⟩, fun isSet => (by cases isSet), fun _ item among => ?_⟩
      exact stands (List.mem_append_left _ (List.mem_map_of_mem (List.mem_filter.mp among).1))
    · refine ⟨⟨entityType, typed entityType _⟩, fun _ id item last => ?_, fun isDel => (by cases isDel)⟩
      have among := (List.mem_filter.mp (List.mem_of_getLast? last)).1
      exact stands (List.mem_append_right _ (List.mem_map_of_mem (List.mem_filter.mp among).1))

/-- What a mutation writes of the children of a lookup is in the groups whose effects follow. -/
theorem childrenOf_groups {pending : PendingMutation} {id : String}
    (written : id ∈ writtenChildren lookup s pending) :
    ∃ group ∈ effectGroups pending s, id ∈ childrenOf lookup group.1 := by
  obtain ⟨change, member, here⟩ := written
  obtain ⟨sameType, rfl⟩ := Prod.mk.inj here
  unfold effectGroups
  rcases mem_changesOf member with ⟨items, kind, listed⟩ | ⟨upserts, deletes, expected, kind, listed⟩
  · rw [kind]
    refine ⟨_, List.mem_map_of_mem (List.mem_map_of_mem (mem_entityTypes.mpr ⟨_, listed, rfl⟩)), ?_⟩
    exact ⟨change.item, List.mem_filter.mpr ⟨listed, by simp⟩, sameType, rfl⟩
  · rw [kind]
    rcases listed with ⟨-, listed⟩ | ⟨-, listed⟩
    · refine ⟨_, List.mem_flatMap.mpr ⟨change.item.entityType, mem_entityTypes.mpr
        ⟨_, List.mem_append_left _ listed, rfl⟩, List.mem_cons_self⟩, ?_⟩
      exact ⟨change.item, List.mem_filter.mpr ⟨listed, by simp⟩, sameType, rfl⟩
    · refine ⟨_, List.mem_flatMap.mpr ⟨change.item.entityType, mem_entityTypes.mpr
        ⟨_, List.mem_append_right _ listed, rfl⟩, List.mem_cons_of_mem _ List.mem_cons_self⟩, ?_⟩
      exact ⟨change.item, List.mem_filter.mpr ⟨listed, by simp⟩, sameType, rfl⟩

/-- The effects of a committed mutation. -/
theorem tells_effects (registered : lookup ∈ ctx.tables.belongsTo) {pending : PendingMutation}
    {cascades : List Item} (plan : planPending ctx s pending = .ok (some cascades)) :
    Moves (Tells (s.registry.writeAll (changesOf s pending)) lookup
        {id | pending.origin.shouldCascade = true ∧ id ∈ writtenChildren lookup s pending})
      (Tells (s.registry.writeAll (changesOf s pending)) lookup ∅)
      (effectsPending ctx (submitDerived ctx) pending s cascades) := by
  unfold effectsPending
  split
  · rename_i none
    refine fun s' => Tells.mono (tells_of_same rfl ⟨rfl, rfl⟩) ?_
    rintro id ⟨-, change, member, -⟩
    unfold PendingMutation.items at none
    rcases mem_changesOf member with ⟨items, kind, listed⟩ | ⟨upserts, deletes, expected, kind, listed⟩
    · rw [kind, List.isEmpty_iff] at none
      simp [none] at listed
    · rw [kind, List.isEmpty_iff, List.append_eq_nil_iff] at none
      simp [none, effectiveDeletes] at listed
  · have groups : ∀ group ∈ effectGroups pending s, Moves
        (Tells (s.registry.writeAll (changesOf s pending)) lookup
          {id | pending.origin.shouldCascade = true ∧ id ∈ childrenOf lookup group.1})
        (Tells (s.registry.writeAll (changesOf s pending)) lookup ∅)
        (applyEffects ctx (submitDerived ctx) group.1 group.2 pending.origin) := by
      intro group member
      obtain ⟨⟨entityType, typed⟩, stored, gone⟩ := effectGroups_stored plan member
      exact tells_applyEffects registered typed pending.origin stored gone
    refine tells_before ?_ fun _ => tells_submitDerived ctx (.cascade _)
    refine Moves.intro (fun s' _ t run => ?_) fun s' _ t run => (tells_each groups).error run
    refine ((tells_each groups).ok run).mono ?_
    rintro id ⟨cascading, written⟩
    obtain ⟨group, member, among⟩ := childrenOf_groups written
    exact ⟨group, member, cascading, among⟩

/-- A mutation that is not planned leaves the stores and the index. One that is planned writes, and the
index is told of the children that were there before, or, when the mutation cascades and goes through,
of all. -/
theorem reduced_index (registered : lookup ∈ ctx.tables.belongsTo) (pending : PendingMutation)
    (s : ServerState) :
    let t := final (reducePending ctx (submitDerived ctx) pending) s
    ((∀ cascades, planPending ctx s pending ≠ .ok (some cascades)) ∧ t.registry = s.registry ∧
      SameFor lookup s.relations t.relations) ∨
    ((∃ cascades, planPending ctx s pending = .ok (some cascades)) ∧
      t.registry = s.registry.writeAll (changesOf s pending) ∧
      Brings t.registry lookup ∅ s.relations t.relations ∧
      (pending.origin.shouldCascade = true → Reduces ctx s pending →
        Brings t.registry lookup (writtenChildren lookup s pending) s.relations t.relations)) := by
  intro t
  rcases commitPending_final ctx pending s with ⟨unchanged, unplanned⟩ | ⟨cascades, plan, applied⟩
  · refine .inl ⟨unplanned, ?_⟩
    have same : t = s := by
      cases commit : commitPending ctx pending s with
      | error error u => exact (final_reducePending_error commit).trans ((final_of_error commit).symm.trans unchanged)
      | ok result u =>
        obtain ⟨planned, -⟩ := commitPending_ok commit
        cases result with
        | some cascades => exact absurd planned (unplanned cascades)
        | none => exact (final_reducePending_ok commit).trans ((final_of_ok commit).symm.trans unchanged)
    rw [same]
    exact ⟨rfl, rfl, rfl⟩
  · right
    have unindexed : ∀ {u : ServerState}, u = final (commitPending ctx pending) s →
        SameFor lookup s.relations u.relations := by
      rintro u rfl
      exact ⟨congrFun applied.parentByChild _, congrFun applied.childrenByParent _⟩
    cases commit : commitPending ctx pending s with
    | error error u =>
      have left : t = u := final_reducePending_error commit
      rw [final_of_error commit] at applied unindexed
      rw [left]
      refine ⟨⟨cascades, plan⟩, applied.registry, (unindexed rfl).brings, fun _ reduces => ?_⟩
      obtain ⟨ok, v, run⟩ := reduces
      rcases reducePending_ok run with ⟨commit', -⟩ | ⟨_, _, commit', -⟩ <;>
        rw [commit] at commit' <;> cases commit'
    | ok result u =>
      obtain ⟨planned, -⟩ := commitPending_ok commit
      obtain rfl : result = some cascades := Except.ok.inj (planned.symm.trans plan)
      rw [final_of_ok commit] at applied unindexed
      have left : t = final (effectsPending ctx (submitDerived ctx) pending s cascades) u :=
        final_reducePending_ok commit
      have effects := tells_effects registered plan
      have before : Brings (s.registry.writeAll (changesOf s pending)) lookup ∅ s.relations u.relations :=
        (unindexed rfl).brings
      cases run : effectsPending ctx (submitDerived ctx) pending s cascades u with
      | error error v =>
        rw [final_of_error run] at left
        obtain ⟨stores, brings⟩ := effects.error run applied.registry
        rw [left, stores]
        refine ⟨⟨cascades, plan⟩, rfl, (before.trans brings).mono (Set.empty_subset _), fun _ reduces => ?_⟩
        obtain ⟨ok, w, whole⟩ := reduces
        rcases reducePending_ok whole with ⟨commit', -⟩ | ⟨_, _, commit', effects', -⟩
        · rw [commit] at commit'
          cases commit'
        · rw [commit] at commit'
          cases commit'
          rw [run] at effects'
          cases effects'
      | ok _ v =>
        rw [final_of_ok run] at left
        obtain ⟨stores, brings⟩ := effects.ok run applied.registry
        rw [left, stores]
        refine ⟨⟨cascades, plan⟩, rfl, (before.trans brings).mono (Set.empty_subset _), fun cascading _ => ?_⟩
        exact (before.trans brings).mono fun id written => .inr ⟨cascading, written⟩

end Myko

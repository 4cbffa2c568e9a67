import Myko.Lib.BreadthFirst
import Myko.Relation.Tables
import Myko.Wire.Event

/-!
Export of the tree below an entity: a breadth-first walk along the relations that are not excluded from
trees. Children that name their parent are indexed for each relation when its first parent is reached.
-/

namespace Myko.ExportTree

/-- A relation as it is registered, with its mark for trees. -/
structure RelationRegistration where
  relation : Relation
  excludeFromTree : Bool

inductive ChildKind where
  | belongsTo (key : ForeignKey)
  | ownsMany (lookup : OwnsManyLookup)
  | ensureFor (key : ForeignKey)

/-- How to find the children of one type below a parent. -/
structure ChildRelation where
  childType : String
  kind : ChildKind

/-! ### The adjacency map -/

/-- The child relations of each parent type. -/
abbrev Adjacency : Type := String → List ChildRelation

def Adjacency.push (map : Adjacency) (parentType : String) (child : ChildRelation) : Adjacency :=
  Function.update map parentType (map parentType ++ [child])

def Adjacency.register (map : Adjacency) (registration : RelationRegistration) : Adjacency :=
  if registration.excludeFromTree then map
  else
    match registration.relation with
    | .belongsTo key => map.push key.foreignType ⟨key.localType, .belongsTo key⟩
    | .ownsMany lookup => map.push lookup.localType ⟨lookup.foreignType, .ownsMany lookup⟩
    -- One axis for each dependency, not their combinations.
    | .ensureFor lookup => lookup.keys.foldl
        (fun map key => map.push key.foreignType ⟨lookup.localType, .ensureFor key⟩) map

def buildAdjacencyMap (registrations : List RelationRegistration) : Adjacency :=
  registrations.foldl Adjacency.register fun _ => []

/-! ### The walk -/

/-- The items of each store in the order in which a scan of it meets them. -/
structure StoreScan (registry : StoreRegistry) where
  snapshot : String → List Item
  complete : ∀ entityType, (snapshot entityType).Perm (registry.snapshot entityType)

structure ExportedEntity where
  entityType : String
  data : Value

/-- The ids of the children of each parent. -/
abbrev ChildIndex : Type := String → List String

def ChildIndex.add (key : ForeignKey) (index : ChildIndex) (item : Item) : ChildIndex :=
  match key.extractFk item with
  | some parent => Function.update index parent (index parent ++ [item.id])
  | none => index

structure TreeWalk extends BreadthFirst (String × String) where
  result : List ExportedEntity
  childIndices : String × Nat → Option ChildIndex

variable {registry : StoreRegistry}

def childIndex (scan : StoreScan registry) (childType : String) (key : ForeignKey) : ChildIndex :=
  (scan.snapshot childType).foldl (ChildIndex.add key) fun _ => []

namespace TreeWalk

def start (rootType rootId : String) : TreeWalk where
  toBreadthFirst := .start (rootType, rootId)
  result := []
  childIndices _ := none

def enqueue (childType : String) (walk : TreeWalk) (childId : String) : TreeWalk :=
  { walk with toBreadthFirst := walk.toBreadthFirst.enqueue (childType, childId) }

/-- Enqueue the children that name the entity in a key, by an index that is kept for the relation. -/
def followKey (scan : StoreScan registry) (node : String × String) (relationIndex : Nat) (childType : String)
    (key : ForeignKey) (walk : TreeWalk) : TreeWalk :=
  let byParent := (walk.childIndices (node.1, relationIndex)).getD (childIndex scan childType key)
  let walk := { walk with
    childIndices := Function.update walk.childIndices (node.1, relationIndex) (some byParent) }
  (byParent node.2).foldl (enqueue childType) walk

def follow (scan : StoreScan registry) (node : String × String) (entity : Item) (walk : TreeWalk)
    (child : ChildRelation × Nat) : TreeWalk :=
  match child.1.kind with
  | .belongsTo key => walk.followKey scan node child.2 child.1.childType key
  | .ensureFor key => walk.followKey scan node child.2 child.1.childType key
  | .ownsMany lookup =>
    match lookup.extractIds entity with
    | some ids => ids.foldl (enqueue child.1.childType) walk
    | none => walk

/-- Take the first node of the queue: export its entity and enqueue its children, if it is stored. -/
def pop (scan : StoreScan registry) (toValue : Item → Value) (adjacency : Adjacency) (walk : TreeWalk)
    (node : String × String) : TreeWalk :=
  let walk := { walk with queue := walk.queue.tail }
  match registry.getValue node.1 node.2 with
  | none => walk
  | some entity =>
    let walk := { walk with result := walk.result ++ [⟨node.1, toValue entity⟩] }
    (adjacency node.1).zipIdx.foldl (follow scan node entity) walk

/-- The loop over the queue; nothing when the steps run out. -/
def loop (scan : StoreScan registry) (toValue : Item → Value) (adjacency : Adjacency) (steps : Nat)
    (walk : TreeWalk) : Option (List ExportedEntity) :=
  match walk.queue with
  | [] => some walk.result
  | node :: _ =>
    match steps with
    | 0 => none
    | steps + 1 => loop scan toValue adjacency steps (walk.pop scan toValue adjacency node)

end TreeWalk

def walkTree (scan : StoreScan registry) (toValue : Item → Value) (adjacency : Adjacency)
    (rootType rootId : String) (steps : Nat) : Option (List ExportedEntity) :=
  (TreeWalk.start rootType rootId).loop scan toValue adjacency steps

/-! ### Children -/

/-- The stored item at `y` names the one at `x` in a key of its type. -/
def Names (registry : StoreRegistry) (key : ForeignKey) (x y : String × String) : Prop :=
  x.1 = key.foreignType ∧ y.1 = key.localType ∧
    ∃ child, registry.getValue y.1 y.2 = some child ∧ key.extractFk child = some x.2

/-- A relation leads from the stored item at `x` to the id at `y`. -/
def Leads (registry : StoreRegistry) (relation : Relation) (x y : String × String) : Prop :=
  match relation with
  | .belongsTo key => Names registry key x y
  | .ownsMany lookup => x.1 = lookup.localType ∧ y.1 = lookup.foreignType ∧
      ∃ parent, registry.getValue x.1 x.2 = some parent ∧
        ∃ ids, lookup.extractIds parent = some ids ∧ y.2 ∈ ids
  | .ensureFor lookup => ∃ key ∈ lookup.keys, Names registry key x y

/-- A step down the tree, along a relation that is not excluded from it. -/
def TreeEdge (registry : StoreRegistry) (registrations : List RelationRegistration) (x y : String × String) :
    Prop :=
  (registry.getValue x.1 x.2).isSome = true ∧ ∃ registration ∈ registrations,
    registration.excludeFromTree = false ∧ Leads registry registration.relation x y

def itemKey (item : Item) : String × String := (item.entityType, item.id)

/-- The stored items that can be reached from the root, each once, none before one that is nearer. -/
structure ReachableOnce (registry : StoreRegistry) (registrations : List RelationRegistration)
    (root : String × String) (items : List Item) : Prop where
  once : (items.map itemKey).Nodup
  reached : ∀ item, item ∈ items ↔ registry.canonicalItem item = some item ∧
    ∃ n, Steps (TreeEdge registry registrations) root n (itemKey item)
  sorted : items.Pairwise fun x y =>
    BreadthFirst.NoFurther (TreeEdge registry registrations) root (itemKey x) (itemKey y)

/-! ### The children of an entity -/

/-- The keys a child relation yields below a stored entity. -/
def childKeys (scan : StoreScan registry) (parentId : String) (entity : Item) (child : ChildRelation) :
    List (String × String) :=
  (match child.kind with
    | .belongsTo key => childIndex scan child.childType key parentId
    | .ensureFor key => childIndex scan child.childType key parentId
    | .ownsMany lookup => (lookup.extractIds entity).getD []).map (child.childType, ·)

def present (registry : StoreRegistry) (node : String × String) : Bool :=
  (registry.getValue node.1 node.2).isSome

def treeChildren (scan : StoreScan registry) (adjacency : Adjacency) (node : String × String) :
    List (String × String) :=
  match registry.getValue node.1 node.2 with
  | none => []
  | some entity => (adjacency node.1).flatMap (childKeys scan node.2 entity)

/-- A registration declares children of one kind below a parent type. -/
def Declares (registration : RelationRegistration) (parentType : String) (child : ChildRelation) : Prop :=
  registration.excludeFromTree = false ∧
    match registration.relation with
    | .belongsTo key => parentType = key.foreignType ∧ child = ⟨key.localType, .belongsTo key⟩
    | .ownsMany lookup => parentType = lookup.localType ∧ child = ⟨lookup.foreignType, .ownsMany lookup⟩
    | .ensureFor lookup => ∃ key ∈ lookup.keys,
        parentType = key.foreignType ∧ child = ⟨lookup.localType, .ensureFor key⟩

variable {map : Adjacency} {parentType : String} {child : ChildRelation}

theorem mem_push {otherType : String} {added : ChildRelation} : child ∈ map.push otherType added parentType ↔
    child ∈ map parentType ∨ parentType = otherType ∧ child = added := by
  unfold Adjacency.push
  by_cases here : parentType = otherType
  · subst here
    simp
  · simp [here]

theorem mem_foldl_push {keys : List ForeignKey} {added : ForeignKey → ChildRelation} :
    child ∈ keys.foldl (fun map key => Adjacency.push map key.foreignType (added key)) map parentType ↔
      child ∈ map parentType ∨ ∃ key ∈ keys, parentType = key.foreignType ∧ child = added key := by
  induction keys generalizing map with
  | nil => simp
  | cons key rest ih =>
    rw [List.foldl_cons, ih, mem_push]
    simp only [List.exists_mem_cons_iff, or_assoc]

theorem mem_register {registration : RelationRegistration} : child ∈ map.register registration parentType ↔
    child ∈ map parentType ∨ Declares registration parentType child := by
  obtain ⟨relation, excluded⟩ := registration
  unfold Adjacency.register Declares
  cases excluded with
  | true => simp
  | false =>
    cases relation with
    | belongsTo key => simpa using mem_push
    | ownsMany lookup => simpa using mem_push
    | ensureFor lookup => simpa using mem_foldl_push

theorem mem_buildAdjacencyMap {registrations : List RelationRegistration} :
    child ∈ buildAdjacencyMap registrations parentType ↔
      ∃ registration ∈ registrations, Declares registration parentType child := by
  have go : ∀ (registrations : List RelationRegistration) (map : Adjacency),
      child ∈ registrations.foldl Adjacency.register map parentType ↔
        child ∈ map parentType ∨ ∃ registration ∈ registrations, Declares registration parentType child := by
    intro registrations
    induction registrations with
    | nil => simp
    | cons registration rest ih =>
      intro map
      rw [List.foldl_cons, ih, mem_register]
      simp only [List.exists_mem_cons_iff, or_assoc]
  exact (go registrations _).trans (by simp)

/-- The index of a relation lists a child under the parent its key names. -/
theorem mem_childIndex {scan : StoreScan registry} {childType : String} {key : ForeignKey} {parent id : String} :
    id ∈ childIndex scan childType key parent ↔
      ∃ item, registry.getValue childType id = some item ∧ key.extractFk item = some parent := by
  have go : ∀ (items : List Item) (index : ChildIndex), id ∈ items.foldl (ChildIndex.add key) index parent ↔
      id ∈ index parent ∨ ∃ item ∈ items, item.id = id ∧ key.extractFk item = some parent := by
    intro items
    induction items with
    | nil => simp
    | cons item rest ih =>
      intro index
      rw [List.foldl_cons, ih, List.exists_mem_cons_iff, ← or_assoc]
      refine or_congr_left ?_
      unfold ChildIndex.add
      cases named : key.extractFk item with
      | none => simp
      | some other =>
        by_cases here : parent = other
        · subst here
          simp [eq_comm]
        · simp [here, Ne.symm here]
  refine (go _ _).trans ?_
  simp only [List.not_mem_nil, false_or, (scan.complete childType).mem_iff, StoreRegistry.mem_snapshot]
  constructor
  · rintro ⟨item, ⟨rfl, stored⟩, rfl, named⟩
    exact ⟨item, stored, named⟩
  · rintro ⟨item, stored, named⟩
    obtain ⟨rfl, rfl⟩ := StoreRegistry.getValue_keyed stored
    exact ⟨item, ⟨rfl, stored⟩, rfl, named⟩

theorem mem_childIndex_iff_names {scan : StoreScan registry} {key : ForeignKey} {x : String × String} {id : String}
    (parent : x.1 = key.foreignType) :
    id ∈ childIndex scan key.localType key x.2 ↔ Names registry key x (key.localType, id) := by
  rw [mem_childIndex]
  exact ⟨fun named => ⟨parent, rfl, named⟩, fun named => named.2.2⟩

variable {registrations : List RelationRegistration} {scan : StoreScan registry} {adjacency : Adjacency}
variable {x y : String × String}

/-- The children the walk finds are the nodes a step down the tree. -/
theorem onward_iff_treeEdge : BreadthFirst.Onward (present registry)
    (treeChildren scan (buildAdjacencyMap registrations)) x y ↔ TreeEdge registry registrations x y := by
  unfold BreadthFirst.Onward TreeEdge treeChildren
  refine and_congr_right fun stands => ?_
  obtain ⟨entity, stored⟩ := Option.isSome_iff_exists.mp stands
  rw [stored, List.mem_flatMap]
  constructor
  · rintro ⟨child, listed, found⟩
    obtain ⟨⟨relation, excluded⟩, registered, included, declared⟩ := mem_buildAdjacencyMap.mp listed
    refine ⟨_, registered, included, ?_⟩
    cases relation with
    | belongsTo key =>
      obtain ⟨parent, rfl⟩ := declared
      obtain ⟨id, named, rfl⟩ := List.mem_map.mp found
      exact (mem_childIndex_iff_names parent).mp named
    | ownsMany lookup =>
      obtain ⟨parent, rfl⟩ := declared
      obtain ⟨id, owned, rfl⟩ := List.mem_map.mp found
      cases ids : lookup.extractIds entity with
      | none => simp [ids] at owned
      | some owns => exact ⟨parent, rfl, entity, stored, owns, ids, by simpa [ids] using owned⟩
    | ensureFor lookup =>
      obtain ⟨key, dependency, parent, rfl⟩ := declared
      obtain ⟨id, named, rfl⟩ := List.mem_map.mp found
      have local_type : key.localType = lookup.localType := by
        obtain ⟨pair, -, rfl⟩ := List.mem_map.mp dependency
        rfl
      simp only [← local_type] at named ⊢
      exact ⟨key, dependency, (mem_childIndex_iff_names parent).mp named⟩
  · rintro ⟨⟨relation, excluded⟩, registered, included, leads⟩
    obtain ⟨childType, id⟩ := y
    cases relation with
    | belongsTo key =>
      obtain ⟨parent, rfl, named⟩ := leads
      refine ⟨_, mem_buildAdjacencyMap.mpr ⟨_, registered, included, parent, rfl⟩, ?_⟩
      exact List.mem_map_of_mem ((mem_childIndex_iff_names parent).mpr ⟨parent, rfl, named⟩)
    | ownsMany lookup =>
      obtain ⟨parent, rfl, other, same, ids, owned, listed⟩ := leads
      obtain rfl := Option.some.inj (stored.symm.trans same)
      refine ⟨_, mem_buildAdjacencyMap.mpr ⟨_, registered, included, parent, rfl⟩, ?_⟩
      exact List.mem_map_of_mem (by simpa [owned] using listed)
    | ensureFor lookup =>
      obtain ⟨key, dependency, parent, rfl, named⟩ := leads
      have local_type : key.localType = lookup.localType := by
        obtain ⟨pair, -, rfl⟩ := List.mem_map.mp dependency
        rfl
      refine ⟨_, mem_buildAdjacencyMap.mpr ⟨_, registered, included, key, dependency, parent, rfl⟩, ?_⟩
      rw [childKeys, ← local_type]
      exact List.mem_map_of_mem ((mem_childIndex_iff_names parent).mpr ⟨parent, rfl, named⟩)

/-! ### The walk is a breadth-first search -/

/-- Every index that is kept is the one of its relation, whichever parent it was first built for. -/
def Indexed (scan : StoreScan registry) (adjacency : Adjacency) (walk : TreeWalk) : Prop :=
  ∀ entityType relationIndex index, walk.childIndices (entityType, relationIndex) = some index →
    ∃ child, (adjacency entityType)[relationIndex]? = some child ∧
      ∀ key, child.kind = .belongsTo key ∨ child.kind = .ensureFor key →
        index = childIndex scan child.childType key

variable {walk : TreeWalk} {toValue : Item → Value} {node : String × String} {entity : Item}

theorem foldl_enqueue (childType : String) (ids : List String) (walk : TreeWalk) :
    ids.foldl (TreeWalk.enqueue childType) walk = { walk with
      toBreadthFirst := (ids.map (childType, ·)).foldl BreadthFirst.enqueue walk.toBreadthFirst } := by
  induction ids generalizing walk with
  | nil => rfl
  | cons id rest ih => exact ih _

/-- What following a relation does: its children are entered, and the indexes stay right. -/
structure Followed (scan : StoreScan registry) (adjacency : Adjacency) (keys : List (String × String))
    (walk next : TreeWalk) : Prop where
  search : next.toBreadthFirst = keys.foldl BreadthFirst.enqueue walk.toBreadthFirst
  result : next.result = walk.result
  indexed : Indexed scan adjacency next

theorem followed_followKey {relationIndex : Nat} {child : ChildRelation} {key : ForeignKey}
    (indexed : Indexed scan adjacency walk) (listed : (adjacency node.1)[relationIndex]? = some child)
    (keyed : child.kind = .belongsTo key ∨ child.kind = .ensureFor key) :
    Followed scan adjacency ((childIndex scan child.childType key node.2).map (child.childType, ·)) walk
      (walk.followKey scan node relationIndex child.childType key) := by
  have same : (walk.childIndices (node.1, relationIndex)).getD (childIndex scan child.childType key) =
      childIndex scan child.childType key := by
    cases kept : walk.childIndices (node.1, relationIndex) with
    | none => rfl
    | some index =>
      obtain ⟨other, again, built⟩ := indexed _ _ _ kept
      obtain rfl := Option.some.inj (listed.symm.trans again)
      exact built key keyed
  unfold TreeWalk.followKey
  simp only [same, foldl_enqueue]
  refine ⟨rfl, rfl, fun entityType index stored kept => ?_⟩
  by_cases here : (entityType, index) = (node.1, relationIndex)
  · obtain ⟨rfl, rfl⟩ := Prod.mk.inj here
    simp only [Function.update_self, Option.some.injEq] at kept
    subst kept
    refine ⟨child, listed, fun other also => ?_⟩
    rcases keyed with keyed | keyed <;> rw [keyed] at also <;> simp_all
  · simp only [Function.update_of_ne here] at kept
    exact indexed entityType index stored kept

theorem followed_follow {child : ChildRelation} {relationIndex : Nat} (indexed : Indexed scan adjacency walk)
    (listed : (adjacency node.1)[relationIndex]? = some child) :
    Followed scan adjacency (childKeys scan node.2 entity child) walk
      (walk.follow scan node entity (child, relationIndex)) := by
  unfold TreeWalk.follow childKeys
  cases kind : child.kind with
  | belongsTo key =>
    exact followed_followKey indexed listed (.inl kind)
  | ensureFor key =>
    exact followed_followKey indexed listed (.inr kind)
  | ownsMany lookup =>
    dsimp only
    cases lookup.extractIds entity with
    | none => exact ⟨rfl, rfl, indexed⟩
    | some ids =>
      show Followed scan adjacency (ids.map (child.childType, ·)) walk
        (ids.foldl (TreeWalk.enqueue child.childType) walk)
      rw [foldl_enqueue]
      exact ⟨rfl, rfl, indexed⟩

theorem followed_foldl (children : List (ChildRelation × Nat)) (indexed : Indexed scan adjacency walk)
    (listed : ∀ child ∈ children, (adjacency node.1)[child.2]? = some child.1) :
    Followed scan adjacency ((children.map Prod.fst).flatMap (childKeys scan node.2 entity)) walk
      (children.foldl (TreeWalk.follow scan node entity) walk) := by
  induction children generalizing walk with
  | nil => exact ⟨rfl, rfl, indexed⟩
  | cons child rest ih =>
    have first : Followed scan adjacency (childKeys scan node.2 entity child.1) walk
        (walk.follow scan node entity child) := followed_follow indexed (listed child List.mem_cons_self)
    have later := ih first.indexed fun other among => listed other (List.mem_cons_of_mem _ among)
    refine ⟨?_, later.result.trans first.result, later.indexed⟩
    rw [List.foldl_cons, later.search, first.search, List.map_cons, List.flatMap_cons, List.foldl_append]

def exportedEntity (toValue : Item → Value) (item : Item) : ExportedEntity where
  entityType := item.entityType
  data := toValue item

/-- What is exported for a key. -/
def exported (registry : StoreRegistry) (toValue : Item → Value) (node : String × String) :
    Option ExportedEntity :=
  (registry.getValue node.1 node.2).map (exportedEntity toValue)

/-- The walk after the nodes `popped` have been taken from its queue. -/
structure Walked (scan : StoreScan registry) (adjacency : Adjacency) (toValue : Item → Value)
    (popped : List (String × String)) (walk : TreeWalk) : Prop where
  split : walk.visited = popped ++ walk.queue
  result : walk.result = popped.filterMap (exported registry toValue)
  indexed : Indexed scan adjacency walk

theorem pop_toBreadthFirst (indexed : Indexed scan adjacency walk) :
    (walk.pop scan toValue adjacency node).toBreadthFirst = walk.toBreadthFirst.visit
        (present registry) (treeChildren scan adjacency) node ∧
      (walk.pop scan toValue adjacency node).result = walk.result ++ (exported registry toValue node).toList ∧
      Indexed scan adjacency (walk.pop scan toValue adjacency node) := by
  unfold TreeWalk.pop BreadthFirst.visit treeChildren exported present
  cases stored : registry.getValue node.1 node.2 with
  | none => exact ⟨by simp, by simp, indexed⟩
  | some entity =>
    let begun : TreeWalk :=
      { walk with queue := walk.queue.tail, result := walk.result ++ [⟨node.1, toValue entity⟩] }
    have followed : Followed scan adjacency
        (((adjacency node.1).zipIdx.map Prod.fst).flatMap (childKeys scan node.2 entity)) begun
        ((adjacency node.1).zipIdx.foldl (TreeWalk.follow scan node entity) begun) :=
      followed_foldl (adjacency node.1).zipIdx indexed fun child among => List.mem_zipIdx_iff_getElem?.mp among
    have export_eq : exportedEntity toValue entity = ⟨node.1, toValue entity⟩ := by
      rw [exportedEntity, (StoreRegistry.getValue_keyed stored).1]
    refine ⟨?_, ?_, followed.indexed⟩
    · have search := followed.search
      rw [List.zipIdx_map_fst] at search
      simpa [stored] using search
    · rw [Option.map_some, export_eq]
      exact followed.result

theorem Walked.pop {popped rest : List (String × String)} (walked : Walked scan adjacency toValue popped walk)
    (queue : walk.queue = node :: rest) :
    Walked scan adjacency toValue (popped ++ [node]) (walk.pop scan toValue adjacency node) := by
  obtain ⟨search, result, indexed⟩ : (walk.pop scan toValue adjacency node).toBreadthFirst = _ ∧ _ :=
    pop_toBreadthFirst walked.indexed
  refine ⟨?_, ?_, indexed⟩
  · obtain ⟨fresh, entered⟩ := BreadthFirst.exists_entered
      (BreadthFirst.onward (present registry) (treeChildren scan adjacency) node)
      { walk.toBreadthFirst with queue := walk.queue.tail }
    rw [← BreadthFirst.visit_eq, ← search] at entered
    rw [entered.visited, entered.queue, walked.split, queue]
    simp
  · rw [result, walked.result, List.filterMap_append]
    simp [List.filterMap_cons, List.filterMap_nil]
    cases exported registry toValue node <;> rfl

/-- The loop exports what the search marks. -/
theorem loop_eq_explore {popped : List (String × String)} (steps : Nat)
    (walked : Walked scan adjacency toValue popped walk) :
    walk.loop scan toValue adjacency steps = (BreadthFirst.explore
      (present registry) (treeChildren scan adjacency) steps
        walk.toBreadthFirst).map (List.filterMap (exported registry toValue)) := by
  induction steps generalizing walk popped with
  | zero =>
    unfold TreeWalk.loop BreadthFirst.explore
    cases queue : walk.queue with
    | nil => simp [walked.result, walked.split, queue]
    | cons node rest => rfl
  | succ steps ih =>
    unfold TreeWalk.loop BreadthFirst.explore
    cases queue : walk.queue with
    | nil => simp [walked.result, walked.split, queue]
    | cons node rest =>
      simp only
      rw [ih (walked.pop queue), (pop_toBreadthFirst walked.indexed).1]

/-! ### The tree is finite -/

/-- The types of the children a registered relation leads to. -/
def childTypes (registrations : List RelationRegistration) : List String :=
  registrations.map fun registration =>
    match registration.relation with
    | .belongsTo key => key.localType
    | .ownsMany lookup => lookup.foreignType
    | .ensureFor lookup => lookup.localType

theorem mem_childTypes (edge : TreeEdge registry registrations x y) : y.1 ∈ childTypes registrations := by
  obtain ⟨-, registration, registered, -, leads⟩ := edge
  refine List.mem_map.mpr ⟨registration, registered, ?_⟩
  obtain ⟨relation, excluded⟩ := registration
  cases relation with
  | belongsTo key => exact leads.2.1.symm
  | ownsMany lookup => exact leads.2.1.symm
  | ensureFor lookup =>
    obtain ⟨key, dependency, -, named, -⟩ := leads
    obtain ⟨pair, -, rfl⟩ := List.mem_map.mp dependency
    exact named.symm

/-- The root and all children of stored items of the types in the tree. -/
def candidates (scan : StoreScan registry) (registrations : List RelationRegistration) (root : String × String) :
    List (String × String) :=
  root :: (root.1 :: childTypes registrations).flatMap fun entityType =>
    (registry.snapshot entityType).flatMap fun item =>
      treeChildren scan (buildAdjacencyMap registrations) (entityType, item.id)

theorem candidates_closed {root : String × String} (among : x ∈ candidates scan registrations root)
    (edge : TreeEdge registry registrations x y) : y ∈ candidates scan registrations root := by
  have typed : x.1 ∈ root.1 :: childTypes registrations := by
    rcases List.mem_cons.mp among with rfl | among
    · exact List.mem_cons_self
    · obtain ⟨entityType, -, found⟩ := List.mem_flatMap.mp among
      obtain ⟨item, stored, child⟩ := List.mem_flatMap.mp found
      have stands : present registry (entityType, item.id) = true := by
        obtain ⟨rfl, canonical⟩ := StoreRegistry.mem_snapshot.mp stored
        exact Option.isSome_of_eq_some canonical
      exact List.mem_cons_of_mem _ (mem_childTypes (onward_iff_treeEdge.mp ⟨stands, child⟩))
  obtain ⟨stands, child⟩ : BreadthFirst.Onward (present registry)
      (treeChildren scan (buildAdjacencyMap registrations)) x y := onward_iff_treeEdge.mpr edge
  obtain ⟨item, stored⟩ := Option.isSome_iff_exists.mp stands
  refine List.mem_cons_of_mem _ (List.mem_flatMap.mpr ⟨x.1, typed, List.mem_flatMap.mpr ⟨item, ?_, ?_⟩⟩)
  · exact StoreRegistry.snapshot_of_getValue stored
  · rw [(StoreRegistry.getValue_keyed stored).2]
    exact child

/-! ### The export -/

def storedItem (registry : StoreRegistry) (node : String × String) : Option Item :=
  registry.getValue node.1 node.2

theorem itemKey_of_storedItem {item : Item} (stored : storedItem registry node = some item) :
    itemKey item = node := by
  obtain ⟨typed, identified⟩ := StoreRegistry.getValue_keyed stored
  exact Prod.ext typed identified

theorem map_itemKey_filterMap (nodes : List (String × String)) :
    (nodes.filterMap (storedItem registry)).map itemKey =
      nodes.filter fun node => (storedItem registry node).isSome := by
  induction nodes with
  | nil => rfl
  | cons node rest ih =>
    cases stored : storedItem registry node with
    | none => simp [stored, ih]
    | some item => simp [stored, ih, itemKey_of_storedItem stored]

theorem walked_start {rootType rootId : String} :
    Walked scan adjacency toValue [] (TreeWalk.start rootType rootId) :=
  ⟨rfl, rfl, nofun⟩

/-- The walk ends and returns the stored items that can be reached from the root, each once, in an order of
non-decreasing distance. -/
theorem export_tree_is_reachable_set (scan : StoreScan registry) (toValue : Item → Value)
    (registrations : List RelationRegistration) (rootType rootId : String) :
    ∃ items, ReachableOnce registry registrations (rootType, rootId) items ∧
      ∃ steps, ∀ more, steps ≤ more →
        walkTree scan toValue (buildAdjacencyMap registrations) rootType rootId more =
          some (items.map (exportedEntity toValue)) := by
  have edges : BreadthFirst.Onward (present registry)
      (treeChildren scan (buildAdjacencyMap registrations)) = TreeEdge registry registrations := by
    funext x y
    exact propext onward_iff_treeEdge
  obtain ⟨nodes, explored, steps, found⟩ : ∃ nodes, BreadthFirst.Explored (present registry)
      (treeChildren scan (buildAdjacencyMap registrations)) (rootType, rootId) nodes ∧ _ :=
    BreadthFirst.exists_explored (candidates scan registrations (rootType, rootId)) List.mem_cons_self
      fun x among y onward => candidates_closed among (onward_iff_treeEdge.mp onward)
  obtain ⟨nodup, reached, sorted⟩ := explored
  rw [edges] at reached sorted
  refine ⟨nodes.filterMap (storedItem registry), ⟨?_, fun item => ?_, ?_⟩, steps, fun more enough => ?_⟩
  · rw [map_itemKey_filterMap]
    exact nodup.filter _
  · rw [List.mem_filterMap]
    constructor
    · rintro ⟨node, among, stored⟩
      obtain rfl := itemKey_of_storedItem stored
      exact ⟨stored, (reached _).mp among⟩
    · rintro ⟨stored, reachable⟩
      exact ⟨itemKey item, (reached _).mpr reachable, stored⟩
  · refine sorted.filterMap _ fun x y nearer item stored other also => ?_
    rw [itemKey_of_storedItem stored, itemKey_of_storedItem also]
    exact nearer
  · rw [walkTree, loop_eq_explore more walked_start]
    show (BreadthFirst.explore _ _ more (.start (rootType, rootId))).map _ = _
    rw [found more enough]
    exact congrArg some List.map_filterMap.symm

end Myko.ExportTree

import Myko.Server.Causal

/-!
The relationship manager: what a SET or a DEL of an item asks for elsewhere, and the reverse index of
foreign keys it keeps. Derived mutations go through the `submit` it is given.
-/

namespace Myko
open StateError

/-- Hand over derived items: a DEL or SET of them with an origin. -/
abbrev Submit := List Item → MEventType → Origin → ServerM Unit

namespace RelationIndexes

/-- Load the reverse index of a lookup from the store of its children. -/
def load (indexes : RelationIndexes) (registry : StoreRegistry) (lookup : BelongsToLookup) :
    RelationIndexes :=
  let file := fun (maps : (String → Option String) × (String → Option (OrdSet String))) (item : Item) =>
    match lookup.extractFk item with
    | none => maps
    | some parent => (Function.update maps.1 item.id (some parent),
        Function.update maps.2 parent (some (((maps.2 parent).getD ∅).insert item.id)))
  let maps := (registry.snapshot lookup.localType).foldl file (fun _ => none, fun _ => none)
  { indexes with
    parentByChild := Function.update indexes.parentByChild lookup.id (some maps.1)
    childrenByParent := Function.update indexes.childrenByParent lookup.id (some maps.2) }

def ensureBelongsToIndexLoaded (indexes : RelationIndexes) (registry : StoreRegistry)
    (lookup : BelongsToLookup) : RelationIndexes :=
  if (indexes.parentByChild lookup.id).isSome then indexes else indexes.load registry lookup

def removeBelongsToChild (indexes : RelationIndexes) (lookup : BelongsToLookup) (child : String) :
    RelationIndexes :=
  match indexes.parentByChild lookup.id with
  | none => indexes
  | some parents =>
    match parents child with
    | none => indexes
    | some parent =>
      let indexes := { indexes with
        parentByChild := Function.update indexes.parentByChild lookup.id
          (some (Function.update parents child none)) }
      match indexes.childrenByParent lookup.id with
      | none => indexes
      | some children =>
        match children parent with
        | none => indexes
        | some ids =>
          let ids := ids.erase child
          { indexes with
            childrenByParent := Function.update indexes.childrenByParent lookup.id
              (some (Function.update children parent (if ids.isEmpty then none else some ids))) }

def indexBelongsToChild (indexes : RelationIndexes) (lookup : BelongsToLookup) (item : Item) :
    RelationIndexes :=
  let indexes := indexes.removeBelongsToChild lookup item.id
  match lookup.extractFk item with
  | none => indexes
  | some parent =>
    let parents := (indexes.parentByChild lookup.id).getD fun _ => none
    let children := (indexes.childrenByParent lookup.id).getD fun _ => none
    { indexes with
      parentByChild := Function.update indexes.parentByChild lookup.id
        (some (Function.update parents item.id (some parent)))
      childrenByParent := Function.update indexes.childrenByParent lookup.id
        (some (Function.update children parent (some (((children parent).getD ∅).insert item.id)))) }

end RelationIndexes

def modifyRelations (f : RelationIndexes → StoreRegistry → RelationIndexes) : ServerM Unit :=
  modify fun s => { s with relations := f s.relations s.registry }

/-- The stored children whose foreign key is `parent`, by the reverse index once it is loaded. -/
def findChildrenByFk (lookup : BelongsToLookup) (parent : String) : ServerM (List Item) := do
  modifyRelations fun indexes registry => indexes.ensureBelongsToIndexLoaded registry lookup
  let s ← get
  match s.relations.childrenByParent lookup.id with
  | some children =>
    return ((children parent).getD ∅).toList.filterMap (s.registry.getValue lookup.localType)
  | none =>
    return (s.registry.snapshot lookup.localType).filter fun item => lookup.extractFk item = some parent

section
variable (ctx : MykoServerContext) (submit : Submit)

/-- An item reached its store, so a combination reserved for it is free again. -/
def releaseEnsureReservationForItem (item : Item) : ServerM Unit := do
  let reservations := ctx.tables.ensureForByDependency.filterMap fun entry =>
    if entry.2.localType = item.entityType then
      (entry.2.combination item).map fun combo => (entry.2.localType, combo)
    else none
  modify fun s => { s with
    relations := { s.relations with
      ensureForInFlight := s.relations.ensureForInFlight.filter (· ∉ reservations) } }

/-! ### Publishing -/

def publishDelCascadeBatch (items : List Item) : ServerM Unit := submit items .del .cascade

def publishRelationshipFixupBatch (items : List Item) : ServerM Unit :=
  submit items .set .relationshipFixup

/-- The item with the id of this server in an empty server-owned field. -/
def bakeServerOwner (item : Item) : Item :=
  match ctx.serverOwnedField item.entityType with
  | none => item
  | some field =>
    match item.field field with
    | some (.text "") => item.setField field (.text ctx.hostId)
    | _ => item

def publishSetCascade (item : Item) : ServerM Unit :=
  submit [bakeServerOwner ctx item] .set .cascade

/-! ### Deletions -/

/-- Keep the first item of each id. -/
def firstById (items : List Item) : List Item :=
  items.foldl (fun kept item => if kept.any (·.id = item.id) then kept else kept ++ [item]) []

def handleBelongsToCascadeBatch (items : List Item) : ServerM Unit :=
  match items with
  | [] => pure ()
  | first :: _ =>
    each (fun lookup => do
      let children ← items.foldlM (fun found item => do
        let children ← findChildrenByFk lookup item.id
        return found ++ children) []
      let children := firstById children
      if !children.isEmpty then publishDelCascadeBatch submit children)
      (ctx.tables.belongsToByForeign first.entityType)

def handleOwnsManyParentDeleteBatch (items : List Item) : ServerM Unit :=
  match items with
  | [] => pure ()
  | first :: _ =>
    each (fun lookup => do
      let childIds : OrdSet String := items.foldl (fun ids item =>
        ((lookup.extractIds item).getD []).foldl (fun ids id => ids.insert id) ids) ∅
      let s ← get
      let children := childIds.toList.filterMap (s.registry.getValue lookup.foreignType)
      if !children.isEmpty then publishDelCascadeBatch submit children)
      (ctx.tables.ownsManyByLocal first.entityType)

def findParentsContaining (registry : StoreRegistry) (lookup : OwnsManyLookup) (child : String) :
    List Item :=
  (registry.snapshot lookup.localType).filter fun item =>
    ((lookup.extractIds item).getD []).contains child

def handleOwnsManyChildDelete (item : Item) : ServerM Unit :=
  each (fun lookup => do
    let s ← get
    let updates := (findParentsContaining s.registry lookup item.id).filterMap fun parent =>
      lookup.removeId parent item.id
    if !updates.isEmpty then publishRelationshipFixupBatch submit updates)
    (ctx.tables.ownsManyByForeign item.entityType)

def handleEnsureForDeleteBatch (items : List Item) : ServerM Unit :=
  match items with
  | [] => pure ()
  | first :: _ =>
    each (fun lookup => do
      let dependencies := lookup.keys.filter fun key => key.foreignType = first.entityType
      let s ← get
      let orphaned := (s.registry.snapshot lookup.localType).filter fun item =>
        dependencies.any fun key => (key.extractFk item).any fun id => items.any (·.id = id)
      if !orphaned.isEmpty then publishDelCascadeBatch submit orphaned)
      (ctx.tables.ensureForBy first.entityType)

def forwardDelBatch (items : List Item) : ServerM Unit := do
  handleBelongsToCascadeBatch ctx submit items
  handleOwnsManyParentDeleteBatch ctx submit items
  handleEnsureForDeleteBatch ctx submit items
  each (fun item => do
    handleOwnsManyChildDelete ctx submit item
    each (fun lookup => modifyRelations fun indexes _ => indexes.removeBelongsToChild lookup item.id)
      (ctx.tables.belongsToByLocal item.entityType)) items

/-! ### Writes -/

def cartesianProduct : List (List String) → List (List String)
  | [] => []
  | sets => sets.foldl (fun combos set => combos.flatMap fun combo => set.map fun id => combo ++ [id]) [[]]

def getDependencyCombinations (registry : StoreRegistry) (lookup : EnsureForLookup) :
    List (List String) :=
  cartesianProduct (lookup.dependencies.map fun dependency =>
    (registry.snapshot dependency.1).map Item.id)

/-- Whether some item stands for a combination already. -/
def existsEnsureForEntity (items : List Item) (lookup : EnsureForLookup) (combo : List String) : Bool :=
  !(lookup.dependencies.isEmpty || combo.isEmpty) && items.any fun item =>
    (lookup.keys.zip combo).all fun entry => entry.1.extractFk item = some entry.2

def unreserve (reservation : String × List String) : ServerM Unit :=
  modify fun s => { s with
    relations := { s.relations with
      ensureForInFlight := s.relations.ensureForInFlight.filter (· ≠ reservation) } }

/-- Reserve and create one missing combination; whether it was created. -/
def ensureCombination (lookup : EnsureForLookup) (combo : List String) : ServerM Bool := do
  let reservation := (lookup.localType, combo)
  let s ← get
  if reservation ∈ s.relations.ensureForInFlight then return false
  modify fun s => { s with
    relations := { s.relations with
      ensureForInFlight := reservation :: s.relations.ensureForInFlight } }
  if existsEnsureForEntity (s.registry.snapshot lookup.localType) lookup combo then
    unreserve reservation
    return false
  let entity := lookup.makeEntity (ctx.uuid s.uuids) combo
  modify fun s => { s with uuids := s.uuids + 1 }
  let result ← attempt (publishSetCascade ctx submit entity)
  match result with
  | .ok () => return true
  | .error error =>
    unreserve reservation
    throw error

/-- Create what is missing, given the combinations that exist. -/
def ensureCombinations (lookup : EnsureForLookup) :
    List (List String) → List (List String) → ServerM Unit
  | [], _ => pure ()
  | combo :: rest, existing => do
    if combo ∈ existing then ensureCombinations lookup rest existing
    else
      let created ← ensureCombination ctx submit lookup combo
      ensureCombinations lookup rest (if created then combo :: existing else existing)

def handleEnsureForType (entityType : String) : ServerM Unit :=
  each (fun lookup => do
    let s ← get
    let combinations := getDependencyCombinations s.registry lookup
    let existing := (s.registry.snapshot lookup.localType).filterMap lookup.combination
    ensureCombinations ctx submit lookup combinations existing)
    (ctx.tables.ensureForBy entityType)

def forwardSetBatch (items : List Item) : ServerM Unit :=
  match items with
  | [] => pure ()
  | first :: _ => do
    each (fun lookup => do
      modifyRelations fun indexes registry => indexes.ensureBelongsToIndexLoaded registry lookup
      each (fun item => modifyRelations fun indexes _ => indexes.indexBelongsToChild lookup item) items)
      (ctx.tables.belongsToByLocal first.entityType)
    handleEnsureForType ctx submit first.entityType

end
end Myko

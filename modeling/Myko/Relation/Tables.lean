import Myko.Item

/-!
Registered relations between entity types, and the lookup tables built from them.
-/

namespace Myko

/-- A foreign key: a field of a local entity that names an entity of a foreign type. -/
structure ForeignKey where
  localType : String
  foreignType : String
  field : String
  deriving DecidableEq

/-- The foreign id an item of the local type holds. -/
def ForeignKey.extractFk (key : ForeignKey) (item : Item) : Option String :=
  if item.entityType = key.localType then
    match item.field key.field with
    | some (.text id) => some id
    | some (.optional id) => id
    | _ => none
  else none

structure BelongsToLookup extends ForeignKey where
  id : Nat
  deriving DecidableEq

/-- A parent type that lists the ids of the children it owns in one of its fields. -/
structure OwnsManyLookup where
  localType : String
  foreignType : String
  field : String
  deriving DecidableEq

namespace OwnsManyLookup

def extractIds (lookup : OwnsManyLookup) (item : Item) : Option (List String) :=
  if item.entityType = lookup.localType then
    match item.field lookup.field with
    | some (.ids ids) => some ids
    | _ => none
  else none

/-- The parent without one of its children. -/
def removeId (lookup : OwnsManyLookup) (item : Item) (id : String) : Option Item :=
  (lookup.extractIds item).map fun ids => item.setField lookup.field (.ids (ids.filter (· ≠ id)))

end OwnsManyLookup

/-- A type of which one entity is kept for every combination of dependencies. `blank` are the fields
of its default value, `defaults` the ones assigned last. -/
structure EnsureForLookup where
  localType : String
  dependencies : List (String × String)
  blank : List (String × Field)
  defaults : List (String × Field)

namespace EnsureForLookup

/-- The dependencies as foreign keys of the local type. -/
def keys (lookup : EnsureForLookup) : List ForeignKey :=
  lookup.dependencies.map fun dependency => ⟨lookup.localType, dependency.1, dependency.2⟩

/-- The dependency ids an item of the local type stands for. -/
def combination (lookup : EnsureForLookup) (item : Item) : Option (List String) :=
  lookup.keys.mapM fun key => key.extractFk item

def makeEntity (lookup : EnsureForLookup) (id : String) (combo : List String) : Item :=
  let entity : Item := { entityType := lookup.localType, id := id, fields := lookup.blank }
  let entity := (lookup.keys.zip combo).foldl
    (fun entity key => entity.setField key.1.field (.text key.2)) entity
  lookup.defaults.foldl (fun entity value => entity.setField value.1 value.2) entity

end EnsureForLookup

inductive Relation where
  | belongsTo (key : ForeignKey)
  | ownsMany (lookup : OwnsManyLookup)
  | ensureFor (lookup : EnsureForLookup)

structure RelationshipTables where
  belongsTo : List BelongsToLookup
  ownsMany : List OwnsManyLookup
  ensureForByDependency : List (String × EnsureForLookup)
  nextBelongsToId : Nat

namespace RelationshipTables

def empty : RelationshipTables where
  belongsTo := []
  ownsMany := []
  ensureForByDependency := []
  nextBelongsToId := 0

def register (tables : RelationshipTables) : Relation → RelationshipTables
  | .belongsTo key =>
    let id := tables.nextBelongsToId + 1
    { tables with
      nextBelongsToId := id
      belongsTo := tables.belongsTo ++ [{ toForeignKey := key, id := id }] }
  | .ownsMany lookup => { tables with ownsMany := tables.ownsMany ++ [lookup] }
  | .ensureFor lookup =>
    { tables with
      ensureForByDependency := tables.ensureForByDependency ++
        (lookup.dependencies.map Prod.fst).eraseDups.map fun foreignType => (foreignType, lookup) }

def ofRelations (relations : List Relation) : RelationshipTables := relations.foldl register empty

def belongsToByForeign (tables : RelationshipTables) (entityType : String) : List BelongsToLookup :=
  tables.belongsTo.filter fun lookup => lookup.foreignType = entityType

def belongsToByLocal (tables : RelationshipTables) (entityType : String) : List BelongsToLookup :=
  tables.belongsTo.filter fun lookup => lookup.localType = entityType

def ownsManyByLocal (tables : RelationshipTables) (entityType : String) : List OwnsManyLookup :=
  tables.ownsMany.filter fun lookup => lookup.localType = entityType

def ownsManyByForeign (tables : RelationshipTables) (entityType : String) : List OwnsManyLookup :=
  tables.ownsMany.filter fun lookup => lookup.foreignType = entityType

def ensureForBy (tables : RelationshipTables) (entityType : String) : List EnsureForLookup :=
  (tables.ensureForByDependency.filter fun entry => entry.1 = entityType).map Prod.snd

/-- Whether a change of this item type can derive relationship work. -/
def coordinates (tables : RelationshipTables) (entityType : String) : MEventType → Bool
  | .set =>
    !(tables.belongsToByLocal entityType).isEmpty || !(tables.ensureForBy entityType).isEmpty
  | .del =>
    !(tables.belongsToByForeign entityType).isEmpty || !(tables.belongsToByLocal entityType).isEmpty ||
      !(tables.ownsManyByLocal entityType).isEmpty || !(tables.ownsManyByForeign entityType).isEmpty ||
      !(tables.ensureForBy entityType).isEmpty

end RelationshipTables
end Myko

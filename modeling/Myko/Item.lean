import Mathlib.Data.List.Induction
import Mathlib.Logic.Function.Basic
import Myko.Lib.MapDiff

/-!
Canonical items and the stores that hold them, one map from ids to items for each entity type.
-/

namespace Myko

/-- The value of one field of an item. -/
inductive Field where
  | text (value : String)
  | optional (value : Option String)
  | ids (values : List String)
  | data (content : String)
  deriving DecidableEq

structure Item where
  entityType : String
  id : String
  fields : List (String × Field)
  deriving DecidableEq

inductive MEventType where
  | set
  | del
  deriving DecidableEq

namespace Item

def field (item : Item) (name : String) : Option Field :=
  (item.fields.find? fun entry => entry.1 = name).map Prod.snd

/-- Assign a field in place. -/
def assign (name : String) (value : Field) : List (String × Field) → List (String × Field)
  | [] => [(name, value)]
  | entry :: rest =>
    if entry.1 = name then (name, value) :: rest else entry :: assign name value rest

def setField (item : Item) (name : String) (value : Field) : Item :=
  { item with fields := assign name value item.fields }

@[simp] theorem setField_entityType (item : Item) (name : String) (value : Field) :
    (item.setField name value).entityType = item.entityType := rfl

@[simp] theorem setField_id (item : Item) (name : String) (value : Field) :
    (item.setField name value).id = item.id := rfl

end Item

/-- A canonical write: an item put under its id, or the item of its id taken away. -/
structure Change where
  kind : MEventType
  item : Item
  deriving DecidableEq

namespace Change

def key (change : Change) : String × String := (change.item.entityType, change.item.id)

/-- What the change leaves under its key. -/
def value (change : Change) : Option Item :=
  match change.kind with
  | .set => some change.item
  | .del => none

end Change

/-- One store for each entity type. A stored item stands under its own type and id. -/
structure StoreRegistry where
  store : String → OrdMap String Item
  keyed : ∀ (entityType id : String) (item : Item), (store entityType)[id]? = some item →
    item.entityType = entityType ∧ item.id = id

namespace StoreRegistry

def empty : StoreRegistry where
  store _ := ∅
  keyed _ _ _ h := by simp at h

def getValue (registry : StoreRegistry) (entityType id : String) : Option Item :=
  (registry.store entityType)[id]?

def canonicalItem (registry : StoreRegistry) (item : Item) : Option Item :=
  registry.getValue item.entityType item.id

/-- The items of one store, in id order. -/
def snapshot (registry : StoreRegistry) (entityType : String) : List Item :=
  (registry.store entityType).toList.map Prod.snd

def insert (registry : StoreRegistry) (item : Item) : StoreRegistry where
  store := Function.update registry.store item.entityType
    ((registry.store item.entityType).insert item.id item)
  keyed entityType id stored h := by
    by_cases here : entityType = item.entityType
    · subst here
      rw [Function.update_self, OrdMap.get_insert] at h
      split at h
      · cases h
        exact ⟨rfl, Eq.symm ‹_›⟩
      · exact registry.keyed _ _ _ h
    · rw [Function.update_of_ne here] at h
      exact registry.keyed _ _ _ h

def remove (registry : StoreRegistry) (entityType id : String) : StoreRegistry where
  store := Function.update registry.store entityType ((registry.store entityType).erase id)
  keyed otherType otherId stored h := by
    by_cases here : otherType = entityType
    · subst here
      rw [Function.update_self, OrdMap.get_erase] at h
      split at h
      · cases h
      · exact registry.keyed _ _ _ h
    · rw [Function.update_of_ne here] at h
      exact registry.keyed _ _ _ h

def write (registry : StoreRegistry) (change : Change) : StoreRegistry :=
  match change.kind with
  | .set => registry.insert change.item
  | .del => registry.remove change.item.entityType change.item.id

def writeAll (registry : StoreRegistry) (changes : List Change) : StoreRegistry :=
  changes.foldl write registry

@[simp] theorem getValue_empty (entityType id : String) : empty.getValue entityType id = none := by
  simp [empty, getValue]

theorem getValue_keyed {registry : StoreRegistry} {entityType id : String} {item : Item}
    (h : registry.getValue entityType id = some item) :
    item.entityType = entityType ∧ item.id = id := registry.keyed _ _ _ h

theorem canonicalItem_of_getValue {registry : StoreRegistry} {entityType id : String} {item : Item}
    (h : registry.getValue entityType id = some item) : registry.canonicalItem item = some item := by
  obtain ⟨rfl, rfl⟩ := getValue_keyed h
  exact h

theorem getValue_insert (registry : StoreRegistry) (item : Item) (entityType id : String) :
    (registry.insert item).getValue entityType id =
      if entityType = item.entityType ∧ id = item.id then some item
      else registry.getValue entityType id := by
  unfold getValue insert
  by_cases here : entityType = item.entityType
  · subst here
    simp [OrdMap.get_insert]
  · simp [here]

theorem getValue_remove (registry : StoreRegistry) (goneType goneId entityType id : String) :
    (registry.remove goneType goneId).getValue entityType id =
      if entityType = goneType ∧ id = goneId then none else registry.getValue entityType id := by
  unfold getValue remove
  by_cases here : entityType = goneType
  · subst here
    simp [OrdMap.get_erase]
  · simp [here]

theorem getValue_write (registry : StoreRegistry) (change : Change) (entityType id : String) :
    (registry.write change).getValue entityType id =
      if (entityType, id) = change.key then change.value else registry.getValue entityType id := by
  obtain ⟨kind, item⟩ := change
  cases kind with
  | set => simp [write, getValue_insert, Change.key, Change.value]
  | del => simp [write, getValue_remove, Change.key, Change.value]

theorem ext {registry other : StoreRegistry}
    (h : ∀ entityType id, registry.getValue entityType id = other.getValue entityType id) :
    registry = other := by
  obtain ⟨store, _⟩ := registry
  obtain ⟨otherStore, _⟩ := other
  congr
  funext entityType
  exact OrdMap.ext fun id => h entityType id

theorem mem_snapshot {registry : StoreRegistry} {entityType : String} {item : Item} :
    item ∈ registry.snapshot entityType ↔
      item.entityType = entityType ∧ registry.canonicalItem item = some item := by
  simp only [snapshot, List.mem_map, Prod.exists, exists_eq_right, OrdMap.mem_toList]
  constructor
  · rintro ⟨id, stored⟩
    obtain ⟨rfl, rfl⟩ := registry.keyed _ _ _ stored
    exact ⟨rfl, stored⟩
  · rintro ⟨rfl, stored⟩
    exact ⟨item.id, stored⟩

theorem snapshot_of_getValue {registry : StoreRegistry} {entityType id : String} {item : Item}
    (h : registry.getValue entityType id = some item) : item ∈ registry.snapshot entityType :=
  mem_snapshot.mpr ⟨(getValue_keyed h).1, canonicalItem_of_getValue h⟩

theorem snapshot_nodup_ids (registry : StoreRegistry) (entityType : String) :
    ((registry.snapshot entityType).map Item.id).Nodup := by
  have keys := OrdMap.nodup_keys (registry.store entityType)
  have same : (registry.snapshot entityType).map Item.id =
      (registry.store entityType).toList.map Prod.fst := by
    rw [snapshot, List.map_map]
    refine List.map_congr_left fun entry member => ?_
    exact (registry.keyed _ _ _ (OrdMap.mem_toList.mp member)).2
  rwa [same]

theorem writeAll_append (registry : StoreRegistry) (first rest : List Change) :
    registry.writeAll (first ++ rest) = (registry.writeAll first).writeAll rest :=
  List.foldl_append

/-- After a list of writes an id holds what the last write of it left. -/
theorem getValue_writeAll (registry : StoreRegistry) (changes : List Change) (entityType id : String) :
    (registry.writeAll changes).getValue entityType id =
      match (changes.filter fun change => change.key = (entityType, id)).getLast? with
      | some change => change.value
      | none => registry.getValue entityType id := by
  induction changes using List.reverseRecOn with
  | nil => rfl
  | append_singleton changes change ih =>
    rw [writeAll_append]
    change ((registry.writeAll changes).write change).getValue entityType id = _
    rw [getValue_write, List.filter_append]
    by_cases here : change.key = (entityType, id)
    · simp [here]
    · simp [here, Ne.symm here, ih]

/-- After a list of writes an id holds what one of them left, or what it held before. -/
theorem getValue_writeAll_cases (registry : StoreRegistry) (changes : List Change)
    (entityType id : String) :
    (∃ change ∈ changes, change.key = (entityType, id) ∧
        (registry.writeAll changes).getValue entityType id = change.value) ∨
      (∀ change ∈ changes, change.key ≠ (entityType, id)) ∧
        (registry.writeAll changes).getValue entityType id = registry.getValue entityType id := by
  rw [getValue_writeAll]
  cases last : (changes.filter fun change => change.key = (entityType, id)).getLast? with
  | some change =>
    obtain ⟨member, here⟩ := List.mem_filter.mp (List.mem_of_getLast? last)
    exact .inl ⟨change, member, of_decide_eq_true here, rfl⟩
  | none =>
    refine .inr ⟨fun change member here => ?_, rfl⟩
    have none := List.filter_eq_nil_iff.mp (List.getLast?_eq_none_iff.mp last) change member
    exact none (decide_eq_true here)

end StoreRegistry
end Myko

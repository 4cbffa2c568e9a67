import Myko.Lib.InsertionMap
import Myko.Lib.Runs

/-!
A live collection and the secondary index over it. An update of the index keeps, patches or rebuilds its
groups by comparing revision numbers, whichever collection they come from.
-/

namespace Myko.TypeScript.Grouping
open Runs

/-! ### Collections -/

structure CollectionDiff (T : Type) where
  sequence : Nat
  deletes : List String
  upserts : List T

/-- The latest change of a collection. -/
structure CollectionChanges (T : Type) where
  sequence : Option Nat
  reset : Bool
  deletes : List String
  upserts : List T

def emptyChanges {T : Type} : CollectionChanges T := ⟨none, false, [], []⟩

structure LiveCollection (T : Type) where
  items : InsertionMap String T
  revision : Nat
  changes : CollectionChanges T

variable {K T C : Type} (idOf : T → String)

def applyCollectionDiff (target : InsertionMap String T) (diff : CollectionDiff T) : InsertionMap String T :=
  let target := if diff.sequence = 0 then .empty else target
  let target := diff.deletes.foldl InsertionMap.delete target
  diff.upserts.foldl (fun target item => target.set (idOf item) item) target

namespace LiveCollection

def start : LiveCollection T := ⟨.empty, 0, emptyChanges⟩

def apply (collection : LiveCollection T) (diff : CollectionDiff T) : LiveCollection T where
  items := applyCollectionDiff idOf collection.items diff
  revision := collection.revision + 1
  changes := ⟨some diff.sequence, diff.sequence = 0, diff.deletes, diff.upserts⟩

def fail (collection : LiveCollection T) : LiveCollection T :=
  { collection with revision := collection.revision + 1, changes := emptyChanges }

end LiveCollection

/-! ### The index -/

structure LiveIndexChanges (K : Type) where
  reset : Bool
  keys : List K

/-- The index, with the revision of its source that it has incorporated, none before its first update. -/
structure LiveIndex (K T C : Type) where
  groups : InsertionMap K (InsertionMap String T)
  itemKeys : InsertionMap String K
  arrays : InsertionMap K (List T)
  source : Option C
  sourceRevision : Option Nat
  revision : Nat
  changes : LiveIndexChanges K

variable [DecidableEq K] (keyOf : T → K)

/-- A set that lists its members in the order in which they were added. -/
def addKey (keys : List K) (key : K) : List K := if key ∈ keys then keys else keys ++ [key]

namespace LiveIndex

def start : LiveIndex K T C := ⟨.empty, .empty, .empty, none, none, 0, ⟨false, []⟩⟩

/-- The bucket of a key, empty where there is none. -/
def get (index : LiveIndex K T C) (key : K) : InsertionMap String T := (index.groups.get key).getD .empty

/-- The items of a bucket, from the array that is kept for it or by a new one, which is kept. -/
def values (index : LiveIndex K T C) (key : K) : List T × LiveIndex K T C :=
  match index.arrays.get key with
  | some cached => (cached, index)
  | none => ((index.get key).values, { index with arrays := index.arrays.set key (index.get key).values })

def insertAt (index : LiveIndex K T C) (key : K) (item : T) : LiveIndex K T C :=
  { index with
    groups := index.groups.set key ((index.get key).set (idOf item) item)
    itemKeys := index.itemKeys.set (idOf item) key
    arrays := index.arrays.delete key }

def insert (index : LiveIndex K T C) (item : T) : LiveIndex K T C := index.insertAt idOf (keyOf item) item

/-- Take an item out of its bucket, and the bucket away with its last item. -/
def remove (index : LiveIndex K T C) (id : String) (changedKeys : List K) : LiveIndex K T C × List K :=
  match index.itemKeys.get id with
  | none => (index, changedKeys)
  | some key =>
    let group := (index.get key).delete id
    ({ index with
        groups := if group.entries = [] then index.groups.delete key else index.groups.set key group
        itemKeys := index.itemKeys.delete id
        arrays := index.arrays.delete key },
      addKey changedKeys key)

def upsert (index : LiveIndex K T C) (item : T) (changedKeys : List K) : LiveIndex K T C × List K :=
  let key := keyOf item
  match index.itemKeys.get (idOf item) with
  | none => (index.insertAt idOf key item, addKey changedKeys key)
  | some previousKey =>
    -- The buckets are one object just when the keys are one.
    if (index.groups.get previousKey).isSome ∧ previousKey = key then
      (index.insertAt idOf key item, addKey changedKeys previousKey)
    else
      let removed := index.remove (idOf item) changedKeys
      (removed.1.insertAt idOf key item, addKey removed.2 key)

def rebuild (index : LiveIndex K T C) (items : List T) : LiveIndex K T C :=
  items.foldl (insert idOf keyOf) { index with groups := .empty, itemKeys := .empty, arrays := .empty }

/-- Patch by the latest change of the source. -/
def patch (index : LiveIndex K T C) (changes : CollectionChanges T) : LiveIndex K T C × List K :=
  let removed := changes.deletes.foldl (fun at_ id => at_.1.remove id at_.2) (index, [])
  changes.upserts.foldl (fun at_ item => at_.1.upsert idOf keyOf item at_.2) removed

/-- The branch of an update: rebuilt at first, after a reset and when revisions were skipped. -/
def Rebuilds (index : LiveIndex K T C) (collection : LiveCollection T) : Prop :=
  index.sourceRevision = none ∨ index.sourceRevision.map (· + 1) ≠ some collection.revision ∨
    collection.changes.reset = true

instance (index : LiveIndex K T C) (collection : LiveCollection T) : Decidable (index.Rebuilds collection) :=
  inferInstanceAs (Decidable (_ ∨ _ ∨ _))

def incorporate (index : LiveIndex K T C) (collection : LiveCollection T) : LiveIndex K T C × LiveIndexChanges K :=
  if index.Rebuilds collection then
    let rebuilt := index.rebuild idOf keyOf collection.items.values
    (rebuilt, ⟨true, rebuilt.groups.keys.foldl addKey (index.groups.keys.foldl addKey [])⟩)
  else
    let patched := index.patch idOf keyOf collection.changes
    (patched.1, ⟨false, patched.2⟩)

def update (index : LiveIndex K T C) (name : C) (collection : LiveCollection T) : LiveIndex K T C :=
  if index.sourceRevision = some collection.revision then index
  else
    let next := index.incorporate idOf keyOf collection
    { next.1 with
      source := some name
      sourceRevision := some collection.revision
      revision := index.revision + 1
      changes := next.2 }

end LiveIndex

/-! ### Collections and an index over them -/

/-- The collections by name and the index. `incorporated` are the items of the collection updated from last,
and `updated` the update that was just made, with the index before it. -/
structure IndexedCollections (K T C : Type) where
  collections : C → LiveCollection T
  index : LiveIndex K T C
  incorporated : InsertionMap String T
  updated : Option (C × LiveIndex K T C)

inductive IndexEvent (K T C : Type) where
  | apply (name : C) (diff : CollectionDiff T)
  | fail (name : C)
  | update (name : C)
  | values (key : K)

variable [DecidableEq C]

namespace IndexedCollections

def start : IndexedCollections K T C := ⟨fun _ => .start, .start, .empty, none⟩

def step (s : IndexedCollections K T C) : IndexEvent K T C → Option (IndexedCollections K T C)
  | .apply name diff => some { s with
      collections := Function.update s.collections name ((s.collections name).apply idOf diff), updated := none }
  | .fail name => some { s with
      collections := Function.update s.collections name (s.collections name).fail, updated := none }
  | .update name => some { s with
      index := s.index.update idOf keyOf name (s.collections name)
      incorporated := (s.collections name).items
      updated := some (name, s.index) }
  | .values key => some { s with index := (s.index.values key).2, updated := none }

end IndexedCollections

/-- The index groups the items by their keys, and says which buckets are not as they were. -/
structure Groups (keyOf : T → K) (index before : LiveIndex K T C) (items : InsertionMap String T) : Prop where
  groups : ∀ key id, (index.get key).get id = (items.get id).filter fun item => keyOf item = key
  nonempty : ∀ key group, index.groups.get key = some group → group.entries ≠ []
  values : ∀ key, (index.values key).1 = (index.get key).values
  changed : index ≠ before → ∀ key, index.get key ≠ before.get key → key ∈ index.changes.keys

namespace IndexedCollections

/-- Right after an update the groups are those of the collection it was made from. -/
def EqualsGrouping (keyOf : T → K) (s : IndexedCollections K T C) : Prop :=
  ∀ name before, s.updated = some (name, before) → Groups keyOf s.index before (s.collections name).items

end IndexedCollections

/-! ### Contents -/

/-- The items by id, with one more, or in place of the one that was there. -/
def upserted (c : String → Option T) (item : T) : String → Option T := Function.update c (idOf item) (some item)

/-- What a change makes of the items. -/
def patched (changes : CollectionChanges T) (c : String → Option T) : String → Option T :=
  changes.upserts.foldl (upserted idOf) (changes.deletes.foldl (fun c id => Function.update c id none) c)

/-- An update from another collection than the last: at an equal revision its items are those incorporated,
and at the next one, without a reset, they are what its latest change makes of these. -/
def Accounts (s : IndexedCollections K T C) : IndexEvent K T C → Prop
  | .update name => ∀ other, s.index.source = some other → other ≠ name →
    (s.index.sourceRevision = some (s.collections name).revision →
      (s.collections name).items.get = s.incorporated.get) ∧
    (s.index.sourceRevision.map (· + 1) = some (s.collections name).revision →
      (s.collections name).changes.reset = false →
        (s.collections name).items.get = patched idOf (s.collections name).changes s.incorporated.get)
  | _ => True

/-- An index whose groups, remembered keys and arrays are those of the items `c`. -/
structure Coherent (idOf : T → String) (keyOf : T → K) (index : LiveIndex K T C) (c : String → Option T) :
    Prop where
  groups : ∀ key id, (index.get key).get id = (c id).filter fun item => keyOf item = key
  nonempty : ∀ key group, index.groups.get key = some group → group.entries ≠ []
  itemKeys : ∀ id, index.itemKeys.get id = (c id).map keyOf
  arrays : ∀ key array, index.arrays.get key = some array → array = (index.get key).values
  keyed : ∀ id item, c id = some item → idOf item = id

omit [DecidableEq C]
variable {idOf keyOf} {index before : LiveIndex K T C} {c : String → Option T} {changedKeys : List K}

theorem coherent_empty (source : Option C) (sourceRevision : Option Nat) (revision : Nat)
    (changes : LiveIndexChanges K) : Coherent idOf keyOf
      (⟨.empty, .empty, .empty, source, sourceRevision, revision, changes⟩ : LiveIndex K T C) fun _ => none where
  groups _ _ := rfl
  nonempty _ _ none := nomatch none
  itemKeys _ := rfl
  arrays _ _ none := nomatch none
  keyed _ _ none := nomatch none

theorem get_of_groups_set {groups : InsertionMap K (InsertionMap String T)} {key other : K}
    {group : InsertionMap String T} :
    ((groups.set key group).get other).getD .empty =
      if other = key then group else (groups.get other).getD .empty := by
  rw [InsertionMap.get_set]
  split <;> rfl

theorem get_insertAt (key : K) (item : T) (other : K) : (index.insertAt idOf key item).get other =
    if other = key then (index.get key).set (idOf item) item else index.get other :=
  get_of_groups_set

/-- An item goes into its bucket when it was in no other one. -/
theorem Coherent.insertAt {item : T} (coherent : Coherent idOf keyOf index c)
    (here : ∀ old, c (idOf item) = some old → keyOf old = keyOf item) :
    Coherent idOf keyOf (index.insertAt idOf (keyOf item) item) (upserted idOf c item) where
  groups key id := by
    rw [get_insertAt]
    by_cases same : key = keyOf item
    · subst same
      rw [if_pos rfl, InsertionMap.get_set]
      by_cases at_item : id = idOf item
      · subst at_item
        simp [upserted, Option.filter]
      · rw [if_neg at_item, coherent.groups, upserted, Function.update_of_ne at_item]
    · rw [if_neg same, coherent.groups]
      by_cases at_item : id = idOf item
      · subst at_item
        rw [upserted, Function.update_self]
        cases old : c (idOf item) with
        | none => simp [Option.filter, Ne.symm same]
        | some other => simp [Option.filter, here other old, Ne.symm same]
      · rw [upserted, Function.update_of_ne at_item]
  nonempty key group stored := by
    rw [LiveIndex.insertAt, InsertionMap.get_set] at stored
    split at stored
    · obtain rfl := Option.some.inj stored
      exact InsertionMap.entries_ne_nil_iff.mpr ⟨idOf item, item, by rw [InsertionMap.get_set, if_pos rfl]⟩
    · exact coherent.nonempty key group stored
  itemKeys id := by
    rw [LiveIndex.insertAt, InsertionMap.get_set]
    by_cases at_item : id = idOf item
    · subst at_item
      simp [upserted]
    · rw [if_neg at_item, coherent.itemKeys, upserted, Function.update_of_ne at_item]
  arrays key array stored := by
    rw [get_insertAt]
    rw [LiveIndex.insertAt, InsertionMap.get_delete] at stored
    by_cases same : key = keyOf item
    · rw [if_pos same] at stored
      cases stored
    · rw [if_neg same] at stored ⊢
      exact coherent.arrays key array stored
  keyed id other stored := by
    by_cases at_item : id = idOf item
    · subst at_item
      rw [upserted, Function.update_self] at stored
      obtain rfl := Option.some.inj stored
      rfl
    · rw [upserted, Function.update_of_ne at_item] at stored
      exact coherent.keyed id other stored

theorem get_remove {id : String} {key : K} (known : index.itemKeys.get id = some key) (other : K) :
    (index.remove id changedKeys).1.get other =
      if other = key then (index.get key).delete id else index.get other := by
  unfold LiveIndex.remove
  rw [known]
  dsimp only
  split
  · next emptied =>
    show ((index.groups.delete key).get other).getD .empty = _
    rw [InsertionMap.get_delete]
    split
    · exact InsertionMap.eq_empty emptied
    · rfl
  · exact get_of_groups_set

/-- An item leaves its bucket, when it is in one. -/
theorem Coherent.remove (coherent : Coherent idOf keyOf index c) (id : String) :
    Coherent idOf keyOf (index.remove id changedKeys).1 (Function.update c id none) := by
  have known := coherent.itemKeys id
  cases old : c id with
  | none =>
    have unknown : index.itemKeys.get id = none := by rw [known, old]; rfl
    have same : Function.update c id none = c := by rw [← old, Function.update_eq_self]
    rw [same]
    unfold LiveIndex.remove
    rw [unknown]
    exact coherent
  | some item =>
    have keyed : index.itemKeys.get id = some (keyOf item) := by rw [known, old]; rfl
    have gone : ∀ key other, ((index.remove id changedKeys).1.get key).get other =
        (Function.update c id none other).filter fun item => keyOf item = key := by
      intro key other
      rw [get_remove keyed]
      by_cases at_id : other = id
      · subst at_id
        rw [Function.update_self, Option.filter_none]
        by_cases same : key = keyOf item
        · rw [if_pos same, InsertionMap.get_delete, if_pos rfl]
        · rw [if_neg same, coherent.groups, old]
          simp [Option.filter, Ne.symm same]
      · rw [Function.update_of_ne at_id, ← coherent.groups]
        by_cases same : key = keyOf item
        · rw [if_pos same, InsertionMap.get_delete, if_neg at_id, same]
        · rw [if_neg same]
    have parts : (index.remove id changedKeys).1.itemKeys = index.itemKeys.delete id ∧
        (index.remove id changedKeys).1.arrays = index.arrays.delete (keyOf item) ∧
        (index.remove id changedKeys).1.groups =
          if ((index.get (keyOf item)).delete id).entries = [] then index.groups.delete (keyOf item)
          else index.groups.set (keyOf item) ((index.get (keyOf item)).delete id) := by
      unfold LiveIndex.remove
      rw [keyed]
      exact ⟨rfl, rfl, rfl⟩
    refine ⟨gone, fun key group stored => ?_, fun other => ?_, fun key array stored => ?_,
      fun other item stored => ?_⟩
    · rw [parts.2.2] at stored
      split at stored
      · rw [InsertionMap.get_delete] at stored
        split at stored
        · cases stored
        · exact coherent.nonempty key group stored
      · next left =>
        rw [InsertionMap.get_set] at stored
        split at stored
        · obtain rfl := Option.some.inj stored
          exact left
        · exact coherent.nonempty key group stored
    · rw [parts.1, InsertionMap.get_delete]
      by_cases at_id : other = id
      · subst at_id
        simp
      · rw [if_neg at_id, Function.update_of_ne at_id, coherent.itemKeys]
    · rw [parts.2.1, InsertionMap.get_delete] at stored
      split at stored
      · cases stored
      · next apart =>
        rw [get_remove keyed, if_neg apart]
        exact coherent.arrays key array stored
    · by_cases at_id : other = id
      · subst at_id
        rw [Function.update_self] at stored
        cases stored
      · rw [Function.update_of_ne at_id] at stored
        exact coherent.keyed other item stored

theorem update_upserted (c : String → Option T) (item : T) :
    upserted idOf (Function.update c (idOf item) none) item = upserted idOf c item :=
  Function.update_idem _ _ _

theorem Coherent.upsert (coherent : Coherent idOf keyOf index c) (item : T) :
    Coherent idOf keyOf (index.upsert idOf keyOf item changedKeys).1 (upserted idOf c item) := by
  have known := coherent.itemKeys (idOf item)
  unfold LiveIndex.upsert
  cases old : c (idOf item) with
  | none =>
    rw [known, old]
    exact coherent.insertAt fun other stored => by cases old.symm.trans stored
  | some former =>
    rw [known, old]
    dsimp only [Option.map_some]
    split
    · next same =>
      refine coherent.insertAt fun other stored => ?_
      obtain rfl := Option.some.inj (old.symm.trans stored)
      exact same.2
    · rw [← update_upserted]
      refine (coherent.remove (idOf item)).insertAt fun other stored => ?_
      rw [Function.update_self] at stored
      cases stored

/-! ### What is reported -/

/-- Every bucket that is not as it was is among the keys. -/
def Reports (before index : LiveIndex K T C) (keys : List K) : Prop :=
  ∀ key, index.get key ≠ before.get key → key ∈ keys

theorem mem_addKey {keys : List K} {key other : K} : other ∈ addKey keys key ↔ other ∈ keys ∨ other = key := by
  unfold addKey
  split
  · next among =>
    refine ⟨.inl, ?_⟩
    rintro (listed | rfl)
    · exact listed
    · exact among
  · simp

theorem mem_foldl_addKey {keys more : List K} {key : K} :
    key ∈ more.foldl addKey keys ↔ key ∈ keys ∨ key ∈ more := by
  induction more generalizing keys with
  | nil => simp
  | cons first rest ih => rw [List.foldl_cons, ih, mem_addKey, List.mem_cons, or_assoc]

theorem Reports.insertAt {key : K} {item : T} {keys : List K} (reports : Reports before index changedKeys)
    (onward : ∀ other, other ∈ changedKeys ∨ other = key → other ∈ keys) :
    Reports before (index.insertAt idOf key item) keys := by
  intro other differs
  rw [get_insertAt] at differs
  split at differs
  · next same => exact onward other (.inr same)
  · exact onward other (.inl (reports other differs))

theorem Reports.remove (reports : Reports before index changedKeys) (id : String) :
    Reports before (index.remove id changedKeys).1 (index.remove id changedKeys).2 := by
  cases known : index.itemKeys.get id with
  | none =>
    unfold LiveIndex.remove
    rw [known]
    exact reports
  | some key =>
    have listed : (index.remove id changedKeys).2 = addKey changedKeys key := by
      unfold LiveIndex.remove
      rw [known]
    intro other differs
    rw [get_remove known] at differs
    rw [listed, mem_addKey]
    split at differs
    · next same => exact .inr same
    · exact .inl (reports other differs)

theorem Reports.upsert (reports : Reports before index changedKeys) (item : T) :
    Reports before (index.upsert idOf keyOf item changedKeys).1 (index.upsert idOf keyOf item changedKeys).2 := by
  unfold LiveIndex.upsert
  dsimp only
  split
  · exact reports.insertAt fun other => mem_addKey.mpr
  · split
    · next same =>
      rw [same.2]
      exact reports.insertAt fun other => mem_addKey.mpr
    · exact (reports.remove _).insertAt fun other => mem_addKey.mpr

/-! ### Patches and rebuilds -/

theorem patch_keeps (coherent : Coherent idOf keyOf index c) (changes : CollectionChanges T) :
    Coherent idOf keyOf (index.patch idOf keyOf changes).1 (patched idOf changes c) ∧
      Reports index (index.patch idOf keyOf changes).1 (index.patch idOf keyOf changes).2 := by
  have removals : ∀ (ids : List String) (at_ : LiveIndex K T C × List K) (c : String → Option T),
      Coherent idOf keyOf at_.1 c → Reports index at_.1 at_.2 →
      Coherent idOf keyOf (ids.foldl (fun at_ id => at_.1.remove id at_.2) at_).1
          (ids.foldl (fun c id => Function.update c id none) c) ∧
        Reports index (ids.foldl (fun at_ id => at_.1.remove id at_.2) at_).1
          (ids.foldl (fun at_ id => at_.1.remove id at_.2) at_).2 := by
    intro ids
    induction ids with
    | nil => exact fun at_ c coherent reports => ⟨coherent, reports⟩
    | cons id rest ih =>
      intro at_ c coherent reports
      exact ih _ _ (coherent.remove id) (reports.remove id)
  have upserts : ∀ (items : List T) (at_ : LiveIndex K T C × List K) (c : String → Option T),
      Coherent idOf keyOf at_.1 c → Reports index at_.1 at_.2 →
      Coherent idOf keyOf (items.foldl (fun at_ item => at_.1.upsert idOf keyOf item at_.2) at_).1
          (items.foldl (upserted idOf) c) ∧
        Reports index (items.foldl (fun at_ item => at_.1.upsert idOf keyOf item at_.2) at_).1
          (items.foldl (fun at_ item => at_.1.upsert idOf keyOf item at_.2) at_).2 := by
    intro items
    induction items with
    | nil => exact fun at_ c coherent reports => ⟨coherent, reports⟩
    | cons item rest ih =>
      intro at_ c coherent reports
      exact ih _ _ (coherent.upsert item) (reports.upsert item)
  obtain ⟨removed, reported⟩ := removals changes.deletes (index, []) c coherent fun key differs =>
    absurd rfl differs
  exact upserts changes.upserts _ _ removed reported

/-- The items of a collection stand under their own ids. -/
def Keyed (idOf : T → String) (items : InsertionMap String T) : Prop :=
  ∀ id item, items.get id = some item → idOf item = id

theorem foldl_upserted_values {items : InsertionMap String T} (keyed : Keyed idOf items) :
    items.values.foldl (upserted idOf) (fun _ => none) = items.get := by
  rw [InsertionMap.values, List.foldl_map, ← InsertionMap.foldl_update_entries]
  refine List.foldl_ext _ _ _ fun c entry among => ?_
  rw [upserted, keyed entry.1 entry.2 (InsertionMap.get_eq_some_iff.mpr among)]

theorem rebuild_coherent {items : InsertionMap String T} (keyed : Keyed idOf items) :
    Coherent idOf keyOf (index.rebuild idOf keyOf items.values) items.get := by
  have inserts : ∀ (values : List T) (index : LiveIndex K T C) (c : String → Option T),
      Coherent idOf keyOf index c → (values.map idOf).Nodup → (∀ item ∈ values, c (idOf item) = none) →
      Coherent idOf keyOf (values.foldl (LiveIndex.insert idOf keyOf) index) (values.foldl (upserted idOf) c) := by
    intro values
    induction values with
    | nil => exact fun index c coherent _ _ => coherent
    | cons item rest ih =>
      intro index c coherent nodup fresh
      obtain ⟨apart, rest_nodup⟩ := List.nodup_cons.mp nodup
      refine ih _ _ (coherent.insertAt fun old stored => ?_) rest_nodup fun other among => ?_
      · cases (fresh item List.mem_cons_self).symm.trans stored
      · have different : idOf other ≠ idOf item := fun same => apart (same ▸ List.mem_map_of_mem among)
        rw [upserted, Function.update_of_ne different]
        exact fresh other (List.mem_cons_of_mem _ among)
  have own : items.values.map idOf = items.entries.map Prod.fst := by
    rw [InsertionMap.values, List.map_map]
    exact List.map_congr_left fun entry among => keyed entry.1 entry.2 (InsertionMap.get_eq_some_iff.mpr among)
  rw [← foldl_upserted_values keyed]
  exact inserts items.values _ _ (coherent_empty _ _ _ _) (own ▸ items.nodup) fun _ _ => rfl

theorem rebuild_reports {items : List T} {keys : List K}
    (listed : ∀ key, key ∈ index.groups.keys ∨ key ∈ (index.rebuild idOf keyOf items).groups.keys → key ∈ keys) :
    Reports index (index.rebuild idOf keyOf items) keys := by
  intro key differs
  refine listed key ?_
  rw [InsertionMap.mem_keys, InsertionMap.mem_keys]
  cases before : index.groups.get key with
  | some group => exact .inl rfl
  | none =>
    cases after : (index.rebuild idOf keyOf items).groups.get key with
    | some group => exact .inr rfl
    | none => exact absurd (by rw [LiveIndex.get, LiveIndex.get, before, after]) differs

/-! ### Runs -/

theorem get_foldl_delete (items : InsertionMap String T) (ids : List String) :
    (ids.foldl InsertionMap.delete items).get = ids.foldl (fun c id => Function.update c id none) items.get := by
  induction ids generalizing items with
  | nil => rfl
  | cons id rest ih =>
    rw [List.foldl_cons, ih, List.foldl_cons]
    congr 1
    funext other
    rw [InsertionMap.get_delete, Function.update_apply]

theorem get_foldl_set (items : InsertionMap String T) (upserts : List T) :
    (upserts.foldl (fun target item => target.set (idOf item) item) items).get =
      upserts.foldl (upserted idOf) items.get := by
  induction upserts generalizing items with
  | nil => rfl
  | cons item rest ih =>
    rw [List.foldl_cons, ih, List.foldl_cons]
    congr 1
    funext other
    rw [InsertionMap.get_set, upserted, Function.update_apply]

theorem get_applyCollectionDiff {items : InsertionMap String T} {diff : CollectionDiff T}
    (kept : diff.sequence ≠ 0) : (applyCollectionDiff idOf items diff).get =
      patched idOf ⟨some diff.sequence, false, diff.deletes, diff.upserts⟩ items.get := by
  unfold applyCollectionDiff patched
  rw [if_neg kept, get_foldl_set, get_foldl_delete]

theorem keyed_applyCollectionDiff {items : InsertionMap String T} (keyed : Keyed idOf items)
    (diff : CollectionDiff T) : Keyed idOf (applyCollectionDiff idOf items diff) := by
  have begun : Keyed idOf (if diff.sequence = 0 then .empty else items) := by
    split
    · exact fun _ _ none => nomatch none
    · exact keyed
  have deleted : ∀ (ids : List String) (items : InsertionMap String T), Keyed idOf items →
      Keyed idOf (ids.foldl InsertionMap.delete items) := by
    intro ids
    induction ids with
    | nil => exact fun items keyed => keyed
    | cons gone rest ih =>
      refine fun items keyed => ih _ fun id item stored => ?_
      rw [InsertionMap.get_delete] at stored
      split at stored
      · cases stored
      · exact keyed id item stored
  have set : ∀ (upserts : List T) (items : InsertionMap String T), Keyed idOf items →
      Keyed idOf (upserts.foldl (fun target item => target.set (idOf item) item) items) := by
    intro upserts
    induction upserts with
    | nil => exact fun items keyed => keyed
    | cons new rest ih =>
      refine fun items keyed => ih _ fun id item stored => ?_
      rw [InsertionMap.get_set] at stored
      split at stored
      · next here =>
        obtain rfl := Option.some.inj stored
        exact here.symm
      · exact keyed id item stored
  exact set _ _ (deleted _ _ begun)

/-- The index is that of the items incorporated last, and its source has changed by what it says since. -/
structure Tracked (idOf : T → String) (keyOf : T → K) (s : IndexedCollections K T C) : Prop where
  coherent : Coherent idOf keyOf s.index s.incorporated.get
  keyed : ∀ name, Keyed idOf (s.collections name).items
  first : s.index.source = none → s.index.sourceRevision = none
  own : ∀ name, s.index.source = some name → ∃ r, s.index.sourceRevision = some r ∧
    r ≤ (s.collections name).revision ∧
    (r = (s.collections name).revision → (s.collections name).items.get = s.incorporated.get) ∧
    (r + 1 = (s.collections name).revision → (s.collections name).changes.reset = false →
      (s.collections name).items.get = patched idOf (s.collections name).changes s.incorporated.get)

variable {s t : IndexedCollections K T C} {event : IndexEvent K T C} {items : InsertionMap String T}

/-- The groups of an index say which items it is of. -/
theorem groups_iff (coherent : Coherent idOf keyOf index c)
    (reports : index ≠ before → Reports before index index.changes.keys) :
    Groups keyOf index before items ↔ items.get = c := by
  constructor
  · rintro ⟨groups, -, -, -⟩
    funext id
    cases listed : items.get id with
    | some item =>
      have here := groups (keyOf item) id
      rw [coherent.groups, listed, Option.filter_some_pos (by simp)] at here
      exact (Option.filter_eq_some_iff.mp here).1.symm
    | none =>
      cases stored : c id with
      | none => rfl
      | some item =>
        have here := groups (keyOf item) id
        rw [coherent.groups, listed, stored, Option.filter_some_pos (by simp)] at here
        exact nomatch here
  · rintro rfl
    refine ⟨coherent.groups, coherent.nonempty, fun key => ?_, fun changed => reports changed⟩
    unfold LiveIndex.values
    cases cached : index.arrays.get key with
    | some array => exact coherent.arrays key array cached
    | none => rfl

theorem Coherent.values (coherent : Coherent idOf keyOf index c) (key : K) :
    Coherent idOf keyOf (index.values key).2 c := by
  unfold LiveIndex.values
  split
  · exact coherent
  · refine ⟨coherent.groups, coherent.nonempty, coherent.itemKeys, fun other array stored => ?_, coherent.keyed⟩
    rw [InsertionMap.get_set] at stored
    split at stored
    · next same =>
      subst same
      exact (Option.some.inj stored).symm
    · exact coherent.arrays other array stored

theorem source_values (key : K) : (index.values key).2.source = index.source ∧
    (index.values key).2.sourceRevision = index.sourceRevision := by
  unfold LiveIndex.values
  split <;> exact ⟨rfl, rfl⟩

/-- Right after an update that took in items, the index is tracked with its new source. -/
theorem tracked_incorporated {name : C} {next : LiveIndex K T C} (tracked : Tracked idOf keyOf s)
    (coherent : Coherent idOf keyOf next (s.collections name).items.get) (changes : LiveIndexChanges K) :
    Tracked idOf keyOf ⟨s.collections,
      { next with
        source := some name
        sourceRevision := some (s.collections name).revision
        revision := s.index.revision + 1
        changes },
      (s.collections name).items, some (name, s.index)⟩ where
  coherent := ⟨coherent.groups, coherent.nonempty, coherent.itemKeys, coherent.arrays, coherent.keyed⟩
  keyed := tracked.keyed
  first none := nomatch none
  own other source := by
    obtain rfl := Option.some.inj source
    exact ⟨_, rfl, Nat.le_refl _, fun _ => rfl, fun follows => absurd follows (Nat.succ_ne_self _)⟩

/-- What an update takes in, kept or patched or built anew, is right just when the collection accounts for its
items. -/
theorem incorporate_step {name : C} (tracked : Tracked idOf keyOf s)
    (moved : s.index.sourceRevision ≠ some (s.collections name).revision) :
    ∃ c, Coherent idOf keyOf (s.index.incorporate idOf keyOf (s.collections name)).1 c ∧
      Reports s.index (s.index.incorporate idOf keyOf (s.collections name)).1
        (s.index.incorporate idOf keyOf (s.collections name)).2.keys ∧
      ((s.collections name).items.get = c ↔ Accounts idOf s (.update name)) := by
  unfold LiveIndex.incorporate
  split
  · next rebuilds =>
    refine ⟨_, rebuild_coherent (tracked.keyed name), rebuild_reports fun key listed => ?_, ?_⟩
    · rw [mem_foldl_addKey, mem_foldl_addKey]
      exact listed.imp_left .inr
    · refine iff_of_true rfl fun _ _ _ => ⟨fun same => absurd same moved, fun follows kept => ?_⟩
      rcases rebuilds with never | skipped | reset
      · rw [never] at follows
        cases follows
      · exact absurd follows skipped
      · rw [reset] at kept
        cases kept
  · next patches =>
    obtain ⟨coherent, reports⟩ := patch_keeps tracked.coherent (s.collections name).changes
    refine ⟨_, coherent, reports, ?_⟩
    unfold LiveIndex.Rebuilds at patches
    push Not at patches
    obtain ⟨started, follows, kept⟩ := patches
    have unreset : (s.collections name).changes.reset = false := by simpa using kept
    refine ⟨fun patched other _ _ => ⟨fun same => absurd same moved, fun _ _ => patched⟩, fun accounts => ?_⟩
    cases source : s.index.source with
    | none => exact absurd (tracked.first source) started
    | some other =>
      by_cases here : other = name
      · subst here
        obtain ⟨r, incorporated, -, -, next⟩ := tracked.own other source
        rw [incorporated] at follows
        exact next (Option.some.inj follows) unreset
      · exact (accounts other source here).2 follows unreset

theorem update_step {name : C} (tracked : Tracked idOf keyOf s) :
    (Groups keyOf (s.index.update idOf keyOf name (s.collections name)) s.index (s.collections name).items ↔
        Accounts idOf s (.update name)) ∧
      (Groups keyOf (s.index.update idOf keyOf name (s.collections name)) s.index (s.collections name).items →
        Tracked idOf keyOf ⟨s.collections, s.index.update idOf keyOf name (s.collections name),
          (s.collections name).items, some (name, s.index)⟩) := by
  unfold LiveIndex.update
  split
  · next same =>
    have exactly : Groups keyOf s.index s.index (s.collections name).items ↔
        (s.collections name).items.get = s.incorporated.get :=
      groups_iff tracked.coherent fun changed => absurd rfl changed
    refine ⟨exactly.trans ⟨fun held other _ _ => ⟨fun _ => held, fun follows => ?_⟩, fun accounts => ?_⟩,
      fun groups => ?_⟩
    · rw [same] at follows
      exact absurd (Option.some.inj follows) (Nat.succ_ne_self _)
    · cases source : s.index.source with
      | none =>
        rw [tracked.first source] at same
        cases same
      | some other =>
        by_cases here : other = name
        · subst here
          obtain ⟨r, incorporated, -, current, -⟩ := tracked.own other source
          exact current (Option.some.inj (incorporated.symm.trans same))
        · exact (accounts other source here).1 same
    · have held := exactly.mp groups
      refine ⟨?_, tracked.keyed, tracked.first, fun other source => ?_⟩
      · rw [held]
        exact tracked.coherent
      · rw [held]
        exact tracked.own other source
  · next moved =>
    obtain ⟨c, coherent, reports, accounts⟩ := incorporate_step tracked moved
    have exactly : Groups keyOf { (s.index.incorporate idOf keyOf (s.collections name)).1 with
        source := some name
        sourceRevision := some (s.collections name).revision
        revision := s.index.revision + 1
        changes := (s.index.incorporate idOf keyOf (s.collections name)).2 } s.index (s.collections name).items ↔
        (s.collections name).items.get = c :=
      groups_iff ⟨coherent.groups, coherent.nonempty, coherent.itemKeys, coherent.arrays, coherent.keyed⟩
        fun _ => reports
    refine ⟨exactly.trans accounts, fun groups => ?_⟩
    obtain rfl := exactly.mp groups
    exact tracked_incorporated tracked coherent _

theorem tracked_start : Tracked idOf keyOf (IndexedCollections.start : IndexedCollections K T C) where
  coherent := coherent_empty _ _ _ _
  keyed _ _ _ none := nomatch none
  first _ := rfl
  own _ none := nomatch none

theorem Tracked.values (tracked : Tracked idOf keyOf s) (key : K) :
    Tracked idOf keyOf { s with index := (s.index.values key).2, updated := none } where
  coherent := tracked.coherent.values key
  keyed := tracked.keyed
  first source := (source_values key).2.trans (tracked.first ((source_values key).1.symm.trans source))
  own name source := by
    rw [(source_values key).2]
    exact tracked.own name ((source_values key).1.symm.trans source)

variable [DecidableEq C]

theorem Tracked.apply (tracked : Tracked idOf keyOf s) (name : C) (diff : CollectionDiff T) :
    Tracked idOf keyOf { s with
      collections := Function.update s.collections name ((s.collections name).apply idOf diff)
      updated := none } where
  coherent := tracked.coherent
  keyed other := by
    by_cases here : other = name
    · subst here
      simp only [Function.update_self]
      exact keyed_applyCollectionDiff (tracked.keyed other) diff
    · simp only [Function.update_of_ne here]
      exact tracked.keyed other
  first := tracked.first
  own other source := by
    obtain ⟨r, incorporated, bound, same, next⟩ := tracked.own other source
    refine ⟨r, incorporated, ?_⟩
    by_cases here : other = name
    · subst here
      simp only [Function.update_self, LiveCollection.apply]
      refine ⟨by omega, fun equal => by omega, fun follows kept => ?_⟩
      have resets : diff.sequence ≠ 0 := by simpa using kept
      rw [get_applyCollectionDiff resets, same (by omega), decide_eq_false resets]
    · simp only [Function.update_of_ne here]
      exact ⟨bound, same, next⟩

theorem Tracked.fail (tracked : Tracked idOf keyOf s) (name : C) :
    Tracked idOf keyOf { s with
      collections := Function.update s.collections name (s.collections name).fail
      updated := none } where
  coherent := tracked.coherent
  keyed other := by
    by_cases here : other = name
    · subst here
      simp only [Function.update_self]
      exact tracked.keyed other
    · simp only [Function.update_of_ne here]
      exact tracked.keyed other
  first := tracked.first
  own other source := by
    obtain ⟨r, incorporated, bound, same, next⟩ := tracked.own other source
    refine ⟨r, incorporated, ?_⟩
    by_cases here : other = name
    · subst here
      simp only [Function.update_self, LiveCollection.fail]
      exact ⟨by omega, fun equal => by omega, fun follows _ => same (by omega)⟩
    · simp only [Function.update_of_ne here]
      exact ⟨bound, same, next⟩

theorem index_step (tracked : Tracked idOf keyOf s) (stepped : s.step idOf keyOf event = some t) :
    (t.EqualsGrouping keyOf ↔ Accounts idOf s event) ∧
      (t.EqualsGrouping keyOf → Tracked idOf keyOf t) := by
  cases event with
  | apply name diff =>
    obtain rfl := Option.some.inj stepped
    exact ⟨iff_of_true (fun _ _ none => nomatch none) trivial, fun _ => tracked.apply name diff⟩
  | fail name =>
    obtain rfl := Option.some.inj stepped
    exact ⟨iff_of_true (fun _ _ none => nomatch none) trivial, fun _ => tracked.fail name⟩
  | values key =>
    obtain rfl := Option.some.inj stepped
    exact ⟨iff_of_true (fun _ _ none => nomatch none) trivial, fun _ => tracked.values key⟩
  | update name =>
    obtain rfl := Option.some.inj stepped
    have grouping : IndexedCollections.EqualsGrouping keyOf
        ⟨s.collections, s.index.update idOf keyOf name (s.collections name), (s.collections name).items,
          some (name, s.index)⟩ ↔
        Groups keyOf (s.index.update idOf keyOf name (s.collections name)) s.index (s.collections name).items := by
      refine ⟨fun held => held name s.index rfl, fun groups other before updated => ?_⟩
      obtain ⟨rfl, rfl⟩ := Prod.mk.inj (Option.some.inj updated)
      exact groups
    obtain ⟨exactly, keeps⟩ := update_step tracked
    exact ⟨grouping.trans exactly, fun held => keeps (grouping.mp held)⟩

theorem run_total (events : List (IndexEvent K T C)) :
    ∃ t, run (IndexedCollections.step idOf keyOf) s events = some t := by
  induction events generalizing s with
  | nil => exact ⟨s, rfl⟩
  | cons event rest ih =>
    cases event <;> exact ih

/-- The groups are those of the collection after every update of a run just when every update from another
collection than the last one accounts for its items. -/
theorem equals_grouping_iff_accounts (idOf : T → String) (keyOf : T → K) (events : List (IndexEvent K T C)) :
    Always (IndexedCollections.step idOf keyOf) (IndexedCollections.EqualsGrouping keyOf) .start events ↔
      Each (IndexedCollections.step idOf keyOf) (Accounts idOf) .start events := by
  obtain ⟨t, ran⟩ : ∃ t, run (IndexedCollections.step idOf keyOf) .start events = some t := run_total events
  exact always_iff_each (Tracked idOf keyOf) ran tracked_start (fun _ _ none => nomatch none)
    (fun tracked _ stepped after => (index_step tracked stepped).2 after)
    (fun tracked _ stepped => (index_step tracked stepped).1)

/-- Two collections with one item each, at the same revision: an update from the second keeps the groups of
the first. -/
theorem equal_revision_keeps_groups : ∃ s : IndexedCollections String (String × String) Bool,
    run (IndexedCollections.step Prod.fst Prod.snd) .start
      [.apply true ⟨0, [], [("a", "red")]⟩, .update true, .apply false ⟨0, [], [("b", "red")]⟩, .update false] =
        some s ∧ ¬ s.EqualsGrouping Prod.snd := by
  refine ⟨_, rfl, fun held => ?_⟩
  have grouped := (held false _ rfl).groups "red" "b"
  exact absurd grouped (by decide)

end Myko.TypeScript.Grouping

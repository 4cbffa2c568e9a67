import Myko.Item

/-!
The index behind queries routed by foreign key: the items of the store by compound key, and how a diff of
the store becomes one diff for each bucket somebody watches.
-/

namespace Myko.Query

/-- The values of the fields a query is routed by, in the order of the fields. -/
abbrev CompoundKey := List String

instance (key : CompoundKey) (keys : List CompoundKey) : Decidable (key ∈ keys) := inferInstance

/-- Read the fields of an item; none when one of them is not set. -/
abbrev FkExtractor := Item → Option CompoundKey

abbrev ItemMap := OrdMap String Item

abbrev ItemDiff := MapDiff String Item

/-- The rows of each compound key, empty for a key without rows. -/
abbrev Members := CompoundKey → ItemMap

/-- Changes by the compound key of the bucket they go to. -/
abbrev Grouped := List (CompoundKey × List ItemDiff)

/-- A diff and the bucket it is applied to. -/
abbrev BucketAction := CompoundKey × ItemDiff

def pushChange (grouped : Grouped) (foreignKey : Option CompoundKey) (diff : ItemDiff) : Grouped :=
  match foreignKey with
  | none => grouped
  | some key => push grouped key
where
  push : Grouped → CompoundKey → Grouped
    | [], key => [(key, [diff])]
    | entry :: rest, key =>
      if entry.1 = key then (key, entry.2 ++ [diff]) :: rest else entry :: push rest key

def groupChange (extractFk : FkExtractor) (grouped : Grouped) : ItemDiff → Grouped
  | .insert key value => pushChange grouped (extractFk value) (.insert key value)
  | .remove key oldValue => pushChange grouped (extractFk oldValue) (.remove key oldValue)
  | .update key oldValue newValue =>
    if extractFk oldValue = extractFk newValue then
      pushChange grouped (extractFk newValue) (.update key oldValue newValue)
    else
      pushChange (pushChange grouped (extractFk oldValue) (.remove key oldValue)) (extractFk newValue)
        (.insert key newValue)
  | .initial _ | .batch _ => grouped

def rowChange (rows : ItemMap) : ItemDiff → ItemMap
  | .insert key value => rows.insert key value
  | .update key _ newValue => rows.insert key newValue
  | .remove key _ => rows.erase key
  | .initial _ | .batch _ => rows

def changesOf (grouped : Grouped) (key : CompoundKey) : List ItemDiff :=
  ((grouped.find? fun entry => entry.1 = key).map Prod.snd).getD []

/-- Write the grouped changes into the rows of their keys and hand them to the buckets watched. -/
def applyGrouped (watched : List CompoundKey) (grouped : Grouped) (members : Members) :
    List BucketAction × Members :=
  (grouped.filterMap fun entry => if entry.1 ∈ watched then some (entry.1, .batch entry.2) else none,
    fun key => (changesOf grouped key).foldl rowChange (members key))

def membersOf (extractFk : FkExtractor) (entries : List (String × Item)) : Members := fun key =>
  OrdMap.insertMany ∅ (entries.filter fun entry => extractFk entry.2 = some key)

mutual
/-- The bucket actions a diff of the store comes to, those of one pass over a hash map together, and the
rows after it. -/
def prepareDiff (extractFk : FkExtractor) (watched : List CompoundKey) :
    ItemDiff → Members → List (List BucketAction) × Members
  | .initial entries, _ =>
    let members := membersOf extractFk entries
    ([watched.map fun key => (key, .initial (members key).toList)], members)
  | .batch changes, members => prepareChanges extractFk watched changes [] members
  | .insert key value, members =>
    let (actions, members) := applyGrouped watched (groupChange extractFk [] (.insert key value)) members
    ([actions], members)
  | .remove key oldValue, members =>
    let (actions, members) := applyGrouped watched (groupChange extractFk [] (.remove key oldValue)) members
    ([actions], members)
  | .update key oldValue newValue, members =>
    let (actions, members) :=
      applyGrouped watched (groupChange extractFk [] (.update key oldValue newValue)) members
    ([actions], members)

def prepareChanges (extractFk : FkExtractor) (watched : List CompoundKey) :
    List ItemDiff → Grouped → Members → List (List BucketAction) × Members
  | [], grouped, members =>
    let (actions, members) := applyGrouped watched grouped members
    ([actions], members)
  | .initial entries :: rest, grouped, members =>
    let (before, members) := applyGrouped watched grouped members
    let (inner, members) := prepareDiff extractFk watched (.initial entries) members
    let (after, members) := prepareChanges extractFk watched rest [] members
    (before :: inner ++ after, members)
  | .batch changes :: rest, grouped, members =>
    let (before, members) := applyGrouped watched grouped members
    let (inner, members) := prepareDiff extractFk watched (.batch changes) members
    let (after, members) := prepareChanges extractFk watched rest [] members
    (before :: inner ++ after, members)
  | .insert key value :: rest, grouped, members =>
    prepareChanges extractFk watched rest (groupChange extractFk grouped (.insert key value)) members
  | .remove key oldValue :: rest, grouped, members =>
    prepareChanges extractFk watched rest (groupChange extractFk grouped (.remove key oldValue)) members
  | .update key oldValue newValue :: rest, grouped, members =>
    prepareChanges extractFk watched rest (groupChange extractFk grouped (.update key oldValue newValue))
      members
end

/-! ### Rows and what they hold -/

variable {extractFk : FkExtractor} {watched : List CompoundKey}

/-- The rows of every key are the stored items that have it. -/
def Members.Exact (extractFk : FkExtractor) (members : Members) (store : ItemMap) : Prop :=
  ∀ (key : CompoundKey) (id : String) (item : Item),
    (members key)[id]? = some item ↔ store[id]? = some item ∧ extractFk item = some key

def isFlat : ItemDiff → Bool
  | .insert _ _ | .remove _ _ | .update _ _ _ => true
  | .initial _ | .batch _ => false

def rowsAfter (grouped : Grouped) (members : Members) : Members := fun key =>
  (changesOf grouped key).foldl rowChange (members key)

theorem changesOf_push (grouped : Grouped) (k key : CompoundKey) (diff : ItemDiff) :
    changesOf (pushChange grouped (some k) diff) key =
      if key = k then changesOf grouped key ++ [diff] else changesOf grouped key := by
  show changesOf (pushChange.push diff grouped k) key = _
  induction grouped with
  | nil =>
    by_cases here : key = k
    · subst here; simp [pushChange.push, changesOf]
    · simp [pushChange.push, changesOf, here, Ne.symm here]
  | cons entry rest ih =>
    by_cases first : entry.1 = k
    · subst first
      by_cases here : key = entry.1
      · subst here; simp [pushChange.push, changesOf]
      · simp [pushChange.push, changesOf, here, Ne.symm here]
    · by_cases here : entry.1 = key
      · have other : key ≠ k := fun same => first (here.trans same)
        simp [pushChange.push, changesOf, here, other]
      · simpa [pushChange.push, changesOf, first, here] using ih

theorem keys_push (grouped : Grouped) (k : CompoundKey) (diff : ItemDiff) :
    (pushChange grouped (some k) diff).map Prod.fst =
      if k ∈ grouped.map Prod.fst then grouped.map Prod.fst else grouped.map Prod.fst ++ [k] := by
  show (pushChange.push diff grouped k).map Prod.fst = _
  induction grouped with
  | nil => rfl
  | cons entry rest ih =>
    by_cases first : entry.1 = k
    · simp [pushChange.push, first]
    · rw [pushChange.push, if_neg first, List.map_cons, ih]
      by_cases later : k ∈ rest.map Prod.fst
      · rw [if_pos later, if_pos (by simp [later])]
        rfl
      · rw [if_neg later, if_neg (by
          rw [List.map_cons, List.mem_cons, not_or]
          exact ⟨Ne.symm first, later⟩)]
        rfl

theorem rowsAfter_push (grouped : Grouped) (members : Members) (foreignKey : Option CompoundKey)
    (diff : ItemDiff) (key : CompoundKey) :
    rowsAfter (pushChange grouped foreignKey diff) members key =
      if foreignKey = some key then rowChange (rowsAfter grouped members key) diff
      else rowsAfter grouped members key := by
  cases foreignKey with
  | none => rfl
  | some k =>
    unfold rowsAfter
    rw [changesOf_push]
    by_cases here : key = k
    · subst here
      simp
    · rw [if_neg here, if_neg (by simpa using Ne.symm here)]

/-- Changes that are grouped but not yet written: with them the rows are those of the store. -/
structure Pending (extractFk : FkExtractor) (members : Members) (store : ItemMap) (grouped : Grouped) :
    Prop where
  keys : (grouped.map Prod.fst).Nodup
  flat : ∀ entry ∈ grouped, ∀ change ∈ entry.2, isFlat change = true
  exact : (rowsAfter grouped members).Exact extractFk store

theorem pending_nil {members : Members} {store : ItemMap} (exact : members.Exact extractFk store) :
    Pending extractFk members store [] where
  keys := List.nodup_nil
  flat _ member := by cases member
  exact := exact

theorem keys_pushChange {grouped : Grouped} (keys : (grouped.map Prod.fst).Nodup)
    (foreignKey : Option CompoundKey) (diff : ItemDiff) :
    ((pushChange grouped foreignKey diff).map Prod.fst).Nodup := by
  cases foreignKey with
  | none => exact keys
  | some k =>
    rw [keys_push]
    split
    · exact keys
    · rename_i absent
      exact List.nodup_append.mpr ⟨keys, List.nodup_singleton k, fun a member b last => by
        rw [List.mem_singleton.mp last]
        exact fun same => absent (same ▸ member)⟩

theorem flat_pushChange {grouped : Grouped} (flat : ∀ entry ∈ grouped, ∀ change ∈ entry.2, isFlat change = true)
    (foreignKey : Option CompoundKey) {diff : ItemDiff} (isOne : isFlat diff = true) :
    ∀ entry ∈ pushChange grouped foreignKey diff, ∀ change ∈ entry.2, isFlat change = true := by
  cases foreignKey with
  | none => exact flat
  | some k =>
    show ∀ entry ∈ pushChange.push diff grouped k, ∀ change ∈ entry.2, isFlat change = true
    induction grouped with
    | nil =>
      intro entry member change listed
      obtain rfl := List.mem_singleton.mp member
      rw [List.mem_singleton.mp listed]
      exact isOne
    | cons first rest ih =>
      have firstFlat := flat first List.mem_cons_self
      have restFlat := ih fun entry member => flat entry (List.mem_cons_of_mem _ member)
      intro entry member change listed
      by_cases here : first.1 = k
      · rw [pushChange.push, if_pos here, List.mem_cons] at member
        rcases member with rfl | member
        · rcases List.mem_append.mp listed with old | new
          · exact firstFlat change old
          · rw [List.mem_singleton.mp new]
            exact isOne
        · exact flat entry (List.mem_cons_of_mem _ member) change listed
      · rw [pushChange.push, if_neg here, List.mem_cons] at member
        rcases member with rfl | member
        · exact firstFlat change listed
        · exact restFlat entry member change listed

/-- Grouping one more change follows the store by it. -/
theorem pending_change {members : Members} {store : ItemMap} {grouped : Grouped} {change : ItemDiff}
    (pending : Pending extractFk members store grouped) (flat : isFlat change = true)
    (trueOld : change.TrueOf store) :
    Pending extractFk members (change.apply store) (groupChange extractFk grouped change) := by
  have exact := pending.exact
  cases change with
  | initial entries => cases flat
  | batch changes => cases flat
  | insert id value =>
    refine ⟨keys_pushChange pending.keys _ _, flat_pushChange pending.flat _ flat, fun key j item => ?_⟩
    have absent : store[id]? = none := trueOld
    rw [groupChange, rowsAfter_push, MapDiff.apply, OrdMap.get_insert]
    by_cases here : j = id
    · subst here
      rw [if_pos rfl]
      split
      · rename_i routed
        rw [rowChange, OrdMap.get_insert, if_pos rfl, Option.some.injEq]
        exact ⟨fun same => ⟨same, same ▸ routed⟩, fun both => both.1⟩
      · rename_i elsewhere
        rw [exact key j item, absent, Option.some.injEq]
        exact ⟨fun both => (by cases both.1), fun both => absurd (both.1 ▸ both.2) elsewhere⟩
    · rw [if_neg here, ← exact key j item]
      split
      · rw [rowChange, OrdMap.get_insert, if_neg here]
      · exact Iff.rfl
  | remove id old =>
    refine ⟨keys_pushChange pending.keys _ _, flat_pushChange pending.flat _ flat, fun key j item => ?_⟩
    have stored : store[id]? = some old := trueOld
    rw [groupChange, rowsAfter_push, MapDiff.apply, OrdMap.get_erase]
    by_cases here : j = id
    · subst here
      rw [if_pos rfl]
      split
      · rw [rowChange, OrdMap.get_erase, if_pos rfl]
        simp
      · rename_i elsewhere
        rw [exact key j item, stored, Option.some.injEq]
        exact ⟨fun both => absurd (both.1 ▸ both.2) elsewhere, fun both => (by cases both.1)⟩
    · rw [if_neg here, ← exact key j item]
      split
      · rw [rowChange, OrdMap.get_erase, if_neg here]
      · exact Iff.rfl
  | update id old new =>
    have stored : store[id]? = some old := trueOld
    by_cases same : extractFk old = extractFk new
    · have grouping : groupChange extractFk grouped (.update id old new) =
          pushChange grouped (extractFk new) (.update id old new) := if_pos same
      rw [grouping]
      refine ⟨keys_pushChange pending.keys _ _, flat_pushChange pending.flat _ flat, fun key j item => ?_⟩
      rw [rowsAfter_push, MapDiff.apply, OrdMap.get_insert]
      by_cases here : j = id
      · subst here
        rw [if_pos rfl]
        split
        · rename_i routed
          rw [rowChange, OrdMap.get_insert, if_pos rfl, Option.some.injEq]
          exact ⟨fun eq => ⟨eq, eq ▸ routed⟩, fun both => both.1⟩
        · rename_i elsewhere
          rw [exact key j item, stored, Option.some.injEq, Option.some.injEq]
          exact ⟨fun both => absurd (same.symm.trans (both.1 ▸ both.2)) elsewhere,
            fun both => absurd (both.1 ▸ both.2) elsewhere⟩
      · rw [if_neg here, ← exact key j item]
        split
        · rw [rowChange, OrdMap.get_insert, if_neg here]
        · exact Iff.rfl
    · have grouping : groupChange extractFk grouped (.update id old new) =
          pushChange (pushChange grouped (extractFk old) (.remove id old)) (extractFk new) (.insert id new) :=
        if_neg same
      rw [grouping]
      refine ⟨keys_pushChange (keys_pushChange pending.keys _ _) _ _,
        flat_pushChange (flat_pushChange pending.flat _ rfl) _ rfl, fun key j item => ?_⟩
      rw [rowsAfter_push, rowsAfter_push, MapDiff.apply, OrdMap.get_insert]
      by_cases here : j = id
      · subst here
        rw [if_pos rfl]
        split
        · rename_i routed
          rw [rowChange, OrdMap.get_insert, if_pos rfl, Option.some.injEq]
          exact ⟨fun eq => ⟨eq, eq ▸ routed⟩, fun both => both.1⟩
        · rename_i elsewhere
          rw [Option.some.injEq]
          split
          · rw [rowChange, OrdMap.get_erase, if_pos rfl]
            exact ⟨fun eq => (by cases eq), fun both => absurd (both.1 ▸ both.2) elsewhere⟩
          · rename_i notOld
            rw [exact key j item, stored, Option.some.injEq]
            exact ⟨fun both => absurd (both.1 ▸ both.2) notOld, fun both => absurd (both.1 ▸ both.2) elsewhere⟩
      · rw [if_neg here, ← exact key j item]
        have untouched : ∀ rows : ItemMap,
            (if extractFk old = some key then rowChange rows (.remove id old) else rows)[j]? = rows[j]? := by
          intro rows
          split
          · rw [rowChange, OrdMap.get_erase, if_neg here]
          · rfl
        split
        · rw [rowChange, OrdMap.get_insert, if_neg here, untouched]
        · rw [untouched]

/-! ### What a prepared diff does to each bucket -/

/-- The diffs of one bucket, in order. -/
def actionsOf (key : CompoundKey) (actions : List BucketAction) : List ItemDiff :=
  actions.filterMap fun action => if action.1 = key then some action.2 else none

theorem actionsOf_append (key : CompoundKey) (first rest : List BucketAction) :
    actionsOf key (first ++ rest) = actionsOf key first ++ actionsOf key rest := List.filterMap_append

/-- Prepared actions bring every watched bucket from its rows before to its rows after, and touch no bucket
twice in one pass. -/
structure Prepared (extractFk : FkExtractor) (watched : List CompoundKey) (members : Members)
    (store : ItemMap) (result : List (List BucketAction) × Members) : Prop where
  exact : result.2.Exact extractFk store
  rows : ∀ key ∈ watched, MapDiff.applyAll (actionsOf key result.1.flatten) (members key) = result.2 key
  once : ∀ group ∈ result.1, (group.map Prod.fst).Nodup

theorem Prepared.trans {members middle : Members} {store : ItemMap} {first : List (List BucketAction)}
    {result : List (List BucketAction) × Members}
    (before : ∀ key ∈ watched, MapDiff.applyAll (actionsOf key first.flatten) (members key) = middle key)
    (once : ∀ group ∈ first, (group.map Prod.fst).Nodup)
    (after : Prepared extractFk watched middle store result) :
    Prepared extractFk watched members store (first ++ result.1, result.2) where
  exact := after.exact
  rows key member := by
    rw [List.flatten_append, actionsOf_append, MapDiff.applyAll_append, before key member]
    exact after.rows key member
  once group member := by
    rcases List.mem_append.mp member with early | late
    · exact once group early
    · exact after.once group late

theorem applyAll_flat {changes : List ItemDiff} (flat : ∀ change ∈ changes, isFlat change = true)
    (rows : ItemMap) : MapDiff.applyAll changes rows = changes.foldl rowChange rows := by
  induction changes generalizing rows with
  | nil => rfl
  | cons change rest ih =>
    have one : change.apply rows = rowChange rows change := by
      have isOne := flat change List.mem_cons_self
      cases change with
      | initial entries => cases isOne
      | batch changes => cases isOne
      | insert key value => rfl
      | remove key oldValue => rfl
      | update key oldValue newValue => rfl
    rw [MapDiff.applyAll, List.foldl_cons, one]
    exact ih (fun c member => flat c (List.mem_cons_of_mem _ member)) _

theorem mem_keys_applyGrouped {grouped : Grouped} {members : Members} {key : CompoundKey}
    (member : key ∈ (applyGrouped watched grouped members).1.map Prod.fst) : key ∈ grouped.map Prod.fst := by
  obtain ⟨action, listed, rfl⟩ := List.mem_map.mp member
  obtain ⟨entry, inside, made⟩ := List.mem_filterMap.mp listed
  split at made
  · cases made
    exact List.mem_map_of_mem inside
  · cases made

/-- A group becomes one batch for each of its watched keys. -/
theorem actionsOf_applyGrouped {grouped : Grouped} (members : Members)
    (keys : (grouped.map Prod.fst).Nodup) (flat : ∀ entry ∈ grouped, ∀ change ∈ entry.2, isFlat change = true)
    {key : CompoundKey} (member : key ∈ watched) (rows : ItemMap) :
    MapDiff.applyAll (actionsOf key (applyGrouped watched grouped members).1) rows =
      (changesOf grouped key).foldl rowChange rows := by
  induction grouped with
  | nil => rfl
  | cons entry rest ih =>
    have apart := List.nodup_cons.mp keys
    have later := ih apart.2 fun e listed => flat e (List.mem_cons_of_mem _ listed)
    by_cases here : entry.1 = key
    · subst here
      -- Its key comes once, so the rest of the group has nothing for this bucket.
      have nothing : actionsOf entry.1 (applyGrouped watched rest members).1 = [] := by
        refine List.filterMap_eq_nil_iff.mpr fun action listed => if_neg fun same => apart.1 ?_
        rw [← same]
        exact mem_keys_applyGrouped (List.mem_map_of_mem listed)
      have whole : actionsOf entry.1 (applyGrouped watched (entry :: rest) members).1 = [.batch entry.2] := by
        have head : (applyGrouped watched (entry :: rest) members).1 =
            (entry.1, .batch entry.2) :: (applyGrouped watched rest members).1 := by
          simp [applyGrouped, member]
        rw [head, ← List.singleton_append, actionsOf_append, nothing]
        simp [actionsOf]
      rw [whole, MapDiff.applyAll, MapDiff.applyAll, MapDiff.apply,
        applyAll_flat (flat entry List.mem_cons_self)]
      simp [changesOf]
    · have head : actionsOf key (applyGrouped watched (entry :: rest) members).1 =
          actionsOf key (applyGrouped watched rest members).1 := by
        by_cases seen : entry.1 ∈ watched <;> simp [applyGrouped, seen, actionsOf, here]
      rw [head, later]
      simp [changesOf, here]

theorem nodup_applyGrouped {grouped : Grouped} (members : Members) (keys : (grouped.map Prod.fst).Nodup) :
    ((applyGrouped watched grouped members).1.map Prod.fst).Nodup := by
  induction grouped with
  | nil => exact List.nodup_nil
  | cons entry rest ih =>
    obtain ⟨apart, later⟩ := List.nodup_cons.mp keys
    by_cases seen : entry.1 ∈ watched
    · have head : (applyGrouped watched (entry :: rest) members).1 =
          (entry.1, .batch entry.2) :: (applyGrouped watched rest members).1 := by
        simp [applyGrouped, seen]
      rw [head, List.map_cons, List.nodup_cons]
      exact ⟨fun again => apart (mem_keys_applyGrouped again), ih later⟩
    · have head : (applyGrouped watched (entry :: rest) members).1 =
          (applyGrouped watched rest members).1 := by simp [applyGrouped, seen]
      rw [head]
      exact ih later

theorem prepared_group {grouped : Grouped} {members : Members} {store : ItemMap}
    (pending : Pending extractFk members store grouped) :
    Prepared extractFk watched members store
      ([(applyGrouped watched grouped members).1], (applyGrouped watched grouped members).2) where
  exact := pending.exact
  rows key member := by
    rw [List.flatten_singleton]
    exact actionsOf_applyGrouped members pending.keys pending.flat member _
  once group listed := by
    rw [List.mem_singleton.mp listed]
    exact nodup_applyGrouped members pending.keys

theorem membersOf_exact (extractFk : FkExtractor) {entries : List (String × Item)}
    (keys : (entries.map Prod.fst).Nodup) :
    (membersOf extractFk entries).Exact extractFk (OrdMap.insertMany ∅ entries) := by
  intro key id item
  rw [membersOf, OrdMap.get_insertMany (keys.sublist (List.filter_sublist.map _)), OrdMap.get_insertMany keys,
    List.mem_filter]
  simp

theorem prepared_initial (extractFk : FkExtractor) (members : Members) {entries : List (String × Item)}
    (keys : (entries.map Prod.fst).Nodup) (nodup : watched.Nodup) :
    Prepared extractFk watched members (OrdMap.insertMany ∅ entries)
      (prepareDiff extractFk watched (.initial entries) members) where
  exact := membersOf_exact extractFk keys
  rows key member := by
    show MapDiff.applyAll (actionsOf key ([watched.map fun key =>
      (key, .initial (membersOf extractFk entries key).toList)].flatten)) (members key) = _
    have one : ∀ watched : List CompoundKey, watched.Nodup → key ∈ watched →
        actionsOf key (watched.map fun key => (key, .initial (membersOf extractFk entries key).toList)) =
          [.initial (membersOf extractFk entries key).toList] := by
      intro watched nodup member
      obtain ⟨before, after, rfl⟩ := List.append_of_mem member
      rw [List.nodup_middle, List.nodup_cons, List.mem_append, not_or] at nodup
      have none : ∀ others : List CompoundKey, key ∉ others → actionsOf key
          (others.map fun key => (key, .initial (membersOf extractFk entries key).toList)) = [] := by
        intro others absent
        refine List.filterMap_eq_nil_iff.mpr fun action listed => if_neg fun same => absent ?_
        obtain ⟨other, inside, rfl⟩ := List.mem_map.mp listed
        rwa [← show other = key from same]
      rw [List.map_append, List.map_cons, ← List.singleton_append, actionsOf_append, actionsOf_append,
        none before nodup.1.1, none after nodup.1.2]
      simp [actionsOf]
    rw [List.flatten_singleton, one watched nodup member, MapDiff.applyAll, MapDiff.applyAll, MapDiff.apply]
    exact OrdMap.insertMany_toList _
  once group listed := by
    have only : group = watched.map fun key => (key, .initial (membersOf extractFk entries key).toList) :=
      List.mem_singleton.mp listed
    rw [only, List.map_map]
    exact (List.map_id watched).symm ▸ nodup

mutual
theorem prepared_diff (extractFk : FkExtractor) (nodup : watched.Nodup) : ∀ (diff : ItemDiff) (members : Members)
    (store : ItemMap), members.Exact extractFk store → diff.TrueOf store →
    Prepared extractFk watched members (diff.apply store) (prepareDiff extractFk watched diff members)
  | .initial _, members, _, _, trueOld => prepared_initial extractFk members trueOld nodup
  | .batch changes, members, store, exact, trueOld =>
    prepared_changes extractFk nodup changes [] members store (pending_nil exact) trueOld
  | .insert _ _, _, _, exact, trueOld => prepared_group (pending_change (pending_nil exact) rfl trueOld)
  | .remove _ _, _, _, exact, trueOld => prepared_group (pending_change (pending_nil exact) rfl trueOld)
  | .update _ _ _, _, _, exact, trueOld =>
    prepared_group (pending_change (pending_nil exact) rfl trueOld)

theorem prepared_changes (extractFk : FkExtractor) (nodup : watched.Nodup) : ∀ (changes : List ItemDiff)
    (grouped : Grouped) (members : Members) (store : ItemMap), Pending extractFk members store grouped →
    MapDiff.AllTrueOf changes store →
    Prepared extractFk watched members (MapDiff.applyAll changes store)
      (prepareChanges extractFk watched changes grouped members)
  | [], _, _, _, pending, _ => prepared_group pending
  | .initial entries :: rest, _, _, store, pending, trueOld => by
    have before : Prepared extractFk watched _ store (_, _) := prepared_group pending
    have inner := prepared_diff extractFk nodup (.initial entries) _ store before.exact trueOld.1
    have after := prepared_changes extractFk nodup rest [] _ _ (pending_nil inner.exact) trueOld.2
    have joined := Prepared.trans before.rows before.once (Prepared.trans inner.rows inner.once after)
    exact joined
  | .batch changes :: rest, _, _, store, pending, trueOld => by
    have before : Prepared extractFk watched _ store (_, _) := prepared_group pending
    have inner := prepared_diff extractFk nodup (.batch changes) _ store before.exact trueOld.1
    have after := prepared_changes extractFk nodup rest [] _ _ (pending_nil inner.exact) trueOld.2
    have joined := Prepared.trans before.rows before.once (Prepared.trans inner.rows inner.once after)
    exact joined
  | .insert _ _ :: rest, _, members, _, pending, trueOld =>
    prepared_changes extractFk nodup rest _ members _ (pending_change pending rfl trueOld.1) trueOld.2
  | .remove _ _ :: rest, _, members, _, pending, trueOld =>
    prepared_changes extractFk nodup rest _ members _ (pending_change pending rfl trueOld.1) trueOld.2
  | .update _ _ _ :: rest, _, members, _, pending, trueOld =>
    prepared_changes extractFk nodup rest _ members _ (pending_change pending rfl trueOld.1) trueOld.2
end

/-! ### The order in which buckets are drained -/

/-- An order of the actions: each pass over a hash map may come out in any order. -/
def Drains (groups : List (List BucketAction)) (drained : List BucketAction) : Prop :=
  ∃ pieces : List (List BucketAction), List.Forall₂ List.Perm pieces groups ∧ drained = pieces.flatten

theorem actionsOf_once {group : List BucketAction} (once : (group.map Prod.fst).Nodup) (key : CompoundKey) :
    actionsOf key group = [] ∨ ∃ diff, actionsOf key group = [diff] := by
  induction group with
  | nil => exact .inl rfl
  | cons action rest ih =>
    obtain ⟨apart, later⟩ := List.nodup_cons.mp once
    by_cases here : action.1 = key
    · have nothing : actionsOf key rest = [] := by
        refine List.filterMap_eq_nil_iff.mpr fun other listed => if_neg fun same => apart ?_
        rw [here, ← same]
        exact List.mem_map_of_mem listed
      refine .inr ⟨action.2, ?_⟩
      rw [← List.singleton_append, actionsOf_append, nothing]
      simp [actionsOf, here]
    · have same : actionsOf key (action :: rest) = actionsOf key rest := by simp [actionsOf, here]
      rw [same]
      exact ih later

/-- Each bucket gets its diffs in the order in which they were prepared. -/
theorem actionsOf_drained {groups : List (List BucketAction)} {drained : List BucketAction}
    (drains : Drains groups drained) (once : ∀ group ∈ groups, (group.map Prod.fst).Nodup)
    (key : CompoundKey) : actionsOf key drained = actionsOf key groups.flatten := by
  obtain ⟨pieces, shuffled, rfl⟩ := drains
  induction shuffled with
  | nil => rfl
  | cons perm _ ih =>
    rw [List.flatten_cons, List.flatten_cons, actionsOf_append, actionsOf_append,
      ih fun group member => once group (List.mem_cons_of_mem _ member)]
    congr 1
    have same := perm.filterMap fun action => if action.1 = key then some action.2 else none
    rcases actionsOf_once (once _ List.mem_cons_self) key with none | ⟨diff, one⟩
    · rw [none]
      exact List.perm_nil.mp (none ▸ same)
    · rw [one]
      exact List.perm_singleton.mp (one ▸ same)

end Myko.Query

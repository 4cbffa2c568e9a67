import Mathlib.Data.List.Dedup
import Myko.Query.LiveTest

/-!
A change of the filter of a live query: buckets dropped are retracted, buckets kept are tested again and new ones are
read, after which the result is exactly what the new filter shows of the store.
-/

namespace Myko.Query

variable {extractFk : FieldKeys}

namespace LiveQuery

/-! ### The rows of a bucket -/

/-- Items are stored under their own ids, and the index of any fields has the rows of the store. -/
structure Indexed (query : LiveQuery extractFk) : Prop where
  keyed : ∀ (id : String) (item : Item), query.store[id]? = some item → item.id = id
  members : ∀ names, (query.members names).Exact (extractFk names) query.store

theorem idRows_single (store : ItemMap) (own : String) : idRows store [own] =
    match store[own]? with
    | some item => (∅ : ItemMap).insert own item
    | none => ∅ := rfl

theorem get_idRows {store : ItemMap} (keyed : ∀ (id : String) (item : Item), store[id]? = some item → item.id = id)
    (own id : String) (item : Item) :
    (idRows store [own])[id]? = some item ↔ store[id]? = some item ∧ some [item.id] = some [own] := by
  rw [idRows_single]
  constructor
  · intro held
    split at held
    · rename_i there stored
      rw [OrdMap.get_insert] at held
      split at held
      · rename_i here
        subst here
        obtain rfl := Option.some.inj held
        exact ⟨stored, by rw [keyed _ _ stored]⟩
      · cases held
    · cases held
  · rintro ⟨stored, same⟩
    obtain rfl : item.id = own := by simpa using same
    obtain rfl := keyed _ _ stored
    rw [stored]
    show ((∅ : ItemMap).insert item.id item)[item.id]? = some item
    rw [OrdMap.get_insert, if_pos rfl]

/-- A key of a route. -/
def WellKeyed : RouteShape → CompoundKey → Prop
  | .ids, key => ∃ id, key = [id]
  | .fields _, _ => True

theorem wellKeyed_route (route : LiveRoute) {key : CompoundKey} (member : key ∈ route.splitQueryRoute.2) :
    WellKeyed route.splitQueryRoute.1 key := by
  cases route with
  | ids listed =>
    obtain ⟨id, _, rfl⟩ := List.mem_map.mp (List.mem_dedup.mp member)
    exact ⟨id, rfl⟩
  | belongsTo fieldNames keys => trivial

theorem get_bucketRows {query : LiveQuery extractFk} (indexed : query.Indexed) {shape : RouteShape} {key : CompoundKey}
    (wellKeyed : WellKeyed shape key) (id : String) (item : Item) :
    (query.bucketRows shape key)[id]? = some item ↔
      query.store[id]? = some item ∧ shape.keyOf extractFk item = some key := by
  cases shape with
  | ids =>
    obtain ⟨own, rfl⟩ := wellKeyed
    exact get_idRows indexed.keyed own id item
  | fields names => exact indexed.members names key id item

/-! ### Changes of the filter -/

theorem get_clearLiveResult (result : ItemMap) (id : String) : (clearLiveResult result)[id]? = none := by
  rw [clearLiveResult, OrdMap.get_removeMany]
  split
  · rfl
  · rename_i absent
    refine Option.eq_none_iff_forall_not_mem.mpr fun item held => absent ?_
    exact mem_ids.mpr ⟨item, held⟩

theorem get_retracted (rows : Members) (dropped : List CompoundKey) (result : ItemMap) (id : String) :
    (dropped.foldl (fun result key => OrdMap.removeMany result ((rows key).toList.map Prod.fst)) result)[id]? =
      if ∃ key ∈ dropped, id ∈ (rows key).toList.map Prod.fst then none else result[id]? := by
  induction dropped generalizing result with
  | nil => simp
  | cons key rest ih =>
    rw [List.foldl_cons, ih, OrdMap.get_removeMany]
    by_cases here : id ∈ (rows key).toList.map Prod.fst
    · rw [if_pos here, ite_self, if_pos ⟨key, List.mem_cons_self, here⟩]
    · rw [if_neg here]
      by_cases later : ∃ other ∈ rest, id ∈ (rows other).toList.map Prod.fst
      · obtain ⟨other, member, there⟩ := later
        rw [if_pos ⟨other, member, there⟩, if_pos ⟨other, List.mem_cons_of_mem _ member, there⟩]
      · rw [if_neg later, if_neg]
        rintro ⟨other, member, there⟩
        rcases List.mem_cons.mp member with rfl | member
        · exact here there
        · exact later ⟨other, member, there⟩

/-- Testing the rows of buckets shows their items as the filter does. -/
theorem get_tested {filter : LiveFilter extractFk} {rows : Members} {store : ItemMap} {keys : List CompoundKey}
    (stored : ∀ key ∈ keys, ∀ (id : String) (item : Item), (rows key)[id]? = some item → store[id]? = some item)
    (asked : CompoundKey → Bool) (result : ItemMap) (id : String) :
    (keys.foldl (fun result key =>
      if asked key then applyBucketCandidates filter (rows key).toList result else result) result)[id]? =
      if ∃ key ∈ keys, asked key = true ∧ id ∈ (rows key).toList.map Prod.fst then filter.shown store id
      else result[id]? := by
  induction keys generalizing result with
  | nil => simp
  | cons key rest ih =>
    rw [List.foldl_cons, ih fun other member => stored other (List.mem_cons_of_mem _ member)]
    have here : (if asked key then applyBucketCandidates filter (rows key).toList result else result)[id]? =
        if asked key = true ∧ id ∈ (rows key).toList.map Prod.fst then filter.shown store id else result[id]? := by
      by_cases asking : asked key = true
      · have present : ∀ entry ∈ (rows key).toList, store[entry.1]? = some entry.2 :=
          fun entry member => stored key List.mem_cons_self _ _ (OrdMap.mem_toList.mp member)
        simp only [asking, if_true, true_and, get_applyBucketCandidates present]
      · simp only [asking, Bool.false_eq_true, if_false, false_and]
    rw [here]
    by_cases later : ∃ other ∈ rest, asked other = true ∧ id ∈ (rows other).toList.map Prod.fst
    · obtain ⟨other, member, there⟩ := later
      rw [if_pos ⟨other, member, there⟩, if_pos ⟨other, List.mem_cons_of_mem _ member, there⟩]
    · rw [if_neg later]
      by_cases now : asked key = true ∧ id ∈ (rows key).toList.map Prod.fst
      · rw [if_pos now, if_pos ⟨key, List.mem_cons_self, now⟩]
      · rw [if_neg now, if_neg]
        rintro ⟨other, member, there⟩
        rcases List.mem_cons.mp member with rfl | member
        · exact now there
        · exact later ⟨other, member, there⟩

/-- The store, its indexes and the filter's cell stay as they are. -/
structure SameSource (before after : LiveQuery extractFk) : Prop where
  store : after.store = before.store
  members : after.members = before.members
  filterCell : after.filterCell = before.filterCell
  generation : after.generation = before.generation

theorem SameSource.trans {before middle after : LiveQuery extractFk} (one : SameSource before middle)
    (two : SameSource middle after) : SameSource before after where
  store := two.store.trans one.store
  members := two.members.trans one.members
  filterCell := two.filterCell.trans one.filterCell
  generation := two.generation.trans one.generation

theorem SameSource.bucketRows {before after : LiveQuery extractFk} (same : SameSource before after)
    (shape : RouteShape) : after.bucketRows shape = before.bucketRows shape := by
  cases shape <;> simp [LiveQuery.bucketRows, same.store, same.members]

/-- Buckets of new keys have been subscribed to and show their items as the filter does. -/
structure Added (shape : RouteShape) (newFilter : LiveFilter extractFk) (newKeys : List CompoundKey)
    (before after : LiveQuery extractFk) : Prop where
  source : SameSource before after
  scanGuard : after.state.scanGuard = before.state.scanGuard
  nodup : after.state.bucketGuards.Nodup
  guards : ∀ key, key ∈ after.state.bucketGuards ↔ key ∈ newKeys ∨ key ∈ before.state.bucketGuards
  refs : ∀ key ∈ after.state.bucketGuards,
    after.state.bucketFilterRefs key = some ⟨before.generation, newFilter⟩
  result : ∀ id : String, after.result[id]? =
    if ∃ key ∈ newKeys, key ∉ before.state.bucketGuards ∧ id ∈ (before.bucketRows shape key).toList.map Prod.fst
    then newFilter.shown before.store id else before.result[id]?

variable {shape : RouteShape} {newFilter : LiveFilter extractFk}

theorem added_one {before : LiveQuery extractFk} {key : CompoundKey}
    (stored : ∀ (id : String) (item : Item),
      (before.bucketRows shape key)[id]? = some item → before.store[id]? = some item)
    (nodup : before.state.bucketGuards.Nodup)
    (refs : ∀ key ∈ before.state.bucketGuards,
      before.state.bucketFilterRefs key = some ⟨before.generation, newFilter⟩) :
    Added shape newFilter [key] before (before.addLiveBucket shape newFilter key) := by
  unfold addLiveBucket
  split
  · rename_i guarded
    exact
      { source := ⟨rfl, rfl, rfl, rfl⟩
        scanGuard := rfl
        nodup
        guards := fun other => ⟨.inr, fun either => either.elim
          (fun member => List.mem_singleton.mp member ▸ guarded) id⟩
        refs
        result := fun id => by
          rw [if_neg]
          rintro ⟨other, member, fresh, _⟩
          exact fresh (List.mem_singleton.mp member ▸ guarded) }
  · rename_i fresh
    have rowsStored : ∀ entry ∈ (before.bucketRows shape key).toList, before.store[entry.1]? = some entry.2 :=
      fun entry member => stored _ _ (OrdMap.mem_toList.mp member)
    refine ⟨⟨rfl, rfl, rfl, rfl⟩, rfl, List.nodup_cons.mpr ⟨fresh, nodup⟩, fun other => ?_, fun other member => ?_,
      fun id => ?_⟩
    · rw [List.mem_cons, List.mem_singleton]
    · by_cases here : other = key
      · subst here
        simp
      · show Function.update _ _ _ _ = _
        rw [Function.update_of_ne here]
        exact refs other ((List.mem_cons.mp member).resolve_left here)
    · have current : before.currentLiveFilter (some ⟨before.generation, newFilter⟩) = some newFilter := by
        simp [currentLiveFilter]
      dsimp only
      rw [current]
      show (applyBucketCandidates newFilter _ _)[id]? = _
      rw [get_applyBucketCandidates rowsStored, get_applyBucketCandidates rowsStored]
      by_cases here : id ∈ (before.bucketRows shape key).toList.map Prod.fst
      · rw [if_pos here, if_pos ⟨key, List.mem_singleton_self key, fresh, here⟩]
      · rw [if_neg here, if_neg here, if_neg]
        rintro ⟨other, member, _, there⟩
        exact here (List.mem_singleton.mp member ▸ there)

theorem added_all {newKeys : List CompoundKey} {before : LiveQuery extractFk}
    (stored : ∀ key ∈ newKeys, ∀ (id : String) (item : Item),
      (before.bucketRows shape key)[id]? = some item → before.store[id]? = some item)
    (nodup : before.state.bucketGuards.Nodup)
    (refs : ∀ key ∈ before.state.bucketGuards,
      before.state.bucketFilterRefs key = some ⟨before.generation, newFilter⟩) :
    Added shape newFilter newKeys before (before.addLiveBuckets shape newFilter newKeys) := by
  induction newKeys generalizing before with
  | nil => exact ⟨⟨rfl, rfl, rfl, rfl⟩, rfl, nodup, by simp [addLiveBuckets], refs, by simp [addLiveBuckets]⟩
  | cons key rest ih =>
    have one := added_one (stored key List.mem_cons_self) nodup refs
    have rows := one.source.bucketRows shape
    have later : Added shape newFilter rest (before.addLiveBucket shape newFilter key)
        (before.addLiveBuckets shape newFilter (key :: rest)) := by
      refine ih (fun other member => ?_) one.nodup ?_
      · rw [rows, one.source.store]
        exact stored other (List.mem_cons_of_mem _ member)
      · rw [one.source.generation]
        exact one.refs
    refine ⟨one.source.trans later.source, later.scanGuard.trans one.scanGuard, later.nodup, fun other => ?_, ?_,
      fun id => ?_⟩
    · rw [later.guards, one.guards, List.mem_singleton, List.mem_cons, or_left_comm, or_assoc]
    · rw [← one.source.generation]
      exact later.refs
    · rw [later.result, one.result, rows, one.source.store]
      by_cases behind : ∃ other ∈ rest, other ∉ (before.addLiveBucket shape newFilter key).state.bucketGuards ∧
          id ∈ (before.bucketRows shape other).toList.map Prod.fst
      · obtain ⟨other, member, fresh, there⟩ := behind
        rw [if_pos ⟨other, member, fresh, there⟩, if_pos]
        exact ⟨other, List.mem_cons_of_mem _ member, fun guarded => fresh ((one.guards other).mpr (.inr guarded)),
          there⟩
      · rw [if_neg behind]
        by_cases now : key ∉ before.state.bucketGuards ∧ id ∈ (before.bucketRows shape key).toList.map Prod.fst
        · rw [if_pos ⟨key, List.mem_singleton_self key, now⟩, if_pos ⟨key, List.mem_cons_self, now⟩]
        · rw [if_neg, if_neg]
          · rintro ⟨other, member, fresh, there⟩
            rcases List.mem_cons.mp member with rfl | member
            · exact now ⟨fresh, there⟩
            · by_cases same : other = key
              · exact now (same ▸ ⟨fresh, there⟩)
              · refine behind ⟨other, member, fun guarded => ?_, there⟩
                rcases (one.guards other).mp guarded with only | old
                · exact same (List.mem_singleton.mp only)
                · exact fresh old
          · rintro ⟨other, member, fresh, there⟩
            obtain rfl := List.mem_singleton.mp member
            exact now ⟨fresh, there⟩

/-- What the next filter finds: the result has nothing but rows of the buckets subscribed to. -/
structure Covered (shape : RouteShape) (query : LiveQuery extractFk) : Prop where
  scanGuard : query.state.scanGuard = false
  nodup : query.state.bucketGuards.Nodup
  refs : ∀ key ∈ query.state.bucketGuards, (query.state.bucketFilterRefs key).isSome = true
  rows : ∀ (id : String) (item : Item), query.result[id]? = some item →
    ∃ key ∈ query.state.bucketGuards, id ∈ (query.bucketRows shape key).toList.map Prod.fst

theorem result_existing {query : LiveQuery extractFk} {newKeys : List CompoundKey} (covered : query.Covered shape)
    (stored : ∀ key ∈ newKeys, ∀ (id : String) (item : Item),
      (query.bucketRows shape key)[id]? = some item → query.store[id]? = some item) (id : String) :
    (query.reconcileExistingBuckets shape newFilter newKeys).result[id]? =
      if ∃ key ∈ newKeys, key ∈ query.state.bucketGuards ∧ id ∈ (query.bucketRows shape key).toList.map Prod.fst
      then newFilter.shown query.store id else none := by
  let kept := query.state.bucketGuards.filter fun key => decide (key ∈ newKeys)
  have tested := @get_tested _ newFilter _ _ _ stored (fun key => decide (key ∈ kept))
    ((query.state.bucketGuards.filter fun key => decide (key ∉ newKeys)).foldl (fun result key =>
      OrdMap.removeMany result ((query.bucketRows shape key).toList.map Prod.fst)) query.result) id
  have retained (key : CompoundKey) : key ∈ kept ↔ key ∈ query.state.bucketGuards ∧ key ∈ newKeys := by
    simp [kept]
  simp only [decide_eq_true_eq] at tested
  refine tested.trans ?_
  by_cases again : ∃ key ∈ newKeys,
      key ∈ query.state.bucketGuards ∧ id ∈ (query.bucketRows shape key).toList.map Prod.fst
  · obtain ⟨key, asked, guarded, there⟩ := again
    rw [if_pos ⟨key, asked, (retained key).mpr ⟨guarded, asked⟩, there⟩, if_pos ⟨key, asked, guarded, there⟩]
  · rw [if_neg again, if_neg, get_retracted]
    · split
      · rfl
      · rename_i notDropped
        refine Option.eq_none_iff_forall_not_mem.mpr fun item held => ?_
        obtain ⟨key, guarded, there⟩ := covered.rows id item held
        by_cases asked : key ∈ newKeys
        · exact again ⟨key, asked, guarded, there⟩
        · exact notDropped ⟨key, List.mem_filter.mpr ⟨guarded, by simpa using asked⟩, there⟩
    · rintro ⟨key, asked, member, there⟩
      exact again ⟨key, asked, ((retained key).mp member).1, there⟩

/-- The subscriptions are those of the filter's route and read the filter of the moment. -/
inductive Subscribed (query : LiveQuery extractFk) : Prop where
  | buckets (route : LiveRoute) (routed : query.filterCell.queryRoute = some route)
      (scanGuard : query.state.scanGuard = false)
      (prevRoute : query.state.prevRoute = some route.splitQueryRoute.1)
      (nodup : query.state.bucketGuards.Nodup)
      (guards : ∀ key, key ∈ query.state.bucketGuards ↔ key ∈ route.splitQueryRoute.2)
      (refs : ∀ key ∈ query.state.bucketGuards,
        query.state.bucketFilterRefs key = some ⟨query.generation, query.filterCell⟩)
  | scan (unrouted : query.filterCell.queryRoute = none) (scanGuard : query.state.scanGuard = true)
      (scanFilterRef : query.state.scanFilterRef = some ⟨query.generation, query.filterCell⟩)
      (prevRoute : query.state.prevRoute = none) (guards : query.state.bucketGuards = [])

/-- The result shows nothing but what the filter shows. -/
structure Kept (query : LiveQuery extractFk) : Prop where
  indexed : query.Indexed
  subscribed : query.Subscribed
  sound : ∀ (id : String) (item : Item), query.result[id]? = some item →
    query.filterCell.shown query.store id = some item

/-- The result shows all the filter shows, and nothing else. -/
def Exact (query : LiveQuery extractFk) : Prop :=
  ∀ id : String, query.result[id]? = query.filterCell.shown query.store id

/-- What a change of filter may find. -/
inductive Ready (query : LiveQuery extractFk) : Prop where
  | scanned (prevRoute : query.state.prevRoute = none)
      (guards : query.state.bucketGuards = [])
      (scanFilterRef : query.state.scanGuard = true → query.state.scanFilterRef.isSome = true)
      (stored : ∀ (id : String) (item : Item), query.result[id]? = some item → query.store[id]? = some item)
  | bucketed (shape : RouteShape) (prevRoute : query.state.prevRoute = some shape) (covered : query.Covered shape)

theorem Kept.ready {query : LiveQuery extractFk} (kept : query.Kept) : query.Ready := by
  cases kept.subscribed with
  | scan unrouted scanGuard scanFilterRef prevRoute guards =>
    refine .scanned prevRoute guards (fun _ => by rw [scanFilterRef]; rfl) fun id item held => ?_
    exact (LiveFilter.shown_eq_some.mp (kept.sound id item held)).1
  | buckets route routed scanGuard prevRoute nodup guards refs =>
    refine .bucketed _ prevRoute ⟨scanGuard, nodup, fun key member => by rw [refs key member]; rfl,
      fun id item held => ?_⟩
    obtain ⟨stored, matched⟩ := LiveFilter.shown_eq_some.mp (kept.sound id item held)
    obtain ⟨key, member, own⟩ := query.filterCell.sound item matched route routed
    refine ⟨key, (guards key).mpr member, mem_ids.mpr ⟨item, ?_⟩⟩
    exact (get_bucketRows kept.indexed (wellKeyed_route route member) id item).mpr ⟨stored, own⟩

/-- The keys of a filter's route, in some order. -/
def RouteKeys (newFilter : LiveFilter extractFk) (newKeys : List CompoundKey) : Prop :=
  ∀ route, newFilter.queryRoute = some route → newKeys.Perm route.splitQueryRoute.2

theorem SameSource.indexed {before after : LiveQuery extractFk} (same : SameSource before after)
    (indexed : before.Indexed) : after.Indexed where
  keyed := by rw [same.store]; exact indexed.keyed
  members := by rw [same.store, same.members]; exact indexed.members

/-- Before buckets are reconciled the result is cleared of what other routes left. -/
theorem covered_cleared {query : LiveQuery extractFk} (ready : query.Ready) (shape : RouteShape) :
    SameSource query (query.clearedFor shape) ∧ (query.clearedFor shape).Covered shape := by
  let unscanned : LiveQuery extractFk := { query with state := { query.state with scanGuard := false } }
  by_cases same : query.state.prevRoute = some shape
  · have kept : query.clearedFor shape = unscanned := if_neg fun other => other same
    cases ready with
    | scanned prevRoute => exact absurd (prevRoute.symm.trans same) (by simp)
    | bucketed old prevRoute covered =>
      obtain rfl : old = shape := Option.some.inj (prevRoute.symm.trans same)
      rw [kept]
      exact ⟨⟨rfl, rfl, rfl, rfl⟩, rfl, covered.nodup, covered.refs, covered.rows⟩
  · have emptied : query.clearedFor shape = unscanned.clearBuckets := if_pos same
    rw [emptied]
    refine ⟨⟨rfl, rfl, rfl, rfl⟩, rfl, List.nodup_nil, fun key member => absurd member List.not_mem_nil,
      fun id item held => ?_⟩
    have gone := get_clearLiveResult query.result id
    exact absurd (gone.symm.trans held) (by simp)

theorem exact_indexed {query : LiveQuery extractFk} (indexed : query.Indexed) (ready : query.Ready)
    {route : LiveRoute} (routed : query.filterCell.queryRoute = some route) {newKeys : List CompoundKey}
    (keys : newKeys.Perm route.splitQueryRoute.2) :
    (query.reconcileIndexedLiveQuery query.filterCell route.splitQueryRoute.1 newKeys).Kept ∧
      (query.reconcileIndexedLiveQuery query.filterCell route.splitQueryRoute.1 newKeys).Exact := by
  obtain ⟨sameCleared, covered⟩ := covered_cleared ready route.splitQueryRoute.1
  unfold reconcileIndexedLiveQuery
  -- The query once its result holds only rows of the route's shape.
  generalize query.clearedFor route.splitQueryRoute.1 = cleared at sameCleared covered ⊢
  have clearedIndexed := sameCleared.indexed indexed
  have wellKeyed : ∀ key ∈ newKeys, WellKeyed route.splitQueryRoute.1 key :=
    fun key member => wellKeyed_route route (keys.mem_iff.mp member)
  have stored : ∀ key ∈ newKeys, ∀ (id : String) (item : Item),
      (cleared.bucketRows route.splitQueryRoute.1 key)[id]? = some item → cleared.store[id]? = some item :=
    fun key member id item held => ((get_bucketRows clearedIndexed (wellKeyed key member) id item).mp held).1
  let existing := cleared.reconcileExistingBuckets route.splitQueryRoute.1 query.filterCell newKeys
  have sameExisting : SameSource cleared existing := ⟨rfl, rfl, rfl, rfl⟩
  have guards (key : CompoundKey) : key ∈ existing.state.bucketGuards ↔
      key ∈ cleared.state.bucketGuards ∧ key ∈ newKeys := by
    show key ∈ cleared.state.bucketGuards.filter _ ↔ _
    simp
  have refs : ∀ key ∈ existing.state.bucketGuards,
      existing.state.bucketFilterRefs key = some ⟨existing.generation, query.filterCell⟩ := by
    intro key member
    obtain ⟨guarded, asked⟩ := (guards key).mp member
    obtain ⟨old, held⟩ := Option.isSome_iff_exists.mp (covered.refs key guarded)
    show (if key ∈ newKeys then (cleared.state.bucketFilterRefs key).map _ else _) = _
    rw [if_pos asked, held]
    rfl
  have added : Added route.splitQueryRoute.1 query.filterCell newKeys existing
      (existing.addLiveBuckets route.splitQueryRoute.1 query.filterCell newKeys) :=
    added_all stored (covered.nodup.filter _) refs
  have source := (sameCleared.trans sameExisting).trans added.source
  -- Whether its bucket was there before or is new, an item of the keys is shown as the filter shows it.
  have result (id : String) : (existing.addLiveBuckets route.splitQueryRoute.1 query.filterCell newKeys).result[id]? =
      query.filterCell.shown query.store id := by
    rw [added.result, sameExisting.store, sameExisting.bucketRows, result_existing covered stored, sameCleared.store]
    split
    · rfl
    · rename_i notAdded
      split
      · rfl
      · rename_i notKept
        refine (Option.eq_none_iff_forall_not_mem.mpr fun item shown => ?_).symm
        obtain ⟨here, matched⟩ := LiveFilter.shown_eq_some.mp shown
        obtain ⟨key, member, own⟩ := query.filterCell.sound item matched route routed
        have asked := keys.mem_iff.mpr member
        have there : id ∈ (cleared.bucketRows route.splitQueryRoute.1 key).toList.map Prod.fst :=
          mem_ids.mpr ⟨item, (get_bucketRows clearedIndexed (wellKeyed key asked) id item).mpr
            ⟨by rw [sameCleared.store]; exact here, own⟩⟩
        by_cases guarded : key ∈ cleared.state.bucketGuards
        · exact notKept ⟨key, asked, guarded, there⟩
        · exact notAdded ⟨key, asked, fun member => guarded ((guards key).mp member).1, there⟩
  have exact : ({ existing.addLiveBuckets route.splitQueryRoute.1 query.filterCell newKeys with
      state := { (existing.addLiveBuckets route.splitQueryRoute.1 query.filterCell newKeys).state with
        prevRoute := some route.splitQueryRoute.1 } } : LiveQuery extractFk).Exact := by
    intro id
    show _ = LiveFilter.shown (existing.addLiveBuckets _ _ _).filterCell (existing.addLiveBuckets _ _ _).store id
    rw [source.filterCell, source.store]
    exact result id
  refine ⟨⟨SameSource.indexed ⟨source.store, source.members, source.filterCell, source.generation⟩ indexed, ?_,
    fun id item held => (exact id).symm.trans held⟩, exact⟩
  refine .buckets route ?_ (added.scanGuard.trans covered.scanGuard) rfl added.nodup (fun key => ?_) ?_
  · show (existing.addLiveBuckets _ _ _).filterCell.queryRoute = _
    rw [source.filterCell]
    exact routed
  · show key ∈ (existing.addLiveBuckets _ _ _).state.bucketGuards ↔ _
    rw [added.guards, guards, ← keys.mem_iff]
    exact or_iff_left_of_imp And.right
  · show ∀ key ∈ (existing.addLiveBuckets _ _ _).state.bucketGuards,
      (existing.addLiveBuckets _ _ _).state.bucketFilterRefs key =
        some ⟨(existing.addLiveBuckets _ _ _).generation, (existing.addLiveBuckets _ _ _).filterCell⟩
    rw [source.filterCell, added.source.generation]
    exact added.refs

theorem exact_scan {query : LiveQuery extractFk} (indexed : query.Indexed) (ready : query.Ready)
    (unrouted : query.filterCell.queryRoute = none) :
    (query.reconcileScanLiveQuery query.filterCell).Kept ∧ (query.reconcileScanLiveQuery query.filterCell).Exact := by
  unfold reconcileScanLiveQuery
  -- A query that was routed starts over; either way the result holds stored items only.
  have started : ∃ cleared : LiveQuery extractFk, (if query.state.prevRoute.isSome then
      { query.clearBuckets with state := { query.clearBuckets.state with prevRoute := none } } else query) = cleared ∧
      SameSource query cleared ∧ cleared.state.prevRoute = none ∧ cleared.state.bucketGuards = [] ∧
      (cleared.state.scanGuard = true → cleared.state.scanFilterRef.isSome = true) ∧
      ∀ (id : String) (item : Item), cleared.result[id]? = some item → query.store[id]? = some item := by
    cases ready with
    | scanned prevRoute guards scanFilterRef stored =>
      refine ⟨query, by rw [prevRoute]; rfl, ⟨rfl, rfl, rfl, rfl⟩, prevRoute, guards, scanFilterRef, stored⟩
    | bucketed shape prevRoute covered =>
      refine ⟨_, if_pos (by rw [prevRoute]; rfl), ⟨rfl, rfl, rfl, rfl⟩, rfl, rfl, fun scanning => ?_,
        fun id item held => ?_⟩
      · exact absurd (covered.scanGuard.symm.trans scanning) (by simp)
      · exact absurd ((get_clearLiveResult query.result id).symm.trans held) (by simp)
  obtain ⟨cleared, same, source, prevRoute, guards, scanFilterRef, stored⟩ := started
  rw [same]
  have kept (result : ItemMap) (before : ∀ (id : String) (item : Item), result[id]? = some item →
      query.store[id]? = some item) (id : String) :
      (reconcileFullScopeMembership query.filterCell query.store.toList result)[id]? =
        query.filterCell.shown query.store id := by
    rw [get_reconcileFullScopeMembership]
    cases shown : query.filterCell.shown query.store id with
    | none => rfl
    | some item =>
      have here := (LiveFilter.shown_eq_some.mp shown).1
      cases held : result[id]? with
      | none => rfl
      | some old =>
        obtain rfl := Option.some.inj (here.symm.trans (before id old held))
        rfl
  have reconciled := kept cleared.result stored
  have routed : cleared.filterCell.queryRoute = none := by rw [source.filterCell]; exact unrouted
  have current : query.currentLiveFilter (some ⟨query.generation, query.filterCell⟩) = some query.filterCell := by
    simp [currentLiveFilter]
  simp only [current]
  split
  · rename_i scanning
    obtain ⟨old, held⟩ := Option.isSome_iff_exists.mp (scanFilterRef scanning)
    have exact : ∀ id : String, (reconcileFullScopeMembership query.filterCell query.store.toList cleared.result)[id]? =
        cleared.filterCell.shown cleared.store id := by
      rw [source.filterCell, source.store]
      exact reconciled
    refine ⟨⟨SameSource.indexed ⟨source.store, source.members, source.filterCell, source.generation⟩ indexed, ?_,
      fun id item held => (exact id).symm.trans held⟩, exact⟩
    refine .scan routed scanning ?_ prevRoute guards
    show cleared.state.scanFilterRef.map _ = some (LiveFilterGeneration.mk cleared.generation cleared.filterCell)
    rw [held, source.generation, source.filterCell]
    rfl
  · have again := kept _ fun id item held =>
      (LiveFilter.shown_eq_some.mp ((reconciled id).symm.trans held)).1
    have exact : ∀ id : String, (applyLiveDiff query.filterCell .fullStore (.initial query.store.toList)
        (reconcileFullScopeMembership query.filterCell query.store.toList cleared.result))[id]? =
        cleared.filterCell.shown cleared.store id := by
      rw [source.filterCell, source.store]
      exact again
    refine ⟨⟨SameSource.indexed ⟨source.store, source.members, source.filterCell, source.generation⟩ indexed, ?_,
      fun id item held => (exact id).symm.trans held⟩, exact⟩
    refine .scan routed rfl ?_ prevRoute guards
    show some _ = some (LiveFilterGeneration.mk cleared.generation cleared.filterCell)
    rw [source.generation, source.filterCell]

/-- A change of filter leaves the result exact, whatever it found. -/
theorem exact_filterChange {query : LiveQuery extractFk} (indexed : query.Indexed) (ready : query.Ready)
    {newFilter : LiveFilter extractFk} {newKeys : List CompoundKey} (keys : RouteKeys newFilter newKeys) :
    (query.filterChange newFilter newKeys).Kept ∧ (query.filterChange newFilter newKeys).Exact := by
  let next : LiveQuery extractFk := { query with filterCell := newFilter, generation := query.generation + 1 }
  have nextIndexed : next.Indexed := ⟨indexed.keyed, indexed.members⟩
  have nextReady : next.Ready := by
    cases ready with
    | scanned prevRoute guards scanFilterRef stored => exact .scanned prevRoute guards scanFilterRef stored
    | bucketed shape prevRoute covered =>
      refine .bucketed shape prevRoute ⟨covered.scanGuard, covered.nodup, covered.refs, fun id item held => ?_⟩
      obtain ⟨key, member, there⟩ := covered.rows id item held
      exact ⟨key, member, by cases shape <;> exact there⟩
  show (next.reconcileLiveQuery newFilter newKeys).Kept ∧ (next.reconcileLiveQuery newFilter newKeys).Exact
  unfold reconcileLiveQuery
  cases routed : newFilter.queryRoute with
  | some route => exact exact_indexed nextIndexed nextReady routed (keys route routed)
  | none => exact exact_scan nextIndexed nextReady routed

theorem clearedFor_source (query : LiveQuery extractFk) (shape : RouteShape) :
    SameSource query (query.clearedFor shape) := by
  unfold clearedFor
  dsimp only
  split <;> exact ⟨rfl, rfl, rfl, rfl⟩

theorem addLiveBuckets_source (shape : RouteShape) (newFilter : LiveFilter extractFk) (newKeys : List CompoundKey)
    (query : LiveQuery extractFk) : SameSource query (query.addLiveBuckets shape newFilter newKeys) := by
  induction newKeys generalizing query with
  | nil => exact ⟨rfl, rfl, rfl, rfl⟩
  | cons key rest ih =>
    have one : SameSource query (query.addLiveBucket shape newFilter key) := by
      unfold addLiveBucket
      split <;> exact ⟨rfl, rfl, rfl, rfl⟩
    exact one.trans (ih _)

theorem filterChange_source (query : LiveQuery extractFk) (newFilter : LiveFilter extractFk)
    (newKeys : List CompoundKey) : (query.filterChange newFilter newKeys).store = query.store ∧
      (query.filterChange newFilter newKeys).filterCell = newFilter := by
  let next : LiveQuery extractFk := { query with filterCell := newFilter, generation := query.generation + 1 }
  show (next.reconcileLiveQuery newFilter newKeys).store = _ ∧ (next.reconcileLiveQuery newFilter newKeys).filterCell = _
  unfold reconcileLiveQuery
  split
  · rename_i route _
    have existing : SameSource next
        ((next.clearedFor route.splitQueryRoute.1).reconcileExistingBuckets route.splitQueryRoute.1 newFilter newKeys) :=
      (clearedFor_source next route.splitQueryRoute.1).trans ⟨rfl, rfl, rfl, rfl⟩
    have added := existing.trans (addLiveBuckets_source route.splitQueryRoute.1 newFilter newKeys _)
    exact ⟨added.store, added.filterCell⟩
  · unfold reconcileScanLiveQuery
    dsimp only
    split <;> split <;> exact ⟨rfl, rfl⟩

theorem exact_queryLive {store : ItemMap}
    (keyed : ∀ (id : String) (item : Item), store[id]? = some item → item.id = id) {filter : LiveFilter extractFk}
    {newKeys : List CompoundKey} (keys : RouteKeys filter newKeys) :
    (queryLive store filter newKeys).Kept ∧ (queryLive store filter newKeys).Exact := by
  refine exact_filterChange ⟨keyed, fun names => ?_⟩ (.scanned rfl rfl ?_ ?_) keys
  · have exact := membersOf_exact (extractFk names) (OrdMap.nodup_keys store)
    rwa [OrdMap.insertMany_toList] at exact
  · intro scanning
    cases scanning
  · intro id item held
    exact absurd held (by simp [unstarted])

end LiveQuery

end Myko.Query

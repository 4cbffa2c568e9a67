import Myko.Lib.Runs
import Myko.Query.LiveFeed
import Myko.Query.LiveReconcile

/-!
A live query against the scan of its store: its result never shows what the filter of the moment does not, and is
all of it after every change of filter and as long as moved rows reach it last from the bucket they end in.
-/

namespace Myko.Query

variable {extractFk : FieldKeys}

namespace LiveQuery

/-! ### Diffs of the store -/

/-- A diff the store may send: a change, true of it, that puts items under their own ids, drained to the buckets of
the index in a possible order. -/
structure DiffPossible (query : LiveQuery extractFk) (diff : ItemDiff) (watched : List CompoundKey)
    (drained : List BucketAction) : Prop where
  trueOld : diff.TrueOf query.store
  incremental : diff.Incremental
  keyed : diff.AllPuts fun id item => item.id = id
  nodup : watched.Nodup
  drains : ∀ names, query.state.prevRoute = some (.fields names) →
    (∀ key ∈ query.state.bucketGuards, key ∈ watched) ∧
      Drains (prepareDiff (extractFk names) watched diff (query.members names)).1 drained

theorem feed_fields {query : LiveQuery extractFk} (indexed : query.Indexed) {diff : ItemDiff}
    {watched : List CompoundKey} {drained : List BucketAction} (possible : query.DiffPossible diff watched drained)
    {names : List String} (prevRoute : query.state.prevRoute = some (.fields names)) :
    Feed (extractFk names) query.state.bucketGuards query.store (diff.apply query.store) (query.members names)
      (prepareDiff (extractFk names) watched diff (query.members names)).2 drained := by
  obtain ⟨guarded, drains⟩ := possible.drains names prevRoute
  have exact := indexed.members names
  have prepared := prepared_diff (extractFk names) possible.nodup diff _ _ exact possible.trueOld
  have trueActions := true_diff (extractFk names) possible.nodup diff _ _ exact possible.trueOld possible.incremental
  refine ⟨fun key _ => exact key, fun key _ => prepared.exact key, fun key member => ?_, fun key member => ?_⟩
  · rw [rowsThrough, actionsOf_drained drains prepared.once]
    exact prepared.rows key (guarded key member)
  · rw [actionsOf_drained drains prepared.once]
    exact trueActions key (guarded key member)

theorem actionsOf_made {keys : List CompoundKey} (nodup : keys.Nodup) {make : CompoundKey → Option BucketAction}
    (own : ∀ key action, make key = some action → action.1 = key) {key : CompoundKey} (member : key ∈ keys) :
    actionsOf key (keys.filterMap make) = (make key).toList.map Prod.snd := by
  have absent (others : List CompoundKey) (apart : key ∉ others) : actionsOf key (others.filterMap make) = [] := by
    refine List.filterMap_eq_nil_iff.mpr fun action listed => if_neg fun same => apart ?_
    obtain ⟨other, inside, made⟩ := List.mem_filterMap.mp listed
    rwa [← same, own other action made]
  obtain ⟨before, after, rfl⟩ := List.append_of_mem member
  rw [List.nodup_middle, List.nodup_cons, List.mem_append, not_or] at nodup
  rw [List.filterMap_append, actionsOf_append, absent before nodup.1.1, List.nil_append, List.filterMap_cons]
  cases made : make key with
  | none => exact absent after nodup.1.2
  | some action =>
    rw [actionsOf_cons, if_pos (own key action made), absent after nodup.1.2]
    rfl

theorem idAction_own {before after : ItemMap} {key : CompoundKey} {action : BucketAction}
    (made : idAction before after key = some action) : action.1 = key := by
  unfold idAction at made
  cases head : key.head? with
  | none =>
    rw [head] at made
    cases made
  | some id =>
    rw [head] at made
    dsimp only at made
    split at made <;> cases made <;> rfl

theorem get_idRows_single (store : ItemMap) (own id : String) :
    (idRows store [own])[id]? = if id = own then store[own]? else none := by
  rw [idRows_single]
  cases store[own]? with
  | none => simp
  | some item => exact (OrdMap.get_insert _ _ _ _).trans (by rw [Std.ExtTreeMap.getElem?_empty])

/-- The sources of single ids change as the store does. -/
theorem feed_ids {query : LiveQuery extractFk} (indexed : query.Indexed) {diff : ItemDiff}
    (keyed : diff.AllPuts fun id item => item.id = id) (nodup : query.state.bucketGuards.Nodup)
    (single : ∀ key ∈ query.state.bucketGuards, WellKeyed .ids key) :
    Feed (RouteShape.ids.keyOf extractFk) query.state.bucketGuards query.store (diff.apply query.store)
      (idRows query.store) (idRows (diff.apply query.store))
      (query.state.bucketGuards.filterMap (idAction query.store (diff.apply query.store))) := by
  have after : ∀ (id : String) (item : Item), (diff.apply query.store)[id]? = some item → item.id = id :=
    MapDiff.holds_apply diff query.store keyed indexed.keyed
  have made {key : CompoundKey} (member : key ∈ query.state.bucketGuards) :
      actionsOf key (query.state.bucketGuards.filterMap (idAction query.store (diff.apply query.store))) =
        (idAction query.store (diff.apply query.store) key).toList.map Prod.snd :=
    actionsOf_made nodup (fun _ _ => idAction_own) member
  refine ⟨fun key member => ?_, fun key member => ?_, fun key member => ?_, fun key member => ?_⟩
  · obtain ⟨own, rfl⟩ := single key member
    exact get_idRows indexed.keyed own
  · obtain ⟨own, rfl⟩ := single key member
    exact get_idRows after own
  · obtain ⟨own, rfl⟩ := single key member
    refine OrdMap.ext fun id => ?_
    rw [rowsThrough, made member, get_idRows_single, idAction, List.head?_cons]
    dsimp only
    cases old : query.store[own]? with
    | none =>
      cases new : (diff.apply query.store)[own]? with
      | none => simp [MapDiff.applyAll, get_idRows_single, old]
      | some value =>
        show ((idRows query.store [own]).insert own value)[id]? = _
        rw [OrdMap.get_insert, get_idRows_single, old]
        split <;> rfl
    | some item =>
      cases new : (diff.apply query.store)[own]? with
      | none =>
        show ((idRows query.store [own]).erase own)[id]? = _
        rw [OrdMap.get_erase, get_idRows_single, old]
        split <;> rfl
      | some value =>
        show ((idRows query.store [own]).insert own value)[id]? = _
        rw [OrdMap.get_insert, get_idRows_single, old]
        split <;> rfl
  · obtain ⟨own, rfl⟩ := single key member
    rw [made member, idAction, List.head?_cons]
    have row := get_idRows_single query.store own own
    rw [if_pos rfl] at row
    dsimp only
    split <;> rename_i old new
    · exact ⟨trivial, trivial⟩
    · exact ⟨⟨row.trans old, trivial⟩, trivial, trivial⟩
    · exact ⟨⟨row.trans old, trivial⟩, trivial, trivial⟩
    · exact ⟨⟨row.trans old, trivial⟩, trivial, trivial⟩

/-- The source of an id forwards nothing about another. -/
theorem forwarded_ids {route : UnionRoute} {rows : Members} {before after : ItemMap} {keys : List CompoundKey}
    (single : ∀ key ∈ keys, WellKeyed .ids key) {write : CompoundKey × (String × Option Item)}
    (member : write ∈ forwarded route rows (keys.filterMap (idAction before after))) : write.1 = [write.2.1] := by
  induction keys generalizing rows with
  | nil => cases member
  | cons key rest ih =>
    have later {rows : Members} (inside : write ∈ forwarded route rows (rest.filterMap (idAction before after))) :
        write.1 = [write.2.1] := ih (fun other listed => single other (List.mem_cons_of_mem _ listed)) inside
    rw [List.filterMap_cons] at member
    cases made : idAction before after key with
    | none =>
      rw [made] at member
      exact later member
    | some action =>
      rw [made] at member
      dsimp only at member
      rw [forwarded] at member
      split at member
      · rcases List.mem_append.mp member with here | behind
        · obtain ⟨told, listed, rfl⟩ := List.mem_map.mp here
          obtain ⟨own, rfl⟩ := single key List.mem_cons_self
          rw [idAction, List.head?_cons] at made
          dsimp only at made
          split at made <;> cases made <;> obtain rfl := List.mem_singleton.mp listed <;> rfl
        · exact later behind
      · exact later member

theorem inPlace_ids {filter : LiveFilter extractFk} {route : UnionRoute} {rows : Members} {before after : ItemMap}
    (keyed : ∀ (id : String) (item : Item), after[id]? = some item → item.id = id)
    (single : ∀ key ∈ route.keys, WellKeyed .ids key) :
    MatchingInPlace filter route (RouteShape.ids.keyOf extractFk) after rows
      (route.keys.filterMap (idAction before after)) := by
  intro id item shown own _ isOwn key write last
  obtain ⟨listed, about⟩ := List.mem_filter.mp (List.mem_of_getLast? last)
  have forwarder := forwarded_ids single listed
  have same : write.1 = id := by simpa using about
  have owned : [item.id] = own := Option.some.inj isOwn
  rw [← owned, keyed id item (LiveFilter.shown_eq_some.mp shown).1, ← same]
  exact forwarder

/-- The result is left by a diff of the store as the subscriptions make it. -/
theorem foldl_receiveBucket {query : LiveQuery extractFk}
    (refs : ∀ key ∈ query.state.bucketGuards,
      query.state.bucketFilterRefs key = some ⟨query.generation, query.filterCell⟩) (actions : List BucketAction) :
    actions.foldl receiveBucket query =
      { query with result := actions.foldl (testAction query.filterCell query.state.bucketGuards) query.result } := by
  induction actions generalizing query with
  | nil => rfl
  | cons action rest ih =>
    have one : query.receiveBucket action =
        { query with result := testAction query.filterCell query.state.bucketGuards query.result action } := by
      unfold receiveBucket testAction
      split
      · rename_i guarded
        rw [refs action.1 guarded]
        simp [currentLiveFilter]
      · rfl
    rw [List.foldl_cons, one, ih]
    · rfl
    · exact refs

/-- Every matching item of the index behind the result is forwarded last, if at all, by the bucket it is in. -/
def DiffInPlace (query : LiveQuery extractFk) (diff : ItemDiff) (drained : List BucketAction) : Prop :=
  ∀ names, query.state.prevRoute = some (.fields names) →
    ∀ route : UnionRoute, route.keys = query.state.bucketGuards →
      MatchingInPlace query.filterCell route (extractFk names) (diff.apply query.store) (query.members names) drained

theorem indexed_storeDiff {query : LiveQuery extractFk} (indexed : query.Indexed) {diff : ItemDiff}
    {watched : List CompoundKey} {drained : List BucketAction} (possible : query.DiffPossible diff watched drained)
    (names : List String) : (prepareDiff (extractFk names) watched diff (query.members names)).2.Exact
      (extractFk names) (diff.apply query.store) :=
  (prepared_diff (extractFk names) possible.nodup diff _ _ (indexed.members names) possible.trueOld).exact

theorem scan_step {filter : LiveFilter extractFk} {store result : ItemMap} {diff : ItemDiff}
    (trueOld : diff.TrueOf store) (incremental : diff.Incremental)
    (sound : ∀ (id : String) (item : Item), result[id]? = some item → filter.shown store id = some item) :
    (∀ (id : String) (item : Item), (applyLiveDiff filter .fullStore diff result)[id]? = some item →
      filter.shown (diff.apply store) id = some item) ∧
    ((∀ id : String, result[id]? = filter.shown store id) →
      ∀ id : String, (applyLiveDiff filter .fullStore diff result)[id]? = filter.shown (diff.apply store) id) := by
  have vouched := vouched_applyLiveDiff filter .fullStore (fun _ _ => False) diff store result incremental trueOld
    fun id item held => by
      obtain ⟨stored, matched⟩ := LiveFilter.shown_eq_some.mp (sound id item held)
      exact ⟨matched, .inl stored⟩
  have soundAfter : ∀ (id : String) (item : Item), (applyLiveDiff filter .fullStore diff result)[id]? = some item →
      filter.shown (diff.apply store) id = some item := fun id item held => by
    obtain ⟨matched, stored | never⟩ := vouched id item held
    · exact LiveFilter.shown_eq_some.mpr ⟨stored, matched⟩
    · exact never.elim
  refine ⟨soundAfter, fun exact id => ?_⟩
  cases shown : filter.shown (diff.apply store) id with
  | none =>
    refine Option.eq_none_iff_forall_not_mem.mpr fun item held => ?_
    have stale := soundAfter id item held
    rw [shown] at stale
    cases stale
  | some item =>
    obtain ⟨stored, matched⟩ := LiveFilter.shown_eq_some.mp shown
    have told := tells_applyLiveDiff filter .fullStore diff store result incremental id
    rw [MapDiff.apply_eq_writeAll, OrdMap.get_writeAll] at stored
    cases last : KeyedLog.lastEffect some id (diff.writesOn store) with
    | none =>
      rw [last] at told stored
      rw [show _ = result[id]? from told, exact id]
      exact LiveFilter.shown_eq_some.mpr ⟨stored, matched⟩
    | some write =>
      rw [last, Option.getD_some] at stored
      rw [last, stored] at told
      exact told matched

/-- A diff of the store keeps the result to what the filter shows, and keeps it whole just when moved items end in
place. -/
theorem kept_storeDiff {query : LiveQuery extractFk} (kept : query.Kept) {diff : ItemDiff}
    {watched : List CompoundKey} {drained : List BucketAction} (possible : query.DiffPossible diff watched drained) :
    (query.storeDiff diff watched drained).Kept ∧
      (query.Exact → ((query.storeDiff diff watched drained).Exact ↔ query.DiffInPlace diff drained)) := by
  have after : ∀ (id : String) (item : Item), (diff.apply query.store)[id]? = some item → item.id = id :=
    MapDiff.holds_apply diff query.store possible.keyed kept.indexed.keyed
  have indexed := indexed_storeDiff kept.indexed possible
  let written : LiveQuery extractFk :=
    { query with
      store := diff.apply query.store
      members := fun names => (prepareDiff (extractFk names) watched diff (query.members names)).2 }
  cases kept.subscribed with
  | scan unrouted scanGuard scanFilterRef prevRoute guards =>
    have reached : query.storeDiff diff watched drained =
        { written with result := applyLiveDiff query.filterCell .fullStore diff query.result } := by
      unfold storeDiff
      rw [bucketActions, prevRoute]
      show written.receiveScan diff = _
      rw [receiveScan, if_pos scanGuard, show written.state.scanFilterRef = _ from scanFilterRef]
      simp [currentLiveFilter, written]
    obtain ⟨sound, exact⟩ := scan_step possible.trueOld possible.incremental kept.sound
    rw [reached]
    refine ⟨⟨⟨after, indexed⟩, .scan unrouted scanGuard scanFilterRef prevRoute guards, sound⟩, fun before => ?_⟩
    refine iff_of_true (exact before) fun names routed => ?_
    rw [prevRoute] at routed
    cases routed
  | buckets route routed scanGuard prevRoute nodup guards refs =>
    have reached : query.storeDiff diff watched drained =
        { written with
          result := (query.bucketActions diff drained).foldl (testAction query.filterCell query.state.bucketGuards)
            query.result } := by
      unfold storeDiff
      show ((query.bucketActions diff drained).foldl receiveBucket written).receiveScan diff = _
      have current : ∀ key ∈ written.state.bucketGuards,
          written.state.bucketFilterRefs key = some ⟨written.generation, written.filterCell⟩ := refs
      rw [foldl_receiveBucket current]
      exact if_neg (by simp [written, scanGuard])
    have leads : ∀ item, query.filterCell.matchesItem item = true →
        ∃ key ∈ query.state.bucketGuards, route.splitQueryRoute.1.keyOf extractFk item = some key := by
      intro item matched
      obtain ⟨key, member, own⟩ := query.filterCell.sound item matched route routed
      exact ⟨key, (guards key).mpr member, own⟩
    have subscribed (result : ItemMap) : ({ written with result } : LiveQuery extractFk).Subscribed :=
      .buckets route routed scanGuard prevRoute nodup guards refs
    let union : UnionRoute := ⟨query.state.bucketGuards, nodup⟩
    rw [reached]
    cases shape : route.splitQueryRoute.1 with
    | ids =>
      rw [shape] at prevRoute leads
      have single : ∀ key ∈ union.keys, WellKeyed .ids key := fun key member =>
        shape ▸ wellKeyed_route route ((guards key).mp member)
      have feed : Feed (RouteShape.ids.keyOf extractFk) union.keys query.store (diff.apply query.store)
          (idRows query.store) (idRows (diff.apply query.store)) (query.bucketActions diff drained) := by
        rw [bucketActions, prevRoute]
        exact feed_ids kept.indexed possible.keyed nodup single
      refine ⟨⟨⟨after, indexed⟩, subscribed _, feed.sound leads kept.sound⟩, fun before => ?_⟩
      refine iff_of_true ((feed.exact_iff leads before).mpr ?_) fun names other => ?_
      · rw [bucketActions, prevRoute]
        exact inPlace_ids after single
      · rw [prevRoute] at other
        cases other
    | fields names =>
      rw [shape] at prevRoute leads
      have feed : Feed (extractFk names) union.keys query.store (diff.apply query.store) (query.members names)
          (prepareDiff (extractFk names) watched diff (query.members names)).2 (query.bucketActions diff drained) := by
        rw [bucketActions, prevRoute]
        exact feed_fields kept.indexed possible prevRoute
      refine ⟨⟨⟨after, indexed⟩, subscribed _, feed.sound leads kept.sound⟩, fun before => ?_⟩
      have exactly := feed.exact_iff leads before
      rw [show query.bucketActions diff drained = drained by rw [bucketActions, prevRoute]] at exactly ⊢
      refine exactly.trans ⟨fun inPlace other same route keys => ?_, fun inPlace => inPlace names prevRoute union rfl⟩
      rw [prevRoute] at same
      obtain rfl : names = other := by simpa using same
      obtain ⟨listed, distinct⟩ := route
      obtain rfl : listed = query.state.bucketGuards := keys
      exact inPlace

/-! ### Runs -/

/-- What may happen to a live query: its filter's keys are those of its route, its store's diffs are possible. -/
def Possible (query : LiveQuery extractFk) : LiveEvent extractFk → Prop
  | .filterChange newFilter newKeys => RouteKeys newFilter newKeys
  | .storeDiff diff watched drained => query.DiffPossible diff watched drained

def InPlace (query : LiveQuery extractFk) : LiveEvent extractFk → Prop
  | .filterChange _ _ => True
  | .storeDiff diff _ drained => query.DiffInPlace diff drained

def follow (query : LiveQuery extractFk) (event : LiveEvent extractFk) : Option (LiveQuery extractFk) :=
  some (query.step event)

theorem kept_step {query next : LiveQuery extractFk} {event : LiveEvent extractFk} (kept : query.Kept)
    (possible : query.Possible event) (stepped : query.follow event = some next) :
    next.Kept ∧ (query.Exact → (next.Exact ↔ query.InPlace event)) := by
  obtain rfl := Option.some.inj stepped
  cases event with
  | filterChange newFilter newKeys =>
    obtain ⟨keptAfter, exact⟩ := exact_filterChange kept.indexed kept.ready possible
    exact ⟨keptAfter, fun _ => iff_of_true exact trivial⟩
  | storeDiff diff watched drained => exact kept_storeDiff kept possible

namespace Sample

open Query.Sample

def byParent : FieldKeys := fun _ => parentOf

def eitherParent : LiveFilter byParent where
  matchesItem item := parentOf item == some ["a"] || parentOf item == some ["b"]
  queryRoute := some (.belongsTo ["parent"] bothParents.keys)
  sound item matched route routed := by
    obtain rfl := Option.some.inj routed
    rcases (Bool.or_eq_true _ _).mp matched with first | second
    · exact ⟨["a"], by decide, eq_of_beq first⟩
    · exact ⟨["b"], by decide, eq_of_beq second⟩

def everyItem : LiveFilter byParent where
  matchesItem _ := true
  queryRoute := none
  sound _ _ _ routed := by cases routed

def live : LiveQuery byParent := queryLive stored eitherParent bothParents.keys

def movedThenAll : List (LiveEvent byParent) :=
  [.storeDiff moved bothParents.keys oldBucketFirst.drained, .filterChange everyItem []]

theorem stored_keyed (id : String) (item : Item) (held : stored[id]? = some item) : item.id = id := by
  rw [stored, OrdMap.get_insertMany (by decide)] at held
  obtain ⟨rfl, rfl⟩ := Prod.mk.inj (List.mem_singleton.mp held)
  rfl

theorem either_routed : RouteKeys eitherParent bothParents.keys := by
  intro route routed
  obtain rfl := Option.some.inj routed
  rw [LiveRoute.splitQueryRoute, bothParents.nodup.dedup]

theorem movedThenAll_possible : Runs.Each follow Possible live movedThenAll := by
  refine ⟨?_, fun next _ => ⟨fun route routed => (by cases routed), fun _ _ => trivial⟩⟩
  refine ⟨⟨rfl, trivial⟩, ⟨trivial, trivial⟩, ⟨rfl, trivial⟩, bothParents.nodup, fun names _ => ⟨?_, ?_⟩⟩
  · decide
  · rw [show (prepareDiff (byParent names) bothParents.keys moved (live.members names)).1 =
      [oldBucketFirst.drained] from prepared_moved]
    exact ⟨[oldBucketFirst.drained], .cons (List.Perm.refl _) .nil, rfl⟩

/-- Drained last, the bucket the child has left takes it out of the result. -/
example : (live.storeDiff moved bothParents.keys newBucketFirst.drained).result["x"]? = none := by decide

end Sample

end LiveQuery

end Myko.Query

import Myko.Query.SourceIndex

/-!
The union of several buckets behind one query: every bucket forwards its diffs into one shared map, which
holds the items of all the keys as long as a moved item is forwarded last by the bucket it ends in.
-/

namespace Myko.Query

open KeyedLog

mutual
/-- Rewrite a bucket's diff into changes that can be applied to the union, and the bucket's contribution
after it. -/
def additiveUnionDiff : ItemDiff → ItemMap → Option ItemDiff × ItemMap
  | .initial entries, contribution =>
    let changes : List ItemDiff := contribution.toList.map (fun entry => .remove entry.1 entry.2) ++
      entries.map fun entry => .insert entry.1 entry.2
    (if changes.isEmpty then none else some (.batch changes), OrdMap.insertMany ∅ entries)
  | .batch changes, contribution =>
    let (rewritten, contribution) := additiveUnionDiffs changes contribution
    (if rewritten.isEmpty then none else some (.batch rewritten), contribution)
  | .insert key value, contribution => (some (.insert key value), contribution.insert key value)
  | .remove key oldValue, contribution => (some (.remove key oldValue), contribution.erase key)
  | .update key oldValue newValue, contribution =>
    (some (.update key oldValue newValue), contribution.insert key newValue)

def additiveUnionDiffs : List ItemDiff → ItemMap → List ItemDiff × ItemMap
  | [], contribution => ([], contribution)
  | change :: rest, contribution =>
    let (first, contribution) := additiveUnionDiff change contribution
    let (later, contribution) := additiveUnionDiffs rest contribution
    (first.toList ++ later, contribution)
end

/-- The keys a query is routed by, each once. -/
structure UnionRoute where
  keys : List CompoundKey
  nodup : keys.Nodup

/-- The shared map and what each bucket has contributed to it. -/
structure UnionMap where
  contributions : CompoundKey → ItemMap
  result : ItemMap

/-- A bucket's diff as the union's subscription receives it. -/
def UnionMap.receive (route : UnionRoute) (union : UnionMap) (action : BucketAction) : UnionMap :=
  if action.1 ∈ route.keys then
    let (additive, contribution) := additiveUnionDiff action.2 (union.contributions action.1)
    { contributions := Function.update union.contributions action.1 contribution
      result := match additive with
        | some diff => diff.apply union.result
        | none => union.result }
  else union

/-- A store, its index and the union of some of its buckets. -/
structure UnionState where
  store : ItemMap
  members : Members
  union : UnionMap

/-- A diff of the store, the buckets watched while it is dispatched and the order in which they are
drained. -/
structure Dispatch where
  diff : ItemDiff
  watched : List CompoundKey
  drained : List BucketAction

/-- Subscribe to the buckets of the keys, one after the other, each starting from its present rows. -/
def buildBelongsToUnionSourceMap (extractFk : FkExtractor) (route : UnionRoute) (store : ItemMap) :
    UnionState :=
  let members := membersOf extractFk store.toList
  { store, members
    union := route.keys.foldl (fun union key => union.receive route (key, .initial (members key).toList))
      ⟨fun _ => ∅, ∅⟩ }

def UnionState.step (extractFk : FkExtractor) (route : UnionRoute) (s : UnionState) (d : Dispatch) :
    UnionState where
  store := d.diff.apply s.store
  members := (prepareDiff extractFk d.watched d.diff s.members).2
  union := d.drained.foldl (UnionMap.receive route) s.union

/-- The diff is one of this store, the union's buckets are watched and the drain order is possible. -/
structure Dispatch.Possible (extractFk : FkExtractor) (route : UnionRoute) (s : UnionState) (d : Dispatch) :
    Prop where
  trueOld : d.diff.TrueOf s.store
  nodup : d.watched.Nodup
  watched : ∀ key ∈ route.keys, key ∈ d.watched
  drains : Drains (prepareDiff extractFk d.watched d.diff s.members).1 d.drained

/-- The union holds the stored items that have one of the keys. -/
def UnionState.Exact (extractFk : FkExtractor) (route : UnionRoute) (s : UnionState) : Prop :=
  ∀ (id : String) (item : Item), s.union.result[id]? = some item ↔
    s.store[id]? = some item ∧ ∃ key ∈ route.keys, extractFk item = some key

/-- The writes forwarded to the shared map, each with the key of its bucket. -/
def forwarded (route : UnionRoute) : (CompoundKey → ItemMap) → List BucketAction →
    List (CompoundKey × (String × Option Item))
  | _, [] => []
  | contributions, action :: rest =>
    if action.1 ∈ route.keys then
      (action.2.writesOn (contributions action.1)).map (fun write => (action.1, write)) ++
        forwarded route (Function.update contributions action.1
          (action.2.apply (contributions action.1))) rest
    else forwarded route contributions rest

def lastForwarded (writes : List (CompoundKey × (String × Option Item))) (id : String) :
    Option (CompoundKey × (String × Option Item)) :=
  (writes.filter fun write => write.2.1 = id).getLast?

/-- Every item that ends under one of the keys was forwarded last, if at all, by its own bucket. -/
def InPlace (extractFk : FkExtractor) (route : UnionRoute) (s : UnionState) (d : Dispatch) : Prop :=
  ∀ (id : String) (item : Item), (d.diff.apply s.store)[id]? = some item →
    ∀ own ∈ route.keys, extractFk item = some own →
      ∀ key write, lastForwarded (forwarded route s.union.contributions d.drained) id = some (key, write) →
        key = own

/-! ### What the shared map receives -/

variable {extractFk : FkExtractor} {route : UnionRoute}

theorem applyAll_retract (contribution : ItemMap) (entries : List (String × Item)) (m : ItemMap) :
    MapDiff.applyAll ((contribution.toList.map fun entry => MapDiff.remove entry.1 entry.2) ++
      entries.map fun entry => MapDiff.insert entry.1 entry.2) m =
        OrdMap.writeAll m (MapDiff.writesOn (.initial entries) contribution) := by
  have removed : ∀ (entries : List (String × Item)) (m : ItemMap),
      MapDiff.applyAll (entries.map fun entry => MapDiff.remove entry.1 entry.2) m =
        OrdMap.writeAll m (entries.map fun entry => (entry.1, none)) := by
    intro entries
    induction entries with
    | nil => intro m; rfl
    | cons entry rest ih => intro m; exact ih _
  have inserted : ∀ (entries : List (String × Item)) (m : ItemMap),
      MapDiff.applyAll (entries.map fun entry => MapDiff.insert entry.1 entry.2) m =
        OrdMap.writeAll m (entries.map fun entry => (entry.1, some entry.2)) := by
    intro entries
    induction entries with
    | nil => intro m; rfl
    | cons entry rest ih => intro m; exact ih _
  rw [MapDiff.applyAll_append, removed, inserted, MapDiff.writesOn, OrdMap.writeAll_append]

/-- What an optional diff makes of a map. -/
def applyOption (diff : Option ItemDiff) (m : ItemMap) : ItemMap :=
  match diff with
  | some diff => diff.apply m
  | none => m

mutual
/-- The rewritten diff does to any map what the bucket's diff does to the contribution. -/
theorem additive_spec : ∀ (diff : ItemDiff) (contribution : ItemMap),
    (additiveUnionDiff diff contribution).2 = diff.apply contribution ∧
      ∀ m, applyOption (additiveUnionDiff diff contribution).1 m =
        OrdMap.writeAll m (diff.writesOn contribution)
  | .initial entries, contribution => by
    refine ⟨rfl, fun m => ?_⟩
    rw [← applyAll_retract]
    simp only [additiveUnionDiff]
    split
    · rename_i none
      rw [List.isEmpty_iff.mp none]
      rfl
    · rfl
  | .batch changes, contribution => by
    obtain ⟨after, same⟩ := additives_spec changes contribution
    refine ⟨after, fun m => ?_⟩
    rw [MapDiff.writesOn, ← same m]
    simp only [additiveUnionDiff]
    split
    · rename_i none
      rw [List.isEmpty_iff.mp none]
      rfl
    · rfl
  | .insert _ _, _ => ⟨rfl, fun _ => rfl⟩
  | .remove _ _, _ => ⟨rfl, fun _ => rfl⟩
  | .update _ _ _, _ => ⟨rfl, fun _ => rfl⟩

theorem additives_spec : ∀ (changes : List ItemDiff) (contribution : ItemMap),
    (additiveUnionDiffs changes contribution).2 = MapDiff.applyAll changes contribution ∧
      ∀ m, MapDiff.applyAll (additiveUnionDiffs changes contribution).1 m =
        OrdMap.writeAll m (MapDiff.allWritesOn changes contribution)
  | [], _ => ⟨rfl, fun _ => rfl⟩
  | change :: rest, contribution => by
    obtain ⟨after, same⟩ := additive_spec change contribution
    obtain ⟨afterRest, sameRest⟩ := additives_spec rest (additiveUnionDiff change contribution).2
    refine ⟨?_, fun m => ?_⟩
    · rw [additiveUnionDiffs, MapDiff.applyAll, ← after]
      exact afterRest
    · have first : MapDiff.applyAll (additiveUnionDiff change contribution).1.toList m =
          applyOption (additiveUnionDiff change contribution).1 m := by
        cases (additiveUnionDiff change contribution).1 <;> rfl
      rw [additiveUnionDiffs, MapDiff.allWritesOn, OrdMap.writeAll_append, MapDiff.applyAll_append, first,
        same m, ← after]
      exact sameRest _
end

theorem receive_routed (union : UnionMap) {action : BucketAction} (routed : action.1 ∈ route.keys) :
    (union.receive route action).contributions = Function.update union.contributions action.1
        (action.2.apply (union.contributions action.1)) ∧
      (union.receive route action).result =
        OrdMap.writeAll union.result (action.2.writesOn (union.contributions action.1)) := by
  obtain ⟨after, same⟩ := additive_spec action.2 (union.contributions action.1)
  unfold UnionMap.receive
  rw [if_pos routed]
  refine ⟨?_, same union.result⟩
  show Function.update union.contributions action.1 (additiveUnionDiff _ _).2 = _
  rw [after]

/-- The union after a list of actions: all forwarded writes on the shared map, and each bucket's own on its
contribution. -/
theorem receive_all (route : UnionRoute) (actions : List BucketAction) (union : UnionMap) :
    (actions.foldl (UnionMap.receive route) union).result =
        OrdMap.writeAll union.result ((forwarded route union.contributions actions).map Prod.snd) ∧
      ∀ key ∈ route.keys,
        (actions.foldl (UnionMap.receive route) union).contributions key =
            MapDiff.applyAll (actionsOf key actions) (union.contributions key) ∧
          (actions.foldl (UnionMap.receive route) union).contributions key =
            OrdMap.writeAll (union.contributions key)
              (((forwarded route union.contributions actions).filter fun write => write.1 = key).map Prod.snd) := by
  induction actions generalizing union with
  | nil => exact ⟨rfl, fun key _ => ⟨rfl, rfl⟩⟩
  | cons action rest ih =>
    obtain ⟨result, contributions⟩ := ih (union.receive route action)
    rw [List.foldl_cons]
    by_cases routed : action.1 ∈ route.keys
    · obtain ⟨updated, written⟩ := receive_routed union routed
      rw [written, updated] at result
      refine ⟨?_, fun key member => ?_⟩
      · have tagged : ((action.2.writesOn (union.contributions action.1)).map fun write =>
            (action.1, write)).map Prod.snd = action.2.writesOn (union.contributions action.1) := by
          rw [List.map_map]
          exact List.map_id _
        rw [result, forwarded, if_pos routed, List.map_append, OrdMap.writeAll_append, tagged]
      · obtain ⟨applied, own⟩ := contributions key member
        rw [updated] at applied own
        rw [forwarded, if_pos routed, List.filter_append, List.map_append, OrdMap.writeAll_append]
        by_cases here : action.1 = key
        · subst here
          have kept : ((action.2.writesOn (union.contributions action.1)).map fun write =>
              (action.1, write)).filter (fun write => decide (write.1 = action.1)) =
              (action.2.writesOn (union.contributions action.1)).map fun write => (action.1, write) := by
            refine List.filter_eq_self.mpr fun write listed => ?_
            obtain ⟨_, _, rfl⟩ := List.mem_map.mp listed
            simp
          have tagged : ((action.2.writesOn (union.contributions action.1)).map fun write =>
              (action.1, write)).map Prod.snd = action.2.writesOn (union.contributions action.1) := by
            rw [List.map_map]
            exact List.map_id _
          have first : actionsOf action.1 (action :: rest) = action.2 :: actionsOf action.1 rest := by
            simp [actionsOf]
          rw [Function.update_self] at applied own
          rw [kept, tagged, ← MapDiff.apply_eq_writeAll, first]
          exact ⟨applied, own⟩
        · have dropped : ((action.2.writesOn (union.contributions action.1)).map fun write =>
              (action.1, write)).filter (fun write => decide (write.1 = key)) = [] := by
            refine List.filter_eq_nil_iff.mpr fun write listed => ?_
            obtain ⟨_, _, rfl⟩ := List.mem_map.mp listed
            simpa using here
          have skipped : actionsOf key (action :: rest) = actionsOf key rest := by simp [actionsOf, here]
          rw [Function.update_of_ne (Ne.symm here)] at applied own
          rw [dropped, skipped]
          exact ⟨applied, own⟩
    · have same : union.receive route action = union := if_neg routed
      rw [same] at result contributions ⊢
      refine ⟨by rw [result, forwarded, if_neg routed], fun key member => ?_⟩
      have other : action.1 ≠ key := fun eq => routed (eq ▸ member)
      have skipped : actionsOf key (action :: rest) = actionsOf key rest := by simp [actionsOf, other]
      rw [skipped, forwarded, if_neg routed]
      exact contributions key member

/-- Only buckets of the route forward anything. -/
theorem forwarded_routed {contributions : CompoundKey → ItemMap} {actions : List BucketAction}
    {write : CompoundKey × (String × Option Item)} (member : write ∈ forwarded route contributions actions) :
    write.1 ∈ route.keys := by
  induction actions generalizing contributions with
  | nil => cases member
  | cons action rest ih =>
    rw [forwarded] at member
    split at member
    · rename_i routed
      rcases List.mem_append.mp member with here | later
      · obtain ⟨_, _, rfl⟩ := List.mem_map.mp here
        exact routed
      · exact ih later
    · exact ih member

/-! ### One dispatch -/

/-- The union while it is in step with the index: the index has the stored items by key and each bucket has
contributed its rows. -/
structure UnionState.Kept (extractFk : FkExtractor) (route : UnionRoute) (s : UnionState) : Prop where
  members : s.members.Exact extractFk s.store
  contributions : ∀ key ∈ route.keys, s.union.contributions key = s.members key

theorem kept_step {s : UnionState} {d : Dispatch} (kept : s.Kept extractFk route)
    (possible : d.Possible extractFk route s) : (s.step extractFk route d).Kept extractFk route := by
  have prepared := prepared_diff extractFk possible.nodup d.diff s.members s.store kept.members
    possible.trueOld
  refine ⟨prepared.exact, fun key member => ?_⟩
  have received := ((receive_all route d.drained s.union).2 key member).1
  show (d.drained.foldl (UnionMap.receive route) s.union).contributions key = _
  rw [received, actionsOf_drained possible.drains prepared.once, kept.contributions key member]
  exact prepared.rows key (possible.watched key member)

/-- What was forwarded last about an item is what its bucket then holds of it. -/
theorem lastForwarded_some {contributions : CompoundKey → ItemMap} {actions : List BucketAction}
    {id : String} {key : CompoundKey} {write : String × Option Item}
    (last : lastForwarded (forwarded route contributions actions) id = some (key, write)) :
    lastEffect some id ((forwarded route contributions actions).map Prod.snd) = some write.2 ∧
      lastEffect some id (((forwarded route contributions actions).filter fun write =>
        write.1 = key).map Prod.snd) = some write.2 := by
  have mapped : ∀ writes : List (CompoundKey × (String × Option Item)),
      lastEffect some id (writes.map Prod.snd) =
        (writes.filter fun write => write.2.1 = id).getLast?.map fun write => write.2.2 := by
    intro writes
    rw [lastEffect_some, List.filter_map, List.getLast?_map, Option.map_map]
    rfl
  obtain ⟨front, split⟩ := List.getLast?_eq_some_iff.mp last
  refine ⟨by rw [mapped, split]; simp, ?_⟩
  rw [mapped, List.filter_comm, split, List.filter_append]
  simp

theorem lastForwarded_none {contributions : CompoundKey → ItemMap} {actions : List BucketAction}
    {id : String} (last : lastForwarded (forwarded route contributions actions) id = none) :
    lastEffect some id ((forwarded route contributions actions).map Prod.snd) = none ∧
      ∀ key, lastEffect some id (((forwarded route contributions actions).filter fun write =>
        write.1 = key).map Prod.snd) = none := by
  have silent : ∀ write ∈ forwarded route contributions actions, write.2.1 ≠ id := by
    intro write member
    simpa using List.filter_eq_nil_iff.mp (List.getLast?_eq_none_iff.mp last) write member
  have none : ∀ writes : List (CompoundKey × (String × Option Item)), (∀ write ∈ writes, write.2.1 ≠ id) →
      lastEffect some id (writes.map Prod.snd) = none := by
    intro writes apart
    refine lastEffect_eq_none.mpr fun write member => ?_
    obtain ⟨tagged, listed, rfl⟩ := List.mem_map.mp member
    exact if_neg (apart tagged listed)
  exact ⟨none _ silent, fun key => none _ fun write member => silent write (List.mem_filter.mp member).1⟩

/-- From an exact union a dispatch leads to an exact one just when moved items end in place. -/
theorem exact_step_iff {s : UnionState} {d : Dispatch} (kept : s.Kept extractFk route)
    (possible : d.Possible extractFk route s) (exact : s.Exact extractFk route) :
    (s.step extractFk route d).Exact extractFk route ↔ InPlace extractFk route s d := by
  have after := kept_step kept possible
  obtain ⟨result, contributions⟩ := receive_all route d.drained s.union
  -- What the shared map and each bucket hold of an item, by the last write forwarded about it.
  have shared : ∀ id : String, (s.step extractFk route d).union.result[id]? =
      (lastEffect some id ((forwarded route s.union.contributions d.drained).map Prod.snd)).getD
        s.union.result[id]? := by
    intro id
    show (d.drained.foldl (UnionMap.receive route) s.union).result[id]? = _
    rw [result, OrdMap.get_writeAll]
  have bucket : ∀ key ∈ route.keys, ∀ id : String, ((s.step extractFk route d).members key)[id]? =
      (lastEffect some id (((forwarded route s.union.contributions d.drained).filter fun write =>
        write.1 = key).map Prod.snd)).getD (s.members key)[id]? := by
    intro key member id
    rw [← after.contributions key member, ← kept.contributions key member, ← OrdMap.get_writeAll]
    exact congrArg (fun m : ItemMap => m[id]?) (contributions key member).2
  constructor
  · intro exactAfter id item stored own member routed key write last
    have held := (exactAfter id item).mpr ⟨stored, own, member, routed⟩
    obtain ⟨sharedLast, bucketLast⟩ := lastForwarded_some last
    have forwarder : key ∈ route.keys :=
      forwarded_routed (List.mem_filter.mp (List.mem_of_getLast? last)).1
    have inBucket := bucket key forwarder id
    rw [bucketLast] at inBucket
    rw [shared, sharedLast] at held
    have there : ((s.step extractFk route d).members key)[id]? = some item := inBucket.trans held
    have owner := ((after.members key id item).mp there).2
    rw [routed] at owner
    exact (Option.some.inj owner).symm
  · intro inPlace id item
    rw [shared]
    cases last : lastForwarded (forwarded route s.union.contributions d.drained) id with
    | none =>
      obtain ⟨nothing, none⟩ := lastForwarded_none last
      rw [nothing, Option.getD_none, exact id item]
      have same : ∀ key ∈ route.keys, ∀ value : Item,
          (s.store[id]? = some value ∧ extractFk value = some key ↔
            (s.step extractFk route d).store[id]? = some value ∧ extractFk value = some key) := by
        intro key member value
        rw [← kept.members key id value, ← after.members key id value, bucket key member id, none key,
          Option.getD_none]
      constructor
      · rintro ⟨stored, key, member, routed⟩
        have moved := (same key member item).mp ⟨stored, routed⟩
        exact ⟨moved.1, key, member, routed⟩
      · rintro ⟨stored, key, member, routed⟩
        have moved := (same key member item).mpr ⟨stored, routed⟩
        exact ⟨moved.1, key, member, routed⟩
    | some found =>
      obtain ⟨key, write⟩ := found
      obtain ⟨sharedLast, bucketLast⟩ := lastForwarded_some last
      have forwarder : key ∈ route.keys :=
        forwarded_routed (List.mem_filter.mp (List.mem_of_getLast? last)).1
      have inBucket := bucket key forwarder id
      rw [bucketLast, Option.getD_some] at inBucket
      rw [sharedLast, Option.getD_some]
      constructor
      · intro held
        obtain ⟨stored, routed⟩ := (after.members key id item).mp (inBucket.trans held)
        exact ⟨stored, key, forwarder, routed⟩
      · rintro ⟨stored, own, member, routed⟩
        obtain rfl := inPlace id item stored own member routed key write last
        rw [← inBucket]
        exact (after.members key id item).mpr ⟨stored, routed⟩

/-! ### Runs -/

/-- Dispatches that are possible one after the other. -/
def Follows (extractFk : FkExtractor) (route : UnionRoute) : UnionState → List Dispatch → Prop
  | _, [] => True
  | s, d :: rest => d.Possible extractFk route s ∧ Follows extractFk route (s.step extractFk route d) rest

def AlwaysExact (extractFk : FkExtractor) (route : UnionRoute) : UnionState → List Dispatch → Prop
  | s, [] => s.Exact extractFk route
  | s, d :: rest => s.Exact extractFk route ∧ AlwaysExact extractFk route (s.step extractFk route d) rest

def AllInPlace (extractFk : FkExtractor) (route : UnionRoute) : UnionState → List Dispatch → Prop
  | _, [] => True
  | s, d :: rest => InPlace extractFk route s d ∧ AllInPlace extractFk route (s.step extractFk route d) rest

theorem alwaysExact_iff {s : UnionState} {dispatches : List Dispatch} (kept : s.Kept extractFk route)
    (exact : s.Exact extractFk route) (follows : Follows extractFk route s dispatches) :
    AlwaysExact extractFk route s dispatches ↔ AllInPlace extractFk route s dispatches := by
  induction dispatches generalizing s with
  | nil => exact ⟨fun _ => trivial, fun _ => exact⟩
  | cons d rest ih =>
    have step := exact_step_iff kept follows.1 exact
    have later := fun exactAfter => ih (kept_step kept follows.1) exactAfter follows.2
    constructor
    · rintro ⟨_, always⟩
      have next : (s.step extractFk route d).Exact extractFk route := by
        cases rest with
        | nil => exact always
        | cons _ _ => exact always.1
      exact ⟨step.mp next, (later next).mp always⟩
    · rintro ⟨now, all⟩
      have next := step.mpr now
      exact ⟨exact, (later next).mpr all⟩

/-- The first snapshots forward rows only, each from its own bucket. -/
theorem forwarded_snapshots {rows : CompoundKey → List (String × Item)} {keys : List CompoundKey}
    {contributions : CompoundKey → ItemMap} (nodup : keys.Nodup)
    (fresh : ∀ key ∈ keys, contributions key = ∅) {write : CompoundKey × (String × Option Item)}
    (member : write ∈ forwarded route contributions (keys.map fun key => (key, .initial (rows key)))) :
    ∃ value, write.2.2 = some value ∧ (write.2.1, value) ∈ rows write.1 := by
  induction keys generalizing contributions with
  | nil => cases member
  | cons first rest ih =>
    obtain ⟨apart, later⟩ := List.nodup_cons.mp nodup
    rw [List.map_cons, forwarded] at member
    split at member
    · rcases List.mem_append.mp member with here | after
      · obtain ⟨entry, listed, rfl⟩ := List.mem_map.mp here
        rw [MapDiff.writesOn, fresh first List.mem_cons_self] at listed
        rcases List.mem_append.mp listed with gone | added
        · cases gone
        · obtain ⟨row, inside, rfl⟩ := List.mem_map.mp added
          exact ⟨row.2, rfl, inside⟩
      · refine ih later (fun key listed => ?_) after
        have other : key ≠ first := fun same => apart (same ▸ listed)
        rw [Function.update_of_ne other]
        exact fresh key (List.mem_cons_of_mem _ listed)
    · exact ih later (fun key listed => fresh key (List.mem_cons_of_mem _ listed)) member

/-- Building the union is a dispatch of the store's snapshot to a union that has nothing yet. -/
theorem build_kept (extractFk : FkExtractor) (route : UnionRoute) (store : ItemMap) :
    (buildBelongsToUnionSourceMap extractFk route store).Kept extractFk route ∧
      (buildBelongsToUnionSourceMap extractFk route store).Exact extractFk route := by
  let bare : UnionState := ⟨∅, fun _ => ∅, ⟨fun _ => ∅, ∅⟩⟩
  let rows := fun key => (membersOf extractFk store.toList key).toList
  let first : Dispatch := ⟨.initial store.toList, route.keys, route.keys.map fun key => (key, .initial (rows key))⟩
  have possible : first.Possible extractFk route bare :=
    ⟨OrdMap.nodup_keys store, route.nodup, fun _ member => member,
      ⟨[first.drained], .cons (List.Perm.refl _) .nil, (List.append_nil _).symm⟩⟩
  have nothing : ∀ id : String, (∅ : ItemMap)[id]? = none := fun id => Std.ExtTreeMap.getElem?_empty
  have kept : bare.Kept extractFk route :=
    ⟨fun _ id _ => by simp only [bare, nothing]; simp, fun _ _ => rfl⟩
  have exact : bare.Exact extractFk route := fun id _ => by simp only [bare, nothing]; simp
  have built : bare.step extractFk route first = buildBelongsToUnionSourceMap extractFk route store := by
    unfold UnionState.step buildBelongsToUnionSourceMap
    congr 1
    · exact OrdMap.insertMany_toList store
    · exact List.foldl_map
  have inPlace : InPlace extractFk route bare first := by
    intro id item stored own _ routed key write last
    have member := List.mem_of_getLast? last
    obtain ⟨listed, about⟩ := List.mem_filter.mp member
    obtain ⟨value, _, row⟩ := forwarded_snapshots route.nodup (fun _ _ => rfl) listed
    have there := OrdMap.mem_toList.mp row
    have same : write.1 = id := by simpa using about
    obtain ⟨held, owner⟩ :=
      ((kept_step kept possible).members key write.1 value).mp there
    rw [same] at held
    have one : value = item := Option.some.inj (held.symm.trans stored)
    rw [one, routed] at owner
    exact (Option.some.inj owner).symm
  rw [← built]
  exact ⟨kept_step kept possible, (exact_step_iff kept possible exact).mpr inPlace⟩

/-- Over every run of dispatches the union is exact throughout just when, in each of them, the bucket an item
ends in is the last to forward it. -/
theorem union_exact_iff (extractFk : FkExtractor) (route : UnionRoute) (store : ItemMap)
    (dispatches : List Dispatch)
    (follows : Follows extractFk route (buildBelongsToUnionSourceMap extractFk route store) dispatches) :
    AlwaysExact extractFk route (buildBelongsToUnionSourceMap extractFk route store) dispatches ↔
      AllInPlace extractFk route (buildBelongsToUnionSourceMap extractFk route store) dispatches := by
  obtain ⟨kept, exact⟩ := build_kept extractFk route store
  exact alwaysExact_iff kept exact follows

/-! ### A moved item -/

namespace Sample

def child (id parent : String) : Item where
  entityType := "child"
  id := id
  fields := [("parent", .text parent)]

def parentOf : FkExtractor := fun item =>
  match item.field "parent" with
  | some (.text parent) => some [parent]
  | _ => none

def bothParents : UnionRoute := ⟨[["a"], ["b"]], by decide⟩

def stored : ItemMap := OrdMap.insertMany ∅ [("x", child "x" "a")]

def built : UnionState := buildBelongsToUnionSourceMap parentOf bothParents stored

/-- One child moves from the first parent to the second. -/
def moved : ItemDiff := .batch [.update "x" (child "x" "a") (child "x" "b")]

def newBucketFirst : Dispatch where
  diff := moved
  watched := bothParents.keys
  drained := [(["b"], .batch [.insert "x" (child "x" "b")]), (["a"], .batch [.remove "x" (child "x" "a")])]

def oldBucketFirst : Dispatch := { newBucketFirst with drained := newBucketFirst.drained.reverse }

theorem prepared_moved : (prepareDiff parentOf bothParents.keys moved built.members).1 =
    [oldBucketFirst.drained] := rfl

theorem newBucketFirst_possible : newBucketFirst.Possible parentOf bothParents built where
  trueOld := ⟨rfl, trivial⟩
  nodup := bothParents.nodup
  watched _ member := member
  drains := by
    rw [show newBucketFirst.watched = bothParents.keys from rfl, show newBucketFirst.diff = moved from rfl,
      prepared_moved]
    exact ⟨[newBucketFirst.drained], .cons (List.reverse_perm _).symm .nil, rfl⟩

theorem oldBucketFirst_possible : oldBucketFirst.Possible parentOf bothParents built where
  trueOld := ⟨rfl, trivial⟩
  nodup := bothParents.nodup
  watched _ member := member
  drains := by
    rw [show oldBucketFirst.watched = bothParents.keys from rfl, show oldBucketFirst.diff = moved from rfl,
      prepared_moved]
    exact ⟨[oldBucketFirst.drained], .cons (List.Perm.refl _) .nil, rfl⟩

theorem union_exact_iff_oldBucketFirst :
    Follows parentOf bothParents built [oldBucketFirst] ∧
      (AlwaysExact parentOf bothParents built [oldBucketFirst] ↔
        AllInPlace parentOf bothParents built [oldBucketFirst]) :=
  ⟨⟨oldBucketFirst_possible, trivial⟩,
    union_exact_iff parentOf bothParents stored [oldBucketFirst] ⟨oldBucketFirst_possible, trivial⟩⟩

/-- Drained after the bucket the child is now in, the old bucket takes the child out of the union. -/
theorem union_loses_moved :
    ¬ ∀ (extractFk : FkExtractor) (route : UnionRoute) (store : ItemMap) (dispatches : List Dispatch),
      Follows extractFk route (buildBelongsToUnionSourceMap extractFk route store) dispatches →
      AlwaysExact extractFk route (buildBelongsToUnionSourceMap extractFk route store) dispatches := by
  intro claim
  obtain ⟨_, after⟩ := claim parentOf bothParents stored [newBucketFirst] ⟨newBucketFirst_possible, trivial⟩
  have held := (after "x" (child "x" "b")).mpr ⟨by decide, ["b"], by decide, by decide⟩
  have lost : (built.step parentOf bothParents newBucketFirst).union.result["x"]? = none := by decide
  rw [show (built.step parentOf bothParents newBucketFirst).union.result["x"]? =
    some (child "x" "b") from held] at lost
  cases lost

end Sample

end Myko.Query

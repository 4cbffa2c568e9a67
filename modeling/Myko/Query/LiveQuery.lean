import Myko.Query.SourceIndex

/-!
A query whose filter is itself live. Its result is one map that stays while the filter changes: subscriptions to
buckets come and go, rows are tested again, and diffs of the sources are applied through the latest filter.
-/

namespace Myko.Query

/-- What the buckets of a route are keyed by: the id, whose field names no entity has, or some of the fields. -/
inductive RouteShape where
  | ids
  | fields (names : List String)
  deriving DecidableEq

inductive LiveRoute where
  | ids (ids : List String)
  | belongsTo (fieldNames : List String) (keys : List CompoundKey)

/-- How an entity's items are keyed under some of its fields. -/
abbrev FieldKeys := List String → FkExtractor

namespace LiveRoute

/-- The keys are a set. -/
def splitQueryRoute : LiveRoute → RouteShape × List CompoundKey
  | ids listed => (.ids, (listed.map fun id => [id]).dedup)
  | belongsTo fieldNames keys => (.fields fieldNames, keys.dedup)

end LiveRoute

def RouteShape.keyOf (extractFk : FieldKeys) : RouteShape → FkExtractor
  | ids => fun item => some [item.id]
  | fields names => extractFk names

/-- A filter with its route, which leads to every item that matches. -/
structure LiveFilter (extractFk : FieldKeys) where
  matchesItem : Item → Bool
  queryRoute : Option LiveRoute
  sound : ∀ item, matchesItem item = true → ∀ route, queryRoute = some route →
    ∃ key ∈ route.splitQueryRoute.2, route.splitQueryRoute.1.keyOf extractFk item = some key

variable {extractFk : FieldKeys}

/-! ### What a source does to the result -/

/-- Test the rows of one bucket again; rows of others are left alone. -/
def applyBucketCandidates (filter : LiveFilter extractFk) (candidates : List (String × Item)) (result : ItemMap) :
    ItemMap :=
  candidates.foldl (fun result entry =>
    if filter.matchesItem entry.2 then result.insert entry.1 entry.2 else result.erase entry.1) result

/-- A row is let in or dropped; one that stays keeps what it holds. -/
def reconcileCandidate (filter : LiveFilter extractFk) (currentIds : List String) (result : ItemMap)
    (entry : String × Item) : ItemMap :=
  match filter.matchesItem entry.2, decide (entry.1 ∈ currentIds) with
  | true, false => result.insert entry.1 entry.2
  | false, true => result.erase entry.1
  | _, _ => result

/-- Bring the result to the rows that match among all there are. -/
def reconcileFullScopeMembership (filter : LiveFilter extractFk) (candidates : List (String × Item))
    (result : ItemMap) : ItemMap :=
  let currentIds := result.toList.map Prod.fst
  OrdMap.removeMany (candidates.foldl (reconcileCandidate filter currentIds) result)
    (currentIds.filter fun id => decide (id ∉ candidates.map Prod.fst))

inductive LiveDiffScope where
  | bucket
  | fullStore

mutual
def applyLiveDiff (filter : LiveFilter extractFk) (scope : LiveDiffScope) : ItemDiff → ItemMap → ItemMap
  | .initial entries, result =>
    match scope with
    | .bucket => applyBucketCandidates filter entries result
    | .fullStore => reconcileFullScopeMembership filter entries result
  | .insert key value, result => if filter.matchesItem value then result.insert key value else result
  | .remove key _, result => result.erase key
  | .update key _ newValue, result =>
    if filter.matchesItem newValue then result.insert key newValue else result.erase key
  | .batch changes, result => applyLiveDiffs filter scope changes result

def applyLiveDiffs (filter : LiveFilter extractFk) (scope : LiveDiffScope) : List ItemDiff → ItemMap → ItemMap
  | [], result => result
  | change :: rest, result => applyLiveDiffs filter scope rest (applyLiveDiff filter scope change result)
end

/-! ### The state of a live query -/

/-- The filter a subscription reads, and the change of filter it is from. -/
structure LiveFilterGeneration (extractFk : FieldKeys) where
  generation : Nat
  filter : LiveFilter extractFk

structure LiveQueryState (extractFk : FieldKeys) where
  /-- The keys whose buckets are subscribed to. -/
  bucketGuards : List CompoundKey
  bucketFilterRefs : CompoundKey → Option (LiveFilterGeneration extractFk)
  scanGuard : Bool
  scanFilterRef : Option (LiveFilterGeneration extractFk)
  prevRoute : Option RouteShape

/-- A store with its indexes, the filter's cell, and the query that follows both. -/
structure LiveQuery (extractFk : FieldKeys) where
  store : ItemMap
  /-- The rows of the index over some fields. -/
  members : List String → Members
  filterCell : LiveFilter extractFk
  generation : Nat
  state : LiveQueryState extractFk
  result : ItemMap

namespace LiveQuery

variable (self : LiveQuery extractFk)

/-- The row an id names, as the source of that id alone holds it. -/
def idRows (store : ItemMap) : Members := fun key =>
  match key.head? with
  | some id =>
    match store[id]? with
    | some item => (∅ : ItemMap).insert id item
    | none => ∅
  | none => ∅

def bucketRows : RouteShape → Members
  | .ids => idRows self.store
  | .fields names => self.members names

/-- None for a subscription that is not of the latest change of filter. -/
def currentLiveFilter (filterState : Option (LiveFilterGeneration extractFk)) : Option (LiveFilter extractFk) :=
  filterState.bind fun latest => if latest.generation = self.generation then some latest.filter else none

def clearLiveResult (result : ItemMap) : ItemMap := OrdMap.removeMany result (result.toList.map Prod.fst)

/-- Retract the buckets that are no longer asked for and test the rows of the others. -/
def reconcileExistingBuckets (shape : RouteShape) (newFilter : LiveFilter extractFk) (newKeys : List CompoundKey) :
    LiveQuery extractFk :=
  let dropped := self.state.bucketGuards.filter fun key => decide (key ∉ newKeys)
  let kept := self.state.bucketGuards.filter fun key => decide (key ∈ newKeys)
  let retracted := dropped.foldl (fun result key =>
    OrdMap.removeMany result ((self.bucketRows shape key).toList.map Prod.fst)) self.result
  { self with
    state := { self.state with
      bucketGuards := kept
      bucketFilterRefs := fun key =>
        if key ∈ newKeys then
          (self.state.bucketFilterRefs key).map fun _ => ⟨self.generation, newFilter⟩
        else if key ∈ dropped then none
        else self.state.bucketFilterRefs key }
    result := newKeys.foldl (fun result key =>
      if key ∈ kept then applyBucketCandidates newFilter (self.bucketRows shape key).toList result else result)
      retracted }

/-- Subscribe to a bucket. Its rows are tested before, and come once more as its first diff. -/
def addLiveBucket (shape : RouteShape) (newFilter : LiveFilter extractFk) (key : CompoundKey) : LiveQuery extractFk :=
  if key ∈ self.state.bucketGuards then self
  else
    let rows := (self.bucketRows shape key).toList
    let latest : LiveFilterGeneration extractFk := ⟨self.generation, newFilter⟩
    let tested := applyBucketCandidates newFilter rows self.result
    { self with
      state := { self.state with
        bucketGuards := key :: self.state.bucketGuards
        bucketFilterRefs := Function.update self.state.bucketFilterRefs key (some latest) }
      result := match self.currentLiveFilter (some latest) with
        | some filter => applyLiveDiff filter .bucket (.initial rows) tested
        | none => tested }

def addLiveBuckets (shape : RouteShape) (newFilter : LiveFilter extractFk) (newKeys : List CompoundKey) :
    LiveQuery extractFk :=
  newKeys.foldl (fun self key => addLiveBucket self shape newFilter key) self

/-- Forget the buckets and the result. -/
def clearBuckets : LiveQuery extractFk :=
  { self with
    state := { self.state with bucketGuards := [], bucketFilterRefs := fun _ => none }
    result := clearLiveResult self.result }

/-- Scan no more, and start over when the route has another shape. -/
def clearedFor (shape : RouteShape) : LiveQuery extractFk :=
  let unscanned : LiveQuery extractFk := { self with state := { self.state with scanGuard := false } }
  if unscanned.state.prevRoute ≠ some shape then unscanned.clearBuckets else unscanned

def reconcileIndexedLiveQuery (newFilter : LiveFilter extractFk) (shape : RouteShape) (newKeys : List CompoundKey) :
    LiveQuery extractFk :=
  let existing := (self.clearedFor shape).reconcileExistingBuckets shape newFilter newKeys
  let added := existing.addLiveBuckets shape newFilter newKeys
  { added with state := { added.state with prevRoute := some shape } }

def reconcileScanLiveQuery (newFilter : LiveFilter extractFk) : LiveQuery extractFk :=
  let cleared : LiveQuery extractFk :=
    if self.state.prevRoute.isSome then
      { self.clearBuckets with state := { self.clearBuckets.state with prevRoute := none } }
    else self
  let latest : LiveFilterGeneration extractFk := ⟨self.generation, newFilter⟩
  let reconciled := reconcileFullScopeMembership newFilter self.store.toList cleared.result
  if cleared.state.scanGuard then
    { cleared with
      state := { cleared.state with scanFilterRef := cleared.state.scanFilterRef.map fun _ => latest }
      result := reconciled }
  else
    { cleared with
      state := { cleared.state with scanGuard := true, scanFilterRef := some latest }
      result := match self.currentLiveFilter (some latest) with
        | some filter => applyLiveDiff filter .fullStore (.initial self.store.toList) reconciled
        | none => reconciled }

def reconcileLiveQuery (newFilter : LiveFilter extractFk) (newKeys : List CompoundKey) : LiveQuery extractFk :=
  match newFilter.queryRoute with
  | some route => self.reconcileIndexedLiveQuery newFilter route.splitQueryRoute.1 newKeys
  | none => self.reconcileScanLiveQuery newFilter

/-- The filter's cell takes a value. The keys of its route come in the order of their hash set. -/
def filterChange (newFilter : LiveFilter extractFk) (newKeys : List CompoundKey) : LiveQuery extractFk :=
  let next : LiveQuery extractFk := { self with filterCell := newFilter, generation := self.generation + 1 }
  next.reconcileLiveQuery newFilter newKeys

/-- A diff of a bucket reaches its subscription. -/
def receiveBucket (action : BucketAction) : LiveQuery extractFk :=
  if action.1 ∈ self.state.bucketGuards then
    match self.currentLiveFilter (self.state.bucketFilterRefs action.1) with
    | some filter => { self with result := applyLiveDiff filter .bucket action.2 self.result }
    | none => self
  else self

/-- A diff of the store reaches the subscription of a scan. -/
def receiveScan (diff : ItemDiff) : LiveQuery extractFk :=
  if self.state.scanGuard then
    match self.currentLiveFilter self.state.scanFilterRef with
    | some filter => { self with result := applyLiveDiff filter .fullStore diff self.result }
    | none => self
  else self

/-- What the source of one id makes of a change of the store. -/
def idAction (before after : ItemMap) (key : CompoundKey) : Option BucketAction :=
  match key.head? with
  | none => none
  | some id =>
    match before[id]?, after[id]? with
    | none, none => none
    | none, some value => some (key, .insert id value)
    | some old, none => some (key, .remove id old)
    | some old, some value => some (key, .update id old value)

/-- The diffs of buckets a diff of the store comes to; those of an index are drained in the order given. -/
def bucketActions (diff : ItemDiff) (drained : List BucketAction) : List BucketAction :=
  match self.state.prevRoute with
  | some .ids => self.state.bucketGuards.filterMap (idAction self.store (diff.apply self.store))
  | some (.fields _) => drained
  | none => []

/-- A diff of the store, with the buckets watched and the order in which an index drains them. -/
def storeDiff (diff : ItemDiff) (watched : List CompoundKey) (drained : List BucketAction) : LiveQuery extractFk :=
  let written : LiveQuery extractFk :=
    { self with
      store := diff.apply self.store
      members := fun names => (prepareDiff (extractFk names) watched diff (self.members names)).2 }
  ((self.bucketActions diff drained).foldl receiveBucket written).receiveScan diff

end LiveQuery

inductive LiveEvent (extractFk : FieldKeys) where
  | filterChange (newFilter : LiveFilter extractFk) (newKeys : List CompoundKey)
  | storeDiff (diff : ItemDiff) (watched : List CompoundKey) (drained : List BucketAction)

def LiveQuery.step (self : LiveQuery extractFk) : LiveEvent extractFk → LiveQuery extractFk
  | .filterChange newFilter newKeys => self.filterChange newFilter newKeys
  | .storeDiff diff watched drained => self.storeDiff diff watched drained

/-- A query that has not seen its filter yet. -/
def LiveQuery.unstarted (store : ItemMap) (filter : LiveFilter extractFk) : LiveQuery extractFk where
  store
  members names := membersOf (extractFk names) store.toList
  filterCell := filter
  generation := 0
  state :=
    { bucketGuards := []
      bucketFilterRefs := fun _ => none
      scanGuard := false
      scanFilterRef := none
      prevRoute := none }
  result := ∅

/-- Subscribing to the filter's cell brings its value at once. -/
def queryLive (store : ItemMap) (filter : LiveFilter extractFk) (newKeys : List CompoundKey) : LiveQuery extractFk :=
  (LiveQuery.unstarted store filter).filterChange filter newKeys

end Myko.Query

import Myko.Query.SourceIndex
import Myko.Lib.Runs

/-!
The buckets of a foreign-key index while it runs. The rows change with the diff of the store; what the diff
means for the buckets is queued and dispatched one bucket after the other, and the subscribers of a bucket may
come back in between: with another diff, for another bucket, or to let one go.
-/

namespace Myko.Query

/-- One order of the buckets for every diff: a pass over a hash map may come out in any. -/
structure DrainOrder where
  drained : List (List BucketAction) → List BucketAction
  drains : ∀ groups, Drains groups (drained groups)

/-- A queued diff, with the map it is for. -/
abbrev MapAction := Nat × ItemDiff

/-- The state is that of the index, and what keeps its maps alive. -/
structure BelongsToSourceIndex where
  store : ItemMap
  /-- The weak handles of the buckets. -/
  buckets : List (CompoundKey × Nat)
  members : Members
  pending : List (List MapAction)
  dispatching : Bool
  /-- What is left of the group that is dispatched. -/
  inHand : List MapAction
  /-- The map whose subscribers are called. -/
  notifying : Option Nat
  /-- The handles that callers of `bucketFor` keep. -/
  handles : List (CompoundKey × Nat)
  maps : Nat → ItemMap
  created : Nat

namespace BelongsToSourceIndex

def new : BelongsToSourceIndex where
  store := ∅
  buckets := []
  members := fun _ => ∅
  pending := []
  dispatching := false
  inHand := []
  notifying := none
  handles := []
  maps := fun _ => ∅
  created := 0

variable (self : BelongsToSourceIndex)

/-- The actions that are not applied yet. -/
def queued : List MapAction := self.inHand ++ self.pending.flatten

/-- Somebody has a strong handle of the map, so a weak one upgrades. -/
def live (map : Nat) : Bool :=
  self.handles.any (·.2 == map) || self.notifying == some map || self.queued.any (·.1 == map)

def routeToLiveBucket (key : CompoundKey) : Option Nat :=
  ((self.buckets.find? (·.1 == key)).map Prod.snd).filter self.live

def watched : List CompoundKey := (self.buckets.filter fun bucket => self.live bucket.2).map Prod.fst

def routeAction (action : BucketAction) : Option MapAction :=
  (self.routeToLiveBucket action.1).map fun map => (map, action.2)

/-- `routeToLiveBucket` removes the dead handles of the keys it is asked for: `reaped` are keys among those. -/
def applyDiff (extractFk : FkExtractor) (diff : ItemDiff) (order : DrainOrder) (reaped : List CompoundKey) :
    BelongsToSourceIndex :=
  let prepared := prepareDiff extractFk self.watched diff self.members
  { self with
    store := diff.apply self.store
    members := prepared.2
    buckets := self.buckets.filter fun bucket => self.live bucket.2 || !reaped.contains bucket.1
    pending := self.pending ++ [(order.drained prepared.1).filterMap self.routeAction]
    dispatching := true }

/-- The loop of the drainer takes the next group, or ends. -/
def nextGroup : Option BelongsToSourceIndex :=
  if self.dispatching ∧ self.inHand = [] then
    match self.pending with
    | actions :: rest => some { self with pending := rest, inHand := actions, notifying := none }
    | [] => some { self with dispatching := false, notifying := none }
  else none

def applyNext : Option BelongsToSourceIndex :=
  match self.inHand with
  | (map, diff) :: rest =>
    some { self with
      maps := Function.update self.maps map (diff.apply (self.maps map)), inHand := rest, notifying := some map }
  | [] => none

def buildBackfilledBucket (members : ItemMap) : ItemMap :=
  (MapDiff.initial members.toList).apply ∅

def bucketFor (key : CompoundKey) : BelongsToSourceIndex :=
  match self.routeToLiveBucket key with
  | some map => { self with handles := (key, map) :: self.handles }
  | none =>
    { self with
      maps := Function.update self.maps self.created (buildBackfilledBucket (self.members key))
      buckets := (key, self.created) :: self.buckets.filter (·.1 != key)
      handles := (key, self.created) :: self.handles
      created := self.created + 1 }

def release (key : CompoundKey) (map : Nat) : BelongsToSourceIndex :=
  { self with handles := self.handles.erase (key, map) }

def sweepDeadBuckets : BelongsToSourceIndex :=
  { self with buckets := self.buckets.filter fun bucket => self.live bucket.2 }

end BelongsToSourceIndex

inductive BucketEvent where
  | storeDiff (diff : ItemDiff) (order : DrainOrder) (reaped : List CompoundKey)
  | nextGroup
  | applyNext
  | bucketFor (key : CompoundKey)
  | release (key : CompoundKey) (map : Nat)
  | sweepDeadBuckets

def BelongsToSourceIndex.step (extractFk : FkExtractor) (self : BelongsToSourceIndex) :
    BucketEvent → Option BelongsToSourceIndex
  | .storeDiff diff order reaped => some (self.applyDiff extractFk diff order reaped)
  | .nextGroup => self.nextGroup
  | .applyNext => self.applyNext
  | .bucketFor key => some (self.bucketFor key)
  | .release key map => some (self.release key map)
  | .sweepDeadBuckets => some self.sweepDeadBuckets

/-- The diffs that come are those of the store. -/
def BucketEvent.TrueOf (self : BelongsToSourceIndex) : BucketEvent → Prop
  | .storeDiff diff _ _ => diff.TrueOf self.store
  | .nextGroup | .applyNext | .bucketFor _ | .release _ _ | .sweepDeadBuckets => True

/-! ### What a live bucket holds -/

namespace BelongsToSourceIndex

variable {index : BelongsToSourceIndex} {extractFk : FkExtractor}

def diffsOf (map : Nat) (actions : List MapAction) : List ItemDiff :=
  actions.filterMap fun action => if action.1 = map then some action.2 else none

theorem diffsOf_append (map : Nat) (first rest : List MapAction) :
    diffsOf map (first ++ rest) = diffsOf map first ++ diffsOf map rest := List.filterMap_append

theorem diffsOf_eq_nil {map : Nat} {actions : List MapAction} (none : ∀ action ∈ actions, action.1 ≠ map) :
    diffsOf map actions = [] :=
  List.filterMap_eq_nil_iff.mpr fun action member => if_neg (none action member)

/-- With its queued diffs applied, every live bucket holds the rows of its key. -/
structure Coherent (extractFk : FkExtractor) (index : BelongsToSourceIndex) : Prop where
  exact : index.members.Exact extractFk index.store
  keys : (index.buckets.map Prod.fst).Nodup
  apart : (index.buckets.map Prod.snd).Nodup
  old : ∀ bucket ∈ index.buckets, bucket.2 < index.created
  held : ∀ handle ∈ index.handles, handle ∈ index.buckets
  listed : ∀ map, index.live map = true → ∃ key, (key, map) ∈ index.buckets
  rows : ∀ key map, (key, map) ∈ index.buckets → index.live map = true →
    MapDiff.applyAll (diffsOf map index.queued) (index.maps map) = index.members key

theorem live_iff {map : Nat} : index.live map = true ↔
    (∃ key, (key, map) ∈ index.handles) ∨ index.notifying = some map ∨ ∃ action ∈ index.queued, action.1 = map := by
  simp only [live, Bool.or_eq_true, List.any_eq_true, beq_iff_eq, or_assoc, Prod.exists, exists_eq_right]

theorem coherent_new : (new).Coherent extractFk where
  exact key id item := by simp [new]
  keys := List.nodup_nil
  apart := List.nodup_nil
  old bucket member := by cases member
  held handle member := by cases member
  listed map live := by cases live
  rows key map member := by cases member

/-- A weak handle upgrades to the live map of its key. -/
theorem routeToLiveBucket_iff (keys : (index.buckets.map Prod.fst).Nodup) {key : CompoundKey} {map : Nat} :
    index.routeToLiveBucket key = some map ↔ (key, map) ∈ index.buckets ∧ index.live map = true := by
  unfold routeToLiveBucket
  rw [Option.filter_eq_some_iff, Option.map_eq_some_iff, and_congr_left_iff]
  intro _
  constructor
  · rintro ⟨bucket, found, rfl⟩
    have same : bucket.1 = key := by simpa using List.find?_some found
    exact same ▸ List.mem_of_find?_eq_some found
  · intro member
    cases found : index.buckets.find? (·.1 == key) with
    | none => exact absurd (beq_self_eq_true key) (List.find?_eq_none.mp found _ member)
    | some bucket =>
      have same : bucket.1 = key := by simpa using List.find?_some found
      exact ⟨bucket, rfl, congrArg Prod.snd
        (List.inj_on_of_nodup_map keys (List.mem_of_find?_eq_some found) member same)⟩

/-- The map of a bucket belongs to its key alone. -/
theorem Coherent.key_unique (coherent : index.Coherent extractFk) {key other : CompoundKey} {map : Nat}
    (first : (key, map) ∈ index.buckets) (second : (other, map) ∈ index.buckets) : key = other :=
  congrArg Prod.fst (List.inj_on_of_nodup_map coherent.apart first second rfl)

theorem mem_watched {key : CompoundKey} :
    key ∈ index.watched ↔ ∃ map, (key, map) ∈ index.buckets ∧ index.live map = true := by
  simp [watched]

theorem Coherent.nodup_watched (coherent : index.Coherent extractFk) : index.watched.Nodup :=
  coherent.keys.sublist (List.filter_sublist.map Prod.fst)

/-- What is queued for a live map is what is prepared for its key. -/
theorem Coherent.diffsOf_routed (coherent : index.Coherent extractFk) {key : CompoundKey} {map : Nat}
    (member : (key, map) ∈ index.buckets) (live : index.live map = true) (actions : List BucketAction) :
    diffsOf map (actions.filterMap index.routeAction) = actionsOf key actions := by
  unfold diffsOf actionsOf
  rw [List.filterMap_filterMap]
  refine List.filterMap_congr fun action _ => ?_
  have routed : index.routeToLiveBucket action.1 = some map ↔ action.1 = key := by
    rw [routeToLiveBucket_iff coherent.keys]
    constructor
    · rintro ⟨other, -⟩
      exact coherent.key_unique other member
    · rintro rfl
      exact ⟨member, live⟩
  unfold routeAction
  cases route : index.routeToLiveBucket action.1 with
  | none =>
    rw [route] at routed
    rw [if_neg fun same => Option.some_ne_none map (routed.mpr same).symm]
    rfl
  | some other =>
    rw [route, Option.some.injEq] at routed
    rw [Option.map_some, Option.bind_some]
    exact if_congr routed rfl rfl

theorem live_of_routed {action : BucketAction} {routed : MapAction} (keys : (index.buckets.map Prod.fst).Nodup)
    (route : index.routeAction action = some routed) : index.live routed.1 = true := by
  obtain ⟨map, found, rfl⟩ := Option.map_eq_some_iff.mp route
  exact ((routeToLiveBucket_iff keys).mp found).2

theorem queued_applyDiff (diff : ItemDiff) (order : DrainOrder) (reaped : List CompoundKey) :
    (index.applyDiff extractFk diff order reaped).queued =
      index.queued ++ (order.drained (prepareDiff extractFk index.watched diff index.members).1).filterMap
        index.routeAction := by
  simp [applyDiff, queued]

/-- A diff is queued for maps that are live anyway. -/
theorem Coherent.live_applyDiff (coherent : index.Coherent extractFk) (diff : ItemDiff) (order : DrainOrder)
    (reaped : List CompoundKey) (map : Nat) :
    (index.applyDiff extractFk diff order reaped).live map = index.live map := by
  rw [Bool.eq_iff_iff]
  constructor
  · intro live
    rw [live_iff, queued_applyDiff] at live
    rcases live with held | notified | ⟨action, member, rfl⟩
    · exact live_iff.mpr (.inl held)
    · exact live_iff.mpr (.inr (.inl notified))
    · rcases List.mem_append.mp member with before | added
      · exact live_iff.mpr (.inr (.inr ⟨action, before, rfl⟩))
      · obtain ⟨_, _, route⟩ := List.mem_filterMap.mp added
        exact live_of_routed coherent.keys route
  · intro live
    rw [live_iff, queued_applyDiff]
    rcases live_iff.mp live with held | notified | ⟨action, member, rfl⟩
    · exact .inl held
    · exact .inr (.inl notified)
    · exact .inr (.inr ⟨action, List.mem_append_left _ member, rfl⟩)

theorem mem_buckets_applyDiff {diff : ItemDiff} {order : DrainOrder} {reaped : List CompoundKey}
    {bucket : CompoundKey × Nat} (live : index.live bucket.2 = true) :
    bucket ∈ (index.applyDiff extractFk diff order reaped).buckets ↔ bucket ∈ index.buckets := by
  simp [applyDiff, live]

theorem Coherent.applyDiff (coherent : index.Coherent extractFk) {diff : ItemDiff} (trueOld : diff.TrueOf index.store)
    (order : DrainOrder) (reaped : List CompoundKey) :
    (index.applyDiff extractFk diff order reaped).Coherent extractFk := by
  have prepared := prepared_diff extractFk coherent.nodup_watched diff index.members index.store coherent.exact trueOld
  have fewer : (index.applyDiff extractFk diff order reaped).buckets.Sublist index.buckets := List.filter_sublist
  refine ⟨prepared.exact, coherent.keys.sublist (fewer.map _), coherent.apart.sublist (fewer.map _),
    fun bucket member => coherent.old bucket (fewer.subset member), ?_, ?_, ?_⟩
  · intro handle member
    refine (mem_buckets_applyDiff ?_).mpr (coherent.held handle member)
    exact live_iff.mpr (.inl ⟨handle.1, member⟩)
  · intro map live
    rw [coherent.live_applyDiff] at live
    obtain ⟨key, member⟩ := coherent.listed map live
    exact ⟨key, (mem_buckets_applyDiff live).mpr member⟩
  · intro key map member live
    rw [coherent.live_applyDiff] at live
    have member := fewer.subset member
    rw [queued_applyDiff, diffsOf_append, MapDiff.applyAll_append, coherent.diffsOf_routed member live,
      actionsOf_drained (order.drains _) prepared.once]
    show MapDiff.applyAll _ (MapDiff.applyAll (diffsOf map index.queued) (index.maps map)) = _
    rw [coherent.rows key map member live]
    exact prepared.rows key (mem_watched.mpr ⟨map, member, live⟩)

/-- A step that makes no map live, keeps the queued diffs of the live ones and removes no live bucket. -/
theorem Coherent.of_fewer {next : BelongsToSourceIndex} (coherent : index.Coherent extractFk)
    (store : next.store = index.store) (members : next.members = index.members)
    (created : next.created = index.created) (handles : next.handles ⊆ index.handles)
    (buckets : next.buckets.Sublist index.buckets)
    (live : ∀ map, next.live map = true → index.live map = true)
    (kept : ∀ bucket ∈ index.buckets, next.live bucket.2 = true → bucket ∈ next.buckets)
    (rows : ∀ map, MapDiff.applyAll (diffsOf map next.queued) (next.maps map) =
      MapDiff.applyAll (diffsOf map index.queued) (index.maps map)) : next.Coherent extractFk where
  exact := by rw [store, members]; exact coherent.exact
  keys := coherent.keys.sublist (buckets.map _)
  apart := coherent.apart.sublist (buckets.map _)
  old bucket member := by rw [created]; exact coherent.old bucket (buckets.subset member)
  held handle member := kept handle (coherent.held handle (handles member)) (live_iff.mpr (.inl ⟨handle.1, member⟩))
  listed map alive := by
    obtain ⟨key, member⟩ := coherent.listed map (live map alive)
    exact ⟨key, kept (key, map) member alive⟩
  rows key map member alive := by
    rw [rows, members]
    exact coherent.rows key map (buckets.subset member) (live map alive)

theorem Coherent.nextGroup {next : BelongsToSourceIndex} (coherent : index.Coherent extractFk)
    (stepped : index.nextGroup = some next) : next.Coherent extractFk := by
  unfold BelongsToSourceIndex.nextGroup at stepped
  split at stepped
  · next idle =>
    have queued : ∀ actions rest, index.pending = actions :: rest → index.queued = actions ++ rest.flatten := by
      intro actions rest pending
      rw [BelongsToSourceIndex.queued, idle.2, pending]
      rfl
    split at stepped
    · next actions rest pending =>
      cases stepped
      refine coherent.of_fewer rfl rfl rfl (List.Subset.refl _) (List.Sublist.refl _) ?_ (fun _ member _ => member) ?_
      · intro map alive
        rcases live_iff.mp alive with held | notified | waiting
        · exact live_iff.mpr (.inl held)
        · cases notified
        · exact live_iff.mpr (.inr (.inr (queued actions rest pending ▸ waiting)))
      · intro map
        rw [queued actions rest pending]
        rfl
    · next pending =>
      cases stepped
      refine coherent.of_fewer rfl rfl rfl (List.Subset.refl _) (List.Sublist.refl _) ?_ (fun _ member _ => member)
        fun map => rfl
      intro map alive
      rcases live_iff.mp alive with held | notified | waiting
      · exact live_iff.mpr (.inl held)
      · cases notified
      · exact live_iff.mpr (.inr (.inr waiting))
  · cases stepped

theorem Coherent.applyNext {next : BelongsToSourceIndex} (coherent : index.Coherent extractFk)
    (stepped : index.applyNext = some next) : next.Coherent extractFk := by
  unfold BelongsToSourceIndex.applyNext at stepped
  split at stepped
  · next map diff rest inHand =>
    have queued : index.queued = (map, diff) :: (rest ++ index.pending.flatten) := by
      rw [BelongsToSourceIndex.queued, inHand]
      rfl
    cases stepped
    refine coherent.of_fewer rfl rfl rfl (List.Subset.refl _) (List.Sublist.refl _) ?_ (fun _ member _ => member) ?_
    · intro other alive
      rw [live_iff, queued]
      rcases live_iff.mp alive with held | notified | ⟨action, waiting, same⟩
      · exact .inl held
      · exact .inr (.inr ⟨(map, diff), List.mem_cons_self, Option.some.inj notified⟩)
      · exact .inr (.inr ⟨action, List.mem_cons_of_mem _ waiting, same⟩)
    · intro other
      show MapDiff.applyAll (diffsOf other (rest ++ index.pending.flatten))
        (Function.update index.maps map (diff.apply (index.maps map)) other) = _
      rw [queued]
      by_cases here : map = other
      · subst here
        simp [diffsOf, MapDiff.applyAll]
      · simp [diffsOf, here, Function.update_of_ne (Ne.symm here)]
  · cases stepped

theorem Coherent.release (coherent : index.Coherent extractFk) (key : CompoundKey) (map : Nat) :
    (index.release key map).Coherent extractFk := by
  refine coherent.of_fewer rfl rfl rfl List.erase_subset (List.Sublist.refl _) ?_ (fun _ member _ => member)
    fun map => rfl
  intro map alive
  rcases live_iff.mp alive with ⟨key, held⟩ | notified | waiting
  · exact live_iff.mpr (.inl ⟨key, List.mem_of_mem_erase held⟩)
  · exact live_iff.mpr (.inr (.inl notified))
  · exact live_iff.mpr (.inr (.inr waiting))

theorem Coherent.sweepDeadBuckets (coherent : index.Coherent extractFk) :
    index.sweepDeadBuckets.Coherent extractFk :=
  coherent.of_fewer rfl rfl rfl (List.Subset.refl _) List.filter_sublist (fun _ alive => alive)
    (fun _ member alive => List.mem_filter.mpr ⟨member, alive⟩) fun _ => rfl

theorem buildBackfilledBucket_eq (rows : ItemMap) : buildBackfilledBucket rows = rows :=
  OrdMap.insertMany_toList rows

/-- Another handle of a live map. -/
theorem Coherent.handle (coherent : index.Coherent extractFk) {key : CompoundKey} {map : Nat}
    (member : (key, map) ∈ index.buckets) (alive : index.live map = true) :
    Coherent extractFk { index with handles := (key, map) :: index.handles } := by
  have live : ∀ other, live { index with handles := (key, map) :: index.handles } other = true →
      index.live other = true := by
    intro other still
    rcases live_iff.mp still with ⟨otherKey, held⟩ | notified | waiting
    · rcases List.mem_cons.mp held with same | held
      · cases same
        exact alive
      · exact live_iff.mpr (.inl ⟨otherKey, held⟩)
    · exact live_iff.mpr (.inr (.inl notified))
    · exact live_iff.mpr (.inr (.inr waiting))
  refine ⟨coherent.exact, coherent.keys, coherent.apart, coherent.old, ?_, fun other still => ?_, ?_⟩
  · intro handle held
    rcases List.mem_cons.mp held with rfl | held
    · exact member
    · exact coherent.held handle held
  · exact coherent.listed other (live other still)
  · intro otherKey other listed still
    exact coherent.rows otherKey other listed (live other still)

/-- A new map is live from its first handle on, and the other maps stay as they were. -/
theorem Coherent.live_created (coherent : index.Coherent extractFk) (key : CompoundKey) (map : Nat)
    (dead : index.routeToLiveBucket key = none) (alive : (index.bucketFor key).live map = true) :
    map = index.created ∨ (index.live map = true ∧ ∃ other, other ≠ key ∧ (other, map) ∈ index.buckets) := by
  have before : map = index.created ∨ index.live map = true := by
    unfold bucketFor at alive
    rw [dead] at alive
    rcases live_iff.mp alive with ⟨other, held⟩ | notified | waiting
    · rcases List.mem_cons.mp held with same | held
      · exact .inl (congrArg Prod.snd same)
      · exact .inr (live_iff.mpr (.inl ⟨other, held⟩))
    · exact .inr (live_iff.mpr (.inr (.inl notified)))
    · exact .inr (live_iff.mpr (.inr (.inr waiting)))
  refine before.imp_right fun live => ⟨live, ?_⟩
  obtain ⟨other, member⟩ := coherent.listed map live
  refine ⟨other, ?_, member⟩
  rintro rfl
  rw [(routeToLiveBucket_iff coherent.keys).mpr ⟨member, live⟩] at dead
  cases dead

theorem Coherent.bucketFor (coherent : index.Coherent extractFk) (key : CompoundKey) :
    (index.bucketFor key).Coherent extractFk := by
  cases route : index.routeToLiveBucket key with
  | some map =>
    obtain ⟨member, alive⟩ := (routeToLiveBucket_iff coherent.keys).mp route
    have same : index.bucketFor key = { index with handles := (key, map) :: index.handles } := by
      rw [BelongsToSourceIndex.bucketFor, route]
    rw [same]
    exact coherent.handle member alive
  | none =>
    have live := fun map => coherent.live_created key map route
    have next : index.bucketFor key = { index with
        maps := Function.update index.maps index.created (buildBackfilledBucket (index.members key))
        buckets := (key, index.created) :: index.buckets.filter (·.1 != key)
        handles := (key, index.created) :: index.handles
        created := index.created + 1 } := by
      rw [BelongsToSourceIndex.bucketFor, route]
    have others : ∀ {bucket}, bucket ∈ index.buckets.filter (·.1 != key) ↔ bucket ∈ index.buckets ∧ bucket.1 ≠ key := by
      simp
    have absent : ∀ bucket ∈ index.buckets, bucket.2 ≠ index.created := fun bucket member =>
      (coherent.old bucket member).ne
    rw [next] at live ⊢
    refine ⟨coherent.exact, ?_, ?_, ?_, ?_, ?_, ?_⟩
    · refine List.nodup_cons.mpr ⟨?_, coherent.keys.sublist (List.filter_sublist.map _)⟩
      rintro again
      obtain ⟨bucket, member, same⟩ := List.mem_map.mp again
      exact (others.mp member).2 same
    · refine List.nodup_cons.mpr ⟨?_, coherent.apart.sublist (List.filter_sublist.map _)⟩
      rintro again
      obtain ⟨bucket, member, same⟩ := List.mem_map.mp again
      exact absent bucket (others.mp member).1 same
    · intro bucket member
      rcases List.mem_cons.mp member with rfl | member
      · exact Nat.lt_succ_self _
      · exact Nat.lt_succ_of_lt (coherent.old bucket (others.mp member).1)
    · intro handle held
      rcases List.mem_cons.mp held with rfl | held
      · exact List.mem_cons_self
      · refine List.mem_cons_of_mem _ (others.mpr ⟨coherent.held handle held, ?_⟩)
        intro same
        have alive : index.live handle.2 = true := live_iff.mpr (.inl ⟨handle.1, held⟩)
        rw [(routeToLiveBucket_iff coherent.keys).mpr ⟨same ▸ coherent.held handle held, alive⟩] at route
        cases route
    · intro map alive
      rcases live map alive with rfl | ⟨-, other, different, member⟩
      · exact ⟨key, List.mem_cons_self⟩
      · exact ⟨other, List.mem_cons_of_mem _ (others.mpr ⟨member, different⟩)⟩
    · intro otherKey map member alive
      rcases List.mem_cons.mp member with same | member
      · cases same
        have nothing : diffsOf index.created index.queued = [] := by
          refine diffsOf_eq_nil fun action waiting same => ?_
          obtain ⟨other, listed⟩ := coherent.listed action.1 (live_iff.mpr (.inr (.inr ⟨action, waiting, rfl⟩)))
          exact absent _ listed same
        show MapDiff.applyAll (diffsOf index.created index.queued) (Function.update index.maps index.created
          (buildBackfilledBucket (index.members key)) index.created) = _
        rw [nothing, Function.update_self]
        exact buildBackfilledBucket_eq _
      · have fresh := absent _ (others.mp member).1
        show MapDiff.applyAll (diffsOf map index.queued) (Function.update index.maps index.created
          (buildBackfilledBucket (index.members key)) map) = _
        rw [Function.update_of_ne fresh]
        rcases live map alive with same | ⟨alive, -⟩
        · exact absurd same fresh
        · exact coherent.rows otherKey map (others.mp member).1 alive

theorem coherent_step {index next : BelongsToSourceIndex} {event : BucketEvent} (coherent : index.Coherent extractFk)
    (trueOld : event.TrueOf index) (stepped : index.step extractFk event = some next) : next.Coherent extractFk := by
  cases event with
  | storeDiff diff order reaped =>
    cases stepped
    exact coherent.applyDiff trueOld order reaped
  | nextGroup => exact coherent.nextGroup stepped
  | applyNext => exact coherent.applyNext stepped
  | bucketFor key =>
    cases stepped
    exact coherent.bucketFor key
  | release key map =>
    cases stepped
    exact coherent.release key map
  | sweepDeadBuckets =>
    cases stepped
    exact coherent.sweepDeadBuckets

/-- The bucket holds the stored items of its key, as they are now. -/
def HoldsItems (extractFk : FkExtractor) (index : BelongsToSourceIndex) (key : CompoundKey) (map : Nat) : Prop :=
  ∀ (id : String) (item : Item),
    (index.maps map)[id]? = some item ↔ index.store[id]? = some item ∧ extractFk item = some key

/-- After every run, every handle is that of its key's bucket, and a live bucket that no queued action is for
holds the stored items of its key. -/
theorem buckets_exact {events : List BucketEvent} (ran : Runs.run (step extractFk) new events = some index)
    (diffs : Runs.Each (step extractFk) BucketEvent.TrueOf new events) :
    (∀ handle ∈ index.handles, handle ∈ index.buckets) ∧
      ∀ key map, (key, map) ∈ index.buckets → index.live map = true →
        (∀ action ∈ index.inHand ++ index.pending.flatten, action.1 ≠ map) → index.HoldsItems extractFk key map := by
  have always : Runs.Always (step extractFk) (Coherent extractFk) new events :=
    @Runs.Each.always _ _ _ (Coherent extractFk) (Coherent extractFk) _ _ _ _ diffs ran coherent_new coherent_step id
  have coherent : index.Coherent extractFk := always.at_end ran
  refine ⟨coherent.held, fun key map member live idle id item => ?_⟩
  have rows := coherent.rows key map member live
  rw [queued, diffsOf_eq_nil idle] at rows
  rw [show index.maps map = index.members key from rows]
  exact coherent.exact key id item

/-! ### A run -/

namespace Sample

def inOrder : DrainOrder where
  drained := List.flatten
  drains groups := ⟨groups, List.forall₂_same.mpr fun _ _ => List.Perm.refl _, rfl⟩

def byNode : FkExtractor := fun item =>
  match item.field "nodeId" with
  | some (.text node) => some [node]
  | _ => none

def session (id node : String) : Item := ⟨"Session", id, [("nodeId", .text node)]⟩

/-- The index is made, two buckets are asked for, and one batch puts a session into each. -/
def twoSessions : ItemDiff := .batch [.insert "1" (session "1" "a"), .insert "2" (session "2" "b")]

def asked : List BucketEvent :=
  [.storeDiff (.initial []) inOrder [], .nextGroup, .nextGroup, .bucketFor ["a"], .bucketFor ["b"]]

/-- The subscribers of the first bucket are called. -/
def firstNotified : List BucketEvent := asked ++ [.storeDiff twoSessions inOrder [], .nextGroup, .applyNext]

theorem diffs_true : Runs.Each (step byNode) BucketEvent.TrueOf new (firstNotified ++ [.applyNext]) := by
  refine (Runs.each_cons rfl).mpr ⟨List.nodup_nil, ?_⟩
  refine (Runs.each_cons rfl).mpr ⟨trivial, (Runs.each_cons rfl).mpr ⟨trivial, ?_⟩⟩
  refine (Runs.each_cons rfl).mpr ⟨trivial, (Runs.each_cons rfl).mpr ⟨trivial, ?_⟩⟩
  refine (Runs.each_cons rfl).mpr ⟨⟨?_, ?_, trivial⟩, ?_⟩
  · show ((MapDiff.initial []).apply (∅ : ItemMap))["1"]? = none
    decide +kernel
  · show ((MapDiff.insert "1" (session "1" "a")).apply ((MapDiff.initial []).apply (∅ : ItemMap)))["2"]? = none
    decide +kernel
  refine (Runs.each_cons rfl).mpr ⟨trivial, (Runs.each_cons rfl).mpr ⟨trivial, ?_⟩⟩
  exact (Runs.each_cons rfl).mpr ⟨trivial, trivial⟩

end Sample

open Sample in
/-- The pending queue is empty, and the second bucket has not got its session yet. -/
theorem stale_while_dispatched : ∃ index, Runs.run (step byNode) new firstNotified = some index ∧
    Runs.Each (step byNode) BucketEvent.TrueOf new firstNotified ∧ index.pending = [] ∧
      (["b"], 1) ∈ index.handles ∧ (["b"], 1) ∈ index.buckets ∧ index.live 1 = true ∧
        ¬ index.HoldsItems byNode ["b"] 1 := by
  refine ⟨_, rfl, diffs_true.of_append, rfl, by decide +kernel, by decide +kernel, by decide +kernel, ?_⟩
  intro holds
  have stored := (holds "2" (session "2" "b")).mpr ⟨by decide +kernel, by decide +kernel⟩
  exact absurd stored (by decide +kernel)

open Sample in
/-- Once its action is applied it holds the session. -/
theorem exact_after_dispatch : ∃ index, Runs.run (step byNode) new (firstNotified ++ [.applyNext]) = some index ∧
    (["b"], 1) ∈ index.buckets ∧ index.HoldsItems byNode ["b"] 1 := by
  refine ⟨_, rfl, by decide +kernel, ?_⟩
  have ran : Runs.run (step byNode) new (firstNotified ++ [.applyNext]) = some _ := rfl
  exact (buckets_exact ran diffs_true).2 ["b"] 1 (by decide +kernel) (by decide +kernel) (by decide +kernel)

end BelongsToSourceIndex

end Myko.Query

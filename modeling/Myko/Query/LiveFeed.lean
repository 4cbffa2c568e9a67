import Myko.Query.BucketDiffs
import Myko.Query.LiveTest
import Myko.Query.Union

/-!
The diffs of many buckets tested into one result: it never shows what the filter does not, and shows all of it as
long as moved rows reach it last from the bucket they end in.
-/

namespace Myko.Query

open KeyedLog

variable {extractFk : FieldKeys}

def testAction (filter : LiveFilter extractFk) (guards : List CompoundKey) (result : ItemMap) (action : BucketAction) :
    ItemMap :=
  if action.1 ∈ guards then applyLiveDiff filter .bucket action.2 result else result

/-- A result shows matching rows of the buckets. -/
def ShowsRows (filter : LiveFilter extractFk) (guards : List CompoundKey) (rows : Members) (result : ItemMap) : Prop :=
  ∀ (id : String) (item : Item), result[id]? = some item →
    filter.matchesItem item = true ∧ ∃ key ∈ guards, (rows key)[id]? = some item

/-- The diffs a bucket receives, after which it holds other rows. -/
def rowsThrough (rows : Members) (actions : List BucketAction) : Members := fun key =>
  MapDiff.applyAll (actionsOf key actions) (rows key)

theorem actionsOf_cons (key : CompoundKey) (action : BucketAction) (rest : List BucketAction) :
    actionsOf key (action :: rest) = if action.1 = key then action.2 :: actionsOf key rest else actionsOf key rest := by
  by_cases here : action.1 = key <;> simp [actionsOf, here]

theorem shows_actions {filter : LiveFilter extractFk} {guards : List CompoundKey} {actions : List BucketAction}
    {rows : Members} {result : ItemMap} (trueOld : ActionsTrue guards rows actions)
    (shows : ShowsRows filter guards rows result) :
    ShowsRows filter guards (rowsThrough rows actions) (actions.foldl (testAction filter guards) result) := by
  induction actions generalizing rows result with
  | nil => exact shows
  | cons action rest ih =>
    rw [List.foldl_cons]
    let next : Members := Function.update rows action.1 (action.2.apply (rows action.1))
    have through : rowsThrough next rest = rowsThrough rows (action :: rest) := by
      funext key
      rw [rowsThrough, rowsThrough, actionsOf_cons]
      by_cases here : action.1 = key
      · subst here
        rw [if_pos rfl, MapDiff.applyAll]
        simp [next]
      · rw [if_neg here]
        simp [next, Function.update_of_ne (Ne.symm here)]
    have later : ActionsTrue guards next rest := by
      intro key member
      have here := trueOld key member
      rw [actionsOf_cons] at here
      split at here
      · rename_i same
        subst same
        simpa [next] using And.intro here.1.2 here.2.2
      · rename_i other
        simpa [next, Function.update_of_ne (Ne.symm other)] using here
    rw [← through]
    refine ih later ?_
    unfold testAction
    split
    · rename_i routed
      have now := trueOld action.1 routed
      rw [actionsOf_cons, if_pos rfl] at now
      have vouched := vouched_applyLiveDiff filter .bucket
        (fun id item => ∃ key ∈ guards, key ≠ action.1 ∧ (rows key)[id]? = some item) action.2 (rows action.1) result
        now.2.1 now.1.1 fun id item held => by
          obtain ⟨matched, key, member, there⟩ := shows id item held
          refine ⟨matched, ?_⟩
          by_cases own : key = action.1
          · exact .inl (own ▸ there)
          · exact .inr ⟨key, member, own, there⟩
      intro id item held
      obtain ⟨matched, mine | ⟨key, member, other, there⟩⟩ := vouched id item held
      · exact ⟨matched, action.1, routed, by simpa [next] using mine⟩
      · exact ⟨matched, key, member, by simpa [next, Function.update_of_ne other] using there⟩
    · rename_i unrouted
      intro id item held
      obtain ⟨matched, key, member, there⟩ := shows id item held
      have other : key ≠ action.1 := fun same => unrouted (same ▸ member)
      exact ⟨matched, key, member, by simpa [next, Function.update_of_ne other] using there⟩

/-- The result hears of an item what was forwarded last about it. -/
theorem tells_actions {filter : LiveFilter extractFk} {route : UnionRoute} {actions : List BucketAction}
    {rows : Members} (incremental : ∀ key ∈ route.keys, MapDiff.AllIncremental (actionsOf key actions))
    (result : ItemMap) (id : String) :
    Tells filter (lastEffect some id ((forwarded route rows actions).map Prod.snd)) result[id]?
      (actions.foldl (testAction filter route.keys) result)[id]? := by
  induction actions generalizing rows result with
  | nil => exact rfl
  | cons action rest ih =>
    have later : ∀ key ∈ route.keys, MapDiff.AllIncremental (actionsOf key rest) := by
      intro key member
      have here := incremental key member
      rw [actionsOf_cons] at here
      split at here
      · exact here.2
      · exact here
    rw [List.foldl_cons, forwarded]
    by_cases routed : action.1 ∈ route.keys
    · have now := incremental action.1 routed
      rw [actionsOf_cons, if_pos rfl] at now
      have tagged : ((action.2.writesOn (rows action.1)).map fun write => (action.1, write)).map Prod.snd =
          action.2.writesOn (rows action.1) := by
        rw [List.map_map]
        exact List.map_id _
      rw [if_pos routed, List.map_append, tagged, testAction, if_pos routed]
      exact Tells.append (tells_applyLiveDiff filter .bucket action.2 _ result now.1 id) (ih later _)
    · rw [if_neg routed, testAction, if_neg routed]
      exact ih later result

/-- Buckets with the stored items of their keys, and the diffs that bring them from a store to the next. -/
structure Feed (keyOf : FkExtractor) (guards : List CompoundKey) (before after : ItemMap) (rows later : Members)
    (actions : List BucketAction) : Prop where
  had : ∀ key ∈ guards, ∀ (id : String) (item : Item),
    (rows key)[id]? = some item ↔ before[id]? = some item ∧ keyOf item = some key
  has : ∀ key ∈ guards, ∀ (id : String) (item : Item),
    (later key)[id]? = some item ↔ after[id]? = some item ∧ keyOf item = some key
  reached : ∀ key ∈ guards, rowsThrough rows actions key = later key
  trueOld : ActionsTrue guards rows actions

/-- Every matching item was forwarded last, if at all, by the bucket it is in. -/
def MatchingInPlace (filter : LiveFilter extractFk) (route : UnionRoute) (keyOf : FkExtractor) (after : ItemMap)
    (rows : Members) (actions : List BucketAction) : Prop :=
  ∀ (id : String) (item : Item), filter.shown after id = some item → ∀ own ∈ route.keys, keyOf item = some own →
    ∀ key write, lastForwarded (forwarded route rows actions) id = some (key, write) → key = own

section Feed

variable {filter : LiveFilter extractFk} {route : UnionRoute} {keyOf : FkExtractor} {before after : ItemMap}
  {rows later : Members} {actions : List BucketAction} {result : ItemMap}

theorem Feed.sound (feed : Feed keyOf route.keys before after rows later actions)
    (routed : ∀ item, filter.matchesItem item = true → ∃ key ∈ route.keys, keyOf item = some key)
    (sound : ∀ (id : String) (item : Item), result[id]? = some item → filter.shown before id = some item)
    (id : String) (item : Item) (held : (actions.foldl (testAction filter route.keys) result)[id]? = some item) :
    filter.shown after id = some item := by
  have shows : ShowsRows filter route.keys rows result := fun id item held => by
    obtain ⟨stored, matched⟩ := LiveFilter.shown_eq_some.mp (sound id item held)
    obtain ⟨key, member, own⟩ := routed item matched
    exact ⟨matched, key, member, (feed.had key member id item).mpr ⟨stored, own⟩⟩
  obtain ⟨matched, key, member, there⟩ := shows_actions feed.trueOld shows id item held
  rw [feed.reached key member] at there
  exact LiveFilter.shown_eq_some.mpr ⟨((feed.has key member id item).mp there).1, matched⟩

/-- What the bucket of a key holds of an item after its diffs, by the last write it forwarded. -/
theorem Feed.bucket (feed : Feed keyOf route.keys before after rows later actions) {key : CompoundKey}
    (member : key ∈ route.keys) (id : String) : (later key)[id]? =
      (lastEffect some id (((forwarded route rows actions).filter fun write => write.1 = key).map Prod.snd)).getD
        (rows key)[id]? := by
  obtain ⟨applied, written⟩ := (receive_all route actions ⟨rows, ∅⟩).2 key member
  rw [← feed.reached key member, ← OrdMap.get_writeAll, ← written, applied]
  rfl

theorem Feed.exact_iff (feed : Feed keyOf route.keys before after rows later actions)
    (routed : ∀ item, filter.matchesItem item = true → ∃ key ∈ route.keys, keyOf item = some key)
    (exact : ∀ id : String, result[id]? = filter.shown before id) :
    (∀ id : String, (actions.foldl (testAction filter route.keys) result)[id]? = filter.shown after id) ↔
      MatchingInPlace filter route keyOf after rows actions := by
  have told (id : String) : Tells filter (lastEffect some id ((forwarded route rows actions).map Prod.snd)) result[id]?
      (actions.foldl (testAction filter route.keys) result)[id]? :=
    tells_actions (fun key member => (feed.trueOld key member).2) result id
  constructor
  · intro exactAfter id item shown own member isOwn key write last
    have held := (exactAfter id).trans shown
    obtain ⟨sharedLast, bucketLast⟩ := lastForwarded_some last
    have forwarder : key ∈ route.keys := forwarded_routed (List.mem_filter.mp (List.mem_of_getLast? last)).1
    have inBucket := feed.bucket forwarder id
    rw [bucketLast, Option.getD_some] at inBucket
    have now := told id
    rw [sharedLast] at now
    cases written : write.2 with
    | none =>
      rw [written] at now
      rw [show _ = none from now] at held
      cases held
    | some value =>
      rw [written] at inBucket
      obtain ⟨stored, owner⟩ := (feed.has key forwarder id value).mp inBucket
      rw [(LiveFilter.shown_eq_some.mp shown).1] at stored
      obtain rfl := Option.some.inj stored
      exact Option.some.inj (owner.symm.trans isOwn)
  · intro inPlace id
    cases shown : filter.shown after id with
    | none =>
      refine Option.eq_none_iff_forall_not_mem.mpr fun item held => ?_
      have stale := feed.sound routed (fun id item held => (exact id).symm.trans held) id item held
      rw [shown] at stale
      cases stale
    | some item =>
      obtain ⟨stored, matched⟩ := LiveFilter.shown_eq_some.mp shown
      obtain ⟨own, member, isOwn⟩ := routed item matched
      have there := (feed.has own member id item).mpr ⟨stored, isOwn⟩
      have now := told id
      cases last : lastForwarded (forwarded route rows actions) id with
      | none =>
        obtain ⟨nothing, none⟩ := lastForwarded_none last
        rw [nothing] at now
        rw [feed.bucket member id, none own, Option.getD_none] at there
        rw [show _ = result[id]? from now, exact id]
        exact LiveFilter.shown_eq_some.mpr ⟨((feed.had own member id item).mp there).1, matched⟩
      | some found =>
        obtain ⟨key, write⟩ := found
        obtain rfl := inPlace id item shown own member isOwn key write last
        obtain ⟨sharedLast, bucketLast⟩ := lastForwarded_some last
        rw [feed.bucket member id, bucketLast, Option.getD_some] at there
        rw [sharedLast, there] at now
        exact now matched

end Feed

end Myko.Query

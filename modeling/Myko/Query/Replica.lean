import Myko.Query.Subscription

/-!
The replica a client keeps of a query: the map that responses are applied to, the page shown of it, and
their agreement with what the subscription on the server selects.
-/

namespace Myko.Query

inductive ClientQueryChange where
  | upsert (item : Item)
  | delete (id : String)
  | windowOrder (ids : List String) (totalCount : Nat) (window : Option QueryWindow)

/-- A response as it goes over the wire. -/
structure QueryResponse where
  tx : String
  sequence : Nat
  changes : List ClientQueryChange
  upserts : List Item
  deletes : List String
  totalCount : Option Nat
  window : Option QueryWindow

/-- Only the order of a window is sent as a change. -/
def PendingQueryResponse.intoWire (response : PendingQueryResponse) : QueryResponse where
  tx := response.tx
  sequence := response.sequence
  changes := match response.windowOrderIds with
    | some ids => [.windowOrder ids response.totalCount response.window]
    | none => []
  upserts := response.upsertItems
  deletes := response.deletes
  totalCount := some response.totalCount
  window := response.window

/-! ### The client -/

structure SequenceState where
  awaitingSnapshot : Bool
  next : Nat

def SequenceState.accept (state : SequenceState) (sequence : Nat) : Bool × SequenceState :=
  if sequence = 0 then (true, ⟨false, 1⟩)
  else if state.awaitingSnapshot then (false, state)
  else if sequence ≠ state.next then (false, state)
  else if state.next = lastSequence then (false, state)
  else (true, { state with next := state.next + 1 })

def decodeMapUpserts (upserts : List Item) : List (String × Item) := upserts.map fun item => (item.id, item)

/-- Upserts win over deletes of the same id. -/
def applyIncrementalMapUpdate (map : ItemMap) (deletes : List String) (upserts : List (String × Item)) : ItemMap :=
  OrdMap.insertMany (OrdMap.removeMany map deletes) upserts

structure QueryMapWatch where
  tx : String
  sequences : SequenceState
  map : ItemMap
  ready : Bool

namespace QueryMapWatch

/-- A response that has been accepted. -/
def apply (watch : QueryMapWatch) (response : QueryResponse) : QueryMapWatch :=
  let upserts := decodeMapUpserts response.upserts
  { watch with
    sequences := (watch.sequences.accept response.sequence).2
    map := if response.sequence = 0 then OrdMap.insertMany ∅ upserts
      else applyIncrementalMapUpdate watch.map response.deletes upserts
    ready := watch.ready || response.sequence = 0 }

def handle (watch : QueryMapWatch) (response : QueryResponse) : QueryMapWatch :=
  if response.tx ≠ watch.tx then watch
  else if (watch.sequences.accept response.sequence).1 then watch.apply response
  else watch

end QueryMapWatch

structure WindowedQueryWatch where
  tx : String
  sequences : SequenceState
  state : ItemMap
  items : List Item
  ready : Bool
  totalCount : Option Nat
  window : Option QueryWindow

namespace WindowedQueryWatch

def apply (watch : WindowedQueryWatch) (response : QueryResponse) : WindowedQueryWatch :=
  let order := response.changes.findSome? fun change => match change with
    | .windowOrder ids _ _ => some ids
    | .upsert _ | .delete _ => none
  let state := if response.sequence = 0 then ∅ else watch.state
  let state := OrdMap.insertMany (OrdMap.removeMany state response.deletes) (decodeMapUpserts response.upserts)
  { watch with
    sequences := (watch.sequences.accept response.sequence).2
    state
    items := (order.getD state.keys).filterMap fun id => state[id]?
    ready := watch.ready || response.sequence = 0
    totalCount := response.totalCount
    window := response.window }

def handle (watch : WindowedQueryWatch) (response : QueryResponse) : WindowedQueryWatch :=
  if response.tx ≠ watch.tx then watch
  else if (watch.sequences.accept response.sequence).1 then watch.apply response
  else watch

end WindowedQueryWatch

/-! ### A subscription and its client -/

/-- What the server hears while a subscription lasts. -/
inductive SubscriptionEvent where
  | diff (diff : ItemDiff)
  | window (window : Option QueryWindow)
  | cursor (window : QueryCursorWindow)

/-- A subscription on the server and both kinds of clients of it. -/
structure Replica where
  tx : String
  server : QuerySubscriptionState
  map : QueryMapWatch
  page : WindowedQueryWatch

namespace Replica

def deliver (σ : Replica) (emitted : Option PendingQueryResponse × QuerySubscriptionState) : Replica :=
  match emitted.1 with
  | none => { σ with server := emitted.2 }
  | some response =>
    { σ with
      server := emitted.2, map := σ.map.apply response.intoWire, page := σ.page.apply response.intoWire }

def subscribe (tx : String) (window : Option QueryWindow) (entries : List (String × Item)) : Replica :=
  deliver ⟨tx, ⟨0, window, none, ∅, ∅⟩, ⟨tx, ⟨true, 0⟩, ∅, false⟩, ⟨tx, ⟨true, 0⟩, ∅, [], false, none, window⟩⟩
    (QuerySubscriptionState.subscribeQuery tx window entries)

def emitted (σ : Replica) : SubscriptionEvent → Option PendingQueryResponse × QuerySubscriptionState
  | .diff diff => σ.server.applySourceDiff diff σ.tx
  | .window window => σ.server.applyWindowUpdate window σ.tx
  | .cursor window => σ.server.updateQueryCursorWindow window σ.tx

def step (σ : Replica) (event : SubscriptionEvent) : Replica := σ.deliver (σ.emitted event)

def run (σ : Replica) (events : List SubscriptionEvent) : Replica := events.foldl step σ

end Replica

/-! ### Diffs of the result -/

/-- Items stand under their own id. -/
def Keyed (m : ItemMap) : Prop := ∀ (id : String) (item : Item), m[id]? = some item → item.id = id

def SubscriptionEvent.Keyed : SubscriptionEvent → Prop
  | .diff change => change.AllPuts fun id item => item.id = id
  | _ => True

theorem keyed_insert {m : ItemMap} (keyed : Keyed m) {id : String} {item : Item} (same : item.id = id) :
    Keyed (m.insert id item) := by
  intro other stored found
  rw [OrdMap.get_insert] at found
  split at found
  · cases found
    rename_i here
    rw [here, same]
  · exact keyed other stored found

theorem keyed_erase {m : ItemMap} (keyed : Keyed m) (id : String) : Keyed (m.erase id) := by
  intro other stored found
  rw [OrdMap.get_erase] at found
  split at found
  · cases found
  · exact keyed other stored found

namespace SourceChanges

/-- What a diff has not touched is as before. -/
structure Tracks (before after : SourceChanges) : Prop where
  touched : ∀ id, id ∈ before.affectedIds → id ∈ after.affectedIds
  untouched : ∀ id, id ∉ after.affectedIds → after.allItems[id]? = before.allItems[id]?
  keyed : Keyed before.allItems → Keyed after.allItems

theorem Tracks.refl (source : SourceChanges) : Tracks source source := ⟨fun _ => id, fun _ _ => rfl, id⟩

theorem Tracks.trans {first next last : SourceChanges} (early : Tracks first next) (late : Tracks next last) :
    Tracks first last where
  touched id member := late.touched id (early.touched id member)
  untouched id outside :=
    (late.untouched id outside).trans (early.untouched id fun member => outside (late.touched id member))
  keyed before := late.keyed (early.keyed before)

theorem tracks_insert (source : SourceChanges) {key : String} {value : Item} (same : value.id = key) :
    Tracks source (source.insert key value) where
  touched id member := OrdSet.mem_insert.mpr (.inr member)
  untouched id outside := by
    have other : id ≠ key := fun here => outside (OrdSet.mem_insert.mpr (.inl here))
    show (source.allItems.insert key value)[id]? = _
    rw [OrdMap.get_insert, if_neg other]
  keyed before := keyed_insert before same

theorem tracks_remove (source : SourceChanges) (key : String) :
    Tracks source { source with
      affectedIds := source.affectedIds.insert key, allItems := source.allItems.erase key } where
  touched id member := OrdSet.mem_insert.mpr (.inr member)
  untouched id outside := by
    have other : id ≠ key := fun here => outside (OrdSet.mem_insert.mpr (.inl here))
    show (source.allItems.erase key)[id]? = _
    rw [OrdMap.get_erase, if_neg other]
  keyed before := keyed_erase before key

theorem mem_insertAll {ids : List String} {set : OrdSet String} {id : String} :
    id ∈ ids.foldl (fun set id => set.insert id) set ↔ id ∈ ids ∨ id ∈ set := by
  induction ids generalizing set with
  | nil => simp
  | cons first rest ih => rw [List.foldl_cons, ih, OrdSet.mem_insert, List.mem_cons]; tauto

theorem tracks_clear (source : SourceChanges) :
    Tracks source
      { allItems := ∅
        affectedIds := source.allItems.keys.foldl (fun ids id => ids.insert id) source.affectedIds
        isInitial := true } where
  touched id member := mem_insertAll.mpr (.inr member)
  untouched id outside := by
    have absent : id ∉ source.allItems := fun stored =>
      outside (mem_insertAll.mpr (.inl (Std.ExtTreeMap.mem_keys.mpr stored)))
    rw [Std.ExtTreeMap.getElem?_eq_none absent]
    exact Std.ExtTreeMap.getElem?_empty
  keyed _ id item found := by simp at found

theorem tracks_insertAll (source : SourceChanges) {entries : List (String × Item)}
    (keyed : ∀ entry ∈ entries, entry.2.id = entry.1) :
    Tracks source (entries.foldl (fun source entry => source.insert entry.1 entry.2) source) := by
  induction entries generalizing source with
  | nil => exact .refl source
  | cons entry rest ih =>
    exact (tracks_insert source (keyed entry (by simp))).trans
      (ih _ fun later member => keyed later (by simp [member]))

theorem insertAll_isInitial (source : SourceChanges) (entries : List (String × Item)) :
    (entries.foldl (fun source entry => source.insert entry.1 entry.2) source).isInitial = source.isInitial := by
  induction entries generalizing source with
  | nil => rfl
  | cons entry rest ih => exact ih _

mutual
theorem tracks_apply : ∀ (diff : ItemDiff) (source : SourceChanges),
    (diff.AllPuts fun id item => item.id = id) → Tracks source (apply diff source)
  | .initial _, source, keyed => (tracks_clear source).trans (tracks_insertAll _ keyed)
  | .insert _ _, source, same => tracks_insert source same
  | .update _ _ _, source, same => tracks_insert source same
  | .remove key _, source, _ => tracks_remove source key
  | .batch changes, source, keyed => tracks_applyAll changes source keyed

theorem tracks_applyAll : ∀ (changes : List ItemDiff) (source : SourceChanges),
    (MapDiff.AllPutsOf (fun id item => item.id = id) changes) → Tracks source (applyAll changes source)
  | [], source, _ => .refl source
  | change :: rest, source, keyed =>
    (tracks_apply change source keyed.1).trans (tracks_applyAll rest _ keyed.2)
end

theorem insertAll_allItems (source : SourceChanges) (entries : List (String × Item)) :
    (entries.foldl (fun source entry => source.insert entry.1 entry.2) source).allItems =
      OrdMap.insertMany source.allItems entries := by
  induction entries generalizing source with
  | nil => rfl
  | cons entry rest ih => exact ih _

mutual
/-- The result is the diff applied to what it was taken from. -/
theorem apply_allItems : ∀ (diff : ItemDiff) (source : SourceChanges),
    (apply diff source).allItems = diff.apply source.allItems
  | .initial entries, _ => insertAll_allItems _ entries
  | .insert _ _, _ => rfl
  | .update _ _ _, _ => rfl
  | .remove _ _, _ => rfl
  | .batch changes, source => applyAll_allItems changes source

theorem applyAll_allItems : ∀ (changes : List ItemDiff) (source : SourceChanges),
    (applyAll changes source).allItems = MapDiff.applyAll changes source.allItems
  | [], _ => rfl
  | change :: rest, source => by
    rw [applyAll, MapDiff.applyAll, applyAll_allItems rest, apply_allItems change]
end

end SourceChanges

/-! ### What a response makes of a map -/

/-- The map after a response. -/
def replayed (m : ItemMap) (response : QueryResponse) : ItemMap :=
  OrdMap.insertMany (OrdMap.removeMany (if response.sequence = 0 then ∅ else m) response.deletes)
    (decodeMapUpserts response.upserts)

theorem removeMany_empty (ids : List String) : OrdMap.removeMany (∅ : ItemMap) ids = ∅ := by
  refine OrdMap.ext fun id => ?_
  rw [OrdMap.get_removeMany]
  split
  · exact Std.ExtTreeMap.getElem?_empty.symm
  · rfl

theorem QueryMapWatch.apply_map (watch : QueryMapWatch) (response : QueryResponse) :
    (watch.apply response).map = replayed watch.map response := by
  unfold QueryMapWatch.apply replayed
  dsimp only
  split
  · rw [removeMany_empty]
  · rfl

theorem get_decoded {m all : ItemMap} (keyed : Keyed all) (ids : List String) (id : String) :
    (OrdMap.insertMany m (decodeMapUpserts (ids.filterMap fun id => all[id]?)))[id]? =
      if id ∈ ids ∧ id ∈ all then all[id]? else m[id]? := by
  have agree : ∀ entry ∈ decodeMapUpserts (ids.filterMap fun id => all[id]?), all[entry.1]? = some entry.2 := by
    intro entry member
    obtain ⟨item, listed, rfl⟩ := List.mem_map.mp member
    obtain ⟨other, _, found⟩ := List.mem_filterMap.mp listed
    rw [keyed other item found]
    exact found
  rw [OrdMap.get_insertMany_of agree]
  refine if_congr ⟨fun member => ?_, fun ⟨member, stored⟩ => ?_⟩ rfl rfl
  · obtain ⟨entry, listed, rfl⟩ := List.mem_map.mp member
    obtain ⟨item, upserted, rfl⟩ := List.mem_map.mp listed
    obtain ⟨other, member, found⟩ := List.mem_filterMap.mp upserted
    obtain rfl := keyed other item found
    exact ⟨member, Std.ExtTreeMap.mem_iff_isSome_getElem?.mpr (by rw [found]; rfl)⟩
  · obtain ⟨item, found⟩ := Option.isSome_iff_exists.mp (Std.ExtTreeMap.mem_iff_isSome_getElem?.mp stored)
    obtain rfl := keyed id item found
    exact List.mem_map.mpr ⟨(item.id, item), List.mem_map.mpr ⟨item, List.mem_filterMap.mpr ⟨_, member, found⟩, rfl⟩,
      rfl⟩

/-- A map after a response that upserts what some ids have in the result. -/
theorem get_replayed {m all : ItemMap} (keyed : Keyed all) {response : QueryResponse} {ids : List String}
    (upserts : response.upserts = ids.filterMap fun id => all[id]?) (id : String) :
    (replayed m response)[id]? =
      if id ∈ ids ∧ id ∈ all then all[id]?
      else if response.sequence = 0 ∨ id ∈ response.deletes then none else m[id]? := by
  unfold replayed
  rw [upserts, get_decoded keyed, OrdMap.get_removeMany]
  refine if_congr Iff.rfl rfl ?_
  by_cases first : response.sequence = 0
  · simp [first]
  · simp [first]

/-! ### What the server sends -/

namespace QuerySubscriptionState

variable {s : QuerySubscriptionState} {tx : String} {m : ItemMap}

theorem mem_filter_absent {m : ItemMap} {ids : List String} {id : String} :
    (id ∈ ids.filter fun id => !m.contains id) ↔ id ∈ ids ∧ id ∉ m := by
  rw [List.mem_filter, Bool.not_eq_true', ← Bool.not_eq_true, ← Std.ExtTreeMap.mem_iff_contains]

theorem computeWindowedResponse_bounded (tx : String) (changedIds removedIds : OrdSet String)
    (previousTotalCount : Nat) (forceEmit : Bool) (windowed : s.unwindowed = false) :
    s.computeWindowedResponse tx changedIds removedIds previousTotalCount forceEmit =
      s.computeBoundedWindowResponse tx changedIds previousTotalCount forceEmit := by
  rw [computeWindowedResponse, windowed]
  rfl

theorem computeWindowedResponse_whole (tx : String) (changedIds removedIds : OrdSet String)
    (previousTotalCount : Nat) (forceEmit : Bool) (unwindowed : s.unwindowed = true) :
    s.computeWindowedResponse tx changedIds removedIds previousTotalCount forceEmit =
      s.computeUnwindowedResponse tx changedIds removedIds previousTotalCount forceEmit := by
  rw [computeWindowedResponse, unwindowed]
  rfl

/-- What holds of every response sent. -/
structure Sends (s : QuerySubscriptionState) (response : PendingQueryResponse) (after : QuerySubscriptionState) :
    Prop where
  total : response.totalCount = after.allItems.size
  sequence : after.sequence = nextSequence response.sequence
  counted : response.sequence = 0 ∨ response.sequence = s.sequence

/-- A diff of the whole result makes of the map before it the map after it. -/
theorem unwindowed_diff (tx : String) {diff : ItemDiff} (keyed : Keyed s.allItems)
    (puts : diff.AllPuts fun id item => item.id = id)
    (started : (SourceChanges.apply diff ⟨s.allItems, ∅, false⟩).isInitial = false → s.sequence ≠ 0) :
    ∃ after, (s.applySourceDiffUnwindowed diff tx).2 = after ∧ Keyed after.allItems ∧
      after.window = s.window ∧ after.cursorWindow = s.cursorWindow ∧
      after.allItems = diff.apply s.allItems ∧
      (((s.applySourceDiffUnwindowed diff tx).1 = none ∧ after.allItems = s.allItems ∧
          after.sequence = s.sequence ∧
          (SourceChanges.apply diff ⟨s.allItems, ∅, false⟩).isInitial = false) ∨
        ∃ response, (s.applySourceDiffUnwindowed diff tx).1 = some response ∧ Sends s response after ∧
          response.windowOrderIds = none ∧ replayed s.allItems response.intoWire = after.allItems) := by
  have tracks := SourceChanges.tracks_apply diff ⟨s.allItems, ∅, false⟩ puts
  have applied := SourceChanges.apply_allItems diff ⟨s.allItems, ∅, false⟩
  unfold applySourceDiffUnwindowed
  generalize SourceChanges.apply diff ⟨s.allItems, ∅, false⟩ = source at tracks applied started ⊢
  dsimp only at tracks applied ⊢
  have keyedAfter : Keyed source.allItems := tracks.keyed keyed
  cases initial : source.isInitial with
  | true =>
    simp only [↓reduceIte, true_or]
    refine ⟨_, rfl, keyedAfter, rfl, rfl, applied, .inr ⟨_, rfl, ⟨rfl, rfl, .inl rfl⟩, rfl, ?_⟩⟩
    refine OrdMap.ext fun id => ?_
    rw [get_replayed keyedAfter rfl]
    by_cases stored : id ∈ source.allItems
    · rw [if_pos ⟨Std.ExtTreeMap.mem_keys.mpr stored, stored⟩]
    · rw [if_neg fun both => stored both.2, if_pos (.inl rfl), Std.ExtTreeMap.getElem?_eq_none stored]
  | false =>
    simp only [Bool.false_eq_true, ↓reduceIte]
    have running := started initial
    have affected : ∀ id, id ∈ source.affectedIds ↔ id ∈ source.affectedIds.toList := fun id =>
      OrdSet.mem_toList.symm
    split
    · refine ⟨_, rfl, keyedAfter, rfl, rfl, applied, .inr ⟨_, rfl, ⟨rfl, rfl, .inr rfl⟩, rfl, ?_⟩⟩
      refine OrdMap.ext fun id => ?_
      rw [get_replayed keyedAfter rfl]
      by_cases touched : id ∈ source.affectedIds
      · by_cases stored : id ∈ source.allItems
        · rw [if_pos ⟨(affected id).mp touched, stored⟩]
        · rw [if_neg fun both => stored both.2, Std.ExtTreeMap.getElem?_eq_none stored,
            if_pos (.inr (mem_filter_absent.mpr ⟨(affected id).mp touched, stored⟩))]
      · rw [if_neg fun both => touched ((affected id).mpr both.1), if_neg, tracks.untouched id touched]
        rintro (first | gone)
        · exact running first
        · exact touched ((affected id).mpr (mem_filter_absent.mp gone).1)
    · rename_i quiet
      refine ⟨_, rfl, keyedAfter, rfl, rfl, applied, .inl ⟨rfl, ?_, rfl, trivial⟩⟩
      obtain ⟨upserts, deletes⟩ : _ ∧ _ := not_not.mp fun loud => quiet (.inr (.inl loud))
      refine OrdMap.ext fun id => tracks.untouched id fun touched => ?_
      by_cases stored : id ∈ source.allItems
      · obtain ⟨item, found⟩ :=
          Option.isSome_iff_exists.mp (Std.ExtTreeMap.mem_iff_isSome_getElem?.mp stored)
        have none := List.filterMap_eq_nil_iff.mp upserts id ((affected id).mp touched)
        rw [found] at none
        cases none
      · have gone := mem_filter_absent.mpr ⟨(affected id).mp touched, stored⟩
        rw [deletes] at gone
        cases gone

theorem page_sublist (window : QueryWindow) (ids : List String) : (window.page ids).Sublist ids :=
  (List.take_sublist _ _).trans (List.drop_sublist _ _)

theorem cursorPage_sublist (cursor : QueryCursorWindow) (ids : List String) : (cursor.page ids).Sublist ids := by
  unfold QueryCursorWindow.page
  cases cursor.after with
  | some after => exact (List.take_sublist _ _).trans List.filter_sublist
  | none =>
    cases cursor.before with
    | none => exact List.take_sublist _ _
    | some before => exact (List.drop_sublist _ _).trans List.filter_sublist

theorem selectedIds_sublist (s : QuerySubscriptionState) : s.selectedIds.Sublist s.allItems.keys := by
  unfold selectedIds
  cases s.cursorWindow with
  | some cursor => exact cursorPage_sublist _ _
  | none =>
    cases s.window with
    | none => exact List.Sublist.refl _
    | some window => exact page_sublist _ _

theorem mem_of_selected {id : String} (member : id ∈ s.selectedIds) : id ∈ s.allItems :=
  Std.ExtTreeMap.mem_keys.mp (s.selectedIds_sublist.subset member)

theorem get_showItem (all m : ItemMap) (first id : String) :
    (showItem all m first)[id]? = if id = first ∧ id ∈ all then all[id]? else m[id]? := by
  unfold showItem
  cases found : all[first]? with
  | none =>
    refine (if_neg fun both => ?_).symm
    obtain ⟨rfl, stored⟩ := both
    rw [Std.ExtTreeMap.mem_iff_isSome_getElem?, found] at stored
    cases stored
  | some item =>
    refine (OrdMap.get_insert m first id item).trans ?_
    by_cases here : id = first
    · subst here
      have stored : id ∈ all := Std.ExtTreeMap.mem_iff_isSome_getElem?.mpr (by rw [found]; rfl)
      rw [if_pos rfl, if_pos ⟨rfl, stored⟩, found]
    · rw [if_neg here, if_neg fun both => here both.1]

theorem get_showItems (all : ItemMap) (ids : List String) (m : ItemMap) (id : String) :
    (ids.foldl (showItem all) m)[id]? = if id ∈ ids ∧ id ∈ all then all[id]? else m[id]? := by
  induction ids generalizing m with
  | nil => simp
  | cons first rest ih =>
    rw [List.foldl_cons, ih, get_showItem]
    by_cases stored : id ∈ all
    · simp only [stored, and_true, List.mem_cons]
      by_cases later : id ∈ rest
      · rw [if_pos later, if_pos (.inr later)]
      · rw [if_neg later]
        exact if_congr (by simp [later]) rfl rfl
    · simp [stored]

theorem get_nextVisible (s : QuerySubscriptionState) (id : String) :
    s.nextVisible[id]? = if id ∈ s.selectedIds then s.allItems[id]? else none := by
  unfold nextVisible
  rw [get_showItems, visibleIds_eq]
  by_cases member : id ∈ s.selectedIds
  · rw [if_pos ⟨member, mem_of_selected member⟩, if_pos member]
  · rw [if_neg fun both => member both.1, if_neg member]
    exact Std.ExtTreeMap.getElem?_empty

theorem mem_nextVisible {id : String} : id ∈ s.nextVisible ↔ id ∈ s.selectedIds := by
  rw [Std.ExtTreeMap.mem_iff_isSome_getElem?, get_nextVisible]
  by_cases member : id ∈ s.selectedIds
  · rw [if_pos member, ← Std.ExtTreeMap.mem_iff_isSome_getElem?]
    exact iff_of_true (mem_of_selected member) member
  · rw [if_neg member]
    exact iff_of_false (fun some => (by cases some)) member

/-- What a page's response makes of a map, and what the page is like when none is sent. -/
theorem bounded_response (tx : String) (changedIds : OrdSet String) (previousTotalCount : Nat) (forceEmit : Bool)
    (keyed : Keyed s.allItems) (windowed : s.unwindowed = false) :
    ∃ after, (s.computeBoundedWindowResponse tx changedIds previousTotalCount forceEmit).2 = after ∧
      after.allItems = s.allItems ∧ after.window = s.window ∧ after.cursorWindow = s.cursorWindow ∧
      after.visibleItems = s.nextVisible ∧
      (((s.computeBoundedWindowResponse tx changedIds previousTotalCount forceEmit).1 = none ∧
          forceEmit = false ∧ after.sequence = s.sequence ∧ s.sequence ≠ 0 ∧
          previousTotalCount = s.allItems.size ∧
          s.visibleItems.keys = s.selectedIds ∧ ∀ id ∈ s.selectedIds, id ∉ changedIds) ∨
        ∃ response, (s.computeBoundedWindowResponse tx changedIds previousTotalCount forceEmit).1 = some response ∧
          Sends s response after ∧ response.windowOrderIds = some s.selectedIds ∧
          ∀ (m : ItemMap) (id : String), (replayed m response.intoWire)[id]? =
            if id ∈ s.selectedIds ∧ (s.sequence = 0 ∨ id ∉ s.visibleItems ∨ id ∈ changedIds) then s.allItems[id]?
            else if s.sequence = 0 ∨ (id ∈ s.visibleItems ∧ id ∉ s.selectedIds) then none
            else m[id]?) := by
  have sent : (s.selectedIds.filterMap fun id =>
      if s.sequence = 0 ∨ ¬s.visibleItems.contains id ∨ changedIds.contains id then s.nextVisible[id]?
      else none) = (s.selectedIds.filter fun id =>
        s.sequence = 0 ∨ id ∉ s.visibleItems ∨ id ∈ changedIds).filterMap fun id => s.allItems[id]? := by
    rw [List.filterMap_filter]
    refine List.filterMap_congr fun id member => ?_
    rw [get_nextVisible, if_pos member]
    refine if_congr ?_ rfl rfl
    rw [decide_eq_true_iff, Std.ExtTreeMap.mem_iff_contains, Std.ExtTreeSet.mem_iff_contains]
  unfold computeBoundedWindowResponse
  rw [visibleIds_eq]
  dsimp only
  rw [sent]
  split
  · refine ⟨_, rfl, rfl, rfl, rfl, rfl, .inr ⟨_, rfl, ⟨rfl, rfl, .inr rfl⟩, ?_, fun m id => ?_⟩⟩
    · simp [windowed]
    · rw [get_replayed keyed rfl]
      by_cases upserted : id ∈ s.selectedIds ∧ (s.sequence = 0 ∨ id ∉ s.visibleItems ∨ id ∈ changedIds)
      · rw [if_pos upserted, if_pos]
        exact ⟨List.mem_filter.mpr ⟨upserted.1, decide_eq_true upserted.2⟩, mem_of_selected upserted.1⟩
      · rw [if_neg upserted, if_neg]
        · refine if_congr (or_congr Iff.rfl ?_) rfl rfl
          refine mem_filter_absent.trans ?_
          rw [Std.ExtTreeMap.mem_keys, mem_nextVisible]
        · intro both
          obtain ⟨member, sends⟩ := List.mem_filter.mp both.1
          exact upserted ⟨member, of_decide_eq_true sends⟩
  · rename_i quiet
    obtain ⟨unforced, quiet⟩ := not_or.mp quiet
    obtain ⟨running, quiet⟩ := not_or.mp quiet
    obtain ⟨silent, quiet⟩ := not_or.mp quiet
    obtain ⟨ordered, total⟩ := not_or.mp quiet
    refine ⟨_, rfl, rfl, rfl, rfl, rfl, .inl ⟨rfl, Bool.eq_false_iff.mpr unforced, rfl, running,
      not_not.mp total, not_not.mp ordered, fun id member changed => ?_⟩⟩
    obtain ⟨item, found⟩ :=
      Option.isSome_iff_exists.mp (Std.ExtTreeMap.mem_iff_isSome_getElem?.mp (mem_of_selected member))
    have none := List.filterMap_eq_nil_iff.mp (not_not.mp silent).1 id
      (List.mem_filter.mpr ⟨member, decide_eq_true (.inr (.inr changed))⟩)
    rw [found] at none
    cases none

/-- Leaving a window sends the whole result. -/
theorem unwindowed_response (tx : String) (changedIds removedIds : OrdSet String) (previousTotalCount : Nat)
    (forceEmit : Bool) (keyed : Keyed s.allItems) (first : s.sequence = 0) :
    ∃ after response,
      s.computeUnwindowedResponse tx changedIds removedIds previousTotalCount forceEmit = (some response, after) ∧
      after.allItems = s.allItems ∧ after.window = s.window ∧ after.cursorWindow = s.cursorWindow ∧
      Sends s response after ∧ response.windowOrderIds = none ∧
      ∀ m : ItemMap, replayed m response.intoWire = s.allItems := by
  unfold computeUnwindowedResponse
  rw [if_pos (.inr (.inl first)), if_pos first]
  refine ⟨_, _, rfl, rfl, rfl, rfl, ⟨rfl, rfl, .inr rfl⟩, rfl, fun m => OrdMap.ext fun id => ?_⟩
  rw [get_replayed keyed rfl]
  by_cases stored : id ∈ s.allItems
  · rw [if_pos ⟨Std.ExtTreeMap.mem_keys.mpr stored, stored⟩]
  · rw [if_neg fun both => stored both.2, if_pos (.inl first), Std.ExtTreeMap.getElem?_eq_none stored]

end QuerySubscriptionState

/-! ### Agreement -/

/-- A client shows the items the subscription selects, in order, and knows how large the result is. -/
structure Shows (server : QuerySubscriptionState) (page : WindowedQueryWatch) : Prop where
  items : page.items = server.selected
  total : page.totalCount = some server.allItems.size

/-- A map holds the items the subscription selects and no others. -/
def Holds (server : QuerySubscriptionState) (map : ItemMap) : Prop :=
  ∀ id : String, map[id]? = if id ∈ server.selectedIds then server.allItems[id]? else none

namespace Replica

variable {σ : Replica}

/-- What the server keeps and what its clients hold. -/
structure Aligned (σ : Replica) : Prop where
  keyed : Keyed σ.server.allItems
  oneWindow : σ.server.window = none ∨ σ.server.cursorWindow = none
  sameMap : σ.map.map = σ.page.state
  whole : σ.server.unwindowed = true → σ.page.state = σ.server.allItems
  visible : σ.server.unwindowed = false → σ.server.visibleItems = σ.server.nextVisible
  current : ∀ id ∈ σ.server.selectedIds, σ.page.state[id]? = σ.server.allItems[id]?

/-- The same once the whole result has been sent. -/
structure Kept (σ : Replica) : Prop extends Aligned σ where
  running : σ.server.sequence ≠ 0
  shows : Shows σ.server σ.page

theorem selectedIds_unwindowed {s : QuerySubscriptionState} (unwindowed : s.unwindowed = true) :
    s.selectedIds = s.allItems.keys := by
  unfold QuerySubscriptionState.unwindowed at unwindowed
  unfold QuerySubscriptionState.selectedIds
  cases cursor : s.cursorWindow with
  | some cursor => simp [cursor] at unwindowed
  | none =>
    cases window : s.window with
    | some window => simp [window] at unwindowed
    | none => rfl

theorem unwindowed_congr {s after : QuerySubscriptionState} (window : after.window = s.window)
    (cursor : after.cursorWindow = s.cursorWindow) : after.unwindowed = s.unwindowed := by
  rw [QuerySubscriptionState.unwindowed, window, cursor, QuerySubscriptionState.unwindowed]

theorem selectedIds_congr {s after : QuerySubscriptionState} (items : after.allItems = s.allItems)
    (window : after.window = s.window) (cursor : after.cursorWindow = s.cursorWindow) :
    after.selectedIds = s.selectedIds := by
  rw [QuerySubscriptionState.selectedIds, items, window, cursor, QuerySubscriptionState.selectedIds]

theorem nextSequence_ne (sequence : Nat) : nextSequence sequence ≠ 0 := by
  unfold nextSequence lastSequence
  omega

theorem apply_items {page : WindowedQueryWatch} {response : PendingQueryResponse} {s : QuerySubscriptionState}
    (order : response.windowOrderIds = some s.selectedIds ∨
      response.windowOrderIds = none ∧ (page.apply response.intoWire).state.keys = s.selectedIds)
    (current : ∀ id ∈ s.selectedIds, (page.apply response.intoWire).state[id]? = s.allItems[id]?) :
    (page.apply response.intoWire).items = s.selected := by
  have listed : (page.apply response.intoWire).items =
      s.selectedIds.filterMap fun id => (page.apply response.intoWire).state[id]? := by
    rcases order with order | ⟨order, keys⟩
    · rw [← Option.getD_some (a := s.selectedIds) (b := (page.apply response.intoWire).state.keys)]
      simp [WindowedQueryWatch.apply, PendingQueryResponse.intoWire, order]
    · rw [← keys]
      simp [WindowedQueryWatch.apply, PendingQueryResponse.intoWire, order]
  rw [listed]
  exact List.filterMap_congr fun id member => current id member

/-- A response that brings the clients up to date. -/
theorem kept_response {response : PendingQueryResponse} {s after : QuerySubscriptionState}
    (sameMap : σ.map.map = σ.page.state) (keyed : Keyed after.allItems)
    (oneWindow : after.window = none ∨ after.cursorWindow = none)
    (sends : s.Sends response after)
    (order : response.windowOrderIds = some after.selectedIds ∨
      response.windowOrderIds = none ∧ after.unwindowed = true)
    (visible : after.unwindowed = false → after.visibleItems = after.nextVisible)
    (whole : after.unwindowed = true → replayed σ.page.state response.intoWire = after.allItems)
    (current : ∀ id ∈ after.selectedIds,
      (replayed σ.page.state response.intoWire)[id]? = after.allItems[id]?) :
    Kept (σ.deliver (some response, after)) where
  keyed := keyed
  oneWindow := oneWindow
  sameMap := (QueryMapWatch.apply_map _ _).trans (by rw [sameMap]; rfl)
  whole := whole
  visible := visible
  current := current
  running := by
    show after.sequence ≠ 0
    rw [sends.sequence]
    exact nextSequence_ne _
  shows := by
    refine ⟨apply_items (order.imp id fun both => ⟨both.1, ?_⟩) current, ?_⟩
    · show _ = after.selectedIds
      rw [selectedIds_unwindowed both.2, ← whole both.2]
      rfl
    · show some response.totalCount = some after.allItems.size
      rw [sends.total]

/-- No response, when the clients are up to date as they are. -/
theorem kept_quiet {after : QuerySubscriptionState}
    (sameMap : σ.map.map = σ.page.state) (keyed : Keyed after.allItems)
    (oneWindow : after.window = none ∨ after.cursorWindow = none) (running : after.sequence ≠ 0)
    (visible : after.unwindowed = false → after.visibleItems = after.nextVisible)
    (whole : after.unwindowed = true → σ.page.state = after.allItems)
    (current : ∀ id ∈ after.selectedIds, σ.page.state[id]? = after.allItems[id]?)
    (shows : Shows after σ.page) : Kept (σ.deliver (none, after)) :=
  ⟨⟨keyed, oneWindow, sameMap, whole, visible, current⟩, running, shows⟩

theorem selected_congr {s after : QuerySubscriptionState} (items : after.allItems = s.allItems)
    (ids : after.selectedIds = s.selectedIds) : after.selected = s.selected := by
  rw [QuerySubscriptionState.selected, ids, items, QuerySubscriptionState.selected]

/-- A selected id holds the server's item once the response's changes are in. -/
theorem current_of_held {s : QuerySubscriptionState} {changedIds : OrdSet String} {m replayed : ItemMap} {id : String}
    (known : s.sequence ≠ 0 → ∀ id ∈ s.selectedIds, id ∈ s.visibleItems → id ∉ changedIds → m[id]? = s.allItems[id]?)
    (held : replayed[id]? =
      if id ∈ s.selectedIds ∧ (s.sequence = 0 ∨ id ∉ s.visibleItems ∨ id ∈ changedIds) then s.allItems[id]?
      else if s.sequence = 0 ∨ (id ∈ s.visibleItems ∧ id ∉ s.selectedIds) then none
      else m[id]?)
    (member : id ∈ s.selectedIds) : replayed[id]? = s.allItems[id]? := by
  rw [held]
  by_cases upserted : s.sequence = 0 ∨ id ∉ s.visibleItems ∨ id ∈ changedIds
  · rw [if_pos ⟨member, upserted⟩]
  · obtain ⟨running, kept⟩ := not_or.mp upserted
    obtain ⟨shown, unchanged⟩ := not_or.mp kept
    rw [if_neg fun both => upserted both.2, if_neg fun gone => ?_]
    · exact known running id member (not_not.mp shown) unchanged
    · exact gone.elim running fun hidden => hidden.2 member

/-- A page's response, after the result or the window has changed. -/
theorem kept_bounded {s : QuerySubscriptionState} {changedIds : OrdSet String} {previousTotalCount : Nat}
    {forceEmit : Bool} {tx : String} (sameMap : σ.map.map = σ.page.state) (keyed : Keyed s.allItems)
    (oneWindow : s.window = none ∨ s.cursorWindow = none) (windowed : s.unwindowed = false)
    (known : s.sequence ≠ 0 → ∀ id ∈ s.selectedIds, id ∈ s.visibleItems → id ∉ changedIds →
      σ.page.state[id]? = s.allItems[id]?)
    (quiet : forceEmit = false → s.sequence ≠ 0 → s.visibleItems.keys = s.selectedIds →
      (∀ id ∈ s.selectedIds, id ∉ changedIds) → previousTotalCount = s.allItems.size → Shows s σ.page) :
    Kept (σ.deliver (s.computeBoundedWindowResponse tx changedIds previousTotalCount forceEmit)) := by
  obtain ⟨after, same, items, window, cursor, visible, sent⟩ :=
    QuerySubscriptionState.bounded_response tx changedIds previousTotalCount forceEmit keyed windowed
  have ids : after.selectedIds = s.selectedIds := selectedIds_congr items window cursor
  have bounded : after.unwindowed = false := (unwindowed_congr window cursor).trans windowed
  have next : after.visibleItems = after.nextVisible := by
    rw [visible]
    refine OrdMap.ext fun id => ?_
    rw [QuerySubscriptionState.get_nextVisible, QuerySubscriptionState.get_nextVisible, ids, items]
  rcases sent with ⟨none, unforced, sequence, running, total, ordered, unchanged⟩ | ⟨response, some, sends, order, held⟩
  · have emission : s.computeBoundedWindowResponse tx changedIds previousTotalCount forceEmit = (Option.none, after) :=
      Prod.ext none same
    rw [emission]
    have shows := quiet unforced running ordered unchanged total
    refine kept_quiet sameMap (items ▸ keyed) (by rw [window, cursor]; exact oneWindow)
      (by rw [sequence]; exact running) (fun _ => next)
      (fun whole => absurd (bounded.symm.trans whole) (by decide)) (fun id member => ?_)
      ⟨shows.items.trans (selected_congr items ids).symm, by rw [shows.total, items]⟩
    rw [ids] at member
    have shown : id ∈ s.visibleItems := Std.ExtTreeMap.mem_keys.mp (ordered ▸ member)
    rw [items]
    exact known running id member shown (unchanged id member)
  · have emission : s.computeBoundedWindowResponse tx changedIds previousTotalCount forceEmit =
        (Option.some response, after) :=
      Prod.ext some same
    rw [emission]
    refine kept_response sameMap (items ▸ keyed) (by rw [window, cursor]; exact oneWindow) sends
      (.inl (by rw [ids, order])) (fun _ => next) (fun whole => absurd (bounded.symm.trans whole) (by decide))
      fun id member => ?_
    rw [items]
    rw [ids] at member
    exact current_of_held known (held _ id) member

theorem keys_nextVisible (s : QuerySubscriptionState) : s.nextVisible.keys = s.selectedIds := by
  have irrefl : Std.Irrefl fun id other : String => compare id other = .lt :=
    ⟨fun id lt => by
      have same : compare id id = .eq := Std.ReflCmp.compare_self
      rw [same] at lt
      cases lt⟩
  have asymm : Std.Antisymm fun id other : String => compare id other = .lt :=
    ⟨fun id other lt gt => by
      have swapped : compare other id = (compare id other).swap := Std.OrientedCmp.eq_swap
      rw [gt, lt] at swapped
      cases swapped⟩
  refine (ordered_keys _).eq_of_mem_iff ((ordered_keys _).sublist s.selectedIds_sublist) fun id => ?_
  rw [Std.ExtTreeMap.mem_keys, QuerySubscriptionState.mem_nextVisible]

theorem deliver_server (σ : Replica) (emission : Option PendingQueryResponse × QuerySubscriptionState) :
    (σ.deliver emission).server = emission.2 := by
  unfold deliver
  cases emission.1 <;> rfl

theorem holds_whole (kept : Kept σ) (unwindowed : σ.server.unwindowed = true) :
    Holds σ.server σ.page.state := by
  intro id
  rw [kept.whole unwindowed, selectedIds_unwindowed unwindowed]
  by_cases stored : id ∈ σ.server.allItems
  · rw [if_pos (Std.ExtTreeMap.mem_keys.mpr stored)]
  · rw [if_neg fun member => stored (Std.ExtTreeMap.mem_keys.mp member), Std.ExtTreeMap.getElem?_eq_none stored]

theorem holds_bounded {s : QuerySubscriptionState} {changedIds : OrdSet String} {previousTotalCount : Nat}
    {forceEmit : Bool} {tx : String} (keyed : Keyed s.allItems) (windowed : s.unwindowed = false)
    (kept : Kept (σ.deliver (s.computeBoundedWindowResponse tx changedIds previousTotalCount forceEmit)))
    (tight : ∀ id, id ∉ s.selectedIds → id ∉ s.visibleItems → σ.page.state[id]? = none) :
    Holds (σ.deliver (s.computeBoundedWindowResponse tx changedIds previousTotalCount forceEmit)).server
      (σ.deliver (s.computeBoundedWindowResponse tx changedIds previousTotalCount forceEmit)).page.state := by
  intro id
  obtain ⟨after, same, items, window, cursor, -, sent⟩ :=
    QuerySubscriptionState.bounded_response tx changedIds previousTotalCount forceEmit keyed windowed
  have ids : after.selectedIds = s.selectedIds := selectedIds_congr items window cursor
  split
  · rename_i member
    exact kept.current id member
  rename_i outside
  rcases sent with ⟨none, -, -, running, -, ordered, -⟩ | ⟨response, some, -, -, held⟩
  · have emission : s.computeBoundedWindowResponse tx changedIds previousTotalCount forceEmit =
        (Option.none, after) := Prod.ext none same
    rw [emission] at outside ⊢
    have hidden : id ∉ s.selectedIds := ids ▸ outside
    exact tight id hidden fun shown => hidden (ordered ▸ Std.ExtTreeMap.mem_keys.mpr shown)
  · have emission : s.computeBoundedWindowResponse tx changedIds previousTotalCount forceEmit =
        (Option.some response, after) := Prod.ext some same
    rw [emission] at outside ⊢
    have hidden : id ∉ s.selectedIds := ids ▸ outside
    refine (held _ id).trans ?_
    rw [if_neg fun both => hidden both.1]
    by_cases shown : s.sequence = 0 ∨ id ∈ s.visibleItems ∧ id ∉ s.selectedIds
    · rw [if_pos shown]
    · rw [if_neg shown]
      exact tight id hidden fun there => shown (.inr ⟨there, hidden⟩)

/-- A map that is exact has of a page only what the server counts as visible. -/
theorem holds_visible (kept : Aligned σ) (exact : Holds σ.server σ.page.state)
    (windowed : σ.server.unwindowed = false) (id : String) (hidden : id ∉ σ.server.visibleItems) :
    σ.page.state[id]? = none := by
  rw [kept.visible windowed, QuerySubscriptionState.mem_nextVisible] at hidden
  rw [exact id, if_neg hidden]

/-- What an event leads to; from a map that was exact and is not loosened to one that is exact. -/
structure Follows (σ' : Replica) (tight : Prop) : Prop where
  kept : Kept σ'
  holds : tight → Holds σ'.server σ'.page.state

theorem follows_bounded {s : QuerySubscriptionState} {changedIds : OrdSet String} {previousTotalCount : Nat}
    {forceEmit : Bool} {tx : String} {tight : Prop}
    (kept : Kept (σ.deliver (s.computeBoundedWindowResponse tx changedIds previousTotalCount forceEmit)))
    (keyed : Keyed s.allItems) (windowed : s.unwindowed = false)
    (exact : tight → ∀ id, id ∉ s.selectedIds → id ∉ s.visibleItems → σ.page.state[id]? = none) :
    (σ.deliver (s.computeBoundedWindowResponse tx changedIds previousTotalCount forceEmit)).Follows tight :=
  ⟨kept, fun holds => holds_bounded keyed windowed kept (exact holds)⟩

theorem follows_diff (aligned : Aligned σ) {diff : ItemDiff} (puts : diff.AllPuts fun id item => item.id = id)
    (started : (SourceChanges.apply diff ⟨σ.server.allItems, ∅, false⟩).isInitial = false →
      σ.server.sequence ≠ 0 ∧ Shows σ.server σ.page) :
    (σ.deliver (σ.server.applySourceDiff diff σ.tx)).Follows (Holds σ.server σ.page.state) := by
  unfold QuerySubscriptionState.applySourceDiff
  cases unwindowed : σ.server.unwindowed with
  | true =>
    rw [if_pos rfl]
    obtain ⟨after, same, keyed, window, cursor, -, sent⟩ := QuerySubscriptionState.unwindowed_diff σ.tx
      aligned.keyed puts fun running => (started running).1
    have still : after.unwindowed = true := (unwindowed_congr window cursor).trans unwindowed
    have oneWindow : after.window = none ∨ after.cursorWindow = none := by
      rw [window, cursor]
      exact aligned.oneWindow
    have whole := aligned.whole unwindowed
    have kept : Kept (σ.deliver (σ.server.applySourceDiffUnwindowed diff σ.tx)) := by
      rcases sent with ⟨none, items, sequence, running⟩ | ⟨response, some, sends, order, held⟩
      · obtain ⟨running, shows⟩ := started running
        have ids : after.selectedIds = σ.server.selectedIds := selectedIds_congr items window cursor
        rw [show σ.server.applySourceDiffUnwindowed diff σ.tx = (Option.none, after) from Prod.ext none same]
        exact kept_quiet aligned.sameMap keyed oneWindow (sequence ▸ running)
          (fun bounded => absurd (still.symm.trans bounded) (by decide)) (fun _ => whole.trans items.symm)
          (fun id _ => by rw [whole, items])
          ⟨shows.items.trans (selected_congr items ids).symm, by rw [shows.total, items]⟩
      · rw [show σ.server.applySourceDiffUnwindowed diff σ.tx = (Option.some response, after) from
          Prod.ext some same]
        rw [← whole] at held
        exact kept_response aligned.sameMap keyed oneWindow sends (.inr ⟨order, still⟩)
          (fun bounded => absurd (still.symm.trans bounded) (by decide)) (fun _ => held)
          (fun id _ => by rw [held])
    exact ⟨kept, fun _ => holds_whole kept (by rw [deliver_server, same, still])⟩
  | false =>
    rw [if_neg (by decide)]
    dsimp only
    have tracks := SourceChanges.tracks_apply diff ⟨σ.server.allItems, ∅, false⟩ puts
    generalize SourceChanges.apply diff ⟨σ.server.allItems, ∅, false⟩ = source at tracks started ⊢
    have running : (if source.isInitial then 0 else σ.server.sequence) ≠ 0 → source.isInitial = false := by
      cases source.isInitial
      · exact fun _ => rfl
      · exact fun zero => absurd rfl zero
    have shown := aligned.visible unwindowed
    have bounded : ∀ sequence, QuerySubscriptionState.unwindowed
        { σ.server with allItems := source.allItems, sequence := sequence } = false := fun _ => unwindowed
    rw [QuerySubscriptionState.computeWindowedResponse_bounded _ _ _ _ _ (bounded _)]
    refine follows_bounded ?_ (tracks.keyed aligned.keyed) (bounded _) fun exact id _ hidden =>
      holds_visible aligned exact unwindowed id hidden
    refine kept_bounded aligned.sameMap (tracks.keyed aligned.keyed) aligned.oneWindow (bounded _)
      (fun _ id _ visible untouched => ?_) fun _ begun ordered unchanged total => ?_
    · have before : id ∈ σ.server.selectedIds := by
        rw [← QuerySubscriptionState.mem_nextVisible, ← shown]
        exact visible
      rw [aligned.current id before]
      exact (tracks.untouched id untouched).symm
    · obtain ⟨-, shows⟩ := started (running begun)
      have ids : σ.server.selectedIds = _ := (keys_nextVisible σ.server).symm.trans (shown ▸ ordered)
      refine ⟨shows.items.trans ?_, by rw [shows.total, ← total]⟩
      unfold QuerySubscriptionState.selected
      rw [ids]
      exact List.filterMap_congr fun id member => (tracks.untouched id (unchanged id member)).symm

/-- A window is set while the result has an item off its page that the server does not count as visible. -/
def Loosened (server after : QuerySubscriptionState) : Prop :=
  server.unwindowed = true ∧ after.unwindowed = false ∧
    ∃ id ∈ server.allItems, id ∉ after.selectedIds ∧ id ∉ server.visibleItems

/-- A window or a cursor that selects a page, whatever was selected before. -/
theorem follows_page (kept : Kept σ) {s : QuerySubscriptionState} (items : s.allItems = σ.server.allItems)
    (visible : s.visibleItems = σ.server.visibleItems) (oneWindow : s.window = none ∨ s.cursorWindow = none)
    (windowed : s.unwindowed = false) :
    (σ.deliver (s.computeBoundedWindowResponse σ.tx ∅ σ.server.allItems.size true)).Follows
      (Holds σ.server σ.page.state ∧
        ¬Loosened σ.server (s.computeBoundedWindowResponse σ.tx ∅ σ.server.allItems.size true).2) := by
  have keyed : Keyed s.allItems := items ▸ kept.keyed
  obtain ⟨after, same, allItems, window, cursor, -⟩ :=
    QuerySubscriptionState.bounded_response σ.tx ∅ σ.server.allItems.size true keyed windowed
  have ids : after.selectedIds = s.selectedIds := selectedIds_congr allItems window cursor
  have bounded : after.unwindowed = false := (unwindowed_congr window cursor).trans windowed
  refine follows_bounded ?_ keyed windowed fun exact id outside hidden => ?_
  · refine kept_bounded kept.sameMap keyed oneWindow windowed (fun _ id _ shown _ => ?_)
      fun unforced => (by cases unforced)
    rw [items]
    cases unwindowed : σ.server.unwindowed with
    | true => rw [kept.whole unwindowed]
    | false =>
      refine kept.current id ?_
      rw [← QuerySubscriptionState.mem_nextVisible, ← kept.visible unwindowed, ← visible]
      exact shown
  · rw [visible] at hidden
    cases unwindowed : σ.server.unwindowed with
    | true =>
      rw [kept.whole unwindowed]
      refine Std.ExtTreeMap.getElem?_eq_none fun stored =>
        exact.2 ⟨unwindowed, by rw [same, bounded], id, stored, ?_, hidden⟩
      rw [same, ids]
      exact outside
    | false => exact holds_visible kept.toAligned exact.1 unwindowed id hidden

/-- Nothing is selected any more, and the whole result is sent anew. -/
theorem follows_whole {s : QuerySubscriptionState} {changedIds removedIds : OrdSet String}
    {previousTotalCount : Nat} {forceEmit : Bool} {tx : String} {tight : Prop}
    (sameMap : σ.map.map = σ.page.state) (keyed : Keyed s.allItems) (first : s.sequence = 0)
    (unwindowed : s.unwindowed = true) :
    (σ.deliver (s.computeUnwindowedResponse tx changedIds removedIds previousTotalCount forceEmit)).Follows
      tight := by
  obtain ⟨after, response, emission, items, window, cursor, sends, order, held⟩ :=
    QuerySubscriptionState.unwindowed_response tx changedIds removedIds previousTotalCount forceEmit keyed first
  rw [emission]
  have still : after.unwindowed = true := (unwindowed_congr window cursor).trans unwindowed
  have noWindow : after.window = none := by
    unfold QuerySubscriptionState.unwindowed at still
    simp only [Bool.and_eq_true, Option.isNone_iff_eq_none] at still
    exact still.1
  have kept : Kept (σ.deliver (some response, after)) :=
    kept_response sameMap (items ▸ keyed) (.inl noWindow) sends (.inr ⟨order, still⟩)
      (fun bounded => absurd (still.symm.trans bounded) (by decide)) (fun _ => (held _).trans items.symm)
      (fun id _ => by rw [held, items])
  exact ⟨kept, fun _ => holds_whole kept still⟩

theorem follows_window (kept : Kept σ) (window : Option QueryWindow) :
    (σ.deliver (σ.server.applyWindowUpdate window σ.tx)).Follows
      (Holds σ.server σ.page.state ∧ ¬Loosened σ.server (σ.server.applyWindowUpdate window σ.tx).2) := by
  unfold QuerySubscriptionState.applyWindowUpdate
  split
  · exact ⟨kept, And.left⟩
  rename_i changed
  cases window with
  | some window =>
    simp only [Option.isNone_some, Bool.false_eq_true, and_false, ↓reduceIte]
    rw [QuerySubscriptionState.computeWindowedResponse_bounded _ _ _ _ _ rfl]
    exact follows_page kept rfl rfl (.inr rfl) rfl
  | none =>
    -- There was a window, so that there was no cursor, and the whole result is sent anew.
    have windowed : σ.server.unwindowed = false := by
      unfold QuerySubscriptionState.unwindowed
      cases window : σ.server.window with
      | none => exact absurd window changed
      | some window => rfl
    simp only [windowed, Bool.false_eq_true, not_false_eq_true, Option.isNone_none, and_self, ↓reduceIte]
    rw [QuerySubscriptionState.computeWindowedResponse_whole _ _ _ _ _ rfl]
    exact follows_whole kept.sameMap (by exact kept.keyed) rfl rfl

theorem follows_cursor (kept : Kept σ) (window : QueryCursorWindow) :
    (σ.deliver (σ.server.updateQueryCursorWindow window σ.tx)).Follows
      (Holds σ.server σ.page.state ∧ ¬Loosened σ.server (σ.server.updateQueryCursorWindow window σ.tx).2) := by
  unfold QuerySubscriptionState.updateQueryCursorWindow
  cases window.validate with
  | error message => exact ⟨kept, And.left⟩
  | ok =>
    dsimp only
    unfold QuerySubscriptionState.applyCursorWindowUpdate
    split
    · rename_i same
      have noWindow : σ.server.window = none :=
        kept.oneWindow.resolve_right fun none => by rw [none] at same; cases same
      rw [← noWindow]
      exact ⟨kept, And.left⟩
    · rw [QuerySubscriptionState.computeWindowedResponse_bounded _ _ _ _ _ rfl]
      exact follows_page kept rfl rfl (.inl rfl) rfl

/-- An event that has the result's items stay with a client that no longer selects them. -/
def Loosens (σ : Replica) (event : SubscriptionEvent) : Prop := Loosened σ.server (σ.step event).server

theorem follows_step (kept : Kept σ) {event : SubscriptionEvent} (keyed : event.Keyed) :
    (σ.step event).Follows (Holds σ.server σ.page.state ∧ ¬σ.Loosens event) := by
  unfold Loosens
  rw [step, deliver_server]
  cases event with
  | diff change =>
    have follows := follows_diff kept.toAligned keyed fun _ => ⟨kept.running, kept.shows⟩
    exact ⟨follows.kept, fun both => follows.holds both.1⟩
  | window window => exact follows_window kept window
  | cursor window => exact follows_cursor kept window

/-- No event of the list loosens the map. -/
def Tight : Replica → List SubscriptionEvent → Prop
  | _, [] => True
  | σ, event :: rest => ¬σ.Loosens event ∧ Tight (σ.step event) rest

theorem follows_run (kept : Kept σ) {events : List SubscriptionEvent} (keyed : ∀ event ∈ events, event.Keyed) :
    (σ.run events).Follows (Holds σ.server σ.page.state ∧ σ.Tight events) := by
  induction events generalizing σ with
  | nil => exact ⟨kept, And.left⟩
  | cons event rest ih =>
    have next := follows_step kept (keyed event (by simp))
    have later := ih next.kept fun other member => keyed other (by simp [member])
    exact ⟨later.kept, fun both => later.holds ⟨next.holds ⟨both.1, both.2.1⟩, both.2.2⟩⟩

theorem follows_subscribe (tx : String) (window : Option QueryWindow) {entries : List (String × Item)}
    (keyed : ∀ entry ∈ entries, entry.2.id = entry.1) : (subscribe tx window entries).Follows True := by
  have none : ∀ s : QuerySubscriptionState, s.allItems = ∅ → s.selectedIds = [] := by
    intro s empty
    have nothing : s.allItems.keys = [] := by rw [empty]; rfl
    exact List.sublist_nil.mp (nothing ▸ s.selectedIds_sublist)
  have aligned : Aligned ⟨tx, ⟨0, window, Option.none, ∅, ∅⟩, ⟨tx, ⟨true, 0⟩, ∅, false⟩,
      ⟨tx, ⟨true, 0⟩, ∅, [], false, Option.none, window⟩⟩ := by
    refine ⟨fun id item found => by simp at found, .inr rfl, rfl, fun _ => rfl, fun _ => OrdMap.ext fun id => ?_,
      fun id _ => rfl⟩
    rw [QuerySubscriptionState.get_nextVisible, none _ rfl, if_neg List.not_mem_nil]
    exact Std.ExtTreeMap.getElem?_empty
  have first : (SourceChanges.apply (.initial entries) ⟨∅, ∅, false⟩).isInitial = true :=
    SourceChanges.insertAll_isInitial _ entries
  have initial : (MapDiff.initial entries).AllPuts fun id item => item.id = id := keyed
  have follows := follows_diff aligned initial fun running => absurd (first.symm.trans running) (by decide)
  refine ⟨follows.kept, fun _ => follows.holds fun id => ?_⟩
  rw [none _ rfl, if_neg List.not_mem_nil]
  exact Std.ExtTreeMap.getElem?_empty

/-- Whatever happens to a subscription, its client shows what it selects; and until a window is set that
leaves items of the result with the client, the map holds nothing else. -/
theorem replica_agrees (tx : String) (window : Option QueryWindow) {entries : List (String × Item)}
    (keyed : ∀ entry ∈ entries, entry.2.id = entry.1) {events : List SubscriptionEvent}
    (keyedEvents : ∀ event ∈ events, event.Keyed) :
    Shows ((subscribe tx window entries).run events).server ((subscribe tx window entries).run events).page ∧
      ((subscribe tx window entries).Tight events →
        Holds ((subscribe tx window entries).run events).server
          ((subscribe tx window entries).run events).map.map) := by
  have start := follows_subscribe tx window keyed
  have ends := follows_run start.kept keyedEvents
  refine ⟨ends.kept.shows, fun tight => ?_⟩
  rw [ends.kept.sameMap]
  exact ends.holds ⟨start.holds trivial, tight⟩

/-! ### Sequences -/

/-- How a response is counted, and that nothing is counted without one. -/
structure Counts (tx : String) (s : QuerySubscriptionState)
    (emission : Option PendingQueryResponse × QuerySubscriptionState) : Prop where
  sent : ∀ response, emission.1 = some response → response.tx = tx ∧
    (response.sequence = 0 ∨ response.sequence = s.sequence) ∧
    emission.2.sequence = nextSequence response.sequence
  silent : emission.1 = none → emission.2.sequence = s.sequence

theorem counts_some {tx : String} {s after : QuerySubscriptionState} {response : PendingQueryResponse}
    (sameTx : response.tx = tx) (counted : response.sequence = 0 ∨ response.sequence = s.sequence)
    (next : after.sequence = nextSequence response.sequence) : Counts tx s (some response, after) where
  sent other same := by
    cases same
    exact ⟨sameTx, counted, next⟩
  silent none := by cases none

theorem counts_none {tx : String} {s after : QuerySubscriptionState} (same : after.sequence = s.sequence) :
    Counts tx s (none, after) where
  sent other some := by cases some
  silent _ := same

theorem counts_windowed (tx : String) {server s : QuerySubscriptionState} (changedIds removedIds : OrdSet String)
    (previousTotalCount : Nat) (forceEmit : Bool) (counted : s.sequence = 0 ∨ s.sequence = server.sequence) :
    Counts tx server (s.computeWindowedResponse tx changedIds removedIds previousTotalCount forceEmit) := by
  unfold QuerySubscriptionState.computeWindowedResponse
  by_cases unwindowed : s.unwindowed = true
  · rw [if_pos unwindowed]
    unfold QuerySubscriptionState.computeUnwindowedResponse
    by_cases first : s.sequence = 0
    · rw [if_pos (.inr (.inl first))]
      exact counts_some rfl counted rfl
    · dsimp only
      rw [if_neg first, if_neg first]
      split
      · exact counts_some rfl counted rfl
      · exact counts_none (counted.resolve_left first)
  · rw [if_neg unwindowed]
    unfold QuerySubscriptionState.computeBoundedWindowResponse
    dsimp only
    split
    · exact counts_some rfl counted rfl
    · rename_i quiet
      exact counts_none (counted.resolve_left fun first => quiet (.inr (.inl first)))

theorem counts_emitted (σ : Replica) (event : SubscriptionEvent) :
    Counts σ.tx σ.server (σ.emitted event) := by
  have restarted : ∀ initial : Bool, (if initial then 0 else σ.server.sequence) = 0 ∨
      (if initial then 0 else σ.server.sequence) = σ.server.sequence := by
    intro initial
    cases initial
    · exact .inr rfl
    · exact .inl rfl
  cases event with
  | diff change =>
    show Counts σ.tx σ.server (σ.server.applySourceDiff change σ.tx)
    unfold QuerySubscriptionState.applySourceDiff QuerySubscriptionState.applySourceDiffUnwindowed
    dsimp only
    generalize SourceChanges.apply change ⟨σ.server.allItems, ∅, false⟩ = source
    have counted := restarted source.isInitial
    by_cases unwindowed : σ.server.unwindowed = true
    · rw [if_pos unwindowed]
      generalize (if source.isInitial then 0 else σ.server.sequence) = sequence at counted ⊢
      generalize (if source.isInitial then source.allItems.keys else source.affectedIds.toList) = ids
      split
      · exact counts_some rfl counted rfl
      · rename_i quiet
        exact counts_none (counted.resolve_left fun first => quiet (.inl first))
    · rw [if_neg unwindowed]
      exact counts_windowed σ.tx _ _ _ _ counted
  | window window =>
    show Counts σ.tx σ.server (σ.server.applyWindowUpdate window σ.tx)
    unfold QuerySubscriptionState.applyWindowUpdate
    split
    · exact counts_none rfl
    · refine counts_windowed σ.tx _ _ _ _ ?_
      dsimp only
      by_cases left : ¬σ.server.unwindowed ∧ window.isNone
      · exact .inl (if_pos left)
      · exact .inr (if_neg left)
  | cursor window =>
    show Counts σ.tx σ.server (σ.server.updateQueryCursorWindow window σ.tx)
    unfold QuerySubscriptionState.updateQueryCursorWindow
    cases window.validate with
    | error message => exact counts_none rfl
    | ok =>
      dsimp only
      unfold QuerySubscriptionState.applyCursorWindowUpdate
      split
      · exact counts_none rfl
      · exact counts_windowed σ.tx _ _ _ _ (.inr rfl)

/-- Client and server count alike, as long as the sequence fits into 64 bits. -/
structure InStep (σ : Replica) : Prop where
  mapTx : σ.map.tx = σ.tx
  pageTx : σ.page.tx = σ.tx
  map : σ.server.sequence ≠ 0 → σ.server.sequence < lastSequence → σ.map.sequences = ⟨false, σ.server.sequence⟩
  page : σ.server.sequence ≠ 0 → σ.server.sequence < lastSequence → σ.page.sequences = ⟨false, σ.server.sequence⟩

theorem accept_next {sequences : SequenceState} {sequence : Nat} (below : sequence < lastSequence)
    (expected : sequence ≠ 0 → sequences = ⟨false, sequence⟩) :
    sequences.accept sequence = (true, ⟨false, sequence + 1⟩) := by
  unfold SequenceState.accept
  by_cases first : sequence = 0
  · rw [if_pos first, first]
  · rw [if_neg first, expected first]
    simp [Nat.ne_of_lt below]

theorem inStep_deliver (inStep : InStep σ) {emission : Option PendingQueryResponse × QuerySubscriptionState}
    (counts : Counts σ.tx σ.server emission) : InStep (σ.deliver emission) := by
  obtain ⟨emitted, after⟩ := emission
  cases emitted with
  | none =>
    have same : after.sequence = σ.server.sequence := counts.silent rfl
    refine ⟨inStep.mapTx, inStep.pageTx, ?_, ?_⟩
    · show after.sequence ≠ 0 → after.sequence < lastSequence → σ.map.sequences = ⟨false, after.sequence⟩
      rw [same]
      exact inStep.map
    · show after.sequence ≠ 0 → after.sequence < lastSequence → σ.page.sequences = ⟨false, after.sequence⟩
      rw [same]
      exact inStep.page
  | some response =>
    obtain ⟨-, counted, next⟩ := counts.sent response rfl
    have stays : ∀ sequences : SequenceState,
        (σ.server.sequence ≠ 0 → σ.server.sequence < lastSequence → sequences = ⟨false, σ.server.sequence⟩) →
        after.sequence < lastSequence → (sequences.accept response.sequence).2 = ⟨false, after.sequence⟩ := by
      intro sequences expected below
      have room : response.sequence < lastSequence ∧ after.sequence = response.sequence + 1 := by
        rw [next] at below ⊢
        unfold nextSequence at below ⊢
        omega
      rw [accept_next room.1 fun running => ?_, room.2]
      rcases counted with first | same
      · exact absurd first running
      · rw [same] at running room ⊢
        exact expected running room.1
    exact ⟨inStep.mapTx, inStep.pageTx, fun _ => stays _ inStep.map, fun _ => stays _ inStep.page⟩

theorem inStep_run (tx : String) (window : Option QueryWindow) (entries : List (String × Item))
    (events : List SubscriptionEvent) : InStep ((subscribe tx window entries).run events) := by
  have start : InStep (subscribe tx window entries) :=
    inStep_deliver ⟨rfl, rfl, fun running => absurd rfl running, fun running => absurd rfl running⟩
      (counts_emitted ⟨tx, ⟨0, window, none, ∅, ∅⟩, ⟨tx, ⟨true, 0⟩, ∅, false⟩,
        ⟨tx, ⟨true, 0⟩, ∅, [], false, none, window⟩⟩ (.diff (.initial entries)))
  induction events using List.reverseRecOn with
  | nil => exact start
  | append_singleton events event ih =>
    rw [run, List.foldl_append]
    exact inStep_deliver ih (counts_emitted _ event)

/-- Clients accept every response whose sequence is not the last one there is. -/
theorem handles_response (tx : String) (window : Option QueryWindow) (entries : List (String × Item))
    (events : List SubscriptionEvent) (event : SubscriptionEvent) {response : PendingQueryResponse}
    (sent : (((subscribe tx window entries).run events).emitted event).1 = some response)
    (below : response.sequence < lastSequence) :
    ((subscribe tx window entries).run events).map.handle response.intoWire =
        ((subscribe tx window entries).run events).map.apply response.intoWire ∧
      ((subscribe tx window entries).run events).page.handle response.intoWire =
        ((subscribe tx window entries).run events).page.apply response.intoWire := by
  have inStep := inStep_run tx window entries events
  generalize (subscribe tx window entries).run events = σ at sent inStep ⊢
  obtain ⟨sameTx, counted, -⟩ := (counts_emitted σ event).sent response sent
  have accepted : ∀ sequences : SequenceState,
      (σ.server.sequence ≠ 0 → σ.server.sequence < lastSequence → sequences = ⟨false, σ.server.sequence⟩) →
      (sequences.accept response.intoWire.sequence).1 = true := by
    intro sequences expected
    rw [show response.intoWire.sequence = response.sequence from rfl, accept_next below fun running => ?_]
    have same := counted.resolve_left running
    rw [same] at running below ⊢
    exact expected running below
  have wireTx : response.intoWire.tx = σ.tx := sameTx
  constructor
  · rw [QueryMapWatch.handle, if_neg (by rw [wireTx, inStep.mapTx]; simp), if_pos (accepted _ inStep.map)]
  · rw [WindowedQueryWatch.handle, if_neg (by rw [wireTx, inStep.pageTx]; simp), if_pos (accepted _ inStep.page)]

end Replica

namespace Sample

def row (id : String) : Item where
  entityType := "row"
  id := id
  fields := []

def rows : List (String × Item) := [("a", row "a"), ("b", row "b")]

/-- A row is added while the second page of one is shown. -/
theorem replica_agrees_page :
    Shows ((Replica.subscribe "tx" (some ⟨1, 1⟩) rows).run [.diff (.insert "aa" (row "aa"))]).server
        ((Replica.subscribe "tx" (some ⟨1, 1⟩) rows).run [.diff (.insert "aa" (row "aa"))]).page ∧
      Holds ((Replica.subscribe "tx" (some ⟨1, 1⟩) rows).run [.diff (.insert "aa" (row "aa"))]).server
        ((Replica.subscribe "tx" (some ⟨1, 1⟩) rows).run [.diff (.insert "aa" (row "aa"))]).map.map := by
  have keyed : ∀ entry ∈ rows, entry.2.id = entry.1 := by decide
  have keyedEvents : ∀ event ∈ [SubscriptionEvent.diff (.insert "aa" (row "aa"))], event.Keyed := by
    intro event member
    rw [List.mem_singleton.mp member]
    exact rfl
  have agrees := Replica.replica_agrees "tx" (some ⟨1, 1⟩) keyed keyedEvents
  refine ⟨agrees.1, agrees.2 ⟨fun loosened => ?_, trivial⟩⟩
  have windowed : (Replica.subscribe "tx" (some ⟨1, 1⟩) rows).server.unwindowed = false := rfl
  exact absurd (windowed.symm.trans loosened.1) (by decide)

/-- A window is set on a subscription for the whole result: the row off its page stays with the client. -/
theorem replica_keeps_rows :
    ¬∀ (tx : String) (window : Option QueryWindow) (entries : List (String × Item)),
      (∀ entry ∈ entries, entry.2.id = entry.1) → ∀ events : List SubscriptionEvent,
      (∀ event ∈ events, event.Keyed) →
        Holds ((Replica.subscribe tx window entries).run events).server
          ((Replica.subscribe tx window entries).run events).map.map := by
  intro holds
  have keyed : ∀ event ∈ [SubscriptionEvent.window (some ⟨0, 1⟩)], event.Keyed := by
    intro event member
    rw [List.mem_singleton.mp member]
    trivial
  have gone := holds "tx" none rows (by decide) _ keyed "b"
  have kept : ((Replica.subscribe "tx" none rows).run [.window (some ⟨0, 1⟩)]).map.map["b"]? = some (row "b") := by
    decide +kernel
  have off : "b" ∉ ((Replica.subscribe "tx" none rows).run [.window (some ⟨0, 1⟩)]).server.selectedIds := by
    decide +kernel
  rw [if_neg off, kept] at gone
  cases gone

end Sample

end Myko.Query

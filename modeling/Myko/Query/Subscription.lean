import Myko.Query.SourceIndex

/-!
One query subscription of a client session: what the server keeps of the result and of what it has sent,
and the responses it sends for diffs of the result and for changes of the window.
-/

namespace Myko.Query

structure QueryWindow where
  offset : Nat
  limit : Nat
  deriving DecidableEq

/-- A page of the result in id order, from an id on or up to one. -/
structure QueryCursorWindow where
  after : Option String
  before : Option String
  limit : Nat
  deriving DecidableEq

def QueryCursorWindow.validate (window : QueryCursorWindow) : Except String Unit :=
  if window.after.isSome ∧ window.before.isSome then
    .error "cursor window cannot contain both after and before"
  else .ok ()

structure PendingQueryResponse where
  tx : String
  sequence : Nat
  upsertItems : List Item
  deletes : List String
  totalCount : Nat
  window : Option QueryWindow
  windowOrderIds : Option (List String)

structure QuerySubscriptionState where
  sequence : Nat
  window : Option QueryWindow
  cursorWindow : Option QueryCursorWindow
  allItems : ItemMap
  visibleItems : ItemMap

/-- Sequences are counted in 64 bits. -/
def lastSequence : Nat := 0xffffffffffffffff

def nextSequence (sequence : Nat) : Nat := min (sequence + 1) lastSequence

/-! ### Diffs of the result -/

/-- The result while a diff is applied to it, with the ids the diff has touched. -/
structure SourceChanges where
  allItems : ItemMap
  affectedIds : OrdSet String
  isInitial : Bool

namespace SourceChanges

def insert (source : SourceChanges) (key : String) (value : Item) : SourceChanges :=
  { source with affectedIds := source.affectedIds.insert key, allItems := source.allItems.insert key value }

mutual
def apply : ItemDiff → SourceChanges → SourceChanges
  | .initial entries, source =>
    entries.foldl (fun source entry => source.insert entry.1 entry.2)
      { allItems := ∅
        affectedIds := source.allItems.keys.foldl (fun ids id => ids.insert id) source.affectedIds
        isInitial := true }
  | .insert key value, source => source.insert key value
  | .update key _ newValue, source => source.insert key newValue
  | .remove key _, source =>
    { source with affectedIds := source.affectedIds.insert key, allItems := source.allItems.erase key }
  | .batch changes, source => applyAll changes source

def applyAll : List ItemDiff → SourceChanges → SourceChanges
  | [], source => source
  | change :: rest, source => applyAll rest (apply change source)
end

end SourceChanges

namespace QuerySubscriptionState

/-- No page is selected: the subscription is for the whole result. -/
def unwindowed (s : QuerySubscriptionState) : Bool := s.window.isNone && s.cursorWindow.isNone

def applySourceDiffUnwindowed (s : QuerySubscriptionState) (diff : ItemDiff) (tx : String) :
    Option PendingQueryResponse × QuerySubscriptionState :=
  let source := SourceChanges.apply diff ⟨s.allItems, ∅, false⟩
  let sequence := if source.isInitial then 0 else s.sequence
  let responseIds := if source.isInitial then source.allItems.keys else source.affectedIds.toList
  let upsertItems := responseIds.filterMap fun id => source.allItems[id]?
  let deletes := responseIds.filter fun id => !source.allItems.contains id
  let totalCount := source.allItems.size
  if sequence = 0 ∨ ¬(upsertItems = [] ∧ deletes = []) ∨ s.allItems.size ≠ totalCount then
    (some ⟨tx, sequence, upsertItems, deletes, totalCount, none, none⟩,
      { s with sequence := nextSequence sequence, allItems := source.allItems })
  else (none, { s with sequence, allItems := source.allItems })

/-- How many ids at the front of an ordered list the predicate holds of. -/
def partitionPoint (holds : String → Bool) (ids : List String) : Nat := (ids.takeWhile holds).length

def getRange (ids : List String) (first last : Nat) : List String :=
  if first ≤ last ∧ last ≤ ids.length then (ids.drop first).take (last - first) else []

/-- First and last place of a cursor's page. -/
def cursorRange (cursor : QueryCursorWindow) (orderedIds : List String) : Nat × Nat :=
  match cursor.after with
  | none =>
    match cursor.before with
    | none => (0, min cursor.limit orderedIds.length)
    | some before =>
      let last := partitionPoint (fun id => (compare id before).isLT) orderedIds
      (last - cursor.limit, last)
  | some after =>
    let first := partitionPoint (fun id => (compare id after).isLE) orderedIds
    (first, min (first + cursor.limit) orderedIds.length)

def visibleIds (s : QuerySubscriptionState) : List String :=
  let orderedIds := s.allItems.keys
  match s.cursorWindow, s.window with
  | some cursor, _ =>
    let (first, last) := cursorRange cursor orderedIds
    getRange orderedIds first last
  | none, some window =>
    if window.limit = 0 then []
    else
      let first := min window.offset orderedIds.length
      getRange orderedIds first (min (first + window.limit) orderedIds.length)
  | none, none => orderedIds

/-- Put what the result has under the id, if anything. -/
def showItem (allItems : ItemMap) (visible : ItemMap) (id : String) : ItemMap :=
  match allItems[id]? with
  | some item => visible.insert id item
  | none => visible

def nextVisible (s : QuerySubscriptionState) : ItemMap := s.visibleIds.foldl (showItem s.allItems) ∅

def computeBoundedWindowResponse (s : QuerySubscriptionState) (tx : String) (changedIds : OrdSet String)
    (previousTotalCount : Nat) (forceEmit : Bool) : Option PendingQueryResponse × QuerySubscriptionState :=
  let visibleIds := s.visibleIds
  let nextVisible := s.nextVisible
  let deletes := s.visibleItems.keys.filter fun id => !nextVisible.contains id
  let upsertItems := visibleIds.filterMap fun id =>
    if s.sequence = 0 ∨ ¬s.visibleItems.contains id ∨ changedIds.contains id then nextVisible[id]? else none
  let totalCount := s.allItems.size
  if forceEmit = true ∨ s.sequence = 0 ∨ ¬(upsertItems = [] ∧ deletes = []) ∨
      s.visibleItems.keys ≠ visibleIds ∨ previousTotalCount ≠ totalCount then
    (some ⟨tx, s.sequence, upsertItems, deletes, totalCount, s.window,
        if s.unwindowed then none else some visibleIds⟩,
      { s with sequence := nextSequence s.sequence, visibleItems := nextVisible })
  else (none, { s with visibleItems := nextVisible })

def computeUnwindowedResponse (s : QuerySubscriptionState) (tx : String) (changedIds removedIds : OrdSet String)
    (previousTotalCount : Nat) (forceEmit : Bool) : Option PendingQueryResponse × QuerySubscriptionState :=
  let visibleItems :=
    if s.sequence = 0 then s.allItems
    else changedIds.toList.foldl (showItem s.allItems) (OrdMap.removeMany s.visibleItems removedIds.toList)
  let deletes := removedIds.toList.filter fun id => !s.allItems.contains id
  let sourceIds := if s.sequence = 0 then s.allItems.keys else changedIds.toList
  let upsertItems := sourceIds.filterMap fun id => s.allItems[id]?
  let totalCount := s.allItems.size
  if forceEmit = true ∨ s.sequence = 0 ∨ ¬(upsertItems = [] ∧ deletes = []) ∨
      previousTotalCount ≠ totalCount then
    (some ⟨tx, s.sequence, upsertItems, deletes, totalCount, none, none⟩,
      { s with sequence := nextSequence s.sequence, visibleItems })
  else (none, { s with visibleItems })

def computeWindowedResponse (s : QuerySubscriptionState) (tx : String) (changedIds removedIds : OrdSet String)
    (previousTotalCount : Nat) (forceEmit : Bool) : Option PendingQueryResponse × QuerySubscriptionState :=
  if s.unwindowed then s.computeUnwindowedResponse tx changedIds removedIds previousTotalCount forceEmit
  else s.computeBoundedWindowResponse tx changedIds previousTotalCount forceEmit

def applySourceDiff (s : QuerySubscriptionState) (diff : ItemDiff) (tx : String) :
    Option PendingQueryResponse × QuerySubscriptionState :=
  if s.unwindowed then s.applySourceDiffUnwindowed diff tx
  else
    let source := SourceChanges.apply diff ⟨s.allItems, ∅, false⟩
    computeWindowedResponse
      { s with allItems := source.allItems, sequence := if source.isInitial then 0 else s.sequence } tx
      source.affectedIds source.affectedIds s.allItems.size false

def applyWindowUpdate (s : QuerySubscriptionState) (window : Option QueryWindow) (tx : String) :
    Option PendingQueryResponse × QuerySubscriptionState :=
  if s.window = window then (none, s)
  else
    computeWindowedResponse
      { s with
        cursorWindow := none, window
        -- The page a client holds is replaced by the whole result.
        sequence := if ¬s.unwindowed ∧ window.isNone then 0 else s.sequence }
      tx ∅ ∅ s.allItems.size true

def applyCursorWindowUpdate (s : QuerySubscriptionState) (window : QueryCursorWindow) (tx : String) :
    Option PendingQueryResponse × QuerySubscriptionState :=
  if s.cursorWindow = some window then (none, s)
  else
    computeWindowedResponse { s with cursorWindow := some window } tx ∅ ∅ s.allItems.size true

/-- Subscribing sends the whole result first. -/
def subscribeQuery (tx : String) (window : Option QueryWindow) (entries : List (String × Item)) :
    Option PendingQueryResponse × QuerySubscriptionState :=
  applySourceDiff ⟨0, window, none, ∅, ∅⟩ (.initial entries) tx

def updateQueryCursorWindow (s : QuerySubscriptionState) (window : QueryCursorWindow) (tx : String) :
    Option PendingQueryResponse × QuerySubscriptionState :=
  match window.validate with
  | .error _ => (none, s)
  | .ok () => applyCursorWindowUpdate { s with window := none } window tx

end QuerySubscriptionState

/-! ### What a page selects -/

/-- The ids of a page, of all ids in order. -/
def QueryWindow.page (window : QueryWindow) (ids : List String) : List String :=
  (ids.drop window.offset).take window.limit

def QueryCursorWindow.page (cursor : QueryCursorWindow) (ids : List String) : List String :=
  match cursor.after, cursor.before with
  | some after, _ => (ids.filter fun id => (compare after id).isLT).take cursor.limit
  | none, some before =>
    let earlier := ids.filter fun id => (compare id before).isLT
    earlier.drop (earlier.length - cursor.limit)
  | none, none => ids.take cursor.limit

namespace QuerySubscriptionState

def selectedIds (s : QuerySubscriptionState) : List String :=
  match s.cursorWindow, s.window with
  | some cursor, _ => cursor.page s.allItems.keys
  | none, some window => window.page s.allItems.keys
  | none, none => s.allItems.keys

/-- The items the subscription selects: the whole result, or a page of it. -/
def selected (s : QuerySubscriptionState) : List Item :=
  s.selectedIds.filterMap fun id => s.allItems[id]?

end QuerySubscriptionState

theorem getRange_eq {ids : List String} {first limit : Nat} (within : first ≤ ids.length) :
    QuerySubscriptionState.getRange ids first (min (first + limit) ids.length) = (ids.drop first).take limit := by
  unfold QuerySubscriptionState.getRange
  rw [if_pos (by omega), List.take_eq_take_iff, List.length_drop]
  omega

/-- What holds of a front of a list only is that front. -/
theorem takeWhile_eq_filter {holds : String → Bool} {ids : List String}
    (front : ids.Pairwise fun id other => holds other = true → holds id = true) :
    ids.takeWhile holds = ids.filter holds ∧
      ids.drop (ids.takeWhile holds).length = ids.filter fun id => !holds id := by
  induction ids with
  | nil => exact ⟨rfl, rfl⟩
  | cons id rest ih =>
    obtain ⟨first, later⟩ := List.pairwise_cons.mp front
    obtain ⟨taken, dropped⟩ := ih later
    cases here : holds id with
    | true => simp [here, taken, ← dropped]
    | false =>
      have none : ∀ other ∈ rest, holds other = false := fun other member =>
        Bool.eq_false_iff.mpr fun held => by simp [first other member held] at here
      have all : rest.filter (fun id => !holds id) = rest :=
        List.filter_eq_self.mpr fun other member => by simp [none other member]
      have nothing : rest.filter holds = [] :=
        List.filter_eq_nil_iff.mpr fun other member => by simp [none other member]
      simp [here, all, nothing]

theorem ordered_keys (m : ItemMap) : m.keys.Pairwise fun id other => compare id other = .lt :=
  Std.ExtTreeMap.ordered_keys

theorem front_lt {ids : List String} (ordered : ids.Pairwise fun id other => compare id other = .lt)
    (before : String) :
    ids.Pairwise fun id other => (compare other before).isLT = true → (compare id before).isLT = true :=
  ordered.imp fun {id other} lt later => by
    rw [Ordering.isLT_iff_eq_lt] at later ⊢
    exact Std.TransCmp.lt_trans lt later

theorem front_le {ids : List String} (ordered : ids.Pairwise fun id other => compare id other = .lt)
    (after : String) :
    ids.Pairwise fun id other => (compare other after).isLE = true → (compare id after).isLE = true :=
  ordered.imp fun {id other} lt later => by
    exact Std.TransCmp.isLE_trans (by rw [lt]; rfl) later

/-- The places a cursor comes to are those of its page. -/
theorem getRange_cursor {ids : List String} (cursor : QueryCursorWindow)
    (ordered : ids.Pairwise fun id other => compare id other = .lt) :
    QuerySubscriptionState.getRange ids (QuerySubscriptionState.cursorRange cursor ids).1
      (QuerySubscriptionState.cursorRange cursor ids).2 = cursor.page ids := by
  unfold QuerySubscriptionState.cursorRange QueryCursorWindow.page
  cases cursor.after with
  | some after =>
    obtain ⟨-, beyond⟩ := takeWhile_eq_filter (front_le ordered after)
    have within : (ids.takeWhile fun id => (compare id after).isLE).length ≤ ids.length :=
      (List.takeWhile_prefix _).length_le
    dsimp only [QuerySubscriptionState.partitionPoint]
    rw [getRange_eq within, beyond]
    congr 1
    refine List.filter_congr fun id _ => ?_
    have swapped : compare after id = (compare id after).swap := Std.OrientedCmp.eq_swap
    rw [swapped]
    cases compare id after <;> rfl
  | none =>
    cases cursor.before with
    | none =>
      have whole : QuerySubscriptionState.getRange ids 0 (min (0 + cursor.limit) ids.length) =
          (ids.drop 0).take cursor.limit := getRange_eq (Nat.zero_le ids.length)
      rw [Nat.zero_add] at whole
      exact whole
    | some before =>
      obtain ⟨earlier, -⟩ := takeWhile_eq_filter (front_lt ordered before)
      have taken : ids.takeWhile _ = ids.take _ := List.prefix_iff_eq_take.mp
        (List.takeWhile_prefix fun id => (compare id before).isLT)
      have within : (ids.takeWhile fun id => (compare id before).isLT).length ≤ ids.length :=
        (List.takeWhile_prefix _).length_le
      dsimp only [QuerySubscriptionState.partitionPoint]
      rw [← earlier, QuerySubscriptionState.getRange, if_pos ⟨Nat.sub_le _ _, within⟩, ← List.drop_take, ← taken]

/-- The places a window or a cursor comes to are those of its page. -/
theorem visibleIds_eq (s : QuerySubscriptionState) : s.visibleIds = s.selectedIds := by
  unfold QuerySubscriptionState.visibleIds QuerySubscriptionState.selectedIds
  have ordered := ordered_keys s.allItems
  cases s.cursorWindow with
  | none =>
    cases s.window with
    | none => rfl
    | some window =>
      show (if window.limit = 0 then [] else _) = window.page s.allItems.keys
      unfold QueryWindow.page
      by_cases zero : window.limit = 0
      · rw [if_pos zero, zero, List.take_zero]
      · rw [if_neg zero, getRange_eq (Nat.min_le_right _ _)]
        rcases Nat.le_total window.offset s.allItems.keys.length with inside | beyond
        · rw [Nat.min_eq_left inside]
        · rw [Nat.min_eq_right beyond, List.drop_length, List.drop_eq_nil_of_le beyond]
  | some cursor => exact getRange_cursor cursor ordered

end Myko.Query

import Myko.Lib.InsertionMap
import Myko.Lib.Walks
import Myko.Query.Replica

/-!
A client that walks the pages of a query by the ids at the ends of the page it holds. Which neighbours a page
has it tells from the page's length, the size of the result and what it asked for last.
-/

namespace Myko.TypeScript.Paging
open Query

/-! ### The client -/

/-- What the scan over the responses of a windowed query keeps. -/
structure WindowedScan where
  cache : InsertionMap String Item
  visibleIds : List String

namespace WindowedScan

/-- An empty id is falsy. -/
def upsert (cache : InsertionMap String Item) (item : Item) : InsertionMap String Item :=
  if item.id = "" then cache else cache.set item.id item

def windowOrder (update : QueryResponse) : Option (List String × Nat) :=
  update.changes.findSome? fun change => match change with
    | .windowOrder ids totalCount _ => some (ids, totalCount)
    | .upsert _ | .delete _ => none

def next (state : WindowedScan) (update : QueryResponse) : WindowedScan :=
  let cache := if update.sequence = 0 then .empty else state.cache
  let cache := update.deletes.foldl InsertionMap.delete cache
  let cache := update.upserts.foldl upsert cache
  ⟨cache, ((windowOrder update).map Prod.fst).getD cache.keys⟩

def results (state : WindowedScan) : List Item := state.visibleIds.filterMap state.cache.get

end WindowedScan

structure QueryCursorPageInfo where
  totalCount : Option Nat
  startCursor : Option String
  endCursor : Option String
  hasPreviousPage : Bool
  hasNextPage : Bool

/-- The client with the responses so far taken in by its rows and by its window info. -/
structure CursorWatch where
  requested : QueryCursorWindow
  state : WindowedScan
  totalCount : Option Nat

namespace CursorWatch

def start (limit : Nat) : CursorWatch := ⟨⟨none, none, limit⟩, ⟨.empty, []⟩, none⟩

def receive (watch : CursorWatch) (update : QueryResponse) : CursorWatch :=
  { watch with
    state := watch.state.next update
    totalCount := update.totalCount.or ((WindowedScan.windowOrder update).map Prod.snd) }

def pageInfo (watch : CursorWatch) : QueryCursorPageInfo :=
  let rows := watch.state.results
  { totalCount := watch.totalCount
    startCursor := rows.head?.map Item.id
    endCursor := rows.getLast?.map Item.id
    hasPreviousPage := watch.requested.before.isSome || watch.requested.after.isSome
    hasNextPage := rows.length = watch.requested.limit &&
      watch.totalCount.all fun totalCount => rows.length < totalCount }

end CursorWatch

/-! ### Walking the pages -/

/-- The subscription on the server and the client of it, between whom no message is on its way. -/
structure PagedQuery where
  tx : String
  server : QuerySubscriptionState
  watch : CursorWatch

namespace PagedQuery

def deliver (σ : PagedQuery) (emitted : Option PendingQueryResponse × QuerySubscriptionState) : PagedQuery :=
  match emitted.1 with
  | none => { σ with server := emitted.2 }
  | some response => { σ with server := emitted.2, watch := σ.watch.receive response.intoWire }

def watchQueryCursor (tx : String) (limit : Nat) (items : List Item) : PagedQuery :=
  deliver ⟨tx, ⟨0, some ⟨0, limit⟩, none, ∅, ∅⟩, .start limit⟩
    (QuerySubscriptionState.subscribeQuery tx (some ⟨0, limit⟩) (decodeMapUpserts items))

def setWindow (σ : PagedQuery) (window : QueryCursorWindow) : PagedQuery :=
  deliver { σ with watch := { σ.watch with requested := window } } (σ.server.updateQueryCursorWindow window σ.tx)

/-- The ids of the rows the client holds. -/
def rowIds (σ : PagedQuery) : List String := σ.watch.state.results.map Item.id

/-- Ask for the page after the one held, if there is said to be one. -/
def nextPage (σ : PagedQuery) : Option PagedQuery :=
  if σ.watch.pageInfo.hasNextPage then
    σ.watch.pageInfo.endCursor.map fun after => σ.setWindow ⟨some after, none, σ.watch.requested.limit⟩
  else none

def previousPage (σ : PagedQuery) : Option PagedQuery :=
  if σ.watch.pageInfo.hasPreviousPage then
    σ.watch.pageInfo.startCursor.map fun before => σ.setWindow ⟨none, some before, σ.watch.requested.limit⟩
  else none

end PagedQuery

open PagedQuery

/-- The result: each item under its id. -/
def resultOf (items : List Item) : ItemMap := OrdMap.insertMany ∅ (decodeMapUpserts items)

/-- The ids of the result, in ascending order. -/
def resultIds (items : List Item) : List String := (resultOf items).keys

/-- Where a client comes by going to the next and the previous page as often as it likes. -/
inductive Reached (tx : String) (limit : Nat) (items : List Item) : PagedQuery → Prop where
  | opened : Reached tx limit items (watchQueryCursor tx limit items)
  | next {σ σ' : PagedQuery} (before : Reached tx limit items σ) (here : σ.nextPage = some σ') :
    Reached tx limit items σ'
  | previous {σ σ' : PagedQuery} (before : Reached tx limit items σ) (here : σ.previousPage = some σ') :
    Reached tx limit items σ'

structure FlagsRight (ids : List String) (info : QueryCursorPageInfo) : Prop where
  next : info.hasNextPage = true ↔
    ∃ cursor, info.endCursor = some cursor ∧ ∃ id ∈ ids, compare cursor id = .lt
  previous : info.hasPreviousPage = true ↔
    ∃ cursor, info.startCursor = some cursor ∧ ∃ id ∈ ids, compare id cursor = .lt

/-- Walking on from the first page, and back from the last, meets every id once, and every page tells which
neighbours it has. -/
structure PagesOnce (tx : String) (limit : Nat) (items : List Item) : Prop where
  forward : ∃ pages, Visited nextPage (watchQueryCursor tx limit items) pages ∧
    (pages.map rowIds).flatten = resultIds items
  backward : ∀ pages last, Visited nextPage (watchQueryCursor tx limit items) pages → pages.getLast? = some last →
    ∃ earlier, Visited previousPage last earlier ∧ (earlier.reverse.map rowIds).flatten = resultIds items
  flags : ∀ σ, Reached tx limit items σ → FlagsRight (resultIds items) σ.watch.pageInfo

/-! ### What a client holds once a response is in -/

/-- The cache holds what the map does, but for an item without an id. -/
def Mirrors (cache : InsertionMap String Item) (m : ItemMap) : Prop :=
  ∀ id, cache.get id = if id = "" then none else m[id]?

section
variable {cache : InsertionMap String Item} {m : ItemMap}

theorem mirrors_empty : Mirrors .empty ∅ := by
  intro id
  simp

theorem Mirrors.delete (mirrors : Mirrors cache m) (ids : List String) :
    Mirrors (ids.foldl InsertionMap.delete cache) (OrdMap.removeMany m ids) := by
  induction ids generalizing cache m with
  | nil => exact mirrors
  | cons first rest ih =>
    refine ih fun id => ?_
    rw [InsertionMap.get_delete, OrdMap.get_erase, mirrors id]
    split
    · simp
    · rfl

theorem Mirrors.upsert (mirrors : Mirrors cache m) (items : List Item) :
    Mirrors (items.foldl WindowedScan.upsert cache) (OrdMap.insertMany m (decodeMapUpserts items)) := by
  induction items generalizing cache m with
  | nil => exact mirrors
  | cons item rest ih =>
    refine ih fun id => ?_
    rw [OrdMap.get_insert]
    unfold WindowedScan.upsert
    by_cases unnamed : item.id = ""
    · rw [if_pos unnamed, mirrors id]
      by_cases empty : id = ""
      · rw [if_pos empty, if_pos empty]
      · rw [if_neg empty, if_neg empty, if_neg fun same => empty (same.trans unnamed)]
    · rw [if_neg unnamed, InsertionMap.get_set, mirrors id]
      by_cases here : id = item.id
      · rw [if_pos here, if_pos here, if_neg (here ▸ unnamed)]
      · rw [if_neg here, if_neg here]

theorem Mirrors.next {state : WindowedScan} (mirrors : Mirrors state.cache m) (update : QueryResponse) :
    Mirrors (state.next update).cache (replayed m update) := by
  unfold WindowedScan.next replayed
  by_cases first : update.sequence = 0
  · simp only [first, ↓reduceIte]
    exact (mirrors_empty.delete _).upsert _
  · simp only [first, ↓reduceIte]
    exact (mirrors.delete _).upsert _

end

/-- The client shows the page it has asked for, of a result that does not change. -/
structure Settled (limit : Nat) (all : ItemMap) (σ : PagedQuery) : Prop where
  items : σ.server.allItems = all
  windowed : σ.server.unwindowed = false
  visible : ∀ id, id ∈ σ.server.visibleItems → id ∈ σ.server.selectedIds
  cursor : ∀ cursor, σ.server.cursorWindow = some cursor → σ.watch.requested = cursor
  selected : σ.server.selectedIds = σ.watch.requested.page all.keys
  shown : σ.watch.state.visibleIds = σ.server.selectedIds
  cached : ∃ m, Mirrors σ.watch.state.cache m ∧ ∀ id ∈ σ.server.selectedIds, m[id]? = all[id]?
  total : σ.watch.totalCount = some all.size
  limit : σ.watch.requested.limit = limit

/-- A response for a page, sent to a client that may hold what stays visible. -/
theorem settled_response {σ : PagedQuery} {s : QuerySubscriptionState} {limit : Nat} {changedIds : OrdSet String}
    {previousTotalCount : Nat} {forceEmit : Bool} {m : ItemMap} (keyed : Keyed s.allItems)
    (windowed : s.unwindowed = false) (sends : forceEmit = true ∨ s.sequence = 0)
    (cursor : ∀ cursor, s.cursorWindow = some cursor → σ.watch.requested = cursor)
    (selected : s.selectedIds = σ.watch.requested.page s.allItems.keys)
    (mirrors : Mirrors σ.watch.state.cache m)
    (known : s.sequence ≠ 0 → ∀ id ∈ s.selectedIds, id ∈ s.visibleItems → id ∉ changedIds →
      m[id]? = s.allItems[id]?)
    (sized : σ.watch.requested.limit = limit) :
    Settled limit s.allItems
      (σ.deliver (s.computeBoundedWindowResponse σ.tx changedIds previousTotalCount forceEmit)) := by
  obtain ⟨after, same, items, window, cursorWindow, visible, sent⟩ :=
    QuerySubscriptionState.bounded_response σ.tx changedIds previousTotalCount forceEmit keyed windowed
  have ids : after.selectedIds = s.selectedIds := Replica.selectedIds_congr items window cursorWindow
  rcases sent with ⟨-, unforced, -, running, -⟩ | ⟨response, some, sent, order, held⟩
  · rcases sends with forced | first
    · exact absurd (forced.symm.trans unforced) (by decide)
    · exact absurd first running
  rw [show s.computeBoundedWindowResponse σ.tx changedIds previousTotalCount forceEmit =
    (Option.some response, after) from Prod.ext some same]
  have ordered : WindowedScan.windowOrder response.intoWire = Option.some (s.selectedIds, response.totalCount) := by
    simp [WindowedScan.windowOrder, PendingQueryResponse.intoWire, order]
  refine ⟨items, (Replica.unwindowed_congr window cursorWindow).trans windowed, ?_, ?_, ?_, ?_, ?_, ?_, sized⟩
  · intro id member
    show id ∈ after.selectedIds
    have stored : id ∈ after.visibleItems := member
    rw [visible] at stored
    rw [ids]
    exact QuerySubscriptionState.mem_nextVisible.mp stored
  · intro cursor' at_cursor
    exact cursor cursor' (cursorWindow ▸ at_cursor)
  · exact ids.trans selected
  · show ((WindowedScan.windowOrder response.intoWire).map Prod.fst).getD _ = after.selectedIds
    rw [ordered, ids]
    rfl
  · refine ⟨_, mirrors.next response.intoWire, fun id selected => ?_⟩
    have member : id ∈ s.selectedIds := ids ▸ selected
    exact Replica.current_of_held known (held _ id) member
  · have total : response.totalCount = s.allItems.size := by rw [sent.total, items]
    exact congrArg Option.some total

theorem keyed_resultOf (items : List Item) : Keyed (resultOf items) := by
  have puts : (MapDiff.initial (decodeMapUpserts items)).AllPuts fun id item => item.id = id := by
    intro entry member
    obtain ⟨item, -, rfl⟩ := List.mem_map.mp member
    rfl
  have tracks := SourceChanges.tracks_apply (.initial (decodeMapUpserts items)) ⟨∅, ∅, false⟩ puts
  have kept := tracks.keyed fun id item found => by simp at found
  rw [SourceChanges.apply_allItems] at kept
  exact kept

theorem settled_opened (tx : String) (limit : Nat) (items : List Item) :
    Settled limit (resultOf items) (watchQueryCursor tx limit items) := by
  have initial := SourceChanges.apply_allItems (.initial (decodeMapUpserts items)) ⟨∅, ∅, false⟩
  have all : (SourceChanges.apply (.initial (decodeMapUpserts items)) ⟨∅, ∅, false⟩).allItems = resultOf items :=
    initial
  unfold watchQueryCursor QuerySubscriptionState.subscribeQuery QuerySubscriptionState.applySourceDiff
  have bounded : QuerySubscriptionState.unwindowed ⟨0, some ⟨0, limit⟩, none, ∅, ∅⟩ = false := rfl
  rw [bounded, if_neg (by decide)]
  dsimp only
  rw [QuerySubscriptionState.computeWindowedResponse_bounded _ _ _ _ _ (by rfl)]
  have first : (SourceChanges.apply (.initial (decodeMapUpserts items)) ⟨∅, ∅, false⟩).isInitial = true :=
    SourceChanges.insertAll_isInitial _ _
  rw [first, all]
  refine settled_response (σ := ⟨tx, ⟨0, some ⟨0, limit⟩, none, ∅, ∅⟩, .start limit⟩)
    (s := ⟨0, some ⟨0, limit⟩, none, resultOf items, ∅⟩) (keyed_resultOf items) rfl (.inr rfl) ?_ ?_ mirrors_empty
    ?_ rfl
  · intro cursor none
    cases none
  · rfl
  · intro running
    exact absurd rfl running

/-- Asking for another page. -/
theorem Settled.setWindow {limit : Nat} {all : ItemMap} {σ : PagedQuery} (settled : Settled limit all σ)
    (keyed : Keyed all) {window : QueryCursorWindow} (valid : window.validate = .ok ())
    (sized : window.limit = limit) : Settled limit all (σ.setWindow window) := by
  unfold PagedQuery.setWindow QuerySubscriptionState.updateQueryCursorWindow
    QuerySubscriptionState.applyCursorWindowUpdate
  rw [valid]
  dsimp only
  by_cases again : σ.server.cursorWindow = some window
  · rw [if_pos again]
    have same := settled.cursor window again
    have ids : QuerySubscriptionState.selectedIds { σ.server with window := none } = σ.server.selectedIds := by
      unfold QuerySubscriptionState.selectedIds
      rw [again]
    have stays : { σ.watch with requested := window } = σ.watch := by rw [← same]
    show Settled limit all ⟨σ.tx, { σ.server with window := none }, { σ.watch with requested := window }⟩
    rw [stays]
    refine ⟨settled.items, ?_, ?_, settled.cursor, ?_, ?_, ?_, settled.total, settled.limit⟩
    · simp [QuerySubscriptionState.unwindowed, again]
    · rw [ids]
      exact settled.visible
    · rw [ids]
      exact settled.selected
    · rw [ids]
      exact settled.shown
    · rw [ids]
      exact settled.cached
  · rw [if_neg again]
    have items := settled.items
    obtain ⟨m, mirrors, held⟩ := settled.cached
    rw [QuerySubscriptionState.computeWindowedResponse_bounded _ _ _ _ _ (by rfl)]
    subst items
    refine settled_response (σ := { σ with watch := { σ.watch with requested := window } })
      (s := { σ.server with window := none, cursorWindow := some window }) keyed rfl (.inl rfl) ?_ rfl mirrors ?_ sized
    · intro cursor at_cursor
      exact Option.some.inj at_cursor
    · intro _ id _ visible _
      exact held id (settled.visible id visible)

/-! ### The pages of a result in order -/

section
variable {front rest : List String} {id : String}

theorem filter_after (ordered : (front ++ id :: rest).Pairwise fun id other => compare id other = .lt) :
    ((front ++ id :: rest).filter fun other => (compare id other).isLT) = rest := by
  obtain ⟨-, later, earlier⟩ := List.pairwise_append.mp ordered
  have after : ∀ other ∈ rest, (compare id other).isLT = true := fun other member => by
    rw [(List.pairwise_cons.mp later).1 other member]
    rfl
  have before : ∀ other ∈ front, ¬(compare id other).isLT = true := fun other member lt => by
    have swapped : compare id other = (compare other id).swap := Std.OrientedCmp.eq_swap
    rw [swapped, earlier other member id List.mem_cons_self] at lt
    cases lt
  have same : compare id id = .eq := Std.ReflCmp.compare_self
  rw [List.filter_append, List.filter_eq_nil_iff.mpr before, List.filter_cons_of_neg (by rw [same]; decide),
    List.filter_eq_self.mpr after]
  rfl

theorem filter_before (ordered : (front ++ id :: rest).Pairwise fun id other => compare id other = .lt) :
    ((front ++ id :: rest).filter fun other => (compare other id).isLT) = front := by
  obtain ⟨-, later, earlier⟩ := List.pairwise_append.mp ordered
  have before : ∀ other ∈ front, (compare other id).isLT = true := fun other member => by
    rw [earlier other member id List.mem_cons_self]
    rfl
  have after : ∀ other ∈ rest, ¬(compare other id).isLT = true := fun other member lt => by
    have swapped : compare other id = (compare id other).swap := Std.OrientedCmp.eq_swap
    rw [swapped, (List.pairwise_cons.mp later).1 other member] at lt
    cases lt
  have same : compare id id = .eq := Std.ReflCmp.compare_self
  rw [List.filter_append, List.filter_eq_self.mpr before, List.filter_cons_of_neg (by rw [same]; decide),
    List.filter_eq_nil_iff.mpr after, List.append_nil]

end

namespace Settled
variable {limit : Nat} {all : ItemMap} {σ σ' : PagedQuery}

/-- The rows are the page asked for, less an empty id. -/
theorem rowIds (settled : Settled limit all σ) (keyed : Keyed all) :
    σ.rowIds = (σ.watch.requested.page all.keys).filter fun id => id ≠ "" := by
  obtain ⟨m, mirrors, held⟩ := settled.cached
  unfold PagedQuery.rowIds WindowedScan.results
  rw [List.map_filterMap, settled.shown, ← settled.selected, ← List.filterMap_eq_filter]
  refine List.filterMap_congr fun id member => ?_
  rw [mirrors id]
  by_cases unnamed : id = ""
  · simp [unnamed, Option.guard]
  · rw [if_neg unnamed, held id member]
    have stored : id ∈ all := settled.items ▸ QuerySubscriptionState.mem_of_selected member
    obtain ⟨item, found⟩ := Option.isSome_iff_exists.mp (Std.ExtTreeMap.mem_iff_isSome_getElem?.mp stored)
    simp [found, keyed id item found, unnamed, Option.guard]

theorem hasNextPage (settled : Settled limit all σ) :
    σ.watch.pageInfo.hasNextPage = true ↔ σ.rowIds.length = limit ∧ limit < all.keys.length := by
  unfold CursorWatch.pageInfo PagedQuery.rowIds
  rw [settled.total, settled.limit, Std.ExtTreeMap.length_keys, List.length_map]
  simp only [Option.all_some, Bool.and_eq_true, decide_eq_true_eq]
  exact ⟨fun ⟨full, more⟩ => ⟨full, full ▸ more⟩, fun ⟨full, more⟩ => ⟨full, full.symm ▸ more⟩⟩

theorem startCursor (σ : PagedQuery) : σ.watch.pageInfo.startCursor = σ.rowIds.head? := List.head?_map.symm

theorem endCursor (σ : PagedQuery) : σ.watch.pageInfo.endCursor = σ.rowIds.getLast? := List.getLast?_map.symm

theorem nextPage (settled : Settled limit all σ) (keyed : Keyed all) (here : σ.nextPage = some σ') :
    Settled limit all σ' := by
  unfold PagedQuery.nextPage at here
  split at here
  · obtain ⟨after, -, rfl⟩ := Option.map_eq_some_iff.mp here
    exact settled.setWindow keyed rfl settled.limit
  · cases here

theorem previousPage (settled : Settled limit all σ) (keyed : Keyed all) (here : σ.previousPage = some σ') :
    Settled limit all σ' := by
  unfold PagedQuery.previousPage at here
  split at here
  · obtain ⟨before, -, rfl⟩ := Option.map_eq_some_iff.mp here
    exact settled.setWindow keyed rfl settled.limit
  · cases here

end Settled

theorem Reached.settled {tx : String} {limit : Nat} {items : List Item} {σ : PagedQuery}
    (reached : Reached tx limit items σ) : Settled limit (resultOf items) σ := by
  induction reached with
  | opened => exact settled_opened tx limit items
  | next _ here ih => exact ih.nextPage (keyed_resultOf items) here
  | previous _ here ih => exact ih.previousPage (keyed_resultOf items) here

section
variable {limit : Nat} {all : ItemMap} {σ : PagedQuery}

theorem Settled.rowIds_named (settled : Settled limit all σ) (keyed : Keyed all) (named : "" ∉ all.keys) :
    σ.rowIds = σ.watch.requested.page all.keys := by
  rw [settled.rowIds keyed, List.filter_eq_self.mpr]
  intro id member
  rw [decide_eq_true_eq]
  rintro rfl
  have sublist := QuerySubscriptionState.cursorPage_sublist σ.watch.requested all.keys
  exact named (sublist.subset member)

theorem setWindow_requested (σ : PagedQuery) (window : QueryCursorWindow) :
    (σ.setWindow window).watch.requested = window := by
  unfold PagedQuery.setWindow PagedQuery.deliver
  dsimp only
  split <;> rfl

/-- The page after a full one that is not all there is. -/
theorem Settled.turn {front beyond : List String} (settled : Settled limit all σ) (keyed : Keyed all)
    (named : "" ∉ all.keys) (positive : 1 ≤ limit) (keys : all.keys = front ++ beyond)
    (rows : σ.rowIds = beyond.take limit) (full : limit ≤ beyond.length) (more : limit < all.keys.length) :
    ∃ σ', σ.nextPage = some σ' ∧ Settled limit all σ' ∧ σ'.rowIds = (beyond.drop limit).take limit ∧
      σ'.watch.requested.after.isSome = true := by
  have length : σ.rowIds.length = limit := by
    rw [rows, List.length_take]
    omega
  obtain ⟨init, after, page⟩ : ∃ init after, beyond.take limit = init ++ [after] := by
    rcases List.eq_nil_or_concat' (beyond.take limit) with none | some
    · rw [rows, none, List.length_nil] at length
      omega
    · exact some
  have cursor : σ.watch.pageInfo.endCursor = some after := by
    rw [Settled.endCursor, rows, page, List.getLast?_concat]
  have here : σ.nextPage = some (σ.setWindow ⟨some after, none, σ.watch.requested.limit⟩) := by
    unfold PagedQuery.nextPage
    rw [if_pos (settled.hasNextPage.mpr ⟨length, more⟩), cursor]
    rfl
  have settled' := settled.nextPage keyed here
  have asked : (σ.setWindow ⟨some after, none, σ.watch.requested.limit⟩).watch.requested =
      ⟨some after, none, limit⟩ := by
    rw [setWindow_requested, settled.limit]
  have split : all.keys = (front ++ init) ++ after :: beyond.drop limit := by
    rw [keys]
    conv_lhs => rw [← List.take_append_drop limit beyond, page]
    simp
  refine ⟨_, here, settled', ?_, by rw [asked]; rfl⟩
  rw [settled'.rowIds_named keyed named, asked, split]
  show List.take limit _ = _
  rw [filter_after (split ▸ ordered_keys all)]

/-- From a page on, the client that goes on as long as there is said to be a next page comes by the rest of
the ids and stops. -/
theorem Settled.walk {front beyond : List String} (settled : Settled limit all σ) (keyed : Keyed all)
    (named : "" ∉ all.keys) (positive : 1 ≤ limit) (keys : all.keys = front ++ beyond)
    (rows : σ.rowIds = beyond.take limit) :
    ∃ pages, Visited PagedQuery.nextPage σ pages ∧ (pages.map PagedQuery.rowIds).flatten = beyond := by
  induction count : beyond.length using Nat.strong_induction_on generalizing front beyond σ with
  | _ n ih =>
    by_cases goes : limit ≤ beyond.length ∧ limit < all.keys.length
    · obtain ⟨σ', here, settled', rows', -⟩ := settled.turn keyed named positive keys rows goes.1 goes.2
      have keys' : all.keys = (front ++ beyond.take limit) ++ beyond.drop limit := by
        rw [keys, List.append_assoc, List.take_append_drop]
      have shorter : (beyond.drop limit).length < n := by
        rw [List.length_drop]
        omega
      obtain ⟨pages, visited, received⟩ := ih _ shorter settled' keys' rows' rfl
      refine ⟨σ :: pages, .step here visited, ?_⟩
      rw [List.map_cons, List.flatten_cons, received, rows, List.take_append_drop]
    · have last : σ.nextPage = none := by
        unfold PagedQuery.nextPage
        rw [if_neg]
        rw [settled.hasNextPage, rows, List.length_take]
        omega
      have all_taken : beyond.length ≤ limit := by
        have total : all.keys.length = front.length + beyond.length := by rw [keys, List.length_append]
        omega
      refine ⟨[σ], .stop last, ?_⟩
      simp [rows, List.take_of_length_le all_taken]

end

theorem opened_requested (tx : String) (limit : Nat) (items : List Item) :
    (watchQueryCursor tx limit items).watch.requested = ⟨none, none, limit⟩ := by
  unfold watchQueryCursor PagedQuery.deliver
  dsimp only
  split <;> rfl

/-- The rows of the first page. -/
theorem opened_rowIds (tx : String) (limit : Nat) {items : List Item} (named : "" ∉ resultIds items) :
    (watchQueryCursor tx limit items).rowIds = (resultIds items).take limit := by
  rw [(settled_opened tx limit items).rowIds_named (keyed_resultOf items) named]
  rw [opened_requested]
  rfl

/-- Going forward meets every id once and ends, whatever the size of a page. -/
theorem forward_receives (tx : String) {limit : Nat} {items : List Item} (positive : 1 ≤ limit)
    (named : "" ∉ resultIds items) :
    ∃ pages, Visited nextPage (watchQueryCursor tx limit items) pages ∧
      (pages.map rowIds).flatten = resultIds items :=
  (settled_opened tx limit items).walk (keyed_resultOf items) named positive (List.nil_append _).symm
    (opened_rowIds tx limit named)

/-! ### Which results are paged right -/

section
variable {tx : String} {limit : Nat} {items : List Item}

/-- A result that fits the first page. -/
theorem pagesOnce_of_fits (positive : 1 ≤ limit) (fits : (resultIds items).length ≤ limit)
    (named : "" ∉ resultIds items) : PagesOnce tx limit items := by
  have opened := settled_opened tx limit items
  have rows : (watchQueryCursor tx limit items).rowIds = resultIds items := by
    rw [opened_rowIds tx limit named, List.take_of_length_le fits]
  have noNext : (watchQueryCursor tx limit items).watch.pageInfo.hasNextPage = false := by
    refine Bool.eq_false_iff.mpr fun next => ?_
    obtain ⟨-, more⟩ := opened.hasNextPage.mp next
    exact absurd fits (Nat.not_le.mpr more)
  have noPrevious : (watchQueryCursor tx limit items).watch.pageInfo.hasPreviousPage = false := by
    show (_ || _) = false
    rw [opened_requested]
    rfl
  have last : (watchQueryCursor tx limit items).nextPage = none := by
    unfold PagedQuery.nextPage
    rw [noNext]
    rfl
  have first : (watchQueryCursor tx limit items).previousPage = none := by
    unfold PagedQuery.previousPage
    rw [noPrevious]
    rfl
  have only : ∀ σ, Reached tx limit items σ → σ = watchQueryCursor tx limit items := by
    intro σ reached
    induction reached with
    | opened => rfl
    | next _ here ih =>
      subst ih
      rw [last] at here
      cases here
    | previous _ here ih =>
      subst ih
      rw [first] at here
      cases here
  refine ⟨forward_receives tx positive named, fun pages page visited at_last => ?_, fun σ reached => ?_⟩
  · have here : page = watchQueryCursor tx limit items := by
      cases visited with
      | stop _ => exact (Option.some.inj at_last).symm
      | step here _ =>
        rw [last] at here
        cases here
    subst here
    exact ⟨_, .stop first, by simp [rows]⟩
  · obtain rfl := only σ reached
    have ordered : (resultIds items).Pairwise fun id other => compare id other = .lt := ordered_keys _
    refine ⟨iff_of_false (by rw [noNext]; decide) ?_, iff_of_false (by rw [noPrevious]; decide) ?_⟩
    · rintro ⟨cursor, at_end, id, member, beyond⟩
      rw [Settled.endCursor, rows] at at_end
      obtain ⟨front, split⟩ := List.getLast?_eq_some_iff.mp at_end
      rw [split] at ordered member
      have none := filter_after ordered
      rw [List.filter_eq_nil_iff] at none
      exact none id member (by rw [beyond]; rfl)
    · rintro ⟨cursor, at_start, id, member, earlier⟩
      rw [Settled.startCursor, rows] at at_start
      obtain ⟨rest, split⟩ := List.head?_eq_some_iff.mp at_start
      rw [split] at ordered member
      have none := @filter_before [] _ _ ordered
      rw [List.nil_append, List.filter_eq_nil_iff] at none
      exact none id member (by rw [earlier]; rfl)

/-- Where there is a second page, the first is said to have one before it once the client has come back to it. -/
theorem not_pagesOnce_of_longer (positive : 1 ≤ limit) (longer : limit < (resultIds items).length)
    (named : "" ∉ resultIds items) : ¬PagesOnce tx limit items := by
  rintro ⟨-, -, flags⟩
  have keyed := keyed_resultOf items
  have ordered : (resultIds items).Pairwise fun id other => compare id other = .lt := ordered_keys _
  obtain ⟨σ, here, settled, rows, after⟩ := (settled_opened tx limit items).turn keyed named positive
    (List.nil_append _).symm (opened_rowIds tx limit named) (Nat.le_of_lt longer) longer
  obtain ⟨before, rest, split⟩ : ∃ before rest, (resultIds items).drop limit = before :: rest := by
    refine List.exists_cons_of_ne_nil fun none => ?_
    have short := List.drop_eq_nil_iff.mp none
    omega
  have length : ((resultIds items).take limit).length = limit := List.length_take_of_le (Nat.le_of_lt longer)
  have keys : resultIds items = (resultIds items).take limit ++ before :: rest := by
    rw [← split, List.take_append_drop]
  have start : σ.watch.pageInfo.startCursor = some before := by
    rw [Settled.startCursor, rows, List.head?_take, if_neg (by omega)]
    show ((resultIds items).drop limit).head? = _
    rw [split]
    rfl
  have back : σ.previousPage = some (σ.setWindow ⟨none, some before, σ.watch.requested.limit⟩) := by
    have previous : σ.watch.pageInfo.hasPreviousPage = true := by
      show (_ || _) = true
      rw [after, Bool.or_true]
    unfold PagedQuery.previousPage
    rw [previous, start]
    rfl
  have settled' := settled.previousPage keyed back
  have asked : (σ.setWindow ⟨none, some before, σ.watch.requested.limit⟩).watch.requested =
      ⟨none, some before, limit⟩ := by
    rw [setWindow_requested, settled.limit]
  have rows' : (σ.setWindow ⟨none, some before, σ.watch.requested.limit⟩).rowIds = (resultIds items).take limit := by
    rw [settled'.rowIds_named keyed named, asked]
    have earlier : ((resultIds items).filter fun id => (compare id before).isLT) = (resultIds items).take limit := by
      rw [keys] at ordered
      conv_lhs => rw [keys]
      exact filter_before ordered
    show List.drop (List.length (List.filter _ (resultIds items)) - limit) (List.filter _ (resultIds items)) = _
    rw [earlier, length, Nat.sub_self, List.drop_zero]
  have right := flags _ (.previous (.next .opened here) back)
  obtain ⟨cursor, at_start, id, member, earlier⟩ := right.previous.mp (by
    show (_ || _) = true
    rw [asked]
    rfl)
  rw [Settled.startCursor, rows', List.head?_take, if_neg (by omega)] at at_start
  obtain ⟨later, all⟩ := List.head?_eq_some_iff.mp at_start
  rw [all] at ordered member
  have none := @filter_before [] _ _ ordered
  rw [List.nil_append, List.filter_eq_nil_iff] at none
  exact none id member (by rw [earlier]; rfl)

/-- A row without an id is never received. -/
theorem not_pagesOnce_of_unnamed (unnamed : "" ∈ resultIds items) : ¬PagesOnce tx limit items := by
  rintro ⟨⟨pages, visited, received⟩, -, -⟩
  have keyed := keyed_resultOf items
  have settled := visited.invariant (settled_opened tx limit items) fun σ σ' settled here =>
    settled.nextPage keyed here
  rw [← received] at unnamed
  obtain ⟨page, listed, member⟩ := List.mem_flatten.mp unnamed
  obtain ⟨σ, visited, rfl⟩ := List.mem_map.mp listed
  rw [(settled σ visited).rowIds keyed] at member
  obtain ⟨-, some⟩ := List.mem_filter.mp member
  exact absurd some (by decide)

/-- Paging is right for the results that are one page. -/
theorem pagesOnce_iff (positive : 1 ≤ limit) :
    PagesOnce tx limit items ↔ (resultIds items).length ≤ limit ∧ "" ∉ resultIds items := by
  constructor
  · intro once
    have named : "" ∉ resultIds items := fun unnamed => not_pagesOnce_of_unnamed unnamed once
    exact ⟨Nat.not_lt.mp fun longer => not_pagesOnce_of_longer positive longer named once, named⟩
  · rintro ⟨fits, named⟩
    exact pagesOnce_of_fits positive fits named

theorem pagesOnce_one_page : PagesOnce "q" 2 [⟨"Scene", "b", []⟩, ⟨"Scene", "a", []⟩] :=
  (pagesOnce_iff (by decide)).mpr (by decide +kernel)

/-- Two scenes, one to a page: back on the first, the client is told of a page before it. -/
theorem pages_told_wrong : ¬PagesOnce "q" 1 [⟨"Scene", "a", []⟩, ⟨"Scene", "b", []⟩] :=
  not_pagesOnce_of_longer (by decide) (by decide +kernel) (by decide +kernel)

end

end Myko.TypeScript.Paging

import Myko.Graph.Window
import Myko.Session.LastWindow

/-!
A page of a reactive map. A diff that cannot change the page is skipped; the page is the one selected last all
the same.
-/

namespace Myko.Query

open Session

/-- The orders in which a hash map lists its entries. -/
structure Listing where
  entries : ItemMap → List (String × Item)
  perm : ∀ map, (entries map).Perm map.toList

mutual
def affectsPage (visible : List (String × Item)) : ItemDiff → Bool
  | .initial _ | .insert _ _ | .remove _ _ => true
  | .update key _ _ => visible.any fun entry => entry.1 == key
  | .batch changes => anyAffectsPage visible changes

def anyAffectsPage (visible : List (String × Item)) : List ItemDiff → Bool
  | [] => false
  | change :: rest => affectsPage visible change || anyAffectsPage visible rest
end

/-- `entries.get(first..last).unwrap_or_default()` -/
def slice (entries : List (String × Item)) (first last : Nat) : List (String × Item) :=
  if first ≤ last ∧ last ≤ entries.length then (entries.drop first).take (last - first) else []

def sortEntries (entries : List (String × Item)) : List (String × Item) :=
  entries.mergeSort fun left right => (compare left.1 right.1).isLE

def snapshot (entries : List (String × Item)) (selection : WindowSelection) : WindowedQuerySnapshot :=
  let totalCount := entries.length
  let entries := sortEntries entries
  match selection with
  | .offset none => ⟨entries, totalCount, none⟩
  | .offset (some window) =>
    let start := min window.offset entries.length
    ⟨slice entries start (min (start + window.limit) entries.length), totalCount, some window⟩
  | .cursor cursor =>
    let range := QuerySubscriptionState.cursorRange cursor (entries.map Prod.fst)
    ⟨slice entries range.1 range.2, totalCount, none⟩

/-- A source made by `from_map`, with the map it is made from. -/
structure MapWindow where
  map : ItemMap
  selection : WindowSelection
  snapshots : WindowedQuerySnapshot

inductive MapWindowEvent where
  | diff (diff : ItemDiff)
  | setWindow (next : Option QueryWindow)
  | setCursorWindow (next : QueryCursorWindow)

namespace MapWindow

variable (self : MapWindow) (listing : Listing)

def applyDiff (diff : ItemDiff) : MapWindow :=
  let map := diff.apply self.map
  if !affectsPage self.snapshots.entries diff then { self with map }
  else
    let entries :=
      match diff with
      | .initial entries => entries
      | .insert _ _ | .update _ _ _ | .remove _ _ | .batch _ => listing.entries map
    { self with map, snapshots := snapshot entries self.selection }

def select (next : WindowSelection) : MapWindow :=
  if self.selection = next then self
  else { self with selection := next, snapshots := snapshot (listing.entries self.map) next }

def setWindow (next : Option QueryWindow) : MapWindow := self.select listing (.offset next)

def setCursorWindow (next : QueryCursorWindow) : MapWindow :=
  match next.validate with
  | .error _ => self
  | .ok () => self.select listing (.cursor next)

/-- The map says what is in it when it is subscribed to. -/
def fromMap (map : ItemMap) (initialWindow : QueryWindow) : MapWindow :=
  applyDiff ⟨map, .offset (some initialWindow), ⟨[], 0, some initialWindow⟩⟩ listing (.initial (listing.entries map))

/-- An event, with the order in which the map lists its entries then. -/
def step (self : MapWindow) (event : MapWindowEvent × Listing) : MapWindow :=
  match event.1 with
  | .diff diff => self.applyDiff event.2 diff
  | .setWindow next => self.setWindow event.2 next
  | .setCursorWindow next => self.setCursorWindow event.2 next

end MapWindow

namespace MapWindowEvent

/-- What the event asks for, when it is valid. -/
def asks : MapWindowEvent → Option WindowSelection
  | diff _ => none
  | setWindow next => some (.offset next)
  | setCursorWindow next =>
    match next.validate with
    | .error _ => none
    | .ok () => some (.cursor next)

def change (map : ItemMap) : MapWindowEvent → ItemMap
  | diff change => change.apply map
  | setWindow _ | setCursorWindow _ => map

end MapWindowEvent

/-- The source map after the events. -/
def sourceAfter (map : ItemMap) (events : List (MapWindowEvent × Listing)) : ItemMap :=
  events.foldl (fun map event => event.1.change map) map

/-- The last valid selection. -/
def selectionAfter (selection : WindowSelection) (events : List (MapWindowEvent × Listing)) : WindowSelection :=
  events.foldl (fun selection event => event.1.asks.getD selection) selection

/-- The diffs are those of the source map. -/
def AllDiffsTrue (map : ItemMap) : List (MapWindowEvent × Listing) → Prop
  | [] => True
  | (.diff diff, _) :: rest => diff.TrueOf map ∧ AllDiffsTrue (diff.apply map) rest
  | (.setWindow _, _) :: rest | (.setCursorWindow _, _) :: rest => AllDiffsTrue map rest

def entriesAt (map : ItemMap) (ids : List String) : List (String × Item) :=
  ids.filterMap fun id => (map[id]?).map fun item => (id, item)

/-- The page of the ids in order, with what the map holds under them and how many ids there are. -/
def pageOf (map : ItemMap) (selection : WindowSelection) : WindowedQuerySnapshot where
  entries := entriesAt map (selection.page map.keys)
  totalCount := map.size
  window :=
    match selection with
    | .offset window => window
    | .cursor _ => none

/-! ### A snapshot is the page -/

theorem eq_of_isLE {id other : String} (le : (compare id other).isLE = true) (ge : (compare other id).isLE = true) :
    id = other := by
  have swapped : compare other id = (compare id other).swap := Std.OrientedCmp.eq_swap
  rw [swapped] at ge
  cases order : compare id other with
  | eq => exact Std.LawfulEqCmp.compare_eq_iff_eq.mp order
  | lt => simp [order] at ge
  | gt => simp [order] at le

theorem sortEntries_eq {map : ItemMap} {entries : List (String × Item)} (perm : entries.Perm map.toList) :
    sortEntries entries = map.toList := by
  have trans (a b c : String × Item) (first : (compare a.1 b.1).isLE = true) (second : (compare b.1 c.1).isLE = true) :
      (compare a.1 c.1).isLE = true := Std.TransCmp.isLE_trans first second
  have total (a b : String × Item) : ((compare a.1 b.1).isLE || (compare b.1 a.1).isLE) = true := by
    have swapped : compare b.1 a.1 = (compare a.1 b.1).swap := Std.OrientedCmp.eq_swap
    rw [swapped]
    cases compare a.1 b.1 <;> rfl
  have sorted := List.pairwise_mergeSort trans total entries
  have ascending : map.toList.Pairwise fun left right => (compare left.1 right.1).isLE = true :=
    Std.ExtTreeMap.ordered_keys_toList.imp fun lt => by rw [lt]; rfl
  have perm := (List.mergeSort_perm entries fun left right => (compare left.1 right.1).isLE).trans perm
  refine List.Perm.eq_of_pairwise (fun a b listed other le ge => ?_) sorted ascending perm
  exact List.inj_on_of_nodup_map (OrdMap.nodup_keys map) (perm.mem_iff.mp listed) other (eq_of_isLE le ge)

/-- Entries listed with their own ids are those that the map holds under the ids. -/
theorem entriesAt_eq {map : ItemMap} {entries : List (String × Item)} (listed : ∀ entry ∈ entries, entry ∈ map.toList) :
    entriesAt map (entries.map Prod.fst) = entries := by
  unfold entriesAt
  induction entries with
  | nil => rfl
  | cons entry rest ih =>
    have found := OrdMap.mem_toList.mp (listed entry List.mem_cons_self)
    rw [List.map_cons, List.filterMap_cons, found, ih fun other member => listed other (List.mem_cons_of_mem _ member)]
    rfl

theorem slice_subset (entries : List (String × Item)) (first last : Nat) : slice entries first last ⊆ entries := by
  unfold slice
  split
  · exact List.Subset.trans (List.take_subset _ _) (List.drop_subset _ _)
  · exact List.nil_subset _

theorem map_slice (entries : List (String × Item)) (first last : Nat) :
    (slice entries first last).map Prod.fst = QuerySubscriptionState.getRange (entries.map Prod.fst) first last := by
  unfold slice QuerySubscriptionState.getRange
  rw [List.length_map]
  split
  · rw [List.map_take, List.map_drop]
  · rfl

theorem slice_toList (map : ItemMap) (first last : Nat) :
    slice map.toList first last = entriesAt map (QuerySubscriptionState.getRange map.keys first last) := by
  have listed := entriesAt_eq fun entry member => slice_subset map.toList first last member
  rw [map_slice, Std.ExtTreeMap.map_fst_toList_eq_keys] at listed
  exact listed.symm

theorem getRange_window (window : QueryWindow) (ids : List String) :
    QuerySubscriptionState.getRange ids (min window.offset ids.length)
      (min (min window.offset ids.length + window.limit) ids.length) = window.page ids := by
  rw [getRange_eq (Nat.min_le_right _ _), QueryWindow.page]
  rcases Nat.le_total window.offset ids.length with inside | beyond
  · rw [Nat.min_eq_left inside]
  · rw [Nat.min_eq_right beyond, List.drop_length, List.drop_eq_nil_of_le beyond]

/-- However the map lists its entries. -/
theorem snapshot_eq {map : ItemMap} {entries : List (String × Item)} (perm : entries.Perm map.toList)
    (selection : WindowSelection) : snapshot entries selection = pageOf map selection := by
  have keys : map.toList.map Prod.fst = map.keys := Std.ExtTreeMap.map_fst_toList_eq_keys
  have length : map.toList.length = map.keys.length := by rw [← keys, List.length_map]
  have total : entries.length = map.size := perm.length_eq.trans Std.ExtTreeMap.length_toList
  unfold snapshot pageOf
  rw [sortEntries_eq perm, total]
  cases selection with
  | offset window =>
    cases window with
    | none =>
      have listed := entriesAt_eq fun (entry : String × Item) (member : entry ∈ map.toList) => member
      rw [keys] at listed
      exact congrArg (fun entries => WindowedQuerySnapshot.mk entries map.size none) listed.symm
    | some window =>
      dsimp only [WindowSelection.page]
      rw [slice_toList, length, getRange_window]
  | cursor cursor =>
    dsimp only [WindowSelection.page]
    rw [slice_toList, keys, getRange_cursor cursor (ordered_keys map)]

/-! ### What a skipped diff leaves alone -/

/-- The maps have the same ids, and the same items under the visible ones. -/
structure SamePage (visible : List (String × Item)) (map map' : ItemMap) : Prop where
  ids : ∀ id : String, (map'[id]?).isSome = (map[id]?).isSome
  shown : ∀ entry ∈ visible, map'[entry.1]? = map[entry.1]?

theorem SamePage.refl (visible : List (String × Item)) (map : ItemMap) : SamePage visible map map :=
  ⟨fun _ => rfl, fun _ _ => rfl⟩

theorem SamePage.trans {visible : List (String × Item)} {map middle map' : ItemMap}
    (first : SamePage visible map middle) (second : SamePage visible middle map') : SamePage visible map map' :=
  ⟨fun id => (second.ids id).trans (first.ids id),
    fun entry member => (second.shown entry member).trans (first.shown entry member)⟩

mutual
theorem samePage_of_skipped {visible : List (String × Item)} : ∀ (diff : ItemDiff) (map : ItemMap),
    affectsPage visible diff = false → diff.TrueOf map → SamePage visible map (diff.apply map)
  | .initial _, _, skipped, _ => by cases skipped
  | .insert _ _, _, skipped, _ => by cases skipped
  | .remove _ _, _, skipped, _ => by cases skipped
  | .update key old new, map, skipped, trueOld => by
    have stored : map[key]? = some old := trueOld
    have off_page : ∀ entry ∈ visible, entry.1 ≠ key := by simpa [affectsPage] using skipped
    refine ⟨fun id => ?_, fun entry member => ?_⟩
    · rw [MapDiff.apply, OrdMap.get_insert]
      by_cases here : id = key
      · rw [if_pos here, here, stored]
        rfl
      · rw [if_neg here]
    · rw [MapDiff.apply, OrdMap.get_insert, if_neg (off_page entry member)]
  | .batch changes, map, skipped, trueOld => samePage_of_all_skipped changes map skipped trueOld

theorem samePage_of_all_skipped {visible : List (String × Item)} : ∀ (changes : List ItemDiff) (map : ItemMap),
    anyAffectsPage visible changes = false → MapDiff.AllTrueOf changes map →
    SamePage visible map (MapDiff.applyAll changes map)
  | [], map, _, _ => SamePage.refl visible map
  | change :: rest, map, skipped, trueOld => by
    have both : affectsPage visible change = false ∧ anyAffectsPage visible rest = false := by
      simpa [anyAffectsPage] using skipped
    have one := samePage_of_skipped change map both.1 trueOld.1
    exact one.trans (samePage_of_all_skipped rest _ both.2 trueOld.2)
end

theorem keys_eq_of_ids {map map' : ItemMap} (ids : ∀ id : String, (map'[id]?).isSome = (map[id]?).isSome) :
    map'.keys = map.keys := by
  have mem (m : ItemMap) (id : String) : id ∈ m.keys ↔ (m[id]?).isSome := by
    rw [Std.ExtTreeMap.mem_keys, Std.ExtTreeMap.mem_iff_isSome_getElem?]
  refine List.Perm.eq_of_pairwise (fun id other _ _ lt gt => ?_) (ordered_keys map') (ordered_keys map) ?_
  · have swapped : compare other id = (compare id other).swap := Std.OrientedCmp.eq_swap
    rw [swapped, lt] at gt
    cases gt
  · rw [List.perm_ext_iff_of_nodup Std.ExtTreeMap.nodup_keys Std.ExtTreeMap.nodup_keys]
    intro id
    rw [mem, mem, ids]

/-- The page itself is what decides whether a diff is skipped. -/
theorem pageOf_eq_of_samePage {map map' : ItemMap} {selection : WindowSelection}
    (same : SamePage (pageOf map selection).entries map map') : pageOf map' selection = pageOf map selection := by
  have keys := keys_eq_of_ids same.ids
  have size : map'.size = map.size := by
    rw [← Std.ExtTreeMap.length_keys, keys, Std.ExtTreeMap.length_keys]
  unfold pageOf
  rw [keys, size]
  congr 1
  refine List.filterMap_congr fun id selected => ?_
  cases stored : map[id]? with
  | none =>
    have gone := same.ids id
    rw [stored] at gone
    have absent : map'[id]? = none := Option.isNone_iff_eq_none.mp (by rw [← Option.not_isSome, gone]; rfl)
    rw [absent]
  | some item =>
    have shown := same.shown (id, item) (List.mem_filterMap.mpr ⟨id, selected, by rw [stored]; rfl⟩)
    rw [shown, stored]

/-! ### After every event -/

theorem initial_perm {entries : List (String × Item)} (nodup : (entries.map Prod.fst).Nodup) (map : ItemMap) :
    entries.Perm ((MapDiff.initial entries).apply map).toList := by
  rw [List.perm_ext_iff_of_nodup (List.Nodup.of_map _ nodup) (List.Nodup.of_map _ (OrdMap.nodup_keys _))]
  rintro ⟨id, item⟩
  rw [OrdMap.mem_toList]
  exact (OrdMap.get_insertMany nodup id item).symm

namespace MapWindow

/-- The snapshot is the page selected last, of the map as it is. -/
def Current (self : MapWindow) : Prop := self.snapshots = pageOf self.map self.selection

variable {self : MapWindow}

theorem snapshot_listing (listing : Listing) (map : ItemMap) (selection : WindowSelection) :
    snapshot (listing.entries map) selection = pageOf map selection :=
  snapshot_eq (listing.perm map) selection

theorem map_applyDiff (listing : Listing) (diff : ItemDiff) : (self.applyDiff listing diff).map = diff.apply self.map := by
  unfold applyDiff
  dsimp only
  split <;> rfl

theorem selection_applyDiff (listing : Listing) (diff : ItemDiff) :
    (self.applyDiff listing diff).selection = self.selection := by
  unfold applyDiff
  dsimp only
  split <;> rfl

theorem current_of_affected {listing : Listing} {diff : ItemDiff} (affects : affectsPage self.snapshots.entries diff = true)
    (trueOld : diff.TrueOf self.map) : (self.applyDiff listing diff).Current := by
  unfold Current applyDiff
  dsimp only
  rw [if_neg (by simp [affects])]
  cases diff with
  | initial entries => exact snapshot_eq (initial_perm trueOld self.map) self.selection
  | insert key value => exact snapshot_listing listing _ self.selection
  | remove key old => exact snapshot_listing listing _ self.selection
  | update key old new => exact snapshot_listing listing _ self.selection
  | batch changes => exact snapshot_listing listing _ self.selection

theorem Current.applyDiff (current : self.Current) (listing : Listing) {diff : ItemDiff}
    (trueOld : diff.TrueOf self.map) : (self.applyDiff listing diff).Current := by
  cases affects : affectsPage self.snapshots.entries diff with
  | true => exact current_of_affected affects trueOld
  | false =>
    have skipped : self.applyDiff listing diff = { self with map := diff.apply self.map } := by
      unfold MapWindow.applyDiff
      dsimp only
      rw [if_pos (by simp [affects])]
    rw [skipped]
    have same := samePage_of_skipped diff self.map affects trueOld
    rw [current] at same
    exact current.trans (pageOf_eq_of_samePage same).symm

theorem Current.select (current : self.Current) (listing : Listing) (next : WindowSelection) :
    (self.select listing next).Current ∧ (self.select listing next).map = self.map ∧
      (self.select listing next).selection = next := by
  unfold MapWindow.select
  split
  · next same => exact ⟨current, rfl, same⟩
  · exact ⟨snapshot_listing listing self.map next, rfl, rfl⟩

theorem current_fromMap (listing : Listing) (map : ItemMap) (initialWindow : QueryWindow) :
    (fromMap listing map initialWindow).Current := by
  refine current_of_affected rfl ?_
  show ((listing.entries map).map Prod.fst).Nodup
  exact ((listing.perm map).map Prod.fst).nodup_iff.mpr (OrdMap.nodup_keys map)

theorem map_fromMap (listing : Listing) (map : ItemMap) (initialWindow : QueryWindow) :
    (fromMap listing map initialWindow).map = map := by
  rw [fromMap, map_applyDiff]
  refine OrdMap.ext fun id => Option.ext fun item => ?_
  have nodup : ((listing.entries map).map Prod.fst).Nodup :=
    ((listing.perm map).map Prod.fst).nodup_iff.mpr (OrdMap.nodup_keys map)
  show (OrdMap.insertMany ∅ (listing.entries map))[id]? = some item ↔ map[id]? = some item
  rw [OrdMap.get_insertMany nodup, (listing.perm map).mem_iff, OrdMap.mem_toList]

/-- One event: the snapshot stays that of the page selected last. -/
theorem Current.step (current : self.Current) {event : MapWindowEvent × Listing}
    (trueOld : ∀ diff, event.1 = .diff diff → diff.TrueOf self.map) :
    (self.step event).Current ∧ (self.step event).map = event.1.change self.map ∧
      (self.step event).selection = event.1.asks.getD self.selection := by
  obtain ⟨event, listing⟩ := event
  cases event with
  | diff diff =>
    exact ⟨current.applyDiff listing (trueOld diff rfl), map_applyDiff listing diff, selection_applyDiff listing diff⟩
  | setWindow next => exact current.select listing (.offset next)
  | setCursorWindow next =>
    unfold MapWindow.step MapWindow.setCursorWindow MapWindowEvent.asks
    dsimp only
    cases next.validate with
    | error message => exact ⟨current, rfl, rfl⟩
    | ok _ => exact current.select listing (.cursor next)

theorem current_run : ∀ {events : List (MapWindowEvent × Listing)} {self : MapWindow}, self.Current →
    AllDiffsTrue self.map events → (events.foldl MapWindow.step self).Current ∧
      (events.foldl MapWindow.step self).map = sourceAfter self.map events ∧
        (events.foldl MapWindow.step self).selection = selectionAfter self.selection events := by
  intro events
  induction events with
  | nil => exact fun current _ => ⟨current, rfl, rfl⟩
  | cons event rest ih =>
    intro self current allTrue
    have one : (∀ diff, event.1 = .diff diff → diff.TrueOf self.map) ∧ AllDiffsTrue (event.1.change self.map) rest := by
      obtain ⟨event, listing⟩ := event
      cases event with
      | diff diff =>
        refine ⟨fun other same => ?_, allTrue.2⟩
        cases same
        exact allTrue.1
      | setWindow next => exact ⟨fun _ same => (by cases same), allTrue⟩
      | setCursorWindow next => exact ⟨fun _ same => (by cases same), allTrue⟩
    obtain ⟨now, map, selection⟩ := current.step one.1
    rw [List.foldl_cons]
    have later := ih now (map ▸ one.2)
    rwa [map, selection] at later

end MapWindow

/-- After every event the snapshot is the page selected last, of the source as it is. -/
theorem windowed_source_current (listing : Listing) (map : ItemMap) (initialWindow : QueryWindow)
    {events : List (MapWindowEvent × Listing)} (diffs : AllDiffsTrue map events) :
    (events.foldl MapWindow.step (MapWindow.fromMap listing map initialWindow)).snapshots =
      pageOf (sourceAfter map events) (selectionAfter (.offset (some initialWindow)) events) := by
  have start := MapWindow.map_fromMap listing map initialWindow
  have selected : (MapWindow.fromMap listing map initialWindow).selection = .offset (some initialWindow) :=
    MapWindow.selection_applyDiff _ _
  obtain ⟨current, source, selection⟩ :=
    MapWindow.current_run (MapWindow.current_fromMap listing map initialWindow) (start.symm ▸ diffs)
  rw [start] at source
  rw [selected] at selection
  rw [← source, ← selection]
  exact current

namespace MapWindow.Sample

def ascending : Listing := ⟨Std.ExtTreeMap.toList, fun _ => List.Perm.refl _⟩

def target (id name : String) : Item := ⟨"Target", id, [("name", .text name)]⟩

def targets : ItemMap := OrdMap.insertMany ∅ [("a", target "a" "one"), ("b", target "b" "two"), ("c", target "c" "three")]

/-- An update off the page, which is skipped, a removal that brings the item onto the page, and a cursor. -/
def events : List (MapWindowEvent × Listing) :=
  [(.diff (.update "c" (target "c" "three") (target "c" "four")), ascending),
    (.diff (.remove "a" (target "a" "one")), ascending), (.setCursorWindow ⟨some "b", none, 1⟩, ascending)]

end MapWindow.Sample

open MapWindow.Sample in
theorem windowed_source_current_sample :
    (events.foldl MapWindow.step (MapWindow.fromMap ascending targets ⟨0, 2⟩)).snapshots =
        pageOf (sourceAfter targets events) (selectionAfter (.offset (some ⟨0, 2⟩)) events) ∧
      (pageOf (sourceAfter targets events) (selectionAfter (.offset (some ⟨0, 2⟩)) events)).entries =
        [("c", target "c" "four")] := by
  refine ⟨windowed_source_current ascending targets ⟨0, 2⟩ ⟨?_, ?_, trivial⟩, by decide +kernel⟩
  · show targets["c"]? = _
    decide +kernel
  · show (targets.insert "c" (target "c" "four"))["a"]? = _
    decide +kernel

end Myko.Query

import Myko.Graph.Scan
import Myko.Lib.Merge
import Myko.Query.Replica

/-!
Windows on the edges of one end: the page of a bucket, the page of several buckets merged, and the live source that
keeps a page. Each is the slice that the window defines of the ids in order.
-/

namespace Myko
open Query

inductive GraphWindowSelection where
  | offset (window : Option QueryWindow)
  | cursor (window : QueryCursorWindow)
  deriving DecidableEq

def GraphWindowSelection.offsetWindow : GraphWindowSelection → Option QueryWindow
  | .offset window => window
  | .cursor _ => none

structure WindowedQuerySnapshot where
  entries : List (String × Item)
  totalCount : Nat
  window : Option QueryWindow

namespace EdgeIds

/-- Without a window there is no limit, no set of ids being that long. -/
def window (self : EdgeIds) : Option QueryWindow → List String
  | none => self.ids
  | some window =>
    if window.limit = 0 then []
    else
      match self with
      | one id => if window.offset = 0 then [id] else []
      | many ids => (ids.toList.drop window.offset).take window.limit

def cursorWindow (self : EdgeIds) (window : QueryCursorWindow) : List String :=
  if window.limit = 0 then []
  else
    match self with
    | one id =>
      if (window.after.all fun after => after < id) ∧ (window.before.all fun before => id < before) then [id] else []
    | many ids =>
      match window.after, window.before with
      | none, none => ids.toList.take window.limit
      | none, some before => (((ids.toList.filter fun id => id < before).reverse).take window.limit).reverse
      | some after, _ => (ids.toList.filter fun id => after < id).take window.limit

end EdgeIds

/-- What the merge of several buckets has counted and kept. -/
structure PageMerge where
  totalCount : Nat
  selected : List String
  beforeSelected : List String

/-- There is room for one more. -/
def roomFor (limit : Option Nat) (selected : List String) : Bool := limit.all fun limit => selected.length < limit

namespace GraphWindowSelection

/-- One more id, that was not the last one. -/
def visit (selection : GraphWindowSelection) (page : PageMerge) (id : String) : PageMerge :=
  let page :=
    match selection with
    | .offset window =>
      let offset := (window.map QueryWindow.offset).getD 0
      if page.totalCount ≥ offset ∧ roomFor (window.map QueryWindow.limit) page.selected then
        { page with selected := page.selected ++ [id] }
      else page
    | .cursor window =>
      match window.before with
      | some before =>
        if window.limit > 0 ∧ id < before then
          let kept := if page.beforeSelected.length = window.limit then page.beforeSelected.tail
            else page.beforeSelected
          { page with beforeSelected := kept ++ [id] }
        else page
      | none =>
        if (window.after.all fun after => after < id) ∧ page.selected.length < window.limit then
          { page with selected := page.selected ++ [id] }
        else page
  { page with totalCount := page.totalCount + 1 }

def finish (selection : GraphWindowSelection) (page : PageMerge) : List String :=
  match selection with
  | .offset _ => page.selected
  | .cursor window => if window.before.isSome then page.beforeSelected else page.selected

end GraphWindowSelection

namespace GraphView

variable (view : GraphView)

/-- The snapshot of the selected ids that are still stored. -/
def snapshotOf (registration : EdgeRegistration) (selected : List String) (totalCount : Nat)
    (selection : GraphWindowSelection) : WindowedQuerySnapshot where
  entries := selected.filterMap fun id =>
    (view.registry.getValue registration.edgeType id).map fun item => (id, item)
  totalCount
  window := selection.offsetWindow

def windowSnapshotAt (registration : EdgeRegistration) (position : EndPosition) (endpoint : EndpointValue)
    (selection : GraphWindowSelection) : WindowedQuerySnapshot :=
  let ids := bucketAt (view.state.edgeTypes registration.edgeType) position endpoint
  let selected := match ids, selection with
    | none, _ => []
    | some ids, .offset window => ids.window window
    | some ids, .cursor window => ids.cursorWindow window
  view.snapshotOf registration selected (match ids with
    | none => 0
    | some ids => ids.len) selection

/-- The endpoints stand in the order in which the set of them is gone through. -/
def windowSnapshotManyAt (registration : EdgeRegistration) (position : EndPosition) (endpoints : List EndpointValue)
    (selection : GraphWindowSelection) : Option WindowedQuerySnapshot := do
  let buckets := endpoints.filterMap fun endpoint =>
    (bucketAt (view.state.edgeTypes registration.edgeType) position endpoint).map EdgeIds.ids
  let page ← (Merge.start buckets).run selection.visit (buckets.map List.length).sum ⟨0, [], []⟩
  return view.snapshotOf registration (selection.finish page) page.totalCount selection

end GraphView

/-! ### The live source -/

/-- One endpoint, or several of one end. -/
inductive WindowEnds where
  | at (endpoint : EndpointValue)
  | manyAt (endpoints : List EndpointValue)

namespace WindowEnds

def matchesEndpoints (ends : WindowEnds) (position : EndPosition) (endpoints : EdgeEndpoints) : Bool :=
  match ends with
  | .at endpoint => endpoints.at position = endpoint
  | .manyAt selected => endpoints.at position ∈ selected

def routes (ends : WindowEnds) (edgeType : String) (position : EndPosition) : List GraphWatchRoute :=
  match ends with
  | .at endpoint => [.endpoint edgeType position endpoint]
  | .manyAt endpoints => endpoints.map (.endpoint edgeType position)

end WindowEnds

def GraphView.selectWindow (view : GraphView) (registration : EdgeRegistration) (position : EndPosition)
    (ends : WindowEnds) (selection : GraphWindowSelection) : Option WindowedQuerySnapshot :=
  match ends with
  | .at endpoint => some (view.windowSnapshotAt registration position endpoint selection)
  | .manyAt endpoints => view.windowSnapshotManyAt registration position endpoints selection

structure WindowedQuerySource where
  registration : EdgeRegistration
  position : EndPosition
  ends : WindowEnds
  selection : GraphWindowSelection
  snapshot : WindowedQuerySnapshot

/-- A window on an end that is not kept is not offered. -/
def GraphView.watchWindow (view : GraphView) (registration : EdgeRegistration) (position : EndPosition)
    (ends : WindowEnds) (window : QueryWindow) : Option WindowedQuerySource :=
  if view.schema.projectsEndpoint registration.edgeType position then do
    let snapshot ← view.selectWindow registration position ends (.offset (some window))
    return { registration, position, ends, selection := .offset (some window), snapshot }
  else none

mutual
def watchDiffAffectsWindow (matching : Item → Bool) (visible : List (String × Item)) : GraphWatchDiff → Bool
  | .initial _ => true
  | .insert _ value => matching value
  | .remove _ oldValue => matching oldValue
  | .update key oldValue newValue =>
    match matching oldValue, matching newValue with
    | false, false => false
    | true, false => true
    | false, true => true
    | true, true => visible.any fun entry => entry.1 = key
  | .batch changes => watchDiffsAffectWindow matching visible changes

def watchDiffsAffectWindow (matching : Item → Bool) (visible : List (String × Item)) : List GraphWatchDiff → Bool
  | [] => false
  | change :: rest => watchDiffAffectsWindow matching visible change || watchDiffsAffectWindow matching visible rest
end

namespace WindowedQuerySource

variable (source : WindowedQuerySource)

def matching (item : Item) : Bool :=
  itemMatches source.registration (source.ends.matchesEndpoints source.position) item

def routes : List GraphWatchRoute := source.ends.routes source.registration.edgeType source.position

def select (view : GraphView) (selection : GraphWindowSelection) : Option WindowedQuerySource := do
  let snapshot ← view.selectWindow source.registration source.position source.ends selection
  return { source with selection, snapshot }

def setWindow (view : GraphView) (next : Option QueryWindow) : Option WindowedQuerySource :=
  if source.selection = .offset next then some source else source.select view (.offset next)

def setCursorWindow (view : GraphView) (next : QueryCursorWindow) : Option WindowedQuerySource :=
  match next.validate with
  | .error _ => some source
  | .ok () => if source.selection = .cursor next then some source else source.select view (.cursor next)

/-- What the callback of the source does with a diff, the graph being as it is after the change. -/
def receive (after : GraphView) (diff : GraphWatchDiff) : Option WindowedQuerySource :=
  if watchDiffAffectsWindow source.matching source.snapshot.entries diff then source.select after source.selection
  else some source

/-- A diff is routed to the source or passes it by. -/
def publishDiff (after : GraphView) (diff : GraphWatchDiff) : Except String (Option WindowedQuerySource) := do
  let routes ← watchRoutesForDiff after.schema diff
  return if source.routes.any fun route => route ∈ routes then source.receive after diff else some source

def publish (after : GraphView) (changes : List (Option Item × Option Item)) :
    Except String (Option WindowedQuerySource) :=
  match changes.filterMap fun change => watchDiffFromChange after.schema change.1 change.2 with
  | [] => pure (some source)
  | [diff] => source.publishDiff after diff
  | diffs => source.publishDiff after (.batch diffs)

end WindowedQuerySource

/-- A source from its opening on: the window is moved, and the canonical changes of edges are published. -/
inductive Live (registration : EdgeRegistration) (position : EndPosition) (ends : WindowEnds) :
    GraphView → WindowedQuerySource → Prop where
  | opened {view : GraphView} {window : QueryWindow} {source : WindowedQuerySource}
    (coherent : view.state.Coherent view.schema view.registry)
    (registered : registration ∈ view.schema.registrations)
    (opened : view.watchWindow registration position ends window = some source) :
    Live registration position ends view source
  | window {view : GraphView} {source after : WindowedQuerySource} {next : Option QueryWindow}
    (live : Live registration position ends view source)
    (moved : source.setWindow view next = some after) : Live registration position ends view after
  | cursor {view : GraphView} {source after : WindowedQuerySource} {next : QueryCursorWindow}
    (live : Live registration position ends view source)
    (moved : source.setCursorWindow view next = some after) : Live registration position ends view after
  | told {view next : GraphView} {source after : WindowedQuerySource} {changes : List Change}
    (live : Live registration position ends view source) (schema : next.schema = view.schema)
    (written : next.registry = view.registry.writeAll changes)
    (coherent : next.state.Coherent next.schema next.registry)
    (published : source.publish next ((changes.filter fun change =>
      (view.schema.registration change.item.entityType).isSome).map fun change =>
        (view.registry.canonicalItem change.item, change.value)) = .ok (some after)) :
    Live registration position ends next after

/-! ### The slice that a window defines -/

namespace GraphWindowSelection

def page (selection : GraphWindowSelection) (ids : List String) : List String :=
  match selection with
  | .offset none => ids
  | .offset (some window) => window.page ids
  | .cursor window => window.page ids

/-- A cursor goes one way. -/
def Valid : GraphWindowSelection → Prop
  | .offset _ => True
  | .cursor window => window.validate = .ok ()

theorem sublist_page (selection : GraphWindowSelection) (ids : List String) : (selection.page ids).Sublist ids := by
  cases selection with
  | offset window =>
    cases window with
    | none => exact List.Sublist.refl ids
    | some window => exact QuerySubscriptionState.page_sublist window ids
  | cursor window => exact QuerySubscriptionState.cursorPage_sublist window ids

end GraphWindowSelection

theorem isLT_compare (id other : String) : (compare id other).isLT = decide (id < other) := by
  rw [Bool.eq_iff_iff, Ordering.isLT_iff_eq_lt, compare_lt_iff_lt, decide_eq_true_eq]

theorem EdgeIds.window_eq (self : EdgeIds) (window : Option QueryWindow) :
    self.window window = (GraphWindowSelection.offset window).page self.ids := by
  unfold EdgeIds.window GraphWindowSelection.page
  cases window with
  | none => rfl
  | some window =>
    dsimp only
    unfold QueryWindow.page
    split
    · rename_i zero
      rw [zero, List.take_zero]
    · rename_i positive
      cases self with
      | many ids => rfl
      | one id =>
        dsimp only [EdgeIds.ids]
        split
        · rename_i first
          rw [first, List.drop_zero]
          exact (List.take_of_length_le (Nat.pos_of_ne_zero positive)).symm
        · rename_i later
          rw [List.drop_eq_nil_of_le (Nat.pos_of_ne_zero later), List.take_nil]

theorem EdgeIds.cursorWindow_eq (self : EdgeIds) {window : QueryCursorWindow} (valid : window.validate = .ok ()) :
    self.cursorWindow window = (GraphWindowSelection.cursor window).page self.ids := by
  obtain ⟨after, before, limit⟩ := window
  have one_way : after = none ∨ before = none := by
    cases after <;> cases before <;> simp_all [QueryCursorWindow.validate]
  unfold EdgeIds.cursorWindow GraphWindowSelection.page QueryCursorWindow.page
  simp only [isLT_compare]
  by_cases zero : limit = 0
  · subst zero
    cases after <;> cases before <;> simp
  rw [if_neg zero]
  have positive : 1 ≤ limit := Nat.pos_of_ne_zero zero
  cases self with
  | one id =>
    cases after with
    | none =>
      cases before with
      | none => exact (List.take_of_length_le (l := [id]) positive).symm
      | some before =>
        dsimp only [EdgeIds.ids, Option.all]
        rw [List.filter_singleton]
        by_cases earlier : id < before
        · rw [if_pos ⟨rfl, decide_eq_true earlier⟩, decide_eq_true earlier, cond_true, List.length_singleton,
            Nat.sub_eq_zero_of_le positive]
          rfl
        · rw [if_neg fun both => earlier (of_decide_eq_true both.2), decide_eq_false earlier, cond_false,
            List.drop_nil]
    | some after =>
      obtain rfl : before = none := one_way.resolve_left (Option.some_ne_none after)
      dsimp only [EdgeIds.ids, Option.all]
      rw [List.filter_singleton]
      by_cases later : after < id
      · rw [if_pos ⟨decide_eq_true later, rfl⟩, decide_eq_true later, cond_true,
          List.take_of_length_le (l := [id]) positive]
      · rw [if_neg fun both => later (of_decide_eq_true both.1), decide_eq_false later, cond_false, List.take_nil]
  | many ids =>
    cases after with
    | none =>
      cases before with
      | none => rfl
      | some before =>
        dsimp only [EdgeIds.ids]
        rw [List.take_reverse, List.reverse_reverse]
    | some after => rfl

theorem take_concat (ids : List String) (id : String) (limit : Nat) :
    (ids ++ [id]).take limit =
      if (ids.take limit).length < limit then ids.take limit ++ [id] else ids.take limit := by
  rw [List.length_take]
  split
  · rename_i room
    have short : ids.length < limit := by omega
    rw [List.take_of_length_le (Nat.le_of_lt short), List.take_of_length_le]
    rw [List.length_append, List.length_singleton]
    exact short
  · rename_i full
    exact List.take_append_of_le_length (by omega)

/-- Of one id more the last ones, where the first gives way when there is no room. -/
theorem last_concat (ids : List String) (id : String) {limit : Nat} (positive : 0 < limit) :
    (ids ++ [id]).drop ((ids ++ [id]).length - limit) =
      (if (ids.drop (ids.length - limit)).length = limit then (ids.drop (ids.length - limit)).tail
        else ids.drop (ids.length - limit)) ++ [id] := by
  rw [List.length_append, List.length_singleton, List.length_drop]
  rw [List.drop_append_of_le_length (by omega)]
  congr 1
  split
  · rename_i full
    rw [List.tail_drop]
    congr 1
    omega
  · rename_i room
    congr 1
    omega

/-- What has been kept of the ids visited. -/
def GraphWindowSelection.kept (selection : GraphWindowSelection) (ids : List String) : PageMerge :=
  match selection with
  | .offset none => ⟨ids.length, ids, []⟩
  | .offset (some window) => ⟨ids.length, (ids.drop window.offset).take window.limit, []⟩
  | .cursor window =>
    match window.before with
    | some before =>
      let earlier := ids.filter fun id => id < before
      ⟨ids.length, [], earlier.drop (earlier.length - window.limit)⟩
    | none => ⟨ids.length, (ids.filter fun id => window.after.all fun after => after < id).take window.limit, []⟩

theorem foldl_visit (selection : GraphWindowSelection) (ids : List String) :
    ids.foldl selection.visit ⟨0, [], []⟩ = selection.kept ids := by
  induction ids using List.reverseRecOn with
  | nil =>
    cases selection with
    | offset window => cases window <;> simp [GraphWindowSelection.kept]
    | cursor window =>
      obtain ⟨after, before, limit⟩ := window
      cases before <;> simp [GraphWindowSelection.kept]
  | append_singleton ids id ih =>
    rw [List.foldl_append, ih, List.foldl_cons, List.foldl_nil]
    have longer : (ids ++ [id]).length = ids.length + 1 := by simp
    cases selection with
    | offset window =>
      cases window with
      | none =>
        unfold GraphWindowSelection.visit GraphWindowSelection.kept roomFor
        simp
      | some window =>
        unfold GraphWindowSelection.visit GraphWindowSelection.kept roomFor
        dsimp only [Option.map, Option.getD, Option.all]
        rw [longer]
        by_cases inside : window.offset ≤ ids.length
        · rw [List.drop_append_of_le_length inside, take_concat]
          by_cases room : ((ids.drop window.offset).take window.limit).length < window.limit
          · rw [if_pos ⟨inside, decide_eq_true room⟩, if_pos room]
          · rw [if_neg fun both => room (of_decide_eq_true both.2), if_neg room]
        · rw [if_neg fun both => inside both.1, List.drop_eq_nil_of_le (by omega),
            List.drop_eq_nil_of_le (by omega)]
    | cursor window =>
      obtain ⟨after, before, limit⟩ := window
      unfold GraphWindowSelection.visit GraphWindowSelection.kept
      cases before with
      | none =>
        dsimp only
        rw [longer, List.filter_append, List.filter_singleton]
        by_cases later : (after.all fun after => decide (after < id)) = true
        · rw [later, cond_true, take_concat]
          by_cases room : ((ids.filter fun id => after.all fun after => after < id).take limit).length < limit
          · rw [if_pos ⟨rfl, room⟩, if_pos room]
          · rw [if_neg fun both => room both.2, if_neg room]
        · rw [if_neg fun both => later both.1, Bool.not_eq_true _ |>.mp later, cond_false, List.append_nil]
      | some before =>
        dsimp only
        rw [longer, List.filter_append, List.filter_singleton]
        by_cases earlier : id < before
        · rw [decide_eq_true earlier, cond_true]
          by_cases positive : 0 < limit
          · rw [if_pos ⟨positive, earlier⟩, last_concat _ id positive]
          · rw [if_neg fun both => positive both.1, List.drop_eq_nil_of_le (by omega),
              List.drop_eq_nil_of_le (by omega)]
        · rw [if_neg fun both => earlier both.2, decide_eq_false earlier, cond_false, List.append_nil]

/-- The page that a merge keeps is that of the ids it has visited. -/
theorem finish_kept {selection : GraphWindowSelection} (valid : selection.Valid) (ids : List String) :
    (selection.kept ids).totalCount = ids.length ∧ selection.finish (selection.kept ids) = selection.page ids := by
  cases selection with
  | offset window => cases window <;> exact ⟨rfl, rfl⟩
  | cursor window =>
    obtain ⟨after, before, limit⟩ := window
    have one_way : after = none ∨ before = none := by
      cases after <;> cases before <;> simp_all [GraphWindowSelection.Valid, QueryCursorWindow.validate]
    unfold GraphWindowSelection.finish GraphWindowSelection.kept GraphWindowSelection.page QueryCursorWindow.page
    simp only [isLT_compare]
    cases before with
    | some before =>
      obtain rfl : after = none := one_way.resolve_right (Option.some_ne_none before)
      exact ⟨rfl, rfl⟩
    | none =>
      refine ⟨rfl, ?_⟩
      cases after with
      | none =>
        dsimp only [Option.all]
        rw [List.filter_true]
        rfl
      | some after => rfl

/-- The snapshot is the page that the window defines of the ids of the matching edges in order. -/
structure IsSlice (view : GraphView) (registration : EdgeRegistration) (matching : EdgeEndpoints → Bool)
    (selection : GraphWindowSelection) (ids : List String) (snapshot : WindowedQuerySnapshot) : Prop where
  ascending : ids.Pairwise (· < ·)
  members : ∀ id, id ∈ ids ↔ ∃ edge, registration.storedEdges view.registry id = some edge ∧
    matching edge.endpoints = true
  page : snapshot.entries.map Prod.fst = selection.page ids
  stored : ∀ entry ∈ snapshot.entries, view.registry.getValue registration.edgeType entry.1 = some entry.2
  totalCount : snapshot.totalCount = ids.length
  window : snapshot.window = selection.offsetWindow

section
variable {view : GraphView} {registration : EdgeRegistration}

/-- A snapshot of ids that are all stored holds just their items. -/
theorem entries_snapshotOf {selected : List String} (totalCount : Nat) (selection : GraphWindowSelection)
    (known : ∀ id ∈ selected, ∃ item, view.registry.getValue registration.edgeType id = some item) :
    (view.snapshotOf registration selected totalCount selection).entries.map Prod.fst = selected ∧
      ∀ entry ∈ (view.snapshotOf registration selected totalCount selection).entries,
        view.registry.getValue registration.edgeType entry.1 = some entry.2 := by
  refine ⟨?_, fun entry among => ?_⟩
  · unfold GraphView.snapshotOf
    dsimp only
    induction selected with
    | nil => rfl
    | cons id rest ih =>
      obtain ⟨item, value⟩ := known id List.mem_cons_self
      have later := ih fun other among => known other (List.mem_cons_of_mem id among)
      rw [List.filterMap_cons, value, Option.map_some]
      dsimp only
      rw [List.map_cons, later]
  · unfold GraphView.snapshotOf at among
    obtain ⟨id, -, found⟩ := List.mem_filterMap.mp among
    obtain ⟨item, value, rfl⟩ := Option.map_eq_some_iff.mp found
    exact value

theorem isSlice_snapshotOf {matching : EdgeEndpoints → Bool} {ids : List String} (ascending : ids.Pairwise (· < ·))
    (members : ∀ id, id ∈ ids ↔ ∃ edge, registration.storedEdges view.registry id = some edge ∧
      matching edge.endpoints = true) (selection : GraphWindowSelection) :
    IsSlice view registration matching selection ids
      (view.snapshotOf registration (selection.page ids) ids.length selection) := by
  have known : ∀ id ∈ selection.page ids, ∃ item, view.registry.getValue registration.edgeType id = some item := by
    intro id among
    obtain ⟨edge, stored, -⟩ := (members id).mp ((selection.sublist_page ids).subset among)
    cases value : view.registry.getValue registration.edgeType id with
    | some item => exact ⟨item, rfl⟩
    | none =>
      rw [EdgeRegistration.storedEdges, value] at stored
      cases stored
  obtain ⟨page, stored⟩ := entries_snapshotOf ids.length selection known
  exact ⟨ascending, members, page, stored, rfl, rfl⟩

theorem ascending_bucketIds (bucket : Option EdgeIds) : (bucketIds bucket).Pairwise (· < ·) := by
  have ordered : ∀ ids : OrdSet String, ids.toList.Pairwise (· < ·) := fun ids =>
    (Std.ExtTreeSet.ordered_toList (t := ids)).imp fun less => compare_lt_iff_lt.mp less
  cases bucket with
  | none => exact List.Pairwise.nil
  | some ids =>
    cases ids with
    | one id => exact List.pairwise_singleton _ _
    | many ids => exact ordered ids

variable (coherent : view.state.Coherent view.schema view.registry)
  (registered : registration ∈ view.schema.registrations) {position : EndPosition}
  (kept : view.schema.projectsEndpoint registration.edgeType position = true) {selection : GraphWindowSelection}
  (valid : selection.Valid)
include coherent registered kept valid

theorem isSlice_at (endpoint : EndpointValue) : ∃ ids,
    IsSlice view registration ((WindowEnds.at endpoint).matchesEndpoints position) selection ids
      (view.windowSnapshotAt registration position endpoint selection) := by
  have members : ∀ id,
      id ∈ bucketIds (GraphView.bucketAt (view.state.edgeTypes registration.edgeType) position endpoint) ↔
        ∃ edge, registration.storedEdges view.registry id = some edge ∧
          (WindowEnds.at endpoint).matchesEndpoints position edge.endpoints = true := by
    intro id
    rw [mem_bucketAt coherent registered position kept]
    exact exists_congr fun edge => and_congr_right fun _ => decide_eq_true_iff.symm
  refine ⟨bucketIds (GraphView.bucketAt (view.state.edgeTypes registration.edgeType) position endpoint), ?_⟩
  have slice := isSlice_snapshotOf (ascending_bucketIds _) members selection
  unfold GraphView.windowSnapshotAt
  generalize GraphView.bucketAt (view.state.edgeTypes registration.edgeType) position endpoint = bucket at slice ⊢
  have length := length_bucketIds bucket
  cases bucket with
  | none =>
    have nothing : selection.page [] = [] := List.sublist_nil.mp (selection.sublist_page [])
    dsimp only [bucketIds] at slice ⊢
    rw [nothing] at slice
    exact slice
  | some ids =>
    dsimp only [bucketIds] at slice length ⊢
    rw [length] at slice
    cases selection with
    | offset window =>
      dsimp only
      rw [EdgeIds.window_eq]
      exact slice
    | cursor window =>
      dsimp only
      rw [EdgeIds.cursorWindow_eq ids valid]
      exact slice

theorem isSlice_manyAt (endpoints : List EndpointValue) : ∃ ids snapshot,
    view.windowSnapshotManyAt registration position endpoints selection = some snapshot ∧
      IsSlice view registration ((WindowEnds.manyAt endpoints).matchesEndpoints position) selection ids snapshot := by
  have ascending : ∀ bucket ∈ endpoints.filterMap fun endpoint =>
      (GraphView.bucketAt (view.state.edgeTypes registration.edgeType) position endpoint).map EdgeIds.ids,
      bucket.Pairwise (· < ·) := by
    intro bucket among
    obtain ⟨endpoint, -, found⟩ := List.mem_filterMap.mp among
    obtain ⟨ids, -, rfl⟩ := Option.map_eq_some_iff.mp found
    exact ascending_bucketIds (some ids)
  obtain ⟨ids, ordered, union, runs⟩ := Merge.run_start (σ := PageMerge) ascending
  have members : ∀ id, id ∈ ids ↔ ∃ edge, registration.storedEdges view.registry id = some edge ∧
      (WindowEnds.manyAt endpoints).matchesEndpoints position edge.endpoints = true := by
    intro id
    rw [union]
    constructor
    · rintro ⟨bucket, among, within⟩
      obtain ⟨endpoint, selected, found⟩ := List.mem_filterMap.mp among
      obtain ⟨listed, here, rfl⟩ := Option.map_eq_some_iff.mp found
      have held := @mem_bucketAt _ _ coherent registered position endpoint id kept
      rw [here] at held
      obtain ⟨edge, stored, rfl⟩ := held.mp within
      exact ⟨edge, stored, decide_eq_true selected⟩
    · rintro ⟨edge, stored, selected⟩
      have held := (mem_bucketAt coherent registered position kept).mpr ⟨edge, stored, rfl⟩
      cases here : GraphView.bucketAt (view.state.edgeTypes registration.edgeType) position
          (edge.endpoints.at position) with
      | none =>
        rw [here] at held
        cases held
      | some listed =>
        rw [here] at held
        refine ⟨listed.ids, List.mem_filterMap.mpr ⟨_, of_decide_eq_true selected, ?_⟩, held⟩
        rw [here]
        rfl
  obtain ⟨total, page⟩ := finish_kept valid ids
  refine ⟨ids, _, ?_, isSlice_snapshotOf ordered members selection⟩
  unfold GraphView.windowSnapshotManyAt
  dsimp only
  rw [runs, foldl_visit, Option.bind_eq_bind, Option.bind_some, total, page]
  rfl

/-- Either kind of ends is given the slice. -/
theorem isSlice_selectWindow (ends : WindowEnds) : ∃ ids snapshot,
    view.selectWindow registration position ends selection = some snapshot ∧
      IsSlice view registration (ends.matchesEndpoints position) selection ids snapshot := by
  cases ends with
  | «at» endpoint =>
    obtain ⟨ids, slice⟩ := isSlice_at coherent registered kept valid endpoint
    exact ⟨ids, _, rfl, slice⟩
  | manyAt endpoints => exact isSlice_manyAt coherent registered kept valid endpoints

end

/-- Ids in order are told by which they are. -/
theorem ascending_unique {ids others : List String} (ascending : ids.Pairwise (· < ·))
    (ascending' : others.Pairwise (· < ·)) (same : ∀ id, id ∈ ids ↔ id ∈ others) : ids = others := by
  refine List.Perm.eq_of_pairwise (fun _ _ _ _ less more => absurd more (lt_asymm less)) ascending ascending' ?_
  exact (List.perm_ext_iff_of_nodup (ascending.imp ne_of_lt) (ascending'.imp ne_of_lt)).mpr same

/-- Entries that all hold what is looked up under their keys are told by their keys. -/
theorem entries_eq {look : String → Option Item} {entries others : List (String × Item)}
    (keys : entries.map Prod.fst = others.map Prod.fst) (held : ∀ entry ∈ entries, look entry.1 = some entry.2)
    (held' : ∀ entry ∈ others, look entry.1 = some entry.2) : entries = others := by
  induction entries generalizing others with
  | nil => exact (List.map_eq_nil_iff.mp keys.symm).symm
  | cons entry entries ih =>
    cases others with
    | nil => cases keys
    | cons other others =>
      obtain ⟨first, rest⟩ := List.cons.inj keys
      have found := held entry List.mem_cons_self
      have found' := held' other List.mem_cons_self
      have value : some entry.2 = some other.2 := by rw [← found, ← found', first]
      rw [Prod.ext first (Option.some.inj value), ih rest (fun entry among => held entry (List.mem_cons_of_mem _ among))
        fun entry among => held' entry (List.mem_cons_of_mem _ among)]

/-- Two slices of the same edges by one window are the same snapshot, if the items on the page are. -/
theorem IsSlice.unique {view after : GraphView} {registration : EdgeRegistration} {matching : EdgeEndpoints → Bool}
    {selection : GraphWindowSelection} {ids ids' : List String} {snapshot snapshot' : WindowedQuerySnapshot}
    (slice : IsSlice view registration matching selection ids snapshot)
    (slice' : IsSlice after registration matching selection ids' snapshot')
    (same : ∀ id, (∃ edge, registration.storedEdges after.registry id = some edge ∧ matching edge.endpoints = true) ↔
      ∃ edge, registration.storedEdges view.registry id = some edge ∧ matching edge.endpoints = true)
    (visible : ∀ entry ∈ snapshot.entries, after.registry.getValue registration.edgeType entry.1 = some entry.2) :
    snapshot' = snapshot := by
  have listed : ids' = ids := ascending_unique slice'.ascending slice.ascending fun id => by
    rw [slice'.members, slice.members, same]
  subst listed
  have entries : snapshot'.entries = snapshot.entries :=
    entries_eq (slice'.page.trans slice.page.symm) slice'.stored visible
  obtain ⟨entries', total', window'⟩ := snapshot'
  obtain ⟨_, total, window⟩ := snapshot
  cases entries
  cases slice'.totalCount.trans slice.totalCount.symm
  cases slice'.window.trans slice.window.symm
  rfl

/-! ### The live source keeps the slice -/

theorem mem_routes {ends : WindowEnds} {edgeType : String} {position : EndPosition} {endpoints : EdgeEndpoints}
    (hit : ends.matchesEndpoints position endpoints = true) :
    .endpoint edgeType position (endpoints.at position) ∈ ends.routes edgeType position := by
  cases ends with
  | «at» endpoint =>
    rw [of_decide_eq_true hit]
    exact List.mem_singleton_self _
  | manyAt selected => exact List.mem_map_of_mem (of_decide_eq_true hit)

/-- A matching item is routed to the source. -/
theorem routed_of_matching {source : WindowedQuerySource} {schema : GraphSchema}
    (registered : source.registration ∈ schema.registrations) {item : Item} (hit : source.matching item = true)
    {routes : List GraphWatchRoute} (told : watchRoutesForRegistered schema item = .ok routes) :
    ∃ route ∈ source.routes, route ∈ routes := by
  unfold WindowedQuerySource.matching itemMatches at hit
  cases extracted : source.registration.extract item with
  | error error =>
    rw [extracted] at hit
    cases hit
  | ok endpoints =>
    rw [extracted] at hit
    have typed := source.registration.typed item endpoints extracted
    refine ⟨_, mem_routes hit, ?_⟩
    unfold watchRoutesForRegistered at told
    rw [typed, GraphSchema.registration_of_mem registered] at told
    dsimp only at told
    unfold watchRoutesForItem at told
    rw [extracted] at told
    cases told
    cases source.position <;> simp [EdgeEndpoints.at]

/-- A change that the page may show is routed where every matching item is. -/
theorem routed_of_affects {schema : GraphSchema} {matching : Item → Bool} {mine : List GraphWatchRoute}
    (routed : ∀ {item}, matching item = true → ∀ {routes}, watchRoutesForRegistered schema item = .ok routes →
      ∃ route ∈ mine, route ∈ routes)
    {visible : List (String × Item)} {old new : Option Item} {diff : GraphWatchDiff}
    (change : watchDiffFromChange schema old new = some diff)
    (affects : watchDiffAffectsWindow matching visible diff = true)
    {routes : List GraphWatchRoute} (told : watchRoutesForDiff schema diff = .ok routes) :
    ∃ route ∈ mine, route ∈ routes := by
  unfold watchDiffFromChange at change
  cases of : new.or old with
  | none =>
    rw [of] at change
    cases change
  | some item =>
    rw [of] at change
    dsimp only at change
    split at change
    · cases change
    · cases old with
      | none =>
        cases new with
        | none => cases change
        | some value =>
          cases change
          unfold watchDiffAffectsWindow at affects
          unfold watchRoutesForDiff at told
          exact routed affects told
      | some oldValue =>
        cases new with
        | none =>
          cases change
          unfold watchDiffAffectsWindow at affects
          unfold watchRoutesForDiff at told
          exact routed affects told
        | some newValue =>
          cases change
          unfold watchRoutesForDiff at told
          obtain ⟨before, first, told⟩ := StateError.except_bind_ok told
          obtain ⟨now, second, told⟩ := StateError.except_bind_ok told
          cases told
          unfold watchDiffAffectsWindow at affects
          cases hit : matching oldValue with
          | true =>
            obtain ⟨route, own, among⟩ := routed hit first
            exact ⟨route, own, List.mem_append_left _ among⟩
          | false =>
            cases hit' : matching newValue with
            | true =>
              obtain ⟨route, own, among⟩ := routed hit' second
              exact ⟨route, own, List.mem_append_right _ among⟩
            | false =>
              rw [hit, hit'] at affects
              cases affects

/-- One of several diffs is routed where all of them are. -/
theorem routed_of_among {schema : GraphSchema} {diffs : List GraphWatchDiff} {diff : GraphWatchDiff}
    (among : diff ∈ diffs) {routes : List GraphWatchRoute} (told : watchRoutesForDiffs schema diffs = .ok routes) :
    ∃ own, watchRoutesForDiff schema diff = .ok own ∧ own ⊆ routes := by
  induction diffs generalizing routes with
  | nil => cases among
  | cons first rest ih =>
    unfold watchRoutesForDiffs at told
    obtain ⟨own, one, told⟩ := StateError.except_bind_ok told
    obtain ⟨others, later, told⟩ := StateError.except_bind_ok told
    cases told
    rcases List.mem_cons.mp among with rfl | among
    · exact ⟨own, one, List.subset_append_left own others⟩
    · obtain ⟨own', found, within⟩ := ih among later
      exact ⟨own', found, fun route here => List.mem_append_right own (within here)⟩

theorem affects_batch {matching : Item → Bool} {visible : List (String × Item)} {diffs : List GraphWatchDiff} :
    watchDiffAffectsWindow matching visible (.batch diffs) = true ↔
      ∃ diff ∈ diffs, watchDiffAffectsWindow matching visible diff = true := by
  rw [watchDiffAffectsWindow]
  induction diffs with
  | nil => simp [watchDiffsAffectWindow]
  | cons first rest ih =>
    rw [watchDiffsAffectWindow, Bool.or_eq_true, ih]
    simp

section
variable {source next : WindowedQuerySource} {after : GraphView}
  (registered : source.registration ∈ after.schema.registrations)

/-- A diff makes the source look again, or it is none that the page may show. -/
theorem publishDiff_cases {diff : GraphWatchDiff} (told : source.publishDiff after diff = .ok (some next))
    (routed : watchDiffAffectsWindow source.matching source.snapshot.entries diff = true → ∀ routes,
      watchRoutesForDiff after.schema diff = .ok routes → ∃ route ∈ source.routes, route ∈ routes) :
    source.select after source.selection = some next ∨
      (next = source ∧ watchDiffAffectsWindow source.matching source.snapshot.entries diff = false) := by
  unfold WindowedQuerySource.publishDiff at told
  obtain ⟨routes, found, told⟩ := StateError.except_bind_ok told
  have told := Except.ok.inj told
  cases affects : watchDiffAffectsWindow source.matching source.snapshot.entries diff with
  | true =>
    obtain ⟨route, mine, among⟩ := routed affects routes found
    have hit : (source.routes.any fun route => route ∈ routes) = true :=
      List.any_eq_true.mpr ⟨route, mine, decide_eq_true among⟩
    rw [if_pos hit] at told
    unfold WindowedQuerySource.receive at told
    rw [if_pos affects] at told
    exact .inl told
  | false =>
    refine .inr ⟨?_, rfl⟩
    unfold WindowedQuerySource.receive at told
    rw [affects, if_neg Bool.false_ne_true, ite_self] at told
    exact (Option.some.inj told).symm

include registered in
/-- The source looks again, or none of the changes is one that its page may show. -/
theorem publish_cases {changes : List (Option Item × Option Item)}
    (published : source.publish after changes = .ok (some next)) :
    source.select after source.selection = some next ∨
      (next = source ∧ ∀ change ∈ changes, ∀ diff, watchDiffFromChange after.schema change.1 change.2 = some diff →
        watchDiffAffectsWindow source.matching source.snapshot.entries diff = false) := by
  have listed : ∀ change ∈ changes, ∀ diff, watchDiffFromChange after.schema change.1 change.2 = some diff →
      diff ∈ changes.filterMap fun change => watchDiffFromChange after.schema change.1 change.2 :=
    fun change among diff same => List.mem_filterMap.mpr ⟨change, among, same⟩
  have leaves : ∀ diff ∈ changes.filterMap fun change => watchDiffFromChange after.schema change.1 change.2,
      watchDiffAffectsWindow source.matching source.snapshot.entries diff = true → ∀ routes,
        watchRoutesForDiff after.schema diff = .ok routes → ∃ route ∈ source.routes, route ∈ routes := by
    intro diff among affects routes told
    obtain ⟨change, -, same⟩ := List.mem_filterMap.mp among
    exact routed_of_affects (routed_of_matching registered) same affects told
  unfold WindowedQuerySource.publish at published
  generalize (changes.filterMap fun change => watchDiffFromChange after.schema change.1 change.2) = diffs
    at listed leaves published
  match diffs, published with
  | [], published =>
    cases published
    exact .inr ⟨rfl, fun change among diff same => by cases listed change among diff same⟩
  | [diff], published =>
    refine (publishDiff_cases published (leaves diff List.mem_cons_self)).imp_right (And.imp_right ?_)
    intro quiet change among other same
    rw [List.mem_singleton.mp (listed change among other same)]
    exact quiet
  | first :: second :: rest, published =>
    refine (publishDiff_cases published fun affects routes told => ?_).imp_right (And.imp_right ?_)
    · obtain ⟨diff, among, affects⟩ := affects_batch.mp affects
      unfold watchRoutesForDiff at told
      obtain ⟨own, found, within⟩ := routed_of_among among told
      obtain ⟨route, mine, here⟩ := leaves diff among affects own found
      exact ⟨route, mine, within here⟩
    · intro quiet change among diff same
      by_contra affects
      have some := affects_batch.mpr ⟨diff, listed change among diff same, Bool.not_eq_false _ |>.mp affects⟩
      rw [quiet] at some
      cases some

end

/-- Changes none of which the page may show leave the shown edges as they are, and the items on the page, if no
matching edge comes to be shown or not while it goes on matching. -/
theorem unaffected {view next : GraphView} {registration : EdgeRegistration} {matching shown : Item → Bool}
    {visible : List (String × Item)} {changes : List Change}
    (registered : registration ∈ view.schema.registrations) (schema : next.schema = view.schema)
    (written : next.registry = view.registry.writeAll changes)
    (narrower : ∀ item, shown item = true → matching item = true)
    (stays : ∀ change ∈ changes, change.kind = .set → ∀ old, view.registry.canonicalItem change.item = some old →
      matching old = true → matching change.item = true → shown old = shown change.item)
    (quiet : ∀ change ∈ (changes.filter fun change =>
        (view.schema.registration change.item.entityType).isSome).map fun change =>
          (view.registry.canonicalItem change.item, change.value),
      ∀ diff, watchDiffFromChange next.schema change.1 change.2 = some diff →
        watchDiffAffectsWindow matching visible diff = false) (id : String) :
    ((∃ item, next.registry.getValue registration.edgeType id = some item ∧ shown item = true) ↔
      ∃ item, view.registry.getValue registration.edgeType id = some item ∧ shown item = true) ∧
    (∀ item, (id, item) ∈ visible →
      view.registry.getValue registration.edgeType id = some item → shown item = true →
        next.registry.getValue registration.edgeType id = some item) := by
  have hides : ∀ {item}, matching item = false → shown item = false := fun misses =>
    Bool.eq_false_iff.mpr fun hit => by
      rw [narrower _ hit] at misses
      cases misses
  rw [written]
  rcases view.registry.getValue_writeAll_cases changes registration.edgeType id with
    ⟨change, among, key, value⟩ | ⟨-, value⟩
  · obtain ⟨typed, rfl⟩ := Prod.mk.inj key
    have found := GraphSchema.registration_of_mem registered
    have told := quiet _ (List.mem_map_of_mem (List.mem_filter.mpr ⟨among, by rw [typed, found]; rfl⟩))
    have stays := stays change among
    dsimp only at told
    unfold StoreRegistry.canonicalItem at told stays
    rw [typed] at told stays
    rw [value]
    have keyed : ∀ item, view.registry.getValue registration.edgeType change.item.id = some item →
        item.entityType = registration.edgeType := fun item stored =>
      (StoreRegistry.getValue_keyed stored).1
    have known : ∀ {edgeType : String}, edgeType = registration.edgeType →
        (next.schema.registration edgeType).isNone = false := by
      rintro _ rfl
      rw [schema, found]
      rfl
    obtain ⟨kind, written⟩ := change
    unfold watchDiffFromChange at told
    cases old : view.registry.getValue registration.edgeType written.id with
    | none =>
      cases kind with
      | del => exact ⟨by simp [Change.value], fun item _ stored => by cases stored⟩
      | set =>
        rw [old] at told
        have missed := told (.insert written.id written) (by
          simp only [Change.value, Option.some_or, known typed]
          rfl)
        unfold watchDiffAffectsWindow at missed
        exact ⟨by simp [Change.value, hides missed], fun item _ stored => by cases stored⟩
    | some before =>
      rw [old] at told
      cases kind with
      | del =>
        have missed := told (.remove before.id before) (by
          simp only [Change.value, Option.none_or, known (keyed before old)]
          rfl)
        unfold watchDiffAffectsWindow at missed
        refine ⟨by simp [Change.value, hides missed], fun item _ stored hit => ?_⟩
        cases stored
        rw [hides missed] at hit
        cases hit
      | set =>
        have missed := told (.update written.id before written) (by
          simp only [Change.value, Option.some_or, known typed]
          rfl)
        unfold watchDiffAffectsWindow at missed
        cases hit : matching before <;> cases hit' : matching written <;> rw [hit, hit'] at missed
        · exact ⟨by simp [Change.value, hides hit, hides hit'], fun item _ stored match_ => by
            cases stored
            rw [hides hit] at match_
            cases match_⟩
        · cases missed
        · cases missed
        · have same := stays rfl before old hit hit'
          refine ⟨by simp [Change.value, same], fun item shown _ _ => ?_⟩
          have visible := List.any_eq_false.mp missed _ shown
          exact absurd (decide_eq_true rfl) visible
  · rw [value]
    exact ⟨Iff.rfl, fun item _ stored _ => stored⟩

section
variable {registration : EdgeRegistration} {position : EndPosition} {ends : WindowEnds} {view : GraphView}
  {source : WindowedQuerySource}

/-- The source watches these ends, and its snapshot is what its window selects of them now. -/
structure KeepsWindow (registration : EdgeRegistration) (position : EndPosition) (ends : WindowEnds) (view : GraphView)
    (source : WindowedQuerySource) : Prop where
  coherent : view.state.Coherent view.schema view.registry
  registered : registration ∈ view.schema.registrations
  kept : view.schema.projectsEndpoint registration.edgeType position = true
  sameRegistration : source.registration = registration
  samePosition : source.position = position
  sameEnds : source.ends = ends
  valid : source.selection.Valid
  selected : view.selectWindow registration position ends source.selection = some source.snapshot

theorem KeepsWindow.isSlice (keeps : KeepsWindow registration position ends view source) : ∃ ids,
    IsSlice view registration (ends.matchesEndpoints position) source.selection ids source.snapshot := by
  obtain ⟨ids, snapshot, selected, slice⟩ :=
    isSlice_selectWindow keeps.coherent keeps.registered keeps.kept keeps.valid ends
  rw [keeps.selected] at selected
  cases selected
  exact ⟨ids, slice⟩

/-- Looking again, at the graph as it is then, gives what the new window selects. -/
theorem KeepsWindow.select {next : GraphView} {after : WindowedQuerySource} {selection : GraphWindowSelection}
    (keeps : KeepsWindow registration position ends view source) (schema : next.schema = view.schema)
    (coherent : next.state.Coherent next.schema next.registry) (valid : selection.Valid)
    (looked : source.select next selection = some after) : KeepsWindow registration position ends next after := by
  unfold WindowedQuerySource.select at looked
  rw [keeps.sameRegistration, keeps.samePosition, keeps.sameEnds] at looked
  obtain ⟨snapshot, selected, made⟩ := Option.bind_eq_some_iff.mp looked
  cases made
  exact ⟨coherent, schema ▸ keeps.registered, schema ▸ keeps.kept, rfl, rfl, rfl, valid, selected⟩

/-- The same snapshot is what the window selects after the changes that leave the page as it is. -/
theorem KeepsWindow.quiet {next : GraphView} {changes : List Change}
    (keeps : KeepsWindow registration position ends view source)
    (schema : next.schema = view.schema) (written : next.registry = view.registry.writeAll changes)
    (coherent : next.state.Coherent next.schema next.registry)
    (quiet : ∀ change ∈ (changes.filter fun change =>
        (view.schema.registration change.item.entityType).isSome).map fun change =>
          (view.registry.canonicalItem change.item, change.value),
      ∀ diff, watchDiffFromChange next.schema change.1 change.2 = some diff →
        watchDiffAffectsWindow source.matching source.snapshot.entries diff = false) :
    KeepsWindow registration position ends next source := by
  have registered : registration ∈ next.schema.registrations := schema ▸ keeps.registered
  have kept : next.schema.projectsEndpoint registration.edgeType position = true := schema ▸ keeps.kept
  obtain ⟨ids, slice⟩ := keeps.isSlice
  obtain ⟨ids', snapshot', selected, slice'⟩ := isSlice_selectWindow coherent registered kept keeps.valid ends
  have mine : source.matching = itemMatches registration (ends.matchesEndpoints position) := by
    unfold WindowedQuerySource.matching
    rw [keeps.sameRegistration, keeps.samePosition, keeps.sameEnds]
  rw [mine] at quiet
  have left := unaffected keeps.registered schema written (fun _ hit => hit)
    (fun _ _ _ _ _ hit hit' => hit.trans hit'.symm) quiet
  have same : snapshot' = source.snapshot := by
    refine slice.unique slice' (fun id => ?_) ?_
    · rw [← matches_iff coherent registered, ← matches_iff keeps.coherent keeps.registered]
      exact (left id).1
    · intro entry shown
      have listed : entry.1 ∈ ids :=
        (source.selection.sublist_page ids).subset (slice.page ▸ List.mem_map_of_mem shown)
      have here := slice.stored entry shown
      obtain ⟨item, stored, hit⟩ :=
        (matches_iff keeps.coherent keeps.registered _ entry.1).mpr ((slice.members entry.1).mp listed)
      rw [here] at stored
      cases stored
      exact (left entry.1).2 entry.2 shown here hit
  exact { keeps with coherent, registered, kept, selected := same ▸ selected }

/-- Whatever has happened to a source, it shows what its window selects now. -/
theorem Live.keeps (live : Live registration position ends view source) :
    KeepsWindow registration position ends view source := by
  induction live with
  | @opened view window source coherent registered opened =>
    unfold GraphView.watchWindow at opened
    split at opened
    · rename_i kept
      obtain ⟨snapshot, selected, made⟩ := Option.bind_eq_some_iff.mp opened
      cases made
      exact ⟨coherent, registered, kept, rfl, rfl, rfl, trivial, selected⟩
    · cases opened
  | @window view source after next live moved keeps =>
    unfold WindowedQuerySource.setWindow at moved
    split at moved
    · cases moved
      exact keeps
    · have valid : (GraphWindowSelection.offset next).Valid := trivial
      exact keeps.select rfl keeps.coherent valid moved
  | @cursor view source after next live moved keeps =>
    unfold WindowedQuerySource.setCursorWindow at moved
    split at moved
    · cases moved
      exact keeps
    · rename_i valid
      split at moved
      · cases moved
        exact keeps
      · have one_way : (GraphWindowSelection.cursor next).Valid := valid
        exact keeps.select rfl keeps.coherent one_way moved
  | @told view next source after changes live schema written coherent published keeps =>
    have registered : source.registration ∈ next.schema.registrations := by
      rw [schema, keeps.sameRegistration]
      exact keeps.registered
    rcases publish_cases registered published with looked | ⟨rfl, quiet⟩
    · exact keeps.select schema coherent keeps.valid looked
    · exact keeps.quiet schema written coherent quiet

end

/-! ### The page that a session sends -/

/-- The cursor goes before the window. -/
def sessionSelection (s : QuerySubscriptionState) : GraphWindowSelection :=
  match s.cursorWindow with
  | some cursor => .cursor cursor
  | none => .offset s.window

theorem selectedIds_eq (s : QuerySubscriptionState) : s.selectedIds = (sessionSelection s).page s.allItems.keys := by
  unfold QuerySubscriptionState.selectedIds sessionSelection GraphWindowSelection.page
  cases s.cursorWindow with
  | some cursor => rfl
  | none => cases s.window <;> rfl

/-- The items shown are the page of the whole result, and its size is the total that is sent. -/
theorem response_page (s : QuerySubscriptionState) (tx : String) (changedIds : OrdSet String) (previousTotalCount : Nat)
    (forceEmit : Bool) :
    (s.computeBoundedWindowResponse tx changedIds previousTotalCount forceEmit).2.visibleItems.keys =
        (sessionSelection s).page s.allItems.keys ∧
      ∀ response, (s.computeBoundedWindowResponse tx changedIds previousTotalCount forceEmit).1 = some response →
        response.totalCount = s.allItems.keys.length ∧
        ∀ shown, response.windowOrderIds = some shown → shown = (sessionSelection s).page s.allItems.keys := by
  have visible : s.nextVisible.keys = (sessionSelection s).page s.allItems.keys :=
    (Replica.keys_nextVisible s).trans (selectedIds_eq s)
  have size : s.allItems.size = s.allItems.keys.length := Std.ExtTreeMap.length_keys.symm
  unfold QuerySubscriptionState.computeBoundedWindowResponse
  dsimp only
  split
  · refine ⟨visible, fun response sent => ?_⟩
    cases sent
    refine ⟨size, fun shown order => ?_⟩
    split at order
    · cases order
    · rw [← Option.some.inj order, visibleIds_eq, selectedIds_eq]
  · exact ⟨visible, fun response sent => by cases sent⟩

/-- The whole result of a query for the edges of these ends. -/
def MatchingItems (view : GraphView) (registration : EdgeRegistration) (matching : EdgeEndpoints → Bool)
    (items : ItemMap) : Prop :=
  ∀ id item, items[id]? = some item ↔
    view.registry.getValue registration.edgeType id = some item ∧ itemMatches registration matching item = true

section
variable {view : GraphView} {registration : EdgeRegistration} {matching : EdgeEndpoints → Bool}

theorem keys_matchingItems {selection : GraphWindowSelection} {ids : List String} {snapshot : WindowedQuerySnapshot}
    (coherent : view.state.Coherent view.schema view.registry) (registered : registration ∈ view.schema.registrations)
    (slice : IsSlice view registration matching selection ids snapshot) {items : ItemMap}
    (whole : MatchingItems view registration matching items) : items.keys = ids := by
  have ascending : items.keys.Pairwise (· < ·) := (ordered_keys items).imp fun less => compare_lt_iff_lt.mp less
  refine ascending_unique ascending slice.ascending fun id => ?_
  rw [slice.members, ← matches_iff coherent registered, Std.ExtTreeMap.mem_keys,
    Std.ExtTreeMap.mem_iff_isSome_getElem?, Option.isSome_iff_exists]
  exact exists_congr fun item => whole id item

end

section
variable {view : GraphView} {registration : EdgeRegistration} {position : EndPosition}

/-- The window on one end, the window on several ends, the live window and the page of a session are all the slice
that the window defines of one list, the ids of the matching edges in order. -/
theorem graph_windows_are_slices (coherent : view.state.Coherent view.schema view.registry)
    (registered : registration ∈ view.schema.registrations)
    (kept : view.schema.projectsEndpoint registration.edgeType position = true) (ends : WindowEnds) :
    ∃ ids,
      (∀ selection : GraphWindowSelection, selection.Valid → ∃ snapshot,
        view.selectWindow registration position ends selection = some snapshot ∧
        IsSlice view registration (ends.matchesEndpoints position) selection ids snapshot) ∧
      (∀ source, Live registration position ends view source →
        IsSlice view registration (ends.matchesEndpoints position) source.selection ids source.snapshot) ∧
      ∀ s : QuerySubscriptionState, MatchingItems view registration (ends.matchesEndpoints position) s.allItems →
        ∀ tx changedIds previousTotalCount forceEmit,
          (s.computeBoundedWindowResponse tx changedIds previousTotalCount forceEmit).2.visibleItems.keys =
            (sessionSelection s).page ids ∧
          ∀ response,
            (s.computeBoundedWindowResponse tx changedIds previousTotalCount forceEmit).1 = some response →
            response.totalCount = ids.length ∧
            ∀ shown, response.windowOrderIds = some shown → shown = (sessionSelection s).page ids := by
  have unlimited : (GraphWindowSelection.offset none).Valid := trivial
  obtain ⟨ids, whole, -, slice⟩ := isSlice_selectWindow coherent registered kept unlimited ends
  refine ⟨ids, fun selection valid => ?_, fun source live => ?_, fun s items tx changedIds total force => ?_⟩
  · obtain ⟨ids', snapshot, selected, slice'⟩ := isSlice_selectWindow coherent registered kept valid ends
    cases ascending_unique slice'.ascending slice.ascending fun id => (slice'.members id).trans (slice.members id).symm
    exact ⟨snapshot, selected, slice'⟩
  · obtain ⟨ids', slice'⟩ := live.keeps.isSlice
    cases ascending_unique slice'.ascending slice.ascending fun id => (slice'.members id).trans (slice.members id).symm
    exact slice'
  · have keys := keys_matchingItems coherent registered slice items
    have page := response_page s tx changedIds total force
    rw [keys] at page
    exact page

end

namespace GraphSample

/-- Of the ties from `x` and from `y`, one of them named twice, the page behind the first. -/
theorem window_on_x_and_y : ∃ ids snapshot,
    (view .eager .demandDriven).selectWindow ties .a (.manyAt [node "x", node "y", node "x"])
      (.cursor ⟨some "e", none, 5⟩) = some snapshot ∧
    IsSlice (view .eager .demandDriven) ties
      ((WindowEnds.manyAt [node "x", node "y", node "x"]).matchesEndpoints .a) (.cursor ⟨some "e", none, 5⟩)
      ids snapshot := by
  obtain ⟨ids, windows, -, -⟩ := graph_windows_are_slices (coherent .eager .demandDriven) List.mem_cons_self
    (by decide : (schema .eager .demandDriven).projectsEndpoint "tie" .a = true)
    (.manyAt [node "x", node "y", node "x"])
  obtain ⟨snapshot, selected, slice⟩ := windows (.cursor ⟨some "e", none, 5⟩) rfl
  exact ⟨ids, snapshot, selected, slice⟩

end GraphSample
end Myko

import Myko.Graph.Routing
import Myko.Graph.UniqueEdge
import Myko.Graph.Window

/-!
A window kept on the edges of one end, of several ends, or between two ends, and looked at again only when a change
may show on its page or in its total.
-/

namespace Myko
open Query

def GraphWindowSelection.idsOf (selection : GraphWindowSelection) : Option EdgeIds → List String
  | none => []
  | some ids =>
    match selection with
    | .offset window => ids.window window
    | .cursor window => ids.cursorWindow window

/-- The edges with the pair's key and no scope. -/
def GraphView.windowSnapshotBetween (view : GraphView) (registration : EdgeRegistration) (a b : EndpointValue)
    (selection : GraphWindowSelection) : WindowedQuerySnapshot :=
  let ids := (view.state.edgeTypes registration.edgeType).pairs (registration.pairKeyFromValues a b none)
  view.snapshotOf registration (selection.idsOf ids) (ids.elim 0 EdgeIds.len) selection

/-- What a window is opened on. -/
inductive WindowTarget where
  | ends (position : EndPosition) (watched : WindowEnds)
  | between (a b : EndpointValue)

namespace WindowTarget

variable (target : WindowTarget) (registration : EdgeRegistration)

def matchesEndpoints (endpoints : EdgeEndpoints) : Bool :=
  match target with
  | ends position watched => watched.matchesEndpoints position endpoints
  | between a b => endpointsMatch registration endpoints a b

def routes : List GraphWatchRoute :=
  match target with
  | ends position watched => watched.routes registration.edgeType position
  | between a b => [pairWatchRoute registration a b]

/-- Whether the index keeps what the window is opened on. -/
def projected (schema : GraphSchema) : Bool :=
  match target with
  | ends position _ => schema.projectsEndpoint registration.edgeType position
  | between _ _ => registration.projectsPairs

def select (view : GraphView) (selection : GraphWindowSelection) : Option WindowedQuerySnapshot :=
  match target with
  | ends position watched => view.selectWindow registration position watched selection
  | between a b => some (view.windowSnapshotBetween registration a b selection)

/-- A change may show in the window. -/
def matching (item : Item) : Bool := itemMatches registration (target.matchesEndpoints registration) item

/-- An edge is one of those the window is on: between two ends, only an edge without a scope. -/
def shows (item : Item) : Bool :=
  target.matching registration item &&
    match target with
    | ends _ _ => true
    | between _ _ =>
      match registration.extractScope item with
      | .ok none => true
      | _ => false

end WindowTarget

structure WindowWatch where
  registration : EdgeRegistration
  target : WindowTarget
  selection : GraphWindowSelection
  snapshot : WindowedQuerySnapshot

def GraphView.watchWindowMatching (view : GraphView) (registration : EdgeRegistration) (target : WindowTarget)
    (window : QueryWindow) : Option WindowWatch :=
  if target.projected registration view.schema then do
    let snapshot ← target.select registration view (.offset (some window))
    return { registration, target, selection := .offset (some window), snapshot }
  else none

namespace WindowWatch

variable (watch : WindowWatch)

def look (view : GraphView) (selection : GraphWindowSelection) : Option WindowWatch := do
  let snapshot ← watch.target.select watch.registration view selection
  return { watch with selection, snapshot }

def setWindow (view : GraphView) (next : Option QueryWindow) : Option WindowWatch :=
  if watch.selection = .offset next then some watch else watch.look view (.offset next)

def setCursorWindow (view : GraphView) (next : QueryCursorWindow) : Option WindowWatch :=
  match next.validate with
  | .error _ => some watch
  | .ok () => if watch.selection = .cursor next then some watch else watch.look view (.cursor next)

/-- Whether a diff is routed to the watch and may show. -/
def affected (schema : GraphSchema) (diff : GraphWatchDiff) : Except String Bool := do
  let routes ← watchRoutesForDiff schema diff
  return ((watch.target.routes watch.registration).any fun route => route ∈ routes) &&
    watchDiffAffectsWindow (watch.target.matching watch.registration) watch.snapshot.entries diff

/-- Changes are published as one diff. -/
def affectedBy (schema : GraphSchema) (changes : List (Option Item × Option Item)) : Except String Bool :=
  match changes.filterMap fun change => watchDiffFromChange schema change.1 change.2 with
  | [] => pure false
  | [diff] => watch.affected schema diff
  | diffs => watch.affected schema (.batch diffs)

/-- The graph is looked at as it is after all of the changes. -/
def publish (after : GraphView) (changes : List (Option Item × Option Item)) : Except String (Option WindowWatch) := do
  let affected ← watch.affectedBy after.schema changes
  return if affected then watch.look after watch.selection else some watch

end WindowWatch

/-! ### What a window shows -/

/-- The snapshot is the page that the window defines of the ids of the shown edges in order. -/
structure IsPage (look : String → Option Item) (shown : Item → Bool) (selection : GraphWindowSelection)
    (ids : List String) (snapshot : WindowedQuerySnapshot) : Prop where
  ascending : ids.Pairwise (· < ·)
  members : ∀ id, id ∈ ids ↔ ∃ item, look id = some item ∧ shown item = true
  page : snapshot.entries.map Prod.fst = selection.page ids
  stored : ∀ entry ∈ snapshot.entries, look entry.1 = some entry.2
  totalCount : snapshot.totalCount = ids.length
  window : snapshot.window = selection.offsetWindow

section
variable {look look' : String → Option Item} {shown : Item → Bool} {selection : GraphWindowSelection}
  {ids ids' : List String} {snapshot snapshot' : WindowedQuerySnapshot}

theorem IsPage.listed (page : IsPage look shown selection ids snapshot) {entry : String × Item}
    (visible : entry ∈ snapshot.entries) : shown entry.2 = true := by
  have listed : entry.1 ∈ ids := by
    refine (selection.sublist_page ids).subset ?_
    rw [← page.page]
    exact List.mem_map_of_mem visible
  obtain ⟨item, stored, hit⟩ := (page.members entry.1).mp listed
  obtain rfl : entry.2 = item := Option.some.inj ((page.stored entry visible).symm.trans stored)
  exact hit

/-- A page is told by the shown edges and the items on it. -/
theorem IsPage.unique (page : IsPage look shown selection ids snapshot)
    (page' : IsPage look' shown selection ids' snapshot')
    (same : ∀ id, (∃ item, look' id = some item ∧ shown item = true) ↔ ∃ item, look id = some item ∧ shown item = true)
    (visible : ∀ entry ∈ snapshot.entries, look' entry.1 = some entry.2) : snapshot' = snapshot := by
  have listed : ids' = ids := ascending_unique page'.ascending page.ascending fun id => by
    rw [page'.members, page.members, same]
  subst listed
  have entries : snapshot'.entries = snapshot.entries :=
    entries_eq (page'.page.trans page.page.symm) page'.stored visible
  obtain ⟨entries', total', window'⟩ := snapshot'
  obtain ⟨_, total, window⟩ := snapshot
  cases entries
  cases page'.totalCount.trans page.totalCount.symm
  cases page'.window.trans page.window.symm
  rfl

end

theorem idsOf_eq {selection : GraphWindowSelection} (valid : selection.Valid) (bucket : Option EdgeIds) :
    selection.idsOf bucket = selection.page (bucketIds bucket) := by
  cases bucket with
  | none => exact (List.sublist_nil.mp (selection.sublist_page [])).symm
  | some ids =>
    cases selection with
    | offset window => exact EdgeIds.window_eq ids window
    | cursor window => exact EdgeIds.cursorWindow_eq ids valid

section
variable {view : GraphView} {registration : EdgeRegistration}
  (coherent : view.state.Coherent view.schema view.registry)
  (registered : registration ∈ view.schema.registrations)
include coherent registered

/-- The edges between two ends that are shown are the ones listed under the key of the pair. -/
theorem shows_between {a b : EndpointValue} {id : String} :
    (∃ item, view.registry.getValue registration.edgeType id = some item ∧
      (WindowTarget.between a b).shows registration item = true) ↔
      Occupies registration view.registry (registration.pairKeyFromValues a b none) id := by
  have extracts := coherent.extracts registration registered id
  unfold Occupies EdgeRegistration.storedEdges
  cases stored : view.registry.getValue registration.edgeType id with
  | none => simp [EdgeRegistration.edgeOf]
  | some item =>
    rw [stored] at extracts
    obtain ⟨edge, indexed⟩ := extracts item rfl
    obtain ⟨endpoints, scope⟩ := EdgeRegistration.read_of_indexed indexed
    have edgeOf : registration.edgeOf (some item) = some edge := by
      simp [EdgeRegistration.edgeOf, indexed, Except.toOption]
    rw [edgeOf]
    simp only [Option.some.injEq, exists_eq_left']
    rw [eq_comm (a := registration.pairKey edge.endpoints edge.scope), pairKeyFromValues_eq]
    unfold WindowTarget.shows WindowTarget.matching WindowTarget.matchesEndpoints itemMatches
    rw [endpoints, scope]
    cases edge.scope <;> simp

/-- However a window is opened, it shows the page of its edges. -/
theorem isPage_select {target : WindowTarget} (kept : target.projected registration view.schema = true)
    {selection : GraphWindowSelection} (valid : selection.Valid) : ∃ ids snapshot,
    target.select registration view selection = some snapshot ∧
      IsPage (view.registry.getValue registration.edgeType) (target.shows registration) selection ids snapshot := by
  cases target with
  | ends position watched =>
    obtain ⟨ids, snapshot, selected, slice⟩ := isSlice_selectWindow coherent registered kept valid watched
    refine ⟨ids, snapshot, selected, slice.ascending, fun id => ?_, slice.page, slice.stored, slice.totalCount,
      slice.window⟩
    rw [slice.members, ← matches_iff coherent registered]
    refine exists_congr fun item => and_congr_right fun _ => ?_
    unfold WindowTarget.shows
    rw [Bool.and_true]
    rfl
  | between a b =>
    have members : ∀ id, id ∈ bucketIds ((view.state.edgeTypes registration.edgeType).pairs
        (registration.pairKeyFromValues a b none)) ↔ ∃ item,
          view.registry.getValue registration.edgeType id = some item ∧
            (WindowTarget.between a b).shows registration item = true := by
      intro id
      rw [shows_between coherent registered]
      exact mem_pairs coherent registered kept
    have ascending := ascending_bucketIds ((view.state.edgeTypes registration.edgeType).pairs
      (registration.pairKeyFromValues a b none))
    refine ⟨bucketIds ((view.state.edgeTypes registration.edgeType).pairs (registration.pairKeyFromValues a b none)),
      _, rfl, ?_⟩
    unfold GraphView.windowSnapshotBetween
    dsimp only
    generalize (view.state.edgeTypes registration.edgeType).pairs (registration.pairKeyFromValues a b none) = bucket
      at members ascending ⊢
    rw [idsOf_eq valid]
    have known : ∀ id ∈ selection.page (bucketIds bucket), ∃ item,
        view.registry.getValue registration.edgeType id = some item := fun id among =>
      ((members id).mp ((selection.sublist_page _).subset among)).imp fun _ => And.left
    obtain ⟨page, stored⟩ := entries_snapshotOf (bucket.elim 0 EdgeIds.len) selection known
    refine ⟨ascending, members, page, stored, ?_, rfl⟩
    cases bucket with
    | none => rfl
    | some ids => exact (length_bucketIds (some ids)).symm

end

/-! ### What makes a watch look again -/

section
variable {watch next : WindowWatch} {after : GraphView}

/-- A matching edge is routed to the watch. -/
theorem WindowWatch.routed {schema : GraphSchema} (registered : watch.registration ∈ schema.registrations)
    {item : Item} (hit : watch.target.matching watch.registration item = true) {routes : List GraphWatchRoute}
    (told : watchRoutesForRegistered schema item = .ok routes) :
    ∃ route ∈ watch.target.routes watch.registration, route ∈ routes := by
  unfold WindowTarget.matching itemMatches at hit
  cases extracted : watch.registration.extract item with
  | error error =>
    rw [extracted] at hit
    cases hit
  | ok endpoints =>
    rw [extracted] at hit
    have typed := watch.registration.typed item endpoints extracted
    unfold watchRoutesForRegistered at told
    rw [typed, GraphSchema.registration_of_mem registered] at told
    dsimp only at told
    rw [watchRoutesForItem_of_extract extracted] at told
    cases told
    cases target : watch.target with
    | ends position watched =>
      rw [target] at hit
      exact ⟨_, mem_routes hit, (endpoint_mem_routes watch.registration endpoints position _).mpr rfl⟩
    | between a b =>
      rw [target] at hit
      refine ⟨_, List.mem_singleton_self _, ?_⟩
      rw [pairWatchRoute_eq.mpr hit]
      simp [endpointRoutes]

/-- A diff that may show and is routed where it should be makes the watch look again. -/
theorem WindowWatch.shows_of_affected {schema : GraphSchema} {diff : GraphWatchDiff}
    (told : watch.affected schema diff = .ok false)
    (routed : watchDiffAffectsWindow (watch.target.matching watch.registration) watch.snapshot.entries diff = true →
      ∀ routes, watchRoutesForDiff schema diff = .ok routes →
        ∃ route ∈ watch.target.routes watch.registration, route ∈ routes) :
    watchDiffAffectsWindow (watch.target.matching watch.registration) watch.snapshot.entries diff = false := by
  unfold WindowWatch.affected at told
  obtain ⟨routes, found, told⟩ := StateError.except_bind_ok told
  have told := Except.ok.inj told
  by_contra affects
  have affects := Bool.not_eq_false _ ▸ affects
  obtain ⟨route, mine, among⟩ := routed affects routes found
  have hit : ((watch.target.routes watch.registration).any fun route => route ∈ routes) = true :=
    List.any_eq_true.mpr ⟨route, mine, decide_eq_true among⟩
  rw [hit, affects] at told
  cases told

/-- The watch looks again, or none of the changes may show. -/
theorem WindowWatch.publish_cases (registered : watch.registration ∈ after.schema.registrations)
    {changes : List (Option Item × Option Item)} (published : watch.publish after changes = .ok (some next)) :
    watch.look after watch.selection = some next ∨
      (next = watch ∧ ∀ change ∈ changes, ∀ diff, watchDiffFromChange after.schema change.1 change.2 = some diff →
        watchDiffAffectsWindow (watch.target.matching watch.registration) watch.snapshot.entries diff = false) := by
  have listed : ∀ change ∈ changes, ∀ diff, watchDiffFromChange after.schema change.1 change.2 = some diff →
      diff ∈ changes.filterMap fun change => watchDiffFromChange after.schema change.1 change.2 :=
    fun change among diff same => List.mem_filterMap.mpr ⟨change, among, same⟩
  have leaves : ∀ diff ∈ changes.filterMap fun change => watchDiffFromChange after.schema change.1 change.2,
      watchDiffAffectsWindow (watch.target.matching watch.registration) watch.snapshot.entries diff = true →
        ∀ routes, watchRoutesForDiff after.schema diff = .ok routes →
          ∃ route ∈ watch.target.routes watch.registration, route ∈ routes := by
    intro diff among affects routes told
    obtain ⟨change, -, same⟩ := List.mem_filterMap.mp among
    exact routed_of_affects (WindowWatch.routed registered) same affects told
  unfold WindowWatch.publish at published
  obtain ⟨affected, decided, published⟩ := StateError.except_bind_ok published
  have published := Except.ok.inj published
  cases affected with
  | true => exact .inl published
  | false =>
    refine .inr ⟨(Option.some.inj published).symm, fun change among diff same => ?_⟩
    have member := listed change among diff same
    unfold WindowWatch.affectedBy at decided
    generalize (changes.filterMap fun change => watchDiffFromChange after.schema change.1 change.2) = diffs
      at member leaves decided
    match diffs, decided with
    | [], _ => cases member
    | [only], decided =>
      obtain rfl := List.mem_singleton.mp member
      exact WindowWatch.shows_of_affected decided (leaves diff member)
    | first :: second :: rest, decided =>
      have quiet := WindowWatch.shows_of_affected decided fun affects routes told => by
        obtain ⟨one, among, shows⟩ := affects_batch.mp affects
        unfold watchRoutesForDiff at told
        obtain ⟨own, found, within⟩ := routed_of_among among told
        obtain ⟨route, mine, here⟩ := leaves one among shows own found
        exact ⟨route, mine, within here⟩
      exact Bool.eq_false_iff.mpr fun shows => by
        rw [affects_batch.mpr ⟨diff, member, shows⟩] at quiet
        cases quiet

end

/-! ### What a watch keeps -/

section
variable {registration : EdgeRegistration} {target : WindowTarget} {view next : GraphView} {watch after : WindowWatch}

/-- The watch is one of this target, and its snapshot is what its window selects now. -/
structure UpToDate (registration : EdgeRegistration) (target : WindowTarget) (view : GraphView) (watch : WindowWatch) :
    Prop where
  coherent : view.state.Coherent view.schema view.registry
  registered : registration ∈ view.schema.registrations
  projected : target.projected registration view.schema = true
  sameRegistration : watch.registration = registration
  sameTarget : watch.target = target
  valid : watch.selection.Valid
  selected : target.select registration view watch.selection = some watch.snapshot

theorem UpToDate.opened (coherent : view.state.Coherent view.schema view.registry)
    (registered : registration ∈ view.schema.registrations) {window : QueryWindow}
    (opened : view.watchWindowMatching registration target window = some watch) :
    UpToDate registration target view watch := by
  unfold GraphView.watchWindowMatching at opened
  split at opened
  · rename_i projected
    obtain ⟨snapshot, selected, made⟩ := Option.bind_eq_some_iff.mp opened
    cases made
    exact ⟨coherent, registered, projected, rfl, rfl, trivial, selected⟩
  · cases opened

/-- Looking again gives what the window selects then. -/
theorem UpToDate.look (fresh : UpToDate registration target view watch) (schema : next.schema = view.schema)
    (coherent : next.state.Coherent next.schema next.registry) {selection : GraphWindowSelection}
    (valid : selection.Valid) :
    ∃ after, watch.look next selection = some after ∧ UpToDate registration target next after := by
  have registered : registration ∈ next.schema.registrations := schema ▸ fresh.registered
  have projected : target.projected registration next.schema = true := schema ▸ fresh.projected
  obtain ⟨ids, snapshot, selected, -⟩ := isPage_select coherent registered projected valid
  refine ⟨{ watch with selection, snapshot }, ?_, coherent, registered, projected, fresh.sameRegistration,
    fresh.sameTarget, valid, selected⟩
  unfold WindowWatch.look
  rw [fresh.sameRegistration, fresh.sameTarget, selected]
  rfl

/-- A watch need not look again where its edges and the items on its page are as before. -/
theorem UpToDate.same (fresh : UpToDate registration target view watch) (schema : next.schema = view.schema)
    (coherent : next.state.Coherent next.schema next.registry)
    (left : ∀ id, ((∃ item, next.registry.getValue registration.edgeType id = some item ∧
        target.shows registration item = true) ↔
      ∃ item, view.registry.getValue registration.edgeType id = some item ∧ target.shows registration item = true) ∧
      ∀ item, (id, item) ∈ watch.snapshot.entries →
        view.registry.getValue registration.edgeType id = some item → target.shows registration item = true →
          next.registry.getValue registration.edgeType id = some item) :
    UpToDate registration target next watch := by
  have registered : registration ∈ next.schema.registrations := schema ▸ fresh.registered
  have projected : target.projected registration next.schema = true := schema ▸ fresh.projected
  obtain ⟨ids, snapshot, selected, page⟩ := isPage_select fresh.coherent fresh.registered fresh.projected fresh.valid
  obtain rfl : snapshot = watch.snapshot := Option.some.inj (selected.symm.trans fresh.selected)
  obtain ⟨ids', snapshot', selected', page'⟩ := isPage_select coherent registered projected fresh.valid
  have same := page.unique page' (fun id => (left id).1) fun entry shown =>
    (left entry.1).2 entry.2 shown (page.stored entry shown) (page.listed shown)
  exact { fresh with coherent, registered, projected, selected := same ▸ selected' }

/-- A written edge that goes on matching goes on being shown, or not being shown. -/
def StaysShown (registration : EdgeRegistration) (target : WindowTarget) (registry : StoreRegistry)
    (changes : List Change) : Prop :=
  ∀ change ∈ changes, change.kind = .set → ∀ old, registry.canonicalItem change.item = some old →
    target.matching registration old = true → target.matching registration change.item = true →
      target.shows registration old = target.shows registration change.item

/-- Every edge a window on ends matches is shown. -/
theorem staysShown_ends (position : EndPosition) (watched : WindowEnds) (registry : StoreRegistry)
    (changes : List Change) : StaysShown registration (.ends position watched) registry changes := by
  intro change _ _ old _ hit hit'
  unfold WindowTarget.shows
  rw [hit, hit']

/-- A watch that is published what has been written is fresh. -/
theorem UpToDate.publish (fresh : UpToDate registration target view watch) {changes : List Change}
    (schema : next.schema = view.schema) (written : next.registry = view.registry.writeAll changes)
    (coherent : next.state.Coherent next.schema next.registry)
    (stays : StaysShown registration target view.registry changes)
    (published : watch.publish next ((changes.filter fun change =>
      (view.schema.registration change.item.entityType).isSome).map fun change =>
        (view.registry.canonicalItem change.item, change.value)) = .ok (some after)) :
    UpToDate registration target next after := by
  have registered : watch.registration ∈ next.schema.registrations := by
    rw [schema, fresh.sameRegistration]
    exact fresh.registered
  rcases WindowWatch.publish_cases registered published with looked | ⟨rfl, quiet⟩
  · obtain ⟨again, looked', fresh'⟩ := fresh.look schema coherent fresh.valid
    cases looked.symm.trans looked'
    exact fresh'
  · rw [fresh.sameRegistration, fresh.sameTarget] at quiet
    refine fresh.same schema coherent (unaffected fresh.registered schema written (fun item hit => ?_) stays quiet)
    exact (Bool.and_eq_true_iff.mp hit).1

end

end Myko

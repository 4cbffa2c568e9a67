import Mathlib.Data.List.Dedup
import Myko.Graph.Watch

/-!
Routing of edge changes to watches. A watch is entered under every route it selects; a change is dispatched to whoever
is entered under a route of its old or its new edge.
-/

namespace Myko

section Router

variable {Callback : Type}

structure GraphWatchRouter (Callback : Type) where
  nextId : Nat
  routes : GraphWatchRoute → Option (OrdMap Nat Callback)
  activeSubscriptions : Nat
  dispatchedCallbacks : Nat

/-- What a subscription leaves with its guard. -/
structure RoutedSubscription (Callback : Type) where
  id : Nat
  routes : List GraphWatchRoute
  callback : Callback

namespace GraphWatchRouter

def empty : GraphWatchRouter Callback := ⟨0, fun _ => none, 0, 0⟩

/-- The listeners of the routes, in a set once each. -/
def enlist (id : Nat) (callback : Callback) (listeners : GraphWatchRoute → Option (OrdMap Nat Callback))
    (route : GraphWatchRoute) : GraphWatchRoute → Option (OrdMap Nat Callback) :=
  Function.update listeners route (some (((listeners route).getD ∅).insert id callback))

def subscribeMany (router : GraphWatchRouter Callback) (routes : List GraphWatchRoute) (callback : Callback) :
    GraphWatchRouter Callback × Option (RoutedSubscription Callback) :=
  if routes.dedup.isEmpty then (router, none)
  else
    ({ router with
        nextId := router.nextId + 1
        routes := routes.dedup.foldl (enlist router.nextId callback) router.routes
        activeSubscriptions := router.activeSubscriptions + 1 },
      some ⟨router.nextId, routes.dedup, callback⟩)

def delist (id : Nat) (listeners : GraphWatchRoute → Option (OrdMap Nat Callback)) (route : GraphWatchRoute) :
    GraphWatchRoute → Option (OrdMap Nat Callback) :=
  match listeners route with
  | none => listeners
  | some others =>
    Function.update listeners route (if (others.erase id).isEmpty then none else some (others.erase id))

/-- The guard of a subscription is dropped. -/
def dropGuard (router : GraphWatchRouter Callback) (guard : RoutedSubscription Callback) :
    GraphWatchRouter Callback :=
  { router with
    routes := guard.routes.foldl (delist guard.id) router.routes
    activeSubscriptions := router.activeSubscriptions - 1 }

def hasSubscribers (router : GraphWatchRouter Callback) : Bool := router.activeSubscriptions ≠ 0

/-- The callbacks of a dispatch by subscription. -/
def listenersOf (router : GraphWatchRouter Callback) (routes : List GraphWatchRoute) : OrdMap Nat Callback :=
  routes.foldl (fun callbacks route =>
    match router.routes route with
    | none => callbacks
    | some listeners => OrdMap.insertMany callbacks listeners.toList) ∅

/-- The callbacks called, each under the id of its subscription. -/
def dispatch (router : GraphWatchRouter Callback) (routes : List GraphWatchRoute) :
    List (Nat × Callback) × GraphWatchRouter Callback :=
  ((router.listenersOf routes).toList,
    { router with dispatchedCallbacks := router.dispatchedCallbacks + (router.listenersOf routes).toList.length })

def publishWatchDiff (router : GraphWatchRouter Callback) (schema : GraphSchema) (diff : GraphWatchDiff) :
    Except String (List (Nat × Callback) × GraphWatchRouter Callback) := do
  let routes ← watchRoutesForDiff schema diff
  return router.dispatch routes

def publishWatchChange (router : GraphWatchRouter Callback) (schema : GraphSchema) (old new : Option Item) :
    Except String (List (Nat × Callback) × GraphWatchRouter Callback) :=
  if !router.hasSubscribers then pure ([], router)
  else
    match watchDiffFromChange schema old new with
    | some diff => router.publishWatchDiff schema diff
    | none => pure ([], router)

def publishWatchChanges (router : GraphWatchRouter Callback) (schema : GraphSchema)
    (changes : List (Option Item × Option Item)) :
    Except String (List (Nat × Callback) × GraphWatchRouter Callback) :=
  if !router.hasSubscribers then pure ([], router)
  else
    match changes.filterMap fun change => watchDiffFromChange schema change.1 change.2 with
    | [] => pure ([], router)
    | [diff] => router.publishWatchDiff schema diff
    | diffs => router.publishWatchDiff schema (.batch diffs)

end GraphWatchRouter

/-- Subscriptions come and go. -/
inductive RoutingEvent (Callback : Type) where
  | subscribe (routes : List GraphWatchRoute) (callback : Callback)
  | drop (id : Nat)

/-- A router with the guards that are held. -/
structure Routing (Callback : Type) where
  router : GraphWatchRouter Callback
  live : List (RoutedSubscription Callback)

namespace Routing

def start : Routing Callback := ⟨.empty, []⟩

/-- A guard is dropped once. -/
def step (σ : Routing Callback) : RoutingEvent Callback → Routing Callback
  | .subscribe routes callback =>
    let (router, guard) := σ.router.subscribeMany routes callback
    ⟨router, guard.toList ++ σ.live⟩
  | .drop id =>
    match σ.live.find? fun guard => guard.id = id with
    | none => σ
    | some guard => ⟨σ.router.dropGuard guard, σ.live.filter fun other => other.id ≠ id⟩

def run (σ : Routing Callback) (events : List (RoutingEvent Callback)) : Routing Callback := events.foldl step σ

/-- Who is entered under a route. -/
def entry (listeners : GraphWatchRoute → Option (OrdMap Nat Callback)) (route : GraphWatchRoute) (id : Nat) :
    Option Callback :=
  (listeners route).bind fun callbacks => callbacks[id]?

/-- No route is kept without a listener. -/
def Inhabited (listeners : GraphWatchRoute → Option (OrdMap Nat Callback)) : Prop :=
  ∀ route, (listeners route).isSome = true → ∃ id, (entry listeners route id).isSome = true

/-- A route lists exactly the live subscriptions that asked for it. -/
structure Exact (σ : Routing Callback) : Prop where
  fresh : ∀ guard ∈ σ.live, guard.id < σ.router.nextId
  distinct : (σ.live.map RoutedSubscription.id).Nodup
  listed : ∀ route id callback, entry σ.router.routes route id = some callback ↔
    ∃ guard ∈ σ.live, route ∈ guard.routes ∧ guard.id = id ∧ guard.callback = callback
  inhabited : Inhabited σ.router.routes
  counted : σ.router.activeSubscriptions = σ.live.length

variable {σ : Routing Callback}

theorem exact_start : (start : Routing Callback).Exact where
  fresh _ listed := nomatch listed
  distinct := List.nodup_nil
  listed _ _ _ := ⟨fun found => (nomatch found), fun ⟨_, listed, _⟩ => nomatch listed⟩
  inhabited _ found := nomatch found
  counted := rfl

open GraphWatchRouter

variable (id : Nat) (callback : Callback) (listeners : GraphWatchRoute → Option (OrdMap Nat Callback))

/-! ### Entering and leaving -/

theorem entry_enlist (route other : GraphWatchRoute) (key : Nat) :
    entry (enlist id callback listeners route) other key =
      if other = route ∧ key = id then some callback else entry listeners other key := by
  unfold entry enlist
  by_cases here : other = route
  · subst here
    rw [Function.update_self, Option.bind_some, OrdMap.get_insert]
    by_cases own : key = id
    · rw [if_pos own, if_pos ⟨rfl, own⟩]
    · rw [if_neg own, if_neg fun both => own both.2]
      cases listeners other <;> simp
  · rw [Function.update_of_ne here, if_neg fun both => here both.1]

/-- What is left of the listeners of a route. -/
def leave (id : Nat) (callbacks : Option (OrdMap Nat Callback)) : Option (OrdMap Nat Callback) :=
  callbacks.bind fun others => if (others.erase id).isEmpty then none else some (others.erase id)

theorem unlisten_eq (route : GraphWatchRoute) :
    delist id listeners route = Function.update listeners route (leave id (listeners route)) := by
  unfold delist leave
  cases found : listeners route with
  | none =>
    have same := Function.update_eq_self route listeners
    rw [found] at same
    exact same.symm
  | some others => rfl

theorem get_leave (callbacks : Option (OrdMap Nat Callback)) (key : Nat) :
    ((leave id callbacks).bind fun others => others[key]?) =
      if key = id then none else callbacks.bind fun others => others[key]? := by
  cases callbacks with
  | none => simp [leave]
  | some others =>
    have erased := OrdMap.get_erase others id key
    unfold leave
    rw [Option.bind_some, Option.bind_some, ← erased]
    by_cases emptied : (others.erase id).isEmpty = true
    · rw [if_pos emptied, Option.bind_none, Std.ExtTreeMap.isEmpty_iff.mp emptied]
      exact Std.ExtTreeMap.getElem?_empty.symm
    · rw [if_neg emptied, Option.bind_some]

theorem entry_delist (route other : GraphWatchRoute) (key : Nat) :
    entry (delist id listeners route) other key =
      if other = route ∧ key = id then none else entry listeners other key := by
  rw [unlisten_eq]
  unfold entry
  by_cases here : other = route
  · subst here
    rw [Function.update_self, get_leave]
    simp
  · rw [Function.update_of_ne here, if_neg fun both => here both.1]

theorem entry_listenAll (routes : List GraphWatchRoute) (route : GraphWatchRoute) (key : Nat) :
    entry (routes.foldl (enlist id callback) listeners) route key =
      if route ∈ routes ∧ key = id then some callback else entry listeners route key := by
  induction routes generalizing listeners with
  | nil => simp
  | cons first rest ih =>
    rw [List.foldl_cons, ih, entry_enlist]
    by_cases own : key = id <;> by_cases here : route = first <;> by_cases later : route ∈ rest <;>
      simp [own, here, later]

theorem entry_unlistenAll (routes : List GraphWatchRoute) (route : GraphWatchRoute) (key : Nat) :
    entry (routes.foldl (delist id) listeners) route key =
      if route ∈ routes ∧ key = id then none else entry listeners route key := by
  induction routes generalizing listeners with
  | nil => simp
  | cons first rest ih =>
    rw [List.foldl_cons, ih, entry_delist]
    by_cases own : key = id <;> by_cases here : route = first <;> by_cases later : route ∈ rest <;>
      simp [own, here, later]

variable {listeners}

theorem inhabited_enlist (inhabited : Inhabited listeners) (route : GraphWatchRoute) :
    Inhabited (enlist id callback listeners route) := by
  intro other there
  by_cases here : other = route
  · refine ⟨id, ?_⟩
    rw [entry_enlist, if_pos ⟨here, rfl⟩]
    rfl
  · rw [enlist, Function.update_of_ne here] at there
    obtain ⟨key, entered⟩ := inhabited other there
    refine ⟨key, ?_⟩
    rwa [entry_enlist, if_neg fun both => here both.1]

theorem inhabited_delist (inhabited : Inhabited listeners) (route : GraphWatchRoute) :
    Inhabited (delist id listeners route) := by
  intro other there
  rw [unlisten_eq] at there ⊢
  unfold entry
  by_cases here : other = route
  · subst here
    rw [Function.update_self] at there ⊢
    cases found : listeners other with
    | none =>
      rw [found] at there
      cases there
    | some others =>
      rw [found] at there
      unfold leave at there ⊢
      rw [Option.bind_some] at there ⊢
      split at there
      · cases there
      · rename_i left
        rw [if_neg left]
        change ∃ key, ((others.erase id)[key]?).isSome = true
        by_contra! bare
        refine left (Std.ExtTreeMap.isEmpty_iff.mpr (OrdMap.ext fun key => ?_))
        have gone : (others.erase id)[key]? = none := Option.not_isSome_iff_eq_none.mp (bare key)
        exact gone.trans Std.ExtTreeMap.getElem?_empty.symm
  · rw [Function.update_of_ne here] at there ⊢
    exact inhabited other there

theorem inhabited_foldl {step : (GraphWatchRoute → Option (OrdMap Nat Callback)) → GraphWatchRoute →
      GraphWatchRoute → Option (OrdMap Nat Callback)}
    (keeps : ∀ {listeners}, Inhabited listeners → ∀ route, Inhabited (step listeners route))
    (inhabited : Inhabited listeners) (routes : List GraphWatchRoute) : Inhabited (routes.foldl step listeners) := by
  induction routes generalizing listeners with
  | nil => exact inhabited
  | cons route rest ih => exact ih (keeps inhabited route)

/-! ### Subscriptions that come and go -/

theorem exact_subscribe (exact : σ.Exact) (routes : List GraphWatchRoute) (callback : Callback) :
    (σ.step (.subscribe routes callback)).Exact := by
  unfold step subscribeMany
  dsimp only
  split
  · exact exact
  have unused : ∀ guard ∈ σ.live, guard.id ≠ σ.router.nextId := fun guard listed => (exact.fresh guard listed).ne
  refine ⟨fun guard listed => ?_, ?_, fun route id other => ?_, ?_, ?_⟩
  · rcases List.mem_cons.mp listed with rfl | listed
    · exact Nat.lt_succ_self _
    · exact Nat.lt_succ_of_lt (exact.fresh guard listed)
  · refine List.nodup_cons.mpr ⟨fun repeated => ?_, exact.distinct⟩
    obtain ⟨guard, listed, same⟩ := List.mem_map.mp repeated
    exact unused guard listed same
  · rw [entry_listenAll, Option.toList_some, List.singleton_append]
    constructor
    · intro found
      split at found
      · rename_i own
        cases found
        exact ⟨_, List.mem_cons_self, own.1, own.2.symm, rfl⟩
      · obtain ⟨guard, listed, rest⟩ := (exact.listed route id other).mp found
        exact ⟨guard, List.mem_cons_of_mem _ listed, rest⟩
    · rintro ⟨guard, listed, member, rfl, rfl⟩
      rcases List.mem_cons.mp listed with rfl | listed
      · rw [if_pos ⟨member, rfl⟩]
      · rw [if_neg fun both => unused guard listed both.2]
        exact (exact.listed route _ _).mpr ⟨guard, listed, member, rfl, rfl⟩
  · exact inhabited_foldl (fun inhabited route => inhabited_enlist _ callback inhabited route) exact.inhabited _
  · rw [Option.toList_some, List.singleton_append, List.length_cons, exact.counted]

theorem exact_drop (exact : σ.Exact) (id : Nat) : (σ.step (.drop id)).Exact := by
  unfold step
  dsimp only
  split
  · exact exact
  rename_i guard found
  have held := List.mem_of_find?_eq_some found
  obtain rfl : guard.id = id := by simpa using List.find?_some found
  have own : ∀ other ∈ σ.live, other.id = guard.id → other = guard := fun other listed same =>
    List.inj_on_of_nodup_map exact.distinct listed held same
  have mem_left : ∀ {other}, other ∈ σ.live.filter (fun other => other.id ≠ guard.id) ↔
      other ∈ σ.live ∧ other.id ≠ guard.id := by
    intro other
    rw [List.mem_filter, decide_eq_true_eq]
  refine ⟨fun other listed => exact.fresh other (mem_left.mp listed).1,
    exact.distinct.sublist (List.filter_sublist.map _), fun route key callback => ?_, ?_, ?_⟩
  · unfold dropGuard
    dsimp only
    rw [entry_unlistenAll]
    constructor
    · intro found
      split at found
      · cases found
      · rename_i stays
        obtain ⟨other, listed, member, rfl, rfl⟩ := (exact.listed route key callback).mp found
        refine ⟨other, mem_left.mpr ⟨listed, fun same => ?_⟩, member, rfl, rfl⟩
        rw [own other listed same] at member
        exact stays ⟨member, same⟩
    · rintro ⟨other, listed, member, rfl, rfl⟩
      obtain ⟨listed, apart⟩ := mem_left.mp listed
      rw [if_neg fun both => apart both.2]
      exact (exact.listed route _ _).mpr ⟨other, listed, member, rfl, rfl⟩
  · exact inhabited_foldl (fun inhabited route => inhabited_delist _ inhabited route) exact.inhabited _
  · have one := List.count_eq_one_of_mem exact.distinct (List.mem_map_of_mem held)
    rw [List.count, List.countP_map] at one
    have all := List.length_eq_countP_add_countP (l := σ.live) ((· == guard.id) ∘ RoutedSubscription.id)
    have rest : (σ.live.filter fun other => other.id ≠ guard.id).length =
        σ.live.countP fun other => ¬((· == guard.id) ∘ RoutedSubscription.id) other = true := by
      rw [← List.countP_eq_length_filter]
      exact List.countP_congr fun other _ => by simp
    unfold dropGuard
    dsimp only
    rw [rest, exact.counted]
    omega

theorem exact_run (events : List (RoutingEvent Callback)) : ((start : Routing Callback).run events).Exact := by
  have kept : ∀ (events : List (RoutingEvent Callback)) (σ : Routing Callback), σ.Exact → (σ.run events).Exact := by
    intro events
    induction events with
    | nil => exact fun σ exact => exact
    | cons event rest ih =>
      intro σ exact
      cases event with
      | subscribe routes callback => exact ih _ (exact_subscribe exact routes callback)
      | drop id => exact ih _ (exact_drop exact id)
  exact kept events start exact_start

/-! ### What a dispatch calls -/

theorem get_listenersOf_append (router : GraphWatchRouter Callback) (routes : List GraphWatchRoute)
    (route : GraphWatchRoute) (id : Nat) :
    (router.listenersOf (routes ++ [route]))[id]? =
      (entry router.routes route id).or (router.listenersOf routes)[id]? := by
  unfold listenersOf entry
  rw [List.foldl_append, List.foldl_cons, List.foldl_nil]
  cases router.routes route with
  | none => rfl
  | some callbacks =>
    have agree : ∀ entry ∈ callbacks.toList, (fun id => callbacks[id]?) entry.1 = some entry.2 := fun entry member =>
      OrdMap.mem_toList.mp member
    dsimp only
    rw [OrdMap.get_insertMany_of agree, Option.bind_some]
    cases found : callbacks[id]? with
    | none =>
      rw [if_neg, Option.none_or]
      intro listed
      obtain ⟨entry, member, rfl⟩ := List.mem_map.mp listed
      rw [OrdMap.mem_toList.mp member] at found
      cases found
    | some callback => rw [if_pos (List.mem_map.mpr ⟨_, OrdMap.mem_toList.mpr found, rfl⟩), Option.some_or]

theorem get_listenersOf (exact : σ.Exact) (routes : List GraphWatchRoute) (id : Nat) (callback : Callback) :
    (σ.router.listenersOf routes)[id]? = some callback ↔
      ∃ guard ∈ σ.live, guard.id = id ∧ guard.callback = callback ∧ ∃ route ∈ routes, route ∈ guard.routes := by
  induction routes using List.reverseRecOn with
  | nil => simp [listenersOf]
  | append_singleton earlier route ih =>
    rw [get_listenersOf_append]
    constructor
    · intro found
      rcases Option.or_eq_some_iff.mp found with entered | ⟨-, before⟩
      · obtain ⟨guard, listed, member, rfl, rfl⟩ := (exact.listed route id callback).mp entered
        exact ⟨guard, listed, rfl, rfl, route, List.mem_append_right _ (List.mem_singleton_self route), member⟩
      · obtain ⟨guard, listed, rfl, rfl, other, earlier, member⟩ := ih.mp before
        exact ⟨guard, listed, rfl, rfl, other, List.mem_append_left _ earlier, member⟩
    · rintro ⟨guard, listed, rfl, rfl, other, place, member⟩
      cases entered : entry σ.router.routes route guard.id with
      | some held =>
        obtain ⟨holder, holds, -, same, rfl⟩ := (exact.listed route guard.id held).mp entered
        rw [Option.some_or, List.inj_on_of_nodup_map exact.distinct holds listed same]
      | none =>
        rw [Option.none_or]
        rcases List.mem_append.mp place with earlier | last
        · exact ih.mpr ⟨guard, listed, rfl, rfl, other, earlier, member⟩
        · rw [List.mem_singleton.mp last] at member
          rw [(exact.listed route _ _).mpr ⟨guard, listed, member, rfl, rfl⟩] at entered
          cases entered

end Routing
end Router

/-! ### Routes and what they select -/

theorem pairWatchRoute_eq {registration : EdgeRegistration} {a b : EndpointValue} {endpoints : EdgeEndpoints} :
    pairWatchRoute registration a b = pairWatchRoute registration endpoints.a endpoints.b ↔
      endpointsMatch registration endpoints a b = true := by
  obtain ⟨c, d⟩ := endpoints
  unfold pairWatchRoute endpointsMatch
  cases registration.shape with
  | directed =>
    simp only [reduceCtorEq, false_and, ↓reduceIte, GraphWatchRoute.pair.injEq, decide_false, Bool.false_and,
      Bool.or_false, Bool.and_eq_true, decide_eq_true_eq, true_and]
    rw [eq_comm (a := a), eq_comm (a := b)]
  | undirected =>
    simp only [true_and, Bool.or_eq_true, Bool.and_eq_true, decide_eq_true_eq, decide_true, Bool.true_and]
    by_cases swapped : b < a <;> by_cases swapped' : d < c <;> simp only [swapped, swapped', ↓reduceIte,
      GraphWatchRoute.pair.injEq, true_and]
    · grind
    · grind
    · grind
    · grind

/-- The routes of an edge with the given endpoints. -/
def endpointRoutes (registration : EdgeRegistration) (endpoints : EdgeEndpoints) : List GraphWatchRoute :=
  [.endpoint registration.edgeType .a endpoints.a, .incident registration.edgeType endpoints.a,
    .endpoint registration.edgeType .b endpoints.b, .incident registration.edgeType endpoints.b,
    pairWatchRoute registration endpoints.a endpoints.b]

theorem watchRoutesForItem_of_extract {registration : EdgeRegistration} {item : Item} {endpoints : EdgeEndpoints}
    (extracted : registration.extract item = .ok endpoints) :
    watchRoutesForItem registration item = .ok (endpointRoutes registration endpoints) := by
  unfold watchRoutesForItem
  rw [extracted]
  rfl

section
variable (registration : EdgeRegistration) (endpoints : EdgeEndpoints)

theorem pairWatchRoute_cases (a b : EndpointValue) :
    ∃ c d, pairWatchRoute registration a b = .pair registration.edgeType c d := by
  unfold pairWatchRoute
  split
  · exact ⟨b, a, rfl⟩
  · exact ⟨a, b, rfl⟩

theorem endpoint_mem_routes (position : EndPosition) (endpoint : EndpointValue) :
    .endpoint registration.edgeType position endpoint ∈ endpointRoutes registration endpoints ↔
      endpoints.at position = endpoint := by
  obtain ⟨c, d, pair⟩ := pairWatchRoute_cases registration endpoints.a endpoints.b
  cases position <;> simp [endpointRoutes, pair, EdgeEndpoints.at, eq_comm]

theorem incident_mem_routes (endpoint : EndpointValue) :
    .incident registration.edgeType endpoint ∈ endpointRoutes registration endpoints ↔
      endpoints.a = endpoint ∨ endpoints.b = endpoint := by
  obtain ⟨c, d, pair⟩ := pairWatchRoute_cases registration endpoints.a endpoints.b
  simp [endpointRoutes, pair, eq_comm]

theorem pair_mem_routes (a b : EndpointValue) :
    pairWatchRoute registration a b ∈ endpointRoutes registration endpoints ↔
      endpointsMatch registration endpoints a b = true := by
  rw [← pairWatchRoute_eq]
  obtain ⟨c, d, pair⟩ := pairWatchRoute_cases registration a b
  simp [endpointRoutes, pair]

/-- An edge meets a route of a selection exactly where it matches it. -/
theorem routes_meet_iff (selection : GraphSelection) :
    (∃ route ∈ endpointRoutes registration endpoints, route ∈ selection.routes registration) ↔
      selection.matchesEndpoints registration endpoints = true := by
  unfold GraphSelection.routes GraphSelection.matchesEndpoints
  cases selection with
  | «at» position endpoint =>
    simp only [List.mem_singleton, exists_eq_right, endpoint_mem_routes, decide_eq_true_eq]
  | manyAt position selected =>
    simp only [List.mem_map, decide_eq_true_eq]
    constructor
    · rintro ⟨_, told, endpoint, member, rfl⟩
      rwa [(endpoint_mem_routes registration endpoints position endpoint).mp told]
    · intro member
      exact ⟨_, (endpoint_mem_routes registration endpoints position _).mpr rfl, _, member, rfl⟩
  | between a b => simp only [List.mem_singleton, exists_eq_right, pair_mem_routes]
  | incident endpoint =>
    simp only [List.mem_singleton, exists_eq_right, incident_mem_routes, Bool.or_eq_true, decide_eq_true_eq]

end

/-! ### Changes of edges -/

variable {schema : GraphSchema}

/-- A change of an edge of a registered type. -/
structure EdgeChange (schema : GraphSchema) where
  registration : EdgeRegistration
  registered : registration ∈ schema.registrations
  old : Option Item
  new : Option Item
  extracts : ∀ item ∈ old.toList ++ new.toList, ∃ endpoints, registration.extract item = .ok endpoints

namespace EdgeChange

def items (change : EdgeChange schema) : List Item := change.old.toList ++ change.new.toList

/-- The old or the new edge has the route. -/
def Tells (change : EdgeChange schema) (route : GraphWatchRoute) : Prop :=
  ∃ item ∈ change.items, ∃ endpoints, change.registration.extract item = .ok endpoints ∧
    route ∈ endpointRoutes change.registration endpoints

end EdgeChange

/-- What is asked for of a registered edge type. -/
structure Interest (schema : GraphSchema) where
  registration : EdgeRegistration
  registered : registration ∈ schema.registrations
  selection : GraphSelection

namespace Interest

def routes (interest : Interest schema) : List GraphWatchRoute := interest.selection.routes interest.registration

def Matches (interest : Interest schema) (item : Item) : Prop :=
  itemMatches interest.registration (interest.selection.matchesEndpoints interest.registration) item = true

end Interest

def GraphWatchRoute.edgeType : GraphWatchRoute → String
  | .endpoint edgeType _ _ => edgeType
  | .pair edgeType _ _ => edgeType
  | .incident edgeType _ => edgeType

theorem edgeType_pairWatchRoute (registration : EdgeRegistration) (a b : EndpointValue) :
    (pairWatchRoute registration a b).edgeType = registration.edgeType := by
  obtain ⟨c, d, pair⟩ := pairWatchRoute_cases registration a b
  rw [pair]
  rfl

theorem edgeType_endpointRoutes {registration : EdgeRegistration} {endpoints : EdgeEndpoints}
    {route : GraphWatchRoute} (told : route ∈ endpointRoutes registration endpoints) :
    route.edgeType = registration.edgeType := by
  have pair := edgeType_pairWatchRoute registration endpoints.a endpoints.b
  simp only [endpointRoutes, List.mem_cons, List.not_mem_nil, or_false] at told
  rcases told with rfl | rfl | rfl | rfl | rfl <;> first | rfl | exact pair

theorem edgeType_selectionRoutes {registration : EdgeRegistration} {selection : GraphSelection}
    {route : GraphWatchRoute} (selected : route ∈ selection.routes registration) :
    route.edgeType = registration.edgeType := by
  unfold GraphSelection.routes at selected
  cases selection with
  | «at» position endpoint => rw [List.mem_singleton.mp selected]; rfl
  | manyAt position endpoints =>
    obtain ⟨endpoint, -, rfl⟩ := List.mem_map.mp selected
    rfl
  | between a b =>
    rw [List.mem_singleton.mp selected]
    exact edgeType_pairWatchRoute registration a b
  | incident endpoint => rw [List.mem_singleton.mp selected]; rfl

/-- A change meets the routes of an interest exactly where its old or its new edge matches. -/
theorem EdgeChange.tells_iff (change : EdgeChange schema) (interest : Interest schema) :
    (∃ route, change.Tells route ∧ route ∈ interest.routes) ↔ ∃ item ∈ change.items, interest.Matches item := by
  constructor
  · rintro ⟨route, ⟨item, member, endpoints, extracted, told⟩, selected⟩
    have same : interest.registration = change.registration :=
      List.inj_on_of_nodup_map schema.distinct interest.registered change.registered
        ((edgeType_selectionRoutes selected).symm.trans (edgeType_endpointRoutes told))
    refine ⟨item, member, ?_⟩
    unfold Interest.Matches itemMatches
    unfold Interest.routes at selected
    rw [same] at selected ⊢
    rw [extracted]
    exact (routes_meet_iff _ _ _).mp ⟨route, told, selected⟩
  · rintro ⟨item, member, matched⟩
    obtain ⟨endpoints, extracted⟩ := change.extracts item member
    unfold Interest.Matches itemMatches at matched
    cases found : interest.registration.extract item with
    | error message =>
      rw [found] at matched
      cases matched
    | ok others =>
      have same : interest.registration = change.registration :=
        List.inj_on_of_nodup_map schema.distinct interest.registered change.registered
          ((interest.registration.typed item others found).symm.trans
            (change.registration.typed item endpoints extracted))
      rw [found, same] at matched
      rw [same, extracted] at found
      cases found
      obtain ⟨route, told, selected⟩ := (routes_meet_iff _ _ _).mpr matched
      exact ⟨route, ⟨item, member, endpoints, extracted, told⟩, by rwa [Interest.routes, same]⟩

namespace EdgeChange

variable (change : EdgeChange schema)

theorem watchRoutesForRegistered_of_mem {item : Item} (member : item ∈ change.items) :
    ∃ endpoints, change.registration.extract item = .ok endpoints ∧
      watchRoutesForRegistered schema item = .ok (endpointRoutes change.registration endpoints) := by
  obtain ⟨endpoints, extracted⟩ := change.extracts item member
  refine ⟨endpoints, extracted, ?_⟩
  unfold watchRoutesForRegistered
  rw [change.registration.typed item endpoints extracted, GraphSchema.registration_of_mem change.registered]
  exact watchRoutesForItem_of_extract extracted

/-- The diff of a change of edges, and its routes. -/
theorem diff_cases :
    watchDiffFromChange schema change.old change.new = none ∧ change.items = [] ∨
      ∃ diff routes, watchDiffFromChange schema change.old change.new = some diff ∧
        watchRoutesForDiff schema diff = .ok routes ∧ ∀ route, route ∈ routes ↔ change.Tells route := by
  have read : ∀ item ∈ change.items, (schema.registration item.entityType).isNone = false := by
    intro item member
    obtain ⟨endpoints, extracted⟩ := change.extracts item member
    rw [change.registration.typed item endpoints extracted, GraphSchema.registration_of_mem change.registered]
    rfl
  have told : ∀ item ∈ change.items, ∀ endpoints, change.registration.extract item = .ok endpoints →
      watchRoutesForRegistered schema item = .ok (endpointRoutes change.registration endpoints) := by
    intro item member endpoints extracted
    obtain ⟨others, extracted', routes⟩ := change.watchRoutesForRegistered_of_mem member
    rw [extracted] at extracted'
    cases extracted'
    exact routes
  obtain ⟨registration, registered, old, new, extracts⟩ := change
  unfold watchDiffFromChange Tells
  unfold items at read told ⊢
  dsimp only at read told ⊢
  cases old with
  | none =>
    cases new with
    | none => exact .inl ⟨rfl, rfl⟩
    | some value =>
      obtain ⟨endpoints, extracted⟩ := extracts value (by simp)
      refine .inr ⟨.insert value.id value, endpointRoutes registration endpoints, ?_, ?_, fun route => ?_⟩
      · simp only [Option.or_none, read value (by simp), Bool.false_eq_true, ↓reduceIte]
      · rw [watchRoutesForDiff]
        exact told value (by simp) endpoints extracted
      · simp [extracted]
  | some oldValue =>
    obtain ⟨oldEndpoints, oldExtracted⟩ := extracts oldValue (by simp)
    cases new with
    | none =>
      refine .inr ⟨.remove oldValue.id oldValue, endpointRoutes registration oldEndpoints, ?_, ?_, fun route => ?_⟩
      · simp only [Option.none_or, read oldValue (by simp), Bool.false_eq_true, ↓reduceIte]
      · rw [watchRoutesForDiff]
        exact told oldValue (by simp) oldEndpoints oldExtracted
      · simp [oldExtracted]
    | some value =>
      obtain ⟨endpoints, extracted⟩ := extracts value (by simp)
      refine .inr ⟨.update value.id oldValue value,
        endpointRoutes registration oldEndpoints ++ endpointRoutes registration endpoints, ?_, ?_, fun route => ?_⟩
      · simp only [Option.some_or, read value (by simp), Bool.false_eq_true, ↓reduceIte]
      · rw [watchRoutesForDiff, told oldValue (by simp) oldEndpoints oldExtracted,
          told value (by simp) endpoints extracted]
        rfl
      · simp [oldExtracted, extracted]

/-- The routes of a batch are those of its changes. -/
theorem routes_of_changes (changes : List (EdgeChange schema)) :
    ∃ routes, watchRoutesForDiffs schema
        (changes.filterMap fun change => watchDiffFromChange schema change.old change.new) = .ok routes ∧
      ∀ route, route ∈ routes ↔ ∃ change ∈ changes, change.Tells route := by
  induction changes with
  | nil => exact ⟨[], by rw [List.filterMap_nil, watchRoutesForDiffs]; rfl, by simp⟩
  | cons change rest ih =>
    obtain ⟨others, told, exact⟩ := ih
    rcases change.diff_cases with ⟨silent, bare⟩ | ⟨diff, routes, made, first, exact'⟩
    · refine ⟨others, by simpa only [List.filterMap_cons, silent] using told, fun route => ?_⟩
      rw [exact, List.exists_mem_cons_iff, or_iff_right]
      rintro ⟨item, member, -⟩
      rw [bare] at member
      cases member
    · refine ⟨routes ++ others, ?_, fun route => ?_⟩
      · simp only [List.filterMap_cons, made]
        rw [watchRoutesForDiffs, first, told]
        rfl
      · rw [List.mem_append, exact, exact', List.exists_mem_cons_iff]

end EdgeChange

/-! ### Subscriptions of interests -/

/-- Someone starts or stops listening. -/
inductive Listening (schema : GraphSchema) where
  | watch (interest : Interest schema)
  | unwatch (id : Nat)

def Listening.event : Listening schema → RoutingEvent (Interest schema)
  | .watch interest => .subscribe interest.routes interest
  | .unwatch id => .drop id

namespace Routing

def routingOf (events : List (Listening schema)) : Routing (Interest schema) := start.run (events.map Listening.event)

/-- A live subscription is entered for what it is interested in. -/
theorem routes_routingOf (events : List (Listening schema)) :
    ∀ guard ∈ (routingOf events).live, guard.routes = guard.callback.routes.dedup := by
  have kept : ∀ (events : List (Listening schema)) (σ : Routing (Interest schema)),
      (∀ guard ∈ σ.live, guard.routes = guard.callback.routes.dedup) →
      ∀ guard ∈ (σ.run (events.map Listening.event)).live, guard.routes = guard.callback.routes.dedup := by
    intro events
    induction events with
    | nil => exact fun σ own => own
    | cons event rest ih =>
      intro σ own
      refine ih (σ.step event.event) fun guard listed => ?_
      cases event with
      | watch interest =>
        unfold Listening.event step GraphWatchRouter.subscribeMany at listed
        dsimp only at listed
        split at listed
        · exact own guard listed
        · rcases List.mem_cons.mp listed with rfl | listed
          · rfl
          · exact own guard listed
      | unwatch id =>
        unfold Listening.event step at listed
        dsimp only at listed
        split at listed
        · exact own guard listed
        · exact own guard (List.mem_filter.mp listed).1
  exact kept events start fun guard listed => nomatch listed

variable {σ : Routing (Interest schema)}

/-- A dispatch of the routes of some changes. -/
theorem mem_dispatch (exact : σ.Exact) (own : ∀ guard ∈ σ.live, guard.routes = guard.callback.routes.dedup)
    {changes : List (EdgeChange schema)} {routes : List GraphWatchRoute}
    (told : ∀ route, route ∈ routes ↔ ∃ change ∈ changes, change.Tells route) (id : Nat)
    (interest : Interest schema) :
    (id, interest) ∈ (σ.router.dispatch routes).1 ↔ ∃ guard ∈ σ.live, guard.id = id ∧ guard.callback = interest ∧
      ∃ change ∈ changes, ∃ item ∈ change.items, interest.Matches item := by
  unfold GraphWatchRouter.dispatch
  rw [OrdMap.mem_toList, get_listenersOf exact]
  refine exists_congr fun guard => and_congr_right fun listed => and_congr_right fun _ => and_congr_right ?_
  rintro rfl
  rw [own guard listed]
  constructor
  · rintro ⟨route, dispatched, member⟩
    obtain ⟨change, among, tells⟩ := (told route).mp dispatched
    exact ⟨change, among, (change.tells_iff _).mp ⟨route, tells, List.mem_dedup.mp member⟩⟩
  · rintro ⟨change, among, meets⟩
    obtain ⟨route, tells, member⟩ := (change.tells_iff _).mpr meets
    exact ⟨route, (told route).mpr ⟨change, among, tells⟩, List.mem_dedup.mpr member⟩

end Routing

/-- The calls of one publication: every live subscription with a matching old or new edge once, and no other. -/
structure CalledExactly (σ : Routing (Interest schema)) (changes : List (EdgeChange schema))
    (called : List (Nat × Interest schema)) : Prop where
  once : (called.map Prod.fst).Nodup
  exact : ∀ id interest, (id, interest) ∈ called ↔ ∃ guard ∈ σ.live, guard.id = id ∧ guard.callback = interest ∧
    ∃ change ∈ changes, ∃ item ∈ change.items, interest.Matches item

namespace CalledExactly

variable {σ : Routing (Interest schema)} {changes : List (EdgeChange schema)}

theorem silent (bare : σ.live = [] ∨ ∀ change ∈ changes, change.items = []) : CalledExactly σ changes [] where
  once := List.nodup_nil
  exact id interest := by
    refine ⟨fun called => (nomatch called), ?_⟩
    rintro ⟨guard, listed, -, -, change, among, item, member, -⟩
    rcases bare with bare | bare
    · rw [bare] at listed
      cases listed
    · rw [bare change among] at member
      cases member

theorem of_dispatch (exact : σ.Exact) (own : ∀ guard ∈ σ.live, guard.routes = guard.callback.routes.dedup)
    {routes : List GraphWatchRoute} (told : ∀ route, route ∈ routes ↔ ∃ change ∈ changes, change.Tells route) :
    CalledExactly σ changes (σ.router.dispatch routes).1 where
  once := OrdMap.nodup_keys _
  exact := Routing.mem_dispatch exact own told

end CalledExactly

namespace Routing

variable {σ : Routing (Interest schema)}

theorem no_subscribers (exact : σ.Exact) (silent : ¬σ.router.hasSubscribers = true) : σ.live = [] := by
  unfold GraphWatchRouter.hasSubscribers at silent
  rw [exact.counted, decide_eq_true_eq, not_not] at silent
  exact List.eq_nil_of_length_eq_zero silent

theorem publishWatchChange_exact (exact : σ.Exact)
    (own : ∀ guard ∈ σ.live, guard.routes = guard.callback.routes.dedup) (change : EdgeChange schema) :
    ∃ called router, σ.router.publishWatchChange schema change.old change.new = .ok (called, router) ∧
      CalledExactly σ [change] called := by
  unfold GraphWatchRouter.publishWatchChange
  by_cases heard : σ.router.hasSubscribers = true
  · simp only [heard, Bool.not_true, Bool.false_eq_true, ↓reduceIte]
    rcases change.diff_cases with ⟨silent, bare⟩ | ⟨diff, routes, made, read, told⟩
    · rw [silent]
      exact ⟨[], _, rfl, .silent (.inr fun other among => by rw [List.mem_singleton.mp among, bare])⟩
    · simp only [made, GraphWatchRouter.publishWatchDiff, read]
      exact ⟨_, _, rfl, .of_dispatch exact own fun route => by simp [told]⟩
  · simp only [heard, Bool.not_false, ↓reduceIte]
    exact ⟨[], _, rfl, .silent (.inl (no_subscribers exact heard))⟩

theorem publishWatchChanges_exact (exact : σ.Exact)
    (own : ∀ guard ∈ σ.live, guard.routes = guard.callback.routes.dedup) (changes : List (EdgeChange schema)) :
    ∃ called router, σ.router.publishWatchChanges schema (changes.map fun change => (change.old, change.new)) =
      .ok (called, router) ∧ CalledExactly σ changes called := by
  unfold GraphWatchRouter.publishWatchChanges
  by_cases heard : σ.router.hasSubscribers = true
  · simp only [heard, Bool.not_true, Bool.false_eq_true, ↓reduceIte, List.filterMap_map]
    obtain ⟨routes, read, told⟩ := EdgeChange.routes_of_changes changes
    have called : CalledExactly σ changes (σ.router.dispatch routes).1 := .of_dispatch exact own told
    change ∃ called router, (match changes.filterMap fun change =>
        watchDiffFromChange schema change.old change.new with
      | [] => pure ([], σ.router)
      | [diff] => σ.router.publishWatchDiff schema diff
      | diffs => σ.router.publishWatchDiff schema (.batch diffs)) = Except.ok (called, router) ∧ _
    generalize (changes.filterMap fun change => watchDiffFromChange schema change.old change.new) = diffs at read
    match diffs with
    | [] =>
      rw [watchRoutesForDiffs] at read
      cases read
      exact ⟨[], _, rfl, called⟩
    | [diff] =>
      rw [watchRoutesForDiffs, watchRoutesForDiffs] at read
      cases first : watchRoutesForDiff schema diff with
      | error message =>
        rw [first] at read
        cases read
      | ok alone =>
        rw [first] at read
        cases read
        rw [List.append_nil] at called
        dsimp only
        rw [GraphWatchRouter.publishWatchDiff, first]
        exact ⟨_, _, rfl, called⟩
    | first :: second :: rest =>
      dsimp only
      rw [GraphWatchRouter.publishWatchDiff, watchRoutesForDiff, read]
      exact ⟨_, _, rfl, called⟩
  · simp only [heard, Bool.not_false, ↓reduceIte]
    exact ⟨[], _, rfl, .silent (.inl (no_subscribers exact heard))⟩

end Routing

end Myko

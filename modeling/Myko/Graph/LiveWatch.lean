import Myko.Graph.Routing
import Myko.Graph.Window

/-!
Watches kept by what is published. A batch is heard change by change, each one as the store was before the whole of
it, so an edge that a batch writes more than once may be heard of in vain.
-/

namespace Myko

namespace GraphWatch

variable (watch : GraphWatch)

/-- What is stored under an id is an edge that matches. -/
def hits (value : Option Item) : Bool := value.any (itemMatches watch.registration watch.matchesEndpoints)

/-- The edges held, or the number of them, are those that a look-up of the selection gives. -/
def Exact (view : GraphView) : Prop :=
  match watch.output with
  | .map entries => ∀ (id : String) (item : Item), entries[id]? = some item ↔
      id ∈ view.edgeIds watch.registration watch.selection ∧
        view.registry.getValue watch.registration.edgeType id = some item
  | .count count => count = (view.edgeIds watch.registration watch.selection).length

/-- The values that match are held, or counted. -/
def Holds (value : String → Option Item) : Prop :=
  match watch.output with
  | .map entries => ∀ id : String, entries[id]? = if watch.hits (value id) then value id else none
  | .count count => ∃ ids : List String, ids.Nodup ∧ (∀ id, id ∈ ids ↔ watch.hits (value id) = true) ∧
      count = ids.length

/-- Where a batch writes an edge again, a map has not been told of a match that was neither there before nor is there in
the end, and a counter of no other match than there was before. -/
def Follows (registry : StoreRegistry) (changes : List Change) : Prop :=
  ∀ first change rest, changes = first ++ change :: rest → (∃ later ∈ rest, later.key = change.key) →
    match watch.output with
    | .map _ => watch.hits change.value = true → watch.hits (registry.canonicalItem change.item) = true ∨
        watch.hits ((registry.writeAll changes).canonicalItem change.item) = true
    | .count _ => watch.hits change.value = watch.hits (registry.canonicalItem change.item)

/-! ### Change by change -/

def hear (id : String) (old new : Option Item) : GraphWatch :=
  { watch with output :=
      match watch.output with
      | .map entries =>
        .map (if watch.hits old || watch.hits new then entries.write (id, if watch.hits new then new else none)
          else entries)
      | .count count =>
        .count (match watch.hits old, watch.hits new with
          | true, false => count - 1
          | false, true => count + 1
          | true, true => count
          | false, false => count) }

/-- The changes of a batch, heard one after the other. -/
def hearAll (registry : StoreRegistry) (changes : List Change) : GraphWatch :=
  changes.foldl (fun watch change => watch.hear change.item.id (registry.canonicalItem change.item) change.value) watch

variable {watch}

theorem registration_hearAll {registry : StoreRegistry} {changes : List Change} :
    (watch.hearAll registry changes).registration = watch.registration := by
  induction changes generalizing watch with
  | nil => rfl
  | cons change rest ih => exact @ih (watch.hear change.item.id (registry.canonicalItem change.item) change.value)

theorem hear_quiet {id : String} {old new : Option Item} (before : watch.hits old = false)
    (now : watch.hits new = false) : watch.hear id old new = watch := by
  obtain ⟨registration, selection, output⟩ := watch
  unfold hear
  rw [before, now]
  cases output <;> rfl

theorem hearAll_quiet {registry : StoreRegistry} {changes : List Change}
    (quiet : ∀ change ∈ changes, watch.hits (registry.canonicalItem change.item) = false ∧
      watch.hits change.value = false) : watch.hearAll registry changes = watch := by
  induction changes with
  | nil => rfl
  | cons change rest ih =>
    obtain ⟨before, now⟩ := quiet change List.mem_cons_self
    unfold hearAll at ih ⊢
    rw [List.foldl_cons, hear_quiet before now]
    exact ih fun later member => quiet later (List.mem_cons_of_mem _ member)

/-- An edge that matches is of the type that is watched. -/
theorem typed_of_hits {item : Item} (hit : watch.hits (some item) = true) :
    item.entityType = watch.registration.edgeType := by
  change itemMatches _ _ item = true at hit
  unfold itemMatches at hit
  cases extracted : watch.registration.extract item with
  | error error =>
    rw [extracted] at hit
    cases hit
  | ok endpoints => exact watch.registration.typed item endpoints extracted

theorem hits_other {change : Change} (other : change.item.entityType ≠ watch.registration.edgeType)
    (registry : StoreRegistry) :
    watch.hits (registry.canonicalItem change.item) = false ∧ watch.hits change.value = false := by
  refine ⟨Bool.eq_false_iff.mpr fun hit => ?_, Bool.eq_false_iff.mpr fun hit => ?_⟩
  · cases stored : registry.canonicalItem change.item with
    | none =>
      rw [stored] at hit
      cases hit
    | some item =>
      rw [stored] at hit
      exact other ((StoreRegistry.getValue_keyed stored).1.symm.trans (typed_of_hits hit))
  · obtain ⟨kind, item⟩ := change
    cases kind with
    | del => cases hit
    | set => exact other (typed_of_hits hit)

/-! ### What is published is heard -/

/-- A watch makes of the diff of a change what it makes of the change. -/
theorem receive_change {schema : GraphSchema} {id : String} {old new : Option Item} {diff : GraphWatchDiff}
    (made : watchDiffFromChange schema old new = some diff)
    (keyed : ∀ item, old = some item ∨ new = some item → item.id = id) :
    watch.receive diff = watch.hear id old new := by
  have none_hits : watch.hits none = false := rfl
  have hits_some : ∀ item, watch.hits (some item) = itemMatches watch.registration watch.matchesEndpoints item :=
    fun _ => rfl
  unfold watchDiffFromChange at made
  cases old with
  | none =>
    cases new with
    | none => cases made
    | some value =>
      obtain rfl := keyed value (.inr rfl)
      dsimp only [Option.or] at made
      split at made <;> cases made
      unfold receive hear
      cases shape : watch.output <;> cases hit : itemMatches watch.registration watch.matchesEndpoints value <;>
        simp [watchDiffMatching, applyWatchCountDiff, none_hits, hits_some, hit, OrdMap.write, MapDiff.apply, ← shape]
  | some oldValue =>
    cases new with
    | none =>
      obtain rfl := keyed oldValue (.inl rfl)
      dsimp only [Option.or] at made
      split at made <;> cases made
      unfold receive hear
      cases shape : watch.output <;> cases hit : itemMatches watch.registration watch.matchesEndpoints oldValue <;>
        simp [watchDiffMatching, applyWatchCountDiff, none_hits, hits_some, hit, OrdMap.write, MapDiff.apply, ← shape]
    | some newValue =>
      obtain rfl := keyed newValue (.inr rfl)
      dsimp only [Option.or] at made
      split at made <;> cases made
      unfold receive hear
      cases shape : watch.output <;> cases hit : itemMatches watch.registration watch.matchesEndpoints oldValue <;>
        cases hit' : itemMatches watch.registration watch.matchesEndpoints newValue <;>
        simp [watchDiffMatching, applyWatchCountDiff, hits_some, hit, hit', OrdMap.write, MapDiff.apply, ← shape]

theorem receive_batch (diffs : List GraphWatchDiff) :
    watch.receive (.batch diffs) = diffs.foldl receive watch := by
  induction diffs generalizing watch with
  | nil =>
    unfold receive
    cases shape : watch.output <;>
      simp [watchDiffMatching, watchDiffsMatching, applyWatchCountDiff, applyWatchCountDiffs, ← shape]
  | cons diff rest ih =>
    rw [List.foldl_cons, ← ih]
    unfold receive
    cases shape : watch.output with
    | map entries =>
      dsimp only
      rw [watchDiffMatching, watchDiffsMatching]
      cases first : watchDiffMatching watch.registration watch.matchesEndpoints diff with
      | none =>
        dsimp only
        rw [shape]
        dsimp only
        rw [watchDiffMatching]
        rfl
      | some matching =>
        have same : (⟨watch.registration, watch.selection, .map (matching.apply entries)⟩ : GraphWatch).matchesEndpoints =
          watch.matchesEndpoints := rfl
        dsimp only
        rw [same, watchDiffMatching, Option.toList_some, List.singleton_append, List.isEmpty_cons,
          if_neg Bool.false_ne_true]
        cases watchDiffsMatching watch.registration watch.matchesEndpoints rest <;> rfl
    | count count =>
      have same : (⟨watch.registration, watch.selection, .count
          (applyWatchCountDiff watch.registration watch.matchesEndpoints diff count)⟩ : GraphWatch).matchesEndpoints =
        watch.matchesEndpoints := rfl
      dsimp only
      rw [same, applyWatchCountDiff, applyWatchCountDiffs, applyWatchCountDiff]

/-- The changes of edges of a batch, as they are published. -/
def published (schema : GraphSchema) (registry : StoreRegistry) (changes : List Change) :
    List (Option Item × Option Item) :=
  (changes.filter fun change => (schema.registration change.item.entityType).isSome).map
    fun change => (registry.canonicalItem change.item, change.value)

section
variable {schema : GraphSchema} {registry : StoreRegistry} {changes : List Change}
  (registered : watch.registration ∈ schema.registrations)
include registered

/-- A change of one entity without a diff is of nothing that matches. -/
theorem hits_of_no_diff {old new : Option Item} {entityType : String}
    (typed : ∀ item, old = some item ∨ new = some item → item.entityType = entityType)
    (silent : watchDiffFromChange schema old new = none) : watch.hits old = false ∧ watch.hits new = false := by
  have unknown : (old.or new).isSome = true → entityType ≠ watch.registration.edgeType := by
    rintro here rfl
    have found := GraphSchema.registration_of_mem registered
    unfold watchDiffFromChange at silent
    cases old with
    | none =>
      cases new with
      | none => cases here
      | some value =>
        simp [typed value (.inr rfl), found] at silent
    | some value =>
      cases new with
      | none => simp [typed value (.inl rfl), found] at silent
      | some value' => simp [typed value' (.inr rfl), found] at silent
  refine ⟨Bool.eq_false_iff.mpr fun hit => ?_, Bool.eq_false_iff.mpr fun hit => ?_⟩
  · cases old with
    | none => cases hit
    | some item => exact unknown rfl ((typed item (.inl rfl)).symm.trans (typed_of_hits hit))
  · cases new with
    | none => cases hit
    | some item =>
      exact unknown (by cases old <;> rfl) ((typed item (.inr rfl)).symm.trans (typed_of_hits hit))

omit registered in
theorem keyed_of_change {change : Change} {item : Item}
    (here : registry.canonicalItem change.item = some item ∨ change.value = some item) :
    item.entityType = change.item.entityType ∧ item.id = change.item.id := by
  rcases here with stored | written
  · exact StoreRegistry.getValue_keyed stored
  · obtain ⟨kind, value⟩ := change
    cases kind <;> cases written
    exact ⟨rfl, rfl⟩

/-- The diffs that are published for a batch are heard as its changes. -/
theorem foldl_receive :
    ((published schema registry changes).filterMap fun change => watchDiffFromChange schema change.1 change.2).foldl
      receive watch = watch.hearAll registry changes := by
  induction changes generalizing watch with
  | nil => rfl
  | cons change rest ih =>
    have after := @ih (watch.hear change.item.id (registry.canonicalItem change.item) change.value) registered
    unfold published at after ih ⊢
    rw [hearAll, List.foldl_cons, ← hearAll, ← after, List.filter_cons]
    split
    · rename_i known
      rw [List.map_cons, List.filterMap_cons]
      cases made : watchDiffFromChange schema (registry.canonicalItem change.item) change.value with
      | some diff =>
        dsimp only
        rw [List.foldl_cons, receive_change made fun _ here => (keyed_of_change here).2]
      | none =>
        obtain ⟨before, now⟩ := hits_of_no_diff registered (fun _ here => (keyed_of_change here).1) made
        dsimp only
        rw [hear_quiet before now]
    · rename_i unknown
      have other : change.item.entityType ≠ watch.registration.edgeType := by
        intro same
        rw [same, GraphSchema.registration_of_mem registered] at unknown
        exact unknown rfl
      obtain ⟨before, now⟩ := hits_other other registry
      rw [hear_quiet before now]

omit registered in
/-- An edge that matches meets a route of the watch. -/
theorem meets_of_hits {item : Item} (hit : watch.hits (some item) = true) :
    ∃ endpoints, watch.registration.extract item = .ok endpoints ∧
      ∃ route ∈ watch.routes, route ∈ endpointRoutes watch.registration endpoints := by
  change itemMatches _ _ item = true at hit
  unfold itemMatches at hit
  cases extracted : watch.registration.extract item with
  | error error =>
    rw [extracted] at hit
    cases hit
  | ok endpoints =>
    rw [extracted] at hit
    obtain ⟨route, here, mine⟩ := (routes_meet_iff watch.registration endpoints watch.selection).mpr hit
    exact ⟨endpoints, rfl, route, mine, here⟩

/-- A matching edge is routed to the watch. -/
theorem routed {item : Item} (hit : watch.hits (some item) = true) {routes : List GraphWatchRoute}
    (told : watchRoutesForRegistered schema item = .ok routes) : ∃ route ∈ watch.routes, route ∈ routes := by
  obtain ⟨endpoints, extracted, meets⟩ := meets_of_hits hit
  unfold watchRoutesForRegistered at told
  rw [typed_of_hits hit, GraphSchema.registration_of_mem registered] at told
  dsimp only at told
  rw [watchRoutesForItem_of_extract extracted] at told
  cases told
  exact meets

/-- What a diff is of that matches is routed to the watch. -/
theorem routed_change {old new : Option Item} {diff : GraphWatchDiff}
    (made : watchDiffFromChange schema old new = some diff) {routes : List GraphWatchRoute}
    (told : watchRoutesForDiff schema diff = .ok routes) (hit : watch.hits old = true ∨ watch.hits new = true) :
    ∃ route ∈ watch.routes, route ∈ routes := by
  unfold watchDiffFromChange at made
  cases old with
  | none =>
    cases new with
    | none => cases made
    | some value =>
      dsimp only [Option.or] at made
      split at made <;> cases made
      unfold watchRoutesForDiff at told
      exact routed registered (hit.resolve_left Bool.false_ne_true) told
  | some oldValue =>
    cases new with
    | none =>
      dsimp only [Option.or] at made
      split at made <;> cases made
      unfold watchRoutesForDiff at told
      exact routed registered (hit.resolve_right Bool.false_ne_true) told
    | some newValue =>
      dsimp only [Option.or] at made
      split at made <;> cases made
      unfold watchRoutesForDiff at told
      obtain ⟨before, first, told⟩ := StateError.except_bind_ok told
      obtain ⟨now, second, told⟩ := StateError.except_bind_ok told
      cases told
      rcases hit with hit | hit
      · obtain ⟨route, mine, here⟩ := routed registered hit first
        exact ⟨route, mine, List.mem_append_left _ here⟩
      · obtain ⟨route, mine, here⟩ := routed registered hit second
        exact ⟨route, mine, List.mem_append_right _ here⟩

/-- A batch of nothing that matches is not heard. -/
theorem hearAll_silent (silent : ∀ change ∈ published schema registry changes, ∀ diff,
      watchDiffFromChange schema change.1 change.2 = some diff →
        ¬(watch.hits change.1 = true ∨ watch.hits change.2 = true)) : watch.hearAll registry changes = watch := by
  refine hearAll_quiet fun change member => ?_
  by_cases same : change.item.entityType = watch.registration.edgeType
  · have known : (schema.registration change.item.entityType).isSome = true := by
      rw [same, GraphSchema.registration_of_mem registered]
      rfl
    cases made : watchDiffFromChange schema (registry.canonicalItem change.item) change.value with
    | none => exact hits_of_no_diff registered (fun _ here => (keyed_of_change here).1) made
    | some diff =>
      have misses := silent _ (List.mem_map_of_mem (List.mem_filter.mpr ⟨member, known⟩)) diff made
      rw [not_or, Bool.not_eq_true, Bool.not_eq_true] at misses
      exact misses
  · exact hits_other same registry

end

/-- What is published is heard by every watch. -/
theorem heard_of_published {schema : GraphSchema} {registry : StoreRegistry} {changes : List Change}
    {watches after : List GraphWatch} (registered : ∀ watch ∈ watches, watch.registration ∈ schema.registrations)
    (told : publishWatchChanges schema (published schema registry changes) watches = .ok after) :
    after = watches.map fun watch => watch.hearAll registry changes := by
  have dispatched : ∀ diff routes,
      (∀ own ∈ (published schema registry changes).filterMap fun change => watchDiffFromChange schema change.1 change.2,
        ∃ some, watchRoutesForDiff schema own = .ok some ∧ some ⊆ routes) →
      (∀ watch ∈ watches, watch.receive diff = watch.hearAll registry changes) →
      dispatch routes diff watches = watches.map fun watch => watch.hearAll registry changes := by
    intro diff routes own hears
    refine List.map_congr_left fun watch member => ?_
    split
    · exact hears watch member
    · rename_i unrouted
      refine (hearAll_silent (registered watch member) fun change among made same hit => unrouted ?_).symm
      obtain ⟨some, told, within⟩ := own made (List.mem_filterMap.mpr ⟨change, among, same⟩)
      obtain ⟨route, mine, here⟩ := routed_change (registered watch member) same told hit
      exact List.any_eq_true.mpr ⟨route, mine, decide_eq_true (within here)⟩
  unfold publishWatchChanges at told
  split at told
  · rename_i unwatched
    cases told
    refine ((List.map_congr_left fun watch member => ?_).trans (List.map_id _)).symm
    have bare : watch.routes = [] := by
      have none := List.any_eq_false.mp (Bool.not_eq_true' _ |>.mp unwatched) watch member
      simpa using none
    have misses : ∀ value, watch.hits value ≠ true := by
      intro value hit
      cases value with
      | none => cases hit
      | some item =>
        obtain ⟨_, _, route, mine, _⟩ := meets_of_hits hit
        rw [bare] at mine
        cases mine
    exact hearAll_silent (registered watch member) fun _ _ _ _ hit => hit.elim (misses _) (misses _)
  · have heard : ∀ watch ∈ watches, watch.hearAll registry changes =
        ((published schema registry changes).filterMap fun change =>
          watchDiffFromChange schema change.1 change.2).foldl receive watch :=
      fun watch member => (foldl_receive (registered watch member)).symm
    generalize ((published schema registry changes).filterMap fun change =>
      watchDiffFromChange schema change.1 change.2) = diffs at told dispatched heard
    match diffs with
    | [] =>
      cases told
      exact ((List.map_congr_left heard).trans (List.map_id _)).symm
    | [diff] =>
      dsimp only at told
      unfold publishWatchDiff at told
      obtain ⟨routes, found, told⟩ := StateError.except_bind_ok told
      cases told
      refine dispatched diff routes (fun own among => ?_) fun watch member => (heard watch member).symm
      rw [List.mem_singleton.mp among]
      exact ⟨routes, found, List.Subset.refl routes⟩
    | first :: second :: rest =>
      dsimp only at told
      unfold publishWatchDiff at told
      obtain ⟨routes, found, told⟩ := StateError.except_bind_ok told
      cases told
      rw [watchRoutesForDiff] at found
      refine dispatched _ routes (fun own among => routed_of_among among found) fun watch member => ?_
      rw [receive_batch]
      exact (heard watch member).symm

/-! ### What is heard is held -/

/-- The last write of an entity in a batch. -/
theorem exists_last_write {changes : List Change} {key : String × String}
    (written : ∃ change ∈ changes, change.key = key) :
    ∃ first change rest, changes = first ++ change :: rest ∧ change.key = key ∧ ∀ later ∈ rest, later.key ≠ key := by
  induction changes with
  | nil =>
    obtain ⟨_, member, _⟩ := written
    cases member
  | cons change rest ih =>
    by_cases again : ∃ later ∈ rest, later.key = key
    · obtain ⟨first, last, after, rfl, here, none⟩ := ih again
      exact ⟨change :: first, last, after, rfl, here, none⟩
    · obtain ⟨other, member, here⟩ := written
      rcases List.mem_cons.mp member with rfl | later
      · exact ⟨[], other, rest, rfl, here, fun later member same => again ⟨later, member, same⟩⟩
      · exact absurd ⟨other, later, here⟩ again

/-- A batch leaves under an id what its last write of it does. -/
theorem getValue_last_write {registry : StoreRegistry} {first rest : List Change} {change : Change}
    (last : ∀ later ∈ rest, later.key ≠ change.key) :
    (registry.writeAll (first ++ change :: rest)).getValue change.item.entityType change.item.id = change.value := by
  rw [StoreRegistry.writeAll_append]
  change (((registry.writeAll first).write change).writeAll rest).getValue _ _ = _
  rcases ((registry.writeAll first).write change).getValue_writeAll_cases rest change.item.entityType change.item.id with
    ⟨later, member, same, -⟩ | ⟨-, value⟩
  · exact absurd same (last later member)
  · rw [value, StoreRegistry.getValue_write]
    exact if_pos rfl

section
variable {registry : StoreRegistry} {changes : List Change}

/-- What a map is told of a change. -/
def told (watch : GraphWatch) (registry : StoreRegistry) (change : Change) : Option (String × Option Item) :=
  if watch.hits (registry.canonicalItem change.item) || watch.hits change.value then
    some (change.item.id, if watch.hits change.value then change.value else none)
  else none

def tell (watch : GraphWatch) (registry : StoreRegistry) (entries : OrdMap String Item) (change : Change) :
    OrdMap String Item :=
  match watch.told registry change with
  | some write => entries.write write
  | none => entries

def tally (watch : GraphWatch) (registry : StoreRegistry) (count : Nat) (change : Change) : Nat :=
  match watch.hits (registry.canonicalItem change.item), watch.hits change.value with
  | true, false => count - 1
  | false, true => count + 1
  | true, true => count
  | false, false => count

theorem hearAll_map {entries : OrdMap String Item} (shape : watch.output = .map entries) :
    watch.hearAll registry changes = { watch with output := .map (changes.foldl (watch.tell registry) entries) } := by
  induction changes generalizing watch entries with
  | nil =>
    rw [List.foldl_nil, ← shape]
    rfl
  | cons change rest ih =>
    have heard : (watch.hear change.item.id (registry.canonicalItem change.item) change.value).output =
        .map (watch.tell registry entries change) := by
      unfold hear tell told
      rw [shape]
      dsimp only
      split <;> rfl
    exact ih heard

theorem hearAll_count {count : Nat} (shape : watch.output = .count count) :
    watch.hearAll registry changes = { watch with output := .count (changes.foldl (watch.tally registry) count) } := by
  induction changes generalizing watch count with
  | nil =>
    rw [List.foldl_nil, ← shape]
    rfl
  | cons change rest ih =>
    have heard : (watch.hear change.item.id (registry.canonicalItem change.item) change.value).output =
        .count (watch.tally registry count change) := by
      unfold hear tally
      rw [shape]
    exact ih heard

theorem replays_told :
    KeyedLog.Replays (watch.told registry) (fun (entries : OrdMap String Item) id => entries[id]?)
      (watch.tell registry) := by
  intro entries change id
  unfold tell KeyedLog.effectOn
  cases watch.told registry change with
  | none => rfl
  | some write => exact OrdMap.replays_write entries write id

/-- A map is told nothing about other edges. -/
theorem untold_of_ne {change : Change} {id : String} (other : change.key ≠ (watch.registration.edgeType, id)) :
    KeyedLog.effectOn (watch.told registry) id change = none := by
  unfold KeyedLog.effectOn told
  by_cases typed : change.item.entityType = watch.registration.edgeType
  · have apart : change.item.id ≠ id := fun same => other (by rw [← typed, ← same]; rfl)
    split <;> simp_all
  · obtain ⟨before, now⟩ := hits_other typed registry
    simp [before, now]

/-- A batch that writes each entity once is followed. -/
theorem follows_of_distinct (watch : GraphWatch) (distinct : (changes.map Change.key).Nodup) :
    watch.Follows registry changes := by
  rintro first change rest rfl ⟨later, member, same⟩
  rw [List.map_append, List.nodup_append, List.map_cons, List.nodup_cons] at distinct
  exact absurd (same ▸ List.mem_map_of_mem member) distinct.2.1.1

/-- An entity that matches neither before a batch nor after it is one a map that follows the batch is not told of. -/
theorem untold_of_follows {entries : OrdMap String Item} (shape : watch.output = .map entries)
    {first rest : List Change} {change : Change} (follows : watch.Follows registry (first ++ change :: rest))
    (last : ∀ later ∈ rest, later.key ≠ change.key)
    (before : watch.hits (registry.canonicalItem change.item) = false) (now : watch.hits change.value = false)
    (typed : change.item.entityType = watch.registration.edgeType) :
    KeyedLog.lastEffect (watch.told registry) change.item.id (first ++ [change]) = none := by
  refine KeyedLog.lastEffect_eq_none.mpr fun earlier member => ?_
  by_cases same : earlier.key = change.key
  · obtain ⟨sameType, sameId⟩ := Prod.mk.inj same
    have there : ∀ other : StoreRegistry, other.canonicalItem earlier.item = other.canonicalItem change.item := by
      intro other
      unfold StoreRegistry.canonicalItem
      rw [sameType, sameId]
    have misses : watch.hits earlier.value = false := by
      rcases List.mem_append.mp member with among | only
      · obtain ⟨done, todo, rfl⟩ := List.append_of_mem among
        have final : (registry.writeAll (done ++ earlier :: todo ++ change :: rest)).canonicalItem change.item =
          change.value := getValue_last_write last
        unfold Follows at follows
        rw [shape] at follows
        have followed := follows done earlier (todo ++ change :: rest) (by simp) ⟨change, by simp, same.symm⟩
        dsimp only at followed
        rw [there, before, there, final, now] at followed
        exact Bool.eq_false_iff.mpr fun hit => by simpa using followed hit
      · rw [List.mem_singleton.mp only]
        exact now
    unfold KeyedLog.effectOn told
    rw [there, before, misses]
    rfl
  · exact untold_of_ne fun here => same (here.trans (by rw [← typed]; rfl))

/-- A map that follows a batch holds the values that match. -/
theorem holds_map {entries : OrdMap String Item} (shape : watch.output = .map entries)
    (holds : watch.Holds (registry.getValue watch.registration.edgeType)) (follows : watch.Follows registry changes) :
    (watch.hearAll registry changes).Holds ((registry.writeAll changes).getValue watch.registration.edgeType) := by
  unfold Holds at holds
  rw [shape] at holds
  dsimp only at holds
  rw [hearAll_map shape]
  intro id
  show (changes.foldl (watch.tell registry) entries)[id]? =
    if watch.hits _ then (registry.writeAll changes).getValue watch.registration.edgeType id else none
  rw [KeyedLog.get_foldl replays_told, holds]
  by_cases written : ∃ change ∈ changes, change.key = (watch.registration.edgeType, id)
  · obtain ⟨first, change, rest, rfl, here, last⟩ := exists_last_write written
    have last' : ∀ later ∈ rest, later.key ≠ change.key := fun later member => here ▸ last later member
    obtain ⟨typed, rfl⟩ := Prod.mk.inj here
    have later : KeyedLog.lastEffect (watch.told registry) change.item.id rest = none :=
      KeyedLog.lastEffect_eq_none.mpr fun later member => untold_of_ne (last later member)
    have final : (registry.writeAll (first ++ change :: rest)).getValue change.item.entityType change.item.id =
        change.value := getValue_last_write last'
    rw [typed] at final
    by_cases hit : (watch.hits (registry.canonicalItem change.item) || watch.hits change.value) = true
    · have effect : KeyedLog.effectOn (watch.told registry) change.item.id change =
          some (if watch.hits change.value then change.value else none) := by
        unfold KeyedLog.effectOn told
        rw [if_pos hit]
        exact if_pos rfl
      rw [KeyedLog.lastEffect_append, KeyedLog.lastEffect_cons, later, Option.none_or, final, effect]
      rfl
    · rw [Bool.not_eq_true, Bool.or_eq_false_iff] at hit
      obtain ⟨before, now⟩ := hit
      have untold := untold_of_follows shape follows last' before now typed
      have old : registry.getValue watch.registration.edgeType change.item.id = registry.canonicalItem change.item := by
        unfold StoreRegistry.canonicalItem
        rw [typed]
      rw [List.append_cons, KeyedLog.lastEffect_append, later, Option.none_or, untold, Option.getD_none, old, before,
        ← List.append_cons, final, now]
      rfl
  · have untold : KeyedLog.lastEffect (watch.told registry) id changes = none :=
      KeyedLog.lastEffect_eq_none.mpr fun change member =>
        untold_of_ne fun same => written ⟨change, member, same⟩
    rcases registry.getValue_writeAll_cases changes watch.registration.edgeType id with
      ⟨change, member, same, -⟩ | ⟨-, value⟩
    · exact absurd ⟨change, member, same⟩ written
    · rw [untold, Option.getD_none, value]

/-- The number of values that match. -/
def Counts (watch : GraphWatch) (count : Nat) (value : String → Option Item) : Prop :=
  ∃ ids : List String, ids.Nodup ∧ (∀ id, id ∈ ids ↔ watch.hits (value id) = true) ∧ count = ids.length

theorem counts_write {count : Nat} {change : Change}
    (counts : watch.Counts count (registry.getValue watch.registration.edgeType)) :
    watch.Counts (watch.tally registry count change)
      ((registry.write change).getValue watch.registration.edgeType) := by
  obtain ⟨ids, nodup, counted, rfl⟩ := counts
  unfold Counts tally
  by_cases typed : change.item.entityType = watch.registration.edgeType
  · have old : registry.canonicalItem change.item = registry.getValue watch.registration.edgeType change.item.id := by
      unfold StoreRegistry.canonicalItem
      rw [typed]
    have value : ∀ id, (registry.write change).getValue watch.registration.edgeType id =
        if id = change.item.id then change.value else registry.getValue watch.registration.edgeType id := by
      intro id
      rw [StoreRegistry.getValue_write]
      refine if_congr ?_ rfl rfl
      rw [Change.key, typed, Prod.mk.injEq, and_iff_right rfl]
    rw [old]
    have listed := counted change.item.id
    cases before : watch.hits (registry.getValue watch.registration.edgeType change.item.id) <;>
      cases now : watch.hits change.value <;> rw [before] at listed
    · refine ⟨ids, nodup, fun id => ?_, rfl⟩
      rw [counted, value]
      split
      · subst_vars
        rw [before, now]
      · rfl
    · refine ⟨change.item.id :: ids, List.nodup_cons.mpr ⟨by simpa using listed, nodup⟩, fun id => ?_, rfl⟩
      rw [List.mem_cons, counted, value]
      split
      · subst_vars
        simp [now]
      · rename_i other
        simp [other]
    · refine ⟨ids.erase change.item.id, nodup.erase _, fun id => ?_, ?_⟩
      · rw [nodup.mem_erase_iff, counted, value]
        split
        · subst_vars
          simp [now]
        · rename_i other
          simp [other]
      · exact (List.length_erase_of_mem (listed.mpr rfl)).symm
    · refine ⟨ids, nodup, fun id => ?_, rfl⟩
      rw [counted, value]
      split
      · subst_vars
        rw [before, now]
      · rfl
  · obtain ⟨before, now⟩ := hits_other typed registry
    rw [before, now]
    refine ⟨ids, nodup, fun id => ?_, rfl⟩
    have apart : (watch.registration.edgeType, id) ≠ change.key := fun same => typed (Prod.mk.inj same).1.symm
    rw [counted, StoreRegistry.getValue_write, if_neg apart]

/-- A counter that follows a batch counts the values that match. -/
theorem holds_count {count : Nat} (shape : watch.output = .count count)
    (holds : watch.Holds (registry.getValue watch.registration.edgeType)) (follows : watch.Follows registry changes) :
    (watch.hearAll registry changes).Holds ((registry.writeAll changes).getValue watch.registration.edgeType) := by
  unfold Holds at holds
  unfold Follows at follows
  rw [shape] at holds follows
  dsimp only at holds follows
  rw [hearAll_count shape]
  show watch.Counts (changes.foldl (watch.tally registry) count) _
  have onTheWay : ∀ done change rest, changes = done ++ change :: rest →
      watch.hits ((registry.writeAll done).canonicalItem change.item) =
        watch.hits (registry.canonicalItem change.item) := by
    intro done change rest split
    rcases registry.getValue_writeAll_cases done change.item.entityType change.item.id with
      ⟨earlier, member, same, value⟩ | ⟨-, value⟩
    · obtain ⟨before, between, rfl⟩ := List.append_of_mem member
      have follows := follows before earlier (between ++ change :: rest) (by simp [split]) ⟨change, by simp, same.symm⟩
      obtain ⟨sameType, sameId⟩ := Prod.mk.inj same
      unfold StoreRegistry.canonicalItem at follows ⊢
      rw [value, follows, sameType, sameId]
    · unfold StoreRegistry.canonicalItem
      rw [value]
  have along : ∀ todo done count, changes = done ++ todo →
      watch.Counts count ((registry.writeAll done).getValue watch.registration.edgeType) →
      watch.Counts (todo.foldl (watch.tally registry) count)
        ((registry.writeAll changes).getValue watch.registration.edgeType) := by
    intro todo
    induction todo with
    | nil =>
      rintro done count rfl counts
      rw [List.append_nil]
      exact counts
    | cons change rest ih =>
      intro done count split counts
      have next : watch.Counts (watch.tally (registry.writeAll done) count change)
          (((registry.writeAll done).write change).getValue watch.registration.edgeType) := counts_write counts
      have written : (registry.writeAll done).write change = registry.writeAll (done ++ [change]) :=
        (StoreRegistry.writeAll_append registry done [change]).symm
      rw [written] at next
      have same : watch.tally (registry.writeAll done) count change = watch.tally registry count change := by
        unfold tally
        rw [onTheWay done change rest split]
      rw [same] at next
      exact ih (done ++ [change]) _ (by simp [split]) next
  exact along changes [] count rfl holds

/-- A watch that follows a batch holds, or counts, the values that match. -/
theorem Holds.hearAll (holds : watch.Holds (registry.getValue watch.registration.edgeType))
    (follows : watch.Follows registry changes) :
    (watch.hearAll registry changes).Holds ((registry.writeAll changes).getValue watch.registration.edgeType) := by
  cases shape : watch.output with
  | map entries => exact holds_map shape holds follows
  | count count => exact holds_count shape holds follows

end

/-- Only the values that match count. -/
theorem Holds.congr {value value' : String → Option Item} (holds : watch.Holds value)
    (same : ∀ id, watch.hits (value' id) = watch.hits (value id))
    (kept : ∀ id, watch.hits (value id) = true → value' id = value id) : watch.Holds value' := by
  unfold Holds at holds ⊢
  cases shape : watch.output with
  | map entries =>
    rw [shape] at holds
    intro id
    rw [holds, same]
    split
    · rename_i hit
      exact (kept id hit).symm
    · rfl
  | count count =>
    rw [shape] at holds
    obtain ⟨ids, nodup, counted, length⟩ := holds
    exact ⟨ids, nodup, fun id => by rw [counted, same], length⟩

/-- What does not match may be taken away unheard. -/
theorem Holds.remove {registry : StoreRegistry} (holds : watch.Holds (registry.getValue watch.registration.edgeType))
    {entityType id : String} (misses : watch.hits (registry.getValue entityType id) = false) :
    watch.Holds ((registry.remove entityType id).getValue watch.registration.edgeType) := by
  refine holds.congr (fun other => ?_) fun other hit => ?_
  · rw [StoreRegistry.getValue_remove]
    split
    · rename_i here
      rw [here.1, here.2, misses]
      rfl
    · rfl
  · rw [StoreRegistry.getValue_remove, if_neg]
    rintro ⟨here, rfl⟩
    rw [here, misses] at hit
    cases hit

/-! ### What is held is what a look-up gives -/

section
variable {view : GraphView} (coherent : view.state.Coherent view.schema view.registry)
include coherent

theorem hits_iff_found (registered : watch.registration ∈ view.schema.registrations) (id : String) :
    watch.hits (view.registry.getValue watch.registration.edgeType id) = true ↔
      id ∈ view.edgeIds watch.registration watch.selection := by
  rw [mem_edgeIds coherent registered]
  exact Option.any_eq_true _ _

/-- Over a coherent index a watch that holds what matches holds what its selection finds. -/
theorem Holds.exact (holds : watch.Holds (view.registry.getValue watch.registration.edgeType))
    (registered : watch.registration ∈ view.schema.registrations) : watch.Exact view := by
  have found := hits_iff_found coherent registered
  unfold Holds at holds
  unfold Exact
  cases shape : watch.output with
  | map entries =>
    rw [shape] at holds
    intro id item
    rw [holds id, ← found]
    split
    · rename_i hit
      exact (and_iff_right hit).symm
    · rename_i misses
      exact ⟨fun none => (nomatch none), fun both => absurd both.1 misses⟩
  | count count =>
    rw [shape] at holds
    obtain ⟨ids, nodup, counted, rfl⟩ := holds
    have same : ids.Perm (view.edgeIds watch.registration watch.selection) :=
      (List.perm_ext_iff_of_nodup nodup (nodup_edgeIds view _ _)).mpr fun id => (counted id).trans (found id)
    exact same.length_eq

end

section
variable {view : GraphView} {registration : EdgeRegistration}
  (coherent : view.state.Coherent view.schema view.registry)
  (registered : registration ∈ view.schema.registrations)
include coherent registered

theorem holds_watchMatching (selection : GraphSelection) :
    (view.watchMatching registration selection).Holds (view.registry.getValue registration.edgeType) := by
  intro id
  have found : (view.watchMatching registration selection).hits (view.registry.getValue registration.edgeType id) = true ↔
      id ∈ view.edgeIds registration selection := hits_iff_found coherent registered id
  have agree : ∀ entry ∈ (view.edgeIds registration selection).filterMap fun id =>
      (view.registry.getValue registration.edgeType id).map fun item => (id, item),
      view.registry.getValue registration.edgeType entry.1 = some entry.2 := by
    intro entry member
    obtain ⟨id, -, made⟩ := List.mem_filterMap.mp member
    obtain ⟨item, stored, rfl⟩ := Option.map_eq_some_iff.mp made
    exact stored
  show (OrdMap.insertMany ∅ _)[id]? = _
  rw [OrdMap.get_insertMany_of agree, Std.ExtTreeMap.getElem?_empty]
  refine if_congr ?_ rfl rfl
  rw [found, List.mem_map]
  constructor
  · rintro ⟨entry, member, rfl⟩
    obtain ⟨id, listed, made⟩ := List.mem_filterMap.mp member
    obtain ⟨item, -, rfl⟩ := Option.map_eq_some_iff.mp made
    exact listed
  · intro listed
    obtain ⟨item, stored, -⟩ := (mem_edgeIds coherent registered selection id).mp listed
    exact ⟨(id, item), List.mem_filterMap.mpr ⟨id, listed, by rw [stored]; rfl⟩, rfl⟩

theorem holds_watchCountAt (position : EndPosition) (endpoint : EndpointValue) :
    (view.watchCountAt registration position endpoint).Holds (view.registry.getValue registration.edgeType) :=
  ⟨_, nodup_edgeIds view registration _,
    fun id => (@hits_iff_found (view.watchCountAt registration position endpoint) view coherent registered id).symm,
    edgeCountAt_eq view registration position endpoint⟩

theorem holds_watchCountBetween (a b : EndpointValue) :
    (view.watchCountBetween registration a b).Holds (view.registry.getValue registration.edgeType) :=
  ⟨_, nodup_edgeIds view registration _,
    fun id => (@hits_iff_found (view.watchCountBetween registration a b) view coherent registered id).symm,
    edgeCountBetween_eq view registration a b⟩

end

end GraphWatch

end Myko

import Myko.Query.EntityQuery

/-!
Where a query is answered from: the rows of the ids it names, the buckets of the parents it names, or the whole
table. Whatever the route, the rows it leads to are filtered by the query, and no row that matches is missed.
-/

namespace Myko.Query

/-- All the keys with one value from each set. -/
def cartesianProduct (sets : List (List String)) : List (List String) :=
  sets.foldl (fun keys set => keys.flatMap fun key => set.map fun value => key ++ [value]) [[]]

/-- Masks have 32 bits. -/
def maskLimit (count : Nat) : Option Nat := if count < 32 then some (1 <<< count) else none

def countOnes (mask : Nat) : Nat := ((List.range 32).filter mask.testBit).length

/-- Every choice of fields, those with the most fields first. -/
def routeMasks (count : Nat) : List Nat :=
  match maskLimit count with
  | none => []
  | some limit =>
    (List.range' 1 (limit - 1)).insertionSort fun a b =>
      countOnes b < countOnes a ∨ (countOnes a = countOnes b ∧ a ≤ b)

/-- The fields whose bits are set. -/
def selectedFields (count mask : Nat) : List (Fin count) :=
  (List.finRange count).filter fun index => mask &&& (1 <<< index.val) != 0

def routeArms (count : Nat) : List (List (Fin count)) := (routeMasks count).map (selectedFields count)

variable {entity : Entity}

/-- The buckets of some fields: their keys, and the key of an item. -/
structure BelongsToRoute (entity : Entity) where
  fieldNames : List String
  keys : List (List String)
  extractFk : entity.Item → List String

inductive QueryRoute (entity : Entity) where
  | ids (ids : List String)
  | belongsTo (route : BelongsToRoute entity)

namespace Entity.XQuery

/-- An arm is taken when the query has a filter for each of its fields. -/
def routeArm (query : entity.XQuery) (selected : List (Fin entity.belongsTo.length)) :
    Option (BelongsToRoute entity) :=
  (selected.mapM query.parent).map fun filters =>
    { fieldNames := selected.map entity.belongsTo.get
      keys := cartesianProduct (filters.map IdFilter.keyValues)
      extractFk := fun item => selected.map item.parent }

def belongsToRoute (query : entity.XQuery) : Option (BelongsToRoute entity) :=
  (routeArms entity.belongsTo.length).findSome? query.routeArm

/-- A filter on the id is the strongest route. -/
def queryRoute (query : entity.XQuery) : Option (QueryRoute entity) :=
  match query.id with
  | some filter => some (.ids filter.keyValues)
  | none => query.belongsToRoute.map .belongsTo

end Entity.XQuery

namespace QueryRoute

/-- The item is among the rows the route leads to. -/
def Admits (route : QueryRoute entity) (item : entity.Item) : Prop :=
  match route with
  | .ids listed => item.id ∈ listed
  | .belongsTo buckets => buckets.extractFk item ∈ buckets.keys

instance (route : QueryRoute entity) (item : entity.Item) : Decidable (route.Admits item) :=
  match route with
  | .ids listed => inferInstanceAs (Decidable (item.id ∈ listed))
  | .belongsTo buckets => inferInstanceAs (Decidable (buckets.extractFk item ∈ buckets.keys))

end QueryRoute

namespace Entity.XQuery

/-- The rows of a table that are looked at. -/
def source (query : entity.XQuery) (table : List entity.Item) : List entity.Item :=
  match query.queryRoute with
  | some route => table.filter fun item => decide (route.Admits item)
  | none => table

def answer (query : entity.XQuery) (table : List entity.Item) : List entity.Item :=
  (query.source table).filter query.matchesItem

end Entity.XQuery

/-! ### Keys -/

theorem mem_foldl_product {sets : List (List String)} {keys : List (List String)} {key : List String} :
    key ∈ sets.foldl (fun keys set => keys.flatMap fun key => set.map fun value => key ++ [value]) keys ↔
      ∃ first ∈ keys, ∃ last, key = first ++ last ∧ List.Forall₂ (fun value set => value ∈ set) last sets := by
  induction sets generalizing keys with
  | nil => simp
  | cons set rest ih =>
    rw [List.foldl_cons, ih]
    constructor
    · rintro ⟨first, among, last, rfl, places⟩
      obtain ⟨shorter, there, among⟩ := List.mem_flatMap.mp among
      obtain ⟨value, chosen, rfl⟩ := List.mem_map.mp among
      exact ⟨shorter, there, value :: last, List.append_assoc _ _ _, .cons chosen places⟩
    · rintro ⟨first, there, last, rfl, places⟩
      cases places with
      | @cons value _ later _ chosen places =>
        have longer : first ++ [value] ∈ keys.flatMap fun key => set.map fun value => key ++ [value] :=
          List.mem_flatMap.mpr ⟨first, there, List.mem_map.mpr ⟨value, chosen, rfl⟩⟩
        exact ⟨first ++ [value], longer, later, (List.append_assoc first [value] later).symm, places⟩

/-- A key is in the product when each of its values is in the set at its place. -/
theorem mem_cartesianProduct {sets : List (List String)} {key : List String} :
    key ∈ cartesianProduct sets ↔ List.Forall₂ (fun value set => value ∈ set) key sets := by
  unfold cartesianProduct
  rw [mem_foldl_product]
  simp

/-! ### Soundness -/

theorem IdFilter.mem_keyValues {filter : IdFilter String} {value : String}
    (matched : filter.matchesValue strings value = true) : value ∈ filter.keyValues := by
  cases filter with
  | eq expected => exact List.mem_singleton.mpr (strings_identical _ _ matched)
  | isIn values =>
    obtain ⟨v, among, same⟩ := inMatches_iff.mp matched
    rw [← strings_identical v value same]
    exact among

namespace Entity.XQuery

/-- The filters of an arm are read from the same fields, in the same order, as an item's key. -/
theorem key_mem_of_mapM {query : entity.XQuery} {item : entity.Item} (matched : query.matchesItem item = true)
    {selected : List (Fin entity.belongsTo.length)} {filters : List (IdFilter String)}
    (present : selected.mapM query.parent = some filters) :
    List.Forall₂ (fun value set => value ∈ set) (selected.map item.parent) (filters.map IdFilter.keyValues) := by
  obtain ⟨_, parents, _⟩ := (matchesItem_iff query item).mp matched
  induction selected generalizing filters with
  | nil =>
    cases present
    exact .nil
  | cons index rest ih =>
    rw [List.mapM_cons] at present
    obtain ⟨filter, here, present⟩ := Option.bind_eq_some_iff.mp present
    obtain ⟨later, behind, present⟩ := Option.bind_eq_some_iff.mp present
    cases present
    exact .cons (IdFilter.mem_keyValues (parents index filter here)) (ih behind)

theorem admits_of_routeArm {query : entity.XQuery} {item : entity.Item} (matched : query.matchesItem item = true)
    {selected : List (Fin entity.belongsTo.length)} {route : BelongsToRoute entity}
    (taken : query.routeArm selected = some route) : route.extractFk item ∈ route.keys := by
  unfold routeArm at taken
  obtain ⟨filters, present, rfl⟩ := Option.map_eq_some_iff.mp taken
  exact mem_cartesianProduct.mpr (key_mem_of_mapM matched present)

/-- Whichever arm is taken, an item that matches is in one of its buckets. -/
theorem admits_of_matches {query : entity.XQuery} {item : entity.Item} (matched : query.matchesItem item = true)
    {route : QueryRoute entity} (routed : query.queryRoute = some route) : route.Admits item := by
  unfold queryRoute at routed
  cases named : query.id with
  | some filter =>
    rw [named] at routed
    cases routed
    obtain ⟨ids, _⟩ := (matchesItem_iff query item).mp matched
    exact IdFilter.mem_keyValues (ids filter named)
  | none =>
    rw [named] at routed
    obtain ⟨buckets, found, rfl⟩ := Option.map_eq_some_iff.mp routed
    obtain ⟨selected, _, taken⟩ := List.exists_of_findSome?_eq_some found
    exact admits_of_routeArm matched taken

/-- The filter leaves nothing of what the route left out. -/
theorem answer_eq_scan (query : entity.XQuery) (table : List entity.Item) :
    query.answer table = table.filter query.matchesItem := by
  unfold answer source
  cases routed : query.queryRoute with
  | none => rfl
  | some route =>
    rw [List.filter_filter]
    apply List.filter_congr
    intro item _
    cases matched : query.matchesItem item with
    | false => rfl
    | true => exact decide_eq_true (admits_of_matches matched routed)

end Entity.XQuery

/-- An entity with two parents and a number. -/
def visitEntity : Entity where
  belongsTo := ["nodeId", "sessionId"]
  fields := [.numeric Int .ofLinearOrder]

def visit (id node session : String) (count : Int) : visitEntity.Item where
  id
  parent
    | ⟨0, _⟩ => node
    | ⟨1, _⟩ => session
  field
    | ⟨0, _⟩ => count

def visits (nodes : List String) (session : String) (counts : List Int) : visitEntity.XQuery where
  id := none
  parent
    | ⟨0, _⟩ => some (.isIn nodes)
    | ⟨1, _⟩ => some (.eq session)
  field
    | ⟨0, _⟩ => some (.isIn counts)

theorem total_visit : ∀ kind ∈ visitEntity.fields, kind.Total := by
  intro kind among
  rw [List.mem_singleton.mp among]
  exact Comparison.total_ofLinearOrder

theorem identical_visit : ∀ kind ∈ visitEntity.fields, kind.Identical := by
  intro kind among
  rw [List.mem_singleton.mp among]
  intro a b same
  exact of_decide_eq_true same

theorem sameSets_visits (session : String) {nodes nodes' : List String} {counts counts' : List Int}
    (named : ∀ value, value ∈ nodes ↔ value ∈ nodes') (counted : ∀ value, value ∈ counts ↔ value ∈ counts') :
    (visits nodes session counts).SameSets (visits nodes' session counts') := by
  refine ⟨.none, ?_, ?_⟩
  · rintro ⟨_ | _ | n, bound⟩
    · exact .some named
    · exact .some rfl
    · have bound : n + 2 < 2 := bound
      omega
  · rintro ⟨_ | n, bound⟩
    · exact .some counted
    · have bound : n + 1 < 1 := bound
      omega

example : routeArms 2 = [[0, 1], [0], [1]] := by decide +kernel

end Myko.Query

import Mathlib.Data.Set.Card
import Myko.Graph.Lookup

/-!
The exact edge set of an endpoint: a three-way difference between the edges that are wanted, those the lookup finds
there, and what the store holds under the same ids.
-/

namespace Myko
open StateError

structure GraphSyncResult where
  inserted : Nat
  updated : Nat
  deleted : Nat
  unchanged : Nat
  deriving DecidableEq

structure GraphSyncPlan where
  result : GraphSyncResult
  upserts : List Item
  deletes : List Item

/-- The order in which the entries of a hash map come. -/
structure HashOrder where
  arrange : List Item → List Item
  perm : ∀ items, (arrange items).Perm items

/-- The edges wanted at an endpoint and in a scope. -/
structure GraphSync where
  registration : EdgeRegistration
  position : EndPosition
  endpoint : EndpointValue
  scope : Option IndexValue
  edges : List Item
  typed : ∀ edge ∈ edges, edge.entityType = registration.edgeType

namespace GraphSync

variable (sync : GraphSync)

/-- Each wanted edge lies where the others do, and none is given twice. -/
def checkEdges : List Item → List String → Except String Unit
  | [], _ => return ()
  | edge :: rest, desiredIds => do
    let ends ← sync.registration.extract edge
    if ends.at sync.position ≠ sync.endpoint then
      throw "desired edge does not match the reconciled endpoint"
    else
      let edgeScope ← sync.registration.extractScope edge
      if edgeScope ≠ sync.scope then
        throw "desired edge does not match the reconciled scope"
      else if desiredIds.contains edge.id then
        throw "desired edge IDs must be unique"
      else checkEdges rest (edge.id :: desiredIds)

def inScope (edge : Item) : Bool :=
  match sync.registration.extractScope edge with
  | .ok scope => scope = sync.scope
  | .error _ => false

/-- The stored edges of the scope among those with the given ids. -/
def current (registry : StoreRegistry) (ids : List String) : List Item :=
  (ids.dedup.filterMap fun id => registry.getValue sync.registration.edgeType id).filter sync.inScope

/-- The edges that are there now, as the lookup finds them. -/
def found (view : GraphView) : List Item :=
  sync.current view.registry (view.edgeIdsAt sync.registration sync.position sync.endpoint)

/-- The edge found under an id. -/
def standing (current : List Item) (id : String) : Option Item := current.find? fun old => old.id = id

/-- Count a wanted edge, and write it unless it is there already. -/
def sortEdge (current : List Item) (plan : GraphSyncPlan) (edge : Item) : GraphSyncPlan :=
  match standing current edge.id with
  | some old =>
    if old = edge then { plan with result := { plan.result with unchanged := plan.result.unchanged + 1 } }
    else { plan with
      result := { plan.result with updated := plan.result.updated + 1 }
      upserts := plan.upserts ++ [edge] }
  | none => { plan with
    result := { plan.result with inserted := plan.result.inserted + 1 }
    upserts := plan.upserts ++ [edge] }

def plan (order : HashOrder) (current : List Item) : GraphSyncPlan :=
  let sorted := sync.edges.foldl (sortEdge current) ⟨⟨0, 0, 0, 0⟩, [], []⟩
  let deletes := (order.arrange current).filter fun old => sync.edges.all fun edge => edge.id ≠ old.id
  { sorted with
    result := { sorted.result with deleted := deletes.length }
    deletes := deletes }

/-! ### What is checked -/

/-- The edge lies at the endpoint and in the scope. -/
structure LiesThere (edge : Item) : Prop where
  ends : ∃ ends, sync.registration.extract edge = .ok ends ∧ ends.at sync.position = sync.endpoint
  inScope : sync.registration.extractScope edge = .ok sync.scope

variable {sync}

theorem inScope_iff {edge : Item} :
    sync.inScope edge = true ↔ sync.registration.extractScope edge = .ok sync.scope := by
  unfold inScope
  cases extracted : sync.registration.extractScope edge with
  | ok scope => simp
  | error error => simp

theorem checked_of_ok {edges : List Item} {desiredIds : List String}
    (checked : sync.checkEdges edges desiredIds = .ok ()) :
    (∀ edge ∈ edges, sync.LiesThere edge ∧ edge.id ∉ desiredIds) ∧ (edges.map Item.id).Nodup := by
  induction edges generalizing desiredIds with
  | nil => simp
  | cons edge rest ih =>
    unfold checkEdges at checked
    obtain ⟨ends, extracted, checked⟩ := except_bind_ok checked
    split at checked
    · cases checked
    rename_i here
    obtain ⟨scope, inScope, checked⟩ := except_bind_ok checked
    split at checked
    · cases checked
    rename_i same
    split at checked
    · cases checked
    rename_i fresh
    obtain ⟨others, nodup⟩ := ih checked
    have there : sync.LiesThere edge := ⟨⟨ends, extracted, not_not.mp here⟩, not_not.mp same ▸ inScope⟩
    refine ⟨fun other member => ?_, ?_⟩
    · rcases List.mem_cons.mp member with rfl | member
      · exact ⟨there, by simpa using fresh⟩
      · exact ⟨(others other member).1, fun seen => (others other member).2 (List.mem_cons_of_mem _ seen)⟩
    · rw [List.map_cons, List.nodup_cons]
      refine ⟨fun again => ?_, nodup⟩
      obtain ⟨other, member, same⟩ := List.mem_map.mp again
      exact (others other member).2 (same ▸ List.mem_cons_self)

/-! ### What is planned -/

theorem standing_iff {current : List Item} (nodup : (current.map Item.id).Nodup) {id : String} {old : Item} :
    standing current id = some old ↔ old ∈ current ∧ old.id = id := by
  unfold standing
  constructor
  · exact fun hit => ⟨List.mem_of_find?_eq_some hit, by simpa using List.find?_some hit⟩
  · rintro ⟨member, rfl⟩
    cases hit : current.find? fun other => other.id = old.id with
    | none => exact absurd (List.find?_eq_none.mp hit old member) (by simp)
    | some other =>
      have same : other.id = old.id := by simpa using List.find?_some hit
      rw [List.inj_on_of_nodup_map nodup (List.mem_of_find?_eq_some hit) member same]

theorem sorted_eq (current edges : List Item) (plan : GraphSyncPlan) :
    edges.foldl (sortEdge current) plan =
      { result :=
          { inserted := plan.result.inserted + edges.countP fun edge => standing current edge.id = none
            updated := plan.result.updated + edges.countP fun edge =>
              standing current edge.id ≠ none ∧ standing current edge.id ≠ some edge
            deleted := plan.result.deleted
            unchanged := plan.result.unchanged + edges.countP fun edge => standing current edge.id = some edge }
        upserts := plan.upserts ++ edges.filter fun edge => standing current edge.id ≠ some edge
        deletes := plan.deletes } := by
  induction edges generalizing plan with
  | nil => simp
  | cons edge rest ih =>
    rw [List.foldl_cons, ih]
    cases hit : standing current edge.id with
    | none => simp [sortEdge, hit, Nat.add_assoc, Nat.add_comm 1]
    | some old =>
      by_cases same : old = edge
      · simp [sortEdge, hit, same, Nat.add_assoc, Nat.add_comm 1]
      · simp [sortEdge, hit, same, Nat.add_assoc, Nat.add_comm 1]

section
variable {order : HashOrder} {current : List Item}

theorem plan_upserts : (sync.plan order current).upserts =
    sync.edges.filter fun edge => standing current edge.id ≠ some edge := by
  unfold plan
  rw [sorted_eq]
  rfl

theorem plan_result : (sync.plan order current).result =
    { inserted := sync.edges.countP fun edge => standing current edge.id = none
      updated := sync.edges.countP fun edge =>
        standing current edge.id ≠ none ∧ standing current edge.id ≠ some edge
      deleted := (sync.plan order current).deletes.length
      unchanged := sync.edges.countP fun edge => standing current edge.id = some edge } := by
  unfold plan
  rw [sorted_eq]
  simp

theorem mem_deletes {old : Item} :
    old ∈ (sync.plan order current).deletes ↔ old ∈ current ∧ ∀ edge ∈ sync.edges, edge.id ≠ old.id := by
  unfold plan
  dsimp only
  rw [List.mem_filter, (order.perm current).mem_iff, List.all_eq_true]
  simp

theorem nodup_deletes (nodup : (current.map Item.id).Nodup) :
    ((sync.plan order current).deletes.map Item.id).Nodup :=
  (((order.perm current).map Item.id).nodup_iff.mpr nodup).sublist (List.filter_sublist.map Item.id)

end

/-! ### What a synchronisation is for -/

/-- The ids of the edges that lie there. -/
def idsThere (sync : GraphSync) (values : String → Option Item) : Set String :=
  {id | ∃ edge, values id = some edge ∧ sync.LiesThere edge}

/-- The wanted edges and no others lie there, the rest is as it was, and the numbers say what has changed. -/
structure Exact (sync : GraphSync) (before after : String → Option Item) (result : GraphSyncResult) : Prop where
  there : ∀ edge, (after edge.id = some edge ∧ sync.LiesThere edge) ↔ edge ∈ sync.edges
  elsewhere : ∀ edge, ¬sync.LiesThere edge → (after edge.id = some edge ↔ before edge.id = some edge)
  inserted : result.inserted = (sync.idsThere after \ sync.idsThere before).ncard
  updated : result.updated = {id ∈ sync.idsThere before ∩ sync.idsThere after | before id ≠ after id}.ncard
  deleted : result.deleted = (sync.idsThere before \ sync.idsThere after).ncard
  unchanged : result.unchanged = {id ∈ sync.idsThere before ∩ sync.idsThere after | before id = after id}.ncard

/-- The values a plan leads to. -/
def outcome (sync : GraphSync) (current : List Item) (before : String → Option Item) (id : String) : Option Item :=
  match standing sync.edges id with
  | some edge => some edge
  | none => if (standing current id).isSome then none else before id

theorem countP_eq_ncard {edges : List Item} (nodup : (edges.map Item.id).Nodup) (p : Item → Bool) :
    edges.countP p = {id | ∃ edge ∈ edges, p edge = true ∧ edge.id = id}.ncard := by
  have listed : {id | ∃ edge ∈ edges, p edge = true ∧ edge.id = id} =
      (((edges.filter p).map Item.id).toFinset : Set String) := by
    ext id
    simp [and_assoc]
  have distinct : ((edges.filter p).map Item.id).Nodup := nodup.sublist (List.filter_sublist.map Item.id)
  rw [listed, Set.ncard_coe_finset, List.toFinset_card_of_nodup distinct, List.length_map, List.countP_eq_length_filter]

/-- The wanted edges lie where they should, each under an id of its own. -/
structure Checked (sync : GraphSync) : Prop where
  lies : ∀ edge ∈ sync.edges, sync.LiesThere edge
  nodup : (sync.edges.map Item.id).Nodup

/-- None of the wanted edges is to be moved from elsewhere. -/
def Unmoved (sync : GraphSync) (before : String → Option Item) : Prop :=
  ∀ edge ∈ sync.edges, ∀ old, before edge.id = some old → sync.LiesThere old

/-- What was found are the edges that lie there. -/
def Finds (sync : GraphSync) (current : List Item) (before : String → Option Item) : Prop :=
  ∀ old, old ∈ current ↔ before old.id = some old ∧ sync.LiesThere old

section
variable {order : HashOrder} {current : List Item} {before : String → Option Item} (checked : sync.Checked)
  (nodup : (current.map Item.id).Nodup) (keyed : ∀ id old, before id = some old → old.id = id)

include checked in
theorem outcome_wanted {edge : Item} (wanted : edge ∈ sync.edges) :
    sync.outcome current before edge.id = some edge := by
  unfold outcome
  rw [(standing_iff checked.nodup).mpr ⟨wanted, rfl⟩]

include checked in
theorem standing_none {id : String} : standing sync.edges id = none ↔ ∀ edge ∈ sync.edges, edge.id ≠ id := by
  rw [Option.eq_none_iff_forall_ne_some]
  simp only [ne_eq, standing_iff checked.nodup, not_and]

include checked in
theorem outcome_other {id : String} (unwanted : ∀ edge ∈ sync.edges, edge.id ≠ id) :
    sync.outcome current before id = if (standing current id).isSome then none else before id := by
  unfold outcome
  rw [(standing_none checked).mpr unwanted]

include checked in
/-- What lies there in the end is wanted, or was there and has not been found. -/
theorem outcome_cases {id : String} {edge : Item} (after : sync.outcome current before id = some edge) :
    (edge ∈ sync.edges ∧ edge.id = id) ∨
      (∀ edge ∈ sync.edges, edge.id ≠ id) ∧ standing current id = none ∧ before id = some edge := by
  unfold outcome at after
  cases hit : standing sync.edges id with
  | some wanted =>
    rw [hit] at after
    obtain rfl : wanted = edge := Option.some.inj after
    exact .inl ((standing_iff checked.nodup).mp hit)
  | none =>
    rw [hit] at after
    dsimp only at after
    split at after
    · cases after
    · rename_i missed
      exact .inr ⟨(standing_none checked).mp hit, by simpa using missed, after⟩

variable (unmoved : sync.Unmoved before) (finds : sync.Finds current before)

include checked nodup keyed finds in
theorem lies_outcome {id : String} {edge : Item} :
    (sync.outcome current before id = some edge ∧ sync.LiesThere edge) ↔ edge ∈ sync.edges ∧ edge.id = id := by
  constructor
  · rintro ⟨after, there⟩
    rcases outcome_cases checked after with wanted | ⟨-, missed, was⟩
    · exact wanted
    · obtain rfl := keyed id edge was
      have member := (finds edge).mpr ⟨was, there⟩
      rw [(standing_iff nodup).mpr ⟨member, rfl⟩] at missed
      cases missed
  · rintro ⟨wanted, rfl⟩
    exact ⟨outcome_wanted checked wanted, checked.lies edge wanted⟩

include nodup keyed finds in
theorem standing_eq {id : String} {old : Item} :
    standing current id = some old ↔ before id = some old ∧ sync.LiesThere old := by
  rw [standing_iff nodup, finds]
  constructor
  · rintro ⟨⟨was, there⟩, rfl⟩
    exact ⟨was, there⟩
  · rintro ⟨was, there⟩
    obtain rfl := keyed id old was
    exact ⟨⟨was, there⟩, rfl⟩

include nodup keyed unmoved finds in
/-- What was under the id of a wanted edge is what was found there. -/
theorem before_wanted {edge : Item} (wanted : edge ∈ sync.edges) : before edge.id = standing current edge.id := by
  cases was : before edge.id with
  | some old => exact ((standing_eq nodup keyed finds).mpr ⟨was, unmoved edge wanted old was⟩).symm
  | none =>
    refine (Option.eq_none_iff_forall_ne_some.mpr fun old hit => ?_).symm
    rw [((standing_eq nodup keyed finds).mp hit).1] at was
    cases was

include nodup keyed finds in
/-- An edge that lies elsewhere is not what was found under its id. -/
theorem standing_elsewhere {edge : Item} (was : before edge.id = some edge) (away : ¬sync.LiesThere edge) :
    standing current edge.id = none := by
  refine Option.eq_none_iff_forall_ne_some.mpr fun old hit => ?_
  obtain ⟨was', there⟩ := (standing_eq nodup keyed finds).mp hit
  obtain rfl : edge = old := Option.some.inj (was.symm.trans was')
  exact away there

include checked nodup keyed unmoved finds in
theorem outcome_elsewhere {edge : Item} (away : ¬sync.LiesThere edge) :
    sync.outcome current before edge.id = some edge ↔ before edge.id = some edge := by
  constructor
  · intro stored
    rcases outcome_cases checked stored with ⟨wanted, -⟩ | ⟨-, -, was⟩
    · exact absurd (checked.lies edge wanted) away
    · exact was
  · intro was
    have unwanted : ∀ other ∈ sync.edges, other.id ≠ edge.id := by
      intro other wanted same
      rw [← same] at was
      exact away (unmoved other wanted edge was)
    rw [outcome_other checked unwanted, standing_elsewhere nodup keyed finds was away]
    exact was

include checked nodup keyed finds in
theorem mem_idsThere_outcome {id : String} :
    id ∈ sync.idsThere (sync.outcome current before) ↔ ∃ edge ∈ sync.edges, edge.id = id :=
  exists_congr fun _ => lies_outcome checked nodup keyed finds

include nodup keyed finds in
theorem mem_idsThere_before {id : String} :
    id ∈ sync.idsThere before ↔ ∃ old, standing current id = some old :=
  exists_congr fun _ => (standing_eq nodup keyed finds).symm

include checked nodup keyed finds in
theorem inserted_eq : (sync.plan order current).result.inserted =
    (sync.idsThere (sync.outcome current before) \ sync.idsThere before).ncard := by
  rw [plan_result]
  refine (countP_eq_ncard checked.nodup _).trans (congrArg Set.ncard (Set.ext fun id => ?_))
  rw [Set.mem_sdiff, mem_idsThere_outcome checked nodup keyed finds, mem_idsThere_before nodup keyed finds]
  constructor
  · rintro ⟨edge, wanted, fresh, rfl⟩
    refine ⟨⟨edge, wanted, rfl⟩, ?_⟩
    rw [of_decide_eq_true fresh]
    simp
  · rintro ⟨⟨edge, wanted, rfl⟩, fresh⟩
    exact ⟨edge, wanted, decide_eq_true (Option.eq_none_iff_forall_ne_some.mpr (not_exists.mp fresh)), rfl⟩

include checked nodup keyed finds in
theorem deleted_eq : (sync.plan order current).result.deleted =
    (sync.idsThere before \ sync.idsThere (sync.outcome current before)).ncard := by
  have distinct : ((sync.plan order current).deletes.map Item.id).Nodup := nodup_deletes nodup
  have counted := countP_eq_ncard distinct fun _ => true
  rw [List.countP_true] at counted
  rw [plan_result, counted]
  refine congrArg Set.ncard (Set.ext fun id => ?_)
  rw [Set.mem_sdiff, mem_idsThere_outcome checked nodup keyed finds, mem_idsThere_before nodup keyed finds]
  constructor
  · rintro ⟨old, deleted, -, rfl⟩
    obtain ⟨member, unwanted⟩ := mem_deletes.mp deleted
    refine ⟨⟨old, (standing_iff nodup).mpr ⟨member, rfl⟩⟩, ?_⟩
    rintro ⟨edge, wanted, same⟩
    exact unwanted edge wanted same
  · rintro ⟨⟨old, hit⟩, unwanted⟩
    obtain ⟨member, rfl⟩ := (standing_iff nodup).mp hit
    exact ⟨old, mem_deletes.mpr ⟨member, fun edge wanted same => unwanted ⟨edge, wanted, same⟩⟩, rfl, rfl⟩

include checked nodup keyed unmoved finds in
/-- The wanted edges that were there, sorted by how they stood. -/
theorem kept_eq (changed : Option Item → Option Item → Prop) [∀ old new, Decidable (changed old new)] :
    sync.edges.countP (fun edge => standing current edge.id ≠ none ∧
        changed (standing current edge.id) (some edge)) =
      {id ∈ sync.idsThere before ∩ sync.idsThere (sync.outcome current before) |
        changed (before id) (sync.outcome current before id)}.ncard := by
  refine (countP_eq_ncard checked.nodup _).trans (congrArg Set.ncard (Set.ext fun id => ?_))
  constructor
  · rintro ⟨edge, wanted, stood, rfl⟩
    obtain ⟨stood, differs⟩ := of_decide_eq_true stood
    refine ⟨⟨(mem_idsThere_before nodup keyed finds).mpr (Option.ne_none_iff_exists'.mp stood),
      (mem_idsThere_outcome checked nodup keyed finds).mpr ⟨edge, wanted, rfl⟩⟩, ?_⟩
    rw [before_wanted nodup keyed unmoved finds wanted, outcome_wanted checked wanted]
    exact differs
  · rintro ⟨⟨was, now⟩, differs⟩
    obtain ⟨edge, wanted, rfl⟩ := (mem_idsThere_outcome checked nodup keyed finds).mp now
    rw [before_wanted nodup keyed unmoved finds wanted, outcome_wanted checked wanted] at differs
    have stood := (mem_idsThere_before nodup keyed finds).mp was
    exact ⟨edge, wanted, decide_eq_true ⟨Option.ne_none_iff_exists'.mpr stood, differs⟩, rfl⟩

include checked nodup keyed unmoved finds in
theorem exact_of_finds : sync.Exact before (sync.outcome current before) (sync.plan order current).result where
  there edge := (lies_outcome checked nodup keyed finds).trans (and_iff_left rfl)
  elsewhere _ away := outcome_elsewhere checked nodup keyed unmoved finds away
  inserted := inserted_eq checked nodup keyed finds
  updated := by
    rw [plan_result]
    exact kept_eq checked nodup keyed unmoved finds (· ≠ ·)
  deleted := deleted_eq checked nodup keyed finds
  unchanged := by
    rw [plan_result, ← kept_eq checked nodup keyed unmoved finds (· = ·)]
    refine List.countP_congr fun edge _ => ?_
    simp only [decide_eq_true_eq]
    exact ⟨fun same => ⟨same ▸ Option.some_ne_none edge, same⟩, And.right⟩

/-- An edge moved from elsewhere leaves where it was. -/
theorem unmoved_of_exact {result : GraphSyncResult} (checked : sync.Checked)
    (keyed : ∀ id old, before id = some old → old.id = id)
    (exact : sync.Exact before (sync.outcome current before) result) : sync.Unmoved before := by
  intro edge wanted old was
  by_contra away
  have same := keyed _ old was
  have kept := (exact.elsewhere old away).mpr (same ▸ was)
  rw [same, outcome_wanted checked wanted] at kept
  obtain rfl := Option.some.inj kept
  exact away (checked.lies edge wanted)

/-- An edge found though it lies elsewhere is deleted; one that is missed stays, or is counted as new. -/
theorem finds_of_exact (checked : sync.Checked) (nodup : (current.map Item.id).Nodup)
    (stored : ∀ old ∈ current, before old.id = some old)
    (exact : sync.Exact before (sync.outcome current before) (sync.plan order current).result) :
    sync.Finds current before := by
  have lies : ∀ old ∈ current, sync.LiesThere old := by
    intro old member
    by_contra away
    have kept := (exact.elsewhere old away).mpr (stored old member)
    rcases outcome_cases checked kept with ⟨wanted, -⟩ | ⟨-, missed, -⟩
    · exact away (checked.lies old wanted)
    · rw [(standing_iff nodup).mpr ⟨member, rfl⟩] at missed
      cases missed
  refine fun old => ⟨fun member => ⟨stored old member, lies old member⟩, ?_⟩
  rintro ⟨was, there⟩
  by_contra missing
  have missed : standing current old.id = none := by
    refine Option.eq_none_iff_forall_ne_some.mpr fun other hit => missing ?_
    obtain ⟨member, same⟩ := (standing_iff nodup).mp hit
    have was' := stored other member
    rw [same, was] at was'
    obtain rfl := Option.some.inj was'
    exact member
  by_cases wanted : ∃ edge ∈ sync.edges, edge.id = old.id
  · -- the number of the inserted edges counts this one
    have counted : (sync.plan order current).result.inserted =
        {id | ∃ edge ∈ sync.edges, decide (standing current edge.id = none) = true ∧ edge.id = id}.ncard := by
      rw [← countP_eq_ncard checked.nodup, plan_result]
    have fewer : (sync.idsThere (sync.outcome current before) \ sync.idsThere before).ncard <
        {id | ∃ edge ∈ sync.edges, decide (standing current edge.id = none) = true ∧ edge.id = id}.ncard := by
      refine Set.ncard_lt_ncard ⟨?_, fun all => ?_⟩ ?_
      · rintro id ⟨⟨edge, after, there⟩, fresh⟩
        rcases outcome_cases checked after with ⟨listed, rfl⟩ | ⟨-, -, before⟩
        · refine ⟨edge, listed, decide_eq_true (Option.eq_none_iff_forall_ne_some.mpr fun old hit => fresh ?_), rfl⟩
          obtain ⟨member, same⟩ := (standing_iff nodup).mp hit
          exact ⟨old, same ▸ stored old member, lies old member⟩
        · exact absurd ⟨edge, before, there⟩ fresh
      · obtain ⟨edge, listed, same⟩ := wanted
        exact (all ⟨edge, listed, decide_eq_true (same ▸ missed), same⟩).2 ⟨old, was, there⟩
      · refine (sync.edges.map Item.id).toFinset.finite_toSet.subset ?_
        rintro id ⟨edge, listed, -, rfl⟩
        simpa using ⟨edge, listed, rfl⟩
    exact absurd (counted.symm.trans exact.inserted) (Nat.ne_of_gt fewer)
  · have unwanted : ∀ edge ∈ sync.edges, edge.id ≠ old.id := fun edge listed same => wanted ⟨edge, listed, same⟩
    have kept : sync.outcome current before old.id = some old := by
      rw [outcome_other checked unwanted, missed]
      exact was
    exact wanted ⟨old, (exact.there old).mp ⟨kept, there⟩, rfl⟩

/-- Where the wanted edges are what is found, nothing is planned. -/
theorem plan_nothing (nodup : (current.map Item.id).Nodup) (same : ∀ edge, edge ∈ current ↔ edge ∈ sync.edges) :
    sync.plan order current = ⟨⟨0, 0, 0, sync.edges.length⟩, [], []⟩ := by
  have stands : ∀ edge ∈ sync.edges, standing current edge.id = some edge := fun edge wanted =>
    (standing_iff nodup).mpr ⟨(same edge).mpr wanted, rfl⟩
  have deletes : (sync.plan order current).deletes = [] := by
    refine List.eq_nil_iff_forall_not_mem.mpr fun old deleted => ?_
    obtain ⟨member, unwanted⟩ := mem_deletes.mp deleted
    exact unwanted old ((same old).mp member) rfl
  unfold plan at deletes ⊢
  dsimp only at deletes ⊢
  rw [deletes, sorted_eq]
  have inserted : sync.edges.countP (fun edge => standing current edge.id = none) = 0 :=
    List.countP_eq_zero.mpr fun edge wanted => by simp [stands edge wanted]
  have updated : sync.edges.countP (fun edge =>
      standing current edge.id ≠ none ∧ standing current edge.id ≠ some edge) = 0 :=
    List.countP_eq_zero.mpr fun edge wanted => by simp [stands edge wanted]
  have unchanged : sync.edges.countP (fun edge => standing current edge.id = some edge) = sync.edges.length :=
    List.countP_eq_length.mpr fun edge wanted => by simp [stands edge wanted]
  have upserts : sync.edges.filter (fun edge => standing current edge.id ≠ some edge) = [] :=
    List.filter_eq_nil_iff.mpr fun edge wanted => by simp [stands edge wanted]
  rw [inserted, updated, unchanged, upserts]
  simp

end

/-! ### What is found -/

theorem mem_current {registry : StoreRegistry} {ids : List String} {old : Item} :
    old ∈ sync.current registry ids ↔ old.id ∈ ids ∧
      registry.getValue sync.registration.edgeType old.id = some old ∧
      sync.registration.extractScope old = .ok sync.scope := by
  unfold current
  rw [List.mem_filter, inScope_iff, List.mem_filterMap]
  constructor
  · rintro ⟨⟨id, listed, stored⟩, inScope⟩
    obtain rfl := (StoreRegistry.getValue_keyed stored).2
    exact ⟨List.mem_dedup.mp listed, stored, inScope⟩
  · rintro ⟨listed, stored, inScope⟩
    exact ⟨⟨old.id, List.mem_dedup.mpr listed, stored⟩, inScope⟩

theorem nodup_current (registry : StoreRegistry) (ids : List String) :
    ((sync.current registry ids).map Item.id).Nodup := by
  unfold current
  refine List.Nodup.sublist (List.filter_sublist.map Item.id) ?_
  have distinct := ids.nodup_dedup
  generalize ids.dedup = listed at distinct
  induction listed with
  | nil => exact List.nodup_nil
  | cons id rest ih =>
    obtain ⟨apart, distinct⟩ := List.nodup_cons.mp distinct
    rw [List.filterMap_cons]
    cases stored : registry.getValue sync.registration.edgeType id with
    | none => exact ih distinct
    | some old =>
      refine List.nodup_cons.mpr ⟨fun again => ?_, ih distinct⟩
      obtain ⟨other, listed, same⟩ := List.mem_map.mp again
      obtain ⟨otherId, member, found⟩ := List.mem_filterMap.mp listed
      rw [(StoreRegistry.getValue_keyed stored).2, (StoreRegistry.getValue_keyed found).2] at same
      exact apart (same ▸ member)

theorem nodup_found (view : GraphView) : ((sync.found view).map Item.id).Nodup := nodup_current _ _

/-- The values of the store of the edge type. -/
def values (sync : GraphSync) (registry : StoreRegistry) : String → Option Item :=
  registry.getValue sync.registration.edgeType

/-- The writes of a plan. -/
def writes (plan : GraphSyncPlan) : List Change :=
  plan.deletes.map (Change.mk .del) ++ plan.upserts.map (Change.mk .set)

theorem mem_writes {plan : GraphSyncPlan} {change : Change} : change ∈ writes plan ↔
    (∃ old ∈ plan.deletes, change = ⟨.del, old⟩) ∨ ∃ edge ∈ plan.upserts, change = ⟨.set, edge⟩ := by
  unfold writes
  rw [List.mem_append, List.mem_map, List.mem_map]
  simp only [eq_comm]

section
variable {order : HashOrder} {current : List Item} {registry : StoreRegistry} (checked : sync.Checked)
  (nodup : (current.map Item.id).Nodup) (stored : ∀ old ∈ current, sync.values registry old.id = some old)

include checked nodup in
/-- A write is of a wanted edge that was not found as it is, or of a found one that is not wanted. -/
theorem write_cases {change : Change} (member : change ∈ writes (sync.plan order current)) :
    (change.kind = .set ∧ change.item ∈ sync.edges ∧ standing current change.item.id ≠ some change.item) ∨
      (change.kind = .del ∧ standing sync.edges change.item.id = none ∧
        standing current change.item.id = some change.item) := by
  rcases mem_writes.mp member with ⟨old, deleted, rfl⟩ | ⟨edge, put, rfl⟩
  · obtain ⟨found, unwanted⟩ := mem_deletes.mp deleted
    exact .inr ⟨rfl, (standing_none checked).mpr unwanted, (standing_iff nodup).mpr ⟨found, rfl⟩⟩
  · rw [plan_upserts] at put
    obtain ⟨wanted, other⟩ := List.mem_filter.mp put
    exact .inl ⟨rfl, wanted, of_decide_eq_true other⟩

include checked nodup stored in
/-- The writes of a plan lead to its outcome. -/
theorem values_writes (id : String) : sync.values (registry.writeAll (writes (sync.plan order current))) id =
    sync.outcome current (sync.values registry) id := by
  unfold values outcome
  rcases StoreRegistry.getValue_writeAll_cases registry (writes (sync.plan order current))
    sync.registration.edgeType id with ⟨change, member, key, value⟩ | ⟨untouched, value⟩
  · obtain ⟨-, rfl⟩ := Prod.mk.inj key
    rw [value]
    rcases write_cases checked nodup member with ⟨set, wanted, -⟩ | ⟨del, unwanted, found⟩
    · rw [(standing_iff checked.nodup).mpr ⟨wanted, rfl⟩]
      unfold Change.value
      rw [set]
    · rw [unwanted, found]
      unfold Change.value
      rw [del]
      rfl
  · rw [value]
    cases wanted : standing sync.edges id with
    | some edge =>
      obtain ⟨listed, rfl⟩ := (standing_iff checked.nodup).mp wanted
      by_cases same : standing current edge.id = some edge
      · exact stored edge ((standing_iff nodup).mp same).1
      · have put : edge ∈ (sync.plan order current).upserts := by
          rw [plan_upserts]
          exact List.mem_filter.mpr ⟨listed, decide_eq_true same⟩
        refine absurd ?_ (untouched ⟨.set, edge⟩ (mem_writes.mpr (.inr ⟨edge, put, rfl⟩)))
        exact Prod.ext (sync.typed edge listed) rfl
    | none =>
      cases found : standing current id with
      | none => rfl
      | some old =>
        obtain ⟨member, rfl⟩ := (standing_iff nodup).mp found
        have deleted : old ∈ (sync.plan order current).deletes :=
          mem_deletes.mpr ⟨member, (standing_none checked).mp wanted⟩
        refine absurd ?_ (untouched ⟨.del, old⟩ (mem_writes.mpr (.inl ⟨old, deleted, rfl⟩)))
        exact Prod.ext (StoreRegistry.getValue_keyed (stored old member)).1 rfl

end

/-- The lookup finds the wanted edges once they are put, and nothing new among the rest. -/
theorem finds_after {view view' : GraphView} (checked : sync.Checked)
    (written : sync.values view'.registry = sync.outcome (sync.found view) (sync.values view.registry))
    (lists : ∀ edge ∈ sync.edges, edge.id ∈ view'.edgeIdsAt sync.registration sync.position sync.endpoint)
    (listed : ∀ id, (∀ edge ∈ sync.edges, edge.id ≠ id) → (∃ old, sync.values view'.registry id = some old) →
      id ∈ view'.edgeIdsAt sync.registration sync.position sync.endpoint →
      id ∈ view.edgeIdsAt sync.registration sync.position sync.endpoint) :
    ∀ edge, edge ∈ sync.found view' ↔ edge ∈ sync.edges := by
  intro edge
  rw [found, mem_current]
  change _ ∧ sync.values view'.registry edge.id = some edge ∧ _ ↔ _
  constructor
  · rintro ⟨there, stored, inScope⟩
    have after := stored
    rw [written] at after
    rcases outcome_cases checked after with ⟨wanted, -⟩ | ⟨unwanted, missed, was⟩
    · exact wanted
    · have member : edge ∈ sync.found view := mem_current.mpr ⟨listed _ unwanted ⟨edge, stored⟩ there, was, inScope⟩
      have stands : standing (sync.found view) edge.id = some edge :=
        (standing_iff (nodup_found _)).mpr ⟨member, rfl⟩
      rw [stands] at missed
      cases missed
  · intro wanted
    refine ⟨lists edge wanted, ?_, (checked.lies edge wanted).inScope⟩
    rw [written, outcome_wanted checked wanted]

theorem edgeOf_there {edge : Item} (there : sync.LiesThere edge) :
    ∃ indexed, sync.registration.edgeOf (some edge) = some indexed ∧
      indexed.endpoints.at sync.position = sync.endpoint := by
  obtain ⟨⟨ends, extracted, here⟩, inScope⟩ := there
  refine ⟨⟨edge.id, ends, sync.scope⟩, ?_, here⟩
  simp [EdgeRegistration.edgeOf, EdgeRegistration.indexedEdge, extracted, inScope, bind, Except.bind, pure,
    Except.pure, Except.toOption]

/-- A coherent index finds the edges that lie there. -/
theorem finds_of_coherent {view : GraphView} (coherent : view.state.Coherent view.schema view.registry)
    (registered : sync.registration ∈ view.schema.registrations) :
    sync.Finds (sync.found view) (sync.values view.registry) := by
  intro old
  rw [found, mem_current, mem_edgeIdsAt coherent registered]
  change (_ ∧ sync.values view.registry old.id = some old ∧ _) ↔ _
  constructor
  · rintro ⟨⟨edge, listed, here⟩, stored, inScope⟩
    obtain ⟨item, value, read⟩ := EdgeRegistration.value_of_stored listed
    obtain rfl : old = item := Option.some.inj (stored.symm.trans value)
    obtain ⟨ends, extracted⟩ : ∃ ends, sync.registration.extract old = .ok ends ∧ ends = edge.endpoints := by
      unfold EdgeRegistration.edgeOf at read
      cases indexed : sync.registration.indexedEdge old with
      | error error => simp [indexed, Except.toOption] at read
      | ok found =>
        simp only [indexed, Option.bind_some, Except.toOption, Option.some.injEq] at read
        exact ⟨_, (EdgeRegistration.read_of_indexed indexed).1, read ▸ rfl⟩
    exact ⟨stored, ⟨ends, extracted.1, extracted.2 ▸ here⟩, inScope⟩
  · rintro ⟨stored, there⟩
    obtain ⟨indexed, read, here⟩ := edgeOf_there there
    refine ⟨⟨indexed, ?_, here⟩, stored, there.inScope⟩
    unfold EdgeRegistration.storedEdges
    change sync.registration.edgeOf (sync.values view.registry old.id) = _
    rw [stored, read]

/-! ### What the index lists -/

section
variable {schema : GraphSchema} {registration : EdgeRegistration} {position : EndPosition} {endpoint : EndpointValue}
  (kept : schema.projectsEndpoint registration.edgeType position = true)

include kept in
theorem listed_reindex (old new : Option IndexedEdge) (state : EdgeTypeState) (id : String) :
    id ∈ bucketIds (GraphView.bucketAt (reindex schema registration old new state) position endpoint) ↔
      (id ∈ bucketIds (GraphView.bucketAt state position endpoint) ∧
        ¬∃ edge, old = some edge ∧ edge.endpoints.at position = endpoint ∧ edge.id = id) ∨
      ∃ edge, new = some edge ∧ edge.endpoints.at position = endpoint ∧ edge.id = id := by
  have dropped : ∀ edge, id ∈ bucketIds (GraphView.bucketAt (dropEdge registration edge state) position endpoint) ↔
      id ∈ bucketIds (GraphView.bucketAt state position endpoint) ∧
        ¬(edge.endpoints.at position = endpoint ∧ edge.id = id) := by
    intro edge
    cases position with
    | a =>
      change id ∈ bucketIds ((dropEdge registration edge state).a endpoint) ↔ id ∈ bucketIds (state.a endpoint) ∧ _
      rw [dropEdge_a, mem_bucketIds, mem_bucketIds, holds_removeIncidence]
      rw [EdgeEndpoints.at, eq_comm, @eq_comm _ id]
    | b =>
      change id ∈ bucketIds ((dropEdge registration edge state).b endpoint) ↔ id ∈ bucketIds (state.b endpoint) ∧ _
      rw [dropEdge_b, mem_bucketIds, mem_bucketIds, holds_removeIncidence]
      rw [EdgeEndpoints.at, eq_comm, @eq_comm _ id]
  have inserted : ∀ edge (state : EdgeTypeState),
      id ∈ bucketIds (GraphView.bucketAt (insertIndexed schema registration state edge) position endpoint) ↔
        id ∈ bucketIds (GraphView.bucketAt state position endpoint) ∨
          (edge.endpoints.at position = endpoint ∧ edge.id = id) := by
    intro edge state
    cases position with
    | a =>
      change id ∈ bucketIds ((insertIndexed schema registration state edge).a endpoint) ↔
        id ∈ bucketIds (state.a endpoint) ∨ _
      rw [insertIndexed_a, if_pos kept, mem_bucketIds, mem_bucketIds, holds_insertIncidence]
      rw [EdgeEndpoints.at, eq_comm, @eq_comm _ id]
    | b =>
      change id ∈ bucketIds ((insertIndexed schema registration state edge).b endpoint) ↔
        id ∈ bucketIds (state.b endpoint) ∨ _
      rw [insertIndexed_b, if_pos kept, mem_bucketIds, mem_bucketIds, holds_insertIncidence]
      rw [EdgeEndpoints.at, eq_comm, @eq_comm _ id]
  cases old with
  | none => cases new <;> simp [reindex, inserted]
  | some before => cases new <;> simp [reindex, inserted, dropped]

include kept in
/-- An edge that is not written is listed as before. -/
theorem listed_reindexAll_of_ne {stored : String → Option IndexedEdge} (own : OwnId stored)
    {changes : List (String × Option IndexedEdge)} (owns : OwnIds changes) {id : String}
    (untouched : id ∉ changes.map Prod.fst) (state : EdgeTypeState) :
    id ∈ bucketIds (GraphView.bucketAt (reindexAll schema registration stored changes state) position endpoint) ↔
      id ∈ bucketIds (GraphView.bucketAt state position endpoint) := by
  induction changes generalizing state with
  | nil => rfl
  | cons change rest ih =>
    have other : id ≠ change.1 := fun same => untouched (List.mem_cons.mpr (.inl same))
    have rest_untouched : id ∉ rest.map Prod.fst := fun member => untouched (List.mem_cons_of_mem _ member)
    refine (ih (fun id edge member => owns id edge (List.mem_cons_of_mem _ member)) rest_untouched _).trans ?_
    rw [listed_reindex kept]
    constructor
    · rintro (⟨before, -⟩ | ⟨edge, new, -, same⟩)
      · exact before
      · exact absurd (same.symm.trans (owns change.1 edge (by rw [← new]; exact List.mem_cons_self))) other
    · refine fun before => .inl ⟨before, ?_⟩
      rintro ⟨edge, old, -, same⟩
      exact other (same.symm.trans (own _ _ old))

include kept in
/-- An edge written once is listed where it was put. -/
theorem listed_reindexAll_of_put {stored : String → Option IndexedEdge} (own : OwnId stored)
    {changes : List (String × Option IndexedEdge)} (owns : OwnIds changes) (nodup : (changes.map Prod.fst).Nodup)
    {id : String} {edge : IndexedEdge} (put : (id, some edge) ∈ changes) (here : edge.endpoints.at position = endpoint)
    (state : EdgeTypeState) :
    id ∈ bucketIds (GraphView.bucketAt (reindexAll schema registration stored changes state) position endpoint) := by
  induction changes generalizing state with
  | nil => cases put
  | cons change rest ih =>
    obtain ⟨apart, nodup⟩ := List.nodup_cons.mp nodup
    have rest_owns : OwnIds rest := fun id edge member => owns id edge (List.mem_cons_of_mem _ member)
    rcases List.mem_cons.mp put with rfl | put
    · refine (listed_reindexAll_of_ne kept own rest_owns apart _).mpr ?_
      rw [listed_reindex kept]
      exact .inr ⟨edge, rfl, here, owns id edge List.mem_cons_self⟩
    · exact ih rest_owns nodup put _

end

/-- The index is told of the writes of a plan. -/
structure Told (sync : GraphSync) (plan : GraphSyncPlan) (view view' : GraphView) : Prop where
  schema : view'.schema = view.schema
  values : sync.values view'.registry = sync.values (view.registry.writeAll (writes plan))
  index : (view'.state.edgeTypes sync.registration.edgeType).projections =
    reindexAll view.schema sync.registration (sync.registration.storedEdges view.registry)
      (edgeChanges sync.registration (writes plan)) (view.state.edgeTypes sync.registration.edgeType).projections

section
variable {order : HashOrder} {view view' : GraphView} (checked : sync.Checked)
  (told : sync.Told (sync.plan order (sync.found view)) view view')

theorem stored_found {view : GraphView} : ∀ old ∈ sync.found view, sync.values view.registry old.id = some old :=
  fun _ member => (mem_current.mp member).2.1

include checked told in
theorem values_after : sync.values view'.registry = sync.outcome (sync.found view) (sync.values view.registry) := by
  rw [told.values]
  exact funext (values_writes checked (nodup_found _) stored_found)

include checked in
theorem nodup_edgeChanges :
    ((edgeChanges sync.registration (writes (sync.plan order (sync.found view)))).map Prod.fst).Nodup := by
  have ids : ((writes (sync.plan order (sync.found view))).map fun change => change.item.id).Nodup := by
    unfold writes
    rw [List.map_append, List.map_map, List.map_map]
    refine List.nodup_append.mpr ⟨nodup_deletes (nodup_found _), ?_, ?_⟩
    · rw [plan_upserts]
      exact checked.nodup.sublist (List.filter_sublist.map Item.id)
    · rintro id deleted _ put rfl
      obtain ⟨old, member, rfl⟩ := List.mem_map.mp deleted
      obtain ⟨edge, upserted, same⟩ := List.mem_map.mp put
      rw [plan_upserts] at upserted
      exact (mem_deletes.mp member).2 edge (List.mem_filter.mp upserted).1 same
  unfold edgeChanges
  rw [List.map_map]
  exact ids.sublist (List.filter_sublist.map _)

theorem mem_edgeIdsAt_scanned {view : GraphView}
    (unkept : view.schema.projectsEndpoint sync.registration.edgeType sync.position = false) (id : String) :
    id ∈ view.edgeIdsAt sync.registration sync.position sync.endpoint ↔ ∃ item,
      sync.values view.registry id = some item ∧ itemMatches sync.registration
        (fun endpoints => endpoints.at sync.position = sync.endpoint) item = true := by
  unfold GraphView.edgeIdsAt
  rw [unkept]
  exact mem_scan_stored

theorem mem_edgeIdsAt_kept {view : GraphView}
    (kept : view.schema.projectsEndpoint sync.registration.edgeType sync.position = true) (id : String) :
    id ∈ view.edgeIdsAt sync.registration sync.position sync.endpoint ↔
      id ∈ bucketIds (GraphView.bucketAt (view.state.edgeTypes sync.registration.edgeType).projections
        sync.position sync.endpoint) := by
  unfold GraphView.edgeIdsAt
  rw [kept]
  cases sync.position <;> exact Iff.rfl

include checked told in
/-- A scan of the store finds the wanted edges, and no others. -/
theorem found_by_scan (unkept : view.schema.projectsEndpoint sync.registration.edgeType sync.position = false) :
    ∀ edge, edge ∈ sync.found view' ↔ edge ∈ sync.edges := by
  have values := values_after checked told
  have unkept' : view'.schema.projectsEndpoint sync.registration.edgeType sync.position = false :=
    told.schema ▸ unkept
  refine finds_after checked values (fun edge wanted => (mem_edgeIdsAt_scanned unkept' _).mpr ⟨edge, ?_, ?_⟩) ?_
  · rw [values, outcome_wanted checked wanted]
  · obtain ⟨ends, extracted, here⟩ := (checked.lies edge wanted).ends
    unfold itemMatches
    rw [extracted]
    exact decide_eq_true here
  · intro id unwanted _ there
    obtain ⟨item, after, hit⟩ := (mem_edgeIdsAt_scanned unkept' id).mp there
    rw [values] at after
    rcases outcome_cases checked after with ⟨wanted, same⟩ | ⟨-, -, was⟩
    · exact absurd same (unwanted item wanted)
    · exact (mem_edgeIdsAt_scanned unkept id).mpr ⟨item, was, hit⟩

section
variable (kept : view.schema.projectsEndpoint sync.registration.edgeType sync.position = true)

include told kept in
theorem listed_after (id : String) : id ∈ view'.edgeIdsAt sync.registration sync.position sync.endpoint ↔
    id ∈ bucketIds (GraphView.bucketAt (reindexAll view.schema sync.registration
      (sync.registration.storedEdges view.registry)
      (edgeChanges sync.registration (writes (sync.plan order (sync.found view))))
      (view.state.edgeTypes sync.registration.edgeType).projections) sync.position sync.endpoint) := by
  rw [mem_edgeIdsAt_kept (told.schema ▸ kept), told.index]

include told kept in
/-- What no write is about is listed as before. -/
theorem listed_untouched {id : String}
    (apart : ∀ change ∈ writes (sync.plan order (sync.found view)), change.item.id ≠ id) :
    id ∈ view'.edgeIdsAt sync.registration sync.position sync.endpoint ↔
      id ∈ view.edgeIdsAt sync.registration sync.position sync.endpoint := by
  rw [listed_after told kept, mem_edgeIdsAt_kept kept]
  refine listed_reindexAll_of_ne kept (EdgeRegistration.ownId_storedEdges _ _) (ownIds_edgeChanges _ _)
    (fun member => ?_) _
  simp only [edgeChanges, List.map_map, List.mem_map, List.mem_filter] at member
  obtain ⟨change, ⟨listed, -⟩, same⟩ := member
  exact apart change listed same

include checked told kept in
theorem listed_wanted {edge : Item} (wanted : edge ∈ sync.edges) :
    edge.id ∈ view'.edgeIdsAt sync.registration sync.position sync.endpoint := by
  by_cases same : standing (sync.found view) edge.id = some edge
  · have member := ((standing_iff (nodup_found _)).mp same).1
    refine (listed_untouched told kept fun change written again => ?_).mpr (mem_current.mp member).1
    rcases write_cases checked (nodup_found _) written with ⟨-, put, other⟩ | ⟨-, unwanted, -⟩
    · rw [again] at other
      obtain rfl := List.inj_on_of_nodup_map checked.nodup put wanted again
      exact other same
    · exact (standing_none checked).mp unwanted edge wanted again.symm
  · have put : ⟨.set, edge⟩ ∈ writes (sync.plan order (sync.found view)) := by
      refine mem_writes.mpr (.inr ⟨edge, ?_, rfl⟩)
      rw [plan_upserts]
      exact List.mem_filter.mpr ⟨wanted, decide_eq_true same⟩
    obtain ⟨edgeOf, read, here⟩ := edgeOf_there (checked.lies edge wanted)
    refine (listed_after told kept edge.id).mpr (listed_reindexAll_of_put kept
      (EdgeRegistration.ownId_storedEdges _ _) (ownIds_edgeChanges _ _) (nodup_edgeChanges checked) ?_ here _)
    unfold edgeChanges
    refine List.mem_map.mpr ⟨⟨.set, edge⟩, List.mem_filter.mpr ⟨put, decide_eq_true (sync.typed edge wanted)⟩, ?_⟩
    exact congrArg (Prod.mk edge.id) read

include checked told kept in
/-- The index finds the wanted edges, and no others. -/
theorem found_by_index : ∀ edge, edge ∈ sync.found view' ↔ edge ∈ sync.edges := by
  have values := values_after checked told
  refine finds_after checked values (fun _ wanted => listed_wanted checked told kept wanted) ?_
  rintro id unwanted ⟨item, after⟩ there
  refine (listed_untouched told kept fun change written same => ?_).mp there
  rcases write_cases checked (nodup_found _) written with ⟨-, put, -⟩ | ⟨-, gone, found⟩
  · exact unwanted change.item put same
  · rw [values, ← same] at after
    unfold outcome at after
    rw [gone, found] at after
    cases after

end

include checked told in
/-- The lookup finds the wanted edges, and no others. -/
theorem found_after : ∀ edge, edge ∈ sync.found view' ↔ edge ∈ sync.edges := by
  cases kept : view.schema.projectsEndpoint sync.registration.edgeType sync.position with
  | false => exact found_by_scan checked told kept
  | true => exact found_by_index checked told kept

end

end GraphSync
end Myko

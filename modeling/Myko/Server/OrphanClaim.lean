import Mathlib.Data.List.MinMax
import Myko.Lib.Runs
import Myko.Server.ParentArrays

/-!
Items of servers that are gone are claimed for live ones. Who owns an item is decided on a snapshot of its store and
written back item by item, while others write to the stores.
-/

namespace Myko
open Runs

/-- The ids of the live servers, the registered types with a server-owned field, the field of each, and whether
the claim is made by a subscriber of a mutation on the same thread. -/
structure ClaimContext where
  liveIds : List String
  types : List String
  serverOwnedField : String → Option String
  nested : Bool

namespace ClaimContext
variable (ctx : ClaimContext)

def serverOwner (item : Item) : Option String :=
  match (ctx.serverOwnedField item.entityType).bind item.field with
  | some (.text owner) => if owner = "" then none else some owner
  | _ => none

def bakeServerOwner (item : Item) (serverId : String) : Option Item :=
  (ctx.serverOwnedField item.entityType).map fun field => item.setField field (.text serverId)

/-- The owner is a live server. -/
def Healthy (item : Item) : Prop :=
  (ctx.serverOwner item).getD "" ≠ "" ∧ (ctx.serverOwner item).getD "" ∈ ctx.liveIds

instance (item : Item) : Decidable (ctx.Healthy item) := inferInstanceAs (Decidable (_ ∧ _))

def countItem (counts : String → Nat) (item : Item) : String → Nat :=
  match ctx.serverOwner item with
  | some owner => Function.update counts owner (counts owner + 1)
  | none => counts

/-- The first of those with the fewest items. -/
def leastLoaded (counts : String → Nat) : Option String := ctx.liveIds.argmin counts

end ClaimContext

inductive ClaimPhase where
  | counting (types : List String)
  /-- Items of the last snapshot and types that are still to be gone through. -/
  | claiming (items : List Item) (types : List String)
  | returned
  deriving DecidableEq

structure OwnerWrite where
  before : Option Item
  after : Item

/-- The server chosen for an item, and how many items each server had then: those counted at the beginning and
those reassigned to it since. -/
structure Reassignment where
  owner : String
  load : String → Nat

/-- How a mutation is answered. Inside another of the same thread it is put off until that one goes on, and dropped
if it repeats one of its transitions. -/
inductive SetOutcome where
  | stored
  | queued (accepted : Bool)
  | failed (landed : Bool)
  deriving DecidableEq

def SetOutcome.stores : SetOutcome → Bool
  | .stored => true
  | .queued _ => false
  | .failed landed => landed

structure OrphanClaim where
  registry : StoreRegistry
  phase : ClaimPhase
  counts : String → Nat
  queued : List (Item × String)
  /-- The items the distribution has been counted from. -/
  counted : List Item
  reassigned : List Reassignment
  writes : List OwnerWrite
  /-- Set by others since their store was scanned, or with a write of the claim put off. -/
  unsettled : List (String × String)
  /-- The stores when the claim returned Ok. -/
  result : Option StoreRegistry

inductive ClaimEvent where
  /-- Another writer's set or delete. -/
  | write (change : Change)
  | count
  | scan (items : List Item)
  | next (outcome : SetOutcome)
  | finish
  | drain

namespace OrphanClaim
variable (ctx : ClaimContext)

def start (registry : StoreRegistry) : OrphanClaim where
  registry
  phase := if ctx.liveIds = [] then .returned else .counting ctx.types
  counts _ := 0
  queued := []
  counted := []
  reassigned := []
  writes := []
  unsettled := []
  result := none

def write (s : OrphanClaim) (change : Change) : OrphanClaim :=
  { s with
    registry := s.registry.write change
    unsettled := if change.kind = .set then change.key :: s.unsettled else s.unsettled }

/-- The claim's own write reaches the store. -/
def store (s : OrphanClaim) (patched : Item) : OrphanClaim :=
  { s with
    registry := s.registry.insert patched
    writes := ⟨s.registry.canonicalItem patched, patched⟩ :: s.writes
    unsettled := s.unsettled.filter (· ≠ (patched.entityType, patched.id)) }

def load (s : OrphanClaim) (id : String) : Nat :=
  s.counted.countP (ctx.serverOwner · = some id) + s.reassigned.countP (·.owner = id)

def setDyn (s : OrphanClaim) (patched : Item) (newOwner : String) (items : List Item) (types : List String)
    (outcome : SetOutcome) : Option OrphanClaim :=
  let reassigned := ⟨newOwner, s.load ctx⟩ :: s.reassigned
  let counts := Function.update s.counts newOwner (s.counts newOwner + 1)
  match outcome with
  | .stored =>
    if ctx.nested then none
    else some { s.store patched with phase := .claiming items types, counts, reassigned }
  | .queued accepted =>
    if ctx.nested then
      some { s with
        phase := .claiming items types, counts, reassigned
        queued := if accepted then s.queued ++ [(patched, newOwner)] else s.queued
        unsettled := (patched.entityType, patched.id) :: s.unsettled }
    else none
  | .failed landed =>
    if landed ∧ ctx.nested then none
    else some { (if landed then s.store patched else s) with phase := .returned, reassigned }

/-- The next item of the snapshot. -/
def claimNext (s : OrphanClaim) (item : Item) (items : List Item) (types : List String) (outcome : SetOutcome) :
    Option OrphanClaim :=
  if ctx.Healthy item then some { s with phase := .claiming items types }
  else
    match ctx.leastLoaded s.counts with
    | none => some { s with phase := .claiming items types }
    | some newOwner =>
      match ctx.bakeServerOwner item newOwner with
      | none => some { s with phase := .claiming items types }
      | some patched => s.setDyn ctx patched newOwner items types outcome

def step (s : OrphanClaim) : ClaimEvent → Option OrphanClaim
  | .write change => some (s.write change)
  | .count =>
    match s.phase with
    | .counting (type :: types) =>
      let items := s.registry.snapshot type
      some { s with
        phase := .counting types, counts := items.foldl ctx.countItem s.counts, counted := items ++ s.counted }
    | .counting [] =>
      some { s with
        phase := .claiming [] ctx.types, counts := fun id => if id ∈ ctx.liveIds then s.counts id else 0 }
    | _ => none
  | .scan items =>
    match s.phase with
    | .claiming [] (type :: types) =>
      -- A store enumerates its items in any order.
      if items.Perm (s.registry.snapshot type) then
        some { s with phase := .claiming items types, unsettled := s.unsettled.filter (·.1 ≠ type) }
      else none
    | _ => none
  | .next outcome =>
    match s.phase with
    | .claiming (item :: items) types => s.claimNext ctx item items types outcome
    | _ => none
  | .finish =>
    match s.phase with
    | .claiming [] [] => some { s with phase := .returned, result := some s.registry }
    | _ => none
  | .drain =>
    match s.phase, s.queued with
    | .returned, (patched, _) :: queued => some { s.store patched with queued }
    | _, _ => none

/-! ### What a claim is for -/

/-- A write of the claim: the item it meets had no live owner, and gets one; nothing else of it changes. -/
def WriteRight (write : OwnerWrite) : Prop :=
  ∃ cur, write.before = some cur ∧ ¬ctx.Healthy cur ∧ (∃ owner, ctx.bakeServerOwner cur owner = some write.after) ∧
    ctx.Healthy write.after

/-- No live server has fewer items. -/
def Fewest (reassignment : Reassignment) : Prop :=
  reassignment.owner ∈ ctx.liveIds ∧ ∀ id ∈ ctx.liveIds, reassignment.load reassignment.owner ≤ reassignment.load id

structure ClaimRight (atStart : StoreRegistry) (s : OrphanClaim) : Prop where
  writes : ∀ write ∈ s.writes, WriteRight ctx write
  fewest : ∀ reassignment ∈ s.reassigned, Fewest ctx reassignment
  owned : ∀ result, s.result = some result → ∀ type ∈ ctx.types, ∀ id item,
    result.getValue type id = some item → atStart.getValue type id ≠ none →
    ctx.serverOwnedField type ≠ none → ctx.Healthy item

/-- The store still has the item without a live owner, and with its other fields. -/
def Unmoved (registry : StoreRegistry) (item : Item) : Prop :=
  ∃ cur, registry.canonicalItem item = some cur ∧ ¬ctx.Healthy cur ∧
    ∀ owner, ctx.bakeServerOwner cur owner = ctx.bakeServerOwner item owner

/-- What is rewritten is as it was when its store was scanned, and what others have written since has a live
owner when the claim returns. -/
def Undisturbed (atStart : StoreRegistry) (s : OrphanClaim) : ClaimEvent → Prop
  | .next outcome =>
    match s.phase with
    | .claiming (item :: _) _ => ¬ctx.Healthy item → ctx.serverOwnedField item.entityType ≠ none →
      outcome.stores = true → Unmoved ctx s.registry item ∧ ctx.leastLoaded s.counts ≠ some ""
    | _ => True
  | .drain => ∀ entry, s.queued.head? = some entry → Unmoved ctx s.registry entry.1 ∧ entry.2 ≠ ""
  | .finish => ∀ type ∈ ctx.types, ∀ id item, (type, id) ∈ s.unsettled → s.registry.getValue type id = some item →
    atStart.getValue type id ≠ none → ctx.serverOwnedField type ≠ none → ctx.Healthy item
  | _ => True

end OrphanClaim

/-! ### Owners -/

namespace Item

theorem assign_assign (name : String) (value other : Field) (fields : List (String × Field)) :
    assign name value (assign name other fields) = assign name value fields := by
  induction fields with
  | nil => simp [assign]
  | cons entry rest ih =>
    by_cases here : entry.1 = name
    · simp [assign, here]
    · simp [assign, here, ih]

theorem setField_setField (item : Item) (name : String) (value other : Field) :
    (item.setField name other).setField name value = item.setField name value := by
  unfold setField
  rw [assign_assign]

end Item

namespace ClaimContext
variable {ctx : ClaimContext} {item patched : Item} {owner : String}

theorem healthy_iff : ctx.Healthy item ↔ ∃ owner, ctx.serverOwner item = some owner ∧ owner ∈ ctx.liveIds := by
  unfold Healthy serverOwner
  split
  · next owner _ =>
    by_cases empty : owner = ""
    · simp [empty]
    · simp [empty]
  · simp

theorem bake_key (baked : ctx.bakeServerOwner item owner = some patched) :
    patched.entityType = item.entityType ∧ patched.id = item.id := by
  obtain ⟨field, -, rfl⟩ := Option.map_eq_some_iff.mp baked
  exact ⟨rfl, rfl⟩

/-- Who owned an item does not show in what it is baked to. -/
theorem bake_bake (baked : ctx.bakeServerOwner item owner = some patched) (other : String) :
    ctx.bakeServerOwner patched other = ctx.bakeServerOwner item other := by
  obtain ⟨field, typed, rfl⟩ := Option.map_eq_some_iff.mp baked
  unfold bakeServerOwner
  rw [Item.setField_entityType, typed]
  exact congrArg some (item.setField_setField field (.text other) (.text owner))

theorem serverOwner_bake (baked : ctx.bakeServerOwner item owner = some patched) :
    ctx.serverOwner patched = if owner = "" then none else some owner := by
  obtain ⟨field, typed, rfl⟩ := Option.map_eq_some_iff.mp baked
  unfold serverOwner
  rw [Item.setField_entityType, typed]
  simp [Item.field_setField]

theorem healthy_bake (baked : ctx.bakeServerOwner item owner = some patched) (live : owner ∈ ctx.liveIds) :
    ctx.Healthy patched ↔ owner ≠ "" := by
  rw [healthy_iff, serverOwner_bake baked]
  by_cases empty : owner = ""
  · simp [empty]
  · simp [empty, live]

theorem bake_eq_none : ctx.bakeServerOwner item owner = none ↔ ctx.serverOwnedField item.entityType = none :=
  Option.map_eq_none_iff

/-- The distribution counts the items of each owner. -/
theorem countItems (items : List Item) (counts : String → Nat) (id : String) :
    items.foldl ctx.countItem counts id = counts id + items.countP (ctx.serverOwner · = some id) := by
  induction items generalizing counts with
  | nil => rfl
  | cons item rest ih =>
    rw [List.foldl_cons, ih, List.countP_cons]
    unfold countItem
    cases owned : ctx.serverOwner item with
    | none => simp
    | some owner =>
      by_cases here : owner = id
      · subst here
        simp
        omega
      · simp [here, Function.update_of_ne (Ne.symm here)]

theorem leastLoaded_fewest {counts : String → Nat} (chosen : ctx.leastLoaded counts = some owner) :
    owner ∈ ctx.liveIds ∧ ∀ id ∈ ctx.liveIds, counts owner ≤ counts id :=
  ⟨List.argmin_mem chosen, fun _ live => List.le_of_mem_argmin live chosen⟩

end ClaimContext

namespace OrphanClaim
variable {ctx : ClaimContext} {atStart : StoreRegistry} {s t : OrphanClaim} {item patched : Item} {owner : String}

/-- A write is right when what it rewrites has stayed. -/
theorem writeRight_iff (baked : ctx.bakeServerOwner item owner = some patched) (live : owner ∈ ctx.liveIds) :
    WriteRight ctx ⟨s.registry.canonicalItem patched, patched⟩ ↔ Unmoved ctx s.registry item ∧ owner ≠ "" := by
  obtain ⟨sameType, sameId⟩ := ctx.bake_key baked
  have same : s.registry.canonicalItem patched = s.registry.canonicalItem item := by
    unfold StoreRegistry.canonicalItem
    rw [sameType, sameId]
  unfold WriteRight Unmoved
  rw [same]
  constructor
  · rintro ⟨cur, stored, orphan, ⟨other, agrees⟩, healthy⟩
    refine ⟨⟨cur, stored, orphan, fun next => ?_⟩, (ctx.healthy_bake baked live).mp healthy⟩
    rw [← ctx.bake_bake agrees, ← ctx.bake_bake baked]
  · rintro ⟨⟨cur, stored, orphan, agrees⟩, named⟩
    exact ⟨cur, stored, orphan, ⟨owner, (agrees owner).trans baked⟩, (ctx.healthy_bake baked live).mpr named⟩

/-! ### What a claim keeps -/

structure Inv (ctx : ClaimContext) (s : OrphanClaim) : Prop where
  live : s.phase ≠ .returned → ctx.liveIds ≠ []
  counting : ∀ types, s.phase = .counting types →
    s.reassigned = [] ∧ ∀ id, s.counts id = s.counted.countP (ctx.serverOwner · = some id)
  loads : ∀ items types, s.phase = .claiming items types → ∀ id ∈ ctx.liveIds, s.counts id = s.load ctx id
  /-- Of the stores scanned, whatever has no live owner is still to come or has been written by others. -/
  scanned : ∀ items types, s.phase = .claiming items types → ∀ type ∈ ctx.types, type ∉ types → ∀ id item,
    s.registry.getValue type id = some item → (type, id) ∈ s.unsettled ∨ ctx.Healthy item ∨
      ctx.serverOwnedField type = none ∨ item ∈ items
  queued : ∀ entry ∈ s.queued, entry.2 ∈ ctx.liveIds ∧ ∃ item, ctx.bakeServerOwner item entry.2 = some entry.1

theorem claimNext_cases {items : List Item} {types : List String} {outcome : SetOutcome}
    (stepped : s.claimNext ctx item items types outcome = some t) :
    ((ctx.Healthy item ∨ ctx.liveIds = [] ∨ ctx.serverOwnedField item.entityType = none) ∧
        t = { s with phase := .claiming items types }) ∨
      ∃ newOwner patched, ¬ctx.Healthy item ∧ ctx.leastLoaded s.counts = some newOwner ∧
        ctx.bakeServerOwner item newOwner = some patched ∧
        s.setDyn ctx patched newOwner items types outcome = some t := by
  unfold claimNext at stepped
  by_cases healthy : ctx.Healthy item
  · rw [if_pos healthy] at stepped
    exact .inl ⟨.inl healthy, (Option.some.inj stepped).symm⟩
  rw [if_neg healthy] at stepped
  cases chosen : ctx.leastLoaded s.counts with
  | none =>
    rw [chosen] at stepped
    exact .inl ⟨.inr (.inl (List.argmin_eq_none.mp chosen)), (Option.some.inj stepped).symm⟩
  | some newOwner =>
    rw [chosen] at stepped
    cases baked : ctx.bakeServerOwner item newOwner with
    | none =>
      simp only [baked] at stepped
      exact .inl ⟨.inr (.inr (ctx.bake_eq_none.mp baked)), (Option.some.inj stepped).symm⟩
    | some patched =>
      simp only [baked] at stepped
      exact .inr ⟨newOwner, patched, healthy, rfl, baked, stepped⟩

/-- A mutation, whatever its outcome: what it adds to the writes and to the reassignments. -/
theorem setDyn_log {items : List Item} {types : List String} {outcome : SetOutcome}
    (stepped : s.setDyn ctx patched owner items types outcome = some t) :
    t.reassigned = ⟨owner, s.load ctx⟩ :: s.reassigned ∧ t.result = s.result ∧
      t.writes = if outcome.stores then ⟨s.registry.canonicalItem patched, patched⟩ :: s.writes else s.writes := by
  cases outcome with
  | stored =>
    by_cases nested : ctx.nested = true
    · simp [setDyn, nested] at stepped
    · simp only [setDyn, nested, Bool.false_eq_true, ↓reduceIte, Option.some.injEq] at stepped
      subst stepped
      exact ⟨rfl, rfl, rfl⟩
  | queued accepted =>
    by_cases nested : ctx.nested = true
    · simp only [setDyn, nested, ↓reduceIte, Option.some.injEq] at stepped
      subst stepped
      exact ⟨rfl, rfl, rfl⟩
    · simp [setDyn, nested] at stepped
  | failed landed =>
    simp only [setDyn] at stepped
    split at stepped
    · cases stepped
    · cases stepped
      cases landed
      · exact ⟨rfl, rfl, rfl⟩
      · exact ⟨rfl, rfl, rfl⟩

theorem right_same (right : ClaimRight ctx atStart s) (writes : t.writes = s.writes)
    (reassigned : ∀ reassignment ∈ t.reassigned, Fewest ctx reassignment) (result : t.result = s.result) :
    ClaimRight ctx atStart t where
  writes write member := right.writes write (writes ▸ member)
  fewest := reassigned
  owned found at_result := right.owned found (result ▸ at_result)

theorem right_write_iff (right : ClaimRight ctx atStart s) {write : OwnerWrite} (writes : t.writes = write :: s.writes)
    (reassigned : ∀ reassignment ∈ t.reassigned, Fewest ctx reassignment) (result : t.result = s.result) :
    ClaimRight ctx atStart t ↔ WriteRight ctx write := by
  constructor
  · intro after
    exact after.writes write (writes ▸ List.mem_cons_self)
  · intro fine
    refine ⟨fun other member => ?_, reassigned, fun found at_result => right.owned found (result ▸ at_result)⟩
    rw [writes] at member
    rcases List.mem_cons.mp member with here | earlier
    · exact here ▸ fine
    · exact right.writes other earlier

theorem right_next_iff {items : List Item} {types : List String} {outcome : SetOutcome} (inv : Inv ctx s)
    (right : ClaimRight ctx atStart s) (phase : s.phase = .claiming (item :: items) types)
    (stepped : s.claimNext ctx item items types outcome = some t) :
    ClaimRight ctx atStart t ↔ (¬ctx.Healthy item → ctx.serverOwnedField item.entityType ≠ none →
      outcome.stores = true → Unmoved ctx s.registry item ∧ ctx.leastLoaded s.counts ≠ some "") := by
  rcases claimNext_cases stepped with ⟨skipped, rfl⟩ | ⟨newOwner, patched, orphan, chosen, baked, stepped⟩
  · refine iff_of_true (right_same right rfl right.fewest rfl) fun orphan owned => ?_
    rcases skipped with healthy | none | unowned
    · exact absurd healthy orphan
    · exact absurd none (inv.live (by rw [phase]; simp))
    · exact absurd unowned owned
  · obtain ⟨reassigned, result, writes⟩ := setDyn_log stepped
    obtain ⟨live, least⟩ := ctx.leastLoaded_fewest chosen
    have owned : ctx.serverOwnedField item.entityType ≠ none := fun none => by
      rw [ctx.bake_eq_none.mpr none] at baked
      cases baked
    have fewest : ∀ reassignment ∈ t.reassigned, Fewest ctx reassignment := by
      intro reassignment member
      rw [reassigned] at member
      rcases List.mem_cons.mp member with rfl | earlier
      · refine ⟨live, fun id among => ?_⟩
        have loads := inv.loads _ _ phase
        show s.load ctx newOwner ≤ s.load ctx id
        rw [← loads newOwner live, ← loads id among]
        exact least id among
      · exact right.fewest reassignment earlier
    cases stores : outcome.stores with
    | false =>
      rw [stores] at writes
      exact iff_of_true (right_same right writes fewest result) fun _ _ none => by cases none
    | true =>
      rw [stores] at writes
      rw [right_write_iff right writes fewest result, writeRight_iff baked live, chosen]
      constructor
      · rintro ⟨unmoved, named⟩ _ _ _
        exact ⟨unmoved, fun same => named (Option.some.inj same)⟩
      · intro undisturbed
        obtain ⟨unmoved, named⟩ := undisturbed orphan owned rfl
        exact ⟨unmoved, fun same => named (congrArg some same)⟩

theorem right_finish_iff (inv : Inv ctx s) (right : ClaimRight ctx atStart s) (phase : s.phase = .claiming [] []) :
    ClaimRight ctx atStart { s with phase := .returned, result := some s.registry } ↔
      Undisturbed ctx atStart s .finish := by
  constructor
  · intro after type registered id item _ stored
    exact after.owned s.registry rfl type registered id item stored
  · intro settled
    refine ⟨right.writes, right.fewest, fun result at_result type registered id item stored there owned => ?_⟩
    cases at_result
    rcases inv.scanned _ _ phase type registered (by simp) id item stored with unsettled | healthy | none | waits
    · exact settled type registered id item unsettled stored there owned
    · exact healthy
    · exact absurd none owned
    · cases waits

/-- A step leaves the claim right just when it disturbs nothing. -/
theorem right_step_iff {event : ClaimEvent} (inv : Inv ctx s) (right : ClaimRight ctx atStart s)
    (stepped : step ctx s event = some t) : ClaimRight ctx atStart t ↔ Undisturbed ctx atStart s event := by
  cases event with
  | write change =>
    cases stepped
    exact iff_of_true (right_same right rfl right.fewest rfl) trivial
  | count =>
    simp only [step] at stepped
    split at stepped
    · cases stepped
      exact iff_of_true (right_same right rfl right.fewest rfl) trivial
    · cases stepped
      exact iff_of_true (right_same right rfl right.fewest rfl) trivial
    · cases stepped
  | scan items =>
    simp only [step] at stepped
    split at stepped
    · split at stepped
      · cases stepped
        exact iff_of_true (right_same right rfl right.fewest rfl) trivial
      · cases stepped
    · cases stepped
  | next outcome =>
    simp only [step] at stepped
    split at stepped
    · next item items types phase =>
      unfold Undisturbed
      rw [phase]
      exact right_next_iff inv right phase stepped
    · cases stepped
  | finish =>
    simp only [step] at stepped
    split at stepped
    · next phase =>
      cases stepped
      exact right_finish_iff inv right phase
    · cases stepped
  | drain =>
    simp only [step] at stepped
    split at stepped
    · next patched owner queued phase at_queue =>
      cases stepped
      obtain ⟨live, item, baked⟩ := inv.queued (patched, owner) (by rw [at_queue]; exact List.mem_cons_self)
      have written : ClaimRight ctx atStart { s.store patched with queued } ↔
          WriteRight ctx ⟨s.registry.canonicalItem patched, patched⟩ := right_write_iff right rfl right.fewest rfl
      rw [written, writeRight_iff baked live]
      have same : Unmoved ctx s.registry item ↔ Unmoved ctx s.registry patched := by
        obtain ⟨sameType, sameId⟩ := ctx.bake_key baked
        unfold Unmoved StoreRegistry.canonicalItem
        rw [sameType, sameId]
        simp only [ctx.bake_bake baked]
      rw [same]
      unfold Undisturbed
      rw [at_queue]
      constructor
      · rintro undisturbed entry at_head
        cases at_head
        exact undisturbed
      · intro undisturbed
        exact undisturbed (patched, owner) rfl
    · cases stepped

/-! ### The invariant -/

theorem inv_start (registry : StoreRegistry) : Inv ctx (start ctx registry) := by
  by_cases none : ctx.liveIds = []
  · have phase : (start ctx registry).phase = .returned := by simp [start, none]
    refine ⟨fun running => absurd phase running, fun types at_types => ?_, fun items types at_items => ?_,
      fun items types at_items => ?_, fun entry member => (by cases member)⟩
    · rw [phase] at at_types
      cases at_types
    · rw [phase] at at_items
      cases at_items
    · rw [phase] at at_items
      cases at_items
  · have phase : (start ctx registry).phase = .counting ctx.types := by simp [start, none]
    refine ⟨fun _ => none, fun types _ => ⟨rfl, fun _ => rfl⟩, fun items types at_items => ?_,
      fun items types at_items => ?_, fun entry member => (by cases member)⟩
    · rw [phase] at at_items
      cases at_items
    · rw [phase] at at_items
      cases at_items

theorem inv_write (inv : Inv ctx s) (change : Change) : Inv ctx (s.write change) := by
  refine ⟨inv.live, inv.counting, inv.loads, fun items types phase type registered gone id item stored => ?_,
    inv.queued⟩
  have found : (s.registry.write change).getValue type id = some item := stored
  rw [StoreRegistry.getValue_write] at found
  split at found
  · next here =>
    have set : change.kind = .set := by
      cases kind : change.kind with
      | set => rfl
      | del => simp [Change.value, kind] at found
    exact .inl (by simp [write, set, here])
  · refine (inv.scanned items types phase type registered gone id item found).imp_left fun unsettled => ?_
    unfold write
    dsimp only
    split
    · exact List.mem_cons_of_mem _ unsettled
    · exact unsettled

theorem inv_scan {items : List Item} {type : String} {types : List String} (inv : Inv ctx s)
    (phase : s.phase = .claiming [] (type :: types)) (all : items.Perm (s.registry.snapshot type)) :
    Inv ctx { s with phase := .claiming items types, unsettled := s.unsettled.filter (·.1 ≠ type) } := by
  refine ⟨fun _ => inv.live (by rw [phase]; simp), fun _ at_types => (by cases at_types), fun _ _ _ => ?_,
    fun _ _ same other registered gone id item stored => ?_, inv.queued⟩
  · exact inv.loads _ _ phase
  · cases same
    by_cases here : other = type
    · subst here
      exact .inr (.inr (.inr (all.mem_iff.mpr (StoreRegistry.snapshot_of_getValue stored))))
    · have before := inv.scanned _ _ phase other registered (by simp [here, gone]) id item stored
      rcases before with unsettled | healthy | none | waits
      · exact .inl (List.mem_filter.mpr ⟨unsettled, by simpa using here⟩)
      · exact .inr (.inl healthy)
      · exact .inr (.inr (.inl none))
      · cases waits

/-- A reassignment is counted in the distribution. -/
theorem loads_reassigned (loads : ∀ id ∈ ctx.liveIds, s.counts id = s.load ctx id) (live : owner ∈ ctx.liveIds)
    (counts : t.counts = Function.update s.counts owner (s.counts owner + 1)) (counted : t.counted = s.counted)
    (reassigned : t.reassigned = ⟨owner, s.load ctx⟩ :: s.reassigned) :
    ∀ id ∈ ctx.liveIds, t.counts id = t.load ctx id := by
  intro id among
  unfold load at loads ⊢
  rw [counts, counted, reassigned, List.countP_cons]
  by_cases here : id = owner
  · subst here
    have before := loads id live
    simp
    omega
  · have before := loads id among
    simp [Function.update_of_ne here, Ne.symm here, before]

/-- What is stored while an item of the snapshot is next: that item, or what concerns it no more. -/
theorem Inv.scanned_next {items : List Item} {types : List String} (inv : Inv ctx s)
    (phase : s.phase = .claiming (item :: items) types) {type id : String} {other : Item}
    (registered : type ∈ ctx.types) (gone : type ∉ types) (stored : s.registry.getValue type id = some other) :
    (other = item ∧ type = item.entityType ∧ id = item.id) ∨ (type, id) ∈ s.unsettled ∨ ctx.Healthy other ∨
      ctx.serverOwnedField type = none ∨ other ∈ items := by
  rcases inv.scanned _ _ phase type registered gone id other stored with unsettled | healthy | none | waits
  · exact .inr (.inl unsettled)
  · exact .inr (.inr (.inl healthy))
  · exact .inr (.inr (.inr (.inl none)))
  · rcases List.mem_cons.mp waits with rfl | later
    · obtain ⟨typed, named⟩ := StoreRegistry.getValue_keyed stored
      exact .inl ⟨rfl, typed.symm, named.symm⟩
    · exact .inr (.inr (.inr (.inr later)))

/-- The item of a snapshot that has been dealt with leaves the others. -/
theorem inv_skip {items : List Item} {types : List String} (inv : Inv ctx s)
    (phase : s.phase = .claiming (item :: items) types)
    (skipped : ctx.Healthy item ∨ ctx.liveIds = [] ∨ ctx.serverOwnedField item.entityType = none) :
    Inv ctx { s with phase := .claiming items types } := by
  have live := inv.live (by rw [phase]; simp)
  refine ⟨fun _ => live, fun _ at_types => (by cases at_types), fun _ _ _ => inv.loads _ _ phase,
    fun _ _ same type registered gone id other stored => ?_, inv.queued⟩
  cases same
  rcases inv.scanned_next phase registered gone stored with ⟨rfl, typed, -⟩ | others
  · rcases skipped with healthy | dead | none
    · exact .inr (.inl healthy)
    · exact absurd dead live
    · exact .inr (.inr (.inl (typed ▸ none)))
  · exact others

theorem inv_stored {items : List Item} {types : List String} {t : OrphanClaim} (inv : Inv ctx s)
    (phase : s.phase = .claiming (item :: items) types) (baked : ctx.bakeServerOwner item owner = some patched)
    (healthy : ctx.Healthy patched)
    (same : t = { s.store patched with
      phase := .claiming items types
      counts := Function.update s.counts owner (s.counts owner + 1)
      reassigned := ⟨owner, s.load ctx⟩ :: s.reassigned })
    (live : owner ∈ ctx.liveIds) : Inv ctx t := by
  subst same
  obtain ⟨sameType, sameId⟩ := ctx.bake_key baked
  refine ⟨fun _ => inv.live (by rw [phase]; simp), fun _ at_types => (by cases at_types),
    fun _ _ _ => loads_reassigned (inv.loads _ _ phase) live rfl rfl rfl,
    fun _ _ at_items type registered gone id other stored => ?_, inv.queued⟩
  cases at_items
  have found : (s.registry.insert patched).getValue type id = some other := stored
  rw [StoreRegistry.getValue_insert] at found
  split at found
  · cases found
    exact .inr (.inl healthy)
  · next apart =>
    rcases inv.scanned_next phase registered gone found with ⟨-, typed, named⟩ | unsettled | others
    · exact absurd ⟨typed.trans sameType.symm, named.trans sameId.symm⟩ apart
    · refine .inl (List.mem_filter.mpr ⟨unsettled, ?_⟩)
      rw [decide_eq_true_eq]
      intro same
      exact apart ⟨congrArg Prod.fst same, congrArg Prod.snd same⟩
    · exact .inr others

theorem inv_queued {items : List Item} {types : List String} {accepted : Bool} {t : OrphanClaim} (inv : Inv ctx s)
    (phase : s.phase = .claiming (item :: items) types) (baked : ctx.bakeServerOwner item owner = some patched)
    (same : t = { s with
      phase := .claiming items types
      counts := Function.update s.counts owner (s.counts owner + 1)
      reassigned := ⟨owner, s.load ctx⟩ :: s.reassigned
      queued := if accepted then s.queued ++ [(patched, owner)] else s.queued
      unsettled := (patched.entityType, patched.id) :: s.unsettled })
    (live : owner ∈ ctx.liveIds) : Inv ctx t := by
  subst same
  obtain ⟨sameType, sameId⟩ := ctx.bake_key baked
  refine ⟨fun _ => inv.live (by rw [phase]; simp), fun _ at_types => (by cases at_types),
    fun _ _ _ => loads_reassigned (inv.loads _ _ phase) live rfl rfl rfl,
    fun _ _ at_items type registered gone id other stored => ?_, fun entry member => ?_⟩
  · cases at_items
    rcases inv.scanned_next phase registered gone stored with ⟨-, typed, named⟩ | unsettled | others
    · refine .inl (List.mem_cons.mpr (.inl ?_))
      rw [sameType, sameId, typed, named]
    · exact .inl (List.mem_cons_of_mem _ unsettled)
    · exact .inr others
  · cases accepted with
    | false => exact inv.queued entry member
    | true =>
      rcases List.mem_append.mp member with earlier | last
      · exact inv.queued entry earlier
      · obtain rfl := List.mem_singleton.mp last
        exact ⟨live, item, baked⟩

/-- Once the claim has returned there is no more to keep of it than its queue. -/
theorem inv_returned (phase : t.phase = .returned) (queued : ∀ entry ∈ t.queued, entry.2 ∈ ctx.liveIds ∧
    ∃ item, ctx.bakeServerOwner item entry.2 = some entry.1) : Inv ctx t := by
  refine ⟨fun running => absurd phase running, fun types at_types => ?_, fun items types at_items => ?_,
    fun items types at_items => ?_, queued⟩
  · rw [phase] at at_types
    cases at_types
  · rw [phase] at at_items
    cases at_items
  · rw [phase] at at_items
    cases at_items

theorem inv_next {items : List Item} {types : List String} {outcome : SetOutcome} (inv : Inv ctx s)
    (phase : s.phase = .claiming (item :: items) types) (stepped : s.claimNext ctx item items types outcome = some t)
    (after : ClaimRight ctx atStart t) : Inv ctx t := by
  rcases claimNext_cases stepped with ⟨skipped, rfl⟩ | ⟨newOwner, patched, -, chosen, baked, stepped⟩
  · exact inv_skip inv phase skipped
  obtain ⟨live, -⟩ := ctx.leastLoaded_fewest chosen
  have log := setDyn_log stepped
  cases outcome with
  | stored =>
    by_cases nested : ctx.nested = true
    · simp [setDyn, nested] at stepped
    · simp only [setDyn, nested, Bool.false_eq_true, ↓reduceIte, Option.some.injEq] at stepped
      have written : (⟨s.registry.canonicalItem patched, patched⟩ : OwnerWrite) ∈ t.writes := by
        rw [log.2.2]
        exact List.mem_cons_self
      obtain ⟨_, -, -, -, healthy⟩ := after.writes _ written
      exact inv_stored inv phase baked healthy stepped.symm live
  | queued accepted =>
    by_cases nested : ctx.nested = true
    · simp only [setDyn, nested, ↓reduceIte, Option.some.injEq] at stepped
      exact inv_queued inv phase baked stepped.symm live
    · simp [setDyn, nested] at stepped
  | failed landed =>
    simp only [setDyn] at stepped
    split at stepped
    · cases stepped
    · cases stepped
      refine inv_returned rfl ?_
      cases landed
      · exact inv.queued
      · exact inv.queued

theorem inv_step {event : ClaimEvent} (inv : Inv ctx s) (stepped : step ctx s event = some t)
    (after : ClaimRight ctx atStart t) : Inv ctx t := by
  cases event with
  | write change =>
    cases stepped
    exact inv_write inv change
  | count =>
    simp only [step] at stepped
    split at stepped
    · next type types phase =>
      cases stepped
      obtain ⟨none, counts⟩ := inv.counting _ phase
      refine ⟨fun _ => inv.live (by rw [phase]; simp), fun _ _ => ⟨none, fun id => ?_⟩,
        fun _ _ at_items => (by cases at_items), fun _ _ at_items => (by cases at_items), inv.queued⟩
      show (s.registry.snapshot type).foldl ctx.countItem s.counts id = _
      rw [ctx.countItems, counts, List.countP_append, Nat.add_comm]
    · next phase =>
      cases stepped
      obtain ⟨none, counts⟩ := inv.counting _ phase
      refine ⟨fun _ => inv.live (by rw [phase]; simp), fun _ at_types => (by cases at_types), fun _ _ _ id among => ?_,
        fun _ _ same type registered gone => ?_, inv.queued⟩
      · show (if id ∈ ctx.liveIds then s.counts id else 0) = s.counted.countP _ + s.reassigned.countP _
        rw [if_pos among, counts, none]
        rfl
      · cases same
        exact absurd registered gone
    · cases stepped
  | scan items =>
    simp only [step] at stepped
    split at stepped
    · next type types phase =>
      split at stepped
      · next all =>
        cases stepped
        exact inv_scan inv phase all
      · cases stepped
    · cases stepped
  | next outcome =>
    simp only [step] at stepped
    split at stepped
    · next item items types phase => exact inv_next inv phase stepped after
    · cases stepped
  | finish =>
    simp only [step] at stepped
    split at stepped
    · cases stepped
      exact inv_returned rfl inv.queued
    · cases stepped
  | drain =>
    simp only [step] at stepped
    split at stepped
    · next phase at_queue =>
      cases stepped
      refine inv_returned phase fun entry member => inv.queued entry ?_
      rw [at_queue]
      exact List.mem_cons_of_mem _ member
    · cases stepped

/-- A claim changes owners only, and leaves no orphan, in just the runs in which nothing it has read is
disturbed. -/
theorem claim_right_iff {registry : StoreRegistry} {events : List ClaimEvent}
    (ran : run (step ctx) (start ctx registry) events = some t) :
    Always (step ctx) (ClaimRight ctx registry) (start ctx registry) events ↔
      Each (step ctx) (Undisturbed ctx registry) (start ctx registry) events := by
  have right : ClaimRight ctx registry (start ctx registry) :=
    ⟨fun _ none => (by cases none), fun _ none => (by cases none), fun _ none => (by cases none)⟩
  exact always_iff_each (Inv ctx) ran (inv_start registry) right
    (fun inv _ stepped after => inv_step inv stepped after) fun inv right stepped => right_step_iff inv right stepped

/-! ### Runs -/

section Runs

/-- One live server and one type. -/
def oneLive : ClaimContext := ⟨["a"], ["Scene"], fun _ => some "serverId", false⟩

def sceneOf (owner : String) : Item := ⟨"Scene", "1", [("serverId", .text owner)]⟩

/-- One scene of a server that has gone. -/
def oneOrphan : StoreRegistry := StoreRegistry.empty.insert (sceneOf "gone")

theorem claimed_undisturbed :
    Always (step oneLive) (ClaimRight oneLive oneOrphan) (start oneLive oneOrphan)
      [.count, .count, .scan [sceneOf "gone"], .next .stored, .finish] := by
  have ran : ∃ t, run (step oneLive) (start oneLive oneOrphan)
      [.count, .count, .scan [sceneOf "gone"], .next .stored, .finish] = some t := ⟨_, rfl⟩
  obtain ⟨t, ran⟩ := ran
  refine (claim_right_iff ran).mpr ?_
  refine (each_cons rfl).mpr ⟨trivial, (each_cons rfl).mpr ⟨trivial, (each_cons rfl).mpr ⟨trivial, ?_⟩⟩⟩
  refine (each_cons rfl).mpr ⟨fun _ _ _ => ⟨⟨sceneOf "gone", by decide +kernel, by decide +kernel, fun _ => rfl⟩,
    by decide +kernel⟩, (each_cons rfl).mpr ⟨?_, trivial⟩⟩
  intro type _ id item unsettled
  cases unsettled

/-- The scene is deleted after the snapshot, and the claim brings it back. -/
theorem deleted_comes_back : ∃ t, run (step oneLive) (start oneLive oneOrphan)
    [.count, .count, .scan [sceneOf "gone"], .write ⟨.del, sceneOf "gone"⟩, .next .stored] = some t ∧
      ¬ClaimRight oneLive oneOrphan t := by
  refine ⟨_, rfl, fun right => ?_⟩
  obtain ⟨cur, before, -⟩ := right.writes _ List.mem_cons_self
  have gone : (oneOrphan.remove "Scene" "1").canonicalItem (sceneOf "a") = none := by decide +kernel
  exact absurd (gone.symm.trans before) (by simp)

end Runs

end OrphanClaim

end Myko

import Myko.Graph.Window

/-!
Snapshots pushed to a client. A bounded source hands over whole pages; what is sent of each is how it differs from the
page before.
-/

namespace Myko.Query

/-- A snapshot as the sources make them: each item under its own id, and no id twice. -/
structure FullSnapshot extends WindowedQuerySnapshot where
  keyed : ∀ entry ∈ entries, entry.2.id = entry.1
  distinct : (entries.map Prod.fst).Nodup

/-- The pages of graph windows are such snapshots. -/
def FullSnapshot.ofSlice {view : GraphView} {registration : EdgeRegistration} {matching : EdgeEndpoints → Bool}
    {selection : GraphWindowSelection} {ids : List String} {snapshot : WindowedQuerySnapshot}
    (slice : IsSlice view registration matching selection ids snapshot) : FullSnapshot where
  toWindowedQuerySnapshot := snapshot
  keyed entry listed := (StoreRegistry.getValue_keyed (slice.stored entry listed)).2
  distinct := by
    rw [slice.page]
    exact slice.ascending.nodup.sublist (selection.sublist_page ids)

namespace FullSnapshot

variable (snapshot : FullSnapshot)

def items : ItemMap := OrdMap.insertMany ∅ snapshot.entries

theorem get_items (id : String) (item : Item) : snapshot.items[id]? = some item ↔ (id, item) ∈ snapshot.entries :=
  OrdMap.get_insertMany snapshot.distinct id item

theorem keyed_items : Keyed snapshot.items := fun id item found =>
  snapshot.keyed (id, item) ((snapshot.get_items id item).mp found)

theorem mem_items (id : String) : id ∈ snapshot.items ↔ id ∈ snapshot.entries.map Prod.fst := by
  rw [Std.ExtTreeMap.mem_iff_isSome_getElem?, Option.isSome_iff_exists, List.mem_map]
  constructor
  · rintro ⟨item, found⟩
    exact ⟨(id, item), (snapshot.get_items id item).mp found, rfl⟩
  · rintro ⟨⟨_, item⟩, listed, rfl⟩
    exact ⟨item, (snapshot.get_items _ item).mpr listed⟩

/-- Items of the snapshot, found again by their ids. -/
theorem map_snd {listed : List (String × Item)} (sub : listed ⊆ snapshot.entries) :
    listed.map Prod.snd = (listed.map Prod.fst).filterMap fun id => snapshot.items[id]? := by
  induction listed with
  | nil => rfl
  | cons entry rest ih =>
    obtain ⟨here, later⟩ := List.cons_subset.mp sub
    rw [List.map_cons, List.map_cons, List.filterMap_cons_some ((snapshot.get_items _ _).mpr here), ih later]

end FullSnapshot

structure PushedQuerySubscriptionState where
  sequence : Nat
  window : Option QueryWindow
  visibleIds : List String
  visibleItems : ItemMap

namespace PushedQuerySubscriptionState

def applySnapshot (s : PushedQuerySubscriptionState) (snapshot : WindowedQuerySnapshot) (tx : String) :
    PendingQueryResponse × PushedQuerySubscriptionState :=
  let sequence := if s.window.isSome ∧ snapshot.window.isNone then 0 else s.sequence
  let nextIds := snapshot.entries.map Prod.fst
  let nextItems := OrdMap.insertMany ∅ snapshot.entries
  let deletes := (s.visibleIds.filter fun id => !nextItems.contains id).insertionSort (· ≤ ·)
  let upsertItems := (snapshot.entries.filter fun entry =>
    sequence = 0 ∨ s.visibleItems[entry.1]? ≠ some entry.2).map Prod.snd
  (⟨tx, sequence, upsertItems, deletes, snapshot.totalCount, snapshot.window,
      snapshot.window.map fun _ => nextIds⟩,
    ⟨nextSequence sequence, snapshot.window, nextIds, nextItems⟩)

end PushedQuerySubscriptionState

/-- A pushed subscription and the map a client keeps of it. -/
structure PushedReplica where
  server : PushedQuerySubscriptionState
  map : QueryMapWatch

namespace PushedReplica

def start (tx : String) : PushedReplica := ⟨⟨0, none, [], ∅⟩, ⟨tx, ⟨true, 0⟩, ∅, false⟩⟩

def emitted (σ : PushedReplica) (snapshot : FullSnapshot) : PendingQueryResponse × PushedQuerySubscriptionState :=
  σ.server.applySnapshot snapshot.toWindowedQuerySnapshot σ.map.tx

def push (σ : PushedReplica) (snapshot : FullSnapshot) : PushedReplica :=
  ⟨(σ.emitted snapshot).2, σ.map.apply (σ.emitted snapshot).1.intoWire⟩

/-- What was sent last is what the client has. -/
structure InStep (σ : PushedReplica) : Prop where
  map : σ.map.map = σ.server.visibleItems
  ids : ∀ id, id ∈ σ.server.visibleIds ↔ id ∈ σ.server.visibleItems

variable (σ : PushedReplica) (snapshot : FullSnapshot)

/-- The entries that are sent: those the client does not have yet. -/
def changed : List (String × Item) :=
  snapshot.entries.filter fun entry =>
    (σ.emitted snapshot).1.sequence = 0 ∨ σ.server.visibleItems[entry.1]? ≠ some entry.2

theorem upserts_eq : (σ.emitted snapshot).1.intoWire.upserts =
    ((σ.changed snapshot).map Prod.fst).filterMap fun id => snapshot.items[id]? :=
  snapshot.map_snd (List.filter_subset_self _)

theorem mem_deletes (id : String) : id ∈ (σ.emitted snapshot).1.intoWire.deletes ↔
    id ∈ σ.server.visibleIds ∧ id ∉ snapshot.items := by
  rw [← QuerySubscriptionState.mem_filter_absent]
  exact List.mem_insertionSort _

variable {σ}

/-- A response turns the page a client has into the one pushed. -/
theorem push_map (inStep : σ.InStep) : (σ.push snapshot).map.map = snapshot.items := by
  refine Std.ExtTreeMap.ext_getElem? fun id => ?_
  unfold push
  rw [QueryMapWatch.apply_map, get_replayed snapshot.keyed_items (σ.upserts_eq snapshot), inStep.map]
  split
  · rfl
  rename_i unsent
  cases found : snapshot.items[id]? with
  | some item =>
    have there : id ∈ snapshot.items := Std.ExtTreeMap.mem_iff_isSome_getElem?.mpr (by rw [found]; rfl)
    have same := fun new => unsent ⟨List.mem_map.mpr ⟨(id, item),
      List.mem_filter.mpr ⟨(snapshot.get_items id item).mp found, decide_eq_true new⟩, rfl⟩, there⟩
    obtain ⟨later, held⟩ := not_or.mp same
    rw [not_not.mp held, if_neg]
    rintro (first | gone)
    · exact later first
    · exact ((σ.mem_deletes snapshot id).mp gone).2 there
  | none =>
    have absent : id ∉ snapshot.items := fun there => by
      rw [Std.ExtTreeMap.mem_iff_isSome_getElem?, found] at there
      cases there
    split
    · rfl
    · rename_i kept
      by_contra held
      have shown : id ∈ σ.server.visibleItems :=
        Std.ExtTreeMap.mem_iff_isSome_getElem?.mpr (Option.isSome_iff_ne_none.mpr held)
      exact kept (.inr ((σ.mem_deletes snapshot id).mpr ⟨(inStep.ids id).mpr shown, absent⟩))

theorem push_inStep (inStep : σ.InStep) : (σ.push snapshot).InStep :=
  ⟨push_map snapshot inStep, fun id => (snapshot.mem_items id).symm⟩

variable (σ) in
/-- The same snapshot over again changes nothing. -/
theorem emitted_again : ((σ.push snapshot).emitted snapshot).1.upsertItems = [] ∧
    ((σ.push snapshot).emitted snapshot).1.deletes = [] := by
  have counted : ((σ.push snapshot).emitted snapshot).1.sequence ≠ 0 := by
    have kept : ¬(snapshot.window.isSome = true ∧ snapshot.window.isNone = true) := by
      cases snapshot.window <;> simp
    dsimp only [emitted, push, PushedQuerySubscriptionState.applySnapshot]
    rw [if_neg kept, nextSequence]
    have positive : 0 < lastSequence := by decide
    omega
  constructor
  · refine List.map_eq_nil_iff.mpr (List.filter_eq_nil_iff.mpr fun entry listed new => ?_)
    rcases of_decide_eq_true new with first | other
    · exact counted first
    · exact other ((snapshot.get_items _ _).mpr listed)
  · refine List.eq_nil_iff_forall_not_mem.mpr fun id gone => ?_
    obtain ⟨shown, absent⟩ := ((σ.push snapshot).mem_deletes snapshot id).mp gone
    exact absent ((snapshot.mem_items id).mpr shown)

/-- Whatever has been pushed, the client then has exactly the last snapshot, and none of it is sent once more when the
same is pushed again. -/
theorem pushed_snapshots_replay (tx : String) (earlier : List FullSnapshot) (last : FullSnapshot) :
    let σ := (earlier ++ [last]).foldl push (start tx)
    (∀ id item, σ.map.map[id]? = some item ↔ (id, item) ∈ last.entries) ∧
      (σ.emitted last).1.upsertItems = [] ∧ (σ.emitted last).1.deletes = [] := by
  have kept : ∀ (snapshots : List FullSnapshot) (σ : PushedReplica), σ.InStep → (snapshots.foldl push σ).InStep := by
    intro snapshots
    induction snapshots with
    | nil => exact fun σ inStep => inStep
    | cons first rest ih => exact fun σ inStep => ih _ (push_inStep first inStep)
  have started : (start tx).InStep := ⟨rfl, fun id => ⟨fun listed => (nomatch listed), fun shown => by simp [start] at shown⟩⟩
  dsimp only
  rw [List.foldl_append, List.foldl_cons, List.foldl_nil]
  refine ⟨fun id item => ?_, emitted_again _ last⟩
  rw [push_map last (kept earlier _ started), last.get_items]

end PushedReplica

end Myko.Query

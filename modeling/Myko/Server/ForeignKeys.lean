import Myko.Server.ChildIndex
import Myko.Server.Sample

/-!
Finding children by their foreign key. Only relationship work brings the reverse index forward, so a
child that is written without it, for an interaction in progress say, stays filed where it was.
-/

namespace Myko
open StateError RelationIndexes

variable {ctx : MykoServerContext} {lookup : BelongsToLookup}

/-! ### What is found -/

/-- Once loaded, the index files every stored child under its foreign key. -/
structure FilesChildren (registry : StoreRegistry) (indexes : RelationIndexes)
    (lookup : BelongsToLookup) : Prop where
  sound : indexes.Sound lookup
  entries : ∀ parents, indexes.parentByChild lookup.id = some parents → ∀ id item,
    registry.getValue lookup.localType id = some item → parents id = lookup.extractFk item

/-- For every parent, the children found are the stored ones that name it, each once. -/
def FindsChildren (lookup : BelongsToLookup) (s : ServerState) : Prop :=
  ∀ parent, ∃ children t, findChildrenByFk lookup parent s = .ok children t ∧
    (children.map Item.id).Nodup ∧
    ∀ item, item ∈ children ↔
      item ∈ s.registry.snapshot lookup.localType ∧ lookup.extractFk item = some parent

theorem FilesChildren.brought {before after : StoreRegistry} {indexes indexes' : RelationIndexes}
    {heard : Set String} (files : FilesChildren before indexes lookup)
    (brings : Brings after lookup heard indexes indexes')
    (unheard : ∀ parents, indexes.parentByChild lookup.id = some parents → ∀ id, id ∉ heard →
      ∀ item, after.getValue lookup.localType id = some item → parents id = lookup.extractFk item) :
    FilesChildren after indexes' lookup := by
  refine ⟨brings.sound files.sound, fun parents loaded id item stored => ?_⟩
  rcases brings.entries files.sound parents loaded id with filed | ⟨quiet, earlier, loaded', same⟩
  · rw [filed, StoreRegistry.foreignKeys, stored, Option.bind_some]
  · rw [same]
    exact unheard earlier loaded' id quiet item stored

theorem findChildren_loaded {parents : String → Option String} {s : ServerState} (parent : String)
    (filed : (s.relations.ensureBelongsToIndexLoaded s.registry lookup).Filed lookup parents) :
    ∃ children, findChildrenByFk lookup parent s =
        .ok children { s with relations := s.relations.ensureBelongsToIndexLoaded s.registry lookup } ∧
      (children.map Item.id).Nodup ∧ ∀ item, item ∈ children ↔
        item ∈ s.registry.snapshot lookup.localType ∧ parents item.id = some parent := by
  obtain ⟨-, children, listed, mirrors⟩ := filed
  refine ⟨((children parent).getD ∅).toList.filterMap (s.registry.getValue lookup.localType), ?_, ?_, fun item => ?_⟩
  · unfold findChildrenByFk
    rw [bind_of_ok (modifyRelations_eq _ s), bind_of_ok (get_eq _)]
    dsimp only
    rw [listed]
    rfl
  · have kept : ∀ ids : List String,
        ((ids.filterMap (s.registry.getValue lookup.localType)).map Item.id).Sublist ids := by
      intro ids
      induction ids with
      | nil => exact .slnil
      | cons id rest ih =>
        rw [List.filterMap_cons]
        cases stored : s.registry.getValue lookup.localType id with
        | none => exact ih.cons id
        | some item =>
          obtain ⟨-, rfl⟩ := StoreRegistry.getValue_keyed stored
          exact ih.cons_cons item.id
    exact (OrdSet.nodup_toList _).sublist (kept _)
  · rw [List.mem_filterMap, StoreRegistry.mem_snapshot]
    constructor
    · rintro ⟨id, member, stored⟩
      obtain ⟨sameType, rfl⟩ := StoreRegistry.getValue_keyed stored
      exact ⟨⟨sameType, StoreRegistry.canonicalItem_of_getValue stored⟩,
        (mirrors.listed parent item.id).mp (OrdSet.mem_toList.mp member)⟩
    · rintro ⟨⟨sameType, stored⟩, named⟩
      rw [StoreRegistry.canonicalItem, sameType] at stored
      exact ⟨item.id, OrdSet.mem_toList.mpr ((mirrors.listed parent item.id).mpr named), stored⟩

theorem FilesChildren.finds {s : ServerState} (files : FilesChildren s.registry s.relations lookup) :
    FindsChildren lookup s := by
  have own : lookup.id = lookup.id → lookup = lookup := fun _ => rfl
  have loading := files.brought (brings_ensure s.relations s.registry own)
    fun parents loaded id _ item stored => files.entries parents loaded id item stored
  obtain ⟨parents, loaded⟩ := Option.ne_none_iff_exists'.mp
    (ensure_loaded s.relations s.registry lookup)
  intro parent
  obtain ⟨children, run, nodup, found⟩ := findChildren_loaded parent (loading.sound parents loaded)
  refine ⟨children, _, run, nodup, fun item => (found item).trans (and_congr_right fun listed => ?_)⟩
  obtain ⟨sameType, stored⟩ := StoreRegistry.mem_snapshot.mp listed
  rw [StoreRegistry.canonicalItem, sameType] at stored
  rw [loading.entries parents loaded item.id item stored]

/-! ### Runs -/

/-- A mutation after which children are found as before or better: it writes nothing; or relationship
work follows its writes and all goes through; or the loaded indexes file the children it writes under
the foreign keys they come to have already. -/
def KeepsChildren (ctx : MykoServerContext) (s : ServerState) (pending : PendingMutation) : Prop :=
  (∀ cascades, planPending ctx s pending ≠ .ok (some cascades)) ∨
  (pending.origin.shouldCascade = true ∧ Reduces ctx s pending) ∨
  ∀ lookup ∈ ctx.tables.belongsTo, ∀ parents, s.relations.parentByChild lookup.id = some parents →
    ∀ id ∈ writtenChildren lookup s pending, ∀ item,
      (s.registry.writeAll (changesOf s pending)).getValue lookup.localType id = some item →
        parents id = lookup.extractFk item

theorem filesChildren_reduced (registered : lookup ∈ ctx.tables.belongsTo) {s : ServerState}
    {pending : PendingMutation} (files : FilesChildren s.registry s.relations lookup)
    (keeps : KeepsChildren ctx s pending) :
    FilesChildren (final (reducePending ctx (submitDerived ctx) pending) s).registry
      (final (reducePending ctx (submitDerived ctx) pending) s).relations lookup := by
  rcases reduced_index registered pending s with
    ⟨-, stores, same⟩ | ⟨⟨cascades, plan⟩, stores, brings, told⟩
  · rw [stores]
    exact files.brought same.brings fun parents loaded id _ item stored =>
      files.entries parents loaded id item stored
  · rcases keeps with unplanned | ⟨cascading, reduces⟩ | already
    · exact absurd plan (unplanned cascades)
    · refine files.brought (told cascading reduces) fun parents loaded id unwritten item stored => ?_
      rw [stores, getValue_unwritten unwritten] at stored
      exact files.entries parents loaded id item stored
    · refine files.brought brings fun parents loaded id _ item stored => ?_
      rw [stores] at stored
      by_cases written : id ∈ writtenChildren lookup s pending
      · exact already lookup registered parents loaded id written item stored
      · rw [getValue_unwritten written] at stored
        exact files.entries parents loaded id item stored

/-- Every mutation that the call reduces keeps children where they are found. -/
def KeepsChildrenCall (ctx : MykoServerContext) (s : ServerState) (call : Call) : Prop :=
  Allowed (KeepsChildren ctx) (call.reductions ctx s)

def AllFiled (ctx : MykoServerContext) (s : ServerState) : Prop :=
  ∀ lookup ∈ ctx.tables.belongsTo, FilesChildren s.registry s.relations lookup

theorem allFiled_calls (ctx : MykoServerContext) :
    CallInvariant ctx (KeepsChildrenCall ctx) (fun _ _ => True) (KeepsChildren ctx) (fun _ => True)
      (AllFiled ctx) (AllFiled ctx) where
  enter {s t _ _ _ _} files _ _ _ queued := by
    obtain ⟨c, rfl, -⟩ := enqueueCausal_ok rfl queued
    exact files
  replace {s t _ _} files _ _ queued := by
    obtain ⟨c, rfl, -⟩ := enqueueCausalReplace_ok rfl queued
    exact files
  reduce {s c pending queue} files _ _ keeps lookup registered :=
    filesChildren_reduced (s := { s with causal := some (c.pop pending queue) }) registered
      (files lookup registered) keeps
  direct files _ _ _ keeps lookup registered :=
    filesChildren_reduced registered (files lookup registered) keeps
  close files _ := files
  entries {s call} _ := entries_always _ _
  buffers files := files
  other {s call} files _ other _ := by
    rcases final_other ctx other s with ⟨entityType, id, _, _, -, same⟩ | ⟨_, _, _, -, same, -⟩ |
      ⟨_, same⟩ | ⟨_, same⟩
    · rw [same]
      intro lookup registered
      obtain ⟨sound, entries⟩ := files lookup registered
      refine ⟨sound, fun parents loaded other item stored => ?_⟩
      rw [StoreRegistry.getValue_remove] at stored
      split at stored
      · cases stored
      · exact entries parents loaded other item stored
    · rw [same]
      exact files
    · rw [same]
      exact files
    · rw [same]
      exact files

/-- In every run of calls that keep children, whether they succeed or fail, the children found are
those stored. -/
theorem finds_children {s : ServerState} (run : Run ctx (KeepsChildrenCall ctx) s)
    (registered : lookup ∈ ctx.tables.belongsTo) : FindsChildren lookup s := by
  have start : AllFiled ctx .initial := fun lookup _ =>
    ⟨fun _ loaded => (nomatch loaded), fun _ loaded => (nomatch loaded)⟩
  exact ((run_keeps (allFiled_calls ctx) start (fun _ _ step => step) run).1 lookup registered).finds

namespace Sample

def task (id parent : String) : Item where
  entityType := "task"
  id := id
  fields := [("parent", .text parent)]

/-- Tasks that belong to nodes. -/
def tasks : MykoServerContext := { server with relations := [.belongsTo ⟨"task", "node", "parent"⟩] }

def tasksOfNode : BelongsToLookup := ⟨⟨"task", "node", "parent"⟩, 1⟩

def moved : ServerState := final (set tasks (task "t" "b")) (final (set tasks (task "t" "a")) .initial)

theorem finds_children_moved : FindsChildren tasksOfNode moved := by
  have first : KeepsChildrenCall tasks .initial (.set (task "t" "a")) := by
    intro r member
    have only : (Call.set (task "t" "a")).reductions tasks .initial =
      [(_, ⟨.uniform [task "t" "a"] .set, .localOrigin, .authoritative, 0, _⟩)] := rfl
    rw [only] at member
    obtain rfl := List.mem_singleton.mp member
    exact .inr (.inl ⟨rfl, _, _, rfl⟩)
  have second : KeepsChildrenCall tasks (final (set tasks (task "t" "a")) .initial)
      (.set (task "t" "b")) := by
    intro r member
    have only : (Call.set (task "t" "b")).reductions tasks
        (final (set tasks (task "t" "a")) .initial) =
      [(_, ⟨.uniform [task "t" "b"] .set, .localOrigin, .authoritative, 0, _⟩)] := rfl
    rw [only] at member
    obtain rfl := List.mem_singleton.mp member
    exact .inr (.inl ⟨rfl, _, _, rfl⟩)
  exact finds_children (.call (.set (task "t" "b")) (.call (.set (task "t" "a")) .initial first) second)
    List.mem_cons_self

/-- A task moved for the time being is still found at the node it was at. -/
theorem finds_moved_child : ∃ s, Run tasks (fun s call => call.Returns tasks s) s ∧
    ∃ lookup ∈ tasks.tables.belongsTo, (s.relations.parentByChild lookup.id).isSome ∧
      ¬FindsChildren lookup s := by
  refine ⟨final (setTransient tasks (task "t" "b")) (final (set tasks (task "t" "a")) .initial), ?_,
    tasksOfNode, List.mem_cons_self, rfl, fun finds => ?_⟩
  · have first : Run tasks (fun s call => call.Returns tasks s) (final (set tasks (task "t" "a")) .initial) :=
      .call (.set (task "t" "a")) .initial (ok_of_run' (by decide +kernel))
    exact .call (.setTransient (task "t" "b")) first (ok_of_run' (by decide +kernel))
  · obtain ⟨children, t, run, -, found⟩ := finds "a"
    have stale : findChildrenByFk tasksOfNode "a"
        (final (setTransient tasks (task "t" "b")) (final (set tasks (task "t" "a")) .initial)) =
        .ok [task "t" "b"] _ := rfl
    obtain ⟨rfl, -⟩ := EStateM.Result.ok.inj (run.symm.trans stale)
    have names := ((found (task "t" "b")).mp List.mem_cons_self).2
    revert names
    decide

end Sample

end Myko

import Myko.Lib.Runs
import Myko.Postgres.Consumer

/-!
The search index beside the stores. A call writes the stores and later, as its effects, the index; other
calls and the log consumer come in between, and a call that fails leaves its effects out.
-/

namespace Myko.Search

open Postgres

/-- The text of the registered entity types that is searched. -/
abbrev Searchable := String → Option (Item → String)

/-- What each typed index holds under an id. -/
abbrev TextIndex := String → String → Option String

variable (searchable : Searchable)

def setText (index : TextIndex) (key : String × String) (text : Option String) : TextIndex :=
  Function.update index key.1 (Function.update (index key.1) key.2 text)

def indexItem (index : TextIndex) (item : Item) : TextIndex :=
  match searchable item.entityType with
  | some extract => setText index (item.entityType, item.id) (some (extract item))
  | none => index

def removeEntity (index : TextIndex) (entityType id : String) : TextIndex :=
  match searchable entityType with
  | some _ => setText index (entityType, id) none
  | none => index

def applyEffects (index : TextIndex) (change : Change) : TextIndex :=
  match change.kind with
  | .set => indexItem searchable index change.item
  | .del => removeEntity searchable index change.item.entityType change.item.id

/-- The index that is built once the log has been read. -/
def buildFromRegistry (registry : StoreRegistry) : TextIndex := fun entityType id =>
  (searchable entityType).bind fun extract => (registry.getValue entityType id).map extract

/-- A call under way: the groups of changes, each of one type, that it has not written yet. -/
structure Call where
  id : Nat
  unwritten : List (List Change)
  deriving DecidableEq

structure Server where
  registry : StoreRegistry
  index : TextIndex
  calls : List Call
  /-- The changes that are written and not yet indexed, with their calls, in the order they were written. -/
  pending : List (Nat × Change)
  begun : Nat

inductive Event where
  | begins (groups : List (List Change))
  | writes (call : Nat)
  | indexes (call : Nat)
  | returns (call : Nat)
  /-- The persister, the graph or a cascade fails. -/
  | fails (call : Nat)
  | remote (event : SourcedEvent)

namespace Server

/-- A server after start-up. -/
def start (registry : StoreRegistry) : Server where
  registry := registry
  index := buildFromRegistry searchable registry
  calls := []
  pending := []
  begun := 0

def ends (s : Server) (call : Nat) : Server :=
  { s with
    calls := s.calls.filter fun other => other.id ≠ call
    pending := s.pending.filter fun entry => entry.1 ≠ call }

/-- The change a call indexes next, once it has written all. -/
def next (s : Server) (call : Nat) : Option Change :=
  if ⟨call, []⟩ ∈ s.calls then (s.pending.find? fun entry => entry.1 = call).map Prod.snd else none

variable (handlers : HandlerRegistry) (hostId : String)

def step (s : Server) : Event → Option Server
  | .begins groups =>
    some { s with calls := s.calls ++ [⟨s.begun, groups⟩], begun := s.begun + 1 }
  | .writes call =>
    match s.calls.find? fun other => other.id = call with
    | some ⟨_, group :: rest⟩ =>
      some { s with
        registry := s.registry.writeAll group
        calls := s.calls.map fun other => if other.id = call then ⟨call, rest⟩ else other
        pending := s.pending ++ group.map (Prod.mk call) }
    | _ => none
  | .indexes call =>
    (s.next call).map fun change =>
      { s with
        index := applyEffects searchable s.index change
        pending := s.pending.eraseP fun entry => entry.1 = call }
  | .returns call =>
    if ⟨call, []⟩ ∈ s.calls ∧ s.next call = none then some (s.ends call) else none
  | .fails call => if ⟨call, []⟩ ∈ s.calls then some (s.ends call) else none
  | .remote event =>
    some { s with registry := applyRemoteEvent handlers hostId s.registry event }

/-- While no call is under way the index holds the text of what is stored. -/
def Follows (s : Server) : Prop :=
  s.calls = [] → ∀ entityType extract, searchable entityType = some extract → ∀ id,
    s.index entityType id = (s.registry.getValue entityType id).map extract

/-- The change of an entity that was written last among those that wait. -/
def lastWaiting (pending : List (Nat × Change)) (key : String × String) : Option Change :=
  (pending.filter fun entry => entry.2.key = key).getLast?.map Prod.snd

/-- The text an entity comes to have in the index if what waits is indexed in order. -/
def outlook (index : TextIndex) (pending : List (Nat × Change)) (extract : Item → String)
    (key : String × String) : Option String :=
  match lastWaiting pending key with
  | some change => change.value.map extract
  | none => index key.1 key.2

def stored (s : Server) (extract : Item → String) (key : String × String) : Option String :=
  (s.registry.getValue key.1 key.2).map extract

/-- No older text of an item is indexed after a newer one, no text that is stored is left out of the index. -/
def InOrder (s : Server) : Event → Prop
  | .indexes call =>
    ∀ change, s.next call = some change → ∀ extract, searchable change.item.entityType = some extract →
      ∀ other, lastWaiting (s.pending.eraseP fun entry => entry.1 = call) change.key = some other →
        other.value.map extract = s.stored extract change.key
  | .fails call =>
    ∀ entry ∈ s.pending, entry.1 = call → ∀ extract, searchable entry.2.item.entityType = some extract →
      outlook s.index (s.pending.filter fun other => other.1 ≠ call) extract entry.2.key =
        s.stored extract entry.2.key
  | .remote event =>
    ∀ entityType extract, searchable entityType = some extract → ∀ id,
      ((applyRemoteEvent handlers hostId s.registry event).getValue entityType id).map extract =
        s.stored extract (entityType, id)
  | _ => True

/-! ### What waits -/

variable {searchable handlers hostId} {s after last : Server} {event : Event} {events : List Event}
variable {index : TextIndex} {change : Change} {extract : Item → String} {entityType id : String}
variable {pending : List (Nat × Change)} {key : String × String} {call : Nat} {registry : StoreRegistry}

theorem setText_apply (index : TextIndex) (key : String × String) (text : Option String) :
    setText index key text entityType id = if (entityType, id) = key then text else index entityType id := by
  obtain ⟨changed, changedId⟩ := key
  unfold setText
  by_cases sameType : entityType = changed
  · subst sameType
    by_cases sameId : id = changedId
    · subst sameId
      simp
    · simp [sameId]
  · simp [sameType]

theorem applyEffects_apply (registered : searchable entityType = some extract) :
    applyEffects searchable index change entityType id =
      if (entityType, id) = change.key then change.value.map extract else index entityType id := by
  obtain ⟨kind, item⟩ := change
  by_cases sameType : entityType = item.entityType
  · subst sameType
    cases kind with
    | set => simp [applyEffects, indexItem, registered, setText_apply, Change.key, Change.value]
    | del => simp [applyEffects, removeEntity, registered, setText_apply, Change.key, Change.value]
  · have other : (entityType, id) ≠ (Change.mk kind item).key := fun same => sameType (Prod.mk.inj same).1
    rw [if_neg other]
    cases kind with
    | set =>
      simp only [applyEffects, indexItem]
      cases searchable item.entityType with
      | some _ => exact (setText_apply index _ _).trans (if_neg other)
      | none => rfl
    | del =>
      simp only [applyEffects, removeEntity]
      cases searchable item.entityType with
      | some _ => exact (setText_apply index _ _).trans (if_neg other)
      | none => rfl

theorem lastWaiting_written (group : List Change) :
    lastWaiting (pending ++ group.map (Prod.mk call)) key =
      ((group.filter fun change => change.key = key).getLast?.or (lastWaiting pending key)) := by
  have written : (group.map (Prod.mk call)).filter (fun entry => entry.2.key = key) =
      (group.filter fun change => change.key = key).map (Prod.mk call) := by
    rw [List.filter_map]
    rfl
  unfold lastWaiting
  rw [List.filter_append, written, List.getLast?_append, List.getLast?_map]
  cases (group.filter fun change => change.key = key).getLast? <;> rfl

/-- What is written is what the index will come to hold. -/
theorem outlook_writes {group : List Change} (tracked : outlook index pending extract key =
      (registry.getValue key.1 key.2).map extract) :
    outlook index (pending ++ group.map (Prod.mk call)) extract key =
      ((registry.writeAll group).getValue key.1 key.2).map extract := by
  rw [StoreRegistry.getValue_writeAll, outlook, lastWaiting_written]
  cases (group.filter fun change => change.key = (key.1, key.2)).getLast? with
  | some change => rfl
  | none => exact tracked

theorem lastWaiting_other {front back : List (Nat × Change)} {entry : Nat × Change}
    (other : entry.2.key ≠ key) :
    lastWaiting (front ++ entry :: back) key = lastWaiting (front ++ back) key := by
  unfold lastWaiting
  rw [List.filter_append, List.filter_cons_of_neg (by simpa using other), List.filter_append]

theorem lastWaiting_last {front back : List (Nat × Change)} {entry : Nat × Change}
    (none : lastWaiting (front ++ back) entry.2.key = none) :
    lastWaiting (front ++ entry :: back) entry.2.key = some entry.2 := by
  unfold lastWaiting at none ⊢
  rw [Option.map_eq_none_iff, List.getLast?_eq_none_iff, List.filter_append, List.append_eq_nil_iff] at none
  rw [List.filter_append, List.filter_cons_of_pos (by simp), none.1, none.2]
  rfl

theorem lastWaiting_drop (kept : ∀ entry ∈ pending, entry.2.key = key → entry.1 ≠ call) :
    lastWaiting (pending.filter fun entry => entry.1 ≠ call) key = lastWaiting pending key := by
  unfold lastWaiting
  rw [List.filter_filter]
  congr 2
  refine List.filter_congr fun entry among => ?_
  by_cases here : entry.2.key = key
  · simp [here, kept entry among here]
  · simp [here]

/-! ### Runs -/

/-- The index comes to hold the text of what is stored, and what waits is of a call under way. -/
structure Tracked (searchable : Searchable) (s : Server) : Prop where
  outlooks : ∀ entityType extract, searchable entityType = some extract → ∀ id,
    outlook s.index s.pending extract (entityType, id) = s.stored extract (entityType, id)
  owned : ∀ entry ∈ s.pending, ∃ unwritten, Call.mk entry.1 unwritten ∈ s.calls

theorem Tracked.follows (tracked : s.Tracked searchable) : s.Follows searchable := by
  intro none entityType extract registered id
  have empty : s.pending = [] := by
    refine List.eq_nil_iff_forall_not_mem.mpr fun entry among => ?_
    obtain ⟨unwritten, present⟩ := tracked.owned entry among
    rw [none] at present
    cases present
  have same := tracked.outlooks entityType extract registered id
  rw [empty] at same
  exact same

theorem start_tracked : (start searchable registry).Tracked searchable := by
  refine ⟨fun entityType extract registered id => ?_, fun _ among => nomatch among⟩
  show (searchable entityType).bind _ = _
  rw [registered]
  rfl

theorem Tracked.ends (tracked : s.Tracked searchable)
    (agrees : ∀ entry ∈ s.pending, entry.1 = call → ∀ extract,
      searchable entry.2.item.entityType = some extract →
      outlook s.index (s.pending.filter fun other => other.1 ≠ call) extract entry.2.key =
        s.stored extract entry.2.key) : (s.ends call).Tracked searchable := by
  refine ⟨fun entityType extract registered id => ?_, fun entry among => ?_⟩
  · by_cases drops : ∃ entry ∈ s.pending, entry.1 = call ∧ entry.2.key = (entityType, id)
    · obtain ⟨entry, among, own, here⟩ := drops
      obtain ⟨sameType, -⟩ := Prod.mk.inj here
      have same := agrees entry among own extract (by rw [sameType]; exact registered)
      rw [here] at same
      exact same
    · have kept : ∀ entry ∈ s.pending, entry.2.key = (entityType, id) → entry.1 ≠ call :=
        fun entry among here own => drops ⟨entry, among, own, here⟩
      have same := tracked.outlooks entityType extract registered id
      unfold outlook at same ⊢
      rw [show lastWaiting (s.ends call).pending (entityType, id) = _ from lastWaiting_drop kept]
      exact same
  · obtain ⟨present, other⟩ := List.mem_filter.mp among
    obtain ⟨unwritten, ofCall⟩ := tracked.owned entry present
    exact ⟨unwritten, List.mem_filter.mpr ⟨ofCall, other⟩⟩

theorem tracked_step (tracked : s.Tracked searchable) (inOrder : s.InOrder searchable handlers hostId event)
    (stepped : step searchable handlers hostId s event = some after) : after.Tracked searchable := by
  cases event with
  | begins groups =>
    cases stepped
    refine ⟨tracked.outlooks, fun entry among => ?_⟩
    obtain ⟨unwritten, present⟩ := tracked.owned entry among
    exact ⟨unwritten, List.mem_append_left _ present⟩
  | writes call =>
    simp only [step] at stepped
    split at stepped
    · rename_i other group rest found
      obtain rfl := Option.some.inj stepped
      obtain rfl : other = call := by simpa using List.find?_some found
      refine ⟨fun entityType extract registered id => ?_, fun entry among => ?_⟩
      · exact outlook_writes (tracked.outlooks entityType extract registered id)
      · have listed : ∀ {first : Nat} {unwritten : List (List Change)}, Call.mk first unwritten ∈ s.calls →
            ∃ unwritten, Call.mk first unwritten ∈
              s.calls.map fun call => if call.id = other then ⟨other, rest⟩ else call := by
          intro first unwritten present
          by_cases own : first = other
          · exact ⟨rest, List.mem_map.mpr ⟨_, present, by rw [if_pos own, own]⟩⟩
          · exact ⟨unwritten, List.mem_map.mpr ⟨_, present, if_neg own⟩⟩
        rcases List.mem_append.mp among with among | among
        · obtain ⟨unwritten, present⟩ := tracked.owned entry among
          exact listed present
        · obtain ⟨change, _, rfl⟩ := List.mem_map.mp among
          exact listed (List.mem_of_find?_eq_some found)
    · cases stepped
  | indexes call =>
    obtain ⟨change, next, rfl⟩ := Option.map_eq_some_iff.mp stepped
    have found := next
    unfold Server.next at found
    split at found
    · obtain ⟨entry, first, rfl⟩ := Option.map_eq_some_iff.mp found
      obtain ⟨own, front, back, split, before⟩ := List.find?_eq_some_iff_append.mp first
      have erased : s.pending.eraseP (fun entry => entry.1 = call) = front ++ back := by
        rw [split, List.eraseP_append_right _ (by simpa using before),
          List.eraseP_cons_of_pos (p := fun entry : Nat × Change => entry.1 = call) own]
      refine ⟨fun entityType extract registered id => ?_, fun entry among => ?_⟩
      · have same := tracked.outlooks entityType extract registered id
        have later := inOrder entry.2 next
        rw [erased] at later
        show outlook (applyEffects searchable s.index entry.2) (s.pending.eraseP _) extract (entityType, id) = _
        rw [erased]
        unfold outlook at same ⊢
        rw [split] at same
        by_cases here : (entityType, id) = entry.2.key
        · cases waiting : lastWaiting (front ++ back) (entityType, id) with
          | some other =>
            rw [here] at waiting
            have text := later extract (by rw [← (Prod.mk.inj here).1]; exact registered) other waiting
            rw [← here] at text
            exact text
          | none =>
            dsimp only
            rw [applyEffects_apply registered, if_pos here]
            rw [here] at waiting same
            rw [lastWaiting_last waiting] at same
            rw [← here] at same
            exact same
        · rw [lastWaiting_other (Ne.symm here)] at same
          cases waiting : lastWaiting (front ++ back) (entityType, id) with
          | some other =>
            rw [waiting] at same
            exact same
          | none =>
            rw [waiting] at same
            dsimp only at same ⊢
            rw [applyEffects_apply registered, if_neg here]
            exact same
      · exact tracked.owned entry (List.mem_of_mem_eraseP among)
    · cases found
  | returns call =>
    simp only [step] at stepped
    split at stepped
    · rename_i done
      obtain rfl := Option.some.inj stepped
      refine tracked.ends fun entry among own => ?_
      have none := done.2
      unfold next at none
      rw [if_pos done.1, Option.map_eq_none_iff] at none
      exact (List.find?_eq_none.mp none entry among (decide_eq_true own)).elim
    · cases stepped
  | fails call =>
    simp only [step] at stepped
    split at stepped
    · obtain rfl := Option.some.inj stepped
      exact tracked.ends inOrder
    · cases stepped
  | remote event =>
    cases stepped
    refine ⟨fun entityType extract registered id => ?_, tracked.owned⟩
    exact (tracked.outlooks entityType extract registered id).trans
      (inOrder entityType extract registered id).symm

/-- After start-up the index follows the stores through every run in which items are indexed in order. -/
theorem index_follows_stores (ran : Runs.run (step searchable handlers hostId) (start searchable registry)
      events = some last)
    (inOrder : Runs.Each (step searchable handlers hostId) (InOrder searchable handlers hostId)
      (start searchable registry) events) :
    Runs.Always (step searchable handlers hostId) (Follows searchable) (start searchable registry) events :=
  inOrder.always ran start_tracked (fun tracked inOrder stepped => tracked_step tracked inOrder stepped)
    Tracked.follows

end Server

namespace Server.Sample

def names : Searchable := fun entityType =>
  if entityType = "scene" then some fun item =>
    match item.field "name" with
    | some (.text name) => name
    | _ => ""
  else none

def scene (name : String) : Item := ⟨"scene", "s1", [("name", .text name)]⟩

def noHandlers : HandlerRegistry where
  parser _ _ := none
  payloadId _ := none
  parsed _ _ _ read := nomatch read

/-- One call after the other. -/
def inTurn : List Event :=
  [.begins [[⟨.set, scene "intro"⟩]], .writes 0, .begins [[⟨.set, scene "outro"⟩]], .indexes 0, .writes 1,
    .returns 0, .indexes 1, .returns 1]

theorem inTurn_follows : Runs.Always (step names noHandlers "host") (Follows names) (start names .empty) inTurn := by
  obtain ⟨last, ran⟩ : ∃ last, Runs.run (step names noHandlers "host") (start names .empty) inTurn = some last :=
    ⟨_, rfl⟩
  refine index_follows_stores ran ?_
  refine (Runs.each_cons rfl).mpr ⟨trivial, ?_⟩
  refine (Runs.each_cons rfl).mpr ⟨trivial, ?_⟩
  refine (Runs.each_cons rfl).mpr ⟨trivial, ?_⟩
  refine (Runs.each_cons rfl).mpr ⟨?_, ?_⟩
  · intro change next extract _ other waiting
    obtain rfl := Option.some.inj next
    cases waiting
  refine (Runs.each_cons rfl).mpr ⟨trivial, ?_⟩
  refine (Runs.each_cons rfl).mpr ⟨trivial, ?_⟩
  refine (Runs.each_cons rfl).mpr ⟨?_, ?_⟩
  · intro change next extract _ other waiting
    obtain rfl := Option.some.inj next
    cases waiting
  exact (Runs.each_cons rfl).mpr ⟨trivial, trivial⟩

/-- The item that is written first is indexed last. -/
def crossed : List Event :=
  [.begins [[⟨.set, scene "intro"⟩]], .begins [[⟨.set, scene "outro"⟩]], .writes 0, .writes 1, .indexes 1,
    .returns 1, .indexes 0, .returns 0]

theorem index_is_stale : ∃ last, Runs.run (step names noHandlers "host") (start names .empty) crossed = some last ∧
    last.calls = [] ∧ last.registry.getValue "scene" "s1" = some (scene "outro") ∧
    last.index "scene" "s1" = some "intro" ∧
    ¬Runs.Always (step names noHandlers "host") (Follows names) (start names .empty) crossed := by
  obtain ⟨last, ran, quiet, stored, indexed⟩ : ∃ last,
      Runs.run (step names noHandlers "host") (start names .empty) crossed = some last ∧ last.calls = [] ∧
      last.registry.getValue "scene" "s1" = some (scene "outro") ∧ last.index "scene" "s1" = some "intro" :=
    ⟨_, rfl, rfl, rfl, rfl⟩
  refine ⟨last, ran, quiet, stored, indexed, fun always => ?_⟩
  have follows := always.at_end ran quiet "scene" _ rfl "s1"
  rw [stored, indexed] at follows
  exact absurd follows (by decide)

end Server.Sample
end Myko.Search

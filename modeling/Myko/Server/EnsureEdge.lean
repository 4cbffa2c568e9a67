import Myko.Graph.UniqueEdge
import Myko.Server.IndexCoherence
import Myko.Server.PairUniqueness

/-!
The command that makes sure of an edge, run by any number of clients at once: each looks the pair up, sets
its edge when nobody is there, and looks again when its set is refused. Sets and deletes hold the edge
authority; lookups read the index and then the store without it.
-/

namespace Myko.Ensuring
open StateError

/-- How far one execution of the command has come. -/
inductive Phase where
  | idle
  | invoked
  | found (id : String)
  | absent
  | written
  | refused
  | foundAgain (id : String)
  | failed
  | returned (id : String) (created : Bool)
  deriving DecidableEq

namespace Phase

def afterLookup (found : String → Phase) (nobody error : Phase) : Except String (List String) → Phase
  | .ok (id :: _) => found id
  | .ok [] => nobody
  | .error _ => error

def afterLoad (nobody : Phase) : Option Item → Phase
  | some edge => .returned edge.id false
  | none => nobody

def afterEmission {α : Type} : EStateM.Result PersistError ServerState α → Phase
  | .ok _ _ => .written
  | .error _ _ => .refused

/-- Called and not yet answered. -/
def InFlight : Phase → Prop
  | idle | failed | returned _ _ => False
  | _ => True

/-- Not yet past its set. -/
def BeforeWrite : Phase → Prop
  | idle | invoked | found _ | absent => True
  | _ => False

/-- Past a set that went through, and not going to answer otherwise. -/
def Wrote : Phase → Prop
  | written | returned _ true => True
  | _ => False

end Phase

/-- Executions of the command for edges of one unique pair and scope. -/
structure Ensures (ctx : MykoServerContext) (Execution : Type) where
  registration : EdgeRegistration
  registered : registration ∈ ctx.schema.registrations
  unique : registration.pairPolicy = .unique
  key : EdgePairKey
  edge : Execution → Item
  typed : ∀ i, (edge i).entityType = registration.edgeType
  samePair : ∀ i own, registration.keyOf (edge i) = some own → own = key
  hasScope : ∀ i, registration.scopeType ≠ none → registration.extractScope (edge i) ≠ .ok none

structure System (Execution : Type) where
  server : ServerState
  phase : Execution → Phase

/-- A set or a delete of one item, as it is reduced under the authority. -/
def emission (item : Item) (change : MEventType) : PendingMutation :=
  directPending [item] change .localOrigin .authoritative

variable {ctx : MykoServerContext} {Execution : Type} [DecidableEq Execution]

def System.move (σ : System Execution) (i : Execution) (phase : Phase) : System Execution :=
  { σ with phase := Function.update σ.phase i phase }

omit [DecidableEq Execution] in
def System.emit (ctx : MykoServerContext) (σ : System Execution) (item : Item) (change : MEventType) :
    System Execution :=
  { σ with server := final (commitPending ctx (emission item change)) σ.server }

omit [DecidableEq Execution] in
def Ensures.lookup (E : Ensures ctx Execution) (σ : System Execution) (i : Execution) :
    Except String (List String) :=
  (σ.server.view ctx).uniqueIds E.registration (E.edge i)

omit [DecidableEq Execution] in
def Ensures.load (E : Ensures ctx Execution) (σ : System Execution) (id : String) : Option Item :=
  σ.server.registry.getValue E.registration.edgeType id

inductive Step (E : Ensures ctx Execution) : System Execution → System Execution → Prop where
  | invoke {σ : System Execution} (i : Execution) (now : σ.phase i = .idle) : Step E σ (σ.move i .invoked)
  | lookUp {σ : System Execution} (i : Execution) (now : σ.phase i = .invoked) :
    Step E σ (σ.move i (.afterLookup .found .absent .failed (E.lookup σ i)))
  | load {σ : System Execution} (i : Execution) {id : String} (now : σ.phase i = .found id) :
    Step E σ (σ.move i (.afterLoad .absent (E.load σ id)))
  | emit {σ : System Execution} (i : Execution) (now : σ.phase i = .absent) :
    Step E σ ((σ.emit ctx (E.edge i) .set).move i
      (.afterEmission (commitPending ctx (emission (E.edge i) .set) σ.server)))
  /-- What was derived from the set went through. -/
  | settle {σ : System Execution} (i : Execution) (now : σ.phase i = .written) :
    Step E σ (σ.move i (.returned (E.edge i).id true))
  /-- What was derived from the set failed. -/
  | fail {σ : System Execution} (i : Execution) (now : σ.phase i = .written) : Step E σ (σ.move i .refused)
  | lookUpAgain {σ : System Execution} (i : Execution) (now : σ.phase i = .refused) :
    Step E σ (σ.move i (.afterLookup .foundAgain .failed .failed (E.lookup σ i)))
  | loadAgain {σ : System Execution} (i : Execution) {id : String} (now : σ.phase i = .foundAgain id) :
    Step E σ (σ.move i (.afterLoad .failed (E.load σ id)))
  /-- Somebody sets or deletes an edge of the type, or an entity that is no edge. -/
  | direct {σ : System Execution} (item : Item) (change : MEventType)
      (plain : item.entityType = E.registration.edgeType ∨ ctx.schema.registration item.entityType = none) :
    Step E σ (σ.emit ctx item change)

/-- Runs from an empty server, with the systems passed through before, latest first. -/
inductive Run (E : Ensures ctx Execution) : System Execution → List (System Execution) → Prop where
  | start : Run E ⟨.initial, fun _ => .idle⟩ []
  | step {σ σ' : System Execution} {past : List (System Execution)} (run : Run E σ past)
      (step : Step E σ σ') : Run E σ' (σ :: past)

namespace Ensures

variable (E : Ensures ctx Execution)

omit [DecidableEq Execution] in
def Occupied (σ : System Execution) (id : String) : Prop :=
  Occupies E.registration σ.server.registry E.key id

omit [DecidableEq Execution] in
def Vacant (σ : System Execution) : Prop := ∀ id, ¬E.Occupied σ id

/-- What the answers given so far say about the systems passed through. -/
structure Linearised (σ : System Execution) (past : List (System Execution)) : Prop where
  /-- Each answer names who occupied the pair at some moment of the execution; one that reports the edge
  created has just put its own there. -/
  returns : ∀ i id created, σ.phase i = .returned id created →
    ∃ moment ∈ past, (moment.phase i).InFlight ∧ E.Occupied moment id ∧
      (created = true → id = (E.edge i).id ∧ moment.phase i = .written)
  /-- Between two that report different edges created, the pair has been vacant. -/
  apart : ∀ i j, (E.edge i).id ≠ (E.edge j).id → ∀ id id', σ.phase i = .returned id true →
    σ.phase j = .returned id' true → ∃ moment ∈ past, E.Vacant moment ∧
      ((moment.phase i).Wrote ∧ (moment.phase j).BeforeWrite ∨
        (moment.phase j).Wrote ∧ (moment.phase i).BeforeWrite)

/-- What a step may do to the pair. -/
structure Fills (σ σ' : System Execution) : Prop where
  /-- A vacant pair is taken by an execution of the command or by a direct set. -/
  taken : E.Vacant σ → ∀ id, E.Occupied σ' id →
    (∃ i, σ.phase i = .absent ∧ id = (E.edge i).id ∧ (σ'.phase i = .written ∨ σ'.phase i = .refused)) ∨
      ∃ item : Item, item.id = id ∧ σ' = σ.emit ctx item .set
  /-- A set of the command goes through only where nobody else is. -/
  written : ∀ i, σ.phase i = .absent → σ'.phase i = .written →
    (∀ id, E.Occupied σ id → id = (E.edge i).id) ∧ E.Occupied σ' (E.edge i).id

end Ensures

omit [DecidableEq Execution] in
/-- A direct delete takes who occupied the pair away from it. -/
def Ensures.Deletes (E : Ensures ctx Execution) (σ σ' : System Execution) : Prop :=
  ∃ edge, σ' = σ.emit ctx edge .del ∧ E.Occupied σ edge.id ∧ E.Vacant σ'

/-- Of the executions between two deletes of the pair, one reports that it created the edge. -/
def Ensures.CreatesOnce (E : Ensures ctx Execution) : Prop :=
  ∀ {σ : System Execution} {past later between earlier : List (System Execution)}
    {closed closing opened opening : System Execution}, Run E σ past →
    σ :: past = later ++ closed :: closing :: (between ++ opened :: opening :: earlier) →
    E.Deletes opening opened → E.Deletes closing closed →
    (∃ i id created, opened.phase i = .idle ∧ closing.phase i = .returned id created) →
    ∃! i, opened.phase i = .idle ∧ ∃ id, closing.phase i = .returned id true

/-! ### Sets and deletes -/

/-- Pairs are unique, validation is nowhere turned off and the index is that of the stores. -/
structure Orderly (ctx : MykoServerContext) (s : ServerState) : Prop where
  guarded : Guarded ctx s
  coherent : s.graph.Coherent ctx.schema s.registry

section
variable {s : ServerState} {item : Item} {change : MEventType} {cascades : List Item}
  {registration : EdgeRegistration}

theorem validate_of_plan (plan : planPending ctx s (emission item .set) = .ok (some cascades))
    (found : ctx.schema.registration item.entityType = some registration)
    (checked : ChecksEdges ctx s (emission item .set) registration.edgeType) :
    (s.view ctx).validate registration item [] = .ok () := by
  have told : coordinatedOf ctx (emission item .set) = true := by
    have member : ⟨.set, item⟩ ∈ changesOf s (emission item .set) := by
      rw [emission, directPending, changesOf_single]
      exact List.mem_singleton_self _
    exact told_of_registered member (by rw [found]; rfl)
  obtain ⟨planned, plan, -⟩ := except_map_ok plan
  rw [told] at plan
  exact GraphView.validate_of_preflight found checked (planItem_ok plan).2

/-- A direct write of an edge type with unique pairs, or of an entity, extracts once it is planned. -/
theorem extracts_of_plan (coherent : s.graph.Coherent ctx.schema s.registry)
    (plan : planPending ctx s (emission item change) = .ok (some cascades))
    (checked : ∀ edgeType, ChecksEdges ctx s (emission item change) edgeType)
    (registered : registration ∈ ctx.schema.registrations) (unique : registration.pairPolicy = .unique)
    (plain : item.entityType = registration.edgeType ∨ ctx.schema.registration item.entityType = none) :
    ChangeExtracts ctx.schema s.registry ⟨change, item⟩ := by
  intro own found
  rcases plain with sameType | entity
  · have same : registration = own :=
      Option.some.inj ((sameType ▸ GraphSchema.registration_of_mem registered).symm.trans found)
    subst same
    refine ⟨?_, ?_⟩
    · rw [StoreRegistry.canonicalItem, sameType]
      exact coherent.extracts registration registered item.id
    · cases change with
      | del => exact registration.extracts_none
      | set =>
        obtain ⟨edge, indexed⟩ := GraphView.indexed_of_validate
          (validate_of_plan plan found (checked registration.edgeType)) unique
        intro written is
        cases is
        exact ⟨edge, indexed⟩
  · rw [entity] at found
    cases found

/-- A direct write keeps the server orderly; it is refused or it is made. -/
theorem emission_spec (orderly : Orderly ctx s) (registered : registration ∈ ctx.schema.registrations)
    (unique : registration.pairPolicy = .unique)
    (plain : item.entityType = registration.edgeType ∨ ctx.schema.registration item.entityType = none) :
    Orderly ctx (final (commitPending ctx (emission item change)) s) ∧
      ((final (commitPending ctx (emission item change)) s = s ∧
        Phase.afterEmission (commitPending ctx (emission item change) s) = .refused) ∨
      ∃ cascades, planPending ctx s (emission item change) = .ok (some cascades) ∧
        (final (commitPending ctx (emission item change)) s).registry = s.registry.writeAll [⟨change, item⟩]) := by
  have checked : ∀ edgeType, ChecksEdges ctx s (emission item change) edgeType :=
    orderly.guarded.checks rfl
  have changes : changesOf s (emission item change) = [⟨change, item⟩] := changesOf_single s item change _ _ _ _
  rcases commitPending_final ctx (emission item change) s with ⟨unchanged, rejected⟩ | ⟨cascades, plan, applied⟩
  · refine ⟨by rw [unchanged]; exact orderly, .inl ⟨unchanged, ?_⟩⟩
    rw [commitPending_eq]
    cases planned : planPending ctx s (emission item change) with
    | error error => rfl
    | ok result =>
      obtain ⟨cascades, -, some⟩ := except_map_ok planned
      exact absurd (planned.trans (congrArg Except.ok some.symm)) (rejected cascades)
  · have extracts := extracts_of_plan orderly.coherent plan checked registered unique plain
    have heard : Heard ctx s (emission item change) := heard_single rfl extracts
    have coherent := coherent_committed orderly.coherent heard
    refine ⟨⟨⟨?_, coherent.covering, ?_⟩, coherent⟩, .inr ⟨cascades, plan, changes ▸ applied.registry⟩⟩
    · rw [applied.registry]
      exact pairsUnique_commit orderly.guarded.unique orderly.guarded.covering checked plan
    · rw [applied.applyModes]
      exact orderly.guarded.modes

/-! ### Who occupies a pair -/

theorem occupies_write {registry : StoreRegistry} {key : EdgePairKey} {id : String}
    (after : Occupies registration (registry.writeAll [⟨change, item⟩]) key id) :
    (change = .set ∧ item.id = id ∧ registration.keyOf item = some key) ∨
      (Occupies registration registry key id ∧ (item.entityType, item.id) ≠ (registration.edgeType, id)) := by
  obtain ⟨edge, stored, here⟩ := after
  rcases storedEdges_writeAll stored with ⟨other, member, _, same, indexed⟩ | ⟨kept, untouched⟩
  · obtain ⟨rfl, rfl⟩ := Change.mk.inj (List.mem_singleton.mp member)
    refine .inl ⟨rfl, same, ?_⟩
    simp [EdgeRegistration.keyOf, EdgeRegistration.edgeOf, indexed, Except.toOption, here]
  · exact .inr ⟨⟨edge, kept, here⟩, untouched _ (List.mem_singleton_self _)⟩

theorem storedEdges_write (registry : StoreRegistry) (id : String) :
    registration.storedEdges (registry.writeAll [⟨change, item⟩]) id =
      if (registration.edgeType, id) = (item.entityType, item.id) then
        registration.edgeOf (Change.mk change item).value
      else registration.storedEdges registry id := by
  unfold EdgeRegistration.storedEdges
  rw [show registry.writeAll [⟨change, item⟩] = registry.write ⟨change, item⟩ from rfl,
    StoreRegistry.getValue_write, show (Change.mk change item).key = (item.entityType, item.id) from rfl]
  split <;> rfl

theorem occupies_set {registry : StoreRegistry} {key : EdgePairKey}
    (typed : item.entityType = registration.edgeType) (keyed : registration.keyOf item = some key) :
    Occupies registration (registry.writeAll [⟨.set, item⟩]) key item.id := by
  obtain ⟨edge, indexed, here⟩ := Option.map_eq_some_iff.mp keyed
  exact ⟨edge, by rw [storedEdges_write, if_pos (by rw [typed])]; exact indexed, here⟩

theorem occupies_unique {key : EdgePairKey} {id id' : String} (unique : PairsUnique ctx.schema s.registry)
    (registered : registration ∈ ctx.schema.registrations) (policy : registration.pairPolicy = .unique)
    (here : Occupies registration s.registry key id) (there : Occupies registration s.registry key id') :
    id = id' := by
  obtain ⟨edge, stored, keyed⟩ := here
  obtain ⟨edge', stored', keyed'⟩ := there
  exact unique registration registered policy stored stored' (keyed.trans keyed'.symm)

/-- Over one write an edge keeps its pair, or leaves it to nobody. -/
theorem occupies_or_vacant (item : Item) (change : MEventType) {key : EdgePairKey} {id : String}
    (unique : PairsUnique ctx.schema s.registry)
    (registered : registration ∈ ctx.schema.registrations) (policy : registration.pairPolicy = .unique)
    (here : Occupies registration s.registry key id) :
    Occupies registration (s.registry.writeAll [⟨change, item⟩]) key id ∨
      ∀ other, ¬Occupies registration (s.registry.writeAll [⟨change, item⟩]) key other := by
  by_cases touched : (registration.edgeType, id) = (item.entityType, item.id)
  · by_cases again : change = .set ∧ registration.keyOf item = some key
    · obtain ⟨rfl, keyed⟩ := again
      obtain ⟨typed, same⟩ := Prod.mk.inj touched
      exact .inl (same ▸ occupies_set typed.symm keyed)
    · refine .inr fun other after => ?_
      rcases occupies_write after with ⟨set, _, keyed⟩ | ⟨before, apart⟩
      · exact again ⟨set, keyed⟩
      · obtain rfl := occupies_unique unique registered policy here before
        exact apart touched.symm
  · obtain ⟨edge, stored, keyed⟩ := here
    exact .inl ⟨edge, by rw [storedEdges_write, if_neg touched]; exact stored, keyed⟩

/-- A set of an edge goes through only where nobody else has its pair. -/
theorem vacant_of_plan (orderly : Orderly ctx s) (registered : registration ∈ ctx.schema.registrations)
    (unique : registration.pairPolicy = .unique) (typed : item.entityType = registration.edgeType)
    (plan : planPending ctx s (emission item .set) = .ok (some cascades)) :
    ∃ key, registration.keyOf item = some key ∧
      ∀ id, Occupies registration s.registry key id → id = item.id := by
  have checked : ∀ edgeType, ChecksEdges ctx s (emission item .set) edgeType :=
    orderly.guarded.checks rfl
  have valid := validate_of_plan plan (typed ▸ GraphSchema.registration_of_mem registered)
    (checked registration.edgeType)
  obtain ⟨edge, indexed⟩ := GraphView.indexed_of_validate valid unique
  refine ⟨registration.pairKey edge.endpoints edge.scope, by
    simp [EdgeRegistration.keyOf, EdgeRegistration.edgeOf, indexed, Except.toOption], fun id here => ?_⟩
  obtain ⟨endpoints, validated⟩ := GraphView.validate_ok valid
  obtain ⟨extracted, inScope⟩ := EdgeRegistration.read_of_indexed indexed
  obtain rfl : endpoints = edge.endpoints := Except.ok.inj (validated.extracts.symm.trans extracted)
  have kept : registration.projectsPairs = true := by simp [EdgeRegistration.projectsPairs, unique]
  have coherent : (s.view ctx).state.Coherent (s.view ctx).schema (s.view ctx).registry := orderly.coherent
  have held := mem_bucketIds.mp ((mem_pairs coherent registered kept).mpr here)
  rcases validated.vacant unique edge.scope inScope id held with own | ignored
  · exact own
  · cases ignored

end

/-! ### Runs -/

variable {E : Ensures ctx Execution} {σ σ' : System Execution} {past : List (System Execution)}

omit [DecidableEq Execution] in
/-- The edge a phase is going to answer with, and whether as a created one. -/
def Ensures.claim (E : Ensures ctx Execution) (i : Execution) : Phase → Option (String × Bool)
  | .found id | .foundAgain id => some (id, false)
  | .written => some ((E.edge i).id, true)
  | .returned id created => some (id, created)
  | _ => none

/-- What holds of the systems of a run. -/
structure Kept (E : Ensures ctx Execution) (σ : System Execution) (past : List (System Execution)) : Prop where
  orderly : Orderly ctx σ.server
  claimed : ∀ i id created, E.claim i (σ.phase i) = some (id, created) →
    ∃ moment ∈ σ :: past, (moment.phase i).InFlight ∧ E.Occupied moment id ∧
      (created = true → id = (E.edge i).id ∧ moment.phase i = .written)
  holds : ∀ i, (σ.phase i).Wrote → E.Occupied σ (E.edge i).id ∨
    ∃ moment ∈ σ :: past, (moment.phase i).Wrote ∧ E.Vacant moment
  early : ∀ i, (σ.phase i).BeforeWrite → ∀ moment ∈ past, (moment.phase i).BeforeWrite
  apart : ∀ i j, (E.edge i).id ≠ (E.edge j).id → (σ.phase i).Wrote → (σ.phase j).Wrote →
    ∃ moment ∈ σ :: past, E.Vacant moment ∧
      ((moment.phase i).Wrote ∧ (moment.phase j).BeforeWrite ∨
        (moment.phase j).Wrote ∧ (moment.phase i).BeforeWrite)

omit [DecidableEq Execution] in
theorem kept_start (E : Ensures ctx Execution) :
    Kept E (⟨.initial, fun _ => .idle⟩ : System Execution) [] where
  orderly := ⟨guarded_initial ctx, coherent_empty ctx.schema⟩
  claimed _ _ _ claim := by cases claim
  holds _ wrote := wrote.elim
  early _ _ _ member := by cases member
  apart _ _ _ wrote := wrote.elim

/-- A step of one execution that leaves the server alone and claims nothing it has not seen. -/
theorem kept_move (kept : Kept E σ past) (i : Execution) (phase : Phase)
    (claimed : ∀ id created, E.claim i phase = some (id, created) →
      E.claim i (σ.phase i) = some (id, created) ∨
        ((σ.phase i).InFlight ∧ E.Occupied σ id ∧ created = false))
    (wrote : phase.Wrote → (σ.phase i).Wrote) (early : phase.BeforeWrite → (σ.phase i).BeforeWrite) :
    Kept E (σ.move i phase) (σ :: past) := by
  have phases : ∀ j, (σ.move i phase).phase j = if j = i then phase else σ.phase j := fun j => by
    unfold System.move Function.update
    by_cases here : j = i
    · subst here; simp
    · simp [here]
  have wroteBefore : ∀ j, ((σ.move i phase).phase j).Wrote → (σ.phase j).Wrote := by
    intro j after
    rw [phases] at after
    split at after
    · rename_i here; exact here ▸ wrote after
    · exact after
  refine ⟨kept.orderly, fun j id created claim => ?_, fun j after => ?_, fun j before moment member => ?_,
    fun j k distinct one other => ?_⟩
  · have carried : E.claim j (σ.phase j) = some (id, created) →
        ∃ moment ∈ σ.move i phase :: σ :: past, (moment.phase j).InFlight ∧ E.Occupied moment id ∧
          (created = true → id = (E.edge j).id ∧ moment.phase j = .written) := by
      intro before
      obtain ⟨moment, member, rest⟩ := kept.claimed j id created before
      exact ⟨moment, List.mem_cons_of_mem _ member, rest⟩
    rw [phases] at claim
    split at claim
    · rename_i here
      subst here
      rcases claimed id created claim with same | ⟨flying, there, fresh⟩
      · exact carried same
      · refine ⟨σ, by simp, flying, there, fun yes => ?_⟩
        rw [fresh] at yes
        cases yes
    · exact carried claim
  · rcases kept.holds j (wroteBefore j after) with there | ⟨moment, member, rest⟩
    · exact .inl there
    · exact .inr ⟨moment, List.mem_cons_of_mem _ member, rest⟩
  · have now : (σ.phase j).BeforeWrite := by
      rw [phases] at before
      split at before
      · rename_i here; exact here ▸ early before
      · exact before
    rcases List.mem_cons.mp member with rfl | member
    · exact now
    · exact kept.early j now moment member
  · obtain ⟨moment, member, rest⟩ := kept.apart j k distinct (wroteBefore j one) (wroteBefore k other)
    exact ⟨moment, List.mem_cons_of_mem _ member, rest⟩

omit [DecidableEq Execution] in
theorem occupied_of_lookup (kept : Kept E σ past) {i : Execution} {id : String} {rest : List String}
    (found : E.lookup σ i = .ok (id :: rest)) : E.Occupied σ id := by
  have coherent : (σ.server.view ctx).state.Coherent (σ.server.view ctx).schema (σ.server.view ctx).registry :=
    kept.orderly.coherent
  obtain ⟨key, keyed, listed⟩ := mem_uniqueIds coherent E.registered (E.hasScope i) found
  obtain rfl := E.samePair i key keyed
  exact (listed id).mp List.mem_cons_self

theorem kept_lookup (kept : Kept E σ past) {i : Execution} {found : String → Phase} {nobody error : Phase}
    (flying : (σ.phase i).InFlight)
    (claims : ∀ id, E.claim i (found id) = some (id, false)) (silent : E.claim i nobody = none)
    (failed : E.claim i error = none)
    (wrote : ∀ phase : Phase, (∃ id, phase = found id) ∨ phase = nobody ∨ phase = error → ¬phase.Wrote)
    (early : ∀ phase : Phase, (∃ id, phase = found id) ∨ phase = nobody ∨ phase = error →
      phase.BeforeWrite → (σ.phase i).BeforeWrite) :
    Kept E (σ.move i (.afterLookup found nobody error (E.lookup σ i))) (σ :: past) := by
  cases looked : E.lookup σ i with
  | error message =>
    refine kept_move kept i error (fun id created claim => ?_)
      (fun yes => absurd yes (wrote _ (.inr (.inr rfl)))) (early _ (.inr (.inr rfl)))
    rw [failed] at claim
    cases claim
  | ok ids =>
    cases ids with
    | nil =>
      refine kept_move kept i nobody (fun id created claim => ?_)
        (fun yes => absurd yes (wrote _ (.inr (.inl rfl)))) (early _ (.inr (.inl rfl)))
      rw [silent] at claim
      cases claim
    | cons first rest =>
      refine kept_move kept i (found first) (fun id created claim => .inr ⟨flying, ?_⟩)
        (fun yes => absurd yes (wrote _ (.inl ⟨first, rfl⟩))) (early _ (.inl ⟨first, rfl⟩))
      rw [claims] at claim
      cases claim
      exact ⟨occupied_of_lookup kept looked, rfl⟩

theorem kept_load (kept : Kept E σ past) {i : Execution} {id : String} {nobody : Phase}
    (claims : E.claim i (σ.phase i) = some (id, false)) (silent : E.claim i nobody = none)
    (wrote : ¬nobody.Wrote) (early : nobody.BeforeWrite → (σ.phase i).BeforeWrite) :
    Kept E (σ.move i (.afterLoad nobody (E.load σ id))) (σ :: past) := by
  cases loaded : E.load σ id with
  | none =>
    refine kept_move kept i nobody (fun id created claim => ?_) (fun yes => absurd yes wrote) early
    rw [silent] at claim
    cases claim
  | some edge =>
    have same : edge.id = id := (StoreRegistry.getValue_keyed loaded).2
    refine kept_move kept i (.returned edge.id false) (fun id created claim => .inl ?_)
      (fun yes => yes.elim) (fun yes => yes.elim)
    rw [claims, ← same]
    exact claim

omit [DecidableEq Execution] in
/-- What a direct write does to the pair, with whatever phases its system has. -/
theorem holds_emit (kept : Kept E σ past) {item : Item} {change : MEventType}
    (plain : item.entityType = E.registration.edgeType ∨ ctx.schema.registration item.entityType = none)
    (after : System Execution) (server : after.server = (σ.emit ctx item change).server) {i : Execution}
    (wrote : (σ.phase i).Wrote) (still : (after.phase i).Wrote) :
    E.Occupied after (E.edge i).id ∨ ∃ moment ∈ after :: σ :: past, (moment.phase i).Wrote ∧ E.Vacant moment := by
  rcases kept.holds i wrote with there | ⟨moment, member, rest⟩
  · rcases (emission_spec kept.orderly E.registered E.unique plain).2 with ⟨unchanged, -⟩ | ⟨_, -, written⟩
    · refine .inl ?_
      unfold Ensures.Occupied
      rw [server, System.emit, unchanged]
      exact there
    · have either := occupies_or_vacant item change kept.orderly.guarded.unique E.registered
        E.unique there
      have registry : after.server.registry = σ.server.registry.writeAll [⟨change, item⟩] := by
        rw [server]
        exact written
      rcases either with stays | vacated
      · exact .inl (by unfold Ensures.Occupied; rw [registry]; exact stays)
      · exact .inr ⟨after, List.mem_cons_self, still, fun id => by
          unfold Ensures.Occupied
          rw [registry]
          exact vacated id⟩
  · exact .inr ⟨moment, List.mem_cons_of_mem _ member, rest⟩

omit [DecidableEq Execution] in
theorem kept_direct (kept : Kept E σ past) {item : Item} {change : MEventType}
    (plain : item.entityType = E.registration.edgeType ∨ ctx.schema.registration item.entityType = none) :
    Kept E (σ.emit ctx item change) (σ :: past) where
  orderly := (emission_spec kept.orderly E.registered E.unique plain).1
  claimed i id created claim := by
    obtain ⟨moment, member, rest⟩ := kept.claimed i id created claim
    exact ⟨moment, List.mem_cons_of_mem _ member, rest⟩
  holds i wrote := holds_emit kept plain _ rfl wrote wrote
  early i before moment member := by
    rcases List.mem_cons.mp member with rfl | member
    · exact before
    · exact kept.early i before moment member
  apart i j distinct one other := by
    obtain ⟨moment, member, rest⟩ := kept.apart i j distinct one other
    exact ⟨moment, List.mem_cons_of_mem _ member, rest⟩

omit [DecidableEq Execution] in
/-- A set of the command that goes through: who was there before, and who is after. -/
theorem written_spec (kept : Kept E σ past) (i : Execution)
    (ok : Phase.afterEmission (commitPending ctx (emission (E.edge i) .set) σ.server) = .written) :
    (∀ id, E.Occupied σ id → id = (E.edge i).id) ∧
      Occupies E.registration (σ.emit ctx (E.edge i) .set).server.registry E.key (E.edge i).id := by
  have plain : (E.edge i).entityType = E.registration.edgeType ∨
      ctx.schema.registration (E.edge i).entityType = none := .inl (E.typed i)
  rcases (emission_spec kept.orderly E.registered E.unique plain).2 with
    ⟨-, refused⟩ | ⟨cascades, plan, written⟩
  · rw [refused] at ok
    cases ok
  · obtain ⟨key, keyed, alone⟩ := vacant_of_plan kept.orderly E.registered E.unique (E.typed i) plan
    obtain rfl := E.samePair i key keyed
    refine ⟨alone, ?_⟩
    show Occupies _ (final (commitPending ctx (emission (E.edge i) .set)) σ.server).registry _ _
    rw [written]
    exact occupies_set (E.typed i) keyed

theorem afterEmission_cases {α : Type} (result : EStateM.Result PersistError ServerState α) :
    Phase.afterEmission result = .written ∨ Phase.afterEmission result = .refused := by
  cases result
  · exact .inl rfl
  · exact .inr rfl

theorem kept_emit (kept : Kept E σ past) (i : Execution) (now : σ.phase i = .absent) :
    Kept E ((σ.emit ctx (E.edge i) .set).move i
      (.afterEmission (commitPending ctx (emission (E.edge i) .set) σ.server))) (σ :: past) := by
  have plain : (E.edge i).entityType = E.registration.edgeType ∨
      ctx.schema.registration (E.edge i).entityType = none := .inl (E.typed i)
  have outcome := afterEmission_cases (commitPending ctx (emission (E.edge i) .set) σ.server)
  have written := written_spec kept i
  revert outcome written
  generalize Phase.afterEmission (commitPending ctx (emission (E.edge i) .set) σ.server) = phase
  intro outcome written
  have mine : ((σ.emit ctx (E.edge i) .set).move i phase).phase i = phase := Function.update_self _ _ _
  have others : ∀ j, j ≠ i → ((σ.emit ctx (E.edge i) .set).move i phase).phase j = σ.phase j :=
    fun j apart => Function.update_of_ne apart _ _
  have notEarly : ¬phase.BeforeWrite := by
    rcases outcome with rfl | rfl <;> exact fun early => early
  -- At the moment of the set its execution was before it, so that all moments so far were.
  have earlier : ∀ moment ∈ σ :: past, (moment.phase i).BeforeWrite := by
    intro moment member
    have absent : (σ.phase i).BeforeWrite := by rw [now]; trivial
    rcases List.mem_cons.mp member with rfl | member
    · exact absent
    · exact kept.early i absent moment member
  have crossed : ∀ j, (E.edge j).id ≠ (E.edge i).id → phase.Wrote → (σ.phase j).Wrote →
      ∃ moment ∈ σ :: past, E.Vacant moment ∧ (moment.phase j).Wrote ∧ (moment.phase i).BeforeWrite := by
    intro j distinct wrote other
    have through : phase = .written := by
      rcases outcome with rfl | rfl
      · rfl
      · exact wrote.elim
    rcases kept.holds j other with there | ⟨moment, member, wrote, vacant⟩
    · exact absurd ((written through).1 _ there) distinct
    · exact ⟨moment, member, vacant, wrote, earlier moment member⟩
  refine ⟨(emission_spec kept.orderly E.registered E.unique plain).1, fun j id created claim => ?_,
    fun j wrote => ?_, fun j before moment member => ?_, fun j k distinct one other => ?_⟩
  · by_cases here : j = i
    · subst here
      rw [mine] at claim
      rcases outcome with rfl | rfl
      · cases claim
        exact ⟨_, List.mem_cons_self, by rw [mine]; trivial, (written rfl).2, fun _ => ⟨rfl, mine⟩⟩
      · cases claim
    · rw [others j here] at claim
      obtain ⟨moment, member, rest⟩ := kept.claimed j id created claim
      exact ⟨moment, List.mem_cons_of_mem _ member, rest⟩
  · by_cases here : j = i
    · subst here
      rw [mine] at wrote
      rcases outcome with rfl | rfl
      · exact .inl (written rfl).2
      · exact wrote.elim
    · have before : (σ.phase j).Wrote := others j here ▸ wrote
      have server : ((σ.emit ctx (E.edge i) .set).move i phase).server = (σ.emit ctx (E.edge i) .set).server := rfl
      exact holds_emit kept plain _ server before wrote
  · by_cases here : j = i
    · subst here
      rw [mine] at before
      exact absurd before notEarly
    · rw [others j here] at before
      rcases List.mem_cons.mp member with rfl | member
      · exact before
      · exact kept.early j before moment member
  · by_cases first : j = i
    · subst first
      rw [mine] at one
      have apart : k ≠ j := fun same => distinct (congrArg (fun k => (E.edge k).id) same).symm
      rw [others k apart] at other
      obtain ⟨moment, member, vacant, rest⟩ := crossed k (Ne.symm distinct) one other
      exact ⟨moment, List.mem_cons_of_mem _ member, vacant, .inr rest⟩
    · rw [others j first] at one
      by_cases second : k = i
      · subst second
        rw [mine] at other
        obtain ⟨moment, member, vacant, rest⟩ := crossed j distinct other one
        exact ⟨moment, List.mem_cons_of_mem _ member, vacant, .inl rest⟩
      · rw [others k second] at other
        obtain ⟨moment, member, rest⟩ := kept.apart j k distinct one other
        exact ⟨moment, List.mem_cons_of_mem _ member, rest⟩

theorem kept_step (kept : Kept E σ past) (step : Step E σ σ') : Kept E σ' (σ :: past) := by
  cases step with
  | invoke i now =>
    refine kept_move kept i .invoked (fun _ _ claim => (by cases claim)) (fun yes => yes.elim) (fun _ => ?_)
    rw [now]
    trivial
  | lookUp i now =>
    refine kept_lookup kept (by rw [now]; trivial) (fun _ => rfl) rfl rfl (fun phase shape => ?_)
      (fun phase _ _ => by rw [now]; trivial)
    rcases shape with ⟨_, rfl⟩ | rfl | rfl <;> exact fun yes => yes
  | load i now =>
    exact kept_load kept (by rw [now]; rfl) rfl (fun yes => yes) (fun _ => by rw [now]; trivial)
  | emit i now => exact kept_emit kept i now
  | settle i now =>
    refine kept_move kept i _ (fun id created claim => .inl ?_) (fun _ => by rw [now]; trivial)
      (fun yes => yes.elim)
    rw [now]
    exact claim
  | fail i now =>
    exact kept_move kept i .refused (fun _ _ claim => (by cases claim)) (fun yes => yes.elim)
      (fun yes => yes.elim)
  | lookUpAgain i now =>
    refine kept_lookup kept (by rw [now]; trivial) (fun _ => rfl) rfl rfl (fun phase shape => ?_)
      (fun phase shape early => ?_)
    · rcases shape with ⟨_, rfl⟩ | rfl | rfl <;> exact fun yes => yes
    · rcases shape with ⟨_, rfl⟩ | rfl | rfl <;> exact early.elim
  | loadAgain i now =>
    exact kept_load kept (by rw [now]; rfl) rfl (fun yes => yes) (fun yes => yes.elim)
  | direct item change plain => exact kept_direct kept plain

theorem kept_run (run : Run E σ past) : Kept E σ past := by
  induction run with
  | start => exact kept_start E
  | step _ step ih => exact kept_step ih step

omit [DecidableEq Execution] in
theorem linearised_of_kept (kept : Kept E σ past) : E.Linearised σ past where
  returns i id created answered := by
    obtain ⟨moment, member, flying, rest⟩ := kept.claimed i id created (by rw [answered]; rfl)
    refine ⟨moment, (List.mem_cons.mp member).resolve_left fun same => ?_, flying, rest⟩
    rw [same, answered] at flying
    exact flying
  apart i j distinct id id' one other := by
    obtain ⟨moment, member, vacant, rest⟩ :=
      kept.apart i j distinct (by rw [one]; trivial) (by rw [other]; trivial)
    refine ⟨moment, (List.mem_cons.mp member).resolve_left fun same => ?_, vacant, rest⟩
    subst same
    rw [one, other] at rest
    rcases rest with ⟨-, early⟩ | ⟨-, early⟩ <;> exact early

theorem move_phase (σ : System Execution) (i j : Execution) (phase : Phase) :
    (σ.move i phase).phase j = if j = i then phase else σ.phase j := by
  unfold System.move
  exact Function.update_apply _ _ _ _

/-- A step that leaves the server alone fills nothing. -/
theorem fills_move (i : Execution) {phase : Phase} (ahead : phase ≠ .written) : E.Fills σ (σ.move i phase) where
  taken vacant id occupied := absurd occupied (vacant id)
  written j absent written := by
    rw [move_phase] at written
    split at written
    · exact absurd written ahead
    · rw [absent] at written
      cases written

theorem fills_emit (kept : Kept E σ past) (i : Execution) (now : σ.phase i = .absent) :
    E.Fills σ ((σ.emit ctx (E.edge i) .set).move i
      (.afterEmission (commitPending ctx (emission (E.edge i) .set) σ.server))) where
  taken vacant id occupied := by
    have plain : (E.edge i).entityType = E.registration.edgeType ∨
        ctx.schema.registration (E.edge i).entityType = none := .inl (E.typed i)
    have mine := move_phase (σ.emit ctx (E.edge i) .set) i i
      (.afterEmission (commitPending ctx (emission (E.edge i) .set) σ.server))
    rw [if_pos rfl] at mine
    rcases (emission_spec kept.orderly E.registered E.unique plain).2 with
      ⟨unchanged, -⟩ | ⟨_, -, made⟩
    · refine absurd ?_ (vacant id)
      unfold Ensures.Occupied
      rw [← unchanged]
      exact occupied
    · refine .inl ⟨i, now, ?_, by rw [mine]; exact afterEmission_cases _⟩
      have after : Occupies E.registration (σ.server.registry.writeAll [⟨.set, E.edge i⟩]) E.key id := by
        rw [← made]
        exact occupied
      rcases occupies_write after with ⟨-, same, -⟩ | ⟨before, -⟩
      · exact same.symm
      · exact absurd before (vacant id)
  written j absent written := by
    rw [move_phase] at written
    split at written
    · rename_i here
      subst here
      exact written_spec kept j written
    · rw [show (σ.emit ctx (E.edge i) .set).phase j = σ.phase j from rfl, absent] at written
      cases written

omit [DecidableEq Execution] in
theorem fills_direct (kept : Kept E σ past) {item : Item} {change : MEventType}
    (plain : item.entityType = E.registration.edgeType ∨ ctx.schema.registration item.entityType = none) :
    E.Fills σ (σ.emit ctx item change) where
  taken vacant id occupied := by
    rcases (emission_spec kept.orderly E.registered E.unique plain).2 with
      ⟨unchanged, -⟩ | ⟨_, -, made⟩
    · refine absurd ?_ (vacant id)
      unfold Ensures.Occupied
      rw [← unchanged]
      exact occupied
    · have after : Occupies E.registration (σ.server.registry.writeAll [⟨change, item⟩]) E.key id := by
        rw [← made]
        exact occupied
      rcases occupies_write after with ⟨rfl, same, -⟩ | ⟨before, -⟩
      · exact .inr ⟨item, same, rfl⟩
      · exact absurd before (vacant id)
  written i absent written := by
    rw [show (σ.emit ctx item change).phase i = σ.phase i from rfl, absent] at written
    cases written

theorem afterLookup_ne_written {found : String → Phase} {nobody error : Phase}
    (ahead : ∀ id, found id ≠ .written) (nobodyNot : nobody ≠ .written) (errorNot : error ≠ .written)
    (looked : Except String (List String)) : Phase.afterLookup found nobody error looked ≠ .written := by
  rcases looked with message | (_ | ⟨id, rest⟩)
  · exact errorNot
  · exact nobodyNot
  · exact ahead id

theorem afterLoad_ne_written {nobody : Phase} (nobodyNot : nobody ≠ .written) (loaded : Option Item) :
    Phase.afterLoad nobody loaded ≠ .written := by
  cases loaded with
  | none => exact nobodyNot
  | some edge => exact Phase.noConfusion

theorem fills_step (kept : Kept E σ past) (step : Step E σ σ') : E.Fills σ σ' := by
  cases step with
  | invoke i now => exact fills_move i Phase.noConfusion
  | lookUp i now =>
    exact fills_move i (afterLookup_ne_written (fun _ => Phase.noConfusion) Phase.noConfusion
      Phase.noConfusion _)
  | load i now => exact fills_move i (afterLoad_ne_written Phase.noConfusion _)
  | emit i now => exact fills_emit kept i now
  | settle i now => exact fills_move i Phase.noConfusion
  | fail i now => exact fills_move i Phase.noConfusion
  | lookUpAgain i now =>
    exact fills_move i (afterLookup_ne_written (fun _ => Phase.noConfusion) Phase.noConfusion
      Phase.noConfusion _)
  | loadAgain i now => exact fills_move i (afterLoad_ne_written Phase.noConfusion _)
  | direct item change plain => exact fills_direct kept plain

/-- In every run the answers are linearised, and a vacant pair is filled by a single set. -/
theorem ensure_linearises (run : Run E σ past) :
    E.Linearised σ past ∧ ∀ σ', Step E σ σ' → E.Fills σ σ' :=
  ⟨linearised_of_kept (kept_run run), fun _ step => fills_step (kept_run run) step⟩

namespace Sample
open Myko.Sample

/-- One execution, for a link from node to node. -/
def ensures : Ensures server Unit where
  registration := links
  registered := List.mem_singleton_self _
  unique := rfl
  key := links.pairKey ⟨⟨⟨"node", "x"⟩, none⟩, ⟨⟨"node", "y"⟩, none⟩⟩ none
  edge _ := link "f" "x" "y"
  typed _ := rfl
  samePair _ _ keyed := (Option.some.inj keyed).symm
  hasScope _ declared := absurd rfl declared

def initial : System Unit := ⟨.initial, fun _ => .idle⟩

def nodes : System Unit := (initial.emit server (node "x") .set).emit server (node "y") .set

/-- The link is there before the execution is invoked. -/
def linked : System Unit := nodes.emit server (link "e" "x" "y") .set

def unlinked : System Unit := linked.emit server (link "e" "x" "y") .del

def linkedAgain : System Unit := unlinked.emit server (link "e" "x" "y") .set

def invoked : System Unit := linkedAgain.move () .invoked

def found : System Unit := invoked.move () (.found "e")

def answered : System Unit := found.move () (.returned "e" false)

def unlinkedAgain : System Unit := answered.emit server (link "e" "x" "y") .del

theorem direct_node {σ : System Unit} {past : List (System Unit)} (run : Run ensures σ past) (id : String) :
    Run ensures (σ.emit server (node id) .set) (σ :: past) :=
  .step run (.direct (node id) .set (.inr rfl))

theorem direct_link {σ : System Unit} {past : List (System Unit)} (run : Run ensures σ past)
    (change : MEventType) : Run ensures (σ.emit server (link "e" "x" "y") change) (σ :: past) :=
  .step run (.direct (link "e" "x" "y") change (.inl (show "link" = "link" from rfl)))

theorem run_nodes : Run ensures nodes [initial.emit server (node "x") .set, initial] :=
  direct_node (direct_node .start "x") "y"

theorem run_answered : Run ensures unlinkedAgain
    [answered, found, invoked, linkedAgain, unlinked, linked, nodes,
      initial.emit server (node "x") .set, initial] := by
  have again : Run ensures linkedAgain _ := direct_link (direct_link (direct_link run_nodes .set) .del) .set
  have invoked : Run ensures invoked _ := .step again (.invoke () rfl)
  have found : Run ensures found _ := .step invoked (.lookUp () rfl)
  have load : Step ensures Sample.found
      (Sample.found.move () (.afterLoad .absent (ensures.load Sample.found "e"))) := .load () rfl
  have answered : Run ensures answered _ := .step found load
  exact direct_link answered .del

/-- Nobody is there, and the execution sets its own link. -/
def written : System Unit :=
  (((nodes.move () .invoked).move () .absent).emit server (link "f" "x" "y") .set).move () .written

def created : System Unit := written.move () (.returned "f" true)

theorem ensure_linearises_created : ∃ past, ensures.Linearised created past ∧
    ∀ σ', Step ensures created σ' → ensures.Fills created σ' := by
  have invoked : Run ensures (nodes.move () .invoked) _ := .step run_nodes (.invoke () rfl)
  have absent : Run ensures ((nodes.move () .invoked).move () .absent) _ := .step invoked (.lookUp () rfl)
  have written : Run ensures written _ := .step absent (.emit () rfl)
  have run : Run ensures created _ := .step written (.settle () rfl)
  exact ⟨_, ensure_linearises run⟩

theorem deletes_link (σ : System Unit)
    (stored : links.storedEdges σ.server.registry "e" =
      some ⟨"e", ⟨⟨⟨"node", "x"⟩, none⟩, ⟨⟨"node", "y"⟩, none⟩⟩, none⟩)
    (gone : ∀ id, links.storedEdges (σ.emit server (link "e" "x" "y") .del).server.registry id = none) :
    ensures.Deletes σ (σ.emit server (link "e" "x" "y") .del) := by
  refine ⟨link "e" "x" "y", rfl, ⟨_, stored, rfl⟩, fun id there => ?_⟩
  obtain ⟨edge, left, -⟩ := there
  exact nomatch left.symm.trans (gone id)

/-- The edge that an execution finds between two deletes may have been set directly. -/
theorem ensure_creates_nothing : ¬∀ (ctx : MykoServerContext) (E : Ensures ctx Unit), E.CreatesOnce := by
  intro once
  have opens : ensures.Deletes linked unlinked := deletes_link linked (by decide +kernel) fun _ => rfl
  have closes : ensures.Deletes answered unlinkedAgain :=
    deletes_link answered (by decide +kernel) fun _ => rfl
  have split : unlinkedAgain :: [answered, found, invoked, linkedAgain, unlinked, linked, nodes,
        initial.emit server (node "x") .set, initial] =
      [] ++ unlinkedAgain :: answered :: ([found, invoked, linkedAgain] ++
        unlinked :: linked :: [nodes, initial.emit server (node "x") .set, initial]) := rfl
  obtain ⟨_, ⟨-, id, created⟩, -⟩ := once server ensures run_answered split opens closes
    ⟨(), "e", false, rfl, rfl⟩
  cases created

end Sample

end Myko.Ensuring

import Mathlib.Data.Finset.Basic
import Mathlib.Logic.Function.Basic
import Myko.Lib.Runs

/-!
One key of a result cache. The cache has weak references only; who finds none that is live computes under a gate
of the key, which is taken out of the table of gates before it is released.
-/

namespace Myko.ComputeGate
open Runs

/-- Where a call is. Results and gates are numbered as they are made. -/
inductive CallPhase where
  | idle
  /-- It has found a dead entry, before it had a gate or under one. -/
  | removing (gate : Option Nat)
  | missed
  | waiting (gate : Nat)
  | rechecking (gate : Nat)
  | computing (gate : Nat)
  | inserting (gate result : Nat)
  | ungating (gate result : Nat)
  | releasing (gate result : Nat)
  /-- It has the untyped result and goes on to its typed projection. -/
  | projecting (result : Nat)
  | reinserting (result : Nat)
  | reprojecting (result : Nat)
  | returned (result : Nat)
  | dropped
  deriving DecidableEq

namespace CallPhase

/-- The gate it waits for or has. -/
def gate : CallPhase → Option Nat
  | removing gate => gate
  | waiting gate | rechecking gate | computing gate => some gate
  | inserting gate _ | ungating gate _ | releasing gate _ => some gate
  | _ => none

/-- The gate it has. -/
def locks : CallPhase → Option Nat
  | waiting _ => none
  | phase => phase.gate

def computes : CallPhase → Bool
  | computing _ | inserting _ _ => true
  | _ => false

/-- The result it has a strong reference to. -/
def result : CallPhase → Option Nat
  | inserting _ result | ungating _ result | releasing _ result => some result
  | projecting result | reinserting result | reprojecting result | returned result => some result
  | _ => none

/-- The result it has got, on the way out. -/
def serves : CallPhase → Option Nat
  | ungating _ result | releasing _ result | projecting result => some result
  | _ => none

end CallPhase

structure KeyCache where
  entry : Option Nat
  /-- The calls with a strong reference to a result. -/
  holders : Nat → Finset Nat
  gate : Option Nat
  locked : Nat → Bool
  calls : Nat → CallPhase
  nextResult : Nat
  nextGate : Nat
  /-- The live result that was stored when the call started. -/
  found : Nat → Option Nat

inductive CacheEvent where
  /-- A call starts: it looks the key up. -/
  | lookup (call : Nat)
  | removeDead (call : Nat)
  | getGate (call : Nat)
  | acquire (call : Nat)
  | recheck (call : Nat)
  | compute (call : Nat)
  | insert (call : Nat)
  | removeGate (call : Nat)
  | release (call : Nat)
  | project (call : Nat)
  | reinsert (call : Nat)
  | reproject (call : Nat)
  /-- Whoever asked drops what it has got. -/
  | drop (call : Nat)
  | sweep

namespace KeyCache

def start : KeyCache where
  entry := none
  holders _ := ∅
  gate := none
  locked _ := false
  calls _ := .idle
  nextResult := 0
  nextGate := 0
  found _ := none

/-- The entry's reference upgrades. -/
def stored (s : KeyCache) : Option Nat := s.entry.filter fun result => s.holders result ≠ ∅

def go (s : KeyCache) (call : Nat) (phase : CallPhase) : KeyCache :=
  { s with calls := Function.update s.calls call phase }

def hold (s : KeyCache) (result call : Nat) : KeyCache :=
  { s with holders := Function.update s.holders result (insert call (s.holders result)) }

def letGo (s : KeyCache) (result call : Nat) : KeyCache :=
  { s with holders := Function.update s.holders result ((s.holders result).erase call) }

variable (typed : Nat → Bool)

/-- The call has the untyped result. A report, like an untyped map, is returned as it is. -/
def serve (call result : Nat) : CallPhase := if typed call then .projecting result else .returned result

def step (s : KeyCache) : CacheEvent → Option KeyCache
  | .lookup call =>
    match s.calls call with
    | .idle =>
      let s := { s with found := Function.update s.found call s.stored }
      match s.entry with
      | none => some (s.go call .missed)
      | some result =>
        if s.holders result ≠ ∅ then some ((s.hold result call).go call (serve typed call result))
        else some (s.go call (.removing none))
    | _ => none
  | .removeDead call =>
    match s.calls call with
    -- Whatever is stored by now.
    | .removing none => some ({ s with entry := none }.go call .missed)
    | .removing (some gate) => some ({ s with entry := none }.go call (.computing gate))
    | _ => none
  | .getGate call =>
    match s.calls call with
    | .missed =>
      match s.gate with
      | some gate => some (s.go call (.waiting gate))
      | none => some ({ s with gate := some s.nextGate, nextGate := s.nextGate + 1 }.go call (.waiting s.nextGate))
    | _ => none
  | .acquire call =>
    match s.calls call with
    | .waiting gate =>
      if s.locked gate then none
      else some ({ s with locked := Function.update s.locked gate true }.go call (.rechecking gate))
    | _ => none
  | .recheck call =>
    match s.calls call with
    | .rechecking gate =>
      match s.entry with
      | none => some (s.go call (.computing gate))
      | some result =>
        if s.holders result ≠ ∅ then some ((s.hold result call).go call (.releasing gate result))
        else some (s.go call (.removing (some gate)))
    | _ => none
  | .compute call =>
    match s.calls call with
    | .computing gate =>
      some (({ s with nextResult := s.nextResult + 1 }.hold s.nextResult call).go call (.inserting gate s.nextResult))
    | _ => none
  | .insert call =>
    match s.calls call with
    | .inserting gate result => some ({ s with entry := some result }.go call (.ungating gate result))
    | _ => none
  | .removeGate call =>
    match s.calls call with
    | .ungating gate result => some ({ s with gate := none }.go call (.releasing gate result))
    | _ => none
  | .release call =>
    match s.calls call with
    | .releasing gate result =>
      some ({ s with locked := Function.update s.locked gate false }.go call (serve typed call result))
    | _ => none
  | .project call =>
    match s.calls call with
    | .projecting result =>
      match s.stored with
      | some other => some (((s.letGo result call).hold other call).go call (.returned other))
      | none => some (s.go call (.reinserting result))
    | _ => none
  | .reinsert call =>
    match s.calls call with
    | .reinserting result => some ({ s with entry := some result }.go call (.reprojecting result))
    | _ => none
  | .reproject call =>
    match s.calls call with
    | .reprojecting result =>
      match s.stored with
      | some other => some (((s.letGo result call).hold other call).go call (.returned other))
      | none => some (s.go call (.returned result))
    | _ => none
  | .drop call =>
    match s.calls call with
    | .returned result => some ((s.letGo result call).go call .dropped)
    | _ => none
  | .sweep => some { s with entry := s.stored }

/-! ### What the gates are for -/

/-- At most one live result is stored or being computed, and a call that starts while one is stored returns it. -/
structure OneLive (s : KeyCache) : Prop where
  one : ∀ call other, (s.calls call).computes = true → (s.calls other).computes = true → call = other
  either : ∀ call, (s.calls call).computes = true → s.stored = none
  hit : ∀ call result other, s.found call = some result → s.calls call = .returned other → other = result

/-- The stored result dies only while all calls at a gate are at that of the table, and no entry is removed that
is live by then. -/
def Undisturbed (s : KeyCache) : CacheEvent → Prop
  | .drop call => ∀ result, s.calls call = .returned result → s.entry = some result → s.holders result = {call} →
    ∀ other gate, (s.calls other).gate = some gate → s.gate = some gate
  | .removeDead _ => s.stored = none
  | _ => True

/-! ### What the calls go by -/

/-- What a call in a phase can count on of what it shares with the others. -/
structure CallOk (s : KeyCache) (call : Nat) (phase : CallPhase) : Prop where
  locked : ∀ gate, phase.locks = some gate → s.locked gate = true
  together : s.stored = none → ∀ gate, phase.gate = some gate → s.gate = some gate
  computes : phase.computes = true → s.stored = none
  served : ∀ result, phase.serves = some result → s.entry = some result
  direct : ∀ result, phase ≠ .reinserting result ∧ phase ≠ .reprojecting result
  found : ∀ result, s.found call = some result →
    phase = .projecting result ∨ phase = .returned result ∨ phase = .dropped

structure Inv (s : KeyCache) : Prop where
  ok : ∀ call, CallOk s call (s.calls call)
  exclusive : ∀ call other gate, (s.calls call).locks = some gate → (s.calls other).locks = some gate → call = other
  holders : ∀ result call, call ∈ s.holders result ↔ (s.calls call).result = some result
  fresh : ∀ result, s.entry = some result → result < s.nextResult
  unmade : ∀ result, s.nextResult ≤ result → s.holders result = ∅

variable {s t : KeyCache} {typed : Nat → Bool} {call : Nat} {phase : CallPhase}

theorem stored_eq_some {result : Nat} : s.stored = some result ↔ s.entry = some result ∧ s.holders result ≠ ∅ := by
  simp [stored, Option.filter_eq_some_iff]

theorem stored_of_entry {result : Nat} (entry : s.entry = some result) (dead : s.holders result = ∅) :
    s.stored = none := by
  simp [stored, entry, dead]

theorem locks_gate {gate : Nat} (locks : phase.locks = some gate) : phase.gate = some gate := by
  cases phase with
  | waiting _ => cases locks
  | _ => exact locks

theorem computes_locks (computes : phase.computes = true) : ∃ gate, phase.locks = some gate := by
  cases phase with
  | computing gate => exact ⟨gate, rfl⟩
  | inserting gate _ => exact ⟨gate, rfl⟩
  | _ => cases computes

theorem serves_result {result : Nat} (serves : phase.serves = some result) : phase.result = some result := by
  cases phase with
  | ungating _ _ => exact serves
  | releasing _ _ => exact serves
  | projecting _ => exact serves
  | _ => cases serves

namespace Inv

/-- Who computes has the gate of the table, and no one else has. -/
theorem one (inv : Inv s) {other : Nat} (computes : (s.calls call).computes = true)
    (computes' : (s.calls other).computes = true) : call = other := by
  have none := (inv.ok call).computes computes
  obtain ⟨gate, locks⟩ := computes_locks computes
  obtain ⟨gate', locks'⟩ := computes_locks computes'
  have here := (inv.ok call).together none gate (locks_gate locks)
  have there := (inv.ok other).together none gate' (locks_gate locks')
  obtain rfl := Option.some.inj (here.symm.trans there)
  exact inv.exclusive call other gate locks locks'

theorem oneLive (inv : Inv s) : OneLive s where
  one _ _ computes computes' := inv.one computes computes'
  either call computes := (inv.ok call).computes computes
  hit call result other found returned := by
    rcases (inv.ok call).found result found with projecting | same | dropped
    · rw [projecting] at returned
      cases returned
    · rw [same] at returned
      exact (CallPhase.returned.inj returned).symm
    · rw [dropped] at returned
      cases returned

/-- A result on its way out is the stored one. -/
theorem stored_of_serves (inv : Inv s) {result : Nat} (serves : (s.calls call).serves = some result) :
    s.stored = some result := by
  refine stored_eq_some.mpr ⟨(inv.ok call).served result serves, fun none => ?_⟩
  have holder := (inv.holders result call).mpr (serves_result serves)
  rw [none] at holder
  exact absurd holder (Finset.notMem_empty _)

end Inv

/-! ### One step -/

theorem CallOk.frame (ok : CallOk s call phase) (entry : t.entry = s.entry) (stored : t.stored = s.stored)
    (gate : t.gate = s.gate)
    (locked : ∀ gate, phase.locks = some gate → s.locked gate = true → t.locked gate = true)
    (found : t.found call = s.found call) : CallOk t call phase where
  locked gate locks := locked gate locks (ok.locked gate locks)
  together none other at_gate := gate ▸ ok.together (stored ▸ none) other at_gate
  computes computes := stored ▸ ok.computes computes
  served result serves := entry ▸ ok.served result serves
  direct := ok.direct
  found result hit := ok.found result (found ▸ hit)

/-- A call goes on to another phase. -/
theorem Inv.update (inv : Inv s) (calls : t.calls = Function.update s.calls call phase)
    (others : ∀ other, other ≠ call → CallOk t other (s.calls other)) (own : CallOk t call phase)
    (alone : ∀ gate, phase.locks = some gate → ∀ other, other ≠ call → (s.calls other).locks ≠ some gate)
    (holders : ∀ result other, other ∈ t.holders result ↔
      if other = call then phase.result = some result else other ∈ s.holders result)
    (fresh : ∀ result, t.entry = some result → result < t.nextResult)
    (unmade : ∀ result, t.nextResult ≤ result → t.holders result = ∅) : Inv t where
  ok other := by
    rw [calls]
    by_cases here : other = call
    · rw [here, Function.update_self]
      exact own
    · rw [Function.update_of_ne here]
      exact others other here
  exclusive one other gate locks locks' := by
    rw [calls] at locks locks'
    by_cases first : one = call
    · by_cases second : other = call
      · exact first.trans second.symm
      · rw [first, Function.update_self] at locks
        rw [Function.update_of_ne second] at locks'
        exact absurd locks' (alone gate locks other second)
    · rw [Function.update_of_ne first] at locks
      by_cases second : other = call
      · rw [second, Function.update_self] at locks'
        exact absurd locks (alone gate locks' one first)
      · rw [Function.update_of_ne second] at locks'
        exact inv.exclusive one other gate locks locks'
  holders result other := by
    rw [holders, calls]
    by_cases here : other = call
    · rw [if_pos here, here, Function.update_self]
    · rw [if_neg here, Function.update_of_ne here]
      exact inv.holders result other
  fresh := fresh
  unmade := unmade

theorem Inv.alone (inv : Inv s) (keeps : ∀ gate, phase.locks = some gate → (s.calls call).locks = some gate) :
    ∀ gate, phase.locks = some gate → ∀ other, other ≠ call → (s.calls other).locks ≠ some gate :=
  fun gate locks other apart locks' => apart (inv.exclusive other call gate locks' (keeps gate locks))

/-- The call has no strong reference before and after. -/
theorem Inv.holders_none (inv : Inv s) (before : (s.calls call).result = none) (after : phase.result = none)
    (result other : Nat) :
    other ∈ s.holders result ↔ if other = call then phase.result = some result else other ∈ s.holders result := by
  by_cases here : other = call
  · rw [if_pos here, here, inv.holders, before, after]
  · rw [if_neg here]

theorem Inv.holders_same (inv : Inv s) (same : phase.result = (s.calls call).result) (result other : Nat) :
    other ∈ s.holders result ↔ if other = call then phase.result = some result else other ∈ s.holders result := by
  by_cases here : other = call
  · rw [if_pos here, here, inv.holders, same]
  · rw [if_neg here]

/-- The call takes a strong reference. -/
theorem Inv.holders_hold (inv : Inv s) {held : Nat} (before : (s.calls call).result = none)
    (after : phase.result = some held) (result other : Nat) : other ∈ (s.hold held call).holders result ↔
      if other = call then phase.result = some result else other ∈ s.holders result := by
  unfold hold
  by_cases same : result = held
  · subst same
    by_cases here : other = call
    · simp [here, after]
    · simp [here]
  · by_cases here : other = call
    · subst here
      simp [same, after, inv.holders, before, Ne.symm same]
    · simp [same, here]

theorem stored_hold {held : Nat} (entry : s.entry = some held) (live : s.holders held ≠ ∅) :
    (s.hold held call).stored = s.stored := by
  have before : s.stored = some held := stored_eq_some.mpr ⟨entry, live⟩
  rw [before]
  exact stored_eq_some.mpr ⟨entry, by simp [hold]⟩

theorem Inv.unmade_hold (inv : Inv s) {held : Nat} (made : held < s.nextResult) (result : Nat)
    (later : s.nextResult ≤ result) : (s.hold held call).holders result = ∅ := by
  have apart : result ≠ held := by omega
  show Function.update s.holders held _ result = ∅
  rw [Function.update_of_ne apart]
  exact inv.unmade result later

/-- A step that leaves what is shared as it is. -/
theorem Inv.go_of (inv : Inv s) (own : CallOk s call phase)
    (keeps : ∀ gate, phase.locks = some gate → (s.calls call).locks = some gate)
    (same : phase.result = (s.calls call).result) : Inv (s.go call phase) :=
  inv.update rfl (fun other _ => (inv.ok other).frame rfl rfl rfl (fun _ _ => id) rfl)
    (own.frame rfl rfl rfl (fun _ _ => id) rfl) (inv.alone keeps) (inv.holders_same same) inv.fresh inv.unmade

/-- A call that has no gate and no result. -/
theorem callOk_out (locks : phase.locks = none) (gate : phase.gate = none) (computes : phase.computes = false)
    (serves : phase.serves = none) (direct : ∀ result, phase ≠ .reinserting result ∧ phase ≠ .reprojecting result)
    (found : ∀ result, s.found call = some result →
      phase = .projecting result ∨ phase = .returned result ∨ phase = .dropped) : CallOk s call phase where
  locked _ at_gate := by
    rw [locks] at at_gate
    cases at_gate
  together _ _ at_gate := by
    rw [gate] at at_gate
    cases at_gate
  computes computing := by
    rw [computes] at computing
    cases computing
  served _ serving := by
    rw [serves] at serving
    cases serving
  direct := direct
  found := found

theorem serve_cases (typed : Nat → Bool) (call result : Nat) :
    serve typed call result = .projecting result ∨ serve typed call result = .returned result := by
  unfold serve
  cases typed call with
  | true => exact .inl rfl
  | false => exact .inr rfl

/-- A call with the stored result. -/
theorem callOk_serve {result : Nat} (entry : s.entry = some result)
    (found : ∀ other, s.found call = some other → other = result) : CallOk s call (serve typed call result) := by
  rcases serve_cases typed call result with same | same
  · rw [same]
    refine ⟨fun _ none => (by cases none), fun _ _ none => (by cases none), fun none => (by cases none),
      fun other serves => ?_, fun _ => ⟨nofun, nofun⟩, fun other hit => .inl (by rw [found other hit])⟩
    cases serves
    exact entry
  · rw [same]
    exact callOk_out rfl rfl rfl rfl (fun _ => ⟨nofun, nofun⟩) fun other hit => .inr (.inl (by rw [found other hit]))

theorem serve_facts (typed : Nat → Bool) (call result : Nat) :
    (serve typed call result).locks = none ∧ (serve typed call result).result = some result := by
  rcases serve_cases typed call result with same | same
  · rw [same]
    exact ⟨rfl, rfl⟩
  · rw [same]
    exact ⟨rfl, rfl⟩

/-- A call on its way has not found a live result at its start. -/
theorem CallOk.unfound (ok : CallOk s call phase) {result : Nat} (found : s.found call = some result)
    (early : ∀ result, phase ≠ .projecting result ∧ phase ≠ .returned result) (kept : phase ≠ .dropped) : False := by
  rcases ok.found result found with projecting | returned | dropped
  · exact (early result).1 projecting
  · exact (early result).2 returned
  · exact kept dropped

/-- A call that starts while no live result is stored. -/
theorem Inv.started (inv : Inv s) (idle : s.calls call = .idle) (dead : s.stored = none) (locks : phase.locks = none)
    (gate : phase.gate = none) (computes : phase.computes = false) (serves : phase.serves = none)
    (result : phase.result = none)
    (direct : ∀ result, phase ≠ .reinserting result ∧ phase ≠ .reprojecting result) :
    Inv (KeyCache.go { s with found := Function.update s.found call s.stored } call phase) := by
  refine inv.update rfl
    (fun other apart => (inv.ok other).frame rfl rfl rfl (fun _ _ => id) (Function.update_of_ne apart _ _))
    (callOk_out locks gate computes serves direct fun other hit => ?_) (fun _ at_gate => ?_)
    (inv.holders_none (by rw [idle]; rfl) result) inv.fresh inv.unmade
  · have found : Function.update s.found call s.stored call = some other := hit
    rw [Function.update_self, dead] at found
    cases found
  · rw [locks] at at_gate
    cases at_gate

theorem inv_lookup (inv : Inv s) (stepped : step typed s (.lookup call) = some t) : Inv t := by
  simp only [step] at stepped
  split at stepped
  · next idle =>
    split at stepped
    · next entry =>
      cases stepped
      exact inv.started idle (by simp [stored, entry]) rfl rfl rfl rfl rfl fun _ => ⟨nofun, nofun⟩
    · next result entry =>
      split at stepped
      · next live =>
        cases stepped
        obtain ⟨locks, holds⟩ := serve_facts typed call result
        refine inv.update rfl (fun other apart => (inv.ok other).frame rfl (stored_hold entry live) rfl (fun _ _ => id)
          (Function.update_of_ne apart _ _)) (callOk_serve entry fun other hit => ?_) (fun _ at_gate => ?_)
          (inv.holders_hold (by rw [idle]; rfl) holds) inv.fresh (inv.unmade_hold (inv.fresh result entry))
        · have found : Function.update s.found call s.stored call = some other := hit
          rw [Function.update_self, stored_eq_some.mpr ⟨entry, live⟩] at found
          exact (Option.some.inj found).symm
        · rw [locks] at at_gate
          cases at_gate
      · next dead =>
        cases stepped
        exact inv.started idle (stored_of_entry entry (not_not.mp dead)) rfl rfl rfl rfl rfl fun _ => ⟨nofun, nofun⟩
  · cases stepped

theorem inv_removeDead (inv : Inv s) (none : s.stored = none)
    (stepped : step typed s (.removeDead call) = some t) : Inv t := by
  have others : ∀ other, CallOk { s with entry := Option.none } other (s.calls other) := by
    intro other
    have ok := inv.ok other
    refine ⟨ok.locked, fun _ => ok.together none, fun _ => rfl, fun result serves => ?_, ok.direct, ok.found⟩
    rw [inv.stored_of_serves serves] at none
    cases none
  simp only [step] at stepped
  split at stepped
  · next removing =>
    cases stepped
    have ok := inv.ok call
    rw [removing] at ok
    refine inv.update rfl (fun other _ => (others other).frame rfl rfl rfl (fun _ _ => id) rfl)
      (callOk_out rfl rfl rfl rfl (fun _ => ⟨nofun, nofun⟩) ?_) nofun
      (inv.holders_none (by rw [removing]; rfl) rfl) nofun inv.unmade
    intro result found
    exact (ok.unfound found (fun _ => ⟨nofun, nofun⟩) nofun).elim
  · next gate removing =>
    cases stepped
    have ok := inv.ok call
    rw [removing] at ok
    refine inv.update rfl (fun other _ => (others other).frame rfl rfl rfl (fun _ _ => id) rfl)
      ⟨ok.locked, fun _ => ok.together none, fun _ => rfl, nofun, fun _ => ⟨nofun, nofun⟩, fun result found => ?_⟩
      (inv.alone (by rw [removing]; exact fun _ => id)) (inv.holders_none (by rw [removing]; rfl) rfl) nofun inv.unmade
    exact (ok.unfound found (fun _ => ⟨nofun, nofun⟩) nofun).elim
  · cases stepped

theorem inv_getGate (inv : Inv s) (stepped : step typed s (.getGate call) = some t) : Inv t := by
  simp only [step] at stepped
  split at stepped
  · next missed =>
    have ok := inv.ok call
    rw [missed] at ok
    split at stepped
    · next gate at_table =>
      cases stepped
      refine inv.go_of ⟨nofun, fun _ other same => ?_, nofun, nofun, fun _ => ⟨nofun, nofun⟩,
        fun _ found => (ok.unfound found (fun _ => ⟨nofun, nofun⟩) nofun).elim⟩ nofun (by rw [missed]; rfl)
      cases same
      exact at_table
    · next no_gate =>
      cases stepped
      refine inv.update rfl (fun other _ => ?_) ⟨nofun, fun _ gate same => ?_, nofun, nofun,
        fun _ => ⟨nofun, nofun⟩, fun _ found => (ok.unfound found (fun _ => ⟨nofun, nofun⟩) nofun).elim⟩ nofun
        (inv.holders_none (by rw [missed]; rfl) rfl) inv.fresh inv.unmade
      · have ok := inv.ok other
        refine ⟨ok.locked, fun dead gate at_gate => ?_, ok.computes, ok.served, ok.direct, ok.found⟩
        -- While no result is live whoever is at a gate is at that of the table, and there is none.
        have at_table := ok.together dead gate at_gate
        rw [no_gate] at at_table
        cases at_table
      · cases same
        rfl
  · cases stepped

theorem inv_acquire (inv : Inv s) (stepped : step typed s (.acquire call) = some t) : Inv t := by
  simp only [step] at stepped
  split at stepped
  · next gate waiting =>
    split at stepped
    · cases stepped
    · next free =>
      cases stepped
      have ok := inv.ok call
      rw [waiting] at ok
      have grown : ∀ other, s.locked other = true → Function.update s.locked gate true other = true := by
        intro other locked
        by_cases here : other = gate
        · rw [here, Function.update_self]
        · rw [Function.update_of_ne here]
          exact locked
      refine inv.update rfl (fun other _ => (inv.ok other).frame rfl rfl rfl (fun gate _ => grown gate) rfl)
        ⟨fun other same => ?_, ok.together, nofun, nofun, fun _ => ⟨nofun, nofun⟩, fun result found => ?_⟩
        (fun other same one _ locks => ?_) (inv.holders_none (by rw [waiting]; rfl) rfl) inv.fresh inv.unmade
      · cases same
        exact Function.update_self _ _ _
      · exact (ok.unfound found (fun _ => ⟨nofun, nofun⟩) nofun).elim
      · cases same
        exact free ((inv.ok one).locked gate locks)
  · cases stepped

theorem inv_recheck (inv : Inv s) (stepped : step typed s (.recheck call) = some t) : Inv t := by
  simp only [step] at stepped
  split at stepped
  · next gate rechecking =>
    have ok := inv.ok call
    rw [rechecking] at ok
    split at stepped
    · next entry =>
      cases stepped
      exact inv.go_of ⟨ok.locked, ok.together, fun _ => by simp [stored, entry], nofun, fun _ => ⟨nofun, nofun⟩,
        fun _ found => (ok.unfound found (fun _ => ⟨nofun, nofun⟩) nofun).elim⟩ (by rw [rechecking]; exact fun _ => id)
        (by rw [rechecking]; rfl)
    · next result entry =>
      split at stepped
      · next live =>
        cases stepped
        have same := @stored_hold s call result entry live
        refine inv.update rfl (fun other _ => (inv.ok other).frame rfl same rfl (fun _ _ => id) rfl)
          ⟨ok.locked, fun dead => ok.together (same ▸ dead), nofun, fun other serves => ?_, fun _ => ⟨nofun, nofun⟩,
            fun _ found => (ok.unfound found (fun _ => ⟨nofun, nofun⟩) nofun).elim⟩
          (inv.alone (by rw [rechecking]; exact fun _ => id))
          (inv.holders_hold (by rw [rechecking]; rfl) rfl) inv.fresh (inv.unmade_hold (inv.fresh result entry))
        cases serves
        exact entry
      · next dead =>
        cases stepped
        exact inv.go_of ⟨ok.locked, ok.together, nofun, nofun, fun _ => ⟨nofun, nofun⟩,
          fun _ found => (ok.unfound found (fun _ => ⟨nofun, nofun⟩) nofun).elim⟩
          (by rw [rechecking]; exact fun _ => id)
          (by rw [rechecking]; rfl)
  · cases stepped

theorem inv_compute (inv : Inv s) (stepped : step typed s (.compute call) = some t) : Inv t := by
  simp only [step] at stepped
  split at stepped
  · next gate computing =>
    cases stepped
    have ok := inv.ok call
    rw [computing] at ok
    have same : ({ s with nextResult := s.nextResult + 1 }.hold s.nextResult call).stored = s.stored := by
      cases entry : s.entry with
      | none => simp [stored, hold, entry]
      | some result =>
        have made := inv.fresh result entry
        have apart : result ≠ s.nextResult := by omega
        simp [stored, hold, entry, Option.filter_some, Function.update_of_ne apart]
    refine inv.update rfl (fun other _ => (inv.ok other).frame rfl same rfl (fun _ _ => id) rfl)
      ⟨ok.locked, fun dead => ok.together (same ▸ dead), fun _ => same.trans (ok.computes rfl), nofun,
        fun _ => ⟨nofun, nofun⟩, fun result found => ?_⟩ (inv.alone (by rw [computing]; exact fun _ => id))
      (inv.holders_hold (by rw [computing]; rfl) rfl) (fun result entry => ?_) fun result later => ?_
    · exact (ok.unfound found (fun _ => ⟨nofun, nofun⟩) nofun).elim
    · exact Nat.lt_succ_of_lt (inv.fresh result entry)
    · have beyond : s.nextResult + 1 ≤ result := later
      have apart : result ≠ s.nextResult := by omega
      show Function.update s.holders s.nextResult _ result = ∅
      rw [Function.update_of_ne apart]
      exact inv.unmade result (by omega)
  · cases stepped

theorem inv_insert (inv : Inv s) (stepped : step typed s (.insert call) = some t) : Inv t := by
  simp only [step] at stepped
  split at stepped
  · next gate result inserting =>
    cases stepped
    have ok := inv.ok call
    rw [inserting] at ok
    have none := ok.computes rfl
    have holder : call ∈ s.holders result := (inv.holders result call).mpr (by rw [inserting]; rfl)
    have live : s.holders result ≠ ∅ := Finset.ne_empty_of_mem holder
    have now : ({ s with entry := some result } : KeyCache).stored = some result := stored_eq_some.mpr ⟨rfl, live⟩
    have computes : (s.calls call).computes = true := by rw [inserting]; rfl
    refine inv.update rfl (fun other apart => ?_) ⟨ok.locked, fun dead => ?_, nofun, fun other serves => ?_,
      fun _ => ⟨nofun, nofun⟩, fun other found => ?_⟩ (inv.alone (by rw [inserting]; exact fun _ => id))
      (inv.holders_same (by rw [inserting]; rfl)) (fun other entry => ?_) inv.unmade
    · have ok := inv.ok other
      refine ⟨ok.locked, fun dead => ?_, fun computes' => ?_, fun served serves => ?_, ok.direct, ok.found⟩
      · exact absurd (now.symm.trans dead) nofun
      · exact absurd (inv.one computes' computes) apart
      · have stored := inv.stored_of_serves serves
        rw [none] at stored
        cases stored
    · exact absurd (now.symm.trans dead) nofun
    · cases serves
      rfl
    · exact (ok.unfound found (fun _ => ⟨nofun, nofun⟩) nofun).elim
    · cases entry
      refine Nat.lt_of_not_le fun later => live ?_
      exact inv.unmade result later
  · cases stepped

theorem inv_removeGate (inv : Inv s) (stepped : step typed s (.removeGate call) = some t) : Inv t := by
  simp only [step] at stepped
  split at stepped
  · next gate result ungating =>
    cases stepped
    have ok := inv.ok call
    rw [ungating] at ok
    have now : s.stored = some result := inv.stored_of_serves (by rw [ungating]; rfl)
    -- With a live result stored, no call has to be at the gate of the table.
    refine inv.update rfl (fun other _ => ?_) ⟨ok.locked, fun dead => ?_, nofun, ok.served,
      fun _ => ⟨nofun, nofun⟩, fun other found => ?_⟩ (inv.alone (by rw [ungating]; exact fun _ => id))
      (inv.holders_same (by rw [ungating]; rfl)) inv.fresh inv.unmade
    · have ok := inv.ok other
      exact ⟨ok.locked, fun dead => absurd (now.symm.trans dead) nofun, ok.computes, ok.served, ok.direct, ok.found⟩
    · exact absurd (now.symm.trans dead) nofun
    · exact (ok.unfound found (fun _ => ⟨nofun, nofun⟩) nofun).elim
  · cases stepped

theorem inv_release (inv : Inv s) (stepped : step typed s (.release call) = some t) : Inv t := by
  simp only [step] at stepped
  split at stepped
  · next gate result releasing =>
    cases stepped
    have ok := inv.ok call
    rw [releasing] at ok
    obtain ⟨locks, holds⟩ := serve_facts typed call result
    refine inv.update rfl (fun other apart => (inv.ok other).frame rfl rfl rfl (fun at_gate locks' locked => ?_) rfl)
      (callOk_serve (ok.served result rfl) fun other found => ?_) (fun at_gate none => ?_)
      (inv.holders_same (by rw [releasing, holds]; rfl)) inv.fresh inv.unmade
    · have other_gate : at_gate ≠ gate := by
        rintro rfl
        exact apart (inv.exclusive other call at_gate locks' (by rw [releasing]; rfl))
      show Function.update s.locked gate false at_gate = true
      rw [Function.update_of_ne other_gate]
      exact locked
    · exact (ok.unfound found (fun _ => ⟨nofun, nofun⟩) nofun).elim
    · rw [locks] at none
      cases none
  · cases stepped

theorem inv_project (inv : Inv s) (stepped : step typed s (.project call) = some t) : Inv t := by
  simp only [step] at stepped
  split at stepped
  · next result projecting =>
    have now : s.stored = some result := inv.stored_of_serves (by rw [projecting]; rfl)
    rw [now] at stepped
    cases stepped
    have holder : call ∈ s.holders result := (inv.holders result call).mpr (by rw [projecting]; rfl)
    have same : ((s.letGo result call).hold result call).holders = s.holders := by
      unfold hold letGo
      simp only [Function.update_self, Function.update_idem, Finset.insert_erase holder, Function.update_eq_self]
    have kept : ((s.letGo result call).hold result call).stored = s.stored := by
      unfold stored
      rw [same]
      rfl
    refine inv.update rfl (fun other _ => (inv.ok other).frame rfl kept rfl (fun _ _ => id) rfl)
      (callOk_out rfl rfl rfl rfl (fun _ => ⟨nofun, nofun⟩) fun other found => ?_) nofun (fun other one => ?_)
      inv.fresh (fun other later => ?_)
    · rcases (inv.ok call).found other found with here | here | here
      · rw [projecting] at here
        cases here
        exact .inr (.inl rfl)
      · rw [projecting] at here
        cases here
      · rw [projecting] at here
        cases here
    · show one ∈ ((s.letGo result call).hold result call).holders other ↔ _
      rw [same]
      exact inv.holders_same (by rw [projecting]; rfl) other one
    · show ((s.letGo result call).hold result call).holders other = ∅
      rw [same]
      exact inv.unmade other later
  · cases stepped

theorem stored_letGo {result : Nat} : (s.letGo result call).stored = s.stored ∨
    (s.letGo result call).stored = none ∧ s.entry = some result ∧ s.holders result = {call} := by
  cases entry : s.entry with
  | none => exact .inl (by simp [stored, letGo, entry])
  | some other =>
    by_cases here : other = result
    · subst here
      by_cases last : (s.holders other).erase call = ∅
      · rcases (Finset.erase_eq_empty_iff _ _).mp last with empty | only
        · exact .inl (by simp [stored, letGo, entry, Option.filter_some, empty])
        · exact .inr ⟨by simp [stored, letGo, entry, Option.filter_some, last], rfl, only⟩
      · have live : s.holders other ≠ ∅ := fun empty => last (by rw [empty]; rfl)
        exact .inl (by simp [stored, letGo, entry, Option.filter_some, last, live])
    · exact .inl (by simp [stored, letGo, entry, Option.filter_some, Function.update_of_ne here])

theorem inv_drop (inv : Inv s) (undisturbed : Undisturbed s (.drop call))
    (stepped : step typed s (.drop call) = some t) : Inv t := by
  simp only [step] at stepped
  split at stepped
  · next result returned =>
    cases stepped
    refine inv.update rfl (fun other apart => ?_)
      (callOk_out rfl rfl rfl rfl (fun _ => ⟨nofun, nofun⟩) fun _ _ => .inr (.inr rfl)) nofun (fun at_result one => ?_)
      inv.fresh (fun at_result later => ?_)
    · have ok := inv.ok other
      rcases stored_letGo with same | ⟨dead, entry, last⟩
      · exact ok.frame rfl same rfl (fun _ _ => id) rfl
      · refine ⟨ok.locked, fun _ gate at_gate => ?_, fun _ => dead, ok.served, ok.direct, ok.found⟩
        exact undisturbed result returned entry last other gate at_gate
    · show one ∈ Function.update s.holders result ((s.holders result).erase call) at_result ↔
        if one = call then none = some at_result else one ∈ s.holders at_result
      by_cases here : at_result = result
      · subst here
        by_cases mine : one = call
        · simp [mine]
        · simp [mine]
      · by_cases mine : one = call
        · subst mine
          simp [here, inv.holders, returned, CallPhase.result, Ne.symm here]
        · simp [here, mine]
    · show Function.update s.holders result _ at_result = ∅
      by_cases here : at_result = result
      · subst here
        rw [Function.update_self, inv.unmade at_result later]
        rfl
      · rw [Function.update_of_ne here]
        exact inv.unmade at_result later
  · cases stepped

theorem inv_sweep (inv : Inv s) : Inv { s with entry := s.stored } := by
  have swept : ({ s with entry := s.stored } : KeyCache).stored = s.stored := by
    show Option.filter _ s.stored = s.stored
    unfold stored
    rw [Option.filter_filter]
    simp
  refine ⟨fun call => ?_, inv.exclusive, inv.holders, fun result entry => ?_, inv.unmade⟩
  · have ok := inv.ok call
    exact ⟨ok.locked, fun dead => ok.together (swept ▸ dead), fun computes => swept.trans (ok.computes computes),
      fun result serves => inv.stored_of_serves serves, ok.direct, ok.found⟩
  · exact inv.fresh result (stored_eq_some.mp entry).1

theorem inv_start : Inv start where
  ok call := callOk_out rfl rfl rfl rfl (fun _ => ⟨nofun, nofun⟩) nofun
  exclusive := nofun
  holders result call := by simp [start, CallPhase.result]
  fresh := nofun
  unmade _ _ := rfl

theorem inv_step {event : CacheEvent} (inv : Inv s) (undisturbed : Undisturbed s event)
    (stepped : step typed s event = some t) : Inv t := by
  cases event with
  | lookup call => exact inv_lookup inv stepped
  | removeDead call => exact inv_removeDead inv undisturbed stepped
  | getGate call => exact inv_getGate inv stepped
  | acquire call => exact inv_acquire inv stepped
  | recheck call => exact inv_recheck inv stepped
  | compute call => exact inv_compute inv stepped
  | insert call => exact inv_insert inv stepped
  | removeGate call => exact inv_removeGate inv stepped
  | release call => exact inv_release inv stepped
  | project call => exact inv_project inv stepped
  | reinsert call =>
    simp only [step] at stepped
    split at stepped
    · next result reinserting => exact absurd reinserting ((inv.ok call).direct result).1
    · cases stepped
  | reproject call =>
    simp only [step] at stepped
    split at stepped
    · next result reprojecting => exact absurd reprojecting ((inv.ok call).direct result).2
    · cases stepped
  | drop call => exact inv_drop inv undisturbed stepped
  | sweep =>
    cases stepped
    exact inv_sweep inv

/-- However many calls there are and however their steps interleave. -/
theorem one_live {events : List CacheEvent} (ran : run (step typed) start events = some t)
    (each : Each (step typed) Undisturbed start events) : Always (step typed) OneLive start events :=
  each.always ran inv_start inv_step Inv.oneLive

/-- A second call gets the result of the first, and keeps it when the first drops it. -/
theorem one_live_shared : Always (step fun _ => true) OneLive start
    [.lookup 0, .getGate 0, .acquire 0, .recheck 0, .compute 0, .insert 0, .removeGate 0, .release 0, .project 0,
      .lookup 1, .drop 0, .project 1] := by
  have ran : ∃ t, run (step fun _ => true) start
      [.lookup 0, .getGate 0, .acquire 0, .recheck 0, .compute 0, .insert 0, .removeGate 0, .release 0, .project 0,
        .lookup 1, .drop 0, .project 1] = some t := ⟨_, rfl⟩
  obtain ⟨t, ran⟩ := ran
  refine one_live ran ?_
  refine (each_cons rfl).mpr ⟨trivial, (each_cons rfl).mpr ⟨trivial, (each_cons rfl).mpr ⟨trivial, ?_⟩⟩⟩
  refine (each_cons rfl).mpr ⟨trivial, (each_cons rfl).mpr ⟨trivial, (each_cons rfl).mpr ⟨trivial, ?_⟩⟩⟩
  refine (each_cons rfl).mpr ⟨trivial, (each_cons rfl).mpr ⟨trivial, (each_cons rfl).mpr ⟨trivial, ?_⟩⟩⟩
  refine (each_cons rfl).mpr ⟨trivial, (each_cons rfl).mpr ⟨?_, (each_cons rfl).mpr ⟨trivial, trivial⟩⟩⟩
  rintro result returned - last
  cases returned
  exact absurd last (by decide)

/-- The first call's result dies while the second waits at the gate that is no longer in the table: the second
and a third compute at once. -/
theorem two_compute : ∃ t, run (step fun _ => false) start
    [.lookup 0, .getGate 0, .acquire 0, .lookup 1, .getGate 1, .recheck 0, .compute 0, .insert 0, .removeGate 0,
      .release 0, .drop 0, .acquire 1, .recheck 1, .removeDead 1, .lookup 2, .getGate 2, .acquire 2, .recheck 2] =
        some t ∧ ¬OneLive t := by
  refine ⟨_, rfl, fun live => ?_⟩
  exact absurd (live.one 1 2 rfl rfl) (by decide)

end KeyCache

end Myko.ComputeGate

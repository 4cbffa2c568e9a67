import Myko.Lib.Runs
import Myko.Query.Replica

/-!
When a map watch of the native client is ready. Responses that are malformed, or have a row that does not
decode, are rejected before the sequence advances; readiness follows snapshots and status changes only.
-/

namespace Myko.MapReadiness
open Query Runs

/-- A response of the server as it arrives: whether it parses, and its rows, none for one that does not
decode. -/
structure ArrivedResponse where
  wellFormed : Bool
  tx : String
  sequence : Nat
  deletes : List String
  rows : List (Option Item)

namespace ArrivedResponse

/-- One row that does not decode rejects the whole batch. -/
def decodeRows (rows : List (Option Item)) : Option (List Item) := rows.mapM id

/-- The response as it is read; a map watch reads nothing else of it. -/
def decode (response : ArrivedResponse) : Option QueryResponse :=
  if response.wellFormed then
    (decodeRows response.rows).map fun upserts =>
      { tx := response.tx, sequence := response.sequence, changes := [], upserts, deletes := response.deletes,
        totalCount := none, window := none }
  else none

end ArrivedResponse

/-- The handler of a query map or of a view map. -/
def handleArrived (watch : QueryMapWatch) (response : ArrivedResponse) : QueryMapWatch :=
  match response.decode with
  | some decoded => watch.handle decoded
  | none => watch

/-- What is applied of a response, if it is. -/
def accepted (watch : QueryMapWatch) (response : ArrivedResponse) : Option QueryResponse :=
  response.decode.filter fun decoded =>
    decoded.tx = watch.tx ∧ (watch.sequences.accept decoded.sequence).1 = true

/-- A watch with the responses delivered to it so far, none for each that was rejected, and the number of
the last of them. -/
structure DeliveredMap where
  watch : QueryMapWatch
  log : List (Option QueryResponse)
  last : Option Nat

inductive MapEvent where
  | status
  | deliver (response : ArrivedResponse)

namespace DeliveredMap

def start (tx : String) : DeliveredMap where
  watch := { tx, sequences := ⟨true, 0⟩, map := ∅, ready := false }
  log := []
  last := none

/-- Any change of the connection status starts an epoch. -/
def statusChanged (w : DeliveredMap) : DeliveredMap :=
  { w with watch := { w.watch with
    sequences := { w.watch.sequences with awaitingSnapshot := true }, ready := false } }

/-- The server numbers its snapshots 0 and the increments after one 1, 2 and so on. -/
def InOrder (w : DeliveredMap) (response : ArrivedResponse) : Prop :=
  response.tx = w.watch.tx ∧ response.sequence ≤ lastSequence ∧
    (response.sequence = 0 ∨ w.last.map (· + 1) = some response.sequence)

instance (w : DeliveredMap) (response : ArrivedResponse) : Decidable (w.InOrder response) :=
  inferInstanceAs (Decidable (_ ∧ _ ∧ _))

def step (w : DeliveredMap) : MapEvent → Option DeliveredMap
  | .status => some w.statusChanged
  | .deliver response =>
    if w.InOrder response then
      some
        { watch := handleArrived w.watch response
          log := w.log ++ [accepted w.watch response]
          last := some response.sequence }
    else none

/-- What a response does to the map. -/
def applyMap (map : ItemMap) (response : QueryResponse) : ItemMap :=
  if response.sequence = 0 then OrdMap.insertMany ∅ (decodeMapUpserts response.upserts)
  else applyIncrementalMapUpdate map response.deletes (decodeMapUpserts response.upserts)

def foldRun (run : List QueryResponse) : ItemMap := run.foldl applyMap ∅

/-- A snapshot and the increments right after it. -/
def GapFree (run : List QueryResponse) : Prop :=
  run ≠ [] ∧ run.map QueryResponse.sequence = List.range run.length

/-- The map is the fold of a gap-free run of responses, if one was ever accepted. -/
def Folded (w : DeliveredMap) : Prop :=
  (w.watch.map = ∅ ∧ ∀ entry ∈ w.log, entry = none) ∨
    ∃ earlier run later, w.log = earlier ++ run.map some ++ later ∧ GapFree run ∧ w.watch.map = foldRun run

/-- The map is the fold of all responses since a snapshot, none of which was rejected. -/
def Current (w : DeliveredMap) : Prop :=
  ∃ earlier run, w.log = earlier ++ run.map some ∧ GapFree run ∧ w.watch.map = foldRun run

structure ReadyMeansCurrent (w : DeliveredMap) : Prop where
  folded : w.Folded
  current : w.watch.ready = true → w.Current

/-- A response that arrives while a snapshot is in force can be decoded, and does not have the last number
there is. -/
def Sound (w : DeliveredMap) : MapEvent → Prop
  | .status => True
  | .deliver response => w.watch.sequences.awaitingSnapshot = false →
      response.decode.isSome = true ∧ response.sequence ≠ lastSequence

/-- The sequence state agrees with readiness and, in force, with the run that the map is the fold of. -/
structure Sequenced (w : DeliveredMap) : Prop where
  ready : w.watch.ready = !w.watch.sequences.awaitingSnapshot
  inForce : w.watch.sequences.awaitingSnapshot = false → ∃ earlier run, w.log = earlier ++ run.map some ∧
    GapFree run ∧ w.watch.map = foldRun run ∧ w.watch.sequences.next = run.length ∧
      w.last = some (run.length - 1)

variable {w t : DeliveredMap} {event : MapEvent} {response : ArrivedResponse} {decoded : QueryResponse}

theorem sequenced_start (tx : String) : Sequenced (start tx) := ⟨rfl, nofun⟩

theorem ready_start (tx : String) : ReadyMeansCurrent (start tx) :=
  ⟨.inl ⟨rfl, fun _ among => nomatch among⟩, nofun⟩

/-! ### One response -/

theorem decode_eq (read : response.decode = some decoded) :
    decoded.tx = response.tx ∧ decoded.sequence = response.sequence := by
  unfold ArrivedResponse.decode at read
  obtain ⟨-, read⟩ := Option.ite_none_right_eq_some.mp read
  obtain ⟨upserts, -, rfl⟩ := Option.map_eq_some_iff.mp read
  exact ⟨rfl, rfl⟩

theorem handleArrived_of_accepted (taken : accepted w.watch response = some decoded) :
    response.decode = some decoded ∧ handleArrived w.watch response = w.watch.apply decoded := by
  obtain ⟨read, own⟩ := Option.filter_eq_some_iff.mp taken
  obtain ⟨same, accepts⟩ := of_decide_eq_true own
  refine ⟨read, ?_⟩
  unfold handleArrived QueryMapWatch.handle
  rw [read]
  simp [same, accepts]

theorem handleArrived_of_rejected (rejected : accepted w.watch response = none) :
    handleArrived w.watch response = w.watch := by
  unfold handleArrived
  cases read : response.decode with
  | none => rfl
  | some decoded =>
    have refused : ¬(decoded.tx = w.watch.tx ∧ (w.watch.sequences.accept decoded.sequence).1 = true) := by
      simpa [accepted, read] using rejected
    unfold QueryMapWatch.handle
    dsimp only
    split
    · rfl
    · next own =>
      split
      · next accepts => exact absurd ⟨not_not.mp own, accepts⟩ refused
      · rfl

theorem foldRun_snapshot (snapshot : decoded.sequence = 0) (map : ItemMap) :
    applyMap map decoded = foldRun [decoded] := by
  simp [foldRun, applyMap, snapshot]

theorem gapFree_snapshot (snapshot : decoded.sequence = 0) : GapFree [decoded] :=
  ⟨List.cons_ne_nil _ _, by simp [snapshot, List.range_succ]⟩

theorem GapFree.append {run : List QueryResponse} (gapFree : GapFree run)
    (next : decoded.sequence = run.length) : GapFree (run ++ [decoded]) := by
  refine ⟨List.append_ne_nil_of_right_ne_nil _ (List.cons_ne_nil _ _), ?_⟩
  rw [List.map_append, gapFree.2, List.length_append, List.length_singleton, List.range_succ]
  simp [next]

theorem accept_cases {state : SequenceState} {sequence : Nat} (accepts : (state.accept sequence).1 = true) :
    sequence = 0 ∧ (state.accept sequence).2 = ⟨false, 1⟩ ∨
      state.awaitingSnapshot = false ∧ sequence = state.next ∧
        (state.accept sequence).2 = { state with next := state.next + 1 } := by
  unfold SequenceState.accept at accepts ⊢
  by_cases snapshot : sequence = 0
  · exact .inl ⟨snapshot, by simp [snapshot]⟩
  · rw [if_neg snapshot] at accepts ⊢
    cases awaiting : state.awaitingSnapshot with
    | true => simp [awaiting] at accepts
    | false =>
      by_cases next : sequence = state.next
      · by_cases exhausted : state.next = lastSequence
        · simp [awaiting, next, exhausted] at accepts
        · exact .inr ⟨rfl, next, by simp [next, exhausted]⟩
      · simp [awaiting, next] at accepts

/-- An accepted response starts a run or goes on with the one in force. -/
theorem Sequenced.accept (sequenced : Sequenced w) (taken : accepted w.watch response = some decoded) :
    (w.watch.apply decoded).ready = true ∧ (w.watch.apply decoded).sequences.awaitingSnapshot = false ∧
      ∃ earlier run, w.log ++ [some decoded] = earlier ++ run.map some ∧ GapFree run ∧
        (w.watch.apply decoded).map = foldRun run ∧
          (w.watch.apply decoded).sequences.next = run.length ∧
            some response.sequence = some (run.length - 1) := by
  obtain ⟨read, own⟩ := Option.filter_eq_some_iff.mp taken
  have numbered := (decode_eq read).2
  rw [← numbered]
  rcases accept_cases (of_decide_eq_true own).2 with ⟨snapshot, state⟩ | ⟨inForce, next, state⟩
  · refine ⟨by simp [QueryMapWatch.apply, snapshot], by simp [QueryMapWatch.apply, state], w.log, [decoded], rfl,
      gapFree_snapshot snapshot, foldRun_snapshot snapshot _, by simp [QueryMapWatch.apply, state], ?_⟩
    rw [snapshot]
    rfl
  · obtain ⟨earlier, run, logged, gapFree, folded, counted, -⟩ := sequenced.inForce inForce
    have ready : w.watch.ready = true := by rw [sequenced.ready, inForce]; rfl
    have follows : decoded.sequence = run.length := next.trans counted
    refine ⟨by simp [QueryMapWatch.apply, ready], by simp [QueryMapWatch.apply, state, inForce], earlier,
      run ++ [decoded], by simp [logged], gapFree.append follows, ?_, ?_, by simp [follows]⟩
    · show applyMap w.watch.map decoded = (run ++ [decoded]).foldl applyMap ∅
      rw [List.foldl_append, folded]
      rfl
    · simp [QueryMapWatch.apply, state, counted]

/-- In force, with the last response accepted, the next number of the server is the one expected. -/
theorem Sequenced.expected (sequenced : Sequenced w)
    (inForce : w.watch.sequences.awaitingSnapshot = false) (ordered : w.InOrder response) :
    response.sequence = 0 ∨ response.sequence = w.watch.sequences.next := by
  obtain ⟨-, -, first | next⟩ := ordered
  · exact .inl first
  · obtain ⟨_, run, -, gapFree, -, counted, last⟩ := sequenced.inForce inForce
    rw [last] at next
    have positive := List.length_pos_iff.mpr gapFree.1
    have number : run.length - 1 + 1 = response.sequence := Option.some.inj next
    right
    omega

theorem accepted_of_sound (sequenced : Sequenced w)
    (inForce : w.watch.sequences.awaitingSnapshot = false) (ordered : w.InOrder response)
    (read : response.decode = some decoded) (below : response.sequence ≠ lastSequence) :
    accepted w.watch response = some decoded := by
  obtain ⟨own, numbered⟩ := decode_eq read
  have accepts : (w.watch.sequences.accept decoded.sequence).1 = true := by
    rw [numbered]
    unfold SequenceState.accept
    rcases sequenced.expected inForce ordered with first | next
    · simp [first]
    · split
      · rfl
      · rw [next] at below ⊢
        simp [inForce, below]
  rw [accepted, read]
  simp [own, ordered.1, accepts]

/-- With the last number there is, an increment is refused. -/
theorem rejected_of_last (inForce : w.watch.sequences.awaitingSnapshot = false)
    (last : response.sequence = lastSequence) : accepted w.watch response = none := by
  refine Option.filter_eq_none_iff.mpr fun decoded read taken => ?_
  have accepts := (of_decide_eq_true taken).2
  rw [(decode_eq read).2, last] at accepts
  have positive : lastSequence ≠ 0 := by decide
  unfold SequenceState.accept at accepts
  rw [if_neg positive] at accepts
  by_cases next : lastSequence = w.watch.sequences.next
  · simp [inForce, ← next] at accepts
  · simp [inForce, next] at accepts

/-- After a rejected response the map is not the fold of all that was delivered. -/
theorem not_current_of_rejected (rejected : w.log.getLast? = some none) : ¬ w.Current := by
  rintro ⟨earlier, run, logged, gapFree, -⟩
  rcases List.eq_nil_or_concat' run with rfl | ⟨first, latest, rfl⟩
  · exact gapFree.1 rfl
  · simp [logged, ← List.append_assoc] at rejected

theorem ready_step (sequenced : Sequenced w) (held : ReadyMeansCurrent w) (stepped : w.step event = some t) :
    (ReadyMeansCurrent t ↔ Sound w event) ∧ (ReadyMeansCurrent t → Sequenced t) := by
  cases event with
  | status =>
    obtain rfl := Option.some.inj stepped
    exact ⟨iff_of_true ⟨held.folded, nofun⟩ trivial, fun _ => ⟨rfl, nofun⟩⟩
  | deliver response =>
    obtain ⟨ordered, stepped⟩ := Option.ite_none_right_eq_some.mp stepped
    obtain rfl := Option.some.inj stepped
    cases taken : accepted w.watch response with
    | some decoded =>
      obtain ⟨read, handled⟩ := handleArrived_of_accepted taken
      obtain ⟨ready, inForce, earlier, run, logged, gapFree, folded, counted, last⟩ := sequenced.accept taken
      rw [handled]
      have current : Current ⟨w.watch.apply decoded, w.log ++ [some decoded], some response.sequence⟩ :=
        ⟨earlier, run, logged, gapFree, folded⟩
      refine ⟨iff_of_true ⟨.inr ⟨earlier, run, [], ?_, gapFree, folded⟩, fun _ => current⟩ fun before => ?_,
        fun _ => ⟨by rw [ready, inForce]; rfl, fun _ => ⟨earlier, run, logged, gapFree, folded, counted, last⟩⟩⟩
      · rw [List.append_nil]
        exact logged
      · refine ⟨Option.isSome_of_eq_some read, fun exhausted => ?_⟩
        rw [rejected_of_last before exhausted] at taken
        cases taken
    | none =>
      rw [handleArrived_of_rejected taken]
      cases awaiting : w.watch.sequences.awaitingSnapshot with
      | false =>
        have ready : w.watch.ready = true := by rw [sequenced.ready, awaiting]; rfl
        have stale : ¬ ReadyMeansCurrent ⟨w.watch, w.log ++ [none], some response.sequence⟩ := fun held =>
          not_current_of_rejected List.getLast?_concat (held.current ready)
        refine ⟨iff_of_false stale fun sound => ?_, fun ready => absurd ready stale⟩
        obtain ⟨readable, below⟩ := sound awaiting
        obtain ⟨decoded, read⟩ := Option.isSome_iff_exists.mp readable
        rw [accepted_of_sound sequenced awaiting ordered read below] at taken
        cases taken
      | true =>
        have unready : w.watch.ready = false := by rw [sequenced.ready, awaiting]; rfl
        refine ⟨iff_of_true ⟨?_, fun ready => ?_⟩ fun inForce => ?_, fun _ => ⟨sequenced.ready, fun inForce => ?_⟩⟩
        · rcases held.folded with ⟨empty, none_taken⟩ | ⟨earlier, run, later, logged, gapFree, folded⟩
          · refine .inl ⟨empty, fun entry among => ?_⟩
            rcases List.mem_append.mp among with before | now
            · exact none_taken entry before
            · exact List.mem_singleton.mp now
          · exact .inr ⟨earlier, run, later ++ [none], by simp [logged], gapFree, folded⟩
        · cases unready.symm.trans ready
        · cases awaiting.symm.trans inForce
        · cases awaiting.symm.trans inForce

/-- A watch is ready with what is current in every state of a run just when every response that comes while a
snapshot is in force can be decoded and numbered. -/
theorem ready_iff_sound {tx : String} {events : List MapEvent} (ran : run step (start tx) events = some t) :
    Always step ReadyMeansCurrent (start tx) events ↔ Each step Sound (start tx) events :=
  always_iff_each Sequenced ran (sequenced_start tx) (ready_start tx)
    (fun sequenced held stepped after => (ready_step sequenced held stepped).2 after)
    (fun sequenced held stepped => (ready_step sequenced held stepped).1)

/-! ### A response that is rejected -/

def arrived (wellFormed : Bool) (sequence : Nat) (rows : List (Option Item)) : ArrivedResponse :=
  ⟨wellFormed, "q1", sequence, [], rows⟩

def lampRow : Option Item := some ⟨"Lamp", "l1", []⟩

/-- A snapshot, an increment and a status change, then a malformed snapshot that is sent again. -/
def soundEvents : List MapEvent :=
  [.deliver (arrived true 0 [lampRow]), .deliver (arrived true 1 []), .status, .deliver (arrived false 0 []),
    .deliver (arrived true 0 [])]

theorem ready_iff_sound_lamp : ∃ w, run step (start "q1") soundEvents = some w ∧ w.watch.ready = true ∧
    (Always step ReadyMeansCurrent (start "q1") soundEvents ↔ Each step Sound (start "q1") soundEvents) := by
  have ran : run step (start "q1") soundEvents = some _ := rfl
  exact ⟨_, ran, rfl, ready_iff_sound ran⟩

/-- A row that does not decode rejects an increment, and the watch stays ready. -/
theorem rejected_increment_stays_ready : ∃ w, run step (start "q1")
    [.deliver (arrived true 0 [lampRow]), .deliver (arrived true 1 [none])] = some w ∧
      w.watch.ready = true ∧ ¬ ReadyMeansCurrent w := by
  exact ⟨_, rfl, rfl, fun held => not_current_of_rejected rfl (held.current rfl)⟩

end DeliveredMap

end Myko.MapReadiness

import Myko.Lib.FlatDiff
import Myko.Query.Replica

/-!
Sampled delivery of views: what is pushed within an interval goes out as one frame. A client of the frames comes to
hold what a client of every response holds.
-/

namespace Myko.ViewSampling

open Query OrdMap

/-- A positive rate, by the time between two frames. -/
structure ViewSampleRate where
  interval : Nat
  positive : 0 < interval

inductive ViewDeliveryControl where
  | subscribe (tx : String) (rate : Option ViewSampleRate)
  | setRate (tx : String) (rate : Option ViewSampleRate)
  | cancel (tx : String)

/-- Changes by id: an item that is put, or none for one that is deleted. -/
structure PendingDelta where
  latest : PendingQueryResponse
  changes : OrdMap String (Option Item)

namespace PendingDelta

def merge (self : PendingDelta) (response : PendingQueryResponse) : PendingDelta :=
  let changes := response.deletes.foldl (fun changes id => changes.insert id none) self.changes
  let changes := response.upsertItems.foldl (fun changes item => changes.insert item.id (some item)) changes
  -- A response without a window order keeps one that is queued.
  let windowOrderIds := response.windowOrderIds.or self.latest.windowOrderIds
  { latest := { response with deletes := [], upsertItems := [], windowOrderIds }, changes }

def new (response : PendingQueryResponse) : PendingDelta := merge ⟨response, ∅⟩ response

def addChange (response : PendingQueryResponse) (change : String × Option Item) : PendingQueryResponse :=
  match change.2 with
  | some item => { response with upsertItems := response.upsertItems ++ [item] }
  | none => { response with deletes := response.deletes ++ [change.1] }

def finish (self : PendingDelta) (sequence : Nat) : PendingQueryResponse :=
  self.changes.toList.foldl addChange { self.latest with sequence }

end PendingDelta

structure Subscription where
  rate : Option ViewSampleRate
  nextSequence : Nat
  lastEmit : Nat
  pending : Option PendingDelta

def Subscription.due (self : Subscription) (now : Nat) : Bool :=
  self.pending.isSome && self.lastEmit + (self.rate.map ViewSampleRate.interval).getD 0 ≤ now

structure ViewDelivery where
  subscriptions : String → Option Subscription

namespace ViewDelivery

def new : ViewDelivery := ⟨fun _ => none⟩

def set (self : ViewDelivery) (tx : String) (subscription : Option Subscription) : ViewDelivery :=
  ⟨Function.update self.subscriptions tx subscription⟩

def control (self : ViewDelivery) (control : ViewDeliveryControl) (now : Nat) : ViewDelivery :=
  match control with
  | .subscribe tx rate => self.set tx (some { rate, nextSequence := 0, lastEmit := now, pending := none })
  | .setRate tx rate =>
    match self.subscriptions tx with
    | some subscription => self.set tx (some { subscription with rate })
    | none => self
  | .cancel tx => self.set tx none

def push (self : ViewDelivery) (response : PendingQueryResponse) (now : Nat) :
    Option PendingQueryResponse × ViewDelivery :=
  match self.subscriptions response.tx with
  | none => (none, self)
  | some subscription =>
    if response.sequence = 0 then
      (some response,
        self.set response.tx (some { subscription with pending := none, nextSequence := 1, lastEmit := now }))
    else
      match subscription.rate, subscription.pending with
      | none, none =>
        (some { response with sequence := subscription.nextSequence },
          self.set response.tx (some { subscription with
            nextSequence := nextSequence subscription.nextSequence, lastEmit := now }))
      | _, some pending =>
        (none, self.set response.tx (some { subscription with pending := some (pending.merge response) }))
      | some _, none =>
        (none, self.set response.tx (some { subscription with pending := some (.new response) }))

/-- The first subscription of the map that is due is `found`; a map may come out in any order. -/
def takeDue (self : ViewDelivery) (now : Nat) (found : String) : Option PendingQueryResponse × ViewDelivery :=
  match self.subscriptions found with
  | none => (none, self)
  | some subscription =>
    if subscription.due now then
      match subscription.pending with
      | none => (none, self)
      | some pending =>
        (some (pending.finish subscription.nextSequence),
          self.set found (some { subscription with
            pending := none, nextSequence := nextSequence subscription.nextSequence, lastEmit := now }))
    else (none, self)

end ViewDelivery

inductive DeliveryEvent where
  | control (control : ViewDeliveryControl) (now : Nat)
  | push (response : PendingQueryResponse) (now : Nat)
  | tick (now : Nat) (found : String)

def ViewDelivery.step (self : ViewDelivery) : DeliveryEvent → Option PendingQueryResponse × ViewDelivery
  | .control control now => (none, self.control control now)
  | .push response now => self.push response now
  | .tick now found => self.takeDue now found

def ViewDelivery.run (self : ViewDelivery) (events : List DeliveryEvent) : ViewDelivery :=
  events.foldl (fun delivery event => (delivery.step event).2) self

/-! ### The frames of a subscription and its clients -/

namespace DeliveryEvent

/-- The response pushed for a subscription. -/
def pushed (tx : String) : DeliveryEvent → Option PendingQueryResponse
  | push response _ => if response.tx = tx then some response else none
  | control _ _ | tick _ _ => none

/-- A response that replaces everything is pushed. -/
def replaces : DeliveryEvent → Bool
  | push response _ => response.sequence = 0
  | control _ _ | tick _ _ => false

/-- The subscription stays the same one: it is neither made anew nor cancelled. -/
def Within (tx : String) : DeliveryEvent → Prop
  | control (.subscribe other _) _ | control (.cancel other) _ => other ≠ tx
  | control (.setRate _ _) _ | push _ _ | tick _ _ => True

end DeliveryEvent

/-- The frames that go out for a subscription, each with whether it is a replacement. -/
def framesOf (tx : String) : ViewDelivery → List DeliveryEvent → List (Bool × PendingQueryResponse)
  | _, [] => []
  | delivery, event :: rest =>
    let stepped := delivery.step event
    (((stepped.1.filter fun frame => frame.tx = tx).map fun frame => (event.replaces, frame)).toList) ++
      framesOf tx stepped.2 rest

/-- What a client holds of a view. A window order is told when it changes. -/
structure ViewClient where
  items : ItemMap
  windowOrder : Option (List String)
  totalCount : Option Nat
  window : Option QueryWindow

namespace ViewClient

def empty : ViewClient := ⟨∅, none, none, none⟩

def apply (client : ViewClient) (response : PendingQueryResponse) : ViewClient where
  items := replayed client.items response.intoWire
  windowOrder := response.windowOrderIds.or (if response.sequence = 0 then none else client.windowOrder)
  totalCount := some response.totalCount
  window := response.window

end ViewClient

/-- Sequence numbers counted from 0 at each replacement, as far as 64 bits go. -/
def numbered : Nat → List Bool → List Nat
  | _, [] => []
  | _, true :: rest => 0 :: numbered 1 rest
  | next, false :: rest => min next lastSequence :: numbered (next + 1) rest

/-! ### What merging does to the changes -/

/-- The writes a response comes to: its deletes, then its upserts. -/
def writesOf (response : PendingQueryResponse) : List (String × Option Item) :=
  response.deletes.map (fun id => (id, none)) ++ response.upsertItems.map fun item => (item.id, some item)

theorem replayed_intoWire (m : ItemMap) (response : PendingQueryResponse) :
    replayed m response.intoWire = writeAll (if response.sequence = 0 then ∅ else m) (writesOf response) := by
  have removed (m : ItemMap) : removeMany m response.deletes = writeAll m (response.deletes.map fun id => (id, none)) := by
    rw [removeMany, writeAll, List.foldl_map]
    rfl
  unfold replayed writesOf
  rw [writeAll_append, insertMany_eq_writeAll]
  show writeAll (removeMany _ response.deletes) ((decodeMapUpserts response.upsertItems).map _) = _
  rw [removed, decodeMapUpserts, List.map_map]
  rfl

theorem merge_changes (self : PendingDelta) (response : PendingQueryResponse) :
    (self.merge response).changes = insertMany self.changes (writesOf response) := by
  unfold PendingDelta.merge writesOf insertMany
  rw [List.foldl_append, List.foldl_map, List.foldl_map]

/-- A map with queued changes laid over it. -/
def Overlays (changes : OrdMap String (Option Item)) (m m' : ItemMap) : Prop :=
  ∀ id : String, m'[id]? = (changes[id]?).getD m[id]?

theorem get_insertMany_writes (changes : OrdMap String (Option Item)) (writes : List (String × Option Item)) (id : String) :
    (insertMany changes writes)[id]? = (KeyedLog.lastEffect some id writes).or changes[id]? := by
  induction writes using List.reverseRecOn with
  | nil => simp [insertMany]
  | append_singleton writes write ih =>
    have built : insertMany changes (writes ++ [write]) = (insertMany changes writes).insert write.1 write.2 :=
      List.foldl_append
    rw [built, get_insert, KeyedLog.lastEffect_concat, ih]
    by_cases here : id = write.1
    · subst here
      simp [KeyedLog.effectOn]
    · simp [KeyedLog.effectOn, here, Ne.symm here]

theorem Overlays.merge {changes : OrdMap String (Option Item)} {m m' : ItemMap} (overlays : Overlays changes m m')
    (writes : List (String × Option Item)) : Overlays (insertMany changes writes) m (writeAll m' writes) := by
  intro id
  rw [get_writeAll, get_insertMany_writes, overlays id]
  cases KeyedLog.lastEffect some id writes <;> rfl

theorem overlays_empty (m : ItemMap) : Overlays ∅ m m := by
  intro id
  rw [Std.ExtTreeMap.getElem?_empty]
  rfl

theorem lastEffect_toList (changes : OrdMap String (Option Item)) (id : String) :
    KeyedLog.lastEffect some id changes.toList = changes[id]? := by
  cases last : KeyedLog.lastEffect some id changes.toList with
  | some value => exact (OrdMap.mem_toList.mp (lastEffect_mem last)).symm
  | none =>
    have absent := lastEffect_eq_none_iff.mp last
    rw [Std.ExtTreeMap.map_fst_toList_eq_keys, Std.ExtTreeMap.mem_keys] at absent
    exact (Std.ExtTreeMap.getElem?_eq_none absent).symm

/-! ### What a frame does to the client -/

theorem addChanges_eq (changes : List (String × Option Item)) (response : PendingQueryResponse) :
    changes.foldl PendingDelta.addChange response =
      { response with
        upsertItems := response.upsertItems ++ (puts changes).map Prod.snd
        deletes := response.deletes ++ removals changes } := by
  induction changes generalizing response with
  | nil => simp [puts, removals]
  | cons change rest ih =>
    obtain ⟨id, value⟩ := change
    rw [List.foldl_cons, ih]
    cases value <;> simp [PendingDelta.addChange, puts, removals]

/-- What is queued for the sampled client brings it to where the other is. -/
structure Queues (pending : PendingDelta) (sampled plain : ViewClient) : Prop where
  deletes : pending.latest.deletes = []
  upserts : pending.latest.upsertItems = []
  keyed : ∀ (id : String) (item : Item), pending.changes[id]? = some (some item) → item.id = id
  items : Overlays pending.changes sampled.items plain.items
  order : plain.windowOrder = pending.latest.windowOrderIds.or sampled.windowOrder
  total : plain.totalCount = some pending.latest.totalCount
  window : plain.window = pending.latest.window

/-- A response that is no replacement, or finds the client empty. -/
theorem apply_eq {client : ViewClient} {response : PendingQueryResponse}
    (continues : response.sequence = 0 → client = .empty) :
    client.apply response =
      ⟨writeAll client.items (writesOf response), response.windowOrderIds.or client.windowOrder,
        some response.totalCount, response.window⟩ := by
  unfold ViewClient.apply
  rw [replayed_intoWire]
  by_cases zero : response.sequence = 0
  · rw [continues zero, if_pos zero, if_pos zero]
    rfl
  · rw [if_neg zero, if_neg zero]

/-- A replacement leaves nothing of what was there. -/
theorem apply_replacement {response : PendingQueryResponse} (zero : response.sequence = 0) (client other : ViewClient) :
    client.apply response = other.apply response := by
  unfold ViewClient.apply
  rw [replayed_intoWire, replayed_intoWire, if_pos zero, if_pos zero, if_pos zero, if_pos zero]

theorem writeAll_puts (pending : PendingDelta) (keyed : ∀ (id : String) (item : Item),
      pending.changes[id]? = some (some item) → item.id = id) {m m' : ItemMap} (overlays : Overlays pending.changes m m') :
    insertMany (removeMany m (removals pending.changes.toList))
      (decodeMapUpserts ((puts pending.changes.toList).map Prod.snd)) = m' := by
  have own : decodeMapUpserts ((puts pending.changes.toList).map Prod.snd) = puts pending.changes.toList := by
    rw [decodeMapUpserts, List.map_map]
    refine (List.map_congr_left fun entry member => ?_).trans (List.map_id _)
    obtain ⟨⟨id, value⟩, listed, made⟩ := List.mem_filterMap.mp member
    obtain ⟨item, rfl, rfl⟩ := Option.map_eq_some_iff.mp made
    show (item.id, item) = (id, item)
    rw [keyed id item (OrdMap.mem_toList.mp listed)]
  have settled : Settled pending.changes.toList := by
    intro id item listed
    exact ⟨item, by rw [lastEffect_toList, OrdMap.mem_toList.mp listed]⟩
  rw [own, (removals_puts_iff m _).mpr settled]
  refine OrdMap.ext fun id => ?_
  rw [get_writeAll, lastEffect_toList, overlays id]

/-- The frame of what is queued brings the sampled client up to date. -/
theorem apply_finish {pending : PendingDelta} {sampled plain : ViewClient} (queues : Queues pending sampled plain)
    {sequence : Nat} (continues : sequence = 0 → sampled = .empty) :
    sampled.apply (pending.finish sequence) = plain := by
  have frame : pending.finish sequence =
      { pending.latest with
        sequence
        upsertItems := (puts pending.changes.toList).map Prod.snd
        deletes := removals pending.changes.toList } := by
    rw [PendingDelta.finish, addChanges_eq]
    dsimp only
    rw [queues.deletes, queues.upserts, List.nil_append, List.nil_append]
  rw [frame]
  obtain ⟨items, order, total, window⟩ := plain
  have kept := queues.order
  have counted := queues.total
  have shown := queues.window
  dsimp only at kept counted shown
  subst kept counted shown
  unfold ViewClient.apply
  have base : (if sequence = 0 then ∅ else sampled.items) = sampled.items ∧
      (if sequence = 0 then none else sampled.windowOrder) = sampled.windowOrder := by
    split
    · next zero =>
      rw [continues zero]
      exact ⟨rfl, rfl⟩
    · exact ⟨rfl, rfl⟩
  congr 1
  · show insertMany (removeMany (if sequence = 0 then ∅ else sampled.items) _) _ = items
    rw [base.1]
    exact writeAll_puts pending queues.keyed queues.items
  · show pending.latest.windowOrderIds.or (if sequence = 0 then none else sampled.windowOrder) = _
    rw [base.2]

theorem keyed_writesOf {response : PendingQueryResponse} {id : String} {item : Item}
    (written : (id, some item) ∈ writesOf response) : item.id = id := by
  rcases List.mem_append.mp written with deleted | upserted
  · obtain ⟨_, _, same⟩ := List.mem_map.mp deleted
    cases same
  · obtain ⟨_, _, same⟩ := List.mem_map.mp upserted
    cases same
    rfl

/-- A response merged into what is queued is one the other client applies. -/
theorem Queues.merge {pending : PendingDelta} {sampled plain : ViewClient} (queues : Queues pending sampled plain)
    {response : PendingQueryResponse} (incremental : response.sequence ≠ 0) :
    Queues (pending.merge response) sampled (plain.apply response) := by
  have applied : plain.apply response = _ := apply_eq fun zero => absurd zero incremental
  rw [applied]
  refine ⟨rfl, rfl, fun id item queued => ?_, ?_, ?_, rfl, rfl⟩
  · rw [merge_changes, get_insertMany_writes] at queued
    cases last : KeyedLog.lastEffect some id (writesOf response) with
    | some value =>
      rw [last, Option.some_or, Option.some.injEq] at queued
      exact keyed_writesOf (queued ▸ lastEffect_mem last)
    | none =>
      rw [last, Option.none_or] at queued
      exact queues.keyed id item queued
  · rw [merge_changes]
    exact queues.items.merge _
  · show response.windowOrderIds.or plain.windowOrder = (response.windowOrderIds.or pending.latest.windowOrderIds).or _
    rw [queues.order, Option.or_assoc]

theorem queues_new (client : ViewClient) {response : PendingQueryResponse} (incremental : response.sequence ≠ 0) :
    Queues (.new response) client (client.apply response) := by
  have applied : client.apply response = _ := apply_eq fun zero => absurd zero incremental
  rw [applied]
  refine ⟨rfl, rfl, fun id item queued => ?_, ?_, ?_, rfl, rfl⟩
  · rw [PendingDelta.new, merge_changes, get_insertMany_writes, Std.ExtTreeMap.getElem?_empty, Option.or_none] at queued
    exact keyed_writesOf (lastEffect_mem queued)
  · rw [PendingDelta.new, merge_changes]
    exact (overlays_empty client.items).merge _
  · show response.windowOrderIds.or client.windowOrder = (response.windowOrderIds.or response.windowOrderIds).or _
    cases response.windowOrderIds <;> rfl

/-! ### One subscription in a run -/

/-- Where a subscription stands, `next` frames after its last replacement. -/
structure InStep (tx : String) (subscription : Subscription) (sampled plain : ViewClient) (next : Nat) : Prop where
  counted : subscription.nextSequence = min next lastSequence
  fresh : next = 0 → sampled = .empty
  agrees : subscription.pending = none → sampled = plain
  queues : ∀ pending, subscription.pending = some pending → pending.latest.tx = tx ∧ Queues pending sampled plain

/-- What is queued for a subscription is its own. -/
def Owned (delivery : ViewDelivery) : Prop :=
  ∀ tx subscription pending, delivery.subscriptions tx = some subscription → subscription.pending = some pending →
    pending.latest.tx = tx

theorem zero_of_counted {next sequence : Nat} (counted : sequence = min next lastSequence) (zero : sequence = 0) :
    next = 0 := by
  unfold lastSequence at counted
  omega

theorem nextSequence_counted {next sequence : Nat} (counted : sequence = min next lastSequence) :
    nextSequence sequence = min (next + 1) lastSequence := by
  unfold nextSequence
  omega

theorem finish_tx (pending : PendingDelta) (sequence : Nat) : (pending.finish sequence).tx = pending.latest.tx := by
  rw [PendingDelta.finish, addChanges_eq]

theorem finish_sequence (pending : PendingDelta) (sequence : Nat) : (pending.finish sequence).sequence = sequence := by
  rw [PendingDelta.finish, addChanges_eq]

variable {tx : String} {delivery : ViewDelivery} {subscription : Subscription} {sampled plain : ViewClient} {next : Nat}

theorem set_self (value : Option Subscription) : (delivery.set tx value).subscriptions tx = value :=
  Function.update_self _ _ _

theorem owned_set (owned : Owned delivery) {other : String} {value : Option Subscription}
    (own : ∀ subscription pending, value = some subscription → subscription.pending = some pending →
      pending.latest.tx = other) : Owned (delivery.set other value) := by
  intro key subscription pending stored queued
  unfold ViewDelivery.set at stored
  dsimp only at stored
  by_cases here : key = other
  · subst here
    rw [Function.update_self] at stored
    exact own subscription pending stored queued
  · rw [Function.update_of_ne here] at stored
    exact owned key subscription pending stored queued

theorem owned_step (owned : Owned delivery) (event : DeliveryEvent) : Owned (delivery.step event).2 := by
  cases event with
  | control control now =>
    cases control with
    | subscribe other rate => exact owned_set owned fun _ _ same queued => by cases same; cases queued
    | cancel other => exact owned_set owned fun _ _ same => by cases same
    | setRate other rate =>
      show Owned (delivery.control (.setRate other rate) now)
      unfold ViewDelivery.control
      dsimp only
      cases stored : delivery.subscriptions other with
      | none => exact owned
      | some subscription =>
        refine owned_set owned fun _ pending same queued => ?_
        cases same
        exact owned other subscription pending stored queued
  | push response now =>
    show Owned (delivery.push response now).2
    unfold ViewDelivery.push
    cases stored : delivery.subscriptions response.tx with
    | none => exact owned
    | some subscription =>
      dsimp only
      split
      · exact owned_set owned fun _ _ same queued => by cases same; cases queued
      · split
        · next quiet =>
          refine owned_set owned fun _ pending same queued => ?_
          cases same
          exact owned response.tx subscription pending stored queued
        · refine owned_set owned fun _ pending same queued => ?_
          cases same
          cases queued
          rfl
        · refine owned_set owned fun _ pending same queued => ?_
          cases same
          cases queued
          rfl
  | tick now found =>
    show Owned (delivery.takeDue now found).2
    unfold ViewDelivery.takeDue
    cases stored : delivery.subscriptions found with
    | none => exact owned
    | some subscription =>
      dsimp only
      split
      · cases queued : subscription.pending with
        | none => exact owned
        | some pending => exact owned_set owned fun _ _ same queued => by cases same; cases queued
      · exact owned

/-- What one event does to a subscription: the frame, if one goes out, and where it stands then. -/
structure Advances (tx : String) (sampled plain : ViewClient) (next : Nat) (replaces : Bool)
    (frame pushed : Option PendingQueryResponse) (subscription : Subscription) : Prop where
  numbered : ∀ out, frame = some out → out.tx = tx ∧ out.sequence = if replaces then 0 else min next lastSequence
  inStep : InStep tx subscription ((frame.map sampled.apply).getD sampled) ((pushed.map plain.apply).getD plain)
    (if frame.isSome then (if replaces then 1 else next + 1) else next)

theorem advances_push (stored : delivery.subscriptions tx = some subscription)
    (inStep : InStep tx subscription sampled plain next) {response : PendingQueryResponse} (own : response.tx = tx)
    (now : Nat) : ∃ after, (delivery.push response now).2.subscriptions tx = some after ∧
      Advances tx sampled plain next (response.sequence = 0) (delivery.push response now).1 (some response) after := by
  subst own
  unfold ViewDelivery.push
  rw [stored]
  dsimp only
  by_cases zero : response.sequence = 0
  · rw [if_pos zero]
    refine ⟨_, set_self _, fun out same => ?_, ?_⟩
    · cases same
      exact ⟨rfl, by simp [zero]⟩
    · simp only [Option.map_some, Option.getD_some, Option.isSome_some, if_true, zero, decide_true]
      exact ⟨rfl, fun none => absurd none (by decide), fun _ => apply_replacement zero sampled plain,
        fun pending queued => by cases queued⟩
  · rw [if_neg zero]
    split
    · next direct quiet =>
      refine ⟨_, set_self _, fun out same => ?_, ?_⟩
      · cases same
        exact ⟨rfl, by simp [zero, inStep.counted]⟩
      · have agrees := inStep.agrees quiet
        have applied : sampled.apply { response with sequence := subscription.nextSequence } = plain.apply response := by
          rw [apply_eq fun none => inStep.fresh (zero_of_counted inStep.counted none), agrees,
            apply_eq fun none => absurd none zero]
          rfl
        simp only [Option.map_some, Option.getD_some, Option.isSome_some, if_true, zero, decide_false, applied]
        exact ⟨nextSequence_counted inStep.counted, fun none => absurd none (Nat.succ_ne_zero next), fun _ => rfl,
          fun pending queued => absurd (quiet.symm.trans queued) (Option.some_ne_none pending).symm⟩
    · next pending queued =>
      refine ⟨_, set_self _, fun out same => (by cases same), ?_⟩
      exact ⟨inStep.counted, inStep.fresh, fun none => (by cases none), fun merged same => by
        cases same
        exact ⟨rfl, (inStep.queues pending queued).2.merge zero⟩⟩
    · next rate sampling quiet =>
      refine ⟨_, set_self _, fun out same => (by cases same), ?_⟩
      refine ⟨inStep.counted, inStep.fresh, fun none => (by cases none), fun merged same => ?_⟩
      cases same
      have agrees := inStep.agrees quiet
      subst agrees
      exact ⟨rfl, queues_new sampled zero⟩

theorem advances_takeDue (stored : delivery.subscriptions tx = some subscription)
    (inStep : InStep tx subscription sampled plain next) (now : Nat) :
    ∃ after, (delivery.takeDue now tx).2.subscriptions tx = some after ∧
      Advances tx sampled plain next false (delivery.takeDue now tx).1 none after := by
  have quiet : Advances tx sampled plain next false none none subscription := ⟨fun out same => (by cases same), inStep⟩
  unfold ViewDelivery.takeDue
  rw [stored]
  dsimp only
  split
  · cases queued : subscription.pending with
    | none => exact ⟨subscription, stored, quiet⟩
    | some pending =>
      obtain ⟨own, queues⟩ := inStep.queues pending queued
      refine ⟨_, set_self _, fun out same => ?_, ?_⟩
      · cases same
        exact ⟨(finish_tx pending _).trans own, (finish_sequence pending _).trans inStep.counted⟩
      · have applied : sampled.apply (pending.finish subscription.nextSequence) = plain :=
          apply_finish queues fun none => inStep.fresh (zero_of_counted inStep.counted none)
        simp only [Option.map_some, Option.getD_some, Option.isSome_some, if_true, applied]
        exact ⟨nextSequence_counted inStep.counted, fun none => absurd none (Nat.succ_ne_zero next), fun _ => rfl,
          fun pending queued => by cases queued⟩
  · exact ⟨subscription, stored, quiet⟩

theorem set_other {other : String} (different : tx ≠ other) (value : Option Subscription) :
    (delivery.set other value).subscriptions tx = delivery.subscriptions tx :=
  Function.update_of_ne different _ _

theorem push_other {response : PendingQueryResponse} (different : response.tx ≠ tx) (now : Nat) :
    (delivery.push response now).2.subscriptions tx = delivery.subscriptions tx ∧
      ∀ frame, (delivery.push response now).1 = some frame → frame.tx ≠ tx := by
  unfold ViewDelivery.push
  cases delivery.subscriptions response.tx with
  | none => exact ⟨rfl, fun _ same => by cases same⟩
  | some subscription =>
    dsimp only
    split
    · exact ⟨set_other (Ne.symm different) _, fun _ same => by cases same; exact different⟩
    · split
      · exact ⟨set_other (Ne.symm different) _, fun _ same => by cases same; exact different⟩
      · exact ⟨set_other (Ne.symm different) _, fun _ same => by cases same⟩
      · exact ⟨set_other (Ne.symm different) _, fun _ same => by cases same⟩

theorem takeDue_other (owned : Owned delivery) {found : String} (different : found ≠ tx) (now : Nat) :
    (delivery.takeDue now found).2.subscriptions tx = delivery.subscriptions tx ∧
      ∀ frame, (delivery.takeDue now found).1 = some frame → frame.tx ≠ tx := by
  unfold ViewDelivery.takeDue
  cases stored : delivery.subscriptions found with
  | none => exact ⟨rfl, fun _ same => by cases same⟩
  | some subscription =>
    dsimp only
    split
    · cases queued : subscription.pending with
      | none => exact ⟨rfl, fun _ same => by cases same⟩
      | some pending =>
        refine ⟨set_other (Ne.symm different) _, fun frame same => ?_⟩
        cases same
        rw [finish_tx, owned found subscription pending stored queued]
        exact different
    · exact ⟨rfl, fun _ same => by cases same⟩

theorem filter_other {frame : Option PendingQueryResponse} (different : ∀ out, frame = some out → out.tx ≠ tx) :
    (frame.filter fun out => out.tx = tx) = none := by
  cases frame with
  | none => rfl
  | some out => simp [Option.filter, different out rfl]

theorem Advances.filter {replaces : Bool} {frame pushed : Option PendingQueryResponse}
    (advances : Advances tx sampled plain next replaces frame pushed subscription) :
    Advances tx sampled plain next replaces (frame.filter fun out => out.tx = tx) pushed subscription := by
  cases frame with
  | none => exact advances
  | some out =>
    have own : (Option.some out).filter (fun out => out.tx = tx) = some out := by
      simp [Option.filter, (advances.numbered out rfl).1]
    rw [own]
    exact advances

theorem advances_step (owned : Owned delivery) (stored : delivery.subscriptions tx = some subscription)
    (inStep : InStep tx subscription sampled plain next) {event : DeliveryEvent} (within : event.Within tx) :
    ∃ after, (delivery.step event).2.subscriptions tx = some after ∧
      Advances tx sampled plain next event.replaces ((delivery.step event).1.filter fun out => out.tx = tx)
        (event.pushed tx) after := by
  have quiet (replaces : Bool) : Advances tx sampled plain next replaces none none subscription :=
    ⟨fun out same => (by cases same), inStep⟩
  cases event with
  | control control now =>
    cases control with
    | subscribe other rate => exact ⟨subscription, (set_other (Ne.symm within) _).trans stored, quiet false⟩
    | cancel other => exact ⟨subscription, (set_other (Ne.symm within) _).trans stored, quiet false⟩
    | setRate other rate =>
      show ∃ after, (delivery.control (.setRate other rate) now).subscriptions tx = some after ∧ _
      unfold ViewDelivery.control
      dsimp only
      by_cases here : other = tx
      · subst here
        rw [stored]
        refine ⟨_, set_self _, fun out same => (by cases same), ?_⟩
        exact ⟨inStep.counted, inStep.fresh, inStep.agrees, inStep.queues⟩
      · refine ⟨subscription, ?_, quiet false⟩
        split
        · exact (set_other (Ne.symm here) _).trans stored
        · exact stored
  | push response now =>
    unfold DeliveryEvent.pushed
    dsimp only
    by_cases own : response.tx = tx
    · rw [if_pos own]
      obtain ⟨after, kept, advances⟩ := advances_push stored inStep own now
      exact ⟨after, kept, advances.filter⟩
    · rw [if_neg own]
      obtain ⟨kept, different⟩ :=
        (push_other own now : (delivery.push response now).2.subscriptions tx = delivery.subscriptions tx ∧ _)
      refine ⟨subscription, kept.trans stored, ?_⟩
      show Advances _ _ _ _ _ ((delivery.push response now).1.filter _) _ _
      rw [filter_other different]
      exact quiet _
  | tick now found =>
    by_cases here : found = tx
    · subst here
      obtain ⟨after, kept, advances⟩ := advances_takeDue stored inStep now
      exact ⟨after, kept, advances.filter⟩
    · obtain ⟨kept, different⟩ := takeDue_other owned here now
      refine ⟨subscription, kept.trans stored, ?_⟩
      show Advances _ _ _ _ _ ((delivery.takeDue now found).1.filter _) _ _
      rw [filter_other different]
      exact quiet _

/-- The client of the frames. -/
def sampledClient (frames : List (Bool × PendingQueryResponse)) (client : ViewClient) : ViewClient :=
  frames.foldl (fun client frame => client.apply frame.2) client

/-- The client of every response. -/
def plainClient (tx : String) (events : List DeliveryEvent) (client : ViewClient) : ViewClient :=
  (events.filterMap (DeliveryEvent.pushed tx)).foldl ViewClient.apply client

theorem plainClient_cons (event : DeliveryEvent) (rest : List DeliveryEvent) (client : ViewClient) :
    plainClient tx (event :: rest) client = plainClient tx rest (((event.pushed tx).map client.apply).getD client) := by
  unfold plainClient
  rw [List.filterMap_cons]
  cases event.pushed tx <;> rfl

theorem inStep_run (owned : Owned delivery) (stored : delivery.subscriptions tx = some subscription)
    (inStep : InStep tx subscription sampled plain next) {events : List DeliveryEvent}
    (within : ∀ event ∈ events, event.Within tx) :
    (framesOf tx delivery events).map (fun frame => frame.2.sequence) =
        numbered next ((framesOf tx delivery events).map Prod.fst) ∧
      ∃ after last, (delivery.run events).subscriptions tx = some after ∧
        InStep tx after (sampledClient (framesOf tx delivery events) sampled) (plainClient tx events plain) last := by
  induction events generalizing delivery subscription sampled plain next with
  | nil => exact ⟨rfl, subscription, next, stored, inStep⟩
  | cons event rest ih =>
    obtain ⟨after, kept, advances⟩ := advances_step owned stored inStep (within event List.mem_cons_self)
    obtain ⟨sequences, last, count, stands, final⟩ :=
      ih (owned_step owned event) kept advances.inStep fun later member => within later (List.mem_cons_of_mem _ member)
    rw [plainClient_cons]
    unfold framesOf
    dsimp only
    cases frame : (delivery.step event).1.filter fun out => out.tx = tx with
    | none =>
      rw [frame] at sequences final
      exact ⟨sequences, last, count, stands, final⟩
    | some out =>
      rw [frame] at sequences final
      have sequence := (advances.numbered out frame).2
      refine ⟨?_, last, count, stands, final⟩
      simp only [Option.map_some, Option.toList_some, List.singleton_append, List.map_cons]
      cases replaced : event.replaces with
      | true =>
        rw [replaced] at sequences sequence
        exact congrArg₂ List.cons sequence sequences
      | false =>
        rw [replaced] at sequences sequence
        exact congrArg₂ List.cons sequence sequences

theorem owned_run (owned : Owned delivery) (events : List DeliveryEvent) : Owned (delivery.run events) := by
  induction events generalizing delivery with
  | nil => exact owned
  | cons event rest ih => exact ih (owned_step owned event)

/-- A delivery as it is when a subscription begins, whatever happened before. -/
def subscribed (earlier : List DeliveryEvent) (tx : String) (rate : Option ViewSampleRate) (now : Nat) : ViewDelivery :=
  (ViewDelivery.new.run earlier).control (.subscribe tx rate) now

theorem run_subscribed (earlier : List DeliveryEvent) (rate : Option ViewSampleRate) (now : Nat)
    {events : List DeliveryEvent} (within : ∀ event ∈ events, event.Within tx) :
    (framesOf tx (subscribed earlier tx rate now) events).map (fun frame => frame.2.sequence) =
        numbered 0 ((framesOf tx (subscribed earlier tx rate now) events).map Prod.fst) ∧
      ∃ after last, ((subscribed earlier tx rate now).run events).subscriptions tx = some after ∧
        InStep tx after (sampledClient (framesOf tx (subscribed earlier tx rate now) events) .empty)
          (plainClient tx events .empty) last := by
  have owned : Owned (subscribed earlier tx rate now) :=
    owned_step (owned_run (fun _ _ _ stored => by cases stored) earlier) (.control (.subscribe tx rate) now)
  refine inStep_run owned (set_self _) ?_ within
  exact ⟨rfl, fun _ => rfl, fun _ => rfl, fun _ queued => by cases queued⟩

/-- The frames are numbered from 0 at each replacement, as far as the counter goes, and when nothing is queued the client
of the frames holds what the client of every response holds. -/
theorem sampling_transparent (earlier : List DeliveryEvent) (tx : String) (rate : Option ViewSampleRate) (now : Nat)
    {events : List DeliveryEvent} (within : ∀ event ∈ events, event.Within tx) :
    (framesOf tx (subscribed earlier tx rate now) events).map (fun frame => frame.2.sequence) =
        numbered 0 ((framesOf tx (subscribed earlier tx rate now) events).map Prod.fst) ∧
      ∃ subscription, ((subscribed earlier tx rate now).run events).subscriptions tx = some subscription ∧
        (subscription.pending = none →
          sampledClient (framesOf tx (subscribed earlier tx rate now) events) .empty =
            plainClient tx events .empty) := by
  obtain ⟨sequences, after, _, stands, inStep⟩ := run_subscribed earlier rate now within
  exact ⟨sequences, after, stands, inStep.agrees⟩

/-! ### The end of the counter -/

theorem numbered_replicate (next count : Nat) {place : Nat} (within : place < count) :
    (numbered next (List.replicate count false))[place]? = some (min (next + place) lastSequence) := by
  induction count generalizing next place with
  | zero => cases within
  | succ count ih =>
    rw [List.replicate_succ, numbered]
    cases place with
    | zero => rfl
    | succ place =>
      rw [List.getElem?_cons_succ, ih (next + 1) (Nat.lt_of_succ_lt_succ within)]
      congr 2
      omega

/-- Without a rate every response goes out. -/
theorem frames_unsampled {response : PendingQueryResponse} (incremental : response.sequence ≠ 0) (count : Nat)
    {delivery : ViewDelivery} {subscription : Subscription}
    (stored : delivery.subscriptions response.tx = some subscription) (unsampled : subscription.rate = none)
    (quiet : subscription.pending = none) :
    (framesOf response.tx delivery (List.replicate count (.push response 0))).map Prod.fst =
      List.replicate count false := by
  induction count generalizing delivery subscription with
  | zero => rfl
  | succ count ih =>
    have pushed : delivery.step (.push response 0) =
        (some { response with sequence := subscription.nextSequence },
          delivery.set response.tx (some { subscription with
            nextSequence := nextSequence subscription.nextSequence, lastEmit := 0 })) := by
      show delivery.push response 0 = _
      unfold ViewDelivery.push
      rw [stored]
      dsimp only
      rw [if_neg incremental, unsampled, quiet]
    have kept : (delivery.step (.push response 0)).2.subscriptions response.tx = some { subscription with
        nextSequence := nextSequence subscription.nextSequence, lastEmit := 0 } := by
      rw [pushed]
      exact set_self _
    have later := ih kept unsampled quiet
    rw [List.replicate_succ, framesOf, List.map_append, later, pushed]
    simp [Option.filter, DeliveryEvent.replaces, incremental, List.replicate_succ]

namespace Sample

def update (sequence : Nat) (deletes : List String) (windowOrderIds : Option (List String)) : PendingQueryResponse where
  tx := "view"
  sequence := sequence
  upsertItems := [Query.Sample.row "a"]
  deletes := deletes
  totalCount := 2
  window := none
  windowOrderIds := windowOrderIds

/-- Within one interval an order is told, then an item changes. -/
def events : List DeliveryEvent :=
  [.push (update 0 [] none) 0, .push (update 1 ["b"] (some ["b", "a"])) 1, .push (update 2 ["a"] none) 2, .tick 40 "view"]

end Sample

theorem sampling_transparent_sample :
    ((framesOf "view" (subscribed [] "view" (some ⟨33, by decide⟩) 0) Sample.events).map (fun frame => frame.2.sequence) =
        numbered 0 ((framesOf "view" (subscribed [] "view" (some ⟨33, by decide⟩) 0) Sample.events).map Prod.fst) ∧
      ∃ subscription,
        ((subscribed [] "view" (some ⟨33, by decide⟩) 0).run Sample.events).subscriptions "view" = some subscription ∧
        (subscription.pending = none →
          sampledClient (framesOf "view" (subscribed [] "view" (some ⟨33, by decide⟩) 0) Sample.events) .empty =
            plainClient "view" Sample.events .empty)) ∧
      (framesOf "view" (subscribed [] "view" (some ⟨33, by decide⟩) 0) Sample.events).map (fun frame => frame.2.sequence) =
        [0, 1] := by
  refine ⟨sampling_transparent [] "view" (some ⟨33, by decide⟩) 0 fun event member => ?_, by decide +kernel⟩
  simp only [Sample.events, List.mem_cons, List.not_mem_nil, or_false] at member
  rcases member with rfl | rfl | rfl | rfl <;> trivial

/-- The counter stops at its last value, so two frames in a row have one number. -/
theorem counter_exhausted : ∃ events : List DeliveryEvent, (∀ event ∈ events, event.Within "view") ∧
    ∃ place, ((framesOf "view" (subscribed [] "view" none 0) events).map Prod.fst)[place + 1]? = some false ∧
      ((framesOf "view" (subscribed [] "view" none 0) events).map fun frame => frame.2.sequence)[place]? =
        some lastSequence ∧
      ((framesOf "view" (subscribed [] "view" none 0) events).map fun frame => frame.2.sequence)[place + 1]? =
        some lastSequence := by
  have within : ∀ event ∈ List.replicate (lastSequence + 2) (DeliveryEvent.push (Sample.update 1 [] none) 0),
      event.Within "view" := by
    intro event member
    rw [List.eq_of_mem_replicate member]
    trivial
  have stored : (subscribed [] "view" none 0).subscriptions "view" = some ⟨none, 0, 0, none⟩ := set_self _
  have flags : (framesOf "view" (subscribed [] "view" none 0)
      (List.replicate (lastSequence + 2) (.push (Sample.update 1 [] none) 0))).map Prod.fst =
        List.replicate (lastSequence + 2) false :=
    frames_unsampled (show (Sample.update 1 [] none).sequence ≠ 0 by decide) _ stored rfl rfl
  have numbers := (run_subscribed [] none 0 within).1
  rw [flags] at numbers
  refine ⟨_, within, lastSequence, ?_, ?_, ?_⟩
  · rw [flags, List.getElem?_replicate_of_lt (by omega)]
  · rw [numbers, numbered_replicate 0 _ (by omega)]
    simp
  · rw [numbers, numbered_replicate 0 _ (by omega)]
    simp

end Myko.ViewSampling

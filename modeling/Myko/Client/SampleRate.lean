import Myko.Lib.Runs
import Myko.Session.ViewSampling

/-!
The sample rate of one view watch: what its handles ask for, what the client stores and sends, and the rate
that is in force in the server's delivery state.
-/

namespace Myko.SampleRate
open Runs ViewSampling

deriving instance DecidableEq for ViewSampleRate

abbrev Rate : Type := Option ViewSampleRate

/-- A frame that names a rate: the view request, or an update of its rate. -/
inductive RateFrame where
  | view (rate : Rate)
  | viewSampleRate (rate : Rate)

def RateFrame.rate : RateFrame → Rate
  | .view rate => rate
  | .viewSampleRate rate => rate

/-- The status the client reads: it follows the socket, which is open before it is told connected. -/
inductive ConnectionPhase where
  | disconnected
  | opening
  | connected
  deriving DecidableEq

/-- Who holds the request: nobody, a call that has stored its rate, or one that has read the status too. -/
inductive RequestLock where
  | free
  | rateStored
  | statusRead
  deriving DecidableEq

/-- The client's request and the server's side of its connection. `frames` are those sent and not processed
yet; what is queued behind a lost connection goes out on the next one. `announced` is the rate of the frame
sent last, and `last` the most recent call with whether it returned Ok. -/
structure ViewWatch where
  request : Rate
  lock : RequestLock
  phase : ConnectionPhase
  resubscribing : Nat
  frames : List RateFrame
  link : Bool
  delivery : ViewDelivery
  subscribed : Bool
  announced : Option Rate
  last : Option (Rate × Bool)

inductive WatchEvent where
  | setRate (rate : Rate)
  | readStatus
  | send (accepted : Bool)
  | resubscribe (accepted : Bool)
  | opened
  | statusConnected
  | lost (taken : Nat)
  | statusDisconnected
  | receive (now : Nat)
  | subscriptionReady
  | push (response : Query.PendingQueryResponse) (now : Nat)
  | tick (now : Nat) (found : String)

/-- The rate of the delivery state, when there is one. -/
def rateOf (delivery : ViewDelivery) (tx : String) : Option Rate :=
  (delivery.subscriptions tx).map Subscription.rate

namespace ViewWatch

/-- A new watch; on a connection that stands, its subscriber is called at once. -/
def start (rate : Rate) (connected : Bool) : ViewWatch where
  request := rate
  lock := .free
  phase := if connected then .connected else .disconnected
  resubscribing := if connected then 1 else 0
  frames := []
  link := connected
  delivery := .new
  subscribed := false
  announced := none
  last := none

/-- A frame is made of the stored request, and the socket takes it or refuses it. -/
def sendFrame (w : ViewWatch) (frame : RateFrame) (accepted : Bool) : ViewWatch :=
  if accepted then { w with frames := w.frames ++ [frame], announced := some frame.rate } else w

def setRate (w : ViewWatch) (rate : Rate) : ViewWatch :=
  if w.request = rate then { w with last := some (rate, true) }
  else { w with request := rate, lock := .rateStored }

def readStatus (w : ViewWatch) : ViewWatch :=
  if w.phase = .connected then { w with lock := .statusRead }
  else { w with lock := .free, last := some (w.request, true) }

def sendRate (w : ViewWatch) (accepted : Bool) : ViewWatch :=
  { w.sendFrame (.viewSampleRate w.request) accepted with lock := .free, last := some (w.request, accepted) }

def resubscribe (w : ViewWatch) (accepted : Bool) : ViewWatch :=
  { w.sendFrame (.view w.request) accepted with resubscribing := w.resubscribing - 1 }

/-- What a frame does to the delivery state: a view that is subscribed already is not subscribed again. -/
def process (tx : String) (w : ViewWatch) (now : Nat) : RateFrame → ViewDelivery
  | .view rate => if w.subscribed then w.delivery else w.delivery.control (.subscribe tx rate) now
  | .viewSampleRate rate => w.delivery.control (.setRate tx rate) now

def inForce (tx : String) (w : ViewWatch) : Option Rate := rateOf w.delivery tx

def step (tx : String) (w : ViewWatch) : WatchEvent → Option ViewWatch
  | .setRate rate => if w.lock = .free then some (w.setRate rate) else none
  | .readStatus => if w.lock = .rateStored then some w.readStatus else none
  | .send accepted => if w.lock = .statusRead then some (w.sendRate accepted) else none
  | .resubscribe accepted =>
    if w.lock = .free ∧ 0 < w.resubscribing then some (w.resubscribe accepted) else none
  | .opened =>
    if w.phase = .disconnected then
      some { w with phase := .opening, link := true, delivery := .new, subscribed := false }
    else none
  | .statusConnected =>
    if w.phase = .opening then some { w with phase := .connected, resubscribing := w.resubscribing + 1 }
    else none
  | .lost taken => if w.link then some { w with link := false, frames := w.frames.drop taken } else none
  | .statusDisconnected => if w.link then none else some { w with phase := .disconnected }
  | .receive now =>
    match w.frames with
    | [] => none
    | frame :: rest => if w.link then some { w with delivery := w.process tx now frame, frames := rest } else none
  | .subscriptionReady => if (w.inForce tx).isSome then some { w with subscribed := true } else none
  | .push response now => some { w with delivery := (w.delivery.push response now).2 }
  | .tick now found => some { w with delivery := (w.delivery.takeDue now found).2 }

/-- The connection stands, and no re-subscribe is to come. -/
def Live (w : ViewWatch) : Prop := w.phase = .connected ∧ w.link = true ∧ w.resubscribing = 0

/-- Connected, with all frames processed and no call running, the rate of the last call that returned Ok is
in force. -/
def LastRateWins (tx : String) (w : ViewWatch) : Prop :=
  w.Live → w.frames = [] → w.lock = .free → ∀ rate, w.last = some (rate, true) → w.inForce tx = some rate

/-- The server knows the view, or will from a frame under way. -/
def Introduced (tx : String) (w : ViewWatch) : Prop :=
  (w.inForce tx).isSome = true ∨ ∃ rate, .view rate ∈ w.frames

/-- A call that finds its rate stored comes when that rate was sent, or will be on the next connection; a
re-subscribe is refused only where the server gets the request anyway; a view frame that is ignored, with
none behind it, names the rate in force. -/
def Undisturbed (tx : String) (w : ViewWatch) : WatchEvent → Prop
  | .setRate rate => w.request = rate → w.Live → w.announced = some rate
  | .resubscribe accepted => accepted = false → w.phase = .connected → w.link = true → w.resubscribing = 1 →
      w.Introduced tx ∧ w.announced = some w.request
  | .receive _ => ∀ rate, w.frames = [.view rate] → w.subscribed = true → w.inForce tx = some rate
  | _ => True

/-- The frame sent last is the last to be processed, and once it is, its rate is in force. -/
structure Tracked (tx : String) (w : ViewWatch) : Prop where
  tail : ∀ frame ∈ w.frames.getLast?, w.announced = some frame.rate
  settled : w.link = true → w.frames = [] → ∀ rate, w.inForce tx = some rate → w.announced = some rate
  known : w.subscribed = true → (w.inForce tx).isSome = true
  introduced : w.Live → w.Introduced tx
  kept : w.lock = .free → ∀ rate, w.last = some (rate, true) → w.request = rate
  agreed : w.Live → w.lock = .free → ∀ rate, w.last = some (rate, true) → w.announced = some rate

variable {tx : String} {w v : ViewWatch} {event : WatchEvent}

theorem tracked_start (rate : Rate) (connected : Bool) : Tracked tx (start rate connected) where
  tail _ last := nomatch last
  settled _ _ _ inForce := nomatch inForce
  known subscribed := nomatch subscribed
  introduced live := by
    cases connected with
    | true => exact absurd live.2.2 (Nat.succ_ne_zero 0)
    | false => exact nomatch live.1
  kept _ _ last := nomatch last
  agreed _ _ _ last := nomatch last

theorem Tracked.lastRateWins (tracked : Tracked tx w) : LastRateWins tx w := by
  intro live processed free rate last
  rcases tracked.introduced live with known | ⟨_, waiting⟩
  · obtain ⟨current, inForce⟩ := Option.isSome_iff_exists.mp known
    have announced := tracked.settled live.2.1 processed current inForce
    have agreed := tracked.agreed live free rate last
    rw [inForce, ← announced, agreed]
  · rw [processed] at waiting
    exact absurd waiting List.not_mem_nil

/-! ### What the delivery state keeps -/

theorem rateOf_set {delivery : ViewDelivery} {key : String} {subscription other : Subscription}
    (stored : delivery.subscriptions key = some subscription) (same : other.rate = subscription.rate) :
    rateOf (delivery.set key (some other)) tx = rateOf delivery tx := by
  unfold rateOf
  by_cases here : tx = key
  · subst here
    rw [set_self, stored, Option.map_some, Option.map_some, same]
  · rw [set_other here]

/-- Delivering frames leaves the rates as they are. -/
theorem rateOf_push (delivery : ViewDelivery) (response : Query.PendingQueryResponse) (now : Nat) :
    rateOf (delivery.push response now).2 tx = rateOf delivery tx := by
  unfold ViewDelivery.push
  split
  · rfl
  · next subscription stored =>
    split
    · exact rateOf_set stored rfl
    · split
      · exact rateOf_set stored rfl
      · exact rateOf_set stored rfl
      · exact rateOf_set stored rfl

theorem rateOf_takeDue (delivery : ViewDelivery) (now : Nat) (found : String) :
    rateOf (delivery.takeDue now found).2 tx = rateOf delivery tx := by
  unfold ViewDelivery.takeDue
  split
  · rfl
  · next subscription stored =>
    split
    · split
      · rfl
      · exact rateOf_set stored rfl
    · rfl

theorem rateOf_subscribe (delivery : ViewDelivery) (rate : Rate) (now : Nat) :
    rateOf (delivery.control (.subscribe tx rate) now) tx = some rate := by
  simp [rateOf, ViewDelivery.control, ViewDelivery.set]

theorem rateOf_setRate (delivery : ViewDelivery) (rate : Rate) (now : Nat) :
    rateOf (delivery.control (.setRate tx rate) now) tx = (rateOf delivery tx).map fun _ => rate := by
  unfold ViewDelivery.control rateOf
  cases stored : delivery.subscriptions tx with
  | none => simp [stored]
  | some subscription => simp [stored, ViewDelivery.set]

/-! ### One step -/

theorem Tracked.of_rateOf {delivery : ViewDelivery} (tracked : Tracked tx w)
    (same : rateOf delivery tx = rateOf w.delivery tx) : Tracked tx { w with delivery } where
  tail := tracked.tail
  settled alive processed rate inForce := tracked.settled alive processed rate (same.symm.trans inForce)
  known subscribed := (congrArg Option.isSome same).trans (tracked.known subscribed)
  introduced live := by
    rcases tracked.introduced live with known | waiting
    · exact .inl ((congrArg Option.isSome same).trans known)
    · exact .inr waiting
  kept := tracked.kept
  agreed := tracked.agreed

theorem Tracked.setRate {rate : Rate} (tracked : Tracked tx w)
    (undisturbed : w.request = rate → w.Live → w.announced = some rate) : Tracked tx (w.setRate rate) := by
  unfold ViewWatch.setRate
  split
  · next stored =>
    refine { tracked with kept := fun _ other last => ?_, agreed := fun live _ other last => ?_ }
    · obtain rfl := (Prod.mk.inj (Option.some.inj last)).1
      exact stored
    · obtain rfl := (Prod.mk.inj (Option.some.inj last)).1
      exact undisturbed stored live
  · exact { tracked with kept := nofun, agreed := nofun }

theorem Tracked.readStatus (tracked : Tracked tx w) : Tracked tx w.readStatus := by
  unfold ViewWatch.readStatus
  split
  · exact { tracked with kept := nofun, agreed := nofun }
  · next offline =>
    refine { tracked with kept := fun _ other last => ?_, agreed := fun live _ other last => ?_ }
    · exact (Prod.mk.inj (Option.some.inj last)).1
    · exact absurd live.1 offline

/-- A frame made of the stored request, once the socket has taken it. -/
theorem Tracked.sendFrame {frame : RateFrame} (tracked : Tracked tx w) (made : frame.rate = w.request) :
    Tracked tx (w.sendFrame frame true) where
  tail last found := by
    have appended : (w.frames ++ [frame]).getLast? = some frame := List.getLast?_concat
    rw [show (w.sendFrame frame true).frames = w.frames ++ [frame] from rfl, appended] at found
    obtain rfl := Option.some.inj found
    rfl
  settled _ processed := absurd processed (List.append_ne_nil_of_right_ne_nil _ (List.cons_ne_nil _ _))
  known := tracked.known
  introduced live := by
    rcases tracked.introduced live with known | ⟨rate, waiting⟩
    · exact .inl known
    · exact .inr ⟨rate, List.mem_append_left _ waiting⟩
  kept := tracked.kept
  agreed _ free rate last := by
    have stored := tracked.kept free rate last
    show some frame.rate = some rate
    rw [made, stored]

theorem Tracked.sendRate (tracked : Tracked tx w) (accepted : Bool) : Tracked tx (w.sendRate accepted) := by
  cases accepted with
  | true =>
    have sent : Tracked tx (w.sendFrame (.viewSampleRate w.request) true) := tracked.sendFrame rfl
    refine { sent with kept := fun _ rate last => ?_, agreed := fun _ _ rate last => ?_ }
    · exact (Prod.mk.inj (Option.some.inj last)).1
    · exact congrArg some (Prod.mk.inj (Option.some.inj last)).1
  | false =>
    refine { tracked with kept := fun _ rate last => ?_, agreed := fun _ _ rate last => ?_ }
    · cases (Prod.mk.inj (Option.some.inj last)).2
    · cases (Prod.mk.inj (Option.some.inj last)).2

theorem Tracked.resubscribe {accepted : Bool} (tracked : Tracked tx w) (pending : 0 < w.resubscribing)
    (undisturbed : Undisturbed tx w (.resubscribe accepted)) : Tracked tx (w.resubscribe accepted) := by
  cases accepted with
  | true =>
    have sent : Tracked tx (w.sendFrame (.view w.request) true) := tracked.sendFrame rfl
    refine { sent with
      introduced := fun _ => .inr ⟨w.request, List.mem_append_right _ (List.mem_singleton_self _)⟩
      agreed := fun _ free rate last => congrArg some (tracked.kept free rate last) }
  | false =>
    have given : (w.resubscribe false).Live → w.Introduced tx ∧ w.announced = some w.request := by
      rintro ⟨connected, alive, none_left⟩
      have one : w.resubscribing - 1 = 0 := none_left
      exact undisturbed rfl connected alive (by omega)
    refine { tracked with
      introduced := fun live => (given live).1
      agreed := fun live free rate last => (given live).2.trans (congrArg some (tracked.kept free rate last)) }

theorem rateOf_process (frame : RateFrame) (now : Nat) : rateOf (w.process tx now frame) tx =
    match frame with
    | .view rate => if w.subscribed then w.inForce tx else some rate
    | .viewSampleRate rate => (w.inForce tx).map fun _ => rate := by
  unfold ViewWatch.process
  cases frame with
  | view rate =>
    cases w.subscribed with
    | true => rfl
    | false => exact rateOf_subscribe _ _ _
  | viewSampleRate rate => exact rateOf_setRate _ _ _

theorem Tracked.receive {frame : RateFrame} {rest : List RateFrame} {now : Nat} (tracked : Tracked tx w)
    (queued : w.frames = frame :: rest) (undisturbed : Undisturbed tx w (.receive now)) :
    Tracked tx { w with delivery := w.process tx now frame, frames := rest } := by
  have left : rateOf (w.process tx now frame) tx = _ := rateOf_process frame now
  have stays : (w.inForce tx).isSome = true →
      (rateOf (w.process tx now frame) tx).isSome = true := by
    intro known
    rw [left]
    cases frame with
    | view rate =>
      dsimp only
      split
      · exact known
      · rfl
    | viewSampleRate rate => simpa using known
  have last := tracked.tail
  rw [queued] at last
  refine ⟨fun final found => last final ?_, fun _ processed rate inForce => ?_,
    fun subscribed => stays (tracked.known subscribed), fun live => ?_, tracked.kept, tracked.agreed⟩
  · rw [List.getLast?_cons, Option.mem_def.mp found]
    rfl
  · obtain rfl : rest = [] := processed
    have announced := last frame rfl
    rw [announced]
    have now_left := left.symm.trans inForce
    cases frame with
    | view sent =>
      dsimp only at now_left
      split at now_left
      · next subscribed => exact (undisturbed sent queued subscribed).symm.trans now_left
      · exact now_left
    | viewSampleRate sent =>
      obtain ⟨_, _, same⟩ := Option.map_eq_some_iff.mp now_left
      exact congrArg some same
  · rcases tracked.introduced live with known | ⟨rate, waiting⟩
    · exact .inl (stays known)
    · rw [queued] at waiting
      rcases List.mem_cons.mp waiting with first | later
      · refine .inl ((congrArg Option.isSome left).trans ?_)
        rw [← first]
        dsimp only
        split
        · next subscribed => exact tracked.known subscribed
        · rfl
      · exact .inr ⟨rate, later⟩

theorem tracked_step (tracked : Tracked tx w) (undisturbed : Undisturbed tx w event)
    (stepped : w.step tx event = some v) : Tracked tx v := by
  cases event with
  | setRate rate =>
    obtain ⟨-, stepped⟩ := Option.ite_none_right_eq_some.mp stepped
    obtain rfl := Option.some.inj stepped
    exact tracked.setRate undisturbed
  | readStatus =>
    obtain ⟨-, stepped⟩ := Option.ite_none_right_eq_some.mp stepped
    obtain rfl := Option.some.inj stepped
    exact tracked.readStatus
  | send accepted =>
    obtain ⟨-, stepped⟩ := Option.ite_none_right_eq_some.mp stepped
    obtain rfl := Option.some.inj stepped
    exact tracked.sendRate accepted
  | resubscribe accepted =>
    obtain ⟨⟨-, pending⟩, stepped⟩ := Option.ite_none_right_eq_some.mp stepped
    obtain rfl := Option.some.inj stepped
    exact tracked.resubscribe pending undisturbed
  | opened =>
    obtain ⟨-, stepped⟩ := Option.ite_none_right_eq_some.mp stepped
    obtain rfl := Option.some.inj stepped
    exact ⟨tracked.tail, nofun, nofun, fun live => (nomatch live.1), tracked.kept,
      fun live => (nomatch live.1)⟩
  | statusConnected =>
    obtain ⟨-, stepped⟩ := Option.ite_none_right_eq_some.mp stepped
    obtain rfl := Option.some.inj stepped
    refine { tracked with introduced := fun live => ?_, agreed := fun live => ?_ }
    · exact absurd live.2.2 (Nat.succ_ne_zero _)
    · exact absurd live.2.2 (Nat.succ_ne_zero _)
  | lost taken =>
    obtain ⟨-, stepped⟩ := Option.ite_none_right_eq_some.mp stepped
    obtain rfl := Option.some.inj stepped
    refine ⟨fun frame found => tracked.tail frame ?_, nofun, tracked.known, fun live => (nomatch live.2.1),
      tracked.kept, fun live => (nomatch live.2.1)⟩
    rw [List.getLast?_drop] at found
    split at found
    · cases found
    · exact found
  | statusDisconnected =>
    obtain ⟨-, stepped⟩ := Option.ite_none_left_eq_some.mp stepped
    obtain rfl := Option.some.inj stepped
    exact { tracked with introduced := fun live => (nomatch live.1), agreed := fun live => (nomatch live.1) }
  | receive now =>
    simp only [step] at stepped
    split at stepped
    · cases stepped
    · next frame rest queued =>
      obtain ⟨-, stepped⟩ := Option.ite_none_right_eq_some.mp stepped
      obtain rfl := Option.some.inj stepped
      exact tracked.receive queued undisturbed
  | subscriptionReady =>
    obtain ⟨known, stepped⟩ := Option.ite_none_right_eq_some.mp stepped
    obtain rfl := Option.some.inj stepped
    exact { tracked with known := fun _ => known }
  | push response now =>
    obtain rfl := Option.some.inj stepped
    exact tracked.of_rateOf (rateOf_push _ _ _)
  | tick now found =>
    obtain rfl := Option.some.inj stepped
    exact tracked.of_rateOf (rateOf_takeDue _ _ _)

/-- In a run none of whose steps disturbs it, the last rate wins in every state. -/
theorem last_rate_wins {rate : Rate} {connected : Bool} {events : List WatchEvent}
    (undisturbed : Each (step tx) (Undisturbed tx) (start rate connected) events)
    (ran : run (step tx) (start rate connected) events = some w) :
    Always (step tx) (LastRateWins tx) (start rate connected) events :=
  undisturbed.always ran (tracked_start rate connected) tracked_step Tracked.lastRateWins

/-! ### A rate that is set, and ways to lose one -/

def slow : Rate := some ⟨33, by decide⟩

/-- The view is subscribed, and a rate is set while it is. -/
def rateSet : List WatchEvent :=
  [.resubscribe true, .receive 0, .subscriptionReady, .setRate slow, .readStatus, .send true, .receive 1]

theorem last_rate_wins_rateSet :
    ∃ w, run (step "v") (start none true) rateSet = some w ∧ w.Live ∧ w.last = some (slow, true) ∧
      Always (step "v") (LastRateWins "v") (start none true) rateSet := by
  have ran : run (step "v") (start none true) rateSet = some _ := rfl
  refine ⟨_, ran, ⟨rfl, rfl, rfl⟩, rfl, last_rate_wins ?_ ran⟩
  refine (each_cons rfl).mpr ⟨nofun, (each_cons rfl).mpr ⟨nofun, (each_cons rfl).mpr ⟨trivial, ?_⟩⟩⟩
  refine (each_cons rfl).mpr ⟨nofun, (each_cons rfl).mpr ⟨trivial, (each_cons rfl).mpr ⟨trivial, ?_⟩⟩⟩
  exact (each_cons rfl).mpr ⟨nofun, trivial⟩

/-- A call whose frame is refused leaves its rate stored, and repeating it sends nothing. -/
theorem repeated_rate_lost : ∃ w, run (step "v") (start none true)
    [.resubscribe true, .receive 0, .setRate slow, .readStatus, .send false, .setRate slow] = some w ∧
      w.last = some (slow, true) ∧ w.inForce "v" = some none ∧ ¬ LastRateWins "v" w := by
  refine ⟨_, rfl, rfl, rfl, fun wins => ?_⟩
  exact nomatch wins ⟨rfl, rfl, rfl⟩ rfl rfl slow rfl

/-- A view frame left from the lost connection subscribes with the old rate, and the one with the new rate is
taken for a duplicate. -/
theorem stale_view_keeps_rate : ∃ w, run (step "v") (start none true)
    [.resubscribe true, .lost 0, .statusDisconnected, .setRate slow, .readStatus, .opened, .receive 0,
      .subscriptionReady, .statusConnected, .resubscribe true, .receive 1] = some w ∧
      w.last = some (slow, true) ∧ w.inForce "v" = some none ∧ ¬ LastRateWins "v" w := by
  refine ⟨_, rfl, rfl, rfl, fun wins => ?_⟩
  exact nomatch wins ⟨rfl, rfl, rfl⟩ rfl rfl slow rfl

end ViewWatch

end Myko.SampleRate

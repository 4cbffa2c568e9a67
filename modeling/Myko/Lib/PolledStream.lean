import Mathlib.Tactic.TypeStar

/-!
Streams that are polled: each poll gives an item, says that there will be no more, or pends until it is polled again.
An operator takes the items of a stream one by one until it has one of its own to give.
-/

namespace Myko

inductive Poll (α : Type*) where
  | ready (item : α)
  | finished
  | pending

def Poll.items {α : Type*} : Poll α → List α
  | ready item => [item]
  | finished | pending => []

/-- A stream by the state it is polled in. Only so many items are there at a time. -/
structure PolledStream (σ α : Type*) where
  poll : σ → Poll α × σ
  remaining : σ → Nat
  spends : ∀ {s item next}, poll s = (.ready item, next) → remaining next < remaining s

/-- A machine that is given items and may give one of its own for each. -/
abbrev Machine (τ α β : Type*) := τ → α → τ × Option β

namespace Machine

variable {τ α β : Type*} (machine : Machine τ α β)

def after (state : τ) (items : List α) : τ := items.foldl (fun state item => (machine state item).1) state

def outputs : τ → List α → List β
  | _, [] => []
  | state, item :: rest => (machine state item).2.toList ++ outputs (machine state item).1 rest

@[simp] theorem after_nil (state : τ) : machine.after state [] = state := rfl

@[simp] theorem after_cons (state : τ) (item : α) (rest : List α) :
    machine.after state (item :: rest) = machine.after (machine state item).1 rest := rfl

theorem after_append (state : τ) (first rest : List α) :
    machine.after state (first ++ rest) = machine.after (machine.after state first) rest := List.foldl_append

@[simp] theorem outputs_nil (state : τ) : machine.outputs state [] = [] := rfl

@[simp] theorem outputs_cons (state : τ) (item : α) (rest : List α) :
    machine.outputs state (item :: rest) =
      (machine state item).2.toList ++ machine.outputs (machine state item).1 rest := rfl

theorem outputs_append (state : τ) (first rest : List α) :
    machine.outputs state (first ++ rest) =
      machine.outputs state first ++ machine.outputs (machine.after state first) rest := by
  induction first generalizing state with
  | nil => rfl
  | cons item first ih => simp [ih]

end Machine

namespace PolledStream

variable {σ τ α β : Type*}

/-- Poll a stream until the machine gives an item or the stream has none. -/
def pollThrough (stream : PolledStream σ α) (machine : Machine τ α β) (state : τ) (s : σ) : Poll β × (τ × σ) :=
  match polled : stream.poll s with
  | (.ready item, next) =>
    match machine state item with
    | (state, some output) => (.ready output, state, next)
    | (state, none) => pollThrough stream machine state next
  | (.finished, next) => (.finished, state, next)
  | (.pending, next) => (.pending, state, next)
termination_by stream.remaining s
decreasing_by exact stream.spends polled

/-- A stream that is polled again and again, and what it gives; between polls its state may be moved by others. -/
inductive Yields (stream : PolledStream σ α) (moves : σ → σ → Prop) : σ → List α → σ → Prop where
  | nothing (s : σ) : Yields stream moves s [] s
  | polled {s next : σ} {rest : List α} (later : Yields stream moves (stream.poll s).2 rest next) :
      Yields stream moves s ((stream.poll s).1.items ++ rest) next
  | moved {s mid next : σ} {items : List α} (move : moves s mid) (later : Yields stream moves mid items next) :
      Yields stream moves s items next

variable {stream : PolledStream σ α} {moves : σ → σ → Prop} {machine : Machine τ α β}

theorem Yields.trans {s mid next : σ} {first rest : List α} (yields : stream.Yields moves s first mid)
    (later : stream.Yields moves mid rest next) : stream.Yields moves s (first ++ rest) next := by
  induction yields with
  | nothing s => exact later
  | polled _ ih =>
    rw [List.append_assoc]
    exact .polled (ih later)
  | moved move _ ih => exact .moved move (ih later)

theorem Yields.once (s : σ) : stream.Yields moves s (stream.poll s).1.items (stream.poll s).2 := by
  have polled : stream.Yields moves s _ _ := .polled (.nothing (stream.poll s).2)
  rwa [List.append_nil] at polled

/-- What one poll takes of the stream is what the machine was given for it; it pends where the stream does. -/
theorem pollThrough_takes (moves : σ → σ → Prop) (state : τ) (s : σ) :
    ∃ items, stream.Yields moves s items (stream.pollThrough machine state s).2.2 ∧
      (stream.pollThrough machine state s).1.items = machine.outputs state items ∧
      (stream.pollThrough machine state s).2.1 = machine.after state items ∧
      ((stream.pollThrough machine state s).1 = .pending →
        ∃ last, stream.poll last = (.pending, (stream.pollThrough machine state s).2.2)) := by
  fun_induction pollThrough stream machine state s with
  | case1 state s item next polled after output made =>
    have once : stream.Yields moves s _ _ := .once s
    rw [polled] at once
    exact ⟨[item], once, by simp [made, Poll.items], by simp [made], fun pends => by cases pends⟩
  | case2 state s item next polled after made ih =>
    obtain ⟨items, takes, outputs, reached, pends⟩ := ih
    have once : stream.Yields moves s _ _ := .once s
    rw [polled] at once
    exact ⟨item :: items, once.trans takes, by simp [made, outputs], by simp [made, reached], pends⟩
  | case3 state s next polled =>
    have once : stream.Yields moves s _ _ := .once s
    rw [polled] at once
    exact ⟨[], once, rfl, rfl, fun pends => by cases pends⟩
  | case4 state s next polled =>
    have once : stream.Yields moves s _ _ := .once s
    rw [polled] at once
    exact ⟨[], once, rfl, rfl, fun _ => ⟨s, polled⟩⟩

theorem pollThrough_spends (state : τ) (s : σ) {output : β} {next : τ × σ}
    (polled : stream.pollThrough machine state s = (.ready output, next)) :
    stream.remaining next.2 < stream.remaining s := by
  fun_induction pollThrough stream machine state s with
  | case1 state s item mid here after made equation =>
    cases polled
    exact stream.spends here
  | case2 state s item mid here after made ih =>
    exact Nat.lt_trans (ih polled) (stream.spends here)
  | case3 state s mid here => cases polled
  | case4 state s mid here => cases polled

/-- The stream of what a machine gives for the items of a stream. -/
def through (stream : PolledStream σ α) (machine : Machine τ α β) : PolledStream (τ × σ) β where
  poll state := stream.pollThrough machine state.1 state.2
  remaining state := stream.remaining state.2
  spends polled := pollThrough_spends _ _ polled

/-- What holds where a stream pends holds where an operator on it does. -/
theorem pends_through {holds : σ → Prop} (pends : ∀ s next, stream.poll s = (.pending, next) → holds next)
    (state next : τ × σ) (polled : (stream.through machine).poll state = (.pending, next)) : holds next.2 := by
  obtain ⟨_, _, _, _, passed⟩ := @pollThrough_takes _ _ _ _ stream machine (fun _ _ => False) state.1 state.2
  obtain ⟨last, pending⟩ := passed (congrArg Prod.fst polled)
  have reached : stream.pollThrough machine state.1 state.2 = (.pending, next) := polled
  rw [reached] at pending
  exact pends last next.2 pending

/-- Moves of the state of a stream within that of an operator on it. -/
def Within (τ : Type*) (moves : σ → σ → Prop) (before after : τ × σ) : Prop :=
  before.1 = after.1 ∧ moves before.2 after.2

/-- However it is polled, the stream gives what the machine gives for the items it has taken. -/
theorem yields_through {moves : σ → σ → Prop} {start next : τ × σ} {given : List β}
    (yields : (stream.through machine).Yields (Within τ moves) start given next) :
    ∃ taken, stream.Yields moves start.2 taken next.2 ∧ given = machine.outputs start.1 taken ∧
      next.1 = machine.after start.1 taken := by
  induction yields with
  | nothing s => exact ⟨[], .nothing _, rfl, rfl⟩
  | polled later ih =>
    rename_i s next rest
    obtain ⟨taken, yields, gives, reached⟩ := ih
    obtain ⟨items, takes, outputs, after, _⟩ := @pollThrough_takes _ _ _ _ stream machine moves s.1 s.2
    refine ⟨items ++ taken, takes.trans yields, ?_, ?_⟩
    · rw [Machine.outputs_append, ← after, ← outputs, gives]
      rfl
    · rw [Machine.after_append, ← after, reached]
      rfl
  | moved move _ ih =>
    obtain ⟨taken, yields, gives, reached⟩ := ih
    refine ⟨taken, .moved move.2 yields, ?_, ?_⟩
    · rw [move.1]
      exact gives
    · rw [move.1]
      exact reached

end PolledStream

end Myko

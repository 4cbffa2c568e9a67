import Myko.Server.Run

/-!
Invariants of the stores and the graph under calls that go through. What a root derives for itself is
known in kind; what it was opened with is known from the call.
-/

namespace Myko
open StateError

variable {ctx : MykoServerContext}

/-- The mutation a root is opened with, or the one reduced at once. -/
def Submission.pending (ctx : MykoServerContext) : Submission → PendingMutation
  | .uniform items change origin mode =>
    if needsCausalRoot ctx items change origin then
      uniformPending ctx (.begin "") items change origin mode
    else directPending items change origin mode
  | .replace upserts deletes =>
    replacePending ctx (.begin "") upserts deletes .localOrigin .authoritative none

/-- The items a uniform submission comes to be reduced with: opening a root, it loses repeated
transitions. -/
def entered (ctx : MykoServerContext) (items : List Item) (change : MEventType) (origin : Origin) :
    List Item :=
  if needsCausalRoot ctx items change origin then unseen ctx change [] items else items

theorem entered_sublist (items : List Item) (change : MEventType) (origin : Origin) :
    (entered ctx items change origin).Sublist items := by
  unfold entered
  split
  · exact unseen_sublist _ _ _
  · exact List.Sublist.refl _

theorem pending_kind (items : List Item) (change : MEventType) (origin : Origin) (mode : EdgeApplyMode) :
    ((Submission.uniform items change origin mode).pending ctx).kind =
      .uniform (entered ctx items change origin) change := by
  dsimp only [Submission.pending, entered]
  split <;> rfl

theorem pending_mode (items : List Item) (change : MEventType) (origin : Origin) (mode : EdgeApplyMode) :
    ((Submission.uniform items change origin mode).pending ctx).mode = mode := by
  dsimp only [Submission.pending]
  split <;> rfl

/-- Something about the stores and the graph that is kept by every commit of a mutation that satisfies
`First`. Derived mutations satisfy `Derived`, and that wherever they are reduced; `M` are the modes a
root can be under way in. -/
structure CommitInvariant (ctx : MykoServerContext) (Step : ServerState → Call → Prop)
    (M : Option EdgeApplyMode → Prop) (First : ServerState → PendingMutation → Prop)
    (Derived : PendingMutation → Prop) (K : ServerState → Prop) : Prop where
  core : ∀ {s t}, SameCore s t → K s → K t
  first : ∀ {s t pending}, SameCore s t → First s pending → First t pending
  mode : ∀ {s pending}, First s pending → M (some pending.mode)
  anywhere : ∀ {s pending}, Derived pending → First s pending
  derived : ∀ {c : CausalState} {items change origin}, M c.currentMode →
    Derivable items change origin → Derived (uniformPending ctx c items change origin .authoritative)
  opens : M none
  entries : ∀ {s call}, Step s call →
    Entries ctx (fun s submission => First s (submission.pending ctx)) (call.submissions ctx s)
      (call.start s)
  commit : ∀ {s t pending cascades}, K s → First s pending →
    planPending ctx s pending = .ok (some cascades) → Committed ctx s pending t → K t
  other : ∀ {s call}, K s → ¬call.Submits → Step s call → K (final (call.run ctx) s)

/-- A root under way whose next mutation satisfies `First`, and the later ones `Derived`. -/
def Underway (M : Option EdgeApplyMode → Prop) (First : ServerState → PendingMutation → Prop)
    (Derived : PendingMutation → Prop) (s : ServerState) : Prop :=
  ∃ c, s.causal = some c ∧ M c.currentMode ∧ (∀ pending ∈ c.queue.head?, First s pending) ∧
    ∀ pending ∈ c.queue.tail, Derived pending

section
variable {Step : ServerState → Call → Prop} {M : Option EdgeApplyMode → Prop}
  {First : ServerState → PendingMutation → Prop} {Derived : PendingMutation → Prop}
  {K : ServerState → Prop}

theorem underway_of_single {c : CausalState} {s : ServerState} {pending : PendingMutation}
    {none : Prop} [Decidable none] (causal : s.causal = some c) (mode : M c.currentMode)
    (queue : c.queue = [] ++ if none then [] else [pending]) (first : First s pending) :
    Underway M First Derived s := by
  refine ⟨c, causal, mode, ?_, ?_⟩
  · rw [queue]
    split
    · simp
    · simpa using first
  · rw [queue]
    split <;> simp

theorem CommitInvariant.reduced (inv : CommitInvariant ctx Step M First Derived K)
    {s : ServerState} {pending : PendingMutation} (holds : K s) (first : First s pending)
    (reduces : Reduces ctx s pending) :
    K (final (reducePending ctx (submitDerived ctx) pending) s) := by
  obtain ⟨applied, t, run⟩ := reduces
  rw [final_of_ok run]
  rcases reduced_ok run with ⟨-, same⟩ | ⟨cascades, u, plan, committed, same⟩
  · rw [same]
    exact holds
  · exact inv.core same (inv.commit holds first plan committed)

theorem CommitInvariant.callInvariant (inv : CommitInvariant ctx Step M First Derived K) :
    CallInvariant ctx Step (fun s submission => First s (submission.pending ctx))
      (fun s pending => True ∧ Reduces ctx s pending) Drained K
      fun s => K s ∧ Underway M First Derived s where
  enter := by
    intro s t items change origin mode holds outside rooted admits queued
    obtain ⟨c, rfl, submitted⟩ := enqueueCausal_ok rfl queued
    have opened : SameCore s { s.opened ctx with causal := some c } := ⟨rfl, rfl, rfl, rfl⟩
    rw [Submission.pending, if_pos rooted] at admits
    refine ⟨inv.core opened holds, ?_⟩
    exact underway_of_single rfl (submitted.currentMode ▸ inv.opens) submitted.queue
      (inv.first opened admits)
  replace := by
    intro s t upserts deletes holds outside admits queued
    obtain ⟨c, rfl, extends_, -, -⟩ := enqueueCausalReplace_ok rfl queued
    have opened : SameCore s { s.opened ctx with causal := some c } := ⟨rfl, rfl, rfl, rfl⟩
    refine ⟨inv.core opened holds, ?_⟩
    exact underway_of_single rfl (extends_.currentMode ▸ inv.opens) extends_.queue
      (inv.first opened admits)
  reduce := by
    rintro s c pending queue ⟨holds, c', causal', mode, head, tail⟩ causal queued ⟨-, reduces⟩
    obtain rfl : c' = c := Option.some.inj (causal'.symm.trans causal)
    rw [queued] at head tail
    have popped : SameCore s { s with causal := some (c'.pop pending queue) } := ⟨rfl, rfl, rfl, rfl⟩
    have first := inv.first popped (head pending rfl)
    refine ⟨inv.reduced (inv.core popped holds) first reduces, ?_⟩
    obtain ⟨applied, t, run⟩ := reduces
    rw [final_of_ok run]
    have inside : Inside M Derived { s with causal := some (c'.pop pending queue) } :=
      ⟨_, rfl, inv.mode first, tail⟩
    obtain ⟨after, causal, mode, derived⟩ := inside_reducePending inv.derived run inside
    refine ⟨after, causal, mode, fun pending member => ?_, fun pending member => ?_⟩
    · exact inv.anywhere (derived pending (List.mem_of_mem_head? member))
    · exact derived pending (List.mem_of_mem_tail member)
  direct := by
    rintro s items change origin mode holds - direct admits ⟨-, reduces⟩
    rw [Submission.pending, direct] at admits
    exact inv.reduced holds admits reduces
  close := fun {s} holds _ => inv.core (s := s) ⟨rfl, rfl, rfl, rfl⟩ holds.1
  entries := inv.entries
  buffers := fun {s _} holds => inv.core (s := s) ⟨rfl, rfl, rfl, rfl⟩ holds
  other := fun holds _ other step => inv.other holds other step

/-- What every commit keeps, every call that goes through keeps. -/
theorem CommitInvariant.call (inv : CommitInvariant ctx Step M First Derived K) {call : Call}
    {s : ServerState} (holds : K s) (outside : s.causal = none) (step : Step s call)
    (ok : call.Submits → call.Succeeds ctx s) :
    K (final (call.run ctx) s) ∧ (final (call.run ctx) s).causal = none :=
  call_keeps_ok inv.callInvariant holds outside step (fun _ _ => trivial) ok

/-- What every commit keeps, every run of calls that go through keeps. -/
theorem CommitInvariant.run (inv : CommitInvariant ctx Step M First Derived K) (initial : K .initial)
    (ok : ∀ s call, Step s call → call.Submits → call.Succeeds ctx s) {s : ServerState}
    (run : Run ctx Step s) : K s :=
  (run_keeps_ok inv.callInvariant initial (fun _ _ _ _ _ => trivial) ok run).1

end
end Myko

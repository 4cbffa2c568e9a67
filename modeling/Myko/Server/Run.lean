import Myko.Server.Queue

/-!
Runs of public calls. A call is taken apart into the reductions it makes, so that what every reduction
keeps is kept by every call and every run of calls.
-/

namespace Myko
open StateError

variable {ctx : MykoServerContext}

/-- A mutation a call submits. -/
inductive Submission where
  | uniform (items : List Item) (change : MEventType) (origin : Origin) (mode : EdgeApplyMode)
  | replace (upserts deletes : List Item)

/-! ### The reductions of a submission -/

/-- A pending mutation and the state it is reduced in. -/
abbrev Reduction := ServerState × PendingMutation

def drainReductions (ctx : MykoServerContext) (halt : Bool) : Nat → ServerState → List Reduction
  | 0, _ => []
  | fuel + 1, s =>
    match popPending s with
    | .ok (some pending) t =>
      (t, pending) ::
        match reducePending ctx (submitDerived ctx) pending t with
        | .ok applied u => if halt && !applied then [] else drainReductions ctx halt fuel u
        | .error _ _ => []
    | _ => []

/-- The state a root is opened in. -/
def ServerState.opened (s : ServerState) (ctx : MykoServerContext) : ServerState :=
  { s with
    causal := some (.begin (ctx.uuid s.uuids))
    uuids := s.uuids + 1 }

def ServerState.closed (s : ServerState) : ServerState := { s with causal := none }

def rootReductions (ctx : MykoServerContext) (halt : Bool) (items : List Item)
    (enqueue : ServerM Unit) (s : ServerState) : List Reduction :=
  match enqueue (s.opened ctx) with
  | .ok () t => drainReductions ctx halt (drainBound s.causalLimits items) t
  | .error _ _ => []

/-- A mutation reduced on its own. -/
def directPending (items : List Item) (change : MEventType) (origin : Origin) (mode : EdgeApplyMode) :
    PendingMutation :=
  { kind := .uniform items change, origin, mode, depth := 0, chain := [] }

def submitReductions (ctx : MykoServerContext) (items : List Item) (change : MEventType)
    (origin : Origin) (mode : EdgeApplyMode) (s : ServerState) : List Reduction :=
  if s.causal.isSome then []
  else if needsCausalRoot ctx items change origin then
    rootReductions ctx false items (enqueueCausal ctx items change origin mode) s
  else [(s, directPending items change origin mode)]

def replaceReductions (ctx : MykoServerContext) (upserts deletes : List Item) (origin : Origin)
    (s : ServerState) : List Reduction :=
  if s.causal.isSome || (upserts.isEmpty && deletes.isEmpty) then []
  else rootReductions ctx true (upserts ++ deletes)
    (enqueueCausalReplace ctx upserts deletes origin .authoritative none) s

/-- Every reduction is one that `Cond` allows. -/
def Allowed (Cond : ServerState → PendingMutation → Prop) (reductions : List Reduction) : Prop :=
  ∀ reduction ∈ reductions, Cond reduction.1 reduction.2

/-- A reduction that goes through. -/
def Reduces (ctx : MykoServerContext) (s : ServerState) (pending : PendingMutation) : Prop :=
  ∃ applied t, reducePending ctx (submitDerived ctx) pending s = .ok applied t

/-- A reduction that goes through leaves the stores and the graph as its commit does, if it applies. -/
theorem reduced_ok {pending : PendingMutation} {s t : ServerState} {applied : Bool}
    (run : reducePending ctx (submitDerived ctx) pending s = .ok applied t) :
    (planPending ctx s pending = .ok none ∧ t = s) ∨
      ∃ cascades u, planPending ctx s pending = .ok (some cascades) ∧ Committed ctx s pending u ∧
        SameCore u t := by
  rcases reducePending_ok run with ⟨commit, -⟩ | ⟨cascades, u, commit, -, -⟩
  · exact .inl (commitPending_ok commit)
  · obtain ⟨plan, committed⟩ := commitPending_ok commit
    have same := sameCore_after_commit ctx pending s
    rw [final_of_ok commit, final_of_ok run] at same
    exact .inr ⟨cascades, u, plan, committed, same⟩

/-! ### Invariants -/

/-- Something kept from call to call, `I` between calls and `J` while a root is drained, if every
submission is one that `Admits` and every reduction one that `Cond` allows. `Ends` are the states in
which a root may be left. -/
structure RootInvariant (ctx : MykoServerContext) (Admits : ServerState → Submission → Prop)
    (Cond : ServerState → PendingMutation → Prop) (Ends I J : ServerState → Prop) : Prop where
  enter : ∀ {s t items change origin mode}, I s → s.causal = none →
    needsCausalRoot ctx items change origin = true → Admits s (.uniform items change origin mode) →
    enqueueCausal ctx items change origin mode (s.opened ctx) = .ok () t → J t
  replace : ∀ {s t upserts deletes}, I s → s.causal = none → Admits s (.replace upserts deletes) →
    enqueueCausalReplace ctx upserts deletes .localOrigin .authoritative none (s.opened ctx) = .ok () t →
    J t
  reduce : ∀ {s c pending queue}, J s → s.causal = some c → c.queue = pending :: queue →
    Cond { s with causal := some (c.pop pending queue) } pending →
    J (final (reducePending ctx (submitDerived ctx) pending)
      { s with causal := some (c.pop pending queue) })
  direct : ∀ {s items change origin mode}, I s → s.causal = none →
    needsCausalRoot ctx items change origin = false → Admits s (.uniform items change origin mode) →
    Cond s (directPending items change origin mode) →
    I (final (reducePending ctx (submitDerived ctx) (directPending items change origin mode)) s)
  close : ∀ {s}, J s → Ends s → I s.closed

section
variable {Admits : ServerState → Submission → Prop} {Cond : ServerState → PendingMutation → Prop}
  {Ends I J : ServerState → Prop}

theorem popPending_cases (s : ServerState) :
    popPending s = .ok none s ∨ ∃ c pending queue, s.causal = some c ∧ c.queue = pending :: queue ∧
      popPending s = .ok (some pending) { s with causal := some (c.pop pending queue) } := by
  cases causal : s.causal with
  | none =>
    left
    unfold popPending
    simp only [causal]
  | some c =>
    cases queue : c.queue with
    | nil => exact .inl (popPending_nil causal queue)
    | cons pending rest => exact .inr ⟨c, pending, rest, rfl, queue, popPending_cons causal queue⟩

theorem drain_keeps (inv : RootInvariant ctx Admits Cond Ends I J) {halt : Bool} {fuel : Nat}
    {s : ServerState} (holds : J s) (allowed : Allowed Cond (drainReductions ctx halt fuel s)) :
    J (final (drain ctx (submitDerived ctx) halt fuel) s) := by
  induction fuel generalizing s with
  | zero => exact holds
  | succ fuel ih =>
    rw [drain, final_bind]
    rw [drainReductions] at allowed
    rcases popPending_cases s with pop | ⟨c, pending, queue, causal, queued, pop⟩
    · rw [pop]
      exact holds
    · rw [pop] at allowed ⊢
      dsimp only at allowed ⊢
      have reduced := inv.reduce holds causal queued (allowed _ List.mem_cons_self)
      rw [final_bind]
      cases run : reducePending ctx (submitDerived ctx) pending
          { s with causal := some (c.pop pending queue) } with
      | error error u =>
        rw [final_of_error run] at reduced
        exact reduced
      | ok applied u =>
        rw [final_of_ok run] at reduced
        rw [run] at allowed
        dsimp only at allowed ⊢
        split
        · exact reduced
        · rename_i goes
          rw [if_neg goes] at allowed
          exact ih reduced fun r member => allowed r (List.mem_cons_of_mem _ member)

/-- Draining that goes through has only gone through reductions. -/
theorem drain_reduces {halt applied : Bool} {fuel : Nat} {s t : ServerState}
    (run : drain ctx (submitDerived ctx) halt fuel s = .ok applied t) :
    Allowed (Reduces ctx) (drainReductions ctx halt fuel s) := by
  induction fuel generalizing s with
  | zero => exact fun _ member => absurd member (by simp [drainReductions])
  | succ fuel ih =>
    rw [drain] at run
    rw [drainReductions]
    rcases popPending_cases s with pop | ⟨c, pending, queue, causal, queued, pop⟩
    · rw [pop]
      exact fun _ member => absurd member (by simp)
    · rw [bind_of_ok pop] at run
      obtain ⟨applied', u, reduced, run⟩ := bind_ok run
      rw [pop]
      dsimp only
      rw [reduced]
      dsimp only
      intro r member
      rcases List.mem_cons.mp member with rfl | member
      · exact ⟨applied', u, reduced⟩
      · split at member
        · simp at member
        · rename_i goes
          rw [if_neg goes] at run
          exact ih run r member

/-- A root enqueues and drains, and whatever comes of it leaves no transaction. -/
theorem runRoot_eq (halt : Bool) (items : List Item) (enqueue : ServerM Unit) (s : ServerState) :
    runRoot ctx (submitDerived ctx) halt items enqueue s =
      match enqueue (s.opened ctx) with
      | .error error t => .error error t.closed
      | .ok () t =>
        match drain ctx (submitDerived ctx) halt (drainBound s.causalLimits items) t with
        | .error error u => .error error u.closed
        | .ok applied u => .ok applied u.closed := by
  unfold runRoot
  rw [bind_of_ok (modify_eq _ s), bind_of_ok (get_eq _)]
  change (attempt _ >>= _) (s.opened ctx) = _
  rw [bind_eq, attempt_eq, bind_eq]
  cases enqueue (s.opened ctx) with
  | error error t => rfl
  | ok _ t =>
    dsimp only
    have limits : (s.opened ctx).causalLimits = s.causalLimits := rfl
    cases drain ctx (submitDerived ctx) halt (drainBound s.causalLimits items) t <;> rfl

theorem runRoot_ok {halt applied : Bool} {items : List Item} {enqueue : ServerM Unit}
    {s t : ServerState}
    (run : runRoot ctx (submitDerived ctx) halt items enqueue s = .ok applied t) :
    ∃ u v, enqueue (s.opened ctx) = .ok () u ∧
      drain ctx (submitDerived ctx) halt (drainBound s.causalLimits items) u = .ok applied v ∧
      t = v.closed := by
  rw [runRoot_eq] at run
  cases queued : enqueue (s.opened ctx) with
  | error error u =>
    rw [queued] at run
    cases run
  | ok _ u =>
    rw [queued] at run
    dsimp only at run
    cases drained : drain ctx (submitDerived ctx) halt (drainBound s.causalLimits items) u with
    | error error v =>
      rw [drained] at run
      cases run
    | ok applied' v =>
      rw [drained] at run
      cases run
      exact ⟨u, v, rfl, drained, rfl⟩

theorem withCausal_own {first : Item} {step : CausalM Unit} {s : ServerState} {c : CausalState}
    (causal : s.causal = some c) (run : ∃ c', step c = .ok () c') :
    ∃ t, withCausal first step s = .ok () t := by
  obtain ⟨c', run⟩ := run
  unfold withCausal
  simp only [causal, run]
  exact ⟨_, rfl⟩

theorem enqueueCausal_own (ctx : MykoServerContext) (items : List Item) (change : MEventType)
    (origin : Origin) (mode : EdgeApplyMode) (s : ServerState) :
    ∃ t, enqueueCausal ctx items change origin mode (s.opened ctx) = .ok () t := by
  unfold enqueueCausal
  cases items with
  | nil => exact ⟨_, rfl⟩
  | cons first rest =>
    dsimp only
    rw [bind_of_ok (get_eq _)]
    exact withCausal_own rfl (enqueueUniform_own ctx _ _ _ _ _ _ rfl)

theorem enqueueCausalReplace_own (ctx : MykoServerContext) (upserts deletes : List Item)
    (origin : Origin) (mode : EdgeApplyMode) (expected : Option Nat) (s : ServerState) :
    ∃ t, enqueueCausalReplace ctx upserts deletes origin mode expected (s.opened ctx) = .ok () t := by
  unfold enqueueCausalReplace
  cases upserts.head?.or deletes.head? with
  | none => exact ⟨_, rfl⟩
  | some first =>
    dsimp only
    rw [bind_of_ok (get_eq _)]
    exact withCausal_own rfl (enqueueReplace_own ctx _ _ _ _ _ _ _ rfl)

/-- A root just opened has one mutation to reduce, and all it may derive. -/
theorem waiting_enqueueCausal {items : List Item} {change : MEventType} {origin : Origin}
    {mode : EdgeApplyMode} {s t : ServerState}
    (run : enqueueCausal ctx items change origin mode (s.opened ctx) = .ok () t) :
    ∃ c, Waiting s.causalLimits (s.causalLimits.maxDerivedMutations + 1) t c := by
  obtain ⟨c', rfl, submitted⟩ := enqueueCausal_ok rfl run
  have queue := submitted.queue
  change c'.queue = [] ++ _ at queue
  refine ⟨c', rfl, rfl, ?_, fun pending member => ?_⟩
  · unfold credit
    rw [queue]
    split <;> simp <;> omega
  · rw [queue, List.nil_append] at member
    split at member
    · simp at member
    · obtain rfl := List.mem_singleton.mp member
      rintro ⟨_, _, _, kind⟩
      cases kind

theorem waiting_enqueueCausalReplace {upserts deletes : List Item} {origin : Origin}
    {mode : EdgeApplyMode} {s t : ServerState}
    (run : enqueueCausalReplace ctx upserts deletes origin mode none (s.opened ctx) = .ok () t) :
    ∃ c, Waiting s.causalLimits (s.causalLimits.maxDerivedMutations + 1) t c := by
  obtain ⟨c', rfl, submitted, -, -⟩ := enqueueCausalReplace_ok rfl run
  have queue := submitted.queue
  change c'.queue = [] ++ _ at queue
  refine ⟨c', rfl, rfl, ?_, fun pending member => ?_⟩
  · unfold credit
    rw [queue]
    split <;> simp <;> omega
  · rw [queue, List.nil_append] at member
    split at member
    · simp at member
    · obtain rfl := List.mem_singleton.mp member
      rintro ⟨_, _, _, kind⟩
      cases kind

/-- A drain that goes through keeps an invariant about what its reductions have come to so far. -/
theorem drain_collects {β : Type} {f : Reduction → List β} {K : List β → ServerState → CausalState → Prop}
    (causal : ∀ {acc s c}, K acc s c → s.causal = some c)
    (step : ∀ {acc s c pending queue t}, K acc s c → c.queue = pending :: queue →
      Cond (s.popped c pending queue) pending →
        reducePending ctx (submitDerived ctx) pending (s.popped c pending queue) = .ok true t →
          ∃ c', K (acc ++ f (s.popped c pending queue, pending)) t c')
    {limits : CausalLimits} {bound fuel : Nat} {halt applied : Bool} {acc : List β} {s t : ServerState}
    {c : CausalState} (waiting : Waiting limits bound s c) (enough : bound < fuel) (holds : K acc s c)
    (allowed : Allowed Cond (drainReductions ctx halt fuel s))
    (run : drain ctx (submitDerived ctx) halt fuel s = .ok applied t) :
    ∃ c', c'.queue = [] ∧ K (acc ++ (drainReductions ctx halt fuel s).flatMap f) t c' := by
  induction fuel generalizing s c bound acc with
  | zero => omega
  | succ fuel ih =>
    rw [drain] at run
    rw [drainReductions] at allowed ⊢
    cases queued : c.queue with
    | nil =>
      have popped := popPending_nil waiting.causal queued
      rw [bind_of_ok popped] at run
      obtain ⟨-, rfl⟩ := pure_ok run
      rw [popped]
      dsimp only
      rw [List.flatMap_nil, List.append_nil]
      exact ⟨c, queued, holds⟩
    | cons pending rest =>
      have popped : popPending s = .ok (some pending) (s.popped c pending rest) :=
        popPending_cons waiting.causal queued
      rw [bind_of_ok popped] at run
      rw [popped] at allowed ⊢
      dsimp only at allowed ⊢
      obtain ⟨applied', u, reduced, run⟩ := bind_ok run
      obtain ⟨rfl, bound', c'', waiting', enough'⟩ := waiting.reduced enough queued reduced
      obtain ⟨c', later⟩ := step holds queued (allowed _ List.mem_cons_self) reduced
      obtain rfl : c'' = c' := Option.some.inj (waiting'.causal.symm.trans (causal later))
      rw [reduced] at allowed ⊢
      simp only [Bool.not_true, Bool.and_false, Bool.false_eq_true, ↓reduceIte] at run allowed ⊢
      rw [List.flatMap_cons, ← List.append_assoc]
      exact ih waiting' enough' later (fun r member => allowed r (List.mem_cons_of_mem _ member)) run

/-- A drain that goes through makes only reductions that an invariant of it allows. -/
theorem drain_allows {K : ServerState → CausalState → Prop} (causal : ∀ {s c}, K s c → s.causal = some c)
    (step : ∀ {s c pending queue}, K s c → c.queue = pending :: queue → Cond (s.popped c pending queue) pending ∧
      ∀ {t}, reducePending ctx (submitDerived ctx) pending (s.popped c pending queue) = .ok true t → ∃ c', K t c')
    {limits : CausalLimits} {bound fuel : Nat} {halt applied : Bool} {s t : ServerState} {c : CausalState}
    (waiting : Waiting limits bound s c) (enough : bound < fuel) (holds : K s c)
    (run : drain ctx (submitDerived ctx) halt fuel s = .ok applied t) :
    Allowed Cond (drainReductions ctx halt fuel s) := by
  induction fuel generalizing s c bound with
  | zero => omega
  | succ fuel ih =>
    rw [drain] at run
    rw [drainReductions]
    cases queued : c.queue with
    | nil =>
      rw [popPending_nil waiting.causal queued]
      exact fun _ member => absurd member List.not_mem_nil
    | cons pending rest =>
      have popped : popPending s = .ok (some pending) (s.popped c pending rest) :=
        popPending_cons waiting.causal queued
      rw [bind_of_ok popped] at run
      rw [popped]
      dsimp only
      obtain ⟨allowed, kept⟩ := step holds queued
      obtain ⟨applied', u, reduced, run⟩ := bind_ok run
      obtain ⟨rfl, bound', c'', waiting', enough'⟩ := waiting.reduced enough queued reduced
      obtain ⟨c', later⟩ := kept reduced
      obtain rfl : c'' = c' := Option.some.inj (waiting'.causal.symm.trans (causal later))
      rw [reduced]
      simp only [Bool.not_true, Bool.and_false, Bool.false_eq_true, ↓reduceIte] at run ⊢
      intro reduction member
      rcases List.mem_cons.mp member with rfl | member
      · exact allowed
      · exact ih waiting' enough' later run reduction member

/-- A root keeps what is kept by what it does. It may be left anywhere, or it goes through and is
left when it is drained. -/
theorem root_keeps (inv : RootInvariant ctx Admits Cond Ends I J) {halt : Bool} {items : List Item}
    {enqueue : ServerM Unit} {s u : ServerState} (named : items ≠ [])
    (queued : enqueue (s.opened ctx) = .ok () u) (entered : J u)
    (waiting : ∃ c, Waiting s.causalLimits (s.causalLimits.maxDerivedMutations + 1) u c)
    (allowed : Allowed Cond (rootReductions ctx halt items enqueue s))
    (ends : (∀ t, Ends t) ∨ ((∀ t, Drained t → Ends t) ∧
      ∃ applied t, runRoot ctx (submitDerived ctx) halt items enqueue s = .ok applied t)) :
    I (final (runRoot ctx (submitDerived ctx) halt items enqueue) s) := by
  unfold rootReductions at allowed
  rw [queued] at allowed
  have kept := drain_keeps inv entered allowed
  have left : final (runRoot ctx (submitDerived ctx) halt items enqueue) s =
      (final (drain ctx (submitDerived ctx) halt (drainBound s.causalLimits items)) u).closed := by
    unfold final
    rw [runRoot_eq, queued]
    dsimp only
    cases drain ctx (submitDerived ctx) halt (drainBound s.causalLimits items) u <;> rfl
  rw [left]
  refine inv.close kept ?_
  rcases ends with anywhere | ⟨drained, applied, t, run⟩
  · exact anywhere _
  · apply drained
    obtain ⟨u', v, queued', run, -⟩ := runRoot_ok run
    obtain rfl : u = u' := by
      rw [queued] at queued'
      cases queued'
      rfl
    obtain ⟨c, waits⟩ := waiting
    have length := List.length_pos_iff.mpr named
    rw [final_of_ok run]
    refine drained_of_drain waits ?_ run
    unfold drainBound
    omega

theorem runRoot_causal {halt : Bool} {items : List Item} {enqueue : ServerM Unit} (s : ServerState) :
    (final (runRoot ctx (submitDerived ctx) halt items enqueue) s).causal = none := by
  unfold final
  rw [runRoot_eq]
  cases enqueue (s.opened ctx) with
  | error error t => rfl
  | ok _ t =>
    dsimp only
    cases drain ctx (submitDerived ctx) halt (drainBound s.causalLimits items) t <;> rfl

/-- Outside a root no reduction opens one. -/
theorem reducePending_causal {pending : PendingMutation} {s : ServerState} (outside : s.causal = none) :
    (final (reducePending ctx (submitDerived ctx) pending) s).causal = none := by
  have commit : (final (commitPending ctx pending) s).causal = none := by
    rcases commitPending_final ctx pending s with ⟨same, -⟩ | ⟨_, -, applied⟩
    · rw [same, outside]
    · rw [applied.causal, outside]
  have frame : Frame (fun s t : ServerState => s.causal = none → t.causal = none)
      fun s t => s.causal = none → t.causal = none :=
    Frame.always (fun _ h => h) fun h h' none => h' (h none)
  refine moves_after_commit frame (fun aside none => aside.causal.trans none) (fun {items change origin} _ => ?_)
    ctx pending s commit
  have submits := moves_submitDerived ctx items change origin
  have closed : ∀ {s t : ServerState}, Queues s t → s.causal = none → t.causal = none :=
    fun queues none => by simpa [none] using queues.isSome
  exact Moves.intro (fun _ _ _ run => closed (submits.ok run))
    fun _ _ _ run => closed (submits.error run)

/-- What a submission outside a root keeps. -/
theorem submit_keeps (inv : RootInvariant ctx Admits Cond Ends I J) {items : List Item}
    {change : MEventType} {origin : Origin} {mode : EdgeApplyMode} {s : ServerState} (holds : I s)
    (outside : s.causal = none)
    (admitted : Admits s (.uniform items change origin mode))
    (allowed : Allowed Cond (submitReductions ctx items change origin mode s))
    (ends : (∀ t, Ends t) ∨ ((∀ t, Drained t → Ends t) ∧
      ∃ t, submitMutationMode ctx items change origin mode s = .ok () t)) :
    I (final (submitMutationMode ctx items change origin mode) s) ∧
      (final (submitMutationMode ctx items change origin mode) s).causal = none := by
  unfold submitReductions at allowed
  unfold submitMutationMode at ends ⊢
  rw [final_bind, get_eq]
  simp only [bind_of_ok (get_eq s)] at ends
  dsimp only
  simp only [outside, Option.isSome_none, Bool.false_eq_true, ↓reduceIte] at allowed ends ⊢
  by_cases rooted : needsCausalRoot ctx items change origin = true
  · simp only [rooted, ↓reduceIte] at allowed ends ⊢
    rw [final_discard]
    refine ⟨?_, runRoot_causal s⟩
    obtain ⟨u, queued⟩ := enqueueCausal_own ctx items change origin mode s
    have named : items ≠ [] := by
      rintro rfl
      simp [needsCausalRoot] at rooted
    refine root_keeps inv named queued (inv.enter holds outside rooted admitted queued)
      (waiting_enqueueCausal queued) allowed ?_
    rcases ends with anywhere | ⟨drained, t, run⟩
    · exact .inl anywhere
    · obtain ⟨applied, run⟩ := discard_ok run
      exact .inr ⟨drained, applied, t, run⟩
  · simp only [rooted, Bool.false_eq_true, ↓reduceIte] at allowed ⊢
    rw [final_discard]
    exact ⟨inv.direct holds outside (by simpa using rooted) admitted (allowed _ List.mem_cons_self),
      reducePending_causal outside⟩

/-- What a replacement outside a root keeps. -/
theorem replace_keeps (inv : RootInvariant ctx Admits Cond Ends I J) {upserts deletes : List Item}
    {s : ServerState} (holds : I s) (outside : s.causal = none)
    (admitted : Admits s (.replace upserts deletes))
    (allowed : Allowed Cond (replaceReductions ctx upserts deletes .localOrigin s))
    (ends : (∀ t, Ends t) ∨ ((∀ t, Drained t → Ends t) ∧ ∃ applied t,
      submitReplaceMutationInner ctx upserts deletes .localOrigin none s = .ok applied t)) :
    I (final (submitReplaceMutationInner ctx upserts deletes .localOrigin none) s) ∧
      (final (submitReplaceMutationInner ctx upserts deletes .localOrigin none) s).causal = none := by
  unfold replaceReductions at allowed
  unfold submitReplaceMutationInner at ends ⊢
  by_cases empty : (upserts.isEmpty && deletes.isEmpty) = true
  · rw [if_pos empty]
    exact ⟨holds, outside⟩
  · rw [if_neg empty] at ends ⊢
    rw [final_bind, get_eq]
    simp only [bind_of_ok (get_eq s)] at ends
    dsimp only
    simp only [outside, Option.isSome_none, Bool.false_or, Bool.false_eq_true, empty, ↓reduceIte]
      at allowed ends ⊢
    refine ⟨?_, runRoot_causal s⟩
    obtain ⟨u, queued⟩ := enqueueCausalReplace_own ctx upserts deletes .localOrigin .authoritative none s
    have named : upserts ++ deletes ≠ [] := by
      cases upserts <;> cases deletes <;> simp_all
    exact root_keeps inv named queued (inv.replace holds outside admitted queued)
      (waiting_enqueueCausalReplace queued) allowed ends

end

/-! ### Calls -/

/-- A public call, or the coming due of events held back by one. -/
inductive Call where
  | set (item : Item)
  | setDyn (item : Item)
  | setTransient (item : Item)
  | del (item : Item)
  | batchSet (items : List Item)
  | batchDel (items : List Item)
  | replaceBatchAny (upserts deletes : List Item)
  | delById (entityType id : String)
  | applyEventBatch (events : List MEvent)
  | flushBufferedEventsForType (entityType : String)
  | setEdgeApplyMode (edgeType : String) (mode : EdgeApplyMode)
  | setCausalLimits (limits : CausalLimits)
  | watch (edgeType : String) (selection : GraphSelection)
  | watchCountAt (edgeType : String) (position : EndPosition) (endpoint : EndpointValue)
  | watchCountBetween (edgeType : String) (a b : EndpointValue)

namespace Call

def run (ctx : MykoServerContext) : Call → ServerM Unit
  | set item => Myko.set ctx item
  | setDyn item => Myko.setDyn ctx item
  | setTransient item => Myko.setTransient ctx item
  | del item => Myko.del ctx item
  | batchSet items => Myko.batchSet ctx items
  | batchDel items => Myko.batchDel ctx items
  | replaceBatchAny upserts deletes => Myko.replaceBatchAny ctx upserts deletes
  | delById entityType id => Myko.delById ctx entityType id
  | applyEventBatch events => discard (Myko.applyEventBatch ctx events)
  | flushBufferedEventsForType entityType => discard (Myko.flushBufferedEventsForType ctx entityType)
  | setEdgeApplyMode edgeType mode => discard (Myko.setEdgeApplyMode ctx edgeType mode)
  | setCausalLimits limits => Myko.setCausalLimits limits
  | watch edgeType selection => discard (Myko.watch ctx edgeType selection)
  | watchCountAt edgeType position endpoint =>
    discard (Myko.watchCountAt ctx edgeType position endpoint)
  | watchCountBetween edgeType a b => discard (Myko.watchCountBetween ctx edgeType a b)

/-- The events a call applies at once. -/
def immediate (ctx : MykoServerContext) (events : List MEvent) : List Submission :=
  if (parsedItems ctx events .set).length + (parsedItems ctx events .del).length = 0 then []
  else [.uniform (parsedItems ctx events .set) .set .localOrigin .import,
    .uniform (parsedItems ctx events .del) .del .localOrigin .import]

/-- What a call submits in the state it is made in, one mutation after the other. -/
def submissions (ctx : MykoServerContext) (s : ServerState) : Call → List Submission
  | set item => [.uniform [item] .set .localOrigin .authoritative]
  | setDyn item => [.uniform [item] .set .localOrigin .authoritative]
  | setTransient item => [.uniform [item] .set .transient .authoritative]
  | del item => [.uniform [item] .del .localOrigin .authoritative]
  | batchSet items => if items.isEmpty then [] else [.uniform items .set .localOrigin .authoritative]
  | batchDel items => if items.isEmpty then [] else [.uniform items .del .localOrigin .authoritative]
  | replaceBatchAny upserts deletes => [.replace upserts deletes]
  | applyEventBatch events => immediate ctx (events.filter fun event => !isBuffered ctx event)
  | flushBufferedEventsForType entityType => immediate ctx (s.ingestBuffers entityType)
  | _ => []

end Call

namespace Submission

def run (ctx : MykoServerContext) : Submission → ServerM Unit
  | uniform items change origin mode => submitMutationMode ctx items change origin mode
  | replace upserts deletes =>
    discard (submitReplaceMutationInner ctx upserts deletes .localOrigin none)

def reductions (ctx : MykoServerContext) (s : ServerState) : Submission → List Reduction
  | uniform items change origin mode => submitReductions ctx items change origin mode s
  | replace upserts deletes => replaceReductions ctx upserts deletes .localOrigin s

end Submission

/-- The reductions of submissions made one after the other, up to the first that fails. -/
def submissionReductions (ctx : MykoServerContext) :
    List Submission → ServerState → List Reduction
  | [], _ => []
  | submission :: rest, s =>
    submission.reductions ctx s ++
      match submission.run ctx s with
      | .ok () t => submissionReductions ctx rest t
      | .error _ _ => []

namespace Call

/-- The state a call submits in: events that come due have been taken from their buffer. -/
def start (s : ServerState) : Call → ServerState
  | flushBufferedEventsForType entityType =>
    { s with ingestBuffers := Function.update s.ingestBuffers entityType [] }
  | _ => s

def reductions (ctx : MykoServerContext) (s : ServerState) (call : Call) : List Reduction :=
  submissionReductions ctx (call.submissions ctx s) (call.start s)

/-- Every mutation the call submits goes through. -/
def Succeeds (ctx : MykoServerContext) (s : ServerState) (call : Call) : Prop :=
  ∃ t, each (Submission.run ctx) (call.submissions ctx s) (call.start s) = .ok () t

/-- The calls that go through submissions; the others act on the state directly. -/
def Submits : Call → Prop
  | delById _ _ | setEdgeApplyMode _ _ | setCausalLimits _ | watch _ _ | watchCountAt _ _ _
  | watchCountBetween _ _ _ => False
  | _ => True

end Call

theorem applyEventBatchImmediate_eq (ctx : MykoServerContext) (events : List MEvent) :
    applyEventBatchImmediate ctx events = (do
      each (Submission.run ctx) (Call.immediate ctx events)
      return (parsedItems ctx events .set).length + (parsedItems ctx events .del).length) := by
  unfold applyEventBatchImmediate Call.immediate
  dsimp only
  split
  · rename_i none
    rw [none]
    rfl
  · simp only [each, Submission.run, bind_assoc, pure_bind]

/-- Only the buffers of held-back events may differ. -/
def SameButBuffers (s t : ServerState) : Prop := ∃ buffers, t = { s with ingestBuffers := buffers }

theorem sameButBuffers_frame : Frame SameButBuffers SameButBuffers :=
  Frame.always (fun s => ⟨s.ingestBuffers, rfl⟩) fun h h' => by
    obtain ⟨buffers, rfl⟩ := h
    obtain ⟨buffers', rfl⟩ := h'
    exact ⟨buffers', rfl⟩

theorem moves_enqueueBuffered (entityTypes : List String) (events : String → List MEvent) :
    Moves SameButBuffers SameButBuffers
      (each (fun entityType => enqueueBufferedEvents entityType (events entityType)) entityTypes) :=
  Moves.each sameButBuffers_frame fun _ _ => Moves.modify fun _ => ⟨_, rfl⟩

/-- A call of events submits those it applies at once, and then only buffers. -/
theorem applyEventBatch_eq (ctx : MykoServerContext) (events : List MEvent) :
    ∃ rest : ServerM Nat, Moves SameButBuffers SameButBuffers rest ∧
      applyEventBatch ctx events = (do
        each (Submission.run ctx)
          (Call.immediate ctx (events.filter fun event => !isBuffered ctx event))
        rest) := by
  let held := events.filter (isBuffered ctx)
  let buffering : Nat → ServerM Nat := fun accepted => do
    each (fun entityType =>
      enqueueBufferedEvents entityType (held.filter fun event => event.itemType = entityType))
      (held.map MEvent.itemType).dedup
    return accepted + held.length
  have moves : ∀ accepted, Moves SameButBuffers SameButBuffers (buffering accepted) := fun accepted =>
    Moves.bind sameButBuffers_frame
      (moves_enqueueBuffered _ fun entityType => held.filter fun event => event.itemType = entityType)
      fun _ => Moves.pure sameButBuffers_frame _
  unfold applyEventBatch
  dsimp only
  split
  · rename_i none
    refine ⟨buffering 0, moves 0, ?_⟩
    rw [List.isEmpty_iff.mp none]
    rfl
  · let immediate := events.filter fun event => !isBuffered ctx event
    refine ⟨buffering ((parsedItems ctx immediate .set).length + (parsedItems ctx immediate .del).length),
      moves _, ?_⟩
    rw [applyEventBatchImmediate_eq, bind_assoc]
    rfl

theorem final_each_singleton {α : Type} (f : α → ServerM Unit) (a : α) (s : ServerState) :
    final (each f [a]) s = final (f a) s := by
  rw [each, final_bind]
  unfold final
  cases f a s <;> rfl

/-- A call that submits leaves what its submissions leave, but for the buffers. -/
theorem final_call (ctx : MykoServerContext) {call : Call} (submits : call.Submits) (s : ServerState) :
    SameButBuffers (final (each (Submission.run ctx) (call.submissions ctx s)) (call.start s))
      (final (call.run ctx) s) := by
  have same : ∀ {t u : ServerState}, u = t → SameButBuffers t u := fun h => h ▸ sameButBuffers_frame.refl _
  cases call with
  | set item => exact same (final_each_singleton _ _ _).symm
  | setDyn item => exact same (final_each_singleton _ _ _).symm
  | setTransient item => exact same (final_each_singleton _ _ _).symm
  | del item => exact same (final_each_singleton _ _ _).symm
  | batchSet items =>
    refine same ?_
    cases items with
    | nil => rfl
    | cons first rest => exact (final_each_singleton _ _ _).symm
  | batchDel items =>
    refine same ?_
    cases items with
    | nil => rfl
    | cons first rest => exact (final_each_singleton _ _ _).symm
  | replaceBatchAny upserts deletes => exact same (final_each_singleton _ _ _).symm
  | delById _ _ => exact submits.elim
  | setEdgeApplyMode _ _ => exact submits.elim
  | setCausalLimits _ => exact submits.elim
  | watch _ _ => exact submits.elim
  | watchCountAt _ _ _ => exact submits.elim
  | watchCountBetween _ _ _ => exact submits.elim
  | applyEventBatch events =>
    obtain ⟨rest, buffers, split⟩ := applyEventBatch_eq ctx events
    change SameButBuffers _ (final (discard (Myko.applyEventBatch ctx events)) s)
    rw [final_discard, split, final_bind]
    change SameButBuffers (final (each _ (Call.immediate ctx _)) s) _
    cases run : each (Submission.run ctx)
      (Call.immediate ctx (events.filter fun event => !isBuffered ctx event)) s with
    | ok _ t =>
      rw [final_of_ok run]
      exact buffers.final t
    | error error t =>
      rw [final_of_error run]
      exact sameButBuffers_frame.refl t
  | flushBufferedEventsForType entityType =>
    change SameButBuffers (final (each _ (Call.immediate ctx (s.ingestBuffers entityType))) _)
      (final (discard (Myko.flushBufferedEventsForType ctx entityType)) s)
    rw [final_discard]
    unfold Myko.flushBufferedEventsForType
    rw [final_bind, get_eq]
    dsimp only
    split
    · rename_i none
      rw [List.isEmpty_iff.mp none]
      exact ⟨s.ingestBuffers, rfl⟩
    · rw [final_bind, modify_eq]
      dsimp only
      rw [final_attempt_bind, applyEventBatchImmediate_eq, bind_eq]
      refine same ?_
      unfold final
      dsimp only [Call.start]
      generalize each (Submission.run ctx) (Call.immediate ctx (s.ingestBuffers entityType)) _ = result
      cases result <;> rfl

/-- A call that submits and returns Ok has only submitted what goes through; held-back events coming
due answer to nobody. -/
theorem succeeds_of_ok {call : Call} (submits : call.Submits)
    (answers : ∀ entityType, call ≠ .flushBufferedEventsForType entityType) {s t : ServerState}
    (run : call.run ctx s = .ok () t) : call.Succeeds ctx s := by
  have single : ∀ {submission : Submission} {t : ServerState},
      submission.run ctx s = .ok () t → ∃ t, each (Submission.run ctx) [submission] s = .ok () t :=
    fun run => ⟨_, by rw [each, bind_of_ok run]; rfl⟩
  cases call with
  | set item => exact single run
  | setDyn item => exact single run
  | setTransient item => exact single run
  | del item => exact single run
  | batchSet items =>
    cases items with
    | nil => exact ⟨s, rfl⟩
    | cons first rest => exact single run
  | batchDel items =>
    cases items with
    | nil => exact ⟨s, rfl⟩
    | cons first rest => exact single run
  | replaceBatchAny upserts deletes => exact single run
  | applyEventBatch events =>
    obtain ⟨rest, -, split⟩ := applyEventBatch_eq ctx events
    obtain ⟨_, run⟩ := discard_ok run
    rw [split] at run
    obtain ⟨_, u, run, -⟩ := bind_ok run
    exact ⟨u, run⟩
  | flushBufferedEventsForType entityType => exact absurd rfl (answers entityType)
  | delById _ _ => exact submits.elim
  | setEdgeApplyMode _ _ => exact submits.elim
  | setCausalLimits _ => exact submits.elim
  | watch _ _ => exact submits.elim
  | watchCountAt _ _ _ => exact submits.elim
  | watchCountBetween _ _ _ => exact submits.elim

/-- The call returns Ok. Held-back events coming due are to go through, as nobody is told. -/
def Call.Returns (ctx : MykoServerContext) (s : ServerState) : Call → Prop
  | flushBufferedEventsForType entityType =>
    (flushBufferedEventsForType entityType).Succeeds ctx s
  | call => ∃ t, call.run ctx s = .ok () t

theorem Call.Returns.succeeds {call : Call} {s : ServerState} (returns : call.Returns ctx s)
    (submits : call.Submits) : call.Succeeds ctx s := by
  cases call with
  | flushBufferedEventsForType entityType => exact returns
  | _ => exact succeeds_of_ok submits (fun _ same => by cases same) returns.choose_spec

/-! ### Runs -/

/-- Submissions made one after the other, each admitted in the state it is made in. -/
def Entries (ctx : MykoServerContext) (Admits : ServerState → Submission → Prop) :
    List Submission → ServerState → Prop
  | [], _ => True
  | submission :: rest, s =>
    Admits s submission ∧ ∀ t, submission.run ctx s = .ok () t → Entries ctx Admits rest t

theorem entries_always (submissions : List Submission) (s : ServerState) :
    Entries ctx (fun _ _ => True) submissions s := by
  induction submissions generalizing s with
  | nil => trivial
  | cons submission rest ih => exact ⟨trivial, fun t _ => ih t⟩

/-- Something kept from call to call: by the reductions of the calls that submit, and by the others,
which `Step` allows. -/
structure CallInvariant (ctx : MykoServerContext) (Step : ServerState → Call → Prop)
    (Admits : ServerState → Submission → Prop) (Cond : ServerState → PendingMutation → Prop)
    (Ends I J : ServerState → Prop) : Prop extends RootInvariant ctx Admits Cond Ends I J where
  entries : ∀ {s call}, Step s call → Entries ctx Admits (call.submissions ctx s) (call.start s)
  buffers : ∀ {s buffers}, I s → I { s with ingestBuffers := buffers }
  other : ∀ {s call}, I s → s.causal = none → ¬call.Submits → Step s call → I (final (call.run ctx) s)

/-- A run of calls, each allowed in the state it is made in. -/
inductive Run (ctx : MykoServerContext) (Step : ServerState → Call → Prop) : ServerState → Prop where
  | initial : Run ctx Step .initial
  | call {s : ServerState} (call : Call) (before : Run ctx Step s) (step : Step s call) :
    Run ctx Step (final (call.run ctx) s)

/-! The calls that act on the state directly. -/

theorem final_delById (ctx : MykoServerContext) (entityType id : String) (s : ServerState) :
    ∃ offered sink, final (delById ctx entityType id) s = { s with
      registry := s.registry.remove entityType id
      searchIndex := Function.update s.searchIndex entityType
        (Function.update (s.searchIndex entityType) id none)
      offered
      sink } := by
  unfold delById
  rw [final_bind, get_eq]
  dsimp only
  rw [final_bind, modify_eq]
  dsimp only
  cases s.registry.getValue entityType id with
  | none => exact ⟨s.offered, s.sink, rfl⟩
  | some item =>
    dsimp only
    rw [final_bind]
    unfold persistDyn
    dsimp only
    cases ctx.persister item.entityType with
    | none => exact ⟨_, _, rfl⟩
    | some persist =>
      dsimp only
      rw [bind_of_ok (get_eq _), bind_of_ok (modify_eq _ _)]
      dsimp only
      cases persist s.offered ⟨.del, item⟩ with
      | ok _ => exact ⟨_, _, rfl⟩
      | error error => exact ⟨_, _, rfl⟩

theorem final_setEdgeApplyMode (ctx : MykoServerContext) (edgeType : String) (mode : EdgeApplyMode)
    (s : ServerState) :
    ∃ applyModes, final (discard (setEdgeApplyMode ctx edgeType mode)) s = { s with applyModes } ∧
      (applyModes = s.applyModes ∨ applyModes = Function.update s.applyModes edgeType (some mode)) := by
  rw [final_discard]
  unfold setEdgeApplyMode
  split
  · exact ⟨s.applyModes, rfl, .inl rfl⟩
  · exact ⟨_, rfl, .inr rfl⟩

theorem final_openWatch (ctx : MykoServerContext) (edgeType : String)
    (watch : GraphView → EdgeRegistration → GraphWatch) (s : ServerState) :
    final (discard (openWatch ctx edgeType watch)) s = { s with
      watches := s.watches ++ ((ctx.schema.registration edgeType).map (watch (s.view ctx))).toList } := by
  rw [final_discard]
  unfold openWatch
  cases ctx.schema.registration edgeType with
  | none => simp [final, pure_eq]
  | some registration => rfl

/-- A call that does not submit deletes by id, overrides a mode, sets bounds or opens a watch. -/
theorem final_other (ctx : MykoServerContext) {call : Call} (other : ¬call.Submits) (s : ServerState) :
    (∃ entityType id offered sink, call = .delById entityType id ∧
      final (call.run ctx) s = { s with
        registry := s.registry.remove entityType id
        searchIndex := Function.update s.searchIndex entityType
          (Function.update (s.searchIndex entityType) id none)
        offered
        sink }) ∨
    (∃ edgeType mode applyModes, call = .setEdgeApplyMode edgeType mode ∧
      final (call.run ctx) s = { s with applyModes } ∧
        (applyModes = s.applyModes ∨ applyModes = Function.update s.applyModes edgeType (some mode))) ∨
    (∃ causalLimits, final (call.run ctx) s = { s with causalLimits }) ∨
    ∃ watches, final (call.run ctx) s = { s with watches } := by
  cases call with
  | delById entityType id =>
    obtain ⟨offered, sink, same⟩ := final_delById ctx entityType id s
    exact .inl ⟨entityType, id, offered, sink, rfl, same⟩
  | setEdgeApplyMode edgeType mode =>
    obtain ⟨applyModes, same, modes⟩ := final_setEdgeApplyMode ctx edgeType mode s
    exact .inr (.inl ⟨edgeType, mode, applyModes, rfl, same, modes⟩)
  | setCausalLimits limits => exact .inr (.inr (.inl ⟨limits, rfl⟩))
  | watch edgeType selection => exact .inr (.inr (.inr ⟨_, final_openWatch ctx edgeType _ s⟩))
  | watchCountAt edgeType position endpoint =>
    exact .inr (.inr (.inr ⟨_, final_openWatch ctx edgeType _ s⟩))
  | watchCountBetween edgeType a b => exact .inr (.inr (.inr ⟨_, final_openWatch ctx edgeType _ s⟩))
  | _ => exact absurd trivial other

theorem other_causal {call : Call} (other : ¬call.Submits) {s : ServerState} (outside : s.causal = none) :
    (final (call.run ctx) s).causal = none := by
  rcases final_other ctx other s with ⟨_, _, _, _, -, same⟩ | ⟨_, _, _, -, same, -⟩ | ⟨_, same⟩ | ⟨_, same⟩
  · rw [same, outside]
  · rw [same, outside]
  · rw [same, outside]
  · rw [same, outside]

/-! A submission that goes through has made only reductions that go through. -/

theorem root_reduces {halt applied : Bool} {items : List Item} {enqueue : ServerM Unit}
    {s t : ServerState}
    (run : runRoot ctx (submitDerived ctx) halt items enqueue s = .ok applied t) :
    Allowed (Reduces ctx) (rootReductions ctx halt items enqueue s) := by
  obtain ⟨u, v, queued, drained, -⟩ := runRoot_ok run
  unfold rootReductions
  rw [queued]
  exact drain_reduces drained

theorem submit_reduces {items : List Item} {change : MEventType} {origin : Origin}
    {mode : EdgeApplyMode} {s t : ServerState}
    (run : submitMutationMode ctx items change origin mode s = .ok () t) :
    Allowed (Reduces ctx) (submitReductions ctx items change origin mode s) := by
  unfold submitMutationMode at run
  rw [bind_of_ok (get_eq s)] at run
  unfold submitReductions
  split
  · exact fun _ member => absurd member (by simp)
  · rename_i outside
    rw [if_neg outside] at run
    split
    · rename_i rooted
      rw [if_pos rooted] at run
      obtain ⟨applied, run⟩ := discard_ok run
      exact root_reduces run
    · rename_i direct
      rw [if_neg direct] at run
      obtain ⟨applied, run⟩ := discard_ok run
      intro r member
      obtain rfl := List.mem_singleton.mp member
      exact ⟨applied, t, run⟩

theorem replace_reduces {upserts deletes : List Item} {origin : Origin} {s t : ServerState}
    {applied : Bool}
    (run : submitReplaceMutationInner ctx upserts deletes origin none s = .ok applied t) :
    Allowed (Reduces ctx) (replaceReductions ctx upserts deletes origin s) := by
  unfold submitReplaceMutationInner at run
  unfold replaceReductions
  split
  · exact fun _ member => absurd member (by simp)
  · rename_i outside
    simp only [Bool.or_eq_true, not_or, Bool.not_eq_true] at outside
    obtain ⟨closed, named⟩ := outside
    rw [named] at run
    simp only [Bool.false_eq_true, ↓reduceIte] at run
    rw [bind_of_ok (get_eq s), closed] at run
    exact root_reduces run

theorem succeeds_reduces {call : Call} {s : ServerState} (ok : call.Succeeds ctx s) :
    Allowed (Reduces ctx) (call.reductions ctx s) := by
  have each_reduces : ∀ (submissions : List Submission) (s t : ServerState),
      each (Submission.run ctx) submissions s = .ok () t →
      Allowed (Reduces ctx) (submissionReductions ctx submissions s) := by
    intro submissions
    induction submissions with
    | nil => exact fun _ _ _ _ member => absurd member (by simp [submissionReductions])
    | cons submission rest ih =>
      intro s t run
      obtain ⟨_, u, run, later⟩ := bind_ok run
      intro r member
      rcases List.mem_append.mp member with member | member
      · cases submission with
        | uniform items change origin mode => exact submit_reduces run r member
        | replace upserts deletes =>
          obtain ⟨applied, run⟩ := discard_ok run
          exact replace_reduces run r member
      · rw [run] at member
        exact ih u t later r member
  obtain ⟨t, run⟩ := ok
  exact each_reduces _ _ _ run

section
variable {Step : ServerState → Call → Prop} {Admits : ServerState → Submission → Prop}
  {Cond : ServerState → PendingMutation → Prop} {Ends I J : ServerState → Prop}

theorem submissions_keep (inv : RootInvariant ctx Admits Cond Ends I J)
    {submissions : List Submission} {s : ServerState} (holds : I s) (outside : s.causal = none)
    (admitted : Entries ctx Admits submissions s)
    (allowed : Allowed Cond (submissionReductions ctx submissions s))
    (ends : (∀ t, Ends t) ∨ ((∀ t, Drained t → Ends t) ∧
      ∃ t, each (Submission.run ctx) submissions s = .ok () t)) :
    I (final (each (Submission.run ctx) submissions) s) ∧
      (final (each (Submission.run ctx) submissions) s).causal = none := by
  induction submissions generalizing s with
  | nil => exact ⟨holds, outside⟩
  | cons submission rest ih =>
    have own : Allowed Cond (submission.reductions ctx s) := fun r member =>
      allowed r (List.mem_append_left _ member)
    have first : I (final (submission.run ctx) s) ∧ (final (submission.run ctx) s).causal = none := by
      have ends' : (∀ t, Ends t) ∨ ((∀ t, Drained t → Ends t) ∧
          ∃ t, submission.run ctx s = .ok () t) := by
        rcases ends with anywhere | ⟨drained, t, run⟩
        · exact .inl anywhere
        · obtain ⟨_, u, run, -⟩ := bind_ok run
          exact .inr ⟨drained, u, run⟩
      cases submission with
      | uniform items change origin mode => exact submit_keeps inv holds outside admitted.1 own ends'
      | replace upserts deletes =>
        change I (final (discard _) s) ∧ (final (discard _) s).causal = none
        rw [final_discard]
        refine replace_keeps inv holds outside admitted.1 own ?_
        rcases ends' with anywhere | ⟨drained, t, run⟩
        · exact .inl anywhere
        · obtain ⟨applied, run⟩ := discard_ok run
          exact .inr ⟨drained, applied, t, run⟩
    rw [each, final_bind]
    cases run : submission.run ctx s with
    | error error t =>
      rw [final_of_error run] at first
      exact first
    | ok _ t =>
      rw [final_of_ok run] at first
      refine ih first.1 first.2 (admitted.2 t run) (fun r member => allowed r ?_) ?_
      · refine List.mem_append_right _ ?_
        rw [run]
        exact member
      · rcases ends with anywhere | ⟨drained, u, whole⟩
        · exact .inl anywhere
        · rw [each, bind_of_ok run] at whole
          exact .inr ⟨drained, u, whole⟩

/-- What a call keeps. -/
theorem call_keeps (inv : CallInvariant ctx Step Admits Cond Ends I J) {call : Call} {s : ServerState}
    (holds : I s) (outside : s.causal = none) (step : Step s call)
    (allowed : Allowed Cond (call.reductions ctx s))
    (ends : (∀ t, Ends t) ∨ ((∀ t, Drained t → Ends t) ∧ call.Succeeds ctx s)) :
    I (final (call.run ctx) s) ∧ (final (call.run ctx) s).causal = none := by
  by_cases submits : call.Submits
  · obtain ⟨buffers, same⟩ := final_call ctx submits s
    have started : I (call.start s) ∧ (call.start s).causal = none := by
      cases call with
      | flushBufferedEventsForType entityType => exact ⟨inv.buffers holds, outside⟩
      | _ => exact ⟨holds, outside⟩
    obtain ⟨kept, closed⟩ := submissions_keep inv.toRootInvariant started.1 started.2
      (inv.entries step) allowed ends
    rw [same]
    exact ⟨inv.buffers kept, closed⟩
  · exact ⟨inv.other holds outside submits step, other_causal submits outside⟩

/-- What a run of calls keeps, however the calls end. -/
theorem run_keeps (inv : CallInvariant ctx Step Admits Cond (fun _ => True) I J) (initial : I .initial)
    (allowed : ∀ s call, Step s call → Allowed Cond (call.reductions ctx s)) {s : ServerState}
    (run : Run ctx Step s) : I s ∧ s.causal = none := by
  induction run with
  | initial => exact ⟨initial, rfl⟩
  | call call before step ih =>
    exact call_keeps inv ih.1 ih.2 step (allowed _ _ step) (.inl fun _ => trivial)

/-- What a call keeps that goes through. Its reductions go through as well. -/
theorem call_keeps_ok
    (inv : CallInvariant ctx Step Admits (fun s pending => Cond s pending ∧ Reduces ctx s pending)
      Drained I J)
    {call : Call} {s : ServerState} (holds : I s) (outside : s.causal = none) (step : Step s call)
    (allowed : Allowed Cond (call.reductions ctx s)) (ok : call.Submits → call.Succeeds ctx s) :
    I (final (call.run ctx) s) ∧ (final (call.run ctx) s).causal = none := by
  by_cases submits : call.Submits
  · have both : Allowed (fun s pending => Cond s pending ∧ Reduces ctx s pending)
        (call.reductions ctx s) := fun r member =>
      ⟨allowed r member, succeeds_reduces (ok submits) r member⟩
    exact call_keeps inv holds outside step both (.inr ⟨fun _ h => h, ok submits⟩)
  · exact ⟨inv.other holds outside submits step, other_causal submits outside⟩

/-- What a run of calls keeps that all go through. -/
theorem run_keeps_ok
    (inv : CallInvariant ctx Step Admits (fun s pending => Cond s pending ∧ Reduces ctx s pending)
      Drained I J)
    (initial : I .initial)
    (allowed : ∀ s call, Step s call → Allowed Cond (call.reductions ctx s))
    (ok : ∀ s call, Step s call → call.Submits → call.Succeeds ctx s) {s : ServerState}
    (run : Run ctx Step s) : I s ∧ s.causal = none := by
  induction run with
  | initial => exact ⟨initial, rfl⟩
  | @call s call before step ih =>
    exact call_keeps_ok inv ih.1 ih.2 step (allowed s call step) (ok s call step)

end

end Myko

import Myko.Server.Commit

/-!
The queue of a root under submissions: what a submission adds to it, and why draining it ends.
-/

namespace Myko
open StateError

variable {ctx : MykoServerContext} {limits : CausalLimits}

/-- The items of a submission that go through, given the transitions seen before it. -/
def unseen (ctx : MykoServerContext) (change : MEventType) : List TransitionKey → List Item → List Item
  | _, [] => []
  | seen, item :: rest =>
    if transitionKey ctx change item ∈ seen then unseen ctx change seen rest
    else item :: unseen ctx change (transitionKey ctx change item :: seen) rest

/-- The transitions seen once the items of a submission have been looked at. -/
def seenAfter (ctx : MykoServerContext) (change : MEventType) (seen : List TransitionKey)
    (items : List Item) : List TransitionKey :=
  ((unseen ctx change seen items).map (transitionKey ctx change)).reverse ++ seen

theorem unseen_sublist (change : MEventType) (seen : List TransitionKey) (items : List Item) :
    (unseen ctx change seen items).Sublist items := by
  induction items generalizing seen with
  | nil => exact .slnil
  | cons item rest ih =>
    rw [unseen]
    split
    · exact (ih seen).cons item
    · exact (ih _).cons_cons item

theorem seenAfter_cons (change : MEventType) (seen : List TransitionKey) (item : Item)
    (rest : List Item) :
    seenAfter ctx change seen (item :: rest) =
      if transitionKey ctx change item ∈ seen then seenAfter ctx change seen rest
      else seenAfter ctx change (transitionKey ctx change item :: seen) rest := by
  unfold seenAfter
  rw [unseen]
  split <;> simp

theorem mem_seenAfter {change : MEventType} {seen : List TransitionKey} {items : List Item}
    {transition : TransitionKey} :
    transition ∈ seenAfter ctx change seen items ↔
      transition ∈ seen ∨ ∃ item ∈ unseen ctx change seen items, transitionKey ctx change item = transition := by
  unfold seenAfter
  rw [List.mem_append, List.mem_reverse, List.mem_map, or_comm]

theorem key_mem_seenAfter {change : MEventType} {seen : List TransitionKey} {items : List Item} {item : Item}
    (listed : item ∈ items) :
    transitionKey ctx change item ∈ seenAfter ctx change seen items := by
  induction items generalizing seen with
  | nil => cases listed
  | cons first rest ih =>
    rw [seenAfter_cons]
    have kept : ∀ {later : List TransitionKey}, transitionKey ctx change first ∈ later →
        transitionKey ctx change first ∈ seenAfter ctx change later rest := fun before =>
      mem_seenAfter.mpr (.inl before)
    rcases List.mem_cons.mp listed with rfl | listed
    · split
      · rename_i before
        exact kept before
      · exact kept List.mem_cons_self
    · split
      · exact ih listed
      · exact ih listed

/-- Only the seen transitions and the count of derived mutations are touched. -/
structure Accepts (c c' : CausalState) : Prop where
  rootTx : c'.rootTx = c.rootTx
  queue : c'.queue = c.queue
  currentDepth : c'.currentDepth = c.currentDepth
  currentMode : c'.currentMode = c.currentMode
  currentChain : c'.currentChain = c.currentChain

theorem Accepts.trans {c c' c'' : CausalState} (h₁ : Accepts c c') (h₂ : Accepts c' c'') :
    Accepts c c'' :=
  ⟨h₂.rootTx.trans h₁.rootTx, h₂.queue.trans h₁.queue, h₂.currentDepth.trans h₁.currentDepth,
    h₂.currentMode.trans h₁.currentMode, h₂.currentChain.trans h₁.currentChain⟩

theorem checkBudget_eq (limits : CausalLimits) (item : Item) (depth : Nat) (chain : List String) (c : CausalState) :
    (∃ error, checkBudget limits item depth chain c = .error error c ∧ depth > 0) ∨
      (checkBudget limits item depth chain c = .ok () c ∧
        (depth > 0 → c.derivedCount ≤ limits.maxDerivedMutations)) := by
  unfold checkBudget
  rw [bind_of_ok (get_eq c)]
  split
  · rename_i exceeded
    exact .inl ⟨_, rfl, exceeded.1⟩
  · rename_i within
    exact .inr ⟨rfl, fun deep => by omega⟩

theorem acceptTransitions_ok {change : MEventType} {depth : Nat} {chain : List String}
    {items accepted : List Item} {c c' : CausalState}
    (run : acceptTransitions ctx limits change depth chain items c = .ok accepted c') :
    accepted = unseen ctx change c.seen items ∧ c'.seen = seenAfter ctx change c.seen items ∧
      Accepts c c' ∧
      (depth > 0 → c'.derivedCount = c.derivedCount + accepted.length ∧
        (accepted ≠ [] → c'.derivedCount ≤ limits.maxDerivedMutations)) ∧
      (depth = 0 → c'.derivedCount = c.derivedCount) := by
  induction items generalizing c accepted with
  | nil =>
    obtain ⟨rfl, rfl⟩ := pure_ok run
    exact ⟨rfl, rfl, ⟨rfl, rfl, rfl, rfl, rfl⟩, fun _ => ⟨rfl, by simp⟩, fun _ => rfl⟩
  | cons item rest ih =>
    rw [acceptTransitions, bind_of_ok (get_eq c)] at run
    rw [unseen, seenAfter_cons]
    by_cases before : transitionKey ctx change item ∈ c.seen
    · rw [if_pos before] at run ⊢
      rw [if_pos before]
      exact ih run
    · rw [if_neg before] at run ⊢
      rw [if_neg before]
      rw [bind_of_ok (set_eq c _)] at run
      obtain ⟨_, c₁, budget, run⟩ := bind_ok run
      obtain ⟨others, c₂, run, done⟩ := bind_ok run
      obtain ⟨rfl, rfl⟩ := pure_ok done
      rcases checkBudget_eq limits item depth chain (c.accepting _ depth) with
        ⟨_, failed, -⟩ | ⟨passed, within⟩
      · rw [failed] at budget
        cases budget
      rw [passed] at budget
      cases budget
      obtain ⟨same, seen, accepts, derived, own⟩ := ih run
      have accepting : Accepts c (c.accepting (transitionKey ctx change item) depth) :=
        ⟨rfl, rfl, rfl, rfl, rfl⟩
      refine ⟨by rw [same]; rfl, seen, accepting.trans accepts, ?_, ?_⟩
      · intro deep
        obtain ⟨count, bound⟩ := derived deep
        have counted : (c.accepting (transitionKey ctx change item) depth).derivedCount =
            c.derivedCount + 1 := if_pos deep
        refine ⟨by rw [count, counted, List.length_cons]; omega, fun _ => ?_⟩
        cases others with
        | nil => simpa [count] using within deep
        | cons first others => exact bound (by simp)
      · rintro rfl
        exact own rfl

/-! ### Submitting -/

/-- What a submission makes of the transaction: it queues `added` and has seen `items` after it. -/
structure Extends (c c' : CausalState) (added : List PendingMutation) : Prop where
  rootTx : c'.rootTx = c.rootTx
  currentDepth : c'.currentDepth = c.currentDepth
  currentMode : c'.currentMode = c.currentMode
  currentChain : c'.currentChain = c.currentChain
  queue : c'.queue = c.queue ++ added

/-- The pending mutation a uniform submission makes. -/
def uniformPending (ctx : MykoServerContext) (c : CausalState) (items : List Item)
    (change : MEventType) (origin : Origin) (mode : EdgeApplyMode) : PendingMutation where
  kind := .uniform (unseen ctx change c.seen items) change
  origin := origin
  mode := c.currentMode.getD mode
  depth := nextDepth c
  chain := c.currentChain ++ [s!"{origin.debug}:{change.debug}@{nextDepth c}"]

theorem checkDepth_ok {first : Item} {depth : Nat} {chain : List String} {c c' : CausalState}
    (run : checkDepth limits first depth chain c = .ok () c') : c' = c := by
  unfold checkDepth at run
  rw [bind_of_ok (get_eq c)] at run
  split at run
  · cases run
  · exact (pure_ok run).2

/-- A uniform submission that went through. -/
structure Submitted (ctx : MykoServerContext) (limits : CausalLimits) (items : List Item)
    (change : MEventType) (origin : Origin) (mode : EdgeApplyMode) (c c' : CausalState) : Prop extends
    Extends c c' (if unseen ctx change c.seen items = [] then []
      else [uniformPending ctx c items change origin mode]) where
  seen : c'.seen = seenAfter ctx change c.seen items
  derived : nextDepth c > 0 →
    c'.derivedCount = c.derivedCount + (unseen ctx change c.seen items).length ∧
      (unseen ctx change c.seen items ≠ [] → c'.derivedCount ≤ limits.maxDerivedMutations)
  own : nextDepth c = 0 → c'.derivedCount = c.derivedCount

theorem enqueueUniform_ok {first : Item} {items : List Item} {change : MEventType} {origin : Origin}
    {mode : EdgeApplyMode} {c c' : CausalState}
    (run : enqueueUniform ctx limits first items change origin mode c = .ok () c') :
    Submitted ctx limits items change origin mode c c' := by
  unfold enqueueUniform at run
  rw [bind_of_ok (get_eq c)] at run
  obtain ⟨_, c₀, depth, run⟩ := bind_ok run
  obtain rfl := checkDepth_ok depth
  obtain ⟨accepted, c₁, accept, run⟩ := bind_ok run
  obtain ⟨rfl, seen, accepts, derived, own⟩ := acceptTransitions_ok accept
  cases listed : unseen ctx change c₀.seen items with
  | nil =>
    rw [listed] at run
    obtain ⟨-, rfl⟩ := pure_ok run
    refine ⟨⟨accepts.rootTx, accepts.currentDepth, accepts.currentMode, accepts.currentChain, ?_⟩, seen,
      derived, own⟩
    simpa [listed] using accepts.queue
  | cons item rest =>
    rw [listed] at run
    cases run
    refine ⟨⟨accepts.rootTx, accepts.currentDepth, accepts.currentMode, accepts.currentChain, ?_⟩, seen,
      derived, own⟩
    simp [accepts.queue, uniformPending, listed]

/-- The deletes and the upserts of a replacement that go through. -/
def unseenReplace (ctx : MykoServerContext) (seen : List TransitionKey) (upserts deletes : List Item) :
    List Item × List Item :=
  (unseen ctx .set (seenAfter ctx .del seen deletes) upserts, unseen ctx .del seen deletes)

def replacePending (ctx : MykoServerContext) (c : CausalState) (upserts deletes : List Item)
    (origin : Origin) (mode : EdgeApplyMode) (expected : Option Nat) : PendingMutation where
  kind := .replace (unseenReplace ctx c.seen upserts deletes).1
    (unseenReplace ctx c.seen upserts deletes).2 expected
  origin := origin
  mode := c.currentMode.getD mode
  depth := nextDepth c
  chain := c.currentChain ++ [s!"{origin.debug}:REPLACE@{nextDepth c}"]

theorem enqueueReplace_ok {first : Item} {upserts deletes : List Item} {origin : Origin}
    {mode : EdgeApplyMode} {expected : Option Nat} {c c' : CausalState}
    (run : enqueueReplace ctx limits first upserts deletes origin mode expected c = .ok () c') :
    Extends c c' (if unseenReplace ctx c.seen upserts deletes = ([], []) then []
      else [replacePending ctx c upserts deletes origin mode expected]) ∧
    c'.seen = seenAfter ctx .set (seenAfter ctx .del c.seen deletes) upserts ∧
    (nextDepth c = 0 → c'.derivedCount = c.derivedCount) := by
  unfold enqueueReplace at run
  rw [bind_of_ok (get_eq c)] at run
  obtain ⟨_, c₀, depth, run⟩ := bind_ok run
  obtain rfl := checkDepth_ok depth
  obtain ⟨gone, c₁, accept, run⟩ := bind_ok run
  obtain ⟨rfl, seen, accepts, -, own⟩ := acceptTransitions_ok accept
  obtain ⟨put, c₂, accept', run⟩ := bind_ok run
  obtain ⟨rfl, seen', accepts', -, own'⟩ := acceptTransitions_ok accept'
  rw [seen] at run seen'
  have both := accepts.trans accepts'
  cases listed : unseenReplace ctx c₀.seen upserts deletes with
  | mk kept removed =>
    obtain ⟨puts, dels⟩ := Prod.mk.inj listed
    rw [puts, dels] at run
    have pushed : c'.seen = c₂.seen ∧ c'.derivedCount = c₂.derivedCount ∧
        Extends c₀ c' (if (kept, removed) = (([], []) : List Item × List Item) then []
          else [replacePending ctx c₀ upserts deletes origin mode expected]) := by
      by_cases empty : (kept, removed) = (([], []) : List Item × List Item)
      · obtain ⟨rfl, rfl⟩ := Prod.mk.inj empty
        obtain ⟨-, rfl⟩ := pure_ok run
        exact ⟨rfl, rfl, both.rootTx, both.currentDepth, both.currentMode, both.currentChain,
          by simpa using both.queue⟩
      · have some_left : (!kept.isEmpty || !removed.isEmpty) = true := by
          cases kept <;> cases removed <;> simp_all
        rw [if_pos some_left] at run
        cases run
        refine ⟨rfl, rfl, both.rootTx, both.currentDepth, both.currentMode, both.currentChain, ?_⟩
        simp [empty, both.queue, replacePending, listed]
    exact ⟨pushed.2.2, pushed.1.trans seen',
      fun top => pushed.2.1.trans ((own' top).trans (own top))⟩

theorem withCausal_ok {α : Type} {first : Item} {step : CausalM α} {s t : ServerState} {value : α}
    {c : CausalState} (causal : s.causal = some c) (run : withCausal first step s = .ok value t) :
    ∃ c', step c = .ok value c' ∧ t = { s with causal := some c' } := by
  unfold withCausal at run
  rw [causal] at run
  cases stepped : step c with
  | ok value' c' =>
    simp only [stepped, EStateM.Result.ok.injEq] at run
    obtain ⟨rfl, rfl⟩ := run
    exact ⟨c', rfl, rfl⟩
  | error error c' =>
    simp only [stepped] at run
    cases run

theorem enqueueCausal_ok {items : List Item} {change : MEventType} {origin : Origin}
    {mode : EdgeApplyMode} {s t : ServerState} {c : CausalState} (causal : s.causal = some c)
    (run : enqueueCausal ctx items change origin mode s = .ok () t) :
    ∃ c', t = { s with causal := some c' } ∧
      Submitted ctx s.causalLimits items change origin mode c c' := by
  unfold enqueueCausal at run
  cases items with
  | nil =>
    obtain ⟨-, rfl⟩ := pure_ok run
    refine ⟨c, by rw [← causal], ⟨⟨rfl, rfl, rfl, rfl, by simp [unseen]⟩, rfl, fun _ => ⟨rfl, ?_⟩,
      fun _ => rfl⟩⟩
    simp [unseen]
  | cons first rest =>
    dsimp only at run
    rw [bind_of_ok (get_eq s)] at run
    obtain ⟨c', queued, rfl⟩ := withCausal_ok causal run
    exact ⟨c', rfl, enqueueUniform_ok queued⟩

theorem enqueueCausalReplace_ok {upserts deletes : List Item} {origin : Origin} {mode : EdgeApplyMode}
    {expected : Option Nat} {s t : ServerState} {c : CausalState} (causal : s.causal = some c)
    (run : enqueueCausalReplace ctx upserts deletes origin mode expected s = .ok () t) :
    ∃ c', t = { s with causal := some c' } ∧
      Extends c c' (if unseenReplace ctx c.seen upserts deletes = ([], []) then []
        else [replacePending ctx c upserts deletes origin mode expected]) ∧
      c'.seen = seenAfter ctx .set (seenAfter ctx .del c.seen deletes) upserts ∧
      (nextDepth c = 0 → c'.derivedCount = c.derivedCount) := by
  unfold enqueueCausalReplace at run
  cases named : upserts.head?.or deletes.head? with
  | none =>
    have none : upserts = [] ∧ deletes = [] := by
      cases upserts <;> cases deletes <;> simp_all
    obtain ⟨rfl, rfl⟩ := none
    obtain ⟨-, rfl⟩ := pure_ok run
    exact ⟨c, by rw [← causal], ⟨rfl, rfl, rfl, rfl, by simp [unseenReplace, unseen]⟩, rfl, fun _ => rfl⟩
  | some first =>
    rw [named] at run
    dsimp only at run
    rw [bind_of_ok (get_eq s)] at run
    obtain ⟨c', queued, rfl⟩ := withCausal_ok causal run
    exact ⟨c', rfl, enqueueReplace_ok queued⟩

theorem submitDerived_ok {items : List Item} {change : MEventType} {origin : Origin}
    {s t : ServerState} (run : submitDerived ctx items change origin s = .ok () t) :
    (s.causal = none ∧ t = s) ∨
      ∃ c c', s.causal = some c ∧ t = { s with causal := some c' } ∧
        Submitted ctx s.causalLimits items change origin .authoritative c c' := by
  unfold submitDerived at run
  rw [bind_of_ok (get_eq s)] at run
  cases causal : s.causal with
  | none =>
    rw [causal] at run
    obtain ⟨-, rfl⟩ := pure_ok run
    exact .inl ⟨rfl, rfl⟩
  | some c =>
    rw [causal] at run
    obtain ⟨c', same, submitted⟩ := enqueueCausal_ok causal run
    exact .inr ⟨c, c', rfl, same, submitted⟩

/-- A root under way in a mode that satisfies `M`, all of whose queued mutations satisfy `Q`. -/
def Inside (M : Option EdgeApplyMode → Prop) (Q : PendingMutation → Prop) (s : ServerState) : Prop :=
  ∃ c, s.causal = some c ∧ M c.currentMode ∧ ∀ pending ∈ c.queue, Q pending

section
variable {M : Option EdgeApplyMode → Prop} {Q : PendingMutation → Prop}
  (derived : ∀ {c : CausalState} {items change origin}, M c.currentMode →
    Derivable items change origin → Q (uniformPending ctx c items change origin .authoritative))
include derived

theorem inside_submitDerived {items : List Item} {change : MEventType} {origin : Origin}
    {s t : ServerState} (derivable : Derivable items change origin)
    (run : submitDerived ctx items change origin s = .ok () t) (inside : Inside M Q s) :
    Inside M Q t := by
  obtain ⟨c, causal, mode, queued⟩ := inside
  rcases submitDerived_ok run with ⟨none, -⟩ | ⟨c', after, causal', rfl, submitted⟩
  · rw [none] at causal
    cases causal
  obtain rfl : c = c' := Option.some.inj (causal.symm.trans causal')
  refine ⟨after, rfl, submitted.currentMode ▸ mode, fun pending member => ?_⟩
  rw [submitted.queue] at member
  rcases List.mem_append.mp member with before | added
  · exact queued pending before
  · split at added
    · simp at added
    · obtain rfl := List.mem_singleton.mp added
      exact derived mode derivable

/-- What is queued while a mutation is reduced has been derived. -/
theorem inside_reducePending {pending : PendingMutation} {s t : ServerState} {applied : Bool}
    (run : reducePending ctx (submitDerived ctx) pending s = .ok applied t) (inside : Inside M Q s) :
    Inside M Q t := by
  rcases reducePending_ok run with ⟨commit, -⟩ | ⟨cascades, u, commit, effects, -⟩
  · have same : t = s := (commitPending_ok commit).2
    rw [same]
    exact inside
  · obtain ⟨-, committed⟩ := commitPending_ok commit
    obtain ⟨c, causal, held⟩ := inside
    have after : Inside M Q u := ⟨c, committed.causal.trans causal, held⟩
    refine effects_keep (fun aside before => ?_) (inside_submitDerived derived) effects after
    obtain ⟨c, causal, held⟩ := before
    exact ⟨c, aside.causal.trans causal, held⟩

end

/-! A root's own mutation is always accepted: the bounds are on derived ones. -/

theorem acceptTransitions_own (ctx : MykoServerContext) (limits : CausalLimits) (change : MEventType)
    (chain : List String) (items : List Item) (c : CausalState) :
    ∃ accepted c', acceptTransitions ctx limits change 0 chain items c = .ok accepted c' := by
  induction items generalizing c with
  | nil => exact ⟨[], c, rfl⟩
  | cons item rest ih =>
    rw [acceptTransitions, bind_of_ok (get_eq c)]
    by_cases before : transitionKey ctx change item ∈ c.seen
    · rw [if_pos before]
      exact ih c
    · rw [if_neg before, bind_of_ok (set_eq c _)]
      rcases checkBudget_eq limits item 0 chain (c.accepting _ 0) with ⟨_, _, deep⟩ | ⟨passed, -⟩
      · omega
      · obtain ⟨accepted, c', run⟩ := ih (c.accepting (transitionKey ctx change item) 0)
        exact ⟨item :: accepted, c', by rw [bind_of_ok passed, bind_of_ok run]; rfl⟩

theorem checkDepth_own (limits : CausalLimits) (first : Item) (chain : List String) (c : CausalState) :
    checkDepth limits first 0 chain c = .ok () c := by
  unfold checkDepth
  rw [bind_of_ok (get_eq c)]
  exact if_neg (Nat.not_lt_zero _) ▸ rfl

theorem enqueueUniform_own (ctx : MykoServerContext) (limits : CausalLimits) (first : Item)
    (items : List Item) (change : MEventType) (origin : Origin) (mode : EdgeApplyMode)
    {c : CausalState} (own : nextDepth c = 0) :
    ∃ c', enqueueUniform ctx limits first items change origin mode c = .ok () c' := by
  unfold enqueueUniform
  rw [bind_of_ok (get_eq c), own, bind_of_ok (checkDepth_own limits first _ c)]
  obtain ⟨accepted, c', run⟩ := acceptTransitions_own ctx limits change
    (c.currentChain ++ [s!"{origin.debug}:{change.debug}@{0}"]) items c
  rw [bind_of_ok run]
  cases accepted.isEmpty <;> exact ⟨_, rfl⟩

theorem enqueueReplace_own (ctx : MykoServerContext) (limits : CausalLimits) (first : Item)
    (upserts deletes : List Item) (origin : Origin) (mode : EdgeApplyMode) (expected : Option Nat)
    {c : CausalState} (own : nextDepth c = 0) :
    ∃ c', enqueueReplace ctx limits first upserts deletes origin mode expected c = .ok () c' := by
  unfold enqueueReplace
  rw [bind_of_ok (get_eq c), own, bind_of_ok (checkDepth_own limits first _ c)]
  obtain ⟨gone, c₁, run⟩ := acceptTransitions_own ctx limits .del
    (c.currentChain ++ [s!"{origin.debug}:REPLACE@{0}"]) deletes c
  rw [bind_of_ok run]
  obtain ⟨put, c₂, run'⟩ := acceptTransitions_own ctx limits .set
    (c.currentChain ++ [s!"{origin.debug}:REPLACE@{0}"]) upserts c₁
  rw [bind_of_ok run']
  cases !put.isEmpty || !gone.isEmpty <;> exact ⟨_, rfl⟩

/-! ### Draining -/

/-- The mutations a transaction can still reduce: those queued and those it may yet derive. -/
def credit (limits : CausalLimits) (c : CausalState) : Nat :=
  c.queue.length + (limits.maxDerivedMutations - c.derivedCount)

/-- A derived submission is paid for by the budget of the root. -/
theorem Submitted.credit_le {items : List Item} {change : MEventType} {origin : Origin}
    {mode : EdgeApplyMode} {c c' : CausalState}
    (submitted : Submitted ctx limits items change origin mode c c') (derived : nextDepth c > 0) :
    credit limits c' ≤ credit limits c := by
  obtain ⟨count, bound⟩ := submitted.derived derived
  unfold credit
  rw [submitted.queue, List.length_append]
  cases listed : unseen ctx change c.seen items with
  | nil =>
    rw [listed] at count
    simp only [↓reduceIte, List.length_nil] at count ⊢
    omega
  | cons item rest =>
    have within := bound (by simp [listed])
    rw [listed, List.length_cons] at count
    simp only [reduceCtorEq, ↓reduceIte, List.length_cons, List.length_nil]
    omega

/-- A replacement planned for one generation of the graph only. -/
def Conditional (pending : PendingMutation) : Prop :=
  ∃ upserts deletes generation, pending.kind = .replace upserts deletes (some generation)

/-- A root whose queue holds no conditional replacement and can be reduced in `bound` steps. -/
structure Waiting (limits : CausalLimits) (bound : Nat) (s : ServerState) (c : CausalState) : Prop where
  bounds : s.causalLimits = limits
  causal : s.causal = some c
  credit_le : credit limits c ≤ bound
  unconditional : ∀ pending ∈ c.queue, ¬Conditional pending

/-- The same in the middle of a reduction, where every submission is a derived one. -/
def Draining (limits : CausalLimits) (bound : Nat) (s : ServerState) : Prop :=
  ∃ c, Waiting limits bound s c ∧ nextDepth c > 0

theorem Draining.congr {bound : Nat} {s t : ServerState} (draining : Draining limits bound s)
    (causal : t.causal = s.causal) (bounds : t.causalLimits = s.causalLimits) :
    Draining limits bound t := by
  obtain ⟨c, waiting, derived⟩ := draining
  exact ⟨c, ⟨bounds.trans waiting.bounds, causal.trans waiting.causal, waiting.credit_le,
    waiting.unconditional⟩, derived⟩

theorem draining_submitDerived {bound : Nat} {items : List Item} {change : MEventType}
    {origin : Origin} {s t : ServerState} (draining : Draining limits bound s)
    (run : submitDerived ctx items change origin s = .ok () t) : Draining limits bound t := by
  obtain ⟨c, waiting, derived⟩ := draining
  rcases submitDerived_ok run with ⟨none, rfl⟩ | ⟨c₀, c', causal, rfl, submitted⟩
  · exact ⟨c, waiting, derived⟩
  obtain rfl : c = c₀ := Option.some.inj (waiting.causal.symm.trans causal)
  refine ⟨c', ⟨waiting.bounds, rfl, ?_, ?_⟩, ?_⟩
  · exact (waiting.bounds ▸ submitted.credit_le derived).trans waiting.credit_le
  · intro pending member
    rw [submitted.queue] at member
    rcases List.mem_append.mp member with member | member
    · exact waiting.unconditional pending member
    · split at member
      · simp at member
      · obtain rfl := List.mem_singleton.mp member
        rintro ⟨_, _, _, kind⟩
        cases kind
  · unfold nextDepth at derived ⊢
    rwa [submitted.currentDepth]

theorem draining_reducePending {bound : Nat} {pending : PendingMutation} {s t : ServerState}
    {applied : Bool} (draining : Draining limits bound s)
    (run : reducePending ctx (submitDerived ctx) pending s = .ok applied t) :
    Draining limits bound t := by
  rcases reducePending_ok run with ⟨commit, -⟩ | ⟨cascades, u, commit, effects, -⟩
  · have same : t = s := (commitPending_ok commit).2
    rw [same]
    exact draining
  · obtain ⟨-, committed⟩ := commitPending_ok commit
    have after : Draining limits bound u := draining.congr committed.causal committed.causalLimits
    exact effects_keep (fun aside before => before.congr aside.causal aside.causalLimits)
      (fun _ run before => draining_submitDerived before run) effects after

theorem applied_of_unconditional {submit : Submit} {pending : PendingMutation} {s t : ServerState}
    {applied : Bool} (unconditional : ¬Conditional pending)
    (run : reducePending ctx submit pending s = .ok applied t) : applied = true := by
  rcases reducePending_ok run with ⟨commit, -⟩ | ⟨_, _, _, _, applied⟩
  · obtain ⟨plan, -⟩ := commitPending_ok commit
    exfalso
    apply unconditional
    unfold planPending at plan
    split at plan
    · cases plan
    · obtain ⟨_, -, same⟩ := except_map_ok plan
      cases same
    · obtain ⟨_, -, same⟩ := except_map_ok plan
      cases same
    · rename_i upserts deletes expected kind
      cases expected with
      | some generation => exact ⟨upserts, deletes, generation, kind⟩
      | none =>
        split at plan
        · cases plan
        · cases plan
        · rw [Option.any_none, Bool.and_false] at plan
          obtain ⟨_, -, same⟩ := except_map_ok plan
          cases same
  · exact applied

/-- Take the next pending mutation off the queue of a transaction. -/
def CausalState.pop (c : CausalState) (pending : PendingMutation) (queue : List PendingMutation) :
    CausalState :=
  { c with
    queue
    currentDepth := some pending.depth
    currentMode := some pending.mode
    currentChain := pending.chain }

/-- A state whose next pending mutation is taken off the queue. -/
def ServerState.popped (s : ServerState) (c : CausalState) (pending : PendingMutation)
    (queue : List PendingMutation) : ServerState := { s with causal := some (c.pop pending queue) }

theorem popPending_nil {s : ServerState} {c : CausalState} (causal : s.causal = some c)
    (queue : c.queue = []) : popPending s = .ok none s := by
  unfold popPending
  simp only [causal, queue]

theorem popPending_cons {s : ServerState} {c : CausalState} {pending : PendingMutation}
    {queue : List PendingMutation} (causal : s.causal = some c) (queued : c.queue = pending :: queue) :
    popPending s = .ok (some pending) { s with causal := some (c.pop pending queue) } := by
  unfold popPending
  simp only [causal, queued]
  rfl

/-- Reducing the next pending mutation pays for what it submits. -/
theorem Waiting.reduced {bound fuel : Nat} {s t : ServerState} {c : CausalState} {pending : PendingMutation}
    {queue : List PendingMutation} {applied : Bool} (waiting : Waiting limits bound s c) (enough : bound < fuel + 1)
    (queued : c.queue = pending :: queue)
    (run : reducePending ctx (submitDerived ctx) pending (s.popped c pending queue) = .ok applied t) :
    applied = true ∧ ∃ bound' c', Waiting limits bound' t c' ∧ bound' < fuel := by
  have unconditional := waiting.unconditional pending (queued ▸ List.mem_cons_self)
  refine ⟨applied_of_unconditional unconditional run, ?_⟩
  have paid : credit limits (c.pop pending queue) + 1 = credit limits c := by
    unfold credit CausalState.pop
    rw [queued, List.length_cons]
    dsimp only
    omega
  have within := waiting.credit_le
  have draining : Draining limits (bound - 1) (s.popped c pending queue) := by
    refine ⟨_, ⟨waiting.bounds, rfl, by omega, fun other member => ?_⟩, Nat.succ_pos _⟩
    exact waiting.unconditional other (queued ▸ List.mem_cons_of_mem _ member)
  obtain ⟨c', waiting', -⟩ := draining_reducePending draining run
  exact ⟨bound - 1, c', waiting', by omega⟩

/-- A root of which nothing is left to reduce. -/
def Drained (s : ServerState) : Prop := ∃ c, s.causal = some c ∧ c.queue = []

/-- Draining ends with an empty queue: the bound on its steps is never what stops it. -/
theorem drained_of_drain {halt applied : Bool} {fuel bound : Nat} {s t : ServerState} {c : CausalState}
    (waiting : Waiting limits bound s c) (enough : bound < fuel)
    (run : drain ctx (submitDerived ctx) halt fuel s = .ok applied t) : Drained t := by
  induction fuel generalizing s c bound with
  | zero => omega
  | succ fuel ih =>
    rw [drain] at run
    cases queue : c.queue with
    | nil =>
      rw [bind_of_ok (popPending_nil waiting.causal queue)] at run
      obtain ⟨-, rfl⟩ := pure_ok run
      exact ⟨c, waiting.causal, queue⟩
    | cons pending rest =>
      rw [bind_of_ok (popPending_cons waiting.causal queue)] at run
      obtain ⟨applied', u, reduced, run⟩ := bind_ok run
      obtain ⟨rfl, bound', c', waiting', enough'⟩ := waiting.reduced enough queue reduced
      rw [Bool.not_true, Bool.and_false] at run
      exact ih waiting' enough' run

end Myko

import Myko.Server.Reentry
import Myko.Server.Sample
import Mathlib.Data.Fintype.Card

/-!
Every causal root comes to an end within its bounds, whatever reducing its mutations submits and on however
many servers; it is also the end of an exceeded limit as long as nobody swallows the refusal.
-/

namespace Myko.Reentry
open StateError

variable {ctx : MykoServerContext} {limits : CausalLimits}

/-! ### What a submission does to a transaction -/

def pendingItems (queue : List PendingMutation) : Nat :=
  (queue.map fun pending => pending.items.length).sum

/-- The items a transaction can still reduce: those queued and those it may yet derive. -/
def allowance (limits : CausalLimits) (c : CausalState) : Nat :=
  pendingItems c.queue + (limits.maxDerivedMutations - c.derivedCount)

/-- What every queued mutation is: not too deep, and not empty. -/
structure Admitted (limits : CausalLimits) (pending : PendingMutation) : Prop where
  depth : pending.depth ≤ limits.maxDepth
  inhabited : 0 < pending.items.length

/-- What submissions, accepted or refused, make of a transaction. -/
structure Grows (limits : CausalLimits) (c c' : CausalState) : Prop where
  currentDepth : c'.currentDepth = c.currentDepth
  paid : allowance limits c' ≤ allowance limits c
  admitted : (∀ pending ∈ c.queue, Admitted limits pending) → ∀ pending ∈ c'.queue, Admitted limits pending

theorem Grows.refl (limits : CausalLimits) (c : CausalState) : Grows limits c c :=
  ⟨rfl, Nat.le_refl _, fun all => all⟩

theorem Grows.trans {c c' c'' : CausalState} (first : Grows limits c c') (rest : Grows limits c' c'') :
    Grows limits c c'' :=
  ⟨rest.currentDepth.trans first.currentDepth, rest.paid.trans first.paid,
    fun all => rest.admitted (first.admitted all)⟩

theorem pendingItems_append (first rest : List PendingMutation) :
    pendingItems (first ++ rest) = pendingItems first + pendingItems rest := by
  simp [pendingItems]

theorem pendingItems_cons (pending : PendingMutation) (rest : List PendingMutation) :
    pendingItems (pending :: rest) = pending.items.length + pendingItems rest := by
  simp [pendingItems]

theorem acceptTransitions_error {change : MEventType} {depth : Nat} {chain : List String} {items : List Item}
    {error : PersistError} {c c' : CausalState}
    (run : acceptTransitions ctx limits change depth chain items c = .error error c') :
    Accepts c c' ∧ c.derivedCount ≤ c'.derivedCount ∧ 0 < depth := by
  induction items generalizing c with
  | nil => cases run
  | cons item rest ih =>
    rw [acceptTransitions, bind_of_ok (get_eq c)] at run
    by_cases before : transitionKey ctx change item ∈ c.seen
    · rw [if_pos before] at run
      exact ih run
    · rw [if_neg before, bind_of_ok (set_eq c _)] at run
      have accepting : Accepts c (c.accepting (transitionKey ctx change item) depth) :=
        ⟨rfl, rfl, rfl, rfl, rfl⟩
      have counted : c.derivedCount ≤ (c.accepting (transitionKey ctx change item) depth).derivedCount := by
        unfold CausalState.accepting
        split <;> simp
      rcases checkBudget_eq limits item depth chain (c.accepting _ depth) with
        ⟨_, failed, deep⟩ | ⟨passed, -⟩
      · rw [bind_of_error failed] at run
        cases run
        exact ⟨accepting, counted, deep⟩
      · rw [bind_of_ok passed] at run
        rcases bind_error run with failed | ⟨_, _, _, returned⟩
        · obtain ⟨accepts, more, deep⟩ := ih failed
          exact ⟨accepting.trans accepts, counted.trans more, deep⟩
        · cases returned

/-- A submission that only counts its derived items leaves nothing to reduce behind. -/
theorem grows_refused {c c' : CausalState} (accepts : Accepts c c') (counted : c.derivedCount ≤ c'.derivedCount) :
    Grows limits c c' := by
  refine ⟨accepts.currentDepth, ?_, accepts.queue ▸ fun all => all⟩
  unfold allowance
  rw [accepts.queue]
  omega

/-- A submission whose items fit the budget queues them at the cost of it. -/
theorem grows_pushed (pending : PendingMutation) {c c' : CausalState} (accepts : Accepts c c')
    (counted : c'.derivedCount = c.derivedCount + pending.items.length)
    (within : c'.derivedCount ≤ limits.maxDerivedMutations) (admitted : Admitted limits pending) :
    Grows limits c { c' with queue := c'.queue ++ [pending] } := by
  refine ⟨accepts.currentDepth, ?_, fun all queued member => ?_⟩
  · have alone : pendingItems [pending] = pending.items.length := by simp [pendingItems]
    show pendingItems (c'.queue ++ [pending]) + (limits.maxDerivedMutations - c'.derivedCount) ≤
      pendingItems c.queue + (limits.maxDerivedMutations - c.derivedCount)
    rw [pendingItems_append, accepts.queue, alone]
    omega
  · rcases List.mem_append.mp member with before | added
    · exact all queued (accepts.queue ▸ before)
    · rw [List.mem_singleton.mp added]
      exact admitted

theorem checkDepth_eq (limits : CausalLimits) (first : Item) (depth : Nat) (chain : List String)
    (c : CausalState) :
    (∃ error, checkDepth limits first depth chain c = .error error c) ∨
      (checkDepth limits first depth chain c = .ok () c ∧ depth ≤ limits.maxDepth) := by
  unfold checkDepth
  rw [bind_of_ok (get_eq c)]
  split
  · exact .inl ⟨_, rfl⟩
  · rename_i within
    exact .inr ⟨rfl, by omega⟩

theorem final_enqueueUniform {first : Item} {items : List Item} {change : MEventType} {origin : Origin}
    {mode : EdgeApplyMode} {c : CausalState} (derived : 0 < nextDepth c) :
    Grows limits c (final (enqueueUniform ctx limits first items change origin mode) c) := by
  unfold final enqueueUniform
  rw [bind_of_ok (get_eq c)]
  rcases checkDepth_eq limits first (nextDepth c)
    (c.currentChain ++ [s!"{origin.debug}:{change.debug}@{nextDepth c}"]) c with ⟨_, deep⟩ | ⟨passed, depth⟩
  · rw [bind_of_error deep]
    exact Grows.refl limits c
  rw [bind_of_ok passed]
  cases run : acceptTransitions ctx limits change (nextDepth c)
    (c.currentChain ++ [s!"{origin.debug}:{change.debug}@{nextDepth c}"]) items c with
  | error error c' =>
    rw [bind_of_error run]
    obtain ⟨accepts, counted, -⟩ := acceptTransitions_error run
    exact grows_refused accepts counted
  | ok accepted c' =>
    rw [bind_of_ok run]
    obtain ⟨_, _, accepts, spent, _⟩ := acceptTransitions_ok run
    obtain ⟨counted, within⟩ := spent derived
    cases accepted with
    | nil =>
      have same : c'.derivedCount = c.derivedCount := counted
      exact grows_refused accepts (Nat.le_of_eq same.symm)
    | cons item rest =>
      exact grows_pushed ⟨.uniform (item :: rest) change, origin, c.currentMode.getD mode,
        nextDepth c, _⟩ accepts counted (within (by simp)) ⟨depth, Nat.succ_pos _⟩

theorem final_enqueueReplace {first : Item} {upserts deletes : List Item} {origin : Origin}
    {mode : EdgeApplyMode} {expected : Option Nat} {c : CausalState} (derived : 0 < nextDepth c) :
    Grows limits c (final (enqueueReplace ctx limits first upserts deletes origin mode expected) c) := by
  unfold final enqueueReplace
  rw [bind_of_ok (get_eq c)]
  rcases checkDepth_eq limits first (nextDepth c)
    (c.currentChain ++ [s!"{origin.debug}:REPLACE@{nextDepth c}"]) c with ⟨_, deep⟩ | ⟨passed, depth⟩
  · rw [bind_of_error deep]
    exact Grows.refl limits c
  rw [bind_of_ok passed]
  cases removing : acceptTransitions ctx limits .del (nextDepth c)
    (c.currentChain ++ [s!"{origin.debug}:REPLACE@{nextDepth c}"]) deletes c with
  | error error c' =>
    rw [bind_of_error removing]
    obtain ⟨accepts, counted, -⟩ := acceptTransitions_error removing
    exact grows_refused accepts counted
  | ok gone c₁ =>
    rw [bind_of_ok removing]
    obtain ⟨_, _, accepts, spent, _⟩ := acceptTransitions_ok removing
    obtain ⟨counted, within⟩ := spent derived
    cases putting : acceptTransitions ctx limits .set (nextDepth c)
      (c.currentChain ++ [s!"{origin.debug}:REPLACE@{nextDepth c}"]) upserts c₁ with
    | error error c' =>
      rw [bind_of_error putting]
      obtain ⟨accepts', counted', -⟩ := acceptTransitions_error putting
      have more : c.derivedCount ≤ c'.derivedCount := by omega
      exact grows_refused (accepts.trans accepts') more
    | ok put c₂ =>
      rw [bind_of_ok putting]
      obtain ⟨_, _, accepts', spent', _⟩ := acceptTransitions_ok putting
      obtain ⟨counted', within'⟩ := spent' derived
      have both := accepts.trans accepts'
      by_cases empty : put = [] ∧ gone = []
      · obtain ⟨rfl, rfl⟩ := empty
        have same : c₂.derivedCount = c.derivedCount := counted'.trans counted
        exact grows_refused both (Nat.le_of_eq same.symm)
      · have some_left : (!put.isEmpty || !gone.isEmpty) = true := by
          cases put with
          | nil =>
            cases gone with
            | nil => exact absurd ⟨rfl, rfl⟩ empty
            | cons _ _ => rfl
          | cons _ _ => rfl
        have fits : c₂.derivedCount ≤ limits.maxDerivedMutations := by
          cases put with
          | nil =>
            have removed := within fun none => empty ⟨rfl, none⟩
            simp only [List.length_nil] at counted'
            omega
          | cons _ _ => exact within' (by simp)
        have inhabited : 0 < (put ++ gone).length :=
          List.length_pos_iff.mpr fun none => empty (List.append_eq_nil_iff.mp none)
        rw [if_pos some_left]
        refine grows_pushed ⟨.replace put gone expected, origin, c.currentMode.getD mode,
          nextDepth c, _⟩ both ?_ fits ⟨depth, inhabited⟩
        show c₂.derivedCount = c.derivedCount + (put ++ gone).length
        rw [List.length_append]
        omega

theorem final_join {submission : Submission} {c : CausalState} (derived : 0 < nextDepth c) :
    Grows limits c (final (submission.join ctx limits) c) := by
  have returns : ∀ (m : CausalM Unit), Grows limits c (final m c) →
      Grows limits c (final (do m; return true : CausalM Bool) c) := by
    intro m grows
    have same : final (do m; return true : CausalM Bool) c = final m c := by
      unfold final
      rw [bind_eq]
      cases m c <;> rfl
    rw [same]
    exact grows
  have enqueues : Grows limits c (final (submission.enqueue ctx limits) c) := by
    cases submission with
    | uniform items change origin mode =>
      cases items with
      | nil => exact Grows.refl limits c
      | cons first rest => exact returns _ (final_enqueueUniform derived)
    | replace upserts deletes origin expected =>
      simp only [Submission.enqueue]
      cases upserts.head?.or deletes.head? with
      | none => exact Grows.refl limits c
      | some first => exact returns _ (final_enqueueReplace derived)
  cases submission with
  | uniform items change origin mode => exact enqueues
  | replace upserts deletes origin expected =>
    cases expected with
    | none => exact enqueues
    | some generation => exact Grows.refl limits c

/-- A root's own submission is accepted, with nothing derived yet. -/
structure Begun (limits : CausalLimits) (submission : Submission) (c : CausalState) : Prop where
  allowed : allowance limits c ≤ submission.items.length + limits.maxDerivedMutations
  admitted : ∀ pending ∈ c.queue, Admitted limits pending

theorem begun_of_queue {submission : Submission} {c : CausalState} {pending : PendingMutation} {bare : Prop}
    [Decidable bare] (queue : c.queue = if bare then [] else [pending])
    (items : pending.items.length ≤ submission.items.length) (inhabited : ¬bare → 0 < pending.items.length)
    (own : pending.depth = 0) : Begun limits submission c := by
  by_cases none : bare
  · rw [if_pos none] at queue
    refine ⟨?_, fun _ member => (by rw [queue] at member; cases member)⟩
    unfold allowance
    rw [queue, show pendingItems [] = 0 from rfl]
    omega
  · rw [if_neg none] at queue
    refine ⟨?_, fun _ member => ?_⟩
    · unfold allowance
      rw [queue, show pendingItems [pending] = pending.items.length by simp [pendingItems]]
      omega
    · rw [queue, List.mem_singleton] at member
      rw [member]
      exact ⟨own ▸ Nat.zero_le _, inhabited none⟩

theorem begin_enqueue (ctx : MykoServerContext) (limits : CausalLimits) (submission : Submission)
    (rootTx : String) :
    ∃ c, submission.enqueue ctx limits (.begin rootTx) = .ok true c ∧ Begun limits submission c := by
  have bare : Begun limits submission (.begin rootTx) := by
    refine ⟨?_, fun _ member => (by cases member)⟩
    show 0 + (limits.maxDerivedMutations - 0) ≤ _
    omega
  have own : nextDepth (.begin rootTx) = 0 := rfl
  cases submission with
  | uniform items change origin mode =>
    cases items with
    | nil => exact ⟨_, rfl, bare⟩
    | cons first rest =>
      obtain ⟨c, run⟩ := enqueueUniform_own ctx limits first (first :: rest) change origin mode own
      have submitted := enqueueUniform_ok run
      refine ⟨c, by rw [Submission.enqueue, bind_of_ok run]; rfl,
      begun_of_queue (submitted.queue.trans (List.nil_append _)) ?_ ?_ rfl⟩
      · exact (unseen_sublist change [] (first :: rest)).length_le
      · exact fun some => List.length_pos_iff.mpr some
  | replace upserts deletes origin expected =>
    simp only [Submission.enqueue]
    cases upserts.head?.or deletes.head? with
    | none => exact ⟨_, rfl, bare⟩
    | some first =>
      obtain ⟨c, run⟩ := enqueueReplace_own ctx limits first upserts deletes origin .authoritative expected own
      obtain ⟨extended, -, -⟩ := enqueueReplace_ok run
      refine ⟨c, by dsimp only; rw [bind_of_ok run]; rfl,
        begun_of_queue (extended.queue.trans (List.nil_append _)) ?_ ?_ rfl⟩
      · show ((_ : List Item) ++ _).length ≤ (upserts ++ deletes).length
        rw [List.length_append, List.length_append]
        exact Nat.add_le_add (unseen_sublist .set _ upserts).length_le (unseen_sublist .del _ deletes).length_le
      · intro some
        refine List.length_pos_iff.mpr fun none => some ?_
        obtain ⟨puts, dels⟩ := List.append_eq_nil_iff.mp none
        exact Prod.ext puts dels

/-! ### What a program does to the transactions of its thread -/

variable {Server World : Type} [DecidableEq Server] {b : Behaviour Server World}

/-- From one state of the thread to a later one at a point of a program, as far as one server goes: its root
stays open or stays closed, and an open one has only been submitted to. -/
structure Calm (b : Behaviour Server World) (server : Server) (th th' : Thread Server) : Prop where
  active : (th'.states server).isSome = (th.states server).isSome
  grows : ∀ c, th.states server = some c → 0 < nextDepth c →
    ∃ c', th'.states server = some c' ∧ Grows (b.limits server) c c'

omit [DecidableEq Server] in
theorem Calm.refl (b : Behaviour Server World) (server : Server) (th : Thread Server) :
    Calm b server th th := ⟨rfl, fun c is _ => ⟨c, is, Grows.refl _ c⟩⟩

theorem Grows.nextDepth {c c' : CausalState} (grows : Grows limits c c') : nextDepth c' = nextDepth c := by
  unfold Myko.nextDepth
  rw [grows.currentDepth]

omit [DecidableEq Server] in
theorem Calm.trans {server : Server} {th th' th'' : Thread Server} (first : Calm b server th th')
    (rest : Calm b server th' th'') : Calm b server th th'' := by
  refine ⟨rest.active.trans first.active, fun c is derived => ?_⟩
  obtain ⟨c', is', grows⟩ := first.grows c is derived
  obtain ⟨c'', is'', grows'⟩ := rest.grows c' is' (grows.nextDepth.symm ▸ derived)
  exact ⟨c'', is'', grows.trans grows'⟩

theorem calm_put {server other : Server} (th : Thread Server) (state : Option CausalState)
    (apart : other ≠ server) : Calm b other th (th.put server state) := by
  have same : (th.put server state).states other = th.states other := Function.update_of_ne apart _ _
  exact ⟨by rw [same], fun c is _ => ⟨c, same.trans is, Grows.refl _ c⟩⟩

theorem within_eq (th : Thread Server) (server : Server) (c : CausalState) (step : CausalM Bool) :
    (th.within server c step).2.states = Function.update th.states server (some (final step c)) := by
  unfold Thread.within final
  cases step c <;> rfl

theorem calm_within {th : Thread Server} {server : Server} {c : CausalState} {submission : Submission}
    (is : th.states server = some c) (other : Server) :
    Calm b other th (th.within server c (submission.join ctx (b.limits server))).2 := by
  by_cases here : other = server
  · subst here
    refine ⟨by rw [within_eq, Function.update_self, is]; rfl, fun c' is' derived => ?_⟩
    obtain rfl : c = c' := Option.some.inj (is.symm.trans is')
    exact ⟨_, by rw [within_eq, Function.update_self], final_join derived⟩
  · have same : (th.within server c (submission.join ctx (b.limits server))).2.states other =
        th.states other := by rw [within_eq, Function.update_of_ne here]
    exact ⟨by rw [same], fun c' is' _ => ⟨c', same.trans is', Grows.refl _ c'⟩⟩

/-! ### Why everything ends -/

variable [Fintype Server]

/-- The servers without a root under way on the thread: how deep roots can still be nested. -/
def idle (th : Thread Server) : Nat := (Finset.univ.filter fun server => (th.states server).isNone).card

omit [DecidableEq Server] in
theorem idle_calm {th th' : Thread Server} (calm : ∀ server, Calm b server th th') : idle th' = idle th := by
  unfold idle
  congr 1
  refine Finset.filter_congr fun server _ => ?_
  have active := (calm server).active
  cases before : th.states server <;> cases after : th'.states server <;> simp_all

theorem idle_put {th : Thread Server} {server : Server} (closed : th.states server = none) (c : CausalState) :
    idle (th.put server (some c)) < idle th := by
  refine Finset.card_lt_card (Finset.ssubset_iff_subset_ne.mpr ⟨fun other member => ?_, fun same => ?_⟩)
  · rw [Finset.mem_filter] at member ⊢
    refine ⟨member.1, ?_⟩
    by_cases here : other = server
    · rw [here, closed]
      rfl
    · rw [← show (th.put server (some c)).states other = th.states other from
        Function.update_of_ne here _ _]
      exact member.2
  · have open_ : server ∉ Finset.univ.filter fun other => ((th.put server (some c)).states other).isNone := by
      simp [Thread.put]
    rw [same] at open_
    exact open_ (by simp [closed])

theorem idle_within {th : Thread Server} {server : Server} {c : CausalState} (is : th.states server = some c)
    (c' : CausalState) : idle (th.put server (some c')) = idle th := by
  unfold idle
  congr 1
  refine Finset.filter_congr fun other _ => ?_
  by_cases here : other = server
  · subst here
    simp [Thread.put, is]
  · rw [show (th.put server (some c')).states other = th.states other from Function.update_of_ne here _ _]

/-- Every call made on a thread with at most `k` idle servers comes back. -/
def ComesBack (b : Behaviour Server World) (k : Nat) : Prop :=
  ∀ server submission world (th : Thread Server), idle th ≤ k →
    ∃ world' th' reply, (∀ other, Calm b other th th') ∧
      ∃ enough, ∀ fuel, enough ≤ fuel → b.submit fuel server submission world th = some (world', th', reply)

theorem program_comesBack {k : Nat} (back : ComesBack b k) (program : Program Server World)
    (th : Thread Server) (few : idle th ≤ k) :
    ∃ world' th' answer, (∀ other, Calm b other th th') ∧
      ∃ enough, ∀ fuel, enough ≤ fuel → program.run (b.submit fuel) th = some (world', th', answer) := by
  induction program generalizing th with
  | done world answer => exact ⟨world, th, answer, fun other => Calm.refl b other th, 0, fun _ _ => rfl⟩
  | submit world server submission next ih =>
    obtain ⟨world₁, th₁, reply, calm₁, enough₁, back₁⟩ := back server submission world th few
    obtain ⟨world₂, th₂, answer, calm₂, enough₂, back₂⟩ :=
      ih world₁ reply th₁ ((idle_calm calm₁).symm ▸ few)
    refine ⟨world₂, th₂, answer, fun other => (calm₁ other).trans (calm₂ other), max enough₁ enough₂,
      fun fuel enough => ?_⟩
    rw [Program.run, back₁ fuel (by omega)]
    exact back₂ fuel (by omega)

/-- How a queue comes to its end: within the allowance, at the first failed reduction, and without a trace on
the other servers of the thread. -/
structure DrainEnds (b : Behaviour Server World) (server : Server) (budget : Nat) (th : Thread Server)
    (run : RootRun Server World) : Prop where
  reduced : (run.reductions.map fun reduction => reduction.pending.items.length).sum ≤ budget
  depth : ∀ reduction ∈ run.reductions, reduction.pending.depth ≤ (b.limits server).maxDepth
  failed : ∀ earlier reduction later, run.reductions = earlier ++ reduction :: later →
    ((∃ error, reduction.answer = .error error) ↔ later = [] ∧ ∃ error, run.answer = .error error)
  quiet : run.reductions = [] → ∃ applied, run.answer = .ok applied
  calm : ∀ other, other ≠ server → Calm b other th run.thread

omit [Fintype Server] [DecidableEq Server] in
theorem drainEnds_nothing (b : Behaviour Server World) (server : Server) (budget : Nat) (world : World)
    (th : Thread Server) : DrainEnds b server budget th ⟨world, th, .ok true, []⟩ where
  reduced := Nat.zero_le _
  depth _ member := by cases member
  failed earlier _ _ split := by cases earlier <;> cases split
  quiet _ := ⟨true, rfl⟩
  calm other _ := Calm.refl b other th

omit [Fintype Server] [DecidableEq Server] in
theorem drainEnds_one {server : Server} {budget : Nat} {th after : Thread Server} {world : World}
    {answer : Answer} {reduction : Reduction} (fits : reduction.pending.items.length ≤ budget)
    (depth : reduction.pending.depth ≤ (b.limits server).maxDepth)
    (same : (∃ error, reduction.answer = .error error) ↔ ∃ error, answer = .error error)
    (calm : ∀ other, other ≠ server → Calm b other th after) :
    DrainEnds b server budget th ⟨world, after, answer, [reduction]⟩ where
  reduced := by simpa using fits
  depth other member := by
    rw [List.mem_singleton.mp member]
    exact depth
  failed earlier other later split := by
    cases earlier with
    | nil =>
      obtain ⟨rfl, rfl⟩ := List.cons.inj split
      simpa using same
    | cons _ earlier => cases earlier <;> cases (List.cons.inj split).2
  quiet none := by cases none
  calm := calm

omit [Fintype Server] [DecidableEq Server] in
theorem DrainEnds.cons (reduction : Reduction) {server : Server} {budget : Nat} {th after : Thread Server}
    {run : RootRun Server World} {applied : Bool}
    (ends : DrainEnds b server (budget - reduction.pending.items.length) after run)
    (fits : reduction.pending.items.length ≤ budget)
    (depth : reduction.pending.depth ≤ (b.limits server).maxDepth) (ok : reduction.answer = .ok applied)
    (calm : ∀ other, other ≠ server → Calm b other th after) :
    DrainEnds b server budget th { run with reductions := reduction :: run.reductions } where
  reduced := by
    have rest := ends.reduced
    show (reduction.pending.items.length :: run.reductions.map _).sum ≤ budget
    rw [List.sum_cons]
    omega
  depth other member := by
    rcases List.mem_cons.mp member with rfl | member
    · exact depth
    · exact ends.depth other member
  failed earlier other later split := by
    cases earlier with
    | nil =>
      obtain ⟨rfl, rest⟩ := List.cons.inj split
      rw [ok]
      refine ⟨fun failed => (by obtain ⟨_, wrong⟩ := failed; cases wrong), fun ended => ?_⟩
      -- Nothing was reduced after it, so the queue ended without an error.
      obtain ⟨last, _, error⟩ := ended
      obtain ⟨_, fine⟩ := ends.quiet (rest.trans last)
      rw [show run.answer = .error _ from error] at fine
      cases fine
    | cons _ earlier => exact ends.failed earlier other later (List.cons.inj split).2
  quiet none := by cases none
  calm other apart := (calm other apart).trans (ends.calm other apart)

theorem drain_comesBack {k : Nat} (back : ComesBack b k) (server : Server) (halt : Bool) (budget : Nat)
    (c : CausalState) (world : World) (th : Thread Server) (is : th.states server = some c)
    (allowed : allowance (b.limits server) c ≤ budget)
    (admitted : ∀ pending ∈ c.queue, Admitted (b.limits server) pending) (few : idle th ≤ k) :
    ∃ run, DrainEnds b server budget th run ∧ ∃ enough, ∀ fuel steps, enough ≤ fuel → enough ≤ steps →
      b.drain (b.submit fuel) server halt steps world th = some run := by
  induction budget using Nat.strong_induction_on generalizing c world th with
  | _ budget ih =>
    cases queue : c.queue with
    | nil =>
      refine ⟨_, drainEnds_nothing b server budget world th, 1, fun fuel steps _ some_steps => ?_⟩
      obtain ⟨steps, rfl⟩ : ∃ n, steps = n + 1 := ⟨steps - 1, by omega⟩
      simp only [Behaviour.drain, is, queue]
    | cons pending rest =>
      have here := admitted pending (queue ▸ List.mem_cons_self)
      -- What is popped is paid for out of the allowance.
      have paid : allowance (b.limits server) (c.pop pending rest) + pending.items.length =
          allowance (b.limits server) c := by
        show pendingItems rest + ((b.limits server).maxDerivedMutations - c.derivedCount) +
          pending.items.length = pendingItems c.queue + _
        rw [queue, pendingItems_cons]
        omega
      have few₁ : idle (th.put server (some (c.pop pending rest))) ≤ k := (idle_within is _).symm ▸ few
      obtain ⟨world₂, after, answer, calm, enough₁, ran⟩ := program_comesBack back
        (b.reduce server pending world) (th.put server (some (c.pop pending rest))) few₁
      have calmOthers : ∀ other, other ≠ server → Calm b other th after := fun other apart =>
        (calm_put th _ apart).trans (calm other)
      obtain ⟨c', is', grows⟩ := (calm server).grows (c.pop pending rest)
        (Function.update_self _ _ _) (Nat.succ_pos _)
      have restAdmitted : ∀ queued ∈ (c.pop pending rest).queue, Admitted (b.limits server) queued :=
        fun queued member => admitted queued (queue ▸ List.mem_cons_of_mem _ member)
      have fits : pending.items.length ≤ budget := by omega
      let exhausted := decide (th.budgetExhaustions server < after.budgetExhaustions server)
      cases answer with
      | error error =>
        refine ⟨⟨world₂, after, .error error, [⟨pending, exhausted, .error error⟩]⟩,
          drainEnds_one fits here.depth Iff.rfl calmOthers, max enough₁ 1, fun fuel steps enough some_steps => ?_⟩
        obtain ⟨steps, rfl⟩ : ∃ n, steps = n + 1 := ⟨steps - 1, by omega⟩
        simp only [Behaviour.drain, is, queue, ran fuel (by omega), exhausted]
      | ok applied =>
        by_cases stop : (halt && isReplacement pending && !applied) = true
        · refine ⟨⟨world₂, after, .ok false, [⟨pending, exhausted, .ok applied⟩]⟩,
            drainEnds_one fits here.depth ⟨fun failed => ?_, fun failed => ?_⟩ calmOthers, max enough₁ 1,
            fun fuel steps enough some_steps => ?_⟩
          · obtain ⟨_, wrong⟩ := failed
            cases wrong
          · obtain ⟨_, wrong⟩ := failed
            cases wrong
          · obtain ⟨steps, rfl⟩ : ∃ n, steps = n + 1 := ⟨steps - 1, by omega⟩
            simp only [Behaviour.drain, is, queue, ran fuel (by omega), stop, ↓reduceIte, exhausted]
        · obtain ⟨run, ends, enough₂, drained⟩ := ih (budget - pending.items.length)
            (by have := here.inhabited; omega) c' world₂ after is'
            (by have := grows.paid; omega) (grows.admitted restAdmitted) ((idle_calm calm).symm ▸ few₁)
          refine ⟨_, DrainEnds.cons ⟨pending, exhausted, .ok applied⟩ ends fits here.depth rfl calmOthers,
            max enough₁ (enough₂ + 1), fun fuel steps enough some_steps => ?_⟩
          obtain ⟨steps, rfl⟩ : ∃ n, steps = n + 1 := ⟨steps - 1, by omega⟩
          simp only [Behaviour.drain, is, queue, ran fuel (by omega), stop, Bool.false_eq_true, ↓reduceIte,
            drained fuel steps (by omega) (by omega), Option.map_some, exhausted]

/-- The run of a root whose queue came to its end: its transaction is taken away. -/
def RootRun.closed (run : RootRun Server World) (server : Server) : RootRun Server World :=
  { run with thread := run.thread.put server none }

theorem root_comesBack {k : Nat} (back : ComesBack b k) (server : Server) (submission : Submission)
    (world : World) (th : Thread Server) (closed : th.states server = none) (few : idle th ≤ k + 1) :
    ∃ run, DrainEnds b server (submission.items.length + (b.limits server).maxDerivedMutations) th run ∧
      b.Finishes server submission world th (run.closed server) := by
  obtain ⟨c, queued, begun⟩ := begin_enqueue (b.ctx server) (b.limits server) submission (b.rootTx world)
  let opened := th.put server (some (CausalState.begin (b.rootTx world)))
  have fewer : idle (opened.put server (some c)) ≤ k := by
    have before : idle opened < idle th := idle_put closed (.begin (b.rootTx world))
    have is : opened.states server = some (.begin (b.rootTx world)) := Function.update_self _ _ _
    rw [idle_within is c]
    omega
  obtain ⟨run, ends, enough, drained⟩ := drain_comesBack back server submission.isReplace _ c world
    (opened.put server (some c)) (Function.update_self _ _ _) begun.allowed begun.admitted fewer
  have whole : DrainEnds b server (submission.items.length + (b.limits server).maxDerivedMutations) th run :=
    ⟨ends.reduced, ends.depth, ends.failed, ends.quiet, fun other apart =>
      ((calm_put th _ apart).trans (calm_put opened _ apart)).trans (ends.calm other apart)⟩
  refine ⟨run, whole, enough, fun fuel most => ?_⟩
  unfold Behaviour.runRoot Thread.within
  simp only [queued]
  rw [drained fuel fuel most most]
  rfl

omit [Fintype Server] in
theorem calm_closed {server : Server} {budget : Nat} {th : Thread Server} {run : RootRun Server World}
    (closed : th.states server = none) (ends : DrainEnds b server budget th run) (other : Server) :
    Calm b other th (run.closed server).thread := by
  by_cases here : other = server
  · subst here
    have gone : (run.closed other).thread.states other = none := Function.update_self _ _ _
    exact ⟨by rw [gone, closed], fun c is => (by rw [closed] at is; cases is)⟩
  · exact (ends.calm other here).trans (calm_put run.thread none here)

omit [Fintype Server] in
theorem joined_comesBack (b : Behaviour Server World) (server : Server) (submission : Submission)
    (world : World) {th : Thread Server} {c : CausalState} (is : th.states server = some c) :
    ∃ world' th' reply, (∀ other, Calm b other th th') ∧
      ∃ enough, ∀ fuel, enough ≤ fuel → b.submit fuel server submission world th = some (world', th', reply) := by
  let after := th.within server c (submission.join (b.ctx server) (b.limits server))
  refine ⟨world, after.2, .returned after.1, calm_within is, 1, fun fuel some_fuel => ?_⟩
  obtain ⟨fuel, rfl⟩ : ∃ n, fuel = n + 1 := ⟨fuel - 1, by omega⟩
  simp only [Behaviour.submit, is, after]

/-- Calls come back however many servers have no root under way, by nesting one more root at a time. -/
theorem comesBack (b : Behaviour Server World) (k : Nat) : ComesBack b k := by
  induction k with
  | zero =>
    intro server submission world th few
    cases is : th.states server with
    | none =>
      have counted : server ∈ Finset.univ.filter fun server => (th.states server).isNone := by simp [is]
      exact absurd (Finset.card_pos.mpr ⟨server, counted⟩) (by unfold idle at few; omega)
    | some c => exact joined_comesBack b server submission world is
  | succ k ih =>
    intro server submission world th few
    cases is : th.states server with
    | some c => exact joined_comesBack b server submission world is
    | none =>
      by_cases opens : submission.opensRoot (b.ctx server) = true
      · obtain ⟨run, ends, enough, ran⟩ := root_comesBack ih server submission world th is few
        let ended := run.closed server
        refine ⟨ended.world, ended.thread, .returned ended.answer, calm_closed is ends, enough + 1,
          fun fuel some_fuel => ?_⟩
        obtain ⟨fuel, rfl⟩ : ∃ n, fuel = n + 1 := ⟨fuel - 1, by omega⟩
        simp only [Behaviour.submit, is, opens, ↓reduceIte, ran fuel (by omega), Option.map_some, ended]
      · by_cases replaces : submission.isReplace = true
        · refine ⟨world, th, .returned (.ok true), fun other => Calm.refl b other th, 1, fun fuel some_fuel => ?_⟩
          obtain ⟨fuel, rfl⟩ : ∃ n, fuel = n + 1 := ⟨fuel - 1, by omega⟩
          simp only [Behaviour.submit, is, opens, replaces, Bool.false_eq_true, ↓reduceIte]
        · refine ⟨world, th, .emitHere, fun other => Calm.refl b other th, 1, fun fuel some_fuel => ?_⟩
          obtain ⟨fuel, rfl⟩ : ∃ n, fuel = n + 1 := ⟨fuel - 1, by omega⟩
          simp only [Behaviour.submit, is, opens, replaces, Bool.false_eq_true, ↓reduceIte]

omit [Fintype Server] in
/-- A closed root is contained just when each of its reductions passes on the refusals it meets. -/
theorem contained_closed_iff {server : Server} {submission : Submission} {th : Thread Server}
    {run : RootRun Server World} (closed : th.states server = none)
    (ends : DrainEnds b server (submission.items.length + (b.limits server).maxDerivedMutations) th run) :
    (run.closed server).Contained (b.limits server) server submission th ↔ (run.closed server).PassesOn := by
  constructor
  · intro contained reduction member exhausted
    obtain ⟨earlier, later, split⟩ := List.append_of_mem member
    exact (ends.failed earlier reduction later split).mpr
      (contained.stops earlier reduction later split exhausted)
  · intro passes
    refine ⟨ends.reduced, ends.depth, fun earlier reduction later split exhausted => ?_,
      Function.update_self _ _ _, fun other _ => (calm_closed closed ends other).active⟩
    have member : reduction ∈ run.reductions := by
      rw [show run.reductions = earlier ++ reduction :: later from split]
      simp
    exact (ends.failed earlier reduction later split).mp (passes reduction member exhausted)

/-! ### Programs that pass refusals on -/

omit [DecidableEq Server] [Fintype Server] in
/-- However the submissions come back, the program ends with an error. -/
def Program.Fails : Program Server World → Prop
  | .done _ answer => ∃ error, answer = .error error
  | .submit _ _ _ next => ∀ world reply, (next world reply).Fails

/-- Once a submission has come back with an error, the program ends with one. -/
def Program.PassesOn : Program Server World → Prop
  | .done _ _ => True
  | .submit _ _ _ next =>
    ∀ world, (∀ error, (next world (.returned (.error error))).Fails) ∧ ∀ reply, (next world reply).PassesOn

/-- No limit is exceeded without an error coming back for it. -/
def Answers (handle : Handler Server World) : Prop :=
  ∀ server submission world (th : Thread Server) world' th' reply,
    handle server submission world th = some (world', th', reply) →
    th'.budgetExhaustions = th.budgetExhaustions ∨ ∃ error, reply = .returned (.error error)

omit [DecidableEq Server] [Fintype Server] in
theorem run_fails {handle : Handler Server World} {program : Program Server World} (fails : program.Fails)
    {th th' : Thread Server} {world : World} {answer : Answer}
    (ran : program.run handle th = some (world, th', answer)) : ∃ error, answer = .error error := by
  induction program generalizing th with
  | done _ own =>
    obtain ⟨rfl, rfl, rfl⟩ : _ ∧ _ ∧ own = answer := by simpa [Program.run] using ran
    exact fails
  | submit start server submission next ih =>
    rw [Program.run] at ran
    split at ran
    · cases ran
    · exact ih _ _ (fails _ _) ran

omit [DecidableEq Server] [Fintype Server] in
theorem run_answers {handle : Handler Server World} (answers : Answers handle)
    {program : Program Server World} (passes : program.PassesOn) {th th' : Thread Server} {world : World}
    {answer : Answer} (ran : program.run handle th = some (world, th', answer)) :
    th'.budgetExhaustions = th.budgetExhaustions ∨ ∃ error, answer = .error error := by
  induction program generalizing th with
  | done _ own =>
    obtain ⟨rfl, rfl, rfl⟩ : _ ∧ th = th' ∧ _ := by simpa [Program.run] using ran
    exact .inl rfl
  | submit start server submission next ih =>
    rw [Program.run] at ran
    cases called : handle server submission start th with
    | none => rw [called] at ran; cases ran
    | some result =>
      obtain ⟨world₁, th₁, reply⟩ := result
      rw [called] at ran
      rcases answers _ _ _ _ _ _ _ called with same | ⟨error, rfl⟩
      · rcases ih _ _ ((passes world₁).2 reply) ran with later | failed
        · exact .inl (later.trans same)
        · exact .inr failed
      · exact .inr (run_fails ((passes world₁).1 error) ran)

omit [Fintype Server] in
/-- A drained queue has met no limit, or ended in an error; and so has each reduction of it. -/
theorem drain_answers {handle : Handler Server World} (answers : Answers handle)
    (passes : ∀ server pending world, (b.reduce server pending world).PassesOn) {server : Server} {halt : Bool}
    {steps : Nat} {world : World} {th : Thread Server} {run : RootRun Server World}
    (drained : b.drain handle server halt steps world th = some run) :
    (run.thread.budgetExhaustions = th.budgetExhaustions ∨ ∃ error, run.answer = .error error) ∧
      run.PassesOn := by
  induction steps generalizing world th run with
  | zero => cases drained
  | succ steps ih =>
    rw [Behaviour.drain] at drained
    cases is : th.states server with
    | none =>
      simp only [is, Option.some.injEq] at drained
      subst drained
      exact ⟨.inl rfl, fun _ member => (by cases member)⟩
    | some c =>
      simp only [is] at drained
      cases queue : c.queue with
      | nil =>
        simp only [queue, Option.some.injEq] at drained
        subst drained
        exact ⟨.inl rfl, fun _ member => (by cases member)⟩
      | cons pending rest =>
        simp only [queue] at drained
        cases ran : (b.reduce server pending world).run handle
            (th.put server (some (c.pop pending rest))) with
        | none => simp only [ran, reduceCtorEq] at drained
        | some result =>
          obtain ⟨world₁, after, answer⟩ := result
          have one := run_answers answers (passes server pending world) ran
          have counted : (th.put server (some (c.pop pending rest))).budgetExhaustions =
              th.budgetExhaustions := rfl
          rw [counted] at one
          have passed : ∀ own : Answer, own = answer →
              decide (th.budgetExhaustions server < after.budgetExhaustions server) = true →
              ∃ error, own = .error error := by
            intro own same exhausted
            rcases one with unchanged | failed
            · rw [unchanged] at exhausted
              simp at exhausted
            · exact same ▸ failed
          simp only [ran] at drained
          cases answer with
          | error error =>
            simp only [Option.some.injEq] at drained
            subst drained
            refine ⟨.inr ⟨error, rfl⟩, fun reduction member exhausted => ?_⟩
            rw [List.mem_singleton.mp member] at exhausted ⊢
            exact ⟨error, rfl⟩
          | ok applied =>
            have unchanged : after.budgetExhaustions = th.budgetExhaustions := by
              rcases one with same | ⟨_, wrong⟩
              · exact same
              · cases wrong
            have quiet : decide (th.budgetExhaustions server < after.budgetExhaustions server) = false := by
              rw [unchanged]
              simp
            by_cases stop : (halt && isReplacement pending && !applied) = true
            · simp only [stop, ↓reduceIte, Option.some.injEq] at drained
              subst drained
              refine ⟨.inl unchanged, fun reduction member exhausted => ?_⟩
              rw [List.mem_singleton.mp member] at exhausted
              rw [quiet] at exhausted
              cases exhausted
            · simp only [stop, Bool.false_eq_true, ↓reduceIte, Option.map_eq_some_iff] at drained
              obtain ⟨later, drainedLater, rfl⟩ := drained
              obtain ⟨counts, passesLater⟩ := ih drainedLater
              refine ⟨?_, fun reduction member exhausted => ?_⟩
              · rcases counts with same | failed
                · exact .inl (same.trans unchanged)
                · exact .inr failed
              · rcases List.mem_cons.mp member with rfl | member
                · rw [quiet] at exhausted
                  cases exhausted
                · exact passesLater reduction member exhausted

omit [Fintype Server] in
theorem root_answers {handle : Handler Server World} (answers : Answers handle)
    (passes : ∀ server pending world, (b.reduce server pending world).PassesOn) {server : Server} {fuel : Nat}
    {submission : Submission} {world : World} {th : Thread Server} {run : RootRun Server World}
    (ran : b.runRoot handle fuel server submission world th = some run) :
    (run.thread.budgetExhaustions = th.budgetExhaustions ∨ ∃ error, run.answer = .error error) ∧
      run.PassesOn := by
  obtain ⟨c, queued, -⟩ := begin_enqueue (b.ctx server) (b.limits server) submission (b.rootTx world)
  unfold Behaviour.runRoot Thread.within at ran
  simp only [queued, Option.map_eq_some_iff] at ran
  obtain ⟨drained, whole, rfl⟩ := ran
  obtain ⟨counts, reductions⟩ := drain_answers answers passes whole
  exact ⟨counts, reductions⟩

omit [Fintype Server] in
theorem submit_answers (passes : ∀ server pending world, (b.reduce server pending world).PassesOn) (fuel : Nat) :
    Answers (b.submit fuel) := by
  induction fuel with
  | zero => intro _ _ _ _ _ _ _ called; cases called
  | succ fuel ih =>
    intro server submission world th world' th' reply called
    rw [Behaviour.submit] at called
    cases is : th.states server with
    | some c =>
      simp only [is, Thread.within] at called
      cases joined : submission.join (b.ctx server) (b.limits server) c with
      | ok answer c' =>
        simp only [joined, Option.some.injEq, Prod.mk.injEq] at called
        obtain ⟨-, rfl, -⟩ := called
        exact .inl rfl
      | error error c' =>
        simp only [joined, Option.some.injEq, Prod.mk.injEq] at called
        obtain ⟨-, -, rfl⟩ := called
        exact .inr ⟨error, rfl⟩
    | none =>
      simp only [is] at called
      split at called
      · obtain ⟨run, ran, same⟩ := Option.map_eq_some_iff.mp called
        cases same
        rcases (root_answers ih passes ran).1 with same | ⟨error, failed⟩
        · exact .inl same
        · exact .inr ⟨error, by rw [failed]⟩
      · split at called <;> cases called <;> exact .inl rfl

/-- Where every program passes refusals on, every root is contained. -/
theorem root_contained_of_passesOn (passes : ∀ server pending world, (b.reduce server pending world).PassesOn)
    (server : Server) (submission : Submission) (world : World) (th : Thread Server)
    (closed : th.states server = none) :
    ∃ run, b.Finishes server submission world th run ∧
      run.Contained (b.limits server) server submission th := by
  obtain ⟨run, ends, enough, ran⟩ :=
    root_comesBack (comesBack b (idle th)) server submission world th closed (Nat.le_succ _)
  exact ⟨run.closed server, ⟨enough, ran⟩, (contained_closed_iff closed ends).mpr
    (root_answers (submit_answers passes enough) passes (ran enough (Nat.le_refl _))).2⟩

/-- Every root finishes, and it is contained just when each of its reductions passes on the refusals it meets. -/
theorem root_contained_iff (b : Behaviour Server World) (server : Server) (submission : Submission)
    (world : World) (th : Thread Server) (closed : th.states server = none) :
    ∃ run, b.Finishes server submission world th run ∧
      (run.Contained (b.limits server) server submission th ↔ run.PassesOn) := by
  obtain ⟨run, ends, finishes⟩ :=
    root_comesBack (comesBack b (idle th)) server submission world th closed (Nat.le_succ _)
  exact ⟨run.closed server, finishes, contained_closed_iff closed ends⟩

/-! ### A refusal that is only logged -/

namespace Sample

/-- One server without room for derived mutations, and a reaction to its root items that submits one more
and goes on whatever comes back, or passes a refusal on. -/
def reacting (passesOn : Bool) : Behaviour Unit Unit where
  ctx _ := Myko.Sample.server
  limits _ := ⟨0, 10⟩
  rootTx _ := "root"
  reduce _ pending _ :=
    if pending.depth = 0 then
      .submit () () (.uniform [Myko.Sample.node "y"] .set .localOrigin .authoritative) fun _ reply =>
        match reply, passesOn with
        | .returned (.error error), true => .done () (.error error)
        | _, _ => .done () (.ok true)
    else .done () (.ok true)

def rootItem : Submission := .replace [Myko.Sample.node "x"] [] .localOrigin none

def quietThread : Thread Unit := ⟨fun _ => none, fun _ => 0⟩

theorem root_contained_iff_passing : quietThread.states () = none ∧
    ∃ run, (reacting true).Finishes () rootItem () quietThread run ∧
      (run.Contained ((reacting true).limits ()) () rootItem quietThread ↔ run.PassesOn) :=
  ⟨rfl, root_contained_iff (reacting true) () rootItem () quietThread rfl⟩

/-- The root whose reaction swallows the refusal goes on and returns without an error. -/
theorem root_not_contained :
    ¬ ∀ (b : Behaviour Unit Unit) (server : Unit) (submission : Submission) (world : Unit) (th : Thread Unit),
      th.states server = none →
      ∃ run, b.Finishes server submission world th run ∧
        run.Contained (b.limits server) server submission th := by
  intro claim
  obtain ⟨run, ⟨enough, finishes⟩, contained⟩ := claim (reacting false) () rootItem () quietThread rfl
  have ran := finishes (enough + 3) (Nat.le_add_right _ _)
  have known : ((reacting false).runRoot ((reacting false).submit (enough + 3)) (enough + 3) () rootItem ()
      quietThread).map (fun run => (run.answer.toOption, run.reductions.map Reduction.exhausted)) =
        some (some true, [true]) := rfl
  rw [ran] at known
  obtain ⟨returned, refused⟩ := Prod.mk.inj (Option.some.inj known)
  obtain ⟨reduction, one, exhausted⟩ := List.map_eq_singleton_iff.mp refused
  obtain ⟨-, error, failed⟩ := contained.stops [] reduction [] one exhausted
  rw [failed] at returned
  cases returned

end Sample

end Myko.Reentry

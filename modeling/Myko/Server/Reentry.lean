import Myko.Server.Queue

/-!
Causal roots of several servers on one thread. What reducing a mutation submits is left open: any program
that makes finitely many submissions, each after seeing how the one before came back.
-/

namespace Myko.Reentry
open StateError

/-- What is handed to a server in one call. -/
inductive Submission where
  | uniform (items : List Item) (change : MEventType) (origin : Origin) (mode : EdgeApplyMode)
  | replace (upserts deletes : List Item) (origin : Origin) (expectedGraphGeneration : Option Nat)

abbrev Answer := Except PersistError Bool

/-- How a submission comes back. A mutation that neither joins a root nor needs one is emitted where it was
submitted, with whatever that brings about. -/
inductive Reply where
  | returned (answer : Answer)
  | emitHere

/-- The submissions made while a mutation is reduced. -/
inductive Program (Server World : Type) where
  | done (world : World) (answer : Answer)
  | submit (world : World) (server : Server) (submission : Submission)
      (next : World → Reply → Program Server World)

/-- The servers of a process and what reducing a mutation on each of them does. -/
structure Behaviour (Server World : Type) where
  ctx : Server → MykoServerContext
  limits : Server → CausalLimits
  rootTx : World → String
  reduce : Server → PendingMutation → World → Program Server World

/-- The causal states of one thread by their owners, and how often each owner has refused a submission over
its limits. -/
structure Thread (Server : Type) where
  states : Server → Option CausalState
  budgetExhaustions : Server → Nat

def isReplacement (pending : PendingMutation) : Bool :=
  match pending.kind with
  | .uniform _ _ => false
  | .replace _ _ _ => true

namespace Submission

def items : Submission → List Item
  | .uniform items _ _ _ => items
  | .replace upserts deletes _ _ => upserts ++ deletes

def isReplace : Submission → Bool
  | .uniform _ _ _ _ => false
  | .replace _ _ _ _ => true

def opensRoot (ctx : MykoServerContext) : Submission → Bool
  | .uniform items change origin _ => needsCausalRoot ctx items change origin
  | .replace upserts deletes _ _ => !(upserts.isEmpty && deletes.isEmpty)

def enqueue (ctx : MykoServerContext) (limits : CausalLimits) : Submission → CausalM Bool
  | .uniform items change origin mode =>
    match items with
    | [] => return true
    | first :: _ => do
      enqueueUniform ctx limits first items change origin mode
      return true
  | .replace upserts deletes origin expected =>
    match upserts.head?.or deletes.head? with
    | none => return true
    | some first => do
      enqueueReplace ctx limits first upserts deletes origin .authoritative expected
      return true

/-- Join the root under way, which a replacement planned for one generation of the graph never does. -/
def join (ctx : MykoServerContext) (limits : CausalLimits) (submission : Submission) : CausalM Bool :=
  match submission with
  | .replace upserts deletes _ (some _) => return upserts.isEmpty && deletes.isEmpty
  | _ => submission.enqueue ctx limits

end Submission

variable {Server World : Type} [DecidableEq Server]

namespace Thread

def put (th : Thread Server) (server : Server) (state : Option CausalState) : Thread Server :=
  { th with states := Function.update th.states server state }

/-- Run a step of one server's transaction; the only errors are exceeded limits. -/
def within (th : Thread Server) (server : Server) (c : CausalState) (step : CausalM Bool) :
    Answer × Thread Server :=
  match step c with
  | .ok answer c' => (.ok answer, th.put server (some c'))
  | .error error c' => (.error error, { th.put server (some c') with
      budgetExhaustions :=
        Function.update th.budgetExhaustions server (th.budgetExhaustions server + 1) })

end Thread

/-- One reduced mutation of a root, whether a limit was exceeded during it, and how it ended. -/
structure Reduction where
  pending : PendingMutation
  exhausted : Bool
  answer : Answer

structure RootRun (Server World : Type) where
  world : World
  thread : Thread Server
  answer : Answer
  reductions : List Reduction

/-- What a call on a server leads to. -/
abbrev Handler (Server World : Type) :=
  Server → Submission → World → Thread Server → Option (World × Thread Server × Reply)

omit [DecidableEq Server] in
def Program.run (handle : Handler Server World) :
    Program Server World → Thread Server → Option (World × Thread Server × Answer)
  | .done world answer, th => some (world, th, answer)
  | .submit world server submission next, th =>
    match handle server submission world th with
    | none => none
    | some (world, th, reply) => (next world reply).run handle th

namespace Behaviour

variable (b : Behaviour Server World) (handle : Handler Server World)

/-- Reduce the queue of a root to its end, to the first error, or, when the root is a replacement, to one
that does not apply. -/
def drain (server : Server) (halt : Bool) : Nat → World → Thread Server → Option (RootRun Server World)
  | 0, _, _ => none
  | fuel + 1, world, th =>
    match th.states server with
    | none => some ⟨world, th, .ok true, []⟩
    | some c =>
      match c.queue with
      | [] => some ⟨world, th, .ok true, []⟩
      | pending :: queue =>
        match (b.reduce server pending world).run handle (th.put server (some (c.pop pending queue))) with
        | none => none
        | some (world, after, answer) =>
          let exhausted := decide (th.budgetExhaustions server < after.budgetExhaustions server)
          let reduction : Reduction := ⟨pending, exhausted, answer⟩
          match answer with
          | .error error => some ⟨world, after, .error error, [reduction]⟩
          | .ok applied =>
            if halt && isReplacement pending && !applied then some ⟨world, after, .ok false, [reduction]⟩
            else (drain server halt fuel world after).map fun run =>
              { run with reductions := reduction :: run.reductions }

/-- Open a root: its own submission, then the queue, and whatever happens the transaction is taken away. -/
def runRoot (fuel : Nat) (server : Server) (submission : Submission) (world : World)
    (th : Thread Server) : Option (RootRun Server World) :=
  let begun := CausalState.begin (b.rootTx world)
  let (answer, th) := (th.put server (some begun)).within server begun
    (submission.enqueue (b.ctx server) (b.limits server))
  let drained : Option (RootRun Server World) := match answer with
    | .error error => some ⟨world, th, .error error, []⟩
    | .ok _ => b.drain handle server submission.isReplace fuel world th
  drained.map fun run => { run with thread := run.thread.put server none }

/-- Submit: join the root under way on this server, open one, or emit at once. -/
def submit : Nat → Handler Server World
  | 0, _, _, _, _ => none
  | fuel + 1, server, submission, world, th =>
    match th.states server with
    | some c =>
      let (answer, th) := th.within server c (submission.join (b.ctx server) (b.limits server))
      some (world, th, .returned answer)
    | none =>
      if submission.opensRoot (b.ctx server) then
        (b.runRoot (submit fuel) fuel server submission world th).map fun run =>
          (run.world, run.thread, .returned run.answer)
      else if submission.isReplace then some (world, th, .returned (.ok true))
      else some (world, th, .emitHere)

/-- The root opened by a submission comes to its end, in `run`. -/
def Finishes (server : Server) (submission : Submission) (world : World) (th : Thread Server)
    (run : RootRun Server World) : Prop :=
  ∃ enough, ∀ fuel, enough ≤ fuel → b.runRoot (b.submit fuel) fuel server submission world th = some run

end Behaviour

/-- A root within its bounds: no more items than its own and those it may derive, none too deep, no reduction
after an exceeded limit, and nothing left of it or of the roots nested in it. -/
structure RootRun.Contained (run : RootRun Server World) (limits : CausalLimits) (server : Server)
    (submission : Submission) (before : Thread Server) : Prop where
  reduced : (run.reductions.map fun reduction => reduction.pending.items.length).sum ≤
    submission.items.length + limits.maxDerivedMutations
  depth : ∀ reduction ∈ run.reductions, reduction.pending.depth ≤ limits.maxDepth
  stops : ∀ earlier reduction later, run.reductions = earlier ++ reduction :: later →
    reduction.exhausted = true → later = [] ∧ ∃ error, run.answer = .error error
  released : run.thread.states server = none
  others : ∀ other, other ≠ server →
    (run.thread.states other).isSome = (before.states other).isSome

/-- Every reduction in which a limit was exceeded has passed the refusal on. -/
def RootRun.PassesOn (run : RootRun Server World) : Prop :=
  ∀ reduction ∈ run.reductions, reduction.exhausted = true → ∃ error, reduction.answer = .error error

end Myko.Reentry

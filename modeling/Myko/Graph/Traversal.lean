import Mathlib.Data.List.Sort
import Myko.Graph.Schema
import Myko.Lib.MapDiff
import Myko.Lib.Walks

/-!
Bounded breadth-first traversal: the search with its three limits, and the path read back from it.
-/

namespace Myko

namespace EntityRef

theorem ordered_injective : Function.Injective fun entity : EntityRef =>
    (toLex (entity.entityType, entity.id) : String ×ₗ String) := by
  rintro ⟨entityType, id⟩ ⟨otherType, otherId⟩ h
  have parts := congrArg ofLex h
  cases parts
  rfl

/-- Compared by type and then by id. -/
instance : LinearOrder EntityRef := LinearOrder.lift' _ ordered_injective

end EntityRef

inductive Direction where
  | forward
  | reverse
  | both
  deriving DecidableEq

structure TraversalPath where
  nodes : List EntityRef
  edgeIds : List String

structure TraversalResult where
  nodes : List EntityRef
  edgeIds : List String
  truncated : Bool

structure TraversalRun where
  result : TraversalResult
  path : Option TraversalPath
  matched : Bool

def TraversalRun.emptyAt (start : EntityRef) (target : Option EntityRef) : TraversalRun where
  result := ⟨[], [], false⟩
  path := if target = some start then some ⟨[start], []⟩ else none
  matched := target = some start

structure TraversalRequest where
  start : EntityRef
  direction : Direction
  scope : Option IndexValue
  maxDepth : Nat
  maxNodes : Nat
  maxEdges : Nat
  collectEdges : Bool
  target : Option EntityRef
  recordPath : Bool

/-- The locals of the search. -/
structure Search where
  visited : List EntityRef
  queue : List (EntityRef × Nat)
  resultEdges : OrdSet String
  predecessors : Option (EntityRef → Option (EntityRef × String))
  traversedEdges : Nat
  truncated : Bool
  matched : Option EntityRef

namespace TraversalRequest

variable (request : TraversalRequest)

def initial : Search where
  visited := [request.start]
  queue := [(request.start, 0)]
  resultEdges := ∅
  predecessors := if request.recordPath then some fun _ => none else none
  traversedEdges := 0
  truncated := false
  matched := none

/-- The edge is counted, and kept if edges are asked for. -/
def traverse (edgeId : String) (s : Search) : Search :=
  { s with
    traversedEdges := s.traversedEdges + 1
    resultEdges := if request.collectEdges then s.resultEdges.insert edgeId else s.resultEdges }

/-- The neighbor is seen for the first time. -/
def discover (node neighbor : EntityRef) (edgeId : String) (s : Search) : Search :=
  { s with
    visited := s.visited ++ [neighbor]
    predecessors := s.predecessors.map fun before => Function.update before neighbor (some (node, edgeId)) }

/-- The edges of one node, in turn; the flag says that the search is broken off. -/
def visitNeighbors (node : EntityRef) (depth : Nat) : List (String × EntityRef) → Search → Search × Bool
  | [], s => (s, false)
  | (edgeId, neighbor) :: rest, s =>
    if s.traversedEdges ≥ request.maxEdges then ({ s with truncated := true }, true)
    else
      let s := request.traverse edgeId s
      if neighbor ∈ s.visited then visitNeighbors node depth rest s
      else if s.visited.length - 1 ≥ request.maxNodes then ({ s with truncated := true }, true)
      else
        let s := discover node neighbor edgeId s
        if request.target = some neighbor then ({ s with matched := some neighbor }, true)
        else visitNeighbors node depth rest { s with queue := s.queue ++ [(neighbor, depth + 1)] }

/-- The search, for at most `fuel` nodes taken from the queue; nothing when that is not enough. -/
def search (neighbors : EntityRef → List (String × EntityRef)) : Nat → Search → Option Search
  | fuel, s =>
    match s.queue, fuel with
    | [], _ => some s
    | _ :: _, 0 => none
    | (node, depth) :: queue, fuel + 1 =>
      let s := { s with queue }
      if depth ≥ request.maxDepth then search neighbors fuel s
      else
        -- what was pushed last is popped first
        match request.visitNeighbors node depth (neighbors node).reverse s with
        | (s, true) => some s
        | (s, false) => search neighbors fuel s

/-- The way back from a node along the predecessors, for at most `fuel` of them. -/
def wayBack (start : EntityRef) (predecessors : EntityRef → Option (EntityRef × String)) :
    Nat → EntityRef → List EntityRef → List String → Option TraversalPath
  | fuel, cursor, nodes, edgeIds =>
    if cursor = start then some ⟨nodes, edgeIds⟩
    else
      match predecessors cursor, fuel with
      | none, _ => some ⟨nodes, edgeIds⟩
      | some _, 0 => none
      | some (previous, edgeId), fuel + 1 =>
        wayBack start predecessors fuel previous (previous :: nodes) (edgeId :: edgeIds)

def traversalPath (start target : EntityRef) (predecessors : EntityRef → Option (EntityRef × String))
    (fuel : Nat) : Option TraversalPath := wayBack start predecessors fuel target [target] []

/-- The path to the matched target, when one was found and the way is recorded. -/
def pathOf (s : Search) : Option (Option TraversalPath) :=
  match s.matched, s.predecessors with
  | some target, some predecessors =>
    (traversalPath request.start target predecessors request.maxDepth).map some
  | _, _ => some none

/-- What is returned of the locals. -/
def report (s : Search) (path : Option TraversalPath) : TraversalRun where
  result := ⟨(s.visited.erase request.start).mergeSort (fun a b => a ≤ b), s.resultEdges.toList, s.truncated⟩
  path := path
  matched := s.matched.isSome

/-- The whole traversal; nothing if a loop does not end. -/
def runBoundedTraversal (neighbors : EntityRef → List (String × EntityRef)) : Option TraversalRun :=
  if request.target = some request.start then some (.emptyAt request.start request.target)
  else do
    let s ← request.search neighbors (request.maxNodes + 1) request.initial
    let path ← request.pathOf s
    return request.report s path

end TraversalRequest
end Myko

import Myko.Graph.Traversal

/-!
A bounded traversal is exact: it ends, keeps its limits, finds nodes where they are and only stops early when it
says so.
-/

namespace Myko
namespace TraversalRequest

variable {request : TraversalRequest} {neighbors : EntityRef → List (String × EntityRef)}

/-- The search as far as it has come: `done` are the nodes taken from the queue, each with its depth, and of the
last of them, `node`, the edges in `rest` have not been seen. -/
structure Frontier (request : TraversalRequest) (neighbors : EntityRef → List (String × EntityRef))
    (done : List (EntityRef × Nat)) (node : EntityRef) (rest : List (String × EntityRef)) (s : Search) : Prop where
  visited : s.visited = (done ++ s.queue).map Prod.fst
  nodup : s.visited.Nodup
  started : (request.start, 0) ∈ done ++ s.queue
  ordered : (done ++ s.queue).Pairwise fun earlier later => earlier.2 ≤ later.2
  spread : ∀ entry ∈ s.queue, ∀ other ∈ s.queue, other.2 ≤ entry.2 + 1
  distance : ∀ entry ∈ done ++ s.queue, AtDistance (Linked neighbors) request.start entry.2 entry.1
  depth : ∀ entry ∈ done ++ s.queue, entry.2 ≤ request.maxDepth
  closed : ∀ entry ∈ done, entry.2 < request.maxDepth → ∀ pair ∈ neighbors entry.1,
    (entry.1 = node ∧ pair ∈ rest) ∨
      (pair.2 ∈ s.visited ∧ (request.collectEdges = true → pair.1 ∈ s.resultEdges))
  edges : ∀ edgeId ∈ s.resultEdges, request.collectEdges = true ∧
    ∃ entry ∈ done, entry.2 < request.maxDepth ∧ ∃ neighbor, (edgeId, neighbor) ∈ neighbors entry.1
  recorded : s.predecessors.isSome = request.recordPath
  before : ∀ predecessors, s.predecessors = some predecessors → ∀ entry ∈ done ++ s.queue, ∀ k, entry.2 = k + 1 →
    ∃ previous edgeId, predecessors entry.1 = some (previous, edgeId) ∧ (edgeId, entry.1) ∈ neighbors previous ∧
      (previous, k) ∈ done ++ s.queue
  nodes : s.visited.length ≤ request.maxNodes + 1
  size : s.resultEdges.size ≤ s.traversedEdges
  budget : s.traversedEdges ≤ request.maxEdges

variable {done : List (EntityRef × Nat)} {node : EntityRef} {rest : List (String × EntityRef)} {s : Search}

theorem frontier_initial : Frontier request neighbors [] node [] request.initial where
  visited := rfl
  nodup := List.nodup_singleton _
  started := List.mem_cons_self
  ordered := List.pairwise_singleton _ _
  spread entry queued other queued' := by
    rw [List.mem_singleton.mp queued, List.mem_singleton.mp queued']
    exact Nat.zero_le _
  distance entry among := by
    rw [List.mem_singleton.mp among]
    exact .zero
  depth entry among := by
    rw [List.mem_singleton.mp among]
    exact Nat.zero_le _
  closed entry among := by cases among
  edges edgeId among := absurd among Std.ExtTreeSet.not_mem_empty
  recorded := by
    unfold initial
    cases request.recordPath <;> rfl
  before predecessors _ entry among k depth := by
    rw [List.mem_singleton.mp among] at depth
    cases depth
  nodes := Nat.le_add_left _ _
  size := Nat.le_of_eq rfl
  budget := Nat.zero_le _

namespace Frontier

variable (frontier : Frontier request neighbors done node rest s)
include frontier

theorem mem_visited {x : EntityRef} : x ∈ s.visited ↔ ∃ k, (x, k) ∈ done ++ s.queue := by
  rw [frontier.visited, List.mem_map]
  constructor
  · rintro ⟨entry, among, rfl⟩
    exact ⟨entry.2, among⟩
  · rintro ⟨k, among⟩
    exact ⟨(x, k), among, rfl⟩

/-- Whoever is visited stands with the depth it is at. -/
theorem entry_of_distance {x : EntityRef} {k : Nat} (seen : x ∈ s.visited)
    (here : AtDistance (Linked neighbors) request.start k x) : (x, k) ∈ done ++ s.queue := by
  obtain ⟨k', among⟩ := frontier.mem_visited.mp seen
  rwa [here.unique (frontier.distance _ among)]

theorem start_visited : request.start ∈ s.visited := frontier.mem_visited.mpr ⟨0, frontier.started⟩

/-- Up to the depth that the search has come to, whoever is at a distance is visited. -/
theorem covered {d : Nat} (taken : ∀ entry ∈ s.queue, d ≤ entry.2)
    (here : ∀ entry ∈ done, entry.1 = node → rest ≠ [] → d ≤ entry.2) (deep : d ≤ request.maxDepth) {j : Nat}
    (near : j ≤ d) {x : EntityRef} (distance : AtDistance (Linked neighbors) request.start j x) :
    x ∈ s.visited := by
  induction j generalizing x with
  | zero =>
    rw [distance.1.zero]
    exact frontier.start_visited
  | succ j ih =>
    obtain ⟨y, nearer, edge, listed⟩ := distance.before
    have among := frontier.entry_of_distance (ih (by omega) nearer) nearer
    rcases List.mem_append.mp among with early | queued
    · rcases frontier.closed (y, j) early (show j < request.maxDepth by omega) _ listed with
        ⟨same, waiting⟩ | ⟨seen, -⟩
      · have late := here (y, j) early same (List.ne_nil_of_mem waiting)
        dsimp only at late
        omega
      · exact seen
    · have late := taken (y, j) queued
      dsimp only at late
      omega

omit frontier in
theorem collected (edgeId : String) (collects : request.collectEdges = true) :
    edgeId ∈ (request.traverse edgeId s).resultEdges := by
  unfold TraversalRequest.traverse
  dsimp only
  rw [if_pos collects]
  exact Std.ExtTreeSet.mem_insert_self

/-- One more edge is counted. -/
theorem traverse {depth : Nat} {pair : String × EntityRef} (taken : (node, depth) ∈ done)
    (shallow : depth < request.maxDepth) (listed : pair ∈ neighbors node)
    (within : s.traversedEdges < request.maxEdges) :
    Frontier request neighbors done node rest (request.traverse pair.1 s) := by
  refine { frontier with closed := ?_, edges := ?_, size := ?_, budget := within }
  · intro entry among near other incident
    refine (frontier.closed entry among near other incident).imp_right
      (And.imp_right fun collected collects => ?_)
    unfold TraversalRequest.traverse
    dsimp only
    rw [if_pos collects]
    exact Std.ExtTreeSet.mem_insert.mpr (.inr (collected collects))
  · intro edgeId among
    unfold TraversalRequest.traverse at among
    dsimp only at among
    split at among
    · rename_i collects
      rcases Std.ExtTreeSet.mem_insert.mp among with same | among
      · obtain rfl : pair.1 = edgeId := by simpa using same
        exact ⟨collects, (node, depth), taken, shallow, pair.2, listed⟩
      · exact frontier.edges edgeId among
    · exact frontier.edges edgeId among
  · have grown : (request.traverse pair.1 s).resultEdges.size ≤ s.resultEdges.size + 1 := by
      unfold TraversalRequest.traverse
      dsimp only
      split
      · exact Std.ExtTreeSet.size_insert_le
      · exact Nat.le_succ _
    exact grown.trans (Nat.succ_le_succ frontier.size)

/-- An edge leads to a node not seen before, one step further than the last one taken. -/
theorem discover {depth : Nat} {pair : String × EntityRef} (taken : (node, depth) ∈ done)
    (shallow : depth < request.maxDepth) (listed : pair ∈ neighbors node) (fresh : pair.2 ∉ s.visited)
    (room : s.visited.length - 1 < request.maxNodes) (latest : ∀ entry ∈ done, entry.2 ≤ depth)
    (near : ∀ entry ∈ s.queue, entry.2 ≤ depth + 1) :
    Frontier request neighbors done node rest
      { TraversalRequest.discover node pair.2 pair.1 s with queue := s.queue ++ [(pair.2, depth + 1)] } := by
  have after : ∀ entry ∈ s.queue, depth ≤ entry.2 := fun entry queued =>
    (List.pairwise_append.mp frontier.ordered).2.2 (node, depth) taken entry queued
  have reached := frontier.distance (node, depth) (List.mem_append_left _ taken)
  have distance : AtDistance (Linked neighbors) request.start (depth + 1) pair.2 := by
    refine ⟨.step reached.1 ⟨pair.1, listed⟩, fun m steps => ?_⟩
    obtain ⟨k, fewer, least⟩ := steps.atDistance
    by_contra sooner
    refine fresh (frontier.covered after (fun entry among same _ => ?_) (Nat.le_of_lt shallow) (j := k)
      (by omega) least)
    have equal := (frontier.distance entry (List.mem_append_left _ among))
    rw [same] at equal
    rw [equal.unique reached]
  have entries : ∀ entry ∈ done ++ (s.queue ++ [(pair.2, depth + 1)]),
      entry ∈ done ++ s.queue ∨ entry = (pair.2, depth + 1) := by
    intro entry among
    rw [← List.append_assoc] at among
    exact (List.mem_append.mp among).imp_right List.mem_singleton.mp
  have older : ∀ entry ∈ done ++ s.queue, entry ∈ done ++ (s.queue ++ [(pair.2, depth + 1)]) := by
    intro entry among
    rw [← List.append_assoc]
    exact List.mem_append_left _ among
  constructor
  case visited =>
    change s.visited ++ [pair.2] = _
    rw [frontier.visited]
    simp only [List.map_append, List.map_cons, List.map_nil, List.append_assoc]
  case nodup =>
    exact List.nodup_append.mpr ⟨frontier.nodup, List.nodup_singleton _, fun x old y new same =>
      fresh (List.mem_singleton.mp new ▸ same ▸ old)⟩
  case started => exact older _ frontier.started
  case ordered =>
    rw [← List.append_assoc]
    refine List.pairwise_append.mpr ⟨frontier.ordered, List.pairwise_singleton _ _, fun entry among last new => ?_⟩
    rw [List.mem_singleton.mp new]
    rcases List.mem_append.mp among with early | queued
    · exact (latest entry early).trans (Nat.le_succ depth)
    · exact near entry queued
  case spread =>
    intro entry among other among'
    have low : depth ≤ entry.2 := by
      rcases List.mem_append.mp among with queued | new
      · exact after entry queued
      · rw [List.mem_singleton.mp new]
        exact Nat.le_succ depth
    have high : other.2 ≤ depth + 1 := by
      rcases List.mem_append.mp among' with queued | new
      · exact near other queued
      · rw [List.mem_singleton.mp new]
    omega
  case distance =>
    intro entry among
    rcases entries entry among with old | rfl
    · exact frontier.distance entry old
    · exact distance
  case depth =>
    intro entry among
    rcases entries entry among with old | rfl
    · exact frontier.depth entry old
    · exact shallow
  case closed =>
    intro entry among below other incident
    exact (frontier.closed entry among below other incident).imp_right (And.imp_left (List.mem_append_left _))
  case edges => exact frontier.edges
  case recorded =>
    change (s.predecessors.map _).isSome = _
    rw [Option.isSome_map]
    exact frontier.recorded
  case before =>
    intro predecessors recorded entry among k depths
    obtain ⟨old, earlier, rfl⟩ := Option.map_eq_some_iff.mp recorded
    rcases entries entry among with among | rfl
    · have apart : entry.1 ≠ pair.2 := fun same =>
        fresh (same ▸ frontier.mem_visited.mpr ⟨entry.2, among⟩)
      obtain ⟨previous, edgeId, known, incident, stands⟩ := frontier.before old earlier entry among k depths
      refine ⟨previous, edgeId, ?_, incident, older _ stands⟩
      rw [Function.update_of_ne apart]
      exact known
    · cases depths
      exact ⟨node, pair.1, Function.update_self _ _ _, listed, older _ (List.mem_append_left _ taken)⟩
  case nodes =>
    change (s.visited ++ [pair.2]).length ≤ _
    rw [List.length_append, List.length_singleton]
    omega
  case size => exact frontier.size
  case budget => exact frontier.budget

omit frontier in
/-- An edge is done with when it is collected and the node it leads to is visited. -/
theorem drop {pair : String × EntityRef} (frontier : Frontier request neighbors done node (pair :: rest) s)
    (seen : pair.2 ∈ s.visited) (collected : request.collectEdges = true → pair.1 ∈ s.resultEdges) :
    Frontier request neighbors done node rest s := by
  refine { frontier with closed := ?_ }
  intro entry among near other incident
  rcases frontier.closed entry among near other incident with ⟨same, waiting⟩ | found
  · rcases List.mem_cons.mp waiting with rfl | waiting
    · exact .inr ⟨seen, collected⟩
    · exact .inl ⟨same, waiting⟩
  · exact .inr found

end Frontier

/-- Nothing has stopped the search. -/
structure Running (request : TraversalRequest) (s : Search) : Prop where
  truncated : s.truncated = false
  matched : s.matched = none
  unmet : ∀ target, request.target = some target → target ∉ s.visited

/-- The search is over: a limit was met, the target was found, or nobody is left in the queue. The state is a
frontier, but for a target that was not queued any more. -/
def Ended (request : TraversalRequest) (neighbors : EntityRef → List (String × EntityRef)) (s : Search) : Prop :=
  ∃ done node rest queue, Frontier request neighbors done node rest { s with queue } ∧
    ((s.truncated = true ∧ s.matched = none ∧
        (request.maxEdges ≤ s.traversedEdges ∨ request.maxNodes ≤ s.visited.length - 1)) ∨
      (∃ target k, s.truncated = false ∧ s.matched = some target ∧ request.target = some target ∧
        (target, k) ∈ done ++ queue) ∨
      (Running request s ∧ queue = [] ∧ rest = []))

theorem visitNeighbors_spec {depth : Nat} (taken : (node, depth) ∈ done) (latest : ∀ entry ∈ done, entry.2 ≤ depth)
    (shallow : depth < request.maxDepth) (listed : ∀ pair ∈ rest, pair ∈ neighbors node)
    (frontier : Frontier request neighbors done node rest s) (near : ∀ entry ∈ s.queue, entry.2 ≤ depth + 1)
    (running : Running request s) :
    ((request.visitNeighbors node depth rest s).2 = true →
      Ended request neighbors (request.visitNeighbors node depth rest s).1) ∧
    ((request.visitNeighbors node depth rest s).2 = false →
      Frontier request neighbors done node [] (request.visitNeighbors node depth rest s).1 ∧
        Running request (request.visitNeighbors node depth rest s).1) := by
  induction rest generalizing s with
  | nil => exact ⟨fun stopped => (by cases stopped), fun _ => ⟨frontier, running⟩⟩
  | cons pair rest ih =>
    have listed' : ∀ pair ∈ rest, pair ∈ neighbors node := fun other among =>
      listed other (List.mem_cons_of_mem pair among)
    have incident := listed pair List.mem_cons_self
    obtain ⟨edgeId, neighbor⟩ := pair
    rw [visitNeighbors]
    split
    · refine ⟨fun _ => ⟨done, node, (edgeId, neighbor) :: rest, s.queue, ?_, .inl ⟨rfl, running.matched, .inl ‹_›⟩⟩,
        fun going => (by cases going)⟩
      exact { frontier with }
    · rename_i within
      have traversed : Frontier request neighbors done node _ (request.traverse edgeId s) :=
        frontier.traverse taken shallow incident (not_le.mp within)
      have collected : request.collectEdges = true → edgeId ∈ (request.traverse edgeId s).resultEdges :=
        Frontier.collected edgeId
      dsimp only
      split
      · rename_i seen
        exact ih listed' (traversed.drop seen collected) near ⟨running.truncated, running.matched, running.unmet⟩
      · rename_i fresh
        split
        · refine ⟨fun _ => ⟨done, node, (edgeId, neighbor) :: rest, s.queue, ?_, .inl ⟨rfl, running.matched, .inr ‹_›⟩⟩,
            fun going => (by cases going)⟩
          exact { traversed with }
        · rename_i room
          have discovered := traversed.discover taken shallow incident fresh (not_le.mp room) latest near
          have visited : neighbor ∈ (TraversalRequest.discover node neighbor edgeId
              (request.traverse edgeId s)).visited := List.mem_append_right _ List.mem_cons_self
          split
          · rename_i target
            refine ⟨fun _ => ⟨done, node, (edgeId, neighbor) :: rest, s.queue ++ [(neighbor, depth + 1)], ?_,
              .inr (.inl ⟨neighbor, depth + 1, running.truncated, rfl, target, ?_⟩)⟩, fun going => (by cases going)⟩
            · exact { discovered with }
            · exact List.mem_append_right _ (List.mem_append_right _ List.mem_cons_self)
          · rename_i other
            refine ih listed' (discovered.drop visited collected) (fun entry queued => ?_)
              ⟨running.truncated, running.matched, fun target wanted met => ?_⟩
            · rcases List.mem_append.mp queued with old | new
              · exact near entry old
              · rw [List.mem_singleton.mp new]
            · rcases List.mem_append.mp met with old | new
              · exact running.unmet target wanted old
              · rw [List.mem_singleton.mp new] at wanted
                exact other wanted

/-- The next node is taken from the queue. -/
theorem Frontier.take {other : EntityRef} {depth : Nat} {queue : List (EntityRef × Nat)}
    (frontier : Frontier request neighbors done other [] s) (queued : s.queue = (node, depth) :: queue)
    (waiting : depth < request.maxDepth → ∀ pair ∈ neighbors node, pair ∈ rest) :
    Frontier request neighbors (done ++ [(node, depth)]) node rest { s with queue } := by
  have same : done ++ [(node, depth)] ++ queue = done ++ s.queue := by
    rw [queued, List.append_assoc]
    rfl
  constructor
  case visited =>
    rw [same]
    exact frontier.visited
  case nodup => exact frontier.nodup
  case started =>
    rw [same]
    exact frontier.started
  case ordered =>
    rw [same]
    exact frontier.ordered
  case spread =>
    intro entry among later among'
    refine frontier.spread entry ?_ later ?_
    · rw [queued]
      exact List.mem_cons_of_mem _ among
    · rw [queued]
      exact List.mem_cons_of_mem _ among'
  case distance =>
    rw [same]
    exact frontier.distance
  case depth =>
    rw [same]
    exact frontier.depth
  case closed =>
    intro entry among near pair incident
    rcases List.mem_append.mp among with early | last
    · rcases frontier.closed entry early near pair incident with ⟨-, none⟩ | found
      · cases none
      · exact .inr found
    · obtain rfl := List.mem_singleton.mp last
      exact .inl ⟨rfl, waiting near pair incident⟩
  case edges =>
    intro edgeId among
    obtain ⟨collects, entry, early, found⟩ := frontier.edges edgeId among
    exact ⟨collects, entry, List.mem_append_left _ early, found⟩
  case recorded => exact frontier.recorded
  case before =>
    rw [same]
    exact frontier.before
  case nodes => exact frontier.nodes
  case size => exact frontier.size
  case budget => exact frontier.budget

/-- The search ends: every node it takes from the queue is one of those it may visit. -/
theorem search_spec {fuel : Nat} (frontier : Frontier request neighbors done node [] s)
    (running : Running request s) (enough : request.maxNodes + 1 ≤ fuel + done.length) :
    ∃ t, request.search neighbors fuel s = some t ∧ Ended request neighbors t := by
  induction fuel generalizing done node s with
  | zero =>
    cases queued : s.queue with
    | nil =>
      refine ⟨s, by simp [search, queued], done, node, [], s.queue, frontier, .inr (.inr ⟨running, queued, rfl⟩)⟩
    | cons entry queue =>
      have count := congrArg List.length frontier.visited
      rw [queued, List.length_map, List.length_append, List.length_cons] at count
      have limit := frontier.nodes
      omega
  | succ fuel ih =>
    cases queued : s.queue with
    | nil =>
      refine ⟨s, by simp [search, queued], done, node, [], s.queue, frontier, .inr (.inr ⟨running, queued, rfl⟩)⟩
    | cons entry queue =>
      obtain ⟨next, depth⟩ := entry
      have enough' : request.maxNodes + 1 ≤ fuel + (done ++ [(next, depth)]).length := by
        rw [List.length_append, List.length_singleton]
        omega
      have running' : Running request { s with queue } := ⟨running.truncated, running.matched, running.unmet⟩
      unfold search
      rw [queued]
      dsimp only
      split
      · rename_i deep
        exact ih (frontier.take queued fun shallow => absurd deep (by omega)) running' enough'
      · rename_i shallow
        have shallow := not_le.mp shallow
        have taken : (next, depth) ∈ done ++ [(next, depth)] := List.mem_append_right _ List.mem_cons_self
        have latest : ∀ entry ∈ done ++ [(next, depth)], entry.2 ≤ depth := by
          intro entry among
          rcases List.mem_append.mp among with early | last
          · refine (List.pairwise_append.mp frontier.ordered).2.2 entry early (next, depth) ?_
            rw [queued]
            exact List.mem_cons_self
          · rw [List.mem_singleton.mp last]
        have near : ∀ entry ∈ queue, entry.2 ≤ depth + 1 := by
          intro entry among
          refine frontier.spread (next, depth) ?_ entry ?_
          · rw [queued]
            exact List.mem_cons_self
          · rw [queued]
            exact List.mem_cons_of_mem _ among
        obtain ⟨stopped, going⟩ := visitNeighbors_spec taken latest shallow
          (fun pair among => List.mem_reverse.mp among)
          (frontier.take queued fun _ pair incident => List.mem_reverse.mpr incident) near running'
        generalize request.visitNeighbors next depth (neighbors next).reverse { s with queue } = outcome
          at stopped going
        obtain ⟨t, stop⟩ := outcome
        cases stop with
        | true => exact ⟨t, rfl, stopped rfl⟩
        | false =>
          obtain ⟨frontier', running⟩ := going rfl
          exact ih frontier' running enough'

/-- The way back from a node leads along a walk of as many steps as it is away. -/
theorem wayBack_spec (frontier : Frontier request neighbors done node rest s)
    {predecessors : EntityRef → Option (EntityRef × String)} (recorded : s.predecessors = some predecessors)
    {fuel k : Nat} {x : EntityRef} (stands : (x, k) ∈ done ++ s.queue) (enough : k ≤ fuel) (nodes : List EntityRef)
    (edgeIds : List String) : ∃ before steps,
      wayBack request.start predecessors fuel x nodes edgeIds = some ⟨before ++ nodes, steps ++ edgeIds⟩ ∧
        Trail neighbors request.start (before ++ [x]) steps x ∧ steps.length = k := by
  induction k generalizing fuel x nodes edgeIds with
  | zero =>
    have here : x = request.start := (frontier.distance (x, 0) stands).1.zero
    subst here
    refine ⟨[], [], ?_, .start, rfl⟩
    unfold wayBack
    rw [if_pos rfl]
    rfl
  | succ k ih =>
    have apart : x ≠ request.start := (frontier.distance (x, k + 1) stands).ne_start
    obtain ⟨previous, edgeId, known, incident, earlier⟩ :=
      frontier.before predecessors recorded (x, k + 1) stands k rfl
    cases fuel with
    | zero => omega
    | succ fuel =>
      obtain ⟨before, steps, run, trail, length⟩ :=
        ih earlier (Nat.le_of_succ_le_succ enough) (previous :: nodes) (edgeId :: edgeIds)
      refine ⟨before ++ [previous], steps ++ [edgeId], ?_, .step trail incident, ?_⟩
      · unfold wayBack
        rw [if_neg apart, known]
        dsimp only
        rw [run]
        simp
      · rw [List.length_append, length]
        rfl

/-- What a run owes its request, over the distances from the start that the neighbors give. -/
structure Exact (request : TraversalRequest) (neighbors : EntityRef → List (String × EntityRef))
    (run : TraversalRun) : Prop where
  nodes : ∀ x ∈ run.result.nodes, ∃ k, 1 ≤ k ∧ k ≤ request.maxDepth ∧
    AtDistance (Linked neighbors) request.start k x
  edgeIds : ∀ edgeId ∈ run.result.edgeIds, ∃ x k y, k < request.maxDepth ∧
    AtDistance (Linked neighbors) request.start k x ∧ (edgeId, y) ∈ neighbors x
  once : run.result.nodes.Nodup ∧ run.result.edgeIds.Nodup
  maxNodes : run.result.nodes.length ≤ request.maxNodes
  maxEdges : run.result.edgeIds.length ≤ request.maxEdges
  allNodes : run.result.truncated = false → request.target = none → ∀ x k, 1 ≤ k → k ≤ request.maxDepth →
    AtDistance (Linked neighbors) request.start k x → x ∈ run.result.nodes
  allEdgeIds : run.result.truncated = false → request.target = none → request.collectEdges = true →
    ∀ x k edgeId y, k < request.maxDepth → AtDistance (Linked neighbors) request.start k x →
      (edgeId, y) ∈ neighbors x → edgeId ∈ run.result.edgeIds
  path : ∀ path, run.path = some path → ∃ target, request.target = some target ∧
    Trail neighbors request.start path.nodes path.edgeIds target ∧ path.edgeIds.length ≤ request.maxDepth ∧
    AtDistance (Linked neighbors) request.start path.edgeIds.length target
  matched : run.matched = true → ∃ target k, request.target = some target ∧ k ≤ request.maxDepth ∧
    AtDistance (Linked neighbors) request.start k target
  recorded : request.recordPath = true → run.path = none → run.matched = false
  unmatched : run.matched = false → run.result.truncated = false → ∀ target, request.target = some target →
    ∀ k ≤ request.maxDepth, ¬Steps (Linked neighbors) request.start k target

/-- The start is its own target. -/
theorem exact_emptyAt (here : request.target = some request.start) :
    Exact request neighbors (.emptyAt request.start request.target) := by
  have path : (TraversalRun.emptyAt request.start request.target).path = some ⟨[request.start], []⟩ := if_pos here
  have matched : (TraversalRun.emptyAt request.start request.target).matched = true := decide_eq_true here
  constructor
  case nodes => exact fun x none => absurd none List.not_mem_nil
  case edgeIds => exact fun edgeId none => absurd none List.not_mem_nil
  case once => exact ⟨List.nodup_nil, List.nodup_nil⟩
  case maxNodes => exact Nat.zero_le _
  case maxEdges => exact Nat.zero_le _
  case allNodes =>
    intro _ free
    rw [here] at free
    cases free
  case allEdgeIds =>
    intro _ free
    rw [here] at free
    cases free
  case path =>
    intro found given
    obtain rfl := Option.some.inj (path.symm.trans given)
    exact ⟨request.start, here, .start, Nat.zero_le _, .zero⟩
  case matched => exact fun _ => ⟨request.start, 0, here, Nat.zero_le _, .zero⟩
  case recorded =>
    intro _ none
    rw [path] at none
    cases none
  case unmatched =>
    intro unmatched
    rw [matched] at unmatched
    cases unmatched

/-- The nodes that a search reports. -/
theorem Frontier.mem_nodes (frontier : Frontier request neighbors done node rest s) {x : EntityRef} :
    x ∈ (s.visited.erase request.start).mergeSort (fun a b => a ≤ b) ↔ x ≠ request.start ∧ x ∈ s.visited := by
  rw [List.mem_mergeSort, frontier.nodup.mem_erase_iff]

/-- A search that is over has what its run owes, whatever path is read back from it. -/
theorem Ended.exact (ended : Ended request neighbors s)
    {path : Option TraversalPath} (kept : request.recordPath = true → path = none → s.matched = none)
    (shortest : ∀ found, path = some found → ∃ target, request.target = some target ∧
      Trail neighbors request.start found.nodes found.edgeIds target ∧ found.edgeIds.length ≤ request.maxDepth ∧
      AtDistance (Linked neighbors) request.start found.edgeIds.length target) :
    Exact request neighbors (request.report s path) := by
  unfold report
  obtain ⟨done, node, rest, queue, frontier, how⟩ := ended
  have mem_nodes : ∀ x, x ∈ (s.visited.erase request.start).mergeSort (fun a b => a ≤ b) ↔
      x ≠ request.start ∧ x ∈ s.visited := fun x => frontier.mem_nodes
  -- with the queue empty, everything near enough has been visited
  have near : queue = [] → rest = [] → ∀ k ≤ request.maxDepth, ∀ x,
      AtDistance (Linked neighbors) request.start k x → x ∈ s.visited ∧ (x, k) ∈ done := by
    rintro rfl rfl k shallow x distance
    have visited := frontier.covered (d := request.maxDepth) (fun entry none => absurd none List.not_mem_nil)
      (fun _ _ _ none => absurd rfl none) (Nat.le_refl _) shallow distance
    have stands := frontier.entry_of_distance visited distance
    rw [List.append_nil] at stands
    exact ⟨visited, stands⟩
  have finished : s.truncated = false → s.matched = none → Running request s ∧ queue = [] ∧ rest = [] := by
    intro whole unmatched
    rcases how with ⟨truncated, -⟩ | ⟨target, k, -, matched, -⟩ | finished
    · rw [whole] at truncated
      cases truncated
    · rw [unmatched] at matched
      cases matched
    · exact finished
  have free : request.target = none → s.matched = none := by
    intro free
    rcases how with ⟨-, unmatched, -⟩ | ⟨target, k, -, -, wanted, -⟩ | ⟨running, -⟩
    · exact unmatched
    · rw [free] at wanted
      cases wanted
    · exact running.matched
  constructor
  case nodes =>
    intro x reported
    obtain ⟨apart, visited⟩ := (mem_nodes x).mp reported
    obtain ⟨k, stands⟩ := frontier.mem_visited.mp visited
    have distance := frontier.distance _ stands
    refine ⟨k, Nat.pos_of_ne_zero ?_, frontier.depth _ stands, distance⟩
    rintro rfl
    exact apart distance.1.zero
  case edgeIds =>
    intro edgeId reported
    obtain ⟨-, entry, taken, shallow, neighbor, listed⟩ := frontier.edges edgeId (OrdSet.mem_toList.mp reported)
    exact ⟨entry.1, entry.2, neighbor, shallow, frontier.distance entry (List.mem_append_left _ taken), listed⟩
  case once =>
    exact ⟨(List.mergeSort_perm _ _).nodup_iff.mpr (frontier.nodup.erase _), OrdSet.nodup_toList _⟩
  case maxNodes =>
    have visited := frontier.nodes
    rw [List.length_mergeSort, List.length_erase_of_mem frontier.start_visited]
    dsimp only at visited ⊢
    omega
  case maxEdges =>
    rw [Std.ExtTreeSet.length_toList]
    exact frontier.size.trans frontier.budget
  case allNodes =>
    intro whole target x k away shallow distance
    obtain ⟨-, drained, seen⟩ := finished whole (free target)
    refine (mem_nodes x).mpr ⟨?_, (near drained seen k shallow x distance).1⟩
    rintro rfl
    have none := distance.2 0 .start
    omega
  case allEdgeIds =>
    intro whole target collects x k edgeId y shallow distance listed
    obtain ⟨-, drained, rfl⟩ := finished whole (free target)
    have taken := (near drained rfl k (Nat.le_of_lt shallow) x distance).2
    rcases frontier.closed (x, k) taken shallow _ listed with ⟨-, waiting⟩ | ⟨-, collected⟩
    · cases waiting
    · exact OrdSet.mem_toList.mpr (collected collects)
  case path => exact shortest
  case matched =>
    intro matched
    rcases how with ⟨-, unmatched, -⟩ | ⟨target, k, -, -, wanted, stands⟩ | ⟨running, -⟩
    · rw [unmatched] at matched
      cases matched
    · exact ⟨target, k, wanted, frontier.depth _ stands, frontier.distance _ stands⟩
    · rw [running.matched] at matched
      cases matched
  case recorded =>
    intro records none
    rw [kept records none]
    rfl
  case unmatched =>
    intro unmatched whole target wanted k shallow steps
    have unmet : s.matched = none := by simpa using unmatched
    obtain ⟨running, drained, seen⟩ := finished whole unmet
    obtain ⟨k', fewer, distance⟩ := steps.atDistance
    exact running.unmet target wanted (near drained seen k' (fewer.trans shallow) target distance).1

/-- The path read back is a shortest one, and there is one when the way to the target was recorded. -/
theorem Ended.path (ended : Ended request neighbors s) : ∃ path, request.pathOf s = some path ∧
    (request.recordPath = true → path = none → s.matched = none) ∧
    ∀ found, path = some found → ∃ target, request.target = some target ∧
      Trail neighbors request.start found.nodes found.edgeIds target ∧ found.edgeIds.length ≤ request.maxDepth ∧
      AtDistance (Linked neighbors) request.start found.edgeIds.length target := by
  obtain ⟨done, node, rest, queue, frontier, how⟩ := ended
  have recorded := frontier.recorded
  dsimp only at recorded
  unfold pathOf
  cases matched : s.matched with
  | none => exact ⟨none, rfl, fun _ _ => rfl, fun found none => (by cases none)⟩
  | some target =>
    cases known : s.predecessors with
    | none =>
      rw [known] at recorded
      refine ⟨none, rfl, fun records => ?_, fun found none => (by cases none)⟩
      rw [records] at recorded
      cases recorded
    | some predecessors =>
      obtain ⟨k, wanted, stands⟩ : ∃ k, request.target = some target ∧ (target, k) ∈ done ++ queue := by
        rcases how with ⟨-, unmatched, -⟩ | ⟨other, k, -, found, wanted, stands⟩ | ⟨running, -⟩
        · rw [matched] at unmatched
          cases unmatched
        · obtain rfl := Option.some.inj (matched.symm.trans found)
          exact ⟨k, wanted, stands⟩
        · have unmatched := running.matched
          rw [matched] at unmatched
          cases unmatched
      have shallow := frontier.depth _ stands
      obtain ⟨before, steps, read, trail, length⟩ := wayBack_spec frontier known stands shallow [target] []
      refine ⟨some ⟨before ++ [target], steps ++ []⟩, ?_, fun _ none => (by cases none), fun found given => ?_⟩
      · dsimp only
        unfold traversalPath
        rw [read]
        rfl
      · cases given
        dsimp only
        rw [List.append_nil, length]
        exact ⟨target, wanted, trail, shallow, frontier.distance _ stands⟩

/-- The search ends and the run is what it reports. -/
theorem runBoundedTraversal_of_search (neighbors : EntityRef → List (String × EntityRef))
    (elsewhere : request.target ≠ some request.start) : ∃ s path,
      request.search neighbors (request.maxNodes + 1) request.initial = some s ∧ Ended request neighbors s ∧
      request.runBoundedTraversal neighbors = some (request.report s path) ∧
      Exact request neighbors (request.report s path) := by
  have running : Running request request.initial := by
    refine ⟨rfl, rfl, fun target wanted among => elsewhere ?_⟩
    rw [wanted, List.mem_singleton.mp among]
  have frontier : Frontier request neighbors [] request.start [] request.initial := frontier_initial
  obtain ⟨s, run, ended⟩ := search_spec frontier running (Nat.le_refl _)
  obtain ⟨path, read, kept, shortest⟩ := ended.path
  refine ⟨s, path, run, ended, ?_, ended.exact kept shortest⟩
  unfold runBoundedTraversal
  rw [if_neg elsewhere, run, Option.bind_eq_bind, Option.bind_some, read]
  rfl

/-- A bounded traversal ends, with what it owes: its nodes and edges are where they must be and within the
limits, nothing is missing unless it says so, and a path is a shortest one. -/
theorem bounded_traversal_exact (request : TraversalRequest) (neighbors : EntityRef → List (String × EntityRef)) :
    ∃ run, request.runBoundedTraversal neighbors = some run ∧ Exact request neighbors run := by
  by_cases here : request.target = some request.start
  · exact ⟨_, if_pos here, exact_emptyAt here⟩
  · obtain ⟨s, path, -, -, run, owed⟩ := runBoundedTraversal_of_search neighbors here
    exact ⟨_, run, owed⟩

end TraversalRequest
end Myko

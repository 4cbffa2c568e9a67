import Mathlib.Data.List.Nodup
import Mathlib.Data.List.Pairwise
import Mathlib.Data.List.Perm.Subperm
import Myko.Lib.Walks

/-!
Search of a graph through a queue, where a node is marked when it enters the queue and is followed only
where it is present.
-/

variable {N : Type}

/-- The nodes marked so far in the order in which they were, and the last of them, still to be looked at. -/
structure BreadthFirst (N : Type) where
  visited : List N
  queue : List N

namespace BreadthFirst

def start (root : N) : BreadthFirst N := ⟨[root], [root]⟩

/-- A step along the search leads from a present node to one of its children. -/
def Onward (present : N → Bool) (children : N → List N) (x y : N) : Prop :=
  present x = true ∧ y ∈ children x

/-- One node is no further from the start than another. -/
def NoFurther (next : N → N → Prop) (root x y : N) : Prop :=
  ∀ m n, AtDistance next root m x → AtDistance next root n y → m ≤ n

/-- What the search knows when all nodes of `popped` have been looked at. -/
structure Advanced (present : N → Bool) (children : N → List N) (root : N) (popped : List N)
    (search : BreadthFirst N) : Prop where
  split : search.visited = popped ++ search.queue
  nodup : search.visited.Nodup
  rooted : root ∈ search.visited
  reached : ∀ x ∈ search.visited, ∃ n, AtDistance (Onward present children) root n x
  closed : ∀ x ∈ popped, ∀ y, Onward present children x y → y ∈ search.visited
  sorted : search.visited.Pairwise (NoFurther (Onward present children) root)
  near : ∀ first ∈ search.queue.head?, ∀ x ∈ search.visited, ∀ m n,
    AtDistance (Onward present children) root m x → AtDistance (Onward present children) root n first →
      m ≤ n + 1

variable {present : N → Bool} {children : N → List N} {root node : N} {popped nodes : List N}
variable {search : BreadthFirst N}

theorem advanced_start : Advanced present children root [] (start root) where
  split := rfl
  nodup := List.nodup_singleton root
  rooted := List.mem_singleton_self root
  reached x seen := by
    obtain rfl := List.mem_singleton.mp seen
    exact ⟨0, .zero⟩
  closed x seen := absurd seen List.not_mem_nil
  sorted := List.pairwise_singleton _ _
  near first here x seen m n far near := by
    obtain rfl := List.mem_singleton.mp seen
    obtain rfl := Option.mem_some_iff.mp here
    have same := far.unique near
    omega

/-- All nodes nearer than the first of the queue have been looked at. -/
theorem Advanced.nearer (advanced : Advanced present children root popped search) {rest : List N}
    (queue : search.queue = node :: rest) {n : Nat}
    (here : AtDistance (Onward present children) root n node) {m : Nat} {x : N} (less : m < n)
    (far : AtDistance (Onward present children) root m x) : x ∈ popped := by
  have settle : ∀ {m x}, m < n → AtDistance (Onward present children) root m x → x ∈ search.visited →
      x ∈ popped := by
    intro m x less far seen
    rw [advanced.split, queue] at seen
    rcases List.mem_append.mp seen with done | waiting
    · exact done
    · have ordered := advanced.sorted
      rw [advanced.split, queue] at ordered
      have later := (List.pairwise_append.mp ordered).2.1
      rcases List.mem_cons.mp waiting with rfl | waiting
      · have same := far.unique here
        omega
      · have order := List.rel_of_pairwise_cons later waiting n m here far
        omega
  induction m generalizing x with
  | zero =>
    obtain rfl := far.1.zero
    exact settle less far advanced.rooted
  | succ m ih =>
    obtain ⟨parent, before, onward⟩ := far.before
    exact settle less far (advanced.closed parent (ih (by omega) before) x onward)

/-- A child that is not marked yet is one step further than the node looked at. -/
theorem Advanced.child (advanced : Advanced present children root popped search) {rest : List N}
    (queue : search.queue = node :: rest) {n : Nat}
    (here : AtDistance (Onward present children) root n node) {y : N}
    (onward : Onward present children node y) (fresh : y ∉ search.visited) :
    AtDistance (Onward present children) root (n + 1) y := by
  obtain ⟨m, bound, far⟩ := (Steps.step here.1 onward).atDistance
  rcases Nat.lt_or_ge m (n + 1) with less | enough
  · cases m with
    | zero =>
      obtain rfl := far.1.zero
      exact absurd advanced.rooted fresh
    | succ m =>
      obtain ⟨parent, before, step⟩ := far.before
      have done := advanced.nearer queue here (by omega) before
      exact absurd (advanced.closed parent done y step) fresh
  · obtain rfl : m = n + 1 := by omega
    exact far

/-- The children of the node looked at, which the search goes on to. -/
def onward (present : N → Bool) (children : N → List N) (node : N) : List N :=
  if present node then children node else []

theorem mem_onward {y : N} : y ∈ onward present children node ↔ Onward present children node y := by
  unfold onward Onward
  split <;> simp [*]

/-- What a search of a finite part of the graph returns: the nodes that can be reached, each once and none
before a nearer one. -/
structure Explored (present : N → Bool) (children : N → List N) (root : N) (nodes : List N) : Prop where
  nodup : nodes.Nodup
  reached : ∀ x, x ∈ nodes ↔ ∃ n, Steps (Onward present children) root n x
  sorted : nodes.Pairwise (NoFurther (Onward present children) root)

theorem Advanced.explored (advanced : Advanced present children root popped search)
    (done : search.queue = []) : Explored present children root search.visited := by
  have all : search.visited = popped := by rw [advanced.split, done, List.append_nil]
  refine ⟨advanced.nodup, fun x => ⟨fun seen => ?_, ?_⟩, advanced.sorted⟩
  · obtain ⟨n, far⟩ := advanced.reached x seen
    exact ⟨n, far.1⟩
  · rintro ⟨n, steps⟩
    induction steps with
    | start => exact advanced.rooted
    | step _ here ih => exact advanced.closed _ (all ▸ ih) _ here

/-! ### Steps of the search -/

variable [DecidableEq N]

/-- Mark a node and put it in the queue, once. -/
def enqueue (search : BreadthFirst N) (node : N) : BreadthFirst N :=
  if node ∈ search.visited then search
  else { visited := search.visited ++ [node], queue := search.queue ++ [node] }

/-- Look at the first node of the queue. -/
def visit (present : N → Bool) (children : N → List N) (search : BreadthFirst N) (node : N) :
    BreadthFirst N :=
  let popped := { search with queue := search.queue.tail }
  if present node then (children node).foldl enqueue popped else popped

/-- Look at nodes until none is left; nothing when the steps run out. -/
def explore (present : N → Bool) (children : N → List N) (steps : Nat) (search : BreadthFirst N) :
    Option (List N) :=
  match search.queue with
  | [] => some search.visited
  | node :: _ =>
    match steps with
    | 0 => none
    | steps + 1 => explore present children steps (search.visit present children node)

/-- What entering some nodes adds: those of them not marked before, each once. -/
structure Entered (nodes : List N) (before after : BreadthFirst N) (fresh : List N) : Prop where
  visited : after.visited = before.visited ++ fresh
  queue : after.queue = before.queue ++ fresh
  nodup : fresh.Nodup
  among : ∀ y ∈ fresh, y ∈ nodes ∧ y ∉ before.visited
  all : ∀ y ∈ nodes, y ∈ after.visited

theorem exists_entered (nodes : List N) (search : BreadthFirst N) :
    ∃ fresh, Entered nodes search (nodes.foldl enqueue search) fresh := by
  induction nodes generalizing search with
  | nil => exact ⟨[], by simp, by simp, List.nodup_nil, by simp, by simp⟩
  | cons node rest ih =>
    obtain ⟨fresh, visited, queue, nodup, among, all⟩ := ih (search.enqueue node)
    by_cases seen : node ∈ search.visited
    · have same : search.enqueue node = search := if_pos seen
      rw [same] at visited queue among
      refine ⟨fresh, ?_, ?_, nodup, fun y new => ?_, fun y member => ?_⟩
      · rw [List.foldl_cons, same]
        exact visited
      · rw [List.foldl_cons, same]
        exact queue
      · exact ⟨List.mem_cons_of_mem _ (among y new).1, (among y new).2⟩
      · rcases List.mem_cons.mp member with rfl | later
        · rw [List.foldl_cons, same, visited]
          exact List.mem_append_left _ seen
        · exact all y later
    · have added : search.enqueue node = ⟨search.visited ++ [node], search.queue ++ [node]⟩ := if_neg seen
      rw [added] at visited queue among
      refine ⟨node :: fresh, ?_, ?_, List.nodup_cons.mpr ⟨fun again => ?_, nodup⟩, fun y new => ?_,
        fun y member => ?_⟩
      · rw [List.foldl_cons, added, visited, List.append_assoc]
        rfl
      · rw [List.foldl_cons, added, queue, List.append_assoc]
        rfl
      · exact (among node again).2 (List.mem_append_right _ (List.mem_singleton_self node))
      · rcases List.mem_cons.mp new with rfl | new
        · exact ⟨List.mem_cons_self, seen⟩
        · exact ⟨List.mem_cons_of_mem _ (among y new).1,
            fun before => (among y new).2 (List.mem_append_left _ before)⟩
      · rcases List.mem_cons.mp member with rfl | later
        · rw [List.foldl_cons, added, visited]
          simp
        · exact all y later

theorem visit_eq : search.visit present children node =
    (onward present children node).foldl enqueue { search with queue := search.queue.tail } := by
  unfold visit onward
  split <;> rfl

theorem Advanced.visit (advanced : Advanced present children root popped search) {rest : List N}
    (queue : search.queue = node :: rest) :
    Advanced present children root (popped ++ [node]) (search.visit present children node) := by
  obtain ⟨fresh, entered⟩ := exists_entered (onward present children node)
    { search with queue := search.queue.tail }
  rw [← visit_eq] at entered
  have visited : (search.visit present children node).visited = search.visited ++ fresh := entered.visited
  have onwards : (search.visit present children node).queue = rest ++ fresh := by
    rw [entered.queue, queue, List.tail_cons]
  have here_seen : node ∈ search.visited := by
    rw [advanced.split, queue]
    simp
  obtain ⟨n, here⟩ := advanced.reached node here_seen
  have further : ∀ y ∈ fresh, AtDistance (Onward present children) root (n + 1) y := fun y new =>
    advanced.child queue here (mem_onward.mp (entered.among y new).1) (entered.among y new).2
  have within : ∀ x ∈ search.visited ++ fresh, ∀ m,
      AtDistance (Onward present children) root m x → m ≤ n + 1 := by
    intro x seen m far
    rcases List.mem_append.mp seen with before | new
    · exact advanced.near node (by simp [queue]) x before m n far here
    · exact Nat.le_of_eq (far.unique (further x new))
  refine ⟨?_, ?_, ?_, ?_, ?_, ?_, ?_⟩
  · rw [visited, onwards, advanced.split, queue]
    simp
  · rw [visited]
    exact advanced.nodup.append entered.nodup fun y before new => (entered.among y new).2 before
  · rw [visited]
    exact List.mem_append_left _ advanced.rooted
  · rw [visited]
    intro x seen
    rcases List.mem_append.mp seen with before | new
    · exact advanced.reached x before
    · exact ⟨n + 1, further x new⟩
  · intro x done y step
    rcases List.mem_append.mp done with before | last
    · rw [visited]
      exact List.mem_append_left _ (advanced.closed x before y step)
    · obtain rfl := List.mem_singleton.mp last
      exact entered.all y (mem_onward.mpr step)
  · rw [visited, List.pairwise_append]
    refine ⟨advanced.sorted, ?_, fun x before y new m k far near => ?_⟩
    · refine List.pairwise_iff_forall_sublist.mpr fun {x y} both m k far near => ?_
      have first := further x (both.subset (by simp))
      have second := further y (both.subset (by simp))
      exact Nat.le_of_eq ((far.unique first).trans (second.unique near))
    · rw [near.unique (further y new)]
      exact within x (List.mem_append_left _ before) m far
  · rw [visited, onwards]
    intro first foremost x seen m k far near
    have bound := within x seen m far
    have later : n ≤ k := by
      rcases List.mem_append.mp (List.mem_of_mem_head? foremost) with waiting | new
      · have ordered := advanced.sorted
        rw [advanced.split, queue] at ordered
        exact List.rel_of_pairwise_cons (List.pairwise_append.mp ordered).2.1 waiting n k here near
      · have same := near.unique (further first new)
        omega
    omega

/-- Within finitely many nodes the search ends, having marked what can be reached. -/
theorem exists_explored (all : List N) (rooted : root ∈ all)
    (closed : ∀ x ∈ all, ∀ y, Onward present children x y → y ∈ all) :
    ∃ nodes, Explored present children root nodes ∧
      ∃ steps, ∀ more, steps ≤ more → explore present children more (start root) = some nodes := by
  have go : ∀ (steps : Nat) (popped : List N) (search : BreadthFirst N),
      Advanced present children root popped search → (∀ x ∈ search.visited, x ∈ all) →
      search.queue.length + (all.length - search.visited.length) ≤ steps →
      ∃ nodes, Explored present children root nodes ∧
        ∀ more, steps ≤ more → explore present children more search = some nodes := by
    intro steps
    induction steps with
    | zero =>
      intro popped search advanced _ bound
      have done : search.queue = [] := List.length_eq_zero_iff.mp (by omega)
      refine ⟨search.visited, advanced.explored done, fun more _ => ?_⟩
      unfold explore
      rw [done]
    | succ steps ih =>
      intro popped search advanced inside bound
      cases queue : search.queue with
      | nil =>
        refine ⟨search.visited, advanced.explored queue, fun more _ => ?_⟩
        unfold explore
        rw [queue]
      | cons node rest =>
        have next := advanced.visit queue
        obtain ⟨fresh, entered⟩ := exists_entered (onward present children node)
          { search with queue := search.queue.tail }
        rw [← visit_eq] at entered
        have here : node ∈ search.visited := by
          rw [advanced.split, queue]
          simp
        have still : ∀ x ∈ (search.visit present children node).visited, x ∈ all := by
          rw [entered.visited]
          intro x seen
          rcases List.mem_append.mp seen with before | new
          · exact inside x before
          · exact closed node (inside node here) x (mem_onward.mp (entered.among x new).1)
        have room := (next.nodup.subperm still).length_le
        have visited := congrArg List.length entered.visited
        have waiting := congrArg List.length entered.queue
        simp only [List.length_append, queue, List.tail_cons] at visited waiting
        rw [queue, List.length_cons] at bound
        obtain ⟨nodes, explored, found⟩ := ih _ _ next still (by omega)
        refine ⟨nodes, explored, fun more enough => ?_⟩
        obtain ⟨more, rfl⟩ : ∃ fewer, more = fewer + 1 := ⟨more - 1, by omega⟩
        rw [explore, queue]
        exact found more (by omega)
  obtain ⟨nodes, explored, found⟩ := go _ [] (start root) advanced_start
    (fun x seen => List.mem_singleton.mp seen ▸ rooted) le_rfl
  exact ⟨nodes, explored, _, found⟩

end BreadthFirst

import Myko.Graph.Schema
import Myko.Lib.Runs
import Myko.Lib.ValueCounts

/-!
Watches of the entities that watched edges point at. References are counted as edges come and go. A
sparse watch subscribes to each target on its own; a dense one subscribes to the whole store once and
filters what it hears.
-/

namespace Myko

/-- A target and how many edges point at it. The guard keeps the subscription of a sparse watch to it,
whose callback goes by the generation it was installed for. -/
structure RelatedTargetSubscription where
  references : Nat
  generation : Nat
  guard : Option Nat

abbrev RetiredRelatedTarget := String × Option Nat

structure RelatedEntityWatchState where
  edgeTargets : OrdMap String String
  targets : OrdMap String RelatedTargetSubscription
  nextGeneration : Nat
  bulkTargetGuard : Bool
  bulkTargets : Bool

/-- Generations are counted in 64 bits and stay at the last one. -/
def lastGeneration : Nat := 18446744073709551615

namespace RelatedEntityWatchState

def empty : RelatedEntityWatchState where
  edgeTargets := ∅
  targets := ∅
  nextGeneration := 0
  bulkTargetGuard := false
  bulkTargets := false

def removeEdge (s : RelatedEntityWatchState) (edgeId : String) :
    RelatedEntityWatchState × Option RetiredRelatedTarget :=
  match s.edgeTargets[edgeId]? with
  | none => (s, none)
  | some targetId =>
    let s := { s with edgeTargets := s.edgeTargets.erase edgeId }
    match s.targets[targetId]? with
    | none => (s, none)
    | some target =>
      if target.references > 1 then
        let fewer := { target with references := target.references - 1 }
        ({ s with targets := s.targets.insert targetId fewer }, none)
      else ({ s with targets := s.targets.erase targetId }, some (targetId, target.guard))

end RelatedEntityWatchState

/-- The state on the way through a diff, and the targets lost and gained so far. -/
structure RelatedChanges where
  state : RelatedEntityWatchState
  retired : List RetiredRelatedTarget
  added : List (String × Nat)

namespace RelatedChanges

def removeEdge (c : RelatedChanges) (edgeId : String) : RelatedChanges :=
  { c with
    state := (c.state.removeEdge edgeId).1
    retired := c.retired ++ (c.state.removeEdge edgeId).2.toList }

/-- Count an edge for a target, which it may not have pointed at before. -/
def link (c : RelatedChanges) (edgeId targetId : String) : RelatedChanges :=
  let edgeTargets := c.state.edgeTargets.insert edgeId targetId
  match c.state.targets[targetId]? with
  | some target =>
    let more := { target with references := target.references + 1 }
    { c with state := { c.state with edgeTargets, targets := c.state.targets.insert targetId more } }
  | none =>
    let generation := min (c.state.nextGeneration + 1) lastGeneration
    { c with
      state := { c.state with
        edgeTargets
        nextGeneration := generation
        targets := c.state.targets.insert targetId ⟨1, generation, none⟩ }
      added := c.added ++ [(targetId, generation)] }

def upsertEdge (c : RelatedChanges) (edgeId targetId : String) : RelatedChanges :=
  if c.state.edgeTargets[edgeId]? = some targetId then c else (c.removeEdge edgeId).link edgeId targetId

/-- Let go of every target before the edges are read afresh. -/
def drain (c : RelatedChanges) : RelatedChanges :=
  { c with
    state := { c.state with edgeTargets := ∅, targets := ∅ }
    retired := c.retired ++ c.state.targets.toList.map fun entry => (entry.1, entry.2.guard) }

end RelatedChanges

section

variable {E : Type}

/-- The target of a typed edge at one of its ends. -/
def relatedEntityId (ends : E → Except String EdgeEndpoints) (entityName : String) (position : EndPosition)
    (edge : E) : Option String :=
  match ends edge with
  | .error _ => none
  | .ok endpoints =>
    let entity := (endpoints.at position).entity
    if entity.entityType ≠ entityName then none else some entity.id

/-- The target of a typed edge across from an endpoint. -/
def neighborEntityId (ends : E → Except String EdgeEndpoints) (entityName : String) (endpoint : EndpointValue)
    (edge : E) : Option String :=
  let across : Option EntityRef :=
    match ends edge with
    | .error _ => none
    | .ok endpoints =>
      if endpoints.a = endpoint then some endpoints.b.entity
      else if endpoints.b = endpoint then some endpoints.a.entity
      else none
  match across with
  | none => none
  | some entity => if entity.entityType ≠ entityName then none else some entity.id

variable (relatedId : E → Option String)

/-- Take an edge into account as it is now, or as gone. -/
def RelatedChanges.put (c : RelatedChanges) (edgeId : String) (edge : Option E) : RelatedChanges :=
  match edge.bind relatedId with
  | some targetId => c.upsertEdge edgeId targetId
  | none => c.removeEdge edgeId

mutual
def applyRelatedEdgeDiff : MapDiff String E → RelatedChanges → RelatedChanges
  | .initial entries, c =>
    entries.foldl (fun c entry =>
      match relatedId entry.2 with
      | some targetId => c.upsertEdge entry.1 targetId
      | none => c) c.drain
  | .insert key value, c => c.put relatedId key (some value)
  | .update key _ newValue, c => c.put relatedId key (some newValue)
  | .remove key _, c => c.removeEdge key
  | .batch changes, c => applyRelatedEdgeDiffs changes c

def applyRelatedEdgeDiffs : List (MapDiff String E) → RelatedChanges → RelatedChanges
  | [], c => c
  | change :: rest, c => applyRelatedEdgeDiffs rest (applyRelatedEdgeDiff change c)
end

mutual
def collectBulkTargetActions (state : RelatedEntityWatchState) :
    MapDiff String Item → List (String × Item) × List String → List (String × Item) × List String
  | .initial _, actions => actions
  | .insert key value, actions =>
    if state.targets.contains key then (actions.1 ++ [(key, value)], actions.2) else actions
  | .update key _ newValue, actions =>
    if state.targets.contains key then (actions.1 ++ [(key, newValue)], actions.2) else actions
  | .remove key _, actions =>
    if state.targets.contains key then (actions.1, actions.2 ++ [key]) else actions
  | .batch changes, actions => collectAllBulkTargetActions state changes actions

def collectAllBulkTargetActions (state : RelatedEntityWatchState) : List (MapDiff String Item) →
    List (String × Item) × List String → List (String × Item) × List String
  | [], actions => actions
  | change :: rest, actions =>
    collectAllBulkTargetActions state rest (collectBulkTargetActions state change actions)
end

def applyRelatedOutputActions (output : OrdMap String Item) (removals : List String)
    (upserts : List (String × Item)) : OrdMap String Item :=
  (output.removeMany removals).insertMany upserts

def preferBulkTargetSubscription (targets storeSize : Nat) : Bool :=
  if targets < 1024 then false else decide (targets ≥ storeSize / 4)

/-- A watch with the edges it is told of and the store of its targets. -/
structure RelatedEntityWatch (E : Type) where
  edges : OrdMap String E
  store : OrdMap String Item
  state : RelatedEntityWatchState
  output : OrdMap String Item

namespace RelatedEntityWatch

variable (w : RelatedEntityWatch E)

/-- Subscribe to one target. The callback runs at once with what the store has. -/
def installRelatedTargetSubscription (entry : String × Nat) : RelatedEntityWatch E :=
  match w.state.targets[entry.1]? with
  | none => w
  | some target =>
    if target.generation = entry.2 then
      let kept := { target with guard := target.guard.or (some entry.2) }
      { w with
        output := w.output.write (entry.1, w.store[entry.1]?)
        state := { w.state with targets := w.state.targets.insert entry.1 kept } }
    else w

/-- Subscribe to the whole store, and read the targets from it. -/
def installBulkTargetSubscription : RelatedEntityWatch E :=
  if w.state.bulkTargets && !w.state.bulkTargetGuard then
    let entries := w.state.targets.keys.filterMap fun targetId =>
      w.store[targetId]?.map fun value => (targetId, value)
    { w with state := { w.state with bulkTargetGuard := true }, output := w.output.insertMany entries }
  else w

/-- Bring the output forward over the targets lost and gained. -/
def takeOver (edges : OrdMap String E) (changes : RelatedChanges) : RelatedEntityWatch E :=
  let state := changes.state
  let removals := changes.retired.map Prod.fst
  if !state.bulkTargets && preferBulkTargetSubscription state.targets.size w.store.size then
    let unguarded := state.targets.map fun _ target => { target with guard := none }
    installBulkTargetSubscription
      { w with
        edges
        state := { state with bulkTargets := true, targets := unguarded }
        output := applyRelatedOutputActions w.output removals [] }
  else if state.bulkTargets then
    let entries := changes.added.filterMap fun entry =>
      w.store[entry.1]?.map fun value => (entry.1, value)
    { w with edges, state, output := applyRelatedOutputActions w.output removals entries }
  else
    changes.added.foldl installRelatedTargetSubscription
      { w with edges, state, output := applyRelatedOutputActions w.output removals [] }

/-- The watch hears of a change of its edges. -/
def edgesChanged (diff : MapDiff String E) : RelatedEntityWatch E :=
  w.takeOver (diff.apply w.edges) (applyRelatedEdgeDiff relatedId diff ⟨w.state, [], []⟩)

/-- Whether the callback of a subscription to this one target is in place. -/
def heard (key : String) : Bool :=
  w.state.targets[key]?.any fun target => target.guard = some target.generation

/-- The store changes: callbacks of single targets see the values it ends with, the callback of the whole
store sees the diff. -/
def targetsChanged (diff : MapDiff String Item) : RelatedEntityWatch E :=
  let store := diff.apply w.store
  let keys := ((diff.writesOn w.store).map Prod.fst).filter w.heard
  let output := w.output.writeAll (keys.map fun key => (key, store[key]?))
  if w.state.bulkTargetGuard && w.state.bulkTargets then
    let actions := collectBulkTargetActions w.state diff ([], [])
    { w with store, output := applyRelatedOutputActions output actions.2 actions.1 }
  else { w with store, output }

end RelatedEntityWatch

/-- A watch of these edges, told of them as it subscribes. -/
def graphRelatedEntityWatchBy (edges : OrdMap String E) (store : OrdMap String Item) : RelatedEntityWatch E :=
  RelatedEntityWatch.edgesChanged relatedId ⟨∅, store, .empty, ∅⟩ (.initial edges.toList)

/-- What a watch hears of after it has subscribed. -/
inductive RelatedEvent (E : Type) where
  | edges (diff : MapDiff String E) (live : diff.Incremental)
  | targets (diff : MapDiff String Item) (live : diff.Incremental)

def RelatedEntityWatch.step (w : RelatedEntityWatch E) : RelatedEvent E → Option (RelatedEntityWatch E)
  | .edges diff _ => some (w.edgesChanged relatedId diff)
  | .targets diff _ => some (w.targetsChanged diff)

/-! ### What the watch is for -/

def Referenced (edges : OrdMap String E) (target : String) : Prop :=
  ∃ (key : String) (edge : E), edges[key]? = some edge ∧ relatedId edge = some target

def referenceCount (edges : OrdMap String E) (target : String) : Nat :=
  edges.toList.countP fun entry => relatedId entry.2 = some target

/-- The watch shows the stored targets that an edge points at, and counts the edges of every target. -/
structure RelatedEntityWatch.Exact (w : RelatedEntityWatch E) : Prop where
  shown : ∀ (target : String) (item : Item),
    w.output[target]? = some item ↔ w.store[target]? = some item ∧ Referenced relatedId w.edges target
  counted : ∀ target : String,
    w.state.targets[target]?.elim 0 RelatedTargetSubscription.references =
      referenceCount relatedId w.edges target

/-- One of the writes, when its turn comes, points at a target that no edge points at. -/
def NewlyReferenced (edges : OrdMap String E) : List (String × Option E) → String → Prop
  | [], _ => False
  | write :: rest, target =>
    (write.2.bind relatedId = some target ∧ ¬Referenced relatedId edges target) ∨
      NewlyReferenced (edges.write write) rest target

/-- A dense watch settles when no stored target that a diff of the edges gains on the way is lost again by
its end, and no target that a diff of the store puts is removed again by its end. -/
def RelatedEntityWatch.Settles (w : RelatedEntityWatch E) : RelatedEvent E → Prop
  | .edges diff _ => w.state.bulkTargets = true → ∀ target : String,
      NewlyReferenced relatedId w.edges (diff.writesOn w.edges) target → (w.store[target]?).isSome →
      Referenced relatedId (diff.apply w.edges) target
  | .targets diff _ => w.state.bulkTargets = true → ∀ target : String, Referenced relatedId w.edges target →
      (∃ item, (target, some item) ∈ diff.writesOn w.store) → ((diff.apply w.store)[target]?).isSome

/-! ### Counting references -/

variable {relatedId}

/-- Changes made on the way account for the edges as they are by then, from the targets at the start. -/
structure RelatedChanges.Accounts (relatedId : E → Option String) (base : OrdMap String RelatedTargetSubscription)
    (fresh : String → Prop) (edges : OrdMap String E) (c : RelatedChanges) : Prop where
  follows : ∀ key : String, c.state.edgeTargets[key]? = edges[key]?.bind relatedId
  counted : ∀ target : String, c.state.targets[target]?.elim 0 RelatedTargetSubscription.references =
    c.state.edgeTargets.valueCount target
  positive : ∀ (target : String) subscription, c.state.targets[target]? = some subscription →
    0 < subscription.references
  kept : ∀ (target : String) subscription, c.state.targets[target]? = some subscription →
    ((∀ retired ∈ c.retired, retired.1 ≠ target) ∧ ∃ earlier, base[target]? = some earlier ∧
      earlier.generation = subscription.generation ∧ earlier.guard = subscription.guard) ∨
    ((target, subscription.generation) ∈ c.added ∧ subscription.guard = none)
  gone : ∀ target : String, base[target]?.isSome → c.state.targets[target]? = none →
    ∃ retired ∈ c.retired, retired.1 = target
  gained : ∀ target : String, (∃ generation, (target, generation) ∈ c.added) ↔ fresh target

namespace RelatedChanges

variable {base : OrdMap String RelatedTargetSubscription} {fresh : String → Prop} {edges : OrdMap String E}
variable {c : RelatedChanges}

theorem Accounts.referenced (accounts : c.Accounts relatedId base fresh edges) (target : String) :
    Referenced relatedId edges target ↔ 0 < c.state.edgeTargets.valueCount target := by
  rw [OrdMap.valueCount_pos]
  refine exists_congr fun key => ?_
  rw [accounts.follows, Option.bind_eq_some_iff]

theorem Accounts.present (accounts : c.Accounts relatedId base fresh edges) (target : String) :
    (c.state.targets[target]?).isSome ↔ Referenced relatedId edges target := by
  rw [accounts.referenced, ← accounts.counted]
  cases held : c.state.targets[target]? with
  | none => simp
  | some subscription => simpa using accounts.positive target subscription held

/-- One edge is taken away: no target changes, one target counts one less, or one target goes. -/
theorem removeEdge_eq (c : RelatedChanges) (key : String) :
    (c.state.edgeTargets[key]? = none ∧ c.removeEdge key = c) ∨
    ∃ target, c.state.edgeTargets[key]? = some target ∧
      ((c.state.targets[target]? = none ∧
        c.removeEdge key = { c with state := { c.state with edgeTargets := c.state.edgeTargets.erase key } }) ∨
      ∃ subscription, c.state.targets[target]? = some subscription ∧
        ((1 < subscription.references ∧ c.removeEdge key = { c with state := { c.state with
            edgeTargets := c.state.edgeTargets.erase key
            targets := c.state.targets.insert target
              { subscription with references := subscription.references - 1 } } }) ∨
        (¬1 < subscription.references ∧ c.removeEdge key = { c with
          state := { c.state with
            edgeTargets := c.state.edgeTargets.erase key
            targets := c.state.targets.erase target }
          retired := c.retired ++ [(target, subscription.guard)] }))) := by
  unfold removeEdge RelatedEntityWatchState.removeEdge
  cases pointed : c.state.edgeTargets[key]? with
  | none => exact .inl ⟨rfl, by simp⟩
  | some target =>
    refine .inr ⟨target, rfl, ?_⟩
    dsimp only
    cases held : c.state.targets[target]? with
    | none => exact .inl ⟨rfl, by simp⟩
    | some subscription =>
      refine .inr ⟨subscription, rfl, ?_⟩
      dsimp only
      by_cases more : subscription.references > 1
      · exact .inl ⟨more, by rw [if_pos more]; simp⟩
      · exact .inr ⟨more, by rw [if_neg more]; simp⟩

/-- A target that stays counts its edges anew. -/
theorem Accounts.recount {target : String} {subscription : RelatedTargetSubscription} {references : Nat}
    {edges' : OrdMap String E} {edgeTargets : OrdMap String String}
    (accounts : c.Accounts relatedId base fresh edges) (held : c.state.targets[target]? = some subscription)
    (follows : ∀ other : String, edgeTargets[other]? = edges'[other]?.bind relatedId)
    (counts : edgeTargets.valueCount target = references) (positive : 0 < references)
    (others : ∀ other, other ≠ target → edgeTargets.valueCount other = c.state.edgeTargets.valueCount other) :
    RelatedChanges.Accounts relatedId base fresh edges'
      { c with state := { c.state with
          edgeTargets
          targets := c.state.targets.insert target { subscription with references } } } := by
  refine ⟨follows, fun other => ?_, fun other => ?_, fun other => ?_, fun other old => ?_, accounts.gained⟩
  all_goals dsimp only
  all_goals rw [OrdMap.get_insert]
  · by_cases here : other = target
    · rw [if_pos here, here]
      exact counts.symm
    · rw [if_neg here, accounts.counted, others other here]
  · intro found stored
    by_cases here : other = target
    · rw [if_pos here, Option.some.injEq] at stored
      rw [← stored]
      exact positive
    · exact accounts.positive other found (by rwa [if_neg here] at stored)
  · intro found stored
    by_cases here : other = target
    · subst here
      rw [if_pos rfl, Option.some.injEq] at stored
      subst stored
      exact accounts.kept other subscription held
    · exact accounts.kept other found (by rwa [if_neg here] at stored)
  · intro lost
    by_cases here : other = target
    · simp [here] at lost
    · exact accounts.gone other old (by rwa [if_neg here] at lost)

theorem Accounts.removeEdge (accounts : c.Accounts relatedId base fresh edges) (key : String) :
    (c.removeEdge key).Accounts relatedId base fresh (edges.erase key) := by
  have follows : ∀ other : String,
      (c.state.edgeTargets.erase key)[other]? = (edges.erase key)[other]?.bind relatedId := by
    intro other
    rw [OrdMap.get_erase, OrdMap.get_erase]
    split
    · rfl
    · exact accounts.follows other
  rcases removeEdge_eq c key with ⟨absent, same⟩ | ⟨target, pointed, cases⟩
  · rw [same]
    exact { accounts with follows := by rwa [OrdMap.erase_absent absent] at follows }
  have count := c.state.edgeTargets.valueCount_erase pointed
  have before := accounts.counted target
  have counts := count target
  rw [if_pos rfl] at counts
  rcases cases with ⟨missing, -⟩ | ⟨subscription, held, ⟨more, same⟩ | ⟨last, same⟩⟩
  · -- The target of a counted edge is there.
    rw [missing, Option.elim_none] at before
    omega
  · rw [held, Option.elim_some] at before
    rw [same]
    refine accounts.recount held follows (by omega) (Nat.sub_pos_of_lt more) fun other apart => ?_
    rw [count, if_neg (Ne.symm apart), Nat.add_zero]
  · rw [same]
    rw [held, Option.elim_some] at before
    have one := accounts.positive target subscription held
    refine ⟨follows, fun other => ?_, fun other => ?_, fun other => ?_, fun other old => ?_, accounts.gained⟩
    all_goals dsimp only
    all_goals rw [OrdMap.get_erase]
    · by_cases here : other = target
      · subst here
        rw [if_pos rfl, Option.elim_none]
        omega
      · rw [if_neg here, accounts.counted, count, if_neg (Ne.symm here), Nat.add_zero]
    · intro found stored
      by_cases here : other = target
      · simp [here] at stored
      · exact accounts.positive other found (by rwa [if_neg here] at stored)
    · intro found stored
      by_cases here : other = target
      · simp [here] at stored
      · rw [if_neg here] at stored
        refine (accounts.kept other found stored).imp_left fun ⟨standing, earlier⟩ => ⟨?_, earlier⟩
        intro retired among
        rcases List.mem_append.mp among with among | among
        · exact standing retired among
        · rw [List.mem_singleton.mp among]
          exact Ne.symm here
    · intro lost
      by_cases here : other = target
      · exact ⟨_, List.mem_append_right _ List.mem_cons_self, here.symm⟩
      · obtain ⟨retired, among, same⟩ := accounts.gone other old (by rwa [if_neg here] at lost)
        exact ⟨retired, List.mem_append_left _ among, same⟩

/-- An edge that points nowhere comes to point at a target. -/
theorem Accounts.link {key target : String} {edge : E} (accounts : c.Accounts relatedId base fresh edges)
    (absent : edges[key]? = none) (points : relatedId edge = some target) :
    (c.link key target).Accounts relatedId base
      (fun other => fresh other ∨ other = target ∧ ¬Referenced relatedId edges target)
      (edges.insert key edge) := by
  have unlinked : c.state.edgeTargets[key]? = none := by rw [accounts.follows, absent]; rfl
  have follows : ∀ other : String,
      (c.state.edgeTargets.insert key target)[other]? = (edges.insert key edge)[other]?.bind relatedId := by
    intro other
    rw [OrdMap.get_insert, OrdMap.get_insert]
    split
    · exact points.symm
    · exact accounts.follows other
  have count := OrdMap.valueCount_insert unlinked target
  have before := accounts.counted target
  have counts := count target
  rw [if_pos rfl] at counts
  unfold RelatedChanges.link
  cases held : c.state.targets[target]? with
  | some subscription =>
    rw [held, Option.elim_some] at before
    have referenced : Referenced relatedId edges target := (accounts.present target).mp (by rw [held]; rfl)
    have more : OrdMap.valueCount (c.state.edgeTargets.insert key target) target = subscription.references + 1 := by
      omega
    have recounted := accounts.recount held follows more (Nat.succ_pos _) fun other apart => by
      rw [count, if_neg (Ne.symm apart), Nat.add_zero]
    refine { recounted with gained := fun other => ?_ }
    rw [accounts.gained]
    exact ⟨.inl, fun either => either.resolve_right fun ⟨_, vacant⟩ => vacant referenced⟩
  | none =>
    rw [held, Option.elim_none] at before
    have vacant : ¬Referenced relatedId edges target := fun referenced => by
      have present := (accounts.present target).mpr referenced
      rw [held] at present
      cases present
    refine ⟨follows, fun other => ?_, fun other => ?_, fun other => ?_, fun other old => ?_, fun other => ?_⟩
    all_goals dsimp only
    · rw [OrdMap.get_insert]
      by_cases here : other = target
      · subst here
        rw [if_pos rfl, Option.elim_some]
        show 1 = _
        omega
      · rw [if_neg here, accounts.counted, count, if_neg (Ne.symm here), Nat.add_zero]
    · rw [OrdMap.get_insert]
      intro found stored
      by_cases here : other = target
      · rw [if_pos here, Option.some.injEq] at stored
        rw [← stored]
        exact Nat.one_pos
      · exact accounts.positive other found (by rwa [if_neg here] at stored)
    · rw [OrdMap.get_insert]
      intro found stored
      by_cases here : other = target
      · subst here
        rw [if_pos rfl, Option.some.injEq] at stored
        subst stored
        exact .inr ⟨List.mem_append_right _ List.mem_cons_self, rfl⟩
      · exact (accounts.kept other found (by rwa [if_neg here] at stored)).imp_right
          fun ⟨among, guard⟩ => ⟨List.mem_append_left _ among, guard⟩
    · rw [OrdMap.get_insert]
      intro lost
      by_cases here : other = target
      · simp [here] at lost
      · exact accounts.gone other old (by rwa [if_neg here] at lost)
    · rw [← accounts.gained]
      constructor
      · rintro ⟨generation, among⟩
        rcases List.mem_append.mp among with among | among
        · exact .inl ⟨generation, among⟩
        · exact .inr ⟨congrArg Prod.fst (List.mem_singleton.mp among), vacant⟩
      · rintro (⟨generation, among⟩ | ⟨rfl, -⟩)
        · exact ⟨generation, List.mem_append_left _ among⟩
        · exact ⟨_, List.mem_append_right _ List.mem_cons_self⟩

theorem referenced_erase {key target : String} (elsewhere : edges[key]?.bind relatedId ≠ some target) :
    Referenced relatedId (edges.erase key) target ↔ Referenced relatedId edges target := by
  refine exists_congr fun other => exists_congr fun edge => and_congr_left fun points => ?_
  rw [OrdMap.get_erase]
  split
  · rename_i here
    subst here
    refine iff_of_false (by simp) fun stored => elsewhere ?_
    rw [stored, Option.bind_some, points]
  · rfl

theorem Accounts.congr {fresh' : String → Prop} {edges' : OrdMap String E}
    (accounts : c.Accounts relatedId base fresh edges) (same : ∀ target, fresh target ↔ fresh' target)
    (points : ∀ key : String, edges[key]?.bind relatedId = edges'[key]?.bind relatedId) :
    c.Accounts relatedId base fresh' edges' :=
  { accounts with
    follows := fun key => (accounts.follows key).trans (points key)
    gained := fun target => (accounts.gained target).trans (same target) }

/-- An edge as it is now, or as gone, accounts for its write. -/
theorem Accounts.put (accounts : c.Accounts relatedId base fresh edges) (key : String) (edge : Option E) :
    (c.put relatedId key edge).Accounts relatedId base
      (fun target => fresh target ∨ edge.bind relatedId = some target ∧ ¬Referenced relatedId edges target)
      (edges.write (key, edge)) := by
  unfold RelatedChanges.put
  cases points : edge.bind relatedId with
  | none =>
    refine (accounts.removeEdge key).congr (fun target => by simp) fun other => ?_
    cases edge with
    | none => rfl
    | some edge =>
      show _ = (edges.insert key edge)[other]?.bind relatedId
      rw [OrdMap.get_erase, OrdMap.get_insert]
      split
      · exact points.symm
      · rfl
  | some target =>
    obtain ⟨edge, rfl, points⟩ := Option.bind_eq_some_iff.mp points
    show (c.upsertEdge key target).Accounts relatedId base _ (edges.insert key edge)
    unfold RelatedChanges.upsertEdge
    split
    · rename_i already
      refine accounts.congr (fun other => ⟨.inl, fun either => either.resolve_right ?_⟩) fun other => ?_
      · rintro ⟨same, vacant⟩
        cases same
        exact vacant ((accounts.referenced target).mpr (OrdMap.valueCount_pos.mpr ⟨key, already⟩))
      · rw [OrdMap.get_insert]
        split
        · rename_i here
          rw [here, ← accounts.follows, already]
          exact points.symm
        · rfl
    · rename_i elsewhere
      rw [accounts.follows] at elsewhere
      have absent : (edges.erase key)[key]? = none := by rw [OrdMap.get_erase, if_pos rfl]
      refine ((accounts.removeEdge key).link absent points).congr (fun other => or_congr_right ?_) fun other => ?_
      · rw [referenced_erase elsewhere]
        constructor
        · rintro ⟨rfl, vacant⟩
          exact ⟨rfl, vacant⟩
        · rintro ⟨same, vacant⟩
          cases same
          exact ⟨rfl, vacant⟩
      · rw [OrdMap.get_insert, OrdMap.get_insert, OrdMap.get_erase]
        split <;> rfl

theorem Accounts.puts (writes : List (String × Option E)) (accounts : c.Accounts relatedId base fresh edges) :
    (writes.foldl (fun c write => c.put relatedId write.1 write.2) c).Accounts relatedId base
      (fun target => fresh target ∨ NewlyReferenced relatedId edges writes target)
      (edges.writeAll writes) := by
  induction writes generalizing c fresh edges with
  | nil => exact accounts.congr (fun target => by simp [NewlyReferenced]) fun _ => rfl
  | cons write rest ih =>
    exact (ih (accounts.put write.1 write.2)).congr (fun target => or_assoc) fun _ => rfl

end RelatedChanges

mutual
/-- A diff that changes the edges comes to its writes. -/
theorem applyRelatedEdgeDiff_eq : ∀ (diff : MapDiff String E) (edges : OrdMap String E) (c : RelatedChanges),
    diff.Incremental → applyRelatedEdgeDiff relatedId diff c =
      (diff.writesOn edges).foldl (fun c write => c.put relatedId write.1 write.2) c
  | .initial _, _, _, live => live.elim
  | .insert _ _, _, _, _ => by rw [applyRelatedEdgeDiff]; rfl
  | .update _ _ _, _, _, _ => by rw [applyRelatedEdgeDiff]; rfl
  | .remove _ _, _, _, _ => by rw [applyRelatedEdgeDiff]; rfl
  | .batch changes, edges, c, live => by
    rw [applyRelatedEdgeDiff, MapDiff.writesOn]
    exact applyRelatedEdgeDiffs_eq changes edges c live

theorem applyRelatedEdgeDiffs_eq : ∀ (changes : List (MapDiff String E)) (edges : OrdMap String E)
    (c : RelatedChanges), MapDiff.AllIncremental changes → applyRelatedEdgeDiffs relatedId changes c =
      (MapDiff.allWritesOn changes edges).foldl (fun c write => c.put relatedId write.1 write.2) c
  | [], _, _, _ => by rw [applyRelatedEdgeDiffs]; rfl
  | change :: rest, edges, c, live => by
    rw [applyRelatedEdgeDiffs, MapDiff.allWritesOn, List.foldl_append,
      applyRelatedEdgeDiff_eq change edges c live.1]
    exact applyRelatedEdgeDiffs_eq rest _ _ live.2
end

/-! ### Watches that count right -/

/-- The state counts the edges it has been told of. -/
structure RelatedEntityWatchState.Counts (relatedId : E → Option String) (edges : OrdMap String E)
    (s : RelatedEntityWatchState) : Prop where
  follows : ∀ key : String, s.edgeTargets[key]? = edges[key]?.bind relatedId
  counted : ∀ target : String, s.targets[target]?.elim 0 RelatedTargetSubscription.references =
    s.edgeTargets.valueCount target
  positive : ∀ (target : String) subscription, s.targets[target]? = some subscription →
    0 < subscription.references

theorem RelatedChanges.Accounts.counts {base : OrdMap String RelatedTargetSubscription}
    {fresh : String → Prop} {edges : OrdMap String E} {c : RelatedChanges}
    (accounts : c.Accounts relatedId base fresh edges) : c.state.Counts relatedId edges :=
  ⟨accounts.follows, accounts.counted, accounts.positive⟩

namespace RelatedEntityWatchState

variable {edges : OrdMap String E} {s t : RelatedEntityWatchState}

theorem Counts.start (counts : s.Counts relatedId edges) :
    RelatedChanges.Accounts relatedId s.targets (fun _ => False) edges ⟨s, [], []⟩ where
  follows := counts.follows
  counted := counts.counted
  positive := counts.positive
  kept _ subscription held := .inl ⟨fun _ among => (by cases among), subscription, held, rfl, rfl⟩
  gone _ old lost := by
    rw [lost] at old
    cases old
  gained _ := iff_of_false (by simp) id

/-- Guards are not counted. -/
theorem Counts.congr (counts : s.Counts relatedId edges) (same : t.edgeTargets = s.edgeTargets)
    (references : ∀ target : String, t.targets[target]?.map RelatedTargetSubscription.references =
      s.targets[target]?.map RelatedTargetSubscription.references) : t.Counts relatedId edges := by
  have elim : ∀ held : Option RelatedTargetSubscription,
      held.elim 0 RelatedTargetSubscription.references =
        (held.map RelatedTargetSubscription.references).getD 0 := fun held => by cases held <;> rfl
  refine ⟨same ▸ counts.follows, fun target => ?_, fun target subscription held => ?_⟩
  · rw [same, ← counts.counted, elim, elim, references]
  · have before := references target
    rw [held, Option.map_some] at before
    obtain ⟨earlier, there, count⟩ := Option.map_eq_some_iff.mp before.symm
    exact count ▸ counts.positive target earlier there

theorem Counts.present (counts : s.Counts relatedId edges) (target : String) :
    (s.targets[target]?).isSome ↔ Referenced relatedId edges target :=
  counts.start.present target

theorem Counts.referenceCount (counts : s.Counts relatedId edges) (target : String) :
    s.targets[target]?.elim 0 RelatedTargetSubscription.references =
      Myko.referenceCount relatedId edges target :=
  (counts.counted target).trans (OrdMap.valueCount_bind counts.follows target)

end RelatedEntityWatchState

namespace RelatedEntityWatch

variable {w : RelatedEntityWatch E}

/-- What the watch is to show of a target. -/
def expected (w : RelatedEntityWatch E) (target : String) : Option Item :=
  if (w.state.targets[target]?).isSome then w.store[target]? else none

theorem exact_iff (counts : w.state.Counts relatedId w.edges) :
    w.Exact relatedId ↔ ∀ target : String, w.output[target]? = w.expected target := by
  have expected_iff : ∀ (target : String) (item : Item), w.expected target = some item ↔
      w.store[target]? = some item ∧ Referenced relatedId w.edges target := by
    intro target item
    unfold expected
    rw [← counts.present]
    split <;> simp_all
  constructor
  · exact fun exact target => Option.ext fun item => (exact.shown target item).trans (expected_iff target item).symm
  · exact fun shows => ⟨fun target item => by rw [shows, expected_iff], counts.referenceCount⟩

/-- The invariant of a watch: it counts right, and hears of the targets one by one or of the whole store. -/
structure Good (relatedId : E → Option String) (w : RelatedEntityWatch E) : Prop where
  counts : w.state.Counts relatedId w.edges
  guarded : w.state.bulkTargets = false → ∀ (target : String) subscription,
    w.state.targets[target]? = some subscription → subscription.guard = some subscription.generation
  unguarded : w.state.bulkTargets = true → ∀ (target : String) subscription,
    w.state.targets[target]? = some subscription → subscription.guard = none
  dense : w.state.bulkTargetGuard = w.state.bulkTargets

end RelatedEntityWatch

namespace RelatedChanges

/-- How the watch listens is not touched by diffs of its edges. -/
def SameMode (c d : RelatedChanges) : Prop :=
  d.state.bulkTargets = c.state.bulkTargets ∧ d.state.bulkTargetGuard = c.state.bulkTargetGuard

theorem removeEdge_mode (c : RelatedChanges) (key : String) : c.SameMode (c.removeEdge key) := by
  rcases removeEdge_eq c key with ⟨-, same⟩ | ⟨_, -, ⟨-, same⟩ | ⟨_, -, ⟨-, same⟩ | ⟨-, same⟩⟩⟩
  all_goals
    rw [same]
    exact ⟨rfl, rfl⟩

theorem put_mode (c : RelatedChanges) (key : String) (edge : Option E) : c.SameMode (c.put relatedId key edge) := by
  unfold put
  split
  · unfold upsertEdge link
    have removed := removeEdge_mode c key
    split
    · exact ⟨rfl, rfl⟩
    · split <;> exact removed
  · exact removeEdge_mode c key

theorem puts_mode (writes : List (String × Option E)) (c : RelatedChanges) :
    c.SameMode (writes.foldl (fun c write => c.put relatedId write.1 write.2) c) := by
  induction writes generalizing c with
  | nil => exact ⟨rfl, rfl⟩
  | cons write rest ih =>
    obtain ⟨targets, guard⟩ := put_mode c write.1 write.2
    obtain ⟨later, laterGuard⟩ := ih (c.put relatedId write.1 write.2)
    exact ⟨later.trans targets, laterGuard.trans guard⟩

end RelatedChanges

/-! ### A change of the edges -/

namespace RelatedEntityWatch

variable {w : RelatedEntityWatch E}

/-- Whether a target is still of a generation asked for. -/
def isCurrent (w : RelatedEntityWatch E) (entries : List (String × Nat)) (target : String) : Bool :=
  w.state.targets[target]?.any fun subscription => entries.contains (target, subscription.generation)

/-- What subscriptions to single targets make of a watch. -/
structure Installed (entries : List (String × Nat)) (w after : RelatedEntityWatch E) : Prop where
  edges : after.edges = w.edges
  store : after.store = w.store
  state : after.state = { w.state with targets := after.state.targets }
  targets : ∀ target : String, after.state.targets[target]? =
    w.state.targets[target]?.map fun subscription =>
      if entries.contains (target, subscription.generation) then
        { subscription with guard := subscription.guard.or (some subscription.generation) }
      else subscription
  output : ∀ target : String, after.output[target]? =
    if w.isCurrent entries target then w.store[target]? else w.output[target]?

theorem installed_one (w : RelatedEntityWatch E) (entry : String × Nat) :
    Installed [entry] w (w.installRelatedTargetSubscription entry) := by
  obtain ⟨key, generation⟩ := entry
  have skip : (∀ subscription, w.state.targets[key]? = some subscription →
      subscription.generation ≠ generation) → Installed [(key, generation)] w w := by
    intro other
    have apart : ∀ (target : String) subscription, w.state.targets[target]? = some subscription →
        [(key, generation)].contains (target, subscription.generation) = false := by
      intro target subscription held
      refine Bool.eq_false_iff.mpr fun listed => ?_
      have same := List.mem_singleton.mp (List.contains_iff_mem.mp listed)
      cases same
      exact other subscription held rfl
    refine ⟨rfl, rfl, rfl, fun target => ?_, fun target => ?_⟩
    · cases held : w.state.targets[target]? with
      | none => rfl
      | some subscription => rw [Option.map_some, if_neg (by rw [apart target subscription held]; simp)]
    · rw [if_neg]
      unfold isCurrent
      cases held : w.state.targets[target]? with
      | none => simp
      | some subscription => rw [Option.any_some, apart target subscription held]; simp
  unfold installRelatedTargetSubscription
  cases held : w.state.targets[key]? with
  | none => exact skip fun subscription here => by simp [held] at here
  | some subscription =>
    dsimp only
    split
    · rename_i current
      refine ⟨rfl, rfl, rfl, fun target => ?_, fun target => ?_⟩
      · dsimp only
        rw [OrdMap.get_insert]
        by_cases here : target = key
        · subst here
          rw [if_pos rfl, held, Option.map_some, current, if_pos (by simp)]
        · rw [if_neg here]
          cases w.state.targets[target]? with
          | none => rfl
          | some other => rw [Option.map_some, if_neg (by simp [here])]
      · rw [OrdMap.get_write]
        unfold isCurrent
        by_cases here : target = key
        · subst here
          rw [if_pos rfl, held, if_pos (by simp [current])]
        · rw [if_neg here, if_neg]
          cases w.state.targets[target]? <;> simp [here]
    · rename_i other
      exact skip fun found here => by rw [held] at here; cases here; exact other

/-- Subscribing to targets one by one shows each that is still of a generation asked for. -/
theorem installed (entries : List (String × Nat)) (w : RelatedEntityWatch E) :
    Installed entries w (entries.foldl installRelatedTargetSubscription w) := by
  induction entries generalizing w with
  | nil =>
    refine ⟨rfl, rfl, rfl, fun target => ?_, fun target => ?_⟩
    · cases h : w.state.targets[target]? <;> simp [h]
    · rw [if_neg]
      · rfl
      unfold isCurrent
      cases w.state.targets[target]? <;> simp
  | cons entry rest ih =>
    have one := installed_one w entry
    have more := ih (w.installRelatedTargetSubscription entry)
    rw [List.foldl_cons]
    refine ⟨more.edges.trans one.edges, more.store.trans one.store, ?_, fun target => ?_, fun target => ?_⟩
    · rw [more.state, one.state]
    · rw [more.targets, one.targets]
      cases w.state.targets[target]? with
      | none => rfl
      | some subscription =>
        simp only [Option.map_some, List.contains_cons, List.contains_nil, Bool.or_false]
        by_cases here : (target, subscription.generation) = entry
        · subst here
          simp
        · simp [here]
    · rw [more.output, one.output, one.store]
      have same : (w.installRelatedTargetSubscription entry).isCurrent rest target = w.isCurrent rest target := by
        unfold isCurrent
        rw [one.targets]
        cases w.state.targets[target]? with
        | none => rfl
        | some subscription =>
          rw [Option.map_some, Option.any_some, Option.any_some]
          split <;> rfl
      have either : w.isCurrent (entry :: rest) target = (w.isCurrent [entry] target || w.isCurrent rest target) := by
        unfold isCurrent
        cases w.state.targets[target]? <;> simp
      rw [same, either]
      cases w.isCurrent [entry] target <;> cases w.isCurrent rest target <;> rfl

variable {edges : OrdMap String E} {fresh : String → Prop} {changes : RelatedChanges}

/-- The output once the targets lost on the way are taken out. -/
def remaining (w : RelatedEntityWatch E) (changes : RelatedChanges) (target : String) : Option Item :=
  if target ∈ changes.retired.map Prod.fst then none else w.output[target]?

theorem remaining_absent (accounts : changes.Accounts relatedId w.state.targets fresh edges)
    (shows : ∀ target : String, w.output[target]? = w.expected target) {target : String}
    (absent : changes.state.targets[target]? = none) : w.remaining changes target = none := by
  unfold remaining
  split
  · rfl
  · rename_i standing
    rw [shows, expected, if_neg]
    intro old
    obtain ⟨retired, among, same⟩ := accounts.gone target old absent
    exact standing (List.mem_map.mpr ⟨retired, among, same⟩)

/-- A target that is there shows what is stored, unless it was gained on the way. -/
theorem remaining_present (accounts : changes.Accounts relatedId w.state.targets fresh edges)
    (shows : ∀ target : String, w.output[target]? = w.expected target) {target : String}
    {subscription : RelatedTargetSubscription}
    (held : changes.state.targets[target]? = some subscription) :
    w.remaining changes target = w.store[target]? ∨ (target, subscription.generation) ∈ changes.added := by
  refine (accounts.kept target subscription held).imp ?_ And.left
  rintro ⟨standing, earlier, there, -⟩
  unfold remaining
  rw [if_neg, shows, expected, if_pos (by rw [there]; rfl)]
  intro among
  obtain ⟨retired, among, same⟩ := List.mem_map.mp among
  exact standing retired among same

theorem remaining_unstored (shows : ∀ target : String, w.output[target]? = w.expected target)
    {target : String} (unstored : w.store[target]? = none) : w.remaining changes target = none := by
  unfold remaining
  rw [shows, expected, unstored]
  split
  · rfl
  · split <;> rfl

/-- A sparse watch shows what it is to show, whatever was gained and lost on the way. -/
theorem takeOver_sparse (good : w.Good relatedId)
    (accounts : changes.Accounts relatedId w.state.targets fresh edges)
    (shows : ∀ target : String, w.output[target]? = w.expected target)
    (sparse : w.state.bulkTargets = false) {after : RelatedEntityWatch E}
    (installed : Installed changes.added
      { w with
        edges
        state := changes.state
        output := applyRelatedOutputActions w.output (changes.retired.map Prod.fst) [] } after) :
    (∀ (target : String) subscription, after.state.targets[target]? = some subscription →
      subscription.guard = some subscription.generation) ∧
      ∀ target : String, after.output[target]? = after.expected target := by
  have listened := installed.targets
  dsimp only at listened
  refine ⟨fun target subscription held => ?_, fun target => ?_⟩
  · rw [listened] at held
    obtain ⟨earlier, there, same⟩ := Option.map_eq_some_iff.mp held
    rcases accounts.kept target earlier there with ⟨-, base, old, generation, guard⟩ | ⟨among, unguarded⟩
    · have heard := good.guarded sparse target base old
      rw [guard, generation] at heard
      rw [← same]
      split
      · simp [heard]
      · exact heard
    · rw [if_pos (List.contains_iff_mem.mpr among)] at same
      rw [← same, unguarded]
      rfl
  · have remains : (applyRelatedOutputActions w.output (changes.retired.map Prod.fst) [])[target]? =
        w.remaining changes target := by
      unfold remaining applyRelatedOutputActions
      exact OrdMap.get_removeMany w.output _ target
    rw [installed.output, expected, installed.store, listened]
    dsimp only
    rw [remains]
    unfold isCurrent
    dsimp only
    cases held : changes.state.targets[target]? with
    | none => simpa using remaining_absent accounts shows held
    | some subscription =>
      rw [Option.any_some, Option.map_some, Option.isSome_some, if_pos rfl]
      split
      · rfl
      · rename_i other
        refine (remaining_present accounts shows held).resolve_right fun among => other ?_
        exact List.contains_iff_mem.mpr among

/-- Keys read from the store show what the store has, where it has something. -/
theorem get_hydrated (store output : OrdMap String Item) (keys : List String) (target : String) :
    (output.insertMany (keys.filterMap fun key => store[key]?.map fun value => (key, value)))[target]? =
      if target ∈ keys ∧ (store[target]?).isSome then store[target]? else output[target]? := by
  let values (key : String) := store[key]?
  have agree : ∀ entry ∈ keys.filterMap fun key => store[key]?.map fun value => (key, value),
      values entry.1 = some entry.2 := by
    intro entry among
    obtain ⟨key, _, read⟩ := List.mem_filterMap.mp among
    obtain ⟨value, stored, rfl⟩ := Option.map_eq_some_iff.mp read
    exact stored
  refine (OrdMap.get_insertMany_of agree target).trans (if_congr ?_ rfl rfl)
  constructor
  · intro listed
    obtain ⟨entry, among, same⟩ := List.mem_map.mp listed
    obtain ⟨key, member, read⟩ := List.mem_filterMap.mp among
    obtain ⟨value, stored, rfl⟩ := Option.map_eq_some_iff.mp read
    cases same
    exact ⟨member, by rw [stored]; rfl⟩
  · rintro ⟨member, present⟩
    obtain ⟨value, stored⟩ := Option.isSome_iff_exists.mp present
    exact List.mem_map.mpr ⟨(target, value), List.mem_filterMap.mpr ⟨target, member, by rw [stored]; rfl⟩, rfl⟩

/-- A watch that turns dense shows what it is to show: it reads all its targets from the store. -/
theorem get_activated (accounts : changes.Accounts relatedId w.state.targets fresh edges)
    (shows : ∀ target : String, w.output[target]? = w.expected target) {keys : List String}
    (listed : ∀ target : String, target ∈ keys ↔ (changes.state.targets[target]?).isSome) (target : String) :
    (OrdMap.insertMany (applyRelatedOutputActions w.output (changes.retired.map Prod.fst) [])
      (keys.filterMap fun key => w.store[key]?.map fun value => (key, value)))[target]? =
      if (changes.state.targets[target]?).isSome then w.store[target]? else none := by
  have remains : (applyRelatedOutputActions w.output (changes.retired.map Prod.fst) [])[target]? =
      w.remaining changes target := OrdMap.get_removeMany w.output _ target
  have among := listed target
  rw [get_hydrated, remains]
  cases held : changes.state.targets[target]? with
  | none =>
    rw [held] at among
    rw [if_neg fun both => (by cases among.mp both.1)]
    simpa using remaining_absent accounts shows held
  | some subscription =>
    rw [held] at among
    cases stored : w.store[target]? with
    | none => simpa using remaining_unstored shows stored
    | some item =>
      rw [if_pos ⟨among.mpr rfl, rfl⟩]
      rfl

/-- A dense watch shows what it is to show just when no stored target it gains on the way is lost again. -/
theorem get_dense_iff (accounts : changes.Accounts relatedId w.state.targets fresh edges)
    (shows : ∀ target : String, w.output[target]? = w.expected target) :
    (∀ target : String, (applyRelatedOutputActions w.output (changes.retired.map Prod.fst)
      (changes.added.filterMap fun entry => w.store[entry.1]?.map fun value => (entry.1, value)))[target]? =
        if (changes.state.targets[target]?).isSome then w.store[target]? else none) ↔
      ∀ target : String, fresh target → (w.store[target]?).isSome → Referenced relatedId edges target := by
  have gained : ∀ target : String, target ∈ changes.added.map Prod.fst ↔ fresh target := by
    intro target
    rw [← accounts.gained, List.mem_map]
    constructor
    · rintro ⟨⟨key, generation⟩, among, rfl⟩
      exact ⟨generation, among⟩
    · rintro ⟨generation, among⟩
      exact ⟨(target, generation), among, rfl⟩
  have read : (changes.added.filterMap fun entry => w.store[entry.1]?.map fun value => (entry.1, value)) =
      (changes.added.map Prod.fst).filterMap fun key => w.store[key]?.map fun value => (key, value) := by
    rw [List.filterMap_map]
    rfl
  have remains : ∀ target : String, (applyRelatedOutputActions w.output (changes.retired.map Prod.fst) [])[target]? =
      w.remaining changes target := fun target => OrdMap.get_removeMany w.output _ target
  have output : ∀ target : String, (applyRelatedOutputActions w.output (changes.retired.map Prod.fst)
      (changes.added.filterMap fun entry => w.store[entry.1]?.map fun value => (entry.1, value)))[target]? =
      if target ∈ changes.added.map Prod.fst ∧ (w.store[target]?).isSome then w.store[target]?
      else w.remaining changes target := by
    intro target
    rw [read, ← remains]
    exact get_hydrated w.store _ _ target
  constructor
  · intro right target isFresh stored
    refine (accounts.present target).mp ?_
    have shown := right target
    rw [output, if_pos ⟨(gained target).mpr isFresh, stored⟩] at shown
    by_contra absent
    rw [if_neg absent] at shown
    rw [shown] at stored
    cases stored
  · intro settles target
    rw [output]
    split
    · rename_i both
      rw [if_pos ((accounts.present target).mpr (settles target ((gained target).mp both.1) both.2))]
    · rename_i other
      cases held : changes.state.targets[target]? with
      | none => simpa using remaining_absent accounts shows held
      | some subscription =>
        rw [Option.isSome_some, if_pos rfl]
        refine (remaining_present accounts shows held).elim id fun among => ?_
        have unstored : w.store[target]? = none :=
          Option.not_isSome_iff_eq_none.mp fun stored => other ⟨List.mem_map.mpr ⟨_, among, rfl⟩, stored⟩
        rw [remaining_unstored shows unstored, unstored]

/-- What a change of the edges makes of a watch that is right. -/
theorem takeOver_spec (good : w.Good relatedId)
    (accounts : changes.Accounts relatedId w.state.targets fresh edges)
    (mode : RelatedChanges.SameMode ⟨w.state, [], []⟩ changes)
    (shows : ∀ target : String, w.output[target]? = w.expected target) :
    (w.takeOver edges changes).edges = edges ∧ (w.takeOver edges changes).store = w.store ∧
      (w.takeOver edges changes).Good relatedId ∧
      ((∀ target : String,
          (w.takeOver edges changes).output[target]? = (w.takeOver edges changes).expected target) ↔
        (w.state.bulkTargets = true → ∀ target : String, fresh target → (w.store[target]?).isSome →
          Referenced relatedId edges target)) := by
  obtain ⟨sameBulk, sameGuard⟩ := mode
  dsimp only at sameBulk sameGuard
  have dense := good.dense
  unfold takeOver
  dsimp only
  by_cases activates : (!changes.state.bulkTargets &&
      preferBulkTargetSubscription changes.state.targets.size w.store.size) = true
  · have sparse : w.state.bulkTargets = false := by
      rw [← sameBulk]
      simpa using (Bool.and_eq_true_iff.mp activates).1
    have unsubscribed : changes.state.bulkTargetGuard = false := by rw [sameGuard, dense, sparse]
    rw [if_pos activates]
    unfold installBulkTargetSubscription
    dsimp only
    rw [if_pos (by rw [unsubscribed]; rfl)]
    have mapped : ∀ target : String,
        (changes.state.targets.map fun _ subscription => { subscription with guard := none })[target]? =
          changes.state.targets[target]?.map fun subscription => { subscription with guard := none } :=
      fun target => Std.ExtTreeMap.getElem?_map
    refine ⟨rfl, rfl, ⟨accounts.counts.congr rfl fun target => ?_, fun other => (by cases other),
      fun _ target subscription held => ?_, rfl⟩, iff_of_true (fun target => ?_) fun other => ?_⟩
    · dsimp only
      rw [mapped, Option.map_map]
      rfl
    · dsimp only at held
      rw [mapped] at held
      obtain ⟨_, _, rfl⟩ := Option.map_eq_some_iff.mp held
      rfl
    · have listed : ∀ target : String, target ∈ (changes.state.targets.map fun _ subscription =>
          { subscription with guard := none }).keys ↔ (changes.state.targets[target]?).isSome := by
        intro target
        rw [Std.ExtTreeMap.mem_keys, Std.ExtTreeMap.mem_iff_isSome_getElem?, mapped, Option.isSome_map]
      rw [get_activated accounts shows listed, expected]
      dsimp only
      rw [mapped, Option.isSome_map]
    · rw [sparse] at other
      cases other
  · rw [if_neg activates]
    by_cases bulk : changes.state.bulkTargets = true
    · rw [if_pos bulk]
      rw [sameBulk] at bulk
      refine ⟨rfl, rfl, ⟨accounts.counts, fun other => ?_, fun _ target subscription held => ?_, ?_⟩, ?_⟩
      · dsimp only at other
        rw [sameBulk, bulk] at other
        cases other
      · rcases accounts.kept target subscription held with ⟨-, base, old, -, guard⟩ | ⟨-, unguarded⟩
        · exact guard.symm.trans (good.unguarded bulk target base old)
        · exact unguarded
      · exact sameGuard.trans (dense.trans sameBulk.symm)
      · exact (get_dense_iff accounts shows).trans ⟨fun right _ => right, fun right => right bulk⟩
    · have sparse : w.state.bulkTargets = false := by
        rw [← sameBulk]
        exact Bool.eq_false_iff.mpr bulk
      rw [if_neg bulk]
      have installed := installed changes.added
        { w with
          edges
          state := changes.state
          output := applyRelatedOutputActions w.output (changes.retired.map Prod.fst) [] }
      obtain ⟨guarded, right⟩ := takeOver_sparse good accounts shows sparse installed
      revert installed guarded right
      generalize changes.added.foldl installRelatedTargetSubscription _ = after
      intro installed guarded right
      have state := installed.state
      have listened := installed.targets
      dsimp only at state listened
      refine ⟨installed.edges, installed.store, ⟨?_, fun _ => guarded, fun other => ?_, ?_⟩,
        iff_of_true right fun other => ?_⟩
      · rw [installed.edges]
        refine accounts.counts.congr (by rw [state]) fun target => ?_
        rw [listened, Option.map_map]
        refine Option.map_congr fun subscription _ => ?_
        rw [Function.comp_apply]
        split <;> rfl
      · rw [state] at other
        exact absurd other bulk
      · rw [state]
        exact sameGuard.trans (dense.trans sameBulk.symm)
      · rw [sparse] at other
        cases other

end RelatedEntityWatch

/-! ### A change of the store -/

namespace RelatedEntityWatchState

variable (s : RelatedEntityWatchState)

/-- The puts of targets among the writes of a diff. -/
def upsertsOf (writes : List (String × Option Item)) : List (String × Item) :=
  writes.filterMap fun write =>
    if s.targets.contains write.1 then write.2.map fun value => (write.1, value) else none

/-- The removals of targets among the writes of a diff. -/
def removalsOf (writes : List (String × Option Item)) : List String :=
  writes.filterMap fun write => if s.targets.contains write.1 && write.2.isNone then some write.1 else none

theorem upsertsOf_append (first rest : List (String × Option Item)) :
    s.upsertsOf (first ++ rest) = s.upsertsOf first ++ s.upsertsOf rest := List.filterMap_append

theorem removalsOf_append (first rest : List (String × Option Item)) :
    s.removalsOf (first ++ rest) = s.removalsOf first ++ s.removalsOf rest := List.filterMap_append

theorem upsertsOf_put (key : String) (item : Item) :
    s.upsertsOf [(key, some item)] = if s.targets.contains key then [(key, item)] else [] := by
  unfold upsertsOf
  rw [List.filterMap_cons]
  cases s.targets.contains key <;> rfl

@[simp] theorem upsertsOf_remove (key : String) : s.upsertsOf [(key, none)] = [] := by
  unfold upsertsOf
  rw [List.filterMap_cons]
  cases s.targets.contains key <;> rfl

@[simp] theorem removalsOf_put (key : String) (item : Item) : s.removalsOf [(key, some item)] = [] := by
  unfold removalsOf
  rw [List.filterMap_cons]
  cases s.targets.contains key <;> rfl

theorem removalsOf_remove (key : String) :
    s.removalsOf [(key, none)] = if s.targets.contains key then [key] else [] := by
  unfold removalsOf
  rw [List.filterMap_cons]
  cases s.targets.contains key <;> rfl

variable {s} {writes : List (String × Option Item)}

theorem told_of_upsert {entry : String × Item} (among : entry ∈ s.upsertsOf writes) :
    s.targets.contains entry.1 = true := by
  obtain ⟨write, _, read⟩ := List.mem_filterMap.mp among
  split at read
  · obtain ⟨value, _, rfl⟩ := Option.map_eq_some_iff.mp read
    assumption
  · cases read

theorem told_of_removal {key : String} (among : key ∈ s.removalsOf writes) :
    s.targets.contains key = true := by
  obtain ⟨write, _, read⟩ := List.mem_filterMap.mp among
  split at read
  · rename_i told
    cases read
    exact (Bool.and_eq_true_iff.mp told).1
  · cases read

end RelatedEntityWatchState

mutual
theorem collectBulkTargetActions_eq (s : RelatedEntityWatchState) : ∀ (diff : MapDiff String Item)
    (store : OrdMap String Item) (actions : List (String × Item) × List String), diff.Incremental →
    collectBulkTargetActions s diff actions =
      (actions.1 ++ s.upsertsOf (diff.writesOn store), actions.2 ++ s.removalsOf (diff.writesOn store))
  | .initial _, _, _, live => live.elim
  | .insert key value, _, actions, _ => by
    rw [collectBulkTargetActions, MapDiff.writesOn, s.upsertsOf_put, s.removalsOf_put, List.append_nil]
    split
    · rfl
    · rw [List.append_nil]
  | .update key _ value, _, actions, _ => by
    rw [collectBulkTargetActions, MapDiff.writesOn, s.upsertsOf_put, s.removalsOf_put, List.append_nil]
    split
    · rfl
    · rw [List.append_nil]
  | .remove key _, _, actions, _ => by
    rw [collectBulkTargetActions, MapDiff.writesOn, s.upsertsOf_remove, s.removalsOf_remove, List.append_nil]
    split
    · rfl
    · rw [List.append_nil]
  | .batch changes, store, actions, live => by
    rw [collectBulkTargetActions, MapDiff.writesOn]
    exact collectAllBulkTargetActions_eq s changes store actions live

theorem collectAllBulkTargetActions_eq (s : RelatedEntityWatchState) :
    ∀ (changes : List (MapDiff String Item)) (store : OrdMap String Item)
      (actions : List (String × Item) × List String), MapDiff.AllIncremental changes →
    collectAllBulkTargetActions s changes actions =
      (actions.1 ++ s.upsertsOf (MapDiff.allWritesOn changes store),
        actions.2 ++ s.removalsOf (MapDiff.allWritesOn changes store))
  | [], _, actions, _ => by
    rw [collectAllBulkTargetActions, MapDiff.allWritesOn]
    exact Prod.ext (List.append_nil _).symm (List.append_nil _).symm
  | change :: rest, store, actions, live => by
    rw [collectAllBulkTargetActions, MapDiff.allWritesOn, collectBulkTargetActions_eq s change store actions live.1,
      collectAllBulkTargetActions_eq s rest (change.apply store) _ live.2, s.upsertsOf_append, s.removalsOf_append,
      List.append_assoc, List.append_assoc]
end

namespace RelatedEntityWatch

variable {w : RelatedEntityWatch E}

/-- The last put of a target stands in the output; the last write of it stands in the store. -/
theorem lastUpsert_cases {s : RelatedEntityWatchState} {target : String} (told : s.targets.contains target = true)
    (writes : List (String × Option Item)) :
    (KeyedLog.lastEffect some target ((s.upsertsOf writes).map fun entry => (entry.1, some entry.2)) = none ∧
      (∀ item, (target, some item) ∉ writes) ∧
      ((target ∉ s.removalsOf writes ∧ KeyedLog.lastEffect some target writes = none) ∨
        (target ∈ s.removalsOf writes ∧ KeyedLog.lastEffect some target writes = some none))) ∨
    ∃ item, KeyedLog.lastEffect some target ((s.upsertsOf writes).map fun entry => (entry.1, some entry.2)) =
        some (some item) ∧ (∃ put, (target, some put) ∈ writes) ∧
      (KeyedLog.lastEffect some target writes = some none ∨
        KeyedLog.lastEffect some target writes = some (some item)) := by
  induction writes using List.reverseRecOn with
  | nil => exact .inl ⟨rfl, by simp, .inl ⟨by simp [RelatedEntityWatchState.removalsOf], rfl⟩⟩
  | append_singleton writes write ih =>
    obtain ⟨key, value⟩ := write
    rw [s.upsertsOf_append, s.removalsOf_append, KeyedLog.lastEffect_concat, List.map_append,
      KeyedLog.lastEffect_append]
    by_cases here : key = target
    · subst here
      cases value with
      | some item =>
        right
        refine ⟨item, ?_, ⟨item, by simp⟩, .inr (by simp [KeyedLog.effectOn])⟩
        rw [s.upsertsOf_put, if_pos told, List.map_singleton, KeyedLog.lastEffect_singleton]
        simp [KeyedLog.effectOn]
      | none =>
        rw [s.upsertsOf_remove, s.removalsOf_remove, if_pos told, List.map_nil, KeyedLog.lastEffect_nil, Option.none_or]
        rcases ih with ⟨unput, absent, -⟩ | ⟨item, last, ⟨value, among⟩, -⟩
        · left
          exact ⟨unput, fun item => by simp [absent item], .inr ⟨by simp, by simp [KeyedLog.effectOn]⟩⟩
        · right
          exact ⟨item, last, ⟨value, by simp [among]⟩, .inl (by simp [KeyedLog.effectOn])⟩
    · have quiet : KeyedLog.lastEffect some target
          ((s.upsertsOf [(key, value)]).map fun entry => (entry.1, some entry.2)) = none := by
        cases value with
        | none => simp
        | some item =>
          rw [s.upsertsOf_put]
          split
          · rw [List.map_singleton, KeyedLog.lastEffect_singleton]
            simp [KeyedLog.effectOn, here]
          · rfl
      have unmoved : target ∈ s.removalsOf writes ++ s.removalsOf [(key, value)] ↔
          target ∈ s.removalsOf writes := by
        rw [List.mem_append]
        refine or_iff_left fun among => here ?_
        obtain ⟨write, listed, read⟩ := List.mem_filterMap.mp among
        rw [List.mem_singleton.mp listed] at read
        split at read <;> simp_all
      have silent : KeyedLog.effectOn some target (key, value) = none := by simp [KeyedLog.effectOn, here]
      rw [quiet, silent, Option.none_or, Option.none_or, unmoved]
      rcases ih with ⟨unput, absent, last⟩ | ⟨item, last, ⟨value, among⟩, same⟩
      · left
        exact ⟨unput, fun item => by simp [absent item, Ne.symm here], last⟩
      · right
        exact ⟨item, last, ⟨value, by simp [among]⟩, same⟩

variable {diff : MapDiff String Item}

/-- Callbacks of single targets show what the store ends with. -/
theorem get_heard (target : String) :
    (w.output.writeAll ((((diff.writesOn w.store).map Prod.fst).filter w.heard).map
      fun key => (key, (diff.apply w.store)[key]?)))[target]? =
      if target ∈ ((diff.writesOn w.store).map Prod.fst).filter w.heard then (diff.apply w.store)[target]?
      else w.output[target]? := by
  let values (key : String) := (diff.apply w.store)[key]?
  have agree : ∀ entry ∈ (((diff.writesOn w.store).map Prod.fst).filter w.heard).map
      fun key => (key, (diff.apply w.store)[key]?), values entry.1 = entry.2 := by
    intro entry among
    obtain ⟨key, _, rfl⟩ := List.mem_map.mp among
    rfl
  refine (OrdMap.get_writeAll_of agree target).trans (if_congr ?_ rfl rfl)
  rw [List.map_map]
  exact Iff.of_eq (congrArg _ (List.map_id _))

/-- A key no write of a diff is of keeps its value. -/
theorem get_unwritten {target : String} (unwritten : target ∉ (diff.writesOn w.store).map Prod.fst) :
    (diff.apply w.store)[target]? = w.store[target]? := by
  rw [MapDiff.apply_eq_writeAll, OrdMap.get_writeAll, KeyedLog.lastEffect_eq_none.mpr]
  · rfl
  · intro write among
    refine if_neg fun same => unwritten ?_
    exact List.mem_map.mpr ⟨write, among, same⟩

/-- A dense watch follows the store just when no target that a diff puts is removed again by its end. -/
theorem get_told_iff (shows : ∀ target : String, w.output[target]? = w.expected target) :
    (∀ target : String, (applyRelatedOutputActions w.output (w.state.removalsOf (diff.writesOn w.store))
      (w.state.upsertsOf (diff.writesOn w.store)))[target]? =
        if (w.state.targets[target]?).isSome then (diff.apply w.store)[target]? else none) ↔
      ∀ target : String, (w.state.targets[target]?).isSome →
        (∃ item, (target, some item) ∈ diff.writesOn w.store) → ((diff.apply w.store)[target]?).isSome := by
  have contains : ∀ target : String, w.state.targets.contains target = (w.state.targets[target]?).isSome :=
    fun target => Std.ExtTreeMap.contains_eq_isSome_getElem?
  have output : ∀ target : String,
      (applyRelatedOutputActions w.output (w.state.removalsOf (diff.writesOn w.store))
        (w.state.upsertsOf (diff.writesOn w.store)))[target]? =
      (KeyedLog.lastEffect some target
        ((w.state.upsertsOf (diff.writesOn w.store)).map fun entry => (entry.1, some entry.2))).getD
        (if target ∈ w.state.removalsOf (diff.writesOn w.store) then none else w.output[target]?) := by
    intro target
    unfold applyRelatedOutputActions
    rw [OrdMap.insertMany_eq_writeAll, OrdMap.get_writeAll, OrdMap.get_removeMany]
  have stored : ∀ target : String, (diff.apply w.store)[target]? =
      (KeyedLog.lastEffect some target (diff.writesOn w.store)).getD w.store[target]? := fun target => by
    rw [MapDiff.apply_eq_writeAll, OrdMap.get_writeAll]
  refine forall_congr' fun target => ?_
  cases present : (w.state.targets[target]?).isSome with
  | false =>
    refine iff_of_true ?_ fun other => (by cases other)
    have untold : w.state.targets.contains target = false := (contains target).trans present
    have quiet : KeyedLog.lastEffect some target
        ((w.state.upsertsOf (diff.writesOn w.store)).map fun entry => (entry.1, some entry.2)) = none := by
      refine KeyedLog.lastEffect_eq_none.mpr fun write among => ?_
      obtain ⟨entry, listed, rfl⟩ := List.mem_map.mp among
      refine if_neg fun same => ?_
      rw [← same, RelatedEntityWatchState.told_of_upsert listed] at untold
      cases untold
    have unmoved : target ∉ w.state.removalsOf (diff.writesOn w.store) := fun among => by
      rw [RelatedEntityWatchState.told_of_removal among] at untold
      cases untold
    rw [output, quiet, Option.getD_none, if_neg unmoved, shows, expected, if_neg (by simp [present])]
    rfl
  | true =>
    rw [if_pos rfl, output, stored, shows, expected, if_pos present]
    rcases lastUpsert_cases ((contains target).trans present) (diff.writesOn w.store) with
      ⟨unput, absent, ⟨unmoved, last⟩ | ⟨moved, last⟩⟩ | ⟨item, last, put, removed | kept⟩
    · rw [unput, last, Option.getD_none, Option.getD_none, if_neg unmoved]
      exact iff_of_true rfl fun _ ⟨item, among⟩ => absurd among (absent item)
    · rw [unput, last, Option.getD_none, if_pos moved]
      exact iff_of_true rfl fun _ ⟨item, among⟩ => absurd among (absent item)
    · rw [last, removed]
      exact iff_of_false (by simp) fun settles => by simpa using settles rfl put
    · rw [last, kept]
      exact iff_of_true rfl fun _ _ => rfl

/-- What a change of the store makes of a watch that is right. -/
theorem targetsChanged_spec (good : w.Good relatedId) (live : diff.Incremental)
    (shows : ∀ target : String, w.output[target]? = w.expected target) :
    (w.targetsChanged diff).Good relatedId ∧ (w.targetsChanged diff).edges = w.edges ∧
      ((∀ target : String,
          (w.targetsChanged diff).output[target]? = (w.targetsChanged diff).expected target) ↔
        (w.state.bulkTargets = true → ∀ target : String, Referenced relatedId w.edges target →
          (∃ item, (target, some item) ∈ diff.writesOn w.store) → ((diff.apply w.store)[target]?).isSome)) := by
  unfold targetsChanged
  rw [good.dense, Bool.and_self]
  cases bulk : w.state.bulkTargets with
  | true =>
    rw [if_pos rfl]
    dsimp only
    refine ⟨⟨good.counts, good.guarded, good.unguarded, good.dense⟩, rfl, ?_⟩
    have unheard : ∀ target : String, w.heard target = false := by
      intro target
      unfold heard
      cases held : w.state.targets[target]? with
      | none => rfl
      | some subscription => simp [good.unguarded bulk target subscription held]
    have quiet : ((diff.writesOn w.store).map Prod.fst).filter w.heard = [] :=
      List.filter_eq_nil_iff.mpr fun target _ => by simp [unheard target]
    rw [quiet, collectBulkTargetActions_eq w.state diff w.store _ live]
    refine (get_told_iff shows).trans ⟨fun right _ target => ?_, fun right target => ?_⟩
    · rw [← good.counts.present]
      exact right target
    · rw [good.counts.present]
      exact right rfl target
  | false =>
    rw [if_neg (by simp)]
    refine ⟨⟨good.counts, good.guarded, good.unguarded, good.dense⟩, rfl,
      iff_of_true (fun target => ?_) fun other => (by cases other)⟩
    dsimp only
    rw [get_heard, expected]
    dsimp only
    cases held : w.state.targets[target]? with
    | none =>
      have unheard : w.heard target = false := by
        unfold heard
        rw [held]
        rfl
      rw [if_neg fun among => by simp [unheard] at among, shows, expected, held]
      rfl
    | some subscription =>
      have heard : w.heard target = true := by
        unfold RelatedEntityWatch.heard
        rw [held, Option.any_some, good.guarded bulk target subscription held]
        simp
      rw [Option.isSome_some, if_pos rfl]
      split
      · rfl
      · rename_i unheard
        rw [shows, expected, held, get_unwritten fun among => unheard (List.mem_filter.mpr ⟨among, heard⟩)]
        rfl

/-! ### Runs -/

theorem edgesChanged_spec {diff : MapDiff String E} (good : w.Good relatedId) (live : diff.Incremental)
    (shows : ∀ target : String, w.output[target]? = w.expected target) :
    (w.edgesChanged relatedId diff).edges = diff.apply w.edges ∧
      (w.edgesChanged relatedId diff).Good relatedId ∧
      ((∀ target : String,
          (w.edgesChanged relatedId diff).output[target]? = (w.edgesChanged relatedId diff).expected target) ↔
        (w.state.bulkTargets = true → ∀ target : String,
          NewlyReferenced relatedId w.edges (diff.writesOn w.edges) target → (w.store[target]?).isSome →
          Referenced relatedId (diff.apply w.edges) target)) := by
  have accounts := (good.counts.start.puts (diff.writesOn w.edges)).congr
    (fun target => Iff.of_eq (false_or _)) fun _ => rfl
  have mode : RelatedChanges.SameMode ⟨w.state, [], []⟩ ((diff.writesOn w.edges).foldl
      (fun c write => c.put relatedId write.1 write.2) ⟨w.state, [], []⟩) := RelatedChanges.puts_mode _ _
  rw [← applyRelatedEdgeDiff_eq diff w.edges _ live] at accounts mode
  rw [← MapDiff.apply_eq_writeAll] at accounts
  obtain ⟨edges, -, good, right⟩ := takeOver_spec good accounts mode shows
  exact ⟨edges, good, right⟩

/-- Edges that are listed once come to their puts. -/
theorem initial_puts {base : OrdMap String RelatedTargetSubscription} {fresh : String → Prop}
    {edges : OrdMap String E} (entries : List (String × E)) {c : RelatedChanges}
    (accounts : c.Accounts relatedId base fresh edges)
    (once : (entries.map Prod.fst).Nodup) (absent : ∀ entry ∈ entries, edges[entry.1]? = none) :
    entries.foldl (fun c entry =>
      match relatedId entry.2 with
      | some targetId => c.upsertEdge entry.1 targetId
      | none => c) c =
    (entries.map fun entry => (entry.1, some entry.2)).foldl
      (fun c write => c.put relatedId write.1 write.2) c := by
  induction entries generalizing c fresh edges with
  | nil => rfl
  | cons entry rest ih =>
    obtain ⟨apart, once⟩ := List.nodup_cons.mp once
    have missing := absent entry List.mem_cons_self
    have first : (match relatedId entry.2 with
        | some targetId => c.upsertEdge entry.1 targetId
        | none => c) = c.put relatedId entry.1 (some entry.2) := by
      unfold RelatedChanges.put
      rw [Option.bind_some]
      split
      · rfl
      · rcases RelatedChanges.removeEdge_eq c entry.1 with ⟨-, same⟩ | ⟨target, pointed, -⟩
        · exact same.symm
        · rw [accounts.follows, missing] at pointed
          cases pointed
    rw [List.foldl_cons, first, List.map_cons, List.foldl_cons]
    refine ih (accounts.put entry.1 (some entry.2)) once fun other listed => ?_
    rw [OrdMap.get_write, if_neg, absent other (List.mem_cons_of_mem _ listed)]
    intro same
    exact apart (List.mem_map.mpr ⟨other, listed, same⟩)

/-- What a new watch makes of the edges it is told of. -/
theorem initial_accounts (relatedId : E → Option String) (edges : OrdMap String E) :
    ∃ fresh, (applyRelatedEdgeDiff relatedId (.initial edges.toList) ⟨.empty, [], []⟩).Accounts relatedId ∅ fresh
        ((MapDiff.initial edges.toList).apply ∅) ∧
      RelatedChanges.SameMode ⟨.empty, [], []⟩
        (applyRelatedEdgeDiff relatedId (.initial edges.toList) ⟨.empty, [], []⟩) := by
  have counts : RelatedEntityWatchState.empty.Counts relatedId ∅ := by
    refine ⟨fun key => ?_, fun target => ?_, fun target subscription held => ?_⟩
    · simp [RelatedEntityWatchState.empty]
    · rfl
    · simp [RelatedEntityWatchState.empty] at held
  have accounts := counts.start.puts (edges.toList.map fun entry => (entry.1, some entry.2))
  have mode : RelatedChanges.SameMode ⟨.empty, [], []⟩ ((edges.toList.map fun entry => (entry.1, some entry.2)).foldl
      (fun c write => c.put relatedId write.1 write.2) ⟨.empty, [], []⟩) := RelatedChanges.puts_mode _ _
  rw [← initial_puts edges.toList counts.start (OrdMap.nodup_keys edges) fun entry _ => by simp]
    at accounts mode
  rw [← OrdMap.insertMany_eq_writeAll] at accounts
  exact ⟨_, accounts, mode⟩

/-- A new watch is right. -/
theorem start_spec (relatedId : E → Option String) (edges : OrdMap String E) (store : OrdMap String Item) :
    (graphRelatedEntityWatchBy relatedId edges store).edges = edges ∧
      (graphRelatedEntityWatchBy relatedId edges store).store = store ∧
      (graphRelatedEntityWatchBy relatedId edges store).Good relatedId ∧
      (graphRelatedEntityWatchBy relatedId edges store).Exact relatedId := by
  have good : Good relatedId ⟨∅, store, .empty, ∅⟩ := by
    refine ⟨⟨fun key => ?_, fun target => ?_, fun target subscription held => ?_⟩,
      fun _ target subscription held => ?_, fun other => (by cases other), rfl⟩
    · simp [RelatedEntityWatchState.empty]
    · rfl
    · simp [RelatedEntityWatchState.empty] at held
    · simp [RelatedEntityWatchState.empty] at held
  have shows : ∀ target : String, (⟨∅, store, .empty, ∅⟩ : RelatedEntityWatch E).output[target]? =
      RelatedEntityWatch.expected (⟨∅, store, .empty, ∅⟩ : RelatedEntityWatch E) target := by
    intro target
    simp [expected, RelatedEntityWatchState.empty]
  obtain ⟨_, accounts, mode⟩ := initial_accounts relatedId edges
  obtain ⟨told, kept, after, right⟩ := takeOver_spec good accounts mode shows
  refine ⟨told.trans (OrdMap.insertMany_toList edges), kept, after, ?_⟩
  exact (exact_iff after.counts).mpr (right.mpr fun other => by cases other)

/-- Every step keeps the count, and the output right just when it settles. -/
theorem step_spec {event : RelatedEvent E} {next : RelatedEntityWatch E} (good : w.Good relatedId)
    (exact : w.Exact relatedId) (stepped : w.step relatedId event = some next) :
    next.Good relatedId ∧ (next.Exact relatedId ↔ w.Settles relatedId event) := by
  have shows := (exact_iff good.counts).mp exact
  cases event with
  | edges diff live =>
    cases stepped
    obtain ⟨-, after, right⟩ := edgesChanged_spec good live shows
    exact ⟨after, (exact_iff after.counts).trans right⟩
  | targets diff live =>
    cases stepped
    obtain ⟨after, -, right⟩ := targetsChanged_spec good live shows
    exact ⟨after, (exact_iff after.counts).trans right⟩

theorem runs (relatedId : E → Option String) (events : List (RelatedEvent E)) (w : RelatedEntityWatch E) :
    ∃ last, Runs.run (step relatedId) w events = some last := by
  induction events generalizing w with
  | nil => exact ⟨w, rfl⟩
  | cons event rest ih => cases event <;> exact ih _

/-- A watch shows, in every state of a run, just the stored targets that an edge points at, with the right
count for each, exactly when every step of the run settles. -/
theorem related_exact_iff (relatedId : E → Option String) (edges : OrdMap String E)
    (store : OrdMap String Item) (events : List (RelatedEvent E)) :
    Runs.Always (step relatedId) (Exact relatedId) (graphRelatedEntityWatchBy relatedId edges store) events ↔
      Runs.Each (step relatedId) (Settles relatedId) (graphRelatedEntityWatchBy relatedId edges store) events := by
  obtain ⟨last, ran⟩ := runs relatedId events (graphRelatedEntityWatchBy relatedId edges store)
  obtain ⟨-, -, good, exact⟩ := start_spec relatedId edges store
  refine Runs.always_iff_each (Good relatedId) ran good exact (fun good held stepped _ => ?_)
    fun good held stepped => ?_
  · exact (step_spec good held stepped).1
  · exact (step_spec good held stepped).2

/-! ### A dense watch -/

theorem takeOver_dense {edges : OrdMap String E} {changes : RelatedChanges}
    (prefers : preferBulkTargetSubscription changes.state.targets.size w.store.size = true) :
    (w.takeOver edges changes).state.bulkTargets = true := by
  unfold takeOver
  dsimp only
  cases bulk : changes.state.bulkTargets with
  | true =>
    rw [if_neg (by simp), if_pos rfl]
    exact bulk
  | false =>
    rw [if_pos (by rw [prefers]; rfl)]
    unfold installBulkTargetSubscription
    split <;> rfl

/-- A watch starts dense when many targets are referenced and the store is not much larger. -/
theorem start_dense {relatedId : E → Option String} {edges : OrdMap String E} {store : OrdMap String Item}
    {targets : List String} (distinct : targets.Nodup)
    (referenced : ∀ target ∈ targets, Referenced relatedId edges target)
    (many : 1024 ≤ targets.length) (fits : store.size / 4 ≤ targets.length) :
    (graphRelatedEntityWatchBy relatedId edges store).state.bulkTargets = true := by
  obtain ⟨_, accounts, -⟩ := initial_accounts relatedId edges
  refine takeOver_dense ?_
  have edges_eq : (MapDiff.initial edges.toList).apply ∅ = edges := OrdMap.insertMany_toList edges
  rw [edges_eq] at accounts
  have among : targets ⊆ Std.ExtTreeMap.keys
      (applyRelatedEdgeDiff relatedId (.initial edges.toList) ⟨.empty, [], []⟩).state.targets := by
    intro target listed
    rw [Std.ExtTreeMap.mem_keys, Std.ExtTreeMap.mem_iff_isSome_getElem?]
    exact (accounts.present target).mpr (referenced target listed)
  have length := (List.subperm_of_subset distinct among).length_le
  rw [Std.ExtTreeMap.length_keys] at length
  unfold preferBulkTargetSubscription
  rw [if_neg (Nat.not_lt.mpr (many.trans length))]
  exact decide_eq_true (fits.trans length)

namespace Sample

structure Follow where
  source : String
  target : String

def ends (edge : Follow) : Except String EdgeEndpoints :=
  .ok ⟨⟨⟨"node", edge.source⟩, none⟩, ⟨⟨"node", edge.target⟩, none⟩⟩

/-- The node that an edge leads to. -/
def followed : Follow → Option String := relatedEntityId ends "node" .b

def name (n : Nat) : String := String.ofList (List.replicate n 'n')

/-- Edges to 1024 nodes. -/
def follows : OrdMap String Follow :=
  OrdMap.insertMany ∅ ((List.range 1024).map fun n => (name n, ⟨"x", name n⟩))

/-- A store that holds another node. -/
def nodes : OrdMap String Item := (∅ : OrdMap String Item).insert "x" ⟨"node", "x", []⟩

/-- An edge to that node comes and goes in one batch. -/
def passing : RelatedEvent Follow :=
  .edges (.batch [.insert "late" ⟨"x", "x"⟩, .remove "late" ⟨"x", "x"⟩]) ⟨trivial, trivial, trivial⟩

theorem name_injective : Function.Injective name := by
  intro n m same
  have lengths := congrArg (fun text : String => text.toList.length) same
  simpa [name] using lengths

theorem name_ne (n : Nat) : name n ≠ "x" := by
  intro same
  have letters := congrArg String.toList same
  simp only [name, String.toList_ofList] at letters
  cases n with
  | zero => cases letters
  | succ n =>
    rw [List.replicate_succ] at letters
    exact absurd (List.cons.inj letters).1 (by decide)

theorem get_follows {key : String} {edge : Follow} :
    follows[key]? = some edge ↔ ∃ n < 1024, key = name n ∧ edge = ⟨"x", name n⟩ := by
  have keys : (((List.range 1024).map fun n => (name n, (⟨"x", name n⟩ : Follow))).map Prod.fst).Nodup := by
    rw [List.map_map]
    exact List.nodup_range.map name_injective
  rw [follows, OrdMap.get_insertMany keys, List.mem_map]
  refine exists_congr fun n => ?_
  rw [List.mem_range, Prod.mk.injEq, eq_comm (a := name n), eq_comm (b := edge)]

theorem not_followed : ¬Referenced followed follows "x" := by
  rintro ⟨key, edge, stored, points⟩
  obtain ⟨n, -, -, rfl⟩ := get_follows.mp stored
  exact name_ne n (Option.some.inj points)

theorem follows_dense : (graphRelatedEntityWatchBy followed follows nodes).state.bulkTargets = true := by
  have length : ((List.range 1024).map name).length = 1024 := by rw [List.length_map, List.length_range]
  have distinct : ((List.range 1024).map name).Nodup := List.nodup_range.map name_injective
  have size : nodes.size ≤ 1 := Std.ExtTreeMap.size_insert_le
  refine start_dense distinct (fun target listed => ?_) length.ge (by omega)
  obtain ⟨n, small, rfl⟩ := List.mem_map.mp listed
  exact ⟨name n, ⟨"x", name n⟩, get_follows.mpr ⟨n, List.mem_range.mp small, rfl, rfl⟩, rfl⟩

/-- A dense watch shows a node that no edge leads to any more. -/
theorem passing_is_shown :
    ¬Runs.Always (step followed) (Exact followed) (graphRelatedEntityWatchBy followed follows nodes) [passing] := by
  intro always
  obtain ⟨told, kept, good, exact⟩ := start_spec followed follows nodes
  have dense := follows_dense
  revert always told kept good exact dense
  generalize graphRelatedEntityWatchBy followed follows nodes = w
  intro always told kept good exact dense
  have stepped : w.step followed passing = some (w.edgesChanged followed
    (.batch [.insert "late" ⟨"x", "x"⟩, .remove "late" ⟨"x", "x"⟩])) := rfl
  have settles := (step_spec good exact stepped).2.mp (always.2 _ stepped).now
  have gained : NewlyReferenced followed w.edges [("late", some ⟨"x", "x"⟩), ("late", none)] "x" :=
    .inl ⟨rfl, told ▸ not_followed⟩
  have stored : (w.store["x"]?).isSome := by
    rw [kept, nodes, OrdMap.get_insert, if_pos rfl]
    rfl
  obtain ⟨key, edge, there, points⟩ := settles dense "x" gained stored
  -- Once the passing edge is gone, the edges are the ones at the start.
  have before : ((w.edges.insert "late" ⟨"x", "x"⟩).erase "late")[key]? = some edge := there
  rw [OrdMap.get_erase, OrdMap.get_insert] at before
  split at before
  · cases before
  · exact not_followed ⟨key, edge, told ▸ before, points⟩

end Sample

end RelatedEntityWatch

end

end Myko

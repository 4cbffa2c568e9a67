import Myko.Graph.Preflight

/-!
Live watches of edges. A watch starts from what the index finds for its selection and is then kept by
the changes routed to it, each filtered by whether the old and the new edge match.
-/

namespace Myko

inductive GraphWatchRoute where
  | endpoint (edgeType : String) (position : EndPosition) (endpoint : EndpointValue)
  | pair (edgeType : String) (a b : EndpointValue)
  | incident (edgeType : String) (endpoint : EndpointValue)
  deriving DecidableEq

/-- What a watch selects. -/
inductive GraphSelection where
  | at (position : EndPosition) (endpoint : EndpointValue)
  | manyAt (position : EndPosition) (endpoints : List EndpointValue)
  | between (a b : EndpointValue)
  | incident (endpoint : EndpointValue)
  deriving DecidableEq

abbrev GraphWatchDiff := MapDiff String Item

/-- What a watch keeps: the matching edges, or only how many there are. -/
inductive GraphWatchOutput where
  | map (entries : OrdMap String Item)
  | count (count : Nat)

structure GraphWatch where
  registration : EdgeRegistration
  selection : GraphSelection
  output : GraphWatchOutput

def endpointsMatch (registration : EdgeRegistration) (endpoints : EdgeEndpoints)
    (a b : EndpointValue) : Bool :=
  (endpoints.a = a && endpoints.b = b) ||
    (registration.shape = .undirected && endpoints.a = b && endpoints.b = a)

def pairWatchRoute (registration : EdgeRegistration) (a b : EndpointValue) : GraphWatchRoute :=
  if registration.shape = .undirected ∧ b < a then .pair registration.edgeType b a
  else .pair registration.edgeType a b

namespace GraphSelection

def matchesEndpoints (selection : GraphSelection) (registration : EdgeRegistration)
    (endpoints : EdgeEndpoints) : Bool :=
  match selection with
  | .at position endpoint => endpoints.at position = endpoint
  | .manyAt position selected => endpoints.at position ∈ selected
  | .between a b => endpointsMatch registration endpoints a b
  | .incident endpoint => endpoints.a = endpoint || endpoints.b = endpoint

def routes (selection : GraphSelection) (registration : EdgeRegistration) : List GraphWatchRoute :=
  match selection with
  | .at position endpoint => [.endpoint registration.edgeType position endpoint]
  | .manyAt position selected => selected.map (.endpoint registration.edgeType position)
  | .between a b => [pairWatchRoute registration a b]
  | .incident endpoint => [.incident registration.edgeType endpoint]

end GraphSelection

/-! ### Routing -/

def watchRoutesForItem (registration : EdgeRegistration) (item : Item) :
    Except String (List GraphWatchRoute) := do
  let endpoints ← registration.extract item
  return [.endpoint registration.edgeType .a endpoints.a, .incident registration.edgeType endpoints.a,
    .endpoint registration.edgeType .b endpoints.b, .incident registration.edgeType endpoints.b,
    pairWatchRoute registration endpoints.a endpoints.b]

def watchRoutesForRegistered (schema : GraphSchema) (item : Item) :
    Except String (List GraphWatchRoute) :=
  match schema.registration item.entityType with
  | some registration => watchRoutesForItem registration item
  | none => pure []

mutual
def watchRoutesForDiff (schema : GraphSchema) : GraphWatchDiff → Except String (List GraphWatchRoute)
  | .initial entries => do
    let routes ← entries.mapM fun entry => watchRoutesForRegistered schema entry.2
    return routes.flatten
  | .insert _ value => watchRoutesForRegistered schema value
  | .remove _ oldValue => watchRoutesForRegistered schema oldValue
  | .update _ oldValue newValue => do
    let old ← watchRoutesForRegistered schema oldValue
    let new ← watchRoutesForRegistered schema newValue
    return old ++ new
  | .batch changes => watchRoutesForDiffs schema changes

def watchRoutesForDiffs (schema : GraphSchema) :
    List GraphWatchDiff → Except String (List GraphWatchRoute)
  | [] => pure []
  | change :: rest => do
    let first ← watchRoutesForDiff schema change
    let others ← watchRoutesForDiffs schema rest
    return first ++ others
end

/-- The diff of one settled change of an edge. -/
def watchDiffFromChange (schema : GraphSchema) (old new : Option Item) : Option GraphWatchDiff :=
  match new.or old with
  | none => none
  | some item =>
    if (schema.registration item.entityType).isNone then none
    else
      match old, new with
      | none, some value => some (.insert value.id value)
      | some oldValue, none => some (.remove oldValue.id oldValue)
      | some oldValue, some newValue => some (.update newValue.id oldValue newValue)
      | none, none => none

/-! ### What a watch makes of a diff -/

section
variable (registration : EdgeRegistration) (matchesEndpoints : EdgeEndpoints → Bool)

def itemMatches (item : Item) : Bool :=
  match registration.extract item with
  | .ok endpoints => matchesEndpoints endpoints
  | .error _ => false

mutual
def watchDiffMatching : GraphWatchDiff → Option GraphWatchDiff
  | .initial entries =>
    some (.initial (entries.filter fun entry => itemMatches registration matchesEndpoints entry.2))
  | .insert key value =>
    if itemMatches registration matchesEndpoints value then some (.insert key value) else none
  | .remove key oldValue =>
    if itemMatches registration matchesEndpoints oldValue then some (.remove key oldValue) else none
  | .update key oldValue newValue =>
    match itemMatches registration matchesEndpoints oldValue,
      itemMatches registration matchesEndpoints newValue with
    | true, true => some (.update key oldValue newValue)
    | true, false => some (.remove key oldValue)
    | false, true => some (.insert key newValue)
    | false, false => none
  | .batch changes =>
    let changes := watchDiffsMatching changes
    if changes.isEmpty then none else some (.batch changes)

def watchDiffsMatching : List GraphWatchDiff → List GraphWatchDiff
  | [] => []
  | change :: rest => (watchDiffMatching change).toList ++ watchDiffsMatching rest
end

mutual
def applyWatchCountDiff : GraphWatchDiff → Nat → Nat
  | .initial entries, _ =>
    (entries.filter fun entry => itemMatches registration matchesEndpoints entry.2).length
  | .insert _ value, count =>
    if itemMatches registration matchesEndpoints value then count + 1 else count
  | .remove _ oldValue, count =>
    if itemMatches registration matchesEndpoints oldValue then count - 1 else count
  | .update _ oldValue newValue, count =>
    match itemMatches registration matchesEndpoints oldValue,
      itemMatches registration matchesEndpoints newValue with
    | true, false => count - 1
    | false, true => count + 1
    | true, true => count
    | false, false => count
  | .batch changes, count => applyWatchCountDiffs changes count

def applyWatchCountDiffs : List GraphWatchDiff → Nat → Nat
  | [], count => count
  | change :: rest, count => applyWatchCountDiffs rest (applyWatchCountDiff change count)
end

end

namespace GraphWatch

def matchesEndpoints (watch : GraphWatch) : EdgeEndpoints → Bool :=
  watch.selection.matchesEndpoints watch.registration

def routes (watch : GraphWatch) : List GraphWatchRoute := watch.selection.routes watch.registration

/-- What the callback of a watch does with a diff. -/
def receive (watch : GraphWatch) (diff : GraphWatchDiff) : GraphWatch :=
  match watch.output with
  | .map entries =>
    match watchDiffMatching watch.registration watch.matchesEndpoints diff with
    | some matching => { watch with output := .map (matching.apply entries) }
    | none => watch
  | .count count =>
    { watch with
      output := .count (applyWatchCountDiff watch.registration watch.matchesEndpoints diff count) }

end GraphWatch

/-- Every watch on one of the routes receives the diff, once. -/
def dispatch (routes : List GraphWatchRoute) (diff : GraphWatchDiff) (watches : List GraphWatch) :
    List GraphWatch :=
  watches.map fun watch =>
    if watch.routes.any fun route => route ∈ routes then watch.receive diff else watch

/-- A watch that selects nothing is not registered anywhere. -/
def hasWatchSubscribers (watches : List GraphWatch) : Bool :=
  watches.any fun watch => !watch.routes.isEmpty

def publishWatchDiff (schema : GraphSchema) (diff : GraphWatchDiff) (watches : List GraphWatch) :
    Except String (List GraphWatch) := do
  let routes ← watchRoutesForDiff schema diff
  return dispatch routes diff watches

/-- Route one settled canonical change only to the watches it could concern. -/
def publishWatchChange (schema : GraphSchema) (old new : Option Item) (watches : List GraphWatch) :
    Except String (List GraphWatch) :=
  if !hasWatchSubscribers watches then pure watches
  else
    match watchDiffFromChange schema old new with
    | some diff => publishWatchDiff schema diff watches
    | none => pure watches

/-- Route one settled canonical batch once per affected watch. -/
def publishWatchChanges (schema : GraphSchema) (changes : List (Option Item × Option Item))
    (watches : List GraphWatch) : Except String (List GraphWatch) :=
  if !hasWatchSubscribers watches then pure watches
  else
    match changes.filterMap fun change => watchDiffFromChange schema change.1 change.2 with
    | [] => pure watches
    | [diff] => publishWatchDiff schema diff watches
    | diffs => publishWatchDiff schema (.batch diffs) watches

end Myko

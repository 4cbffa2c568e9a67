import Myko.Lib.MapDiff
import Myko.Search.Typed.Score
import Myko.Search.Typed.SearchableText

/-!
The index of one entity type. It holds a record for each slot and, for each token, the slots that have it;
the slots of removed entities stay until the index is compacted.
-/

namespace Myko.Search.Typed

structure SearchIndex (Id : Type) where
  interner : IdInterner Id
  live : OrdSet Nat
  /-- The record of each slot. -/
  entities : List (Option EntityRecord)
  /-- The slots of each token. -/
  exact : Text → Option (OrdSet Nat)
  deadCount : Nat

structure SearchOptions where
  limit : Nat
  maxEditDistance : Nat
  includeSubsequence : Bool
  includeTypo : Bool

structure Hit (Id : Type) where
  id : Id
  score : Score
  matchedField : Nat
  deriving DecidableEq

/-- A slot that is found, with its score and the field it is found in. -/
abbrev Found := Nat × Score × Nat

/-- The functions of other libraries that a search calls. -/
structure Matching where
  toLowercase : Text → Text
  /-- The score of a text for a query, where it has one. -/
  fuzzyMatch : Text → Text → Option Nat
  levenshtein : Text → Text → Nat

namespace SearchIndex

variable {Id : Type}

def new : SearchIndex Id where
  interner := .new
  live := ∅
  entities := []
  exact _ := none
  deadCount := 0

def recordAt (index : SearchIndex Id) (slot : Nat) : Option EntityRecord := index.entities[slot]?.join

def addPosting (slot : Nat) (exact : Text → Option (OrdSet Nat)) (token : Text) : Text → Option (OrdSet Nat) :=
  Function.update exact token (some (((exact token).getD ∅).insert slot))

def dropPosting (slot : Nat) (exact : Text → Option (OrdSet Nat)) (token : Text) : Text → Option (OrdSet Nat) :=
  match exact token with
  | some bitmap => Function.update exact token (some (bitmap.erase slot))
  | none => exact

def purgeTokens (index : SearchIndex Id) (slot : Nat) : SearchIndex Id :=
  match index.recordAt slot with
  | none => index
  | some record =>
    { index with exact := (tokenize record.searchableText).foldl (dropPosting slot) index.exact }

/-- The records with one more, behind empty slots if need be. -/
def placed (entities : List (Option EntityRecord)) (slot : Nat) (record : EntityRecord) :
    List (Option EntityRecord) :=
  (entities ++ List.replicate (slot + 1 - entities.length) none).set slot (some record)

section
variable {T : Type} [DecidableEq Id] [Searchable T Id]

def insert (index : SearchIndex Id) (entity : T) : SearchIndex Id :=
  let id := Searchable.typedId entity
  let index :=
    match index.interner.lookup id with
    | some existingSlot => index.purgeTokens existingSlot
    | none => index
  let interned := index.interner.intern id
  let internalId := interned.2
  let record := EntityRecord.ofFields internalId (Searchable.searchableFields entity)
  { index with
    interner := interned.1
    entities := placed index.entities internalId record
    exact := (tokenize record.searchableText).foldl (addPosting internalId) index.exact
    live := index.live.insert internalId }

def update (index : SearchIndex Id) (entity : T) : SearchIndex Id := index.insert entity

end

section Compaction
variable [DecidableEq Id]

/-- Give the live slots the first numbers, in their order, and forget the others. -/
def compact (index : SearchIndex Id) : SearchIndex Id :=
  let liveIds := index.live.toList
  let numbered := (liveIds.take (u32Max + 1)).zipIdx
  let idRemap := numbered.foldl (fun remap (entry : Nat × Nat) => Function.update remap entry.1 (some entry.2))
    fun _ => none
  { interner := liveIds.foldl (fun interner oldId =>
      match index.interner.idOf oldId with
      | some id => (interner.intern id).1
      | none => interner) .new
    live := (List.range (min liveIds.length u32Max)).foldl (fun live slot => live.insert slot) ∅
    entities := numbered.filterMap fun entry =>
      (index.recordAt entry.1).map fun record => some { record with internalId := entry.2 }
    exact := fun token => (index.exact token).bind fun bitmap =>
      let renumbered := (bitmap.toList.filterMap idRemap).foldl (fun (slots : OrdSet Nat) slot => slots.insert slot) ∅
      if renumbered.isEmpty then none else some renumbered
    deadCount := 0 }

/-- `exceeds` compares, as floating-point numbers, the share of dead slots with the threshold. -/
def shouldCompact (exceeds : Nat → Nat → Bool) (index : SearchIndex Id) : Bool :=
  let total := index.entities.length
  decide (total > 1000) && exceeds index.deadCount total

def remove (exceeds : Nat → Nat → Bool) (index : SearchIndex Id) (id : Id) : SearchIndex Id :=
  match index.interner.lookup id with
  | some internalId =>
    if index.live.contains internalId then
      let index := { index with
        live := index.live.erase internalId
        deadCount := min (index.deadCount + 1) (2 ^ 64 - 1) }
      if index.shouldCompact exceeds then index.compact else index
    else index
  | none => index

end Compaction

/-! ### Searching -/

section Searching
variable (matching : Matching) (index : SearchIndex Id) (lowerQuery : Text)

/-- Every live slot that has the query as one of its tokens. -/
def exactScan : List Found :=
  match index.exact lowerQuery with
  | none => []
  | some bitmap =>
    (bitmap.toList.filter index.live.contains).filterMap fun internalId =>
      (index.recordAt internalId).map fun record =>
        (internalId, .exact, ((find lowerQuery record.searchableText).map record.fieldOfPosition).getD 0)

def candidates : List EntityRecord :=
  index.entities.filterMap fun slot => slot.filter fun record => index.live.contains record.internalId

def subsequenceHit (record : EntityRecord) : Option (Score × Nat) :=
  (matching.fuzzyMatch record.searchableText lowerQuery).map fun score =>
    let matchedField := (lowerQuery.head?.bind fun c => find [c] record.searchableText).map record.fieldOfPosition
    (.subsequence score, matchedField.getD 0)

def subsequenceScan : List Found :=
  index.candidates.filterMap fun record =>
    (subsequenceHit matching lowerQuery record).map fun hit => (record.internalId, hit)

/-- The better of what is found so far and one more token. -/
def typoToken (maxDist : Nat) (record : EntityRecord) (best : Option (Nat × Nat)) (token : Text) :
    Option (Nat × Nat) :=
  if max lowerQuery.length token.length - min lowerQuery.length token.length > maxDist then best
  else
    let dist := matching.levenshtein lowerQuery token
    if dist > maxDist then best
    else if dist = 0 then best
    else
      let field := ((find token record.searchableText).map record.fieldOfPosition).getD 0
      match best with
      | none => some (dist, field)
      | some (current, _) => if dist < current then some (dist, field) else best

def typoHit (maxDist : Nat) (record : EntityRecord) : Option (Score × Nat) :=
  ((tokenize record.searchableText).foldl (typoToken matching lowerQuery maxDist record) none).map fun best =>
    (.typo best.1, best.2)

def typoScan (maxDist : Nat) : List Found :=
  if maxDist = 0 then []
  else
    index.candidates.filterMap fun record =>
      (typoHit matching lowerQuery maxDist record).map fun hit => (record.internalId, hit)

/-- Keep what is found for a slot unless something with a lower score is there. -/
def mergeHit (hits : OrdMap Nat (Score × Nat)) (found : Found) : OrdMap Nat (Score × Nat) :=
  match hits[found.1]? with
  | none => hits.insert found.1 found.2
  | some known => if found.2.1.cmp known.1 = .gt then hits.insert found.1 found.2 else hits

/-- What the tiers find: the later ones are skipped once there are as many hits as are asked for. -/
def hits (opts : SearchOptions) : OrdMap Nat (Score × Nat) :=
  let hits : OrdMap Nat (Score × Nat) := OrdMap.insertMany ∅ (index.exactScan lowerQuery)
  let hits :=
    if opts.includeSubsequence ∧ hits.size < opts.limit then
      (index.subsequenceScan matching lowerQuery).foldl mergeHit hits
    else hits
  if opts.includeTypo ∧ hits.size < opts.limit then
    (index.typoScan matching lowerQuery opts.maxEditDistance).foldl mergeHit hits
  else hits

def toHit (found : Found) : Option (Hit Id) :=
  (index.interner.idOf found.1).map fun id => ⟨id, found.2.1, found.2.2⟩

end Searching

/-- The first hits when the better scores come first, where `iterate` is the order in which the hash map of the
hits is gone through. -/
def ranked (iterate : List Found → List Found) (index : SearchIndex Id) (hits : OrdMap Nat (Score × Nat))
    (limit : Nat) : List (Hit Id) :=
  let sorted := (iterate hits.toList).mergeSort fun a b => (b.2.1.cmp a.2.1).isLE
  (sorted.take limit).filterMap index.toHit

def search (matching : Matching) (iterate : List Found → List Found) (index : SearchIndex Id) (query : Text)
    (opts : SearchOptions) : List (Hit Id) :=
  if query.isEmpty ∨ opts.limit = 0 then []
  else index.ranked iterate (index.hits matching (matching.toLowercase query) opts) opts.limit

/-- What a search can return. -/
def Returns (matching : Matching) (index : SearchIndex Id) (query : Text) (opts : SearchOptions)
    (result : List (Hit Id)) : Prop :=
  ∃ iterate : List Found → List Found,
    (∀ found, (iterate found).Perm found) ∧ index.search matching iterate query opts = result

end SearchIndex

/-! ### Operations -/

inductive Operation (T Id : Type) where
  | insert (entity : T)
  | update (entity : T)
  | remove (id : Id)
  | compact

section
variable {T Id : Type} [DecidableEq Id] [Searchable T Id] (exceeds : Nat → Nat → Bool)

def SearchIndex.apply (index : SearchIndex Id) : Operation T Id → SearchIndex Id
  | .insert entity => index.insert entity
  | .update entity => index.update entity
  | .remove id => index.remove exceeds id
  | .compact => index.compact

def indexAfter (operations : List (Operation T Id)) : SearchIndex Id :=
  operations.foldl (.apply exceeds) .new

def Operation.onContents (contents : Id → Option T) : Operation T Id → Id → Option T
  | .insert entity | .update entity => Function.update contents (Searchable.typedId entity) (some entity)
  | .remove id => Function.update contents id none
  | .compact => contents

/-- The entities that were inserted and not removed since, each as it was inserted last. -/
def contentsAfter (operations : List (Operation T Id)) : Id → Option T :=
  operations.foldl Operation.onContents fun _ => none

/-- An operation finds room in the slots, of which there are 2³²: an unknown id finds one that is not in use, a
compaction finds fewer live slots. -/
def Operation.HasRoom (index : SearchIndex Id) : Operation T Id → Prop
  | .insert entity | .update entity =>
    index.interner.lookup (Searchable.typedId entity) = none → index.interner.reverse.length < 2 ^ 32
  | .remove _ => True
  | .compact => index.live.size < 2 ^ 32

/-- Every operation of a sequence finds room. -/
def HaveRoom (operations : List (Operation T Id)) : Prop :=
  ∀ earlier operation later, operations = earlier ++ operation :: later →
    operation.HasRoom (indexAfter exceeds earlier)

end

end Myko.Search.Typed

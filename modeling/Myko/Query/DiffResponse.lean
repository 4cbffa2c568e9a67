import Myko.Lib.FlatDiff
import Myko.Query.Replica

/-!
The response made of one diff: its upserts and its deletes, and both in order. A client holds what the diff leaves
exactly when flattening the diff forgets nothing that counts.
-/

namespace Myko.Query

open OrdMap KeyedLog

/-- The lists that `collect_query_change` fills. -/
structure CollectedChanges where
  upserts : List Item
  deletes : List String
  changes : List ClientQueryChange

namespace CollectedChanges

def upsert (out : CollectedChanges) (item : Item) : CollectedChanges :=
  { out with changes := out.changes ++ [.upsert item], upserts := out.upserts ++ [item] }

def delete (out : CollectedChanges) (id : String) : CollectedChanges :=
  { out with deletes := out.deletes ++ [id], changes := out.changes ++ [.delete id] }

end CollectedChanges

mutual
def collectQueryChange : ItemDiff → CollectedChanges → CollectedChanges
  | .initial entries, out => entries.foldl (fun out entry => out.upsert entry.2) out
  | .insert _ value, out => out.upsert value
  | .update _ _ newValue, out => out.upsert newValue
  | .remove key _, out => out.delete key
  | .batch changes, out => collectQueryChanges changes out

def collectQueryChanges : List ItemDiff → CollectedChanges → CollectedChanges
  | [], out => out
  | change :: rest, out => collectQueryChanges rest (collectQueryChange change out)
end

def QueryResponse.fromDiff (diff : ItemDiff) (tx : String) (sequence : Nat) : QueryResponse :=
  let out := collectQueryChange diff ⟨[], [], []⟩
  { tx, sequence, changes := out.changes, upserts := out.upserts, deletes := out.deletes, totalCount := none
    window := none }

/-- What a client starts from: a response that is a replacement clears its map. -/
def cleared (m : ItemMap) (sequence : Nat) : ItemMap := if sequence = 0 then ∅ else m

def applyChange (m : ItemMap) : ClientQueryChange → ItemMap
  | .upsert item => m.insert item.id item
  | .delete id => m.erase id
  | .windowOrder _ _ _ => m

/-- The map after the changes of a response, one after the other. -/
def replayedChanges (m : ItemMap) (response : QueryResponse) : ItemMap :=
  response.changes.foldl applyChange (cleared m response.sequence)

/-! ### What is collected -/

/-- The writes of a diff, as they are collected. -/
def asChange (write : String × Option Item) : ClientQueryChange :=
  match write.2 with
  | some item => .upsert item
  | none => .delete write.1

def CollectedChanges.add (out : CollectedChanges) (writes : List (String × Option Item)) : CollectedChanges :=
  ⟨out.upserts ++ (puts writes).map Prod.snd, out.deletes ++ removals writes, out.changes ++ writes.map asChange⟩

theorem add_append (out : CollectedChanges) (first rest : List (String × Option Item)) :
    out.add (first ++ rest) = (out.add first).add rest := by
  simp [CollectedChanges.add, puts, removals]

theorem upsert_eq (out : CollectedChanges) (id : String) (item : Item) : out.upsert item = out.add [(id, some item)] := by
  simp [CollectedChanges.upsert, CollectedChanges.add, puts, removals, asChange]

theorem delete_eq (out : CollectedChanges) (id : String) : out.delete id = out.add [(id, none)] := by
  simp [CollectedChanges.delete, CollectedChanges.add, puts, removals, asChange]

theorem add_nil (out : CollectedChanges) : out.add [] = out := by
  simp [CollectedChanges.add, puts, removals]

theorem add_entries (out : CollectedChanges) (entries : List (String × Item)) :
    entries.foldl (fun out entry => out.upsert entry.2) out =
      out.add (entries.map fun entry => (entry.1, some entry.2)) := by
  induction entries generalizing out with
  | nil => exact (add_nil out).symm
  | cons entry rest ih =>
    rw [List.foldl_cons, ih, List.map_cons, ← List.singleton_append, add_append, upsert_eq out entry.1]

mutual
theorem collectQueryChange_eq : ∀ (diff : ItemDiff) (out : CollectedChanges),
    collectQueryChange diff out = out.add diff.told
  | .initial entries, out => add_entries out entries
  | .insert key value, out => upsert_eq out key value
  | .update key _ newValue, out => upsert_eq out key newValue
  | .remove key _, out => delete_eq out key
  | .batch changes, out => collectQueryChanges_eq changes out

theorem collectQueryChanges_eq : ∀ (changes : List ItemDiff) (out : CollectedChanges),
    collectQueryChanges changes out = out.add (MapDiff.allTold changes)
  | [], out => (add_nil out).symm
  | change :: rest, out => by
    rw [collectQueryChanges, collectQueryChange_eq change, collectQueryChanges_eq rest, MapDiff.allTold, add_append]
end

theorem decoded_puts {writes : List (String × Option Item)}
    (keyed : ∀ id item, (id, some item) ∈ writes → item.id = id) :
    decodeMapUpserts ((puts writes).map Prod.snd) = puts writes := by
  induction writes with
  | nil => rfl
  | cons write rest ih =>
    have later := ih fun id item member => keyed id item (List.mem_cons_of_mem _ member)
    obtain ⟨id, value⟩ := write
    cases value with
    | none => exact later
    | some item =>
      have own := keyed id item List.mem_cons_self
      subst own
      exact congrArg ((item.id, item) :: ·) later

theorem foldl_asChange {writes : List (String × Option Item)}
    (keyed : ∀ id item, (id, some item) ∈ writes → item.id = id) (m : ItemMap) :
    (writes.map asChange).foldl applyChange m = writeAll m writes := by
  induction writes generalizing m with
  | nil => rfl
  | cons write rest ih =>
    have later := ih fun id item member => keyed id item (List.mem_cons_of_mem _ member)
    obtain ⟨id, value⟩ := write
    cases value with
    | none => exact later (m.erase id)
    | some item =>
      have own := keyed id item List.mem_cons_self
      subst own
      exact later (m.insert item.id item)

/-- The diff tells the client enough: what of the map is not overwritten is as the client has it. -/
structure Encodable (diff : ItemDiff) (m : ItemMap) (sequence : Nat) : Prop where
  /-- No id is removed after it is upserted, unless it is upserted again. -/
  settled : Settled diff.told
  /-- Where the diff starts over inside, an id that it does not write from there on is neither upserted before
  nor left in the map of the client. -/
  gone : diff.reading.startsOver = true → ∀ id, id ∉ diff.reading.since.map Prod.fst →
    (∀ item, (id, some item) ∉ diff.reading.before) ∧ (id ∈ cleared m sequence → id ∈ diff.reading.before.map Prod.fst)
  /-- A replacement that does not start over writes every id. -/
  kept : diff.reading.startsOver = false → sequence = 0 → ∀ id, id ∈ m → id ∈ diff.reading.since.map Prod.fst

theorem survives_iff {diff : ItemDiff} {m : ItemMap} {sequence : Nat} :
    diff.Survives (cleared m sequence) m ↔ Encodable diff m sequence := by
  constructor
  · rintro ⟨settled, gone, kept⟩
    refine ⟨settled, gone, fun keeps zero id member => ?_⟩
    by_contra untouched
    have same := kept keeps id untouched
    rw [cleared, if_pos zero, Std.ExtTreeMap.getElem?_empty] at same
    rw [Std.ExtTreeMap.mem_iff_isSome_getElem?, ← same] at member
    cases member
  · rintro ⟨settled, gone, kept⟩
    refine ⟨settled, gone, fun keeps id untouched => ?_⟩
    unfold cleared
    split
    · next zero =>
      have absent : id ∉ m := fun member => untouched (kept keeps zero id member)
      rw [Std.ExtTreeMap.getElem?_eq_none absent, Std.ExtTreeMap.getElem?_empty]
    · rfl

/-- A client that holds the map of the diff holds what the diff leaves, by the deletes and upserts of the response and by
its changes in order, exactly when the response tells enough. -/
theorem response_encodes_iff {diff : ItemDiff} (keyed : diff.AllPuts fun id item => item.id = id) (m : ItemMap)
    (tx : String) (sequence : Nat) :
    (replayed m (.fromDiff diff tx sequence) = diff.apply m ∧
      replayedChanges m (.fromDiff diff tx sequence) = diff.apply m) ↔ Encodable diff m sequence := by
  have own := MapDiff.puts_told diff keyed
  have collected : collectQueryChange diff ⟨[], [], []⟩ =
      ⟨(puts diff.told).map Prod.snd, removals diff.told, diff.told.map asChange⟩ := collectQueryChange_eq diff _
  have unordered : replayed m (.fromDiff diff tx sequence) =
      insertMany (removeMany (cleared m sequence) (removals diff.told)) (puts diff.told) := by
    unfold replayed QueryResponse.fromDiff
    rw [collected]
    dsimp only
    rw [decoded_puts own]
    rfl
  have ordered : replayedChanges m (.fromDiff diff tx sequence) = writeAll (cleared m sequence) diff.told := by
    unfold replayedChanges QueryResponse.fromDiff
    rw [collected]
    exact foldl_asChange own _
  rw [unordered, ordered, ← survives_iff]
  exact MapDiff.flat_iff_survives diff (cleared m sequence) m

/-- One batch puts a row and takes it away; the client keeps the row. -/
def putAndRemoved : ItemDiff := .batch [.insert "a" (Sample.row "a"), .remove "a" (Sample.row "a")]

theorem removed_row_kept : putAndRemoved.TrueOf (∅ : ItemMap) ∧
    (putAndRemoved.apply (∅ : ItemMap))["a"]? = none ∧
      (replayed ∅ (.fromDiff putAndRemoved "tx" 1))["a"]? = some (Sample.row "a") := by
  refine ⟨⟨?_, ?_, trivial⟩, by decide +kernel, by decide +kernel⟩
  · show (∅ : ItemMap)["a"]? = none
    decide +kernel
  · show ((∅ : ItemMap).insert "a" (Sample.row "a"))["a"]? = some (Sample.row "a")
    decide +kernel

theorem response_encodes_sample : (replayed ∅ (.fromDiff putAndRemoved "tx" 1) = putAndRemoved.apply ∅ ∧
    replayedChanges ∅ (.fromDiff putAndRemoved "tx" 1) = putAndRemoved.apply ∅) ↔ Encodable putAndRemoved ∅ 1 :=
  response_encodes_iff (show putAndRemoved.AllPuts _ from ⟨rfl, trivial, trivial⟩) ∅ "tx" 1

end Myko.Query

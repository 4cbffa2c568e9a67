import Myko.Search.Typed.RankedSearch

/-!
The typed index of every sequence of operations: its postings are those of the live entities, and a search
returns the best of them.
-/

namespace Myko.Search.Typed

open SearchIndex Ranking

variable {T Id : Type} [DecidableEq Id] [Searchable T Id] {exceeds : Nat → Nat → Bool} {matching : Matching}
variable {index : SearchIndex Id} {rows : List T} {contents : Id → Option T} {id : Id} {token query : Text}
variable {opts : SearchOptions} {result : List (Hit Id)} {operations : List (Operation T Id)}

/-- A live slot of the id is posted under the token. -/
def LivePosting (index : SearchIndex Id) (token : Text) (id : Id) : Prop :=
  ∃ slot ∈ index.live, index.interner.idOf slot = some id ∧ Posted index.exact token slot

/-- An index stands for the entities that are live in it, before and after a compaction. -/
structure DenotesLiveSet (exceeds : Nat → Nat → Bool) (matching : Matching) (index : SearchIndex Id)
    (contents : Id → Option T) : Prop where
  postings : ∀ token id, LivePosting index token id ↔ ∃ entity, contents id = some entity ∧ HasToken entity token
  slots : ∀ slot ∈ index.live, ∃ entity, contents (Searchable.typedId entity) = some entity ∧
    index.interner.idOf slot = some (Searchable.typedId entity) ∧
    index.recordAt slot = some (recordOf slot entity)
  lookups : ∀ id, (contents id).isSome = true → ∃ slot ∈ index.live, index.interner.lookup id = some slot
  distinct : ∀ id other slot, index.interner.lookup id = some slot → index.interner.lookup other = some slot →
    id = other
  compaction : index.live.size < 2 ^ 32 → ∀ query opts result,
    Returns matching index.compact query opts result ↔ Returns matching index query opts result
  /-- The compaction that a removal sets off changes no search either. -/
  removal : ∀ id query opts result, Returns matching (index.remove exceeds id) query opts result ↔
    Returns matching (index.remove (fun _ _ => false) id) query opts result

theorem Denotes.returns_compact (denotes : Denotes index rows contents) (room : index.live.size < 2 ^ 32) :
    Returns matching index.compact query opts result ↔ Returns matching index query opts result := by
  rw [returns_iff denotes.holds, returns_iff (denotes.holds.compact room), denotes.holds.liveRows_compact room]

theorem Denotes.returns_remove (denotes : Denotes index rows contents) :
    Returns matching (index.remove exceeds id) query opts result ↔
      Returns matching (index.remove (fun _ _ => false) id) query opts result := by
  unfold SearchIndex.remove
  cases known : index.interner.lookup id with
  | none => exact Iff.rfl
  | some slot =>
    by_cases live : index.live.contains slot = true
    · have erased := denotes.erase known (min (index.deadCount + 1) (2 ^ 64 - 1))
      dsimp only
      rw [if_pos live]
      have kept : ∀ after : SearchIndex Id, after.shouldCompact (fun _ _ => false) = false := fun after =>
        Bool.and_false _
      rw [kept, if_neg Bool.false_ne_true]
      split
      · exact erased.returns_compact (denotes.room_of_erase live)
      · exact Iff.rfl
    · dsimp only
      rw [if_neg live, if_neg live]

theorem Denotes.denotesLiveSet (denotes : Denotes index rows contents) :
    DenotesLiveSet exceeds matching index contents where
  postings token id := by
    unfold LivePosting
    constructor
    · rintro ⟨slot, live, named, posted⟩
      obtain ⟨row, here, has⟩ := (denotes.holds.posted token slot).mp posted
      rw [denotes.holds.interned.idOf, List.getElem?_map, here, Option.map_some, Option.some.injEq] at named
      exact ⟨row, (denotes.contents id row).mpr ⟨mem_liveRows.mpr ⟨slot, live, here⟩, named⟩, has⟩
    · rintro ⟨entity, held, has⟩
      obtain ⟨live, rfl⟩ := (denotes.contents id entity).mp held
      obtain ⟨slot, live, here⟩ := mem_liveRows.mp live
      refine ⟨slot, live, ?_, (denotes.holds.posted token slot).mpr ⟨entity, here, has⟩⟩
      rw [denotes.holds.interned.idOf, List.getElem?_map, here, Option.map_some]
  slots slot live := by
    obtain ⟨entity, here⟩ := denotes.holds.live_total slot (OrdSet.mem_toList.mpr live)
    refine ⟨entity, (denotes.contents _ entity).mpr ⟨mem_liveRows.mpr ⟨slot, live, here⟩, rfl⟩, ?_, ?_⟩
    · rw [denotes.holds.interned.idOf, List.getElem?_map, here, Option.map_some]
    · rw [denotes.holds.recordAt, here, Option.map_some]
  lookups id held := by
    obtain ⟨entity, held⟩ := Option.isSome_iff_exists.mp held
    obtain ⟨live, rfl⟩ := (denotes.contents id entity).mp held
    obtain ⟨slot, live, here⟩ := mem_liveRows.mp live
    exact ⟨slot, live, denotes.holds.lookup here⟩
  distinct id other slot here there := by
    obtain ⟨entity, at_slot, rfl⟩ := denotes.holds.of_lookup here
    obtain ⟨entity', at_slot', rfl⟩ := denotes.holds.of_lookup there
    obtain rfl := Option.some.inj (at_slot.symm.trans at_slot')
    rfl
  compaction room _ _ _ := denotes.returns_compact room
  removal _ _ _ _ := denotes.returns_remove

/-- After every sequence of operations that find room for their slots, the index stands for the entities that
were inserted and not removed since. -/
theorem index_denotes_live_set (exceeds : Nat → Nat → Bool) (matching : Matching)
    (operations : List (Operation T Id)) (room : HaveRoom exceeds operations) :
    DenotesLiveSet exceeds matching (indexAfter exceeds operations) (contentsAfter operations) := by
  obtain ⟨rows, -, denotes⟩ := denotes_after room
  exact denotes.denotesLiveSet

/-! ### Targets -/

/-- An entity type with two searched fields. -/
structure Target where
  id : Nat
  name : Text
  category : Text

instance : Searchable Target Nat where
  typedId := Target.id
  searchableFields target := [target.name, target.category]

/-- The least number of insertions, deletions and replacements between two texts. -/
def editDistance : Text → Text → Nat
  | [], second => second.length
  | first, [] => first.length
  | c :: first, d :: second =>
    if c = d then editDistance first second
    else 1 + min (editDistance first second) (min (editDistance first (d :: second)) (editDistance (c :: first) second))
termination_by first second => first.length + second.length

/-- A matcher that finds the letters of the query in their order. -/
def plainMatching : Matching where
  toLowercase := makeAsciiLowercase
  fuzzyMatch text needle := if needle.isSublist text then some needle.length else none
  levenshtein := editDistance

def mixer : Target := ⟨1, "Mixer A".toList, "audio".toList⟩

/-- A target that is updated, removed and inserted again, and a compaction. -/
def reinserted : List (Operation Target Nat) :=
  [.insert mixer, .update { mixer with name := "Mixer B".toList }, .remove 1, .insert mixer, .compact]

theorem index_denotes_live_set_sample :
    DenotesLiveSet (fun dead total => decide (total < 2 * dead)) plainMatching
      (indexAfter (fun dead total => decide (total < 2 * dead)) reinserted) (contentsAfter reinserted) :=
  index_denotes_live_set _ _ reinserted (haveRoom_of_length (by decide))

/-- Targets of one name. -/
def crowd (name : Text) (n : Nat) : List (Operation Target Nat) :=
  (List.range n).map fun id => .insert ⟨id, name, []⟩

structure Crowded (n : Nat) (index : SearchIndex Nat) : Prop where
  none_free : index.interner.freeList = []
  reverse : index.interner.reverse = (List.range n).map some
  lookups : ∀ id, index.interner.lookup id = if id < n then some (min id u32Max) else none
  live : ∀ id < n, min id u32Max ∈ index.live
  bound : ∀ slot ∈ index.live, slot ≤ u32Max

variable {name : Text} {n : Nat}

theorem crowded (name : Text) (n : Nat) : Crowded n (indexAfter (fun _ _ => false) (crowd name n)) := by
  induction n with
  | zero =>
    refine ⟨rfl, rfl, fun _ => rfl, fun id short => absurd short (Nat.not_lt_zero id), fun slot listed => ?_⟩
    exact absurd listed Std.ExtTreeSet.not_mem_empty
  | succ n ih =>
    rw [crowd, List.range_succ, List.map_append, indexAfter, List.foldl_append, ← crowd, ← indexAfter]
    generalize indexAfter (fun _ _ => false) (crowd name n) = index at ih
    have unknown : index.interner.lookup n = none := by rw [ih.lookups, if_neg (Nat.lt_irrefl n)]
    show Crowded (n + 1) (index.insert (⟨n, name, []⟩ : Target))
    have interned : index.interner.intern n =
        (⟨Function.update index.interner.forward n (some (min n u32Max)), index.interner.reverse ++ [some n],
          index.interner.freeList⟩, min n u32Max) := by
      unfold IdInterner.intern
      rw [show index.interner.forward n = none from unknown]
      simp only [ih.none_free, ih.reverse, List.length_map, List.length_range]
    have inserted : (index.insert (⟨n, name, []⟩ : Target)).interner = (index.interner.intern n).1 ∧
        (index.insert (⟨n, name, []⟩ : Target)).live = index.live.insert (index.interner.intern n).2 := by
      simp only [SearchIndex.insert, Searchable.typedId, unknown, and_self]
    rw [interned] at inserted
    obtain ⟨interner, live⟩ := inserted
    refine ⟨?_, ?_, fun id => ?_, fun id short => ?_, fun slot listed => ?_⟩
    · rw [interner]
      exact ih.none_free
    · rw [interner, List.range_succ, List.map_append, ← ih.reverse]
      rfl
    · rw [interner, IdInterner.lookup]
      dsimp only
      rw [Function.update_apply, ← IdInterner.lookup, ih.lookups]
      rcases Nat.lt_trichotomy id n with before | rfl | behind
      · rw [if_neg (Nat.ne_of_lt before), if_pos before, if_pos (Nat.lt_succ_of_lt before)]
      · rw [if_pos rfl, if_pos (Nat.lt_succ_self id)]
      · rw [if_neg (Nat.ne_of_gt behind), if_neg (Nat.lt_asymm behind), if_neg (Nat.not_lt_of_le behind)]
    · rw [live, OrdSet.mem_insert]
      rcases Nat.lt_succ_iff_lt_or_eq.mp short with before | rfl
      · exact .inr (ih.live id before)
      · exact .inl rfl
    · rw [live] at listed
      rcases OrdSet.mem_insert.mp listed with rfl | listed
      · exact Nat.min_le_right n u32Max
      · exact ih.bound slot listed

theorem contents_crowd {id : Nat} (short : id < n) :
    contentsAfter (crowd name n) id = some ⟨id, name, []⟩ := by
  induction n with
  | zero => cases short
  | succ n ih =>
    rw [crowd, List.range_succ, List.map_append, contentsAfter, List.foldl_append, ← crowd, ← contentsAfter]
    show Function.update (contentsAfter (crowd name n)) n (some (⟨n, name, []⟩ : Target)) id = _
    rw [Function.update_apply]
    split
    · next same => rw [same]
    · next other => exact ih (Nat.lt_of_le_of_ne (Nat.le_of_lt_succ short) other)

theorem u32Max_lt : u32Max < 2 ^ 32 := by decide

theorem crowd_shares (many : 2 ^ 32 < n) :
    ∃ slot ∈ (indexAfter (fun _ _ => false) (crowd name n)).live, ∃ id other, id ≠ other ∧
      (contentsAfter (crowd name n) id).isSome = true ∧ (contentsAfter (crowd name n) other).isSome = true ∧
      (indexAfter (fun _ _ => false) (crowd name n)).interner.lookup id = some slot ∧
      (indexAfter (fun _ _ => false) (crowd name n)).interner.lookup other = some slot := by
  have full := crowded name n
  have few : u32Max < n := Nat.lt_trans u32Max_lt many
  refine ⟨u32Max, ?_, u32Max, 2 ^ 32, Nat.ne_of_lt u32Max_lt, ?_, ?_, ?_, ?_⟩
  · have shared := full.live u32Max few
    rwa [Nat.min_self] at shared
  · rw [contents_crowd few, Option.isSome_some]
  · rw [contents_crowd many, Option.isSome_some]
  · rw [full.lookups, if_pos few, Nat.min_self]
  · rw [full.lookups, if_pos many, Nat.min_eq_right (Nat.le_of_lt u32Max_lt)]

/-- With 2³² + 1 targets two of them are live in one slot. -/
theorem slots_run_out :
    ∃ slot ∈ (indexAfter (fun _ _ => false) (crowd [] (2 ^ 32 + 1))).live, ∃ id other, id ≠ other ∧
      (contentsAfter (crowd [] (2 ^ 32 + 1)) id).isSome = true ∧
      (contentsAfter (crowd [] (2 ^ 32 + 1)) other).isSome = true ∧
      (indexAfter (fun _ _ => false) (crowd [] (2 ^ 32 + 1))).interner.lookup id = some slot ∧
      (indexAfter (fun _ _ => false) (crowd [] (2 ^ 32 + 1))).interner.lookup other = some slot :=
  crowd_shares (Nat.lt_succ_self (2 ^ 32))

end Myko.Search.Typed

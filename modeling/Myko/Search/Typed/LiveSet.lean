import Myko.Search.Typed.Rows

/-!
A typed index over a sequence of operations: its live rows are the entities that were inserted and not removed
since.
-/

namespace Myko.Search.Typed

variable {T Id : Type} [DecidableEq Id] [Searchable T Id] {exceeds : Nat → Nat → Bool}

/-- An index has these rows, and its live rows are these contents. -/
structure Denotes (index : SearchIndex Id) (rows : List T) (contents : Id → Option T) : Prop where
  holds : index.Holds rows
  room : rows.length ≤ 2 ^ 32
  contents : ∀ id entity, contents id = some entity ↔
    entity ∈ index.liveRows rows ∧ Searchable.typedId entity = id

variable {index : SearchIndex Id} {rows : List T} {contents : Id → Option T} {entity : T} {id : Id} {slot : Nat}
variable {operations : List (Operation T Id)} {operation : Operation T Id}

omit [DecidableEq Id] in
theorem denotes_new : Denotes (.new : SearchIndex Id) ([] : List T) fun _ => none where
  holds := SearchIndex.holds_new
  room := Nat.zero_le _
  contents id entity := by simp [SearchIndex.mem_liveRows]

namespace Denotes

theorem contents_insert (denotes : Denotes index rows contents) {after : SearchIndex Id} {rows' : List T}
    (inserted : ∀ row, row ∈ after.liveRows rows' ↔
      row = entity ∨ (row ∈ index.liveRows rows ∧ Searchable.typedId row ≠ Searchable.typedId entity))
    (id : Id) (row : T) :
    Function.update contents (Searchable.typedId entity) (some entity) id = some row ↔
      row ∈ after.liveRows rows' ∧ Searchable.typedId row = id := by
  rw [inserted, Function.update_apply]
  by_cases same : id = Searchable.typedId entity
  · subst same
    rw [if_pos rfl, Option.some.injEq]
    constructor
    · rintro rfl
      exact ⟨.inl rfl, rfl⟩
    · rintro ⟨rfl | ⟨-, different⟩, equal⟩
      · rfl
      · exact absurd equal different
  · rw [if_neg same, denotes.contents]
    constructor
    · rintro ⟨live, rfl⟩
      exact ⟨.inr ⟨live, same⟩, rfl⟩
    · rintro ⟨rfl | ⟨live, -⟩, rfl⟩
      · exact absurd rfl same
      · exact ⟨live, rfl⟩

theorem insert (denotes : Denotes index rows contents)
    (room : index.interner.lookup (Searchable.typedId entity) = none → index.interner.reverse.length < 2 ^ 32) :
    ∃ rows', rows'.length ≤ rows.length + 1 ∧
      Denotes (index.insert entity) rows' (Function.update contents (Searchable.typedId entity) (some entity)) := by
  have holds := denotes.holds
  cases known : index.interner.lookup (Searchable.typedId entity) with
  | some slot =>
    obtain ⟨old, here, same⟩ := holds.of_lookup known
    refine ⟨rows.set slot entity, by simp, holds.insert_known here same, ?_, ?_⟩
    · rw [List.length_set]
      exact denotes.room
    · exact denotes.contents_insert fun row => holds.mem_inserted_known here same
  | none =>
    have unknown := holds.interned.lookup_eq_none.mp known
    have free := room known
    rw [holds.interned.reverse, List.length_map, List.length_map] at free
    have slots : rows.length ≤ u32Max := Nat.le_pred_of_lt free
    refine ⟨rows ++ [entity], by simp, holds.insert_unknown unknown slots, ?_, ?_⟩
    · rw [List.length_append, List.length_singleton]
      exact free
    · exact denotes.contents_insert fun row => holds.mem_inserted_unknown unknown slots

theorem compact (denotes : Denotes index rows contents) (room : index.live.size < 2 ^ 32) :
    Denotes index.compact (index.liveRows rows) contents where
  holds := denotes.holds.compact room
  room := by
    rw [denotes.holds.length_liveRows, Std.ExtTreeSet.length_toList]
    exact Nat.le_of_lt room
  contents id entity := by
    rw [denotes.holds.liveRows_compact room]
    exact denotes.contents id entity

omit [DecidableEq Id] in
/-- There are no more live slots than rows. -/
theorem live_size (denotes : Denotes index rows contents) : index.live.size ≤ rows.length := by
  rw [← Std.ExtTreeSet.length_toList, ← List.length_range (n := rows.length)]
  refine (List.subperm_of_subset (OrdSet.nodup_toList index.live) fun slot listed => ?_).length_le
  exact List.mem_range.mpr (denotes.holds.live slot (OrdSet.mem_toList.mp listed))

omit [DecidableEq Id] in
theorem length_liveRows (denotes : Denotes index rows contents) : (index.liveRows rows).length ≤ rows.length := by
  rw [denotes.holds.length_liveRows, Std.ExtTreeSet.length_toList]
  exact denotes.live_size

theorem erase (denotes : Denotes index rows contents) (known : index.interner.lookup id = some slot) (deadCount : Nat) :
    Denotes { index with live := index.live.erase slot, deadCount := deadCount } rows
      (Function.update contents id none) := by
  obtain ⟨old, here, named⟩ := denotes.holds.of_lookup known
  refine ⟨⟨denotes.holds.interned, denotes.holds.entities, denotes.holds.posted, fun place live => ?_⟩,
    denotes.room, fun other entity => ?_⟩
  · exact denotes.holds.live place (OrdSet.mem_erase.mp live).2
  · have kept : (∃ place ∈ index.live.erase slot, rows[place]? = some entity) ↔
        (∃ place ∈ index.live, rows[place]? = some entity) ∧ Searchable.typedId entity ≠ id := by
      constructor
      · rintro ⟨place, live, there⟩
        obtain ⟨moved, live⟩ := OrdSet.mem_erase.mp live
        refine ⟨⟨place, live, there⟩, fun same => moved ?_⟩
        exact denotes.holds.slot_unique there here (same.trans named.symm)
      · rintro ⟨⟨place, live, there⟩, different⟩
        refine ⟨place, OrdSet.mem_erase.mpr ⟨?_, live⟩, there⟩
        rintro rfl
        rw [here, Option.some.injEq] at there
        exact different (there ▸ named)
    rw [SearchIndex.mem_liveRows, kept, ← SearchIndex.mem_liveRows, Function.update_apply]
    by_cases same : other = id
    · subst same
      rw [if_pos rfl]
      exact ⟨nofun, fun ⟨⟨_, different⟩, equal⟩ => absurd equal different⟩
    · rw [if_neg same, denotes.contents]
      constructor
      · rintro ⟨live, rfl⟩
        exact ⟨⟨live, same⟩, rfl⟩
      · rintro ⟨⟨live, -⟩, named⟩
        exact ⟨live, named⟩

omit [DecidableEq Id] in
theorem contents_absent (denotes : Denotes index rows contents)
    (absent : ∀ slot, index.interner.lookup id = some slot → slot ∉ index.live) : contents id = none := by
  cases held : contents id with
  | none => rfl
  | some entity =>
    obtain ⟨live, rfl⟩ := (denotes.contents id entity).mp held
    obtain ⟨slot, live, here⟩ := SearchIndex.mem_liveRows.mp live
    exact absurd live (absent slot (denotes.holds.lookup here))

omit [DecidableEq Id] in
/-- A compaction that follows a removal finds room. -/
theorem room_of_erase (denotes : Denotes index rows contents) (live : index.live.contains slot = true) :
    (index.live.erase slot).size < 2 ^ 32 := by
  have member := OrdSet.mem_toList.mpr (Std.ExtTreeSet.contains_iff_mem.mp live)
  have fewer : (index.live.erase slot).size < index.live.size := by
    rw [Std.ExtTreeSet.size_erase, if_pos live, ← Std.ExtTreeSet.length_toList]
    exact Nat.sub_lt (List.length_pos_of_mem member) Nat.one_pos
  exact Nat.lt_of_lt_of_le fewer (Nat.le_trans denotes.live_size denotes.room)

theorem remove (denotes : Denotes index rows contents) (id : Id) :
    ∃ rows', rows'.length ≤ rows.length + 1 ∧
      Denotes (index.remove exceeds id) rows' (Function.update contents id none) := by
  have unchanged : contents id = none → Function.update contents id none = contents := by
    intro absent
    rw [← absent, Function.update_eq_self]
  unfold SearchIndex.remove
  cases known : index.interner.lookup id with
  | none =>
    have absent : ∀ slot, index.interner.lookup id = some slot → slot ∉ index.live := by
      intro slot named
      rw [known] at named
      cases named
    rw [unchanged (denotes.contents_absent absent)]
    exact ⟨rows, Nat.le_succ _, denotes⟩
  | some slot =>
    by_cases live : index.live.contains slot = true
    · have erased := denotes.erase known (min (index.deadCount + 1) (2 ^ 64 - 1))
      dsimp only
      rw [if_pos live]
      split
      · have room := denotes.room_of_erase live
        exact ⟨_, Nat.le_succ_of_le erased.length_liveRows, erased.compact room⟩
      · exact ⟨rows, Nat.le_succ _, erased⟩
    · dsimp only
      rw [if_neg live]
      have dead : ∀ place, index.interner.lookup id = some place → place ∉ index.live := by
        intro place named member
        rw [known, Option.some.injEq] at named
        subst named
        exact live (Std.ExtTreeSet.contains_iff_mem.mpr member)
      rw [unchanged (denotes.contents_absent dead)]
      exact ⟨rows, Nat.le_succ _, denotes⟩

theorem apply (exceeds : Nat → Nat → Bool) (denotes : Denotes index rows contents)
    (room : operation.HasRoom index) :
    ∃ rows', rows'.length ≤ rows.length + 1 ∧
      Denotes (index.apply exceeds operation) rows' (operation.onContents contents) := by
  cases operation with
  | insert entity => exact denotes.insert room
  | update entity => exact denotes.insert room
  | remove id => exact denotes.remove id
  | compact => exact ⟨_, Nat.le_succ_of_le denotes.length_liveRows, denotes.compact room⟩

end Denotes

/-- What an index denotes after a sequence of operations that find room. -/
theorem denotes_after (room : HaveRoom exceeds operations) :
    ∃ rows, rows.length ≤ operations.length ∧
      Denotes (indexAfter exceeds operations) rows (contentsAfter operations) := by
  induction operations using List.reverseRecOn with
  | nil => exact ⟨[], Nat.le_refl _, denotes_new⟩
  | append_singleton operations operation ih =>
    obtain ⟨rows, short, denotes⟩ := ih fun earlier other later split =>
      room earlier other (later ++ [operation]) (by rw [split, List.append_assoc, List.cons_append])
    obtain ⟨rows', grown, after⟩ := denotes.apply exceeds (room operations operation [] rfl)
    rw [indexAfter, contentsAfter, List.foldl_append, List.foldl_append, List.length_append, List.length_singleton]
    exact ⟨rows', Nat.le_trans grown (Nat.succ_le_succ short), after⟩

omit [DecidableEq Id] in
theorem Denotes.hasRoom (denotes : Denotes index rows contents) (short : rows.length < 2 ^ 32)
    (operation : Operation T Id) : operation.HasRoom index := by
  have insertion : index.interner.reverse.length < 2 ^ 32 := by
    rwa [denotes.holds.interned.reverse, List.length_map, List.length_map]
  cases operation with
  | insert entity => exact fun _ => insertion
  | update entity => exact fun _ => insertion
  | remove id => trivial
  | compact => exact Nat.lt_of_le_of_lt denotes.live_size short

theorem HaveRoom.concat (room : HaveRoom exceeds operations)
    (last : operation.HasRoom (indexAfter exceeds operations)) : HaveRoom exceeds (operations ++ [operation]) := by
  intro earlier other later split
  rcases List.eq_nil_or_concat later with rfl | ⟨rest, final, rfl⟩
  · obtain ⟨rfl, same⟩ := List.append_inj' split rfl
    obtain rfl := List.head_eq_of_cons_eq same
    exact last
  · rw [List.concat_eq_append, ← List.cons_append, ← List.append_assoc] at split
    exact room earlier other rest (List.append_inj' split rfl).1

/-- Fewer than 2³² operations find room. -/
theorem haveRoom_of_length (short : operations.length < 2 ^ 32) : HaveRoom exceeds operations := by
  induction operations using List.reverseRecOn with
  | nil => exact fun earlier _ later split => absurd split.symm (by simp)
  | append_singleton operations operation ih =>
    rw [List.length_append, List.length_singleton] at short
    have room := ih (Nat.lt_of_succ_lt short)
    obtain ⟨rows, few, denotes⟩ := denotes_after room
    exact room.concat (denotes.hasRoom (Nat.lt_of_le_of_lt few (Nat.lt_of_succ_lt short)) operation)

end Myko.Search.Typed

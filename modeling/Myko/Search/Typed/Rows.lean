import Myko.Search.Typed.Index

/-!
What a typed index holds, as a list of rows: the entity that each slot was given last. The operations keep
the four structures of the index in step with the rows.
-/

namespace Myko.Search.Typed

namespace SearchIndex

variable {T Id : Type} [Searchable T Id]

/-- The record of an entity in a slot. -/
def recordOf (slot : Nat) (entity : T) : EntityRecord := .ofFields slot (Searchable.searchableFields entity)

/-- A token stands in a searched field, but for the case of its ASCII letters. -/
def HasToken (entity : T) (token : Text) : Prop :=
  ∃ field ∈ Searchable.searchableFields entity, ∃ word ∈ tokenize field, makeAsciiLowercase word = token

def Posted (exact : Text → Option (OrdSet Nat)) (token : Text) (slot : Nat) : Prop :=
  slot ∈ (exact token).getD ∅

section
variable {exact : Text → Option (OrdSet Nat)} {tokens : List Text} {token : Text} {slot other : Nat}

theorem posted_addPosting {added : Text} :
    Posted (addPosting slot exact added) token other ↔
      Posted exact token other ∨ (other = slot ∧ token = added) := by
  unfold Posted addPosting
  by_cases same : token = added
  · subst same
    simp only [Function.update_self, Option.getD_some, OrdSet.mem_insert, and_true]
    exact or_comm
  · rw [Function.update_of_ne same]
    simp [same]

theorem posted_dropPosting {dropped : Text} :
    Posted (dropPosting slot exact dropped) token other ↔
      Posted exact token other ∧ ¬(other = slot ∧ token = dropped) := by
  unfold Posted dropPosting
  cases held : exact dropped with
  | none =>
    refine (and_iff_left_of_imp fun posted => ?_).symm
    rintro ⟨-, rfl⟩
    dsimp only at posted
    rw [held] at posted
    exact absurd posted Std.ExtTreeSet.not_mem_empty
  | some bitmap =>
    by_cases same : token = dropped
    · subst same
      simp only [Function.update_self, Option.getD_some, OrdSet.mem_erase, held, and_true]
      exact and_comm
    · dsimp only
      rw [Function.update_of_ne same]
      simp [same]

theorem posted_addPostings :
    Posted (tokens.foldl (addPosting slot) exact) token other ↔
      Posted exact token other ∨ (other = slot ∧ token ∈ tokens) := by
  induction tokens generalizing exact with
  | nil => simp
  | cons added rest ih =>
    rw [List.foldl_cons, ih, posted_addPosting, List.mem_cons, and_or_left, or_assoc]

theorem posted_dropPostings :
    Posted (tokens.foldl (dropPosting slot) exact) token other ↔
      Posted exact token other ∧ ¬(other = slot ∧ token ∈ tokens) := by
  induction tokens generalizing exact with
  | nil => simp
  | cons dropped rest ih =>
    rw [List.foldl_cons, ih, posted_dropPosting, List.mem_cons, and_or_left, not_or, and_assoc]

end

/-- The rows of an index: what each slot was given last. -/
structure Holds (index : SearchIndex Id) (rows : List T) : Prop where
  interned : index.interner.Interned (rows.map Searchable.typedId)
  entities : index.entities = rows.zipIdx.map fun row => some (recordOf row.2 row.1)
  posted : ∀ token slot, Posted index.exact token slot ↔ ∃ row, rows[slot]? = some row ∧ HasToken row token
  live : ∀ slot ∈ index.live, slot < rows.length

/-- The rows of the live slots. -/
def liveRows (index : SearchIndex Id) (rows : List T) : List T :=
  index.live.toList.filterMap fun slot => rows[slot]?

variable {index : SearchIndex Id} {rows : List T} {entity old row : T} {slot : Nat} {id : Id} {token : Text}

theorem mem_tokens_recordOf : token ∈ tokenize (recordOf slot entity).searchableText ↔ HasToken entity token :=
  mem_tokens

theorem holds_new : (new : SearchIndex Id).Holds ([] : List T) where
  interned := IdInterner.interned_new
  entities := rfl
  posted token slot := by simp [Posted, new]
  live slot listed := absurd listed Std.ExtTreeSet.not_mem_empty

namespace Holds

theorem recordAt (holds : index.Holds rows) (slot : Nat) :
    index.recordAt slot = rows[slot]?.map (recordOf slot) := by
  rw [SearchIndex.recordAt, holds.entities, List.getElem?_map, List.getElem?_zipIdx]
  cases rows[slot]? <;> simp

theorem length (holds : index.Holds rows) : index.entities.length = rows.length := by
  rw [holds.entities, List.length_map, List.length_zipIdx]

theorem lookup (holds : index.Holds rows) (here : rows[slot]? = some entity) :
    index.interner.lookup (Searchable.typedId entity) = some slot := by
  rw [holds.interned.lookup_eq_some, List.getElem?_map, here, Option.map_some]

theorem of_lookup (holds : index.Holds rows) (known : index.interner.lookup id = some slot) :
    ∃ entity, rows[slot]? = some entity ∧ Searchable.typedId entity = id := by
  rw [holds.interned.lookup_eq_some, List.getElem?_map, Option.map_eq_some_iff] at known
  exact known

theorem slot_unique (holds : index.Holds rows) {other : T} {place : Nat} (here : rows[slot]? = some entity)
    (there : rows[place]? = some other) (same : Searchable.typedId entity = Searchable.typedId other) :
    slot = place := by
  have first := holds.lookup here
  rw [same, holds.lookup there] at first
  exact (Option.some.inj first).symm

end Holds

/-! ### Insertion -/

theorem placed_of_lt (inside : slot < rows.length) :
    placed (rows.zipIdx.map fun row => some (recordOf row.2 row.1)) slot (recordOf slot entity) =
      (rows.set slot entity).zipIdx.map fun row => some (recordOf row.2 row.1) := by
  refine List.ext_getElem? fun place => ?_
  have no_gap : slot + 1 - rows.length = 0 := Nat.sub_eq_zero_of_le inside
  unfold placed
  rw [List.length_map, List.length_zipIdx, no_gap, List.replicate_zero, List.append_nil, List.getElem?_set,
    List.getElem?_map, List.getElem?_map, List.getElem?_zipIdx, List.getElem?_zipIdx, List.getElem?_set,
    List.length_map, List.length_zipIdx]
  by_cases here : slot = place
  · subst here
    simp [inside]
  · simp [here]

theorem placed_at_end :
    placed (rows.zipIdx.map fun row => some (recordOf row.2 row.1)) rows.length (recordOf rows.length entity) =
      (rows ++ [entity]).zipIdx.map fun row => some (recordOf row.2 row.1) := by
  unfold placed
  rw [List.length_map, List.length_zipIdx, Nat.add_sub_cancel_left, List.replicate_one, List.zipIdx_append,
    List.map_append]
  simp

section
variable [DecidableEq Id]

theorem insert_known (holds : index.Holds rows) (here : rows[slot]? = some old)
    (same : Searchable.typedId old = Searchable.typedId entity) :
    index.insert entity =
      { index with
        entities := placed index.entities slot (recordOf slot entity)
        exact := (tokenize (recordOf slot entity).searchableText).foldl (addPosting slot)
          ((tokenize (recordOf slot old).searchableText).foldl (dropPosting slot) index.exact)
        live := index.live.insert slot } := by
  have known := holds.lookup here
  have record := holds.recordAt slot
  rw [same] at known
  rw [here, Option.map_some] at record
  simp only [insert, known, purgeTokens, record, IdInterner.Interned.intern_known known]
  rfl

theorem insert_unknown (holds : index.Holds rows) (unknown : Searchable.typedId entity ∉ rows.map Searchable.typedId)
    (room : rows.length ≤ u32Max) :
    index.insert entity =
      { index with
        interner := (index.interner.intern (Searchable.typedId entity)).1
        entities := placed index.entities rows.length (recordOf rows.length entity)
        exact := (tokenize (recordOf rows.length entity).searchableText).foldl (addPosting rows.length) index.exact
        live := index.live.insert rows.length } := by
  have slot := holds.interned.intern_slot unknown (by rwa [List.length_map])
  rw [List.length_map] at slot
  simp only [insert, holds.interned.lookup_eq_none.mpr unknown, slot]
  rfl

namespace Holds

theorem insert_known (holds : index.Holds rows) (here : rows[slot]? = some old)
    (same : Searchable.typedId old = Searchable.typedId entity) :
    (index.insert entity).Holds (rows.set slot entity) := by
  have inside := (List.getElem?_eq_some_iff.mp here).1
  rw [SearchIndex.insert_known holds here same]
  refine ⟨?_, ?_, fun token place => ?_, fun place live => ?_⟩
  · have ids : (rows.set slot entity).map Searchable.typedId = rows.map Searchable.typedId := by
      refine List.ext_getElem? fun place => ?_
      rw [List.getElem?_map, List.getElem?_map, List.getElem?_set]
      by_cases there : slot = place
      · subst there
        rw [if_pos rfl, if_pos inside, here, Option.map_some, Option.map_some, same]
      · rw [if_neg there]
    rw [ids]
    exact holds.interned
  · dsimp only
    rw [holds.entities, placed_of_lt inside]
  · dsimp only
    rw [posted_addPostings, posted_dropPostings, holds.posted, mem_tokens_recordOf, mem_tokens_recordOf,
      List.getElem?_set]
    by_cases there : place = slot
    · subst there
      simp only [here, Option.some.injEq, exists_eq_left', true_and, and_not_self, false_or, if_true, inside]
    · simp [there, Ne.symm there]
  · rw [List.length_set]
    rcases OrdSet.mem_insert.mp live with rfl | live
    · exact inside
    · exact holds.live place live

theorem insert_unknown (holds : index.Holds rows)
    (unknown : Searchable.typedId entity ∉ rows.map Searchable.typedId) (room : rows.length ≤ u32Max) :
    (index.insert entity).Holds (rows ++ [entity]) := by
  rw [SearchIndex.insert_unknown holds unknown room]
  refine ⟨?_, ?_, fun token place => ?_, fun place live => ?_⟩
  · rw [List.map_append, List.map_singleton]
    exact holds.interned.intern unknown (by rwa [List.length_map])
  · dsimp only
    rw [holds.entities, placed_at_end]
  · dsimp only
    rw [posted_addPostings, holds.posted, mem_tokens_recordOf, getElem?_concat]
    by_cases last : place = rows.length
    · subst last
      simp
    · simp [last]
  · rw [List.length_append, List.length_singleton]
    rcases OrdSet.mem_insert.mp live with rfl | live
    · exact Nat.lt_succ_self rows.length
    · exact Nat.lt_succ_of_lt (holds.live place live)

end Holds

end

/-! ### Compaction -/

theorem getElem?_filterMap_total {α β : Type} {f : α → Option β} {list : List α}
    (total : ∀ a ∈ list, ∃ b, f a = some b) (i : Nat) : (list.filterMap f)[i]? = list[i]?.bind f := by
  induction list generalizing i with
  | nil => rfl
  | cons a rest ih =>
    obtain ⟨b, found⟩ := total a List.mem_cons_self
    rw [List.filterMap_cons_some found]
    cases i with
    | zero => simp [found]
    | succ i => exact ih (fun a later => total a (List.mem_cons_of_mem _ later)) i

/-- The new number of a live id is its place among them. -/
theorem remap_eq_some {ids : List Nat} (nodup : ids.Nodup) {oldId newId : Nat} :
    ids.zipIdx.foldl (fun remap (entry : Nat × Nat) => Function.update remap entry.1 (some entry.2))
      (fun _ => none) oldId = some newId ↔ ids[newId]? = some oldId := by
  induction ids using List.reverseRecOn with
  | nil => exact ⟨nofun, nofun⟩
  | append_singleton ids last ih =>
    obtain ⟨nodup, -, apart⟩ := List.nodup_append.mp nodup
    have absent : last ∉ ids := fun listed => apart last listed last (List.mem_singleton_self last) rfl
    rw [List.zipIdx_append, List.foldl_append, Nat.zero_add, List.zipIdx_singleton, List.foldl_cons,
      List.foldl_nil, Function.update_apply]
    by_cases here : oldId = last
    · subst here
      rw [if_pos rfl, Option.some.injEq, getElem?_concat]
      split
      · next newest => exact iff_of_true newest.symm rfl
      · next earlier =>
        exact iff_of_false (Ne.symm earlier) fun listed => absent (List.mem_of_getElem? listed)
    · rw [if_neg here, ih nodup, getElem?_concat]
      split
      · next newest =>
        rw [newest, List.getElem?_eq_none (Nat.le_refl _)]
        exact iff_of_false nofun fun same => here (Option.some.inj same).symm
      · exact Iff.rfl

theorem mem_foldl_insert {list : List Nat} {set : OrdSet Nat} :
    slot ∈ list.foldl (fun (set : OrdSet Nat) slot => set.insert slot) set ↔ slot ∈ list ∨ slot ∈ set := by
  induction list generalizing set with
  | nil => simp
  | cons first rest ih => rw [List.foldl_cons, ih, OrdSet.mem_insert, List.mem_cons, or_left_comm, or_assoc]

/-- Empty sets are not retained. -/
theorem mem_retained {bitmap : Option (OrdSet Nat)} {renumber : OrdSet Nat → OrdSet Nat} :
    slot ∈ (bitmap.bind fun b => if (renumber b).isEmpty then none else some (renumber b)).getD ∅ ↔
      ∃ b, bitmap = some b ∧ slot ∈ renumber b := by
  cases bitmap with
  | none => simp
  | some b =>
    rw [Option.bind_some]
    by_cases nothing : (renumber b).isEmpty = true
    · rw [if_pos nothing]
      refine iff_of_false Std.ExtTreeSet.not_mem_empty ?_
      rintro ⟨_, ⟨⟩, listed⟩
      rw [Std.ExtTreeSet.isEmpty_iff.mp nothing] at listed
      exact Std.ExtTreeSet.not_mem_empty listed
    · rw [if_neg nothing, Option.getD_some]
      simp

theorem toList_of_range {set : OrdSet Nat} {n : Nat} (same : ∀ slot, slot ∈ set ↔ slot < n) :
    set.toList = List.range n := by
  have ascending : set.toList.Pairwise (· < ·) :=
    (Std.ExtTreeSet.ordered_toList (t := set)).imp fun less => compare_lt_iff_lt.mp less
  have perm : set.toList.Perm (List.range n) := by
    rw [List.perm_ext_iff_of_nodup (OrdSet.nodup_toList set) List.nodup_range]
    intro slot
    rw [OrdSet.mem_toList, same, List.mem_range]
  exact perm.eq_of_pairwise (fun a b _ _ less more => absurd less (Nat.lt_asymm more)) ascending
    List.pairwise_lt_range

namespace Holds

theorem live_total (holds : index.Holds rows) : ∀ slot ∈ index.live.toList, ∃ row, rows[slot]? = some row := by
  intro slot listed
  exact ⟨_, List.getElem?_eq_getElem (holds.live slot (OrdSet.mem_toList.mp listed))⟩

theorem getElem?_liveRows (holds : index.Holds rows) (place : Nat) :
    (index.liveRows rows)[place]? = index.live.toList[place]?.bind fun slot => rows[slot]? :=
  getElem?_filterMap_total holds.live_total place

theorem length_liveRows (holds : index.Holds rows) : (index.liveRows rows).length = index.live.toList.length := by
  refine List.filterMap_length_eq_length.mpr fun slot listed => ?_
  obtain ⟨row, here⟩ := holds.live_total slot listed
  rw [here]
  rfl

theorem renumbered (holds : index.Holds rows) (start : Nat) :
    (index.live.toList.zipIdx start).filterMap (fun entry =>
        (index.recordAt entry.1).map fun record => some { record with internalId := entry.2 }) =
      ((index.liveRows rows).zipIdx start).map fun row => some (recordOf row.2 row.1) := by
  have total := holds.live_total
  unfold liveRows
  generalize index.live.toList = ids at total
  induction ids generalizing start with
  | nil => rfl
  | cons slot rest ih =>
    obtain ⟨row, here⟩ := total slot List.mem_cons_self
    have record := holds.recordAt slot
    rw [here, Option.map_some] at record
    have renewed : (index.recordAt slot).map (fun record => some { record with internalId := start }) =
        some (some (recordOf start row)) := by
      rw [record]
      rfl
    rw [List.zipIdx_cons, List.filterMap_cons_some (a := (slot, start)) renewed, List.filterMap_cons_some here,
      List.zipIdx_cons,
      List.map_cons, ih (start + 1) fun slot later => total slot (List.mem_cons_of_mem _ later)]

theorem liveIds (holds : index.Holds rows) :
    index.live.toList.filterMap index.interner.idOf = (index.liveRows rows).map Searchable.typedId := by
  rw [liveRows, List.map_filterMap]
  refine List.filterMap_congr fun slot _ => ?_
  rw [holds.interned.idOf, List.getElem?_map]

theorem nodup_liveIds (holds : index.Holds rows) : ((index.liveRows rows).map Searchable.typedId).Nodup := by
  rw [← holds.liveIds]
  refine (OrdSet.nodup_toList index.live).filterMap fun slot place id here there => ?_
  rw [Option.mem_def, holds.interned.idOf, ← holds.interned.lookup_eq_some] at here there
  exact Option.some.inj (here.symm.trans there)

end Holds

section
variable [DecidableEq Id]

theorem interned_foldl {interner : IdInterner Id} {ids names : List Id} (interned : interner.Interned ids)
    (nodup : (ids ++ names).Nodup) (room : (ids ++ names).length ≤ 2 ^ 32) :
    (names.foldl (fun interner name => (interner.intern name).1) interner).Interned (ids ++ names) := by
  induction names generalizing interner ids with
  | nil => simpa using interned
  | cons name rest ih =>
    have split : ids ++ name :: rest = ids ++ [name] ++ rest := by simp
    have absent : name ∉ ids := fun listed =>
      (List.nodup_append.mp nodup).2.2 name listed name List.mem_cons_self rfl
    have first := interned.intern absent (by
      rw [List.length_append, List.length_cons] at room
      unfold u32Max
      omega)
    rw [List.foldl_cons, split]
    exact ih first (split ▸ nodup) (split ▸ room)

namespace Holds

theorem compact (holds : index.Holds rows) (room : index.live.size < 2 ^ 32) :
    index.compact.Holds (index.liveRows rows) := by
  have short : index.live.toList.length < 2 ^ 32 := by rwa [Std.ExtTreeSet.length_toList]
  have all : index.live.toList.take (u32Max + 1) = index.live.toList := by
    apply List.take_of_length_le
    unfold u32Max
    omega
  refine ⟨?_, ?_, fun token slot => ?_, fun slot live => ?_⟩
  · have names : ([] ++ index.live.toList.filterMap index.interner.idOf).length ≤ 2 ^ 32 := by
      rw [List.nil_append, holds.liveIds, List.length_map, holds.length_liveRows]
      exact Nat.le_of_lt short
    have distinct : ([] ++ index.live.toList.filterMap index.interner.idOf).Nodup := by
      rw [List.nil_append, holds.liveIds]
      exact holds.nodup_liveIds
    have interned := interned_foldl IdInterner.interned_new distinct names
    rw [List.foldl_filterMap, List.nil_append, holds.liveIds] at interned
    exact interned
  · unfold SearchIndex.compact
    dsimp only
    rw [all]
    exact holds.renumbered 0
  · unfold SearchIndex.compact
    dsimp only
    rw [all, holds.getElem?_liveRows]
    unfold Posted
    dsimp only
    rw [mem_retained]
    constructor
    · rintro ⟨bitmap, held, kept⟩
      rw [mem_foldl_insert, or_iff_left Std.ExtTreeSet.not_mem_empty, List.mem_filterMap] at kept
      obtain ⟨oldId, listed, renamed⟩ := kept
      rw [remap_eq_some (OrdSet.nodup_toList index.live)] at renamed
      have posted : Posted index.exact token oldId := by
        rw [Posted, held]
        exact OrdSet.mem_toList.mp listed
      rw [renamed]
      exact (holds.posted token oldId).mp posted
    · rintro ⟨row, here, has⟩
      obtain ⟨oldId, renamed, here⟩ := Option.bind_eq_some_iff.mp here
      have posted := (holds.posted token oldId).mpr ⟨row, here, has⟩
      rw [Posted] at posted
      cases held : index.exact token with
      | none =>
        rw [held] at posted
        exact absurd posted Std.ExtTreeSet.not_mem_empty
      | some bitmap =>
        rw [held] at posted
        refine ⟨bitmap, rfl, ?_⟩
        rw [mem_foldl_insert, or_iff_left Std.ExtTreeSet.not_mem_empty, List.mem_filterMap]
        exact ⟨oldId, OrdSet.mem_toList.mpr posted, (remap_eq_some (OrdSet.nodup_toList index.live)).mpr renamed⟩
  · rw [SearchIndex.compact] at live
    dsimp only at live
    rw [mem_foldl_insert, or_iff_left Std.ExtTreeSet.not_mem_empty, List.mem_range] at live
    rw [holds.length_liveRows]
    exact Nat.lt_of_lt_of_le live (Nat.min_le_left _ _)

theorem mem_live_compact (holds : index.Holds rows) (room : index.live.size < 2 ^ 32) :
    slot ∈ index.compact.live ↔ slot < (index.liveRows rows).length := by
  rw [SearchIndex.compact]
  dsimp only
  rw [mem_foldl_insert, or_iff_left Std.ExtTreeSet.not_mem_empty, List.mem_range, holds.length_liveRows,
    Nat.min_eq_left]
  rw [Std.ExtTreeSet.length_toList]
  unfold u32Max
  omega

/-- A compaction leaves the live rows as they are. -/
theorem liveRows_compact (holds : index.Holds rows) (room : index.live.size < 2 ^ 32) :
    index.compact.liveRows (index.liveRows rows) = index.liveRows rows := by
  rw [liveRows, toList_of_range fun slot => holds.mem_live_compact room]
  refine List.ext_getElem? fun place => ?_
  have total : ∀ slot ∈ List.range (index.liveRows rows).length, ∃ row, (index.liveRows rows)[slot]? = some row :=
    fun slot inside => ⟨_, List.getElem?_eq_getElem (List.mem_range.mp inside)⟩
  rw [getElem?_filterMap_total total]
  by_cases inside : place < (index.liveRows rows).length
  · rw [List.getElem?_range inside, Option.bind_some]
  · rw [List.getElem?_eq_none (by simpa using inside), List.getElem?_eq_none (by simpa using inside),
      Option.bind_none]

end Holds

end

/-! ### What is live -/

omit [Searchable T Id] in
theorem mem_liveRows : entity ∈ index.liveRows rows ↔ ∃ slot ∈ index.live, rows[slot]? = some entity := by
  simp only [liveRows, List.mem_filterMap, OrdSet.mem_toList]

section
variable [DecidableEq Id]

theorem Holds.mem_inserted_known (holds : index.Holds rows) (here : rows[slot]? = some old)
    (same : Searchable.typedId old = Searchable.typedId entity) :
    row ∈ (index.insert entity).liveRows (rows.set slot entity) ↔
      row = entity ∨ (row ∈ index.liveRows rows ∧ Searchable.typedId row ≠ Searchable.typedId entity) := by
  have inside := (List.getElem?_eq_some_iff.mp here).1
  rw [mem_liveRows, mem_liveRows, SearchIndex.insert_known holds here same]
  dsimp only
  constructor
  · rintro ⟨place, live, there⟩
    rw [List.getElem?_set] at there
    by_cases moved : slot = place
    · subst moved
      rw [if_pos rfl, if_pos inside, Option.some.injEq] at there
      exact .inl there.symm
    · rw [if_neg moved] at there
      refine .inr ⟨⟨place, (OrdSet.mem_insert.mp live).resolve_left (Ne.symm moved), there⟩, fun equal => ?_⟩
      exact moved (holds.slot_unique here there (same.trans equal.symm))
  · rintro (rfl | ⟨⟨place, live, there⟩, different⟩)
    · exact ⟨slot, OrdSet.mem_insert.mpr (.inl rfl), by rw [List.getElem?_set, if_pos rfl, if_pos inside]⟩
    · refine ⟨place, OrdSet.mem_insert.mpr (.inr live), ?_⟩
      have moved : slot ≠ place := by
        rintro rfl
        rw [here, Option.some.injEq] at there
        exact different (there ▸ same)
      rw [List.getElem?_set_ne moved, there]

theorem Holds.mem_inserted_unknown (holds : index.Holds rows)
    (unknown : Searchable.typedId entity ∉ rows.map Searchable.typedId) (room : rows.length ≤ u32Max) :
    row ∈ (index.insert entity).liveRows (rows ++ [entity]) ↔
      row = entity ∨ (row ∈ index.liveRows rows ∧ Searchable.typedId row ≠ Searchable.typedId entity) := by
  rw [mem_liveRows, mem_liveRows, SearchIndex.insert_unknown holds unknown room]
  dsimp only
  constructor
  · rintro ⟨place, live, there⟩
    rcases OrdSet.mem_insert.mp live with rfl | live
    · exact .inl (by simpa using there.symm)
    · rw [List.getElem?_append_left (holds.live place live)] at there
      refine .inr ⟨⟨place, live, there⟩, fun equal => unknown ?_⟩
      rw [← equal]
      exact List.mem_map_of_mem (List.mem_of_getElem? there)
  · rintro (rfl | ⟨⟨place, live, there⟩, -⟩)
    · exact ⟨rows.length, OrdSet.mem_insert.mpr (.inl rfl), by simp⟩
    · exact ⟨place, OrdSet.mem_insert.mpr (.inr live), by rwa [List.getElem?_append_left (holds.live place live)]⟩

end

end SearchIndex

end Myko.Search.Typed

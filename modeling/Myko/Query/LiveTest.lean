import Myko.Query.LiveQuery

/-!
What testing rows makes of the result of a live query: rows of a bucket or of the whole store, and the diffs of a
source.
-/

namespace Myko.Query

open KeyedLog

variable {extractFk : FieldKeys}

/-! ### Testing rows -/

/-- What the filter leaves of the item under an id. -/
def LiveFilter.shown (filter : LiveFilter extractFk) (store : ItemMap) (id : String) : Option Item :=
  (store[id]?).filter filter.matchesItem

theorem LiveFilter.shown_eq_some {filter : LiveFilter extractFk} {store : ItemMap} {id : String} {item : Item} :
    filter.shown store id = some item ↔ store[id]? = some item ∧ filter.matchesItem item = true :=
  Option.filter_eq_some_iff

theorem applyBucketCandidates_eq (filter : LiveFilter extractFk) (candidates : List (String × Item))
    (result : ItemMap) : applyBucketCandidates filter candidates result =
      OrdMap.writeAll result (candidates.map fun entry =>
        (entry.1, if filter.matchesItem entry.2 then some entry.2 else none)) := by
  induction candidates generalizing result with
  | nil => rfl
  | cons entry rest ih =>
    rw [applyBucketCandidates, List.foldl_cons, ← applyBucketCandidates, ih, List.map_cons]
    show _ = OrdMap.writeAll (OrdMap.write _ _) _
    cases matched : filter.matchesItem entry.2 <;> simp [OrdMap.write]

/-- Rows that are those of a store are shown as the filter shows them. -/
theorem get_applyBucketCandidates {filter : LiveFilter extractFk} {candidates : List (String × Item)}
    {store : ItemMap} (stored : ∀ entry ∈ candidates, store[entry.1]? = some entry.2) (result : ItemMap)
    (id : String) : (applyBucketCandidates filter candidates result)[id]? =
      if id ∈ candidates.map Prod.fst then filter.shown store id else result[id]? := by
  have agree : ∀ write ∈ candidates.map (fun entry : String × Item =>
      (entry.1, if filter.matchesItem entry.2 then some entry.2 else none)),
      filter.shown store write.1 = write.2 := by
    intro write member
    obtain ⟨entry, listed, rfl⟩ := List.mem_map.mp member
    rw [LiveFilter.shown, stored entry listed]
    cases matched : filter.matchesItem entry.2 <;> simp [Option.filter, matched]
  rw [applyBucketCandidates_eq, OrdMap.get_writeAll_of agree, List.map_map]
  rfl

theorem mem_ids {m : ItemMap} {id : String} : id ∈ m.toList.map Prod.fst ↔ ∃ item, m[id]? = some item := by
  rw [List.mem_map]
  constructor
  · rintro ⟨entry, member, rfl⟩
    exact ⟨_, OrdMap.mem_toList.mp member⟩
  · rintro ⟨item, held⟩
    exact ⟨(id, item), OrdMap.mem_toList.mpr held, rfl⟩

theorem get_reconcileCandidate (filter : LiveFilter extractFk) (currentIds : List String) (result : ItemMap)
    (entry : String × Item) (id : String) : (reconcileCandidate filter currentIds result entry)[id]? =
      if entry.1 = id then
        if filter.matchesItem entry.2 then (if id ∈ currentIds then result[id]? else some entry.2)
        else if id ∈ currentIds then none else result[id]?
      else result[id]? := by
  unfold reconcileCandidate
  by_cases here : entry.1 = id
  · subst here
    cases matched : filter.matchesItem entry.2 <;> by_cases held : entry.1 ∈ currentIds
    · simp [held]
    · simp [held]
    · simp [held]
    · simp [held]
  · cases matched : filter.matchesItem entry.2 <;> by_cases held : entry.1 ∈ currentIds <;>
      simp [held, here, OrdMap.get_insert, OrdMap.get_erase, Ne.symm here]

/-- The rows of a store touch each id once, and only the ids it has. -/
theorem get_reconcileCandidates (filter : LiveFilter extractFk) (currentIds : List String)
    {candidates : List (String × Item)} (nodup : (candidates.map Prod.fst).Nodup) (result : ItemMap) (id : String) :
    (id ∉ candidates.map Prod.fst →
      (candidates.foldl (reconcileCandidate filter currentIds) result)[id]? = result[id]?) ∧
    ∀ item, (id, item) ∈ candidates →
      (candidates.foldl (reconcileCandidate filter currentIds) result)[id]? =
        (reconcileCandidate filter currentIds result (id, item))[id]? := by
  induction candidates generalizing result with
  | nil => exact ⟨fun _ => rfl, fun _ member => absurd member List.not_mem_nil⟩
  | cons entry rest ih =>
    obtain ⟨apart, later⟩ := List.nodup_cons.mp nodup
    obtain ⟨untouched, tested⟩ := ih later (reconcileCandidate filter currentIds result entry)
    rw [List.foldl_cons]
    refine ⟨fun absent => ?_, fun item member => ?_⟩
    · rw [List.map_cons, List.mem_cons, not_or] at absent
      rw [untouched absent.2, get_reconcileCandidate, if_neg (Ne.symm absent.1)]
    · rcases List.mem_cons.mp member with rfl | member
      · exact untouched apart
      · have other : entry.1 ≠ id := fun same => apart (same ▸ List.mem_map_of_mem member)
        rw [tested item member, get_reconcileCandidate, get_reconcileCandidate, get_reconcileCandidate, if_neg other]

/-- Against all rows of a store a result comes to what the filter shows, but keeps the contents it had. -/
theorem get_reconcileFullScopeMembership (filter : LiveFilter extractFk) (store result : ItemMap) (id : String) :
    (reconcileFullScopeMembership filter store.toList result)[id]? =
      (filter.shown store id).map fun item => (result[id]?).getD item := by
  obtain ⟨untouched, tested⟩ := get_reconcileCandidates filter (result.toList.map Prod.fst)
    (OrdMap.nodup_keys store) result id
  unfold reconcileFullScopeMembership
  rw [OrdMap.get_removeMany]
  cases stored : store[id]? with
  | none =>
    have gone : id ∉ store.toList.map Prod.fst := fun member => by
      obtain ⟨item, held⟩ := mem_ids.mp member
      rw [stored] at held
      cases held
    rw [LiveFilter.shown, stored, untouched gone]
    split
    · rfl
    · rename_i kept
      cases held : result[id]? with
      | none => rfl
      | some old =>
        exact absurd (List.mem_filter.mpr ⟨mem_ids.mpr ⟨old, held⟩, by simpa using gone⟩) kept
  | some item =>
    have there := OrdMap.mem_toList.mpr stored
    have kept : id ∉ (result.toList.map Prod.fst).filter fun id => decide (id ∉ store.toList.map Prod.fst) :=
      fun both => absurd (mem_ids.mpr ⟨item, stored⟩) (by simpa using (List.mem_filter.mp both).2)
    rw [if_neg kept, tested item there, get_reconcileCandidate, if_pos rfl, LiveFilter.shown, stored]
    cases held : result[id]? with
    | none =>
      have absent : id ∉ result.toList.map Prod.fst := fun member => by
        obtain ⟨_, there⟩ := mem_ids.mp member
        rw [held] at there
        cases there
      cases matched : filter.matchesItem item <;> simp only [absent, matched, Option.filter] <;> simp
    | some old =>
      have member : id ∈ result.toList.map Prod.fst := mem_ids.mpr ⟨old, held⟩
      cases matched : filter.matchesItem item <;> simp only [member, matched, Option.filter] <;> simp

/-! ### Incremental diffs -/

/-- A result after the last write about an id, among writes the filter was asked about. -/
def Tells (filter : LiveFilter extractFk) (last : Option (Option Item)) (before after : Option Item) : Prop :=
  match last with
  | none => after = before
  | some none => after = none
  | some (some item) => filter.matchesItem item = true → after = some item

theorem Tells.append {filter : LiveFilter extractFk} {id : String} {first later : List (String × Option Item)}
    {before middle after : Option Item} (one : Tells filter (lastEffect some id first) before middle)
    (two : Tells filter (lastEffect some id later) middle after) :
    Tells filter (lastEffect some id (first ++ later)) before after := by
  rw [lastEffect_append]
  cases last : lastEffect some id later with
  | some write =>
    rw [last] at two
    cases write <;> exact two
  | none =>
    rw [last] at two
    rw [show after = middle from two]
    exact one

theorem tells_one (filter : LiveFilter extractFk) (result next : ItemMap) {key : String} {write : Option Item}
    (here : Tells filter (some write) result[key]? next[key]?)
    (others : ∀ id, id ≠ key → next[id]? = result[id]?) (id : String) :
    Tells filter (lastEffect some id [(key, write)]) result[id]? next[id]? := by
  rw [lastEffect_singleton]
  by_cases same : key = id
  · subst same
    simpa [effectOn] using here
  · simpa [effectOn, same, Tells] using others id (Ne.symm same)

mutual
/-- The diff of a source is told to the result as the writes it is to the source. -/
theorem tells_applyLiveDiff (filter : LiveFilter extractFk) (scope : LiveDiffScope) : ∀ (diff : ItemDiff)
    (rows result : ItemMap), diff.Incremental → ∀ id : String,
    Tells filter (lastEffect some id (diff.writesOn rows)) result[id]? (applyLiveDiff filter scope diff result)[id]?
  | .initial _, _, _, incremental, _ => absurd incremental id
  | .insert key value, _, result, _, id => by
    have told : Tells filter (some (some value)) result[key]?
        (applyLiveDiff filter scope (.insert key value) result)[key]? := fun matched => by
      simp [applyLiveDiff, matched]
    refine tells_one filter result _ told (fun id other => ?_) id
    rw [applyLiveDiff]
    split
    · rw [OrdMap.get_insert, if_neg other]
    · rfl
  | .remove key _, _, result, _, id => by
    have told : Tells filter (some none) result[key]? (result.erase key)[key]? := by
      show (result.erase key)[key]? = none
      rw [OrdMap.get_erase, if_pos rfl]
    refine tells_one filter result _ told (fun id other => ?_) id
    rw [OrdMap.get_erase, if_neg other]
  | .update key oldValue newValue, _, result, _, id => by
    have told : Tells filter (some (some newValue)) result[key]?
        (applyLiveDiff filter scope (.update key oldValue newValue) result)[key]? := fun matched => by
      simp [applyLiveDiff, matched]
    refine tells_one filter result _ told (fun id other => ?_) id
    rw [applyLiveDiff]
    split
    · rw [OrdMap.get_insert, if_neg other]
    · rw [OrdMap.get_erase, if_neg other]
  | .batch changes, rows, result, incremental, id => tells_applyLiveDiffs filter scope changes rows result incremental id

theorem tells_applyLiveDiffs (filter : LiveFilter extractFk) (scope : LiveDiffScope) : ∀ (changes : List ItemDiff)
    (rows result : ItemMap), MapDiff.AllIncremental changes → ∀ id : String,
    Tells filter (lastEffect some id (MapDiff.allWritesOn changes rows)) result[id]?
      (applyLiveDiffs filter scope changes result)[id]?
  | [], _, _, _, _ => rfl
  | change :: rest, rows, result, incremental, id =>
    Tells.append (tells_applyLiveDiff filter scope change rows result incremental.1 id)
      (tells_applyLiveDiffs filter scope rest _ _ incremental.2 id)
end

/-- A result that shows rows of one source, or what another source vouches for. -/
def Vouched (filter : LiveFilter extractFk) (others : String → Item → Prop) (rows result : ItemMap) : Prop :=
  ∀ (id : String) (item : Item), result[id]? = some item →
    filter.matchesItem item = true ∧ (rows[id]? = some item ∨ others id item)

mutual
theorem vouched_applyLiveDiff (filter : LiveFilter extractFk) (scope : LiveDiffScope)
    (others : String → Item → Prop) : ∀ (diff : ItemDiff) (rows result : ItemMap), diff.Incremental →
    diff.TrueOf rows → Vouched filter others rows result →
    Vouched filter others (diff.apply rows) (applyLiveDiff filter scope diff result)
  | .initial _, _, _, incremental, _, _ => absurd incremental id
  | .insert key value, rows, result, _, trueOld, vouched => by
    have fresh : rows[key]? = none := trueOld
    intro id item held
    rw [MapDiff.apply, OrdMap.get_insert]
    by_cases here : id = key
    · subst here
      rw [if_pos rfl]
      rw [applyLiveDiff] at held
      split at held
      · rename_i matched
        rw [OrdMap.get_insert, if_pos rfl] at held
        exact ⟨Option.some.inj held ▸ matched, .inl held⟩
      · obtain ⟨matched, mine | other⟩ := vouched id item held
        · rw [fresh] at mine
          cases mine
        · exact ⟨matched, .inr other⟩
    · rw [if_neg here]
      rw [applyLiveDiff] at held
      split at held
      · rw [OrdMap.get_insert, if_neg here] at held
        exact vouched id item held
      · exact vouched id item held
  | .remove key _, rows, result, _, _, vouched => by
    intro id item held
    rw [applyLiveDiff, OrdMap.get_erase] at held
    rw [MapDiff.apply, OrdMap.get_erase]
    split at held
    · cases held
    · rename_i other
      rw [if_neg other]
      exact vouched id item held
  | .update key _ newValue, rows, result, _, _, vouched => by
    intro id item held
    rw [MapDiff.apply, OrdMap.get_insert]
    rw [applyLiveDiff] at held
    split at held
    · rename_i matched
      rw [OrdMap.get_insert] at held
      split at held
      · rename_i here
        rw [if_pos here]
        exact ⟨Option.some.inj held ▸ matched, .inl held⟩
      · rename_i other
        rw [if_neg other]
        exact vouched id item held
    · rw [OrdMap.get_erase] at held
      split at held
      · cases held
      · rename_i other
        rw [if_neg other]
        exact vouched id item held
  | .batch changes, rows, result, incremental, trueOld, vouched =>
    vouched_applyLiveDiffs filter scope others changes rows result incremental trueOld vouched

theorem vouched_applyLiveDiffs (filter : LiveFilter extractFk) (scope : LiveDiffScope)
    (others : String → Item → Prop) : ∀ (changes : List ItemDiff) (rows result : ItemMap),
    MapDiff.AllIncremental changes → MapDiff.AllTrueOf changes rows → Vouched filter others rows result →
    Vouched filter others (MapDiff.applyAll changes rows) (applyLiveDiffs filter scope changes result)
  | [], _, _, _, _, vouched => vouched
  | change :: rest, rows, result, incremental, trueOld, vouched =>
    vouched_applyLiveDiffs filter scope others rest _ _ incremental.2 trueOld.2
      (vouched_applyLiveDiff filter scope others change rows result incremental.1 trueOld.1 vouched)
end

end Myko.Query

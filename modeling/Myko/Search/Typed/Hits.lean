import Myko.Lib.Ranking
import Myko.Search.Typed.LiveSet

/-!
What a search returns, in terms of the live rows: each of them has a hit in the first tier that finds it, and the
best hits are returned.
-/

namespace Myko.Search.Typed.SearchIndex

open Ranking

variable {T Id : Type} [Searchable T Id] (matching : Matching) (lowerQuery : Text)

/-! ### Tiers -/

def exactHit (record : EntityRecord) : Option (Score × Nat) :=
  if lowerQuery ∈ tokenize record.searchableText then
    some (.exact, ((find lowerQuery record.searchableText).map record.fieldOfPosition).getD 0)
  else none

/-- The hits of a tier, one for each live row that it finds. -/
structure Scans (index : SearchIndex Id) (rows : List T) (tier : EntityRecord → Option (Score × Nat))
    (scan : List Found) : Prop where
  nodup : (scan.map Prod.fst).Nodup
  mem : ∀ slot hit, (slot, hit) ∈ scan ↔
    slot ∈ index.live ∧ ∃ row, rows[slot]? = some row ∧ tier (recordOf slot row) = some hit

variable {matching lowerQuery} {index : SearchIndex Id} {rows : List T} {tier : EntityRecord → Option (Score × Nat)}

theorem mem_candidates (holds : index.Holds rows) {record : EntityRecord} :
    record ∈ index.candidates ↔
      ∃ slot ∈ index.live, ∃ row, rows[slot]? = some row ∧ record = recordOf slot row := by
  unfold candidates
  rw [List.mem_filterMap]
  constructor
  · rintro ⟨entry, listed, kept⟩
    obtain ⟨slot, there⟩ := List.mem_iff_getElem?.mp listed
    obtain ⟨rfl, live⟩ := Option.filter_eq_some_iff.mp kept
    have recorded := holds.recordAt slot
    rw [recordAt, there, Option.join_some] at recorded
    obtain ⟨row, here, rfl⟩ := Option.map_eq_some_iff.mp recorded.symm
    exact ⟨slot, Std.ExtTreeSet.contains_iff_mem.mp live, row, here, rfl⟩
  · rintro ⟨slot, live, row, here, rfl⟩
    have recorded := holds.recordAt slot
    rw [here, Option.map_some, recordAt, Option.join_eq_some_iff] at recorded
    exact ⟨some (recordOf slot row), List.mem_of_getElem? recorded,
      Option.filter_eq_some_iff.mpr ⟨rfl, Std.ExtTreeSet.contains_iff_mem.mpr live⟩⟩

theorem nodup_candidates (holds : index.Holds rows) :
    (index.candidates.map EntityRecord.internalId).Nodup := by
  have slots : index.candidates.map EntityRecord.internalId =
      (rows.zipIdx.map Prod.snd).filter index.live.contains := by
    unfold candidates
    rw [holds.entities, List.filterMap_map, List.map_filterMap, List.filter_map, ← List.filterMap_eq_map,
      List.filterMap_filter]
    refine List.filterMap_congr fun entry _ => ?_
    show ((some (recordOf entry.2 entry.1)).filter fun record => index.live.contains record.internalId).map _ = _
    rw [Option.filter_some]
    show (if index.live.contains entry.2 = true then _ else _ : Option EntityRecord).map _ =
      if index.live.contains entry.2 = true then _ else _
    by_cases live : index.live.contains entry.2 = true
    · rw [if_pos live, if_pos live]
      rfl
    · rw [if_neg live, if_neg live]
      rfl
  rw [slots, List.zipIdx_map_snd]
  exact (List.nodup_range' _).filter _

theorem keys_sublist {α β κ : Type} {key : α → κ} {keyOf : β → κ} {locate : α → Option β}
    (keyed : ∀ a found, locate a = some found → keyOf found = key a) (list : List α) :
    ((list.filterMap locate).map keyOf).Sublist (list.map key) := by
  induction list with
  | nil => exact List.Sublist.slnil
  | cons a rest ih =>
    cases found : locate a with
    | none =>
      rw [List.filterMap_cons_none found]
      exact ih.cons (key a)
    | some hit =>
      rw [List.filterMap_cons_some found, List.map_cons, List.map_cons, keyed a hit found]
      exact ih.cons_cons (key a)

theorem scans_candidates (holds : index.Holds rows) {scan : List Found}
    (scanned : scan = index.candidates.filterMap fun record => (tier record).map fun hit => (record.internalId, hit)) :
    Scans index rows tier scan := by
  subst scanned
  refine ⟨?_, fun slot hit => ?_⟩
  · refine (nodup_candidates holds).sublist (keys_sublist (fun record found same => ?_) index.candidates)
    obtain ⟨hit, -, rfl⟩ := Option.map_eq_some_iff.mp same
    rfl
  · rw [List.mem_filterMap]
    constructor
    · rintro ⟨record, listed, found⟩
      obtain ⟨place, live, row, here, rfl⟩ := (mem_candidates holds).mp listed
      obtain ⟨hit', tiered, same⟩ := Option.map_eq_some_iff.mp found
      obtain ⟨rfl, rfl⟩ := Prod.mk.inj same
      exact ⟨live, row, here, tiered⟩
    · rintro ⟨live, row, here, tiered⟩
      exact ⟨recordOf slot row, (mem_candidates holds).mpr ⟨slot, live, row, here, rfl⟩, by rw [tiered]; rfl⟩

theorem scans_exact (holds : index.Holds rows) :
    Scans index rows (exactHit lowerQuery) (index.exactScan lowerQuery) := by
  have hit_iff : ∀ slot hit, (slot, hit) ∈ index.exactScan lowerQuery ↔
      Posted index.exact lowerQuery slot ∧ slot ∈ index.live ∧ ∃ record, index.recordAt slot = some record ∧
        (.exact, ((find lowerQuery record.searchableText).map record.fieldOfPosition).getD 0) = hit := by
    intro slot hit
    unfold exactScan Posted
    cases index.exact lowerQuery with
    | none => simp
    | some bitmap =>
      rw [List.mem_filterMap]
      constructor
      · rintro ⟨place, listed, found⟩
        obtain ⟨posted, live⟩ := List.mem_filter.mp listed
        obtain ⟨record, recorded, same⟩ := Option.map_eq_some_iff.mp found
        obtain ⟨rfl, rfl⟩ := Prod.mk.inj same
        exact ⟨OrdSet.mem_toList.mp posted, Std.ExtTreeSet.contains_iff_mem.mp live, record, recorded, rfl⟩
      · rintro ⟨posted, live, record, recorded, rfl⟩
        exact ⟨slot, List.mem_filter.mpr ⟨OrdSet.mem_toList.mpr posted, Std.ExtTreeSet.contains_iff_mem.mpr live⟩,
          by rw [recorded]; rfl⟩
  refine ⟨?_, fun slot hit => ?_⟩
  · unfold exactScan
    cases index.exact lowerQuery with
    | none => exact List.nodup_nil
    | some bitmap =>
      have slots : ((bitmap.toList.filter index.live.contains).map id).Nodup := by
        rw [List.map_id]
        exact (OrdSet.nodup_toList bitmap).filter _
      refine slots.sublist (keys_sublist (fun slot found same => ?_) _)
      obtain ⟨record, -, rfl⟩ := Option.map_eq_some_iff.mp same
      rfl
  · rw [hit_iff, holds.posted]
    constructor
    · rintro ⟨⟨row, here, has⟩, live, record, recorded, found⟩
      rw [holds.recordAt, here, Option.map_some, Option.some.injEq] at recorded
      subst recorded
      refine ⟨live, row, here, ?_⟩
      rw [exactHit, if_pos (mem_tokens_recordOf.mpr has), found]
    · rintro ⟨live, row, here, found⟩
      unfold exactHit at found
      split at found
      · next has =>
        refine ⟨⟨row, here, mem_tokens_recordOf.mp has⟩, live, recordOf slot row, ?_, Option.some.inj found⟩
        rw [holds.recordAt, here, Option.map_some]
      · cases found

variable (matching) in
theorem scans_subsequence (holds : index.Holds rows) :
    Scans index rows (subsequenceHit matching lowerQuery) (index.subsequenceScan matching lowerQuery) :=
  scans_candidates holds rfl

variable (matching lowerQuery) in
def typoTier (maxDist : Nat) (record : EntityRecord) : Option (Score × Nat) :=
  if maxDist = 0 then none else typoHit matching lowerQuery maxDist record

theorem scans_typo (holds : index.Holds rows) (maxDist : Nat) :
    Scans index rows (typoTier matching lowerQuery maxDist) (index.typoScan matching lowerQuery maxDist) := by
  unfold typoScan typoTier
  by_cases off : maxDist = 0
  · simp only [if_pos off]
    exact ⟨List.nodup_nil, by simp⟩
  · simp only [if_neg off]
    exact scans_candidates holds rfl

/-! ### Merging -/

variable {value : EntityRecord → Option (Score × Nat)} {scan : List Found} {hits : OrdMap Nat (Score × Nat)}
variable {slot : Nat} {hit : Score × Nat}

section
variable {step : OrdMap Nat (Score × Nat) → Found → OrdMap Nat (Score × Nat)}
variable {combine : Option (Score × Nat) → Score × Nat → Score × Nat}

theorem get_foldl_absent
    (steps : ∀ hits found slot, (step hits found)[slot]? =
      if slot = found.1 then some (combine hits[slot]? found.2) else hits[slot]?)
    (absent : ∀ hit, (slot, hit) ∉ scan) : (scan.foldl step hits)[slot]? = hits[slot]? := by
  induction scan generalizing hits with
  | nil => rfl
  | cons found rest ih =>
    have other : slot ≠ found.1 := fun same => absent found.2 (by rw [same]; exact List.mem_cons_self)
    rw [List.foldl_cons, ih fun hit later => absent hit (List.mem_cons_of_mem _ later), steps, if_neg other]

theorem get_foldl_found
    (steps : ∀ hits found slot, (step hits found)[slot]? =
      if slot = found.1 then some (combine hits[slot]? found.2) else hits[slot]?)
    (nodup : (scan.map Prod.fst).Nodup) (found : (slot, hit) ∈ scan) :
    (scan.foldl step hits)[slot]? = some (combine hits[slot]? hit) := by
  induction scan generalizing hits with
  | nil => cases found
  | cons first rest ih =>
    rw [List.map_cons, List.nodup_cons] at nodup
    rw [List.foldl_cons]
    rcases List.mem_cons.mp found with rfl | later
    · have absent : ∀ hit, (slot, hit) ∉ rest :=
        fun other again => nodup.1 (List.mem_map.mpr ⟨(slot, other), again, rfl⟩)
      rw [get_foldl_absent steps absent, steps, if_pos rfl]
    · have other : slot ≠ first.1 := fun same => nodup.1 (same ▸ List.mem_map_of_mem later)
      rw [ih nodup.2 later, steps, if_neg other]

end

/-- The latest hit. -/
def newest (_ : Option (Score × Nat)) (hit : Score × Nat) : Score × Nat := hit

theorem insert_steps (hits : OrdMap Nat (Score × Nat)) (found : Found) (slot : Nat) :
    (hits.insert found.1 found.2)[slot]? = if slot = found.1 then some (newest hits[slot]? found.2) else hits[slot]? :=
  OrdMap.get_insert hits found.1 slot found.2

/-- The better of two hits, the first where they are as good. -/
def better : Option (Score × Nat) → Score × Nat → Score × Nat
  | none, hit => hit
  | some known, hit => if hit.1.cmp known.1 = .gt then hit else known

theorem get_mergeHit (hits : OrdMap Nat (Score × Nat)) (found : Found) (slot : Nat) :
    (mergeHit hits found)[slot]? = if slot = found.1 then some (better hits[slot]? found.2) else hits[slot]? := by
  unfold mergeHit
  cases known : hits[found.1]? with
  | none =>
    rw [OrdMap.get_insert]
    by_cases same : slot = found.1
    · rw [if_pos same, if_pos same, same, known, better]
    · rw [if_neg same, if_neg same]
  | some hit =>
    dsimp only
    by_cases same : slot = found.1
    · rw [if_pos same, same, known, better]
      split
      · rw [OrdMap.get_insert, if_pos rfl]
      · exact known
    · rw [if_neg same]
      split
      · rw [OrdMap.get_insert, if_neg same]
      · rfl

/-- The hits of the live rows. -/
def Shows (index : SearchIndex Id) (rows : List T) (value : EntityRecord → Option (Score × Nat))
    (hits : OrdMap Nat (Score × Nat)) : Prop :=
  ∀ slot, hits[slot]? = (if slot ∈ index.live then rows[slot]? else none).bind fun row => value (recordOf slot row)

theorem Scans.found (scans : Scans index rows tier scan) {row : T} (live : slot ∈ index.live)
    (here : rows[slot]? = some row) : (slot, hit) ∈ scan ↔ tier (recordOf slot row) = some hit := by
  rw [scans.mem]
  constructor
  · rintro ⟨-, other, there, tiered⟩
    obtain rfl := Option.some.inj (here.symm.trans there)
    exact tiered
  · exact fun tiered => ⟨live, row, here, tiered⟩

omit [Searchable T Id] in
theorem live_row_eq_some {row : T} :
    (if slot ∈ index.live then rows[slot]? else none) = some row ↔ slot ∈ index.live ∧ rows[slot]? = some row := by
  split
  · next live => exact (and_iff_right live).symm
  · next dead => exact ⟨nofun, fun both => absurd both.1 dead⟩

/-- What a fold over a scan shows, when each step combines what is shown with the hit. -/
theorem Shows.foldl {step : OrdMap Nat (Score × Nat) → Found → OrdMap Nat (Score × Nat)}
    {combine : Option (Score × Nat) → Score × Nat → Score × Nat} (shown : Shows index rows value hits)
    (scans : Scans index rows tier scan)
    (steps : ∀ hits found slot, (step hits found)[slot]? =
      if slot = found.1 then some (combine hits[slot]? found.2) else hits[slot]?) :
    Shows index rows
      (fun record => (tier record).elim (value record) fun hit => some (combine (value record) hit))
      (scan.foldl step hits) := by
  intro slot
  have before := shown slot
  cases live_row : (if slot ∈ index.live then rows[slot]? else none : Option T) with
  | none =>
    have absent : ∀ hit, (slot, hit) ∉ scan := by
      intro hit found
      obtain ⟨live, row, here, -⟩ := (scans.mem slot hit).mp found
      rw [if_pos live, here] at live_row
      cases live_row
    rw [get_foldl_absent steps absent, before, live_row]
    rfl
  | some row =>
    obtain ⟨live, here⟩ := live_row_eq_some.mp live_row
    rw [live_row, Option.bind_some] at before
    rw [Option.bind_some]
    dsimp only
    cases tiered : tier (recordOf slot row) with
    | none =>
      have absent : ∀ hit, (slot, hit) ∉ scan := by
        intro hit found
        rw [scans.found live here, tiered] at found
        cases found
      rw [get_foldl_absent steps absent, before, Option.elim_none]
    | some hit =>
      rw [get_foldl_found steps scans.nodup ((scans.found live here).mpr tiered), before, Option.elim_some]

theorem shows_scan (scans : Scans index rows tier scan) :
    Shows index rows tier (OrdMap.insertMany ∅ scan) := by
  have nothing : Shows index rows (fun _ => none) ∅ := fun slot => by simp
  have shown := nothing.foldl scans insert_steps
  have same : (fun record => (tier record).elim none fun hit => some (newest none hit)) = tier := by
    funext record
    cases tier record <;> rfl
  rwa [same] at shown

/-- A later tier adds hits where there are none and changes none. -/
theorem Shows.merge (shown : Shows index rows value hits) (scans : Scans index rows tier scan)
    (below : ∀ record known hit, value record = some known → tier record = some hit → hit.1 < known.1) :
    Shows index rows (fun record => (value record).or (tier record)) (scan.foldl mergeHit hits) := by
  have merged := shown.foldl scans get_mergeHit
  have same : (fun record => (tier record).elim (value record) fun hit => some (better (value record) hit)) =
      fun record => (value record).or (tier record) := by
    funext record
    cases known : value record with
    | none => cases tier record <;> rfl
    | some hit =>
      cases tiered : tier record with
      | none => rfl
      | some new =>
        have worse : ¬new.1.cmp hit.1 = .gt := by
          rw [Score.cmp_eq_gt]
          exact not_lt_of_gt (below record hit new known tiered)
        rw [Option.elim_some, better, if_neg worse, Option.some_or]
  rwa [same] at merged

/-! ### The hits of the live rows -/

def SlotFree (value : EntityRecord → Option (Score × Nat)) : Prop :=
  ∀ slot place (entity : T), value (recordOf slot entity) = value (recordOf place entity)

def counted (value : EntityRecord → Option (Score × Nat)) (rows : List T) : Nat :=
  (rows.filterMap fun row => value (recordOf 0 row)).length

def rowHits (value : EntityRecord → Option (Score × Nat)) (rows : List T) : List (Hit Id) :=
  rows.filterMap fun row => (value (recordOf 0 row)).map fun hit => ⟨Searchable.typedId row, hit.1, hit.2⟩

/-- The hits of the live slots, in the order of the slots. -/
def slotHits (index : SearchIndex Id) (rows : List T) (value : EntityRecord → Option (Score × Nat)) : List Found :=
  index.live.toList.filterMap fun slot =>
    rows[slot]?.bind fun row => (value (recordOf slot row)).map fun hit => (slot, hit)

theorem mem_slotHits : (slot, hit) ∈ slotHits index rows value ↔
    slot ∈ index.live ∧ ∃ row, rows[slot]? = some row ∧ value (recordOf slot row) = some hit := by
  unfold slotHits
  rw [List.mem_filterMap]
  constructor
  · rintro ⟨place, live, found⟩
    obtain ⟨row, here, found⟩ := Option.bind_eq_some_iff.mp found
    obtain ⟨hit', valued, same⟩ := Option.map_eq_some_iff.mp found
    obtain ⟨rfl, rfl⟩ := Prod.mk.inj same
    exact ⟨OrdSet.mem_toList.mp live, row, here, valued⟩
  · rintro ⟨live, row, here, valued⟩
    exact ⟨slot, OrdSet.mem_toList.mpr live, by rw [here, Option.bind_some, valued, Option.map_some]⟩

theorem Shows.perm (shown : Shows index rows value hits) : hits.toList.Perm (slotHits index rows value) := by
  have slots : ((slotHits index rows value).map Prod.fst).Nodup := by
    have live : (index.live.toList.map id).Nodup := by
      rw [List.map_id]
      exact OrdSet.nodup_toList index.live
    refine live.sublist (keys_sublist (fun slot found same => ?_) _)
    obtain ⟨row, -, same⟩ := Option.bind_eq_some_iff.mp same
    obtain ⟨hit, -, rfl⟩ := Option.map_eq_some_iff.mp same
    rfl
  rw [List.perm_ext_iff_of_nodup (OrdMap.nodup_keys hits).of_map slots.of_map]
  rintro ⟨slot, hit⟩
  rw [OrdMap.mem_toList, shown slot, mem_slotHits, Option.bind_eq_some_iff]
  constructor
  · rintro ⟨row, live_row, valued⟩
    obtain ⟨live, here⟩ := live_row_eq_some.mp live_row
    exact ⟨live, row, here, valued⟩
  · rintro ⟨live, row, here, valued⟩
    exact ⟨row, live_row_eq_some.mpr ⟨live, here⟩, valued⟩

theorem Shows.size (shown : Shows index rows value hits) (free : SlotFree (T := T) value) :
    hits.size = counted value (index.liveRows rows) := by
  have values : (slotHits index rows value).map Prod.snd =
      (index.liveRows rows).filterMap fun row => value (recordOf 0 row) := by
    unfold slotHits liveRows
    rw [List.map_filterMap, List.filterMap_filterMap]
    refine List.filterMap_congr fun slot _ => ?_
    cases rows[slot]? with
    | none => rfl
    | some row =>
      rw [Option.bind_some, Option.bind_some, free slot 0]
      cases value (recordOf 0 row) <;> rfl
  rw [← Std.ExtTreeMap.length_toList, shown.perm.length_eq, counted, ← values, List.length_map]

theorem filterMap_toHit (holds : index.Holds rows) (free : SlotFree (T := T) value) :
    (slotHits index rows value).filterMap index.toHit = rowHits value (index.liveRows rows) := by
  unfold slotHits rowHits liveRows
  rw [List.filterMap_filterMap, List.filterMap_filterMap]
  refine List.filterMap_congr fun slot _ => ?_
  cases here : rows[slot]? with
  | none => rfl
  | some row =>
    have named : index.interner.idOf slot = some (Searchable.typedId row) := by
      rw [holds.interned.idOf, List.getElem?_map, here, Option.map_some]
    rw [Option.bind_some, Option.bind_some, free slot 0]
    cases value (recordOf 0 row) with
    | none => rfl
    | some hit =>
      show index.toHit (slot, hit) = _
      rw [toHit, named]
      rfl

/-- What the ranking of hits can give: the best hits of the live rows. -/
theorem ranked_iff (holds : index.Holds rows) (shown : Shows index rows value hits)
    (free : SlotFree (T := T) value) (limit : Nat) (result : List (Hit Id)) :
    (∃ iterate : List Found → List Found, (∀ found, (iterate found).Perm found) ∧
        index.ranked iterate hits limit = result) ↔
      Best Hit.score limit (rowHits value (index.liveRows rows)) result := by
  have by_score : (fun a b : Found => (b.2.1.cmp a.2.1).isLE) = fun a b => decide (b.2.1 ≤ a.2.1) := by
    funext a b
    rw [← Bool.coe_iff_coe, Score.cmp_isLE, decide_eq_true_iff]
  have total : ∀ found ∈ slotHits index rows value,
      ∃ hit, index.toHit found = some hit ∧ hit.score = found.2.1 := by
    rintro ⟨slot, hit⟩ listed
    obtain ⟨-, row, here, -⟩ := mem_slotHits.mp listed
    have named : index.interner.idOf slot = some (Searchable.typedId row) := by
      rw [holds.interned.idOf, List.getElem?_map, here, Option.map_some]
    exact ⟨⟨Searchable.typedId row, hit.1, hit.2⟩, by rw [toHit, named]; rfl, rfl⟩
  rw [← filterMap_toHit holds free, best_filterMap total]
  simp only [best_iff_rank, ranked, by_score]
  constructor
  · rintro ⟨iterate, permutes, rfl⟩
    exact ⟨_, ⟨iterate hits.toList, (permutes _).trans shown.perm, rfl⟩, rfl⟩
  · rintro ⟨_, ⟨order, perm, rfl⟩, rfl⟩
    refine ⟨fun found => if order.Perm found then order else found, fun found => ?_, ?_⟩
    · dsimp only
      split
      · next same => exact same
      · exact List.Perm.refl found
    · dsimp only
      rw [if_pos (perm.trans shown.perm.symm)]
      rfl

/-! ### The tiers together -/

section
variable (matching) (lowerQuery) (maxDist : Nat)

/-- The first hit of a record in the exact tier and those of the other two that are on. -/
def tiers (subsequence typo : Bool) (record : EntityRecord) : Option (Score × Nat) :=
  ((exactHit lowerQuery record).or (if subsequence then subsequenceHit matching lowerQuery record else none)).or
    (if typo then typoTier matching lowerQuery maxDist record else none)

end

variable {maxDist : Nat} {record : EntityRecord} {subsequence typo : Bool} {known new : Score × Nat}
variable {opts : SearchOptions}

theorem score_exactHit (found : exactHit lowerQuery record = some hit) : hit.1 = .exact := by
  unfold exactHit at found
  split at found
  · exact (Option.some.inj found) ▸ rfl
  · cases found

theorem tier_subsequenceHit (found : subsequenceHit matching lowerQuery record = some hit) : hit.1.tier = 1 := by
  obtain ⟨score, -, rfl⟩ := Option.map_eq_some_iff.mp found
  rfl

theorem tier_typoTier (found : typoTier matching lowerQuery maxDist record = some hit) : hit.1.tier = 0 := by
  unfold typoTier at found
  split at found
  · cases found
  · obtain ⟨best, -, rfl⟩ := Option.map_eq_some_iff.mp found
    rfl

theorem subsequence_below (first : exactHit lowerQuery record = some known)
    (later : subsequenceHit matching lowerQuery record = some new) : new.1 < known.1 := by
  apply Score.lt_of_tier
  rw [tier_subsequenceHit later, score_exactHit first]
  decide

theorem tier_pos (found : tiers matching lowerQuery maxDist subsequence false record = some hit) :
    0 < hit.1.tier := by
  unfold tiers at found
  rw [if_neg Bool.false_ne_true, Option.or_none] at found
  rcases Option.or_eq_some_iff.mp found with exact | ⟨-, later⟩
  · rw [score_exactHit exact]
    decide
  · split at later
    · rw [tier_subsequenceHit later]
      exact Nat.one_pos
    · cases later

theorem typo_below (first : tiers matching lowerQuery maxDist subsequence false record = some known)
    (later : typoTier matching lowerQuery maxDist record = some new) : new.1 < known.1 := by
  apply Score.lt_of_tier
  rw [tier_typoTier later]
  exact tier_pos first

theorem slotFree_tiers : SlotFree (T := T) (tiers matching lowerQuery maxDist subsequence typo) :=
  fun _ _ _ => rfl

theorem tiers_none : tiers matching lowerQuery maxDist false false = exactHit lowerQuery := by
  funext record
  simp [tiers]

theorem shows_subsequence (holds : index.Holds rows)
    (shown : Shows index rows (tiers matching lowerQuery maxDist false false) hits) :
    Shows index rows (tiers matching lowerQuery maxDist true false)
      ((index.subsequenceScan matching lowerQuery).foldl mergeHit hits) := by
  rw [tiers_none] at shown
  have merged := shown.merge (scans_subsequence matching holds) fun record known hit => subsequence_below
  have same : tiers matching lowerQuery maxDist true false =
      fun record => (exactHit lowerQuery record).or (subsequenceHit matching lowerQuery record) := by
    funext record
    simp [tiers]
  rwa [same]

theorem shows_typo (holds : index.Holds rows)
    (shown : Shows index rows (tiers matching lowerQuery maxDist subsequence false) hits) :
    Shows index rows (tiers matching lowerQuery maxDist subsequence true)
      ((index.typoScan matching lowerQuery maxDist).foldl mergeHit hits) := by
  have merged := shown.merge (scans_typo holds maxDist) fun record known hit => typo_below
  have same : tiers matching lowerQuery maxDist subsequence true = fun record =>
      (tiers matching lowerQuery maxDist subsequence false record).or (typoTier matching lowerQuery maxDist record) := by
    funext record
    simp [tiers]
  rwa [same]

section
variable (matching lowerQuery opts)

/-- Whether the second tier is run, over these live rows. -/
def runsSubsequence (live : List T) : Bool :=
  decide (opts.includeSubsequence ∧
    counted (tiers matching lowerQuery opts.maxEditDistance false false) live < opts.limit)

def runsTypo (live : List T) : Bool :=
  decide (opts.includeTypo ∧
    counted (tiers matching lowerQuery opts.maxEditDistance (runsSubsequence matching lowerQuery opts live) false)
      live < opts.limit)

/-- The hits of all tiers that are on, when none is skipped. -/
def hitsUnskipped (index : SearchIndex Id) : OrdMap Nat (Score × Nat) :=
  let hits : OrdMap Nat (Score × Nat) := OrdMap.insertMany ∅ (index.exactScan lowerQuery)
  let hits :=
    if opts.includeSubsequence then (index.subsequenceScan matching lowerQuery).foldl mergeHit hits else hits
  if opts.includeTypo then (index.typoScan matching lowerQuery opts.maxEditDistance).foldl mergeHit hits else hits

end

variable (matching lowerQuery) in
theorem shows_exact (holds : index.Holds rows) (maxDist : Nat) :
    Shows index rows (tiers matching lowerQuery maxDist false false)
      (OrdMap.insertMany ∅ (index.exactScan lowerQuery)) := by
  rw [tiers_none]
  exact shows_scan (scans_exact holds)

/-- A tier is skipped when it is off or the tiers before it fill the limit. -/
theorem shows_hits (holds : index.Holds rows) :
    Shows index rows
      (tiers matching lowerQuery opts.maxEditDistance
        (runsSubsequence matching lowerQuery opts (index.liveRows rows))
        (runsTypo matching lowerQuery opts (index.liveRows rows)))
      (index.hits matching lowerQuery opts) := by
  have exact := shows_exact matching lowerQuery holds opts.maxEditDistance
  unfold SearchIndex.hits
  generalize OrdMap.insertMany ∅ (index.exactScan lowerQuery) = first at exact
  dsimp only
  have second : Shows index rows
      (tiers matching lowerQuery opts.maxEditDistance
        (runsSubsequence matching lowerQuery opts (index.liveRows rows)) false)
      (if opts.includeSubsequence ∧ first.size < opts.limit then
        (index.subsequenceScan matching lowerQuery).foldl mergeHit first else first) := by
    rw [exact.size slotFree_tiers]
    unfold runsSubsequence
    split
    · next on =>
      rw [decide_eq_true on]
      exact shows_subsequence holds exact
    · next off =>
      rw [decide_eq_false off]
      exact exact
  generalize (if opts.includeSubsequence ∧ first.size < opts.limit then
    (index.subsequenceScan matching lowerQuery).foldl mergeHit first else first) = hits at second
  rw [second.size slotFree_tiers]
  unfold runsTypo
  split
  · next on =>
    rw [decide_eq_true on]
    exact shows_typo holds second
  · next off =>
    rw [decide_eq_false off]
    exact second

theorem shows_unskipped (holds : index.Holds rows) :
    Shows index rows
      (tiers matching lowerQuery opts.maxEditDistance opts.includeSubsequence opts.includeTypo)
      (hitsUnskipped matching lowerQuery opts index) := by
  have exact := shows_exact matching lowerQuery holds opts.maxEditDistance
  unfold hitsUnskipped
  cases opts.includeSubsequence with
  | true =>
    have second := shows_subsequence holds exact
    cases opts.includeTypo with
    | true => exact shows_typo holds second
    | false => exact second
  | false =>
    cases opts.includeTypo with
    | true => exact shows_typo holds exact
    | false => exact exact

end Myko.Search.Typed.SearchIndex

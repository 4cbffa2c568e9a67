import Myko.Search.Typed.Hits

/-!
What a search returns are the best hits of the live entities over all tiers that are on, whichever tiers were
skipped; so compaction makes no difference to it.
-/

namespace Myko.Search.Typed

open Ranking

namespace SearchIndex

variable {T Id : Type} [Searchable T Id] {matching : Matching} {lowerQuery query : Text} {maxDist : Nat}
variable {rows : List T} {value value' : EntityRecord → Option (Score × Nat)} {subsequence typo : Bool}
variable {opts : SearchOptions} {result : List (Hit Id)} {index : SearchIndex Id} {record : EntityRecord}
variable {hit : Score × Nat}

theorem length_rowHits : (rowHits value rows).length = counted value rows := by
  unfold rowHits counted
  rw [List.length_filterMap_eq_countP, List.length_filterMap_eq_countP]
  exact List.countP_congr fun row _ => by rw [Option.isSome_map]

theorem mem_rowHits {hit : Hit Id} : hit ∈ rowHits value rows ↔
    ∃ row ∈ rows, Searchable.typedId row = hit.id ∧ value (recordOf 0 row) = some (hit.score, hit.matchedField) := by
  unfold rowHits
  rw [List.mem_filterMap]
  refine exists_congr fun row => and_congr_right fun _ => ?_
  rw [Option.map_eq_some_iff]
  constructor
  · rintro ⟨found, valued, rfl⟩
    exact ⟨rfl, valued⟩
  · rintro ⟨named, valued⟩
    exact ⟨_, valued, by rw [named]⟩

/-- The hits of at least some tier. -/
theorem filter_rowHits {tier : Nat}
    (same : ∀ record, (value record).filter (fun hit => tier ≤ hit.1.tier) = value' record) :
    (rowHits value rows).filter (fun hit : Hit Id => tier ≤ hit.score.tier) = rowHits value' rows := by
  unfold rowHits
  rw [List.filter_filterMap]
  refine List.filterMap_congr fun row _ => ?_
  rw [← same (recordOf 0 row)]
  cases value (recordOf 0 row) with
  | none => rfl
  | some hit =>
    rw [Option.map_some, Option.filter_some, Option.filter_some]
    by_cases enough : decide (tier ≤ hit.1.tier) = true
    · rw [if_pos enough, if_pos enough, Option.map_some]
    · rw [if_neg enough, if_neg enough, Option.map_none]

/-- Hits of higher tiers that fill the limit are the best ones. -/
theorem best_of_full {tier : Nat}
    (same : ∀ record, (value record).filter (fun hit => tier ≤ hit.1.tier) = value' record)
    (full : opts.limit ≤ counted value' rows) :
    Best Hit.score opts.limit (rowHits value' rows) result ↔
      Best Hit.score opts.limit (rowHits value rows) result := by
  rw [← filter_rowHits same]
  refine best_filter (fun a _ b _ high low => ?_) ?_
  · exact Score.lt_of_tier (Nat.lt_of_lt_of_le (by simpa using low) (of_decide_eq_true high))
  · rw [filter_rowHits same, length_rowHits]
    exact full

theorem filter_or {α : Type} {first later : Option α} {kept : α → Bool}
    (keeps : ∀ a, first = some a → kept a = true) (drops : ∀ a, later = some a → kept a = false) :
    (first.or later).filter kept = first := by
  cases first with
  | some a => rw [Option.some_or, Option.filter_some, if_pos (keeps a rfl)]
  | none =>
    cases later with
    | none => rfl
    | some a => rw [Option.none_or, Option.filter_some, if_neg (by rw [drops a rfl]; exact Bool.false_ne_true)]

theorem tier_later (found : (if subsequence then subsequenceHit matching lowerQuery record else none) = some hit) :
    hit.1.tier = 1 := by
  split at found
  · exact tier_subsequenceHit found
  · cases found

theorem tier_last (found : (if typo then typoTier matching lowerQuery maxDist record else none) = some hit) :
    hit.1.tier = 0 := by
  split at found
  · exact tier_typoTier found
  · cases found

theorem exact_of_tiers (record : EntityRecord) :
    (tiers matching lowerQuery maxDist subsequence typo record).filter (fun hit => 3 ≤ hit.1.tier) =
      tiers matching lowerQuery maxDist false false record := by
  rw [tiers_none, tiers, Option.or_assoc]
  refine filter_or (fun hit exact => ?_) fun hit later => decide_eq_false fun high => ?_
  · rw [score_exactHit exact]
    rfl
  · rcases Option.or_eq_some_iff.mp later with later | ⟨-, last⟩
    · rw [tier_later later] at high
      exact absurd high (by decide)
    · rw [tier_last last] at high
      exact absurd high (by decide)

theorem not_typo_of_tiers (record : EntityRecord) :
    (tiers matching lowerQuery maxDist subsequence typo record).filter (fun hit => 1 ≤ hit.1.tier) =
      tiers matching lowerQuery maxDist subsequence false record := by
  have last_none : tiers matching lowerQuery maxDist subsequence false record =
      (exactHit lowerQuery record).or
        (if subsequence then subsequenceHit matching lowerQuery record else none) := by
    rw [tiers, if_neg Bool.false_ne_true, Option.or_none]
  rw [tiers, ← last_none]
  refine filter_or (fun hit found => decide_eq_true (tier_pos found)) fun hit last => decide_eq_false fun high => ?_
  rw [tier_last last] at high
  exact absurd high (by decide)

/-- The tiers that are skipped make no difference. -/
theorem best_of_skips :
    Best Hit.score opts.limit
        (rowHits (tiers matching lowerQuery opts.maxEditDistance (runsSubsequence matching lowerQuery opts rows)
          (runsTypo matching lowerQuery opts rows)) rows) result ↔
      Best Hit.score opts.limit
        (rowHits (tiers matching lowerQuery opts.maxEditDistance opts.includeSubsequence opts.includeTypo) rows)
        result := by
  unfold runsTypo
  by_cases skipped : opts.includeSubsequence = true ∧
      opts.limit ≤ counted (tiers matching lowerQuery opts.maxEditDistance false false) rows
  · have off : runsSubsequence matching lowerQuery opts rows = false :=
      decide_eq_false fun on => absurd on.2 (Nat.not_lt_of_le skipped.2)
    rw [off, decide_eq_false fun on => absurd on.2 (Nat.not_lt_of_le skipped.2)]
    exact best_of_full exact_of_tiers skipped.2
  · have on : runsSubsequence matching lowerQuery opts rows = opts.includeSubsequence := by
      unfold runsSubsequence
      cases included : opts.includeSubsequence with
      | false => simp
      | true =>
        rw [included] at skipped
        simpa using skipped
    rw [on]
    by_cases full : opts.limit ≤
        counted (tiers matching lowerQuery opts.maxEditDistance opts.includeSubsequence false) rows
    · rw [decide_eq_false fun on => absurd on.2 (Nat.not_lt_of_le full)]
      exact best_of_full not_typo_of_tiers full
    · have same : decide (opts.includeTypo = true ∧
          counted (tiers matching lowerQuery opts.maxEditDistance opts.includeSubsequence false) rows < opts.limit) =
            opts.includeTypo := by
        cases opts.includeTypo <;> simp [Nat.lt_of_not_le full]
      rw [same]

/-- What a search returns. -/
theorem returns_iff (holds : index.Holds rows) :
    Returns matching index query opts result ↔
      if query.isEmpty ∨ opts.limit = 0 then result = []
      else Best Hit.score opts.limit
        (rowHits (tiers matching (matching.toLowercase query) opts.maxEditDistance opts.includeSubsequence
          opts.includeTypo) (index.liveRows rows)) result := by
  unfold Returns search
  by_cases nothing : query.isEmpty ∨ opts.limit = 0
  · simp only [if_pos nothing]
    constructor
    · rintro ⟨-, -, rfl⟩
      rfl
    · rintro rfl
      exact ⟨id, fun found => List.Perm.refl found, rfl⟩
  · simp only [if_neg nothing]
    rw [← best_of_skips]
    exact ranked_iff holds (shows_hits holds) slotFree_tiers opts.limit result

/-- What a search would return if it skipped no tier. -/
def ReturnsUnskipped (matching : Matching) (index : SearchIndex Id) (query : Text) (opts : SearchOptions)
    (result : List (Hit Id)) : Prop :=
  ∃ iterate : List Found → List Found, (∀ found, (iterate found).Perm found) ∧
    (if query.isEmpty ∨ opts.limit = 0 then []
      else index.ranked iterate (hitsUnskipped matching (matching.toLowercase query) opts index) opts.limit) = result

theorem returns_iff_unskipped (holds : index.Holds rows) :
    Returns matching index query opts result ↔ ReturnsUnskipped matching index query opts result := by
  rw [returns_iff holds]
  unfold ReturnsUnskipped
  by_cases nothing : query.isEmpty ∨ opts.limit = 0
  · simp only [if_pos nothing]
    constructor
    · rintro rfl
      exact ⟨id, fun found => List.Perm.refl found, rfl⟩
    · rintro ⟨-, -, rfl⟩
      rfl
  · simp only [if_neg nothing]
    exact (ranked_iff holds (shows_unskipped holds) slotFree_tiers opts.limit result).symm

end SearchIndex

end Myko.Search.Typed

import Myko.Search.Typed.LiveSearch

/-!
The hits of a search against the scores that each tier gives an entity: no live entity that is left out has a
better score than one that is returned.
-/

namespace Myko.Search.Typed

open SearchIndex Ranking

section
variable (matching : Matching) (opts : SearchOptions) (lowerQuery : Text) (record : EntityRecord)

/-- A token near enough to the query, and its distance. -/
structure Near (token : Text) (distance : Nat) : Prop where
  lengths : max lowerQuery.length token.length - min lowerQuery.length token.length ≤ opts.maxEditDistance
  apart : matching.levenshtein lowerQuery token = distance
  pos : 0 < distance
  within : distance ≤ opts.maxEditDistance

/-- The scores that a record has in the tiers that are on. -/
inductive Earns : Score → Prop where
  | exact (has : lowerQuery ∈ tokenize record.searchableText) : Earns .exact
  | subsequence (on : opts.includeSubsequence = true) {score : Nat}
      (found : matching.fuzzyMatch record.searchableText lowerQuery = some score) : Earns (.subsequence score)
  | typo (on : opts.includeTypo = true) {token : Text} (has : token ∈ tokenize record.searchableText) {distance : Nat}
      (near : Near matching opts lowerQuery token distance) : Earns (.typo distance)

end

variable {matching : Matching} {opts : SearchOptions} {lowerQuery query : Text} {record : EntityRecord}
variable {best : Option (Nat × Nat)} {token : Text} {tokens : List Text} {distance : Nat} {hit : Score × Nat}

/-! ### The nearest token -/

variable (record best) in
theorem typoToken_near (near : Near matching opts lowerQuery token distance) :
    ∃ nearest field, typoToken matching lowerQuery opts.maxEditDistance record best token = some (nearest, field) ∧
      nearest ≤ distance ∧ ((nearest = distance) ∨ best = some (nearest, field)) ∧
        ∀ known place, best = some (known, place) → nearest ≤ known := by
  unfold typoToken
  rw [if_neg (Nat.not_lt_of_le near.lengths)]
  dsimp only
  rw [near.apart, if_neg (Nat.not_lt_of_le near.within), if_neg (Nat.ne_of_gt near.pos)]
  cases best with
  | none => exact ⟨distance, _, rfl, Nat.le_refl _, .inl rfl, nofun⟩
  | some known =>
    obtain ⟨known, place⟩ := known
    dsimp only
    split
    · next nearer =>
      refine ⟨distance, _, rfl, Nat.le_refl _, .inl rfl, fun other _ same => ?_⟩
      obtain ⟨rfl, rfl⟩ := Prod.mk.inj (Option.some.inj same)
      exact Nat.le_of_lt nearer
    · next farther =>
      refine ⟨known, place, rfl, Nat.le_of_not_lt farther, .inr rfl, fun other _ same => ?_⟩
      obtain ⟨rfl, rfl⟩ := Prod.mk.inj (Option.some.inj same)
      exact Nat.le_refl _

theorem typoToken_far (far : ∀ distance, ¬Near matching opts lowerQuery token distance) :
    typoToken matching lowerQuery opts.maxEditDistance record best token = best := by
  unfold typoToken
  split
  · rfl
  · next lengths =>
    dsimp only
    split
    · rfl
    · next within =>
      split
      · rfl
      · next pos =>
        exact absurd ⟨Nat.le_of_not_lt lengths, rfl, Nat.pos_of_ne_zero pos, Nat.le_of_not_lt within⟩ (far _)

/-- What the scan of some tokens makes of the best distance so far. -/
structure Nearest (matching : Matching) (opts : SearchOptions) (lowerQuery : Text) (tokens : List Text)
    (before after : Option (Nat × Nat)) : Prop where
  known : ∀ nearest field, after = some (nearest, field) →
    before = some (nearest, field) ∨ ∃ token ∈ tokens, Near matching opts lowerQuery token nearest
  near : ∀ token ∈ tokens, ∀ distance, Near matching opts lowerQuery token distance →
    ∃ nearest field, after = some (nearest, field) ∧ nearest ≤ distance
  kept : ∀ distance place, before = some (distance, place) →
    ∃ nearest field, after = some (nearest, field) ∧ nearest ≤ distance

variable (matching opts lowerQuery record tokens best) in
theorem nearest_foldl :
    Nearest matching opts lowerQuery tokens best
      (tokens.foldl (typoToken matching lowerQuery opts.maxEditDistance record) best) := by
  induction tokens generalizing best with
  | nil =>
    exact ⟨fun _ _ same => .inl same, fun _ listed => absurd listed List.not_mem_nil,
      fun distance place same => ⟨distance, place, same, Nat.le_refl _⟩⟩
  | cons token rest ih =>
    rw [List.foldl_cons]
    by_cases near : ∃ distance, Near matching opts lowerQuery token distance
    · obtain ⟨distance, near⟩ := near
      obtain ⟨nearest, field, stepped, less, origin, least⟩ := typoToken_near record best near
      have later := ih (typoToken matching lowerQuery opts.maxEditDistance record best token)
      obtain ⟨final, place, folded, below⟩ := later.kept nearest field stepped
      refine ⟨fun final' place' same => ?_, fun other listed distance' near' => ?_, fun known place' same => ?_⟩
      · rcases later.known final' place' same with here | ⟨other, listed, near'⟩
        · rw [stepped] at here
          obtain ⟨rfl, rfl⟩ := Prod.mk.inj (Option.some.inj here)
          rcases origin with rfl | before
          · exact .inr ⟨token, List.mem_cons_self, near⟩
          · exact .inl before
        · exact .inr ⟨other, List.mem_cons_of_mem _ listed, near'⟩
      · rcases List.mem_cons.mp listed with rfl | listed
        · obtain rfl := near.apart.symm.trans near'.apart
          exact ⟨final, place, folded, Nat.le_trans below less⟩
        · exact later.near other listed distance' near'
      · exact ⟨final, place, folded, Nat.le_trans below (least known place' same)⟩
    · have far : ∀ distance, ¬Near matching opts lowerQuery token distance := fun distance here =>
        near ⟨distance, here⟩
      rw [typoToken_far far]
      have later := ih best
      refine ⟨fun nearest field same => ?_, fun other listed distance here => ?_, later.kept⟩
      · rcases later.known nearest field same with before | ⟨other, listed, here⟩
        · exact .inl before
        · exact .inr ⟨other, List.mem_cons_of_mem _ listed, here⟩
      · rcases List.mem_cons.mp listed with rfl | listed
        · exact absurd here (far distance)
        · exact later.near other listed distance here

theorem near_of_typoTier (found : typoTier matching lowerQuery opts.maxEditDistance record = some hit) :
    ∃ token ∈ tokenize record.searchableText, ∃ distance, Near matching opts lowerQuery token distance ∧
      hit.1 = .typo distance := by
  unfold typoTier at found
  split at found
  · cases found
  · obtain ⟨⟨nearest, field⟩, folded, rfl⟩ := Option.map_eq_some_iff.mp found
    have scanned := nearest_foldl matching opts lowerQuery record none (tokenize record.searchableText)
    rcases scanned.known nearest field folded with before | ⟨token, listed, near⟩
    · cases before
    · exact ⟨token, listed, nearest, near, rfl⟩

/-- The typo tier reports the least distance of a token. -/
theorem typoTier_of_near (listed : token ∈ tokenize record.searchableText)
    (near : Near matching opts lowerQuery token distance) :
    ∃ nearest field, typoTier matching lowerQuery opts.maxEditDistance record = some (.typo nearest, field) ∧
      nearest ≤ distance := by
  have on : opts.maxEditDistance ≠ 0 := Nat.ne_of_gt (Nat.lt_of_lt_of_le near.pos near.within)
  have scanned := nearest_foldl matching opts lowerQuery record none (tokenize record.searchableText)
  obtain ⟨nearest, field, folded, below⟩ := scanned.near token listed distance near
  refine ⟨nearest, field, ?_, below⟩
  rw [typoTier, if_neg on, typoHit, folded, Option.map_some]

/-! ### The best of the tiers -/

theorem le_exact (score : Score) : score ≤ .exact := by
  cases score with
  | exact => exact le_refl _
  | prefixed => exact le_of_lt (Score.lt_of_tier (show 2 < 3 by decide))
  | subsequence score => exact le_of_lt (Score.lt_of_tier (show 1 < 3 by decide))
  | typo distance => exact le_of_lt (Score.lt_of_tier (show 0 < 3 by decide))

theorem typo_le_subsequence (distance score : Nat) : Score.typo distance ≤ .subsequence score :=
  le_of_lt (Score.lt_of_tier (show 0 < 1 by decide))

theorem typo_le_typo {nearest : Nat} (below : nearest ≤ distance) : Score.typo distance ≤ .typo nearest :=
  Score.le_iff.mpr (.inr ⟨rfl, Int.neg_le_neg (Int.ofNat_le.mpr below)⟩)

theorem not_token_of_none (absent : exactHit lowerQuery record = none) :
    lowerQuery ∉ tokenize record.searchableText := by
  intro has
  rw [exactHit, if_pos has] at absent
  cases absent

/-- The hit of a record has the best of its scores. -/
theorem earned_of_tiers
    (found : tiers matching lowerQuery opts.maxEditDistance opts.includeSubsequence opts.includeTypo record =
      some hit) :
    Earns matching opts lowerQuery record hit.1 ∧
      ∀ score, Earns matching opts lowerQuery record score → score ≤ hit.1 := by
  unfold tiers at found
  cases exact : exactHit lowerQuery record with
  | some first =>
    rw [exact, Option.some_or, Option.some_or, Option.some.injEq] at found
    subst found
    rw [score_exactHit exact]
    refine ⟨.exact ?_, fun score _ => le_exact score⟩
    by_contra absent
    rw [exactHit, if_neg absent] at exact
    cases exact
  | none =>
    rw [exact, Option.none_or] at found
    have absent := not_token_of_none exact
    rcases Option.or_eq_some_iff.mp found with later | ⟨skipped, last⟩
    · split at later
      · next on =>
        obtain ⟨score, matched, rfl⟩ := Option.map_eq_some_iff.mp later
        refine ⟨.subsequence on matched, fun other earned => ?_⟩
        cases earned with
        | exact has => exact absurd has absent
        | subsequence on matched' =>
          obtain rfl := Option.some.inj (matched.symm.trans matched')
          exact le_refl _
        | typo on has near => exact typo_le_subsequence _ _
      · cases later
    · split at last
      · next on =>
        obtain ⟨token, listed, distance, near, scored⟩ := near_of_typoTier last
        rw [scored]
        refine ⟨.typo on listed near, fun other earned => ?_⟩
        cases earned with
        | exact has => exact absurd has absent
        | subsequence on matched =>
          rw [if_pos on, subsequenceHit, matched] at skipped
          cases skipped
        | typo on has near' =>
          obtain ⟨nearest, field, tiered, below⟩ := typoTier_of_near has near'
          rw [last, Option.some.injEq] at tiered
          rw [tiered] at scored
          obtain rfl := Score.typo.inj scored
          exact typo_le_typo below
      · cases last

theorem tiers_of_earned {score : Score} (earned : Earns matching opts lowerQuery record score) :
    ∃ hit, tiers matching lowerQuery opts.maxEditDistance opts.includeSubsequence opts.includeTypo record =
      some hit := by
  rw [← Option.ne_none_iff_exists', tiers]
  intro nothing
  obtain ⟨first, last⟩ := Option.or_eq_none_iff.mp nothing
  obtain ⟨exact, later⟩ := Option.or_eq_none_iff.mp first
  cases earned with
  | exact has => exact not_token_of_none exact has
  | subsequence on matched =>
    rw [if_pos on, subsequenceHit, matched] at later
    cases later
  | typo on has near =>
    obtain ⟨nearest, field, tiered, -⟩ := typoTier_of_near has near
    rw [if_pos on, tiered] at last
    cases last

/-! ### The returned hits -/

variable {T Id : Type} [DecidableEq Id] [Searchable T Id] {exceeds : Nat → Nat → Bool}
variable {index : SearchIndex Id} {rows : List T} {contents : Id → Option T} {result : List (Hit Id)}

/-- Hits that are the best of some contents for a query. -/
structure BestHits (matching : Matching) (opts : SearchOptions) (lowerQuery : Text) (contents : Id → Option T)
    (result : List (Hit Id)) : Prop where
  few : result.length ≤ opts.limit
  distinct : (result.map Hit.id).Nodup
  sorted : result.Pairwise fun a b => b.score ≤ a.score
  best : ∀ hit ∈ result, ∃ entity, contents hit.id = some entity ∧
    Earns matching opts lowerQuery (recordOf 0 entity) hit.score ∧
    ∀ score, Earns matching opts lowerQuery (recordOf 0 entity) score → score ≤ hit.score
  left_out : ∀ id entity score, contents id = some entity → id ∉ result.map Hit.id →
    Earns matching opts lowerQuery (recordOf 0 entity) score →
      result.length = opts.limit ∧ ∀ hit ∈ result, score ≤ hit.score

omit [DecidableEq Id] in
theorem Denotes.bestHits (denotes : Denotes index rows contents)
    (best : Best Hit.score opts.limit
      (rowHits (tiers matching lowerQuery opts.maxEditDistance opts.includeSubsequence opts.includeTypo)
        (index.liveRows rows)) result) : BestHits matching opts lowerQuery contents result where
  few := best.length_le
  distinct := by
    refine best.nodup_map (denotes.holds.nodup_liveIds.sublist (keys_sublist (fun row hit found => ?_) _))
    obtain ⟨_, -, rfl⟩ := Option.map_eq_some_iff.mp found
    rfl
  sorted := best.sorted
  best hit found := by
    obtain ⟨entity, live, named, tiered⟩ := mem_rowHits.mp (best.mem found)
    exact ⟨entity, (denotes.contents _ entity).mpr ⟨live, named⟩, earned_of_tiers tiered⟩
  left_out id entity score held out earned := by
    obtain ⟨live, named⟩ := (denotes.contents id entity).mp held
    obtain ⟨⟨top, field⟩, tiered⟩ := tiers_of_earned earned
    have listed : (⟨id, top, field⟩ : Hit Id) ∈ rowHits (tiers matching lowerQuery opts.maxEditDistance
        opts.includeSubsequence opts.includeTypo) (index.liveRows rows) :=
      mem_rowHits.mpr ⟨entity, live, named, tiered⟩
    have full := best.left_out listed fun found => out (List.mem_map.mpr ⟨_, found, rfl⟩)
    exact ⟨full.1, fun hit found => le_trans ((earned_of_tiers tiered).2 score earned) (full.2 hit found)⟩

/-- With room for the slots and a query that is not empty, a search returns the best hits of the live entities,
and it would return the same if it skipped no tier. -/
theorem search_returns_best (exceeds : Nat → Nat → Bool) (matching : Matching) (operations : List (Operation T Id))
    (room : HaveRoom exceeds operations) (query : Text) (asked : query ≠ []) (opts : SearchOptions) :
    (∀ iterate : List Found → List Found, (∀ found, (iterate found).Perm found) →
      BestHits matching opts (matching.toLowercase query) (contentsAfter operations)
        ((indexAfter exceeds operations).search matching iterate query opts)) ∧
      ∀ result, Returns matching (indexAfter exceeds operations) query opts result ↔
        ReturnsUnskipped matching (indexAfter exceeds operations) query opts result := by
  obtain ⟨rows, -, denotes⟩ := denotes_after room
  refine ⟨fun iterate permutes => ?_, fun result => returns_iff_unskipped denotes.holds⟩
  have returns : Returns matching (indexAfter exceeds operations) query opts
      ((indexAfter exceeds operations).search matching iterate query opts) := ⟨iterate, permutes, rfl⟩
  have returned := (returns_iff denotes.holds).mp returns
  split at returned
  · next nothing =>
    have unlimited : opts.limit = 0 := nothing.resolve_left fun empty => asked (List.isEmpty_iff.mp empty)
    rw [returned]
    exact ⟨Nat.zero_le _, List.nodup_nil, List.Pairwise.nil, fun hit found => absurd found List.not_mem_nil,
      fun _ _ _ _ _ _ => ⟨unlimited.symm, fun hit found => absurd found List.not_mem_nil⟩⟩
  · exact denotes.bestHits returned

theorem search_returns_best_sample :
    (∀ iterate : List Found → List Found, (∀ found, (iterate found).Perm found) →
      BestHits plainMatching ⟨1, 2, true, true⟩ "mixr".toList (contentsAfter reinserted)
        ((indexAfter (fun _ _ => false) reinserted).search plainMatching iterate "MIXR".toList ⟨1, 2, true, true⟩)) ∧
      ∀ result,
        Returns plainMatching (indexAfter (fun _ _ => false) reinserted) "MIXR".toList ⟨1, 2, true, true⟩ result ↔
          ReturnsUnskipped plainMatching (indexAfter (fun _ _ => false) reinserted) "MIXR".toList
            ⟨1, 2, true, true⟩ result :=
  search_returns_best _ _ reinserted (haveRoom_of_length (by decide)) "MIXR".toList (by decide) _

/-! ### Searches that leave an entity out -/

theorem length_le_of_bounded {slots : List Nat} {n : Nat} (nodup : slots.Nodup) (bound : ∀ slot ∈ slots, slot < n) :
    slots.length ≤ n := by
  rw [← List.length_range (n := n)]
  exact (List.subperm_of_subset nodup fun slot listed => List.mem_range.mpr (bound slot listed)).length_le

/-- A search for the exact name of a crowd. -/
def exactly (limit : Nat) : SearchOptions := ⟨limit, 0, false, false⟩

theorem crowd_hits {name : Text} {n limit : Nat} {found : Found}
    (listed : found ∈ ((indexAfter (fun _ _ => false) (crowd name n)).hits plainMatching query (exactly limit)).toList) :
    found.1 ≤ u32Max := by
  have full := crowded name n
  generalize indexAfter (fun _ _ => false) (crowd name n) = index at full listed
  have only : index.hits plainMatching query (exactly limit) = OrdMap.insertMany ∅ (index.exactScan query) := by
    simp [hits, exactly]
  rw [only] at listed
  obtain ⟨slot, hit⟩ := found
  have shown := OrdMap.mem_toList.mp listed
  by_contra beyond
  have absent : ∀ hit, (slot, hit) ∉ index.exactScan query := by
    intro hit scanned
    have live : slot ∈ index.live := by
      unfold exactScan at scanned
      split at scanned
      · cases scanned
      · obtain ⟨place, posted, same⟩ := List.mem_filterMap.mp scanned
        obtain ⟨record, -, same⟩ := Option.map_eq_some_iff.mp same
        obtain ⟨rfl, -⟩ := Prod.mk.inj same
        exact Std.ExtTreeSet.contains_iff_mem.mp (List.mem_filter.mp posted).2
    exact beyond (full.bound slot live)
  rw [OrdMap.insertMany, get_foldl_absent insert_steps absent] at shown
  simp at shown

theorem crowd_search (query name : Text) (n limit : Nat) :
    let result := (indexAfter (fun _ _ => false) (crowd name n)).search plainMatching id query (exactly limit)
    2 ^ 32 ∉ result.map Hit.id ∧ result.length ≤ 2 ^ 32 := by
  intro result
  have full := crowded name n
  have slots : ∀ found ∈ ((indexAfter (fun _ _ => false) (crowd name n)).hits plainMatching
      (plainMatching.toLowercase query) (exactly limit)).toList, found.1 ≤ u32Max := fun found => crowd_hits
  have searched : result = (indexAfter (fun _ _ => false) (crowd name n)).search plainMatching id query (exactly limit) :=
    rfl
  clear_value result
  generalize indexAfter (fun _ _ => false) (crowd name n) = index at full slots searched
  subst searched
  unfold SearchIndex.search
  split
  · exact ⟨List.not_mem_nil, Nat.zero_le _⟩
  · unfold ranked
    dsimp only [id]
    generalize index.hits plainMatching (plainMatching.toLowercase query) (exactly limit) = hits at slots
    have sorted := List.mergeSort_perm hits.toList fun a b => (b.2.1.cmp a.2.1).isLE
    generalize hits.toList.mergeSort (fun a b => (b.2.1.cmp a.2.1).isLE) = order at sorted
    constructor
    · intro listed
      obtain ⟨hit, found, named⟩ := List.mem_map.mp listed
      obtain ⟨entry, first, same⟩ := List.mem_filterMap.mp found
      obtain ⟨id, held, rfl⟩ := Option.map_eq_some_iff.mp same
      have inside := slots entry (sorted.mem_iff.mp (List.mem_of_mem_take first))
      rw [IdInterner.idOf_eq_some, full.reverse, List.getElem?_map] at held
      obtain ⟨place, there, same⟩ := Option.map_eq_some_iff.mp held
      obtain rfl := Option.some.inj same
      have numbered := (List.getElem?_eq_some_iff.mp there).2
      rw [List.getElem_range] at numbered
      rw [numbered] at inside
      exact absurd (named ▸ inside) (Nat.not_le_of_lt u32Max_lt)
    · have few : (hits.toList.map Prod.fst).length ≤ 2 ^ 32 := by
        refine length_le_of_bounded (OrdMap.nodup_keys hits) fun slot listed => ?_
        obtain ⟨found, member, rfl⟩ := List.mem_map.mp listed
        exact Nat.lt_of_le_of_lt (slots found member) u32Max_lt
      rw [List.length_map, ← sorted.length_eq] at few
      refine Nat.le_trans (List.length_filterMap_le _ _) (Nat.le_trans ?_ few)
      exact List.length_take_le' _ _

/-- The one target that finds no slot of its own is left out, although fewer hits than asked for are returned. -/
def LeftOut (n : Nat) : Prop :=
  (∃ entity, contentsAfter (crowd "a".toList n) (2 ^ 32) = some entity ∧
    Earns plainMatching (exactly (2 ^ 33)) "a".toList (recordOf 0 entity) .exact) ∧
  2 ^ 32 ∉ ((indexAfter (fun _ _ => false) (crowd "a".toList n)).search plainMatching id "a".toList
    (exactly (2 ^ 33))).map Hit.id ∧
  ((indexAfter (fun _ _ => false) (crowd "a".toList n)).search plainMatching id "a".toList
    (exactly (2 ^ 33))).length < 2 ^ 33

theorem leftOut {n : Nat} (many : 2 ^ 32 < n) : LeftOut n := by
  have searched := crowd_search "a".toList "a".toList n (2 ^ 33)
  refine ⟨⟨_, contents_crowd many, .exact ?_⟩, searched.1, Nat.lt_of_le_of_lt searched.2 (by decide)⟩
  exact mem_tokens_recordOf.mpr ⟨"a".toList, List.mem_cons_self, "a".toList, by decide, by decide⟩

/-- The empty query finds nothing, whatever the matcher makes of it; and one target more than there are slots
is left out. -/
theorem hits_left_out :
    (contentsAfter [Operation.insert mixer] 1 = some mixer ∧
      Earns plainMatching ⟨100, 2, true, true⟩ (plainMatching.toLowercase []) (recordOf 0 mixer) (.subsequence 0) ∧
      (indexAfter (fun _ _ => false) [Operation.insert mixer]).search plainMatching id [] ⟨100, 2, true, true⟩ = []) ∧
      LeftOut (2 ^ 32 + 1) := by
  refine ⟨⟨rfl, .subsequence rfl ?_, rfl⟩, leftOut (Nat.lt_succ_self (2 ^ 32))⟩
  decide

end Myko.Search.Typed

import Mathlib.Data.List.Sort
import Mathlib.Order.Basic

/-!
The best few of a list of entries with scores. Entries of one score may come in any order, so a list may have
several such choices.
-/

namespace Myko.Ranking

variable {α β S : Type*} [LinearOrder S] (score : α → S) {limit : Nat} {entries result : List α} {a b : α}

/-- The first entries, up to a limit, of a list of all entries with the better scores first. -/
def Best (limit : Nat) (entries result : List α) : Prop :=
  ∃ ranked : List α, ranked.Perm entries ∧ ranked.Pairwise (fun a b => score b ≤ score a) ∧ result = ranked.take limit

/-- The ranking that a stable sort makes of the entries. -/
def rank (entries : List α) : List α := entries.mergeSort fun a b => decide (score b ≤ score a)

variable {score}

theorem rank_perm (entries : List α) : (rank score entries).Perm entries := List.mergeSort_perm entries _

theorem rank_sorted (entries : List α) : (rank score entries).Pairwise fun a b => score b ≤ score a := by
  have sorted : (rank score entries).Pairwise fun a b => decide (score b ≤ score a) = true :=
    List.pairwise_mergeSort (fun a b c => by simpa using fun first second => le_trans second first)
      (fun a b => by simpa using le_total (score b) (score a)) entries
  exact sorted.imp of_decide_eq_true

/-- Which of the best entries a stable sort gives depends on the order it is given them in. -/
theorem best_iff_rank :
    Best score limit entries result ↔
      ∃ order : List α, order.Perm entries ∧ (rank score order).take limit = result := by
  constructor
  · rintro ⟨ranked, perm, sorted, rfl⟩
    refine ⟨ranked, perm, ?_⟩
    rw [rank, List.mergeSort_of_pairwise (sorted.imp decide_eq_true)]
  · rintro ⟨order, perm, rfl⟩
    exact ⟨rank score order, (rank_perm order).trans perm, rank_sorted order, rfl⟩

namespace Best

theorem length_le (best : Best score limit entries result) : result.length ≤ limit := by
  obtain ⟨ranked, -, -, rfl⟩ := best
  exact List.length_take_le limit ranked

theorem sorted (best : Best score limit entries result) :
    result.Pairwise fun a b => score b ≤ score a := by
  obtain ⟨ranked, -, sorted, rfl⟩ := best
  exact sorted.sublist (List.take_sublist limit ranked)

theorem mem (best : Best score limit entries result) (found : a ∈ result) : a ∈ entries := by
  obtain ⟨ranked, perm, -, rfl⟩ := best
  exact perm.mem_iff.mp (List.mem_of_mem_take found)

theorem nodup_map {key : α → β} (best : Best score limit entries result) (nodup : (entries.map key).Nodup) :
    (result.map key).Nodup := by
  obtain ⟨ranked, perm, -, rfl⟩ := best
  exact ((perm.map key).nodup_iff.mpr nodup).sublist ((List.take_sublist limit ranked).map key)

/-- Nothing is left out where there is room for all. -/
theorem perm (best : Best score limit entries result) (room : entries.length ≤ limit) : result.Perm entries := by
  obtain ⟨ranked, perm, -, rfl⟩ := best
  rw [List.take_of_length_le (perm.length_eq ▸ room)]
  exact perm

/-- An entry is left out for want of room, by better ones or ones as good. -/
theorem left_out (best : Best score limit entries result) (listed : a ∈ entries) (out : a ∉ result) :
    result.length = limit ∧ ∀ b ∈ result, score a ≤ score b := by
  obtain ⟨ranked, perm, sorted, rfl⟩ := best
  have behind : a ∈ ranked.drop limit := by
    have split := perm.mem_iff.mpr listed
    rw [← List.take_append_drop limit ranked] at split
    exact (List.mem_append.mp split).resolve_left out
  constructor
  · have room : limit < ranked.length := by
      by_contra short
      rw [List.drop_eq_nil_of_le (Nat.le_of_not_lt short)] at behind
      cases behind
    exact List.length_take_of_le (Nat.le_of_lt room)
  · intro b first
    rw [← List.take_append_drop limit ranked, List.pairwise_append] at sorted
    exact sorted.2.2 b first a behind

end Best

/-- A list with better scores first has those that meet a threshold first. -/
theorem filter_append_filter {entries : List α} (kept : α → Bool)
    (sorted : entries.Pairwise fun a b => score b ≤ score a)
    (above : ∀ a ∈ entries, ∀ b ∈ entries, kept a = true → kept b = false → score b < score a) :
    entries.filter kept ++ entries.filter (fun a => !kept a) = entries := by
  induction entries with
  | nil => rfl
  | cons first rest ih =>
    have tail := ih sorted.of_cons fun a ha b hb =>
      above a (List.mem_cons_of_mem _ ha) b (List.mem_cons_of_mem _ hb)
    cases here : kept first with
    | true =>
      rw [List.filter_cons_of_pos here, List.filter_cons_of_neg (by simp [here]), List.cons_append, tail]
    | false =>
      have none_kept : rest.filter kept = [] := by
        rw [List.filter_eq_nil_iff]
        intro b later kept_b
        have better := above b (List.mem_cons_of_mem _ later) first List.mem_cons_self kept_b here
        exact absurd (List.rel_of_pairwise_cons sorted later) (not_le_of_gt better)
      rw [none_kept, List.nil_append] at tail
      rw [List.filter_cons_of_neg (by simp [here]), none_kept, List.nil_append,
        List.filter_cons_of_pos (by simp [here]), tail]

/-- Where the entries that meet a threshold fill the list, the others do not matter. -/
theorem best_filter {kept : α → Bool}
    (above : ∀ a ∈ entries, ∀ b ∈ entries, kept a = true → kept b = false → score b < score a)
    (full : limit ≤ (entries.filter kept).length) :
    Best score limit (entries.filter kept) result ↔ Best score limit entries result := by
  constructor
  · rintro ⟨ranked, perm, sorted, rfl⟩
    have kept_ranked : ∀ a ∈ ranked, a ∈ entries ∧ kept a = true := fun a ranked_a =>
      List.mem_filter.mp (perm.mem_iff.mp ranked_a)
    let rest := entries.filter fun a => !kept a
    refine ⟨ranked ++ rank score rest, ?_, ?_, ?_⟩
    · exact (perm.append (rank_perm rest)).trans (List.filter_append_perm kept entries)
    · refine List.pairwise_append.mpr ⟨sorted, rank_sorted rest, fun a first b later => ?_⟩
      obtain ⟨listed, dropped⟩ := List.mem_filter.mp ((rank_perm rest).mem_iff.mp later)
      have better := above a (kept_ranked a first).1 b listed (kept_ranked a first).2 (by simpa using dropped)
      exact le_of_lt better
    · rw [List.take_append_of_le_length (perm.length_eq ▸ full)]
  · rintro ⟨ranked, perm, sorted, rfl⟩
    have split := filter_append_filter kept sorted fun a ha b hb =>
      above a (perm.mem_iff.mp ha) b (perm.mem_iff.mp hb)
    refine ⟨ranked.filter kept, perm.filter kept, sorted.filter _, ?_⟩
    have full_ranked : limit ≤ (ranked.filter kept).length := (perm.filter kept).length_eq ▸ full
    calc ranked.take limit = (ranked.filter kept ++ ranked.filter fun a => !kept a).take limit := by rw [split]
      _ = (ranked.filter kept).take limit := List.take_append_of_le_length full_ranked

/-- Every order of the images is that of some order of the entries. -/
theorem exists_order_of_map {f : α → β} {images : List β} (perm : images.Perm (entries.map f)) :
    ∃ order : List α, order.Perm entries ∧ order.map f = images := by
  generalize mapped : entries.map f = targets at perm
  induction perm generalizing entries with
  | nil => exact ⟨[], by rw [List.map_eq_nil_iff.mp mapped], rfl⟩
  | cons image _ ih =>
    obtain ⟨first, rest, rfl, rfl, rest_mapped⟩ := List.map_eq_cons_iff.mp mapped
    obtain ⟨order, same, order_mapped⟩ := ih rest_mapped
    exact ⟨first :: order, same.cons first, by rw [List.map_cons, order_mapped]⟩
  | swap image image' images =>
    obtain ⟨first, rest, rfl, rfl, rest_mapped⟩ := List.map_eq_cons_iff.mp mapped
    obtain ⟨second, others, rfl, rfl, rfl⟩ := List.map_eq_cons_iff.mp rest_mapped
    exact ⟨second :: first :: others, .swap first second others, rfl⟩
  | trans _ _ ih ih' =>
    obtain ⟨order', same', mapped'⟩ := ih' mapped
    obtain ⟨order, same, order_mapped⟩ := ih mapped'
    exact ⟨order, same.trans same', order_mapped⟩

/-- The best entries by the score of what each of them stands for. -/
theorem best_filterMap {score' : β → S} {f : α → Option β} {result : List β}
    (total : ∀ a ∈ entries, ∃ b, f a = some b ∧ score' b = score a) :
    Best score' limit (entries.filterMap f) result ↔
      ∃ found, Best score limit entries found ∧ found.filterMap f = result := by
  have images : ∀ order : List α, (∀ a ∈ order, a ∈ entries) → (order.filterMap f).map some = order.map f := by
    intro order within
    induction order with
    | nil => rfl
    | cons a rest ih =>
      obtain ⟨b, stands, -⟩ := total a (within a List.mem_cons_self)
      rw [List.filterMap_cons_some stands, List.map_cons, List.map_cons, stands,
        ih fun a later => within a (List.mem_cons_of_mem _ later)]
  have by_score : ∀ order : List α, (∀ a ∈ order, a ∈ entries) →
      ((order.filterMap f).Pairwise (fun a b => score' b ≤ score' a) ↔
        order.Pairwise fun a b => score b ≤ score a) := by
    intro order within
    rw [List.pairwise_filterMap]
    refine List.Pairwise.iff_of_mem fun {a b} ha hb => ?_
    obtain ⟨a', stands, same⟩ := total a (within a ha)
    obtain ⟨b', stands', same'⟩ := total b (within b hb)
    simp [stands, stands', same, same']
  have first : ∀ order : List α, (∀ a ∈ order, a ∈ entries) →
      (order.take limit).filterMap f = (order.filterMap f).take limit := by
    intro order within
    apply List.map_injective_iff.mpr (Option.some_injective β)
    rw [images _ fun a found => within a (List.mem_of_mem_take found), List.map_take, List.map_take,
      images order within]
  constructor
  · rintro ⟨ranked, perm, sorted, rfl⟩
    obtain ⟨order, same, mapped⟩ : ∃ order : List α, order.Perm entries ∧ order.map f = ranked.map some := by
      apply exists_order_of_map
      rw [← images entries fun a listed => listed]
      exact perm.map some
    have within : ∀ a ∈ order, a ∈ entries := fun a => same.mem_iff.mp
    have found : order.filterMap f = ranked := by
      apply List.map_injective_iff.mpr (Option.some_injective β)
      rw [images order within, mapped]
    subst found
    exact ⟨order.take limit, ⟨order, same, (by_score order within).mp sorted, rfl⟩, first order within⟩
  · rintro ⟨found, ⟨order, same, sorted, rfl⟩, rfl⟩
    have within : ∀ a ∈ order, a ∈ entries := fun a => same.mem_iff.mp
    exact ⟨order.filterMap f, same.filterMap f, (by_score order within).mpr sorted, first order within⟩

end Myko.Ranking

import Mathlib.Data.List.Induction
import Mathlib.Data.Set.Basic
import Mathlib.Logic.Function.Basic
import Mathlib.Tactic.Common

/-!
Inverted indexes kept by old and new keys. An index files every id of a map under the keys of its
value; a change of one id takes it from under its old keys and files it under its new ones. `refile`
says what one change does, `refileAll` what a batch does when the old keys are always the ones the
id had before the batch.
-/

namespace SecondaryIndex

variable {K I : Type}

/-- Which ids stand under which key. -/
abbrev Entries (K I : Type) := K → I → Prop

/-- The index holds exactly the ids that have a key, each under its keys. -/
def Exact (entries : Entries K I) (keys : I → Set K) : Prop :=
  ∀ k i, entries k i ↔ k ∈ keys i

/-- The index holds every id under each of its keys, perhaps among others. -/
def Covers (entries : Entries K I) (keys : I → Set K) : Prop :=
  ∀ k i, k ∈ keys i → entries k i

theorem Exact.covers {entries : Entries K I} {keys : I → Set K} (exact : Exact entries keys) :
    Covers entries keys := fun k i h => (exact k i).mpr h

/-- Take `i` from under `old`, then file it under `new`. -/
def refile (entries : Entries K I) (i : I) (old new : Set K) : Entries K I := fun k j =>
  (entries k j ∧ ¬(j = i ∧ k ∈ old)) ∨ (j = i ∧ k ∈ new)

/-- A batch of changes. Every id is taken from under the keys it had before the batch. -/
def refileAll (old : I → Set K) (entries : Entries K I) : List (I × Set K) → Entries K I
  | [] => entries
  | change :: rest => refileAll old (refile entries change.1 (old change.1) change.2) rest

theorem refileAll_append (old : I → Set K) (entries : Entries K I) (first rest : List (I × Set K)) :
    refileAll old entries (first ++ rest) = refileAll old (refileAll old entries first) rest := by
  induction first generalizing entries with
  | nil => rfl
  | cons change first ih => exact ih _

theorem Covers.refile [DecidableEq I] {entries : Entries K I} {keys : I → Set K}
    (covers : Covers entries keys) (i : I) (old new : Set K) :
    Covers (refile entries i old new) (Function.update keys i new) := by
  intro k j due
  by_cases same : j = i
  · subst same
    exact .inr ⟨rfl, by simpa using due⟩
  · rw [Function.update_of_ne same] at due
    exact .inl ⟨covers k j due, fun h => same h.1⟩

section
variable [DecidableEq I]

/-- The key sets a batch gives to one id, in order. -/
def keysOf (changes : List (I × Set K)) (i : I) : List (Set K) :=
  (changes.filter fun change => change.1 = i).map Prod.snd

/-- The keys of an id after a batch: the last ones given to it, else the ones it had. -/
def keysAfter (old : I → Set K) (changes : List (I × Set K)) (i : I) : Set K :=
  ((keysOf changes i).getLast?).getD (old i)

@[simp] theorem keysOf_nil (i : I) : keysOf ([] : List (I × Set K)) i = [] := rfl

theorem keysOf_append (first rest : List (I × Set K)) (i : I) :
    keysOf (first ++ rest) i = keysOf first i ++ keysOf rest i := by
  simp [keysOf]

theorem keysOf_cons (change : I × Set K) (rest : List (I × Set K)) (i : I) :
    keysOf (change :: rest) i = if change.1 = i then change.2 :: keysOf rest i else keysOf rest i := by
  by_cases same : change.1 = i <;> simp [keysOf, same]

theorem keysOf_concat (changes : List (I × Set K)) (i j : I) (new : Set K) :
    keysOf (changes ++ [(i, new)]) j = if i = j then keysOf changes j ++ [new] else keysOf changes j := by
  by_cases same : i = j <;> simp [keysOf, same]

theorem keysAfter_nil (old : I → Set K) (i : I) : keysAfter old [] i = old i := rfl

theorem keysAfter_concat (old : I → Set K) (changes : List (I × Set K)) (i j : I) (new : Set K) :
    keysAfter old (changes ++ [(i, new)]) j = if i = j then new else keysAfter old changes j := by
  by_cases same : i = j <;> simp [keysAfter, keysOf_concat, same]

theorem keysAfter_mem (old : I → Set K) (changes : List (I × Set K)) (i : I) :
    keysAfter old changes i = old i ∨ keysAfter old changes i ∈ keysOf changes i := by
  unfold keysAfter
  cases last : (keysOf changes i).getLast? with
  | none => exact .inl rfl
  | some keys => exact .inr (List.mem_of_getLast? last)

theorem mem_keysOf {changes : List (I × Set K)} {i : I} {keys : Set K} :
    keys ∈ keysOf changes i ↔ (i, keys) ∈ changes := by
  simp [keysOf]

/-- A batch never loses an entry that is due, whatever it takes for the old keys. -/
theorem Covers.refileAll {entries : Entries K I} {keys old : I → Set K}
    (covers : Covers entries keys) (changes : List (I × Set K)) :
    Covers (refileAll old entries changes) (keysAfter keys changes) := by
  induction changes using List.reverseRecOn with
  | nil => exact covers
  | append_singleton changes change ih =>
    obtain ⟨i, new⟩ := change
    rw [refileAll_append]
    have step := Covers.refile ih i (old i) new
    intro k j due
    apply step
    rw [keysAfter_concat] at due
    by_cases same : i = j
    · subst same
      simpa using due
    · rw [Function.update_of_ne (Ne.symm same)]
      simpa [same] using due

/-- Changes made one after the other. Every id is taken from under the keys it has by then. -/
def refileEach (old : I → Set K) (entries : Entries K I) : List (I × Set K) → Entries K I
  | [] => entries
  | change :: rest =>
    refileEach (Function.update old change.1 change.2) (refile entries change.1 (old change.1) change.2) rest

theorem refileEach_concat (old : I → Set K) (entries : Entries K I) (changes : List (I × Set K)) (i : I)
    (new : Set K) : refileEach old entries (changes ++ [(i, new)]) =
      refile (refileEach old entries changes) i (keysAfter old changes i) new := by
  induction changes generalizing old entries with
  | nil => rfl
  | cons change rest ih =>
    obtain ⟨j, given⟩ := change
    rw [List.cons_append, refileEach, ih, refileEach]
    congr 1
    unfold keysAfter
    rw [keysOf_cons]
    by_cases same : j = i
    · subst same
      rw [if_pos rfl, Function.update_self, List.getLast?_cons]
      rfl
    · rw [if_neg same, Function.update_of_ne (Ne.symm same)]

/-- What changes made one after the other leave: an id with changes stands under its last keys, and where
it stood astray as long as no change gave it that key. -/
theorem refileEach_iff (old : I → Set K) (entries : Entries K I) (changes : List (I × Set K)) (k : K) (i : I) :
    refileEach old entries changes k i ↔
      (keysOf changes i = [] ∧ entries k i) ∨ (keysOf changes i ≠ [] ∧ k ∈ keysAfter old changes i) ∨
        (keysOf changes i ≠ [] ∧ entries k i ∧ k ∉ old i ∧ ∀ given ∈ keysOf changes i, k ∉ given) := by
  induction changes using List.reverseRecOn with
  | nil => simp [refileEach]
  | append_singleton changes change ih =>
    obtain ⟨j, new⟩ := change
    rw [refileEach_concat, keysAfter_concat, keysOf_concat]
    unfold refile
    rw [ih]
    by_cases same : j = i
    · subst same
      have last : keysOf changes j ≠ [] → keysAfter old changes j ∈ keysOf changes j := by
        intro some
        unfold keysAfter
        rw [List.getLast?_eq_some_getLast some]
        exact List.getLast_mem some
      have first : keysOf changes j = [] → keysAfter old changes j = old j := by
        intro none
        unfold keysAfter
        rw [none]
        rfl
      simp only [true_and, ↓reduceIte, List.mem_append, List.mem_singleton]
      by_cases none : keysOf changes j = []
      · rw [first none]
        simp [none]
        tauto
      · have given := last none
        simp only [ne_eq, none, not_false_eq_true, List.append_eq_nil_iff, List.cons_ne_self, and_self,
          false_and, true_and, false_or]
        constructor
        · rintro (⟨filed | ⟨stray, fresh, unset⟩, left⟩ | filed)
          · exact absurd filed left
          · by_cases filed : k ∈ new
            · exact .inl filed
            · refine .inr ⟨stray, fresh, ?_⟩
              rintro other (member | rfl)
              · exact unset other member
              · exact filed
          · exact .inl filed
        · rintro (filed | ⟨stray, fresh, unset⟩)
          · exact .inr filed
          · exact .inl ⟨.inr ⟨stray, fresh, fun other member => unset other (.inl member)⟩,
              unset _ (.inl given)⟩
    · simp [same, Ne.symm same]

/-- What a batch leaves in any index. -/
theorem refileAll_cases (old : I → Set K) (entries : Entries K I) (changes : List (I × Set K)) (k : K) (i : I) :
    refileAll old entries changes k i ↔
      (keysOf changes i = [] ∧ entries k i) ∨ (keysOf changes i ≠ [] ∧ k ∈ keysAfter old changes i) ∨
        (keysOf changes i ≠ [] ∧ k ∉ old i ∧ (entries k i ∨ ∃ given ∈ keysOf changes i, k ∈ given)) := by
  induction changes using List.reverseRecOn with
  | nil => simp [refileAll]
  | append_singleton changes change ih =>
    obtain ⟨j, new⟩ := change
    rw [refileAll_append, keysAfter_concat, keysOf_concat]
    change SecondaryIndex.refile (refileAll old entries changes) j (old j) new k i ↔ _
    unfold SecondaryIndex.refile
    rw [ih]
    by_cases same : j = i
    · subst same
      simp only [true_and, ↓reduceIte, List.mem_append, List.mem_singleton]
      by_cases none : keysOf changes j = []
      · simp [none]
        tauto
      · have given : keysAfter old changes j ∈ keysOf changes j := by
          unfold keysAfter
          rw [List.getLast?_eq_some_getLast none]
          exact List.getLast_mem none
        simp only [ne_eq, none, not_false_eq_true, List.append_eq_nil_iff, List.cons_ne_self, and_self,
          false_and, true_and, false_or]
        constructor
        · rintro (⟨filed | ⟨-, stray | ⟨other, member, filed⟩⟩, fresh⟩ | filed)
          · exact .inr ⟨fresh, .inr ⟨_, .inl given, filed⟩⟩
          · exact .inr ⟨fresh, .inl stray⟩
          · exact .inr ⟨fresh, .inr ⟨other, .inl member, filed⟩⟩
          · exact .inl filed
        · rintro (filed | ⟨fresh, stray | ⟨other, member | rfl, filed⟩⟩)
          · exact .inr filed
          · exact .inl ⟨.inr ⟨fresh, .inl stray⟩, fresh⟩
          · exact .inl ⟨.inr ⟨fresh, .inr ⟨other, member, filed⟩⟩, fresh⟩
          · exact .inr filed
    · simp [same, Ne.symm same]

/-- What a batch leaves in an index that was exact before it: every id under its keys now, and under
each key the batch gave it that is not one it had before. -/
theorem refileAll_iff {entries : Entries K I} {old : I → Set K} (exact : Exact entries old)
    (changes : List (I × Set K)) (k : K) (i : I) :
    refileAll old entries changes k i ↔
      k ∈ keysAfter old changes i ∨ (k ∉ old i ∧ ∃ given ∈ keysOf changes i, k ∈ given) := by
  induction changes using List.reverseRecOn with
  | nil => simpa [refileAll, keysAfter_nil] using exact k i
  | append_singleton changes change ih =>
    obtain ⟨j, new⟩ := change
    rw [refileAll_append, keysAfter_concat, keysOf_concat]
    change SecondaryIndex.refile (refileAll old entries changes) j (old j) new k i ↔ _
    unfold SecondaryIndex.refile
    rw [ih]
    by_cases same : j = i
    · subst same
      simp only [true_and, ↓reduceIte, List.mem_append, List.mem_singleton]
      constructor
      · rintro (⟨after | ⟨fresh, given, member, filed⟩, fresh'⟩ | filed)
        · rcases keysAfter_mem old changes j with kept | given
          · exact absurd (kept ▸ after) fresh'
          · exact .inr ⟨fresh', _, .inl given, after⟩
        · exact .inr ⟨fresh, given, .inl member, filed⟩
        · exact .inl filed
      · rintro (filed | ⟨fresh, given, member | rfl, filed⟩)
        · exact .inr filed
        · exact .inl ⟨.inr ⟨fresh, given, member, filed⟩, fresh⟩
        · exact .inr filed
    · simp [same, Ne.symm same]

theorem keysAfter_of_untouched {old : I → Set K} {changes : List (I × Set K)} {i : I} (none : keysOf changes i = []) :
    keysAfter old changes i = old i := by
  unfold keysAfter
  rw [none]
  rfl

section
variable {old : I → Set K} {entries : Entries K I} {reduced given : List (I × Set K)} {i : I}

/-- An id that no change of a batch is about stands as it does after the same changes one at a time when the
index had it under its old keys, and under no key it is given on the way. -/
theorem untouched_agrees_iff (changed : keysOf given i ≠ []) (none : keysOf reduced i = [])
    (back : keysAfter old given i = old i) :
    (∀ k, refileAll old entries reduced k i ↔ refileEach old entries given k i) ↔
      (∀ k ∉ old i, (∃ keys ∈ keysOf given i, k ∈ keys) → ¬entries k i) ∧ ∀ k ∈ old i, entries k i := by
  have batch : ∀ k, refileAll old entries reduced k i ↔ entries k i := fun k => by
    simp [refileAll_cases, none]
  have each : ∀ k, refileEach old entries given k i ↔
      k ∈ old i ∨ (entries k i ∧ k ∉ old i ∧ ∀ keys ∈ keysOf given i, k ∉ keys) := fun k => by
    simp [refileEach_iff, changed, back]
  simp only [batch, each]
  constructor
  · intro agree
    refine ⟨fun k fresh given held => ?_, fun k filed => (agree k).mpr (.inl filed)⟩
    obtain ⟨keys, listed, filed⟩ := given
    rcases (agree k).mp held with filed' | ⟨-, -, unset⟩
    · exact fresh filed'
    · exact unset keys listed filed
  · rintro ⟨stray, filed⟩ k
    constructor
    · intro held
      by_cases was : k ∈ old i
      · exact .inl was
      · exact .inr ⟨held, was, fun keys among here => stray k was ⟨keys, among, here⟩ held⟩
    · rintro (was | ⟨held, -⟩)
      · exact filed k was
      · exact held

/-- An id that a batch is about stands as it does after more changes one at a time when the batch leaves it
under none of the keys that are given and taken again. -/
theorem touched_agrees_iff (subset : ∀ keys ∈ keysOf reduced i, keys ∈ keysOf given i)
    (some : keysOf reduced i ≠ []) (ends : keysAfter old reduced i = keysAfter old given i) :
    (∀ k, refileAll old entries reduced k i ↔ refileEach old entries given k i) ↔
      ∀ k ∉ old i, k ∉ keysAfter old given i → (∃ keys ∈ keysOf given i, k ∈ keys) →
        (∀ keys ∈ keysOf reduced i, k ∉ keys) ∧ ¬entries k i := by
  have changed : keysOf given i ≠ [] := by
    intro none
    obtain ⟨keys, listed⟩ := List.exists_mem_of_ne_nil _ some
    have listed := subset keys listed
    rw [none] at listed
    cases listed
  have batch : ∀ k, refileAll old entries reduced k i ↔ k ∈ keysAfter old given i ∨
      (k ∉ old i ∧ (entries k i ∨ ∃ keys ∈ keysOf reduced i, k ∈ keys)) := fun k => by
    simp [refileAll_cases, some, ends]
  have each : ∀ k, refileEach old entries given k i ↔ k ∈ keysAfter old given i ∨
      (entries k i ∧ k ∉ old i ∧ ∀ keys ∈ keysOf given i, k ∉ keys) := fun k => by
    simp [refileEach_iff, changed]
  simp only [batch, each]
  constructor
  · rintro agree k fresh left ⟨keys, listed, filed⟩
    have apart : ¬(entries k i ∨ ∃ keys ∈ keysOf reduced i, k ∈ keys) := by
      intro held
      rcases (agree k).mp (.inr ⟨fresh, held⟩) with filed' | ⟨-, -, unset⟩
      · exact left filed'
      · exact unset keys listed filed
    exact ⟨fun keys among here => apart (.inr ⟨keys, among, here⟩), fun held => apart (.inl held)⟩
  · intro balanced k
    refine or_congr_right' fun left => ⟨?_, ?_⟩
    · rintro ⟨fresh, held | ⟨keys, among, filed⟩⟩
      · exact ⟨held, fresh, fun keys among filed => (balanced k fresh left ⟨keys, among, filed⟩).2 held⟩
      · exact absurd filed ((balanced k fresh left ⟨keys, subset keys among, filed⟩).1 keys among)
    · rintro ⟨held, fresh, -⟩
      exact ⟨fresh, .inl held⟩

/-- A batch leaves an id where a sequence that holds its changes leaves it just when neither leaves it under a
key that is not its own in the end. -/
theorem refileAll_refileEach_iff (subset : ∀ keys ∈ keysOf reduced i, keys ∈ keysOf given i)
    (ends : keysAfter old reduced i = keysAfter old given i) :
    (∀ k, refileAll old entries reduced k i ↔ refileEach old entries given k i) ↔
      (keysOf given i ≠ [] →
        (∀ k ∉ old i, k ∉ keysAfter old given i → (∃ keys ∈ keysOf given i, k ∈ keys) →
          (∀ keys ∈ keysOf reduced i, k ∉ keys) ∧ ¬entries k i) ∧
        (keysOf reduced i = [] → ∀ k ∈ old i, entries k i)) := by
  by_cases changed : keysOf given i = []
  · have none : keysOf reduced i = [] := List.eq_nil_iff_forall_not_mem.mpr fun keys listed => by
      have listed := subset keys listed
      rw [changed] at listed
      cases listed
    refine iff_of_true (fun k => ?_) fun some => absurd changed some
    simp [refileAll_cases, refileEach_iff, changed, none]
  by_cases none : keysOf reduced i = []
  · have back : keysAfter old given i = old i := ends ▸ keysAfter_of_untouched none
    rw [untouched_agrees_iff changed none back, back]
    simp only [ne_eq, changed, not_false_eq_true, none, forall_const, List.not_mem_nil, false_imp_iff, true_and]
    exact and_congr_left' (forall_congr' fun k => ⟨fun stray fresh _ => stray fresh, fun stray fresh =>
      stray fresh fresh⟩)
  · rw [touched_agrees_iff subset none ends]
    simp only [ne_eq, changed, not_false_eq_true, none, forall_const, false_imp_iff, and_true]

end

/-- Every key a batch gives on the way is one its id had before or has in the end. -/
def Settled (old : I → Set K) (changes : List (I × Set K)) : Prop :=
  ∀ i, ∀ given ∈ keysOf changes i, ∀ k ∈ given, k ∈ old i ∨ k ∈ keysAfter old changes i

/-- A batch keeps an exact index exact if and only if it is settled. -/
theorem exact_refileAll_iff {entries : Entries K I} {old : I → Set K} (exact : Exact entries old)
    (changes : List (I × Set K)) :
    Exact (refileAll old entries changes) (keysAfter old changes) ↔ Settled old changes := by
  simp only [Exact, refileAll_iff exact, or_iff_left_iff_imp, Settled]
  constructor
  · intro after i given member k filed
    by_cases kept : k ∈ old i
    · exact .inl kept
    · exact .inr (after k i ⟨kept, given, member, filed⟩)
  · rintro settled k i ⟨fresh, given, member, filed⟩
    exact (settled i given member k filed).resolve_left fresh

/-- A batch that names every id at most once is settled. -/
theorem settled_of_nodup (old : I → Set K) {changes : List (I × Set K)}
    (nodup : (changes.map Prod.fst).Nodup) : Settled old changes := by
  intro i given member k filed
  right
  obtain ⟨before, after, rfl⟩ := List.append_of_mem (mem_keysOf.mp member)
  have fresh : keysOf before i = [] ∧ keysOf after i = [] := by
    simp only [List.map_append, List.map_cons, List.nodup_append, List.nodup_cons] at nodup
    refine ⟨List.eq_nil_iff_forall_not_mem.mpr fun keys member => ?_,
      List.eq_nil_iff_forall_not_mem.mpr fun keys member => ?_⟩
    · exact nodup.2.2 i (List.mem_map.mpr ⟨_, mem_keysOf.mp member, rfl⟩) i List.mem_cons_self rfl
    · exact nodup.2.1.1 (List.mem_map.mpr ⟨_, mem_keysOf.mp member, rfl⟩)
  simpa [keysAfter, keysOf_append, keysOf_cons, fresh] using filed

end
end SecondaryIndex

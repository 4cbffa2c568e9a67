import Mathlib.Data.List.Basic
import Mathlib.Data.List.Nodup

/-!
Collecting into a list without repetitions by steps that may fail: a fold fails just when one of its steps
does, and otherwise adds what its steps add.
-/

variable {α β ε : Type}

/-- A step from the list `acc`: it fails just when `bad`, and otherwise adds what `adds` says, once. -/
def Collects (acc : List β) (bad : Prop) (adds : β → Prop) (result : Except ε (List β)) : Prop :=
  (∀ error, result = .error error → bad) ∧
    ∀ out, result = .ok out → ¬bad ∧ (acc.Nodup → out.Nodup) ∧ ∀ b, b ∈ out ↔ b ∈ acc ∨ adds b

namespace Collects

variable {acc : List β} {bad bad' : Prop} {adds adds' : β → Prop} {result : Except ε (List β)}

theorem congr (h : Collects acc bad adds result) (bads : bad ↔ bad') (same : ∀ b, adds b ↔ adds' b) :
    Collects acc bad' adds' result := by
  obtain rfl : bad = bad' := propext bads
  obtain rfl : adds = adds' := funext fun b => propext (same b)
  exact h

theorem error (here : bad) (e : ε) : Collects acc bad adds (.error e : Except ε (List β)) :=
  ⟨fun _ _ => here, fun _ run => by cases run⟩

theorem nothing (fine : ¬bad) (none : ∀ b, ¬adds b) : Collects acc bad adds (pure acc : Except ε (List β)) := by
  refine ⟨fun _ run => (by cases run), fun out run => ?_⟩
  cases run
  exact ⟨fine, id, fun b => (or_iff_left (none b)).symm⟩

theorem nodup_union [BEq β] [LawfulBEq β] (new : List β) (nodup : acc.Nodup) : (new ∪ acc).Nodup := by
  induction new with
  | nil => exact nodup
  | cons b rest ih =>
    rw [List.cons_union]
    by_cases among : b ∈ rest ∪ acc
    · rwa [List.insert_of_mem among]
    · rw [List.insert_of_not_mem among]
      exact List.nodup_cons.mpr ⟨among, ih⟩

theorem union [BEq β] [LawfulBEq β] {new : List β} (fine : ¬bad) (same : ∀ b, adds b ↔ b ∈ new) :
    Collects acc bad adds (pure (new ∪ acc) : Except ε (List β)) := by
  refine ⟨fun _ run => (by cases run), fun out run => ?_⟩
  cases run
  refine ⟨fine, nodup_union new, fun b => ?_⟩
  rw [List.mem_union_iff, same, or_comm]

/-- It fails exactly when it has to. -/
theorem error_iff (h : Collects acc bad adds result) : (∃ e, result = .error e) ↔ bad := by
  cases run : result with
  | error e => exact ⟨fun _ => h.1 e run, fun _ => ⟨e, rfl⟩⟩
  | ok out => exact ⟨fun failed => (by obtain ⟨_, failed⟩ := failed; cases failed), fun here =>
      absurd here (h.2 out run).1⟩

theorem bind {f : List β → Except ε (List β)} (h : Collects acc bad adds result)
    (rest : ∀ mid, result = .ok mid → Collects mid bad' adds' (f mid)) :
    Collects acc (bad ∨ bad') (fun b => adds b ∨ adds' b) (result >>= f) := by
  cases run : result with
  | error e => exact error (.inl (h.1 e run)) e
  | ok mid =>
    obtain ⟨fine, nodup, members⟩ := h.2 mid run
    obtain ⟨failing, passing⟩ := rest mid run
    refine ⟨fun e failed => .inr (failing e failed), fun out ended => ?_⟩
    obtain ⟨fine', nodup', members'⟩ := passing out ended
    refine ⟨not_or.mpr ⟨fine, fine'⟩, fun start => nodup' (nodup start), fun b => ?_⟩
    rw [members', members, or_assoc]

theorem foldlM {f : List β → α → Except ε (List β)} {bads : α → Prop} {adds : α → β → Prop} {items : List α}
    (step : ∀ a ∈ items, ∀ acc, Collects acc (bads a) (adds a) (f acc a)) (acc : List β) :
    Collects acc (∃ a ∈ items, bads a) (fun b => ∃ a ∈ items, adds a b) (items.foldlM f acc) := by
  induction items generalizing acc with
  | nil => exact nothing (by simp) (by simp)
  | cons a rest ih =>
    rw [List.foldlM_cons]
    refine (bind (step a List.mem_cons_self acc) fun mid _ =>
      ih (fun other listed => step other (List.mem_cons_of_mem a listed)) mid).congr ?_ fun b => ?_
    · simp only [List.mem_cons, exists_eq_or_imp]
    · simp only [List.mem_cons, exists_eq_or_imp]

end Collects

/-- A step from the list `acc` that adds at least what `adds` says, and fails whenever `bad`. -/
def Gathers (acc : List β) (bad : Prop) (adds : β → Prop) (result : Except ε (List β)) : Prop :=
  ∀ out, result = .ok out → ¬bad ∧ acc ⊆ out ∧ ∀ b, adds b → b ∈ out

namespace Gathers

variable {acc : List β} {bad bad' : Prop} {adds adds' : β → Prop} {result : Except ε (List β)}

theorem mono (h : Gathers acc bad adds result) (bads : bad' → bad) (less : ∀ b, adds' b → adds b) :
    Gathers acc bad' adds' result := by
  intro out run
  obtain ⟨fine, kept, added⟩ := h out run
  exact ⟨fun here => fine (bads here), kept, fun b here => added b (less b here)⟩

theorem error (e : ε) : Gathers acc bad adds (.error e : Except ε (List β)) := fun _ run => by cases run

/-- What is collected is gathered, and so is less. -/
theorem of_collects (h : Collects acc bad adds result) (bads : bad' → bad) (less : ∀ b, adds' b → adds b) :
    Gathers acc bad' adds' result := by
  intro out run
  obtain ⟨fine, -, members⟩ := h.2 out run
  refine ⟨fun here => fine (bads here), fun b among => (members b).mpr (.inl among), fun b here => ?_⟩
  exact (members b).mpr (.inr (less b here))

theorem bind {f : List β → Except ε (List β)} (h : Gathers acc bad adds result)
    (rest : ∀ mid, Gathers mid bad' adds' (f mid)) :
    Gathers acc (bad ∨ bad') (fun b => adds b ∨ adds' b) (result >>= f) := by
  cases run : result with
  | error e => exact error e
  | ok mid =>
    obtain ⟨fine, kept, added⟩ := h mid run
    intro out ended
    obtain ⟨fine', kept', added'⟩ := rest mid out ended
    refine ⟨not_or.mpr ⟨fine, fine'⟩, List.Subset.trans kept kept', fun b here => ?_⟩
    rcases here with here | here
    · exact kept' (added b here)
    · exact added' b here

theorem foldlM {f : List β → α → Except ε (List β)} {bads : α → Prop} {adds : α → β → Prop} {items : List α}
    (step : ∀ a ∈ items, ∀ acc, Gathers acc (bads a) (adds a) (f acc a)) (acc : List β) :
    Gathers acc (∃ a ∈ items, bads a) (fun b => ∃ a ∈ items, adds a b) (items.foldlM f acc) := by
  induction items generalizing acc with
  | nil => exact of_collects (Collects.nothing id fun _ => id) (by simp) (by simp)
  | cons a rest ih =>
    rw [List.foldlM_cons]
    refine (bind (step a List.mem_cons_self acc) fun mid =>
      ih (fun other listed => step other (List.mem_cons_of_mem a listed)) mid).mono ?_ fun b => ?_
    · simp only [List.mem_cons, exists_eq_or_imp]
      exact id
    · simp only [List.mem_cons, exists_eq_or_imp]
      exact id

end Gathers

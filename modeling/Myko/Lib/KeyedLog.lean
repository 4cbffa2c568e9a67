import Mathlib.Data.List.Basic
import Mathlib.Data.List.Induction

/-!
Logs whose entries write keys: the last entry about a key decides what a replay leaves under it.
-/

namespace KeyedLog

variable {K V E S : Type} [DecidableEq K]

/-- What an entry leaves under a key, when it writes the key at all. -/
def effectOn (effect : E → Option (K × Option V)) (key : K) (entry : E) : Option (Option V) :=
  match effect entry with
  | some (written, value) => if written = key then some value else none
  | none => none

/-- What the last entry about a key leaves under it. -/
def lastEffect (effect : E → Option (K × Option V)) (key : K) (entries : List E) :
    Option (Option V) :=
  (entries.filterMap (effectOn effect key)).getLast?

/-- A store whose step writes what its entry says and nothing else. -/
def Replays (effect : E → Option (K × Option V)) (get : S → K → Option V) (step : S → E → S) : Prop :=
  ∀ store entry key, get (step store entry) key = (effectOn effect key entry).getD (get store key)

variable {effect : E → Option (K × Option V)} {key : K}

@[simp] theorem lastEffect_nil : lastEffect effect key [] = none := rfl

theorem lastEffect_append (first rest : List E) :
    lastEffect effect key (first ++ rest) =
      (lastEffect effect key rest).or (lastEffect effect key first) := by
  simp only [lastEffect, List.filterMap_append, List.getLast?_append]

theorem lastEffect_singleton (entry : E) :
    lastEffect effect key [entry] = effectOn effect key entry := by
  unfold lastEffect
  cases written : effectOn effect key entry <;> simp [written]

theorem lastEffect_concat (entries : List E) (entry : E) :
    lastEffect effect key (entries ++ [entry]) =
      (effectOn effect key entry).or (lastEffect effect key entries) := by
  rw [lastEffect_append, lastEffect_singleton]

theorem lastEffect_cons (entry : E) (rest : List E) :
    lastEffect effect key (entry :: rest) =
      (lastEffect effect key rest).or (effectOn effect key entry) := by
  rw [← List.singleton_append, lastEffect_append, lastEffect_singleton]

theorem lastEffect_eq_none {entries : List E} :
    lastEffect effect key entries = none ↔
      ∀ entry ∈ entries, effectOn effect key entry = none := by
  simp only [lastEffect, List.getLast?_eq_none_iff, List.filterMap_eq_nil_iff]

/-- Entries written again behind a part of them leave what they leave once. -/
theorem lastEffect_again {log settled part batch : List E}
    (same : lastEffect effect key log = lastEffect effect key (settled ++ part)) (first : part <+: batch) :
    lastEffect effect key (log ++ batch) = lastEffect effect key (settled ++ batch) := by
  obtain ⟨rest, rfl⟩ := first
  simp only [lastEffect_append, same]
  cases lastEffect effect key rest with
  | some _ => rfl
  | none =>
    rw [Option.none_or, ← Option.or_assoc, Option.or_self]

/-- Entries that write nothing under a key may be left out. -/
theorem lastEffect_filter {entries : List E} {keep : E → Bool}
    (silent : ∀ entry ∈ entries, keep entry = false → effectOn effect key entry = none) :
    lastEffect effect key (entries.filter keep) = lastEffect effect key entries := by
  induction entries with
  | nil => rfl
  | cons entry rest ih =>
    have later := ih fun e member => silent e (List.mem_cons_of_mem _ member)
    cases kept : keep entry with
    | true => rw [List.filter_cons_of_pos kept, lastEffect_cons, lastEffect_cons, later]
    | false =>
      rw [List.filter_cons_of_neg (by simp [kept]), lastEffect_cons, later,
        silent entry List.mem_cons_self kept, Option.or_none]

/-- Among plain writes the last one of a key is the last one listed for it. -/
theorem lastEffect_some (key : K) (writes : List (K × Option V)) :
    lastEffect some key writes =
      (writes.filter fun write => write.1 = key).getLast?.map Prod.snd := by
  induction writes using List.reverseRecOn with
  | nil => rfl
  | append_singleton writes write ih =>
    rw [lastEffect_concat, List.filter_append, ih]
    by_cases here : write.1 = key
    · simp [effectOn, here]
    · simp [effectOn, here]

/-- After a replay a key holds what the last entry about it left. -/
theorem get_foldl {get : S → K → Option V} {step : S → E → S} (replays : Replays effect get step)
    (entries : List E) (store : S) :
    get (entries.foldl step store) key =
      (lastEffect effect key entries).getD (get store key) := by
  induction entries using List.reverseRecOn with
  | nil => rfl
  | append_singleton entries entry ih =>
    rw [List.foldl_append, lastEffect_concat]
    change get (step _ entry) key = _
    rw [replays, ih]
    cases effectOn effect key entry <;> rfl

end KeyedLog

import Mathlib.Algebra.Ring.Nat
import Mathlib.Data.List.Nodup
import Mathlib.Logic.Function.Basic

/-!
Ids and the slots they are given: dense numbers of 32 bits, so that an index can name an entity by a number.
-/

namespace Myko.Search.Typed

def u32Max : Nat := 2 ^ 32 - 1

theorem getElem?_concat {α : Type} (list : List α) (a : α) (place : Nat) :
    (list ++ [a])[place]? = if place = list.length then some a else list[place]? := by
  rw [List.getElem?_append]
  split
  · next inside => rw [if_neg (Nat.ne_of_lt inside)]
  · next outside =>
    rw [List.getElem?_singleton]
    by_cases last : place = list.length
    · rw [if_pos last, last, Nat.sub_self, if_pos rfl]
    · have behind : list.length < place := Nat.lt_of_le_of_ne (Nat.le_of_not_lt outside) (Ne.symm last)
      rw [if_neg last, if_neg (Nat.sub_ne_zero_of_lt behind), List.getElem?_eq_none (Nat.le_of_lt behind)]

structure IdInterner (Id : Type) where
  forward : Id → Option Nat
  /-- The id of each slot, or nothing for a slot that is free. -/
  reverse : List (Option Id)
  freeList : List Nat

namespace IdInterner

variable {Id : Type}

def new : IdInterner Id where
  forward _ := none
  reverse := []
  freeList := []

def lookup (interner : IdInterner Id) (id : Id) : Option Nat := interner.forward id

def idOf (interner : IdInterner Id) (slot : Nat) : Option Id := interner.reverse[slot]?.join

section
variable [DecidableEq Id]

/-- The slot of an id, which is given one where it has none. -/
def intern (interner : IdInterner Id) (id : Id) : IdInterner Id × Nat :=
  match interner.forward id with
  | some existing => (interner, existing)
  | none =>
    match interner.freeList with
    | reused :: freeList =>
      ({ forward := Function.update interner.forward id (some reused)
         reverse := interner.reverse.set reused (some id)
         freeList }, reused)
    | [] =>
      let newSlot := min interner.reverse.length u32Max
      ({ interner with
         forward := Function.update interner.forward id (some newSlot)
         reverse := interner.reverse ++ [some id] }, newSlot)

/-- Mark the slot of an id as free. -/
def release (interner : IdInterner Id) (id : Id) : IdInterner Id :=
  match interner.forward id with
  | some slot =>
    { forward := Function.update interner.forward id none
      reverse := interner.reverse.set slot none
      freeList := slot :: interner.freeList }
  | none => interner

end

/-- Ids and slots name each other, and what is free names nothing. -/
structure Coherent (interner : IdInterner Id) : Prop where
  slots : ∀ id slot, interner.forward id = some slot ↔ interner.reverse[slot]? = some (some id)
  free : ∀ slot ∈ interner.freeList, interner.reverse[slot]? = some none
  freed_once : interner.freeList.Nodup

variable {interner : IdInterner Id} {id other : Id} {slot : Nat} {ids : List Id}

theorem coherent_new : (new : IdInterner Id).Coherent where
  slots _ _ := ⟨nofun, nofun⟩
  free _ listed := absurd listed List.not_mem_nil
  freed_once := List.nodup_nil

theorem idOf_eq_some : interner.idOf slot = some id ↔ interner.reverse[slot]? = some (some id) := by
  rw [idOf, Option.join_eq_some_iff]

section
variable [DecidableEq Id]

theorem Coherent.intern (coherent : interner.Coherent)
    (room : interner.forward id = none → interner.freeList = [] → interner.reverse.length ≤ u32Max) :
    (interner.intern id).1.Coherent := by
  unfold IdInterner.intern
  cases known : interner.forward id with
  | some existing => exact coherent
  | none =>
    have absent : ∀ slot, interner.reverse[slot]? ≠ some (some id) := fun slot named => by
      rw [← coherent.slots, known] at named
      cases named
    cases listed : interner.freeList with
    | cons reused freeList =>
      have freed := coherent.free reused (by rw [listed]; exact List.mem_cons_self)
      have once := coherent.freed_once
      rw [listed, List.nodup_cons] at once
      refine ⟨fun other slot => ?_, fun slot free => ?_, once.2⟩
      · dsimp only
        rw [Function.update_apply, List.getElem?_set]
        have inside := (List.getElem?_eq_some_iff.mp freed).1
        by_cases same : other = id <;> by_cases here : reused = slot
        · subst same here
          simp [inside]
        · subst same
          simp [here, absent slot]
        · subst here
          rw [if_neg same, if_pos rfl, if_pos inside, coherent.slots, freed]
          simpa using Ne.symm same
        · simp [same, here, coherent.slots]
      · dsimp only at free ⊢
        have different : reused ≠ slot := fun same => once.1 (same ▸ free)
        rw [List.getElem?_set_ne different]
        exact coherent.free slot (by rw [listed]; exact List.mem_cons_of_mem _ free)
    | nil =>
      have newest : min interner.reverse.length u32Max = interner.reverse.length :=
        Nat.min_eq_left (room known listed)
      refine ⟨fun other slot => ?_, fun slot free => ?_, ?_⟩
      · dsimp only
        rw [newest, Function.update_apply, getElem?_concat]
        by_cases same : other = id
        · subst same
          rw [if_pos rfl, Option.some.injEq]
          split
          · next last => exact iff_of_true last.symm rfl
          · next earlier => exact iff_of_false (Ne.symm earlier) (absent slot)
        · rw [if_neg same, coherent.slots]
          split
          · next last =>
            rw [last, List.getElem?_eq_none (Nat.le_refl _)]
            exact iff_of_false nofun fun named => same (Option.some.inj (Option.some.inj named)).symm
          · exact Iff.rfl
      · cases free
      · exact List.nodup_nil

theorem Coherent.release (coherent : interner.Coherent) (id : Id) : (interner.release id).Coherent := by
  unfold IdInterner.release
  cases known : interner.forward id with
  | none => exact coherent
  | some slot =>
    have named := (coherent.slots id slot).mp known
    have inside := (List.getElem?_eq_some_iff.mp named).1
    refine ⟨fun other place => ?_, fun place free => ?_, ?_⟩
    · dsimp only
      rw [Function.update_apply, List.getElem?_set]
      by_cases same : other = id <;> by_cases here : slot = place
      · subst same here
        simp [inside]
      · subst same
        simp only [↓reduceIte, here, reduceCtorEq, false_iff, ← coherent.slots, known]
        simpa using here
      · subst here
        simp only [same, ↓reduceIte, inside, coherent.slots, named]
        simpa using Ne.symm same
      · simp [same, here, coherent.slots]
    · dsimp only at free ⊢
      rw [List.getElem?_set]
      by_cases here : slot = place
      · simp [here, here ▸ inside]
      · rw [if_neg here]
        exact coherent.free place ((List.mem_cons.mp free).resolve_left (Ne.symm here))
    · dsimp only
      rw [List.nodup_cons]
      refine ⟨fun free => ?_, coherent.freed_once⟩
      have nothing := coherent.free slot free
      rw [named] at nothing
      cases nothing

end

/-! ### An interner that frees no slot -/

/-- The slots are the places in a list of ids. -/
structure Interned (interner : IdInterner Id) (ids : List Id) : Prop where
  coherent : interner.Coherent
  reverse : interner.reverse = ids.map some
  none_free : interner.freeList = []

theorem interned_new : (new : IdInterner Id).Interned [] := ⟨coherent_new, rfl, rfl⟩

namespace Interned

theorem lookup_eq_some (interned : interner.Interned ids) : interner.lookup id = some slot ↔ ids[slot]? = some id := by
  rw [lookup, interned.coherent.slots, interned.reverse, List.getElem?_map]
  cases ids[slot]? <;> simp

theorem idOf (interned : interner.Interned ids) : interner.idOf slot = ids[slot]? := by
  rw [IdInterner.idOf, interned.reverse, List.getElem?_map]
  cases ids[slot]? <;> rfl

theorem lookup_eq_none (interned : interner.Interned ids) : interner.lookup id = none ↔ id ∉ ids := by
  rw [← not_iff_not, ← ne_eq, Option.ne_none_iff_exists', not_not, List.mem_iff_getElem?]
  exact exists_congr fun slot => interned.lookup_eq_some

theorem nodup (interned : interner.Interned ids) : ids.Nodup := by
  rw [List.nodup_iff_getElem?_ne_getElem?]
  intro first second before inside same
  obtain ⟨id, named⟩ : ∃ id, ids[second]? = some id := by
    exact ⟨ids[second], List.getElem?_eq_getElem inside⟩
  have there := interned.lookup_eq_some.mpr named
  have here := interned.lookup_eq_some.mpr (same.trans named)
  rw [here] at there
  exact absurd (Option.some.inj there) (Nat.ne_of_lt before)

variable [DecidableEq Id]

theorem intern_known (known : interner.lookup id = some slot) : interner.intern id = (interner, slot) := by
  unfold IdInterner.intern
  rw [show interner.forward id = some slot from known]

theorem intern_slot (interned : interner.Interned ids) (unknown : id ∉ ids) (room : ids.length ≤ u32Max) :
    (interner.intern id).2 = ids.length := by
  have absent : interner.forward id = none := interned.lookup_eq_none.mpr unknown
  unfold IdInterner.intern
  rw [absent, interned.none_free, interned.reverse, List.length_map]
  exact Nat.min_eq_left room

theorem intern (interned : interner.Interned ids) (unknown : id ∉ ids) (room : ids.length ≤ u32Max) :
    (interner.intern id).1.Interned (ids ++ [id]) := by
  have absent : interner.forward id = none := interned.lookup_eq_none.mpr unknown
  refine ⟨interned.coherent.intern fun _ _ => by simpa [interned.reverse] using room, ?_, ?_⟩
  all_goals
    unfold IdInterner.intern
    rw [absent, interned.none_free]
  · simp [interned.reverse]

end Interned

end IdInterner

end Myko.Search.Typed

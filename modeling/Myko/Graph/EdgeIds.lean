import Myko.Lib.MapDiff

/-!
Buckets of edge ids: one id alone, or an ordered set of several.
-/

namespace Myko

inductive EdgeIds where
  | one (id : String)
  | many (ids : OrdSet String)

namespace EdgeIds

def insert (self : EdgeIds) (id : String) : EdgeIds :=
  match self with
  | one existing => if existing = id then one existing else many (((∅ : OrdSet String).insert existing).insert id)
  | many ids => many (ids.insert id)

/-- Remove an id, returning whether the containing map bucket is now empty. -/
def remove (self : EdgeIds) (id : String) : EdgeIds × Bool :=
  match self with
  | one existing => (one existing, existing = id)
  | many ids =>
    let ids := ids.erase id
    match if ids.size = 1 then ids.min? else none with
    | some remaining => (one remaining, ids.isEmpty)
    | none => (many ids, ids.isEmpty)

def ids : EdgeIds → List String
  | one id => [id]
  | many ids => ids.toList

def len : EdgeIds → Nat
  | one _ => 1
  | many ids => ids.size

def isEmpty (self : EdgeIds) : Bool := self.len = 0

def contains (self : EdgeIds) (candidate : String) : Bool :=
  match self with
  | one id => id = candidate
  | many ids => ids.contains candidate

def first : EdgeIds → Option String
  | one id => some id
  | many ids => ids.min?

def conflictingIdIgnoring (self : EdgeIds) (candidate : String) (ignored : List String) :
    Option String :=
  match self with
  | one id => if id ≠ candidate ∧ id ∉ ignored then some id else none
  | many ids => ids.toList.find? fun id => id ≠ candidate ∧ id ∉ ignored

instance : Membership String EdgeIds := ⟨fun self id => id ∈ self.ids⟩

theorem mem_def {self : EdgeIds} {id : String} : id ∈ self ↔ id ∈ self.ids := Iff.rfl

@[simp] theorem mem_one {id candidate : String} : candidate ∈ one id ↔ candidate = id := by
  simp [mem_def, ids]

@[simp] theorem mem_many {ids : OrdSet String} {candidate : String} :
    candidate ∈ many ids ↔ candidate ∈ ids := by
  rw [mem_def, EdgeIds.ids, OrdSet.mem_toList]

/-- Several ids are kept as a set only when there are at least two. -/
def Canonical : EdgeIds → Prop
  | one _ => True
  | many ids => 2 ≤ ids.size

theorem mem_insert {self : EdgeIds} {id candidate : String} :
    candidate ∈ self.insert id ↔ candidate = id ∨ candidate ∈ self := by
  cases self with
  | one existing =>
    by_cases same : existing = id
    · simp [insert, same]
    · rw [insert, if_neg same, mem_many, OrdSet.mem_insert, OrdSet.mem_insert, mem_one]
      simp
  | many ids => rw [insert, mem_many, OrdSet.mem_insert, mem_many]

theorem insert_canonical {self : EdgeIds} (canonical : self.Canonical) (id : String) :
    (self.insert id).Canonical := by
  cases self with
  | one existing =>
    by_cases same : existing = id
    · simp [insert, same, Canonical]
    · rw [insert, if_neg same]
      refine OrdSet.two_le_size.mpr ⟨id, existing, ?_, ?_, Ne.symm same⟩
      · exact OrdSet.mem_insert.mpr (.inl rfl)
      · exact OrdSet.mem_insert.mpr (.inr (OrdSet.mem_insert.mpr (.inl rfl)))
  | many ids =>
    obtain ⟨j, k, hj, hk, different⟩ := OrdSet.two_le_size.mp canonical
    exact OrdSet.two_le_size.mpr
      ⟨j, k, OrdSet.mem_insert.mpr (.inr hj), OrdSet.mem_insert.mpr (.inr hk), different⟩

/-- The ids a set keeps when one is removed, and whether none is left. -/
theorem remove_many (ids : OrdSet String) (id : String) :
    (many ids).remove id =
      (match if (ids.erase id).size = 1 then (ids.erase id).min? else none with
        | some remaining => one remaining
        | none => many (ids.erase id), (ids.erase id).isEmpty) := by
  unfold remove
  dsimp only
  split <;> rfl

theorem remove_empty {self : EdgeIds} {id candidate : String} (empty : (self.remove id).2 = true)
    (member : candidate ∈ self) : candidate = id := by
  cases self with
  | one existing =>
    simp only [remove, decide_eq_true_eq] at empty
    simpa [empty] using member
  | many ids =>
    rw [remove_many, Std.ExtTreeSet.isEmpty_iff] at empty
    by_contra different
    have kept := OrdSet.mem_erase.mpr ⟨different, mem_many.mp member⟩
    simp [empty] at kept

theorem mem_remove {self : EdgeIds} {id candidate : String} (kept : (self.remove id).2 = false) :
    candidate ∈ (self.remove id).1 ↔ candidate ∈ self ∧ candidate ≠ id := by
  cases self with
  | one existing =>
    simp only [remove, decide_eq_false_iff_not] at kept
    simp only [remove, mem_one, iff_self_and]
    rintro rfl
    exact kept
  | many ids =>
    rw [remove_many, mem_many, and_comm, ← OrdSet.mem_erase]
    dsimp only
    split
    · rename_i remaining least
      split at least
      · exact mem_one.trans (OrdSet.mem_of_size_one ‹_› least candidate).symm
      · cases least
    · exact mem_many

theorem remove_canonical {self : EdgeIds} {id : String} (kept : (self.remove id).2 = false) :
    (self.remove id).1.Canonical := by
  cases self with
  | one existing => trivial
  | many ids =>
    rw [remove_many] at kept ⊢
    dsimp only at kept ⊢
    have nonempty : (ids.erase id).size ≠ 0 := by
      intro zero
      rw [Std.ExtTreeSet.eq_empty_iff_size_eq_zero.mpr zero] at kept
      simp at kept
    split
    · trivial
    · rename_i several
      have ne_one : (ids.erase id).size ≠ 1 := by
        intro single
        rw [if_pos single, Std.ExtTreeSet.min?_eq_none_iff] at several
        simp [several] at nonempty
      change 2 ≤ (ids.erase id).size
      omega

/-- Canonical buckets with the same members are the same bucket. -/
theorem Canonical.ext {first second : EdgeIds} (canonical : first.Canonical)
    (canonical' : second.Canonical) (h : ∀ id, id ∈ first ↔ id ∈ second) : first = second := by
  have not_one : ∀ {ids : OrdSet String} {id : String}, 2 ≤ ids.size →
      ¬ ∀ candidate, candidate ∈ ids ↔ candidate = id := by
    intro ids id several only
    obtain ⟨j, k, hj, hk, different⟩ := OrdSet.two_le_size.mp several
    exact different (((only j).mp hj).trans ((only k).mp hk).symm)
  cases first with
  | one id =>
    cases second with
    | one other => simpa using h id
    | many ids => exact absurd (fun candidate => by simpa using (h candidate).symm) (not_one canonical')
  | many ids =>
    cases second with
    | one other => exact absurd (fun candidate => by simpa using h candidate) (not_one canonical)
    | many others =>
      congr 1
      exact OrdSet.ext fun id => by simpa using h id

end EdgeIds
end Myko

import Mathlib.Data.Finset.Sort
import Myko.Graph.Window

/-!
The buckets of the incidence maps as finite sets of ids: after any insertions and removals the bucket of a key
is the set of the ids put under it and not taken away since, and every reader goes through that set in order.
-/

namespace Myko
open Query

def EdgeIds.extendCloned (self : EdgeIds) (target : OrdSet String) : OrdSet String :=
  match self with
  | .one id => target.insert id
  | .many ids => ids.toList.foldl (fun target id => target.insert id) target

inductive IncidenceOp (K : Type) where
  | insert (key : K) (id : String)
  | remove (key : K) (id : String)

section
variable {K : Type} [DecidableEq K]

/-- What an operation does to an incidence map. -/
def IncidenceOp.apply (map : K → Option EdgeIds) : IncidenceOp K → K → Option EdgeIds
  | insert key id => insertIncidence map key id
  | remove key id => removeIncidence map key id

/-- What it does to sets of ids. -/
def IncidenceOp.applySet (sets : K → Finset String) : IncidenceOp K → K → Finset String
  | insert key id => Function.update sets key (Insert.insert id (sets key))
  | remove key id => Function.update sets key ((sets key).erase id)

def incidenceAfter (ops : List (IncidenceOp K)) : K → Option EdgeIds :=
  ops.foldl IncidenceOp.apply fun _ => none

def idsAfter (ops : List (IncidenceOp K)) : K → Finset String := ops.foldl IncidenceOp.applySet fun _ => ∅

end

/-- A bucket that stands for a set. Set and readers agree in every respect, and the bucket says that nothing is left
of it when its last id is removed. -/
structure EdgeIds.StandsFor (bucket : EdgeIds) (set : Finset String) : Prop where
  several : ∀ ids, bucket = .many ids → 2 ≤ ids.size
  emptied : ∀ id, (bucket.remove id).2 = true ↔ set.erase id = ∅
  ids : bucket.ids = set.sort
  len : bucket.len = set.card
  isEmpty : bucket.isEmpty = false
  contains : ∀ candidate, bucket.contains candidate = true ↔ candidate ∈ set
  first : bucket.first = set.sort.head?
  extendCloned : ∀ target id, id ∈ bucket.extendCloned target ↔ id ∈ target ∨ id ∈ set
  conflict : ∀ candidate ignored, bucket.conflictingIdIgnoring candidate ignored =
    set.sort.find? fun id => id ≠ candidate ∧ id ∉ ignored
  unwindowed : bucket.window none = set.sort
  window : ∀ offset limit, bucket.window (some ⟨offset, limit⟩) = (set.sort.drop offset).take limit
  cursorFirst : ∀ limit, bucket.cursorWindow ⟨none, none, limit⟩ = set.sort.take limit
  cursorAfter : ∀ after limit, bucket.cursorWindow ⟨some after, none, limit⟩ =
    (set.sort.filter fun id => after < id).take limit
  cursorBefore : ∀ before limit, bucket.cursorWindow ⟨none, some before, limit⟩ =
    (((set.sort.filter fun id => id < before).reverse).take limit).reverse
  cursorWindow : ∀ window, (bucket.cursorWindow window).Sublist set.sort

/-- An empty bucket stands for the empty set. -/
structure Represents (bucket : Option EdgeIds) (set : Finset String) : Prop where
  vacant : bucket = none ↔ set = ∅
  held : ∀ ids, bucket = some ids → ids.StandsFor set

namespace EdgeIds

variable {self : EdgeIds} {set : Finset String}

theorem Canonical.nonempty (canonical : self.Canonical) : ∃ id, id ∈ self := by
  cases self with
  | one id => exact ⟨id, mem_one.mpr rfl⟩
  | many ids =>
    obtain ⟨id, _, member, -, -⟩ := OrdSet.two_le_size.mp canonical
    exact ⟨id, mem_many.mpr member⟩

theorem remove_empty_iff (self : EdgeIds) (id : String) :
    (self.remove id).2 = true ↔ ∀ candidate ∈ self, candidate = id := by
  refine ⟨fun empty _ member => remove_empty empty member, fun only => ?_⟩
  cases report : (self.remove id).2 with
  | true => rfl
  | false =>
    obtain ⟨candidate, member⟩ := (remove_canonical report).nonempty
    obtain ⟨before, apart⟩ := (mem_remove report).mp member
    exact absurd (only candidate before) apart

theorem sorted_ids (self : EdgeIds) : self.ids.SortedLT := by
  rw [List.sortedLT_iff_pairwise]
  cases self with
  | one id => exact List.pairwise_singleton _ id
  | many ids =>
    have ordered : ids.toList.Pairwise fun a b => compare a b = .lt := Std.ExtTreeSet.ordered_toList
    exact ordered.imp compare_lt_iff_lt.mp

theorem first_eq (self : EdgeIds) : self.first = self.ids.head? := by
  cases self with
  | one id => rfl
  | many ids => exact Std.ExtTreeSet.min?_eq_head?_toList

theorem len_eq (self : EdgeIds) : self.len = self.ids.length := by
  cases self with
  | one id => rfl
  | many ids => exact Std.ExtTreeSet.length_toList.symm

theorem contains_iff {candidate : String} : self.contains candidate = true ↔ candidate ∈ self := by
  cases self with
  | one id =>
    rw [mem_one]
    exact decide_eq_true_iff.trans eq_comm
  | many ids =>
    rw [mem_many]
    exact Std.ExtTreeSet.contains_iff_mem

theorem mem_extendCloned {target : OrdSet String} {id : String} :
    id ∈ self.extendCloned target ↔ id ∈ target ∨ id ∈ self := by
  have folded : ∀ (ids : List String) (target : OrdSet String),
      id ∈ ids.foldl (fun target id => target.insert id) target ↔ id ∈ target ∨ id ∈ ids := by
    intro ids
    induction ids with
    | nil => simp
    | cons other rest ih =>
      intro target
      rw [List.foldl_cons, ih, OrdSet.mem_insert, List.mem_cons, or_assoc, or_left_comm]
  cases self with
  | one other => rw [extendCloned, OrdSet.mem_insert, mem_one, or_comm]
  | many ids => rw [extendCloned, folded, mem_many, OrdSet.mem_toList]

theorem conflictingIdIgnoring_eq (self : EdgeIds) (candidate : String) (ignored : List String) :
    self.conflictingIdIgnoring candidate ignored = self.ids.find? fun id => id ≠ candidate ∧ id ∉ ignored := by
  cases self with
  | one id =>
    rw [conflictingIdIgnoring, ids, List.find?_singleton]
    simp only [decide_eq_true_eq]
  | many ids => rfl

/-- A cursor window with a cursor each way keeps the order as well. -/
theorem cursorWindow_sublist (self : EdgeIds) (window : QueryCursorWindow) :
    (self.cursorWindow window).Sublist self.ids := by
  unfold cursorWindow
  split
  · exact List.nil_sublist _
  · cases self with
    | one id =>
      dsimp only [ids]
      split
      · exact List.Sublist.refl _
      · exact List.nil_sublist _
    | many ids =>
      dsimp only [EdgeIds.ids]
      split
      · exact List.take_sublist _ _
      · refine List.reverse_sublist.mp ?_
        rw [List.reverse_reverse]
        exact (List.take_sublist _ _).trans (List.reverse_sublist.mpr List.filter_sublist)
      · exact (List.take_sublist _ _).trans List.filter_sublist

/-- A canonical bucket stands for the set of its members. -/
theorem standsFor (canonical : self.Canonical) (members : ∀ id, id ∈ self ↔ id ∈ set) : self.StandsFor set := by
  have ids : self.ids = set.sort := by
    refine (sorted_ids self).eq_of_mem_iff set.sortedLT_sort fun id => ?_
    rw [Finset.mem_sort]
    exact members id
  obtain ⟨id, member⟩ := canonical.nonempty
  have filled : self.len ≠ 0 := by
    rw [len_eq]
    exact (List.length_pos_of_mem member).ne'
  exact {
    several := by
      rintro ids rfl
      exact canonical
    emptied := by
      intro id
      rw [remove_empty_iff, Finset.eq_empty_iff_forall_notMem]
      refine forall_congr' fun candidate => ?_
      rw [Finset.mem_erase, members]
      exact ⟨fun only both => both.1 (only both.2), fun none member => by_contra fun apart => none ⟨apart, member⟩⟩
    ids
    len := by rw [len_eq, ids, Finset.length_sort]
    isEmpty := decide_eq_false filled
    contains := fun candidate => contains_iff.trans (members candidate)
    first := by rw [first_eq, ids]
    extendCloned := fun target id => by rw [mem_extendCloned, members]
    conflict := fun candidate ignored => by rw [conflictingIdIgnoring_eq, ids]
    unwindowed := ids
    window := fun offset limit => by
      rw [window_eq, ids]
      rfl
    cursorFirst := fun limit => by
      rw [cursorWindow_eq self rfl, ids]
      rfl
    cursorAfter := fun after limit => by
      rw [cursorWindow_eq self rfl, ids]
      simp only [GraphWindowSelection.page, QueryCursorWindow.page, isLT_compare]
    cursorBefore := fun before limit => by
      rw [cursorWindow_eq self rfl, ids, List.take_reverse, List.reverse_reverse]
      simp only [GraphWindowSelection.page, QueryCursorWindow.page, isLT_compare]
    cursorWindow := fun window => ids ▸ cursorWindow_sublist self window }

end EdgeIds

/-! ### Any sequence of operations -/

/-- A bucket that is there is canonical, and its members are those of the set. -/
structure Tracks (bucket : Option EdgeIds) (set : Finset String) : Prop where
  canonical : ∀ ids, bucket = some ids → ids.Canonical
  members : ∀ id, (∃ ids, bucket = some ids ∧ id ∈ ids) ↔ id ∈ set

section
variable {bucket : Option EdgeIds} {set : Finset String}

theorem Tracks.vacant (tracks : Tracks none set) : set = ∅ := by
  refine Finset.eq_empty_iff_forall_notMem.mpr fun id member => ?_
  obtain ⟨ids, absent, -⟩ := (tracks.members id).mpr member
  cases absent

theorem Tracks.held {ids : EdgeIds} (tracks : Tracks (some ids) set) (id : String) : id ∈ ids ↔ id ∈ set := by
  rw [← tracks.members id]
  constructor
  · exact fun member => ⟨ids, rfl, member⟩
  · rintro ⟨_, same, member⟩
    cases same
    exact member

theorem tracks_some {ids : EdgeIds} (canonical : ids.Canonical) (members : ∀ id, id ∈ ids ↔ id ∈ set) :
    Tracks (some ids) set where
  canonical := by
    rintro _ same
    cases same
    exact canonical
  members id := by
    rw [← members id]
    constructor
    · rintro ⟨_, same, member⟩
      cases same
      exact member
    · exact fun member => ⟨ids, rfl, member⟩

theorem tracks_none : Tracks none ∅ where
  canonical _ absent := by cases absent
  members id := by simp

theorem Tracks.represents (tracks : Tracks bucket set) : Represents bucket set := by
  cases bucket with
  | none => exact ⟨⟨fun _ => tracks.vacant, fun _ => rfl⟩, fun _ absent => by cases absent⟩
  | some ids =>
    have canonical := tracks.canonical ids rfl
    obtain ⟨id, member⟩ := canonical.nonempty
    refine ⟨⟨fun absent => (by cases absent), fun empty => ?_⟩, ?_⟩
    · have among := (tracks.held id).mp member
      rw [empty] at among
      exact absurd among (Finset.notMem_empty id)
    · rintro _ same
      cases same
      exact EdgeIds.standsFor canonical tracks.held

end

section
variable {K : Type} [DecidableEq K] {map : K → Option EdgeIds} {sets : K → Finset String}

theorem tracks_insert (tracks : ∀ key, Tracks (map key) (sets key)) (key : K) (id : String) (other : K) :
    Tracks (insertIncidence map key id other) (Function.update sets key (insert id (sets key)) other) := by
  have here := tracks key
  unfold insertIncidence
  by_cases same : other = key
  · subst same
    cases held : map other with
    | none =>
      rw [held] at here
      dsimp only
      rw [Function.update_self, Function.update_self, here.vacant]
      exact tracks_some trivial fun candidate => by simp
    | some ids =>
      rw [held] at here
      dsimp only
      rw [Function.update_self, Function.update_self]
      refine tracks_some (EdgeIds.insert_canonical (here.canonical ids rfl) id) fun candidate => ?_
      rw [EdgeIds.mem_insert, Finset.mem_insert, here.held]
  · rw [Function.update_of_ne same]
    cases map key with
    | none =>
      dsimp only
      rw [Function.update_of_ne same]
      exact tracks other
    | some ids =>
      dsimp only
      rw [Function.update_of_ne same]
      exact tracks other

theorem tracks_remove (tracks : ∀ key, Tracks (map key) (sets key)) (key : K) (id : String) (other : K) :
    Tracks (removeIncidence map key id other) (Function.update sets key ((sets key).erase id) other) := by
  have here := tracks key
  unfold removeIncidence
  by_cases same : other = key
  · subst same
    rw [Function.update_self]
    cases held : map other with
    | none =>
      rw [held] at here
      dsimp only
      rw [held, here.vacant]
      exact tracks_none
    | some ids =>
      rw [held] at here
      dsimp only
      cases removed : ids.remove id with
      | mk kept empty =>
        cases empty with
        | true =>
          dsimp only
          rw [Function.update_self]
          have none_left : (sets other).erase id = ∅ :=
            ((EdgeIds.standsFor (here.canonical ids rfl) here.held).emptied id).mp (congrArg Prod.snd removed)
          rw [none_left]
          exact tracks_none
        | false =>
          dsimp only
          rw [Function.update_self]
          have report : (ids.remove id).2 = false := congrArg Prod.snd removed
          obtain rfl : (ids.remove id).1 = kept := congrArg Prod.fst removed
          refine tracks_some (EdgeIds.remove_canonical report) fun candidate => ?_
          rw [EdgeIds.mem_remove report, Finset.mem_erase, here.held, and_comm]
  · rw [Function.update_of_ne same]
    cases map key with
    | none => exact tracks other
    | some ids =>
      dsimp only
      cases ids.remove id with
      | mk kept empty =>
        cases empty with
        | true =>
          dsimp only
          rw [Function.update_of_ne same]
          exact tracks other
        | false =>
          dsimp only
          rw [Function.update_of_ne same]
          exact tracks other

theorem tracks_apply (tracks : ∀ key, Tracks (map key) (sets key)) (op : IncidenceOp K) (key : K) :
    Tracks (op.apply map key) (op.applySet sets key) := by
  cases op with
  | insert at_ id => exact tracks_insert tracks at_ id key
  | remove at_ id => exact tracks_remove tracks at_ id key

theorem tracks_after (ops : List (IncidenceOp K)) (key : K) : Tracks (incidenceAfter ops key) (idsAfter ops key) := by
  unfold incidenceAfter idsAfter
  induction ops using List.reverseRecOn generalizing key with
  | nil => exact tracks_none
  | append_singleton ops op ih =>
    rw [List.foldl_append, List.foldl_append]
    exact tracks_apply ih op key

/-- After any operations a bucket of an incidence map is the finite set of the ids under its key. -/
theorem edgeIds_finite_set (ops : List (IncidenceOp K)) (key : K) :
    Represents (incidenceAfter ops key) (idsAfter ops key) := (tracks_after ops key).represents

end
end Myko

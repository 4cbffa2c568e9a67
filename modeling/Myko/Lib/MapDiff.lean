import Mathlib.Data.List.Sort
import Myko.Lib.KeyedLog

/-!
Finite maps under last-write-wins writes, and the diffs that carry writes from one map to another.
-/

/-- A write of a map, as its subscribers see it. -/
inductive MapDiff (K V : Type) where
  | initial (entries : List (K × V))
  | insert (key : K) (value : V)
  | remove (key : K) (oldValue : V)
  | update (key : K) (oldValue newValue : V)
  | batch (changes : List (MapDiff K V))

/-- A map from ordered keys, enumerated in key order. -/
abbrev OrdMap (K V : Type) [Ord K] := Std.ExtTreeMap K V compare

/-- A set of ordered ids, enumerated in order. -/
abbrev OrdSet (K : Type) [Ord K] := Std.ExtTreeSet K compare

namespace OrdMap

variable {K V : Type} [Ord K] [Std.TransOrd K] [Std.LawfulEqOrd K]

/-- Write the entries in order, the last one of a key standing. -/
def insertMany (m : OrdMap K V) (entries : List (K × V)) : OrdMap K V :=
  entries.foldl (fun m entry => m.insert entry.1 entry.2) m

def removeMany (m : OrdMap K V) (keys : List K) : OrdMap K V :=
  keys.foldl (fun m key => m.erase key) m

variable [DecidableEq K]

theorem get_insert (m : OrdMap K V) (k j : K) (v : V) :
    (m.insert k v)[j]? = if j = k then some v else m[j]? := by
  rw [Std.ExtTreeMap.getElem?_insert]
  by_cases same : j = k
  · subst same
    simp
  · rw [if_neg same, if_neg fun h => same (Std.LawfulEqCmp.compare_eq_iff_eq.mp h).symm]

theorem get_erase (m : OrdMap K V) (k j : K) :
    (m.erase k)[j]? = if j = k then none else m[j]? := by
  rw [Std.ExtTreeMap.getElem?_erase]
  by_cases same : j = k
  · subst same
    simp
  · rw [if_neg same, if_neg fun h => same (Std.LawfulEqCmp.compare_eq_iff_eq.mp h).symm]

theorem get_removeMany (m : OrdMap K V) (keys : List K) (j : K) :
    (removeMany m keys)[j]? = if j ∈ keys then none else m[j]? := by
  induction keys generalizing m with
  | nil => simp [removeMany]
  | cons key rest ih =>
    rw [removeMany, List.foldl_cons, ← removeMany, ih, get_erase]
    by_cases here : j = key <;> by_cases later : j ∈ rest <;> simp [here, later]

omit [DecidableEq K] in
theorem ext {m m' : OrdMap K V} (h : ∀ k : K, m[k]? = m'[k]?) : m = m' :=
  Std.ExtTreeMap.ext_getElem? fun k => h k

omit [DecidableEq K] in
theorem mem_toList {m : OrdMap K V} {k : K} {v : V} : (k, v) ∈ m.toList ↔ m[k]? = some v :=
  Std.ExtTreeMap.mem_toList_iff_getElem?_eq_some

omit [DecidableEq K] in
theorem nodup_keys (m : OrdMap K V) : (m.toList.map Prod.fst).Nodup := by
  rw [List.Nodup, List.pairwise_map]
  have distinct : m.toList.Pairwise fun a b => ¬compare a.1 b.1 = .eq :=
    Std.ExtTreeMap.distinct_keys_toList
  exact distinct.imp fun ne same => ne (Std.LawfulEqCmp.compare_eq_iff_eq.mpr same)

end OrdMap

namespace OrdSet

variable {K : Type} [Ord K] [Std.TransOrd K] [Std.LawfulEqOrd K]

theorem mem_insert {s : OrdSet K} {k j : K} : j ∈ s.insert k ↔ j = k ∨ j ∈ s := by
  rw [Std.ExtTreeSet.mem_insert, Std.LawfulEqCmp.compare_eq_iff_eq, eq_comm]

theorem mem_erase {s : OrdSet K} {k j : K} : j ∈ s.erase k ↔ j ≠ k ∧ j ∈ s := by
  rw [Std.ExtTreeSet.mem_erase, ne_eq, Std.LawfulEqCmp.compare_eq_iff_eq, eq_comm]

theorem ext {s t : OrdSet K} (h : ∀ k, k ∈ s ↔ k ∈ t) : s = t :=
  Std.ExtTreeSet.ext_mem fun k => h k

theorem mem_toList {s : OrdSet K} {k : K} : k ∈ s.toList ↔ k ∈ s := Std.ExtTreeSet.mem_toList

theorem nodup_toList (s : OrdSet K) : s.toList.Nodup := by
  have distinct : s.toList.Pairwise fun a b => ¬compare a b = .eq := Std.ExtTreeSet.distinct_toList
  exact distinct.imp fun ne same => ne (Std.LawfulEqCmp.compare_eq_iff_eq.mpr same)

/-- A set of one element is that element. -/
theorem mem_of_size_one {s : OrdSet K} (one : s.size = 1) {k : K} (least : s.min? = some k) (j : K) :
    j ∈ s ↔ j = k := by
  have length : s.toList.length = 1 := by rw [Std.ExtTreeSet.length_toList, one]
  obtain ⟨x, only⟩ := List.length_eq_one_iff.mp length
  have mem : ∀ y, y ∈ s ↔ y = x := fun y => by rw [← mem_toList, only, List.mem_singleton]
  have same : k = x := (mem k).mp (Std.ExtTreeSet.min?_mem least)
  rw [mem j, same]

theorem two_le_size {s : OrdSet K} : 2 ≤ s.size ↔ ∃ j k, j ∈ s ∧ k ∈ s ∧ j ≠ k := by
  rw [← Std.ExtTreeSet.length_toList]
  constructor
  · intro length
    have nodup := nodup_toList s
    match listed : s.toList, length with
    | j :: k :: rest, _ =>
      rw [listed] at nodup
      refine ⟨j, k, mem_toList.mp (by simp [listed]), mem_toList.mp (by simp [listed]), ?_⟩
      rintro rfl
      simp at nodup
  · rintro ⟨j, k, hj, hk, different⟩
    rw [← mem_toList] at hj hk
    match listed : s.toList, hj, hk with
    | [only], hj, hk => exact absurd ((List.mem_singleton.mp hj).trans (List.mem_singleton.mp hk).symm) different
    | _ :: _ :: rest, _, _ => simp

end OrdSet

namespace MapDiff

variable {K V : Type} [Ord K] [Std.TransOrd K]

mutual
/-- What a diff does to a map that holds what the diff was taken from. -/
def apply : MapDiff K V → OrdMap K V → OrdMap K V
  | initial entries, _ => OrdMap.insertMany ∅ entries
  | insert key value, m => m.insert key value
  | remove key _, m => m.erase key
  | update key _ newValue, m => m.insert key newValue
  | batch changes, m => applyAll changes m

def applyAll : List (MapDiff K V) → OrdMap K V → OrdMap K V
  | [], m => m
  | change :: rest, m => applyAll rest (apply change m)
end

theorem applyAll_append (first rest : List (MapDiff K V)) (m : OrdMap K V) :
    applyAll (first ++ rest) m = applyAll rest (applyAll first m) := by
  induction first generalizing m with
  | nil => rfl
  | cons change first ih => exact ih _

mutual
/-- A diff is true of a map when it names the values the map holds and lists no key of a new map twice. -/
def TrueOf : MapDiff K V → OrdMap K V → Prop
  | initial entries, _ => (entries.map Prod.fst).Nodup
  | insert key _, m => m[key]? = none
  | remove key oldValue, m => m[key]? = some oldValue
  | update key oldValue _, m => m[key]? = some oldValue
  | batch changes, m => AllTrueOf changes m

def AllTrueOf : List (MapDiff K V) → OrdMap K V → Prop
  | [], _ => True
  | change :: rest, m => TrueOf change m ∧ AllTrueOf rest (apply change m)
end

mutual
/-- A diff that changes a map, rather than saying what is in it. -/
def Incremental : MapDiff K V → Prop
  | initial _ => False
  | insert _ _ => True
  | remove _ _ => True
  | update _ _ _ => True
  | batch changes => AllIncremental changes

def AllIncremental : List (MapDiff K V) → Prop
  | [] => True
  | change :: rest => Incremental change ∧ AllIncremental rest
end

mutual
/-- The property holds of each entry a diff puts. -/
def AllPuts (holds : K → V → Prop) : MapDiff K V → Prop
  | initial entries => ∀ entry ∈ entries, holds entry.1 entry.2
  | insert key value => holds key value
  | remove _ _ => True
  | update key _ newValue => holds key newValue
  | batch changes => AllPutsOf holds changes

def AllPutsOf (holds : K → V → Prop) : List (MapDiff K V) → Prop
  | [] => True
  | change :: rest => AllPuts holds change ∧ AllPutsOf holds rest
end

mutual
/-- The writes of single keys a diff comes to on a map. -/
def writesOn : MapDiff K V → OrdMap K V → List (K × Option V)
  | initial entries, m =>
    m.toList.map (fun entry => (entry.1, none)) ++ entries.map fun entry => (entry.1, some entry.2)
  | insert key value, _ => [(key, some value)]
  | remove key _, _ => [(key, none)]
  | update key _ newValue, _ => [(key, some newValue)]
  | batch changes, m => allWritesOn changes m

def allWritesOn : List (MapDiff K V) → OrdMap K V → List (K × Option V)
  | [], _ => []
  | change :: rest, m => writesOn change m ++ allWritesOn rest (apply change m)
end

end MapDiff

namespace OrdMap

variable {K V : Type} [Ord K] [Std.TransOrd K] [Std.LawfulEqOrd K] [DecidableEq K]

/-- Write one key, or take it away. -/
def write (m : OrdMap K V) (entry : K × Option V) : OrdMap K V :=
  match entry.2 with
  | some value => m.insert entry.1 value
  | none => m.erase entry.1

def writeAll (m : OrdMap K V) (entries : List (K × Option V)) : OrdMap K V := entries.foldl write m

theorem get_write (m : OrdMap K V) (key : K) (value : Option V) (j : K) :
    (m.write (key, value))[j]? = if j = key then value else m[j]? := by
  cases value with
  | none => exact get_erase m key j
  | some value => exact get_insert m key j value

theorem replays_write : KeyedLog.Replays some (fun (m : OrdMap K V) key => m[key]?) write := by
  intro m entry key
  obtain ⟨written, value⟩ := entry
  cases value with
  | some value =>
    show (m.insert written value)[key]? = _
    rw [get_insert]
    by_cases here : written = key
    · subst here; simp [KeyedLog.effectOn]
    · rw [if_neg (Ne.symm here)]; simp [KeyedLog.effectOn, here]
  | none =>
    show (m.erase written)[key]? = _
    rw [get_erase]
    by_cases here : written = key
    · subst here; simp [KeyedLog.effectOn]
    · rw [if_neg (Ne.symm here)]; simp [KeyedLog.effectOn, here]

/-- After a list of writes a key holds what the last write of it left. -/
theorem get_writeAll (m : OrdMap K V) (entries : List (K × Option V)) (key : K) :
    (writeAll m entries)[key]? = (KeyedLog.lastEffect some key entries).getD m[key]? :=
  KeyedLog.get_foldl replays_write entries m

omit [Std.LawfulEqOrd K] [DecidableEq K] in
theorem writeAll_append (m : OrdMap K V) (first rest : List (K × Option V)) :
    writeAll m (first ++ rest) = writeAll (writeAll m first) rest := List.foldl_append

omit [Std.LawfulEqOrd K] [DecidableEq K] in
theorem insertMany_eq_writeAll (m : OrdMap K V) (entries : List (K × V)) :
    insertMany m entries = writeAll m (entries.map fun entry => (entry.1, some entry.2)) := by
  rw [writeAll, List.foldl_map]
  rfl

/-- Writes that agree with a function leave its values. -/
theorem get_writeAll_of {m : OrdMap K V} {entries : List (K × Option V)} {values : K → Option V}
    (agree : ∀ entry ∈ entries, values entry.1 = entry.2) (key : K) :
    (writeAll m entries)[key]? = if key ∈ entries.map Prod.fst then values key else m[key]? := by
  induction entries using List.reverseRecOn with
  | nil => simp [writeAll]
  | append_singleton entries entry ih =>
    have built : writeAll m (entries ++ [entry]) = (writeAll m entries).write entry := List.foldl_append
    rw [built, get_write, ih fun entry member => agree entry (List.mem_append_left _ member)]
    by_cases here : key = entry.1
    · subst here
      rw [if_pos rfl, if_pos (by simp), agree entry (by simp)]
    · rw [if_neg here]
      exact if_congr (by simp [here]) rfl rfl

/-- Entries that agree with a function write its values. -/
theorem get_insertMany_of {m : OrdMap K V} {entries : List (K × V)} {values : K → Option V}
    (agree : ∀ entry ∈ entries, values entry.1 = some entry.2) (key : K) :
    (insertMany m entries)[key]? = if key ∈ entries.map Prod.fst then values key else m[key]? := by
  induction entries using List.reverseRecOn with
  | nil => simp [insertMany]
  | append_singleton entries entry ih =>
    have built : insertMany m (entries ++ [entry]) = (insertMany m entries).insert entry.1 entry.2 :=
      List.foldl_append
    rw [built, get_insert, ih fun entry member => agree entry (List.mem_append_left _ member)]
    by_cases here : key = entry.1
    · subst here
      rw [if_pos rfl, if_pos (by simp), agree entry (by simp)]
    · rw [if_neg here]
      exact if_congr (by simp [here]) rfl rfl

theorem get_insertMany {entries : List (K × V)} (keys : (entries.map Prod.fst).Nodup) (key : K) (value : V) :
    (insertMany (∅ : OrdMap K V) entries)[key]? = some value ↔ (key, value) ∈ entries := by
  induction entries using List.reverseRecOn with
  | nil => simp [insertMany]
  | append_singleton entries entry ih =>
    rw [List.map_append, List.nodup_append] at keys
    have built : insertMany (∅ : OrdMap K V) (entries ++ [entry]) =
        (insertMany ∅ entries).insert entry.1 entry.2 := List.foldl_append
    rw [built, get_insert, List.mem_append, List.mem_singleton]
    by_cases here : key = entry.1
    · subst here
      rw [if_pos rfl, Option.some.injEq]
      constructor
      · rintro rfl
        exact .inr rfl
      · rintro (early | same)
        · exact absurd rfl (keys.2.2 entry.1 (List.mem_map.mpr ⟨_, early, rfl⟩) entry.1 (by simp))
        · rw [← same]
    · rw [if_neg here, ih keys.1]
      exact ⟨.inl, fun place => place.resolve_right fun same => here (by rw [← same])⟩

/-- A map is rebuilt from its entries. -/
theorem insertMany_toList (m : OrdMap K V) : insertMany ∅ m.toList = m := by
  refine ext fun key => Option.ext fun value => ?_
  rw [get_insertMany (nodup_keys m), mem_toList]

/-- What the entries leave under a key does not depend on the map they are written to, if they write it. -/
theorem get_insertMany_onto (m : OrdMap K V) (entries : List (K × V)) (key : K) :
    (insertMany m entries)[key]? =
      if key ∈ entries.map Prod.fst then (insertMany (∅ : OrdMap K V) entries)[key]? else m[key]? := by
  induction entries using List.reverseRecOn with
  | nil => simp [insertMany]
  | append_singleton entries entry ih =>
    have built (start : OrdMap K V) : insertMany start (entries ++ [entry]) =
        (insertMany start entries).insert entry.1 entry.2 := List.foldl_append
    rw [built, built, get_insert, get_insert, ih]
    by_cases here : key = entry.1
    · rw [if_pos here, if_pos (by simp [here]), if_pos here]
    · rw [if_neg here, if_neg here]
      exact if_congr (by simp [here]) rfl rfl

theorem get_insertMany_absent {entries : List (K × V)} {key : K} (absent : key ∉ entries.map Prod.fst) :
    (insertMany (∅ : OrdMap K V) entries)[key]? = none := by
  rw [get_insertMany_onto, if_neg absent, Std.ExtTreeMap.getElem?_empty]

theorem get_insertMany_cons (key : K) (value : V) (rest : List (K × V)) (other : K) :
    (insertMany (∅ : OrdMap K V) ((key, value) :: rest))[other]? =
      if other ∈ rest.map Prod.fst then (insertMany (∅ : OrdMap K V) rest)[other]?
      else if other = key then some value else none := by
  rw [insertMany, List.foldl_cons, ← insertMany, get_insertMany_onto, get_insert, Std.ExtTreeMap.getElem?_empty]

/-- An entry counts in front of others that do not write its key again. -/
theorem insertMany_cons_inj {key : K} {value other : V} {rest others : List (K × V)}
    (same : rest.map Prod.fst = others.map Prod.fst) :
    insertMany (∅ : OrdMap K V) ((key, value) :: rest) = insertMany ∅ ((key, other) :: others) ↔
      (key ∉ rest.map Prod.fst → value = other) ∧ insertMany (∅ : OrdMap K V) rest = insertMany ∅ others := by
  constructor
  · intro equal
    have values (place : K) := congrArg (fun m : OrdMap K V => m[place]?) equal
    simp only [get_insertMany_cons, ← same] at values
    refine ⟨fun absent => ?_, ext fun place => ?_⟩
    · have here := values key
      rw [if_neg absent, if_neg absent, if_pos rfl, if_pos rfl] at here
      exact Option.some.inj here
    · by_cases written : place ∈ rest.map Prod.fst
      · have here := values place
        rwa [if_pos written, if_pos written] at here
      · rw [get_insertMany_absent written, get_insertMany_absent (same ▸ written)]
  · rintro ⟨alike, equal⟩
    refine ext fun place => ?_
    rw [get_insertMany_cons, get_insertMany_cons, ← same, equal]
    by_cases written : place ∈ rest.map Prod.fst
    · rw [if_pos written, if_pos written]
    · rw [if_neg written, if_neg written]
      by_cases here : place = key
      · subst here
        rw [if_pos rfl, if_pos rfl, alike written]
      · rw [if_neg here, if_neg here]

/-- Taking every key away leaves nothing. -/
theorem writeAll_erase (m : OrdMap K V) :
    writeAll m (m.toList.map fun entry => (entry.1, none)) = ∅ := by
  refine ext fun key => ?_
  rw [get_writeAll, Std.ExtTreeMap.getElem?_empty]
  cases last : KeyedLog.lastEffect some key (m.toList.map fun entry => (entry.1, none)) with
  | none =>
    -- A key that is not taken away was not there.
    cases stored : m[key]? with
    | none => rfl
    | some value =>
      have silent := KeyedLog.lastEffect_eq_none.mp last (key, none)
        (List.mem_map.mpr ⟨(key, value), mem_toList.mpr stored, rfl⟩)
      simp [KeyedLog.effectOn] at silent
  | some value =>
    obtain ⟨write, member, effect⟩ := List.mem_filterMap.mp (List.mem_of_getLast? last)
    obtain ⟨entry, _, rfl⟩ := List.mem_map.mp member
    by_cases here : entry.1 = key
    · simp only [KeyedLog.effectOn, if_pos here, Option.some.injEq] at effect
      rw [← effect]
      rfl
    · simp [KeyedLog.effectOn, here] at effect

end OrdMap

namespace MapDiff

variable {K V : Type} [Ord K] [Std.TransOrd K] [Std.LawfulEqOrd K] [DecidableEq K]

mutual
/-- A diff and the writes it comes to leave the same map. -/
theorem apply_eq_writeAll : ∀ (diff : MapDiff K V) (m : OrdMap K V),
    apply diff m = OrdMap.writeAll m (writesOn diff m)
  | initial entries, m => by
    rw [apply, writesOn, OrdMap.writeAll_append, OrdMap.writeAll_erase, OrdMap.insertMany_eq_writeAll]
  | insert key value, m => rfl
  | remove key _, m => rfl
  | update key _ newValue, m => rfl
  | batch changes, m => by rw [apply, writesOn, applyAll_eq_writeAll changes m]

theorem applyAll_eq_writeAll : ∀ (changes : List (MapDiff K V)) (m : OrdMap K V),
    applyAll changes m = OrdMap.writeAll m (allWritesOn changes m)
  | [], m => rfl
  | change :: rest, m => by
    rw [applyAll, allWritesOn, OrdMap.writeAll_append, ← apply_eq_writeAll change m,
      applyAll_eq_writeAll rest]
end

omit [DecidableEq K] [Std.LawfulEqOrd K] in
theorem allTrueOf_append {first rest : List (MapDiff K V)} {m : OrdMap K V} :
    AllTrueOf (first ++ rest) m ↔ AllTrueOf first m ∧ AllTrueOf rest (applyAll first m) := by
  induction first generalizing m with
  | nil => exact ⟨fun trueRest => ⟨trivial, trueRest⟩, And.right⟩
  | cons change first ih =>
    show TrueOf change m ∧ AllTrueOf (first ++ rest) (apply change m) ↔
      (TrueOf change m ∧ AllTrueOf first (apply change m)) ∧ _
    rw [ih, and_assoc]
    rfl

omit [Ord K] [Std.TransOrd K] [Std.LawfulEqOrd K] [DecidableEq K] in
theorem allIncremental_append {first rest : List (MapDiff K V)} :
    AllIncremental (first ++ rest) ↔ AllIncremental first ∧ AllIncremental rest := by
  induction first with
  | nil => exact ⟨fun later => ⟨trivial, later⟩, And.right⟩
  | cons change first ih =>
    show Incremental change ∧ AllIncremental (first ++ rest) ↔ (Incremental change ∧ AllIncremental first) ∧ _
    rw [ih, and_assoc]

mutual
/-- What holds of the entries of a map and of those a diff puts holds of the entries after it. -/
theorem holds_apply {holds : K → V → Prop} : ∀ (diff : MapDiff K V) (m : OrdMap K V), AllPuts holds diff →
    (∀ (key : K) (value : V), m[key]? = some value → holds key value) →
    ∀ (key : K) (value : V), (apply diff m)[key]? = some value → holds key value
  | initial entries, m, puts, _, key, value, held => by
    rw [apply, OrdMap.insertMany_eq_writeAll, OrdMap.get_writeAll, Std.ExtTreeMap.getElem?_empty] at held
    cases last : KeyedLog.lastEffect some key (entries.map fun entry => (entry.1, some entry.2)) with
    | none =>
      rw [last] at held
      cases held
    | some write =>
      rw [last] at held
      obtain ⟨written, member, effect⟩ := List.mem_filterMap.mp (List.mem_of_getLast? last)
      obtain ⟨entry, listed, rfl⟩ := List.mem_map.mp member
      by_cases here : entry.1 = key
      · simp only [KeyedLog.effectOn, if_pos here, Option.some.injEq] at effect
        rw [← effect] at held
        obtain rfl := Option.some.inj held
        exact here ▸ puts entry listed
      · simp [KeyedLog.effectOn, here] at effect
  | insert own new, m, puts, before, key, value, held => by
    rw [apply, OrdMap.get_insert] at held
    split at held
    · rename_i here
      subst here
      obtain rfl := Option.some.inj held
      exact puts
    · exact before key value held
  | remove own _, m, _, before, key, value, held => by
    rw [apply, OrdMap.get_erase] at held
    split at held
    · cases held
    · exact before key value held
  | update own _ new, m, puts, before, key, value, held => by
    rw [apply, OrdMap.get_insert] at held
    split at held
    · rename_i here
      subst here
      obtain rfl := Option.some.inj held
      exact puts
    · exact before key value held
  | batch changes, m, puts, before, key, value, held => holds_applyAll changes m puts before key value held

theorem holds_applyAll {holds : K → V → Prop} : ∀ (changes : List (MapDiff K V)) (m : OrdMap K V),
    AllPutsOf holds changes → (∀ (key : K) (value : V), m[key]? = some value → holds key value) →
    ∀ (key : K) (value : V), (applyAll changes m)[key]? = some value → holds key value
  | [], _, _, before, key, value, held => before key value held
  | change :: rest, m, puts, before, key, value, held =>
    holds_applyAll rest _ puts.2 (holds_apply change m puts.1 before) key value held
end

end MapDiff

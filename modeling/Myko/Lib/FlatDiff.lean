import Myko.Lib.MapDiff

/-!
A nested diff flattened into a list of puts and removals, and that list into all removals and then all puts. Each step
forgets something: the first that a diff may start over, the second in which order one key was put and removed.
-/

namespace MapDiff

variable {K V : Type}

mutual
/-- The writes a diff names, at any depth. -/
def told : MapDiff K V → List (K × Option V)
  | initial entries => entries.map fun entry => (entry.1, some entry.2)
  | insert key value => [(key, some value)]
  | remove key _ => [(key, none)]
  | update key _ newValue => [(key, some newValue)]
  | batch changes => allTold changes

def allTold : List (MapDiff K V) → List (K × Option V)
  | [] => []
  | change :: rest => told change ++ allTold rest
end

mutual
theorem puts_told {holds : K → V → Prop} : ∀ (diff : MapDiff K V), AllPuts holds diff →
    ∀ key value, (key, some value) ∈ told diff → holds key value
  | initial entries, puts, key, value, member => by
    obtain ⟨entry, listed, same⟩ := List.mem_map.mp member
    cases same
    exact puts entry listed
  | insert _ _, puts, key, value, member => by
    cases List.mem_singleton.mp member
    exact puts
  | remove _ _, _, key, value, member => by cases List.mem_singleton.mp member
  | update _ _ _, puts, key, value, member => by
    cases List.mem_singleton.mp member
    exact puts
  | batch changes, puts, key, value, member => puts_allTold changes puts key value member

theorem puts_allTold {holds : K → V → Prop} : ∀ (changes : List (MapDiff K V)), AllPutsOf holds changes →
    ∀ key value, (key, some value) ∈ allTold changes → holds key value
  | [], _, _, _, member => by cases member
  | change :: rest, puts, key, value, member => by
    rcases List.mem_append.mp member with first | later
    · exact puts_told change puts.1 key value first
    · exact puts_allTold rest puts.2 key value later
end

/-- The writes named so far: those before the map was last started over, and those since. -/
structure Reading (K V : Type) where
  startsOver : Bool
  before : List (K × Option V)
  since : List (K × Option V)

mutual
def read : MapDiff K V → Reading K V → Reading K V
  | initial entries, reading =>
    ⟨true, reading.before ++ reading.since, entries.map fun entry => (entry.1, some entry.2)⟩
  | insert key value, reading => { reading with since := reading.since ++ [(key, some value)] }
  | remove key _, reading => { reading with since := reading.since ++ [(key, none)] }
  | update key _ newValue, reading => { reading with since := reading.since ++ [(key, some newValue)] }
  | batch changes, reading => readAll changes reading

def readAll : List (MapDiff K V) → Reading K V → Reading K V
  | [], reading => reading
  | change :: rest, reading => readAll rest (read change reading)
end

def reading (diff : MapDiff K V) : Reading K V := read diff ⟨false, [], []⟩

mutual
theorem told_read : ∀ (diff : MapDiff K V) (before : Reading K V),
    (read diff before).before ++ (read diff before).since = before.before ++ before.since ++ told diff
  | initial _, _ => rfl
  | insert _ _, _ => (List.append_assoc _ _ _).symm
  | remove _ _, _ => (List.append_assoc _ _ _).symm
  | update _ _ _, _ => (List.append_assoc _ _ _).symm
  | batch changes, before => told_readAll changes before

theorem told_readAll : ∀ (changes : List (MapDiff K V)) (before : Reading K V),
    (readAll changes before).before ++ (readAll changes before).since = before.before ++ before.since ++ allTold changes
  | [], _ => (List.append_nil _).symm
  | change :: rest, before => by
    rw [readAll, told_readAll rest, told_read change, allTold, List.append_assoc]
end

theorem told_reading (diff : MapDiff K V) : (reading diff).before ++ (reading diff).since = told diff :=
  told_read diff _

mutual
theorem before_read : ∀ (diff : MapDiff K V) (before : Reading K V),
    (before.startsOver = false → before.before = []) →
    (read diff before).startsOver = false → (read diff before).before = []
  | initial _, _, _ => fun starts => by cases starts
  | insert _ _, _, empty => empty
  | remove _ _, _, empty => empty
  | update _ _ _, _, empty => empty
  | batch changes, before, empty => before_readAll changes before empty

theorem before_readAll : ∀ (changes : List (MapDiff K V)) (before : Reading K V),
    (before.startsOver = false → before.before = []) →
    (readAll changes before).startsOver = false → (readAll changes before).before = []
  | [], _, empty => empty
  | change :: rest, before, empty => before_readAll rest _ (before_read change before empty)
end

theorem before_reading {diff : MapDiff K V} (keeps : (reading diff).startsOver = false) : (reading diff).before = [] :=
  before_read diff _ (fun _ => rfl) keeps

variable [Ord K] [Std.TransOrd K]

namespace Reading

/-- What the writes since are written to. -/
def base (reading : Reading K V) (m : OrdMap K V) : OrdMap K V := if reading.startsOver then ∅ else m

def result (reading : Reading K V) (m : OrdMap K V) : OrdMap K V := OrdMap.writeAll (reading.base m) reading.since

theorem result_write (reading : Reading K V) (m : OrdMap K V) (write : K × Option V) :
    result { reading with since := reading.since ++ [write] } m = (reading.result m).write write := by
  show OrdMap.writeAll (reading.base m) (reading.since ++ [write]) = _
  rw [OrdMap.writeAll_append]
  rfl

end Reading

mutual
theorem result_read (m : OrdMap K V) : ∀ (diff : MapDiff K V) (before : Reading K V),
    (read diff before).result m = diff.apply (before.result m)
  | initial entries, _ => (OrdMap.insertMany_eq_writeAll ∅ entries).symm
  | insert _ _, before => before.result_write m _
  | remove _ _, before => before.result_write m _
  | update _ _ _, before => before.result_write m _
  | batch changes, before => result_readAll m changes before

theorem result_readAll (m : OrdMap K V) : ∀ (changes : List (MapDiff K V)) (before : Reading K V),
    (readAll changes before).result m = applyAll changes (before.result m)
  | [], _ => rfl
  | change :: rest, before => by
    rw [readAll, result_readAll m rest, result_read m change, applyAll]
end

theorem result_reading (diff : MapDiff K V) (m : OrdMap K V) : (reading diff).result m = diff.apply m :=
  result_read m diff _

end MapDiff

/-! ### Removals first -/

namespace OrdMap

open KeyedLog

variable {K V : Type}

def removals (writes : List (K × Option V)) : List K :=
  (writes.filter fun write => write.2.isNone).map Prod.fst

def puts (writes : List (K × Option V)) : List (K × V) :=
  writes.filterMap fun write => write.2.map fun value => (write.1, value)

theorem mem_removals {writes : List (K × Option V)} {key : K} : key ∈ removals writes ↔ (key, none) ∈ writes := by
  simp only [removals, List.mem_map, List.mem_filter, Option.isNone_iff_eq_none]
  constructor
  · rintro ⟨⟨_, _⟩, ⟨member, rfl⟩, rfl⟩
    exact member
  · intro member
    exact ⟨(key, none), ⟨member, rfl⟩, rfl⟩

variable [DecidableEq K]

/-- No key is removed after it is put, unless it is put again. -/
def Settled (writes : List (K × Option V)) : Prop :=
  ∀ key value, (key, some value) ∈ writes → ∃ last, lastEffect some key writes = some (some last)

theorem lastEffect_puts {writes : List (K × Option V)} {key : K} {value : V}
    (last : lastEffect some key writes = some (some value)) :
    lastEffect some key (writes.filter fun write => write.2.isSome) = some (some value) := by
  induction writes using List.reverseRecOn with
  | nil => cases last
  | append_singleton writes write ih =>
    rw [lastEffect_concat] at last
    rw [List.filter_append, lastEffect_append]
    by_cases here : write.1 = key
    · have effect : effectOn some key write = some write.2 := by simp [effectOn, here]
      rw [effect, Option.some_or, Option.some.injEq] at last
      rw [List.filter_cons_of_pos (by rw [last]; rfl), List.filter_nil, lastEffect_singleton, effect, last, Option.some_or]
    · have effect : effectOn some key write = none := by simp [effectOn, here]
      rw [effect, Option.none_or] at last
      have silent : lastEffect some key ([write].filter fun write => write.2.isSome) = none :=
        lastEffect_eq_none.mpr fun entry member => by
          rw [List.mem_singleton.mp (List.mem_of_mem_filter member)]
          exact effect
      rw [silent, Option.none_or]
      exact ih last

theorem lastEffect_mem {writes : List (K × Option V)} {key : K} {value : Option V}
    (last : lastEffect some key writes = some value) : (key, value) ∈ writes := by
  obtain ⟨write, member, effect⟩ := List.mem_filterMap.mp (List.mem_of_getLast? last)
  by_cases here : write.1 = key
  · simp only [effectOn, if_pos here, Option.some.injEq] at effect
    rw [← here, ← effect]
    exact member
  · simp [effectOn, here] at effect

theorem lastEffect_eq_none_iff {writes : List (K × Option V)} {key : K} :
    lastEffect some key writes = none ↔ key ∉ writes.map Prod.fst := by
  rw [lastEffect_eq_none]
  constructor
  · rintro silent member
    obtain ⟨write, listed, rfl⟩ := List.mem_map.mp member
    simpa [effectOn] using silent write listed
  · intro absent write listed
    have other : write.1 ≠ key := fun same => absent (same ▸ List.mem_map_of_mem listed)
    simp [effectOn, other]

theorem exists_lastEffect_puts {writes : List (K × Option V)} {key : K} {value : V} (put : (key, some value) ∈ writes) :
    ∃ last, lastEffect some key (writes.filter fun write => write.2.isSome) = some (some last) := by
  cases last : lastEffect some key (writes.filter fun write => write.2.isSome) with
  | none =>
    refine absurd (List.mem_map.mpr ⟨_, List.mem_filter.mpr ⟨put, rfl⟩, rfl⟩) (lastEffect_eq_none_iff.mp last)
  | some left =>
    have kept := (List.mem_filter.mp (lastEffect_mem last)).2
    obtain ⟨value, rfl⟩ := Option.isSome_iff_exists.mp kept
    exact ⟨value, rfl⟩

variable [Ord K] [Std.TransOrd K]

omit [DecidableEq K] in
theorem insertMany_puts (m : OrdMap K V) (writes : List (K × Option V)) :
    insertMany m (puts writes) = writeAll m (writes.filter fun write => write.2.isSome) := by
  induction writes generalizing m with
  | nil => rfl
  | cons write rest ih =>
    obtain ⟨key, value⟩ := write
    cases value with
    | none => exact ih m
    | some value => exact ih (m.insert key value)

variable [Std.LawfulEqOrd K]

/-- Removing first and putting then comes to the writes in order just when no key is removed for good after a put. -/
theorem removals_puts_iff (m : OrdMap K V) (writes : List (K × Option V)) :
    insertMany (removeMany m (removals writes)) (puts writes) = writeAll m writes ↔ Settled writes := by
  have left (key : K) : (insertMany (removeMany m (removals writes)) (puts writes))[key]? =
      (lastEffect some key (writes.filter fun write => write.2.isSome)).getD
        (if key ∈ removals writes then none else m[key]?) := by
    rw [insertMany_puts, get_writeAll, get_removeMany]
  constructor
  · intro same key value put
    obtain ⟨last, kept⟩ := exists_lastEffect_puts put
    have found : (insertMany (removeMany m (removals writes)) (puts writes))[key]? = (writeAll m writes)[key]? := by
      rw [same]
    rw [left, kept, get_writeAll] at found
    cases told : lastEffect some key writes with
    | none => exact absurd (List.mem_map_of_mem put) (lastEffect_eq_none_iff.mp told)
    | some value =>
      rw [told] at found
      exact ⟨last, congrArg some found.symm⟩
  · intro settled
    refine ext fun key => ?_
    rw [left, get_writeAll]
    cases told : lastEffect some key writes with
    | none =>
      have absent := lastEffect_eq_none_iff.mp told
      have silent : lastEffect some key (writes.filter fun write => write.2.isSome) = none :=
        lastEffect_eq_none_iff.mpr fun member => absent ((List.filter_sublist.map _).subset member)
      rw [silent, if_neg fun member => absent (List.mem_map_of_mem (mem_removals.mp member))]
    | some value =>
      cases value with
      | some value => rw [lastEffect_puts told]; rfl
      | none =>
        have silent : lastEffect some key (writes.filter fun write => write.2.isSome) = none := by
          rw [lastEffect_eq_none_iff]
          intro member
          obtain ⟨⟨_, put⟩, listed, rfl⟩ := List.mem_map.mp member
          obtain ⟨listed, isPut⟩ := List.mem_filter.mp listed
          obtain ⟨value, rfl⟩ := Option.isSome_iff_exists.mp isPut
          obtain ⟨last, kept⟩ := settled _ value listed
          rw [told] at kept
          cases kept
        rw [silent, if_pos (mem_removals.mpr (lastEffect_mem told))]
        rfl

end OrdMap

/-! ### A flat diff and the diff -/

namespace MapDiff

open OrdMap KeyedLog

variable {K V : Type} [Ord K] [Std.TransOrd K] [Std.LawfulEqOrd K] [DecidableEq K]

/-- What makes the flat diff do to `start` what the diff does to `m`. -/
structure Survives (diff : MapDiff K V) (start m : OrdMap K V) : Prop where
  settled : Settled (told diff)
  /-- A key that is not written since the map is last started over is gone by then. -/
  gone : (reading diff).startsOver = true → ∀ key, key ∉ (reading diff).since.map Prod.fst →
    (∀ value, (key, some value) ∉ (reading diff).before) ∧ (key ∈ start → key ∈ (reading diff).before.map Prod.fst)
  kept : (reading diff).startsOver = false → ∀ key, key ∉ (reading diff).since.map Prod.fst → start[key]? = m[key]?

theorem getElem?_told (diff : MapDiff K V) (start : OrdMap K V) (key : K) :
    (writeAll start (told diff))[key]? =
      (lastEffect some key (reading diff).since).getD
        ((lastEffect some key (reading diff).before).getD start[key]?) := by
  rw [get_writeAll, ← told_reading, lastEffect_append]
  cases lastEffect some key (reading diff).since <;> rfl

theorem getElem?_apply (diff : MapDiff K V) (m : OrdMap K V) (key : K) :
    (diff.apply m)[key]? = (lastEffect some key (reading diff).since).getD ((reading diff).base m)[key]? := by
  rw [← result_reading, Reading.result, get_writeAll]

/-- Under a key that is not written since, the two agree when nothing of before is left. -/
theorem told_eq_apply_iff (diff : MapDiff K V) (start m : OrdMap K V) :
    writeAll start (told diff) = diff.apply m ↔ ∀ key, key ∉ (reading diff).since.map Prod.fst →
      (lastEffect some key (reading diff).before).getD start[key]? = ((reading diff).base m)[key]? := by
  constructor
  · intro same key untouched
    have found : (writeAll start (told diff))[key]? = (diff.apply m)[key]? := by rw [same]
    rw [getElem?_told, getElem?_apply, lastEffect_eq_none_iff.mpr untouched] at found
    exact found
  · intro agree
    refine ext fun key => ?_
    rw [getElem?_told, getElem?_apply]
    cases last : lastEffect some key (reading diff).since with
    | some value => rfl
    | none => exact agree key (lastEffect_eq_none_iff.mp last)

omit [Std.LawfulEqOrd K] in
/-- What is left of before, once the map is started over. -/
theorem gone_iff {diff : MapDiff K V} {start : OrdMap K V} (settled : Settled (told diff)) {key : K}
    (untouched : key ∉ (reading diff).since.map Prod.fst) :
    (lastEffect some key (reading diff).before).getD start[key]? = none ↔
      (∀ value, (key, some value) ∉ (reading diff).before) ∧ (key ∈ start → key ∈ (reading diff).before.map Prod.fst) := by
  cases last : lastEffect some key (reading diff).before with
  | none =>
    have absent := lastEffect_eq_none_iff.mp last
    rw [Option.getD_none, getElem?_eq_none_iff]
    constructor
    · intro missing
      exact ⟨fun value put => absent (List.mem_map_of_mem put), fun member => absurd member missing⟩
    · rintro ⟨-, covered⟩ member
      exact absent (covered member)
  | some value =>
    have written := List.mem_map_of_mem (f := Prod.fst) (lastEffect_mem last)
    rw [Option.getD_some]
    constructor
    · rintro rfl
      refine ⟨fun value put => ?_, fun _ => written⟩
      -- A put would have to be the last of all writes of the key.
      obtain ⟨final, kept⟩ := settled key value (told_reading diff ▸ List.mem_append_left _ put)
      rw [← told_reading, lastEffect_append, lastEffect_eq_none_iff.mpr untouched, Option.none_or, last] at kept
      cases kept
    · rintro ⟨no_put, -⟩
      cases value with
      | none => rfl
      | some value => exact absurd (lastEffect_mem last) (no_put value)

/-- The flat diff, in order and with its removals first, does what the diff does, just when it survives both steps. -/
theorem flat_iff_survives (diff : MapDiff K V) (start m : OrdMap K V) :
    (insertMany (removeMany start (removals (told diff))) (puts (told diff)) = diff.apply m ∧
      writeAll start (told diff) = diff.apply m) ↔ Survives diff start m := by
  have base_over (starts : (reading diff).startsOver = true) (key : K) : ((reading diff).base m)[key]? = none := by
    simp [Reading.base, starts]
  have base_kept (keeps : (reading diff).startsOver = false) : (reading diff).base m = m := by
    simp [Reading.base, keeps]
  constructor
  · rintro ⟨unordered, ordered⟩
    have settled := (removals_puts_iff start (told diff)).mp (unordered.trans ordered.symm)
    have agree := (told_eq_apply_iff diff start m).mp ordered
    refine ⟨settled, fun starts key untouched => ?_, fun keeps key untouched => ?_⟩
    · rw [← gone_iff settled untouched, agree key untouched, base_over starts]
    · have same := agree key untouched
      rwa [before_reading keeps, base_kept keeps] at same
  · rintro ⟨settled, gone, kept⟩
    have ordered : writeAll start (told diff) = diff.apply m := by
      rw [told_eq_apply_iff]
      intro key untouched
      cases starts : (reading diff).startsOver with
      | true => rw [(gone_iff settled untouched).mpr (gone starts key untouched), base_over starts]
      | false =>
        rw [before_reading starts, base_kept starts]
        exact kept starts key untouched
    exact ⟨((removals_puts_iff start (told diff)).mpr settled).trans ordered, ordered⟩

end MapDiff

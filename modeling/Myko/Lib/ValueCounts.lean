import Myko.Lib.MapDiff

/-!
How many keys of a finite map hold each value.
-/

namespace OrdMap

variable {K V W : Type} [Ord K] [Std.TransOrd K] [Std.LawfulEqOrd K] [DecidableEq K]

omit [DecidableEq K] in
theorem nodup_toList (m : OrdMap K V) : m.toList.Nodup := .of_map Prod.fst (nodup_keys m)

theorem erase_absent {m : OrdMap K V} {key : K} (absent : m[key]? = none) : m.erase key = m := by
  refine ext fun other => ?_
  rw [get_erase]
  split
  · rename_i same
    rw [same, absent]
  · rfl

/-- A map is one of its entries and the rest. -/
theorem toList_perm_erase {m : OrdMap K V} {key : K} {value : V} (stored : m[key]? = some value) :
    m.toList.Perm ((key, value) :: (m.erase key).toList) := by
  have apart : (key, value) ∉ (m.erase key).toList := by
    rw [mem_toList, get_erase, if_pos rfl]
    simp
  refine (List.perm_ext_iff_of_nodup (nodup_toList m) (List.nodup_cons.mpr ⟨apart, nodup_toList _⟩)).mpr ?_
  rintro ⟨other, held⟩
  rw [List.mem_cons, mem_toList, mem_toList, get_erase, Prod.mk.injEq]
  by_cases same : other = key
  · subst same
    simp [stored, eq_comm]
  · simp [same]

variable [DecidableEq V]

def valueCount (m : OrdMap K V) (value : V) : Nat := m.toList.countP fun entry => entry.2 = value

theorem valueCount_erase {m : OrdMap K V} {key : K} {held : V} (stored : m[key]? = some held) (value : V) :
    valueCount m value = valueCount (m.erase key) value + if held = value then 1 else 0 := by
  unfold valueCount
  rw [(toList_perm_erase stored).countP_eq, List.countP_cons]
  simp

theorem valueCount_insert {m : OrdMap K V} {key : K} (absent : m[key]? = none) (held value : V) :
    valueCount (m.insert key held) value = valueCount m value + if held = value then 1 else 0 := by
  have stored : (m.insert key held)[key]? = some held := by rw [get_insert, if_pos rfl]
  have back : (m.insert key held).erase key = m := by
    refine ext fun other => ?_
    rw [get_erase, get_insert]
    by_cases same : other = key <;> simp [same, absent]
  rw [valueCount_erase stored, back]

omit [DecidableEq K] in
theorem valueCount_pos {m : OrdMap K V} {value : V} :
    0 < valueCount m value ↔ ∃ key : K, m[key]? = some value := by
  unfold valueCount
  rw [List.countP_pos_iff]
  constructor
  · rintro ⟨⟨key, held⟩, listed, same⟩
    exact ⟨key, (of_decide_eq_true same) ▸ mem_toList.mp listed⟩
  · rintro ⟨key, stored⟩
    exact ⟨(key, value), mem_toList.mpr stored, decide_eq_true rfl⟩

omit [DecidableEq K] in
/-- The values a partial function makes of those of another map are counted there. -/
theorem valueCount_bind {m : OrdMap K W} {image : OrdMap K V} {f : W → Option V}
    (follows : ∀ key : K, image[key]? = m[key]?.bind f) (value : V) :
    valueCount image value = m.toList.countP fun entry => f entry.2 = some value := by
  have listed : image.toList.Perm (m.toList.filterMap fun entry => (f entry.2).map fun made => (entry.1, made)) := by
    have nodup : (m.toList.filterMap fun entry => (f entry.2).map fun made => (entry.1, made)).Nodup := by
      refine .of_map Prod.fst (List.Nodup.sublist ?_ (nodup_keys m))
      rw [List.map_filterMap]
      induction m.toList with
      | nil => exact .slnil
      | cons entry rest ih =>
        rw [List.map_cons, List.filterMap_cons]
        cases f entry.2 with
        | none => exact ih.cons _
        | some made => exact ih.cons_cons _
    refine (List.perm_ext_iff_of_nodup (nodup_toList image) nodup).mpr ?_
    rintro ⟨key, made⟩
    rw [mem_toList, follows, Option.bind_eq_some_iff, List.mem_filterMap]
    constructor
    · rintro ⟨held, stored, maps⟩
      exact ⟨(key, held), mem_toList.mpr stored, by simp [maps]⟩
    · rintro ⟨⟨other, held⟩, among, maps⟩
      obtain ⟨_, maps, same⟩ := Option.map_eq_some_iff.mp maps
      cases same
      exact ⟨held, mem_toList.mp among, maps⟩
  unfold valueCount
  rw [listed.countP_eq, List.countP_filterMap]
  refine List.countP_congr fun entry _ => ?_
  cases f entry.2 <;> simp

end OrdMap

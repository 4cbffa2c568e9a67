import Myko.Query.SourceIndex

/-!
The diffs an index prepares are true of the rows they are for: an incremental diff of the store comes to
incremental diffs of its buckets, each naming what the bucket holds.
-/

namespace Myko.Query

variable {extractFk : FkExtractor} {watched : List CompoundKey}

theorem incremental_of_flat {changes : List ItemDiff} (flat : ∀ change ∈ changes, isFlat change = true) :
    MapDiff.AllIncremental changes := by
  induction changes with
  | nil => trivial
  | cons change rest ih =>
    refine ⟨?_, ih fun other member => flat other (List.mem_cons_of_mem _ member)⟩
    have one := flat change List.mem_cons_self
    cases change with
    | initial entries => cases one
    | batch changes => cases one
    | insert key value => trivial
    | remove key oldValue => trivial
    | update key oldValue newValue => trivial

theorem flat_changesOf {grouped : Grouped} (flat : ∀ entry ∈ grouped, ∀ change ∈ entry.2, isFlat change = true)
    (key : CompoundKey) : ∀ change ∈ changesOf grouped key, isFlat change = true := by
  intro change member
  unfold changesOf at member
  cases found : grouped.find? fun entry => entry.1 = key with
  | none =>
    rw [found] at member
    exact absurd member List.not_mem_nil
  | some entry =>
    rw [found] at member
    exact flat entry (List.mem_of_find?_eq_some found) change member

/-- Changes grouped for a key are true of its rows, one after the other. -/
def GroupedTrue (members : Members) (grouped : Grouped) : Prop :=
  ∀ key, MapDiff.AllTrueOf (changesOf grouped key) (members key)

theorem groupedTrue_push {members : Members} {grouped : Grouped}
    (flat : ∀ entry ∈ grouped, ∀ change ∈ entry.2, isFlat change = true) (groupedTrue : GroupedTrue members grouped)
    (foreignKey : Option CompoundKey) {diff : ItemDiff}
    (trueOld : ∀ key, foreignKey = some key → diff.TrueOf (rowsAfter grouped members key)) :
    GroupedTrue members (pushChange grouped foreignKey diff) := by
  cases foreignKey with
  | none => exact groupedTrue
  | some k =>
    intro key
    rw [changesOf_push]
    split
    · rename_i here
      subst here
      refine MapDiff.allTrueOf_append.mpr ⟨groupedTrue key, ?_, trivial⟩
      rw [applyAll_flat (flat_changesOf flat key)]
      exact trueOld key rfl
    · exact groupedTrue key

theorem groupedTrue_change {members : Members} {store : ItemMap} {grouped : Grouped} {change : ItemDiff}
    (pending : Pending extractFk members store grouped) (groupedTrue : GroupedTrue members grouped)
    (flat : isFlat change = true) (trueOld : change.TrueOf store) :
    GroupedTrue members (groupChange extractFk grouped change) := by
  have exact := pending.exact
  cases change with
  | initial entries => cases flat
  | batch changes => cases flat
  | insert id value =>
    refine groupedTrue_push pending.flat groupedTrue _ fun key _ => ?_
    refine Option.eq_none_iff_forall_not_mem.mpr fun item held => ?_
    have stored := ((exact key id item).mp held).1
    rw [show store[id]? = none from trueOld] at stored
    cases stored
  | remove id old =>
    exact groupedTrue_push pending.flat groupedTrue _ fun key routed => (exact key id old).mpr ⟨trueOld, routed⟩
  | update id old new =>
    have stored : store[id]? = some old := trueOld
    by_cases same : extractFk old = extractFk new
    · rw [show groupChange extractFk grouped (.update id old new) =
        pushChange grouped (extractFk new) (.update id old new) from if_pos same]
      exact groupedTrue_push pending.flat groupedTrue _ fun key routed =>
        (exact key id old).mpr ⟨stored, same.trans routed⟩
    · rw [show groupChange extractFk grouped (.update id old new) =
        pushChange (pushChange grouped (extractFk old) (.remove id old)) (extractFk new) (.insert id new) from
        if_neg same]
      have removed : GroupedTrue members (pushChange grouped (extractFk old) (.remove id old)) :=
        groupedTrue_push pending.flat groupedTrue _ fun key routed => (exact key id old).mpr ⟨stored, routed⟩
      refine groupedTrue_push (flat_pushChange pending.flat _ rfl) removed _ fun key routed => ?_
      rw [rowsAfter_push, if_neg fun here => same (here.trans routed.symm)]
      refine Option.eq_none_iff_forall_not_mem.mpr fun item held => ?_
      obtain ⟨here, moved⟩ := (exact key id item).mp held
      rw [stored] at here
      obtain rfl := Option.some.inj here
      exact same (moved.trans routed.symm)

/-- The diffs of each watched bucket are true of its rows and change them. -/
def ActionsTrue (watched : List CompoundKey) (members : Members) (actions : List BucketAction) : Prop :=
  ∀ key ∈ watched, MapDiff.AllTrueOf (actionsOf key actions) (members key) ∧
    MapDiff.AllIncremental (actionsOf key actions)

theorem actionsOf_group {grouped : Grouped} (members : Members) (keys : (grouped.map Prod.fst).Nodup)
    (key : CompoundKey) : actionsOf key (applyGrouped watched grouped members).1 = [] ∨
      actionsOf key (applyGrouped watched grouped members).1 = [.batch (changesOf grouped key)] := by
  induction grouped with
  | nil => exact .inl rfl
  | cons entry rest ih =>
    obtain ⟨apart, later⟩ := List.nodup_cons.mp keys
    by_cases here : entry.1 = key
    · subst here
      -- Its key comes once, so the rest of the group has nothing for this bucket.
      have nothing : actionsOf entry.1 (applyGrouped watched rest members).1 = [] := by
        refine List.filterMap_eq_nil_iff.mpr fun action listed => if_neg fun same => apart ?_
        rw [← same]
        exact mem_keys_applyGrouped (List.mem_map_of_mem listed)
      by_cases seen : entry.1 ∈ watched
      · refine .inr ?_
        have head : (applyGrouped watched (entry :: rest) members).1 =
            (entry.1, .batch entry.2) :: (applyGrouped watched rest members).1 := by
          simp [applyGrouped, seen]
        rw [head, ← List.singleton_append, actionsOf_append, nothing]
        simp [actionsOf, changesOf]
      · refine .inl ?_
        have head : (applyGrouped watched (entry :: rest) members).1 = (applyGrouped watched rest members).1 := by
          simp [applyGrouped, seen]
        rw [head, nothing]
    · have head : actionsOf key (applyGrouped watched (entry :: rest) members).1 =
          actionsOf key (applyGrouped watched rest members).1 := by
        by_cases seen : entry.1 ∈ watched <;> simp [applyGrouped, seen, actionsOf, here]
      have same : changesOf (entry :: rest) key = changesOf rest key := by simp [changesOf, here]
      rw [head, same]
      exact ih later

theorem true_group {grouped : Grouped} {members : Members} {store : ItemMap}
    (pending : Pending extractFk members store grouped) (groupedTrue : GroupedTrue members grouped) :
    ActionsTrue watched members [(applyGrouped watched grouped members).1].flatten := by
  intro key _
  rw [List.flatten_singleton]
  rcases actionsOf_group members pending.keys key with none | one
  · rw [none]
    exact ⟨trivial, trivial⟩
  · rw [one]
    exact ⟨⟨groupedTrue key, trivial⟩, incremental_of_flat (flat_changesOf pending.flat key), trivial⟩

theorem ActionsTrue.trans {members middle : Members} {first later : List (List BucketAction)}
    (before : ∀ key ∈ watched, MapDiff.applyAll (actionsOf key first.flatten) (members key) = middle key)
    (one : ActionsTrue watched members first.flatten) (two : ActionsTrue watched middle later.flatten) :
    ActionsTrue watched members (first ++ later).flatten := by
  intro key member
  rw [List.flatten_append, actionsOf_append, MapDiff.allTrueOf_append, MapDiff.allIncremental_append, before key member]
  exact ⟨⟨(one key member).1, (two key member).1⟩, (one key member).2, (two key member).2⟩

mutual
theorem true_diff (extractFk : FkExtractor) (nodup : watched.Nodup) : ∀ (diff : ItemDiff) (members : Members)
    (store : ItemMap), members.Exact extractFk store → diff.TrueOf store → diff.Incremental →
    ActionsTrue watched members (prepareDiff extractFk watched diff members).1.flatten
  | .initial _, _, _, _, _, incremental => absurd incremental id
  | .batch changes, members, store, exact, trueOld, incremental =>
    true_changes extractFk nodup changes [] members store (pending_nil exact) (fun _ => trivial) trueOld incremental
  | .insert _ _, _, _, exact, trueOld, _ =>
    true_group (pending_change (pending_nil exact) rfl trueOld)
      (groupedTrue_change (pending_nil exact) (fun _ => trivial) rfl trueOld)
  | .remove _ _, _, _, exact, trueOld, _ =>
    true_group (pending_change (pending_nil exact) rfl trueOld)
      (groupedTrue_change (pending_nil exact) (fun _ => trivial) rfl trueOld)
  | .update _ _ _, _, _, exact, trueOld, _ =>
    true_group (pending_change (pending_nil exact) rfl trueOld)
      (groupedTrue_change (pending_nil exact) (fun _ => trivial) rfl trueOld)

theorem true_changes (extractFk : FkExtractor) (nodup : watched.Nodup) : ∀ (changes : List ItemDiff)
    (grouped : Grouped) (members : Members) (store : ItemMap), Pending extractFk members store grouped →
    GroupedTrue members grouped → MapDiff.AllTrueOf changes store → MapDiff.AllIncremental changes →
    ActionsTrue watched members (prepareChanges extractFk watched changes grouped members).1.flatten
  | [], _, _, _, pending, groupedTrue, _, _ => true_group pending groupedTrue
  | .initial _ :: _, _, _, _, _, _, _, incremental => absurd incremental.1 id
  | .batch changes :: rest, _, _, store, pending, groupedTrue, trueOld, incremental => by
    have before : Prepared extractFk watched _ store (_, _) := prepared_group pending
    have inner := prepared_diff extractFk nodup (.batch changes) _ store before.exact trueOld.1
    have within := true_diff extractFk nodup (.batch changes) _ store before.exact trueOld.1 incremental.1
    have after := true_changes extractFk nodup rest [] _ _ (pending_nil inner.exact) (fun _ => trivial) trueOld.2
      incremental.2
    have joined := ActionsTrue.trans before.rows (true_group pending groupedTrue)
      (ActionsTrue.trans inner.rows within after)
    exact joined
  | .insert _ _ :: rest, _, members, _, pending, groupedTrue, trueOld, incremental =>
    true_changes extractFk nodup rest _ members _ (pending_change pending rfl trueOld.1)
      (groupedTrue_change pending groupedTrue rfl trueOld.1) trueOld.2 incremental.2
  | .remove _ _ :: rest, _, members, _, pending, groupedTrue, trueOld, incremental =>
    true_changes extractFk nodup rest _ members _ (pending_change pending rfl trueOld.1)
      (groupedTrue_change pending groupedTrue rfl trueOld.1) trueOld.2 incremental.2
  | .update _ _ _ :: rest, _, members, _, pending, groupedTrue, trueOld, incremental =>
    true_changes extractFk nodup rest _ members _ (pending_change pending rfl trueOld.1)
      (groupedTrue_change pending groupedTrue rfl trueOld.1) trueOld.2 incremental.2
end

end Myko.Query

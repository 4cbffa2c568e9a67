import Myko.Graph.Sample
import Myko.Graph.UniqueEdge

/-!
The checks of a replacement beside the pairs its final state occupies.
-/

namespace Myko
namespace GraphView

variable {view : GraphView} {registration : EdgeRegistration} {mode : EdgeApplyMode}

/-- Mutations of the type are rejected when they do not validate. -/
def Enforced (view : GraphView) (mode : EdgeApplyMode) (registration : EdgeRegistration) : Prop :=
  view.effectiveApplyMode registration.edgeType mode = .authoritative

/-- The item is an edge of the type, and its pair and scope are those of the key. -/
def Takes (registration : EdgeRegistration) (key : EdgePairKey) (item : Item) : Prop :=
  item.entityType = registration.edgeType ∧
    ∃ edge, registration.indexedEdge item = .ok edge ∧ registration.pairKey edge.endpoints edge.scope = key

/-- An upserted edge passes every check but that of its pair. -/
def PassesAlone (view : GraphView) (mode : EdgeApplyMode) (item : Item) : Prop :=
  ∀ registration, view.schema.registration item.entityType = some registration →
    (registration.pairPolicy = .unique → ∃ edge, registration.indexedEdge item = .ok edge) ∧
      (view.Enforced mode registration →
        view.validate { registration with pairPolicy := .parallel } item [] = .ok ())

/-- The id occupies the pair once the replacement is made. -/
def FinallyOccupies (view : GraphView) (upserts deletes : List Item) (registration : EdgeRegistration)
    (key : EdgePairKey) (id : String) : Prop :=
  (∃ item ∈ upserts, Takes registration key item ∧ item.id = id) ∨
    (Holds (view.state.edgeTypes registration.edgeType).pairs key id ∧
      id ∉ ignoredIds deletes registration.edgeType ∧
        ∀ item ∈ upserts, item.entityType = registration.edgeType → item.id ≠ id)

/-- No two ids occupy one pair of a type whose pairs are unique and enforced, wherever `occupies` puts them. -/
def PairsApart (view : GraphView) (mode : EdgeApplyMode)
    (occupies : EdgeRegistration → EdgePairKey → String → Prop) : Prop :=
  ∀ registration ∈ view.schema.registrations, registration.pairPolicy = .unique → view.Enforced mode registration →
    ∀ key id other, occupies registration key id → occupies registration key other → id = other

/-- An upserted edge takes a pair that the index lists for another upserted edge, which is not deleted too. -/
def TakesOver (view : GraphView) (mode : EdgeApplyMode) (upserts deletes : List Item) : Prop :=
  ∃ registration ∈ view.schema.registrations, registration.pairPolicy = .unique ∧ view.Enforced mode registration ∧
    ∃ item ∈ upserts, ∃ other ∈ upserts, other.entityType = registration.edgeType ∧ item.id ≠ other.id ∧
      other.id ∉ ignoredIds deletes registration.edgeType ∧
        ∃ key, Takes registration key item ∧
          Holds (view.state.edgeTypes registration.edgeType).pairs key other.id

/-! ### What each check comes to -/

theorem validate_parallel {candidate : Item} {ignored : List String} :
    view.validate registration candidate ignored = .ok () ↔
      view.validate { registration with pairPolicy := .parallel } candidate [] = .ok () ∧
        (registration.pairPolicy = .unique → ∃ endpoints, registration.extract candidate = .ok endpoints ∧
          view.validatePair registration candidate endpoints ignored = .ok ()) := by
  rw [validate_iff, validate_iff]
  constructor
  · rintro ⟨endpoints, extracted, ends, loop, accepted, pair⟩
    exact ⟨⟨endpoints, extracted, ends, loop, accepted, fun unique => by cases unique⟩, fun unique =>
      ⟨endpoints, extracted, pair unique⟩⟩
  · rintro ⟨⟨endpoints, extracted, ends, loop, accepted, -⟩, pair⟩
    refine ⟨endpoints, extracted, ends, loop, accepted, fun unique => ?_⟩
    obtain ⟨others, extracted', vacant⟩ := pair unique
    have same : others = endpoints := Except.ok.inj (extracted'.symm.trans extracted)
    rwa [← same]

theorem preflightIgnoring_iff {item : Item} {ignored : List String} :
    view.preflightIgnoring none (some item) mode ignored = .ok () ↔
      ∀ registration, view.schema.registration item.entityType = some registration →
        view.Enforced mode registration → view.validate registration item ignored = .ok () := by
  unfold preflightIgnoring
  simp only [Option.some_or]
  cases found : view.schema.registration item.entityType with
  | none => exact ⟨fun _ _ absent => (by cases absent), fun _ => rfl⟩
  | some registration =>
    dsimp only
    simp only [Option.some.injEq, forall_eq']
    cases checked : view.validate registration item ignored with
    | ok _ => exact ⟨fun _ _ => rfl, fun _ => rfl⟩
    | error error =>
      unfold Enforced
      dsimp only
      split
      · rename_i enforced
        exact ⟨fun run => (by cases run), fun checks => by cases checks enforced⟩
      · rename_i exempt
        exact ⟨fun _ enforced => absurd enforced exempt, fun _ => rfl⟩

theorem forM_iff {f : Item → Except String Unit} {items : List Item} :
    items.forM f = .ok () ↔ ∀ item ∈ items, f item = .ok () := by
  refine ⟨forM_ok, fun each => ?_⟩
  induction items with
  | nil => rfl
  | cons item rest ih =>
    change (f item >>= fun _ => rest.forM f) = .ok ()
    rw [each item List.mem_cons_self]
    exact ih fun other among => each other (List.mem_cons_of_mem item among)

/-- The reservations of a batch go through when its edges of unique types extract and none takes the pair of
another. -/
theorem reserve_of {items : List Item} {reservations : String × EdgePairKey → Option String}
    (extracts : ∀ item ∈ items, ∀ registration, view.schema.registration item.entityType = some registration →
      registration.pairPolicy = .unique → ∃ edge, registration.indexedEdge item = .ok edge)
    (apart : ∀ registration ∈ view.schema.registrations, registration.pairPolicy = .unique →
      view.Enforced mode registration → ∀ key,
        (∀ item ∈ items, Takes registration key item → ∀ id,
          reservations (registration.edgeType, key) = some id → id = item.id) ∧
        ∀ item ∈ items, ∀ other ∈ items, Takes registration key item → Takes registration key other →
          item.id = other.id) :
    view.reserve mode items reservations = .ok () := by
  induction items generalizing reservations with
  | nil => rfl
  | cons first rest ih =>
    have later := fun item among => extracts item (List.mem_cons_of_mem first among)
    have skip : view.reserve mode rest reservations = .ok () := by
      refine ih later fun registration registered unique enforced key => ?_
      obtain ⟨reserved, pairs⟩ := apart registration registered unique enforced key
      exact ⟨fun item among => reserved item (List.mem_cons_of_mem first among), fun item among other among' =>
        pairs item (List.mem_cons_of_mem first among) other (List.mem_cons_of_mem first among')⟩
    rw [reserve]
    cases found : view.schema.registration first.entityType with
    | none => exact skip
    | some registration =>
      obtain ⟨registered, typed⟩ := GraphSchema.registration_mem found
      dsimp only
      split
      · exact skip
      · rename_i unique
        have unique := not_not.mp unique
        obtain ⟨edge, indexed⟩ := extracts first List.mem_cons_self registration found unique
        have takes : Takes registration (registration.pairKey edge.endpoints edge.scope) first :=
          ⟨typed.symm, edge, indexed, rfl⟩
        obtain ⟨extracted, inScope⟩ := registration.read_of_indexed indexed
        have next : view.reserve mode rest (Function.update reservations
            (registration.edgeType, registration.pairKey edge.endpoints edge.scope) (some first.id)) = .ok () := by
          refine ih later fun other registered' unique' enforced key => ?_
          obtain ⟨reserved, pairs⟩ := apart other registered' unique' enforced key
          refine ⟨fun item among takes' id held => ?_, fun item among twin among' =>
            pairs item (List.mem_cons_of_mem first among) twin (List.mem_cons_of_mem first among')⟩
          by_cases here : (other.edgeType, key) =
              (registration.edgeType, registration.pairKey edge.endpoints edge.scope)
          · rw [here, Function.update_self] at held
            obtain ⟨sameType, rfl⟩ := Prod.mk.inj here
            obtain rfl : other = registration :=
              List.inj_on_of_nodup_map view.schema.distinct registered' registered sameType
            rw [← Option.some.inj held]
            exact pairs first List.mem_cons_self item (List.mem_cons_of_mem first among) takes takes'
          · rw [Function.update_of_ne here] at held
            exact reserved item (List.mem_cons_of_mem first among) takes' id held
        simp only [extracted, inScope, bind, Except.bind]
        cases reserved : reservations (registration.edgeType, registration.pairKey edge.endpoints edge.scope) with
        | none => exact next
        | some existing =>
          dsimp only
          split
          · rename_i clash
            obtain ⟨different, enforced⟩ := clash
            refine absurd ?_ different
            exact (apart registration registered unique enforced _).1 first List.mem_cons_self takes existing reserved
          · exact next

theorem extracts_of_reserve {items : List Item} {reservations : String × EdgePairKey → Option String}
    (run : view.reserve mode items reservations = .ok ()) {item : Item} (among : item ∈ items)
    (found : view.schema.registration item.entityType = some registration)
    (unique : registration.pairPolicy = .unique) : ∃ edge, registration.indexedEdge item = .ok edge := by
  induction items generalizing reservations with
  | nil => cases among
  | cons first rest ih =>
    rw [reserve] at run
    rcases List.mem_cons.mp among with rfl | among
    · rw [found] at run
      simp only [unique, ne_eq, not_true_eq_false, if_false] at run
      obtain ⟨endpoints, extracted, run⟩ := StateError.except_bind_ok run
      obtain ⟨scope, inScope, -⟩ := StateError.except_bind_ok run
      refine ⟨⟨item.id, endpoints, scope⟩, ?_⟩
      unfold EdgeRegistration.indexedEdge
      rw [extracted, inScope]
      rfl
    · cases registered : view.schema.registration first.entityType with
      | none =>
        rw [registered] at run
        exact ih run among
      | some entry =>
        rw [registered] at run
        dsimp only at run
        split at run
        · exact ih run among
        · obtain ⟨endpoints, -, run⟩ := StateError.except_bind_ok run
          obtain ⟨scope, -, run⟩ := StateError.except_bind_ok run
          cases reserved : reservations (entry.edgeType, entry.pairKey endpoints scope) with
          | none =>
            rw [reserved] at run
            exact ih run among
          | some existing =>
            rw [reserved] at run
            dsimp only at run
            split at run
            · cases run
            · exact ih run among

/-- A replacement is accepted when every upserted edge passes alone, no two of them take one pair, and no pair
they take is listed for an edge that is neither the same nor deleted. -/
theorem preflightReplaceBatch_iff {upserts deletes : List Item} :
    view.preflightReplaceBatch upserts deletes mode = .ok () ↔
      (∀ item ∈ upserts, view.PassesAlone mode item) ∧
        ∀ registration ∈ view.schema.registrations, registration.pairPolicy = .unique →
          view.Enforced mode registration → ∀ key, ∀ item ∈ upserts, Takes registration key item →
            (∀ other ∈ upserts, Takes registration key other → item.id = other.id) ∧
              ∀ id, Holds (view.state.edgeTypes registration.edgeType).pairs key id →
                id = item.id ∨ id ∈ ignoredIds deletes registration.edgeType := by
  have parts : view.preflightReplaceBatch upserts deletes mode = .ok () ↔
      view.preflightBatch upserts mode = .ok () ∧ ∀ item ∈ upserts,
        view.preflightIgnoring none (some item) mode (ignoredIds deletes item.entityType) = .ok () := by
    refine ⟨preflightReplaceBatch_ok, fun both => ?_⟩
    unfold preflightReplaceBatch
    rw [both.1]
    exact forM_iff.mpr both.2
  rw [parts]
  constructor
  · rintro ⟨batch, checked⟩
    have checked := fun item among => preflightIgnoring_iff.mp (checked item among)
    refine ⟨fun item among registration found => ?_, fun registration registered unique enforced key item among
      takes => ⟨fun other among' takes' => ?_, fun id held => ?_⟩⟩
    · exact ⟨extracts_of_reserve batch among found, fun enforced =>
        (validate_parallel.mp (checked item among registration found enforced)).1⟩
    · have found := GraphSchema.registration_of_mem registered
      exact (reserve_ok batch unique found enforced key).2 item among other among' takes takes'
    · have found : view.schema.registration item.entityType = some registration := by
        rw [takes.1]
        exact GraphSchema.registration_of_mem registered
      obtain ⟨endpoints, extracted, vacant⟩ := (validate_parallel.mp
        (checked item among registration found enforced)).2 unique
      obtain ⟨-, edge, indexed, rfl⟩ := takes
      obtain ⟨extracted', inScope⟩ := registration.read_of_indexed indexed
      obtain rfl : edge.endpoints = endpoints := Except.ok.inj (extracted'.symm.trans extracted)
      obtain ⟨scope, inScope', vacant⟩ := validatePair_ok.mp vacant
      obtain rfl : edge.scope = scope := Except.ok.inj (inScope.symm.trans inScope')
      rw [(GraphSchema.registration_mem found).2]
      exact vacant id held
  · rintro ⟨alone, apart⟩
    constructor
    · refine reserve_of (fun item among registration found => (alone item among registration found).1) ?_
      intro registration registered unique enforced key
      refine ⟨fun _ _ _ _ absent => (by cases absent), fun item among other among' takes takes' => ?_⟩
      exact (apart registration registered unique enforced key item among takes).1 other among' takes'
    · refine fun item among => preflightIgnoring_iff.mpr fun registration found enforced => ?_
      obtain ⟨extracts, passes⟩ := alone item among registration found
      refine validate_parallel.mpr ⟨passes enforced, fun unique => ?_⟩
      obtain ⟨registered, typed⟩ := GraphSchema.registration_mem found
      obtain ⟨edge, indexed⟩ := extracts unique
      obtain ⟨extracted, inScope⟩ := registration.read_of_indexed indexed
      refine ⟨edge.endpoints, extracted, validatePair_ok.mpr ⟨edge.scope, inScope, fun id held => ?_⟩⟩
      have vacant := (apart registration registered unique enforced _ item among ⟨typed.symm, edge, indexed, rfl⟩).2
      rw [← typed]
      exact vacant id held

/-- The checks of a replacement say whether its pairs are apart in the end, unless an edge takes over the pair
of another one that is replaced as well. -/
theorem replacement_checked_iff {upserts deletes : List Item}
    (unique : view.PairsApart mode fun registration => Holds (view.state.edgeTypes registration.edgeType).pairs) :
    (view.preflightReplaceBatch upserts deletes mode = .ok () ↔
      (∀ item ∈ upserts, view.PassesAlone mode item) ∧
        view.PairsApart mode (view.FinallyOccupies upserts deletes)) ↔
    (view.TakesOver mode upserts deletes →
      ¬((∀ item ∈ upserts, view.PassesAlone mode item) ∧
        view.PairsApart mode (view.FinallyOccupies upserts deletes))) := by
  rw [preflightReplaceBatch_iff]
  constructor
  · rintro exact_ ⟨registration, registered, policy, enforced, item, among, other, among', typed, different, kept,
      key, takes, held⟩ final
    obtain ⟨-, apart⟩ := exact_.mpr final
    rcases (apart registration registered policy enforced key item among takes).2 other.id held with here | gone
    · exact different here.symm
    · exact kept gone
  · intro noTakeOver
    refine and_congr_right fun alone => ⟨fun apart => ?_, fun final => ?_⟩
    · intro registration registered policy enforced key id other occupies occupies'
      rcases occupies with ⟨item, among, takes, rfl⟩ | ⟨held, kept, unlisted⟩
      · obtain ⟨pairs, vacant⟩ := apart registration registered policy enforced key item among takes
        rcases occupies' with ⟨twin, among', takes', rfl⟩ | ⟨held', kept', -⟩
        · exact pairs twin among' takes'
        · exact ((vacant other held').resolve_right kept').symm
      · rcases occupies' with ⟨twin, among', takes', rfl⟩ | ⟨held', -, -⟩
        · exact ((apart registration registered policy enforced key twin among' takes').2 id held).resolve_right kept
        · exact unique registration registered policy enforced key id other held held'
    · intro registration registered policy enforced key item among takes
      refine ⟨fun other among' takes' => ?_, fun id held => ?_⟩
      · exact final registration registered policy enforced key item.id other.id (.inl ⟨item, among, takes, rfl⟩)
          (.inl ⟨other, among', takes', rfl⟩)
      · by_cases gone : id ∈ ignoredIds deletes registration.edgeType
        · exact .inr gone
        refine .inl ?_
        by_cases replaced : ∃ other ∈ upserts, other.entityType = registration.edgeType ∧ other.id = id
        · obtain ⟨other, among', typed, rfl⟩ := replaced
          by_contra different
          exact noTakeOver ⟨registration, registered, policy, enforced, item, among, other, among', typed,
            Ne.symm different, gone, key, takes, held⟩ ⟨alone, final⟩
        · refine final registration registered policy enforced key id item.id (.inr ⟨held, gone, ?_⟩)
            (.inl ⟨item, among, takes, rfl⟩)
          exact fun other among' typed same => replaced ⟨other, among', typed, same⟩

end GraphView

namespace GraphSample

/-- The tie that is stored under an id, if one is. -/
theorem occupies_stored {key : EdgePairKey} {id : String} :
    Occupies ties stored key id ↔
      (id = "e" ∧ ties.pairKeyFromValues (node "x") (node "y") none = key) ∨
        (id = "f" ∧ ties.pairKeyFromValues (node "y") (node "z") none = key) := by
  have e : ties.storedEdges stored "e" = some ⟨"e", ⟨node "x", node "y"⟩, none⟩ := rfl
  have f : ties.storedEdges stored "f" = some ⟨"f", ⟨node "y", node "z"⟩, none⟩ := rfl
  constructor
  · rintro ⟨edge, found, rfl⟩
    by_cases first : id = "e"
    · subst first
      cases e.symm.trans found
      exact .inl ⟨rfl, rfl⟩
    by_cases second : id = "f"
    · subst second
      cases f.symm.trans found
      exact .inr ⟨rfl, rfl⟩
    have absent : stored.getValue "tie" id = none := by
      unfold stored
      simp only [StoreRegistry.writeAll, List.foldl_cons, List.foldl_nil, StoreRegistry.getValue_write]
      simp [Change.key, tie, first, second, StoreRegistry.getValue_empty]
    unfold EdgeRegistration.storedEdges at found
    rw [show ties.edgeType = "tie" from rfl, absent] at found
    cases found
  · rintro (⟨rfl, rfl⟩ | ⟨rfl, rfl⟩)
    · exact ⟨_, e, rfl⟩
    · exact ⟨_, f, rfl⟩

theorem holds_stored {key : EdgePairKey} {id : String} :
    Holds ((view .eager .eager).state.edgeTypes "tie").pairs key id ↔ Occupies ties stored key id :=
  mem_bucketIds.symm.trans (mem_pairs (coherent .eager .eager) List.mem_cons_self rfl)

theorem pairs_apart : (view .eager .eager).PairsApart .authoritative fun registration =>
    Holds ((view .eager .eager).state.edgeTypes registration.edgeType).pairs := by
  intro registration registered _ _ key id other held held'
  obtain rfl := List.mem_singleton.mp registered
  rcases occupies_stored.mp (holds_stored.mp held) with ⟨rfl, rfl⟩ | ⟨rfl, rfl⟩ <;>
    rcases occupies_stored.mp (holds_stored.mp held') with ⟨rfl, same⟩ | ⟨rfl, same⟩
  · rfl
  · exact absurd same (by decide)
  · exact absurd same (by decide)
  · rfl

/-- One tie is deleted, and another takes its pair. -/
theorem freed_pair_is_given :
    ((view .eager .eager).preflightReplaceBatch [tie "g" "x" "y"] [tie "e" "x" "y"] .authoritative = .ok () ↔
      (∀ item ∈ [tie "g" "x" "y"], (view .eager .eager).PassesAlone .authoritative item) ∧
        (view .eager .eager).PairsApart .authoritative
          ((view .eager .eager).FinallyOccupies [tie "g" "x" "y"] [tie "e" "x" "y"])) := by
  refine (GraphView.replacement_checked_iff pairs_apart).mpr ?_
  rintro ⟨registration, -, -, -, item, among, other, among', -, different, -⟩
  rw [List.mem_singleton.mp among, List.mem_singleton.mp among'] at different
  exact absurd rfl different

/-- Two ties that change places are refused. -/
theorem swap_is_refused : ∃ (view : GraphView) (upserts : List Item),
    (upserts.map fun item => (item.entityType, item.id)).Nodup ∧
    (view.PairsApart .authoritative fun registration =>
      Holds (view.state.edgeTypes registration.edgeType).pairs) ∧
    (∀ item ∈ upserts, view.PassesAlone .authoritative item) ∧
    view.PairsApart .authoritative (view.FinallyOccupies upserts []) ∧
    view.preflightReplaceBatch upserts [] .authoritative ≠ .ok () := by
  refine ⟨view .eager .eager, [tie "e" "y" "z", tie "f" "x" "y"], by decide, pairs_apart, ?_, ?_, ?_⟩
  · intro item among registration found
    have typed : registration = ties := by
      simp only [List.mem_cons, List.not_mem_nil, or_false] at among
      rcases among with rfl | rfl <;>
        · cases found
          rfl
    subst typed
    simp only [List.mem_cons, List.not_mem_nil, or_false] at among
    rcases among with rfl | rfl <;> exact ⟨fun _ => ⟨_, rfl⟩, fun _ => rfl⟩
  · intro registration registered _ _ key id other occupies occupies'
    obtain rfl := List.mem_singleton.mp registered
    have placed : ∀ {id : String}, (view .eager .eager).FinallyOccupies [tie "e" "y" "z", tie "f" "x" "y"] [] ties
        key id → (id = "e" ∧ key = ties.pairKeyFromValues (node "y") (node "z") none) ∨
          (id = "f" ∧ key = ties.pairKeyFromValues (node "x") (node "y") none) := by
      rintro id (⟨item, among, ⟨-, edge, indexed, rfl⟩, rfl⟩ | ⟨held, -, unlisted⟩)
      · simp only [List.mem_cons, List.not_mem_nil, or_false] at among
        rcases among with rfl | rfl
        · cases indexed
          exact .inl ⟨rfl, rfl⟩
        · cases indexed
          exact .inr ⟨rfl, rfl⟩
      · rcases occupies_stored.mp (holds_stored.mp held) with ⟨rfl, -⟩ | ⟨rfl, -⟩
        · exact absurd rfl (unlisted (tie "e" "y" "z") (by simp) rfl)
        · exact absurd rfl (unlisted (tie "f" "x" "y") (by simp) rfl)
    rcases placed occupies with ⟨rfl, rfl⟩ | ⟨rfl, rfl⟩ <;>
      rcases placed occupies' with ⟨rfl, same⟩ | ⟨rfl, same⟩
    · rfl
    · exact absurd same (by decide)
    · exact absurd same (by decide)
    · rfl
  · intro accepted
    cases accepted

end GraphSample
end Myko

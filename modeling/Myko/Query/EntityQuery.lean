import Mathlib.Data.List.FinRange
import Myko.Query.Filter

/-!
The query generated for an entity: a filter, or none, for each of its fields. An item matches when every
filter that is there matches the item's field.
-/

namespace Myko.Query

/-- The types of a field, by the filter their queries have. -/
inductive FieldKind : Type 1 where
  | id
  | string
  | bool
  | numeric (T : Type) (comparison : Comparison T)
  | exact (T : Type) (comparison : Comparison T)
  | unfilterable (T : Type)
  | option (kind : FieldKind)

namespace FieldKind

def Value : FieldKind → Type
  | id => String
  | string => String
  | bool => Bool
  | numeric T _ => T
  | exact T _ => T
  | unfilterable T => T
  | option kind => Option kind.Value

/-- An optional field has the filter of what it may hold, and an opaque one has no filter that could be set. -/
def Filter : FieldKind → Type
  | id => IdFilter String
  | string => StringFilter
  | bool => Bool
  | numeric T _ => NumericFilter T
  | exact T _ => EqFilter T
  | unfilterable _ => Empty
  | option kind => kind.Filter

/-- A field that holds nothing matches no filter. -/
def matchesValue : (kind : FieldKind) → kind.Filter → kind.Value → Bool
  | id, filter, value => IdFilter.matchesValue strings filter value
  | string, filter, value => StringFilter.matchesValue filter value
  | bool, filter, value => @BEq.beq Bool _ filter value
  | numeric _ comparison, filter, value => NumericFilter.matchesValue comparison filter value
  | exact _ comparison, filter, value => EqFilter.matchesValue comparison filter value
  | unfilterable _, _, _ => false
  | option kind, filter, value => Option.any (kind.matchesValue filter) value

def canonicalize : (kind : FieldKind) → kind.Filter → kind.Filter
  | id, filter => IdFilter.canonicalize strings filter
  | string, filter => StringFilter.canonicalize filter
  | bool, filter => filter
  | numeric _ comparison, filter => NumericFilter.canonicalize comparison filter
  | exact _ comparison, filter => EqFilter.canonicalize comparison filter
  | unfilterable _, filter => filter
  | option kind, filter => kind.canonicalize filter

/-- Equality of filters, which compares the values of numbers and of exact types as their types do. -/
def Same : (kind : FieldKind) → kind.Filter → kind.Filter → Prop
  | numeric _ comparison, filter, other => NumericFilter.Same comparison filter other
  | exact _ comparison, filter, other => EqFilter.Same comparison filter other
  | option kind, filter, other => kind.Same filter other
  | id, filter, other => filter = other
  | string, filter, other => filter = other
  | bool, filter, other => filter = other
  | unfilterable _, filter, other => filter = other

def SameSets : (kind : FieldKind) → kind.Filter → kind.Filter → Prop
  | id, filter, other => IdFilter.SameSets filter other
  | string, filter, other => StringFilter.SameSets filter other
  | bool, filter, other => filter = other
  | numeric _ _, filter, other => NumericFilter.SameSets filter other
  | exact _ _, filter, other => EqFilter.SameSets filter other
  | unfilterable _, filter, other => filter = other
  | option kind, filter, other => kind.SameSets filter other

/-- Any two values of the type compare. -/
def Total : FieldKind → Prop
  | numeric _ comparison => comparison.Total
  | exact _ comparison => comparison.Total
  | option kind => kind.Total
  | _ => True

/-- Values that compare as the same are identical. -/
def Identical : FieldKind → Prop
  | numeric _ comparison => ∀ a b, comparison.same a b = true → a = b
  | exact _ comparison => ∀ a b, comparison.same a b = true → a = b
  | option kind => kind.Identical
  | _ => True

theorem matchesValue_canonicalize (kind : FieldKind) (filter : kind.Filter) (value : kind.Value) :
    kind.matchesValue (kind.canonicalize filter) value = kind.matchesValue filter value := by
  induction kind with
  | id => exact IdFilter.matchesValue_canonicalize filter value
  | string => exact StringFilter.matchesValue_canonicalize filter value
  | bool => rfl
  | numeric T comparison => exact NumericFilter.matchesValue_canonicalize filter value
  | exact T comparison => exact EqFilter.matchesValue_canonicalize filter value
  | unfilterable T => rfl
  | option kind ih =>
    have same : kind.matchesValue (kind.canonicalize filter) = kind.matchesValue filter := funext (ih filter)
    show Option.any (kind.matchesValue (kind.canonicalize filter)) value = _
    rw [same]
    rfl

theorem canonicalize_canonicalize (kind : FieldKind) (filter : kind.Filter) :
    kind.canonicalize (kind.canonicalize filter) = kind.canonicalize filter := by
  induction kind with
  | id => exact IdFilter.canonicalize_canonicalize filter
  | string => exact StringFilter.canonicalize_canonicalize filter
  | bool => rfl
  | numeric T comparison => exact NumericFilter.canonicalize_canonicalize filter
  | exact T comparison => exact EqFilter.canonicalize_canonicalize filter
  | unfilterable T => rfl
  | option kind ih => exact ih filter

theorem same_canonicalize (kind : FieldKind) (total : kind.Total) {filter other : kind.Filter}
    (sets : kind.SameSets filter other) : kind.Same (kind.canonicalize filter) (kind.canonicalize other) := by
  induction kind with
  | id => exact IdFilter.eq_of_same strings_identical (IdFilter.same_canonicalize strings_total sets)
  | string => exact StringFilter.canonicalize_congr sets
  | bool => exact sets
  | numeric T comparison => exact NumericFilter.same_canonicalize total sets
  | exact T comparison => exact EqFilter.same_canonicalize total sets
  | unfilterable T => exact sets
  | option kind ih => exact ih total sets

theorem eq_of_same (kind : FieldKind) (identical : kind.Identical) {filter other : kind.Filter}
    (same : kind.Same filter other) : filter = other := by
  induction kind with
  | numeric T comparison => exact NumericFilter.eq_of_same identical same
  | exact T comparison => exact EqFilter.eq_of_same identical same
  | option kind ih => exact ih identical same
  | _ => exact same

end FieldKind

/-- The fields of an entity. Its id and the required references to its parents are ids; the rest may be of any
type. -/
structure Entity where
  belongsTo : List String
  fields : List FieldKind

namespace Entity

structure Item (entity : Entity) where
  id : String
  parent : Fin entity.belongsTo.length → String
  field : (i : Fin entity.fields.length) → (entity.fields.get i).Value

structure XQuery (entity : Entity) where
  id : Option (IdFilter String)
  parent : Fin entity.belongsTo.length → Option (IdFilter String)
  field : (i : Fin entity.fields.length) → Option (entity.fields.get i).Filter

namespace XQuery

variable {entity : Entity}

/-- A filter that is absent holds of every item. -/
def matchesItem (query : entity.XQuery) (item : entity.Item) : Bool :=
  query.id.all (fun filter => filter.matchesValue strings item.id) &&
    (List.finRange entity.belongsTo.length).all (fun i =>
      (query.parent i).all fun filter => filter.matchesValue strings (item.parent i)) &&
    (List.finRange entity.fields.length).all fun i =>
      (query.field i).all fun filter => (entity.fields.get i).matchesValue filter (item.field i)

def canonicalize (query : entity.XQuery) : entity.XQuery where
  id := query.id.map (IdFilter.canonicalize strings)
  parent i := (query.parent i).map (IdFilter.canonicalize strings)
  field i := (query.field i).map (entity.fields.get i).canonicalize

/-- Both have a filter and these are alike, or neither has one. -/
def SameSets (query other : entity.XQuery) : Prop :=
  Option.Rel IdFilter.SameSets query.id other.id ∧
    (∀ i, Option.Rel IdFilter.SameSets (query.parent i) (other.parent i)) ∧
    ∀ i, Option.Rel (entity.fields.get i).SameSets (query.field i) (other.field i)

def Same (query other : entity.XQuery) : Prop :=
  query.id = other.id ∧ query.parent = other.parent ∧
    ∀ i, Option.Rel (entity.fields.get i).Same (query.field i) (other.field i)

theorem matchesItem_iff (query : entity.XQuery) (item : entity.Item) :
    query.matchesItem item = true ↔
      (∀ filter, query.id = some filter → filter.matchesValue strings item.id = true) ∧
        (∀ i filter, query.parent i = some filter → filter.matchesValue strings (item.parent i) = true) ∧
        ∀ i filter, query.field i = some filter →
          (entity.fields.get i).matchesValue filter (item.field i) = true := by
  unfold matchesItem
  simp only [Bool.and_eq_true, List.all_eq_true, List.mem_finRange, true_implies, Option.all_eq_true,
    and_assoc]

theorem all_map_eq {F G : Type} (filter : Option F) (canonical : F → G) (accepts : G → Bool)
    (accepts' : F → Bool) (same : ∀ f, accepts (canonical f) = accepts' f) :
    (filter.map canonical).all accepts = filter.all accepts' := by
  cases filter with
  | none => rfl
  | some f => exact same f

theorem matchesItem_canonicalize (query : entity.XQuery) (item : entity.Item) :
    query.canonicalize.matchesItem item = query.matchesItem item := by
  unfold matchesItem canonicalize
  congr 1
  · congr 1
    · exact all_map_eq _ _ _ _ fun filter => filter.matchesValue_canonicalize item.id
    · congr 1
      funext i
      exact all_map_eq _ _ _ _ fun filter => filter.matchesValue_canonicalize (item.parent i)
  · congr 1
    funext i
    exact all_map_eq _ _ _ _ fun filter => (entity.fields.get i).matchesValue_canonicalize filter (item.field i)

theorem map_map_eq {F : Type} (filter : Option F) (canonical : F → F)
    (idempotent : ∀ f, canonical (canonical f) = canonical f) :
    (filter.map canonical).map canonical = filter.map canonical := by
  cases filter with
  | none => rfl
  | some f => exact congrArg some (idempotent f)

theorem canonicalize_canonicalize (query : entity.XQuery) : query.canonicalize.canonicalize = query.canonicalize := by
  unfold canonicalize
  simp only [XQuery.mk.injEq]
  refine ⟨?_, ?_, ?_⟩
  · exact map_map_eq _ _ IdFilter.canonicalize_canonicalize
  · funext i
    exact map_map_eq _ _ IdFilter.canonicalize_canonicalize
  · funext i
    exact map_map_eq _ _ (entity.fields.get i).canonicalize_canonicalize

theorem rel_map {F : Type} (Alike Same : F → F → Prop) (canonical : F → F)
    (same : ∀ f g, Alike f g → Same (canonical f) (canonical g)) {filter other : Option F}
    (alike : Option.Rel Alike filter other) : Option.Rel Same (filter.map canonical) (other.map canonical) := by
  cases alike with
  | none => exact .none
  | some alike => exact .some (same _ _ alike)

theorem eq_of_rel {F : Type} (Same : F → F → Prop) (identical : ∀ f g, Same f g → f = g)
    {filter other : Option F} (same : Option.Rel Same filter other) : filter = other := by
  cases same with
  | none => rfl
  | some same => rw [identical _ _ same]

theorem ids_canonicalize {filter other : Option (IdFilter String)}
    (sets : Option.Rel IdFilter.SameSets filter other) :
    filter.map (IdFilter.canonicalize strings) = other.map (IdFilter.canonicalize strings) :=
  eq_of_rel (IdFilter.Same strings) (fun _ _ => IdFilter.eq_of_same strings_identical)
    (rel_map IdFilter.SameSets _ _ (fun _ _ => IdFilter.same_canonicalize strings_total) sets)

theorem same_canonicalize (total : ∀ kind ∈ entity.fields, kind.Total) {query other : entity.XQuery}
    (sets : query.SameSets other) : query.canonicalize.Same other.canonicalize := by
  obtain ⟨ids, parents, fields⟩ := sets
  refine ⟨ids_canonicalize ids, ?_, ?_⟩
  · funext i
    exact ids_canonicalize (parents i)
  · intro i
    have kind := total _ (List.get_mem entity.fields i)
    exact rel_map (entity.fields.get i).SameSets _ _
      (fun _ _ => (entity.fields.get i).same_canonicalize kind) (fields i)

theorem eq_of_same (identical : ∀ kind ∈ entity.fields, kind.Identical) {query other : entity.XQuery}
    (same : query.Same other) : query = other := by
  obtain ⟨ids, parents, fields⟩ := same
  cases query
  cases other
  simp only [XQuery.mk.injEq]
  refine ⟨ids, parents, ?_⟩
  funext i
  have kind := identical _ (List.get_mem entity.fields i)
  exact eq_of_rel (entity.fields.get i).Same (fun _ _ => (entity.fields.get i).eq_of_same kind) (fields i)

end XQuery

end Entity

end Myko.Query

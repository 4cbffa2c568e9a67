import Myko.Query.Filter
import Myko.Wire.Event
import Std.Data.String.ToInt

/-!
Filters on the wire. A filter for one value is written as the value alone; every other operation is an object
with one key that starts with a dollar sign. The reader tries the operations first and then the bare value.
-/

namespace Myko.Query

/-- An operand's own JSON: it can be read back, and is not mistaken for an operation. -/
structure Operand (T : Type) where
  serialize : T → Value
  deserialize : Value → Option T
  round_trip : ∀ operand, deserialize (serialize operand) = some operand
  bare : ∀ operand key payload, serialize operand = .object [(key, payload)] → key.toList.head? ≠ some '$'

/-- Numbers are written as numbers. -/
structure NumericOperand (T : Type) extends Operand T where
  number : ∀ operand, ∃ literal, serialize operand = .number literal

/-- Strings are their own JSON. -/
def stringOperand : Operand String where
  serialize := .string
  deserialize := Value.asStr
  round_trip _ := rfl
  bare _ _ _ written := by cases written

def integerOperand : NumericOperand Int where
  serialize number := .number number.repr
  deserialize
    | .number literal => literal.toInt?
    | _ => none
  round_trip := Int.toInt?_repr
  bare _ _ _ written := by cases written
  number operand := ⟨operand.repr, rfl⟩

def serializeOp (key : String) (value : Value) : Value := .object [(key, value)]

/-- The payload of a variant: the object has one entry, under the variant's name. -/
def variant (name : String) : Value → Option Value
  | .object [entry] => if entry.1 = name then some entry.2 else none
  | _ => none

@[simp] theorem variant_serializeOp (name key : String) (value : Value) :
    variant name (serializeOp key value) = if key = name then some value else none := rfl

theorem variant_eq_some {name : String} {value payload : Value} :
    variant name value = some payload ↔ value = serializeOp name payload := by
  constructor
  · intro found
    unfold variant at found
    split at found
    · rename_i entry
      split at found
      · rename_i named
        cases found
        rw [← named]
        rfl
      · cases found
    · cases found
  · rintro rfl
    simp

namespace Operand

variable {T : Type} (operand : Operand T)

def serializeList (values : List T) : Value := .array (values.map operand.serialize)

def deserializeList : Value → Option (List T)
  | .array items => items.mapM operand.deserialize
  | _ => none

theorem deserializeList_serializeList (values : List T) :
    operand.deserializeList (operand.serializeList values) = some values := by
  show (values.map operand.serialize).mapM operand.deserialize = some values
  induction values with
  | nil => rfl
  | cons value rest ih => simp [operand.round_trip, ih]

/-- A bare value is no operation. -/
theorem variant_serialize (name : String) (sigil : name.toList.head? = some '$') (value : T) :
    variant name (operand.serialize value) = none := by
  rw [Option.eq_none_iff_forall_ne_some]
  intro payload found
  exact operand.bare value name payload (variant_eq_some.mp found) sigil

end Operand

section EqIn

variable {T : Type} (operand : Operand T)

/-- The operation that ids and exact values have besides the bare value. -/
def inOp (value : Value) : Option (List T) := (variant "$in" value).bind operand.deserializeList

theorem inOp_serialize (value : T) : inOp operand (operand.serialize value) = none := by
  unfold inOp
  rw [operand.variant_serialize "$in" rfl]
  rfl

theorem inOp_serializeOp (values : List T) :
    inOp operand (serializeOp "$in" (operand.serializeList values)) = some values := by
  unfold inOp
  rw [variant_serializeOp, if_pos rfl, Option.bind_some, operand.deserializeList_serializeList]

namespace IdFilter

def serialize : IdFilter T → Value
  | .eq value => operand.serialize value
  | .isIn values => serializeOp "$in" (operand.serializeList values)

def deserialize (value : Value) : Option (IdFilter T) :=
  ((inOp operand value).map .isIn).or ((operand.deserialize value).map .eq)

theorem deserialize_serialize (filter : IdFilter T) :
    deserialize operand (serialize operand filter) = some filter := by
  cases filter with
  | eq value => simp [serialize, deserialize, inOp_serialize, operand.round_trip]
  | isIn values => simp [serialize, deserialize, inOp_serializeOp]

end IdFilter

namespace EqFilter

def serialize : EqFilter T → Value
  | .eq value => operand.serialize value
  | .isIn values => serializeOp "$in" (operand.serializeList values)

def deserialize (value : Value) : Option (EqFilter T) :=
  ((inOp operand value).map .isIn).or ((operand.deserialize value).map .eq)

theorem deserialize_serialize (filter : EqFilter T) :
    deserialize operand (serialize operand filter) = some filter := by
  cases filter with
  | eq value => simp [serialize, deserialize, inOp_serialize, operand.round_trip]
  | isIn values => simp [serialize, deserialize, inOp_serializeOp]

end EqFilter

end EqIn

namespace StringFilter

def serialize : StringFilter → Value
  | .eq value => .string value
  | .isIn values => serializeOp "$in" (stringOperand.serializeList values)
  | .contains needle => serializeOp "$contains" (.string needle)
  | .startsWith start => serializeOp "$startsWith" (.string start)

/-- The operations have different names, so no value is two of them. -/
def op (value : Value) : Option StringFilter :=
  ((inOp stringOperand value).map .isIn).or <|
    (((variant "$contains" value).bind Value.asStr).map .contains).or <|
      ((variant "$startsWith" value).bind Value.asStr).map .startsWith

def deserialize (value : Value) : Option StringFilter := (op value).or (value.asStr.map .eq)

theorem deserialize_serialize (filter : StringFilter) : deserialize (serialize filter) = some filter := by
  cases filter with
  | eq value => rfl
  | isIn values => simp [serialize, deserialize, op, inOp_serializeOp]
  | contains needle => simp [serialize, deserialize, op, inOp, Value.asStr]
  | startsWith start => simp [serialize, deserialize, op, inOp, Value.asStr]

end StringFilter

namespace NumericFilter

variable {T : Type}

/-- An entry for each bound that is there. -/
def bounds (operand : Operand T) (min max : Option T) : Value :=
  let entries : List (String × Value) :=
    match min with
    | some value => insertEntry "min" (operand.serialize value) []
    | none => []
  match max with
  | some value => .object (insertEntry "max" (operand.serialize value) entries)
  | none => .object entries

def serialize (operand : Operand T) : NumericFilter T → Value
  | .eq value => operand.serialize value
  | .isIn values => serializeOp "$in" (operand.serializeList values)
  | .range min max => serializeOp "$range" (bounds operand min max)

/-- A bound that is null is absent. -/
def deserializeBound (operand : Operand T) : Value → Option (Option T)
  | .null => some none
  | value => (operand.deserialize value).map some

/-- The bound of one name: it may be missing and may not stand twice. Other entries are passed over. -/
def boundNamed (operand : Operand T) (name : String) (entries : List (String × Value)) : Option (Option T) :=
  match entries.filter fun entry => entry.1 = name with
  | [] => some none
  | [entry] => deserializeBound operand entry.2
  | _ => none

/-- A range may also be read from a sequence, the lower bound first. -/
def deserializeBounds (operand : Operand T) : Value → Option (Option T × Option T)
  | .object entries => do
    let min ← boundNamed operand "min" entries
    let max ← boundNamed operand "max" entries
    return (min, max)
  | .array [] => some (none, none)
  | .array [min] => (deserializeBound operand min).map fun min => (min, none)
  | .array [min, max] => do
    let min ← deserializeBound operand min
    let max ← deserializeBound operand max
    return (min, max)
  | _ => none

def op (operand : Operand T) (value : Value) : Option (NumericFilter T) :=
  ((inOp operand value).map .isIn).or <|
    ((variant "$range" value).bind (deserializeBounds operand)).map fun bounds => .range bounds.1 bounds.2

def deserialize (operand : Operand T) (value : Value) : Option (NumericFilter T) :=
  (op operand value).or ((operand.deserialize value).map .eq)

theorem filter_insertEntry_of_ne {key name : String} (other : key ≠ name) (value : Value)
    (entries : List (String × Value)) :
    (insertEntry key value entries).filter (fun entry => entry.1 = name) =
      entries.filter fun entry => entry.1 = name := by
  induction entries with
  | nil => simp [insertEntry, other]
  | cons first rest ih =>
    unfold insertEntry
    split
    · simp [other]
    · split
      · rename_i same
        have besides : first.1 ≠ name := same ▸ other
        simp [other, besides]
      · simp only [List.filter_cons, ih]

theorem filter_insertEntry_self {name : String} {entries : List (String × Value)}
    (absent : ∀ entry ∈ entries, entry.1 ≠ name) (value : Value) :
    (insertEntry name value entries).filter (fun entry => entry.1 = name) = [(name, value)] := by
  have nothing : entries.filter (fun entry => entry.1 = name) = [] := by
    rw [List.filter_eq_nil_iff]
    intro entry among named
    exact absent entry among (of_decide_eq_true named)
  induction entries with
  | nil => simp [insertEntry]
  | cons first rest ih =>
    have besides : first.1 ≠ name := absent first List.mem_cons_self
    rw [List.filter_cons_of_neg (by simpa using besides)] at nothing
    unfold insertEntry
    split
    · simp [besides, nothing]
    · rw [List.filter_cons_of_neg (by simpa using besides)]
      exact ih (fun entry among => absent entry (List.mem_cons_of_mem _ among)) nothing

theorem boundNamed_nil (operand : Operand T) (name : String) : boundNamed operand name [] = some none := rfl

theorem boundNamed_insertEntry_of_ne (operand : Operand T) {key name : String} (other : key ≠ name)
    (value : Value) (entries : List (String × Value)) :
    boundNamed operand name (insertEntry key value entries) = boundNamed operand name entries := by
  unfold boundNamed
  rw [filter_insertEntry_of_ne other]

theorem boundNamed_insertEntry_self (operand : Operand T) {name : String} {entries : List (String × Value)}
    (absent : ∀ entry ∈ entries, entry.1 ≠ name) (value : Value) :
    boundNamed operand name (insertEntry name value entries) = deserializeBound operand value := by
  unfold boundNamed
  rw [filter_insertEntry_self absent]

section Numbers

variable (operand : NumericOperand T)

/-- A number is not null, so a bound that is there is read as one. -/
theorem deserializeBound_serialize (value : T) :
    deserializeBound operand.toOperand (operand.serialize value) = some (some value) := by
  have back := operand.round_trip value
  obtain ⟨literal, written⟩ := operand.number value
  rw [written] at back ⊢
  show (operand.deserialize (.number literal)).map some = some (some value)
  rw [back]
  rfl

/-- The lower bound is written first, and the upper one leaves it alone. -/
theorem deserializeBounds_bounds (min max : Option T) :
    deserializeBounds operand.toOperand (bounds operand.toOperand min max) = some (min, max) := by
  have lower : ∀ value, boundNamed operand.toOperand "min" (insertEntry "min" (operand.serialize value) []) =
      some (some value) := by
    intro value
    rw [boundNamed_insertEntry_self _ (by simp), deserializeBound_serialize]
  have upper : ∀ value (entries : List (String × Value)), (∀ entry ∈ entries, entry.1 ≠ "max") →
      boundNamed operand.toOperand "max" (insertEntry "max" (operand.serialize value) entries) =
        some (some value) := by
    intro value entries absent
    rw [boundNamed_insertEntry_self _ absent, deserializeBound_serialize]
  have kept : ∀ value (entries : List (String × Value)),
      boundNamed operand.toOperand "min" (insertEntry "max" value entries) =
        boundNamed operand.toOperand "min" entries := by
    intro value entries
    exact boundNamed_insertEntry_of_ne _ (by decide) value entries
  have lowerOnly : ∀ value, boundNamed operand.toOperand "max" (insertEntry "min" value []) = some none := by
    intro value
    rw [boundNamed_insertEntry_of_ne _ (by decide), boundNamed_nil]
  cases min with
  | none =>
    cases max with
    | none => rfl
    | some value =>
      simp only [bounds, deserializeBounds, kept, boundNamed_nil, upper value [] (by simp)]
      rfl
  | some value =>
    cases max with
    | none =>
      simp only [bounds, deserializeBounds, lower, lowerOnly]
      rfl
    | some other =>
      have absent : ∀ entry ∈ insertEntry "min" (operand.serialize value) [], entry.1 ≠ "max" := by
        intro entry among
        rw [List.mem_singleton.mp among]
        exact ne_of_beq_false rfl
      simp only [bounds, deserializeBounds, kept, lower, upper other _ absent]
      rfl

theorem deserialize_serialize (filter : NumericFilter T) :
    deserialize operand.toOperand (serialize operand.toOperand filter) = some filter := by
  cases filter with
  | eq value =>
    have bare : op operand.toOperand (operand.serialize value) = none := by
      unfold op
      rw [inOp_serialize, operand.variant_serialize "$range" rfl]
      rfl
    simp [serialize, deserialize, bare, operand.round_trip]
  | isIn values => simp [serialize, deserialize, op, inOp_serializeOp]
  | range min max => simp [serialize, deserialize, op, inOp, deserializeBounds_bounds]

end Numbers

end NumericFilter

/-- A filter that is read back from what it is written as, and a text that is read again as what it was first
read as. -/
def RoundTrips {F : Type} (serialize : F → Value) (deserialize : Value → Option F) : Prop :=
  (∀ filter, deserialize (serialize filter) = some filter) ∧
    ∀ value filter, deserialize value = some filter → deserialize (serialize filter) = some filter

theorem RoundTrips.of_left {F : Type} {serialize : F → Value} {deserialize : Value → Option F}
    (back : ∀ filter, deserialize (serialize filter) = some filter) : RoundTrips serialize deserialize :=
  ⟨back, fun _ filter _ => back filter⟩

/-- Every filter survives the wire. -/
theorem filters_round_trip :
    (∀ (T : Type) (operand : Operand T),
      RoundTrips (IdFilter.serialize operand) (IdFilter.deserialize operand) ∧
        RoundTrips (EqFilter.serialize operand) (EqFilter.deserialize operand)) ∧
      RoundTrips StringFilter.serialize StringFilter.deserialize ∧
      ∀ (T : Type) (operand : NumericOperand T),
        RoundTrips (NumericFilter.serialize operand.toOperand) (NumericFilter.deserialize operand.toOperand) := by
  refine ⟨fun T operand => ⟨?_, ?_⟩, ?_, fun T operand => ?_⟩
  · exact .of_left (IdFilter.deserialize_serialize operand)
  · exact .of_left (EqFilter.deserialize_serialize operand)
  · exact .of_left StringFilter.deserialize_serialize
  · exact .of_left (NumericFilter.deserialize_serialize operand)

example : StringFilter.deserialize (.string "$in") = some (.eq "$in") := rfl

example : NumericFilter.deserialize integerOperand.toOperand (serializeOp "$range" (.array [])) =
    some (.range none none) := rfl

end Myko.Query

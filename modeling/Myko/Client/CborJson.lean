import Myko.Wire.Serde

/-!
The JSON value a client makes of a CBOR frame. Where CBOR does not tell what serde had, the visitor guesses: 16 bytes
are taken for a UUID, and other byte strings for arrays of numbers.
-/

namespace Myko

inductive DecodeError where
  | custom (text : String)
  /-- What ciborium says of a map key that is not text. -/
  | keyNotText

/-- The text of a failed conversion to a narrower integer. -/
def tryFromIntError : String := "out of range integral type conversion attempted"

def bytesToJson (bytes : List UInt8) : Json :=
  if bytes.length = 16 then .string (hyphenated bytes)
  else .array (bytes.map fun byte => .integer byte.toNat)

def visitI64 (value : Int) : Except DecodeError Json := .ok (.integer value)

def visitU64 (value : Int) : Except DecodeError Json := .ok (.integer value)

def visitI128 (value : Int) : Except DecodeError Json :=
  if i64Least ≤ value ∧ value ≤ 9223372036854775807 then visitI64 value else .error (.custom tryFromIntError)

def visitU128 (value : Int) : Except DecodeError Json :=
  if 0 ≤ value ∧ value ≤ u64Greatest then visitU64 value else .error (.custom tryFromIntError)

def visitF64 : FloatValue → Except DecodeError Json
  | .finite value => .ok (.float value)
  | _ => .error (.custom "non-finite CBOR float is not representable as JSON")

/-- The visitor's method that ciborium calls for an integer. -/
def visitInteger (value : Int) : Except DecodeError Json :=
  if 0 ≤ value then if value ≤ u64Greatest then visitU64 value else visitU128 value
  else if i64Least ≤ value then visitI64 value else visitI128 value

/-- A key, which is asked for as a string. -/
def nextKey : Cbor → Except DecodeError String
  | .text value => .ok value
  | _ => .error .keyNotText

mutual

/-- `deserialize_any` on an item, with the visitor's answer. -/
def deserialize : Cbor → Except DecodeError Json
  | .integer value => visitInteger value
  | .bytes value => .ok (bytesToJson value)
  | .text value => .ok (.string value)
  | .array items => visitSeq [] items
  | .map entries => visitMap ∅ entries
  | .bool value => .ok (.bool value)
  | .null => .ok .null
  | .float value => visitF64 value

def visitSeq (values : List Json) : List Cbor → Except DecodeError Json
  | [] => .ok (.array values)
  | item :: rest =>
    match deserialize item with
    | .error refusal => .error refusal
    | .ok value => visitSeq (values ++ [value]) rest

def visitMap (values : OrdMap String Json) : List (Cbor × Cbor) → Except DecodeError Json
  | [] => .ok (.object values.toList)
  | (key, item) :: rest =>
    match nextKey key with
    | .error refusal => .error refusal
    | .ok key =>
      match deserialize item with
      | .error refusal => .error refusal
      | .ok value => visitMap (values.insert key value) rest

end

/-- The value of a frame that holds one item. -/
def fromSlice (frame : Cbor) : Except DecodeError Json := deserialize frame

/-! ### What is read of a value -/

namespace Scalar

/-- A float is finite and an integer one of 64 bits. -/
def Readable : Scalar → Prop
  | integer value => i64Least ≤ value ∧ value ≤ u64Greatest
  | f32 (.finite _) => True
  | f32 _ => False
  | f64 (.finite _) => True
  | f64 _ => False
  | _ => True

instance : DecidablePred Readable
  | integer value => inferInstanceAs (Decidable (i64Least ≤ value ∧ value ≤ u64Greatest))
  | f32 (.finite _) => isTrue trivial
  | f32 .nan => isFalse id
  | f32 (.infinite _) => isFalse id
  | f64 (.finite _) => isTrue trivial
  | f64 .nan => isFalse id
  | f64 (.infinite _) => isFalse id
  | bool _ => isTrue trivial
  | char _ => isTrue trivial
  | str _ => isTrue trivial
  | bytes _ => isTrue trivial
  | uuid _ => isTrue trivial
  | none => isTrue trivial
  | unit => isTrue trivial
  | unitStruct => isTrue trivial
  | unitVariant _ => isTrue trivial

/-- A readable scalar as it comes out of CBOR: floats as they are, 16 bytes as the text of a UUID. -/
def reading : Scalar → Json
  | bool value => .bool value
  | integer value => .integer value
  | f32 (.finite value) => .float value
  | f32 _ => .null
  | f64 (.finite value) => .float value
  | f64 _ => .null
  | char value => .string (String.singleton value)
  | str value => .string value
  | bytes value => bytesToJson value
  | uuid value => .string (hyphenated value.bytes)
  | none => .null
  | unit => .null
  | unitStruct => .null
  | unitVariant variant => .string variant

/-- CBOR and text agree on a scalar: it is no byte string that looks like a UUID, and no float that its text rounds. -/
def AgreesWith (text : JsonText) : Scalar → Prop
  | f32 (.finite value) => text.single value = value
  | f64 (.finite value) => text.double value = value
  | bytes value => value.length ≠ 16
  | _ => True

theorem bytesToJson_uuid (value : Uuid) : bytesToJson value.bytes = .string (hyphenated value.bytes) :=
  if_pos value.size

theorem visitInteger_eq (value : Int) :
    visitInteger value =
      if i64Least ≤ value ∧ value ≤ u64Greatest then .ok (.integer value)
      else .error (.custom tryFromIntError) := by
  unfold visitInteger visitU64 visitU128 visitI128 visitI64 i64Least u64Greatest
  split_ifs <;> first | rfl | omega

theorem deserialize_toCbor (scalar : Scalar) (readable : scalar.Readable) :
    deserialize scalar.toCbor = .ok scalar.reading := by
  cases scalar with
  | integer value => exact (visitInteger_eq value).trans (if_pos readable)
  | f32 value =>
    cases value with
    | finite value => rfl
    | nan => cases readable
    | infinite _ => cases readable
  | f64 value =>
    cases value with
    | finite value => rfl
    | nan => cases readable
    | infinite _ => cases readable
  | uuid value => exact congrArg Except.ok (bytesToJson_uuid value)
  | _ => rfl

theorem readable_of_deserialize {scalar : Scalar} {json : Json} (read : deserialize scalar.toCbor = .ok json) :
    scalar.Readable := by
  cases scalar with
  | integer value =>
    by_contra outside
    have refused := (visitInteger_eq value).trans (if_neg outside)
    cases read.symm.trans refused
  | f32 value =>
    cases value with
    | finite value => trivial
    | nan => cases read
    | infinite _ => cases read
  | f64 value =>
    cases value with
    | finite value => trivial
    | nan => cases read
    | infinite _ => cases read
  | _ => trivial

theorem reading_eq_toJson {text : JsonText} {scalar : Scalar} (readable : scalar.Readable) :
    scalar.reading = scalar.toJson text ↔ scalar.AgreesWith text := by
  cases scalar with
  | integer value => exact iff_of_true (if_pos readable).symm trivial
  | f32 value =>
    cases value with
    | finite value => exact Json.float.injEq _ _ ▸ eq_comm
    | nan => cases readable
    | infinite _ => cases readable
  | f64 value =>
    cases value with
    | finite value => exact Json.float.injEq _ _ ▸ eq_comm
    | nan => cases readable
    | infinite _ => cases readable
  | bytes value =>
    by_cases guessed : value.length = 16
    · have string : (bytes value).reading = .string (hyphenated value) := if_pos guessed
      rw [string]
      exact iff_of_false (fun same => by cases same) fun other => other guessed
    · exact iff_of_true (if_neg guessed) guessed
  | _ => exact iff_of_true rfl trivial

end Scalar

namespace Serde

/-- Nothing in the value is refused. -/
def Readable (value : Serde) : Prop := ∀ scalar ∈ value.scalars, scalar.Readable

def TextKeys (value : Serde) : Prop := ∀ key ∈ value.keys, key.IsText

/-- CBOR and text agree on what is not replaced. -/
def AgreesWith (text : JsonText) (value : Serde) : Prop := ∀ scalar ∈ value.kept, scalar.AgreesWith text

/-- What a client reads in a CBOR frame. -/
def reading (value : Serde) : Json := value.jsonWith Scalar.reading

theorem nextKey_toCbor {key : Key} (text : key.IsText) : nextKey key.toCbor = .ok key.name := by
  cases key with
  | text value => rfl
  | integer value => cases text

theorem isText_of_nextKey {key : Key} {name : String} (read : nextKey key.toCbor = .ok name) : key.IsText := by
  cases key with
  | text value => trivial
  | integer value => cases read

mutual

theorem deserialize_toCbor : ∀ value : Serde, (∀ scalar ∈ value.scalars, scalar.Readable) →
    (∀ key ∈ value.keys, key.IsText) → deserialize value.toCbor = .ok (value.jsonWith Scalar.reading)
  | scalar value, readable, _ => value.deserialize_toCbor (readable value List.mem_cons_self)
  | some value, readable, text => deserialize_toCbor value readable text
  | newtypeStruct value, readable, text => deserialize_toCbor value readable text
  | newtypeVariant variant value, readable, text => by
    have inner := deserialize_toCbor value readable text
    rw [toCbor, deserialize, visitMap, nextKey]
    dsimp only
    rw [inner]
    rfl
  | seq items, readable, text => visitSeq_toCbor items [] readable text
  | map entries, readable, text => visitMap_toCbor entries ∅ readable text

theorem visitSeq_toCbor : ∀ (items : List Serde) (values : List Json),
    (∀ scalar ∈ scalarsOfItems items, scalar.Readable) → (∀ key ∈ keysOfItems items, key.IsText) →
    visitSeq values (toCborItems items) = .ok (.array (values ++ jsonItems Scalar.reading items))
  | [], values, _, _ => by rw [jsonItems, List.append_nil]; rfl
  | value :: rest, values, readable, text => by
    rw [scalarsOfItems, List.forall_mem_append] at readable
    rw [keysOfItems, List.forall_mem_append] at text
    rw [toCborItems, visitSeq, deserialize_toCbor value readable.1 text.1]
    dsimp only
    rw [visitSeq_toCbor rest _ readable.2 text.2, List.append_assoc]
    rfl

theorem visitMap_toCbor : ∀ (entries : List (Key × Serde)) (values : OrdMap String Json),
    (∀ scalar ∈ scalarsOfEntries entries, scalar.Readable) → (∀ key ∈ keysOfEntries entries, key.IsText) →
    visitMap values (toCborEntries entries) =
      .ok (.object (OrdMap.insertMany values (jsonEntries Scalar.reading entries)).toList)
  | [], _, _, _ => rfl
  | (key, value) :: rest, values, readable, text => by
    rw [scalarsOfEntries, List.forall_mem_append] at readable
    rw [keysOfEntries, List.cons_append, List.forall_mem_cons, List.forall_mem_append] at text
    rw [toCborEntries, visitMap, nextKey_toCbor text.1]
    dsimp only
    rw [deserialize_toCbor value readable.1 text.2.1]
    exact visitMap_toCbor rest _ readable.2 text.2.2

end

theorem visitSeq_cons {values : List Json} {item : Cbor} {rest : List Cbor} {json : Json}
    (read : visitSeq values (item :: rest) = .ok json) :
    ∃ value, deserialize item = .ok value ∧ visitSeq (values ++ [value]) rest = .ok json := by
  rw [visitSeq] at read
  cases inner : deserialize item with
  | error refusal =>
    rw [inner] at read
    cases read
  | ok value =>
    rw [inner] at read
    exact ⟨value, rfl, read⟩

theorem visitMap_cons {values : OrdMap String Json} {key item : Cbor} {rest : List (Cbor × Cbor)} {json : Json}
    (read : visitMap values ((key, item) :: rest) = .ok json) :
    ∃ name value, nextKey key = .ok name ∧ deserialize item = .ok value ∧
      visitMap (values.insert name value) rest = .ok json := by
  rw [visitMap] at read
  cases named : nextKey key with
  | error refusal =>
    rw [named] at read
    cases read
  | ok name =>
    rw [named] at read
    dsimp only at read
    cases inner : deserialize item with
    | error refusal =>
      rw [inner] at read
      cases read
    | ok value =>
      rw [inner] at read
      exact ⟨name, value, rfl, rfl, read⟩

mutual

/-- What is read has nothing in it that is refused. -/
theorem readable_of_deserialize : ∀ (value : Serde) {json : Json}, deserialize value.toCbor = .ok json →
    (∀ scalar ∈ value.scalars, scalar.Readable) ∧ ∀ key ∈ value.keys, key.IsText
  | scalar value, json, read => by
    refine ⟨?_, List.forall_mem_nil _⟩
    rw [scalars, List.forall_mem_singleton]
    exact Scalar.readable_of_deserialize read
  | some value, json, read => readable_of_deserialize value read
  | newtypeStruct value, json, read => readable_of_deserialize value read
  | newtypeVariant variant value, json, read => by
    have entry : visitMap ∅ [(.text variant, value.toCbor)] = .ok json := read
    obtain ⟨_, _, _, inner, _⟩ := visitMap_cons entry
    exact readable_of_deserialize value inner
  | seq items, json, read => readable_of_visitSeq items read
  | map entries, json, read => readable_of_visitMap entries read

theorem readable_of_visitSeq : ∀ (items : List Serde) {values : List Json} {json : Json},
    visitSeq values (toCborItems items) = .ok json →
    (∀ scalar ∈ scalarsOfItems items, scalar.Readable) ∧ ∀ key ∈ keysOfItems items, key.IsText
  | [], _, _, _ => ⟨List.forall_mem_nil _, List.forall_mem_nil _⟩
  | value :: rest, values, json, read => by
    obtain ⟨_, inner, behind⟩ := visitSeq_cons read
    have first := readable_of_deserialize value inner
    have others := readable_of_visitSeq rest behind
    rw [scalarsOfItems, List.forall_mem_append, keysOfItems, List.forall_mem_append]
    exact ⟨⟨first.1, others.1⟩, first.2, others.2⟩

theorem readable_of_visitMap : ∀ (entries : List (Key × Serde)) {values : OrdMap String Json} {json : Json},
    visitMap values (toCborEntries entries) = .ok json →
    (∀ scalar ∈ scalarsOfEntries entries, scalar.Readable) ∧ ∀ key ∈ keysOfEntries entries, key.IsText
  | [], _, _, _ => ⟨List.forall_mem_nil _, List.forall_mem_nil _⟩
  | (key, value) :: rest, values, json, read => by
    obtain ⟨_, _, named, inner, behind⟩ := visitMap_cons read
    have first := readable_of_deserialize value inner
    have others := readable_of_visitMap rest behind
    rw [scalarsOfEntries, List.forall_mem_append, keysOfEntries, List.cons_append, List.forall_mem_cons,
      List.forall_mem_append]
    exact ⟨⟨first.1, others.1⟩, isText_of_nextKey named, first.2, others.2⟩

end

mutual

theorem kept_subset : ∀ value : Serde, value.kept ⊆ value.scalars
  | scalar _ => List.Subset.refl _
  | some value => kept_subset value
  | newtypeStruct value => kept_subset value
  | newtypeVariant _ value => kept_subset value
  | seq items => keptOfItems_subset items
  | map entries => keptOfEntries_subset entries

theorem keptOfItems_subset : ∀ items : List Serde, keptOfItems items ⊆ scalarsOfItems items
  | [] => List.Subset.refl _
  | value :: rest => List.append_subset.mpr
    ⟨List.subset_append_of_subset_left _ (kept_subset value),
      List.subset_append_of_subset_right _ (keptOfItems_subset rest)⟩

theorem keptOfEntries_subset : ∀ entries : List (Key × Serde), keptOfEntries entries ⊆ scalarsOfEntries entries
  | [] => List.Subset.refl _
  | (key, value) :: rest => by
    rw [keptOfEntries, scalarsOfEntries]
    refine List.append_subset.mpr
      ⟨?_, List.subset_append_of_subset_right _ (keptOfEntries_subset rest)⟩
    split
    · exact List.nil_subset _
    · exact List.subset_append_of_subset_left _ (kept_subset value)

end

theorem names_jsonEntries (read : Scalar → Json) (entries : List (Key × Serde)) :
    (jsonEntries read entries).map Prod.fst = entries.map fun entry => entry.1.name := by
  induction entries with
  | nil => rfl
  | cons entry rest ih => exact congrArg (entry.1.name :: ·) ih

theorem ofEntries_inj {entries others : List (String × Json)} :
    Json.ofEntries entries = .ofEntries others ↔
      OrdMap.insertMany (∅ : OrdMap String Json) entries = OrdMap.insertMany ∅ others := by
  unfold Json.ofEntries
  rw [Json.object.injEq, Std.ExtTreeMap.toList_inj]

mutual

/-- Two ways to read scalars make the same of a value that agree on what is not replaced in it. -/
theorem jsonWith_inj {read other : Scalar → Json} : ∀ value : Serde,
    value.jsonWith read = value.jsonWith other ↔ ∀ scalar ∈ value.kept, read scalar = other scalar
  | scalar value => by rw [kept, List.forall_mem_singleton, jsonWith, jsonWith]
  | some value => jsonWith_inj value
  | newtypeStruct value => jsonWith_inj value
  | newtypeVariant variant value => by
    rw [jsonWith, jsonWith, ofEntries_inj, OrdMap.insertMany_cons_inj rfl, jsonWith_inj value, kept]
    exact ⟨fun same => same.1 List.not_mem_nil, fun same => ⟨fun _ => same, rfl⟩⟩
  | seq items => by
    rw [jsonWith, jsonWith, Json.array.injEq, jsonItems_inj items, kept]
  | map entries => by
    rw [jsonWith, jsonWith, ofEntries_inj, jsonEntries_inj entries, kept]

theorem jsonItems_inj {read other : Scalar → Json} : ∀ items : List Serde,
    jsonItems read items = jsonItems other items ↔ ∀ scalar ∈ keptOfItems items, read scalar = other scalar
  | [] => iff_of_true rfl (List.forall_mem_nil _)
  | value :: rest => by
    rw [jsonItems, jsonItems, List.cons.injEq, jsonWith_inj value, jsonItems_inj rest, keptOfItems,
      List.forall_mem_append]

theorem jsonEntries_inj {read other : Scalar → Json} : ∀ entries : List (Key × Serde),
    OrdMap.insertMany (∅ : OrdMap String Json) (jsonEntries read entries) =
      OrdMap.insertMany ∅ (jsonEntries other entries) ↔
        ∀ scalar ∈ keptOfEntries entries, read scalar = other scalar
  | [] => iff_of_true rfl (List.forall_mem_nil _)
  | (key, value) :: rest => by
    have names : (jsonEntries read rest).map Prod.fst = (jsonEntries other rest).map Prod.fst := by
      rw [names_jsonEntries, names_jsonEntries]
    rw [jsonEntries, jsonEntries, OrdMap.insertMany_cons_inj names, jsonEntries_inj rest, jsonWith_inj value,
      keptOfEntries, List.forall_mem_append, names_jsonEntries]
    refine and_congr_left fun _ => ?_
    by_cases replaced : key.name ∈ rest.map fun entry => entry.1.name
    · rw [if_pos replaced]
      exact iff_of_true (fun absent => absurd replaced absent) (List.forall_mem_nil _)
    · rw [if_neg replaced]
      exact ⟨fun same => same replaced, fun same _ => same⟩

end

/-- A value is read exactly if nothing in it is refused and its maps have text for keys. -/
theorem fromSlice_ok_iff (value : Serde) :
    (∃ json, fromSlice value.toCbor = .ok json) ↔ value.Readable ∧ value.TextKeys := by
  constructor
  · rintro ⟨json, read⟩
    exact readable_of_deserialize value read
  · exact fun both => ⟨_, deserialize_toCbor value both.1 both.2⟩

theorem reading_eq_toJson {value : Serde} (text : JsonText) (readable : value.Readable) :
    value.reading = value.toJson text ↔ value.AgreesWith text := by
  refine (jsonWith_inj value).trans (forall₂_congr fun scalar member => ?_)
  exact Scalar.reading_eq_toJson (readable scalar (kept_subset value member))

/-- What a CBOR frame carries of a value, beside the JSON value that the text carries. -/
structure Carried (text : JsonText) (value : Serde) : Prop where
  accepted : (∃ json, fromSlice value.toCbor = .ok json) ↔ value.Readable
  read : value.Readable → fromSlice value.toCbor = .ok value.reading
  same : fromSlice value.toCbor = .ok (value.toJson text) ↔ value.Readable ∧ value.AgreesWith text

end Serde

theorem cbor_carries_value (text : JsonText) (value : Serde) (keys : value.TextKeys) : value.Carried text := by
  have accepted : (∃ json, fromSlice value.toCbor = .ok json) ↔ value.Readable :=
    (value.fromSlice_ok_iff).trans (and_iff_left keys)
  have read (readable : value.Readable) : fromSlice value.toCbor = .ok value.reading :=
    value.deserialize_toCbor readable keys
  refine ⟨accepted, read, ?_⟩
  constructor
  · intro same
    have readable := accepted.mp ⟨_, same⟩
    rw [read readable] at same
    exact ⟨readable, (value.reading_eq_toJson text readable).mp (Except.ok.inj same)⟩
  · rintro ⟨readable, agrees⟩
    rw [read readable, (value.reading_eq_toJson text readable).mpr agrees]

/-- Text that keeps every number. -/
def exactText : JsonText where
  single := id
  double := id
  long value := value

def sampleId : Uuid where
  bytes := [0xb6, 0xe7, 0x28, 0x73, 0x9b, 0x84, 0x4b, 0xe5, 0xa8, 0x4b, 0xa5, 0x70, 0x78, 0x83, 0xc3, 0x46]
  size := rfl

def sampleItem : Serde := .struct [
  ("id", .scalar (.uuid sampleId)),
  ("bytes", .seq [.scalar (.integer 1), .scalar (.integer 2), .scalar (.integer 3)])]

/-- A response with one upsert of an item that has a UUID. -/
def sampleResponse : Serde := .struct [
  ("event", .scalar (.unitVariant "ws:m:query-response")),
  ("data", .struct [
    ("tx", .scalar (.str "tx-1")),
    ("sequence", .scalar (.integer 0)),
    ("deletes", .seq []),
    ("upserts", .seq [.struct [("item", sampleItem), ("itemType", .scalar (.str "TestItem"))]])])]

theorem sampleResponse_keys : sampleResponse.TextKeys := by
  show ∀ key ∈ sampleResponse.keys, key.IsText
  decide

theorem sampleResponse_carried :
    fromSlice sampleResponse.toCbor = .ok (sampleResponse.toJson exactText) := by
  refine (cbor_carries_value exactText sampleResponse sampleResponse_keys).same.mpr ⟨?_, ?_⟩
  · show ∀ scalar ∈ sampleResponse.scalars, scalar.Readable
    decide
  · simp [Serde.AgreesWith, sampleResponse, sampleItem, Serde.struct, Serde.kept, Serde.keptOfEntries,
      Serde.keptOfItems, Key.name, Scalar.AgreesWith]

def sixteenBytes : Serde := .scalar (.bytes (List.replicate 16 0))

/-- A byte string of the length of a UUID is read as one. -/
theorem sixteenBytes_differ : fromSlice sixteenBytes.toCbor ≠ .ok (sixteenBytes.toJson exactText) := by
  rintro ⟨⟩

end Myko

import Mathlib.Data.Rat.Defs
import Myko.Lib.MapDiff

/-!
serde's data model between its two encoders on the wire: the item that ciborium writes for a value, and the
JSON value that is parsed from the text serde_json writes for it.
-/

namespace Myko

inductive FloatValue where
  | nan
  | infinite (negative : Bool)
  | finite (value : Rat)

structure Uuid where
  bytes : List UInt8
  size : bytes.length = 16

def hexByte (byte : UInt8) : List Char :=
  [Nat.digitChar (byte.toNat / 16), Nat.digitChar (byte.toNat % 16)]

/-- The hyphenated text of 16 bytes. -/
def hyphenated (bytes : List UInt8) : String :=
  let digits (start count : Nat) := ((bytes.drop start).take count).flatMap hexByte
  String.ofList (digits 0 4 ++ '-' :: digits 4 2 ++ '-' :: digits 6 2 ++ '-' :: digits 8 2 ++ '-' :: digits 10 6)

/-! ### The data model -/

/-- A value that holds no other. Integers of every width are alike, and so are the texts of both encoders. -/
inductive Scalar where
  | bool (value : Bool)
  | integer (value : Int)
  | f32 (value : FloatValue)
  | f64 (value : FloatValue)
  | char (value : Char)
  | str (value : String)
  | bytes (value : List UInt8)
  | uuid (value : Uuid)
  | none
  | unit
  | unitStruct
  | unitVariant (variant : String)

inductive Key where
  | text (value : String)
  | integer (value : Int)

/-- The key in a JSON text. -/
def Key.name : Key → String
  | text value => value
  | integer value => toString value

def Key.IsText : Key → Prop
  | text _ => True
  | integer _ => False

instance : DecidablePred Key.IsText
  | .text _ => isTrue trivial
  | .integer _ => isFalse id

inductive Serde where
  | scalar (value : Scalar)
  | some (value : Serde)
  | newtypeStruct (value : Serde)
  | newtypeVariant (variant : String) (value : Serde)
  | seq (items : List Serde)
  | map (entries : List (Key × Serde))

namespace Serde

/-! What both encoders write as another kind of value. -/

def tuple (items : List Serde) : Serde := .seq items

def struct (fields : List (String × Serde)) : Serde := .map (fields.map fun field => (.text field.1, field.2))

def tupleVariant (variant : String) (items : List Serde) : Serde := .newtypeVariant variant (.tuple items)

def structVariant (variant : String) (fields : List (String × Serde)) : Serde :=
  .newtypeVariant variant (.struct fields)

mutual

/-- Every scalar in a value. -/
def scalars : Serde → List Scalar
  | scalar value => [value]
  | some value => value.scalars
  | newtypeStruct value => value.scalars
  | newtypeVariant _ value => value.scalars
  | seq items => scalarsOfItems items
  | map entries => scalarsOfEntries entries

def scalarsOfItems : List Serde → List Scalar
  | [] => []
  | value :: rest => value.scalars ++ scalarsOfItems rest

def scalarsOfEntries : List (Key × Serde) → List Scalar
  | [] => []
  | (_, value) :: rest => value.scalars ++ scalarsOfEntries rest

end

mutual

/-- The scalars that no later entry of an equal key replaces. -/
def kept : Serde → List Scalar
  | scalar value => [value]
  | some value => value.kept
  | newtypeStruct value => value.kept
  | newtypeVariant _ value => value.kept
  | seq items => keptOfItems items
  | map entries => keptOfEntries entries

def keptOfItems : List Serde → List Scalar
  | [] => []
  | value :: rest => value.kept ++ keptOfItems rest

def keptOfEntries : List (Key × Serde) → List Scalar
  | [] => []
  | (key, value) :: rest =>
    (if key.name ∈ rest.map fun entry => entry.1.name then [] else value.kept) ++ keptOfEntries rest

end

mutual

/-- Every key of a map in a value. -/
def keys : Serde → List Key
  | scalar _ => []
  | some value => value.keys
  | newtypeStruct value => value.keys
  | newtypeVariant _ value => value.keys
  | seq items => keysOfItems items
  | map entries => keysOfEntries entries

def keysOfItems : List Serde → List Key
  | [] => []
  | value :: rest => value.keys ++ keysOfItems rest

def keysOfEntries : List (Key × Serde) → List Key
  | [] => []
  | (key, value) :: rest => key :: value.keys ++ keysOfEntries rest

end

end Serde

/-! ### CBOR -/

/-- A CBOR item. An integer beyond 64 bits is a bignum. -/
inductive Cbor where
  | integer (value : Int)
  | bytes (value : List UInt8)
  | text (value : String)
  | array (items : List Cbor)
  | map (entries : List (Cbor × Cbor))
  | bool (value : Bool)
  | null
  | float (value : FloatValue)

def Scalar.toCbor : Scalar → Cbor
  | bool value => .bool value
  | integer value => .integer value
  | f32 value => .float value
  | f64 value => .float value
  | char value => .text (String.singleton value)
  | str value => .text value
  | bytes value => .bytes value
  | uuid value => .bytes value.bytes
  | none => .null
  | unit => .null
  | unitStruct => .null
  | unitVariant variant => .text variant

def Key.toCbor : Key → Cbor
  | text value => .text value
  | integer value => .integer value

namespace Serde

mutual

def toCbor : Serde → Cbor
  | scalar value => value.toCbor
  | some value => value.toCbor
  | newtypeStruct value => value.toCbor
  | newtypeVariant variant value => .map [(.text variant, value.toCbor)]
  | seq items => .array (toCborItems items)
  | map entries => .map (toCborEntries entries)

def toCborItems : List Serde → List Cbor
  | [] => []
  | value :: rest => value.toCbor :: toCborItems rest

def toCborEntries : List (Key × Serde) → List (Cbor × Cbor)
  | [] => []
  | (key, value) :: rest => (key.toCbor, value.toCbor) :: toCborEntries rest

end

end Serde

/-! ### JSON -/

/-- A JSON value. The entries of an object are listed by key: objects are compared as maps. -/
inductive Json where
  | null
  | bool (value : Bool)
  | integer (value : Int)
  | float (value : Rat)
  | string (value : String)
  | array (items : List Json)
  | object (entries : List (String × Json))

/-- An object of the entries as they were read, the last one of a key standing. -/
def Json.ofEntries (entries : List (String × Json)) : Json :=
  .object (OrdMap.insertMany (∅ : OrdMap String Json) entries).toList

/-- The floats that serde_json's parser reads where serde_json wrote an f32, an f64 and an integer of more than
64 bits. -/
structure JsonText where
  single : Rat → Rat
  double : Rat → Rat
  long : Int → Rat

def i64Least : Int := -9223372036854775808

def u64Greatest : Int := 18446744073709551615

def Scalar.toJson (text : JsonText) : Scalar → Json
  | bool value => .bool value
  | integer value => if i64Least ≤ value ∧ value ≤ u64Greatest then .integer value else .float (text.long value)
  | f32 (.finite value) => .float (text.single value)
  | f32 _ => .null
  | f64 (.finite value) => .float (text.double value)
  | f64 _ => .null
  | char value => .string (String.singleton value)
  | str value => .string value
  | bytes value => .array (value.map fun byte => .integer byte.toNat)
  | uuid value => .string (hyphenated value.bytes)
  | none => .null
  | unit => .null
  | unitStruct => .null
  | unitVariant variant => .string variant

namespace Serde

mutual

/-- The JSON value of a value, given those of its scalars. -/
def jsonWith (read : Scalar → Json) : Serde → Json
  | scalar value => read value
  | some value => value.jsonWith read
  | newtypeStruct value => value.jsonWith read
  | newtypeVariant variant value => .ofEntries [(variant, value.jsonWith read)]
  | seq items => .array (jsonItems read items)
  | map entries => .ofEntries (jsonEntries read entries)

def jsonItems (read : Scalar → Json) : List Serde → List Json
  | [] => []
  | value :: rest => value.jsonWith read :: jsonItems read rest

def jsonEntries (read : Scalar → Json) : List (Key × Serde) → List (String × Json)
  | [] => []
  | (key, value) :: rest => (key.name, value.jsonWith read) :: jsonEntries read rest

end

/-- What is parsed of the text serde_json writes. -/
def toJson (text : JsonText) (value : Serde) : Json := value.jsonWith (Scalar.toJson text)

end Serde

end Myko

import Myko.Lib.LowerCase
import Myko.Lib.Words
import Myko.Mcp.Filter
import Myko.Search.Typed.Interner

/-!
The text under which an entity is found: its searched fields one behind the other, in lower case, and where
each of them starts.
-/

namespace Myko.Search.Typed

open Words LowerCase
open Mcp (isWhitespace)

abbrev Text := List Char

/-- Written behind each field. -/
def fieldSep : Char := Char.ofNat 0x1F

def isTokenBoundary (c : Char) : Bool := isWhitespace c || [fieldSep, '/', ':', '.', '-', '_'].contains c

def tokenize (text : Text) : List Text := words isTokenBoundary text

def byteLength (text : Text) : Nat := (text.map Char.utf8Size).sum

def makeAsciiLowercase (text : Text) : Text := text.map Char.toLower

/-- The byte at which the first match of a text starts in another. -/
def find (needle : Text) : Text → Option Nat
  | [] => if needle.isEmpty then some 0 else none
  | c :: rest => if needle.isPrefixOf (c :: rest) then some 0 else (find needle rest).map (c.utf8Size + ·)

/-- What is read of an entity type. -/
class Searchable (T : Type) (Id : outParam Type) where
  typedId : T → Id
  /-- The values of the searched fields, in the order in which they are pushed. -/
  searchableFields : T → List Text

structure SearchableExtractor where
  text : Text
  offsets : List Nat

def SearchableExtractor.pushField (extractor : SearchableExtractor) (value : Text) : SearchableExtractor where
  text := extractor.text ++ value ++ [fieldSep]
  offsets := extractor.offsets ++ [min (byteLength extractor.text) u32Max]

def extractSearchable (fields : List Text) : SearchableExtractor := fields.foldl .pushField ⟨[], []⟩

structure EntityRecord where
  internalId : Nat
  searchableText : Text
  /-- The byte at which each field starts. -/
  fieldOffsets : List Nat
  deriving DecidableEq

namespace EntityRecord

def ofFields (internalId : Nat) (fields : List Text) : EntityRecord where
  internalId := internalId
  searchableText := makeAsciiLowercase (extractSearchable fields).text
  fieldOffsets := (extractSearchable fields).offsets

/-- The field that a byte of the text belongs to. -/
def fieldOfPosition (record : EntityRecord) (bytePos : Nat) : Nat :=
  (record.fieldOffsets.takeWhile (· ≤ bytePos)).length - 1

end EntityRecord

/-! ### Characters -/

variable {c : Char} {text token : Text} {fields : List Text}

theorem not_boundary_of_letter (letter : IsLetter c) : isTokenBoundary c = false := by
  have not_white : isWhitespace c = false := by
    have codes : c.toNat ∉ [0x20, 0x85, 0xA0, 0x1680, 0x2028, 0x2029, 0x202F, 0x205F, 0x3000] := by
      simp only [List.mem_cons, List.not_mem_nil, or_false]
      unfold IsLetter at letter
      omega
    unfold IsLetter at letter
    simp only [isWhitespace, decide_eq_false_iff_not]
    rintro (first | second | listed)
    · omega
    · omega
    · exact codes listed
  have no_letters : ∀ mark ∈ [fieldSep, '/', ':', '.', '-', '_'], ¬IsLetter mark := by
    unfold IsLetter
    simp [fieldSep]
  have not_mark : [fieldSep, '/', ':', '.', '-', '_'].contains c = false := by
    rw [← Bool.not_eq_true, List.contains_iff_mem]
    exact fun listed => no_letters c listed letter
  rw [isTokenBoundary, not_white, not_mark, Bool.or_self]

theorem isTokenBoundary_toLower (c : Char) : isTokenBoundary c.toLower = isTokenBoundary c := by
  rcases toLower_cases c with same | ⟨letter, lower⟩
  · rw [same]
  · rw [not_boundary_of_letter letter, not_boundary_of_letter lower]

theorem boundary_fieldSep : isTokenBoundary fieldSep = true := by decide

theorem toLower_fieldSep : fieldSep.toLower = fieldSep := by decide

theorem byteLength_lowercase (text : Text) : byteLength (makeAsciiLowercase text) = byteLength text := by
  rw [byteLength, makeAsciiLowercase, List.map_map, byteLength]
  exact congrArg List.sum (List.map_congr_left fun c _ => utf8Size_toLower c)

/-! ### Tokens -/

theorem tokenize_lowercase (text : Text) :
    tokenize (makeAsciiLowercase text) = (tokenize text).map makeAsciiLowercase := by
  rw [tokenize, makeAsciiLowercase, words_map]
  simp only [isTokenBoundary_toLower]
  rfl

/-- Fields one behind the other. -/
def joined (fields : List Text) : Text := fields.flatMap fun field => field ++ [fieldSep]

theorem extractSearchable_text (fields : List Text) : (extractSearchable fields).text = joined fields := by
  have pushed : ∀ extractor : SearchableExtractor,
      (fields.foldl .pushField extractor).text = extractor.text ++ joined fields := by
    induction fields with
    | nil => exact fun extractor => (List.append_nil _).symm
    | cons field rest ih =>
      intro extractor
      rw [List.foldl_cons, ih]
      show extractor.text ++ field ++ [fieldSep] ++ joined rest = extractor.text ++ (field ++ [fieldSep] ++ joined rest)
      simp only [List.append_assoc]
  exact pushed ⟨[], []⟩

theorem lowercase_joined (fields : List Text) :
    makeAsciiLowercase (joined fields) = joined (fields.map makeAsciiLowercase) := by
  rw [makeAsciiLowercase, joined, List.map_flatMap, joined, List.flatMap_map]
  refine List.flatMap_congr fun field _ => ?_
  rw [List.map_append, List.map_singleton, toLower_fieldSep]
  rfl

theorem searchableText_ofFields (internalId : Nat) (fields : List Text) :
    (EntityRecord.ofFields internalId fields).searchableText = joined (fields.map makeAsciiLowercase) := by
  rw [EntityRecord.ofFields, extractSearchable_text, lowercase_joined]

/-- The tokens of an entity are those of its fields, in lower case. -/
theorem mem_tokens {internalId : Nat} :
    token ∈ tokenize (EntityRecord.ofFields internalId fields).searchableText ↔
      ∃ field ∈ fields, ∃ word ∈ tokenize field, makeAsciiLowercase word = token := by
  rw [searchableText_ofFields, tokenize, joined, words_joined boundary_fieldSep, List.flatMap_map,
    List.mem_flatMap]
  refine exists_congr fun field => and_congr_right fun _ => ?_
  rw [← tokenize, tokenize_lowercase, List.mem_map]

end Myko.Search.Typed

import Myko.Lib.Segments

/-!
How the front door reads a request off a connection: the head up to its terminator, in reads of which each
ends where a segment of the stream ends, and the body from what was read along with the head.
-/

namespace Myko.Http

/-- Cap on the header section, tested before each read. -/
def maxHeaderBytes : Nat := 8 * 1024

def maxHeaders : Nat := 64

/-- Room for one read of the head. -/
def chunkBytes : Nat := 1024

structure HttpRequestHead where
  method : String
  path : String
  headers : List (String × String)
  leftoverBody : List UInt8

inductive HeadError where
  | exceeded
  | malformed (text : String)
  | incomplete

def HeadError.message : HeadError → String
  | exceeded => "HTTP header section exceeded 8 KB"
  | malformed text => text
  | incomplete => "incomplete HTTP request"

/-! ### Header values -/

/-- A character of which not every byte is there: how many are owed, the bounds of the next and the bits so far. -/
structure Pending where
  owed : Nat
  low : Nat
  high : Nat
  code : Nat

/-- A byte that starts a character. Where none does, the byte is replaced. -/
def leading (byte : Nat) : List Char × Option Pending :=
  if byte < 0x80 then ([Char.ofNat byte], none)
  else if 0xC2 ≤ byte ∧ byte ≤ 0xDF then ([], some ⟨1, 0x80, 0xBF, byte - 0xC0⟩)
  else if byte = 0xE0 then ([], some ⟨2, 0xA0, 0xBF, 0⟩)
  else if byte = 0xED then ([], some ⟨2, 0x80, 0x9F, 0xD⟩)
  else if 0xE1 ≤ byte ∧ byte ≤ 0xEF then ([], some ⟨2, 0x80, 0xBF, byte - 0xE0⟩)
  else if byte = 0xF0 then ([], some ⟨3, 0x90, 0xBF, 0⟩)
  else if 0xF1 ≤ byte ∧ byte ≤ 0xF3 then ([], some ⟨3, 0x80, 0xBF, byte - 0xF0⟩)
  else if byte = 0xF4 then ([], some ⟨3, 0x80, 0x8F, 4⟩)
  else (['\uFFFD'], none)

/-- The bytes of a character that breaks off are replaced as one. -/
def lossyChars : Option Pending → List UInt8 → List Char
  | none, [] => []
  | some _, [] => ['\uFFFD']
  | none, byte :: rest => (leading byte.toNat).1 ++ lossyChars (leading byte.toNat).2 rest
  | some pending, byte :: rest =>
    if pending.low ≤ byte.toNat ∧ byte.toNat ≤ pending.high then
      let code := pending.code * 64 + (byte.toNat - 0x80)
      if pending.owed = 1 then Char.ofNat code :: lossyChars none rest
      else lossyChars (some ⟨pending.owed - 1, 0x80, 0xBF, code⟩) rest
    else '\uFFFD' :: (leading byte.toNat).1 ++ lossyChars (leading byte.toNat).2 rest

def fromUtf8Lossy (bytes : List UInt8) : String := String.ofList (lossyChars none bytes)

example : lossyChars none [0x67, 0xC3, 0xBC, 0xE2, 0x82, 0x41, 0xFF] = ['g', 'ü', '\uFFFD', 'A', '\uFFFD'] := by
  decide

/-! ### The head -/

/-- What httparse reports of the bytes it is given. -/
inductive Status where
  | complete (consumed : Nat)
  | unfinished

def Status.isComplete : Status → Bool
  | complete _ => true
  | unfinished => false

/-- A request that httparse has filled in. -/
structure Request where
  method : Option String
  path : Option String
  headers : List (String × List UInt8)

/-- httparse, with room for so many headers. An error is its text. -/
abbrev Httparse := Nat → List UInt8 → Except String (Status × Request)

def findHeaderTerminator (buf : List UInt8) : Option Nat :=
  (List.placeOf [13, 10, 13, 10] buf).map fun index => index + 4

/-- The loop in front of httparse. It returns the bytes read, where the head ends in them and what is still to be
read. -/
def readHeader (buffer : List UInt8) (stream : Segments UInt8) :
    Except HeadError (Option (List UInt8 × Nat × Segments UInt8)) :=
  if maxHeaderBytes < buffer.length then .error .exceeded
  else if _ : (stream.read chunkBytes).1 = [] then .ok none
  else
    match _ : findHeaderTerminator (buffer ++ (stream.read chunkBytes).1) with
    | some headerEnd =>
      .ok (some (buffer ++ (stream.read chunkBytes).1, headerEnd, (stream.read chunkBytes).2))
    | none => readHeader (buffer ++ (stream.read chunkBytes).1) (stream.read chunkBytes).2
termination_by stream.items.length
decreasing_by exact Segments.read_shorter ‹_›

/-- What is made of the bytes read, once the head is among them. -/
def parseHead (httparse : Httparse) (buffer : List UInt8) (headerEnd : Nat) : Except HeadError HttpRequestHead :=
  match httparse maxHeaders (buffer.take headerEnd) with
  | .error text => .error (.malformed text)
  | .ok (status, req) =>
    if status.isComplete then
      .ok {
        method := req.method.getD ""
        path := req.path.getD ""
        headers := req.headers.map fun header => (header.1, fromUtf8Lossy header.2)
        leftoverBody := buffer.drop headerEnd }
    else .error .incomplete

/-- The head and the connection behind it, or none where the peer closed first. -/
def readRequestHead (httparse : Httparse) (stream : Segments UInt8) :
    Except HeadError (Option (HttpRequestHead × Segments UInt8)) :=
  match readHeader [] stream with
  | .error refusal => .error refusal
  | .ok none => .ok none
  | .ok (some (buffer, headerEnd, rest)) =>
    (parseHead httparse buffer headerEnd).map fun head => some (head, rest)

/-! ### The body -/

inductive BodyError where
  | shortBody

def BodyError.message : BodyError → String
  | shortBody => "short body"

/-- The loop for what is missing of a body, with a buffer of so many bytes. -/
def readNeeded (buf needed : Nat) (body : List UInt8) (stream : Segments UInt8) : Except BodyError (List UInt8) :=
  if needed = 0 then .ok body
  else if _ : (stream.read (min needed buf)).1 = [] then .error .shortBody
  else
    readNeeded buf (needed - (stream.read (min needed buf)).1.length) (body ++ (stream.read (min needed buf)).1)
      (stream.read (min needed buf)).2
termination_by stream.items.length
decreasing_by exact Segments.read_shorter ‹_›

def readBody (stream : Segments UInt8) (head : HttpRequestHead) (contentLength : Nat) :
    Except BodyError (List UInt8) :=
  if contentLength ≤ head.leftoverBody.length then .ok (head.leftoverBody.take contentLength)
  else
    let remaining := contentLength - head.leftoverBody.length
    readNeeded (min 4096 remaining) remaining head.leftoverBody stream

theorem readNeeded_eq {buf needed : Nat} {body : List UInt8} {stream : Segments UInt8} (room : 0 < buf) :
    readNeeded buf needed body stream =
      if needed ≤ stream.items.length then .ok (body ++ stream.items.take needed) else .error .shortBody := by
  fun_induction readNeeded buf needed body stream with
  | case1 body stream => rw [if_pos (Nat.zero_le _), List.take_zero, List.append_nil]
  | case2 needed body stream missing closed =>
    rw [(Segments.read_nil_iff (by omega)).mp closed, if_neg (by simpa using missing)]
  | case3 needed body stream missing closed ih =>
    have whole := Segments.read_append stream (min needed buf)
    have bound := Segments.read_length_le stream (min needed buf)
    generalize (stream.read (min needed buf)).1 = chunk at whole bound ih ⊢
    have fits : chunk.take needed = chunk := List.take_of_length_le (by omega)
    rw [ih, ← whole, List.length_append, List.take_append, fits, List.append_assoc]
    by_cases enough : needed - chunk.length ≤ (stream.read (min needed buf)).2.items.length
    · rw [if_pos enough, if_pos (by omega)]
    · rw [if_neg enough, if_neg (by omega)]

/-- The body is what follows the head, of the length asked for. -/
theorem readBody_eq (stream : Segments UInt8) (head : HttpRequestHead) (contentLength : Nat) :
    readBody stream head contentLength =
      if contentLength ≤ (head.leftoverBody ++ stream.items).length then
        .ok ((head.leftoverBody ++ stream.items).take contentLength)
      else .error .shortBody := by
  unfold readBody
  rw [List.length_append, List.take_append]
  split
  · rename_i there
    rw [if_pos (by omega), Nat.sub_eq_zero_of_le there, List.take_zero, List.append_nil]
  · rename_i missing
    have fits : head.leftoverBody.take contentLength = head.leftoverBody := List.take_of_length_le (by omega)
    rw [readNeeded_eq (by omega), fits]
    by_cases enough : contentLength - head.leftoverBody.length ≤ stream.items.length
    · rw [if_pos enough, if_pos (by omega)]
    · rw [if_neg enough, if_neg (by omega)]

end Myko.Http

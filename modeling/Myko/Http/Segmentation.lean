import Myko.Http.Request

/-!
What a request reads as, however its bytes are cut into segments. The limit on the head is tested before each read
and not after it, so heads that end within one chunk above it are read or refused as the segments fall.
-/

namespace Myko.Http

/-- The request without what came along of its body. -/
def HttpRequestHead.line (head : HttpRequestHead) : String × String × List (String × String) :=
  (head.method, head.path, head.headers)

/-- What is read of a head: the request, a refusal, or that the peer closed. -/
def requestRead (httparse : Httparse) (stream : Segments UInt8) :
    Except HeadError (Option (String × String × List (String × String))) :=
  (readRequestHead httparse stream).map fun read => read.map fun request => request.1.line

/-- Segmentation does not matter for a stream of bytes: any two ways to cut it read the same, and a body is the bytes
behind the head. -/
structure SegmentationFree (httparse : Httparse) (bytes : List UInt8) : Prop where
  head : ∀ left right : Segments UInt8, left.items = bytes → right.items = bytes →
    requestRead httparse left = requestRead httparse right
  body : ∀ stream : Segments UInt8, stream.items = bytes →
    ∀ head rest, readRequestHead httparse stream = .ok (some (head, rest)) →
      ∃ headerEnd, findHeaderTerminator bytes = some headerEnd ∧ ∀ contentLength,
        readBody rest head contentLength =
          if contentLength ≤ (bytes.drop headerEnd).length then .ok ((bytes.drop headerEnd).take contentLength)
          else .error .shortBody

/-! ### The terminator -/

theorem findHeaderTerminator_le {bytes : List UInt8} {headerEnd : Nat}
    (found : findHeaderTerminator bytes = some headerEnd) : headerEnd ≤ bytes.length := by
  obtain ⟨place, here, rfl⟩ := Option.map_eq_some_iff.mp found
  exact List.placeOf_le here

/-- Where the terminator ends does not depend on what has arrived behind it. -/
theorem findHeaderTerminator_append (buffer rest : List UInt8) :
    findHeaderTerminator buffer =
      (findHeaderTerminator (buffer ++ rest)).filter fun headerEnd => headerEnd ≤ buffer.length := by
  have arrived := List.placeOf_take (List.cons_ne_nil 13 [10, 13, 10]) (buffer ++ rest) buffer.length
  rw [List.take_left] at arrived
  unfold findHeaderTerminator
  rw [arrived]
  cases List.placeOf [13, 10, 13, 10] (buffer ++ rest) with
  | none => rfl
  | some place =>
    rw [Option.map_some, Option.filter_some, Option.filter_some]
    exact (apply_ite (Option.map fun index => index + 4) _ _ _)

variable {buffer rest : List UInt8} {headerEnd : Nat}

theorem found_before (found : findHeaderTerminator buffer = some headerEnd) :
    findHeaderTerminator (buffer ++ rest) = some headerEnd := by
  rw [findHeaderTerminator_append buffer rest] at found
  exact (Option.filter_eq_some_iff.mp found).1

theorem missing_before (missing : findHeaderTerminator buffer = none)
    (found : findHeaderTerminator (buffer ++ rest) = some headerEnd) : buffer.length < headerEnd := by
  rw [findHeaderTerminator_append buffer rest, found] at missing
  have := Option.filter_eq_none_iff.mp missing headerEnd rfl
  rw [decide_eq_true_eq] at this
  omega

theorem missing_of_lt (found : findHeaderTerminator (buffer ++ rest) = some headerEnd)
    (short : buffer.length < headerEnd) : findHeaderTerminator buffer = none := by
  rw [findHeaderTerminator_append buffer rest, found]
  exact Option.filter_some_neg (by simpa using short)

/-! ### The loop -/

/-- How the loop in front of httparse can end, of bytes read from the start. -/
inductive HeaderRead (bytes : List UInt8) :
    Except HeadError (Option (List UInt8 × Nat × Segments UInt8)) → Prop where
  /-- Too much was read before the terminator. -/
  | exceeded (buffer rest : List UInt8) : buffer ++ rest = bytes → findHeaderTerminator buffer = none →
      maxHeaderBytes < buffer.length → HeaderRead bytes (.error .exceeded)
  /-- The peer closed before the terminator. -/
  | closed : findHeaderTerminator bytes = none → bytes.length ≤ maxHeaderBytes → HeaderRead bytes (.ok none)
  /-- The terminator is among what was read. -/
  | found (buffer : List UInt8) (headerEnd : Nat) (stream : Segments UInt8) : buffer ++ stream.items = bytes →
      findHeaderTerminator buffer = some headerEnd → buffer.length ≤ maxHeaderBytes + chunkBytes →
      HeaderRead bytes (.ok (some (buffer, headerEnd, stream)))

theorem chunkBytes_pos : 0 < chunkBytes := by decide

theorem readHeader_cases {bytes buffer : List UInt8} {stream : Segments UInt8} (all : buffer ++ stream.items = bytes)
    (missing : findHeaderTerminator buffer = none) : HeaderRead bytes (readHeader buffer stream) := by
  fun_induction readHeader buffer stream with
  | case1 buffer stream long => exact .exceeded buffer stream.items all missing long
  | case2 buffer stream short ended =>
    rw [(Segments.read_nil_iff chunkBytes_pos).mp ended, List.append_nil] at all
    subst all
    exact .closed missing (Nat.le_of_not_lt short)
  | case3 buffer stream short more headerEnd found =>
    have bound := Segments.read_length_le stream chunkBytes
    refine .found _ headerEnd _ ?_ found ?_
    · rw [List.append_assoc, Segments.read_append, all]
    · rw [List.length_append]
      omega
  | case4 buffer stream short more absent ih =>
    refine ih ?_ absent
    rw [List.append_assoc, Segments.read_append, all]

variable {bytes : List UInt8} {stream : Segments UInt8}

theorem readHeader_start (all : stream.items = bytes) : HeaderRead bytes (readHeader [] stream) :=
  readHeader_cases all rfl

/-- A head that ends up to one byte above the limit is read whole by any reads. -/
theorem readHeader_found (all : stream.items = bytes) (found : findHeaderTerminator bytes = some headerEnd)
    (short : headerEnd ≤ maxHeaderBytes + 1) :
    ∃ buffer rest, readHeader [] stream = .ok (some (buffer, headerEnd, rest)) ∧ buffer ++ rest.items = bytes ∧
      findHeaderTerminator buffer = some headerEnd := by
  have ended := readHeader_start all
  generalize readHeader [] stream = result at ended ⊢
  cases ended with
  | exceeded buffer rest whole missing long =>
    subst whole
    have := missing_before missing found
    omega
  | closed missing _ =>
    rw [found] at missing
    cases missing
  | found buffer other rest whole here _ =>
    subst whole
    rw [found_before here] at found
    cases found
    exact ⟨buffer, rest, rfl, rfl, here⟩

/-- One that ends more than a chunk above it is refused by any reads. -/
theorem readHeader_exceeded (all : stream.items = bytes) (long : maxHeaderBytes < bytes.length)
    (late : ∀ headerEnd, findHeaderTerminator bytes = some headerEnd → maxHeaderBytes + chunkBytes < headerEnd) :
    readHeader [] stream = .error .exceeded := by
  have ended := readHeader_start all
  generalize readHeader [] stream = result at ended ⊢
  cases ended with
  | exceeded _ _ _ _ _ => rfl
  | closed _ short => omega
  | found buffer headerEnd rest whole here bound =>
    subst whole
    have := late headerEnd (found_before here)
    have := findHeaderTerminator_le here
    omega

theorem readHeader_closed (all : stream.items = bytes) (short : bytes.length ≤ maxHeaderBytes)
    (missing : findHeaderTerminator bytes = none) : readHeader [] stream = .ok none := by
  have ended := readHeader_start all
  generalize readHeader [] stream = result at ended ⊢
  cases ended with
  | exceeded buffer rest whole _ long =>
    subst whole
    rw [List.length_append] at short
    omega
  | closed _ _ => rfl
  | found buffer headerEnd rest whole here _ =>
    subst whole
    rw [found_before here] at missing
    cases missing

/-! ### The request -/

/-- What is made of the bytes read depends on the head alone. -/
theorem parseHead_line (httparse : Httparse) {buffer rest : List UInt8} (inside : headerEnd ≤ buffer.length) :
    ((parseHead httparse (buffer ++ rest) headerEnd).map fun head => some head.line) =
      (parseHead httparse buffer headerEnd).map fun head => some head.line := by
  unfold parseHead
  rw [List.take_append_of_le_length inside]
  cases httparse maxHeaders (buffer.take headerEnd) with
  | error text => rfl
  | ok parsed =>
    obtain ⟨status, req⟩ := parsed
    dsimp only
    cases status.isComplete <;> rfl

theorem parseHead_leftover {httparse : Httparse} {head : HttpRequestHead}
    (parsed : parseHead httparse buffer headerEnd = .ok head) : head.leftoverBody = buffer.drop headerEnd := by
  unfold parseHead at parsed
  split at parsed
  · cases parsed
  · split at parsed
    · cases parsed
      rfl
    · cases parsed

theorem parseHead_ne_exceeded {httparse : Httparse} : parseHead httparse buffer headerEnd ≠ .error .exceeded := by
  unfold parseHead
  split
  · rintro ⟨⟩
  · split <;> rintro ⟨⟩

theorem requestRead_found (httparse : Httparse) {rest : Segments UInt8}
    (read : readHeader [] stream = .ok (some (buffer, headerEnd, rest))) (whole : buffer ++ rest.items = bytes)
    (found : findHeaderTerminator buffer = some headerEnd) :
    requestRead httparse stream = (parseHead httparse bytes headerEnd).map fun head => some head.line := by
  rw [← whole, parseHead_line httparse (findHeaderTerminator_le found)]
  unfold requestRead readRequestHead
  rw [read]
  dsimp only
  cases parseHead httparse buffer headerEnd <;> rfl

theorem requestRead_exceeded {httparse : Httparse} (read : readHeader [] stream = .error .exceeded) :
    requestRead httparse stream = .error .exceeded := by
  unfold requestRead readRequestHead
  rw [read]
  rfl

theorem requestRead_closed {httparse : Httparse} (read : readHeader [] stream = .ok none) :
    requestRead httparse stream = .ok none := by
  unfold requestRead readRequestHead
  rw [read]
  rfl

/-- The head ends where it depends on the reads whether its bytes are too many. -/
def Straddles (bytes : List UInt8) : Prop :=
  ∃ headerEnd, findHeaderTerminator bytes = some headerEnd ∧
    maxHeaderBytes + 1 < headerEnd ∧ headerEnd ≤ maxHeaderBytes + chunkBytes

/-- What a stream reads as that does not straddle the limit. -/
def requestOf (httparse : Httparse) (bytes : List UInt8) :
    Except HeadError (Option (String × String × List (String × String))) :=
  (findHeaderTerminator bytes).elim (if bytes.length ≤ maxHeaderBytes then .ok none else .error .exceeded)
    fun headerEnd =>
      if headerEnd ≤ maxHeaderBytes + 1 then (parseHead httparse bytes headerEnd).map fun head => some head.line
      else .error .exceeded

theorem requestRead_eq (httparse : Httparse) (settled : ¬Straddles bytes) (all : stream.items = bytes) :
    requestRead httparse stream = requestOf httparse bytes := by
  cases found : findHeaderTerminator bytes with
  | none =>
    rw [requestOf, found]
    by_cases short : bytes.length ≤ maxHeaderBytes
    · rw [requestRead_closed (readHeader_closed all short found)]
      exact (if_pos short).symm
    · have late : ∀ headerEnd, findHeaderTerminator bytes = some headerEnd →
          maxHeaderBytes + chunkBytes < headerEnd := by
        intro headerEnd here
        rw [found] at here
        cases here
      rw [requestRead_exceeded (readHeader_exceeded all (Nat.lt_of_not_le short) late)]
      exact (if_neg short).symm
  | some headerEnd =>
    rw [requestOf, found]
    by_cases short : headerEnd ≤ maxHeaderBytes + 1
    · obtain ⟨buffer, rest, read, whole, here⟩ := readHeader_found all found short
      rw [requestRead_found httparse read whole here]
      exact (if_pos short).symm
    · have late : ∀ other, findHeaderTerminator bytes = some other → maxHeaderBytes + chunkBytes < other := by
        intro other here
        rw [found] at here
        cases here
        by_contra early
        exact settled ⟨headerEnd, found, by omega, by omega⟩
      have long : maxHeaderBytes < bytes.length := by
        have := findHeaderTerminator_le found
        omega
      rw [requestRead_exceeded (readHeader_exceeded all long late)]
      exact (if_neg short).symm

/-- The bytes behind the head, in part read along with it, are what a body is taken from. -/
theorem readBody_after {httparse : Httparse} {head : HttpRequestHead} {rest : Segments UInt8}
    (all : stream.items = bytes) (read : readRequestHead httparse stream = .ok (some (head, rest))) :
    ∃ headerEnd, findHeaderTerminator bytes = some headerEnd ∧
      head.leftoverBody ++ rest.items = bytes.drop headerEnd := by
  have ended := readHeader_start all
  unfold readRequestHead at read
  generalize readHeader [] stream = result at ended read
  cases ended with
  | exceeded _ _ _ _ _ => cases read
  | closed _ _ => cases read
  | found buffer headerEnd behind whole here _ =>
    dsimp only at read
    cases parsed : parseHead httparse buffer headerEnd with
    | error refusal =>
      rw [parsed] at read
      cases read
    | ok made =>
      rw [parsed] at read
      cases read
      subst whole
      refine ⟨headerEnd, found_before here, ?_⟩
      rw [parseHead_leftover parsed, List.drop_append_of_le_length (findHeaderTerminator_le here)]

/-! ### Heads at the limit -/

theorem readHeader_arrived {chunk : List UInt8} {rest : Segments UInt8} (short : buffer.length ≤ maxHeaderBytes)
    (read : stream.read chunkBytes = (chunk, rest)) (more : chunk ≠ [])
    (found : findHeaderTerminator (buffer ++ chunk) = some headerEnd) :
    readHeader buffer stream = .ok (some (buffer ++ chunk, headerEnd, rest)) := by
  rw [readHeader, if_neg (Nat.not_lt.mpr short), read, dif_neg more]
  dsimp only
  rw [found]

theorem readHeader_more {chunk : List UInt8} {rest : Segments UInt8} (short : buffer.length ≤ maxHeaderBytes)
    (read : stream.read chunkBytes = (chunk, rest)) (more : chunk ≠ [])
    (missing : findHeaderTerminator (buffer ++ chunk) = none) :
    readHeader buffer stream = readHeader (buffer ++ chunk) rest := by
  rw [readHeader, if_neg (Nat.not_lt.mpr short), read, dif_neg more]
  dsimp only
  rw [missing]

/-- In reads as large as there is room for, a head is read that ends within a chunk above the limit. -/
theorem readHeader_whole (chunks : Nat) {left : Nat} (found : findHeaderTerminator bytes = some headerEnd)
    (count : chunks + left = 9) (early : headerEnd ≤ maxHeaderBytes + chunkBytes)
    (missing : chunks * chunkBytes < headerEnd) :
    ∃ read, readHeader (bytes.take (chunks * chunkBytes)) (Segments.whole (bytes.drop (chunks * chunkBytes))) =
      .ok (some read) := by
  have bound := findHeaderTerminator_le found
  induction left generalizing chunks with
  | zero =>
    subst count
    exact absurd early (Nat.not_le.mpr missing)
  | succ left ih =>
    have short : (bytes.take (chunks * chunkBytes)).length ≤ maxHeaderBytes := by
      have few : chunks ≤ 8 := by omega
      exact Nat.le_trans (List.length_take_le _ _) (Nat.mul_le_mul_right chunkBytes few)
    have more : (bytes.drop (chunks * chunkBytes)).take chunkBytes ≠ [] := by
      intro none
      rcases List.take_eq_nil_iff.mp none with empty | empty
      · cases empty
      · have := List.drop_eq_nil_iff.mp empty
        omega
    have read := Segments.read_whole (bytes.drop (chunks * chunkBytes)) chunkBytes
    have next : bytes.take (chunks * chunkBytes) ++ (bytes.drop (chunks * chunkBytes)).take chunkBytes =
        bytes.take ((chunks + 1) * chunkBytes) := by
      rw [← List.take_add, Nat.add_one_mul]
    rw [List.drop_drop, ← Nat.add_one_mul] at read
    cases here : findHeaderTerminator (bytes.take ((chunks + 1) * chunkBytes)) with
    | some other =>
      rw [← next] at here
      exact ⟨_, readHeader_arrived short read more here⟩
    | none =>
      have absent := here
      rw [← next] at absent
      rw [readHeader_more short read more absent, next]
      refine ih (chunks + 1) (by omega) ?_
      by_contra arrived
      have kept := found
      rw [← List.take_append_drop ((chunks + 1) * chunkBytes) bytes] at kept
      have := missing_before here kept
      rw [List.length_take] at this
      omega

/-- In single bytes a head is refused that ends more than a byte above the limit. -/
theorem readHeader_singly {rest : List UInt8} (found : findHeaderTerminator (buffer ++ rest) = some headerEnd)
    (late : maxHeaderBytes + 1 < headerEnd) (read : buffer.length ≤ maxHeaderBytes + 1) :
    readHeader buffer (Segments.singly rest) = .error .exceeded := by
  induction rest generalizing buffer with
  | nil =>
    have := findHeaderTerminator_le found
    rw [List.append_nil] at this
    omega
  | cons byte rest ih =>
    by_cases long : maxHeaderBytes < buffer.length
    · rw [readHeader, if_pos long]
    · have arrived : (buffer ++ [byte]).length ≤ maxHeaderBytes + 1 := by
        rw [List.length_append, List.length_singleton]
        omega
      rw [List.append_cons] at found
      have missing := missing_of_lt found (by omega)
      rw [readHeader_more (Nat.le_of_not_lt long) (Segments.read_singly chunkBytes_pos)
        (List.cons_ne_nil byte []) missing]
      exact ih found arrived

/-- A stream that straddles the limit is read whole and refused byte by byte. -/
theorem requestRead_ne (httparse : Httparse) (straddles : Straddles bytes) :
    requestRead httparse (Segments.whole bytes) ≠ requestRead httparse (Segments.singly bytes) := by
  obtain ⟨headerEnd, found, late, early⟩ := straddles
  obtain ⟨⟨buffer, other, rest⟩, read⟩ :=
    readHeader_whole 0 found (Nat.zero_add 9) early (by omega)
  rw [Nat.zero_mul, List.take_zero, List.drop_zero] at read
  have refused : readHeader [] (Segments.singly bytes) = .error .exceeded :=
    readHeader_singly found late (Nat.zero_le _)
  have ended := readHeader_start (Segments.items_whole bytes)
  rw [read] at ended
  cases ended with
  | found _ _ _ whole here _ =>
    rw [requestRead_exceeded refused, requestRead_found httparse read whole here]
    intro same
    cases parsed : parseHead httparse bytes other with
    | ok head =>
      rw [parsed] at same
      cases same
    | error refusal =>
      rw [parsed] at same
      cases same
      exact parseHead_ne_exceeded parsed

theorem Straddles.not_free {httparse : Httparse} (straddles : Straddles bytes) :
    ¬SegmentationFree httparse bytes := fun free =>
  requestRead_ne httparse straddles (free.head _ _ (Segments.items_whole bytes) (Segments.items_singly bytes))

/-- A stream reads the same however it is cut, exactly when its head does not end within a chunk above the limit. -/
theorem segmentationFree_iff (httparse : Httparse) (bytes : List UInt8) :
    SegmentationFree httparse bytes ↔ ¬Straddles bytes := by
  constructor
  · exact fun free straddles => straddles.not_free free
  · intro settled
    refine ⟨fun left right from_left from_right => ?_, fun stream all head rest read => ?_⟩
    · rw [requestRead_eq httparse settled from_left, requestRead_eq httparse settled from_right]
    · obtain ⟨headerEnd, found, behind⟩ := readBody_after all read
      refine ⟨headerEnd, found, fun contentLength => ?_⟩
      rw [readBody_eq, behind]

/-- `GET /aaa… HTTP/1.1` with so many letters in its path. -/
def requestLine (letters : Nat) : List UInt8 :=
  [71, 69, 84, 32, 47] ++ List.replicate letters 97 ++ [32, 72, 84, 84, 80, 47, 49, 46, 49]

/-- httparse on a request line without headers. -/
def parseRequestLine : Httparse := fun _ bytes =>
  match bytes.splitOn 32 with
  | [method, path, _] =>
    .ok (.complete bytes.length, ⟨some (fromUtf8Lossy method), some (fromUtf8Lossy path), []⟩)
  | _ => .error "invalid token"

theorem terminator_requestLine (letters : Nat) :
    findHeaderTerminator (requestLine letters ++ [13, 10, 13, 10]) = some (letters + 18) := by
  have absent : (13 : UInt8) ∉ requestLine letters := by simp [requestLine]
  unfold findHeaderTerminator
  rw [List.placeOf_append absent]
  simp only [requestLine, List.length_append, List.length_replicate, List.length_cons, List.length_nil,
    Option.map_some, Option.some.injEq]
  omega

/-- A head of 8194 bytes depends on its segments. -/
theorem requestLine_not_free : ¬SegmentationFree parseRequestLine (requestLine 8176 ++ [13, 10, 13, 10]) :=
  Straddles.not_free ⟨8194, terminator_requestLine 8176, by decide, by decide⟩

end Myko.Http

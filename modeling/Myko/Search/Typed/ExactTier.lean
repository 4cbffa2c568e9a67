import Myko.Search.Typed.BestHits

/-!
The exact tier against the equality of tokens in lower case. Texts are put in the lower case of ASCII, queries in
that of Unicode, and the field of a hit is looked up by the first place of the query in the text.
-/

namespace Myko.Search.Typed

open SearchIndex Ranking LowerCase Words

variable {needle text field : Text} {fields : List Text} {pos : Nat}

/-! ### The place of a text in joined fields -/

theorem utf8Size_fieldSep : fieldSep.utf8Size = 1 := by decide

theorem isPrefixOf_append_sep (free : fieldSep ∉ needle) (rest : Text) :
    needle.isPrefixOf (text ++ fieldSep :: rest) = needle.isPrefixOf text := by
  induction needle generalizing text with
  | nil => rfl
  | cons c needle ih =>
    obtain ⟨other, free⟩ := not_or.mp (List.mem_cons.not.mp free)
    cases text with
    | nil =>
      show (c == fieldSep && _) = false
      rw [beq_false_of_ne (Ne.symm other), Bool.false_and]
    | cons d text =>
      show (c == d && needle.isPrefixOf (text ++ fieldSep :: rest)) = (c == d && needle.isPrefixOf text)
      rw [ih free]

theorem find_cons (c : Char) (rest : Text) :
    find needle (c :: rest) =
      if needle.isPrefixOf (c :: rest) then some 0 else (find needle rest).map (c.utf8Size + ·) := rfl

theorem find_append_sep (free : fieldSep ∉ needle) (some_needle : needle ≠ []) (rest : Text) :
    find needle (field ++ fieldSep :: rest) =
      (find needle field).or ((find needle rest).map (byteLength field + 1 + ·)) := by
  induction field with
  | nil =>
    have none_here : needle.isPrefixOf (fieldSep :: rest) = false := by
      have same : needle.isPrefixOf ([] ++ fieldSep :: rest) = needle.isPrefixOf [] := isPrefixOf_append_sep free rest
      rw [List.nil_append] at same
      rw [same]
      cases needle with
      | nil => exact absurd rfl some_needle
      | cons c needle => rfl
    have absent : find needle [] = none := by
      cases needle with
      | nil => exact absurd rfl some_needle
      | cons c needle => rfl
    rw [List.nil_append, find_cons, none_here, if_neg Bool.false_ne_true, absent, Option.none_or, utf8Size_fieldSep]
    simp [byteLength]
  | cons c field ih =>
    rw [List.cons_append, find_cons, find_cons, ← List.cons_append, isPrefixOf_append_sep free rest, ih]
    split
    · rfl
    · have length : byteLength (c :: field) = c.utf8Size + byteLength field := by simp [byteLength]
      rw [length]
      cases find needle field with
      | some pos => rfl
      | none =>
        rw [Option.none_or, Option.map_none, Option.none_or, Option.map_map]
        congr 1
        funext pos
        simp only [Function.comp_apply]
        omega

theorem find_le (found : find needle text = some pos) : pos ≤ byteLength text := by
  induction text generalizing pos with
  | nil =>
    unfold find at found
    split at found
    · rw [← Option.some.inj found]
      exact Nat.zero_le _
    · cases found
  | cons c rest ih =>
    rw [find_cons] at found
    split at found
    · rw [← Option.some.inj found]
      exact Nat.zero_le _
    · obtain ⟨later, there, rfl⟩ := Option.map_eq_some_iff.mp found
      have length : byteLength (c :: rest) = c.utf8Size + byteLength rest := by simp [byteLength]
      rw [length]
      exact Nat.add_le_add_left (ih there) _

/-- The first of some fields that has a text in it, and at which byte of them all it has it. -/
def place (needle : Text) : List Text → Option (Nat × Nat)
  | [] => none
  | field :: rest =>
    ((find needle field).map fun pos => (0, pos)).or
      ((place needle rest).map fun later => (later.1 + 1, byteLength field + 1 + later.2))

theorem find_joined (free : fieldSep ∉ needle) (some_needle : needle ≠ []) (fields : List Text) :
    find needle (joined fields) = (place needle fields).map Prod.snd := by
  induction fields with
  | nil =>
    cases needle with
    | nil => exact absurd rfl some_needle
    | cons c needle => rfl
  | cons field rest ih =>
    have split : joined (field :: rest) = field ++ fieldSep :: joined rest := by simp [joined]
    rw [split, find_append_sep free some_needle, ih, place]
    cases find needle field with
    | some pos => rfl
    | none =>
      rw [Option.none_or, Option.map_none, Option.none_or, Option.map_map, Option.map_map]
      rfl

/-- Where fields start that are pushed behind some bytes. -/
def offsetsFrom (start : Nat) : List Text → List Nat
  | [] => []
  | field :: rest => min start u32Max :: offsetsFrom (start + byteLength field + 1) rest

theorem length_offsetsFrom (start : Nat) : (offsetsFrom start fields).length = fields.length := by
  induction fields generalizing start with
  | nil => rfl
  | cons field rest ih => rw [offsetsFrom, List.length_cons, List.length_cons, ih]

theorem extractSearchable_offsets (fields : List Text) :
    (extractSearchable fields).offsets = offsetsFrom 0 fields := by
  have pushed : ∀ extractor : SearchableExtractor, (fields.foldl .pushField extractor).offsets =
      extractor.offsets ++ offsetsFrom (byteLength extractor.text) fields := by
    induction fields with
    | nil => exact fun extractor => (List.append_nil _).symm
    | cons field rest ih =>
      intro extractor
      have length : byteLength (extractor.pushField field).text = byteLength extractor.text + byteLength field + 1 := by
        show byteLength (extractor.text ++ field ++ [fieldSep]) = _
        simp [byteLength, utf8Size_fieldSep, Nat.add_assoc]
      rw [List.foldl_cons, ih, length, offsetsFrom]
      show extractor.offsets ++ [min (byteLength extractor.text) u32Max] ++ _ = _
      rw [List.append_assoc, List.singleton_append]
  exact pushed ⟨[], []⟩

theorem offsetsFrom_lowercase (start : Nat) :
    offsetsFrom start (fields.map makeAsciiLowercase) = offsetsFrom start fields := by
  induction fields generalizing start with
  | nil => rfl
  | cons field rest ih => rw [List.map_cons, offsetsFrom, offsetsFrom, byteLength_lowercase, ih]

/-- Past the offsets that 32 bits hold every field counts as started. -/
theorem started_all (start pos : Nat) (late : u32Max ≤ pos) :
    (offsetsFrom start fields).takeWhile (· ≤ pos) = offsetsFrom start fields := by
  induction fields generalizing start with
  | nil => rfl
  | cons field rest ih =>
    have first : decide (min start u32Max ≤ pos) = true :=
      decide_eq_true (Nat.le_trans (Nat.min_le_right _ _) late)
    rw [offsetsFrom, List.takeWhile_cons, if_pos first, ih]

theorem started_none {start pos : Nat} (early : pos < start) (fits : pos < u32Max) :
    (offsetsFrom start fields).takeWhile (· ≤ pos) = [] := by
  cases fields with
  | nil => rfl
  | cons field rest =>
    have first : ¬decide (min start u32Max ≤ pos) = true := by
      rw [decide_eq_true_iff]
      omega
    rw [offsetsFrom, List.takeWhile_cons, if_neg first]

/-- The fields that start at the place of a text or before it. -/
theorem started_at_place {start number : Nat} (placed : place needle fields = some (number, pos)) :
    ((offsetsFrom start fields).takeWhile (· ≤ start + pos)).length =
      if start + pos < u32Max then number + 1 else fields.length := by
  induction fields generalizing start number pos with
  | nil => cases placed
  | cons field rest ih =>
    split
    · next fits =>
      have first : decide (min start u32Max ≤ start + pos) = true := decide_eq_true (by omega)
      rw [offsetsFrom, List.takeWhile_cons, if_pos first, List.length_cons]
      rw [place] at placed
      rcases Option.or_eq_some_iff.mp placed with here | ⟨-, later⟩
      · obtain ⟨found, there, same⟩ := Option.map_eq_some_iff.mp here
        obtain ⟨rfl, rfl⟩ := Prod.mk.inj same
        have inside := find_le there
        rw [started_none (by omega) fits, List.length_nil]
      · obtain ⟨⟨number', pos'⟩, there, same⟩ := Option.map_eq_some_iff.mp later
        obtain ⟨rfl, rfl⟩ := Prod.mk.inj same
        have counted := @ih pos' (start + byteLength field + 1) number' there
        dsimp only at fits ⊢
        have shifted : start + byteLength field + 1 + pos' = start + (byteLength field + 1 + pos') := by omega
        rw [shifted, if_pos fits] at counted
        rw [counted]
    · next late =>
      rw [started_all _ _ (Nat.le_of_not_lt late), length_offsetsFrom]

/-- The field that is named for a text: the first that has it, or the last of all when the text stands further in
than offsets of 32 bits tell. -/
def namedField (needle : Text) (fields : List Text) : Nat :=
  match place needle (fields.map makeAsciiLowercase) with
  | some (number, pos) => if pos < u32Max then number else fields.length - 1
  | none => 0

theorem fieldOfPosition_eq {internalId : Nat} (free : fieldSep ∉ needle) (some_needle : needle ≠ []) :
    ((find needle (EntityRecord.ofFields internalId fields).searchableText).map
      (EntityRecord.ofFields internalId fields).fieldOfPosition).getD 0 = namedField needle fields := by
  rw [searchableText_ofFields, find_joined free some_needle, namedField]
  cases placed : place needle (fields.map makeAsciiLowercase) with
  | none => rfl
  | some found =>
    obtain ⟨number, pos⟩ := found
    have started := @started_at_place _ _ _ 0 _ placed
    rw [Nat.zero_add, offsetsFrom_lowercase, ← extractSearchable_offsets, List.length_map] at started
    show ((extractSearchable fields).offsets.takeWhile (· ≤ pos)).length - 1 =
      if pos < u32Max then number else fields.length - 1
    rw [started]
    by_cases fits : pos < u32Max
    · rw [if_pos fits, if_pos fits, Nat.add_sub_cancel]
    · rw [if_neg fits, if_neg fits]

/-! ### Exact hits -/

theorem mem_token (listed : needle ∈ tokenize text) : fieldSep ∉ needle ∧ needle ≠ [] := by
  refine ⟨fun within => ?_, words_ne_nil listed⟩
  have apart := separator_not_mem_part (mem_part listed) fieldSep within
  rw [boundary_fieldSep] at apart
  cases apart

theorem exactHit_of_tiers {matching : Matching} {maxDist number : Nat} {subsequence typo : Bool}
    {record : EntityRecord} (found : tiers matching needle maxDist subsequence typo record = some (.exact, number)) :
    exactHit needle record = some (.exact, number) := by
  rw [tiers, Option.or_assoc] at found
  rcases Option.or_eq_some_iff.mp found with exact | ⟨-, later⟩
  · exact exact
  · rcases Option.or_eq_some_iff.mp later with second | ⟨-, third⟩
    · exact absurd (tier_later second) (show (3 : Nat) ≠ 1 by decide)
    · exact absurd (tier_last third) (show (3 : Nat) ≠ 0 by decide)

section
variable {T Id : Type} [DecidableEq Id] [Searchable T Id]

omit [DecidableEq Id] in
theorem exactHit_eq_some {slot number : Nat} {entity : T} :
    exactHit needle (recordOf slot entity) = some (.exact, number) ↔
      HasToken entity needle ∧ namedField needle (Searchable.searchableFields entity) = number := by
  unfold exactHit
  by_cases has : needle ∈ tokenize (recordOf slot entity).searchableText
  · obtain ⟨free, some_needle⟩ := mem_token has
    rw [if_pos has, recordOf, fieldOfPosition_eq free some_needle, and_iff_right (mem_tokens_recordOf.mp has)]
    simp
  · rw [if_neg has]
    exact ⟨nofun, fun both => absurd (mem_tokens_recordOf.mpr both.1) has⟩

/-- A token in a field is the query, when both are in lower case. -/
def EqualToken (case : UnicodeCase) (field query : Text) : Prop :=
  ∃ word ∈ tokenize field, toLowercase case word = toLowercase case query

/-- The entity is found in the exact tier, in the field of this number. -/
def ExactHit (case : UnicodeCase) (index : SearchIndex Id) (query : Text) (id : Id) (number : Nat) : Prop :=
  ∃ slot, (slot, .exact, number) ∈ index.exactScan (toLowercase case query) ∧ index.interner.idOf slot = some id

/-- The exact tier finds the live entities with a token equal to the query, and names a field with such a token. -/
structure ExactMeansToken (case : UnicodeCase) (index : SearchIndex Id) (contents : Id → Option T) (query : Text) :
    Prop where
  hits : ∀ id entity, contents id = some entity →
    ((∃ number, ExactHit case index query id number) ↔
      ∃ field ∈ Searchable.searchableFields entity, EqualToken case field query)
  fields : ∀ id entity number, contents id = some entity → ExactHit case index query id number →
    ∃ field, (Searchable.searchableFields entity)[number]? = some field ∧ EqualToken case field query

/-- A token is the query in the lower case of ASCII already, and the field that is named for the query has an equal
token. -/
structure FoundByAscii (case : UnicodeCase) (fields : List Text) (query : Text) : Prop where
  token : ∃ field ∈ fields, ∃ word ∈ tokenize field, makeAsciiLowercase word = toLowercase case query
  named : ∃ field, fields[namedField (toLowercase case query) fields]? = some field ∧ EqualToken case field query

variable {case : UnicodeCase} {index : SearchIndex Id} {rows : List T} {contents : Id → Option T} {id : Id}
variable {query : Text} {number : Nat} {exceeds : Nat → Nat → Bool} {entity : T}

omit [DecidableEq Id] in
theorem Denotes.exactHit_iff (denotes : Denotes index rows contents) :
    ExactHit case index query id number ↔
      ∃ entity, contents id = some entity ∧ HasToken entity (toLowercase case query) ∧
        namedField (toLowercase case query) (Searchable.searchableFields entity) = number := by
  unfold ExactHit
  constructor
  · rintro ⟨slot, scanned, named⟩
    obtain ⟨live, entity, here, hit⟩ := ((scans_exact denotes.holds).mem slot _).mp scanned
    rw [denotes.holds.interned.idOf, List.getElem?_map, here, Option.map_some, Option.some.injEq] at named
    exact ⟨entity, (denotes.contents id entity).mpr ⟨mem_liveRows.mpr ⟨slot, live, here⟩, named⟩,
      exactHit_eq_some.mp hit⟩
  · rintro ⟨entity, held, hit⟩
    obtain ⟨listed, rfl⟩ := (denotes.contents id entity).mp held
    obtain ⟨slot, live, here⟩ := mem_liveRows.mp listed
    refine ⟨slot, ((scans_exact denotes.holds).mem slot _).mpr ⟨live, entity, here, exactHit_eq_some.mpr hit⟩, ?_⟩
    rw [denotes.holds.interned.idOf, List.getElem?_map, here, Option.map_some]

/-- What is the query in the lower case of ASCII is it in that of Unicode. -/
theorem equalToken_of_ascii (documented : Documented case) {field word : Text} (listed : word ∈ tokenize field)
    (same : makeAsciiLowercase word = toLowercase case query) : EqualToken case field query := by
  refine ⟨word, listed, ?_⟩
  rw [← documented.lowercase_ascii word]
  exact (congrArg (toLowercase case) same).trans (documented.lowercase_twice query)

omit [DecidableEq Id] in
theorem Denotes.exactMeansToken_iff (denotes : Denotes index rows contents) (documented : Documented case) :
    ExactMeansToken case index contents query ↔
      ∀ id entity, contents id = some entity →
        (∃ field ∈ Searchable.searchableFields entity, EqualToken case field query) →
          FoundByAscii case (Searchable.searchableFields entity) query := by
  have equal_of_hit : ∀ entity : T, HasToken entity (toLowercase case query) →
      ∃ field ∈ Searchable.searchableFields entity, EqualToken case field query := by
    rintro entity ⟨field, listed, word, token, same⟩
    exact ⟨field, listed, equalToken_of_ascii documented token same⟩
  constructor
  · intro means id entity held equal
    obtain ⟨number, hit⟩ := (means.hits id entity held).mpr equal
    obtain ⟨other, held', has, named⟩ := denotes.exactHit_iff.mp hit
    obtain rfl := Option.some.inj (held.symm.trans held')
    obtain ⟨field, there, equal⟩ := means.fields id entity number held hit
    exact ⟨has, field, named ▸ there, equal⟩
  · intro alike
    refine ⟨fun id entity held => ⟨?_, fun equal => ?_⟩, fun id entity number held hit => ?_⟩
    · rintro ⟨number, hit⟩
      obtain ⟨other, held', has, -⟩ := denotes.exactHit_iff.mp hit
      obtain rfl := Option.some.inj (held.symm.trans held')
      exact equal_of_hit entity has
    · exact ⟨_, denotes.exactHit_iff.mpr ⟨entity, held, (alike id entity held equal).token, rfl⟩⟩
    · obtain ⟨other, held', has, rfl⟩ := denotes.exactHit_iff.mp hit
      obtain rfl := Option.some.inj (held.symm.trans held')
      exact (alike id entity held (equal_of_hit entity has)).named

omit [DecidableEq Id] in
/-- The exact hits are what a search returns with the best score, when it may return all there is. -/
theorem Denotes.exact_returned (denotes : Denotes index rows contents) {matching : Matching}
    (lowers : matching.toLowercase = toLowercase case) {opts : SearchOptions} (room : index.live.size ≤ opts.limit)
    {iterate : List Found → List Found} (permutes : ∀ found, (iterate found).Perm found) :
    (⟨id, .exact, number⟩ : Hit Id) ∈ index.search matching iterate query opts ↔
      ExactHit case index query id number := by
  have returns : Returns matching index query opts (index.search matching iterate query opts) :=
    ⟨iterate, permutes, rfl⟩
  have returned := (returns_iff denotes.holds).mp returns
  rw [denotes.exactHit_iff]
  split at returned
  · next nothing =>
    rw [returned]
    refine iff_of_false List.not_mem_nil ?_
    rintro ⟨entity, held, has, -⟩
    rcases nothing with empty | unlimited
    · rw [List.isEmpty_iff.mp empty] at has
      have token : [] ∈ tokenize (recordOf 0 entity).searchableText := mem_tokens_recordOf.mpr has
      exact (mem_token token).2 rfl
    · obtain ⟨listed, -⟩ := (denotes.contents id entity).mp held
      obtain ⟨slot, live, -⟩ := mem_liveRows.mp listed
      rw [unlimited, Nat.le_zero, ← Std.ExtTreeSet.length_toList, List.length_eq_zero_iff] at room
      have listed := OrdSet.mem_toList.mpr live
      rw [room] at listed
      cases listed
  · have few : (rowHits (tiers matching (matching.toLowercase query) opts.maxEditDistance opts.includeSubsequence
        opts.includeTypo) (index.liveRows rows)).length ≤ opts.limit := by
      refine Nat.le_trans (List.length_filterMap_le _ _) ?_
      rw [denotes.holds.length_liveRows, Std.ExtTreeSet.length_toList]
      exact room
    rw [(returned.perm few).mem_iff, mem_rowHits, lowers]
    constructor
    · rintro ⟨entity, listed, rfl, tiered⟩
      exact ⟨entity, (denotes.contents _ entity).mpr ⟨listed, rfl⟩, exactHit_eq_some.mp (exactHit_of_tiers tiered)⟩
    · rintro ⟨entity, held, hit⟩
      obtain ⟨listed, named⟩ := (denotes.contents id entity).mp held
      refine ⟨entity, listed, named, ?_⟩
      rw [tiers, exactHit_eq_some.mpr hit, Option.some_or, Option.some_or]

/-- Where the tables are as documented and the slots suffice, the exact tier is the equality of tokens in lower
case just for the queries that every live entity with an equal token has in the lower case of ASCII, and so in the
first field that has the query as a part of it. -/
theorem exact_tier_means_token_iff (case : UnicodeCase) (documented : Documented case)
    (exceeds : Nat → Nat → Bool) (operations : List (Operation T Id)) (room : HaveRoom exceeds operations)
    (query : Text) :
    (∀ matching : Matching, matching.toLowercase = toLowercase case → ∀ opts : SearchOptions,
      (indexAfter exceeds operations).live.size ≤ opts.limit → ∀ iterate : List Found → List Found,
        (∀ found, (iterate found).Perm found) → ∀ id number,
          ((⟨id, .exact, number⟩ : Hit Id) ∈ (indexAfter exceeds operations).search matching iterate query opts ↔
            ExactHit case (indexAfter exceeds operations) query id number)) ∧
      (ExactMeansToken case (indexAfter exceeds operations) (contentsAfter operations) query ↔
        ∀ id entity, contentsAfter operations id = some entity →
          (∃ field ∈ Searchable.searchableFields entity, EqualToken case field query) →
            FoundByAscii case (Searchable.searchableFields entity) query) := by
  obtain ⟨rows, -, denotes⟩ := denotes_after room
  refine ⟨fun matching lowers opts all iterate permutes id number => ?_, denotes.exactMeansToken_iff documented⟩
  exact denotes.exact_returned lowers all permutes

end

/-! ### Latin letters -/

/-- The tables for the letters of Latin-1. -/
def latinCase : UnicodeCase where
  toLower c :=
    if 0xC0 ≤ c.toNat ∧ c.toNat ≤ 0xDE ∧ c.toNat ≠ 0xD7 then [Char.ofNat (c.toNat + 32)]
    else if c = capitalSigma then [smallSigma]
    else [c.toLower]
  cased c :=
    decide (65 ≤ c.toNat ∧ c.toNat ≤ 90) || decide (97 ≤ c.toNat ∧ c.toNat ≤ 122) ||
      [0xAA, 0xB5, 0xBA].contains c.toNat ||
      decide (0xC0 ≤ c.toNat ∧ c.toNat ≤ 0xFF ∧ c.toNat ≠ 0xD7 ∧ c.toNat ≠ 0xF7)
  caseIgnorable c := [0x27, 0x2E, 0x3A, 0x5E, 0x60, 0xA8, 0xAD, 0xAF, 0xB4, 0xB7, 0xB8].contains c.toNat

theorem toLower_latin {c : Char} (plain : ¬(0xC0 ≤ c.toNat ∧ c.toNat ≤ 0xDE)) (other : c ≠ capitalSigma) :
    latinCase.toLower c = [c.toLower] := by
  show (if _ then _ else _) = _
  rw [if_neg fun bounds => plain ⟨bounds.1, bounds.2.1⟩, if_neg other]

theorem documented_latin : Documented latinCase where
  ascii c bound := by
    refine toLower_latin (by omega) fun sigma => ?_
    rw [sigma] at bound
    exact absurd bound (by decide)
  letters c letter := by
    unfold IsLetter at letter
    constructor
    · rcases letter with upper | lower
      · simp [latinCase, upper]
      · simp [latinCase, lower]
    · show [0x27, 0x2E, 0x3A, 0x5E, 0x60, 0xA8, 0xAD, 0xAF, 0xB4, 0xB7, 0xB8].contains c.toNat = false
      rw [← Bool.not_eq_true, List.contains_iff_mem]
      simp only [List.mem_cons, List.not_mem_nil, or_false]
      omega
  fixed c other d listed := by
    have sigma_code : capitalSigma.toNat = 0x3A3 := by decide
    change d ∈ (if _ then _ else _) at listed
    by_cases bounds : 0xC0 ≤ c.toNat ∧ c.toNat ≤ 0xDE ∧ c.toNat ≠ 0xD7
    · rw [if_pos bounds, List.mem_singleton] at listed
      have valid : (c.toNat + 32).isValidChar := .inl (by omega)
      have code : d.toNat = c.toNat + 32 := by
        rw [listed, Char.ofNat, dif_pos valid]
        rfl
      have not_sigma : d ≠ capitalSigma := by
        intro same
        rw [same, sigma_code] at code
        omega
      have own : d.toLower = d := by
        apply Char.toNat_inj.mp
        rw [toNat_toLower, if_neg (by omega)]
      exact ⟨not_sigma, by rw [toLower_latin (by omega) not_sigma, own]⟩
    · rw [if_neg bounds, if_neg other, List.mem_singleton] at listed
      have not_sigma : d ≠ capitalSigma := by
        rw [listed]
        exact fun same => other ((Documented.toLower_eq_sigma c).mp same)
      refine ⟨not_sigma, ?_⟩
      have code := toNat_toLower c
      rw [← listed] at code
      have outside : ¬(0xC0 ≤ d.toNat ∧ d.toNat ≤ 0xDE ∧ d.toNat ≠ 0xD7) := by
        split at code <;> omega
      show (if _ then _ else _) = _
      rw [if_neg outside, if_neg not_sigma, listed, toLower_toLower]
  sigmas := by decide

def eclair : Target := ⟨1, "ÉCLAIR".toList, []⟩

def remix : Target := ⟨2, "mixer".toList, "mix".toList⟩

def shelf : List (Operation Target Nat) := [.insert eclair, .insert remix]

theorem exact_tier_means_token_sample :
    (∀ matching : Matching, matching.toLowercase = toLowercase latinCase → ∀ opts : SearchOptions,
      (indexAfter (fun _ _ => false) shelf).live.size ≤ opts.limit → ∀ iterate : List Found → List Found,
        (∀ found, (iterate found).Perm found) → ∀ id number,
          ((⟨id, .exact, number⟩ : Hit Nat) ∈
              (indexAfter (fun _ _ => false) shelf).search matching iterate "MIXER".toList opts ↔
            ExactHit latinCase (indexAfter (fun _ _ => false) shelf) "MIXER".toList id number)) ∧
      (ExactMeansToken latinCase (indexAfter (fun _ _ => false) shelf) (contentsAfter shelf) "MIXER".toList ↔
        ∀ id entity, contentsAfter shelf id = some entity →
          (∃ field ∈ Searchable.searchableFields entity, EqualToken latinCase field "MIXER".toList) →
            FoundByAscii latinCase (Searchable.searchableFields entity) "MIXER".toList) :=
  exact_tier_means_token_iff latinCase documented_latin _ shelf (haveRoom_of_length (by decide)) _

/-- `ÉCLAIR` is not found by its own name; `mix` is found in the field `mixer`, which has no such token. -/
theorem eclair_not_found :
    (contentsAfter shelf 1 = some eclair ∧ EqualToken latinCase eclair.name "ÉCLAIR".toList ∧
      (∃ word ∈ tokenize eclair.name, makeAsciiLowercase word = makeAsciiLowercase "ÉCLAIR".toList) ∧
      ∀ number, ¬ExactHit latinCase (indexAfter (fun _ _ => false) shelf) "ÉCLAIR".toList 1 number) ∧
      contentsAfter shelf 2 = some remix ∧
      ExactHit latinCase (indexAfter (fun _ _ => false) shelf) "mix".toList 2 0 ∧
      (Searchable.searchableFields remix)[0]? = some "mixer".toList ∧
      ¬EqualToken latinCase "mixer".toList "mix".toList := by
  have room : HaveRoom (fun _ _ => false) shelf := haveRoom_of_length (by decide)
  obtain ⟨rows, -, denotes⟩ := denotes_after room
  refine ⟨⟨rfl, ?_, ?_, fun number hit => ?_⟩, rfl, ?_, rfl, ?_⟩
  · exact ⟨"ÉCLAIR".toList, by decide, rfl⟩
  · exact ⟨"ÉCLAIR".toList, by decide, rfl⟩
  · obtain ⟨entity, held, has, -⟩ := denotes.exactHit_iff.mp hit
    obtain rfl : eclair = entity := Option.some.inj held
    revert has
    unfold HasToken
    decide
  · refine denotes.exactHit_iff.mpr ⟨remix, rfl, ?_, by decide⟩
    exact ⟨"mix".toList, by decide, "mix".toList, by decide, by decide⟩
  · unfold EqualToken
    decide

end Myko.Search.Typed

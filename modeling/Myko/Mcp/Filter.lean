import Myko.Lib.Glob

/-!
Which tools a client sees: patterns over tool names, read from a comma-separated list each to allow and to
deny.
-/

namespace Myko.Mcp

/-- The property `White_Space` of Unicode. -/
def isWhitespace (c : Char) : Bool :=
  let code := c.toNat
  (9 ≤ code ∧ code ≤ 13) ∨ (0x2000 ≤ code ∧ code ≤ 0x200A) ∨
    code ∈ [0x20, 0x85, 0xA0, 0x1680, 0x2028, 0x2029, 0x202F, 0x205F, 0x3000]

def trim (s : List Char) : List Char :=
  ((s.dropWhile isWhitespace).reverse.dropWhile isWhitespace).reverse

/-- Convert a leading `kind:` separator to `kind_`. -/
def normalizeToolName (name : List Char) : List Char :=
  match name.idxOf? ':' with
  | none => name
  | some pos => name.take pos ++ '_' :: name.drop (pos + 1)

inductive Pattern where
  | any
  | startsWith (start : List Char)
  | endsWith (ending : List Char)
  | exactly (name : List Char)
  deriving DecidableEq

namespace Pattern

def parse (s : List Char) : Option Pattern :=
  let s := normalizeToolName (trim s)
  if s.isEmpty then none
  else if s = ['*'] then some .any
  else match s.head? == some '*', s.getLast? == some '*' with
    | true, true => if s.length = 2 then some .any else some (.exactly s)
    | false, true => some (.startsWith s.dropLast)
    | true, false => some (.endsWith s.tail)
    | false, false => some (.exactly s)

def «matches» (self : Pattern) (name : List Char) : Bool :=
  match self with
  | any => true
  | startsWith start => start.isPrefixOf name
  | endsWith ending => ending.isSuffixOf name
  | exactly e => name == e

end Pattern

/-- The part of the filters of a client that decides which tools it sees. -/
structure ClientFilters where
  visibilityAllow : List Pattern
  visibilityDeny : List Pattern

def parsePatterns (raw : Option (List Char)) : List Pattern :=
  match raw with
  | none => []
  | some raw => (raw.splitOn ',').filterMap Pattern.parse

namespace ClientFilters

def fromStrings (visibilityAllow visibilityDeny : Option (List Char)) : ClientFilters where
  visibilityAllow := parsePatterns visibilityAllow
  visibilityDeny := parsePatterns visibilityDeny

def toolVisible (self : ClientFilters) (name : List Char) : Bool :=
  let name := normalizeToolName name
  if self.visibilityDeny.any (·.matches name) then false
  else if self.visibilityAllow.isEmpty then true
  else self.visibilityAllow.any (·.matches name)

def metaToolVisible (self : ClientFilters) (name : List Char) : Bool :=
  let name := normalizeToolName name
  !self.visibilityDeny.any (·.matches name)

end ClientFilters

/-! ### What is read from a pattern -/

theorem normalizeToolName_cons (c : Char) (name : List Char) :
    normalizeToolName (c :: name) = if c = ':' then '_' :: name else c :: normalizeToolName name := by
  unfold normalizeToolName
  rw [List.idxOf?_cons]
  by_cases colon : c = ':'
  · simp [colon]
  · simp only [beq_eq_false_iff_ne.mpr colon, colon, if_false]
    cases name.idxOf? ':' <;> simp

/-- Stars stay where they are. -/
theorem stars_normalizeToolName (name : List Char) :
    (normalizeToolName name).map (· == '*') = name.map (· == '*') := by
  induction name with
  | nil => rfl
  | cons c name ih =>
    rw [normalizeToolName_cons]
    split
    · next colon => simp [colon]
    · simp [ih]

theorem normalizeToolName_erased (name : List Char) :
    normalizeToolName (Glob.erased '*' name) = Glob.erased '*' (normalizeToolName name) := by
  induction name with
  | nil => rfl
  | cons c name ih =>
    by_cases star : c = '*'
    · simp [star, normalizeToolName_cons, ih]
    · by_cases colon : c = ':'
      · simp [colon, normalizeToolName_cons, Glob.erased_cons_of_ne]
      · simp [star, colon, normalizeToolName_cons, Glob.erased_cons_of_ne, ih]

/-- The stars of the pattern are those that a shape of `Pattern` stands for: none, one at an end, or two and
nothing else. -/
def StarsAtAnEnd (t : List Char) : Prop :=
  '*' ∉ t.tail ∨ '*' ∉ t.dropLast ∨ t = ['*', '*']

instance (t : List Char) : Decidable (StarsAtAnEnd t) := inferInstanceAs (Decidable (_ ∨ _))

theorem star_mem_iff (t : List Char) : '*' ∈ t ↔ true ∈ t.map (· == '*') := by
  simp

theorem starsAtAnEnd_normalizeToolName {t : List Char} : StarsAtAnEnd (normalizeToolName t) ↔ StarsAtAnEnd t := by
  have both (u : List Char) : u = ['*', '*'] ↔ u.map (· == '*') = [true, true] := by
    rcases u with _ | ⟨a, _ | ⟨b, _ | ⟨c, u⟩⟩⟩ <;> simp
  simp only [StarsAtAnEnd, star_mem_iff, List.map_tail, List.map_dropLast, both, stars_normalizeToolName]

/-- The shape that a text is read as. -/
inductive Reads : List Char → Pattern → Prop where
  | star : Reads ['*'] .any
  | stars : Reads ['*', '*'] .any
  | start {t : List Char} : t.head? ≠ some '*' → Reads (t ++ ['*']) (.startsWith t)
  | ending {t : List Char} : t.getLast? ≠ some '*' → Reads ('*' :: t) (.endsWith t)
  | plain {t : List Char} : t.head? ≠ some '*' → t.getLast? ≠ some '*' → Reads t (.exactly t)
  | between {t : List Char} : t ≠ [] → Reads ('*' :: t ++ ['*']) (.exactly ('*' :: t ++ ['*']))

theorem parse_reads {s : List Char} {pattern : Pattern} (h : Pattern.parse s = some pattern) :
    Reads (normalizeToolName (trim s)) pattern := by
  unfold Pattern.parse at h
  generalize normalizeToolName (trim s) = t at h
  dsimp only at h
  by_cases empty : t.isEmpty
  · simp [empty] at h
  by_cases star : t = ['*']
  · simp only [star, List.isEmpty_cons, Bool.false_eq_true, if_false, if_true] at h
    cases h
    exact star ▸ .star
  rw [if_neg empty, if_neg star] at h
  split at h
  · next starts ends =>
    simp only [beq_iff_eq] at starts ends
    obtain ⟨t, rfl⟩ := List.head?_eq_some_iff.mp starts
    obtain ⟨between, ends⟩ := List.getLast?_eq_some_iff.mp ends
    rcases between with _ | ⟨first, between⟩
    · exact absurd ends star
    rw [List.cons_append, List.cons.injEq] at ends
    obtain ⟨rfl, rfl⟩ := ends
    rcases between with _ | ⟨c, between⟩
    · cases h
      exact .stars
    · rw [if_neg (by simp)] at h
      cases h
      exact .between (List.cons_ne_nil c between)
  · next starts ends =>
    simp only [beq_iff_eq, beq_eq_false_iff_ne] at starts ends
    obtain ⟨t, rfl⟩ := List.getLast?_eq_some_iff.mp ends
    cases h
    rw [List.dropLast_concat]
    refine .start fun head => starts ?_
    rw [List.head?_append, head, Option.some_or]
  · next starts ends =>
    simp only [beq_iff_eq, beq_eq_false_iff_ne] at starts ends
    obtain ⟨t, rfl⟩ := List.head?_eq_some_iff.mp starts
    cases h
    refine .ending fun last => ends ?_
    rw [List.getLast?_cons, last, Option.getD_some]
  · next starts ends =>
    simp only [beq_eq_false_iff_ne] at starts ends
    cases h
    exact .plain starts ends

/-! ### What a pattern stands for -/

theorem starsAtAnEnd_concat {t : List Char} (starts : t.head? ≠ some '*') :
    StarsAtAnEnd (t ++ ['*']) ↔ '*' ∉ t := by
  constructor
  · rcases t with _ | ⟨c, t⟩
    · simp
    · rintro (plain | plain | two)
      · simp at plain
      · rwa [List.dropLast_concat] at plain
      · simp only [List.cons_append, List.cons.injEq] at two
        exact absurd (congrArg some two.1) starts
  · intro plain
    exact .inr (.inl (by simpa using plain))

theorem starsAtAnEnd_cons {t : List Char} (ends : t.getLast? ≠ some '*') : StarsAtAnEnd ('*' :: t) ↔ '*' ∉ t := by
  constructor
  · rintro (plain | plain | two)
    · exact plain
    · rcases t with _ | ⟨c, t⟩
      · simp
      · simp at plain
    · simp only [List.cons.injEq, true_and] at two
      exact absurd (two ▸ rfl) ends
  · exact .inl

theorem starsAtAnEnd_plain {t : List Char} (starts : t.head? ≠ some '*') (ends : t.getLast? ≠ some '*') :
    StarsAtAnEnd t ↔ '*' ∉ t := by
  constructor
  · rintro (plain | plain | two)
    · rcases t with _ | ⟨c, t⟩
      · simp
      · simp_all [eq_comm]
    · rcases List.eq_nil_or_concat t with rfl | ⟨t, c, rfl⟩
      · simp
      · simp_all [eq_comm]
    · exact absurd (two ▸ rfl) starts
  · intro plain
    exact .inl fun h => plain (List.mem_of_mem_tail h)

theorem not_starsAtAnEnd_between {t : List Char} (some_between : t ≠ []) : ¬ StarsAtAnEnd ('*' :: t ++ ['*']) := by
  rintro (plain | plain | two)
  · simp at plain
  · rw [List.dropLast_concat] at plain
    exact plain List.mem_cons_self
  · simp [some_between] at two

theorem matches_iff_of_reads {t : List Char} {pattern : Pattern} (reads : Reads t pattern) (simple : StarsAtAnEnd t)
    (name : List Char) : pattern.matches name = true ↔ Glob.Denotes '*' t name := by
  cases reads with
  | star => exact iff_of_true rfl Glob.denotes_all
  | stars => exact iff_of_true rfl (Glob.denotes_star_cons.mpr ⟨[], name, rfl, Glob.denotes_all⟩)
  | start starts =>
    rw [Glob.denotes_append_star ((starsAtAnEnd_concat starts).mp simple)]
    exact List.isPrefixOf_iff_prefix
  | ending ends =>
    rw [Glob.denotes_cons_star ((starsAtAnEnd_cons ends).mp simple)]
    exact List.isSuffixOf_iff_suffix
  | plain starts ends =>
    rw [Glob.denotes_plain ((starsAtAnEnd_plain starts ends).mp simple)]
    exact beq_iff_eq
  | between some_between => exact absurd simple (not_starsAtAnEnd_between some_between)

/-- Any other star is compared as a character, and a name without stars is missed. -/
theorem not_matches_erased {t : List Char} {pattern : Pattern} (reads : Reads t pattern) (other : ¬ StarsAtAnEnd t) :
    pattern.matches (Glob.erased '*' t) = false := by
  have no_star : '*' ∉ Glob.erased '*' t := Glob.star_not_mem_erased
  rw [← Bool.not_eq_true]
  intro hit
  cases reads with
  | star => exact other (.inl (by simp))
  | stars => exact other (.inr (.inr rfl))
  | start starts =>
    rw [starsAtAnEnd_concat starts, not_not] at other
    exact no_star ((List.isPrefixOf_iff_prefix.mp hit).subset other)
  | ending ends =>
    rw [starsAtAnEnd_cons ends, not_not] at other
    exact no_star ((List.isSuffixOf_iff_suffix.mp hit).subset other)
  | plain starts ends =>
    rw [starsAtAnEnd_plain starts ends, not_not] at other
    rw [beq_iff_eq.mp hit] at no_star
    exact no_star other
  | between =>
    rw [beq_iff_eq.mp hit] at no_star
    exact no_star List.mem_cons_self

/-- A name, in either spelling, is one that the pattern stands for. -/
def Denoted (s name : List Char) : Prop :=
  Glob.Denotes '*' (normalizeToolName (trim s)) (normalizeToolName name)

/-- The pattern matches the names it stands for. -/
def MeansGlob (s : List Char) : Prop :=
  ∀ pattern, Pattern.parse s = some pattern → ∀ name, pattern.matches (normalizeToolName name) = true ↔ Denoted s name

theorem parse_eq_none_iff {s : List Char} : Pattern.parse s = none ↔ normalizeToolName (trim s) = [] := by
  unfold Pattern.parse
  generalize normalizeToolName (trim s) = t
  dsimp only
  by_cases empty : t = []
  · simp [empty]
  refine iff_of_false ?_ empty
  rw [if_neg (by simpa using empty)]
  split
  · exact Option.some_ne_none _
  · split
    · rw [← apply_ite some]
      exact Option.some_ne_none _
    all_goals exact Option.some_ne_none _

theorem meansGlob_iff (s : List Char) : MeansGlob s ↔ StarsAtAnEnd (trim s) := by
  rw [← starsAtAnEnd_normalizeToolName]
  constructor
  · intro means
    cases parsed : Pattern.parse s with
    | none => exact .inl (by simp [parse_eq_none_iff.mp parsed])
    | some pattern =>
      by_contra other
      have missed := not_matches_erased (parse_reads parsed) other
      have denoted : Denoted s (Glob.erased '*' (trim s)) := by
        rw [Denoted, normalizeToolName_erased]
        exact Glob.denotes_erased
      rw [← means pattern parsed, normalizeToolName_erased, missed] at denoted
      exact Bool.false_ne_true denoted
  · intro simple pattern parsed name
    exact matches_iff_of_reads (parse_reads parsed) simple _

/-! ### Lists of patterns -/

/-- The patterns that a list gives: its parts that are not blank. -/
def patternTexts (raw : Option (List Char)) : List (List Char) :=
  match raw with
  | none => []
  | some raw => (raw.splitOn ',').filter fun s => !(trim s).isEmpty

theorem normalizeToolName_eq_nil {s : List Char} : normalizeToolName s = [] ↔ s = [] := by
  rw [← List.map_eq_nil_iff, stars_normalizeToolName, List.map_eq_nil_iff]

theorem mem_parsePatterns {raw : Option (List Char)} {pattern : Pattern} :
    pattern ∈ parsePatterns raw ↔ ∃ s ∈ patternTexts raw, Pattern.parse s = some pattern := by
  cases raw with
  | none => simp [parsePatterns, patternTexts]
  | some raw =>
    simp only [parsePatterns, patternTexts, List.mem_filterMap, List.mem_filter]
    constructor
    · rintro ⟨s, listed, parsed⟩
      refine ⟨s, ⟨listed, ?_⟩, parsed⟩
      by_contra blank
      rw [Bool.not_eq_true, Bool.not_eq_false', List.isEmpty_iff, ← normalizeToolName_eq_nil,
        ← parse_eq_none_iff, parsed] at blank
      exact Option.some_ne_none pattern blank
    · rintro ⟨s, ⟨listed, -⟩, parsed⟩
      exact ⟨s, listed, parsed⟩

/-- Every pattern in a list is parsed. -/
theorem parse_of_mem_patternTexts {raw : Option (List Char)} {s : List Char} (listed : s ∈ patternTexts raw) :
    ∃ pattern, Pattern.parse s = some pattern := by
  rw [← Option.ne_none_iff_exists', ne_eq, parse_eq_none_iff, normalizeToolName_eq_nil]
  cases raw with
  | none => cases listed
  | some raw => simpa using (List.mem_filter.mp listed).2

theorem parsePatterns_isEmpty {raw : Option (List Char)} :
    (parsePatterns raw).isEmpty = true ↔ patternTexts raw = [] := by
  rw [List.isEmpty_iff, List.eq_nil_iff_forall_not_mem, List.eq_nil_iff_forall_not_mem]
  constructor
  · intro none_parsed s listed
    obtain ⟨pattern, parsed⟩ := parse_of_mem_patternTexts listed
    exact none_parsed pattern (mem_parsePatterns.mpr ⟨s, listed, parsed⟩)
  · intro none_listed pattern member
    obtain ⟨s, listed, -⟩ := mem_parsePatterns.mp member
    exact none_listed s listed

theorem any_matches_iff {raw : Option (List Char)} (means : ∀ s ∈ patternTexts raw, MeansGlob s) (name : List Char) :
    (parsePatterns raw).any (·.matches (normalizeToolName name)) = true ↔ ∃ s ∈ patternTexts raw, Denoted s name := by
  simp only [List.any_eq_true, mem_parsePatterns]
  constructor
  · rintro ⟨pattern, ⟨s, listed, parsed⟩, hit⟩
    exact ⟨s, listed, (means s listed pattern parsed name).mp hit⟩
  · rintro ⟨s, listed, denoted⟩
    obtain ⟨pattern, parsed⟩ := parse_of_mem_patternTexts listed
    exact ⟨pattern, ⟨s, listed, parsed⟩, (means s listed pattern parsed name).mpr denoted⟩

/-- The lists decide by the names that their patterns stand for. -/
structure ListsMeanGlobs (allow deny : Option (List Char)) : Prop where
  patterns : ∀ s ∈ patternTexts deny ++ patternTexts allow, MeansGlob s
  denied : ∀ name, (∃ s ∈ patternTexts deny, Denoted s name) →
    (ClientFilters.fromStrings allow deny).toolVisible name = false
  allowed : patternTexts allow ≠ [] → ∀ name, (∀ s ∈ patternTexts deny, ¬ Denoted s name) →
    ((ClientFilters.fromStrings allow deny).toolVisible name = true ↔ ∃ s ∈ patternTexts allow, Denoted s name)

theorem listsMeanGlobs_of_patterns {allow deny : Option (List Char)}
    (patterns : ∀ s ∈ patternTexts deny ++ patternTexts allow, MeansGlob s) : ListsMeanGlobs allow deny := by
  have denies := any_matches_iff fun s listed => patterns s (List.mem_append_left _ listed)
  have allows := any_matches_iff fun s listed => patterns s (List.mem_append_right _ listed)
  refine ⟨patterns, ?_, ?_⟩
  · intro name denoted
    simp [ClientFilters.toolVisible, ClientFilters.fromStrings, (denies name).mpr denoted]
  · intro listed name not_denoted
    have not_denied : ¬ (parsePatterns deny).any (·.matches (normalizeToolName name)) = true := by
      rw [denies name]
      rintro ⟨s, member, denoted⟩
      exact not_denoted s member denoted
    have restricted : ¬ (parsePatterns allow).isEmpty = true := by
      rwa [parsePatterns_isEmpty]
    rw [← allows name]
    unfold ClientFilters.toolVisible ClientFilters.fromStrings
    dsimp only
    rw [if_neg not_denied, if_neg restricted]

/-- The entry points are hidden by a denied pattern only. -/
theorem metaToolVisible_of_toolVisible {filters : ClientFilters} {name : List Char}
    (visible : filters.toolVisible name = true) : filters.metaToolVisible name = true := by
  unfold ClientFilters.toolVisible at visible
  unfold ClientFilters.metaToolVisible
  dsimp only at visible ⊢
  split at visible
  · cases visible
  · next not_denied => simpa using not_denied

/-- A pattern is a glob, and lists of patterns decide by globs, exactly when every star stands at one end of its
pattern. -/
theorem patterns_mean_globs_iff (s : List Char) (allow deny : Option (List Char)) :
    (MeansGlob s ↔ StarsAtAnEnd (trim s)) ∧
      (ListsMeanGlobs allow deny ↔
        ∀ listed ∈ patternTexts deny ++ patternTexts allow, StarsAtAnEnd (trim listed)) := by
  refine ⟨meansGlob_iff s, ?_⟩
  constructor
  · intro means s listed
    exact (meansGlob_iff s).mp (means.patterns s listed)
  · intro simple
    exact listsMeanGlobs_of_patterns fun s listed => (meansGlob_iff s).mpr (simple s listed)

/-- With `*Secret*` denied, a tool whose name contains `Secret` is visible. -/
theorem denied_by_glob_but_visible :
    Denoted "*Secret*".toList "query:GetSecretKeys".toList ∧
      "*Secret*".toList ∈ patternTexts (some "*Secret*".toList) ∧
      (ClientFilters.fromStrings none (some "*Secret*".toList)).toolVisible "query:GetSecretKeys".toList = true := by
  refine ⟨?_, by decide, by decide⟩
  exact Glob.denotes_star_cons.mpr ⟨"query_Get".toList, "SecretKeys".toList, by decide,
    (Glob.denotes_append_star (show '*' ∉ "Secret".toList by decide)).mpr ⟨"Keys".toList, by decide⟩⟩

end Myko.Mcp

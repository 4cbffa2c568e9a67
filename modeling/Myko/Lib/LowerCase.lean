import Mathlib.Data.Char
import Mathlib.Tactic.TypeStar

/-!
Lower case: of ASCII, which leaves other characters as they are, and of Unicode, which goes character by character
but for the capital sigma, whose lower case depends on whether it ends a word.
-/

namespace Myko.LowerCase

/-! ### ASCII -/

variable {c : Char}

theorem toNat_toLower (c : Char) :
    c.toLower.toNat = if 65 ≤ c.toNat ∧ c.toNat ≤ 90 then c.toNat + 32 else c.toNat := by
  have upper_iff : (c.val ≥ 'A'.val ∧ c.val ≤ 'Z'.val) ↔ (65 ≤ c.toNat ∧ c.toNat ≤ 90) := by
    rw [ge_iff_le, UInt32.le_iff_toNat_le, UInt32.le_iff_toNat_le]
    rfl
  unfold Char.toLower
  by_cases upper : 65 ≤ c.toNat ∧ c.toNat ≤ 90
  · rw [dif_pos (upper_iff.mpr upper), if_pos upper]
    show (c.val + ('a'.val - 'A'.val)).toNat = c.toNat + 32
    rw [UInt32.toNat_add]
    show (c.toNat + 32) % 2 ^ 32 = c.toNat + 32
    omega
  · rw [dif_neg fun bounds => upper (upper_iff.mp bounds), if_neg upper]

/-- A letter of ASCII. -/
def IsLetter (c : Char) : Prop := (65 ≤ c.toNat ∧ c.toNat ≤ 90) ∨ (97 ≤ c.toNat ∧ c.toNat ≤ 122)

theorem toLower_cases (c : Char) : c.toLower = c ∨ (IsLetter c ∧ IsLetter c.toLower) := by
  by_cases bounds : 65 ≤ c.toNat ∧ c.toNat ≤ 90
  · refine .inr ⟨.inl bounds, .inr ?_⟩
    rw [toNat_toLower, if_pos bounds]
    omega
  · refine .inl (Char.toNat_inj.mp ?_)
    rw [toNat_toLower, if_neg bounds]

theorem utf8Size_letter (letter : IsLetter c) : c.utf8Size = 1 := by
  rw [Char.utf8Size_eq_one_iff, UInt32.le_iff_toNat_le]
  have bound : c.toNat ≤ 127 := by
    unfold IsLetter at letter
    omega
  exact bound

theorem utf8Size_toLower (c : Char) : c.toLower.utf8Size = c.utf8Size := by
  rcases toLower_cases c with same | ⟨letter, lower⟩
  · rw [same]
  · rw [utf8Size_letter letter, utf8Size_letter lower]

theorem toLower_toLower (c : Char) : c.toLower.toLower = c.toLower := by
  apply Char.toNat_inj.mp
  rw [toNat_toLower c.toLower, toNat_toLower c]
  split
  · rw [if_neg (by omega)]
  · rfl

/-! ### Unicode -/

/-- The tables of the Unicode database that lower case is defined by. -/
structure UnicodeCase where
  toLower : Char → List Char
  cased : Char → Bool
  caseIgnorable : Char → Bool

def capitalSigma : Char := Char.ofNat 0x3A3

def smallSigma : Char := Char.ofNat 0x3C3

def finalSigma : Char := Char.ofNat 0x3C2

section
variable (case : UnicodeCase)

def caseIgnorableThenCased (text : List Char) : Bool :=
  match text.dropWhile case.caseIgnorable with
  | [] => false
  | c :: _ => case.cased c

/-- The lower case of a sigma with this text before it, last character first, and this text behind it. -/
def mapUppercaseSigma (before after : List Char) : Char :=
  if caseIgnorableThenCased case before ∧ !caseIgnorableThenCased case after then finalSigma else smallSigma

def lowercaseFrom (before : List Char) : List Char → List Char
  | [] => []
  | c :: rest =>
    (if c = capitalSigma then [mapUppercaseSigma case before rest] else case.toLower c) ++
      lowercaseFrom (c :: before) rest

def toLowercase (text : List Char) : List Char := lowercaseFrom case [] text

end

/-- What the tables are documented to be: for ASCII the lower case is that of ASCII, its letters are cased, and
the lower case of a character is in lower case itself. -/
structure Documented (case : UnicodeCase) : Prop where
  ascii : ∀ c, c.toNat < 128 → case.toLower c = [c.toLower]
  letters : ∀ c, IsLetter c → case.cased c = true ∧ case.caseIgnorable c = false
  fixed : ∀ c, c ≠ capitalSigma → ∀ d ∈ case.toLower c, d ≠ capitalSigma ∧ case.toLower d = [d]
  sigmas : case.toLower smallSigma = [smallSigma] ∧ case.toLower finalSigma = [finalSigma]

variable {case : UnicodeCase} {text before after : List Char}

/-- Lower case leaves what is in lower case as it is. -/
theorem lowercaseFrom_of_fixed (fixed : ∀ c ∈ text, c ≠ capitalSigma ∧ case.toLower c = [c]) :
    lowercaseFrom case before text = text := by
  induction text generalizing before with
  | nil => rfl
  | cons c rest ih =>
    obtain ⟨not_sigma, own⟩ := fixed c List.mem_cons_self
    rw [lowercaseFrom, if_neg not_sigma, own, ih fun d later => fixed d (List.mem_cons_of_mem _ later),
      List.singleton_append]

namespace Documented

theorem fixed_lowercaseFrom (documented : Documented case) :
    ∀ d ∈ lowercaseFrom case before text, d ≠ capitalSigma ∧ case.toLower d = [d] := by
  induction text generalizing before with
  | nil => exact fun d none => absurd none List.not_mem_nil
  | cons c rest ih =>
    intro d listed
    rw [lowercaseFrom, List.mem_append] at listed
    rcases listed with here | later
    · split at here
      · rw [List.mem_singleton, mapUppercaseSigma] at here
        split at here
        · subst here
          exact ⟨by decide, documented.sigmas.2⟩
        · subst here
          exact ⟨by decide, documented.sigmas.1⟩
      · next other => exact documented.fixed c other d here
    · exact ih d later

theorem lowercase_twice (documented : Documented case) (text : List Char) :
    toLowercase case (toLowercase case text) = toLowercase case text :=
  lowercaseFrom_of_fixed documented.fixed_lowercaseFrom

theorem thenCased_ascii (documented : Documented case) (text : List Char) :
    caseIgnorableThenCased case (text.map Char.toLower) = caseIgnorableThenCased case text := by
  have same : ∀ c : Char, case.cased c.toLower = case.cased c ∧ case.caseIgnorable c.toLower = case.caseIgnorable c := by
    intro c
    rcases toLower_cases c with same | ⟨letter, lower⟩
    · rw [same]
      exact ⟨rfl, rfl⟩
    · rw [(documented.letters c letter).1, (documented.letters c letter).2, (documented.letters _ lower).1,
        (documented.letters _ lower).2]
      exact ⟨rfl, rfl⟩
  induction text with
  | nil => rfl
  | cons c rest ih =>
    unfold caseIgnorableThenCased at ih ⊢
    rw [List.map_cons]
    cases ignored : case.caseIgnorable c with
    | true =>
      rw [List.dropWhile_cons_of_pos ignored, List.dropWhile_cons_of_pos ((same c).2.trans ignored)]
      exact ih
    | false =>
      have kept : ¬case.caseIgnorable c = true := by rw [ignored]; exact Bool.false_ne_true
      rw [List.dropWhile_cons_of_neg kept, List.dropWhile_cons_of_neg ((same c).2 ▸ kept)]
      exact (same c).1

theorem toLower_ascii (documented : Documented case) (c : Char) : case.toLower c.toLower = case.toLower c := by
  rcases toLower_cases c with same | ⟨letter, lower⟩
  · rw [same]
  · have bound : ∀ {d : Char}, IsLetter d → d.toNat < 128 := by
      intro d letter
      unfold IsLetter at letter
      omega
    rw [documented.ascii _ (bound lower), documented.ascii c (bound letter), toLower_toLower]

theorem toLower_eq_sigma (c : Char) : c.toLower = capitalSigma ↔ c = capitalSigma := by
  rcases toLower_cases c with same | ⟨letter, lower⟩
  · rw [same]
  · have no_letter : ¬IsLetter capitalSigma := by
      unfold IsLetter
      decide
    exact iff_of_false (fun sigma => no_letter (sigma ▸ lower)) fun sigma => no_letter (sigma ▸ letter)

theorem lowercaseFrom_ascii (documented : Documented case) (before text : List Char) :
    lowercaseFrom case (before.map Char.toLower) (text.map Char.toLower) = lowercaseFrom case before text := by
  induction text generalizing before with
  | nil => rfl
  | cons c rest ih =>
    have sigma : mapUppercaseSigma case (before.map Char.toLower) (rest.map Char.toLower) =
        mapUppercaseSigma case before rest := by
      rw [mapUppercaseSigma, documented.thenCased_ascii, documented.thenCased_ascii]
      rfl
    rw [List.map_cons, lowercaseFrom, lowercaseFrom, ← List.map_cons, ih, documented.toLower_ascii, sigma]
    simp only [toLower_eq_sigma]

/-- Lower case over Unicode does not see whether ASCII letters were put in lower case before. -/
theorem lowercase_ascii (documented : Documented case) (text : List Char) :
    toLowercase case (text.map Char.toLower) = toLowercase case text :=
  documented.lowercaseFrom_ascii [] text

end Documented

end Myko.LowerCase

/-
Lookout.Proofs.Numeric.Numeral — `Numeral.read?` accepts exactly the texts of
the numeral grammar, and reads what they say.

The grammar is a family of relations between a text and its meaning:

  * `Sign`     — nothing, `+` or `-`;
  * `Mantissa` — digits with at most one point and at least one digit beside it;
  * `Exponent` — nothing, or `e` or `E`, a sign and at least one digit;
  * `Unsigned` — one of the words `inf`, `infinity` and `nan` in any mixture of
                 cases, or a mantissa and an exponent;
  * `Written`  — a sign and an unsigned numeral.

`Numeral.RoundsTo` is what "the nearest binary64 number" means for a numeral,
and `Numeral.roundsTo_iff` says that `Numeral.toBinary64` is it.
-/
import Lookout.Numeric.Numeral
import Lookout.Proofs.Numeric.Decimal
import Lookout.Proofs.Text.Pieces

namespace Lookout

/-! ## Runs of digits -/

namespace Digits

/-- Only ASCII digits. -/
def IsRun (text : List Char) : Prop := ∀ c ∈ text, c.isDigit = true

theorem number?_eq_some_iff {text : List Char} {n : Nat} :
    number? text = some n ↔ text ≠ [] ∧ IsRun text ∧ Nat.ofDigitChars 10 text 0 = n := by
  have hcond : (!text.isEmpty && text.all Char.isDigit) = true ↔ text ≠ [] ∧ IsRun text := by
    simp [IsRun]
  unfold number?
  split
  · next h => simp [hcond.mp h]
  · next h => simp [← and_assoc, mt hcond.mpr h]

theorem isRun_takeWhile (text : List Char) : IsRun (text.takeWhile Char.isDigit) :=
  fun _ hc => List.mem_takeWhile_imp hc

end Digits

namespace Numeral

open Digits
open Text (takeWhile_append dropWhile_append)

/-! ## Grammar -/

inductive Sign : Bool → List Char → Prop where
  | none : Sign false []
  | plus : Sign false ['+']
  | minus : Sign true ['-']

/-- The digits before the point and those after it. -/
inductive Mantissa : List Char → List Char → List Char → Prop where
  | integer {whole} : IsRun whole → whole ≠ [] → Mantissa whole [] whole
  | pointed {whole fraction} : IsRun whole → IsRun fraction → whole ++ fraction ≠ [] →
      Mantissa whole fraction (whole ++ '.' :: fraction)

inductive Exponent : Int → List Char → Prop where
  | absent : Exponent 0 []
  | written {mark negative sign digits} : mark = 'e' ∨ mark = 'E' → Sign negative sign →
      IsRun digits → digits ≠ [] →
      Exponent (if negative then -(Nat.ofDigitChars 10 digits 0 : Int)
        else Nat.ofDigitChars 10 digits 0) (mark :: (sign ++ digits))

inductive Unsigned (negative : Bool) : Numeral → List Char → Prop where
  | infinite {word} : word.map Char.toLower = ['i', 'n', 'f'] ∨
        word.map Char.toLower = ['i', 'n', 'f', 'i', 'n', 'i', 't', 'y'] →
      Unsigned negative (.infinite negative) word
  | notANumber {word} : word.map Char.toLower = ['n', 'a', 'n'] →
      Unsigned negative (.notANumber negative) word
  | finite {whole fraction mantissa exponent tail} : Mantissa whole fraction mantissa →
      Exponent exponent tail →
      Unsigned negative (.finite negative ⟨Nat.ofDigitChars 10 (whole ++ fraction) 0,
        exponent - fraction.length⟩) (mantissa ++ tail)

/-- A numeral and a text that writes it. -/
inductive Written : Numeral → List Char → Prop where
  | signed {negative sign n body} : Sign negative sign → Unsigned negative n body →
      Written n (sign ++ body)

/-! ## Reading is correct -/

theorem exponent_of_exponent? {text : List Char} {e : Int} (h : exponent? text = some e) :
    Exponent e text := by
  cases text with
  | nil =>
    obtain rfl : 0 = e := by simpa [exponent?] using h
    exact .absent
  | cons mark rest =>
    simp only [exponent?] at h
    split at h
    · next hmark =>
      split at h
      all_goals
        simp only [bind_pure_comp, Option.map_eq_map, Option.map_eq_some_iff,
          number?_eq_some_iff] at h
        obtain ⟨_, ⟨n, ⟨hne, hrun, rfl⟩, rfl⟩, rfl⟩ := h
      · exact .written hmark .plus hrun hne
      · exact .written hmark .minus hrun hne
      · exact .written hmark .none hrun hne
    · simp at h

theorem exponent?_of_exponent {text : List Char} {e : Int} (h : Exponent e text) :
    exponent? text = some e := by
  cases h with
  | absent => rfl
  | written hmark hsign hrun hne =>
    rename_i mark negative sign digits
    have hnumber := number?_eq_some_iff.mpr ⟨hne, hrun, rfl⟩
    cases hsign with
    | plus => simp [exponent?, hmark, hnumber]
    | minus => simp [exponent?, hmark, hnumber]
    | none =>
      obtain ⟨c, rest, rfl⟩ := List.exists_cons_of_ne_nil hne
      have hc : c.isDigit = true := hrun c (by simp)
      simp only [exponent?, if_pos hmark, List.nil_append]
      split
      · next h =>
        obtain ⟨rfl, -⟩ := List.cons.inj h
        simp at hc
      · next h =>
        obtain ⟨rfl, -⟩ := List.cons.inj h
        simp at hc
      · simp [hnumber]

theorem Exponent.head {e : Int} {text : List Char} (h : Exponent e text) :
    ∀ c ∈ text.head?, c = 'e' ∨ c = 'E' := by
  cases h with
  | absent => simp
  | written hmark _ _ _ => simpa using hmark

theorem decimal?_of_mantissa {whole fraction mantissa tail : List Char} {e : Int}
    (hmantissa : Mantissa whole fraction mantissa) (htail : Exponent e tail) :
    decimal? (mantissa ++ tail) =
      some ⟨Nat.ofDigitChars 10 (whole ++ fraction) 0, e - fraction.length⟩ := by
  have hdigit : ∀ c ∈ tail.head?, c.isDigit = false := fun c hc => by
    rcases htail.head c hc with rfl | rfl <;> rfl
  have hpoint : ∀ c ∈ tail.head?, c ≠ '.' := fun c hc => by
    rcases htail.head c hc with rfl | rfl <;> decide
  cases hmantissa with
  | integer hwhole hne =>
    have hfraction : fractionPart tail = ([], tail) := by
      unfold fractionPart
      split
      · next h => exact absurd rfl (hpoint '.' (by simp))
      · rfl
    simp [decimal?, takeWhile_append hwhole hdigit, dropWhile_append hwhole hdigit, hfraction,
      hne, exponent?_of_exponent htail]
  | pointed hwhole hfraction hne =>
    have hdot : ∀ c ∈ ('.' :: (fraction ++ tail)).head?, c.isDigit = false := by
      simp
    simp only [decimal?, List.append_assoc, List.cons_append, takeWhile_append hwhole hdot,
      dropWhile_append hwhole hdot, fractionPart, takeWhile_append hfraction hdigit,
      dropWhile_append hfraction hdigit, exponent?_of_exponent htail]
    rw [if_neg (by simpa using hne)]
    rfl

theorem fractionPart_cases (rest : List Char) :
    (∃ after, rest = '.' :: after ∧
      fractionPart rest = (after.takeWhile Char.isDigit, after.dropWhile Char.isDigit)) ∨
    fractionPart rest = ([], rest) := by
  unfold fractionPart
  split
  · exact .inl ⟨_, rfl, rfl⟩
  · exact .inr rfl

theorem mantissa_of_decimal? {text : List Char} {x : Decimal} (h : decimal? text = some x) :
    ∃ whole fraction mantissa e tail, Mantissa whole fraction mantissa ∧ Exponent e tail ∧
      text = mantissa ++ tail ∧
      x = ⟨Nat.ofDigitChars 10 (whole ++ fraction) 0, e - fraction.length⟩ := by
  have hwhole := isRun_takeWhile text
  have htext : text.takeWhile Char.isDigit ++ text.dropWhile Char.isDigit = text :=
    List.takeWhile_append_dropWhile
  obtain ⟨after, hrest, hpart⟩ | hpart := fractionPart_cases (text.dropWhile Char.isDigit)
  all_goals
    simp only [decimal?, hpart] at h
    split at h
    · simp at h
    obtain ⟨e, he, rfl⟩ := Option.map_eq_some_iff.mp h
    rename_i hdigits
  · refine ⟨_, _, _, e, _, .pointed hwhole (isRun_takeWhile after) ?_,
      exponent_of_exponent? he, ?_, rfl⟩
    · simpa using hdigits
    · rw [List.append_assoc, List.cons_append, List.takeWhile_append_dropWhile, ← hrest, htext]
  · refine ⟨_, _, _, e, _, .integer hwhole ?_, exponent_of_exponent? he, htext.symm, by simp⟩
    simpa using hdigits

/-! ## The first character tells a word, a sign and a number apart -/

theorem Mantissa.head {whole fraction mantissa : List Char} (h : Mantissa whole fraction mantissa) :
    ∃ c rest, mantissa = c :: rest ∧ (c.isDigit = true ∨ c = '.') := by
  cases h with
  | integer hwhole hne =>
    obtain ⟨c, rest, rfl⟩ := List.exists_cons_of_ne_nil hne
    exact ⟨c, rest, rfl, .inl (hwhole c (by simp))⟩
  | pointed hwhole _ _ =>
    cases whole with
    | nil => exact ⟨'.', _, rfl, .inr rfl⟩
    | cons c rest => exact ⟨c, _, rfl, .inl (hwhole c (by simp))⟩

theorem isAlpha_iff {c : Char} : c.isAlpha = true ↔
    (65 ≤ c.toNat ∧ c.toNat ≤ 90) ∨ (97 ≤ c.toNat ∧ c.toNat ≤ 122) := by
  have hletter : c.isAlpha = (decide (c.val ≥ 'A'.val ∧ c.val ≤ 'Z'.val) ||
      (decide (c.val ≥ 'a'.val) && decide (c.val ≤ 'z'.val))) := rfl
  rw [hletter]
  simp [UInt32.le_iff_toNat_le]

theorem isAlpha_eq_false_of_isDigit {c : Char} (h : c.isDigit = true) : c.isAlpha = false := by
  have hle : 48 ≤ c.toNat ∧ c.toNat ≤ 57 := Char.isDigit_iff_toNat.mp h
  rw [← Bool.not_eq_true, isAlpha_iff]
  omega

/-- A word starts with a letter. -/
theorem isAlpha_of_toLower {c d : Char} (h : c.toLower = d) (hd : d.isAlpha = true) :
    c.isAlpha = true := by
  unfold Char.toLower at h
  split at h
  · next hupper =>
    rw [UInt32.le_iff_toNat_le, ge_iff_le, UInt32.le_iff_toNat_le] at hupper
    exact isAlpha_iff.mpr (.inl hupper)
  · rwa [h]

theorem isAlpha_of_word {word letters : List Char} (h : word.map Char.toLower = letters)
    (hletters : letters.all Char.isAlpha = true) : ∀ c ∈ word, c.isAlpha = true := by
  intro c hc
  subst h
  exact isAlpha_of_toLower rfl (List.all_eq_true.mp hletters _ (List.mem_map_of_mem hc))

/-- No unsigned numeral starts with a sign. -/
theorem Unsigned.head {negative : Bool} {n : Numeral} {text : List Char}
    (h : Unsigned negative n text) : ∀ c ∈ text.head?, c ≠ '+' ∧ c ≠ '-' := by
  intro c hc
  cases h with
  | infinite hword =>
    have halpha : c.isAlpha = true := by
      rcases hword with hword | hword <;>
        exact isAlpha_of_word hword (by decide) c (List.mem_of_mem_head? hc)
    constructor <;> rintro rfl <;> simp at halpha
  | notANumber hword =>
    have halpha := isAlpha_of_word hword (by decide) c (List.mem_of_mem_head? hc)
    constructor <;> rintro rfl <;> simp at halpha
  | finite hmantissa _ =>
    obtain ⟨d, rest, rfl, hd⟩ := hmantissa.head
    obtain rfl : d = c := by simpa using hc
    constructor <;> rintro rfl <;> simp at hd

theorem unsigned?_of_unsigned {negative : Bool} {n : Numeral} {text : List Char}
    (h : Unsigned negative n text) : unsigned? negative text = some n := by
  cases h with
  | infinite hword => simp only [unsigned?, if_pos hword]
  | notANumber hword => simp [unsigned?, hword]
  | finite hmantissa htail =>
    rename_i whole fraction mantissa e tail
    have hdecimal := decimal?_of_mantissa hmantissa htail
    obtain ⟨c, rest, rfl, hc⟩ := hmantissa.head
    have halpha : c.isAlpha = false := by
      rcases hc with hc | rfl
      · exact isAlpha_eq_false_of_isDigit hc
      · rfl
    have hlower : c.toLower ≠ 'i' ∧ c.toLower ≠ 'n' := by
      constructor <;> intro h <;> simp [isAlpha_of_toLower h] at halpha
    simp only [unsigned?, List.cons_append, List.map_cons, List.cons.injEq, hlower, false_and,
      or_self, if_false]
    rw [← List.cons_append, hdecimal]
    rfl

theorem unsigned_of_unsigned? {negative : Bool} {n : Numeral} {text : List Char}
    (h : unsigned? negative text = some n) : Unsigned negative n text := by
  simp only [unsigned?] at h
  split at h
  · next hword =>
    obtain rfl := Option.some.inj h
    exact .infinite hword
  · split at h
    · next hword =>
      obtain rfl := Option.some.inj h
      exact .notANumber hword
    · obtain ⟨x, hx, rfl⟩ := Option.map_eq_some_iff.mp h
      obtain ⟨whole, fraction, mantissa, e, tail, hmantissa, htail, rfl, rfl⟩ :=
        mantissa_of_decimal? hx
      exact .finite hmantissa htail

/-- **The grammar is what is read.** -/
theorem read?_eq_some_iff {text : List Char} {n : Numeral} :
    read? text = some n ↔ Written n text := by
  constructor
  · intro h
    unfold read? at h
    split at h
    · exact .signed .plus (unsigned_of_unsigned? h)
    · exact .signed .minus (unsigned_of_unsigned? h)
    · exact .signed .none (unsigned_of_unsigned? h)
  · intro h
    obtain ⟨hsign, hbody⟩ := h
    have hread := unsigned?_of_unsigned hbody
    cases hsign with
    | plus => exact hread
    | minus => exact hread
    | none =>
      rw [List.nil_append]
      unfold read?
      split
      · exact absurd rfl (hbody.head '+' (by simp)).1
      · exact absurd rfl (hbody.head '-' (by simp)).2
      · exact hread

/-! ## Characters -/

/-- Numerals consist of ASCII letters and digits, signs and points. -/
def isNumeralChar (c : Char) : Bool := c.isAlphanum || c == '+' || c == '-' || c == '.'

theorem isNumeralChar_of_isDigit {c : Char} (h : c.isDigit = true) : isNumeralChar c = true := by
  simp [isNumeralChar, Char.isAlphanum, h]

theorem isNumeralChar_of_isAlpha {c : Char} (h : c.isAlpha = true) : isNumeralChar c = true := by
  simp [isNumeralChar, Char.isAlphanum, h]

theorem Sign.isNumeralChar {negative : Bool} {sign : List Char} (h : Sign negative sign) :
    ∀ c ∈ sign, isNumeralChar c = true := by
  cases h <;> simp <;> rfl

theorem Mantissa.isNumeralChar {whole fraction mantissa : List Char}
    (h : Mantissa whole fraction mantissa) : ∀ c ∈ mantissa, isNumeralChar c = true := by
  cases h with
  | integer hwhole _ => exact fun c hc => isNumeralChar_of_isDigit (hwhole c hc)
  | pointed hwhole hfraction _ =>
    intro c hc
    rcases List.mem_append.mp hc with hc | hc
    · exact isNumeralChar_of_isDigit (hwhole c hc)
    · rcases List.mem_cons.mp hc with rfl | hc
      · rfl
      · exact isNumeralChar_of_isDigit (hfraction c hc)

theorem Exponent.isNumeralChar {e : Int} {tail : List Char} (h : Exponent e tail) :
    ∀ c ∈ tail, isNumeralChar c = true := by
  cases h with
  | absent => simp
  | written hmark hsign hrun _ =>
    intro c hc
    rcases List.mem_cons.mp hc with rfl | hc
    · rcases hmark with rfl | rfl <;> rfl
    · rcases List.mem_append.mp hc with hc | hc
      · exact hsign.isNumeralChar c hc
      · exact isNumeralChar_of_isDigit (hrun c hc)

theorem Written.isNumeralChar {n : Numeral} {text : List Char} (h : Written n text) :
    ∀ c ∈ text, isNumeralChar c = true := by
  obtain ⟨hsign, hbody⟩ := h
  intro c hc
  rcases List.mem_append.mp hc with hc | hc
  · exact hsign.isNumeralChar c hc
  · cases hbody with
    | infinite hword =>
      rcases hword with hword | hword <;>
        exact isNumeralChar_of_isAlpha (isAlpha_of_word hword (by decide) c hc)
    | notANumber hword =>
      exact isNumeralChar_of_isAlpha (isAlpha_of_word hword (by decide) c hc)
    | finite hmantissa htail =>
      rcases List.mem_append.mp hc with hc | hc
      · exact hmantissa.isNumeralChar c hc
      · exact htail.isNumeralChar c hc

theorem Written.ne_nil {n : Numeral} {text : List Char} (h : Written n text) : text ≠ [] := by
  obtain ⟨hsign, hbody⟩ := h
  suffices hne : ∀ {negative n body}, Unsigned negative n body → body ≠ [] by
    simp [hne hbody]
  intro negative n body h
  cases h with
  | infinite hword => rintro rfl; simp at hword
  | notANumber hword => rintro rfl; simp at hword
  | finite hmantissa _ =>
    obtain ⟨c, rest, rfl, -⟩ := hmantissa.head
    simp

/-- The code points of the characters of numerals. -/
theorem toNat_of_isNumeralChar {c : Char} (h : isNumeralChar c = true) :
    c.toNat = 43 ∨ c.toNat = 45 ∨ c.toNat = 46 ∨ (48 ≤ c.toNat ∧ c.toNat ≤ 57) ∨
      (65 ≤ c.toNat ∧ c.toNat ≤ 90) ∨ (97 ≤ c.toNat ∧ c.toNat ≤ 122) := by
  simp only [isNumeralChar, Char.isAlphanum, Bool.or_eq_true, beq_iff_eq] at h
  rcases h with (((hletter | hdigit) | rfl) | rfl) | rfl
  · simp [isAlpha_iff.mp hletter]
  · have hle : 48 ≤ c.toNat ∧ c.toNat ≤ 57 := Char.isDigit_iff_toNat.mp hdigit
    simp [hle]
  · simp
  · simp
  · simp

theorem isBlank_eq_false_of_isNumeralChar {c : Char} (h : isNumeralChar c = true) :
    Text.isBlank c = false := by
  have hcode := toNat_of_isNumeralChar h
  simp only [Text.isBlank, Bool.or_eq_false_iff, Bool.and_eq_false_iff, decide_eq_false_iff_not,
    beq_eq_false_iff_ne]
  omega

/-! ## Value -/

/-- `x` is the binary64 number that a numeral stands for: its infinity or quiet
NaN with its sign, or the correct rounding of its exact value with its sign. -/
def RoundsTo : Numeral → Binary64 → Prop
  | .infinite negative, x => x = Binary64.infinity negative
  | .notANumber negative, x => x = Binary64.nan negative
  | .finite negative value, x =>
    x.negative = negative ∧ Binary64.IsNearest value.value x.magnitude

theorem roundsTo_iff {n : Numeral} {x : Binary64} : n.RoundsTo x ↔ n.toBinary64 = x := by
  cases n with
  | infinite negative => exact eq_comm
  | notANumber negative => exact eq_comm
  | finite negative value =>
    constructor
    · intro h
      obtain ⟨rfl, hx⟩ := h
      have hmagnitude := value.magnitude_isNearest.unique hx
      simp only [toBinary64, Decimal.toBinary64, hmagnitude]
    · rintro rfl
      exact ⟨rfl, value.magnitude_isNearest⟩

/-- **What a text writes.** A text is read as a number exactly if it is a
numeral that rounds to the number. -/
theorem ofText?_eq_some_iff {text : List Char} {x : Binary64} :
    Binary64.ofText? text = some x ↔ ∃ n, Written n text ∧ n.RoundsTo x := by
  simp only [Binary64.ofText?, Option.map_eq_some_iff, read?_eq_some_iff, roundsTo_iff]

end Numeral

end Lookout

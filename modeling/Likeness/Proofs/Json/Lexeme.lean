import Likeness.Proofs.Number.Shortest
import Likeness.Proofs.Text.Digits

/-!
# Likeness.Proofs.Json.Lexeme

Strings and numbers read back from their JSON text (`Json.readString_quote`,
`Json.readNumber_text`). A number has to be followed by something that it does not go on with.
-/

namespace Likeness.Json

open Text (AllDigits NoDigit takeWhile_digits dropWhile_digits)

/-! ### Strings -/

/-- Puts a character in front of what has been read. -/
def cons (c : Char) : List Char × List Char → List Char × List Char := Prod.map (c :: ·) id

/-- A character that stands for itself. -/
theorem readString_plain {c : Char} (hquote : c ≠ '"') (hslash : c ≠ '\\') (h : 32 ≤ c.toNat)
    (cs : List Char) : readString (c :: cs) = (readString cs).map (cons c) := by
  rw [readString, if_neg (Nat.not_lt.mpr h)]
  · cases readString cs <;> rfl
  all_goals simp_all

/-- A one-letter escape. -/
theorem readString_escaped {e c : Char} (h : escaped? e = some c) (hu : e ≠ 'u')
    (cs : List Char) : readString ('\\' :: e :: cs) = (readString cs).map (cons c) := by
  rw [readString, h]
  · cases readString cs <;> rfl
  all_goals simp_all

/-- An escape of four digits. -/
theorem readString_unit {a b c d : Char} {unit : Nat} (h : hexUnit? a b c d = some unit)
    (hunit : unit < 0xd800) (cs : List Char) :
    readString ('\\' :: 'u' :: a :: b :: c :: d :: cs) =
      (readString cs).map (cons (Char.ofNat unit)) := by
  have htrailing : isTrailing unit = false := by simp [isTrailing]; omega
  have hleading : isLeading unit = false := by simp [isLeading]; omega
  rw [readString]
  simp only [h, htrailing, hleading, Bool.false_eq_true, if_false]
  cases readString cs <;> rfl

/-- The digits of a control character. -/
theorem hexUnit?_hexDigits {n : Nat} (h : n < 32) :
    hexUnit? '0' '0' (Nat.digitChar (n / 16)) (Nat.digitChar (n % 16)) = some n := by
  have hall : ∀ n < 32,
      hexUnit? '0' '0' (Nat.digitChar (n / 16)) (Nat.digitChar (n % 16)) = some n := by decide
  exact hall n h

/-- What a character is written as is read as that character. -/
theorem readString_escape (c : Char) (cs : List Char) :
    readString (escape c ++ cs) = (readString cs).map (cons c) := by
  unfold escape
  split
  case h_6 hquote hslash hline hreturn htab =>
    split_ifs with hback hfeed hcontrol
    · obtain rfl : c = '\x08' := Char.toNat_inj.mp hback
      exact readString_escaped rfl (by decide) cs
    · obtain rfl : c = '\x0c' := Char.toNat_inj.mp hfeed
      exact readString_escaped rfl (by decide) cs
    · refine (readString_unit (hexUnit?_hexDigits hcontrol) (by omega) cs).trans ?_
      rw [Char.ofNat_toNat]
    · exact readString_plain hquote hslash (by omega) cs
  all_goals exact readString_escaped rfl (by decide) cs

/-- **A string is read back from its quoted text.** -/
theorem readString_quote (cs rest : List Char) :
    readString (cs.flatMap escape ++ '"' :: rest) = .ok (cs, rest) := by
  induction cs with
  | nil => simp [readString]
  | cons c cs ih =>
      rw [List.flatMap_cons, List.append_assoc, readString_escape, ih]
      rfl

/-! ### Numbers -/

namespace NumberText

/-- The parts are runs of digits, and the whole part has no leading zeros. -/
structure WellFormed (t : NumberText) : Prop where
  whole : AllDigits t.whole
  whole_ne_nil : t.whole ≠ []
  leading : t.whole.head? = some '0' → t.whole.length = 1
  fraction : ∀ ds ∈ t.fraction, AllDigits ds ∧ ds ≠ []
  exponent : ∀ e ∈ t.exponent, AllDigits e.2 ∧ e.2 ≠ []

def fractionChars : Option (List Char) → List Char
  | none => []
  | some ds => '.' :: ds

/-- The exponent always has a sign. -/
def exponentChars : Option (Bool × List Char) → List Char
  | none => []
  | some (negative, ds) => 'e' :: (if negative then '-' else '+') :: ds

/-- The text of a number with these parts, without its sign. -/
def magnitude (t : NumberText) : List Char :=
  t.whole ++ (fractionChars t.fraction ++ exponentChars t.exponent)

/-- The text of a number with these parts. -/
def chars (t : NumberText) : List Char := (if t.negative then ['-'] else []) ++ t.magnitude

end NumberText

/-- A number does not go on with this text. -/
def Ends (rest : List Char) : Prop :=
  ∀ c ∈ rest.head?, c.isDigit = false ∧ c ≠ '.' ∧ c ≠ 'e' ∧ c ≠ 'E'

theorem Ends.noDigit {rest : List Char} (h : Ends rest) : NoDigit rest := fun c hc => (h c hc).1

variable (atEnd : Fault) {rest : List Char}

theorem lexExponent_chars {e : Option (Bool × List Char)}
    (he : ∀ p ∈ e, AllDigits p.2 ∧ p.2 ≠ []) (hrest : Ends rest) :
    lexExponent atEnd (NumberText.exponentChars e ++ rest) = .ok (e, rest) := by
  cases e with
  | none =>
      cases rest with
      | nil => rfl
      | cons c cs =>
          obtain ⟨-, -, he, hE⟩ := hrest c rfl
          simp [NumberText.exponentChars, lexExponent, he, hE]
  | some p =>
      obtain ⟨negative, ds⟩ := p
      obtain ⟨hds, hne⟩ := he _ rfl
      have htake := takeWhile_digits hds hrest.noDigit
      have hdrop := dropWhile_digits hds hrest.noDigit
      cases negative <;>
        simp [NumberText.exponentChars, lexExponent, isDigit_eq, htake, hdrop, hne]

theorem lexFraction_chars {f : Option (List Char)} (hf : ∀ ds ∈ f, AllDigits ds ∧ ds ≠ [])
    {tail : List Char} (htail : NoDigit tail) (hpoint : tail.head? ≠ some '.') :
    lexFraction atEnd (NumberText.fractionChars f ++ tail) = .ok (f, tail) := by
  cases f with
  | none =>
      rw [NumberText.fractionChars, List.nil_append, lexFraction]
      rintro cs rfl
      exact hpoint rfl
  | some ds =>
      obtain ⟨hds, hne⟩ := hf ds rfl
      simp [NumberText.fractionChars, lexFraction, isDigit_eq, takeWhile_digits hds htail,
        dropWhile_digits hds htail, hne]

theorem head?_exponentChars (e : Option (Bool × List Char)) (hrest : Ends rest) {c : Char}
    (hc : (NumberText.exponentChars e ++ rest).head? = some c) : c.isDigit = false ∧ c ≠ '.' := by
  cases e with
  | none => exact ⟨(hrest c hc).1, (hrest c hc).2.1⟩
  | some p =>
      obtain rfl : 'e' = c := Option.some.inj hc
      decide

theorem noDigit_fractionChars {f : Option (List Char)} {tail : List Char} (htail : NoDigit tail) :
    NoDigit (NumberText.fractionChars f ++ tail) := by
  cases f with
  | none => exact htail
  | some ds =>
      intro c hc
      obtain rfl : '.' = c := Option.some.inj hc
      rfl

/-- A whole part does not start with a sign. -/
theorem NumberText.WellFormed.head?_whole {t : NumberText} (h : t.WellFormed) (tail : List Char) :
    (t.whole ++ tail).head? ≠ some '-' := by
  cases hwhole : t.whole with
  | nil => exact absurd hwhole h.whole_ne_nil
  | cons d ds =>
      intro hminus
      obtain rfl : d = '-' := Option.some.inj hminus
      exact absurd (h.whole '-' (by simp [hwhole])) (by decide)

/-- **The parts of a number are found again in its text.** -/
theorem lexNumber_chars {t : NumberText} (h : t.WellFormed) (hrest : Ends rest) :
    lexNumber atEnd (t.chars ++ rest) = .ok (t, rest) := by
  have hpoint : NoDigit (NumberText.exponentChars t.exponent ++ rest) := fun c hc =>
    (head?_exponentChars t.exponent hrest hc).1
  have hexponent := lexExponent_chars atEnd h.exponent hrest
  have hfraction := lexFraction_chars atEnd h.fraction hpoint
    fun hc => (head?_exponentChars t.exponent hrest hc).2 rfl
  have htail := noDigit_fractionChars (f := t.fraction) hpoint
  have hwhole := takeWhile_digits h.whole htail
  have hafter := dropWhile_digits h.whole htail
  have hleading : ¬ (t.whole.head? = some '0' ∧ 1 < t.whole.length) := fun ⟨hzero, hlong⟩ =>
    hlong.ne' (h.leading hzero)
  have hsign := h.head?_whole (NumberText.fractionChars t.fraction ++
    (NumberText.exponentChars t.exponent ++ rest))
  obtain ⟨negative, whole, fraction, exponent⟩ := t
  unfold lexNumber NumberText.chars NumberText.magnitude
  rw [List.append_assoc, List.append_assoc, List.append_assoc]
  generalize whole ++ (NumberText.fractionChars fraction ++
    (NumberText.exponentChars exponent ++ rest)) = cs at *
  split
  next negative' cs' hparts =>
  obtain ⟨rfl, rfl⟩ : negative' = negative ∧ cs' = cs := by
    rw [← Prod.mk.injEq, ← hparts]
    cases negative with
    | true => rfl
    | false => cases cs with
      | nil => rfl
      | cons c cs =>
          have hc : c ≠ '-' := fun hc => hsign (congrArg some hc)
          simp [hc]
  simp only [isDigit_eq, hwhole, hafter, hfraction, if_neg h.whole_ne_nil, if_neg hleading]
  simp only [bind, Except.bind, hexponent]
  rfl

/-! ### Numbers that are written -/

namespace Number

/-- A number that has a text: an integer in range, or a finite real. -/
def Writable : Number → Prop
  | .integer i => inRange i = true
  | .real x => x.isFinite = true

theorem natAbs_le_of_inRange {i : Int} (h : inRange i = true) : i.natAbs ≤ 2 ^ 64 := by
  simp only [inRange, Bool.and_eq_true, decide_eq_true_eq] at h
  omega

end Number

namespace NumberText

/-- Parts that stand for a number and are not those of an integer. -/
structure IsReal (t : NumberText) (x : Binary64) : Prop extends WellFormed t where
  notInteger : t.fraction.isSome = true ∨ t.exponent.isSome = true
  toReal : t.toReal = x

/-- The value of an exponent part. -/
def exponentValue : Option (Bool × List Char) → Int
  | none => 0
  | some (negative, digits) => if negative then -(digitsValue digits : Int) else digitsValue digits

/-- Parts with the digits of the shortest decimal, and some zeros more, stand for the number. -/
theorem toReal_eq {t : NumberText} {x : Binary64} (h : x.isFinite = true) (zeros : Nat)
    (hsign : t.negative = x.isNegative)
    (hdigits : digitsValue (t.whole ++ t.fraction.getD []) = x.shortest.digits * 10 ^ zeros)
    (hexponent : exponentValue t.exponent - (t.fraction.getD []).length =
      x.shortest.exponent - zeros) : t.toReal = x := by
  obtain ⟨negative, whole, fraction, exponent⟩ := t
  have hread := Binary64.ofDecimal_shortest_shift h zeros
  rw [← hexponent, ← hdigits, ← hsign] at hread
  cases exponent <;> exact hread

end NumberText

section

variable {x : Binary64}

theorem length_toString (n : Nat) : (toString n).length = (Nat.toDigits 10 n).length := by
  rw [← String.length_toList]
  exact congrArg List.length Nat.toList_repr

theorem toList_toString (n : Nat) : (toString n).toList = Nat.toDigits 10 n := Nat.toList_repr

/-- Digits around a point stand for the number, if they are those of its shortest decimal with some
zeros more. -/
theorem isReal_point (h : x.isFinite = true) {whole fraction : List Char} (zeros : Nat)
    (hwhole : AllDigits whole) (hleading : whole.head? = some '0' → whole.length = 1)
    (hfraction : AllDigits fraction) (hne : whole ≠ [] ∧ fraction ≠ [])
    (hvalue : digitsValue (whole ++ fraction) = x.shortest.digits * 10 ^ zeros)
    (hplaces : x.shortest.exponent + fraction.length = zeros) :
    NumberText.IsReal ⟨x.isNegative, whole, some fraction, none⟩ x where
  whole := hwhole
  whole_ne_nil := hne.1
  leading := hleading
  fraction := by
    rintro _ ⟨⟩
    exact ⟨hfraction, hne.2⟩
  exponent := by
    rintro _ ⟨⟩
  notInteger := .inl rfl
  toReal := NumberText.toReal_eq h zeros rfl hvalue
    (show (0 : Int) - (fraction.length : Int) = _ by omega)

/-- The positional text of a number has parts that stand for it. -/
theorem exists_positional (h : x.isFinite = true) (hpos : 0 < x.shortest.digits) :
    ∃ t : NumberText, t.IsReal x ∧ t.negative = x.isNegative ∧
      t.magnitude = (Binary64.positional (toString x.shortest.digits)
        ((toString x.shortest.digits).length + x.shortest.exponent)).toList := by
  have hdigits := AllDigits.toDigits x.shortest.digits
  have hvalue := digitsValue_toDigits x.shortest.digits
  have hlead := Text.head?_toDigits_ne hpos
  have hne : Nat.toDigits 10 x.shortest.digits ≠ [] := Nat.toDigits_ne_nil
  have htext := toList_toString x.shortest.digits
  unfold Binary64.positional
  simp only [htext, length_toString]
  generalize toString x.shortest.digits = text at *
  generalize Nat.toDigits 10 x.shortest.digits = ds at *
  split_ifs with hbelow hinside
  · -- All digits stand behind the point.
    refine ⟨_, isReal_point h 0 (.zeros 1) (by simp)
      ((AllDigits.zeros (ds.length + x.shortest.exponent).natAbs).append hdigits) (by simp [hne])
      ?_ ?_, rfl, ?_⟩
    · rw [← List.append_assoc, List.replicate_append_replicate, digitsValue_zeros_append, hvalue,
        Nat.pow_zero, Nat.mul_one]
    · rw [List.length_append, List.length_replicate]
      omega
    · simp [NumberText.magnitude, NumberText.fractionChars, NumberText.exponentChars, htext]
  · -- The point stands between two digits.
    obtain ⟨n, hn⟩ := Int.eq_ofNat_of_zero_le (show 0 ≤ ds.length + x.shortest.exponent by omega)
    rw [hn] at hbelow hinside ⊢
    refine ⟨_, isReal_point h 0 (hdigits.take n) ?_ (hdigits.drop n) ⟨?_, ?_⟩ ?_ ?_, rfl, ?_⟩
    · rw [List.head?_take, if_neg (by omega)]
      exact fun hzero => absurd hzero hlead
    · simp [hne]
      omega
    · rw [ne_eq, List.drop_eq_nil_iff]
      omega
    · rw [List.take_append_drop, hvalue, Nat.pow_zero, Nat.mul_one]
    · rw [List.length_drop]
      omega
    · simp [NumberText.magnitude, NumberText.fractionChars, NumberText.exponentChars]
  · -- The number is whole.
    obtain ⟨n, hn⟩ := Int.eq_ofNat_of_zero_le (show 0 ≤ x.shortest.exponent by omega)
    refine ⟨_, isReal_point h (n + 1) (hdigits.append (.zeros n)) ?_ (.zeros 1) (by simp [hne]) ?_
      ?_, rfl, ?_⟩
    · cases ds with
      | nil => exact absurd rfl hne
      | cons d ds => exact fun hzero => absurd hzero hlead
    · rw [List.append_assoc, List.replicate_append_replicate, digitsValue_append_zeros, hvalue]
    · rw [List.length_replicate]
      omega
    · simp [NumberText.magnitude, NumberText.fractionChars, NumberText.exponentChars, htext, hn]

/-- The scientific text of a number has parts that stand for it. -/
theorem exists_scientific (h : x.isFinite = true) (hpos : 0 < x.shortest.digits) :
    ∃ t : NumberText, t.IsReal x ∧ t.negative = x.isNegative ∧
      t.magnitude = (Binary64.scientific layout (toString x.shortest.digits)
        ((toString x.shortest.digits).length + x.shortest.exponent - 1)).toList := by
  have hdigits := AllDigits.toDigits x.shortest.digits
  have hvalue := digitsValue_toDigits x.shortest.digits
  have hlead := Text.head?_toDigits_ne hpos
  have hne : Nat.toDigits 10 x.shortest.digits ≠ [] := Nat.toDigits_ne_nil
  unfold Binary64.scientific
  simp only [toList_toString, length_toString]
  generalize Nat.toDigits 10 x.shortest.digits = ds at *
  cases ds with
  | nil => exact absurd rfl hne
  | cons d ds =>
      generalize hexponent : ((d :: ds).length + x.shortest.exponent - 1 : Int) = e
      rw [List.length_cons] at hexponent
      have hparts : (if ds = [] then none else some ds).getD [] = ds := by
        split <;> simp_all
      refine ⟨⟨x.isNegative, [d], if ds = [] then none else some ds,
        some (decide (e < 0), Nat.toDigits 10 e.natAbs)⟩, ⟨⟨?_, ?_, ?_, ?_, ?_⟩, ?_, ?_⟩, rfl, ?_⟩
      · exact hdigits.take 1
      · simp
      · simp
      · split
        next => rintro _ ⟨⟩
        next hmore =>
          rintro _ ⟨⟩
          exact ⟨hdigits.drop 1, hmore⟩
      · rintro _ ⟨⟩
        exact ⟨.toDigits _, Nat.toDigits_ne_nil⟩
      · exact .inr rfl
      · refine NumberText.toReal_eq h 0 rfl ?_ ?_
        · rw [hparts, Nat.pow_zero, Nat.mul_one]
          exact hvalue
        · have hsigned : (if decide (e < 0) then -(e.natAbs : Int) else e.natAbs) = e := by
            simp only [decide_eq_true_eq]
            split <;> omega
          rw [hparts, NumberText.exponentValue, digitsValue_toDigits, hsigned]
          omega
      · have hsign : (if e < 0 then "-" else layout.plus).toList = [if e < 0 then '-' else '+'] := by
          split <;> rfl
        cases ds <;>
          simp [NumberText.magnitude, NumberText.fractionChars, NumberText.exponentChars, hsign]

/-- **A finite number is written with parts that stand for it.** -/
theorem exists_isReal (h : x.isFinite = true) :
    ∃ t : NumberText, t.IsReal x ∧ t.chars = (x.write layout).toList := by
  have hnan : x.isNaN = false := by
    simp only [Binary64.isFinite, Binary64.isNaN, decide_eq_true_eq, decide_eq_false_iff_not] at *
    omega
  have hinfinite : x.isInfinite = false := by
    simp only [Binary64.isFinite, Binary64.isInfinite, decide_eq_true_eq, beq_eq_false_iff_ne] at *
    omega
  have hsign : (if x.isNegative then "-" else "").toList = if x.isNegative then ['-'] else [] := by
    split <;> rfl
  have hmagnitude {m : String}
      (hm : ∃ t : NumberText, t.IsReal x ∧ t.negative = x.isNegative ∧ t.magnitude = m.toList) :
      ∃ t : NumberText, t.IsReal x ∧
        t.chars = ((if x.isNegative then "-" else "") ++ m).toList := by
    obtain ⟨t, ht, hnegative, htext⟩ := hm
    exact ⟨t, ht, by rw [NumberText.chars, String.toList_append, hsign, hnegative, htext]⟩
  unfold Binary64.write
  simp only [hnan, hinfinite, Bool.false_eq_true, if_false]
  refine hmagnitude ?_
  split_ifs with hzero hplaces
  · refine ⟨_, isReal_point h 1 (.zeros 1) (by simp) (.zeros 1) (by simp) ?_ ?_, rfl, rfl⟩
    · rw [hzero, Nat.zero_mul]
      rfl
    · rw [Binary64.shortest_of_digits_eq_zero h hzero]
      rfl
  · exact exists_positional h (Nat.pos_of_ne_zero hzero)
  · exact exists_scientific h (Nat.pos_of_ne_zero hzero)

end

theorem wellFormed_toDigits (negative : Bool) (n : Nat) :
    NumberText.WellFormed ⟨negative, Nat.toDigits 10 n, none, none⟩ where
  whole := .toDigits n
  whole_ne_nil := Nat.toDigits_ne_nil
  leading := by
    intro hzero
    rcases Nat.eq_zero_or_pos n with rfl | hpos
    · rfl
    · exact absurd hzero (Text.head?_toDigits_ne hpos)
  fraction := by rintro _ ⟨⟩
  exponent := by rintro _ ⟨⟩

/-- **An integer is written with parts that stand for it.** -/
theorem exists_isInteger {i : Int} (h : Number.inRange i = true) :
    ∃ t : NumberText, t.WellFormed ∧ t.toInteger? = some i ∧ t.chars = (toString i).toList := by
  cases i with
  | ofNat n =>
      refine ⟨_, wellFormed_toDigits false n, ?_, ?_⟩
      · rw [Int.ofNat_eq_natCast] at h ⊢
        simp [NumberText.toInteger?, digitsValue_toDigits, h]
      · simp only [NumberText.chars, NumberText.magnitude, NumberText.fractionChars,
          NumberText.exponentChars, List.append_nil]
        exact Nat.toList_repr.symm
  | negSucc n =>
      refine ⟨_, wellFormed_toDigits true (n + 1), ?_, ?_⟩
      · have hvalue : -((n + 1 : Nat) : Int) = Int.negSucc n := rfl
        unfold NumberText.toInteger?
        simp only [digitsValue_toDigits, if_true, hvalue, h]
        rfl
      · have htext : (toString (Int.negSucc n)).toList = '-' :: (n + 1).repr.toList :=
          String.toList_append
        rw [htext, Nat.toList_repr]
        simp [NumberText.chars, NumberText.magnitude, NumberText.fractionChars,
          NumberText.exponentChars]

/-- **A number is read back from its text.** -/
theorem readNumber_text {n : Number} (h : n.Writable) {rest : List Char} (hrest : Ends rest) :
    readNumber (n.text.toList ++ rest) = .ok (n, rest) := by
  cases n with
  | integer i =>
      obtain ⟨t, ht, hvalue, htext⟩ := exists_isInteger h
      rw [Number.text, ← htext, readNumber, lexNumber_chars _ ht hrest]
      simp only [bind, Except.bind, NumberText.value, hvalue]
      rfl
  | real x =>
      obtain ⟨t, ht, htext⟩ := exists_isReal h
      have hvalue : t.value = .ok (.real x) := by
        have hinteger : t.toInteger? = none := if_pos ht.notInteger
        have hfinite : x.isFinite = true := h
        rw [NumberText.value, hinteger]
        simp [ht.toReal, hfinite]
      rw [Number.text, ← htext, readNumber, lexNumber_chars _ ht.toWellFormed hrest]
      simp only [bind, Except.bind, hvalue]
      rfl

/-- A number starts with a sign or a digit. -/
theorem exists_head_text {n : Number} (h : n.Writable) :
    ∃ c cs, n.text.toList = c :: cs ∧ (c = '-' ∨ c.isDigit = true) := by
  have hchars {t : NumberText} (ht : t.WellFormed) :
      ∃ c cs, t.chars = c :: cs ∧ (c = '-' ∨ c.isDigit = true) := by
    obtain ⟨d, ds, hwhole⟩ := List.exists_cons_of_ne_nil ht.whole_ne_nil
    rw [NumberText.chars, NumberText.magnitude, hwhole]
    cases t.negative with
    | true => exact ⟨'-', _, rfl, .inl rfl⟩
    | false => exact ⟨d, _, rfl, .inr (ht.whole d (by simp [hwhole]))⟩
  cases n with
  | integer i =>
      obtain ⟨t, ht, -, htext⟩ := exists_isInteger h
      exact htext ▸ hchars ht
  | real x =>
      obtain ⟨t, ht, htext⟩ := exists_isReal h
      exact htext ▸ hchars ht.toWellFormed

end Likeness.Json

import Mathlib.Algebra.Ring.Nat
import Likeness.Calendar
import Likeness.Json.Lexeme

/-!
# Likeness.Proofs.Text.Digits

Runs of decimal digits, as readers of text cut them off and writers put them there.
-/

namespace Likeness

theorem Json.isDigit_eq : Json.isDigit = Char.isDigit := rfl

theorem Json.digitsValue_eq (cs : List Char) : Json.digitsValue cs = Nat.ofDigitChars 10 cs 0 := rfl

theorem Moment.isDigit_eq : Moment.isDigit = Char.isDigit := rfl

theorem Moment.digitsValue_eq (cs : List Char) :
    Moment.digitsValue cs = Nat.ofDigitChars 10 cs 0 := rfl

namespace Json

theorem digitsValue_toDigits (n : Nat) : digitsValue (Nat.toDigits 10 n) = n :=
  Nat.ofDigitChars_ten_toDigits

theorem digitsValue_zeros_append (n : Nat) (cs : List Char) :
    digitsValue (List.replicate n '0' ++ cs) = digitsValue cs := by
  rw [digitsValue_eq, Nat.ofDigitChars_append, Nat.ofDigitChars_replicate_zero, Nat.mul_zero]
  rfl

theorem digitsValue_append_zeros (n : Nat) (cs : List Char) :
    digitsValue (cs ++ List.replicate n '0') = digitsValue cs * 10 ^ n := by
  rw [digitsValue_eq, Nat.ofDigitChars_append, Nat.ofDigitChars_replicate_zero, Nat.mul_comm]
  rfl

end Json

namespace Text

def AllDigits (cs : List Char) : Prop := ∀ c ∈ cs, c.isDigit = true

/-- The text does not start with a digit. -/
def NoDigit (rest : List Char) : Prop := ∀ c ∈ rest.head?, c.isDigit = false

variable {ds es rest : List Char}

theorem takeWhile_of_noDigit (h : NoDigit rest) : rest.takeWhile Char.isDigit = [] := by
  cases rest with
  | nil => rfl
  | cons c cs => simp [h c rfl]

theorem dropWhile_of_noDigit (h : NoDigit rest) : rest.dropWhile Char.isDigit = rest := by
  cases rest with
  | nil => rfl
  | cons c cs => simp [h c rfl]

theorem takeWhile_digits (hds : AllDigits ds) (hrest : NoDigit rest) :
    (ds ++ rest).takeWhile Char.isDigit = ds := by
  rw [List.takeWhile_append_of_pos hds, takeWhile_of_noDigit hrest, List.append_nil]

theorem dropWhile_digits (hds : AllDigits ds) (hrest : NoDigit rest) :
    (ds ++ rest).dropWhile Char.isDigit = rest := by
  rw [List.dropWhile_append_of_pos hds, dropWhile_of_noDigit hrest]

namespace AllDigits

theorem append (hds : AllDigits ds) (hes : AllDigits es) : AllDigits (ds ++ es) := fun c hc =>
  (List.mem_append.mp hc).elim (hds c) (hes c)

theorem take (h : AllDigits ds) (n : Nat) : AllDigits (ds.take n) := fun c hc =>
  h c (List.mem_of_mem_take hc)

theorem drop (h : AllDigits ds) (n : Nat) : AllDigits (ds.drop n) := fun c hc =>
  h c (List.mem_of_mem_drop hc)

theorem zeros (n : Nat) : AllDigits (List.replicate n '0') := fun c hc => by
  rw [List.eq_of_mem_replicate hc]
  rfl

theorem toDigits (n : Nat) : AllDigits (Nat.toDigits 10 n) := fun _ hc =>
  Nat.isDigit_of_mem_toDigits (by decide) (by decide) hc

end AllDigits

/-- The codes of the digits. -/
theorem toNat_bounds_of_isDigit {c : Char} (h : c.isDigit = true) : 48 ≤ c.toNat ∧ c.toNat ≤ 57 := by
  simp only [Char.isDigit, Bool.and_eq_true, decide_eq_true_eq] at h
  exact h

/-- A positive number is written without leading zeros. -/
theorem head?_toDigits_ne {n : Nat} (h : 0 < n) : (Nat.toDigits 10 n).head? ≠ some '0' := by
  induction n using Nat.strongRecOn with
  | ind n ih =>
      rw [Nat.toDigits_eq_if (show 1 < 10 by decide)]
      split
      next hsmall =>
        have hall : ∀ n < 10, 0 < n → [n.digitChar].head? ≠ some '0' := by decide
        exact hall n hsmall h
      next hlarge =>
        have hhead := ih (n / 10) (Nat.div_lt_self h (by decide)) (by omega)
        cases hdigits : Nat.toDigits 10 (n / 10) with
        | nil => exact absurd hdigits Nat.toDigits_ne_nil
        | cons c cs => rwa [hdigits] at hhead

end Text

end Likeness

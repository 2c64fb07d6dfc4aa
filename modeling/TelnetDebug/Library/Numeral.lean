import TelnetDebug.Library.Strtol
import Mathlib.Data.Nat.Digits.Lemmas

/-! Printing a number in a base, as `printf` does it with lower-case letters and
zeros in front. Read in the same base, the text has the value of the number. -/
namespace Strtol

def digitChar (d : Nat) : UInt8 := UInt8.ofNat (if d < 10 then 48 + d else 87 + d)

def numeral (base n : Nat) : List UInt8 :=
  if n = 0 then [digitChar 0] else (Nat.digits base n).reverse.map digitChar

/-- The numeral with zeros in front, at least `width` digits long. -/
def zeroFilled (width base n : Nat) : List UInt8 :=
  List.replicate (width - (numeral base n).length) (digitChar 0) ++ numeral base n

theorem digitValue_digitChar {d : Nat} (h : d < 36) : digitValue (digitChar d) = d := by
  have hAll : ∀ d < 36, digitValue (digitChar d) = d := by decide
  exact hAll d h

theorem valueOf_append (base : Nat) (digits : List UInt8) (c : UInt8) :
    valueOf base (digits ++ [c]) = valueOf base digits * base + digitValue c :=
  List.foldl_concat ..

variable {base : Nat}

theorem valueOf_digits {digits : List Nat} (h : ∀ d ∈ digits, d < 36) :
    valueOf base (digits.reverse.map digitChar) = Nat.ofDigits base digits := by
  induction digits with
  | nil => rfl
  | cons d digits ih =>
      rw [List.reverse_cons, List.map_append, List.map_singleton, valueOf_append,
        ih fun e he => h e (List.mem_cons_of_mem d he),
        digitValue_digitChar (h d List.mem_cons_self), Nat.ofDigits_cons]
      ring

theorem valueOf_zeros (count : Nat) (digits : List UInt8) :
    valueOf base (List.replicate count (digitChar 0) ++ digits) = valueOf base digits := by
  induction count with
  | zero => rfl
  | succ count ih =>
      have hZero : 0 * base + digitValue (digitChar 0) = 0 := by
        rw [Nat.zero_mul]
        decide
      rw [List.replicate_succ, List.cons_append, valueOf, List.foldl_cons, hZero]
      exact ih

section Printed
variable (hBase : 1 < base) (hLetters : base ≤ 36) (n : Nat)
include hBase hLetters

theorem valueOf_numeral : valueOf base (numeral base n) = n := by
  unfold numeral
  by_cases hZero : n = 0
  · rw [if_pos hZero, hZero]
    exact valueOf_zeros 1 []
  · rw [if_neg hZero, valueOf_digits fun d hd =>
      Nat.lt_of_lt_of_le (Nat.digits_lt_base hBase hd) hLetters, Nat.ofDigits_digits]

theorem digit_of_mem_numeral {c : UInt8} (hc : c ∈ numeral base n) : digitValue c < base := by
  unfold numeral at hc
  by_cases hZero : n = 0
  · rw [if_pos hZero, List.mem_singleton] at hc
    rw [hc, digitValue_digitChar (by decide)]
    omega
  · rw [if_neg hZero] at hc
    obtain ⟨d, hd, rfl⟩ := List.mem_map.mp hc
    have hDigit := Nat.digits_lt_base hBase (List.mem_reverse.mp hd)
    rwa [digitValue_digitChar (Nat.lt_of_lt_of_le hDigit hLetters)]

theorem valueOf_zeroFilled (width : Nat) : valueOf base (zeroFilled width base n) = n := by
  rw [zeroFilled, valueOf_zeros, valueOf_numeral hBase hLetters]

theorem digit_of_mem_zeroFilled {width : Nat} {c : UInt8} (hc : c ∈ zeroFilled width base n) :
    digitValue c < base := by
  rcases List.mem_append.mp hc with hc | hc
  · rw [List.eq_of_mem_replicate hc, digitValue_digitChar (by decide)]
    omega
  · exact digit_of_mem_numeral hBase hLetters n hc

/-- A printed number that fits is read back. -/
theorem strtoul_zeroFilled (width : Nat) (hFits : n < UInt64.size) :
    strtoul base (zeroFilled width base n) = UInt64.ofNat n := by
  have hValue := valueOf_zeroFilled hBase hLetters n width
  rw [strtoul_digits hLetters (fun c hc => digit_of_mem_zeroFilled hBase hLetters n hc)
    (by rwa [hValue]), hValue]

end Printed

theorem numeral_ne_nil (base n : Nat) : numeral base n ≠ [] := by
  unfold numeral
  by_cases hZero : n = 0
  · rw [if_pos hZero]
    exact List.cons_ne_nil _ _
  · rw [if_neg hZero]
    simpa using Nat.digits_ne_nil_iff_ne_zero.mpr hZero

theorem zeroFilled_ne_nil (width base n : Nat) : zeroFilled width base n ≠ [] := by
  simp [zeroFilled, numeral_ne_nil]

theorem numeral_length_le (hBase : 1 < base) {n digits : Nat} (hDigits : 0 < digits)
    (h : n < base ^ digits) : (numeral base n).length ≤ digits := by
  unfold numeral
  by_cases hZero : n = 0
  · rwa [if_pos hZero, List.length_singleton]
  · rw [if_neg hZero, List.length_map, List.length_reverse]
    exact (Nat.digits_length_le_iff hBase n).mpr h

theorem zeroFilled_length_le (hBase : 1 < base) {width n digits : Nat} (hDigits : 0 < digits)
    (hWidth : width ≤ digits) (h : n < base ^ digits) :
    (zeroFilled width base n).length ≤ digits := by
  have hNumeral := numeral_length_le hBase hDigits h
  rw [zeroFilled, List.length_append, List.length_replicate]
  omega

section OtherBase
variable {low high : Nat}

theorem valueOf_le_append (hBase : 0 < base) (front back : List UInt8) :
    valueOf base front ≤ valueOf base (front ++ back) := by
  induction back using List.reverseRecOn with
  | nil => simp
  | append_singleton back c ih =>
      rw [← List.append_assoc, valueOf_append]
      calc
        valueOf base front ≤ valueOf base (front ++ back) := ih
        _ ≤ valueOf base (front ++ back) * base := Nat.le_mul_of_pos_right _ hBase
        _ ≤ valueOf base (front ++ back) * base + digitValue c := Nat.le_add_right _ _

theorem valueOf_mono (h : low ≤ high) (digits : List UInt8) :
    valueOf low digits ≤ valueOf high digits := by
  induction digits using List.reverseRecOn with
  | nil => exact Nat.le_refl _
  | append_singleton digits c ih =>
      rw [valueOf_append, valueOf_append]
      exact Nat.add_le_add_right (Nat.mul_le_mul ih h) _

/-- Only a single digit, with zeros in front, has one value in two bases. -/
theorem valueOf_lt_of_eq (hLow : 0 < low) (h : low < high) {digits : List UInt8}
    (hDigits : ∀ c ∈ digits, digitValue c < low)
    (hSame : valueOf low digits = valueOf high digits) : valueOf high digits < low := by
  rcases List.eq_nil_or_concat' digits with rfl | ⟨init, c, rfl⟩
  · exact hLow
  · rw [valueOf_append, valueOf_append] at hSame
    have hInit := valueOf_mono (Nat.le_of_lt h) init
    have hZero : valueOf high init = 0 := by
      by_contra hSome
      have hProduct : valueOf low init * low < valueOf high init * high :=
        Nat.lt_of_le_of_lt (Nat.mul_le_mul_right low hInit)
          (Nat.mul_lt_mul_of_pos_left h (Nat.pos_of_ne_zero hSome))
      omega
    rw [valueOf_append, hZero, Nat.zero_mul, Nat.zero_add]
    exact hDigits c (by simp)

theorem numeral_single {n : Nat} (h : n < base) : numeral base n = [digitChar n] := by
  unfold numeral
  by_cases hZero : n = 0
  · rw [if_pos hZero, hZero]
  · rw [if_neg hZero, Nat.digits_of_lt base n hZero h]
    rfl

variable (hLow : 0 < low) (h : low < high) (hLetters : high ≤ 36) (width n : Nat)
include hLow h hLetters

/-- Of a number printed in one base, what is read in a smaller one is no more. -/
theorem read_zeroFilled_le :
    valueOf low ((zeroFilled width high n).takeWhile (isDigitOf low)) ≤ n := by
  have hValue := valueOf_zeroFilled (by omega : 1 < high) hLetters n width
  nth_rewrite 2 [← hValue]
  calc
    valueOf low ((zeroFilled width high n).takeWhile (isDigitOf low)) ≤
        valueOf high ((zeroFilled width high n).takeWhile (isDigitOf low)) :=
      valueOf_mono (Nat.le_of_lt h) _
    _ ≤ valueOf high ((zeroFilled width high n).takeWhile (isDigitOf low) ++
          (zeroFilled width high n).dropWhile (isDigitOf low)) :=
      valueOf_le_append (by omega) _ _
    _ = valueOf high (zeroFilled width high n) := by rw [List.takeWhile_append_dropWhile]

/-- It is the number exactly when that is a digit of the smaller base. -/
theorem read_zeroFilled_iff :
    valueOf low ((zeroFilled width high n).takeWhile (isDigitOf low)) = n ↔ n < low := by
  have hValue := valueOf_zeroFilled (by omega : 1 < high) hLetters n width
  constructor
  · intro hSame
    let front := (zeroFilled width high n).takeWhile (isDigitOf low)
    change valueOf low front = n at hSame
    have hFront : ∀ c ∈ front, digitValue c < low := by
      intro c hc
      have hTaken : isDigitOf low c = true := List.mem_takeWhile_imp hc
      exact of_decide_eq_true hTaken
    have hMono : valueOf low front ≤ valueOf high front := valueOf_mono (Nat.le_of_lt h) front
    have hPrefix : valueOf high front ≤ n := by
      have hAppend := valueOf_le_append (by omega : 0 < high) front
        ((zeroFilled width high n).dropWhile (isDigitOf low))
      rwa [List.takeWhile_append_dropWhile, hValue] at hAppend
    have hEqual : valueOf low front = valueOf high front := Nat.le_antisymm hMono (by omega)
    have hDigit := valueOf_lt_of_eq hLow h hFront hEqual
    omega
  · intro hDigit
    have hNumeral := numeral_single (Nat.lt_trans hDigit h)
    have hAll : ∀ c ∈ zeroFilled width high n, isDigitOf low c = true := by
      intro c hc
      rw [zeroFilled, hNumeral] at hc
      rcases List.mem_append.mp hc with hc | hc
      · rw [List.eq_of_mem_replicate hc, isDigitOf, digitValue_digitChar (by decide)]
        exact decide_eq_true hLow
      · rw [List.mem_singleton.mp hc, isDigitOf, digitValue_digitChar (by omega)]
        exact decide_eq_true hDigit
    rw [List.takeWhile_eq_self_iff.mpr hAll, zeroFilled, valueOf_zeros, hNumeral, valueOf,
      List.foldl_cons, List.foldl_nil, Nat.zero_mul, Nat.zero_add, digitValue_digitChar (by omega)]

/-- The number that `strtol` finds there. -/
theorem strtolBase_zeroFilled (hHex : low ≠ 16) (hFits : (n : Int) ≤ longMax) :
    strtolBase low (zeroFilled width high n) =
      valueOf low ((zeroFilled width high n).takeWhile (isDigitOf low)) := by
  have hDigit {c : UInt8} (hc : c ∈ zeroFilled width high n) : digitValue c < 36 :=
    Nat.lt_of_lt_of_le (digit_of_mem_zeroFilled (by omega) hLetters n hc) hLetters
  have hSign := splitSign_digit fun c hc => hDigit (List.mem_of_mem_head? hc)
  have hRead := read_zeroFilled_le hLow h hLetters width n
  rw [strtolBase, hSign]
  simp only [Bool.false_eq_true, if_false, readDigits, hHex, false_and]
  apply clamp_eq
  constructor
  · exact Int.le_trans (by decide) (Int.natCast_nonneg _)
  · exact Int.le_trans (Int.ofNat_le.mpr hRead) hFits

end OtherBase

end Strtol

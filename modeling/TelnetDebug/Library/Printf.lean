import TelnetDebug.Library.Numeral

/-! Numbers in a text that is printed. A number is read back from the place where
it was printed, whatever follows it, as long as no letter or digit does. -/
namespace Strtol

/-- A signed number in base 10. -/
def decimal (n : Int) : List UInt8 :=
  if n < 0 then 0x2d :: numeral 10 n.natAbs else numeral 10 n.natAbs

/-- A text with blanks behind it, at least `width` long. -/
def leftJustified (width : Nat) (s : List UInt8) : List UInt8 :=
  s ++ List.replicate (width - s.length) 0x20

/-- An address; the null pointer is written in words. -/
def pointer (addr : Nat) : List UInt8 :=
  if addr = 0 then [0x28, 0x6e, 0x69, 0x6c, 0x29] else 0x30 :: 0x78 :: numeral 16 addr

/-- No digit of any base comes first. -/
def Stops (rest : List UInt8) : Prop := ∀ c ∈ rest.head?, 36 ≤ digitValue c

theorem leftJustified_length {width : Nat} {s : List UInt8} (h : s.length ≤ width) :
    (leftJustified width s).length = width := by
  rw [leftJustified, List.length_append, List.length_replicate]
  omega

theorem stops_justified (count : Nat) {c : UInt8} (h : 36 ≤ digitValue c) (rest : List UInt8) :
    Stops (List.replicate count 0x20 ++ c :: rest) := by
  cases count with
  | zero =>
      intro d hd
      rw [← Option.mem_some_iff.mp hd]
      exact h
  | succ count =>
      intro d hd
      rw [← Option.mem_some_iff.mp hd]
      decide

section Reading
variable {base : Nat} {digits rest : List UInt8}

/-- A run of digits is read up to its end. -/
theorem readDigits_append (hBase : base ≤ 36) (hDigits : ∀ c ∈ digits, digitValue c < base)
    (hSome : digits ≠ []) (hStops : Stops rest) :
    readDigits base (digits ++ rest) = valueOf base digits := by
  have hPrefix : ¬ (base = 16 ∧ isHexPrefix (digits ++ rest)) := by
    rintro ⟨rfl, hHex⟩
    have hMark : ∀ c : UInt8, c = 0x78 ∨ c = 0x58 → 16 ≤ digitValue c ∧ digitValue c < 36 := by
      rintro c (rfl | rfl) <;> decide
    rcases digits with _ | ⟨c, _ | ⟨x, digits⟩⟩
    · exact hSome rfl
    · rcases rest with _ | ⟨x, _ | ⟨d, rest⟩⟩
      · cases hHex
      · cases hHex
      · simp only [List.singleton_append, isHexPrefix, decide_eq_true_eq] at hHex
        have hx := hStops x rfl
        have := hMark x hHex.2.1
        omega
    · have hx := hDigits x (by simp)
      cases hRest : digits ++ rest with
      | nil =>
          simp only [List.cons_append, hRest] at hHex
          cases hHex
      | cons d more =>
          simp only [List.cons_append, hRest, isHexPrefix, decide_eq_true_eq] at hHex
          have := hMark x hHex.2.1
          omega
  have hNext : ∀ c ∈ rest.head?, base ≤ digitValue c := fun c hc => hBase.trans (hStops c hc)
  rw [readDigits, if_neg hPrefix, takeWhile_digits hDigits hNext]

end Reading

section Printed
variable {base : Nat} (hBase : 1 < base) (hLetters : base ≤ 36) (n : Nat) {rest : List UInt8}
include hBase hLetters

theorem splitSign_numeral :
    splitSign ((numeral base n ++ rest).dropWhile isSpace) = (false, numeral base n ++ rest) := by
  obtain ⟨c, digits, hNumeral⟩ := List.exists_cons_of_ne_nil (numeral_ne_nil base n)
  apply splitSign_digit
  intro d hd
  rw [hNumeral, List.cons_append] at hd
  rw [← Option.mem_some_iff.mp hd]
  exact Nat.lt_of_lt_of_le (digit_of_mem_numeral hBase hLetters n (hNumeral ▸ List.mem_cons_self))
    hLetters

theorem readDigits_numeral (hStops : Stops rest) : readDigits base (numeral base n ++ rest) = n := by
  have hDigits : ∀ c ∈ numeral base n, digitValue c < base :=
    fun c hc => digit_of_mem_numeral hBase hLetters n hc
  rw [readDigits_append hLetters hDigits (numeral_ne_nil base n) hStops,
    valueOf_numeral hBase hLetters]

/-- An unsigned number is read back. -/
theorem strtoul_numeral (hFits : n < UInt64.size) (hStops : Stops rest) :
    strtoul base (numeral base n ++ rest) = UInt64.ofNat n := by
  rw [strtoul, splitSign_numeral hBase hLetters]
  dsimp only
  rw [readDigits_numeral hBase hLetters n hStops, if_neg (Nat.not_le_of_lt hFits)]
  rfl

end Printed

/-- A signed number in the range of `long` is read back. -/
theorem strtolBase_decimal {n : Int} (hLow : longMin ≤ n) (hHigh : n ≤ longMax)
    {rest : List UInt8} (hStops : Stops rest) : strtolBase 10 (decimal n ++ rest) = n := by
  have hRead := readDigits_numeral (by decide : 1 < 10) (by decide) n.natAbs hStops
  unfold strtolBase decimal
  by_cases hNeg : n < 0
  · have hSign : splitSign ((0x2d :: (numeral 10 n.natAbs ++ rest)).dropWhile isSpace) =
        (true, numeral 10 n.natAbs ++ rest) := rfl
    rw [if_pos hNeg, List.cons_append, hSign]
    simp only [if_true, hRead]
    rw [show -(n.natAbs : Int) = n by omega]
    exact clamp_eq ⟨hLow, hHigh⟩
  · rw [if_neg hNeg, splitSign_numeral (by decide) (by decide)]
    simp only [Bool.false_eq_true, if_false, hRead]
    rw [show (n.natAbs : Int) = n by omega]
    exact clamp_eq ⟨hLow, hHigh⟩

theorem decimal_length_le {n : Int} {digits : Nat} (hDigits : 0 < digits)
    (h : n.natAbs < 10 ^ digits) : (decimal n).length ≤ digits + 1 := by
  have hNumeral := numeral_length_le (by decide : 1 < 10) hDigits h
  unfold decimal
  split
  · exact Nat.succ_le_succ hNumeral
  · omega

/-- A printed character is a digit or a minus. -/
theorem mem_decimal {n : Int} {c : UInt8} (h : c ∈ decimal n) : c = 0x2d ∨ digitValue c < 10 := by
  unfold decimal at h
  split at h
  · rcases List.mem_cons.mp h with rfl | h
    · exact .inl rfl
    · exact .inr (digit_of_mem_numeral (by decide) (by decide) _ h)
  · exact .inr (digit_of_mem_numeral (by decide) (by decide) _ h)

end Strtol

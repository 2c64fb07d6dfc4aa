import Mathlib.Algebra.Group.Int.Defs
import Mathlib.Data.List.TakeWhile

/-! Reading an integer constant as `strtol` does with base 0: white space, a
sign, a prefix that chooses the base, and the longest run of digits. Values
outside the range of a 64-bit `long` are replaced by its bounds. -/
namespace Strtol

def longMin : Int := -2 ^ 63
def longMax : Int := 2 ^ 63 - 1

def isSpace (c : UInt8) : Bool := c = 32 ∨ 9 ≤ c.toNat ∧ c.toNat ≤ 13

/-- The value of a digit or letter; other characters are digits of no base. -/
def digitValue (c : UInt8) : Nat :=
  if 48 ≤ c.toNat ∧ c.toNat ≤ 57 then c.toNat - 48
  else if 97 ≤ c.toNat ∧ c.toNat ≤ 122 then c.toNat - 87
  else if 65 ≤ c.toNat ∧ c.toNat ≤ 90 then c.toNat - 55
  else 36

def isDigitOf (base : Nat) (c : UInt8) : Bool := digitValue c < base

/-- The number that a run of digits stands for, the first digit the highest. -/
def valueOf (base : Nat) (digits : List UInt8) : Nat :=
  digits.foldl (fun value c => value * base + digitValue c) 0

def splitSign : List UInt8 → Bool × List UInt8
  | [] => (false, [])
  | c :: s => if c = 0x2d then (true, s) else if c = 0x2b then (false, s) else (false, c :: s)

/-- `0x` counts as a prefix only in front of a hexadecimal digit. -/
def isHexPrefix : List UInt8 → Bool
  | c :: x :: d :: _ => c = 0x30 ∧ (x = 0x78 ∨ x = 0x58) ∧ isDigitOf 16 d
  | _ => false

def splitBase (s : List UInt8) : Nat × List UInt8 :=
  if isHexPrefix s then (16, s.drop 2) else if s.head? = some 0x30 then (8, s) else (10, s)

def clamp (value : Int) : Int :=
  if value < longMin then longMin else if longMax < value then longMax else value

def strtol (s : List UInt8) : Int :=
  let (neg, s) := splitSign (s.dropWhile isSpace)
  let (base, s) := splitBase s
  let value := valueOf base (s.takeWhile (isDigitOf base))
  clamp (if neg then -(value : Int) else value)

/-- The number that `strtol` reads, before it is brought into the range of `long`. -/
def number (s : List UInt8) : Int :=
  let (neg, s) := splitSign (s.dropWhile isSpace)
  let (base, s) := splitBase s
  let value := valueOf base (s.takeWhile (isDigitOf base))
  if neg then -(value : Int) else value

/-- What `strtol` leaves behind the number, the whole text where it finds no
digit: its second argument is set to the beginning of it. -/
def unread (s : List UInt8) : List UInt8 :=
  let (base, digits) := splitBase (splitSign (s.dropWhile isSpace)).2
  if digits.takeWhile (isDigitOf base) = [] then s else digits.dropWhile (isDigitOf base)

theorem strtol_eq_clamp (s : List UInt8) : strtol s = clamp (number s) := rfl

/-- The number at the front of a text in a base that is given. -/
def readDigits (base : Nat) (s : List UInt8) : Nat :=
  valueOf base ((if base = 16 ∧ isHexPrefix s then s.drop 2 else s).takeWhile (isDigitOf base))

/-- `strtol` in a base other than 0. -/
def strtolBase (base : Nat) (s : List UInt8) : Int :=
  let (neg, s) := splitSign (s.dropWhile isSpace)
  let value := readDigits base s
  clamp (if neg then -(value : Int) else value)

/-- `strtoul` in a base other than 0; the value of a negative number is taken
modulo the size of `unsigned long`. -/
def strtoul (base : Nat) (s : List UInt8) : UInt64 :=
  let (neg, s) := splitSign (s.dropWhile isSpace)
  let value := readDigits base s
  if UInt64.size ≤ value then -1 else if neg then -UInt64.ofNat value else UInt64.ofNat value

inductive Radix where
  | decimal
  | octal
  | hex (upper : Bool)
deriving DecidableEq

namespace Radix

def base : Radix → Nat
  | decimal => 10
  | octal => 8
  | hex _ => 16

def lead : Radix → List UInt8
  | decimal => []
  | octal => [0x30]
  | hex upper => [0x30, if upper then 0x58 else 0x78]

/-- The digits that may follow the prefix: a decimal constant has some and does
not begin with a zero, an octal one may have none. -/
def Admits : Radix → List UInt8 → Prop
  | decimal, digits => ∃ c rest, digits = c :: rest ∧ c ≠ 0x30
  | octal, _ => True
  | hex _, digits => digits ≠ []

end Radix

/-- An integer constant in the range of `long`, as it is written. -/
structure Literal where
  neg : Bool
  radix : Radix
  digits : List UInt8
  isDigits : ∀ c ∈ digits, digitValue c < radix.base
  admits : radix.Admits digits
  range :
    longMin ≤ (if neg then -(valueOf radix.base digits : Int) else valueOf radix.base digits) ∧
    (if neg then -(valueOf radix.base digits : Int) else valueOf radix.base digits) ≤ longMax

namespace Literal

def value (l : Literal) : Int :=
  if l.neg then -(valueOf l.radix.base l.digits : Int) else valueOf l.radix.base l.digits

def body (l : Literal) : List UInt8 := l.radix.lead ++ l.digits

def text (l : Literal) : List UInt8 := (if l.neg then [0x2d] else []) ++ l.body

end Literal

theorem digitValue_lt_ten {c : UInt8} : digitValue c < 10 ↔ 48 ≤ c.toNat ∧ c.toNat ≤ 57 := by
  unfold digitValue
  split_ifs <;> omega

/-- The digits are read up to the first character that is a digit of no base. -/
theorem takeWhile_digits {base : Nat} {digits rest : List UInt8}
    (hDigits : ∀ c ∈ digits, digitValue c < base)
    (hRest : ∀ c ∈ rest.head?, base ≤ digitValue c) :
    (digits ++ rest).takeWhile (isDigitOf base) = digits := by
  have hAll : ∀ c ∈ digits, isDigitOf base c = true := fun c hc => decide_eq_true (hDigits c hc)
  rw [List.takeWhile_append_of_pos hAll]
  cases rest with
  | nil => simp
  | cons c rest =>
      have hc : ¬ digitValue c < base := Nat.not_lt_of_le (hRest c rfl)
      simp [isDigitOf, hc]

theorem clamp_eq {value : Int} (h : longMin ≤ value ∧ value ≤ longMax) : clamp value = value := by
  unfold clamp
  rw [if_neg (Int.not_lt.mpr h.1), if_neg (Int.not_lt.mpr h.2)]

/-- A text that begins with a letter or a digit has no white space and no sign
in front. -/
theorem splitSign_digit {s : List UInt8} (h : ∀ c ∈ s.head?, digitValue c < 36) :
    splitSign (s.dropWhile isSpace) = (false, s) := by
  cases s with
  | nil => rfl
  | cons c s =>
      have hc : digitValue c < 36 := h c rfl
      have hDash : c ≠ 0x2d := by
        rintro rfl
        exact absurd hc (by decide)
      have hPlus : c ≠ 0x2b := by
        rintro rfl
        exact absurd hc (by decide)
      have hSpace : isSpace c = false := by
        have h32 : c ≠ 32 := by
          rintro rfl
          exact absurd hc (by decide)
        simp only [isSpace, h32, false_or, decide_eq_false_iff_not]
        unfold digitValue at hc
        split_ifs at hc <;> omega
      rw [List.dropWhile_cons_of_neg (by simp [hSpace]), splitSign, if_neg hDash, if_neg hPlus]

theorem readDigits_digits {base : Nat} {digits : List UInt8}
    (hDigits : ∀ c ∈ digits, digitValue c < base) :
    readDigits base digits = valueOf base digits := by
  have hPrefix : ¬ (base = 16 ∧ isHexPrefix digits) := by
    rintro ⟨rfl, hHex⟩
    rcases digits with _ | ⟨c, _ | ⟨x, _ | ⟨d, rest⟩⟩⟩
    · cases hHex
    · cases hHex
    · cases hHex
    · have hx : digitValue x < 16 := hDigits x (by simp)
      have hMark : x = 0x78 ∨ x = 0x58 := by
        simp only [isHexPrefix, decide_eq_true_eq] at hHex
        exact hHex.2.1
      rcases hMark with rfl | rfl <;> exact absurd hx (by decide)
  have hTake : (digits ++ []).takeWhile (isDigitOf base) = digits :=
    takeWhile_digits hDigits (by simp)
  rw [List.append_nil] at hTake
  rw [readDigits, if_neg hPrefix, hTake]

/-- A run of digits whose value fits is read as its value. -/
theorem strtoul_digits {base : Nat} (hBase : base ≤ 36) {digits : List UInt8}
    (hDigits : ∀ c ∈ digits, digitValue c < base) (hFits : valueOf base digits < UInt64.size) :
    strtoul base digits = UInt64.ofNat (valueOf base digits) := by
  have hSign := splitSign_digit fun c hc =>
    Nat.lt_of_lt_of_le (hDigits c (List.mem_of_mem_head? hc)) hBase
  rw [strtoul, hSign]
  dsimp only
  rw [readDigits_digits hDigits, if_neg (Nat.not_le_of_lt hFits)]
  rfl

section Reading
variable {l : Literal}

/-- A constant without its sign begins with a decimal digit. -/
theorem Literal.body_head (l : Literal) : ∃ c rest, l.body = c :: rest ∧ digitValue c < 10 := by
  obtain ⟨neg, radix, digits, hDigits, hAdmits, hRange⟩ := l
  cases radix with
  | decimal =>
      obtain ⟨c, rest, rfl, -⟩ := hAdmits
      exact ⟨c, rest, rfl, hDigits c List.mem_cons_self⟩
  | octal => exact ⟨0x30, digits, rfl, by decide⟩
  | hex upper => exact ⟨0x30, _, rfl, by decide⟩

/-- The base is recognised, and the digits that are read have the value of the
constant. -/
theorem Literal.splitBase_body {rest : List UInt8} (hRest : ∀ c ∈ rest.head?, 36 ≤ digitValue c) :
    ∃ digits, splitBase (l.body ++ rest) = (l.radix.base, digits ++ rest) ∧
      (∀ c ∈ digits, digitValue c < l.radix.base) ∧ digits ≠ [] ∧
      valueOf l.radix.base digits = valueOf l.radix.base l.digits := by
  obtain ⟨neg, radix, digits, hDigits, hAdmits, hRange⟩ := l
  cases radix with
  | decimal =>
      obtain ⟨c, tail, rfl, hc⟩ := hAdmits
      have hPrefix : isHexPrefix (c :: (tail ++ rest)) = false := by
        rcases hTail : tail ++ rest with _ | ⟨x, _ | ⟨d, s⟩⟩ <;> simp [isHexPrefix, hc]
      refine ⟨c :: tail, ?_, hDigits, List.cons_ne_nil _ _, rfl⟩
      change splitBase (c :: (tail ++ rest)) = (10, c :: (tail ++ rest))
      simp [splitBase, hPrefix, hc]
  | octal =>
      have hNext : ∀ x ∈ (digits ++ rest).head?, x ≠ 0x78 ∧ x ≠ 0x58 := by
        intro x hx
        have hValue : digitValue x < 8 ∨ 36 ≤ digitValue x := by
          cases digits with
          | nil => exact .inr (hRest x hx)
          | cons d digits =>
              rw [List.cons_append, List.head?_cons] at hx
              exact .inl (hDigits x (by simp [Option.mem_some_iff.mp hx]))
        constructor <;> rintro rfl <;> exact absurd hValue (by decide)
      have hPrefix : isHexPrefix (0x30 :: (digits ++ rest)) = false := by
        rcases hTail : digits ++ rest with _ | ⟨x, _ | ⟨d, s⟩⟩
        · rfl
        · rfl
        · have hx := hNext x (by rw [hTail]; rfl)
          simp [isHexPrefix, hx]
      refine ⟨0x30 :: digits, ?_, ?_, List.cons_ne_nil _ _, rfl⟩
      · change splitBase (0x30 :: (digits ++ rest)) = (8, 0x30 :: (digits ++ rest))
        simp [splitBase, hPrefix]
      · intro c hc
        rcases List.mem_cons.mp hc with rfl | hc
        · exact (by decide : digitValue 0x30 < 8)
        · exact hDigits c hc
  | hex upper =>
      cases digits with
      | nil => exact absurd rfl hAdmits
      | cons d digits =>
          have hd : digitValue d < 16 := hDigits d List.mem_cons_self
          refine ⟨d :: digits, ?_, hDigits, List.cons_ne_nil _ _, rfl⟩
          change splitBase (0x30 :: (if upper then 0x58 else 0x78) :: d :: (digits ++ rest)) =
            (16, d :: (digits ++ rest))
          cases upper <;> simp [splitBase, isHexPrefix, isDigitOf, hd]

theorem Literal.splitSign_text (l : Literal) (rest : List UInt8) :
    splitSign ((l.text ++ rest).dropWhile isSpace) = (l.neg, l.body ++ rest) := by
  obtain ⟨c, tail, hBody, hc⟩ := l.body_head
  unfold Literal.text
  cases l.neg with
  | true =>
      have hFirst : isSpace 0x2d = false := by decide
      simp [hFirst, splitSign]
  | false =>
      apply splitSign_digit
      intro d hd
      rw [hBody] at hd
      obtain rfl : c = d := Option.some.inj hd
      exact Nat.lt_trans hc (by decide)

/-- What is read of a constant, and what is left behind it. -/
theorem Literal.read_text (l : Literal) {rest : List UInt8}
    (hRest : ∀ c ∈ rest.head?, 36 ≤ digitValue c) :
    number (l.text ++ rest) = l.value ∧ unread (l.text ++ rest) = rest := by
  obtain ⟨digits, hBase, hDigits, hSome, hValue⟩ := Literal.splitBase_body (l := l) hRest
  have hBound : l.radix.base ≤ 36 := by cases l.radix <;> simp [Radix.base]
  have hTake := takeWhile_digits hDigits fun c hc => Nat.le_trans hBound (hRest c hc)
  have hDrop : (digits ++ rest).dropWhile (isDigitOf l.radix.base) = rest := by
    have hParts :=
      List.takeWhile_append_dropWhile (p := isDigitOf l.radix.base) (l := digits ++ rest)
    rw [hTake] at hParts
    exact List.append_cancel_left hParts
  constructor
  · unfold number
    rw [l.splitSign_text]
    dsimp only
    rw [hBase]
    dsimp only
    rw [hTake, hValue]
    rfl
  · unfold unread
    rw [l.splitSign_text]
    dsimp only
    rw [hBase]
    dsimp only
    rw [hTake, if_neg hSome, hDrop]

/-- Every constant is read as its value, whatever follows it that is no letter
and no digit. -/
theorem strtol_literal (l : Literal) {rest : List UInt8}
    (hRest : ∀ c ∈ rest.head?, 36 ≤ digitValue c) : strtol (l.text ++ rest) = l.value := by
  rw [strtol_eq_clamp, (l.read_text hRest).1]
  exact clamp_eq l.range

/-- A run of digits behind a prefix of its base is the body of a constant. -/
theorem exists_literal_body {body : List UInt8} (neg : Bool) (hSome : (splitBase body).2 ≠ [])
    (hDigits : ∀ c ∈ (splitBase body).2, digitValue c < (splitBase body).1)
    (hRange : longMin ≤ (if neg then -(valueOf (splitBase body).1 (splitBase body).2 : Int)
        else valueOf (splitBase body).1 (splitBase body).2) ∧
      (if neg then -(valueOf (splitBase body).1 (splitBase body).2 : Int)
        else valueOf (splitBase body).1 (splitBase body).2) ≤ longMax) :
    ∃ l : Literal, l.neg = neg ∧ l.body = body := by
  by_cases hHex : isHexPrefix body = true
  · have hBase : splitBase body = (16, body.drop 2) := if_pos hHex
    rw [hBase] at hSome hDigits hRange
    obtain ⟨x, digits, rfl, hMark⟩ : ∃ x digits, body = 0x30 :: x :: digits ∧
        (x = 0x78 ∨ x = 0x58) := by
      rcases body with _ | ⟨c, _ | ⟨x, _ | ⟨d, rest⟩⟩⟩ <;> simp [isHexPrefix] at hHex
      exact ⟨x, d :: rest, by rw [hHex.1], hHex.2.1⟩
    rcases hMark with rfl | rfl
    · exact ⟨⟨neg, .hex false, digits, hDigits, hSome, hRange⟩, rfl, rfl⟩
    · exact ⟨⟨neg, .hex true, digits, hDigits, hSome, hRange⟩, rfl, rfl⟩
  · by_cases hZero : body.head? = some 0x30
    · have hBase : splitBase body = (8, body) := by rw [splitBase, if_neg hHex, if_pos hZero]
      rw [hBase] at hDigits hRange
      obtain ⟨digits, rfl⟩ : ∃ digits, body = 0x30 :: digits := List.head?_eq_some_iff.mp hZero
      exact ⟨⟨neg, .octal, digits, fun c hc => hDigits c (List.mem_cons_of_mem _ hc), trivial,
        hRange⟩, rfl, rfl⟩
    · have hBase : splitBase body = (10, body) := by rw [splitBase, if_neg hHex, if_neg hZero]
      rw [hBase] at hSome hDigits hRange
      obtain ⟨c, rest, rfl⟩ := List.exists_cons_of_ne_nil hSome
      have hFirst : c ≠ 0x30 := by
        rintro rfl
        exact hZero rfl
      exact ⟨⟨neg, .decimal, c :: rest, hDigits, ⟨c, rest, rfl, hFirst⟩, hRange⟩, rfl, rfl⟩

/-- A text that begins with a digit or a minus sign is a constant exactly when
`strtol` reads it to its end and need not change the number it has read. -/
theorem exists_literal_iff {c : UInt8} {s : List UInt8} (hFirst : digitValue c < 10 ∨ c = 0x2d) :
    (∃ l : Literal, c :: s = l.text) ↔
      unread (c :: s) = [] ∧ longMin ≤ number (c :: s) ∧ number (c :: s) ≤ longMax := by
  constructor
  · rintro ⟨l, hText⟩
    have hNothing : ∀ c ∈ ([] : List UInt8).head?, 36 ≤ digitValue c := by simp
    obtain ⟨hNumber, hUnread⟩ := l.read_text hNothing
    rw [List.append_nil, ← hText] at hNumber hUnread
    exact ⟨hUnread, hNumber ▸ l.range⟩
  · rintro ⟨hUnread, hRange⟩
    obtain ⟨neg, body, hSign, hText⟩ : ∃ neg body,
        splitSign ((c :: s).dropWhile isSpace) = (neg, body) ∧
          c :: s = (if neg then [0x2d] else []) ++ body := by
      rcases hFirst with hDigit | rfl
      · refine ⟨false, c :: s, splitSign_digit fun d hd => ?_, rfl⟩
        obtain rfl : c = d := Option.some.inj hd
        exact Nat.lt_trans hDigit (by decide)
      · have hDash : isSpace 0x2d = false := by decide
        exact ⟨true, s, by simp [hDash, splitSign], rfl⟩
    simp only [unread, hSign] at hUnread
    split at hUnread
    · cases hUnread
    · rename_i hSome
      have hAll := List.dropWhile_eq_nil_iff.mp hUnread
      have hTake := List.takeWhile_eq_self_iff.mpr hAll
      rw [hTake] at hSome
      simp only [number, hSign, hTake] at hRange
      obtain ⟨l, rfl, rfl⟩ := exists_literal_body neg hSome
        (fun c hc => of_decide_eq_true (hAll c hc)) hRange
      exact ⟨l, hText⟩

/-- The characters of a constant are letters, digits and the sign. -/
theorem Literal.mem_text {c : UInt8} (h : c ∈ l.text) : c = 0x2d ∨ digitValue c < 36 := by
  unfold Literal.text Literal.body at h
  rcases List.mem_append.mp h with h | h
  · cases hNeg : l.neg with
    | true => exact .inl (by simpa [hNeg] using h)
    | false => simp [hNeg] at h
  · right
    rcases List.mem_append.mp h with h | h
    · cases hRadix : l.radix with
      | decimal => simp [hRadix, Radix.lead] at h
      | octal =>
          have hc : c = 0x30 := by simpa [hRadix, Radix.lead] using h
          rw [hc]
          decide
      | hex upper =>
          rw [hRadix] at h
          rcases List.mem_cons.mp h with rfl | h
          · decide
          · rw [List.mem_singleton.mp h]
            cases upper <;> decide
    · have hBound : l.radix.base ≤ 36 := by cases l.radix <;> simp [Radix.base]
      exact Nat.lt_of_lt_of_le (l.isDigits c h) hBound

end Reading

end Strtol

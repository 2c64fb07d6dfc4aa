import TelnetDebug.Library.Numeral
import TelnetDebug.Symbols.Maps

/-! The fields of a maps line. The parser cuts them off one after the other, each
at the character behind it, and the name is what is left of the line. -/
namespace TelnetDebug

open CBuffer Strtok Strtol Guarded

/-- What the kernel prints of a mapping in front of its name. -/
structure MapsFields where
  width : Nat
  start : UInt64
  stop : UInt64
  readable : Bool
  writable : Bool
  executable : Bool
  shared : Bool
  offset : UInt64
  major : UInt32
  minor : UInt32
  inode : UInt64

namespace MapsFields

def permissions (f : MapsFields) : List UInt8 :=
  [if f.readable then 0x72 else 0x2d, if f.writable then 0x77 else 0x2d,
    if f.executable then 0x78 else 0x2d, if f.shared then 0x73 else 0x70]

/-- Addresses, at least `width` digits long, offset and device in hexadecimal, and
the inode in decimal. -/
def front (f : MapsFields) : List UInt8 :=
  zeroFilled f.width 16 f.start.toNat ++ 0x2d :: (zeroFilled f.width 16 f.stop.toNat ++ 0x20 ::
    (f.permissions ++ 0x20 :: (zeroFilled 8 16 f.offset.toNat ++ 0x20 ::
      (zeroFilled 2 16 f.major.toNat ++ 0x3a :: (zeroFilled 2 16 f.minor.toNat ++ 0x20 ::
        (numeral 10 f.inode.toNat ++ [0x20]))))))

/-- The line with its newline. -/
def text (f : MapsFields) (column : List UInt8) : List UInt8 := f.front ++ column ++ [0x0a]

/-- The record of a line. The device numbers are read in decimal, and the size
of the name is kept where there is no slash. -/
def record (f : MapsFields) (size : Option Nat) (name : List UInt8) (map : LdMaps) : LdMaps where
  addrStart := f.start
  addrEnd := f.stop
  permission := permissionOf f.permissions
  offset := f.offset.toInt64
  deviceMajor := deviceOf (zeroFilled 2 16 f.major.toNat)
  deviceMinor := deviceOf (zeroFilled 2 16 f.minor.toNat)
  inode := strtoul 10 (numeral 10 f.inode.toNat)
  pathname := name
  pathnameSz := (size.map UInt64.ofNat).getD map.pathnameSz
  filetype := map.filetype

end MapsFields

section Tokens

/-- A number is a token: it ends in front of the first character that is no digit. -/
theorem strtok_digits {digits : List UInt8} {delim : UInt8} (hSome : digits ≠ [])
    (hDigits : ∀ c ∈ digits, digitValue c < 16) (hDelim : 16 ≤ digitValue delim)
    (rest : List UInt8) : strtok [delim] (digits ++ delim :: rest) = (some digits, rest) := by
  apply strtok_token hSome _ (List.mem_singleton_self delim)
  intro c hc hMem
  rw [List.mem_singleton.mp hMem] at hc
  exact absurd (hDigits delim hc) (Nat.not_lt_of_le hDelim)

theorem strtok_hex {delim : UInt8} (hDelim : 16 ≤ digitValue delim) (width n : Nat)
    (rest : List UInt8) :
    strtok [delim] (zeroFilled width 16 n ++ delim :: rest) =
      (some (zeroFilled width 16 n), rest) := by
  apply strtok_digits (zeroFilled_ne_nil width 16 n) _ hDelim
  intro c hc
  exact digit_of_mem_zeroFilled (by decide) (by decide) n hc

theorem strtok_decimal {delim : UInt8} (hDelim : 16 ≤ digitValue delim) (n : Nat)
    (rest : List UInt8) :
    strtok [delim] (numeral 10 n ++ delim :: rest) = (some (numeral 10 n), rest) := by
  apply strtok_digits (numeral_ne_nil 10 n) _ hDelim
  intro c hc
  exact Nat.lt_trans (digit_of_mem_numeral (by decide) (by decide) n hc) (by decide)

theorem strtok_permissions (f : MapsFields) (rest : List UInt8) :
    strtok [0x20] (f.permissions ++ 0x20 :: rest) = (some f.permissions, rest) := by
  apply strtok_token (List.cons_ne_nil _ _) _ (List.mem_singleton_self 0x20)
  intro c hc hMem
  obtain rfl := List.mem_singleton.mp hMem
  simp only [List.mem_cons, List.not_mem_nil, or_false] at hc
  rcases hc with hc | hc | hc | hc <;> split at hc <;> exact absurd hc (by decide)

theorem strtoul_hex (width : Nat) (n : UInt64) : strtoul 16 (zeroFilled width 16 n.toNat) = n := by
  rw [strtoul_zeroFilled (by decide) (by decide) n.toNat width n.toNat_lt_size, UInt64.ofNat_toNat]

/-- Every field is a token of its own, and the rest of the line is left for the
name. -/
theorem ldMapsParse_fields (f : MapsFields) (column : List UInt8) (map : LdMaps) :
    ldMapsParse (f.text column) map =
      nameOf (strtok [0x0a] (column ++ [0x0a])).1 >>= fun r => .ok (f.record r.1 r.2 map) := by
  have hDash := strtok_hex (by decide : 16 ≤ digitValue 0x2d)
  have hSpace := strtok_hex (by decide : 16 ≤ digitValue 0x20)
  have hColon := strtok_hex (by decide : 16 ≤ digitValue 0x3a)
  have hInode := strtok_decimal (by decide : 16 ≤ digitValue 0x20)
  have hText : f.text column = zeroFilled f.width 16 f.start.toNat ++ 0x2d ::
      (zeroFilled f.width 16 f.stop.toNat ++ 0x20 :: (f.permissions ++ 0x20 ::
        (zeroFilled 8 16 f.offset.toNat ++ 0x20 :: (zeroFilled 2 16 f.major.toNat ++ 0x3a ::
          (zeroFilled 2 16 f.minor.toNat ++ 0x20 :: (numeral 10 f.inode.toNat ++ 0x20 ::
            (column ++ [0x0a]))))))) := by
    simp only [MapsFields.text, MapsFields.front, List.append_assoc, List.cons_append,
      List.nil_append]
  rw [hText, ldMapsParse]
  simp only [hDash, hSpace, hColon, hInode, strtok_permissions, needToken, ok_bind, strtoul_hex]
  rfl

theorem MapsFields.mem_front {f : MapsFields} {c : UInt8} (h : c ∈ f.front) :
    c ≠ 0 ∧ c ≠ 0x0a := by
  have hDigit {base : Nat} (hLetters : base ≤ 36) (hc : digitValue c < base) :
      c ≠ 0 ∧ c ≠ 0x0a := by
    have h36 := Nat.lt_of_lt_of_le hc hLetters
    constructor <;> rintro rfl <;> exact absurd h36 (by decide)
  have hHex {width n : Nat} (hc : c ∈ zeroFilled width 16 n) : c ≠ 0 ∧ c ≠ 0x0a :=
    hDigit (by decide) (digit_of_mem_zeroFilled (by decide) (by decide) n hc)
  have hDecimal {n : Nat} (hc : c ∈ numeral 10 n) : c ≠ 0 ∧ c ≠ 0x0a :=
    hDigit (by decide) (digit_of_mem_numeral (by decide) (by decide) n hc)
  have hLetter (hc : c ∈ f.permissions) : c ≠ 0 ∧ c ≠ 0x0a := by
    rw [MapsFields.permissions] at hc
    simp only [List.mem_cons, List.not_mem_nil, or_false] at hc
    rcases hc with rfl | rfl | rfl | rfl <;> split <;> decide
  simp only [front, List.mem_append, List.mem_cons, List.not_mem_nil, or_false] at h
  rcases h with h | rfl | h | rfl | h | rfl | h | rfl | h | rfl | h | rfl | h | rfl
  · exact hHex h
  · decide
  · exact hHex h
  · decide
  · exact hLetter h
  · decide
  · exact hHex h
  · decide
  · exact hHex h
  · decide
  · exact hHex h
  · decide
  · exact hDecimal h
  · decide

end Tokens

section Names
variable {front back : List UInt8} {c : UInt8} {pathname : Buffer UInt8 pathnameLen}

theorem storeFrom_found (pathname : Buffer UInt8 pathnameLen) (hFront : c ∉ front)
    (hFits : (c :: back).length ≤ pathnameLen) :
    ∃ pathname', storeFrom c (front ++ c :: back) pathname =
        .ok (some (c :: back).length, pathname') ∧
      pathname'.cells = c :: back ++ pathname.cells.drop (c :: back).length := by
  obtain ⟨pathname', hCopy, hCells⟩ := pathname.copy_spec hFits
  refine ⟨pathname', ?_, hCells⟩
  rw [storeFrom, idxOf?_first hFront]
  simp only [List.drop_left, hCopy]
  rfl

/-- A part that is longer than the array is written past its end. -/
theorem storeFrom_long (pathname : Buffer UInt8 pathnameLen) (hFront : c ∉ front)
    (hLong : pathnameLen < (c :: back).length) :
    storeFrom c (front ++ c :: back) pathname = .error (.write pathnameLen) := by
  rw [storeFrom, idxOf?_first hFront]
  simp only [List.drop_left]
  rw [Buffer.copy, dif_neg (Nat.not_le_of_lt hLong)]
  rfl

theorem storeFrom_none {token : List UInt8} (h : c ∉ token) :
    storeFrom c token pathname = .ok (none, pathname) := by
  rw [storeFrom, List.idxOf?_eq_none_iff.mpr h]
  rfl

/-- The name that `strcpy` reads out of an array that was zero before. -/
theorem str_name {name : List UInt8} (hNul : 0 ∉ name) (hShort : name.length < pathnameLen)
    (hCells : pathname.cells = name ++ List.replicate (pathnameLen - name.length) 0) :
    pathname.str = .ok name := by
  obtain ⟨count, hCount⟩ : ∃ count, pathnameLen - name.length = count + 1 :=
    ⟨pathnameLen - name.length - 1, by omega⟩
  have hSplit : pathname.cells = name ++ 0 :: List.replicate count 0 := by
    rw [hCells, hCount, List.replicate_succ]
  rw [Buffer.str_eq (by rw [hSplit]; exact terminated_append_zero _ _), hSplit,
    text_append_zero hNul]

theorem const_drop (count : Nat) : (Buffer.const pathnameLen (0 : UInt8)).cells.drop count =
    List.replicate (pathnameLen - count) 0 := List.drop_replicate

theorem notMem_spaces {c : UInt8} (hc : c ≠ 0x20) (pad : Nat) : c ∉ List.replicate pad 0x20 :=
  fun h => hc (List.eq_of_mem_replicate h)

theorem nameOf_none : nameOf none = .ok (none, []) := by decide +kernel

/-- What both searches have left in the array is read as the name. -/
theorem nameOf_token {token : List UInt8} {size size' : Option Nat}
    {pathname' : Buffer UInt8 pathnameLen}
    (hSlash : storeFrom 0x2f token (.const pathnameLen 0) = .ok (size, pathname))
    (hBracket : storeFrom 0x5b token pathname = .ok (size', pathname')) :
    nameOf (some token) = pathname'.str.mapError .read >>= fun name => .ok (size, name) := by
  rw [nameOf]
  simp only [hSlash, hBracket, ok_bind]
  rfl

end Names

end TelnetDebug

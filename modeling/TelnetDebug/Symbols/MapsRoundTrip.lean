import TelnetDebug.Symbols.MapsFields

/-! What comes back of a maps line: its numbers, and its path. The device numbers
are printed in another base than they are read in, and the path goes through an
array of fixed size and through a search for a bracket. -/
namespace TelnetDebug

open CBuffer Strtok Strtol Guarded

/-- The rest of a line behind the inode: blanks, and the path of a mapping that
has a file. -/
structure PathColumn where
  pad : Nat
  path : List UInt8
  absolute : path = [] ∨ ∃ rest, path = 0x2f :: rest
  noNul : 0 ∉ path
  noNewline : 0x0a ∉ path

def PathColumn.text (c : PathColumn) : List UInt8 := List.replicate c.pad 0x20 ++ c.path

section Paths
variable {c : PathColumn}

theorem PathColumn.noNul_text (c : PathColumn) : 0 ∉ c.text := by
  rw [text, List.mem_append, not_or]
  exact ⟨notMem_spaces (by decide) c.pad, c.noNul⟩

theorem PathColumn.token (hSome : c.text ≠ []) :
    (strtok [0x0a] (c.text ++ [0x0a])).1 = some c.text := by
  have hToken : ∀ x ∈ c.text, x ∉ [0x0a] := by
    intro x hx hNewline
    rw [List.mem_singleton.mp hNewline, PathColumn.text, List.mem_append] at hx
    exact hx.elim (notMem_spaces (by decide) c.pad) c.noNewline
  rw [strtok_token hSome hToken (List.mem_singleton_self 0x0a)]

/-- A line without a path has no name, whatever blanks it ends in. -/
theorem nameOf_blank (hNone : c.path = []) :
    nameOf (strtok [0x0a] (c.text ++ [0x0a])).1 = .ok (none, []) := by
  have hText : c.text = List.replicate c.pad 0x20 := by
    rw [PathColumn.text, hNone, List.append_nil]
  by_cases hPad : c.text = []
  · rw [hPad]
    exact nameOf_none
  · have hSlash : 0x2f ∉ c.text := hText ▸ notMem_spaces (by decide) c.pad
    have hBracket : 0x5b ∉ c.text := hText ▸ notMem_spaces (by decide) c.pad
    have hZero : (Buffer.const pathnameLen (0 : UInt8)).cells =
        [] ++ List.replicate (pathnameLen - 0) 0 := rfl
    rw [PathColumn.token hPad, nameOf_token (storeFrom_none hSlash) (storeFrom_none hBracket),
      str_name List.not_mem_nil (by decide) hZero]
    rfl

variable {rest : List UInt8}

theorem PathColumn.token_path (hPath : c.path = 0x2f :: rest) :
    (strtok [0x0a] (c.text ++ [0x0a])).1 = some (List.replicate c.pad 0x20 ++ 0x2f :: rest) := by
  rw [PathColumn.token, PathColumn.text, hPath]
  simp [PathColumn.text, hPath]

/-- The slash has put the path at the front of the array. -/
theorem slash_stores (hPath : c.path = 0x2f :: rest) (hFits : c.path.length ≤ pathnameLen) :
    ∃ pathname, storeFrom 0x2f (List.replicate c.pad 0x20 ++ 0x2f :: rest)
        (.const pathnameLen 0) = .ok (some c.path.length, pathname) ∧
      pathname.cells = c.path ++ List.replicate (pathnameLen - c.path.length) 0 := by
  rw [hPath] at hFits ⊢
  obtain ⟨pathname, hStore, hCells⟩ :=
    storeFrom_found (.const _ 0) (notMem_spaces (by decide) c.pad) hFits
  exact ⟨pathname, hStore, by rw [hCells, const_drop]⟩

theorem bracket_absent (hPath : c.path = 0x2f :: rest) (hBracket : 0x5b ∉ c.path) :
    0x5b ∉ List.replicate c.pad 0x20 ++ 0x2f :: rest := by
  rw [List.mem_append, not_or, ← hPath]
  exact ⟨notMem_spaces (by decide) c.pad, hBracket⟩

theorem nameOf_kept (hPath : c.path = 0x2f :: rest) (hShort : c.path.length < pathnameLen)
    (hBracket : 0x5b ∉ c.path) :
    nameOf (strtok [0x0a] (c.text ++ [0x0a])).1 = .ok (some c.path.length, c.path) := by
  obtain ⟨pathname, hStore, hCells⟩ := slash_stores hPath (Nat.le_of_lt hShort)
  rw [PathColumn.token_path hPath,
    nameOf_token hStore (storeFrom_none (bracket_absent hPath hBracket)),
    str_name c.noNul hShort hCells]
  rfl

/-- A path of more than 128 characters is written past the array. -/
theorem nameOf_overflows (hPath : c.path = 0x2f :: rest) (hOver : pathnameLen < c.path.length) :
    ∃ e, nameOf (strtok [0x0a] (c.text ++ [0x0a])).1 = .error e := by
  have hStore := storeFrom_long (.const _ 0) (notMem_spaces (by decide : (0x2f : UInt8) ≠ 0x20)
    c.pad) (hPath ▸ hOver)
  rw [PathColumn.token_path hPath, nameOf]
  simp only [hStore]
  exact ⟨_, rfl⟩

/-- One of exactly 128 leaves the array without a terminator. -/
theorem nameOf_long (hPath : c.path = 0x2f :: rest) (hLong : pathnameLen ≤ c.path.length)
    (hBracket : 0x5b ∉ c.path) :
    ∃ e, nameOf (strtok [0x0a] (c.text ++ [0x0a])).1 = .error e := by
  rcases Nat.lt_or_eq_of_le hLong with hOver | hFull
  · exact nameOf_overflows hPath hOver
  · obtain ⟨pathname, hStore, hCells⟩ := slash_stores hPath (Nat.le_of_eq hFull.symm)
    have hNoEnd : ¬ Terminated pathname.cells := by
      rw [hCells, hFull, Nat.sub_self, List.replicate_zero, List.append_nil]
      exact c.noNul
    rw [PathColumn.token_path hPath,
      nameOf_token hStore (storeFrom_none (bracket_absent hPath hBracket)), Buffer.str,
      if_neg hNoEnd]
    exact ⟨_, rfl⟩

/-- With a bracket in the path, what is read as the name begins with it. -/
theorem nameOf_bracket (hPath : c.path = 0x2f :: rest) (hBracket : 0x5b ∈ c.path)
    {size : Option Nat} {name : List UInt8}
    (hName : nameOf (strtok [0x0a] (c.text ++ [0x0a])).1 = .ok (size, name)) :
    ∃ back, name = 0x5b :: back := by
  obtain ⟨front, back, hSplit, hFront⟩ := List.eq_append_cons_of_mem hBracket
  have hToken : List.replicate c.pad 0x20 ++ 0x2f :: rest =
      (List.replicate c.pad 0x20 ++ front) ++ 0x5b :: back := by
    rw [← hPath, hSplit, List.append_assoc]
  have hFirst : 0x5b ∉ List.replicate c.pad 0x20 ++ front := by
    rw [List.mem_append, not_or]
    exact ⟨notMem_spaces (by decide) c.pad, hFront⟩
  by_cases hFits : c.path.length ≤ pathnameLen
  · obtain ⟨pathname, hStore, -⟩ := slash_stores hPath hFits
    have hBack : (0x5b :: back).length ≤ pathnameLen := by
      rw [hSplit, List.length_append] at hFits
      omega
    obtain ⟨pathname', hStore', hCells⟩ := storeFrom_found pathname hFirst hBack
    rw [← hToken] at hStore'
    rw [PathColumn.token_path hPath, nameOf_token hStore hStore', Buffer.str] at hName
    by_cases hEnd : Terminated pathname'.cells
    · rw [if_pos hEnd, hCells] at hName
      cases hName
      exact ⟨_, List.takeWhile_cons_of_pos (by decide)⟩
    · rw [if_neg hEnd] at hName
      cases hName
  · obtain ⟨e, hError⟩ := nameOf_overflows hPath (Nat.lt_of_not_le hFits)
    rw [hError] at hName
    cases hName

/-- The name that is read is the path exactly when it fits and has no bracket. -/
theorem nameOf_path_iff (c : PathColumn) :
    (∃ size, nameOf (strtok [0x0a] (c.text ++ [0x0a])).1 = .ok (size, c.path)) ↔
      c.path.length < pathnameLen ∧ 0x5b ∉ c.path := by
  rcases c.absolute with hNone | ⟨rest, hPath⟩
  · have hName := nameOf_blank hNone
    rw [hNone]
    exact iff_of_true ⟨none, hName⟩ ⟨by decide, List.not_mem_nil⟩
  · constructor
    · rintro ⟨size, hName⟩
      have hBracket : 0x5b ∉ c.path := by
        intro hBracket
        obtain ⟨back, hFirst⟩ := nameOf_bracket hPath hBracket hName
        rw [hPath] at hFirst
        exact absurd (List.cons.inj hFirst).1 (by decide)
      refine ⟨Nat.lt_of_not_le fun hLong => ?_, hBracket⟩
      obtain ⟨e, hError⟩ := nameOf_long hPath hLong hBracket
      rw [hError] at hName
      cases hName
    · rintro ⟨hShort, hBracket⟩
      exact ⟨_, nameOf_kept hPath hShort hBracket⟩

end Paths

section Numbers
variable {f : MapsFields} {c : PathColumn}

/-- The permissions as the flags of a record. -/
def MapsFields.flags (f : MapsFields) : UInt32 :=
  (if f.readable then 0x1 else 0) ||| (if f.executable then 0x2 else 0) |||
    (if f.writable then 0x4 else 0) ||| (if f.shared then 0x10 else 0x8)

/-- The seven numbers of the record are those of the mapping. -/
structure MapsFields.Stored (f : MapsFields) (map : LdMaps) : Prop where
  addrStart : map.addrStart = f.start
  addrEnd : map.addrEnd = f.stop
  permission : map.permission = f.flags
  offset : map.offset = f.offset.toInt64
  deviceMajor : map.deviceMajor = f.major
  deviceMinor : map.deviceMinor = f.minor
  inode : map.inode = f.inode

/-- Whatever the record held before, it holds the numbers of the line. -/
def NumbersKept (f : MapsFields) (c : PathColumn) : Prop :=
  ∀ old, ∃ map, ldMapsParse (f.text c.text) old = .ok map ∧ f.Stored map

theorem permissionOf_permissions (f : MapsFields) : permissionOf f.permissions = f.flags := by
  unfold MapsFields.permissions MapsFields.flags
  cases f.readable <;> cases f.writable <;> cases f.executable <;> cases f.shared <;> decide

theorem strtoul_inode (n : UInt64) : strtoul 10 (numeral 10 n.toNat) = n := by
  have hValue := valueOf_numeral (by decide : 1 < 10) (by decide) n.toNat
  rw [strtoul_digits (by decide)
    (fun x hx => digit_of_mem_numeral (by decide) (by decide) n.toNat hx)
    (by rw [hValue]; exact n.toNat_lt_size), hValue, UInt64.ofNat_toNat]

/-- What the conversion from `long` to `int` and to `unsigned int` keeps. -/
theorem toUInt32_ofInt (value : Nat) (h : value < UInt32.size) :
    ((Int32.ofInt value).toUInt32).toNat = value := by
  change (BitVec.ofInt 32 value).toNat = value
  rw [BitVec.ofInt_natCast, BitVec.toNat_ofNat]
  exact Nat.mod_eq_of_lt h

/-- A device number is read back exactly when it is a decimal digit. -/
theorem deviceOf_iff (n : UInt32) : deviceOf (zeroFilled 2 16 n.toNat) = n ↔ n < 10 := by
  have hLess : (0 : Nat) < 10 := by decide
  have hBases : (10 : Nat) < 16 := by decide
  have hLetters : (16 : Nat) ≤ 36 := by decide
  have hSize := n.toNat_lt_size
  have hLong : (n.toNat : Int) ≤ longMax := by
    have hMax : longMax = 2 ^ 63 - 1 := rfl
    have hWord : UInt32.size = 2 ^ 32 := rfl
    omega
  have hRead := read_zeroFilled_le hLess hBases hLetters 2 n.toNat
  rw [← UInt32.toNat_inj, deviceOf,
    strtolBase_zeroFilled hLess hBases hLetters 2 n.toNat (by decide) hLong,
    toUInt32_ofInt _ (Nat.lt_of_le_of_lt hRead hSize),
    read_zeroFilled_iff hLess hBases hLetters, UInt32.lt_iff_toNat_lt]
  rfl

theorem record_stored_iff (size : Option Nat) (name : List UInt8) (old : LdMaps) :
    f.Stored (f.record size name old) ↔ f.major < 10 ∧ f.minor < 10 := by
  rw [← deviceOf_iff, ← deviceOf_iff]
  constructor
  · exact fun h => ⟨h.deviceMajor, h.deviceMinor⟩
  · rintro ⟨hMajor, hMinor⟩
    exact ⟨rfl, rfl, permissionOf_permissions f, rfl, hMajor, hMinor, strtoul_inode f.inode⟩

/-- For every mapping, with or without a path: the seven numbers come back exactly
when both device numbers are decimal digits. -/
theorem numbers_kept_iff (f : MapsFields) (hShort : c.path.length < pathnameLen)
    (hBracket : 0x5b ∉ c.path) : NumbersKept f c ↔ f.major < 10 ∧ f.minor < 10 := by
  obtain ⟨size, hName⟩ := (nameOf_path_iff c).mpr ⟨hShort, hBracket⟩
  have hParse (old : LdMaps) :
      ldMapsParse (f.text c.text) old = .ok (f.record size c.path old) := by
    rw [ldMapsParse_fields, hName, ok_bind]
  constructor
  · intro h
    obtain ⟨map, hMap, hStored⟩ := h .cleared
    rw [hParse] at hMap
    cases hMap
    exact (record_stored_iff size c.path .cleared).mp hStored
  · intro h old
    exact ⟨_, hParse old, (record_stored_iff size c.path old).mpr h⟩

end Numbers

/-- A library on the device 08:01. -/
def libraryFields : MapsFields := ⟨8, 0x1000, 0x2000, true, false, true, false, 0, 8, 1, 77⟩

/-- `/l.so` -/
def libraryColumn : PathColumn where
  pad := 4
  path := [0x2f, 0x6c, 0x2e, 0x73, 0x6f]
  absolute := .inr ⟨_, rfl⟩
  noNul := by decide
  noNewline := by decide

theorem numbers_kept_library : NumbersKept libraryFields libraryColumn :=
  (numbers_kept_iff libraryFields (by decide) (by decide)).mpr ⟨by decide, by decide⟩

/-- On the device fd:00 the major number is read as 0. -/
theorem numbers_lost :
    ¬ NumbersKept { libraryFields with major := 0xfd, minor := 0 } libraryColumn := by
  intro h
  obtain ⟨map, hParse, hStored⟩ := h .cleared
  have hMajor : (ldMapsParse (MapsFields.text { libraryFields with major := 0xfd, minor := 0 }
      libraryColumn.text) .cleared).map LdMaps.deviceMajor = .ok 0 := by decide +kernel
  rw [hParse] at hMajor
  have hZero : map.deviceMajor = 0 := Except.ok.inj hMajor
  rw [hStored.deviceMajor] at hZero
  cases hZero

section Faithful

/-- What the list is to hold: libraries, and the executable. -/
def IsObject (self path : List UInt8) : Prop := soSuffix <:+: path ∨ self <:+: path

instance (self path : List UInt8) : Decidable (IsObject self path) :=
  inferInstanceAs (Decidable (_ ∨ _))

/-- The record has the path of the line, and goes into the list when it is that of
an object. -/
def PathKept (self : List UInt8) (s : LdMaps × SoNameList) (f : MapsFields) (c : PathColumn) :
    Prop :=
  ∃ map, ldMapsParse (f.text c.text) s.1 = .ok map ∧ map.pathname = c.path ∧
    mapsStep self s (f.text c.text) =
      .ok (map, if IsObject self c.path then s.2.take map else s.2)

variable {f : MapsFields} {c : PathColumn}

theorem text_line (f : MapsFields) (c : PathColumn) :
    CBuffer.text (f.text c.text) = f.text c.text := by
  have hNul : 0 ∉ f.front ++ c.text := by
    rw [List.mem_append, not_or]
    exact ⟨fun h => (MapsFields.mem_front h).1 rfl, c.noNul_text⟩
  rw [MapsFields.text, text_append hNul]
  rfl

/-- For every line with an absolute path of any length: the path is kept exactly
when it has at most 127 characters and no bracket. -/
theorem path_kept_iff (self : List UInt8) (s : LdMaps × SoNameList) (f : MapsFields)
    (c : PathColumn) :
    PathKept self s f c ↔ c.path.length < pathnameLen ∧ 0x5b ∉ c.path := by
  rw [← nameOf_path_iff]
  constructor
  · rintro ⟨map, hParse, hPath, -⟩
    rw [ldMapsParse_fields] at hParse
    obtain ⟨⟨size, name⟩, hName, hRecord⟩ := bind_eq_ok.mp hParse
    cases hRecord
    obtain rfl : name = c.path := hPath
    exact ⟨size, hName⟩
  · rintro ⟨size, hName⟩
    have hParse : ldMapsParse (f.text c.text) s.1 = .ok (f.record size c.path s.1) := by
      rw [ldMapsParse_fields, hName, ok_bind]
    refine ⟨_, hParse, rfl, ?_⟩
    have hBracket := ((nameOf_path_iff c).mp ⟨size, hName⟩).2
    have hAccepted : Accepted self c.path ↔ IsObject self c.path := and_iff_right hBracket
    rw [mapsStep, text_line, hParse, ok_bind]
    change Except.ok (_, if Accepted self c.path then _ else _) = _
    simp only [hAccepted]

/-- `/a[b.so` -/
def bracketColumn : PathColumn where
  pad := 4
  path := [0x2f, 0x61, 0x5b, 0x62, 0x2e, 0x73, 0x6f]
  absolute := .inr ⟨_, rfl⟩
  noNul := by decide
  noNewline := by decide

/-- The library is renamed to `[b.soso`, and dropped. -/
theorem bracket_drops :
    (ldMapsParse (libraryFields.text bracketColumn.text) .cleared).map LdMaps.pathname =
        .ok [0x5b, 0x62, 0x2e, 0x73, 0x6f, 0x73, 0x6f] ∧
      (mapsStep [0x2f, 0x62] (.cleared, debugInitList) (libraryFields.text bracketColumn.text)).map
        (fun r => r.2.num) = .ok 0 ∧
      ¬ PathKept [0x2f, 0x62] (.cleared, debugInitList) libraryFields bracketColumn := by
  have hName : (ldMapsParse (libraryFields.text bracketColumn.text) .cleared).map
      LdMaps.pathname = .ok [0x5b, 0x62, 0x2e, 0x73, 0x6f, 0x73, 0x6f] := by decide +kernel
  refine ⟨hName, by decide +kernel, ?_⟩
  rintro ⟨map, hParse, hPath, -⟩
  change ldMapsParse _ .cleared = _ at hParse
  rw [hParse] at hName
  have hOther := Except.ok.inj hName
  rw [hPath] at hOther
  cases hOther

end Faithful

end TelnetDebug

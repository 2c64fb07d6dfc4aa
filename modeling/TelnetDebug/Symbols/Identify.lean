import TelnetDebug.Symbols.LoadedFiles
import TelnetDebug.Symbols.SingleTable

/-! The ident of a file, the check of it that was written, and the files that are
interpreted without that check. -/
namespace TelnetDebug.Image

open Posix

/-- The format of a file, `EXE_IS_NEITHER` is its zero. -/
inductive ElfBit where
  | exeIsNeither
  | exeIs32Bit
  | exeIs64Bit
deriving DecidableEq

def eiMag0 : Nat := 0
def eiMag1 : Nat := 1
def eiMag2 : Nat := 2
def eiMag3 : Nat := 3
def eiClass : Nat := 4
def eiData : Nat := 5
def eiVersion : Nat := 6
def eiOsabi : Nat := 7
def eiNident : Nat := 16

def elfMag0 : UInt8 := 0x7f
def elfMag1 : UInt8 := 0x45
def elfMag2 : UInt8 := 0x4c
def elfMag3 : UInt8 := 0x46
def elfClass32 : UInt8 := 1
def elfClass64 : UInt8 := 2
def elfData2Lsb : UInt8 := 1
def elfData2Msb : UInt8 := 2
def evCurrent : UInt8 := 1
def elfOsabiSysv : UInt8 := 0
def elfOsabiLinux : UInt8 := 3

/-- A byte of the ident, compared only with constants that have no sign bit. An
access behind it faults at its index. -/
def identAt (elfIdent : List UInt8) (idx : Nat) : Except Nat UInt8 :=
  match elfIdent[idx]? with
  | some byte => .ok byte
  | none => .error idx

/-- The test of the magic number, which ends at the first byte that differs. -/
def hasMagic (elfIdent : List UInt8) : Except Nat Bool := do
  if (← identAt elfIdent eiMag0) ≠ elfMag0 then return false
  if (← identAt elfIdent eiMag1) ≠ elfMag1 then return false
  if (← identAt elfIdent eiMag2) ≠ elfMag2 then return false
  return (← identAt elfIdent eiMag3) = elfMag3

def exeElfIdentify (elfIdent : Option (List UInt8)) (size : UInt64) : Except Nat ElfBit := do
  let is64 := ElfBit.exeIsNeither
  match elfIdent with
  | none => return .exeIsNeither
  | some elfIdent =>
      if size > 0 then
        if ← hasMagic elfIdent then
          -- A variable of its own that hides the other one, up to the end of the block.
          let bits ← identAt elfIdent eiClass
          let _is64 := if bits = elfClass32 then ElfBit.exeIs32Bit
            else if bits = elfClass64 then .exeIs64Bit else .exeIsNeither
          pure ()
        if is64 ≠ .exeIsNeither then
          let data ← identAt elfIdent eiData
          let isbigendian : UInt32 :=
            if data = elfData2Lsb then 0 else if data = elfData2Msb then 1 else -1
          let iscurrent := (← identAt elfIdent eiVersion) == evCurrent
          let abi ← identAt elfIdent eiOsabi
          let islinux := abi == elfOsabiLinux || abi == elfOsabiSysv
          if islinux && isbigendian == 0 && iscurrent then return is64
      return .exeIsNeither

/-- The bytes begin with the ident of a file of this class for the machine. -/
structure HasIdent (elfClass : UInt8) (bytes : List UInt8) : Prop where
  whole : eiNident ≤ bytes.length
  magic : bytes.take 4 = [elfMag0, elfMag1, elfMag2, elfMag3]
  elfClass : bytes[eiClass]? = some elfClass
  data : bytes[eiData]? = some elfData2Lsb
  version : bytes[eiVersion]? = some evCurrent
  abi : bytes[eiOsabi]? = some elfOsabiSysv ∨ bytes[eiOsabi]? = some elfOsabiLinux

section Ident
variable {ident : List UInt8}

theorem identAt_returns {idx : Nat} (h : idx < ident.length) :
    identAt ident idx = .ok ident[idx] := by
  rw [identAt, List.getElem?_eq_getElem h]

theorem hasMagic_returns (h : eiNident ≤ ident.length) : ∃ magic, hasMagic ident = .ok magic := by
  have hRead (idx : Nat) (hIdx : idx < eiNident) : ∃ byte, identAt ident idx = .ok byte :=
    ⟨_, identAt_returns (Nat.lt_of_lt_of_le hIdx h)⟩
  obtain ⟨mag0, hMag0⟩ := hRead eiMag0 (by decide)
  obtain ⟨mag1, hMag1⟩ := hRead eiMag1 (by decide)
  obtain ⟨mag2, hMag2⟩ := hRead eiMag2 (by decide)
  obtain ⟨mag3, hMag3⟩ := hRead eiMag3 (by decide)
  unfold hasMagic
  rw [hMag0, hMag1, hMag2, hMag3]
  simp only [Guarded.ok_bind]
  split
  · exact ⟨false, rfl⟩
  · split
    · exact ⟨false, rfl⟩
    · split
      · exact ⟨false, rfl⟩
      · exact ⟨_, rfl⟩

/-- The variable that is tested is never set. -/
theorem exeElfIdentify_neither (h : eiNident ≤ ident.length) (size : UInt64) :
    exeElfIdentify (some ident) size = .ok .exeIsNeither := by
  obtain ⟨magic, hMagic⟩ := hasMagic_returns h
  have hBits := identAt_returns (Nat.lt_of_lt_of_le (by decide : eiClass < eiNident) h)
  have hNeither : ¬ ElfBit.exeIsNeither ≠ .exeIsNeither := fun hSet => hSet rfl
  unfold exeElfIdentify
  simp only [hMagic, hBits, Guarded.ok_bind, if_neg hNeither, ite_self]
  rfl

/-- What the check is for: it tells the two classes of files from each other and
from everything else. -/
def Identified (ident : List UInt8) : Prop :=
  eiNident ≤ ident.length → ∀ size : UInt64, eiNident ≤ size.toNat → size.toNat ≤ ident.length →
    ∃ bit, exeElfIdentify (some ident) size = .ok bit ∧
      (bit = .exeIs64Bit ↔ HasIdent elfClass64 ident) ∧
      (bit = .exeIs32Bit ↔ HasIdent elfClass32 ident)

theorem identified_iff :
    Identified ident ↔ ¬ HasIdent elfClass64 ident ∧ ¬ HasIdent elfClass32 ident := by
  constructor
  · intro h
    have hNone (bits : UInt8) (hIdent : HasIdent bits ident) :
        ¬ HasIdent elfClass64 ident ∧ ¬ HasIdent elfClass32 ident := by
      obtain ⟨bit, hBit, h64, h32⟩ := h hIdent.whole 16 (Nat.le_refl 16) hIdent.whole
      rw [exeElfIdentify_neither hIdent.whole] at hBit
      cases hBit
      constructor
      · intro hIs64
        cases h64.mpr hIs64
      · intro hIs32
        cases h32.mpr hIs32
    exact ⟨fun h => (hNone _ h).1 h, fun h => (hNone _ h).2 h⟩
  · rintro ⟨h64, h32⟩ hWhole size - -
    refine ⟨_, exeElfIdentify_neither hWhole size, iff_of_false ?_ h64, iff_of_false ?_ h32⟩
    · rintro ⟨⟩
    · rintro ⟨⟩

end Ident

section Native
variable (file : List UInt8)

/-- Whatever the system answers, symbols come of a file of 64 bits only. -/
def OnlyNative : Prop :=
  ∀ sys : System, sys.file = file → sys.Delivers → ∀ fuel symbolsNum interp s r t,
    exeLoadSymbols sys fuel symbolsNum interp s = .ok (r, t) → r.HasSymbols →
      HasIdent elfClass64 file

theorem onlyNative_iff : OnlyNative file ↔ HasIdent elfClass64 file ∨ ¬ Loadable file := by
  rw [← yields_iff]
  constructor
  · intro h
    by_cases hYields : Yields file
    · obtain ⟨sys, hFile, hDelivers, fuel, symbolsNum, interp, s, r, t, hRun, hSymbols⟩ := hYields
      exact .inl (h sys hFile hDelivers fuel symbolsNum interp s r t hRun hSymbols)
    · exact .inr hYields
  · rintro (hIdent | hNot) sys hFile hDelivers fuel symbolsNum interp s r t hRun hSymbols
    · exact hIdent
    · exact absurd ⟨sys, hFile, hDelivers, fuel, symbolsNum, interp, s, r, t, hRun, hSymbols⟩ hNot

/-- The files and the idents for which both the loader and the check do what the
check is for. -/
theorem only_native_iff (ident : List UInt8) : OnlyNative file ∧ Identified ident ↔
    (HasIdent elfClass64 file ∨ ¬ Loadable file) ∧
      ¬ HasIdent elfClass64 ident ∧ ¬ HasIdent elfClass32 ident := by
  rw [onlyNative_iff, identified_iff]

end Native

/-- The small file without its ident. -/
@[irreducible] def zeroIdent : List UInt8 := List.replicate eiNident 0 ++ smallFile.drop eiNident

/-- A file without an ident is loaded, and the ident of one of 64 bits is not
identified. -/
theorem not_only_native : ¬ OnlyNative zeroIdent ∧ ¬ Identified (smallFile.take eiNident) := by
  constructor
  · intro h
    have hRun : Guarded.Sat (exeLoadSymbols (attacker zeroIdent (fun _ => false) fun _ _ => 0) 2
        (some 0) none ⟨0, 0⟩) (fun r => r.1.symbols.isSome ∧ r.1.symbolsNum = some 1)
        (fun _ => False) := by decide +kernel
    obtain ⟨⟨r, t⟩, hOk, hSome, hNum⟩ := hRun.returns
    have hIdent := h _ rfl (attacker_delivers zeroIdent _ _) 2 (some 0) none ⟨0, 0⟩ r t hOk
      ⟨hSome, 1, hNum, by decide⟩
    have hMagic : zeroIdent.take 4 ≠ [elfMag0, elfMag1, elfMag2, elfMag3] := by decide +kernel
    exact hMagic hIdent.magic
  · have hIdent : HasIdent elfClass64 (smallFile.take eiNident) := by
      constructor <;> decide +kernel
    exact fun h => (identified_iff.mp h).1 hIdent

end TelnetDebug.Image

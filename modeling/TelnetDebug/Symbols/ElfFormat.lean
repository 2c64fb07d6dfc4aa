import TelnetDebug.Library.Calls
import TelnetDebug.Symbols.SymbolTable
import Mathlib.Data.Nat.Digits.Defs

/-! The records of a 64-bit file in the byte order of the machine. Of each
record only the fields are kept that the loader reads, and the link of a
section. -/
namespace TelnetDebug

/-- An unsigned number, its low byte first. -/
def littleEndian (bytes : List UInt8) : Nat := Nat.ofDigits 256 (bytes.map UInt8.toNat)

def u16At (bytes : List UInt8) (offset : Nat) : UInt16 :=
  UInt16.ofNat (littleEndian (Posix.slice bytes offset 2))

def u32At (bytes : List UInt8) (offset : Nat) : UInt32 :=
  UInt32.ofNat (littleEndian (Posix.slice bytes offset 4))

def u64At (bytes : List UInt8) (offset : Nat) : UInt64 :=
  UInt64.ofNat (littleEndian (Posix.slice bytes offset 8))

def emX8664 : UInt16 := 62
def em386 : UInt16 := 3
def emPpc : UInt16 := 20
def emArm : UInt16 := 40

def shtSymtab : UInt32 := 2
def shtStrtab : UInt32 := 3
def shtDynsym : UInt32 := 11

def ptInterp : UInt32 := 3

/-- The file header, an `Elf64_Ehdr`. -/
structure Ehdr where
  eMachine : UInt16
  ePhoff : UInt64
  eShoff : UInt64
  ePhentsize : UInt16
  ePhnum : UInt16
  eShentsize : UInt16
  eShnum : UInt16
  eShstrndx : UInt16
deriving DecidableEq

def ehdrSize : Nat := 64

def Ehdr.ofBytes (bytes : List UInt8) : Ehdr where
  eMachine := u16At bytes 18
  ePhoff := u64At bytes 32
  eShoff := u64At bytes 40
  ePhentsize := u16At bytes 54
  ePhnum := u16At bytes 56
  eShentsize := u16At bytes 58
  eShnum := u16At bytes 60
  eShstrndx := u16At bytes 62

/-- A section header, an `Elf64_Shdr`. -/
structure Shdr where
  shType : UInt32
  shOffset : UInt64
  shSize : UInt64
  shLink : UInt32
  shEntsize : UInt64
deriving DecidableEq

def shdrSize : Nat := 64

def Shdr.ofBytes (bytes : List UInt8) : Shdr where
  shType := u32At bytes 4
  shOffset := u64At bytes 24
  shSize := u64At bytes 32
  shLink := u32At bytes 40
  shEntsize := u64At bytes 56

/-- A program header, an `Elf64_Phdr`. -/
structure Phdr where
  pType : UInt32
  pOffset : UInt64
  pVaddr : UInt64
  pFilesz : UInt64
deriving DecidableEq

def phdrSize : Nat := 56

def Phdr.ofBytes (bytes : List UInt8) : Phdr where
  pType := u32At bytes 0
  pOffset := u64At bytes 8
  pVaddr := u64At bytes 16
  pFilesz := u64At bytes 32

def symSize : Nat := 24

def ElfSym.ofBytes (bytes : List UInt8) : ElfSym where
  stName := u32At bytes 0
  stInfo := (Posix.slice bytes 4 1).headD 0
  stShndx := u16At bytes 6
  stValue := u64At bytes 8
  stSize := u64At bytes 16

/-- A section that holds symbols. -/
def Shdr.HoldsSymbols (h : Shdr) : Prop := h.shType = shtSymtab ∨ h.shType = shtDynsym

instance (h : Shdr) : Decidable h.HoldsSymbols :=
  inferInstanceAs (Decidable (h.shType = shtSymtab ∨ h.shType = shtDynsym))

end TelnetDebug

import TelnetDebug.Library.Resources
import TelnetDebug.Symbols.ProcessLookup

/-! The loader with what it holds: the file it opened, and the memory behind each
of its pointers. Apart from that it is the loader. -/
namespace TelnetDebug.Image

open Posix Resources

/-- What the loader opens, and what it allocates memory for. -/
inductive Purpose where
  | file
  | sechdrs
  | proghdrs
  | strsectbl
  | strsymtbl
  | syms
  | symbols
  | name
  | interp
  | symbolsNum
deriving DecidableEq

abbrev Pointer := Option (Resource Purpose)

abbrev Holding (α : Type) := Tracked Purpose LoadFault α

/-- What `elf_internals` refers to, with the names in the array of symbols. -/
structure Pointers where
  file : Pointer
  sechdrs : Pointer
  proghdrs : Pointer
  strsectbl : Pointer
  symbols : Pointer
  names : List Pointer
  interp : Pointer

/-- Only the file is open. -/
def Pointers.opened (file : Pointer) : Pointers := ⟨file, none, none, none, none, [], none⟩

/-- What happens in a load that loses memory: how often there is no array for the
symbols, how often one that is held is left behind then, and how often a string
section takes the place of another one. -/
structure Events where
  denied : Nat
  stranded : Nat
  again : Nat

instance : Zero Events := ⟨⟨0, 0, 0⟩⟩

instance : Add Events where
  add e e' := ⟨e.denied + e'.denied, e.stranded + e'.stranded, e.again + e'.again⟩

structure HoldingInternals where
  ei : ElfInternals
  ptrs : Pointers
  events : Events

/-- There is no array of this size. One that is held is freed if the size is zero,
and left behind otherwise. -/
def HoldingInternals.withoutArray (h : HoldingInternals) (size : UInt64) : HoldingInternals where
  ei := { h.ei with symbols := none }
  ptrs := { h.ptrs with symbols := none, names := [] }
  events := h.events + ⟨1, if h.ptrs.symbols.isSome ∧ size ≠ 0 then 1 else 0, 0⟩

/-- The string section that a pointer refers to is left behind. -/
def HoldingInternals.leaves (h : HoldingInternals) (strsymtbl : Pointer) : HoldingInternals :=
  { h with events := h.events + ⟨0, 0, if strsymtbl.isSome then 1 else 0⟩ }

namespace Holding

def exeOpenFilename (sys : System) : Holding (Pointer × UInt32) := do
  let fd ← call (Image.exeOpenFilename sys)
  if fd = -1 then return (none, fd)
  return (some (← acquire .file), fd)

def storeSymbol (sys : System) (strsymtbl syms : List UInt8) (h : HoldingInternals) (idx : Nat) :
    Holding HoldingInternals := do
  let sym := ElfSym.ofBytes (← call (entryAt .syms symSize syms idx))
  let name ← call (symbolName strsymtbl sym)
  let some name2 ← allocateFor .name sys | return h
  let ei ← call (h.ei.store ⟨some name, sym.stValue, exeGetType sym.stInfo, sym.stSize⟩)
  let names := h.ptrs.names.set h.ei.symbolsNum.toNat (some name2)
  return ⟨ei, { h.ptrs with names := names }, h.events⟩

/-- Where there is no array, `syms` is not freed. -/
def storeSymbols (sys : System) (symh : Shdr) (strsymtbl entries : List UInt8)
    (syms : Resource Purpose) (h : HoldingInternals) :
    Holding (Option UInt32 × HoldingInternals) := do
  let symNum := symh.shSize / symh.shEntsize
  let size := (symNum + h.ei.symbolsNum) * elfSymbolSize
  let some symbols ← reallocFor .symbols sys h.ptrs.symbols size
    | return (some (-1), h.withoutArray size)
  let count := (size / elfSymbolSize).toNat
  let h ← (List.range' 1 (symNum.toNat - 1)).foldlM (storeSymbol sys strsymtbl entries)
    ⟨{ h.ei with symbols := some (List.replicate count ElfSymbol.cleared) },
      { h.ptrs with symbols := some symbols, names := List.replicate count none }, h.events⟩
  release (some syms)
  return (some 0, h)

/-- The pointer to the string section is kept from one turn to the next. -/
def symbolTableBody (sys : System) (h : HoldingInternals) (strsymtbl : Pointer)
    (symh strh : Shdr) : Holding (Option UInt32 × Pointer × HoldingInternals) := do
  let offset ← call (lseek sys h.ei.fd strh.shOffset)
  if offset < 0 then return (some (-1), strsymtbl, h)
  let h := h.leaves strsymtbl
  let some (strsymtbl, memory) ← mallocFor .strsymtbl sys strh.shSize
    | return (some (-1), none, h)
  let some strings ← call (read sys h.ei.fd strh.shSize) | return (some (-1), some strsymtbl, h)
  if symh.shEntsize > 0 ∧ symh.shSize > 0 then
    let some (syms, space) ← mallocFor .syms sys symh.shSize
      | return (some (-1), some strsymtbl, h)
    let offset ← call (lseek sys h.ei.fd symh.shOffset)
    if offset < 0 then
      release (some syms)
      return (some (-1), some strsymtbl, h)
    match ← call (read sys h.ei.fd symh.shSize) with
    | none =>
        release (some syms)
        return (some (-1), some strsymtbl, h)
    | some entries =>
        let (rc, h) ← storeSymbols sys symh (overwrite memory strings) (overwrite space entries)
          syms h
        return (rc, some strsymtbl, h)
  else return (none, some strsymtbl, h)

def exeLoadSymbolTable (sys : System) (symh strh : Shdr) :
    Nat → Pointer → HoldingInternals → Holding (UInt32 × HoldingInternals)
  | 0, _, _ => call (throw .endless)
  | fuel + 1, strsymtbl, h => do
      match ← symbolTableBody sys h strsymtbl symh strh with
      | (some rc, strsymtbl, h) =>
          release strsymtbl
          return (rc, h)
      | (none, strsymtbl, h) => exeLoadSymbolTable sys symh strh fuel strsymtbl h

def scanSection (sys : System) (fuel : Nat) (sechdrs : List UInt8)
    (state : Option Nat × HoldingInternals) (idx : Nat) :
    Holding (Option Nat × HoldingInternals) := do
  let (symtab, h) := state
  let hdr ← call (sechdrAt sechdrs idx)
  if hdr.HoldsSymbols then return (some idx, h)
  else if hdr.shType = shtStrtab ∧ idx ≠ h.ei.secnametblIdx.toNat then
    match symtab with
    | some symtab =>
        let symh ← call (sechdrAt sechdrs symtab)
        let (_, h) ← exeLoadSymbolTable sys symh hdr fuel none h
        return (none, h)
    | none => return (none, h)
  else return (symtab, h)

def readSectionNames (sys : System) (sechdrs : List UInt8) (h : HoldingInternals) :
    Holding (Option (List UInt8) × HoldingInternals) := do
  let strsectblhdr ← call (sechdrAt sechdrs h.ei.secnametblIdx.toNat)
  let offset ← call (lseek sys h.ei.fd strsectblhdr.shOffset)
  if offset < 0 then return (none, h)
  let some (memory, strsectbl) ← mallocFor .strsectbl sys strsectblhdr.shSize
    | return (none, { h with
        ei := { h.ei with strsectbl := none }, ptrs := { h.ptrs with strsectbl := none } })
  let ei := { h.ei with strsectbl := some strsectbl, strsectblSize := strsectblhdr.shSize }
  let ptrs := { h.ptrs with strsectbl := some memory }
  let some names ← call (read sys h.ei.fd strsectblhdr.shSize) | return (none, ⟨ei, ptrs, h.events⟩)
  let ei := { ei with strsectbl := some (overwrite strsectbl names) }
  return (some sechdrs, ⟨ei, ptrs, h.events⟩)

def readSectionHeaders (sys : System) (h : HoldingInternals) :
    Holding (Option (List UInt8) × HoldingInternals) := do
  if h.ei.sechdrOffset = 0 ∨ h.ei.sechdrSize = 0 then return (none, h)
  let some (memory, _) ← mallocFor .sechdrs sys h.ei.sechdrSize
    | return (none, { h with
        ei := { h.ei with sechdrs := none }, ptrs := { h.ptrs with sechdrs := none } })
  let sechdrs := List.replicate h.ei.sechdrSize.toNat 0
  let ei := { h.ei with sechdrs := some sechdrs }
  let ptrs := { h.ptrs with sechdrs := some memory }
  let offset ← call (lseek sys h.ei.fd h.ei.sechdrOffset)
  if offset < 0 then return (none, ⟨ei, ptrs, h.events⟩)
  let some headers ← call (read sys h.ei.fd h.ei.sechdrSize) | return (none, ⟨ei, ptrs, h.events⟩)
  let sechdrs := overwrite sechdrs headers
  readSectionNames sys sechdrs ⟨{ ei with sechdrs := some sechdrs }, ptrs, h.events⟩

/-- The section headers are read, and then scanned. -/
def exeLoadSectionHeaders (sys : System) (fuel : Nat) (h : HoldingInternals) :
    Holding (UInt32 × HoldingInternals) := do
  match ← readSectionHeaders sys h with
  | (none, h) => return (-1, h)
  | (some sechdrs, h) =>
      let (_, h) ← (List.range h.ei.sechdrNum.toNat).foldlM (scanSection sys fuel sechdrs) (none, h)
      return (0, h)

def loadInterp (sys : System) (proghdrs : List UInt8) :
    List Nat → HoldingInternals → Holding (UInt32 × HoldingInternals)
  | [], h => return (0, h)
  | idx :: rest, h => do
      let ph := Phdr.ofBytes (← call (entryAt .proghdrs phdrSize proghdrs idx))
      if ph.pType = ptInterp ∧ ph.pFilesz ≠ 0 then
        let offset ← call (lseek sys h.ei.fd ph.pOffset)
        if offset < 0 then return (-1, h)
        release h.ptrs.interp
        let interp := if h.ei.interp.name.isSome then .zero else h.ei.interp
        let some (name, memory) ← mallocFor .interp sys ph.pFilesz
          | return (-1, { h with
              ei := { h.ei with interp := interp }, ptrs := { h.ptrs with interp := none } })
        let interp := { interp with name := some memory }
        let ptrs := { h.ptrs with interp := some name }
        let some bytes ← call (read sys h.ei.fd ph.pFilesz)
          | return (-1, ⟨{ h.ei with interp := interp }, ptrs, h.events⟩)
        let interp := ⟨some (overwrite memory bytes), ph.pFilesz, ph.pVaddr⟩
        loadInterp sys proghdrs rest ⟨{ h.ei with interp := interp }, ptrs, h.events⟩
      else loadInterp sys proghdrs rest h

def exeLoadProgramHeaders (sys : System) (h : HoldingInternals) :
    Holding (UInt32 × HoldingInternals) := do
  if h.ei.proghdrOffset = 0 ∨ h.ei.proghdrSize = 0 then return (-1, h)
  let some (memory, _) ← mallocFor .proghdrs sys h.ei.proghdrSize
    | return (-1, { h with
        ei := { h.ei with proghdrs := none }, ptrs := { h.ptrs with proghdrs := none } })
  let proghdrs := List.replicate h.ei.proghdrSize.toNat 0
  let h := { h with
    ei := { h.ei with proghdrs := some proghdrs }
    ptrs := { h.ptrs with proghdrs := some memory } }
  let offset ← call (lseek sys h.ei.fd h.ei.proghdrOffset)
  if offset < 0 then return (-1, h)
  let some headers ← call (read sys h.ei.fd h.ei.proghdrSize) | return (-1, h)
  let proghdrs := overwrite proghdrs headers
  loadInterp sys proghdrs (List.range h.ei.proghdrNum.toNat)
    { h with ei := { h.ei with proghdrs := some proghdrs } }

def exeLoadHeaders (sys : System) (fuel : Nat) (h : HoldingInternals) :
    Holding (UInt32 × HoldingInternals) := do
  let offset ← call (lseek sys h.ei.fd 0)
  if offset < 0 then return (-1, h)
  let some bytes ← call (read sys h.ei.fd (.ofNat ehdrSize)) | return (-1, h)
  let hdr := Ehdr.ofBytes (overwrite (List.replicate ehdrSize 0) bytes)
  if hdr.eMachine ≠ emX8664 ∧ hdr.eMachine ≠ em386 ∧ hdr.eMachine ≠ emPpc ∧
      hdr.eMachine ≠ emArm then return (-1, h)
  let (rc, h) ← exeLoadSectionHeaders sys fuel { h with ei := h.ei.withHeader hdr }
  if rc < 0 then return (-1, h)
  let (rc, h) ← exeLoadProgramHeaders sys h
  if rc < 0 then return (-1, h)
  return (0, h)

end Holding

/-- What a load returns, with the array and the name of the interpreter that the
caller has then, and what happened in the load. -/
structure HoldingResult where
  result : LoadResult
  symbols : Pointer
  names : List Pointer
  interp : Pointer
  events : Events

namespace Holding

def exeLoadSymbols (sys : System) (fuel : Nat) (symbolsNum : Option UInt64)
    (interp : Option ElfInterp) : Holding HoldingResult := do
  let (file, fd) ← exeOpenFilename sys
  if fd < 0 then return ⟨⟨none, symbolsNum, interp, none⟩, none, [], none, 0⟩
  let (rc, h) ← exeLoadHeaders sys fuel ⟨.opened fd, .opened file, 0⟩
  release h.ptrs.file
  release h.ptrs.strsectbl
  release h.ptrs.sechdrs
  release h.ptrs.proghdrs
  if rc < 0 then
    release h.ptrs.interp
    (h.ptrs.names.take h.ei.symbolsNum.toNat).forM release
    release h.ptrs.symbols
    return ⟨⟨none, symbolsNum, interp, h.ei.symbols.map (·.take h.ei.symbolsNum.toNat)⟩,
      none, [], none, h.events⟩
  else
    match symbolsNum with
    | none => call (throw (.null .symbolsNum))
    | some _ =>
        match interp with
        | none =>
            release h.ptrs.interp
            return ⟨⟨h.ei.symbols, some h.ei.symbolsNum, none, none⟩, h.ptrs.symbols,
              h.ptrs.names, none, h.events⟩
        | some _ =>
            return ⟨⟨h.ei.symbols, some h.ei.symbolsNum, some h.ei.interp, none⟩, h.ptrs.symbols,
              h.ptrs.names, h.ptrs.interp, h.events⟩

/-- Nothing is released here, neither the number nor the symbols. -/
def getSymAddr (sys : System) (fuel : Nat) (symName : List UInt8) : Holding UInt64 := do
  let cell ← mallocFor .symbolsNum sys 8
  let r ← exeLoadSymbols sys fuel (cell.map fun memory => u64At memory.2 0) none
  match r.result.symbolsNum with
  | none => call (throw (.null .symbolsNum))
  | some symbolsNum => call (findSymbol r.result.symbols symbolsNum symName fuel 0)

section Walk
variable (systems : List UInt8 → System) (fuel : Nat) (symName : List UInt8)

def ldSearch : List SoNode → Holding (Option (SoNode × UInt64))
  | [] => return none
  | node :: nodes => do
      let symAddr ← getSymAddr (systems node.pathname) fuel symName
      if symAddr ≠ noAddress then return some (node, symAddr) else ldSearch nodes

def ldFindAddress (nodes : List SoNode) : Holding UInt64 := do
  match ← ldSearch systems fuel symName nodes with
  | none => return noAddress
  | some (node, symAddr) =>
      if symAddr > node.addrStart then return symAddr
      else
        let symAddr := node.addrStart + symAddr
        if symAddr < node.addrEnd then return symAddr else return noAddress

end Walk

end Holding

end TelnetDebug.Image

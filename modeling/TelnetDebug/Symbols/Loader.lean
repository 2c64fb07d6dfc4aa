import TelnetDebug.Symbols.ElfFormat

/-! The loader as it reads a file. Every access to an object that was read or
allocated is checked against the size of that object, and a loop that the code
does not bound takes as many turns as it is given fuel. -/
namespace TelnetDebug.Image

open CBuffer Posix

/-- The objects that the loader goes through a pointer. -/
inductive ElfObject where
  | sechdrs
  | proghdrs
  | strsymtbl
  | syms
  | symbols
  | symbolsNum
deriving DecidableEq

/-- Why a call does not return: an access outside an object or through a null
pointer, or a loop that goes on. -/
inductive LoadFault where
  | outside (object : ElfObject) (index : Nat)
  | null (object : ElfObject)
  | endless
deriving DecidableEq

structure ElfInterp where
  name : Option (List UInt8)
  length : UInt64
  phAddr : UInt64
deriving DecidableEq

/-- A pointer that is null is `none`. -/
structure ElfInternals where
  fd : UInt32
  proghdrOffset : UInt64
  proghdrs : Option (List UInt8)
  proghdrNum : UInt64
  proghdrSize : UInt64
  sechdrOffset : UInt64
  sechdrs : Option (List UInt8)
  sechdrNum : UInt64
  sechdrSize : UInt64
  secnametblIdx : UInt64
  strsectbl : Option (List UInt8)
  strsectblSize : UInt64
  symbols : Option (List ElfSymbol)
  symbolsNum : UInt64
  interp : ElfInterp

def ElfInterp.zero : ElfInterp := ⟨none, 0, 0⟩

/-- All fields are zero but the descriptor. -/
def ElfInternals.opened (fd : UInt32) : ElfInternals where
  fd := fd
  proghdrOffset := 0
  proghdrs := none
  proghdrNum := 0
  proghdrSize := 0
  sechdrOffset := 0
  sechdrs := none
  sechdrNum := 0
  sechdrSize := 0
  secnametblIdx := 0
  strsectbl := none
  strsectblSize := 0
  symbols := none
  symbolsNum := 0
  interp := .zero

/-- The bytes of one entry of a table, all of them inside the table. -/
def entryAt (object : ElfObject) (entrySize : Nat) (table : List UInt8) (idx : Nat) :
    Call LoadFault (List UInt8) :=
  if (idx + 1) * entrySize ≤ table.length then pure (slice table (idx * entrySize) entrySize)
  else throw (.outside object idx)

/-- The string at an offset, which has to end inside the table. -/
def stringAt (object : ElfObject) (table : List UInt8) (offset : Nat) :
    Call LoadFault (List UInt8) :=
  if Terminated (table.drop offset) then pure (text (table.drop offset))
  else throw (.outside object (max offset table.length))

def sechdrAt (sechdrs : List UInt8) (idx : Nat) : Call LoadFault Shdr := do
  return .ofBytes (← entryAt .sechdrs shdrSize sechdrs idx)

def exeOpenFilename (sys : System) : Call LoadFault UInt32 := do
  let fd ← openFile sys
  -- The descriptor is unsigned.
  if fd < 0 then return -1
  return fd

/-- `symbols[symbols_num++] = s`. -/
def ElfInternals.store (ei : ElfInternals) (s : ElfSymbol) : Call LoadFault ElfInternals :=
  match ei.symbols with
  | none => throw (.null .symbols)
  | some array =>
      if ei.symbolsNum.toNat < array.length then
        pure { ei with
          symbols := some (array.set ei.symbolsNum.toNat s)
          symbolsNum := ei.symbolsNum + 1 }
      else throw (.outside .symbols ei.symbolsNum.toNat)

/-- The name of an entry; the string table is not looked at for offset zero. -/
def symbolName (strsymtbl : List UInt8) (sym : ElfSym) : Call LoadFault (List UInt8) :=
  if sym.stName > 0 then stringAt .strsymtbl strsymtbl sym.stName.toNat else pure []

/-- One turn of the loop over the entries of a symbol table. An entry whose
name cannot be copied is passed over. -/
def storeSymbol (sys : System) (strsymtbl syms : List UInt8) (ei : ElfInternals) (idx : Nat) :
    Call LoadFault ElfInternals := do
  let sym := ElfSym.ofBytes (← entryAt .syms symSize syms idx)
  let name ← symbolName strsymtbl sym
  let copied ← allocates sys
  if copied then ei.store ⟨some name, sym.stValue, exeGetType sym.stInfo, sym.stSize⟩
  else return ei

/-- The size of an `elf_symbol` in memory. -/
def elfSymbolSize : UInt64 := 32

/-- The body of the loop in `exe_load_symbol_table`. It ends the loop with a
result, or the loop goes on. -/
def symbolTableBody (sys : System) (ei : ElfInternals) (symh strh : Shdr) :
    Call LoadFault (Option UInt32 × ElfInternals) := do
  let offset ← lseek sys ei.fd strh.shOffset
  if offset < 0 then return (some (-1), ei)
  let some strsymtbl ← malloc sys strh.shSize | return (some (-1), ei)
  let some strings ← read sys ei.fd strh.shSize | return (some (-1), ei)
  let strsymtbl := overwrite strsymtbl strings
  if symh.shEntsize > 0 ∧ symh.shSize > 0 then
    let symNum := symh.shSize / symh.shEntsize
    let some syms ← malloc sys symh.shSize | return (some (-1), ei)
    let offset ← lseek sys ei.fd symh.shOffset
    if offset < 0 then return (some (-1), ei)
    let some entries ← read sys ei.fd symh.shSize | return (some (-1), ei)
    let syms := overwrite syms entries
    let size := (symNum + ei.symbolsNum) * elfSymbolSize
    let enlarged ← realloc sys ei.symbols.isSome size
    if !enlarged then return (some (-1), { ei with symbols := none })
    -- The whole array is cleared, the symbols of earlier tables with it.
    let cleared := List.replicate (size / elfSymbolSize).toNat ElfSymbol.cleared
    let ei ← (List.range' 1 (symNum.toNat - 1)).foldlM (storeSymbol sys strsymtbl syms)
      { ei with symbols := some cleared }
    return (some 0, ei)
  else return (none, ei)

def exeLoadSymbolTable (sys : System) (symh strh : Shdr) :
    Nat → ElfInternals → Call LoadFault (UInt32 × ElfInternals)
  | 0, _ => throw .endless
  | fuel + 1, ei => do
      match ← symbolTableBody sys ei symh strh with
      | (some rc, ei) => return (rc, ei)
      | (none, ei) => exeLoadSymbolTable sys symh strh fuel ei

/-- One turn of the loop over the sections. The symbol table that waits for its
string table is `symtab`. -/
def scanSection (sys : System) (fuel : Nat) (sechdrs : List UInt8)
    (state : Option Nat × ElfInternals) (idx : Nat) :
    Call LoadFault (Option Nat × ElfInternals) := do
  let (symtab, ei) := state
  let hdr ← sechdrAt sechdrs idx
  if hdr.HoldsSymbols then return (some idx, ei)
  else if hdr.shType = shtStrtab ∧ idx ≠ ei.secnametblIdx.toNat then
    match symtab with
    | some symtab =>
        let symh ← sechdrAt sechdrs symtab
        let (_, ei) ← exeLoadSymbolTable sys symh hdr fuel ei
        return (none, ei)
    | none => return (none, ei)
  else return (symtab, ei)

def exeLoadSectionHeaders (sys : System) (fuel : Nat) (ei : ElfInternals) :
    Call LoadFault (UInt32 × ElfInternals) := do
  if ei.sechdrOffset = 0 ∨ ei.sechdrSize = 0 then return (-1, ei)
  let some _ ← malloc sys ei.sechdrSize | return (-1, { ei with sechdrs := none })
  let sechdrs := List.replicate ei.sechdrSize.toNat 0
  let ei := { ei with sechdrs := some sechdrs }
  let offset ← lseek sys ei.fd ei.sechdrOffset
  if offset < 0 then return (-1, ei)
  let some headers ← read sys ei.fd ei.sechdrSize | return (-1, ei)
  let sechdrs := overwrite sechdrs headers
  let ei := { ei with sechdrs := some sechdrs }
  let strsectblhdr ← sechdrAt sechdrs ei.secnametblIdx.toNat
  let offset ← lseek sys ei.fd strsectblhdr.shOffset
  if offset < 0 then return (-1, ei)
  let some strsectbl ← malloc sys strsectblhdr.shSize | return (-1, { ei with strsectbl := none })
  let ei := { ei with strsectbl := some strsectbl, strsectblSize := strsectblhdr.shSize }
  let some names ← read sys ei.fd strsectblhdr.shSize | return (-1, ei)
  let ei := { ei with strsectbl := some (overwrite strsectbl names) }
  let (_, ei) ← (List.range ei.sechdrNum.toNat).foldlM (scanSection sys fuel sechdrs) (none, ei)
  return (0, ei)

/-- The loop over the program headers; each interpreter name replaces the one
before. -/
def loadInterp (sys : System) (proghdrs : List UInt8) :
    List Nat → ElfInternals → Call LoadFault (UInt32 × ElfInternals)
  | [], ei => return (0, ei)
  | idx :: rest, ei => do
      let ph := Phdr.ofBytes (← entryAt .proghdrs phdrSize proghdrs idx)
      if ph.pType = ptInterp ∧ ph.pFilesz ≠ 0 then
        let offset ← lseek sys ei.fd ph.pOffset
        if offset < 0 then return (-1, ei)
        let interp := if ei.interp.name.isSome then .zero else ei.interp
        let some memory ← malloc sys ph.pFilesz | return (-1, { ei with interp := interp })
        let interp := { interp with name := some memory }
        let some name ← read sys ei.fd ph.pFilesz | return (-1, { ei with interp := interp })
        let interp := ⟨some (overwrite memory name), ph.pFilesz, ph.pVaddr⟩
        loadInterp sys proghdrs rest { ei with interp := interp }
      else loadInterp sys proghdrs rest ei

def exeLoadProgramHeaders (sys : System) (ei : ElfInternals) :
    Call LoadFault (UInt32 × ElfInternals) := do
  if ei.proghdrOffset = 0 ∨ ei.proghdrSize = 0 then return (-1, ei)
  let some _ ← malloc sys ei.proghdrSize | return (-1, { ei with proghdrs := none })
  let proghdrs := List.replicate ei.proghdrSize.toNat 0
  let ei := { ei with proghdrs := some proghdrs }
  let offset ← lseek sys ei.fd ei.proghdrOffset
  if offset < 0 then return (-1, ei)
  let some headers ← read sys ei.fd ei.proghdrSize | return (-1, ei)
  let proghdrs := overwrite proghdrs headers
  loadInterp sys proghdrs (List.range ei.proghdrNum.toNat) { ei with proghdrs := some proghdrs }

/-- The product of two 16-bit fields is an `int`, and becomes a `size_t`. -/
def sizeProduct (count size : UInt16) : UInt64 :=
  let product := count.toNat * size.toNat
  .ofNat (if product < 2 ^ 31 then product else product + (2 ^ 64 - 2 ^ 32))

/-- The fields that the file header sets. -/
def ElfInternals.withHeader (ei : ElfInternals) (hdr : Ehdr) : ElfInternals :=
  let ei := if hdr.eShoff > 0 then
    { ei with
      sechdrOffset := hdr.eShoff
      sechdrNum := hdr.eShnum.toUInt64
      sechdrSize := sizeProduct hdr.eShnum hdr.eShentsize
      secnametblIdx := hdr.eShstrndx.toUInt64 }
  else ei
  if hdr.ePhoff > 0 then
    { ei with
      proghdrOffset := hdr.ePhoff
      proghdrNum := hdr.ePhnum.toUInt64
      proghdrSize := sizeProduct hdr.ePhnum hdr.ePhentsize }
  else ei

def exeLoadHeaders (sys : System) (fuel : Nat) (ei : ElfInternals) :
    Call LoadFault (UInt32 × ElfInternals) := do
  let offset ← lseek sys ei.fd 0
  if offset < 0 then return (-1, ei)
  let some bytes ← read sys ei.fd (.ofNat ehdrSize) | return (-1, ei)
  let hdr := Ehdr.ofBytes (overwrite (List.replicate ehdrSize 0) bytes)
  if hdr.eMachine ≠ emX8664 ∧ hdr.eMachine ≠ em386 ∧ hdr.eMachine ≠ emPpc ∧
      hdr.eMachine ≠ emArm then return (-1, ei)
  -- The results are unsigned, here and in the callers.
  let (rc, ei) ← exeLoadSectionHeaders sys fuel (ei.withHeader hdr)
  if rc < 0 then return (-1, ei)
  let (rc, ei) ← exeLoadProgramHeaders sys ei
  if rc < 0 then return (-1, ei)
  return (0, ei)

/-- What `exe_load_symbols` returns and leaves behind its two pointers, and the
array that it freed with the names in it. -/
structure LoadResult where
  symbols : Option (List ElfSymbol)
  symbolsNum : Option UInt64
  interp : Option ElfInterp
  freed : Option (List ElfSymbol)

def exeLoadSymbols (sys : System) (fuel : Nat) (symbolsNum : Option UInt64)
    (interp : Option ElfInterp) : Call LoadFault LoadResult := do
  let fd ← exeOpenFilename sys
  if fd < 0 then return ⟨none, symbolsNum, interp, none⟩
  let (rc, ei) ← exeLoadHeaders sys fuel (.opened fd)
  if rc < 0 then
    return ⟨none, symbolsNum, interp, ei.symbols.map (·.take ei.symbolsNum.toNat)⟩
  else
    match symbolsNum with
    | none => throw (.null .symbolsNum)
    | some _ => return ⟨ei.symbols, some ei.symbolsNum, interp.map fun _ => ei.interp, none⟩

/-- The loop of `get_sym_addr`. Its index has fewer bits than the number of
symbols. -/
def findSymbol (symbols : Option (List ElfSymbol)) (symbolsNum : UInt64) (symName : List UInt8) :
    Nat → UInt32 → Call LoadFault UInt64
  | 0, _ => throw .endless
  | fuel + 1, idx =>
      if idx.toUInt64 < symbolsNum then
        match symbols with
        | none => throw (.null .symbols)
        | some array =>
            match array[idx.toNat]? with
            | none => throw (.outside .symbols idx.toNat)
            | some s =>
                if s.name = some symName then return s.address
                else findSymbol symbols symbolsNum symName fuel (idx + 1)
      else return noAddress

def getSymAddr (sys : System) (fuel : Nat) (symName : List UInt8) : Call LoadFault UInt64 := do
  let cell ← malloc sys 8
  let result ← exeLoadSymbols sys fuel (cell.map fun bytes => u64At bytes 0) none
  match result.symbolsNum with
  | none => throw (.null .symbolsNum)
  | some symbolsNum => findSymbol result.symbols symbolsNum symName fuel 0

end TelnetDebug.Image

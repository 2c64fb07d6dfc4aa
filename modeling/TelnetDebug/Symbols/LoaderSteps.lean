import TelnetDebug.Library.Refusals
import TelnetDebug.Symbols.Loader

/-! The loader cut into its steps. Each step reads a part of the file, and goes
through what it has read. -/
namespace TelnetDebug.Image

open CBuffer Posix Guarded

/-- An unsigned result is never taken for a failure. -/
theorem not_failed (rc : UInt32) : ¬ rc < 0 := Nat.not_lt_zero rc.toNat

/-- The file header, where the file can be read and is for a machine that is
supported. -/
def readEhdr (sys : System) (fd : UInt32) : Call LoadFault (Option Ehdr) := do
  let offset ← lseek sys fd 0
  if offset < 0 then return none
  let some bytes ← read sys fd (.ofNat ehdrSize) | return none
  let hdr := Ehdr.ofBytes (overwrite (List.replicate ehdrSize 0) bytes)
  if hdr.eMachine ≠ emX8664 ∧ hdr.eMachine ≠ em386 ∧ hdr.eMachine ≠ emPpc ∧
      hdr.eMachine ≠ emArm then return none
  return some hdr

theorem exeOpenFilename_eq (sys : System) : exeOpenFilename sys = openFile sys := by
  unfold exeOpenFilename
  exact bind_pure _

/-- The failures of the section headers and of the program headers are lost. -/
theorem exeLoadHeaders_eq (sys : System) (fuel : Nat) (ei : ElfInternals) :
    exeLoadHeaders sys fuel ei = readEhdr sys ei.fd >>= fun hdr =>
      match hdr with
      | none => pure ((-1 : UInt32), ei)
      | some hdr =>
          exeLoadSectionHeaders sys fuel (ei.withHeader hdr) >>= fun r =>
            exeLoadProgramHeaders sys r.2 >>= fun r => pure (0, r.2) := by
  unfold exeLoadHeaders readEhdr
  simp only [bind_assoc]
  congr 1
  funext offset
  split
  · rfl
  · simp only [bind_assoc]
    congr 1
    funext bytes
    cases bytes with
    | none => rfl
    | some bytes =>
        dsimp only
        split
        · rfl
        · -- No unsigned result is negative.
          rw [pure_bind]
          rfl

/-- The section names, behind the section header that describes them. -/
def readSectionNames (sys : System) (sechdrs : List UInt8) (ei : ElfInternals) :
    Call LoadFault (Option (List UInt8) × ElfInternals) := do
  let strsectblhdr ← sechdrAt sechdrs ei.secnametblIdx.toNat
  let offset ← lseek sys ei.fd strsectblhdr.shOffset
  if offset < 0 then return (none, ei)
  let some strsectbl ← malloc sys strsectblhdr.shSize | return (none, { ei with strsectbl := none })
  let ei := { ei with strsectbl := some strsectbl, strsectblSize := strsectblhdr.shSize }
  let some names ← read sys ei.fd strsectblhdr.shSize | return (none, ei)
  return (some sechdrs, { ei with strsectbl := some (overwrite strsectbl names) })

/-- The section headers, read together with the section names. -/
def readSectionHeaders (sys : System) (ei : ElfInternals) :
    Call LoadFault (Option (List UInt8) × ElfInternals) := do
  if ei.sechdrOffset = 0 ∨ ei.sechdrSize = 0 then return (none, ei)
  let some _ ← malloc sys ei.sechdrSize | return (none, { ei with sechdrs := none })
  let sechdrs := List.replicate ei.sechdrSize.toNat 0
  let ei := { ei with sechdrs := some sechdrs }
  let offset ← lseek sys ei.fd ei.sechdrOffset
  if offset < 0 then return (none, ei)
  let some headers ← read sys ei.fd ei.sechdrSize | return (none, ei)
  let sechdrs := overwrite sechdrs headers
  readSectionNames sys sechdrs { ei with sechdrs := some sechdrs }

/-- The section headers are read, and then scanned. -/
theorem exeLoadSectionHeaders_eq (sys : System) (fuel : Nat) (ei : ElfInternals) :
    exeLoadSectionHeaders sys fuel ei = readSectionHeaders sys ei >>= fun r =>
      match r.1 with
      | none => pure ((-1 : UInt32), r.2)
      | some sechdrs =>
          (List.range r.2.sechdrNum.toNat).foldlM (scanSection sys fuel sechdrs) (none, r.2) >>=
            fun state => pure ((0 : UInt32), state.2) := by
  unfold exeLoadSectionHeaders readSectionHeaders readSectionNames
  split
  · rfl
  · simp only [bind_assoc]
    congr 1
    funext memory
    cases memory with
    | none => rfl
    | some memory =>
        simp only [bind_assoc]
        congr 1
        funext offset
        split
        · rfl
        · simp only [bind_assoc]
          congr 1
          funext headers
          cases headers with
          | none => rfl
          | some headers =>
              simp only [bind_assoc]
              congr 1
              funext strsectblhdr
              congr 1
              funext offset
              split
              · rfl
              · simp only [bind_assoc]
                congr 1
                funext strsectbl
                cases strsectbl with
                | none => rfl
                | some strsectbl =>
                    simp only [bind_assoc]
                    congr 1
                    funext names
                    cases names <;> rfl

/-- So are those of the other steps: what is collected is returned. -/
theorem exeLoadSymbols_eq (sys : System) (fuel : Nat) (symbolsNum : Option UInt64)
    (interp : Option ElfInterp) :
    exeLoadSymbols sys fuel symbolsNum interp = openFile sys >>= fun fd =>
      exeLoadHeaders sys fuel (.opened fd) >>= fun r =>
        match symbolsNum with
        | none => throw (.null .symbolsNum)
        | some _ =>
            pure ⟨r.2.symbols, some r.2.symbolsNum, interp.map fun _ => r.2.interp, none⟩ := by
  unfold exeLoadSymbols
  rw [exeOpenFilename_eq]
  rfl

/-- The state in front of the section headers, from a call of `exe_load_symbols`
on. -/
def ReachesSections (sys : System) (s : OsState) (ei : ElfInternals) (t : OsState) : Prop :=
  ∃ fd u hdr, exeOpenFilename sys s = .ok (fd, u) ∧
    readEhdr sys fd u = .ok (some hdr, t) ∧ ei = (ElfInternals.opened fd).withHeader hdr

/-- What reading the two sections of a symbol table gives. -/
inductive TablesRead where
  | failed
  | empty
  | read (strsymtbl syms : List UInt8)

def readEntries (sys : System) (fd : UInt32) (symh : Shdr) (strsymtbl : List UInt8) :
    Call LoadFault TablesRead := do
  let some syms ← malloc sys symh.shSize | return .failed
  let offset ← lseek sys fd symh.shOffset
  if offset < 0 then return .failed
  let some entries ← read sys fd symh.shSize | return .failed
  return .read strsymtbl (overwrite syms entries)

def readTables (sys : System) (fd : UInt32) (symh strh : Shdr) : Call LoadFault TablesRead := do
  let offset ← lseek sys fd strh.shOffset
  if offset < 0 then return .failed
  let some strsymtbl ← malloc sys strh.shSize | return .failed
  let some strings ← read sys fd strh.shSize | return .failed
  if symh.shEntsize > 0 ∧ symh.shSize > 0 then
    readEntries sys fd symh (overwrite strsymtbl strings)
  else return .empty

/-- The symbols of the entries, stored behind those collected before. -/
def storeSymbols (sys : System) (symh : Shdr) (strsymtbl syms : List UInt8) (ei : ElfInternals) :
    Call LoadFault (Option UInt32 × ElfInternals) := do
  let symNum := symh.shSize / symh.shEntsize
  let size := (symNum + ei.symbolsNum) * elfSymbolSize
  let enlarged ← realloc sys ei.symbols.isSome size
  if !enlarged then return (some (-1), { ei with symbols := none })
  let cleared := List.replicate (size / elfSymbolSize).toNat ElfSymbol.cleared
  let ei ← (List.range' 1 (symNum.toNat - 1)).foldlM (storeSymbol sys strsymtbl syms)
    { ei with symbols := some cleared }
  return (some 0, ei)

/-- The sections are read, and then the symbols are stored. -/
theorem symbolTableBody_eq (sys : System) (ei : ElfInternals) (symh strh : Shdr) :
    symbolTableBody sys ei symh strh = readTables sys ei.fd symh strh >>= fun
      | .failed => pure (some (-1), ei)
      | .empty => pure (none, ei)
      | .read strsymtbl syms => storeSymbols sys symh strsymtbl syms ei := by
  unfold symbolTableBody readTables readEntries
  simp only [bind_assoc]
  congr 1
  funext offset
  split
  · rfl
  · simp only [bind_assoc]
    congr 1
    funext strsymtbl
    cases strsymtbl with
    | none => rfl
    | some strsymtbl =>
        simp only [bind_assoc]
        congr 1
        funext strings
        cases strings with
        | none => rfl
        | some strings =>
            dsimp only
            split
            · simp only [bind_assoc]
              congr 1
              funext syms
              cases syms with
              | none => rfl
              | some syms =>
                  simp only [bind_assoc]
                  congr 1
                  funext offset
                  split
                  · rfl
                  · simp only [bind_assoc]
                    congr 1
                    funext entries
                    cases entries <;> rfl
            · rfl

/-- The state of the loader changed in what it keeps of the section headers. -/
def ElfInternals.SameButHeaders (ei ei' : ElfInternals) : Prop :=
  ∃ sechdrs strsectbl size,
    ei' = { ei with sechdrs := sechdrs, strsectbl := strsectbl, strsectblSize := size }

/-- The state of the loader changed in the symbols only. -/
def ElfInternals.SameButSymbols (ei ei' : ElfInternals) : Prop :=
  ∃ symbols num, ei' = { ei with symbols := symbols, symbolsNum := num }

theorem ElfInternals.SameButSymbols.trans {ei ei' ei'' : ElfInternals}
    (h : ei.SameButSymbols ei') (h' : ei'.SameButSymbols ei'') : ei.SameButSymbols ei'' := by
  obtain ⟨_, _, rfl⟩ := h
  obtain ⟨_, _, rfl⟩ := h'
  exact ⟨_, _, rfl⟩

theorem ElfInternals.SameButSymbols.fd_eq {ei ei' : ElfInternals} (h : ei.SameButSymbols ei') :
    ei'.fd = ei.fd := by
  obtain ⟨_, _, rfl⟩ := h
  rfl

theorem ElfInternals.SameButSymbols.names_eq {ei ei' : ElfInternals} (h : ei.SameButSymbols ei') :
    ei'.secnametblIdx.toNat = ei.secnametblIdx.toNat := by
  obtain ⟨_, _, rfl⟩ := h
  rfl

section Frame
variable (sys : System) {s : OsState}

/-- An entry is passed over when memory for its name is refused, and otherwise it
is stored, where the array has room for it. -/
theorem storeSymbol_cases (strsymtbl syms : List UInt8) (ei : ElfInternals) (idx : Nat) :
    Sat (storeSymbol sys strsymtbl syms ei idx s) (fun r => r.2.calls = s.calls + 1 ∧
      (sys.Refuses .other s.calls ∧ r.1 = ei ∨
        ¬ sys.Refuses .other s.calls ∧ ∃ array symbol, ei.symbols = some array ∧
          ei.symbolsNum.toNat < array.length ∧ r.1 = { ei with
            symbols := some (array.set ei.symbolsNum.toNat symbol)
            symbolsNum := ei.symbolsNum + 1 })) (fun _ => True) := by
  unfold storeSymbol entryAt
  split
  · rw [pure_bind]
    refine sat_bind (?_ : Sat _ (fun r => r.2 = s) _) ?_
    · unfold symbolName stringAt
      split
      · split
        · exact rfl
        · exact trivial
      · exact rfl
    · rintro name _ rfl
      apply sat_bind (allocates_outcome sys)
      rintro copied t ⟨hCalls, hCopied⟩
      cases copied with
      | false => exact ⟨hCalls, .inl ⟨not_not.mp fun h => (nomatch hCopied.mpr h), rfl⟩⟩
      | true =>
          rw [if_pos rfl]
          unfold ElfInternals.store
          cases ei.symbols with
          | none => exact trivial
          | some array =>
              dsimp only
              split
              · next hRoom => exact ⟨hCalls, .inr ⟨hCopied.mp rfl, array, _, rfl, hRoom, rfl⟩⟩
              · exact trivial
  · exact trivial

theorem storeSymbol_frame (strsymtbl syms : List UInt8) (ei : ElfInternals) (idx : Nat) :
    Sat (storeSymbol sys strsymtbl syms ei idx s) (fun r => ei.SameButSymbols r.1)
      (fun _ => True) := by
  apply (storeSymbol_cases sys strsymtbl syms ei idx).imp
  rintro ⟨_, t⟩ ⟨-, ⟨-, rfl⟩ | ⟨-, _, _, -, -, rfl⟩⟩
  · exact ⟨_, _, rfl⟩
  · exact ⟨_, _, rfl⟩

theorem storeSymbols_frame (symh : Shdr) (strsymtbl syms : List UInt8) (ei : ElfInternals) :
    Sat (storeSymbols sys symh strsymtbl syms ei s) (fun r => ei.SameButSymbols r.1.2)
      (fun _ => True) := by
  unfold storeSymbols
  apply sat_bind (Sat.any _)
  rintro enlarged t -
  dsimp only
  split
  · exact ⟨_, _, rfl⟩
  · refine sat_bind (?_ : Sat _ (fun r => ei.SameButSymbols r.1) _) ?_
    · apply sat_foldlM fun _ r => ei.SameButSymbols r.1
      · exact ⟨_, _, rfl⟩
      · intro _ idx _ ei' t hSame
        exact (storeSymbol_frame sys strsymtbl syms ei' idx).imp fun _ => hSame.trans
    · rintro _ _ hSame
      exact hSame

theorem symbolTableBody_frame (symh strh : Shdr) (ei : ElfInternals) :
    Sat (symbolTableBody sys ei symh strh s) (fun r => ei.SameButSymbols r.1.2)
      (fun _ => True) := by
  rw [symbolTableBody_eq]
  apply sat_bind (Sat.any _)
  rintro tables t -
  cases tables with
  | failed => exact ⟨_, _, rfl⟩
  | empty => exact ⟨_, _, rfl⟩
  | read strsymtbl syms => exact storeSymbols_frame sys symh strsymtbl syms ei

/-- Loading a table changes the symbols only. -/
theorem exeLoadSymbolTable_frame (symh strh : Shdr) (fuel : Nat) (ei : ElfInternals) :
    Sat (exeLoadSymbolTable sys symh strh fuel ei s) (fun r => ei.SameButSymbols r.1.2)
      (fun _ => True) := by
  induction fuel generalizing ei s with
  | zero => exact trivial
  | succ fuel ih =>
      unfold exeLoadSymbolTable
      apply sat_bind (symbolTableBody_frame sys symh strh ei)
      rintro ⟨rc, ei'⟩ t hSame
      cases rc with
      | some rc => exact hSame
      | none => exact (ih ei').imp fun _ => hSame.trans

end Frame

end TelnetDebug.Image

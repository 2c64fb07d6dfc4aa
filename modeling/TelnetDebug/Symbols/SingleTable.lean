import TelnetDebug.Symbols.LoaderOutcomes

/-! Files with one symbol table. Its string table is the next one in the file
that does not hold the section names, which is where the loader looks for it.
The symbols loaded are then those of the table, and so are the addresses found. -/
namespace TelnetDebug.Image

open CBuffer Posix Guarded

/-- The file has exactly one section that holds symbols, `table`. -/
@[mk_iff] structure SingleTable (file : List UInt8) (table : Nat) : Prop where
  header : ehdrSize ≤ file.length
  machine : (ehdrOf file).eMachine = emX8664 ∨ (ehdrOf file).eMachine = em386 ∨
    (ehdrOf file).eMachine = emPpc ∨ (ehdrOf file).eMachine = emArm
  shoff : 0 < (ehdrOf file).eShoff
  shentsize : (ehdrOf file).eShentsize.toNat = shdrSize
  sectionsInFile : (ehdrOf file).eShoff.toNat + (ehdrOf file).eShnum.toNat * shdrSize ≤ file.length
  shstrndx : (ehdrOf file).eShstrndx < (ehdrOf file).eShnum
  namesInFile : Shdr.InFile file (sectionOf file (ehdrOf file).eShstrndx.toNat)
  namesFit : (sectionOf file (ehdrOf file).eShstrndx.toNat).shSize.toNat < 2 ^ 47
  phentsize : 0 < (ehdrOf file).ePhoff → 0 < (ehdrOf file).ePhnum →
    (ehdrOf file).ePhentsize.toNat = phdrSize
  exists_table : table < (ehdrOf file).eShnum.toNat
  only : ∀ k < (ehdrOf file).eShnum.toNat, (sectionOf file k).HoldsSymbols ↔ k = table
  link_lt : linkOf file table < (ehdrOf file).eShnum.toNat
  link_after : table < linkOf file table
  link_type : (sectionOf file (linkOf file table)).shType = shtStrtab
  link_ne : linkOf file table ≠ (ehdrOf file).eShstrndx.toNat
  link_first : ∀ k < linkOf file table, table < k → (sectionOf file k).shType = shtStrtab →
    k = (ehdrOf file).eShstrndx.toNat
  pair : TablePair file (sectionOf file table) (sectionOf file (linkOf file table))
  few : symCount (sectionOf file table) < 2 ^ 32

instance (file : List UInt8) (table : Nat) : Decidable (SingleTable file table) :=
  decidable_of_iff _ (singleTable_iff file table).symm

namespace SingleTable

variable {file : List UInt8} {table : Nat}

/-- The symbol table of the file. -/
def symbolTable (h : SingleTable file table) : SymbolTable := h.pair.table

/-- The state after the table was loaded. -/
def loaded (h : SingleTable file table) (ei : ElfInternals) : ElfInternals :=
  ei.withSymbols (TelnetDebug.exeLoadSymbolTable ei.collected h.symbolTable)

/-- Loading the table into a fresh state is loading the file that has this table
alone. -/
theorem loaded_fresh (h : SingleTable file table) {ei : ElfInternals}
    (hSymbols : ei.symbols = none) (hNum : ei.symbolsNum = 0) :
    (h.loaded ei).symbols = some (TelnetDebug.exeLoadSymbols [h.symbolTable]).symbols ∧
      (h.loaded ei).symbolsNum =
        .ofNat (TelnetDebug.exeLoadSymbols [h.symbolTable]).symbolsNum := by
  have hCollected : ei.collected = ⟨[], 0⟩ := by
    unfold ElfInternals.collected
    rw [hSymbols, hNum]
    rfl
  unfold loaded
  rw [hCollected]
  exact ⟨rfl, rfl⟩

theorem headersInFile (h : SingleTable file table) : HeadersInFile file where
  small := h.pair.small
  shoff := h.shoff
  shentsize := h.shentsize
  sectionsInFile := h.sectionsInFile
  shstrndx := h.shstrndx
  namesInFile := h.namesInFile
  namesFit := h.namesFit

theorem header_read (h : SingleTable file table) :
    Ehdr.ofBytes (overwrite (List.replicate ehdrSize 0)
      (slice file 0 (UInt64.ofNat ehdrSize).toNat)) = ehdrOf file := by
  have hHeader : 0 + ehdrSize ≤ file.length := by
    rw [Nat.zero_add]
    exact h.header
  have hSize : (UInt64.ofNat ehdrSize).toNat = ehdrSize := UInt64.toNat_ofNat_of_lt' (by decide)
  rw [hSize, overwrite_all]
  · rfl
  · rw [slice_length hHeader, List.length_replicate]

theorem supported (h : SingleTable file table) :
    ¬((ehdrOf file).eMachine ≠ emX8664 ∧ (ehdrOf file).eMachine ≠ em386 ∧
      (ehdrOf file).eMachine ≠ emPpc ∧ (ehdrOf file).eMachine ≠ emArm) := by
  rintro ⟨hX8664, h386, hPpc, hArm⟩
  rcases h.machine with hIs | hIs | hIs | hIs
  · exact hX8664 hIs
  · exact h386 hIs
  · exact hPpc hIs
  · exact hArm hIs

end SingleTable

section Turn
variable (sys : System) (fuel : Nat) {sechdrs : List UInt8} {k : Nat} {hdr : Shdr}
  (hHdr : sechdrAt sechdrs k = pure hdr) (ei : ElfInternals)
include hHdr

/-- A symbol table waits for the string table, in the place of an earlier one. -/
theorem scanSection_symbols (hSymbols : hdr.HoldsSymbols) (symtab : Option Nat) :
    scanSection sys fuel sechdrs (symtab, ei) k = pure (some k, ei) := by
  unfold scanSection
  rw [hHdr]
  simp only [pure_bind, if_pos hSymbols]

/-- A section of another kind is passed over, and the section names are. -/
theorem scanSection_other (hSymbols : ¬ hdr.HoldsSymbols)
    (hOther : hdr.shType = shtStrtab → k = ei.secnametblIdx.toNat) (symtab : Option Nat) :
    scanSection sys fuel sechdrs (symtab, ei) k = pure (symtab, ei) := by
  unfold scanSection
  rw [hHdr]
  simp only [pure_bind, if_neg hSymbols]
  rw [if_neg fun h => h.2 (hOther h.1)]

/-- Without a symbol table that waits, a string table is passed over. -/
theorem scanSection_idle (hSymbols : ¬ hdr.HoldsSymbols) :
    scanSection sys fuel sechdrs (none, ei) k = pure (none, ei) := by
  unfold scanSection
  rw [hHdr]
  simp only [pure_bind, if_neg hSymbols, ite_self]

/-- The symbol table that waits is loaded with the string table. -/
theorem scanSection_strings (hSymbols : ¬ hdr.HoldsSymbols) (hType : hdr.shType = shtStrtab)
    (hNames : k ≠ ei.secnametblIdx.toNat) {symtab : Nat} {symh : Shdr}
    (hSymh : sechdrAt sechdrs symtab = pure symh) :
    scanSection sys fuel sechdrs (some symtab, ei) k =
      exeLoadSymbolTable sys symh hdr fuel ei >>= fun r => pure (none, r.2) := by
  unfold scanSection
  rw [hHdr]
  simp only [pure_bind, if_neg hSymbols]
  rw [if_pos ⟨hType, hNames⟩, hSymh, pure_bind]

end Turn

/-- The state of the scan in front of section `k`: the symbol table waits for
its string table from the one section to the other. -/
def scanned (table strings : Nat) (ei loaded : ElfInternals) (k : Nat) :
    Option Nat × ElfInternals :=
  if k ≤ table then (none, ei) else if k ≤ strings then (some table, ei) else (none, loaded)

section Scanned
variable {table strings : Nat} {ei loaded : ElfInternals} {k : Nat}

theorem scanned_before (h : k ≤ table) : scanned table strings ei loaded k = (none, ei) := if_pos h

theorem scanned_waiting (hTable : table < k) (hStrings : k ≤ strings) :
    scanned table strings ei loaded k = (some table, ei) := by
  rw [scanned, if_neg (Nat.not_le.mpr hTable), if_pos hStrings]

theorem scanned_done (hTable : table < strings) (hStrings : strings < k) :
    scanned table strings ei loaded k = (none, loaded) := by
  rw [scanned, if_neg (by omega), if_neg (Nat.not_le.mpr hStrings)]

end Scanned

section Load
variable {sys : System} (hSys : sys.Reliable) {s : OsState} {fault : LoadFault → Prop}
  {table : Nat} (h : SingleTable sys.file table) {ei : ElfInternals} (hFd : ei.fd = sys.fd)
  (hIdx : ei.secnametblIdx.toNat = (ehdrOf sys.file).eShstrndx.toNat) (hNum : ei.symbolsNum = 0)
  {fuel : Nat} (hFuel : 0 < fuel)
include hSys h hFd hIdx hNum hFuel

theorem scanSection_sat {k : Nat} (hk : k < (ehdrOf sys.file).eShnum.toNat) :
    Sat (scanSection sys fuel (sectionHeaders sys.file)
        (scanned table (linkOf sys.file table) ei (h.loaded ei) k) k s)
      (fun r => r.1 = scanned table (linkOf sys.file table) ei (h.loaded ei) (k + 1)) fault := by
  have hOnly := h.only k hk
  have hAfter := h.link_after
  have hHdr := h.headersInFile.sechdrAt_sectionHeaders hk
  rcases Nat.lt_trichotomy k table with hBefore | rfl | hLater
  · rw [scanned_before (Nat.le_of_lt hBefore), scanned_before hBefore,
      scanSection_idle sys fuel hHdr ei (mt hOnly.mp (Nat.ne_of_lt hBefore))]
    exact rfl
  · rw [scanned_before (Nat.le_refl k), scanned_waiting (Nat.lt_succ_self k) hAfter,
      scanSection_symbols sys fuel hHdr ei (hOnly.mpr rfl)]
    exact rfl
  · have hSymbols := mt hOnly.mp (Nat.ne_of_gt hLater)
    rcases Nat.lt_trichotomy k (linkOf sys.file table) with hWaiting | rfl | hDone
    · have hOther := fun hType => (h.link_first k hWaiting hLater hType).trans hIdx.symm
      rw [scanned_waiting hLater (Nat.le_of_lt hWaiting),
        scanned_waiting (Nat.lt_succ_of_lt hLater) hWaiting,
        scanSection_other sys fuel hHdr ei hSymbols hOther]
      exact rfl
    · have hSmall : symCount (sectionOf sys.file table) + ei.symbolsNum.toNat < 2 ^ 42 := by
        have := h.few
        rw [hNum, UInt64.toNat_zero]
        omega
      rw [scanned_waiting hLater (Nat.le_refl _), scanned_done hLater (Nat.lt_succ_self _),
        scanSection_strings sys fuel hHdr ei hSymbols h.link_type (hIdx ▸ h.link_ne)
          (h.headersInFile.sechdrAt_sectionHeaders h.exists_table)]
      apply sat_bind (exeLoadSymbolTable_sat hSys h.pair hFd hSmall hFuel)
      rintro _ t rfl
      exact rfl
    · rw [scanned_done hAfter hDone, scanned_done hAfter (Nat.lt_succ_of_lt hDone),
        scanSection_idle sys fuel hHdr (h.loaded ei) hSymbols]
      exact rfl

/-- The scan loads the only table, once. -/
theorem scan_sat :
    Sat ((List.range (ehdrOf sys.file).eShnum.toNat).foldlM
        (scanSection sys fuel (sectionHeaders sys.file)) (none, ei) s)
      (fun r => r.1 = (none, h.loaded ei)) fault := by
  have hDone : scanned table (linkOf sys.file table) ei (h.loaded ei)
      (ehdrOf sys.file).eShnum.toNat = (none, h.loaded ei) := scanned_done h.link_after h.link_lt
  rw [← hDone]
  apply sat_range fun k r =>
    r.1 = scanned table (linkOf sys.file table) ei (h.loaded ei) k
  · exact (scanned_before (Nat.zero_le table)).symm
  · rintro k hk b t hScanned
    change b = _ at hScanned
    rw [hScanned]
    exact scanSection_sat hSys h hFd hIdx hNum hFuel hk

/-- Loading the section headers loads the table, and leaves alone what is known
of the program headers. -/
theorem exeLoadSectionHeaders_sat (hOffset : ei.sechdrOffset = (ehdrOf sys.file).eShoff)
    (hCount : ei.sechdrNum.toNat = (ehdrOf sys.file).eShnum.toNat)
    (hSize : ei.sechdrSize.toNat = (ehdrOf sys.file).eShnum.toNat * shdrSize) :
    Sat (exeLoadSectionHeaders sys fuel ei s)
      (fun r => r.1.2.symbols = (h.loaded ei).symbols ∧
        r.1.2.symbolsNum = (h.loaded ei).symbolsNum ∧ r.1.2.fd = ei.fd ∧
        r.1.2.proghdrNum = ei.proghdrNum ∧ r.1.2.proghdrSize = ei.proghdrSize) fault := by
  rw [exeLoadSectionHeaders_eq]
  apply sat_bind (readSectionHeaders_sat hSys h.headersInFile hFd hOffset hSize hIdx)
  rintro ⟨_, _⟩ t ⟨rfl, _, _, _, rfl⟩
  dsimp only
  rw [hCount]
  apply sat_bind (scan_sat hSys h _ _ _ hFuel)
  · rintro _ t rfl
    exact ⟨rfl, rfl, rfl, rfl, rfl⟩
  · exact hFd
  · exact hIdx
  · exact hNum

end Load

/-- The program headers are read inside their table, and the symbols are not
touched, whatever the calls return. -/
theorem exeLoadProgramHeaders_sat {sys : System} {ei : ElfInternals} (hFd : ei.fd = sys.fd)
    (hSize : ei.proghdrNum.toNat * phdrSize ≤ ei.proghdrSize.toNat) {s : OsState}
    {fault : LoadFault → Prop} :
    Sat (exeLoadProgramHeaders sys ei s)
      (fun r => r.1.2.symbols = ei.symbols ∧ r.1.2.symbolsNum = ei.symbolsNum) fault := by
  have hInside : ProgramsInside sys ei s.calls := by
    intro _ _
    rw [List.range_eq_range']
    apply interpsInside_of_phdrsInside
    intro idx _ hLt _
    rw [proghdrsDelivered_length]
    exact (Nat.mul_le_mul_right phdrSize (by omega)).trans hSize
  exact (exeLoadProgramHeaders_outcome sys ei hFd).mono (fun _ h => h.2) fun _ hOutside =>
    absurd hInside hOutside

theorem withHeader_programs {hdr : Ehdr} (fd : UInt32)
    (hPhentsize : 0 < hdr.ePhoff → 0 < hdr.ePhnum → hdr.ePhentsize.toNat = phdrSize) :
    ((ElfInternals.opened fd).withHeader hdr).proghdrNum.toNat * phdrSize ≤
      ((ElfInternals.opened fd).withHeader hdr).proghdrSize.toNat := by
  have hGiven : 0 < hdr.ePhoff → hdr.ePhnum.toUInt64.toNat * phdrSize ≤
      (sizeProduct hdr.ePhnum hdr.ePhentsize).toNat := by
    intro hPhoff
    rw [UInt16.toNat_toUInt64]
    rcases Nat.eq_zero_or_pos hdr.ePhnum.toNat with hNone | hSome
    · rw [hNone, Nat.zero_mul]
      exact Nat.zero_le _
    · have hPhnum := hdr.ePhnum.toNat_lt
      have hEntry := hPhentsize hPhoff (UInt16.lt_iff_toNat_lt.mpr hSome)
      rw [sizeProduct_toNat, hEntry]
      rw [hEntry, phdrSize]
      omega
  unfold ElfInternals.withHeader
  split
  · split
    · exact hGiven ‹_›
    · exact Nat.le_refl 0
  · split
    · exact hGiven ‹_›
    · exact Nat.le_refl 0

/-- The lookup goes through the first symbols of the array. -/
theorem findSymbol_eq {array : List ElfSymbol} {symbolsNum : UInt64} {symName : List UInt8}
    (hArray : symbolsNum.toNat ≤ array.length) (hSmall : symbolsNum.toNat < 2 ^ 32) {fuel : Nat}
    {idx : UInt32} (hIdx : idx.toNat ≤ symbolsNum.toNat)
    (hFuel : symbolsNum.toNat - idx.toNat < fuel) :
    findSymbol (some array) symbolsNum symName fuel idx =
      pure (match ((array.take symbolsNum.toNat).drop idx.toNat).find?
          (fun s => s.name = some symName) with
        | some s => s.address
        | none => noAddress) := by
  induction fuel generalizing idx with
  | zero => omega
  | succ fuel ih =>
      have hTurn : idx.toUInt64 < symbolsNum ↔ idx.toNat < symbolsNum.toNat := by
        rw [UInt64.lt_iff_toNat_lt, UInt32.toNat_toUInt64]
      unfold findSymbol
      by_cases hLt : idx.toNat < symbolsNum.toNat
      · have hTake : idx.toNat < (array.take symbolsNum.toNat).length := by
          rw [List.length_take]
          omega
        have hEntry : array[idx.toNat]? = some (array.take symbolsNum.toNat)[idx.toNat] := by
          rw [List.getElem_take, List.getElem?_eq_getElem]
        have hNext : (idx + 1).toNat = idx.toNat + 1 := by
          rw [UInt32.toNat_add, UInt32.toNat_one]
          omega
        rw [if_pos (hTurn.mpr hLt)]
        dsimp only
        rw [hEntry, List.drop_eq_getElem_cons hTake, List.find?_cons]
        dsimp only
        by_cases hName : (array.take symbolsNum.toNat)[idx.toNat].name = some symName
        · rw [if_pos hName, decide_eq_true hName]
        · rw [if_neg hName, decide_eq_false hName, ih (by omega) (by omega), hNext]
      · rw [if_neg (mt hTurn.mp hLt), List.drop_eq_nil_of_le]
        · rfl
        · rw [List.length_take]
          omega

section Symbols
variable {sys : System} (hSys : sys.Reliable) {s : OsState} {fault : LoadFault → Prop}
  {table : Nat} (h : SingleTable sys.file table) {fuel : Nat} (hFuel : 0 < fuel)
include hSys h hFuel

theorem exeLoadHeaders_sat :
    Sat (exeLoadHeaders sys fuel (.opened sys.fd) s)
      (fun r => r.1.2.symbols = some (TelnetDebug.exeLoadSymbols [h.symbolTable]).symbols ∧
        r.1.2.symbolsNum = .ofNat (TelnetDebug.exeLoadSymbols [h.symbolTable]).symbolsNum)
      fault := by
  obtain ⟨hFd, hOffset, hCount, hSize, hIdx, hSymbols, hNum⟩ :=
    withHeader_sections (.opened sys.fd) h.shoff h.shentsize
  unfold exeLoadHeaders
  apply sat_bind (lseek_sat hSys rfl (by decide))
  intro offset t hSeek
  rw [if_neg hSeek.1]
  apply sat_bind (read_sat hSys rfl)
  rintro _ u rfl
  rw [hSeek.2]
  dsimp only
  rw [UInt64.toNat_zero, h.header_read, if_neg h.supported]
  apply sat_bind (exeLoadSectionHeaders_sat hSys h hFd hIdx hNum hFuel hOffset hCount hSize)
  rintro ⟨rc, ei⟩ t ⟨hLoaded, hLoadedNum, hSameFd, hPhnum, hPhsize⟩
  dsimp only at hLoaded hLoadedNum hSameFd hPhnum hPhsize ⊢
  have hPrograms := withHeader_programs sys.fd h.phentsize
  rw [← hPhnum, ← hPhsize] at hPrograms
  rw [if_neg (not_failed rc)]
  apply sat_bind (exeLoadProgramHeaders_sat (hSameFd.trans hFd) hPrograms)
  rintro ⟨rc, ei'⟩ u ⟨hSame, hSameNum⟩
  dsimp only at hSame hSameNum ⊢
  rw [if_neg (not_failed rc)]
  have hFresh := h.loaded_fresh hSymbols hNum
  exact ⟨(hSame.trans hLoaded).trans hFresh.1, (hSameNum.trans hLoadedNum).trans hFresh.2⟩

theorem exeLoadSymbols_sat (symbolsNum : UInt64) (interp : Option ElfInterp) :
    Sat (exeLoadSymbols sys fuel (some symbolsNum) interp s)
      (fun r => r.1.symbols = some (TelnetDebug.exeLoadSymbols [h.symbolTable]).symbols ∧
        r.1.symbolsNum =
          some (.ofNat (TelnetDebug.exeLoadSymbols [h.symbolTable]).symbolsNum)) fault := by
  unfold exeLoadSymbols exeOpenFilename
  rw [bind_assoc]
  apply sat_bind (openFile_sat hSys)
  rintro _ t rfl
  rw [if_neg (not_failed sys.fd), pure_bind, if_neg (not_failed sys.fd)]
  apply sat_bind (exeLoadHeaders_sat hSys h hFuel)
  rintro ⟨rc, ei⟩ u ⟨hSymbols, hNum⟩
  dsimp only at hSymbols hNum ⊢
  rw [if_neg (not_failed rc)]
  exact ⟨hSymbols, congrArg some hNum⟩

end Symbols

/-- The symbols of a file with one table: those of its entries, entry 0 apart,
in front of an array with room for as many symbols as the table has entries. -/
theorem SingleTable.loaded_lengths {file : List UInt8} {table : Nat}
    (h : SingleTable file table) :
    (TelnetDebug.exeLoadSymbols [h.symbolTable]).symbolsNum =
        symCount (sectionOf file table) - 1 ∧
      (TelnetDebug.exeLoadSymbols [h.symbolTable]).symbols.length =
        symCount (sectionOf file table) := by
  have hCount : h.symbolTable.syms.length = symCount (sectionOf file table) := h.pair.syms_length
  obtain ⟨hNum, hLength⟩ := foldl_push_lengths h.symbolTable.symbol
    ⟨List.replicate (h.symbolTable.syms.length + 0) .cleared, 0⟩ h.symbolTable.syms.tail
  constructor
  · rw [← hCount, ← List.length_tail, ← Nat.zero_add h.symbolTable.syms.tail.length]
    exact hNum
  · rw [← hCount, ← Nat.add_zero h.symbolTable.syms.length]
    exact hLength.trans List.length_replicate

/-- The loader returns the entries of the table, entry 0 apart, each with its
name from the linked string table, and the lookup the value of the first of
these entries that has the name. -/
theorem single_table_loaded {sys : System} (hSys : sys.Reliable) {table : Nat}
    (h : SingleTable sys.file table) {fuel : Nat}
    (hFuel : symCount (sectionOf sys.file table) ≤ fuel) (s : OsState) :
    (∀ symbolsNum interp, Sat (exeLoadSymbols sys fuel (some symbolsNum) interp s)
      (fun r => ∃ array count, r.1.symbols = some array ∧ r.1.symbolsNum = some count ∧
        count.toNat = symCount (sectionOf sys.file table) - 1 ∧
        array.take count.toNat = h.symbolTable.syms.tail.map h.symbolTable.symbol)
      (fun _ => False)) ∧
    ∀ symName, Sat (getSymAddr sys fuel symName s)
      (fun r => r.1 = ((h.symbolTable.syms.tail.find? fun sym =>
        h.symbolTable.name sym = symName).map ElfSym.stValue).getD noAddress)
      (fun _ => False) := by
  obtain ⟨hNum, hLength⟩ := h.loaded_lengths
  have hFew := h.few
  have hNonempty := h.pair.nonempty
  have hCount : (UInt64.ofNat (TelnetDebug.exeLoadSymbols [h.symbolTable]).symbolsNum).toNat =
      (TelnetDebug.exeLoadSymbols [h.symbolTable]).symbolsNum := by
    apply UInt64.toNat_ofNat_of_lt'
    rw [hNum, UInt64.size]
    omega
  constructor
  · intro symbolsNum interp
    apply (exeLoadSymbols_sat hSys h (by omega) symbolsNum interp).imp
    rintro r ⟨hSymbols, hLoadedNum⟩
    refine ⟨_, _, hSymbols, hLoadedNum, hCount.trans hNum, ?_⟩
    rw [hCount]
    exact exeLoadSymbolTable_spec ⟨[], 0⟩ h.symbolTable
  · intro symName
    have hFirst := getSymAddr_eq [h.symbolTable] symName
    unfold getSymAddr
    apply sat_bind (malloc_sat hSys (by decide))
    rintro _ t ⟨-, cell, rfl, -⟩
    apply sat_bind (exeLoadSymbols_sat hSys h (by omega) _ none)
    rintro r u ⟨hSymbols, hLoadedNum⟩
    dsimp only at hSymbols hLoadedNum ⊢
    rw [hSymbols, hLoadedNum]
    dsimp only
    rw [findSymbol_eq (by omega) (by omega) (Nat.zero_le _) (by omega), hCount]
    exact hFirst

/-- A file with one function, `f` at 4096. -/
@[irreducible] def smallFile : List UInt8 :=
  let shdr (type offset size link entsize : UInt8) : List UInt8 :=
    [0, 0, 0, 0, type, 0, 0, 0] ++ List.replicate 16 0 ++ [offset, 1, 0, 0, 0, 0, 0, 0] ++
      [size, 0, 0, 0, 0, 0, 0, 0] ++ [link, 0, 0, 0] ++ List.replicate 12 0 ++
      [entsize, 0, 0, 0, 0, 0, 0, 0]
  let ehdr := [0x7f, 69, 76, 70, 2, 1, 1] ++ List.replicate 9 0 ++ [3, 0, 62, 0] ++
    List.replicate 20 0 ++ [64] ++ List.replicate 17 0 ++ [64, 0, 4, 0, 3, 0]
  ehdr ++ List.replicate 64 0 ++ shdr 2 64 48 2 24 ++ shdr 3 112 3 0 0 ++ shdr 3 115 1 0 0 ++
    List.replicate 24 0 ++ [1, 0, 0, 0, 0x12, 0, 1, 0] ++ [0, 16, 0, 0, 0, 0, 0, 0] ++
    [16, 0, 0, 0, 0, 0, 0, 0] ++ [0, 102, 0] ++ [0]

def smallSystem : System where
  file := smallFile
  fd := 3
  fails := fun _ => false
  upTo := fun _ => 4096
  fresh := fun _ _ => 0xa5
  descriptor := by decide

theorem smallSystem_reliable : smallSystem.Reliable where
  succeeds := fun _ => rfl
  delivers := by
    have hLength : smallFile.length ≤ 4096 := by decide +kernel
    exact fun _ => hLength

theorem smallFile_single : SingleTable smallSystem.file 1 := by decide +kernel

theorem single_table_loaded_small :
    Sat (exeLoadSymbols smallSystem 2 (some 0) none ⟨0, 0⟩)
      (fun r => ∃ array count, r.1.symbols = some array ∧ r.1.symbolsNum = some count ∧
        count.toNat = 1 ∧ array.take count.toNat = [⟨some [102], 4096, .function, 16⟩])
      (fun _ => False) ∧
    Sat (getSymAddr smallSystem 2 [102] ⟨0, 0⟩) (fun r => r.1 = 4096) (fun _ => False) := by
  have hCount : symCount (sectionOf smallSystem.file 1) = 2 := by decide +kernel
  have hSymbols : smallFile_single.symbolTable.syms.tail.map smallFile_single.symbolTable.symbol =
      [⟨some [102], 4096, .function, 16⟩] := by decide +kernel
  have hFound : ((smallFile_single.symbolTable.syms.tail.find? fun sym =>
      smallFile_single.symbolTable.name sym = [102]).map ElfSym.stValue).getD noAddress =
      4096 := by decide +kernel
  obtain ⟨hLoad, hFind⟩ := single_table_loaded smallSystem_reliable smallFile_single
    (Nat.le_of_eq hCount) ⟨0, 0⟩
  constructor
  · apply (hLoad 0 none).imp
    rintro r ⟨array, count, hArray, hNum, hLength, hTake⟩
    exact ⟨array, count, hArray, hNum, hLength.trans (congrArg (· - 1) hCount),
      hTake.trans hSymbols⟩
  · apply (hFind [102]).imp
    exact fun r hFirst => hFirst.trans hFound

end TelnetDebug.Image

import TelnetDebug.Symbols.LinkedTables
import TelnetDebug.Symbols.FileInside

/-! The symbol tables of a file, as its bytes have them. Loading the file is the
loading of these tables one after the other, and the lookup in the file is the
lookup in them. -/
namespace TelnetDebug.Image

open CBuffer Posix Guarded

instance (hdr : Ehdr) : Decidable (Supported hdr) :=
  inferInstanceAs (Decidable (_ ∨ _ ∨ _ ∨ _))

/-- The table that a pair of sections denotes. -/
def pairTable (file : List UInt8) (pair : Nat × Nat) : Option SymbolTable :=
  if h : TablePair file (sectionOf file pair.1) (sectionOf file pair.2) then some h.table else none

/-- The tables that are loaded, in their order. A file for another machine has
none, and a file without section headers has none. -/
def fileTables (file : List UInt8) : List SymbolTable :=
  if Supported (headerIn file) ∧ 0 < (headerIn file).eShoff then
    (filePairs file).filterMap (pairTable file)
  else []

/-- The section headers lie in the file, the tables that the loader pairs do, and
their symbols can be counted by the lookup. -/
@[mk_iff] structure SectionsWhole (file : List UInt8) : Prop where
  headers : HeadersInFile file
  pairs : ∀ pair ∈ filePairs file,
    TablePair file (sectionOf file pair.1) (sectionOf file pair.2)
  few : pairsCount file (filePairs file) < 2 ^ 32

instance (file : List UInt8) : Decidable (SectionsWhole file) :=
  decidable_of_iff _ (sectionsWhole_iff file).symm

/-- A file for another machine, or one with whole headers and tables. -/
@[mk_iff] structure Readable (file : List UInt8) : Prop where
  header : Supported (headerIn file) → ehdrSize ≤ file.length
  phentsize : Supported (headerIn file) → 0 < (headerIn file).ePhoff →
    0 < (headerIn file).ePhnum → (headerIn file).ePhentsize.toNat = phdrSize
  sections : Supported (headerIn file) → 0 < (headerIn file).eShoff → SectionsWhole file

instance (file : List UInt8) : Decidable (Readable file) :=
  decidable_of_iff _ (readable_iff file).symm

theorem headerIn_eq {file : List UInt8} (h : ehdrSize ≤ file.length) :
    headerIn file = ehdrOf file := by
  have hSlice : (slice file 0 ehdrSize).length = ehdrSize :=
    slice_length (by rwa [Nat.zero_add])
  rw [headerIn, ehdrOf, overwrite_all]
  rw [List.length_replicate, hSlice]

/-- The symbols collected are those of the tables. -/
theorem collected_withSymbols {ei : ElfInternals} {l : TelnetDebug.ElfInternals}
    (h : l.symbolsNum < UInt64.size) : (ei.withSymbols l).collected = l := by
  unfold ElfInternals.collected ElfInternals.withSymbols
  rw [UInt64.toNat_ofNat_of_lt' h]
  rfl

/-- The array has room for every symbol that is stored. -/
theorem exeLoadSymbols_room (tables : List SymbolTable) :
    (TelnetDebug.exeLoadSymbols tables).symbolsNum ≤
      (TelnetDebug.exeLoadSymbols tables).symbols.length := by
  rcases List.eq_nil_or_concat' tables with rfl | ⟨before, t, rfl⟩
  · exact Nat.le_refl 0
  · obtain ⟨hNum, hLength⟩ := foldl_push_lengths t.symbol
      ⟨List.replicate (t.syms.length + (TelnetDebug.exeLoadSymbols before).symbolsNum) .cleared,
        (TelnetDebug.exeLoadSymbols before).symbolsNum⟩ t.syms.tail
    have hLast : TelnetDebug.exeLoadSymbols (before ++ [t]) =
        TelnetDebug.exeLoadSymbolTable (TelnetDebug.exeLoadSymbols before) t :=
      List.foldl_concat ..
    rw [hLast]
    unfold TelnetDebug.exeLoadSymbolTable
    rw [hNum, hLength, List.length_replicate, List.length_tail]
    dsimp only
    omega

section Pairs
variable {file : List UInt8}

/-- The symbols of the tables of some pairs. -/
def pairsLoaded (file : List UInt8) (pairs : List (Nat × Nat)) : TelnetDebug.ElfInternals :=
  TelnetDebug.exeLoadSymbols (pairs.filterMap (pairTable file))

theorem pairsLoaded_concat (pairs : List (Nat × Nat)) {pair : Nat × Nat}
    (h : TablePair file (sectionOf file pair.1) (sectionOf file pair.2)) :
    pairsLoaded file (pairs ++ [pair]) =
      TelnetDebug.exeLoadSymbolTable (pairsLoaded file pairs) h.table := by
  have hTable : pairTable file pair = some h.table := dif_pos h
  rw [pairsLoaded, List.filterMap_append, List.filterMap_cons_some hTable]
  exact List.foldl_concat ..

theorem pairsLoaded_num {pairs : List (Nat × Nat)}
    (h : ∀ pair ∈ pairs, TablePair file (sectionOf file pair.1) (sectionOf file pair.2)) :
    (pairsLoaded file pairs).symbolsNum = pairsCount file pairs := by
  induction pairs using List.reverseRecOn with
  | nil => rfl
  | append_singleton pairs pair ih =>
      have hPair := h pair (List.mem_append_right _ (List.mem_singleton_self pair))
      have hBefore := ih fun other hOther => h other (List.mem_append_left _ hOther)
      rw [pairsLoaded_concat pairs hPair, hPair.loaded_num, pairsCount_concat, hBefore]

end Pairs

/-- Reading the section headers collects nothing. -/
theorem collected_empty {fd : UInt32} {file : List UInt8} {ei ei' : ElfInternals}
    (hFresh : ei.Fresh fd file) (hNone : ei.symbols = none) (hSame : ei.SameButHeaders ei') :
    ei'.collected = ⟨[], 0⟩ := by
  obtain ⟨_, _, _, rfl⟩ := hSame
  unfold ElfInternals.collected
  rw [hNone, hFresh.symbolsNum]
  rfl

section Load
variable {sys : System} (hSys : sys.Reliable) (h : SectionsWhole sys.file) {fuel : Nat}
  (hFuel : 0 < fuel)
include hSys h hFuel

/-- Loading the next table succeeds, and adds its symbols. -/
theorem nextTable_sat {pairs : List (Nat × Nat)} {i j : Nat}
    (hPrefix : pairs ++ [(i, j)] <+: filePairs sys.file) {ei : ElfInternals} (hFd : ei.fd = sys.fd)
    (hCollected : ei.collected = pairsLoaded sys.file pairs) {s : OsState}
    {fault : LoadFault → Prop} :
    Sat (exeLoadSymbolTable sys (hdrIn (sectionHeaders sys.file) i)
        (hdrIn (sectionHeaders sys.file) j) fuel ei s)
      (fun r => NotEmpty (hdrIn (sectionHeaders sys.file) i) ∧ r.1.1 = 0 ∧
        ei.SameButSymbols r.1.2 ∧
        r.1.2.collected = pairsLoaded sys.file (pairs ++ [(i, j)])) fault := by
  have hMem : (i, j) ∈ filePairs sys.file :=
    hPrefix.subset (List.mem_append_right _ (List.mem_singleton_self _))
  obtain ⟨hLt, hAdjacent⟩ := mem_filePairs.mp hMem
  have hi := Nat.lt_trans hAdjacent.lt hLt
  have hPair := h.pairs (i, j) hMem
  have hBefore : ∀ pair ∈ pairs, TablePair sys.file (sectionOf sys.file pair.1)
      (sectionOf sys.file pair.2) :=
    fun pair hPair => h.pairs pair (hPrefix.subset (List.mem_append_left _ hPair))
  have hCount := pairsLoaded_num hBefore
  have hFew := (pairsCount_le hPrefix).trans_lt h.few
  have hNum : ei.symbolsNum.toNat = (pairsLoaded sys.file pairs).symbolsNum :=
    congrArg TelnetDebug.ElfInternals.symbolsNum hCollected
  rw [pairsCount_concat] at hFew
  dsimp only at hFew
  have hSmall : symCount (sectionOf sys.file i) + ei.symbolsNum.toNat < 2 ^ 42 := by omega
  rw [hdrIn_sectionHeaders hi, hdrIn_sectionHeaders hLt]
  apply (exeLoadSymbolTable_sat hSys hPair hFd hSmall hFuel).imp
  rintro ⟨_, t⟩ rfl
  have hLoaded := hPair.loaded_num ei.collected
  refine ⟨hPair.not_empty, rfl, ⟨_, _, rfl⟩, ?_⟩
  rw [collected_withSymbols, hCollected, pairsLoaded_concat _ hPair]
  rw [hLoaded, UInt64.size]
  change ei.symbolsNum.toNat + (symCount (sectionOf sys.file i) - 1) < 2 ^ 64
  omega

/-- The scan collects the symbols of the tables and changes nothing else. -/
theorem scanTables_sat {n : Nat} (hn : n ≤ (ehdrOf sys.file).eShnum.toNat) {ei : ElfInternals}
    (hFd : ei.fd = sys.fd) (hIdx : ei.secnametblIdx.toNat = (ehdrOf sys.file).eShstrndx.toNat)
    (hEmpty : ei.collected = ⟨[], 0⟩) {s : OsState} {fault : LoadFault → Prop} :
    Sat ((List.range n).foldlM (scanSection sys fuel (sectionHeaders sys.file)) (none, ei) s)
      (fun r => r.1.1 = waiting (hdrIn (sectionHeaders sys.file))
          (ehdrOf sys.file).eShstrndx.toNat n ∧
        ei.SameButSymbols r.1.2 ∧ r.1.2.collected = pairsLoaded sys.file
          (tablePairs (hdrIn (sectionHeaders sys.file)) (ehdrOf sys.file).eShstrndx.toNat n))
      fault := by
  rw [← scanCalls_erased []]
  refine sat_bind (scanCalls_sat (fun calls r => ei.SameButSymbols r.1 ∧
    r.1.collected = pairsLoaded sys.file (calls.map TableCall.tables))
    (fun _ _ _ hInv => hInv.1.names_eq.trans hIdx) ?_ ?_ ⟨⟨_, _, rfl⟩, hEmpty⟩) ?_
  · intro k hk hOutside
    rw [h.headers.sectionHeaders_length] at hOutside
    have hInside : k + 1 ≤ (ehdrOf sys.file).eShnum.toNat := Nat.lt_of_lt_of_le hk hn
    exact absurd hOutside (Nat.not_lt.mpr (Nat.mul_le_mul_right shdrSize hInside))
  · rintro calls i j hPrefix ei' t ⟨hSame, hCollected⟩
    apply (nextTable_sat hSys h hFuel (hPrefix.trans (tablePairs_mono hn))
      (hSame.fd_eq.trans hFd) hCollected).imp
    rintro ⟨⟨_, ei''⟩, u⟩ ⟨-, -, hSame', hCollected'⟩
    refine ⟨hSame.trans hSame', ?_⟩
    rw [List.map_append]
    exact hCollected'
  · rintro ⟨calls, symtab, ei'⟩ t ⟨hWaiting, hCalls, hSame, hCollected⟩
    exact ⟨hWaiting, hSame, hCollected.trans (congrArg (pairsLoaded sys.file) hCalls)⟩

/-- Loading the section headers collects the symbols of the file. -/
theorem exeLoadSectionHeaders_tables {ei : ElfInternals} (hFresh : ei.Fresh sys.fd sys.file)
    (hNone : ei.symbols = none) {s : OsState} {fault : LoadFault → Prop} :
    Sat (exeLoadSectionHeaders sys fuel ei s)
      (fun r => r.1.2.fd = sys.fd ∧ r.1.2.proghdrNum = ei.proghdrNum ∧
        r.1.2.proghdrSize = ei.proghdrSize ∧
        r.1.2.collected = pairsLoaded sys.file (filePairs sys.file)) fault := by
  rw [exeLoadSectionHeaders_eq]
  apply sat_bind (readSectionHeaders_sat hSys h.headers hFresh.fd_eq hFresh.offset hFresh.size
    hFresh.names)
  rintro ⟨_, ei'⟩ t ⟨rfl, hSame⟩
  have hFresh' := hSame.fresh hFresh
  have hEmpty := collected_empty hFresh hNone hSame
  obtain ⟨sechdrs, strsectbl, size, rfl⟩ := hSame
  dsimp only
  rw [hFresh'.count]
  apply sat_bind (scanTables_sat hSys h hFuel (Nat.le_refl _) hFresh'.fd_eq hFresh'.names hEmpty)
  rintro ⟨symtab, ei''⟩ u ⟨-, ⟨_, _, rfl⟩, hCollected⟩
  exact ⟨hFresh.fd_eq, rfl, rfl, hCollected⟩

end Load

theorem headed_fresh {sys : System} (h : Readable sys.file)
    (hSupported : Supported (headerIn sys.file)) (hShoff : 0 < (headerIn sys.file).eShoff) :
    (headed sys).Fresh sys.fd sys.file ∧ (headed sys).symbols = none := by
  have hKept : (headed sys).fd = sys.fd ∧ (headed sys).symbols = none ∧ _ :=
    withHeader_kept (.opened sys.fd)
  refine ⟨?_, hKept.2.1⟩
  rw [headed, headerIn_eq (h.header hSupported)]
  exact withHeader_fresh (h.sections hSupported hShoff).headers sys.fd

theorem headed_without_sections {sys : System} (hShoff : ¬ 0 < (headerIn sys.file).eShoff) :
    (headed sys).sechdrOffset = 0 ∨ (headed sys).sechdrSize = 0 := by
  by_contra hGiven
  exact hShoff (sectionsGiven_iff.mp hGiven).1

/-- The table of program headers has the size that the loader expects. -/
theorem headed_programs {sys : System} (h : Readable sys.file)
    (hSupported : Supported (headerIn sys.file)) :
    (headed sys).proghdrNum.toNat * phdrSize ≤ (headed sys).proghdrSize.toNat :=
  withHeader_programs sys.fd (h.phentsize hSupported)

/-- What a load returns, as symbols of tables. -/
def LoadResult.loaded (r : LoadResult) : Option TelnetDebug.ElfInternals :=
  r.symbolsNum.map fun num => ⟨r.symbols.getD [], num.toNat⟩

section File
variable {sys : System} (hSys : sys.Reliable) (h : Readable sys.file) {fuel : Nat}
  (hFuel : 0 < fuel) {s : OsState}
include hSys h hFuel

/-- The section headers of a file for a machine that is supported. -/
theorem sectionHeaders_collected (hSupported : Supported (headerIn sys.file))
    {fault : LoadFault → Prop} :
    Sat (exeLoadSectionHeaders sys fuel (headed sys) s)
      (fun r => r.1.2.fd = sys.fd ∧ r.1.2.proghdrNum = (headed sys).proghdrNum ∧
        r.1.2.proghdrSize = (headed sys).proghdrSize ∧
        r.1.2.collected = TelnetDebug.exeLoadSymbols (fileTables sys.file)) fault := by
  have hKept : (headed sys).fd = sys.fd ∧ (headed sys).symbols = none ∧
      (headed sys).symbolsNum = 0 := withHeader_kept (.opened sys.fd)
  obtain ⟨hFd, hSymbols, hNum⟩ := hKept
  by_cases hShoff : 0 < (headerIn sys.file).eShoff
  · have hSections := h.sections hSupported hShoff
    have hTables : fileTables sys.file = (filePairs sys.file).filterMap (pairTable sys.file) :=
      if_pos ⟨hSupported, hShoff⟩
    have hFresh := (headed_fresh h hSupported hShoff).1
    rw [hTables]
    exact exeLoadSectionHeaders_tables hSys hSections hFuel hFresh hSymbols
  · have hTables : fileTables sys.file = [] := if_neg fun hBoth => hShoff hBoth.2
    rw [exeLoadSectionHeaders_eq]
    unfold readSectionHeaders
    rw [if_pos (headed_without_sections hShoff)]
    refine ⟨hFd, rfl, rfl, ?_⟩
    show (headed sys).collected = _
    rw [ElfInternals.collected, hSymbols, hNum, hTables]
    rfl

/-- The loader returns the symbols of the tables of the file. -/
theorem exeLoadSymbols_tables (symbolsNum : UInt64) (interp : Option ElfInterp)
    {fault : LoadFault → Prop} :
    Sat (exeLoadSymbols sys fuel (some symbolsNum) interp s)
      (fun r => r.1.loaded = some (TelnetDebug.exeLoadSymbols (fileTables sys.file))) fault := by
  refine exeLoadSymbols_rule hSys.delivers (fun hUnread t => ?_) (fun hNull => nomatch hNull)
    fun hSupported t _ => ?_
  · have hAnswered : sys.firstRefused [.lseek 0, .other] (s.calls + 1) = none :=
      firstRefused_none (fun i _ _ => hSys.succeeds i)
        ⟨Nat.two_pow_pos 63, trivial⟩
    have hForeign : ¬ Supported (headerIn sys.file) := by
      intro hSupported
      refine hUnread ⟨?_, hAnswered, ?_⟩
      · exact mt refuses_other.mp (Bool.eq_false_iff.mp (hSys.succeeds s.calls))
      · rwa [ehdrDelivered_eq hSys.delivers]
    have hTables : fileTables sys.file = [] := if_neg fun hBoth => hForeign hBoth.1
    rw [hTables]
    exact rfl
  · apply (sectionHeaders_collected hSys h hFuel hSupported).imp
    rintro ⟨⟨rc, ei⟩, u⟩ ⟨hFd, hNum, hSize, hCollected⟩
    dsimp only at hFd hNum hSize hCollected ⊢
    have hPrograms := headed_programs h hSupported
    rw [← hNum, ← hSize] at hPrograms
    apply (exeLoadProgramHeaders_sat hFd hPrograms).imp
    rintro ⟨⟨rc', ei'⟩, v⟩ ⟨hSymbols, hNum⟩
    dsimp only at hSymbols hNum ⊢
    rw [hSymbols, hNum]
    exact congrArg some hCollected

end File

/-- The number of symbols of a file. -/
def symbolsIn (file : List UInt8) : Nat :=
  (TelnetDebug.exeLoadSymbols (fileTables file)).symbolsNum

theorem symbolsIn_lt {file : List UInt8} (h : Readable file) : symbolsIn file < 2 ^ 32 := by
  unfold symbolsIn fileTables
  split
  · next hGiven =>
      have hSections := h.sections hGiven.1 hGiven.2
      exact (pairsLoaded_num hSections.pairs).trans_lt hSections.few
  · exact Nat.two_pow_pos 32

/-- The lookup in the bytes of a file is the lookup in its tables. -/
theorem getSymAddr_tables {sys : System} (hSys : sys.Reliable) (h : Readable sys.file)
    {fuel : Nat} (hFuel : symbolsIn sys.file < fuel) (symName : List UInt8) {s : OsState}
    {fault : LoadFault → Prop} :
    Sat (getSymAddr sys fuel symName s)
      (fun r => r.1 = TelnetDebug.getSymAddr (fileTables sys.file) symName) fault := by
  have hSmall := symbolsIn_lt h
  have hRoom := exeLoadSymbols_room (fileTables sys.file)
  unfold getSymAddr
  apply sat_bind (malloc_sat hSys (by decide))
  rintro _ t ⟨-, cell, rfl, -⟩
  apply sat_bind (exeLoadSymbols_tables hSys h (Nat.zero_lt_of_lt hFuel) _ none)
  rintro ⟨symbols, symbolsNum, _, _⟩ u hLoaded
  obtain ⟨num, rfl, hCollected⟩ := Option.map_eq_some_iff.mp hLoaded
  have hCount : num.toNat = symbolsIn sys.file :=
    congrArg TelnetDebug.ElfInternals.symbolsNum hCollected
  have hArray : symbols.getD [] = (TelnetDebug.exeLoadSymbols (fileTables sys.file)).symbols :=
    congrArg TelnetDebug.ElfInternals.symbols hCollected
  have hTaken : (symbols.getD []).take num.toNat =
      (TelnetDebug.exeLoadSymbols (fileTables sys.file)).symbols.take
        (TelnetDebug.exeLoadSymbols (fileTables sys.file)).symbolsNum := by
    rw [hArray, hCount]
    rfl
  have hLength : num.toNat ≤ (symbols.getD []).length := by
    rw [hArray, hCount]
    exact hRoom
  have hFind : findSymbol symbols num symName fuel 0 =
      pure (TelnetDebug.getSymAddr (fileTables sys.file) symName) := by
    unfold TelnetDebug.getSymAddr
    dsimp only
    rw [← hTaken]
    cases symbols with
    | none =>
        obtain rfl : num = 0 := UInt64.toNat_inj.mp (Nat.le_zero.mp hLength)
        obtain ⟨turns, rfl⟩ := Nat.exists_eq_succ_of_ne_zero (Nat.ne_zero_of_lt hFuel)
        rfl
    | some array =>
        have hTurns : num.toNat - (0 : UInt32).toNat < fuel :=
          Nat.lt_of_le_of_lt (Nat.sub_le _ _) (hCount ▸ hFuel)
        exact findSymbol_eq hLength (hCount ▸ hSmall) (Nat.zero_le _) hTurns
  dsimp only
  rw [hFind]
  exact rfl

end TelnetDebug.Image

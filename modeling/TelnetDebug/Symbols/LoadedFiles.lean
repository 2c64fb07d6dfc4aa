import TelnetDebug.Symbols.LoaderBounds

/-! Which files the loader takes symbols from. What decides is the machine of the
file header, and a pair of tables with an entry that can be stored; the first
bytes of the file are never looked at. -/
namespace TelnetDebug.Image

open CBuffer Posix Guarded

/-- A symbol can be stored of the table: there is an entry behind the first one,
memory has room for the sections and the array, and the entries are inside for
some contents of the memory behind the end of the file. -/
structure TableLoadable (file : List UInt8) (symh strh : Shdr) : Prop where
  entries : 1 < symNumOf symh
  strings : Shdr.CanBeRead strh
  symbols : Shdr.CanBeRead symh
  array : ArrayFits symh
  inside : ∃ strsymtbl syms, InMemory file strh strsymtbl ∧ InMemory file symh syms ∧
    EntriesInside symh strsymtbl syms

/-- One of the pairs of tables is loadable. -/
def TableFound (file sechdrs : List UInt8) (names n : Nat) : Prop :=
  ∃ pair ∈ tablePairs (hdrIn sechdrs) names n,
    TableLoadable file (hdrIn sechdrs pair.1) (hdrIn sechdrs pair.2)

/-- The header of a file that symbols can be taken from, and what it says of the
sections. -/
structure Loadable (file : List UInt8) : Prop where
  supported : Supported (headerIn file)
  sought : Sought (headerIn file).eShoff (sechdrSizeIn file)
  headers : ∀ k, k = (headerIn file).eShstrndx.toNat ∨ k < (headerIn file).eShnum.toNat →
    (k + 1) * shdrSize ≤ (sechdrSizeIn file).toNat
  names : Shdr.CanBeRead (namesIn file)
  table : TableFound file (sechdrsIn file) (headerIn file).eShstrndx.toNat
    (headerIn file).eShnum.toNat

/-- A list that is not empty. -/
def LoadResult.HasSymbols (r : LoadResult) : Prop :=
  r.symbols.isSome ∧ ∃ num, r.symbolsNum = some num ∧ num ≠ 0

/-- Some answers of the system make the loader return symbols. -/
def Yields (file : List UInt8) : Prop :=
  ∃ sys : System, sys.file = file ∧ sys.Delivers ∧ ∃ fuel symbolsNum interp s r t,
    exeLoadSymbols sys fuel symbolsNum interp s = .ok (r, t) ∧ r.HasSymbols

section Table
variable {symh : Shdr}

theorem notEmpty_of_entries (h : 1 < symNumOf symh) : NotEmpty symh := by
  unfold symNumOf at h
  rw [UInt64.toNat_div] at h
  constructor
  · rw [gt_iff_lt, UInt64.lt_iff_toNat_lt, UInt64.toNat_zero]
    apply Nat.pos_of_ne_zero
    intro hZero
    rw [hZero, Nat.div_zero] at h
    cases h
  · rw [gt_iff_lt, UInt64.lt_iff_toNat_lt, UInt64.toNat_zero]
    apply Nat.pos_of_ne_zero
    intro hZero
    rw [hZero, Nat.zero_div] at h
    cases h

end Table

section Stored
variable {sys : System} {symh strh : Shdr} {strsymtbl syms : List UInt8} {ei : ElfInternals}
  {s : OsState}

/-- Where there was no symbol before, one is there only if the array was granted and
there is an entry to store. -/
theorem storeSymbols_stored (hNum : ei.symbolsNum = 0) :
    Sat (storeSymbols sys symh strsymtbl syms ei s) (fun r => r.1.2.symbolsNum ≠ 0 →
      ¬ sys.Refuses (.realloc ei.symbols.isSome (arraySize symh ei.symbolsNum)) s.calls ∧
        1 < symNumOf symh) (fun _ => True) := by
  refine storeSymbols_rule (fun _ _ _ h => absurd hNum h) fun hGranted t _ => ?_
  apply (storeEntries_outcome rfl (clearedArray_length_lt _) _).imp
  rintro r ⟨-, -, hZero⟩ hStored
  refine ⟨hGranted, Nat.lt_of_not_le fun hFew => hStored (hZero.mpr ⟨hNum, fun i hi => ?_⟩)⟩
  rw [List.length_range'] at hi
  omega

/-- A table that a symbol is stored of is loadable. -/
theorem exeLoadSymbolTable_stored (hDelivers : sys.Delivers) (hFd : ei.fd = sys.fd)
    (hNum : ei.symbolsNum = 0) (fuel : Nat) :
    Sat (exeLoadSymbolTable sys symh strh fuel ei s)
      (fun r => r.1.2.symbolsNum ≠ 0 → TableLoadable sys.file symh strh) (fun _ => True) := by
  induction fuel generalizing s with
  | zero => exact trivial
  | succ fuel ih =>
      refine exeLoadSymbolTable_turn hFd (fun _ _ h => absurd hNum h) (fun _ _ => ih) ?_
      rintro strsymtbl syms t ⟨hNotEmpty, hAnswered, -, rfl, rfl⟩
      obtain ⟨hStrings, hSymbols⟩ := canBeRead_of_answered hNotEmpty hAnswered
      have hFew : ei.symbolsNum.toNat < 2 ^ 42 := by
        rw [hNum]
        decide
      apply ((storeSymbols_stored hNum).and (storeSymbols_bounds ei
        (fun _ _ _ _ => trivial) fun _ _ _ => trivial)).mono
      · rintro ⟨⟨rc, ei'⟩, u⟩ ⟨hStored, hSome, -, hEntries⟩
        obtain ⟨rc, rfl⟩ := Option.isSome_iff_exists.mp hSome
        refine ⟨rc, rfl, fun hNum' => ?_⟩
        obtain ⟨hGranted, hCount⟩ := hStored hNum'
        exact ⟨hCount, hStrings, hSymbols,
          arrayFits_of_granted hSymbols.2 hFew (small_of_answered hGranted).1, _, _,
          sectionRead_inMemory hDelivers _ _, sectionRead_inMemory hDelivers _ _,
          hEntries hGranted⟩
      · exact fun _ _ => trivial

/-- Symbols that are collected. -/
def ElfInternals.HasSymbols (ei : ElfInternals) : Prop := ei.symbols.isSome ∧ ei.symbolsNum ≠ 0

/-- An entry is stored in an empty array with room for it. -/
theorem storeSymbol_first {idx : Nat} (hInside : EntryInside strsymtbl syms idx)
    (hAnswered : ¬ sys.Refuses .other s.calls) {array : List ElfSymbol}
    (hArray : ei.symbols = some array) (hRoom : 0 < array.length) (hNum : ei.symbolsNum = 0)
    {fault : LoadFault → Prop} :
    Sat (storeSymbol sys strsymtbl syms ei idx s)
      (fun r => r.1.HasSymbols ∧ r.2.calls = s.calls + 1) fault := by
  have hFits : ei.symbolsNum.toNat < array.length := hNum ▸ hRoom
  obtain ⟨symbol, hStep⟩ := storeSymbol_inside sys hInside ei
  rw [hStep]
  apply sat_bind (allocates_outcome sys)
  rintro copied t ⟨hCalls, hCopied⟩
  obtain rfl : copied = true := hCopied.mpr hAnswered
  rw [if_pos rfl]
  unfold ElfInternals.store
  rw [hArray]
  dsimp only
  rw [if_pos hFits, hNum]
  have hOne : (0 : UInt64) + 1 ≠ 0 := by decide
  exact ⟨⟨rfl, hOne⟩, hCalls⟩

/-- Entries for whose names memory is refused are passed over. -/
theorem storeEntries_refused {indices : List Nat}
    (hInside : ∀ idx ∈ indices, EntryInside strsymtbl syms idx)
    (hRefused : ∀ k, s.calls ≤ k → sys.Refuses .other k) {fault : LoadFault → Prop} :
    Sat (indices.foldlM (storeSymbol sys strsymtbl syms) ei s)
      (fun r => r.1 = ei ∧ s.calls ≤ r.2.calls) fault := by
  apply sat_foldlM fun _ (r : ElfInternals × OsState) => r.1 = ei ∧ s.calls ≤ r.2.calls
  · exact ⟨rfl, Nat.le_refl _⟩
  · rintro taken idx hPrefix ei' t ⟨rfl, hLater⟩
    have hMem := hPrefix.subset (List.mem_append_right _ (List.mem_singleton_self idx))
    obtain ⟨symbol, hStep⟩ := storeSymbol_inside sys (hInside idx hMem) ei'
    rw [hStep]
    apply sat_bind (allocates_outcome sys)
    rintro copied u ⟨hCalls, hCopied⟩
    have hNot : copied ≠ true := fun h => hCopied.mp h (hRefused _ hLater)
    rw [if_neg hNot]
    exact ⟨rfl, hLater.trans (Nat.le_of_succ_le (Nat.le_of_eq hCalls.symm))⟩

/-- Only the first entry behind the one that is passed over is stored. -/
theorem storeSymbols_first (hEntries : EntriesInside symh strsymtbl syms)
    (hCount : 1 < symNumOf symh) (hFits : ArrayFits symh) (hNum : ei.symbolsNum = 0)
    (hGranted : ¬ sys.Refuses (.realloc ei.symbols.isSome (arraySize symh ei.symbolsNum)) s.calls)
    (hName : ¬ sys.Refuses .other (s.calls + 1))
    (hLater : ∀ k, s.calls + 2 ≤ k → sys.Refuses .other k) {fault : LoadFault → Prop} :
    Sat (storeSymbols sys symh strsymtbl syms ei s) (fun r => r.1.1 = some 0 ∧
      s.calls + 2 ≤ r.2.calls ∧ r.1.2.HasSymbols) fault := by
  refine storeSymbols_rule (fun hDenied => absurd hDenied hGranted) fun _ t hCalls => ?_
  have hRange : List.range' 1 (symNumOf symh - 1) = 1 :: List.range' 2 (symNumOf symh - 2) := by
    rw [show symNumOf symh - 1 = symNumOf symh - 2 + 1 by omega, List.range'_succ]
  have hRoom : 0 < (clearedArray symh ei.symbolsNum).length := by
    have hFits : symNumOf symh * 32 < 2 ^ 47 := hFits
    rw [clearedArray_length] <;> rw [hNum, UInt64.toNat_zero] <;> omega
  rw [hRange, List.foldlM_cons]
  rw [← hCalls] at hName
  refine sat_bind (storeSymbol_first (hEntries 1 Nat.zero_lt_one hCount) hName rfl hRoom ?_) ?_
  · exact hNum
  · rintro ei' u ⟨hSymbols, hNext⟩
    have hTwo : u.calls = s.calls + 2 := hNext.trans (congrArg _ hCalls)
    rw [← hTwo] at hLater
    refine (storeEntries_refused ?_ hLater).imp ?_
    · intro idx hMem
      have hBounds := List.mem_range'_1.mp hMem
      exact hEntries idx (by omega) (by omega)
    · rintro ⟨_, v⟩ ⟨rfl, hBehind⟩
      exact ⟨rfl, hTwo ▸ hBehind, hSymbols⟩

/-- A table of which the first symbol is stored, and none behind it. -/
theorem exeLoadSymbolTable_first (hFd : ei.fd = sys.fd) (hNum : ei.symbolsNum = 0)
    (hCount : 1 < symNumOf symh) (hFits : ArrayFits symh)
    (hAnswered : sys.firstRefused (tableRequests symh strh) s.calls = none)
    (hGranted : ¬ sys.Refuses (.realloc ei.symbols.isSome (arraySize symh ei.symbolsNum))
      (s.calls + 6))
    (hName : ¬ sys.Refuses .other (s.calls + 7))
    (hLater : ∀ k, s.calls + 8 ≤ k → sys.Refuses .other k)
    (hEntries : EntriesInside symh (sectionRead sys strh (s.calls + 1) (s.calls + 2))
      (sectionRead sys symh (s.calls + 3) (s.calls + 5))) {fuel : Nat}
    {fault : LoadFault → Prop} :
    Sat (exeLoadSymbolTable sys symh strh (fuel + 1) ei s)
      (fun r => s.calls + 8 ≤ r.2.calls ∧ r.1.2.HasSymbols) fault := by
  refine exeLoadSymbolTable_turn hFd ?_ ?_ ?_
  · rintro t ⟨refused, hRefused, -⟩
    cases hAnswered.symm.trans hRefused
  · rintro t ⟨hEmpty, -⟩
    exact absurd (notEmpty_of_entries hCount) hEmpty
  · rintro strsymtbl syms t ⟨-, -, hCalls, rfl, rfl⟩
    have hCalls : t.calls = s.calls + 6 := hCalls
    apply (storeSymbols_first hEntries hCount hFits hNum (hCalls ▸ hGranted) (hCalls ▸ hName)
      (hCalls ▸ hLater)).imp
    rintro ⟨⟨_, ei'⟩, u⟩ ⟨rfl, hBehind, hSymbols⟩
    have hBehind : t.calls + 2 ≤ u.calls := hBehind
    rw [hCalls] at hBehind
    exact ⟨_, rfl, hBehind, hSymbols⟩

end Stored

section Scanned
variable {sys : System} {fuel : Nat} {s : OsState}

/-- A scan that returns has gone through all headers. -/
theorem scan_inside_headers {sechdrs : List UInt8} {n : Nat} {state : Option Nat × ElfInternals} :
    Sat ((List.range n).foldlM (scanSection sys fuel sechdrs) state s)
      (fun _ => ∀ k < n, (k + 1) * shdrSize ≤ sechdrs.length) (fun _ => True) := by
  apply sat_range (fun m _ => ∀ k < m, (k + 1) * shdrSize ≤ sechdrs.length)
  · exact fun k hk => absurd hk (Nat.not_lt_zero k)
  · rintro m - ⟨symtab, ei⟩ t hBefore
    unfold scanSection
    apply sat_bind (sechdrAt_sat fun _ => trivial)
    rintro _ _ ⟨hInside, ⟨⟩⟩
    refine (Sat.any _).imp fun _ _ => ?_
    rw [Nat.forall_lt_succ_right]
    exact ⟨hBefore, hInside⟩

/-- A scan that leaves symbols has loaded a table. -/
theorem scan_stored (hDelivers : sys.Delivers) {sechdrs : List UInt8} {n : Nat}
    {ei : ElfInternals} (hFd : ei.fd = sys.fd) (hNum : ei.symbolsNum = 0) :
    Sat ((List.range n).foldlM (scanSection sys fuel sechdrs) (none, ei) s)
      (fun r => ei.SameButSymbols r.1.2 ∧
        (r.1.2.symbolsNum ≠ 0 → TableFound sys.file sechdrs ei.secnametblIdx.toNat n))
      (fun _ => True) := by
  rw [← scanCalls_erased []]
  refine sat_bind (scanCalls_sat (fun _ r => ei.SameButSymbols r.1 ∧
    (r.1.symbolsNum ≠ 0 → TableFound sys.file sechdrs ei.secnametblIdx.toNat n))
    (fun _ _ _ h => h.1.names_eq) (fun _ _ _ => trivial) ?_
    ⟨⟨_, _, rfl⟩, fun h => absurd hNum h⟩) ?_
  · rintro calls i j hPrefix ei' t ⟨hSame, hStored⟩
    have hMem := hPrefix.subset (List.mem_append_right _ (List.mem_singleton_self (i, j)))
    have hFd' := hSame.fd_eq.trans hFd
    by_cases hNum' : ei'.symbolsNum = 0
    · apply ((exeLoadSymbolTable_frame sys _ _ fuel _).and
        (exeLoadSymbolTable_stored hDelivers hFd' hNum' fuel)).mono
      · rintro r ⟨hSame', hTable⟩
        exact ⟨hSame.trans hSame', fun h => ⟨_, hMem, hTable h⟩⟩
      · exact fun _ _ => trivial
    · apply (exeLoadSymbolTable_frame sys _ _ fuel _).imp
      exact fun r hSame' => ⟨hSame.trans hSame', fun _ => hStored hNum'⟩
  · rintro ⟨calls, symtab, ei'⟩ t ⟨-, -, hStored⟩
    exact hStored

/-- Section headers that leave symbols are those of a loadable file. -/
theorem exeLoadSectionHeaders_stored (hDelivers : sys.Delivers)
    (hSupported : Supported (headerIn sys.file)) :
    Sat (exeLoadSectionHeaders sys fuel (headed sys) s) (fun r => r.1.2.fd = sys.fd ∧
      (r.1.2.symbolsNum ≠ 0 → Loadable sys.file)) (fun _ => True) := by
  have hFd := headed_fd sys
  have hNum : (headed sys).symbolsNum = 0 := (withHeader_kept _).2.2
  rw [exeLoadSectionHeaders_eq]
  have hRead : Sat (readSectionHeaders sys (headed sys) s) _ (fun _ => True) :=
    readSectionHeaders_outcome sys (headed sys) hFd fun _ _ _ _ => trivial
  by_cases hSections : SectionsRead sys (headed sys) s.calls
  · obtain ⟨hSought, hNames⟩ := sectionsRead_sought hDelivers hSections
    have hFirst : sys.firstRefused [.malloc (headed sys).sechdrSize,
        .lseek (headed sys).sechdrOffset, .other] s.calls = none := firstRefused_append hSections.2
    have hInside := readSectionHeaders_names sys hFd hSections.1 hFirst
    refine sat_bind ((hRead.and hInside).mono (fun _ => id) fun _ _ => trivial) ?_
    rintro ⟨sechdrs, ei⟩ t ⟨⟨hSame, hOutcome⟩, hHeader⟩
    rw [secnametblIdx_headed hSought.given, sechdrSize_headed hSought.given] at hHeader
    rcases hOutcome with ⟨-, rfl, -⟩ | ⟨hNot, -, -⟩
    · obtain ⟨_, _, _, rfl⟩ := hSame
      dsimp only
      rw [sechdrsDelivered_eq hDelivers hSought.given, sechdrNum_headed hSought.given]
      refine sat_bind ((scan_inside_headers.and (scan_stored hDelivers ?_ ?_)).mono (fun _ => id)
        fun _ _ => trivial) ?_
      · exact hFd
      · exact hNum
      · rintro ⟨symtab, ei'⟩ u ⟨hHeaders, ⟨_, _, rfl⟩, hStored⟩
        refine ⟨hFd, fun hNum' => ⟨hSupported, hSought, ?_, hNames, ?_⟩⟩
        · rintro k (rfl | hk)
          · exact hHeader
          · have hShdr := hHeaders k hk
            rw [sechdrsIn_length] at hShdr
            exact hShdr
        · have hTable := hStored hNum'
          rw [← secnametblIdx_headed hSought.given]
          exact hTable
    · exact absurd hSections hNot
  · apply sat_bind hRead
    rintro ⟨sechdrs, ei⟩ t ⟨⟨_, _, _, rfl⟩, hOutcome⟩
    rcases hOutcome with ⟨hYes, -, -⟩ | ⟨-, rfl, -⟩
    · exact absurd hYes hSections
    · exact ⟨hFd, fun h => absurd hNum h⟩

end Scanned

/-- A file that symbols are taken from is loadable. -/
theorem loadable_of_yields {file : List UInt8} (h : Yields file) : Loadable file := by
  obtain ⟨sys, rfl, hDelivers, fuel, symbolsNum, interp, s, r, t, hRun, hSymbols⟩ := h
  have hLoad : Sat (exeLoadSymbols sys fuel symbolsNum interp s)
      (fun r => r.1.HasSymbols → Loadable sys.file) (fun _ => True) := by
    apply exeLoadSymbols_rule hDelivers
    · rintro - t ⟨hSome, -⟩
      cases hSome
    · exact fun _ => trivial
    · rintro hSupported t -
      apply (exeLoadSectionHeaders_stored hDelivers hSupported).imp
      rintro ⟨⟨rc, ei⟩, u⟩ ⟨hFd, hStored⟩
      apply (exeLoadProgramHeaders_outcome sys ei hFd).mono
      · rintro ⟨⟨rc', ei'⟩, v⟩ ⟨-, -, hKept⟩ ⟨-, num, hNum, hSome⟩
        apply hStored
        rw [← show ei'.symbolsNum = ei.symbolsNum from hKept, Option.some.inj hNum]
        exact hSome
      · exact fun _ _ => trivial
  rw [hRun] at hLoad
  exact hLoad hSymbols

/-- The section headers of a loadable file leave a symbol. -/
theorem sections_loaded {sys : System} {p : Nat} {strsymtbl syms : List UInt8}
    (hLeads : LeadsTo sys p 8 strsymtbl syms) (hDelivers : sys.Delivers)
    (h : Loadable sys.file) {i j : Nat}
    (hPair : (tablePairs (hdrIn (sechdrsIn sys.file)) (headerIn sys.file).eShstrndx.toNat
      (headerIn sys.file).eShnum.toNat)[p]? = some (i, j))
    (hTable : TableLoadable sys.file (hdrIn (sechdrsIn sys.file) i) (hdrIn (sechdrsIn sys.file) j))
    (hStrsymtbl : InMemory sys.file (hdrIn (sechdrsIn sys.file) j) strsymtbl)
    (hSyms : InMemory sys.file (hdrIn (sechdrsIn sys.file) i) syms)
    (hEntries : EntriesInside (hdrIn (sechdrsIn sys.file) i) strsymtbl syms) {t : OsState}
    (hCalls : t.calls = 3) {fault : LoadFault → Prop} :
    Sat (exeLoadSectionHeaders sys 1 (headed sys) t)
      (fun r => 9 + p + 8 ≤ r.2.calls ∧ r.1.2.HasSymbols) fault := by
  refine hLeads.sections hDelivers h.sought h.names hPair hCalls ElfInternals.HasSymbols ?_ ?_
  · intro k hk hShort
    exact absurd (h.headers k hk) (Nat.not_le_of_lt hShort)
  · intro ei hSame u hTaken
    have hState : ei.fd = sys.fd ∧ ei.symbolsNum = 0 := by
      obtain ⟨_, _, _, rfl⟩ := hSame
      exact ⟨headed_fd sys, (withHeader_kept _).2.2⟩
    have hNone := hLeads.requests (by decide) (notEmpty_of_entries hTable.entries) hTable.strings
      hTable.symbols
    have hGranted := hLeads.granted (by decide) hSame hTable.array
    have hName : sys.fails (9 + p + 7) = false :=
      hLeads.table _ (Nat.le_add_right _ _) (Nat.lt_succ_self _)
    have hLater := hLeads.later
    rw [← sectionRead_eq hDelivers hStrsymtbl hLeads.strings (9 + p + 2),
      ← sectionRead_eq hDelivers hSyms hLeads.symbols (9 + p + 5)] at hEntries
    rw [← hTaken] at hNone hGranted hName hLater hEntries ⊢
    exact exeLoadSymbolTable_first hState.1 hState.2 hTable.entries hTable.array hNone hGranted
      (mt refuses_other.mp (Bool.eq_false_iff.mp hName))
      (fun k hLe => refuses_other.mpr (hLater k hLe)) hEntries

/-- Program headers whose memory is refused keep the symbols. -/
theorem exeLoadProgramHeaders_refused {sys : System} {ei : ElfInternals} {s : OsState}
    (hRefused : sys.Refuses .other s.calls) {fault : LoadFault → Prop} :
    Sat (exeLoadProgramHeaders sys ei s) (fun r => ei.KeepsSymbols r.1.2) fault := by
  unfold exeLoadProgramHeaders
  split
  · exact ⟨rfl, rfl⟩
  · apply sat_bind (malloc_outcome sys _)
    rintro memory t ⟨-, -, hMemory, -⟩
    obtain rfl : memory = none := hMemory.mpr (refuses_of_other hRefused)
    exact ⟨rfl, rfl⟩

theorem yields_of_loadable {file : List UInt8} (h : Loadable file) : Yields file := by
  obtain ⟨⟨i, j⟩, hMem, hTable⟩ := h.table
  obtain ⟨strsymtbl, syms, hStrsymtbl, hSyms, hEntries⟩ := hTable.inside
  obtain ⟨p, hPair⟩ := List.mem_iff_getElem?.mp hMem
  have hLeads := leading_leadsTo file p 8 strsymtbl syms
  have hDelivers : (leading file p 8 strsymtbl syms).Delivers := attacker_delivers file _ _
  have hLoad : Sat (exeLoadSymbols (leading file p 8 strsymtbl syms) 1 (some 0) none ⟨0, 0⟩)
      (fun r => r.1.HasSymbols) (fun _ => False) := by
    refine attacker_sat h.supported (leading file p 8 strsymtbl syms).fails
      (leading file p 8 strsymtbl syms).fresh (fun k hk => hLeads.answered k (by omega))
      fun t hCalls => ?_
    apply (sections_loaded hLeads hDelivers h hPair hTable hStrsymtbl hSyms hEntries hCalls).imp
    rintro ⟨⟨rc, ei⟩, u⟩ ⟨hLate, hSome, hNum⟩
    apply (exeLoadProgramHeaders_refused (refuses_other.mpr (hLeads.later _ hLate))).imp
    rintro ⟨⟨rc', ei'⟩, v⟩ ⟨hSame, hSameNum⟩
    have hSome' : ei'.symbols.isSome := hSame ▸ hSome
    have hNum' : ei'.symbolsNum ≠ 0 := hSameNum ▸ hNum
    exact ⟨hSome', _, rfl, hNum'⟩
  obtain ⟨⟨r, t⟩, hRun, hSymbols⟩ := hLoad.returns
  exact ⟨_, rfl, hDelivers, 1, some 0, none, ⟨0, 0⟩, r, t, hRun, hSymbols⟩

/-- The files that the loader takes symbols from. -/
theorem yields_iff (file : List UInt8) : Yields file ↔ Loadable file :=
  ⟨loadable_of_yields, yields_of_loadable⟩

end TelnetDebug.Image

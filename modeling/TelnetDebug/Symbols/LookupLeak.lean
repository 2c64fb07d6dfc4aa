import TelnetDebug.Symbols.LoaderLedger

/-! What the lookups of a process leave behind. Each of them loads the files up to
the one with the symbol, and none of what a load returns is ever freed. -/
namespace TelnetDebug.Image

open Guarded Posix Resources

/-- What some loads leave behind: the cells for the number of symbols, the symbols
with their names, and at most one array for each load. -/
structure Leaked (kept : Multiset (Resource Purpose)) (names loads : Nat) : Prop where
  purposes : ∀ r ∈ kept, r.kind = .name ∨ r.kind = .symbols ∨ r.kind = .symbolsNum
  names : kept.countP (·.kind = .name) = names
  cells : kept.countP (·.kind = .symbolsNum) = loads
  arrays : kept.countP (·.kind = .symbols) ≤ loads

theorem Leaked.nothing : Leaked 0 0 0 where
  purposes r hr := absurd hr (Multiset.notMem_zero r)
  names := Multiset.countP_zero _
  cells := Multiset.countP_zero _
  arrays := Nat.le_of_eq (Multiset.countP_zero _)

theorem Leaked.add {kept kept' : Multiset (Resource Purpose)} {names names' loads loads' : Nat}
    (h : Leaked kept names loads) (h' : Leaked kept' names' loads') :
    Leaked (kept + kept') (names + names') (loads + loads') where
  purposes r hr := (Multiset.mem_add.mp hr).elim (h.purposes r) (h'.purposes r)
  names := by rw [Multiset.countP_add, h.names, h'.names]
  cells := by rw [Multiset.countP_add, h.cells, h'.cells]
  arrays := by
    rw [Multiset.countP_add]
    exact Nat.add_le_add h.arrays h'.arrays

/-- The ledger of some loads. -/
def Leaks (l : Ledger Purpose) (names loads : Nat) (l' : Ledger Purpose) : Prop :=
  ∃ kept, l'.held = l.held + kept ∧ Leaked kept names loads

theorem Leaks.trans {l l' l'' : Ledger Purpose} {names names' loads loads' : Nat}
    (h : Leaks l names loads l') (h' : Leaks l' names' loads' l'') :
    Leaks l (names + names') (loads + loads') l'' := by
  obtain ⟨kept, hHeld, hLeaked⟩ := h
  obtain ⟨kept', hHeld', hLeaked'⟩ := h'
  exact ⟨kept + kept', by rw [hHeld', hHeld, add_assoc], hLeaked.add hLeaked'⟩

/-- The objects whose files are loaded: those up to the first one with a value. -/
def loadedNodes (files : List UInt8 → List SymbolTable) (symName : List UInt8) :
    List SoNode → List SoNode
  | [] => []
  | node :: nodes =>
      if TelnetDebug.getSymAddr (files node.pathname) symName ≠ noAddress then [node]
      else node :: loadedNodes files symName nodes

/-- The symbols in the files of some objects. -/
def symbolsOf (systems : List UInt8 → System) (nodes : List SoNode) : Nat :=
  (nodes.map fun node => symbolsIn (systems node.pathname).file).sum

section File
variable {sys : System} (hSys : sys.Reliable) {fuel : Nat} (hFuel : 0 < fuel) {s t : OsState}
  {ei : ElfInternals}
include hSys

/-- The section headers are reached with the file header, if it is for a machine
that is supported. -/
theorem reachesSections_headed (h : ReachesSections sys s ei t) :
    ei = headed sys ∧ Supported (headerIn sys.file) := by
  obtain ⟨fd, u, hdr, hOpen, hHdr, rfl⟩ := h
  have hFd : Sat (openFile (ε := LoadFault) sys s) _ (fun _ => False) := openFile_sat hSys
  rw [← exeOpenFilename_eq, hOpen] at hFd
  obtain rfl : fd = sys.fd := hFd
  have hRead : Sat (readEhdr sys sys.fd u) _ (fun _ => False) := readEhdr_outcome sys
  rw [hHdr] at hRead
  rcases hRead with ⟨hSupported, hDelivered, -⟩ | ⟨-, hNone⟩
  · obtain rfl := Option.some.inj hDelivered
    have hSupported := hSupported.2
    rw [ehdrDelivered_eq hSys.delivers] at hSupported ⊢
    exact ⟨rfl, hSupported⟩
  · cases hNone

include hFuel

/-- The tables of a file that can be read are loaded. -/
theorem loadsSections_whole (h : SectionsWhole sys.file) (hFresh : ei.Fresh sys.fd sys.file)
    (hNone : ei.symbols = none) : LoadsSections sys fuel ei t := by
  rintro sechdrs ei' u hRead
  have hHeaders : Sat (readSectionHeaders sys ei t) _ (fun _ => False) :=
    readSectionHeaders_sat hSys h.headers hFresh.fd_eq hFresh.offset hFresh.size hFresh.names
  rw [hRead] at hHeaders
  obtain ⟨hSechdrs, hSame⟩ := hHeaders
  obtain rfl := Option.some.inj hSechdrs
  have hFresh' := hSame.fresh hFresh
  have hEmpty := collected_empty hFresh hNone hSame
  rintro k hk symtab ei'' v hTurns hStrings
  rw [hFresh'.count] at hk
  have hScan : Sat ((List.range k).foldlM (scanSection sys fuel (sectionHeaders sys.file))
      (none, ei') u) _ (fun _ => False) :=
    scanTables_sat hSys h hFuel (Nat.le_of_lt hk) hFresh'.fd_eq hFresh'.names hEmpty
  rw [hTurns] at hScan
  obtain ⟨hWaiting, hSame', hCollected⟩ := hScan
  rw [hSame'.names_eq, hFresh'.names] at hStrings
  have hPair : pairAt (hdrIn (sectionHeaders sys.file)) (ehdrOf sys.file).eShstrndx.toNat k =
      some (symtab, k) := by
    rw [pairAt, if_pos hStrings, ← hWaiting]
    rfl
  have hPrefix : tablePairs (hdrIn (sectionHeaders sys.file)) (ehdrOf sys.file).eShstrndx.toNat k ++
      [(symtab, k)] <+: filePairs sys.file := by
    have hNext : tablePairs (hdrIn (sectionHeaders sys.file)) (ehdrOf sys.file).eShstrndx.toNat
        (k + 1) <+: filePairs sys.file := tablePairs_mono hk
    rwa [tablePairs_succ, hPair] at hNext
  have hTable : Sat (exeLoadSymbolTable sys (hdrIn (sectionHeaders sys.file) symtab)
      (hdrIn (sectionHeaders sys.file) k) fuel ei'' v) _ (fun _ => False) :=
    nextTable_sat hSys h hFuel hPrefix (hSame'.fd_eq.trans hFresh'.fd_eq) hCollected
  obtain ⟨r, hReturned, hNotEmpty, hSucceeds, -⟩ := hTable.returns
  refine ⟨hNotEmpty, ?_⟩
  rw [hReturned]
  exact hSucceeds

theorem loadsFile_readable (h : Readable sys.file) : LoadsFile sys fuel s := by
  rintro ei t hReaches
  obtain ⟨rfl, hSupported⟩ := reachesSections_headed hSys hReaches
  by_cases hShoff : 0 < (headerIn sys.file).eShoff
  · obtain ⟨hFresh, hNone⟩ := headed_fresh h hSupported hShoff
    exact loadsSections_whole hSys hFuel (h.sections hSupported hShoff) hFresh hNone
  · have hNotGiven := headed_without_sections hShoff
    rintro sechdrs ei' u hRead
    unfold readSectionHeaders at hRead
    rw [if_pos hNotGiven] at hRead
    cases hRead

end File

section Lookup
variable {s : OsState} {l : Ledger Purpose}

theorem leaked_names {kept : Multiset (Resource Purpose)} {names : Nat} (h : Lost kept names 0) :
    Leaked kept names 0 := by
  have hEntries := Multiset.countP_eq_zero.mp h.entries
  have hArrays := Multiset.countP_eq_zero.mp h.arrays
  have hStrings := Multiset.countP_eq_zero.mp h.strings
  have hOnly : ∀ r ∈ kept, r.kind = .name := by
    intro r hr
    rcases h.purposes r hr with hName | hEntry | hArray | hString
    · exact hName
    · exact absurd hEntry (hEntries r hr)
    · exact absurd hArray (hArrays r hr)
    · exact absurd hString (hStrings r hr)
  have hCells : kept.countP (·.kind = .symbolsNum) = 0 := by
    apply Multiset.countP_eq_zero.mpr
    intro r hr hKind
    cases (hOnly r hr).symm.trans hKind
  exact ⟨fun r hr => .inl (hOnly r hr), h.names, hCells, Nat.le_of_eq h.arrays⟩

/-- The cell for the number of symbols, and the array. -/
theorem leaked_returned {cell : Resource Purpose} {symbols : Pointer}
    (hCell : cell.kind = .symbolsNum) (hSymbols : ∀ array, symbols = some array →
      array.kind = .symbols) : Leaked (cell ::ₘ pointee symbols) 0 1 := by
  cases symbols with
  | none => constructor <;> simp [pointee, -Multiset.cons_zero, hCell]
  | some array =>
      have hArray := hSymbols array rfl
      constructor <;> simp [pointee, ← Multiset.cons_zero, hCell, hArray]

/-- What a load leaves behind. -/
theorem Settled.leaks {r : HoldingResult} {cell : Resource Purpose} {l₁ l₂ : Ledger Purpose}
    {num : UInt64} (hSettled : Settled l₁.held r l₂) (hInterp : r.interp = none)
    (hEvents : r.events = 0)
    (hNum : r.result.symbolsNum = some num) (hCell : cell.kind = .symbolsNum)
    (hLedger : l₁.held = {cell} + l.held) : Leaks l num.toNat 1 l₂ := by
  obtain ⟨kept, hHeld, hLost, -⟩ := hSettled.balance
  rw [hNum, hEvents] at hLost
  have hLeaked := (leaked_names hLost).add (leaked_returned hCell hSettled.purpose)
  rw [Option.getD_some, Nat.add_zero, Nat.zero_add] at hLeaked
  refine ⟨_, ?_, hLeaked⟩
  rw [hHeld, hLedger, hInterp, ← Multiset.singleton_add, pointee, add_zero]
  ac_rfl

theorem getSymAddr_leaks {sys : System} {fuel : Nat} (h : FileGiven fuel sys)
    (symName : List UInt8) :
    Accounts (Holding.getSymAddr sys fuel symName) (getSymAddr sys fuel symName) id s l
      (fun _ => Leaks l (symbolsIn sys.file) 1) := by
  unfold Holding.getSymAddr getSymAddr
  apply accounts_malloc_bind
  · intro t hReturned
    have hGranted : Sat (malloc (ε := LoadFault) sys 8 s) _ (fun _ => False) :=
      malloc_sat h.reliable (by decide)
    rw [hReturned] at hGranted
    obtain ⟨-, _, ⟨⟩, -⟩ := hGranted
  intro cell memory t l₁ hCell hLedger
  have hFuel := Nat.zero_lt_of_lt h.turns
  have hLoad := exeLoadSymbols_accounts sys fuel (some (u64At memory 0)) none t l₁
  have hTables : Sat (exeLoadSymbols sys fuel (some (u64At memory 0)) none t) _ (fun _ => False) :=
    exeLoadSymbols_tables h.reliable h.readable hFuel _ none
  apply (hLoad.sat hTables).bind
  rintro r u l₂ - ⟨⟨hSettled, hInterp, hKept⟩, _, hLoaded⟩
  obtain ⟨num, hNum, hCollected⟩ := Option.map_eq_some_iff.mp hLoaded
  have hCount : num.toNat = symbolsIn sys.file :=
    congrArg TelnetDebug.ElfInternals.symbolsNum hCollected
  have hEvents := hKept (loadsFile_readable h.reliable hFuel h.readable)
  have hLeaks := hSettled.leaks (hInterp rfl) hEvents hNum hCell hLedger
  rw [hCount] at hLeaks
  rw [hNum]
  apply accounts_call.imp
  rintro addr l₃ rfl
  exact hLeaks

end Lookup

section Walk
variable {systems : List UInt8 → System} {fuel : Nat} {nodes : List SoNode}
  (hFiles : ∀ node ∈ nodes, FileGiven fuel (systems node.pathname)) (symName : List UInt8)
  {s : OsState} {l : Ledger Purpose}
include hFiles

theorem ldSearch_leaks :
    Accounts (Holding.ldSearch systems fuel symName nodes) (ldSearch systems fuel symName nodes)
      id s l (fun _ => Leaks l
        (symbolsOf systems
          (loadedNodes (fun path => fileTables (systems path).file) symName nodes))
        (loadedNodes (fun path => fileTables (systems path).file) symName nodes).length) := by
  induction nodes generalizing s l with
  | nil => exact accounts_pure rfl ⟨0, (add_zero _).symm, .nothing⟩
  | cons node nodes ih =>
      have hFile := hFiles node List.mem_cons_self
      have hAddr : Sat (getSymAddr (systems node.pathname) fuel symName s) _ (fun _ => False) :=
        getSymAddr_tables hFile.reliable hFile.readable hFile.turns symName
      unfold Holding.ldSearch ldSearch loadedNodes
      apply ((getSymAddr_leaks hFile symName).sat hAddr).bind
      rintro symAddr t l' - ⟨hLeaks, _, rfl⟩
      dsimp only [id]
      split
      · exact accounts_pure rfl hLeaks
      · apply (ih fun other hOther => hFiles other (List.mem_cons_of_mem _ hOther)).imp
        rintro found l'' hMore
        have hBoth := hLeaks.trans hMore
        rw [Nat.add_comm 1] at hBoth
        exact hBoth

theorem ldFindAddress_leaks :
    Accounts (Holding.ldFindAddress systems fuel symName nodes)
      (ldFindAddress systems fuel symName nodes) id s l (fun _ => Leaks l
        (symbolsOf systems
          (loadedNodes (fun path => fileTables (systems path).file) symName nodes))
        (loadedNodes (fun path => fileTables (systems path).file) symName nodes).length) := by
  unfold Holding.ldFindAddress ldFindAddress
  apply (ldSearch_leaks hFiles symName).bind
  intro found t l' _ hLeaks
  cases found with
  | none => exact accounts_pure rfl hLeaks
  | some found =>
      dsimp only [id]
      split
      · exact accounts_pure rfl hLeaks
      · split
        · exact accounts_pure rfl hLeaks
        · exact accounts_pure rfl hLeaks

/-- The lookups of any names one after the other. Each returns what it returns
without a ledger, and what stays for ever is the symbols of all files that were
loaded: one name for each of them, and for each load a cell and at most one
array. -/
theorem lookups_leak (names : List (List UInt8)) :
    Sat (names.mapM (Holding.ldFindAddress systems fuel · nodes) (s, l))
      (fun r => r.1 = names.map (TelnetDebug.ldFindAddress
          (fun path => fileTables (systems path).file) · nodes) ∧
        Leaks l
          (symbolsOf systems
            (names.flatMap (loadedNodes (fun path => fileTables (systems path).file) · nodes)))
          (names.flatMap (loadedNodes (fun path => fileTables (systems path).file) · nodes)).length
          r.2.2)
      (fun _ => False) := by
  induction names generalizing s l with
  | nil => exact ⟨rfl, 0, (add_zero _).symm, .nothing⟩
  | cons symName names ih =>
      rw [List.mapM_cons]
      apply Sat.bind ((ldFindAddress_leaks hFiles symName).returns (ldFindAddress_files hFiles))
      rintro ⟨addr, t, l'⟩ ⟨rfl, hLeaks⟩
      apply Sat.bind ih
      rintro ⟨addrs, u, l''⟩ ⟨rfl, hMore⟩
      refine ⟨rfl, ?_⟩
      rw [List.flatMap_cons, List.length_append, symbolsOf, List.map_append, List.sum_append]
      exact hLeaks.trans hMore

end Walk

def libraryNode : SoNode := ⟨[0x2f, 0x66, 0x2e, 0x73, 0x6f], 0x4000, 0x6000⟩

/-- The same function looked up twice: its name is copied each time. -/
theorem lookups_leak_twice :
    Sat ([[0x66], [0x66]].mapM (Holding.ldFindAddress librarySystems 2 · [libraryNode])
        (⟨0, 0⟩, .empty))
      (fun r => r.1 = [0x5000, 0x5000] ∧ Leaks .empty 2 2 r.2.2) (fun _ => False) := by
  have hLoaded : [[0x66], [0x66]].flatMap
      (loadedNodes (fun path => fileTables (librarySystems path).file) · [libraryNode]) =
        [libraryNode, libraryNode] := by decide +kernel
  have hSymbols : symbolsOf librarySystems [libraryNode, libraryNode] = 2 := by decide +kernel
  have hFiles : ∀ node ∈ [libraryNode], FileGiven 2 (librarySystems node.pathname) :=
    fun _ _ => smallSystem_given
  apply (lookups_leak hFiles [[0x66], [0x66]]).imp
  rintro r ⟨hAddrs, hLeaks⟩
  rw [hLoaded, hSymbols] at hLeaks
  exact ⟨hAddrs.trans (by decide +kernel), hLeaks⟩

end TelnetDebug.Image

import TelnetDebug.Symbols.Accumulation
import TelnetDebug.Symbols.SectionScan

/-! A file may have any number of symbol tables, in any order with their string
tables. The loader goes by the order of the sections, and not by their links. -/
namespace TelnetDebug.Image

open CBuffer Posix Guarded

/-- A symbol table that is not empty, and names its string table. -/
@[mk_iff] structure LinkedTable (file : List UInt8) (k : Nat) : Prop where
  link_lt : linkOf file k < (ehdrOf file).eShnum.toNat
  link_type : (sectionOf file (linkOf file k)).shType = shtStrtab
  pair : TablePair file (sectionOf file k) (sectionOf file (linkOf file k))

instance (file : List UInt8) (k : Nat) : Decidable (LinkedTable file k) :=
  decidable_of_iff _ (linkedTable_iff file k).symm

/-- The pairs that the scan of a file goes through. -/
def filePairs (file : List UInt8) : List (Nat × Nat) :=
  tablePairs (hdrIn (sectionHeaders file)) (ehdrOf file).eShstrndx.toNat
    (ehdrOf file).eShnum.toNat

theorem mem_filePairs {file : List UInt8} {i j : Nat} :
    (i, j) ∈ filePairs file ↔ j < (ehdrOf file).eShnum.toNat ∧
      Adjacent (sectionOf file) (ehdrOf file).eShstrndx.toNat i j := by
  unfold filePairs
  rw [mem_tablePairs]
  constructor
  · rintro ⟨hLt, hAdjacent⟩
    exact ⟨hLt, hAdjacent.congr fun k hk => hdrIn_sectionHeaders (Nat.lt_of_le_of_lt hk hLt)⟩
  · rintro ⟨hLt, hAdjacent⟩
    exact ⟨hLt, hAdjacent.congr fun k hk =>
      (hdrIn_sectionHeaders (Nat.lt_of_le_of_lt hk hLt)).symm⟩

/-- The number of symbols of the symbol tables in pairs. -/
def pairsCount (file : List UInt8) (pairs : List (Nat × Nat)) : Nat :=
  (pairs.map fun pair => symCount (sectionOf file pair.1) - 1).sum

theorem pairsCount_concat (file : List UInt8) (pairs : List (Nat × Nat)) (pair : Nat × Nat) :
    pairsCount file (pairs ++ [pair]) =
      pairsCount file pairs + (symCount (sectionOf file pair.1) - 1) := by
  rw [pairsCount, List.map_append, List.sum_append, List.map_singleton, List.sum_singleton]
  rfl

theorem pairsCount_le {file : List UInt8} {pairs pairs' : List (Nat × Nat)}
    (h : pairs <+: pairs') : pairsCount file pairs ≤ pairsCount file pairs' := by
  obtain ⟨rest, rfl⟩ := h
  rw [pairsCount, pairsCount, List.map_append, List.sum_append]
  exact Nat.le_add_right _ _

/-- A file whose symbol tables name their string tables. Memory has room for the
array that is asked for last, in which there is one entry more than there are
symbols. -/
@[mk_iff] structure WellFormed (file : List UInt8) : Prop where
  headers : HeadersInFile file
  linked : ∀ k < (ehdrOf file).eShnum.toNat, (sectionOf file k).HoldsSymbols → LinkedTable file k
  fits : (pairsCount file (filePairs file) + 1) * elfSymbolSize.toNat < 2 ^ 47

instance (file : List UInt8) : Decidable (WellFormed file) :=
  decidable_of_iff _ (wellFormed_iff file).symm

/-- The calls load every symbol table once, with the string table that it
names, and load nothing else. -/
@[mk_iff] structure LoadsLinked (file : List UInt8) (calls : List (Nat × Nat)) : Prop where
  linked : ∀ call ∈ calls, call.1 < (ehdrOf file).eShnum.toNat ∧
    (sectionOf file call.1).HoldsSymbols ∧ call.2 = linkOf file call.1
  once : ∀ k < (ehdrOf file).eShnum.toNat, (sectionOf file k).HoldsSymbols →
    (calls.map Prod.fst).count k = 1

instance (file : List UInt8) (calls : List (Nat × Nat)) : Decidable (LoadsLinked file calls) :=
  decidable_of_iff _ (loadsLinked_iff file calls).symm

/-- The string table that a symbol table names comes after it, and no other
table of either kind comes between the two. -/
def LinkedNext (file : List UInt8) : Prop :=
  ∀ k < (ehdrOf file).eShnum.toNat, (sectionOf file k).HoldsSymbols →
    Adjacent (sectionOf file) (ehdrOf file).eShstrndx.toNat k (linkOf file k)

instance (file : List UInt8) : Decidable (LinkedNext file) :=
  inferInstanceAs (Decidable (∀ k < _, _ → Adjacent _ _ k _))

/-- The scan makes the right calls exactly for the files whose tables come in
the right order. -/
theorem loadsLinked_filePairs {file : List UInt8} (h : WellFormed file) :
    LoadsLinked file (filePairs file) ↔ LinkedNext file := by
  constructor
  · intro hLoads k hk hSymbols
    have hOnce := hLoads.once k hk hSymbols
    have hMem : k ∈ (filePairs file).map Prod.fst := List.count_pos_iff.mp (by omega)
    obtain ⟨⟨i, j⟩, hPair, rfl⟩ := List.mem_map.mp hMem
    obtain ⟨-, -, hLink⟩ := hLoads.linked (i, j) hPair
    exact hLink ▸ (mem_filePairs.mp hPair).2
  · intro hNext
    constructor
    · rintro ⟨i, j⟩ hPair
      obtain ⟨hLt, hAdjacent⟩ := mem_filePairs.mp hPair
      have hi := Nat.lt_trans hAdjacent.lt hLt
      exact ⟨hi, hAdjacent.symbols, hAdjacent.unique (hNext i hi hAdjacent.symbols)⟩
    · intro k hk hSymbols
      have hPair := mem_filePairs.mpr ⟨(h.linked k hk hSymbols).link_lt, hNext k hk hSymbols⟩
      exact List.count_eq_one_of_mem tablePairs_nodup (List.mem_map_of_mem hPair)

/-- The state of the loader that has read the file header and collected no
symbols. -/
structure ElfInternals.Fresh (ei : ElfInternals) (fd : UInt32) (file : List UInt8) : Prop where
  fd_eq : ei.fd = fd
  offset : ei.sechdrOffset = (ehdrOf file).eShoff
  count : ei.sechdrNum.toNat = (ehdrOf file).eShnum.toNat
  size : ei.sechdrSize.toNat = (ehdrOf file).eShnum.toNat * shdrSize
  names : ei.secnametblIdx.toNat = (ehdrOf file).eShstrndx.toNat
  symbolsNum : ei.symbolsNum = 0

theorem ElfInternals.SameButHeaders.fresh {ei ei' : ElfInternals} {fd : UInt32}
    {file : List UInt8} (h : ei.SameButHeaders ei') (hFresh : ei.Fresh fd file) :
    ei'.Fresh fd file := by
  obtain ⟨_, _, _, rfl⟩ := h
  exact ⟨hFresh.fd_eq, hFresh.offset, hFresh.count, hFresh.size, hFresh.names, hFresh.symbolsNum⟩

theorem withHeader_fresh {file : List UInt8} (h : HeadersInFile file) (fd : UInt32) :
    ((ElfInternals.opened fd).withHeader (ehdrOf file)).Fresh fd file := by
  obtain ⟨hFd, hOffset, hCount, hSize, hIdx, -, hNum⟩ :=
    withHeader_sections (.opened fd) h.shoff h.shentsize
  exact ⟨hFd, hOffset, hCount, hSize, hIdx, hNum⟩

section Load
variable {sys : System} (hSys : sys.Reliable) (h : WellFormed sys.file) {ei : ElfInternals}
  (hFresh : ei.Fresh sys.fd sys.file)
include hSys h hFresh

/-- The headers are read, so that the calls are those of their scan. -/
theorem sectionHeadersCalls_scanned {fuel : Nat} {s : OsState} (post : List TableCall → Prop)
    {fault : LoadFault → Prop}
    (hScan : ∀ ei : ElfInternals, ei.Fresh sys.fd sys.file → ∀ t : OsState,
      Sat ((List.range (ehdrOf sys.file).eShnum.toNat).foldlM
          (scanSectionCalls sys fuel (sectionHeaders sys.file)) ([], none, ei) t)
        (fun r => post r.1.1) fault) :
    Sat (exeLoadSectionHeadersCalls sys fuel ei s) (fun r => post r.1.1) fault := by
  unfold exeLoadSectionHeadersCalls
  apply sat_bind (readSectionHeaders_sat hSys h.headers hFresh.fd_eq hFresh.offset hFresh.size
    hFresh.names)
  rintro ⟨_, ei'⟩ t ⟨rfl, hSame⟩
  have hFresh := hSame.fresh hFresh
  dsimp only
  rw [hFresh.count]
  apply sat_bind (hScan ei' hFresh t)
  rintro r u hPost
  exact hPost

/-- Whatever is loaded, the calls are those for the pairs of the file. -/
theorem sectionHeadersCalls_pairs (fuel : Nat) (s : OsState) :
    Sat (exeLoadSectionHeadersCalls sys fuel ei s)
      (fun r => r.1.1.map TableCall.tables = filePairs sys.file) (fun _ => True) := by
  apply sectionHeadersCalls_scanned hSys h hFresh fun calls =>
    calls.map TableCall.tables = filePairs sys.file
  intro ei' hFresh t
  apply Sat.imp (scanCalls_sat
    (fun _ r => r.1.secnametblIdx.toNat = (ehdrOf sys.file).eShstrndx.toNat)
    (fun _ _ _ => id) (fun _ _ _ => trivial) _ hFresh.names)
  · rintro r ⟨-, hCalls, -⟩
    exact hCalls
  · intro calls i j _ ei t hNames
    apply (exeLoadSymbolTable_frame sys _ _ fuel ei).imp
    rintro ⟨⟨_, _⟩, u⟩ ⟨_, _, rfl⟩
    exact hNames

/-- Where the tables come in the right order, all of them are loaded. -/
theorem sectionHeadersCalls_returns (hNext : LinkedNext sys.file) {fuel : Nat}
    (hFuel : 0 < fuel) (s : OsState) :
    Sat (exeLoadSectionHeadersCalls sys fuel ei s)
      (fun _ => True) (fun _ => False) := by
  apply sectionHeadersCalls_scanned hSys h hFresh fun _ => True
  intro ei' hFresh t
  have hInit : ei'.symbolsNum.toNat ≤ 0 := Nat.le_of_eq (congrArg UInt64.toNat hFresh.symbolsNum)
  apply Sat.imp (scanCalls_sat
    (fun calls r => r.1.fd = sys.fd ∧
      r.1.secnametblIdx.toNat = (ehdrOf sys.file).eShstrndx.toNat ∧
      r.1.symbolsNum.toNat ≤ pairsCount sys.file (calls.map TableCall.tables))
    (fun _ _ _ hInv => hInv.2.1) _ _ ⟨hFresh.fd_eq, hFresh.names, hInit⟩)
  · exact fun _ _ => trivial
  · intro k hk hOutside
    rw [h.headers.sectionHeaders_length] at hOutside
    exact absurd hOutside (Nat.not_lt.mpr (Nat.mul_le_mul_right shdrSize hk))
  · rintro calls i j hPrefix ei t ⟨hFd, hIdx, hNum⟩
    have hMem : (i, j) ∈ filePairs sys.file :=
      hPrefix.subset (List.mem_append_right _ (List.mem_singleton_self _))
    obtain ⟨hLt, hAdjacent⟩ := mem_filePairs.mp hMem
    have hi := Nat.lt_trans hAdjacent.lt hLt
    have hLink := hAdjacent.unique (hNext i hi hAdjacent.symbols)
    have hPair := (h.linked i hi hAdjacent.symbols).pair
    have hFew : pairsCount sys.file (calls.map TableCall.tables ++ [(i, j)]) ≤
        pairsCount sys.file (filePairs sys.file) := pairsCount_le hPrefix
    have hFits := h.fits
    have hNonempty := hPair.nonempty
    rw [pairsCount_concat] at hFew
    have hSmall : symCount (sectionOf sys.file i) + ei.symbolsNum.toNat < 2 ^ 42 := by
      have hSize : elfSymbolSize.toNat = 32 := by decide
      rw [hSize] at hFits
      dsimp only at hNum hFew
      omega
    rw [hdrIn_sectionHeaders hi, hdrIn_sectionHeaders hLt, hLink]
    apply (exeLoadSymbolTable_sat hSys hPair hFd hSmall hFuel).imp
    rintro ⟨_, u⟩ rfl
    have hLoaded := loaded_num_toNat hPair hSmall
    refine ⟨hFd, hIdx, ?_⟩
    rw [List.map_append, List.map_singleton, TableCall.tables, pairsCount_concat]
    dsimp only at hNum hLoaded ⊢
    omega

end Load

/-- The section headers of a well-formed file are loaded with one call for each
symbol table, and that with the string table that it names, if and only if in
the order of the sections that string table follows next. -/
theorem tables_linked_iff {sys : System} (hSys : sys.Reliable) (h : WellFormed sys.file)
    {fuel : Nat} (hFuel : 0 < fuel) (s : OsState) :
    Sat (exeLoadSectionHeadersCalls sys fuel
        ((ElfInternals.opened sys.fd).withHeader (ehdrOf sys.file)) s)
        (fun r => LoadsLinked sys.file (r.1.1.map TableCall.tables)) (fun _ => False) ↔
      LinkedNext sys.file := by
  have hFresh := withHeader_fresh h.headers sys.fd
  have hPairs := sectionHeadersCalls_pairs hSys h hFresh fuel s
  rw [← loadsLinked_filePairs h]
  constructor
  · intro hLoads
    obtain ⟨r, hRun, hLinked⟩ := hLoads.returns
    rw [hRun] at hPairs
    exact hPairs ▸ hLinked
  · intro hLinked
    have hReturns := sectionHeadersCalls_returns hSys h hFresh
      ((loadsLinked_filePairs h).mp hLinked) hFuel s
    obtain ⟨r, hRun, -⟩ := hReturns.returns
    rw [hRun] at hPairs ⊢
    change r.1.1.map TableCall.tables = filePairs sys.file at hPairs
    change LoadsLinked sys.file (r.1.1.map TableCall.tables)
    rwa [hPairs]

theorem smallFile_wellFormed : WellFormed smallSystem.file := by decide +kernel

theorem tables_linked_small :
    Sat (exeLoadSectionHeadersCalls smallSystem 1
        ((ElfInternals.opened smallSystem.fd).withHeader (ehdrOf smallSystem.file)) ⟨0, 0⟩)
      (fun r => LoadsLinked smallSystem.file (r.1.1.map TableCall.tables)) (fun _ => False) :=
  (tables_linked_iff smallSystem_reliable smallFile_wellFormed Nat.one_pos ⟨0, 0⟩).mpr
    (by decide +kernel)

/-- The file with one function, its string table in front of the symbol table. -/
def swappedSystem : System :=
  { smallSystem with
    file := smallFile.take 128 ++ slice smallFile 192 64 ++ (slice smallFile 128 64).set 40 1 ++
      smallFile.drop 256 }

/-- The symbol table of that file is not loaded. -/
theorem tables_linked_swapped :
    WellFormed swappedSystem.file ∧
    ¬ Sat (exeLoadSectionHeadersCalls swappedSystem 1
        ((ElfInternals.opened swappedSystem.fd).withHeader (ehdrOf swappedSystem.file)) ⟨0, 0⟩)
      (fun r => LoadsLinked swappedSystem.file (r.1.1.map TableCall.tables))
      (fun _ => False) := by
  decide +kernel

end TelnetDebug.Image

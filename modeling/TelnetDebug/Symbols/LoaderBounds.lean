import TelnetDebug.Symbols.FileInside

/-! Files that make the loader leave an object. For every part of the file there
is a system that leads the loader to it: it refuses the calls that would end the
load before, or take it elsewhere. -/
namespace TelnetDebug.Image

open CBuffer Posix Guarded

section Faults
variable (sys : System) {s : OsState}

/-- The loop over the program headers faults only where it leaves their table. -/
theorem loadInterp_faults (proghdrs : List UInt8) (indices : List Nat) (ei : ElfInternals) :
    Sat (loadInterp sys proghdrs indices ei s) (fun _ => True) LoadFault.LeavesObject := by
  induction indices generalizing ei s with
  | nil => exact trivial
  | cons idx rest ih =>
      unfold loadInterp
      refine sat_bind (?_ : Sat _ (fun _ => True) _) ?_
      · unfold entryAt
        split <;> exact trivial
      · rintro entry t -
        dsimp only
        split
        · apply sat_bind (lseek_returns sys _ _)
          rintro offset u -
          split
          · exact trivial
          · apply sat_bind (malloc_returns sys _)
            rintro memory v -
            cases memory with
            | none => exact trivial
            | some memory =>
                apply sat_bind (read_returns sys _ _)
                rintro name w -
                cases name with
                | none => exact trivial
                | some name => exact ih _
        · exact ih _

theorem exeLoadProgramHeaders_faults (ei : ElfInternals) :
    Sat (exeLoadProgramHeaders sys ei s) (fun _ => True) LoadFault.LeavesObject := by
  unfold exeLoadProgramHeaders
  split
  · exact trivial
  · apply sat_bind (malloc_returns sys _)
    rintro memory t -
    cases memory with
    | none => exact trivial
    | some memory =>
        apply sat_bind (lseek_returns sys _ _)
        rintro offset u -
        dsimp only
        split
        · exact trivial
        · apply sat_bind (read_returns sys _ _)
          rintro headers v -
          cases headers with
          | none => exact trivial
          | some headers => exact loadInterp_faults sys _ _ _

theorem readSectionNames_inside (sechdrs : List UInt8) (ei : ElfInternals) :
    Sat (readSectionNames sys sechdrs ei s)
      (fun _ => (ei.secnametblIdx.toNat + 1) * shdrSize ≤ sechdrs.length)
      LoadFault.LeavesObject := by
  unfold readSectionNames
  apply sat_bind (sechdrAt_sat fun _ => trivial)
  rintro _ _ ⟨hInside, ⟨⟩⟩
  apply sat_bind (lseek_returns sys _ _)
  rintro offset t -
  split
  · exact hInside
  · apply sat_bind (malloc_returns sys _)
    rintro strsectbl u -
    cases strsectbl with
    | none => exact hInside
    | some strsectbl =>
        apply sat_bind (read_returns sys _ _)
        rintro names v -
        cases names with
        | none => exact hInside
        | some names => exact hInside

/-- Section headers that are read are not left at the header of their names. -/
theorem readSectionHeaders_names {ei : ElfInternals} (hFd : ei.fd = sys.fd)
    (hGiven : SectionsGiven ei)
    (hNone : sys.firstRefused [.malloc ei.sechdrSize, .lseek ei.sechdrOffset, .other]
      s.calls = none) :
    Sat (readSectionHeaders sys ei s)
      (fun _ => (ei.secnametblIdx.toNat + 1) * shdrSize ≤ ei.sechdrSize.toNat)
      LoadFault.LeavesObject := by
  unfold readSectionHeaders
  rw [if_neg hGiven]
  apply sat_bind (malloc_outcome sys _)
  rintro memory t₁ ⟨hCalls₁, -, hMemory, -⟩
  cases memory with
  | none => exact absurd (hMemory.mp rfl) (answered_of_none (i := 0) hNone rfl)
  | some memory =>
      have hCalls₁ : t₁.calls = s.calls + 1 := hCalls₁
      refine sat_bind (lseek_outcome sys ?_ _) ?_
      · exact hFd
      · rintro offset t₂ ⟨hCalls₂, hOffset, -⟩
        have hCalls₂ : t₂.calls = s.calls + 2 := hCalls₂.trans (congrArg _ hCalls₁)
        rw [hCalls₁] at hOffset
        dsimp only
        rw [if_neg (mt hOffset.mp (answered_of_none (i := 1) hNone rfl))]
        refine sat_bind (read_outcome sys ?_ _) ?_
        · exact hFd
        · rintro headers t₃ ⟨-, hHeaders, hDelivered⟩
          cases headers with
          | none =>
              rw [hCalls₂] at hHeaders
              exact absurd (hHeaders.mp rfl) (answered_of_none (i := 2) hNone rfl)
          | some headers =>
              have hTable : (overwrite (List.replicate ei.sechdrSize.toNat 0) headers).length =
                  ei.sechdrSize.toNat := by
                rw [overwrite_length, List.length_replicate]
                rw [List.length_replicate, hDelivered headers rfl]
                exact sys.delivered_length _ _ _
              refine (readSectionNames_inside sys _ _).imp fun _ hInside => ?_
              rw [hTable] at hInside
              exact hInside

end Faults

section Scans
variable {sys : System} {sechdrs : List UInt8} {s : OsState}

/-- A scan that gives up every table at once goes through all headers. -/
theorem scan_refused {n : Nat} (hRefused : ∀ k, s.calls ≤ k → sys.Refuses .other k)
    {ei : ElfInternals} (hFd : ei.fd = sys.fd) :
    Sat ((List.range n).foldlM (scanSection sys 1 sechdrs) (none, ei) s)
      (fun _ => n * shdrSize ≤ sechdrs.length) LoadFault.LeavesObject := by
  refine (sat_range (fun k r => k * shdrSize ≤ sechdrs.length ∧ s.calls ≤ r.2.calls ∧
    r.1.2.fd = sys.fd) ⟨?_, Nat.le_refl _, hFd⟩ ?_).imp fun _ h => h.1
  · rw [Nat.zero_mul]
    exact Nat.zero_le _
  · rintro k - ⟨symtab, ei'⟩ t ⟨-, hCalls, hFd'⟩
    unfold scanSection
    apply sat_bind (sechdrAt_sat fun _ => trivial)
    rintro _ _ ⟨hInside, ⟨⟩⟩
    dsimp only
    split
    · exact ⟨hInside, hCalls, hFd'⟩
    · split
      · cases symtab with
        | none => exact ⟨hInside, hCalls, hFd'⟩
        | some symtab =>
            apply sat_bind (sechdrAt_sat fun _ => trivial)
            rintro _ _ ⟨-, ⟨⟩⟩
            apply sat_bind (exeLoadSymbolTable_refused hFd' (hRefused t.calls hCalls))
            rintro ⟨rc, _⟩ u ⟨rfl, hNext⟩
            have hLater := Nat.le_of_lt (Nat.lt_of_succ_le (Nat.le_of_eq hNext.symm))
            exact ⟨hInside, hCalls.trans hLater, hFd'⟩
      · exact ⟨hInside, hCalls, hFd'⟩

/-- After the calls for some tables, in front of table `p` and behind it, which
takes `count` calls. -/
def Attacked (ei : ElfInternals) (first p count : Nat) (loaded : ElfInternals → Prop)
    (calls : List TableCall) (r : ElfInternals × OsState) : Prop :=
  ei.SameButSymbols r.1 ∧ (calls.length ≤ p → r.1 = ei ∧ r.2.calls = first + calls.length) ∧
    (p < calls.length → first + p + count ≤ r.2.calls ∧ loaded r.1)

/-- The rule for a scan that gives up every table at once but for one, which it
loads. -/
theorem scan_one {n p count : Nat} {ei : ElfInternals} (hFd : ei.fd = sys.fd) {i j : Nat}
    (hPair : (tablePairs (hdrIn sechdrs) ei.secnametblIdx.toNat n)[p]? = some (i, j))
    (hBefore : ∀ k, s.calls ≤ k → k < s.calls + p → sys.Refuses .other k)
    (hLater : ∀ k, s.calls + p + count ≤ k → sys.Refuses .other k)
    (loaded : ElfInternals → Prop) {fault : LoadFault → Prop}
    (hOutside : ∀ k < n, sechdrs.length < (k + 1) * shdrSize → fault (.outside .sechdrs k))
    (hTable : ∀ t : OsState, t.calls = s.calls + p →
      Sat (exeLoadSymbolTable sys (hdrIn sechdrs i) (hdrIn sechdrs j) 1 ei t)
        (fun r => s.calls + p + count ≤ r.2.calls ∧ loaded r.1.2) fault) :
    Sat ((List.range n).foldlM (scanSection sys 1 sechdrs) (none, ei) s)
      (fun r => s.calls + p + count ≤ r.2.calls ∧ loaded r.1.2) fault := by
  obtain ⟨hSome, -⟩ := List.getElem?_eq_some_iff.mp hPair
  rw [← scanCalls_erased []]
  refine sat_bind (scanCalls_sat (Attacked ei s.calls p count loaded) (fun _ _ _ h => h.1.names_eq)
    hOutside ?_ ⟨⟨_, _, rfl⟩, fun _ => ⟨rfl, rfl⟩, fun h => absurd h (Nat.not_lt_zero p)⟩) ?_
  · rintro calls i' j' hPrefix ei' t ⟨hSame, hUpTo, hBehind⟩
    rcases Nat.lt_trichotomy calls.length p with hLt | hEq | hGt
    · obtain ⟨rfl, hCalls⟩ := hUpTo (Nat.le_of_lt hLt)
      have hCalls : t.calls = s.calls + calls.length := hCalls
      apply (exeLoadSymbolTable_refused hFd (hBefore t.calls (by omega) (by omega))).imp
      rintro ⟨⟨rc, _⟩, u⟩ ⟨rfl, hNext⟩
      have hNext : u.calls = t.calls + 1 := hNext
      refine ⟨hSame, fun _ => ⟨rfl, ?_⟩, fun h => ?_⟩
      · rw [List.length_append, List.length_singleton, ← Nat.add_assoc, ← hCalls]
        exact hNext
      · rw [List.length_append, List.length_singleton] at h
        omega
    · obtain ⟨rfl, hCalls⟩ := hUpTo (Nat.le_of_eq hEq)
      obtain ⟨rfl, rfl⟩ : i' = i ∧ j' = j := by
        obtain ⟨rest, hRest⟩ := hPrefix
        rw [← hRest, ← hEq] at hPair
        simpa using hPair
      apply ((exeLoadSymbolTable_frame sys _ _ 1 _).and (hTable t (hEq ▸ hCalls))).mono
      · rintro _ ⟨hSame', hLoaded⟩
        refine ⟨hSame', fun h => ?_, fun _ => hLoaded⟩
        rw [List.length_append, List.length_singleton] at h
        omega
      · exact fun _ h => h.2
    · obtain ⟨hCalls, hLoaded⟩ := hBehind hGt
      have hCalls : s.calls + p + count ≤ t.calls := hCalls
      apply (exeLoadSymbolTable_refused (hSame.fd_eq.trans hFd) (hLater t.calls hCalls)).imp
      rintro ⟨⟨rc, _⟩, u⟩ ⟨rfl, hNext⟩
      have hLate : s.calls + p + count ≤ u.calls := hNext ▸ Nat.le_succ_of_le hCalls
      refine ⟨hSame, fun h => ?_, fun _ => ⟨hLate, hLoaded⟩⟩
      rw [List.length_append, List.length_singleton] at h
      omega
  · rintro ⟨calls, symtab, ei'⟩ t ⟨-, hCalls, -, -, hBehind⟩
    have hLength := congrArg List.length hCalls
    rw [List.length_map] at hLength
    exact hBehind (hLength ▸ hSome)

end Scans

section Sections
variable {sys : System} (hDelivers : sys.Delivers)
  (hSought : Sought (headerIn sys.file).eShoff (sechdrSizeIn sys.file))
  (hAnswered : ∀ k < 9, sys.fails k = false) {t : OsState} (hCalls : t.calls = 3)
include hDelivers hSought hAnswered

theorem sectionsRead_of_answered
    (hNames : Shdr.CanBeRead (namesIn sys.file)) : SectionsRead sys (headed sys) 3 := by
  refine ⟨sectionsGiven_iff.mpr ⟨hSought.given, hSought.sized⟩, firstRefused_none ?_ ?_⟩
  · exact fun i _ hi => hAnswered i hi
  · have hOffset := (withHeader_sechdrs (.opened sys.fd) hSought.given).1
    unfold sectionRequests
    rw [sechdrsDelivered_eq hDelivers hSought.given, secnametblIdx_headed hSought.given,
      sechdrSize_headed hSought.given, headed, hOffset]
    exact ⟨hSought.fits, hSought.seekable, trivial, hNames.1, hNames.2, trivial⟩

include hCalls

theorem sectionHeaders_found (hLater : ∀ k, 9 ≤ k → sys.fails k = true) :
    Sat (exeLoadSectionHeaders sys 1 (headed sys) t) (fun _ =>
      ((headerIn sys.file).eShstrndx.toNat + 1) * shdrSize ≤ (sechdrSizeIn sys.file).toNat ∧
        (Shdr.CanBeRead (namesIn sys.file) →
          (headerIn sys.file).eShnum.toNat * shdrSize ≤ (sechdrSizeIn sys.file).toNat))
      LoadFault.LeavesObject := by
  have hGiven : SectionsGiven (headed sys) := sectionsGiven_iff.mpr ⟨hSought.given, hSought.sized⟩
  have hNone : sys.firstRefused [.malloc (headed sys).sechdrSize,
      .lseek (headed sys).sechdrOffset, .other] t.calls = none := by
    apply firstRefused_none
    · intro i _ hi
      rw [hCalls] at hi
      exact hAnswered i (Nat.lt_trans hi (by decide : 3 + 3 < 9))
    · have hOffset := (withHeader_sechdrs (.opened sys.fd) hSought.given).1
      rw [sechdrSize_headed hSought.given, headed, hOffset]
      exact ⟨hSought.fits, hSought.seekable, trivial⟩
  rw [exeLoadSectionHeaders_eq]
  have hRead : Sat (readSectionHeaders sys (headed sys) t) _ LoadFault.LeavesObject :=
    readSectionHeaders_outcome sys (headed sys) (headed_fd sys) fun _ _ _ _ => trivial
  refine sat_bind ((hRead.and (readSectionHeaders_names sys (headed_fd sys) hGiven hNone)).mono
    (fun _ => id) fun _ h => h.2) ?_
  rintro ⟨sechdrs, ei⟩ u ⟨⟨hSame, hOutcome⟩, hInside⟩
  rw [secnametblIdx_headed hSought.given, sechdrSize_headed hSought.given] at hInside
  rw [hCalls] at hOutcome
  rcases hOutcome with ⟨-, rfl, hNine⟩ | ⟨hNot, rfl, -⟩
  · obtain ⟨_, _, _, rfl⟩ := hSame
    have hNine : u.calls = 9 := hNine
    dsimp only
    rw [sechdrsDelivered_eq hDelivers hSought.given, sechdrNum_headed hSought.given]
    refine sat_bind (scan_refused ?_ ?_) ?_
    · exact fun k hk => refuses_other.mpr (hLater k (hNine ▸ hk))
    · exact headed_fd sys
    · rintro state v hScanned
      rw [sechdrsIn_length] at hScanned
      exact ⟨hInside, fun _ => hScanned⟩
  · exact ⟨hInside, fun hNames =>
      absurd (sectionsRead_of_answered hDelivers hSought hAnswered hNames) hNot⟩

end Sections

/-- The system refuses the calls for the tables in front of table `p` and all calls
behind the first ones for it, and the memory for that table holds these contents. -/
structure LeadsTo (sys : System) (p count : Nat) (strsymtbl syms : List UInt8) : Prop where
  answered : ∀ k < 9, sys.fails k = false
  before : ∀ k, 9 ≤ k → k < 9 + p → sys.fails k = true
  table : ∀ k, 9 + p ≤ k → k < 9 + p + count → sys.fails k = false
  later : ∀ k, 9 + p + count ≤ k → sys.fails k = true
  strings : sys.fresh (9 + p + 1) = fun k => strsymtbl.getD k 0
  symbols : sys.fresh (9 + p + 3) = fun k => syms.getD k 0

section Table
variable {sys : System} {p count : Nat} {strsymtbl syms : List UInt8}
  (hLeads : LeadsTo sys p count strsymtbl syms)
include hLeads

theorem LeadsTo.requests (hCount : 7 ≤ count) {symh strh : Shdr} (hNotEmpty : NotEmpty symh)
    (hStrings : Shdr.CanBeRead strh) (hSymbols : Shdr.CanBeRead symh) :
    sys.firstRefused (tableRequests symh strh) (9 + p) = none := by
  rw [tableRequests_notEmpty hNotEmpty]
  apply firstRefused_none
  · intro k hLe hLt
    have hLt : k < 9 + p + 6 := hLt
    exact hLeads.table k hLe (by omega)
  · exact ⟨hStrings.1, hStrings.2, trivial, hSymbols.2, hSymbols.1, trivial⟩

/-- The array is granted to the state that has no symbols. -/
theorem LeadsTo.granted (hCount : 7 ≤ count) {ei : ElfInternals} {symh : Shdr}
    (hSame : (headed sys).SameButHeaders ei) (hFits : ArrayFits symh) :
    ¬ sys.Refuses (.realloc ei.symbols.isSome (arraySize symh ei.symbolsNum)) (9 + p + 6) := by
  obtain ⟨_, _, _, rfl⟩ := hSame
  obtain ⟨-, hSymbols, hNum⟩ : (headed sys).fd = sys.fd ∧ _ := withHeader_kept (.opened sys.fd)
  have hNone : (headed sys).symbols = none := hSymbols
  have hZero : (headed sys).symbolsNum = 0 := hNum
  have hAnswered := hLeads.table (9 + p + 6) (by omega) (by omega)
  dsimp only
  rw [hNone, hZero]
  exact not_or.mpr ⟨Bool.eq_false_iff.mp hAnswered, not_not.mpr (arrayFits_small hFits)⟩

variable (hDelivers : sys.Delivers)
  (hSought : Sought (headerIn sys.file).eShoff (sechdrSizeIn sys.file))
  (hNames : Shdr.CanBeRead (namesIn sys.file)) {i j : Nat}
  (hPair : (tablePairs (hdrIn (sechdrsIn sys.file)) (headerIn sys.file).eShstrndx.toNat
    (headerIn sys.file).eShnum.toNat)[p]? = some (i, j))
  {t : OsState} (hCalls : t.calls = 3)
include hDelivers hSought hNames hPair hCalls

/-- The rule for section headers that are scanned for one table. -/
theorem LeadsTo.sections (loaded : ElfInternals → Prop) {fault : LoadFault → Prop}
    (hOutside : ∀ k, k = (headerIn sys.file).eShstrndx.toNat ∨
        k < (headerIn sys.file).eShnum.toNat →
      (sechdrSizeIn sys.file).toNat < (k + 1) * shdrSize → fault (.outside .sechdrs k))
    (hTable : ∀ ei, (headed sys).SameButHeaders ei → ∀ u : OsState, u.calls = 9 + p →
      Sat (exeLoadSymbolTable sys (hdrIn (sechdrsIn sys.file) i) (hdrIn (sechdrsIn sys.file) j)
        1 ei u) (fun r => 9 + p + count ≤ r.2.calls ∧ loaded r.1.2) fault) :
    Sat (exeLoadSectionHeaders sys 1 (headed sys) t)
      (fun r => 9 + p + count ≤ r.2.calls ∧ loaded r.1.2) fault := by
  rw [exeLoadSectionHeaders_eq]
  refine sat_bind (readSectionHeaders_outcome sys (headed sys) (headed_fd sys) ?_) ?_
  · intro _ _ _ hShort
    rw [secnametblIdx_headed hSought.given, sechdrSize_headed hSought.given] at hShort
    rw [secnametblIdx_headed hSought.given]
    exact hOutside _ (.inl rfl) hShort
  · rintro ⟨sechdrs, ei⟩ u ⟨hSame, hOutcome⟩
    rw [hCalls] at hOutcome
    rcases hOutcome with ⟨-, rfl, hNine⟩ | ⟨hNot, -, -⟩
    · have hHeaders := hSame
      obtain ⟨_, _, _, rfl⟩ := hSame
      have hNine : u.calls = 9 := hNine
      have hBefore := hLeads.before
      have hLater := hLeads.later
      rw [← secnametblIdx_headed hSought.given] at hPair
      rw [← hNine] at hBefore hLater hTable ⊢
      dsimp only
      rw [sechdrsDelivered_eq hDelivers hSought.given, sechdrNum_headed hSought.given]
      refine sat_bind (scan_one ?_ ?_ (fun k hLe hLt => refuses_other.mpr (hBefore k hLe hLt))
        (fun k hLe => refuses_other.mpr (hLater k hLe)) loaded ?_ (hTable _ hHeaders))
        fun _ _ => id
      · exact headed_fd sys
      · exact hPair
      · intro k hk hShort
        rw [sechdrsIn_length] at hShort
        exact hOutside k (.inr hk) hShort
    · exact absurd (sectionsRead_of_answered hDelivers hSought hLeads.answered hNames) hNot

end Table

theorem entries_found {sys : System} {p : Nat} {strsymtbl syms : List UInt8}
    (hLeads : LeadsTo sys p 7 strsymtbl syms) (hDelivers : sys.Delivers)
    (hSought : Sought (headerIn sys.file).eShoff (sechdrSizeIn sys.file))
    (hNames : Shdr.CanBeRead (namesIn sys.file)) {i j : Nat}
    (hPair : (tablePairs (hdrIn (sechdrsIn sys.file)) (headerIn sys.file).eShstrndx.toNat
      (headerIn sys.file).eShnum.toNat)[p]? = some (i, j))
    {t : OsState} (hCalls : t.calls = 3)
    (hNotEmpty : NotEmpty (hdrIn (sechdrsIn sys.file) i))
    (hStrings : Shdr.CanBeRead (hdrIn (sechdrsIn sys.file) j))
    (hSymbols : Shdr.CanBeRead (hdrIn (sechdrsIn sys.file) i))
    (hFits : ArrayFits (hdrIn (sechdrsIn sys.file) i))
    (hStrsymtbl : InMemory sys.file (hdrIn (sechdrsIn sys.file) j) strsymtbl)
    (hSyms : InMemory sys.file (hdrIn (sechdrsIn sys.file) i) syms) :
    Sat (exeLoadSectionHeaders sys 1 (headed sys) t)
      (fun _ => EntriesInside (hdrIn (sechdrsIn sys.file) i) strsymtbl syms)
      LoadFault.LeavesObject := by
  refine (hLeads.sections hDelivers hSought hNames hPair hCalls
    (fun _ => EntriesInside _ strsymtbl syms) (fun _ _ _ => trivial) ?_).imp fun _ h => h.2
  intro ei hSame u hTaken
  have hFd : ei.fd = sys.fd := by
    obtain ⟨_, _, _, rfl⟩ := hSame
    exact headed_fd sys
  have hNone := hLeads.requests (Nat.le_refl 7) hNotEmpty hStrings hSymbols
  have hGranted := hLeads.granted (Nat.le_refl 7) hSame hFits
  have hLater := hLeads.later
  rw [← sectionRead_eq hDelivers hStrsymtbl hLeads.strings (9 + p + 2),
    ← sectionRead_eq hDelivers hSyms hLeads.symbols (9 + p + 5)]
  rw [← hTaken] at hNone hGranted hLater ⊢
  exact exeLoadSymbolTable_seen hFd hNotEmpty hNone hGranted fun k hLe =>
    refuses_other.mpr (hLater k hLe)

theorem programs_found {sys : System} (hDelivers : sys.Delivers)
    (hSought : Sought (headerIn sys.file).ePhoff (proghdrSizeIn sys.file))
    (hFails : ∀ k, sys.fails k = true ↔ k = 3 ∧ SectionsGiven (headed sys)) {t : OsState}
    (hCalls : t.calls = 3) :
    Sat (exeLoadSectionHeaders sys 1 (headed sys) t)
      (fun r => Sat (exeLoadProgramHeaders sys r.1.2 r.2)
        (fun _ => PhdrsInside (proghdrsIn sys.file) 0 (headerIn sys.file).ePhnum.toNat)
        LoadFault.LeavesObject) LoadFault.LeavesObject := by
  have hRefused (hGiven : SectionsGiven (headed sys)) :
      sys.firstRefused (sectionRequests sys (headed sys) 3) 3 = some 3 :=
    if_pos (.inl ((hFails 3).mpr ⟨rfl, hGiven⟩))
  rw [exeLoadSectionHeaders_eq]
  apply sat_bind (readSectionHeaders_outcome sys (headed sys) (headed_fd sys) fun _ _ _ _ => trivial)
  rintro ⟨sechdrs, ei⟩ u ⟨hSame, hOutcome⟩
  rw [hCalls] at hOutcome
  rcases hOutcome with ⟨hRead, -, -⟩ | ⟨-, rfl, hAfter⟩
  · cases (hRefused hRead.1).symm.trans hRead.2
  · obtain ⟨_, _, _, rfl⟩ := hSame
    have hSucceeds (k : Nat) (hk : u.calls ≤ k) : sys.fails k = false := by
      rw [← Bool.not_eq_true, hFails]
      rintro ⟨rfl, hGiven⟩
      rcases hAfter with ⟨hNone, -⟩ | ⟨-, refused, hFirst, hNext⟩
      · exact hNone hGiven
      · have hThree := Option.some.inj ((hRefused hGiven).symm.trans hFirst)
        dsimp only at hNext
        omega
    apply sat_pure
    refine Sat.mono ((exeLoadProgramHeaders_outcome sys _ ?_).and
      (exeLoadProgramHeaders_faults sys _)) ?_ ?_
    · exact headed_fd sys
    · exact fun r h => phdrsInside_of_loaded hDelivers hSucceeds hSought h.1.1
    · exact fun _ h => h.2

theorem attackerFd_small : (3 : UInt32).toNat < 2 ^ 31 := by decide

/-- A system that refuses the calls that are chosen and reads all there is. The
contents of fresh memory are chosen too. -/
def attacker (file : List UInt8) (fails : Nat → Bool) (fresh : Nat → Nat → UInt8) : System where
  file := file
  fd := 3
  fails := fails
  upTo := fun _ => file.length
  fresh := fresh
  descriptor := attackerFd_small

theorem attacker_delivers (file : List UInt8) (fails : Nat → Bool) (fresh : Nat → Nat → UInt8) :
    (attacker file fails fresh).Delivers := fun _ => Nat.le_refl _

/-- A system that leads to table `p`. -/
def leading (file : List UInt8) (p count : Nat) (strsymtbl syms : List UInt8) : System :=
  attacker file (fun k => decide ((9 ≤ k ∧ k < 9 + p) ∨ 9 + p + count ≤ k))
    (fun k i => if k = 9 + p + 1 then strsymtbl.getD i 0 else syms.getD i 0)

theorem leading_leadsTo (file : List UInt8) (p count : Nat) (strsymtbl syms : List UInt8) :
    LeadsTo (leading file p count strsymtbl syms) p count strsymtbl syms where
  answered := fun k hk => decide_eq_false (by omega)
  before := fun k hLe hLt => decide_eq_true (.inl ⟨hLe, hLt⟩)
  table := fun k hLe hLt => decide_eq_false (by omega)
  later := fun k hLe => decide_eq_true (.inr hLe)
  strings := funext fun _ => if_pos rfl
  symbols := funext fun _ => if_neg (by omega)

/-- The run of a load whose first calls are answered. -/
theorem attacker_sat {file : List UInt8} (hSupported : Supported (headerIn file))
    (fails : Nat → Bool) (fresh : Nat → Nat → UInt8) (hOpened : ∀ k < 3, fails k = false)
    {post : LoadResult × OsState → Prop} {fault : LoadFault → Prop}
    (hLoad : ∀ t : OsState, t.calls = 3 →
      Sat (exeLoadSectionHeaders (attacker file fails fresh) 1
          (headed (attacker file fails fresh)) t)
        (fun r => Sat (exeLoadProgramHeaders (attacker file fails fresh) r.1.2 r.2)
          (fun r => post (⟨r.1.2.symbols, some r.1.2.symbolsNum, none, none⟩, r.2)) fault) fault) :
    Sat (exeLoadSymbols (attacker file fails fresh) 1 (some 0) none ⟨0, 0⟩) post fault := by
  have hDelivers := attacker_delivers file fails fresh
  have hAnswered : ¬ (attacker file fails fresh).Refuses .other 0 := by
    intro h
    have hRefused : fails 0 = true := refuses_other.mp h
    rw [hOpened 0 (by decide)] at hRefused
    cases hRefused
  have hNone : (attacker file fails fresh).firstRefused [.lseek 0, .other] 1 = none := by
    apply firstRefused_none
    · exact fun i _ hi => hOpened i hi
    · exact ⟨show (0 : UInt64).toNat < 2 ^ 63 by decide, trivial⟩
  have hRead : HeaderRead (attacker file fails fresh) 1 :=
    ⟨hNone, ehdrDelivered_eq hDelivers 2 ▸ hSupported⟩
  exact exeLoadSymbols_rule hDelivers (fun h => absurd ⟨hAnswered, hRead⟩ h) (fun h => nomatch h)
    fun _ => hLoad

section Attacks
variable {file : List UInt8} (hStays : StaysInside file) (hSupported : Supported (headerIn file))
include hStays hSupported

/-- What the loader has to find out, or else leaves an object, is so. -/
theorem attack_sat (fails : Nat → Bool) (fresh : Nat → Nat → UInt8)
    (hOpened : ∀ k < 3, fails k = false) {post : Prop}
    (hLoad : ∀ t : OsState, t.calls = 3 →
      Sat (exeLoadSectionHeaders (attacker file fails fresh) 1
          (headed (attacker file fails fresh)) t)
        (fun r => Sat (exeLoadProgramHeaders (attacker file fails fresh) r.1.2 r.2)
          (fun _ => post) LoadFault.LeavesObject) LoadFault.LeavesObject) : post := by
  have hLoaded : Sat (exeLoadSymbols (attacker file fails fresh) 1 (some 0) none ⟨0, 0⟩)
      (fun _ => post) LoadFault.LeavesObject := attacker_sat hSupported fails fresh hOpened hLoad
  have hBoth := (hLoaded.and (hStays _ rfl (attacker_delivers file fails fresh) 1 (some 0) none
    ⟨0, 0⟩)).mono (fun _ h => h.1) fun e (h : e.LeavesObject ∧ ¬ e.LeavesObject) => h.2 h.1
  obtain ⟨_, -, hPost⟩ := hBoth.returns
  exact hPost

/-- So is what it has to find out in the sections. -/
theorem attack_sections (fails : Nat → Bool) (fresh : Nat → Nat → UInt8)
    (hOpened : ∀ k < 3, fails k = false) {post : Prop}
    (hLoad : ∀ t : OsState, t.calls = 3 →
      Sat (exeLoadSectionHeaders (attacker file fails fresh) 1
        (headed (attacker file fails fresh)) t) (fun _ => post) LoadFault.LeavesObject) :
    post := by
  refine attack_sat hStays hSupported fails fresh hOpened fun t hCalls => ?_
  refine (hLoad t hCalls).imp fun r hPost => ?_
  exact (exeLoadProgramHeaders_faults _ _).imp fun _ _ => hPost

theorem tableInside_of_staysInside
    (hSought : Sought (headerIn file).eShoff (sechdrSizeIn file))
    (hNames : Shdr.CanBeRead (namesIn file))
    {i j : Nat} (hPair : (i, j) ∈ tablePairs (hdrIn (sechdrsIn file))
      (headerIn file).eShstrndx.toNat (headerIn file).eShnum.toNat) :
    TableInside file (hdrIn (sechdrsIn file) i) (hdrIn (sechdrsIn file) j) := by
  intro hNotEmpty hStrings hSymbols hFits strsymtbl syms hStrsymtbl hSyms
  obtain ⟨p, hPair⟩ := List.mem_iff_getElem?.mp hPair
  -- Table `p` is read, the tables before it and the names of its symbols are not.
  have hLeads := leading_leadsTo file p 7 strsymtbl syms
  refine attack_sections hStays hSupported (leading file p 7 strsymtbl syms).fails
    (leading file p 7 strsymtbl syms).fresh (fun k hk => hLeads.answered k (by omega))
    fun t hCalls => ?_
  exact entries_found hLeads (attacker_delivers file _ _) hSought hNames hPair hCalls hNotEmpty
    hStrings hSymbols hFits hStrsymtbl hSyms

theorem sectionsInside_of_staysInside
    (hSought : Sought (headerIn file).eShoff (sechdrSizeIn file)) : SectionsInside file := by
  have hHeaders := attack_sections hStays hSupported (fun k => decide (9 ≤ k)) (fun _ _ => 0)
    (fun k hk => decide_eq_false (by omega)) fun t hCalls =>
      sectionHeaders_found (attacker_delivers file _ _) hSought
        (fun k hk => decide_eq_false (by omega)) hCalls fun k hk => decide_eq_true hk
  exact ⟨hHeaders.1, hHeaders.2, fun hNames pair hPair =>
    tableInside_of_staysInside hStays hSupported hSought hNames hPair⟩

theorem phdrsInside_of_staysInside
    (hSought : Sought (headerIn file).ePhoff (proghdrSizeIn file)) :
    PhdrsInside (proghdrsIn file) 0 (headerIn file).ePhnum.toNat := by
  -- Only the memory for the section headers is refused.
  refine attack_sat hStays hSupported
    (fun k => decide (k = 3 ∧ 0 < (headerIn file).eShoff ∧ sechdrSizeIn file ≠ 0)) (fun _ _ => 0)
    (fun k hk => decide_eq_false (by omega)) fun t hCalls => ?_
  refine programs_found (attacker_delivers file _ _) hSought (fun k => ?_) hCalls
  exact decide_eq_true_iff.trans (and_congr_right fun _ => sectionsGiven_iff.symm)

end Attacks

/-- The loader stays inside what it has read of a file exactly where the headers
and the tables of the file are inside. -/
theorem loader_stays_inside_iff (file : List UInt8) : StaysInside file ↔ FileInside file := by
  constructor
  · intro hStays hSupported
    exact ⟨sectionsInside_of_staysInside hStays hSupported,
      phdrsInside_of_staysInside hStays hSupported⟩
  · exact staysInside_of_fileInside

/-- A file with one section header, which says that header 5 is that of the
section names. -/
@[irreducible] def strayNames : List UInt8 :=
  [0x7f, 0x45, 0x4c, 0x46] ++ List.replicate 14 0 ++ [62] ++ List.replicate 21 0 ++ [64] ++
    List.replicate 17 0 ++ [64, 0, 1, 0, 5, 0] ++ List.replicate 64 0

/-- No call fails, and the header is read behind the end of the headers. -/
theorem loader_leaves_headers : ¬ StaysInside strayNames := by
  intro hStays
  have hRun : Sat (exeLoadSymbols (attacker strayNames (fun _ => false) fun _ _ => 0) 1 (some 0)
      none ⟨0, 0⟩) (fun _ => False) (· = .outside .sechdrs 5) := by decide +kernel
  have hInside := hStays _ rfl (attacker_delivers strayNames (fun _ => false) fun _ _ => 0) 1
    (some 0) none ⟨0, 0⟩
  rw [hRun.faults] at hInside
  exact hInside trivial

end TelnetDebug.Image

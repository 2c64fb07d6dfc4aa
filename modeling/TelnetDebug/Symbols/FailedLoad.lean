import TelnetDebug.Symbols.Accumulation
import TelnetDebug.Symbols.TableOutcomes

/-! A load that fails. The results of the steps are unsigned and tested for being
negative, so that no failure is noticed, and what was collected before it is
returned. -/
namespace TelnetDebug.Image

open CBuffer Posix Guarded

/-- A step of `exe_load_symbols` reports failure. -/
inductive Reports (sys : System) (fuel : Nat) (s : OsState) : Prop
  | openFilename {t : OsState} : exeOpenFilename sys s = .ok (-1, t) → Reports sys fuel s
  | headers {fd : UInt32} {t u : OsState} {ei : ElfInternals} :
      exeOpenFilename sys s = .ok (fd, t) →
      exeLoadHeaders sys fuel (.opened fd) t = .ok ((-1, ei), u) → Reports sys fuel s
  | sectionHeaders {ei ei' : ElfInternals} {t u : OsState} :
      ReachesSections sys s ei t →
      exeLoadSectionHeaders sys fuel ei t = .ok ((-1, ei'), u) → Reports sys fuel s
  | programHeaders {ei ei' ei'' : ElfInternals} {rc : UInt32} {t u v : OsState} :
      ReachesSections sys s ei t →
      exeLoadSectionHeaders sys fuel ei t = .ok ((rc, ei'), u) →
      exeLoadProgramHeaders sys ei' u = .ok ((-1, ei''), v) → Reports sys fuel s

/-- An array that the loader got is kept, or given back with no name in it, and the
last one is freed in the end with the names in it. -/
structure FreesAll (hdrs : Nat → Shdr) (calls : List TableCall) (ei : ElfInternals)
    (freed : Option (List ElfSymbol)) : Prop where
  kept : calls.IsChain (KeepsArray hdrs)
  freed : ∀ call ∈ calls.getLast?, call.after.symbols.isSome →
    ∃ array, ei.symbols = some array ∧ freed = some (array.take ei.symbolsNum.toNat)

/-- What a run of `exe_load_symbols` has collected is freed. -/
def Releases (sys : System) (fuel : Nat) (s : OsState) (freed : Option (List ElfSymbol)) : Prop :=
  ∀ ei t calls rc ei' u, ReachesSections sys s ei t →
    exeLoadSectionHeadersCalls sys fuel ei t = .ok ((calls, rc, ei'), u) →
    FreesAll (hdrIn (sechdrsDelivered sys ei (t.calls + 2))) calls ei' freed

/-- The load of a call of `get_sym_addr` yields nothing. -/
structure YieldsNothing (sys : System) (fuel : Nat) (symName : List UInt8) (s : OsState) :
    Prop where
  load : ∀ cell t interp, malloc (ε := LoadFault) sys 8 s = .ok (cell, t) →
    Sat (exeLoadSymbols sys fuel (cell.map fun bytes => u64At bytes 0) interp t)
      (fun r => r.1.symbols = none ∧ r.1.symbolsNum = some 0 ∧ Releases sys fuel t r.1.freed)
      (fun _ => False)
  lookup : Sat (getSymAddr sys fuel symName s) (fun r => r.1 = noAddress) (fun _ => False)

/-- Whatever fails from call `k` on, the opening of the file, the symbol tables
yield no symbol, and leave no array. And where the section headers fail, the
program headers, which are read all the same, are not left. -/
def NothingCollected (sys : System) (k : Nat) : Prop :=
  ¬ sys.Refuses .other k → HeaderRead sys (k + 1) →
    let ei := (ElfInternals.opened sys.fd).withHeader (ehdrDelivered sys (k + 2))
    let sechdrs := sechdrsDelivered sys ei (k + 5)
    (SectionsRead sys ei (k + 3) → ∃ m, TablesYield sys (hdrIn sechdrs)
      (tablePairs (hdrIn sechdrs) ei.secnametblIdx.toNat ei.sechdrNum.toNat) false (k + 9)
        false m) ∧
    ∀ m, AfterSections sys ei (k + 3) m → ProgramsInside sys ei m

/-- Nothing is freed in the end, so that the last call may leave no array. -/
theorem freesAll_none {hdrs : Nat → Shdr} {calls : List TableCall} (ei : ElfInternals) :
    FreesAll hdrs calls ei none ↔ calls.IsChain (KeepsArray hdrs) ∧
      ∀ call ∈ calls.getLast?, call.after.symbols = none := by
  constructor
  · intro h
    refine ⟨h.kept, fun call hMem => ?_⟩
    rw [← Option.not_isSome_iff_eq_none]
    intro hSome
    obtain ⟨array, -, hFreed⟩ := h.freed call hMem hSome
    cases hFreed
  · rintro ⟨hKept, hNone⟩
    refine ⟨hKept, fun call hMem hSome => ?_⟩
    rw [hNone call hMem] at hSome
    cases hSome

section Load
variable {sys : System} {fuel : Nat} {s t u : OsState} {fd : UInt32}
  (hOpen : openFile (ε := LoadFault) sys t = .ok (fd, u))
include hOpen

/-- What the load returns is what the headers leave. -/
theorem exeLoadSymbols_run (symbolsNum : Option UInt64) (interp : Option ElfInterp) :
    exeLoadSymbols sys fuel symbolsNum interp t =
      exeLoadHeaders sys fuel (.opened fd) u >>= fun r =>
        match symbolsNum with
        | none => throw (.null .symbolsNum)
        | some _ => pure
            (⟨r.1.2.symbols, some r.1.2.symbolsNum, interp.map fun _ => r.1.2.interp, none⟩, r.2) := by
  rw [exeLoadSymbols_eq]
  change (openFile sys t >>= _) = _
  rw [hOpen]
  cases symbolsNum <;> rfl

/-- What the headers have to leave. -/
def LeavesNothing (sys : System) (fuel : Nat) (t : OsState) (ei : ElfInternals) : Prop :=
  ei.symbols = none ∧ ei.symbolsNum = 0 ∧ Releases sys fuel t none

theorem exeLoadSymbols_nothing (symbolsNum : UInt64) (interp : Option ElfInterp) :
    Sat (exeLoadSymbols sys fuel (some symbolsNum) interp t)
        (fun r => r.1.symbols = none ∧ r.1.symbolsNum = some 0 ∧ Releases sys fuel t r.1.freed)
        (fun _ => False) ↔
      Sat (exeLoadHeaders sys fuel (.opened fd) u)
        (fun r => LeavesNothing sys fuel t r.1.2) (fun _ => False) := by
  rw [exeLoadSymbols_run hOpen]
  cases exeLoadHeaders sys fuel (.opened fd) u with
  | error e => exact Iff.rfl
  | ok r =>
      constructor
      · rintro ⟨hSymbols, hNum, hReleases⟩
        exact ⟨hSymbols, Option.some.inj hNum, hReleases⟩
      · rintro ⟨hSymbols, hNum, hReleases⟩
        exact ⟨hSymbols, congrArg some hNum, hReleases⟩

end Load

/-- The lookup in a load that left nothing. -/
theorem findSymbol_nothing {fuel : Nat} (hFuel : 0 < fuel) (symName : List UInt8) :
    findSymbol none 0 symName fuel 0 = pure noAddress := by
  obtain ⟨turns, rfl⟩ := Nat.exists_eq_succ_of_ne_zero (Nat.ne_of_gt hFuel)
  exact if_neg (by decide)

/-- The load yields nothing if and only if the memory for the number of symbols
is there and the headers leave nothing. -/
theorem yieldsNothing_iff {sys : System} {fuel : Nat} (hFuel : 0 < fuel) {symName : List UInt8}
    {s u : OsState} {fd : UInt32}
    (hOpen : openFile (ε := LoadFault) sys { s with calls := s.calls + 1 } = .ok (fd, u)) :
    YieldsNothing sys fuel symName s ↔ sys.fails s.calls = false ∧
      Sat (exeLoadHeaders sys fuel (.opened fd) u)
        (fun r => LeavesNothing sys fuel { s with calls := s.calls + 1 } r.1.2)
        (fun _ => False) := by
  have hSize : ¬ 2 ^ 47 ≤ (8 : UInt64).toNat := by decide
  constructor
  · intro h
    have hLoad := h.load _ _ none rfl
    by_cases hFails : sys.fails s.calls = true
    · rw [if_pos (.inl hFails), exeLoadSymbols_run hOpen] at hLoad
      cases hRun : exeLoadHeaders sys fuel (.opened fd) u with
      | error e =>
          rw [hRun] at hLoad
          exact hLoad.elim
      | ok r =>
          rw [hRun] at hLoad
          exact hLoad.elim
    · rw [if_neg (not_or.mpr ⟨hFails, hSize⟩)] at hLoad
      exact ⟨Bool.eq_false_iff.mpr hFails, (exeLoadSymbols_nothing hOpen _ _).mp hLoad⟩
  · rintro ⟨hCell, hHeaders⟩
    have hMalloc : malloc (ε := LoadFault) sys 8 s =
        .ok (some ((List.range 8).map (sys.fresh s.calls)), { s with calls := s.calls + 1 }) := by
      unfold malloc
      rw [if_neg (not_or.mpr ⟨Bool.eq_false_iff.mp hCell, hSize⟩)]
      rfl
    constructor
    · intro cell t interp h
      rw [hMalloc] at h
      cases h
      exact (exeLoadSymbols_nothing hOpen _ _).mpr hHeaders
    · have hCellRun : Sat (malloc (ε := LoadFault) sys 8 s)
          (fun r => r = (some ((List.range 8).map (sys.fresh s.calls)),
            { s with calls := s.calls + 1 })) (fun _ => False) := by
        rw [hMalloc]
        exact rfl
      unfold getSymAddr
      apply sat_bind hCellRun
      rintro _ _ ⟨⟩
      apply sat_bind ((exeLoadSymbols_nothing hOpen _ none).mpr hHeaders)
      rintro ⟨_, _, _, _⟩ v ⟨rfl, rfl, -⟩
      dsimp only
      rw [findSymbol_nothing hFuel]
      exact rfl

/-- The calls behind a run of the section headers. -/
theorem sectionHeaders_calls {sys : System} {fuel : Nat} {ei : ElfInternals} {t u : OsState}
    {r : UInt32 × ElfInternals} (hRun : exeLoadSectionHeaders sys fuel ei t = .ok (r, u)) :
    ∃ calls, exeLoadSectionHeadersCalls sys fuel ei t = .ok ((calls, r), u) := by
  rw [← sectionHeadersCalls_erased] at hRun
  obtain ⟨⟨⟨calls, r'⟩, u'⟩, hCalls, hResult⟩ := bind_eq_ok.mp hRun
  cases hResult
  exact ⟨calls, hCalls⟩

section Headers
variable {sys : System} {fuel : Nat} {t u : OsState}

/-- Without a file header that is gone on with, the headers leave nothing. -/
theorem headers_unread {fd : UInt32} (hOpen : openFile (ε := LoadFault) sys t = .ok (fd, u))
    (hUnread : Sat (readEhdr sys fd u) (fun r => r.1 = none) (fun _ => False)) :
    Sat (exeLoadHeaders sys fuel (.opened fd) u) (fun r => LeavesNothing sys fuel t r.1.2)
      (fun _ => False) := by
  have hReleases : Releases sys fuel t none := by
    rintro ei v calls rc ei' w ⟨fd', u', hdr, hOpen', hHdr, -⟩
    rw [exeOpenFilename_eq, hOpen] at hOpen'
    cases hOpen'
    rw [hHdr] at hUnread
    cases hUnread
  rw [exeLoadHeaders_eq]
  apply sat_bind hUnread
  rintro _ v rfl
  exact ⟨rfl, rfl, hReleases⟩

variable {v : OsState} {hdr : Ehdr} (hOpen : openFile (ε := LoadFault) sys t = .ok (sys.fd, u))
  (hHdr : readEhdr sys sys.fd u = .ok (some hdr, v))
include hOpen hHdr

theorem reachesSections_iff {ei : ElfInternals} {w : OsState} :
    ReachesSections sys t ei w ↔ ei = (ElfInternals.opened sys.fd).withHeader hdr ∧ w = v := by
  constructor
  · rintro ⟨fd', u', hdr', hOpen', hHdr', rfl⟩
    rw [exeOpenFilename_eq, hOpen] at hOpen'
    cases hOpen'
    rw [hHdr] at hHdr'
    cases hHdr'
    exact ⟨rfl, rfl⟩
  · rintro ⟨rfl, rfl⟩
    refine ⟨sys.fd, u, hdr, ?_, hHdr, rfl⟩
    rw [exeOpenFilename_eq]
    exact hOpen

/-- Where a step reports failure, the section headers were loaded, and they or
the program headers reported it. -/
theorem Reports.sections (h : Reports sys fuel t) : ∃ calls rc ei w,
    exeLoadSectionHeadersCalls sys fuel ((ElfInternals.opened sys.fd).withHeader hdr) v =
        .ok ((calls, rc, ei), w) ∧
      (rc = -1 ∨ ∃ r, exeLoadProgramHeaders sys ei w = .ok r) := by
  cases h with
  | openFilename hOpen' =>
      rw [exeOpenFilename_eq, hOpen] at hOpen'
      have hDescriptor := sys.descriptor
      rw [(Prod.mk.inj (Except.ok.inj hOpen')).1] at hDescriptor
      exact absurd hDescriptor (by decide)
  | headers hOpen' hRun =>
      rw [exeOpenFilename_eq, hOpen] at hOpen'
      cases hOpen'
      rw [exeLoadHeaders_eq] at hRun
      obtain ⟨_, hHdr', hRun⟩ := bind_eq_ok.mp hRun
      cases hHdr.symm.trans hHdr'
      obtain ⟨_, -, hRun⟩ := bind_eq_ok.mp hRun
      obtain ⟨_, -, hRun⟩ := bind_eq_ok.mp hRun
      cases hRun
  | sectionHeaders hReaches hRun =>
      obtain ⟨rfl, rfl⟩ := (reachesSections_iff hOpen hHdr).mp hReaches
      obtain ⟨calls, hCalls⟩ := sectionHeaders_calls hRun
      exact ⟨calls, _, _, _, hCalls, .inl rfl⟩
  | programHeaders hReaches hRun hPrograms =>
      obtain ⟨rfl, rfl⟩ := (reachesSections_iff hOpen hHdr).mp hReaches
      obtain ⟨calls, hCalls⟩ := sectionHeaders_calls hRun
      exact ⟨calls, _, _, _, hCalls, .inr ⟨_, hPrograms⟩⟩

/-- What the headers leave, where the section headers were loaded. -/
theorem headers_leave {calls : List TableCall} {rc : UInt32} {ei : ElfInternals} {w : OsState}
    (hRun : exeLoadSectionHeadersCalls sys fuel ((ElfInternals.opened sys.fd).withHeader hdr) v =
      .ok ((calls, rc, ei), w)) (hFd : ei.fd = sys.fd) :
    Sat (exeLoadHeaders sys fuel (.opened sys.fd) u) (fun r => LeavesNothing sys fuel t r.1.2)
        (fun _ => False) ↔
      ProgramsInside sys ei w.calls ∧ ei.symbols = none ∧ ei.symbolsNum = 0 ∧
        FreesAll (hdrIn (sechdrsDelivered sys ((ElfInternals.opened sys.fd).withHeader hdr)
          (v.calls + 2))) calls ei none := by
  have hReleases : Releases sys fuel t none ↔
      FreesAll (hdrIn (sechdrsDelivered sys ((ElfInternals.opened sys.fd).withHeader hdr)
        (v.calls + 2))) calls ei none := by
    constructor
    · intro h
      exact h _ v calls rc ei w ((reachesSections_iff hOpen hHdr).mpr ⟨rfl, rfl⟩) hRun
    · rintro h ei' v' calls' rc' ei'' w' hReaches hRun'
      obtain ⟨rfl, rfl⟩ := (reachesSections_iff hOpen hHdr).mp hReaches
      cases hRun.symm.trans hRun'
      exact h
  have hHeaders : exeLoadHeaders sys fuel (.opened sys.fd) u =
      exeLoadProgramHeaders sys ei w >>= fun r => .ok ((0, r.1.2), r.2) := by
    have hSections : exeLoadSectionHeaders sys fuel
        ((ElfInternals.opened sys.fd).withHeader hdr) v = .ok ((rc, ei), w) := by
      rw [← sectionHeadersCalls_erased]
      exact bind_eq_ok.mpr ⟨_, hRun, rfl⟩
    rw [exeLoadHeaders_eq]
    change (readEhdr sys sys.fd u >>= _) = _
    rw [hHdr]
    change (exeLoadSectionHeaders sys fuel _ v >>= _) = _
    rw [hSections]
    rfl
  have hPrograms := exeLoadProgramHeaders_outcome sys ei hFd (s := w)
  rw [hHeaders]
  cases hResult : exeLoadProgramHeaders sys ei w with
  | error e =>
      rw [hResult] at hPrograms
      exact iff_of_false id fun h => hPrograms h.1
  | ok r =>
      rw [hResult] at hPrograms
      obtain ⟨hInside, hSymbols, hNum⟩ := hPrograms
      constructor
      · rintro ⟨hNone, hZero, hFreed⟩
        exact ⟨hInside, hSymbols.symm.trans hNone, hNum.symm.trans hZero, hReleases.mp hFreed⟩
      · rintro ⟨-, hNone, hZero, hCalls⟩
        exact ⟨hSymbols.trans hNone, hNum.trans hZero, hReleases.mpr hCalls⟩

end Headers

theorem AfterSections.unique {sys : System} {ei : ElfInternals} {k m m' : Nat}
    (h : AfterSections sys ei k m) (h' : AfterSections sys ei k m') : m = m' := by
  rcases h with ⟨hNot, rfl⟩ | ⟨hGiven, l, hRefused, rfl⟩
  · rcases h' with ⟨-, rfl⟩ | ⟨hGiven, -⟩
    · rfl
    · exact absurd hGiven hNot
  · rcases h' with ⟨hNot, -⟩ | ⟨-, l', hRefused', rfl⟩
    · exact absurd hGiven hNot
    · exact congrArg (· + 1) (Option.some.inj (hRefused.symm.trans hRefused'))

theorem AfterSections.not_read {sys : System} {ei : ElfInternals} {k m : Nat}
    (h : AfterSections sys ei k m) : ¬ SectionsRead sys ei k := by
  rintro ⟨hGiven, hAnswered⟩
  rcases h with ⟨hNot, -⟩ | ⟨-, l, hRefused, -⟩
  · exact hNot hGiven
  · exact nomatch hAnswered.symm.trans hRefused

/-- Which program headers are read depends on what the file header gives. -/
theorem programsInside_sameButHeaders {sys : System} {ei ei' : ElfInternals} {k : Nat}
    (h : ei.SameButHeaders ei') : ProgramsInside sys ei' k ↔ ProgramsInside sys ei k := by
  obtain ⟨_, _, _, rfl⟩ := h
  exact Iff.rfl

theorem withHeader_opened (fd : UInt32) (hdr : Ehdr) :
    ((ElfInternals.opened fd).withHeader hdr).fd = fd ∧
      ((ElfInternals.opened fd).withHeader hdr).symbols = none ∧
      ((ElfInternals.opened fd).withHeader hdr).symbolsNum = 0 := by
  unfold ElfInternals.withHeader
  split
  · split
    · exact ⟨rfl, rfl, rfl⟩
    · exact ⟨rfl, rfl, rfl⟩
  · split
    · exact ⟨rfl, rfl, rfl⟩
    · exact ⟨rfl, rfl, rfl⟩

section Collected
variable {sys : System} {k : Nat} {ei : ElfInternals}
  (hEi : ei = (ElfInternals.opened sys.fd).withHeader (ehdrDelivered sys (k + 2)))
  (hOpened : ¬ sys.Refuses .other k) (hHeader : HeaderRead sys (k + 1))
include hEi hOpened hHeader

/-- Where the section headers are read, it is the tables that must yield nothing. -/
theorem nothingCollected_read (hRead : SectionsRead sys ei (k + 3)) :
    NothingCollected sys k ↔ ∃ m, TablesYield sys (hdrIn (sechdrsDelivered sys ei (k + 5)))
      (tablePairs (hdrIn (sechdrsDelivered sys ei (k + 5))) ei.secnametblIdx.toNat
        ei.sechdrNum.toNat) false (k + 9) false m := by
  unfold NothingCollected
  dsimp only
  rw [← hEi]
  constructor
  · intro h
    exact (h hOpened hHeader).1 hRead
  · intro hYields _ _
    exact ⟨fun _ => hYields, fun m hAfter => absurd hRead hAfter.not_read⟩

/-- Where they are not, the program headers must not be left. -/
theorem nothingCollected_stopped {m : Nat} (hAfter : AfterSections sys ei (k + 3) m) :
    NothingCollected sys k ↔ ProgramsInside sys ei m := by
  unfold NothingCollected
  dsimp only
  rw [← hEi]
  constructor
  · intro h
    exact (h hOpened hHeader).2 m hAfter
  · intro hInside _ _
    refine ⟨fun hRead => absurd hRead hAfter.not_read, ?_⟩
    intro m' hAfter'
    rw [← hAfter.unique hAfter']
    exact hInside

end Collected

/-- The calls leave nothing exactly where the tables yield nothing. -/
theorem Obtained.leaves_iff {sys : System} {hdrs : Nat → Shdr} {k : Nat}
    {calls : List TableCall} {ei : ElfInternals} {t : OsState}
    (h : Obtained sys hdrs k calls (ei, t)) :
    ei.symbols = none ∧ ei.symbolsNum = 0 ∧ FreesAll hdrs calls ei none ↔
      ∃ m, TablesYield sys hdrs (calls.map TableCall.tables) false k false m := by
  obtain ⟨hLast, hCalls⟩ := h
  rw [freesAll_none]
  constructor
  · rintro ⟨hNone, hNum, hChain, -⟩
    rcases hCalls with ⟨hYields, -⟩ | ⟨-, hSpoiled⟩
    · dsimp only at hYields
      rw [hNone] at hYields
      exact ⟨_, hYields⟩
    · exact absurd hSpoiled (not_or.mpr ⟨not_not.mpr hNum, not_not.mpr hChain⟩)
  · rintro ⟨m, hFreed⟩
    rcases hCalls with ⟨hYields, hNum, hChain⟩ | ⟨hNot, -⟩
    · have hNone : ei.symbols = none := by
        rw [← Option.not_isSome_iff_eq_none, (hYields.unique hFreed).1]
        exact Bool.false_ne_true
      exact ⟨hNone, hNum, hChain, fun call hMem => hLast call hMem ▸ hNone⟩
    · exact absurd ⟨false, m, hFreed⟩ hNot

/-- The headers leave nothing where nothing was collected, if the file header is
one that is gone on with and a step reports failure. -/
theorem headers_read_iff {sys : System} {fuel : Nat} {k : Nat} {t u v : OsState}
    (hOpen : openFile (ε := LoadFault) sys t = .ok (sys.fd, u))
    (hHdr : readEhdr sys sys.fd u = .ok (some (ehdrDelivered sys (k + 2)), v))
    (hReports : Reports sys fuel t) (hOpened : ¬ sys.Refuses .other k)
    (hHeader : HeaderRead sys (k + 1)) (hCalls : v.calls = k + 1 + 2) :
    Sat (exeLoadHeaders sys fuel (.opened sys.fd) u) (fun r => LeavesNothing sys fuel t r.1.2)
        (fun _ => False) ↔
      NothingCollected sys k := by
  obtain ⟨hFd, hSymbols, hNum⟩ := withHeader_opened sys.fd (ehdrDelivered sys (k + 2))
  obtain ⟨calls, rc, ei, w, hRun, hReported⟩ := hReports.sections hOpen hHdr
  have hOutcome := exeLoadSectionHeadersCalls_outcome fuel hFd hSymbols hNum (s := v)
  have hLeave := headers_leave hOpen hHdr hRun
  rw [hRun, hCalls] at hOutcome
  rw [hCalls] at hLeave
  generalize hEi : (ElfInternals.opened sys.fd).withHeader (ehdrDelivered sys (k + 2)) = opened
    at hFd hSymbols hNum hOutcome hLeave
  rcases hOutcome with ⟨hRead, hResult, hFd', hTables, hObtained⟩ | ⟨hAfter, rfl, -, hSame⟩
  · have hInside : ProgramsInside sys ei w.calls := by
      have hResult : rc = 0 := hResult
      obtain ⟨r, hPrograms⟩ := hReported.resolve_left (by rw [hResult]; decide)
      have hOutcome := exeLoadProgramHeaders_outcome sys ei hFd' (s := w)
      rw [hPrograms] at hOutcome
      exact hOutcome.1
    rw [hLeave hFd', nothingCollected_read hEi.symm hOpened hHeader hRead, ← hTables,
      and_iff_right hInside]
    exact hObtained.leaves_iff
  · have hKept : ei.fd = sys.fd ∧ ei.symbols = none ∧ ei.symbolsNum = 0 := by
      obtain ⟨_, _, _, rfl⟩ := hSame
      exact ⟨hFd, hSymbols, hNum⟩
    rw [hLeave hKept.1, programsInside_sameButHeaders hSame,
      nothingCollected_stopped hEi.symm hOpened hHeader hAfter, freesAll_none]
    constructor
    · intro h
      exact h.1
    · intro hInside
      exact ⟨hInside, hKept.2.1, hKept.2.2, .nil, nofun⟩

/-- In a call of `get_sym_addr` in which a step of the load reports failure, the
load yields nothing if and only if there is memory for the number of symbols
and nothing was collected before the failure. -/
theorem failed_load_yields_nothing_iff {sys : System} {fuel : Nat} (hFuel : 0 < fuel)
    (symName : List UInt8) {s : OsState}
    (hReports : Reports sys fuel { s with calls := s.calls + 1 }) :
    YieldsNothing sys fuel symName s ↔
      sys.fails s.calls = false ∧ NothingCollected sys (s.calls + 1) := by
  have hOpened : Sat (openFile (ε := LoadFault) sys { s with calls := s.calls + 1 }) _
    (fun _ => False) := openFile_outcome sys
  obtain ⟨⟨fd, u⟩, hOpen, hCalls, hClosed, hFd⟩ := hOpened.returns
  rw [yieldsNothing_iff hFuel hOpen]
  apply and_congr_right
  intro _
  by_cases hRefused : sys.Refuses .other (s.calls + 1)
  · have hOther : fd ≠ sys.fd := by
      have hDescriptor := sys.descriptor
      have hClosed : fd = -1 := hClosed hRefused
      intro hEq
      rw [← hEq, hClosed] at hDescriptor
      exact absurd hDescriptor (by decide)
    exact iff_of_true (headers_unread hOpen (readEhdr_closed sys hOther))
      fun hOpened => absurd hRefused hOpened
  · obtain rfl := hFd hRefused
    have hRead : Sat (readEhdr sys sys.fd u) _ (fun _ => False) := readEhdr_outcome sys
    have hCalls : u.calls = s.calls + 1 + 1 := hCalls
    rw [hCalls] at hRead
    obtain ⟨⟨hdr, v⟩, hHdr, ⟨hHeader, hDelivered, hCalls'⟩ | ⟨hUnread, hNone⟩⟩ := hRead.returns
    · obtain rfl : hdr = some (ehdrDelivered sys (s.calls + 1 + 2)) := hDelivered
      exact headers_read_iff hOpen hHdr hReports hRefused hHeader hCalls'
    · have hNone : Sat (readEhdr sys sys.fd u) (fun r => r.1 = none) (fun _ => False) := by
        rw [hHdr]
        exact hNone
      exact iff_of_true (headers_unread hOpen hNone) fun _ hHeader => absurd hHeader hUnread

/-- A run in which the program headers report failure. -/
theorem Reports.of_programs {sys : System} {fuel : Nat} {s : OsState} (hdr : Ehdr)
    (hRun : Sat (exeOpenFilename sys s) (fun opened =>
      Sat (readEhdr sys opened.1 opened.2) (fun read => read.1 = some hdr ∧
        Sat (exeLoadSectionHeaders sys fuel ((ElfInternals.opened opened.1).withHeader hdr) read.2)
          (fun r => Sat (exeLoadProgramHeaders sys r.1.2 r.2) (fun r => r.1.1 = -1)
            (fun _ => False)) (fun _ => False)) (fun _ => False)) (fun _ => False)) :
    Reports sys fuel s := by
  obtain ⟨⟨fd, t⟩, hOpen, hRun⟩ := hRun.returns
  obtain ⟨⟨_, u⟩, hHdr, rfl, hRun⟩ := hRun.returns
  obtain ⟨⟨⟨rc, ei⟩, v⟩, hSections, hRun⟩ := hRun.returns
  obtain ⟨⟨⟨_, ei'⟩, w⟩, hPrograms, rfl⟩ := hRun.returns
  exact .programHeaders ⟨fd, t, hdr, hOpen, hHdr, rfl⟩ hSections hPrograms

/-- Nothing is collected where there are no program headers, and no table yields a
symbol. -/
theorem nothingCollected_of_tables {sys : System} {k m : Nat} {ei : ElfInternals}
    (hEi : ei = (ElfInternals.opened sys.fd).withHeader (ehdrDelivered sys (k + 2)))
    (hPrograms : ¬ ProgramsGiven ei) (pairs : List (Nat × Nat))
    (hPairs : tablePairs (hdrIn (sechdrsDelivered sys ei (k + 5))) ei.secnametblIdx.toNat
      ei.sechdrNum.toNat = pairs)
    (hTables : TablesYield sys (hdrIn (sechdrsDelivered sys ei (k + 5))) pairs false (k + 9)
      false m) :
    NothingCollected sys k := by
  rintro - -
  dsimp only
  rw [← hEi]
  exact ⟨fun _ => ⟨m, hPairs ▸ hTables⟩, fun _ _ hGiven => absurd hGiven hPrograms⟩

/-- The system refuses to enlarge the array of symbols. -/
def refusingSystem : System := { smallSystem with fails := fun k => k == 16 }

/-- The small file has no program headers, which is reported. -/
theorem refusingSystem_reports : Reports refusingSystem 2 ⟨1, 0⟩ :=
  .of_programs (ehdrOf smallFile) (by decide +kernel)

/-- The headers of the small file, for a symbol table with one entry and one that is
smaller than an entry. -/
@[irreducible] def bareTables : List UInt8 :=
  let symtab := (slice smallFile 128 64).set 32 24
  smallFile.take 60 ++ [6, 0, 5, 0] ++ slice smallFile 64 64 ++ symtab ++ slice smallFile 192 64 ++
    symtab.set 56 48 ++ slice smallFile 192 64 ++ slice smallFile 256 64

/-- No call is refused, and the second table asks for an array of no bytes. -/
def bareSystem : System := { smallSystem with file := bareTables }

theorem bareSystem_reports : Reports bareSystem 2 ⟨1, 0⟩ :=
  .of_programs (ehdrOf bareTables) (by decide +kernel)

theorem failed_load_yields_nothing_refused :
    YieldsNothing refusingSystem 2 [102] ⟨0, 0⟩ ∧ YieldsNothing bareSystem 2 [102] ⟨0, 0⟩ := by
  constructor
  · apply (failed_load_yields_nothing_iff (by decide) [102] refusingSystem_reports).mpr
    exact ⟨rfl, nothingCollected_of_tables rfl (by decide +kernel) [(1, 2)] (by decide +kernel)
      ⟨false, 17, .denied (by decide +kernel) (by decide +kernel) (by decide +kernel) nofun,
        rfl, rfl⟩⟩
  · apply (failed_load_yields_nothing_iff (by decide) [102] bareSystem_reports).mpr
    exact ⟨rfl, nothingCollected_of_tables rfl (by decide +kernel) [(1, 2), (3, 4)]
      (by decide +kernel)
      ⟨true, _, .unnamed (by decide +kernel) (by decide +kernel) (by decide +kernel)
        (by decide +kernel), false, _, .denied (by decide +kernel) (by decide +kernel)
        (by decide +kernel) (fun _ => by decide +kernel), rfl, rfl⟩⟩

/-- The symbols of the small file are returned, though it has no program
headers. -/
theorem failed_load_yields_nothing_returned :
    Reports smallSystem 2 ⟨1, 0⟩ ∧ ¬ YieldsNothing smallSystem 2 [102] ⟨0, 0⟩ := by
  constructor
  · exact .of_programs (ehdrOf smallFile) (by decide +kernel)
  · intro h
    have hReturned : ¬ Sat (exeLoadSymbols smallSystem 2
        ((some ((List.range 8).map (smallSystem.fresh 0))).map fun bytes => u64At bytes 0)
        none ⟨1, 0⟩) (fun r => r.1.symbols = none) (fun _ => False) := by decide +kernel
    exact hReturned ((h.load _ _ none rfl).imp fun r hr => hr.1)

end TelnetDebug.Image

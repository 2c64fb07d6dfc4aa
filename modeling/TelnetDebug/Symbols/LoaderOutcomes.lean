import TelnetDebug.Library.Refusals
import TelnetDebug.Symbols.SectionScan

/-! What the steps of the loader do for any file and any answers of the system,
as far as it depends on which of their calls are refused. -/
namespace TelnetDebug.Image

open CBuffer Posix Guarded

section Header
variable (sys : System)

/-- The file header that read number `k` delivers. -/
def ehdrDelivered (k : Nat) : Ehdr :=
  .ofBytes (overwrite (List.replicate ehdrSize 0) (sys.delivered k 0 ehdrSize))

/-- A machine whose files are loaded. -/
def Supported (hdr : Ehdr) : Prop :=
  hdr.eMachine = emX8664 ∨ hdr.eMachine = em386 ∨ hdr.eMachine = emPpc ∨ hdr.eMachine = emArm

/-- From call `k` on, a file header is read that is gone on with. -/
def HeaderRead (k : Nat) : Prop :=
  sys.firstRefused [.lseek 0, .other] k = none ∧ Supported (ehdrDelivered sys (k + 1))

theorem supported_iff (hdr : Ehdr) :
    Supported hdr ↔ ¬(hdr.eMachine ≠ emX8664 ∧ hdr.eMachine ≠ em386 ∧ hdr.eMachine ≠ emPpc ∧
      hdr.eMachine ≠ emArm) := by
  unfold Supported
  simp only [ne_eq, not_and_or, not_not]

theorem readEhdr_outcome {s : OsState} {fault : LoadFault → Prop} :
    Sat (readEhdr sys sys.fd s) (fun r =>
      HeaderRead sys s.calls ∧ r.1 = some (ehdrDelivered sys (s.calls + 1)) ∧
          r.2.calls = s.calls + 2 ∨
        ¬ HeaderRead sys s.calls ∧ r.1 = none) fault := by
  have hPending : sys.Pending [.lseek 0, .other] s.calls _ _ := pending_init
  have hGivesUp : ∀ k, sys.firstRefused [.lseek 0, .other] s.calls = some k →
      ¬ HeaderRead sys s.calls := fun k hRefused h => nomatch hRefused.symm.trans h.1
  unfold readEhdr
  apply sat_bind (lseek_outcome sys rfl 0)
  rintro offset t ⟨hCalls, hOffset, hPos⟩
  by_cases hRefused : offset < 0
  · rw [if_pos hRefused]
    exact .inr ⟨hGivesUp _ (hPending.refused (hOffset.mp hRefused)), rfl⟩
  · have hPending := hPending.answered (mt hOffset.mpr hRefused) hCalls
    rw [if_neg hRefused]
    apply sat_bind (read_outcome sys rfl _)
    rintro bytes u ⟨hCalls', hBytes, hDelivered⟩
    cases bytes with
    | none => exact .inr ⟨hGivesUp _ (hPending.refused (hBytes.mp rfl)), rfl⟩
    | some bytes =>
        have hPending := hPending.answered (fun h => nomatch hBytes.mpr h) hCalls'
        have hHdr : bytes = sys.delivered (s.calls + 1) 0 ehdrSize := by
          rw [hDelivered bytes rfl, hPos hRefused, ← hCalls]
          rfl
        have hSupported := supported_iff (ehdrDelivered sys (s.calls + 1))
        dsimp only
        rw [hHdr]
        split
        · exact .inr ⟨fun h => hSupported.mp h.2 ‹_›, rfl⟩
        · exact .inl ⟨⟨hPending.done, hSupported.mpr ‹_›⟩, rfl, hCalls'.trans (congrArg _ hCalls)⟩

/-- Nothing is read of a file that was not opened. -/
theorem readEhdr_closed {fd : UInt32} (hFd : fd ≠ sys.fd) {s : OsState}
    {fault : LoadFault → Prop} : Sat (readEhdr sys fd s) (fun r => r.1 = none) fault := by
  unfold readEhdr
  apply sat_bind (lseek_closed sys hFd 0)
  rintro offset t ⟨hOffset, -⟩
  rw [if_pos hOffset]
  exact rfl

end Header

section Sections
variable (sys : System) (ei : ElfInternals)

/-- The file header gives section headers. -/
def SectionsGiven : Prop := ¬(ei.sechdrOffset = 0 ∨ ei.sechdrSize = 0)

/-- The section headers that read number `k` delivers. -/
def sechdrsDelivered (k : Nat) : List UInt8 :=
  overwrite (List.replicate ei.sechdrSize.toNat 0)
    (sys.delivered k ei.sechdrOffset.toNat ei.sechdrSize.toNat)

/-- The requests for the section headers and the section names, from call `k`
on. -/
def sectionRequests (k : Nat) : List Request :=
  let names := hdrIn (sechdrsDelivered sys ei (k + 2)) ei.secnametblIdx.toNat
  [.malloc ei.sechdrSize, .lseek ei.sechdrOffset, .other,
    .lseek names.shOffset, .malloc names.shSize, .other]

/-- From call `k` on, section headers are read that are gone through. -/
def SectionsRead (k : Nat) : Prop :=
  SectionsGiven ei ∧ sys.firstRefused (sectionRequests sys ei k) k = none

/-- The call after those for section headers that could not be read. -/
def AfterSections (k m : Nat) : Prop :=
  ¬ SectionsGiven ei ∧ m = k ∨
    SectionsGiven ei ∧ ∃ refused, sys.firstRefused (sectionRequests sys ei k) k = some refused ∧
      m = refused + 1

/-- What reading the section names leaves, where their requests are the last ones
of some requests. -/
theorem readSectionNames_outcome {sys : System} {ei ei' : ElfInternals} (hFd : ei.fd = sys.fd)
    (hSame : ei.SameButHeaders ei') {sechdrs : List UInt8} {requests : List Request} {k : Nat}
    {s : OsState} (hPending : sys.Pending requests k
      [.lseek (hdrIn sechdrs ei.secnametblIdx.toNat).shOffset,
        .malloc (hdrIn sechdrs ei.secnametblIdx.toNat).shSize, .other] s.calls)
    {fault : LoadFault → Prop}
    (hOutside : sechdrs.length < (ei.secnametblIdx.toNat + 1) * shdrSize →
      fault (.outside .sechdrs ei.secnametblIdx.toNat)) :
    Sat (readSectionNames sys sechdrs ei' s) (fun r => ei.SameButHeaders r.1.2 ∧
      (sys.firstRefused requests k = none ∧ r.1.1 = some sechdrs ∧ r.2.calls = s.calls + 3 ∨
        ∃ refused, sys.firstRefused requests k = some refused ∧ r.1.1 = none ∧
          r.2.calls = refused + 1)) fault := by
  obtain ⟨_, _, _, rfl⟩ := hSame
  unfold readSectionNames
  apply sat_bind (sechdrAt_sat hOutside)
  rintro _ _ ⟨-, ⟨⟩⟩
  apply sat_bind (lseek_outcome sys hFd _)
  rintro offset t ⟨hCalls, hOffset, -⟩
  by_cases hRefused : offset < 0
  · rw [if_pos hRefused]
    exact ⟨⟨_, _, _, rfl⟩, .inr ⟨_, hPending.refused (hOffset.mp hRefused), rfl, hCalls⟩⟩
  · have hPending := hPending.answered (mt hOffset.mpr hRefused) hCalls
    rw [if_neg hRefused]
    apply sat_bind (malloc_outcome sys _)
    rintro strsectbl u ⟨hCalls', -, hStrsectbl, -⟩
    cases strsectbl with
    | none =>
        exact ⟨⟨_, _, _, rfl⟩, .inr ⟨_, hPending.refused (hStrsectbl.mp rfl), rfl, hCalls'⟩⟩
    | some strsectbl =>
        have hPending := hPending.answered (fun h => nomatch hStrsectbl.mpr h) hCalls'
        apply sat_bind (read_outcome sys hFd _)
        rintro names v ⟨hCalls'', hNames, -⟩
        cases names with
        | none =>
            exact ⟨⟨_, _, _, rfl⟩, .inr ⟨_, hPending.refused (hNames.mp rfl), rfl, hCalls''⟩⟩
        | some names =>
            have hPending := hPending.answered (fun h => nomatch hNames.mpr h) hCalls''
            refine ⟨⟨_, _, _, rfl⟩, .inl ⟨hPending.done, rfl, ?_⟩⟩
            dsimp only at hCalls hCalls' hCalls'' ⊢
            omega

theorem sechdrsDelivered_length (k : Nat) :
    (sechdrsDelivered sys ei k).length = ei.sechdrSize.toNat := by
  rw [sechdrsDelivered, overwrite_length, List.length_replicate]
  rw [List.length_replicate]
  exact sys.delivered_length _ _ _

theorem readSectionHeaders_outcome (hFd : ei.fd = sys.fd) {s : OsState}
    {fault : LoadFault → Prop}
    (hOutside : SectionsGiven ei → ei.sechdrSize.toNat < 2 ^ 47 →
      ei.sechdrOffset.toNat < 2 ^ 63 →
      ei.sechdrSize.toNat < (ei.secnametblIdx.toNat + 1) * shdrSize →
      fault (.outside .sechdrs ei.secnametblIdx.toNat)) :
    Sat (readSectionHeaders sys ei s) (fun r => ei.SameButHeaders r.1.2 ∧
      (SectionsRead sys ei s.calls ∧ r.1.1 = some (sechdrsDelivered sys ei (s.calls + 2)) ∧
          r.2.calls = s.calls + 6 ∨
        ¬ SectionsRead sys ei s.calls ∧ r.1.1 = none ∧
          AfterSections sys ei s.calls r.2.calls)) fault := by
  unfold readSectionHeaders
  by_cases hGiven : SectionsGiven ei
  · have hPending : sys.Pending (sectionRequests sys ei s.calls) s.calls _ _ := pending_init
    have hGivesUp : ∀ k m, sys.firstRefused (sectionRequests sys ei s.calls) s.calls = some k →
        m = k + 1 → ¬ SectionsRead sys ei s.calls ∧ AfterSections sys ei s.calls m :=
      fun k m hRefused hCalls =>
        ⟨fun h => (nomatch hRefused.symm.trans h.2), .inr ⟨hGiven, k, hRefused, hCalls⟩⟩
    rw [if_neg hGiven]
    apply sat_bind (malloc_outcome sys _)
    rintro memory t ⟨hCalls, -, hMemory, -⟩
    cases memory with
    | none =>
        obtain ⟨hNot, hAfter⟩ := hGivesUp _ _ (hPending.refused (hMemory.mp rfl)) hCalls
        exact ⟨⟨_, _, _, rfl⟩, .inr ⟨hNot, rfl, hAfter⟩⟩
    | some memory =>
        have hMalloc : ¬ sys.Refuses (.malloc ei.sechdrSize) s.calls := fun h =>
          nomatch hMemory.mpr h
        have hPending := hPending.answered hMalloc hCalls
        apply sat_bind (lseek_outcome sys hFd _)
        rintro offset u ⟨hCalls', hOffset, hPos⟩
        dsimp only
        by_cases hRefused : offset < 0
        · obtain ⟨hNot, hAfter⟩ := hGivesUp _ _ (hPending.refused (hOffset.mp hRefused)) hCalls'
          rw [if_pos hRefused]
          exact ⟨⟨_, _, _, rfl⟩, .inr ⟨hNot, rfl, hAfter⟩⟩
        · have hPending := hPending.answered (mt hOffset.mpr hRefused) hCalls'
          rw [if_neg hRefused]
          apply sat_bind (read_outcome sys hFd _)
          rintro headers v ⟨hCalls'', hHeaders, hDelivered⟩
          cases headers with
          | none =>
              obtain ⟨hNot, hAfter⟩ := hGivesUp _ _ (hPending.refused (hHeaders.mp rfl)) hCalls''
              exact ⟨⟨_, _, _, rfl⟩, .inr ⟨hNot, rfl, hAfter⟩⟩
          | some headers =>
              have hPending := hPending.answered (fun h => nomatch hHeaders.mpr h) hCalls''
              have hSechdrs : overwrite (List.replicate ei.sechdrSize.toNat 0) headers =
                  sechdrsDelivered sys ei (s.calls + 2) := by
                have hRead : u.calls = s.calls + 2 := hCalls'.trans (congrArg _ hCalls)
                rw [hDelivered headers rfl, hPos hRefused, hRead]
                rfl
              dsimp only
              rw [hSechdrs]
              refine (readSectionNames_outcome hFd ⟨_, _, _, rfl⟩ hPending fun hShort =>
                hOutside hGiven (small_of_answered hMalloc)
                  (small_of_answered (mt hOffset.mpr hRefused))
                  (sechdrsDelivered_length sys ei _ ▸ hShort)).imp ?_
              rintro ⟨⟨sechdrs, ei'⟩, w⟩ ⟨hSame, hOutcome⟩
              refine ⟨hSame, ?_⟩
              rcases hOutcome with ⟨hDone, hSome, hCallsNames⟩ | ⟨k, hRefused, hNone, hCallsNames⟩
              · refine .inl ⟨⟨hGiven, hDone⟩, hSome, ?_⟩
                dsimp only at hCalls hCalls' hCalls'' hCallsNames ⊢
                omega
              · obtain ⟨hNot, hAfter⟩ := hGivesUp k _ hRefused hCallsNames
                exact .inr ⟨hNot, hNone, hAfter⟩
  · rw [if_pos (not_not.mp hGiven)]
    exact ⟨⟨_, _, _, rfl⟩, .inr ⟨fun h => hGiven h.1, rfl, .inl ⟨hGiven, rfl⟩⟩⟩

end Sections

section Programs
variable (sys : System)

/-- Program header `k` of a table of program headers. -/
def phdrIn (proghdrs : List UInt8) (k : Nat) : Phdr :=
  .ofBytes (slice proghdrs (k * phdrSize) phdrSize)

/-- The requests for the name of the interpreter. -/
def interpRequests (ph : Phdr) : List Request := [.lseek ph.pOffset, .malloc ph.pFilesz, .other]

/-- The loop over the program headers stays inside their table, or ends before
it would leave it. -/
def InterpsInside (proghdrs : List UInt8) : List Nat → Nat → Prop
  | [], _ => True
  | idx :: rest, k =>
      (idx + 1) * phdrSize ≤ proghdrs.length ∧
        if (phdrIn proghdrs idx).pType = ptInterp ∧ (phdrIn proghdrs idx).pFilesz ≠ 0 then
          sys.firstRefused (interpRequests (phdrIn proghdrs idx)) k = none →
            InterpsInside proghdrs rest (k + 3)
        else InterpsInside proghdrs rest k

/-- The symbols are those of the state before. -/
def ElfInternals.KeepsSymbols (ei ei' : ElfInternals) : Prop :=
  ei'.symbols = ei.symbols ∧ ei'.symbolsNum = ei.symbolsNum

/-- The loop returns exactly where it stays inside the table. -/
theorem loadInterp_outcome {proghdrs : List UInt8} {indices : List Nat} {ei : ElfInternals}
    (hFd : ei.fd = sys.fd) {s : OsState} :
    Sat (loadInterp sys proghdrs indices ei s)
      (fun r => InterpsInside sys proghdrs indices s.calls ∧ ei.KeepsSymbols r.1.2)
      (fun _ => ¬ InterpsInside sys proghdrs indices s.calls) := by
  induction indices generalizing ei s with
  | nil => exact ⟨trivial, rfl, rfl⟩
  | cons idx rest ih =>
      unfold loadInterp InterpsInside
      by_cases hInside : (idx + 1) * phdrSize ≤ proghdrs.length
      · have hHdr : Phdr.ofBytes (slice proghdrs (idx * phdrSize) phdrSize) =
            phdrIn proghdrs idx := rfl
        rw [entryAt_eq hInside, pure_bind, hHdr]
        by_cases hInterp : (phdrIn proghdrs idx).pType = ptInterp ∧
            (phdrIn proghdrs idx).pFilesz ≠ 0
        · have hPending : sys.Pending (interpRequests (phdrIn proghdrs idx)) s.calls _ _ :=
            pending_init
          have hGivesUp : ∀ k Q, sys.firstRefused (interpRequests (phdrIn proghdrs idx)) s.calls =
              some k → (idx + 1) * phdrSize ≤ proghdrs.length ∧
                (sys.firstRefused (interpRequests (phdrIn proghdrs idx)) s.calls = none → Q) :=
            fun k Q hRefused => ⟨hInside, fun h => nomatch hRefused.symm.trans h⟩
          simp only [if_pos hInterp]
          apply sat_bind (lseek_outcome sys hFd _)
          rintro offset t₁ ⟨hCalls₁, hOffset, -⟩
          by_cases hRefused : offset < 0
          · rw [if_pos hRefused]
            exact ⟨hGivesUp _ _ (hPending.refused (hOffset.mp hRefused)), rfl, rfl⟩
          · have hPending := hPending.answered (mt hOffset.mpr hRefused) hCalls₁
            rw [if_neg hRefused]
            apply sat_bind (malloc_outcome sys _)
            rintro memory t₂ ⟨hCalls₂, -, hMemory, -⟩
            cases memory with
            | none => exact ⟨hGivesUp _ _ (hPending.refused (hMemory.mp rfl)), rfl, rfl⟩
            | some memory =>
                have hPending := hPending.answered (fun h => nomatch hMemory.mpr h) hCalls₂
                apply sat_bind (read_outcome sys hFd _)
                rintro name t₃ ⟨hCalls₃, hName, -⟩
                cases name with
                | none => exact ⟨hGivesUp _ _ (hPending.refused (hName.mp rfl)), rfl, rfl⟩
                | some name =>
                    have hPending := hPending.answered (fun h => nomatch hName.mpr h) hCalls₃
                    have hCount : t₃.calls = s.calls + 3 := by
                      dsimp only at hCalls₁ hCalls₂ hCalls₃
                      omega
                    dsimp only
                    rw [← hCount]
                    refine Sat.mono (ih ?_) ?_ ?_
                    · exact hFd
                    · exact fun r hr => ⟨⟨hInside, fun _ => hr.1⟩, hr.2⟩
                    · exact fun _ hOutside h => hOutside (h.2 hPending.done)
        · simp only [if_neg hInterp]
          refine (ih hFd).mono ?_ ?_
          · exact fun r hr => ⟨⟨hInside, hr.1⟩, hr.2⟩
          · exact fun _ hOutside h => hOutside h.2
      · unfold entryAt
        rw [if_neg hInside]
        exact fun h => hInside h.1

/-- The loop over the program headers ends at an interpreter whose name cannot be
sought, or is too long for the memory. -/
def EndsLoop (ph : Phdr) : Prop :=
  ph.pType = ptInterp ∧ ph.pFilesz ≠ 0 ∧ (2 ^ 63 ≤ ph.pOffset.toNat ∨ 2 ^ 47 ≤ ph.pFilesz.toNat)

/-- The program headers that the loop comes to are among those that were read. -/
def PhdrsInside (proghdrs : List UInt8) (first count : Nat) : Prop :=
  ∀ idx, first ≤ idx → idx < first + count →
    (∀ j, first ≤ j → j < idx → ¬ EndsLoop (phdrIn proghdrs j)) →
      (idx + 1) * phdrSize ≤ proghdrs.length

end Programs

section Loop
variable {sys : System} {proghdrs : List UInt8} {first count k : Nat}

theorem interpsInside_of_phdrsInside (h : PhdrsInside proghdrs first count) :
    InterpsInside sys proghdrs (List.range' first count) k := by
  induction count generalizing first k with
  | zero => exact trivial
  | succ count ih =>
      have hHere : (first + 1) * phdrSize ≤ proghdrs.length :=
        h first (Nat.le_refl _) (by omega) fun j hFirst hj => absurd hFirst (Nat.not_le_of_lt hj)
      have hRest (hGoesOn : ¬ EndsLoop (phdrIn proghdrs first)) :
          PhdrsInside proghdrs (first + 1) count := by
        intro idx hLe hLt hBefore
        refine h idx (by omega) (by omega) fun j hj hjIdx => ?_
        rcases Nat.eq_or_lt_of_le hj with rfl | hj
        · exact hGoesOn
        · exact hBefore j hj hjIdx
      refine ⟨hHere, ?_⟩
      by_cases hInterp : (phdrIn proghdrs first).pType = ptInterp ∧
          (phdrIn proghdrs first).pFilesz ≠ 0
      · rw [if_pos hInterp]
        intro hAnswered
        apply ih (hRest _)
        rintro ⟨-, -, hOffset | hSize⟩
        · exact answered_of_none (i := 0) hAnswered rfl (refuses_lseek.mpr (.inr hOffset))
        · exact answered_of_none (i := 1) hAnswered rfl (refuses_malloc.mpr (.inr hSize))
      · rw [if_neg hInterp]
        exact ih (hRest fun hEnds => hInterp ⟨hEnds.1, hEnds.2.1⟩)

/-- When no call fails, the loop comes to every header in front of which it does
not end. -/
theorem phdrsInside_of_interpsInside (hSucceeds : ∀ i, k ≤ i → sys.fails i = false)
    (h : InterpsInside sys proghdrs (List.range' first count) k) :
    PhdrsInside proghdrs first count := by
  induction count generalizing first k with
  | zero =>
      intro idx hLe hLt
      omega
  | succ count ih =>
      obtain ⟨hHere, hRest⟩ := h
      intro idx hLe hLt hBefore
      rcases Nat.eq_or_lt_of_le hLe with rfl | hLe
      · exact hHere
      · have hGoesOn := hBefore first (Nat.le_refl _) hLe
        have hNext : PhdrsInside proghdrs (first + 1) count := by
          by_cases hInterp : (phdrIn proghdrs first).pType = ptInterp ∧
              (phdrIn proghdrs first).pFilesz ≠ 0
          · have hOffset : (phdrIn proghdrs first).pOffset.toNat < 2 ^ 63 :=
              Nat.lt_of_not_le fun hLarge => hGoesOn ⟨hInterp.1, hInterp.2, .inl hLarge⟩
            have hSize : (phdrIn proghdrs first).pFilesz.toNat < 2 ^ 47 :=
              Nat.lt_of_not_le fun hLarge => hGoesOn ⟨hInterp.1, hInterp.2, .inr hLarge⟩
            rw [if_pos hInterp] at hRest
            refine ih (fun i hi => hSucceeds i (by omega)) (hRest (firstRefused_none ?_ ?_))
            · exact fun i hi _ => hSucceeds i hi
            · exact ⟨hOffset, hSize, trivial⟩
          · rw [if_neg hInterp] at hRest
            exact ih hSucceeds hRest
        exact hNext idx hLe (by omega) fun j hj => hBefore j (by omega)

end Loop

section Programs
variable (sys : System) (ei : ElfInternals)

/-- The file header gives program headers. -/
def ProgramsGiven : Prop := ¬(ei.proghdrOffset = 0 ∨ ei.proghdrSize = 0)

instance : Decidable (ProgramsGiven ei) := inferInstanceAs (Decidable (¬(_ ∨ _)))

/-- The requests for the program headers. -/
def programRequests : List Request := [.malloc ei.proghdrSize, .lseek ei.proghdrOffset, .other]

/-- The program headers that read number `k` delivers. -/
def proghdrsDelivered (k : Nat) : List UInt8 :=
  overwrite (List.replicate ei.proghdrSize.toNat 0)
    (sys.delivered k ei.proghdrOffset.toNat ei.proghdrSize.toNat)

theorem proghdrsDelivered_length (k : Nat) :
    (proghdrsDelivered sys ei k).length = ei.proghdrSize.toNat := by
  rw [proghdrsDelivered, overwrite_length, List.length_replicate]
  rw [List.length_replicate]
  exact sys.delivered_length _ _ _

/-- Loading the program headers from call `k` on does not leave their table. -/
def ProgramsInside (k : Nat) : Prop :=
  ProgramsGiven ei → sys.firstRefused (programRequests ei) k = none →
    InterpsInside sys (proghdrsDelivered sys ei (k + 2)) (List.range ei.proghdrNum.toNat) (k + 3)

theorem exeLoadProgramHeaders_outcome (hFd : ei.fd = sys.fd) {s : OsState} :
    Sat (exeLoadProgramHeaders sys ei s)
      (fun r => ProgramsInside sys ei s.calls ∧ ei.KeepsSymbols r.1.2)
      (fun _ => ¬ ProgramsInside sys ei s.calls) := by
  have hPending : sys.Pending (programRequests ei) s.calls _ _ := pending_init
  have hGivesUp : ∀ k, sys.firstRefused (programRequests ei) s.calls = some k →
      ProgramsInside sys ei s.calls := fun k hRefused _ h => nomatch hRefused.symm.trans h
  unfold exeLoadProgramHeaders
  by_cases hGiven : ProgramsGiven ei
  · rw [if_neg hGiven]
    apply sat_bind (malloc_outcome sys _)
    rintro memory t₁ ⟨hCalls₁, -, hMemory, -⟩
    cases memory with
    | none => exact ⟨hGivesUp _ (hPending.refused (hMemory.mp rfl)), rfl, rfl⟩
    | some memory =>
        have hPending := hPending.answered (fun h => nomatch hMemory.mpr h) hCalls₁
        apply sat_bind (lseek_outcome sys hFd _)
        rintro offset t₂ ⟨hCalls₂, hOffset, hPos⟩
        by_cases hRefused : offset < 0
        · dsimp only
          rw [if_pos hRefused]
          exact ⟨hGivesUp _ (hPending.refused (hOffset.mp hRefused)), rfl, rfl⟩
        · have hPending := hPending.answered (mt hOffset.mpr hRefused) hCalls₂
          dsimp only
          rw [if_neg hRefused]
          apply sat_bind (read_outcome sys hFd _)
          rintro headers t₃ ⟨hCalls₃, hHeaders, hDelivered⟩
          cases headers with
          | none => exact ⟨hGivesUp _ (hPending.refused (hHeaders.mp rfl)), rfl, rfl⟩
          | some headers =>
              have hPending := hPending.answered (fun h => nomatch hHeaders.mpr h) hCalls₃
              have hRead : t₂.calls = s.calls + 2 := hCalls₂.trans (congrArg _ hCalls₁)
              have hProghdrs : overwrite (List.replicate ei.proghdrSize.toNat 0) headers =
                  proghdrsDelivered sys ei (s.calls + 2) := by
                rw [hDelivered headers rfl, hPos hRefused, hRead]
                rfl
              have hCount : t₃.calls = s.calls + 3 := hCalls₃.trans (congrArg _ hRead)
              dsimp only
              rw [hProghdrs]
              refine Sat.mono (loadInterp_outcome sys ?_) ?_ ?_
              · exact hFd
              · rw [hCount]
                exact fun r hr => ⟨fun _ _ => hr.1, hr.2⟩
              · rw [hCount]
                exact fun _ hOutside h => hOutside (h hGiven hPending.done)
  · rw [if_pos (not_not.mp hGiven)]
    exact ⟨fun h => absurd h hGiven, rfl, rfl⟩

end Programs

end TelnetDebug.Image

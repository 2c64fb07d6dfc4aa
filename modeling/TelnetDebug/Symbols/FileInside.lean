import TelnetDebug.Symbols.TableBounds

/-! Which files the loader goes through without leaving what it has read. No
call has to succeed for that, and a file that makes the loader leave an object
does so when the right calls are refused. -/
namespace TelnetDebug.Image

open CBuffer Posix Guarded

section Files
variable (file : List UInt8)

/-- The file header, zero behind the end of the file. -/
def headerIn : Ehdr := .ofBytes (overwrite (List.replicate ehdrSize 0) (slice file 0 ehdrSize))

/-- A table of headers in cleared memory of the size that is given. -/
def tableIn (offset size : UInt64) : List UInt8 :=
  overwrite (List.replicate size.toNat 0) (slice file offset.toNat size.toNat)

def sechdrSizeIn : UInt64 := sizeProduct (headerIn file).eShnum (headerIn file).eShentsize

def proghdrSizeIn : UInt64 := sizeProduct (headerIn file).ePhnum (headerIn file).ePhentsize

def sechdrsIn : List UInt8 := tableIn file (headerIn file).eShoff (sechdrSizeIn file)

def proghdrsIn : List UInt8 := tableIn file (headerIn file).ePhoff (proghdrSizeIn file)

/-- There is a table at the offset, which is one that `lseek` takes, and memory has
room for it. -/
structure Sought (offset size : UInt64) : Prop where
  given : 0 < offset
  seekable : offset.toNat < 2 ^ 63
  sized : size ≠ 0
  fits : size.toNat < 2 ^ 47

/-- The section that holds the section names. -/
def namesIn : Shdr := hdrIn (sechdrsIn file) (headerIn file).eShstrndx.toNat

/-- The header of the section names is one of those that were read. Where the
names can be read, so is every other header, and the pairs of tables among them
are inside their sections. -/
structure SectionsInside : Prop where
  names : ((headerIn file).eShstrndx.toNat + 1) * shdrSize ≤ (sechdrSizeIn file).toNat
  scanned : Shdr.CanBeRead (namesIn file) →
    (headerIn file).eShnum.toNat * shdrSize ≤ (sechdrSizeIn file).toNat
  tables : Shdr.CanBeRead (namesIn file) →
    ∀ pair ∈ tablePairs (hdrIn (sechdrsIn file)) (headerIn file).eShstrndx.toNat
      (headerIn file).eShnum.toNat,
      TableInside file (hdrIn (sechdrsIn file) pair.1) (hdrIn (sechdrsIn file) pair.2)

/-- The headers of a file that is loaded, and the tables that they describe, are
not left. -/
def FileInside : Prop :=
  Supported (headerIn file) →
    (Sought (headerIn file).eShoff (sechdrSizeIn file) → SectionsInside file) ∧
      (Sought (headerIn file).ePhoff (proghdrSizeIn file) →
        PhdrsInside (proghdrsIn file) 0 (headerIn file).ePhnum.toNat)

/-- Whatever calls are refused, and whatever fresh memory holds, the loader makes
no access outside what it has read of the file. -/
def StaysInside : Prop :=
  ∀ sys : System, sys.file = file → sys.Delivers → ∀ fuel symbolsNum interp s,
    Sat (exeLoadSymbols sys fuel symbolsNum interp s) (fun _ => True)
      (fun e => ¬ e.LeavesObject)

end Files

section Header
variable {fd : UInt32} {hdr : Ehdr}

/-- A table has no offset and no size where the file header gives no offset. -/
theorem given_iff (offset size : UInt64) :
    ¬((if offset > 0 then offset else 0) = 0 ∨ (if offset > 0 then size else 0) = 0) ↔
      0 < offset ∧ size ≠ 0 := by
  by_cases hOffset : offset > 0
  · have hNe : offset ≠ 0 := fun h => absurd (h ▸ hOffset) (by decide)
    rw [if_pos hOffset, if_pos hOffset, not_or, and_iff_right hNe]
    exact (and_iff_right hOffset).symm
  · rw [if_neg hOffset]
    exact iff_of_false (fun h => h (.inl rfl)) fun h => hOffset h.1

/-- Without an offset in the file header there are no sections. -/
theorem sectionsGiven_iff : SectionsGiven ((ElfInternals.opened fd).withHeader hdr) ↔
    0 < hdr.eShoff ∧ sizeProduct hdr.eShnum hdr.eShentsize ≠ 0 := by
  rw [← given_iff]
  unfold SectionsGiven ElfInternals.withHeader
  split <;> split <;> exact Iff.rfl

theorem programsGiven_iff : ProgramsGiven ((ElfInternals.opened fd).withHeader hdr) ↔
    0 < hdr.ePhoff ∧ sizeProduct hdr.ePhnum hdr.ePhentsize ≠ 0 := by
  rw [← given_iff]
  unfold ProgramsGiven ElfInternals.withHeader
  split <;> split <;> exact Iff.rfl

end Header

section Delivered
variable {sys : System} (hDelivers : sys.Delivers)

/-- The state of the loader behind the file header. -/
def headed (sys : System) : ElfInternals :=
  (ElfInternals.opened sys.fd).withHeader (headerIn sys.file)

theorem headed_fd (sys : System) : (headed sys).fd = sys.fd := (withHeader_kept _).1

theorem secnametblIdx_headed (hShoff : 0 < (headerIn sys.file).eShoff) :
    (headed sys).secnametblIdx.toNat = (headerIn sys.file).eShstrndx.toNat := by
  rw [headed, (withHeader_sechdrs _ hShoff).2.2.2, UInt16.toNat_toUInt64]

theorem sechdrNum_headed (hShoff : 0 < (headerIn sys.file).eShoff) :
    (headed sys).sechdrNum.toNat = (headerIn sys.file).eShnum.toNat := by
  rw [headed, (withHeader_sechdrs _ hShoff).2.1, UInt16.toNat_toUInt64]

theorem sechdrSize_headed (hShoff : 0 < (headerIn sys.file).eShoff) :
    (headed sys).sechdrSize = sechdrSizeIn sys.file :=
  (withHeader_sechdrs _ hShoff).2.2.1

theorem sought_sections (hGiven : SectionsGiven (headed sys))
    (hFits : (headed sys).sechdrSize.toNat < 2 ^ 47)
    (hOffset : (headed sys).sechdrOffset.toNat < 2 ^ 63) :
    Sought (headerIn sys.file).eShoff (sechdrSizeIn sys.file) := by
  obtain ⟨hShoff, hSize⟩ := sectionsGiven_iff.mp hGiven
  rw [headed, (withHeader_sechdrs _ hShoff).1] at hOffset
  rw [sechdrSize_headed hShoff] at hFits
  exact ⟨hShoff, hOffset, hSize, hFits⟩

theorem sought_programs (hGiven : ProgramsGiven (headed sys))
    (hFits : (headed sys).proghdrSize.toNat < 2 ^ 47)
    (hOffset : (headed sys).proghdrOffset.toNat < 2 ^ 63) :
    Sought (headerIn sys.file).ePhoff (proghdrSizeIn sys.file) := by
  obtain ⟨hPhoff, hSize⟩ := programsGiven_iff.mp hGiven
  obtain ⟨hOffsetEq, -, hSizeEq⟩ := withHeader_proghdrs (.opened sys.fd) hPhoff
  rw [headed, hOffsetEq] at hOffset
  rw [headed, hSizeEq] at hFits
  exact ⟨hPhoff, hOffset, hSize, hFits⟩

theorem sechdrsIn_length : (sechdrsIn sys.file).length = (sechdrSizeIn sys.file).toNat := by
  unfold sechdrsIn tableIn
  rw [overwrite_length, List.length_replicate]
  rw [List.length_replicate, slice, List.length_take]
  exact Nat.min_le_left _ _

include hDelivers

theorem ehdrDelivered_eq (k : Nat) : ehdrDelivered sys k = headerIn sys.file := by
  rw [ehdrDelivered, hDelivers.delivered]
  rfl

theorem sechdrsDelivered_eq (hShoff : 0 < (headerIn sys.file).eShoff) (k : Nat) :
    sechdrsDelivered sys (headed sys) k = sechdrsIn sys.file := by
  obtain ⟨hOffset, -, hSize, -⟩ := withHeader_sechdrs (.opened sys.fd) hShoff
  unfold sechdrsDelivered headed
  rw [hOffset, hSize, hDelivers.delivered]
  rfl

/-- Section headers that were read could be sought, and the section names could be
read. -/
theorem sectionsRead_sought {k : Nat} (h : SectionsRead sys (headed sys) k) :
    Sought (headerIn sys.file).eShoff (sechdrSizeIn sys.file) ∧
      Shdr.CanBeRead (namesIn sys.file) := by
  obtain ⟨hGiven, hNone⟩ := h
  have hSought := sought_sections hGiven (small_of_answered (answered_of_none (i := 0) hNone rfl))
    (small_of_answered (answered_of_none (i := 1) hNone rfl))
  have hOffset := small_of_answered (answered_of_none (i := 3) hNone rfl)
  have hSize := small_of_answered (answered_of_none (i := 4) hNone rfl)
  rw [sechdrsDelivered_eq hDelivers hSought.given, secnametblIdx_headed hSought.given]
    at hOffset hSize
  exact ⟨hSought, hOffset, hSize⟩

theorem proghdrsDelivered_eq (hPhoff : 0 < (headerIn sys.file).ePhoff) (k : Nat) :
    proghdrsDelivered sys (headed sys) k = proghdrsIn sys.file := by
  obtain ⟨hOffset, -, hSize⟩ := withHeader_proghdrs (.opened sys.fd) hPhoff
  unfold proghdrsDelivered headed
  rw [hOffset, hSize, hDelivers.delivered]
  rfl

theorem programsInside_of_file (k : Nat)
    (h : Sought (headerIn sys.file).ePhoff (proghdrSizeIn sys.file) →
      PhdrsInside (proghdrsIn sys.file) 0 (headerIn sys.file).ePhnum.toNat) :
    ProgramsInside sys (headed sys) k := by
  intro hGiven hNone
  have hSought := sought_programs hGiven (small_of_answered (answered_of_none (i := 0) hNone rfl))
    (small_of_answered (answered_of_none (i := 1) hNone rfl))
  have hNum : (headed sys).proghdrNum.toNat = (headerIn sys.file).ePhnum.toNat := by
    rw [headed, (withHeader_proghdrs _ hSought.given).2.1, UInt16.toNat_toUInt64]
  rw [proghdrsDelivered_eq hDelivers hSought.given, hNum, List.range_eq_range']
  exact interpsInside_of_phdrsInside (h hSought)

theorem phdrsInside_of_loaded {k : Nat} (hSucceeds : ∀ i, k ≤ i → sys.fails i = false)
    (hSought : Sought (headerIn sys.file).ePhoff (proghdrSizeIn sys.file))
    (h : ProgramsInside sys (headed sys) k) :
    PhdrsInside (proghdrsIn sys.file) 0 (headerIn sys.file).ePhnum.toNat := by
  obtain ⟨hOffset, hNum, hSize⟩ := withHeader_proghdrs (.opened sys.fd) hSought.given
  have hNone : sys.firstRefused (programRequests (headed sys)) k = none := by
    apply firstRefused_none
    · exact fun i hi _ => hSucceeds i hi
    · rw [programRequests, headed, hOffset, hSize]
      exact ⟨hSought.fits, hSought.seekable, trivial⟩
  have hLoop := h (programsGiven_iff.mpr ⟨hSought.given, hSought.sized⟩) hNone
  rw [proghdrsDelivered_eq hDelivers hSought.given, headed, hNum, UInt16.toNat_toUInt64,
    List.range_eq_range'] at hLoop
  exact phdrsInside_of_interpsInside (fun i hi => hSucceeds i (by omega)) hLoop

/-- The rule for a load: what holds of the empty result for a file that is not gone
on with, and of what every other one leaves behind the program headers, holds of
the result. -/
theorem exeLoadSymbols_rule {fuel : Nat} {symbolsNum : Option UInt64} {interp : Option ElfInterp}
    {s : OsState} {post : LoadResult × OsState → Prop} {fault : LoadFault → Prop}
    (hUnread : ¬ (¬ sys.Refuses .other s.calls ∧ HeaderRead sys (s.calls + 1)) →
      ∀ t, post (⟨none, some 0, interp.map fun _ => .zero, none⟩, t))
    (hNull : symbolsNum = none → fault (.null .symbolsNum))
    (hLoad : Supported (headerIn sys.file) → ∀ t, t.calls = s.calls + 3 →
      Sat (exeLoadSectionHeaders sys fuel (headed sys) t)
        (fun r => Sat (exeLoadProgramHeaders sys r.1.2 r.2) (fun r =>
          post (⟨r.1.2.symbols, some r.1.2.symbolsNum, interp.map fun _ => r.1.2.interp, none⟩,
            r.2)) fault) fault) :
    Sat (exeLoadSymbols sys fuel symbolsNum interp s) post fault := by
  rw [exeLoadSymbols_eq]
  apply sat_bind (openFile_outcome sys)
  rintro fd t ⟨hCalls, hFailed, hOpened⟩
  have hCalls : t.calls = s.calls + 1 := hCalls
  have hHeaders : Sat (exeLoadHeaders sys fuel (.opened fd) t) (fun r =>
      post (⟨r.1.2.symbols, some r.1.2.symbolsNum, interp.map fun _ => r.1.2.interp, none⟩, r.2))
      fault := by
    rw [exeLoadHeaders_eq]
    by_cases hRefused : sys.Refuses .other s.calls
    · have hClosed : fd ≠ sys.fd := by
        intro hSame
        have hDescriptor := sys.descriptor
        rw [← hSame, show fd = -1 from hFailed hRefused] at hDescriptor
        exact absurd hDescriptor (by decide)
      apply sat_bind (readEhdr_closed sys hClosed)
      rintro _ u rfl
      exact hUnread (fun h => h.1 hRefused) u
    · obtain rfl : fd = sys.fd := hOpened hRefused
      apply sat_bind (readEhdr_outcome sys)
      rintro hdr u hOutcome
      rw [hCalls] at hOutcome
      rcases hOutcome with ⟨hRead, rfl, hCalls'⟩ | ⟨hNot, rfl⟩
      · rw [ehdrDelivered_eq hDelivers]
        apply sat_bind (hLoad (ehdrDelivered_eq hDelivers _ ▸ hRead.2) u hCalls')
        rintro ⟨rc, ei⟩ v hPrograms
        apply sat_bind hPrograms
        rintro ⟨rc', ei'⟩ w hPost
        exact hPost
      · exact hUnread (fun h => hNot h.2) u
  apply sat_bind hHeaders
  rintro ⟨rc, ei⟩ u hPost
  cases symbolsNum with
  | none => exact hNull rfl
  | some symbolsNum => exact hPost

end Delivered

section Kept
variable {sys : System} (hDelivers : sys.Delivers) {fuel : Nat} {s : OsState}
include hDelivers

theorem scan_inside {sechdrs : List UInt8} {n : Nat} {ei : ElfInternals} (hFd : ei.fd = sys.fd)
    (hNum : ei.symbolsNum = 0) (hSize : n * shdrSize ≤ sechdrs.length)
    (hTables : ∀ pair ∈ tablePairs (hdrIn sechdrs) ei.secnametblIdx.toNat n,
      TableInside sys.file (hdrIn sechdrs pair.1) (hdrIn sechdrs pair.2)) :
    Sat ((List.range n).foldlM (scanSection sys fuel sechdrs) (none, ei) s)
      (fun r => ei.SameButSymbols r.1.2) (fun e => ¬ e.LeavesObject) := by
  rw [← scanCalls_erased []]
  have hFew : ei.symbolsNum.toNat < 2 ^ 42 := by
    rw [hNum]
    decide
  refine sat_bind (scanCalls_sat
    (fun _ r => ei.SameButSymbols r.1 ∧ r.1.symbolsNum.toNat < 2 ^ 42)
    (fun _ _ _ h => h.1.names_eq) ?_ ?_ ⟨⟨_, _, rfl⟩, hFew⟩) ?_
  · intro k hk hShort
    have hInside : (k + 1) * shdrSize ≤ n * shdrSize := Nat.mul_le_mul_right shdrSize hk
    omega
  · rintro calls i j hPrefix ei' t ⟨hSame, hFew⟩
    have hFd' := hSame.fd_eq.trans hFd
    have hMem := hPrefix.subset (List.mem_append_right _ (List.mem_singleton_self (i, j)))
    refine (((exeLoadSymbolTable_frame sys _ _ fuel ei').and
      (exeLoadSymbolTable_few hFd' hFew)).and
      (exeLoadSymbolTable_inside hFd' hDelivers (hTables _ hMem) hFew)).mono ?_ ?_
    · rintro r ⟨⟨hSame', hFew'⟩, -⟩
      exact ⟨hSame.trans hSame', hFew'⟩
    · exact fun _ h => h.2
  · rintro ⟨calls, symtab, ei'⟩ t ⟨-, -, hSame, -⟩
    exact hSame

/-- The section headers of a file that is inside are gone through. -/
theorem exeLoadSectionHeaders_inside
    (hInside : Sought (headerIn sys.file).eShoff (sechdrSizeIn sys.file) →
      SectionsInside sys.file) :
    Sat (exeLoadSectionHeaders sys fuel (headed sys) s) (fun r => ∃ ei,
      (headed sys).SameButHeaders ei ∧ ei.SameButSymbols r.1.2) (fun e => ¬ e.LeavesObject) := by
  rw [exeLoadSectionHeaders_eq]
  refine sat_bind (readSectionHeaders_outcome sys (headed sys) (headed_fd sys) ?_) ?_
  · intro hGiven hFits hOffset hShort
    have hSought := sought_sections hGiven hFits hOffset
    have hNames := (hInside hSought).names
    rw [secnametblIdx_headed hSought.given, sechdrSize_headed hSought.given] at hShort
    omega
  · rintro ⟨sechdrs, ei⟩ t ⟨hSame, hOutcome⟩
    rcases hOutcome with ⟨hRead, rfl, -⟩ | ⟨-, rfl, -⟩
    · obtain ⟨hSought, hNames⟩ := sectionsRead_sought hDelivers hRead
      have hSections := hInside hSought
      obtain ⟨_, _, _, rfl⟩ := hSame
      dsimp only
      rw [sechdrsDelivered_eq hDelivers hSought.given, sechdrNum_headed hSought.given]
      refine sat_bind (scan_inside hDelivers ?_ ?_ ?_ ?_) ?_
      · exact headed_fd sys
      · exact (withHeader_kept _).2.2
      · exact sechdrsIn_length ▸ hSections.scanned hNames
      · have hTables := hSections.tables hNames
        rw [← secnametblIdx_headed hSought.given] at hTables
        exact hTables
      · rintro ⟨symtab, ei'⟩ u hSymbols
        exact ⟨_, ⟨_, _, _, rfl⟩, hSymbols⟩
    · exact ⟨ei, hSame, _, _, rfl⟩

end Kept

theorem staysInside_of_fileInside {file : List UInt8} (h : FileInside file) :
    StaysInside file := by
  rintro sys rfl hDelivers fuel symbolsNum interp s
  refine exeLoadSymbols_rule hDelivers (fun _ _ => trivial) (fun _ => id) fun hSupported t _ => ?_
  obtain ⟨hSections, hPrograms⟩ := h hSupported
  apply (exeLoadSectionHeaders_inside hDelivers hSections).imp
  rintro ⟨⟨rc, _⟩, u⟩ ⟨_, ⟨_, _, _, rfl⟩, _, _, rfl⟩
  have hInside := programsInside_of_file hDelivers u.calls hPrograms
  refine (exeLoadProgramHeaders_outcome sys _ ?_).mono (fun _ _ => trivial) fun _ hOutside => ?_
  · exact headed_fd sys
  · exact absurd hInside hOutside

end TelnetDebug.Image

import TelnetDebug.Symbols.LoaderHoldings

/-! The account of a whole load. Everything that the loader opened or allocated is
released, or returned, or lost, and no release is of anything else. -/
namespace TelnetDebug.Image

open Guarded Posix Resources

/-- Nothing has been read of the headers. -/
structure Pointers.NoHeaders (p : Pointers) : Prop where
  sechdrs : p.sechdrs = none
  proghdrs : p.proghdrs = none
  strsectbl : p.strsectbl = none

section Headers
variable {sys : System} {before : Multiset (Resource Purpose)}
  {h : HoldingInternals} {s : OsState} {l : Ledger Purpose}

theorem readSectionNames_accounts (sechdrs : List UInt8) (hNone : h.ptrs.strsectbl = none)
    (hProghdrs : h.ptrs.proghdrs = none) (hAcc : Accounted before h l) :
    Accounts (Holding.readSectionNames sys sechdrs h) (readSectionNames sys sechdrs h.ei)
      (fun r => (r.1, r.2.ei)) s l
      (fun r l' => Accounted before r.2 l' ∧ r.2.ptrs.proghdrs = none ∧ r.2.events = h.events) := by
  unfold Holding.readSectionNames readSectionNames
  apply accounts_call_bind
  intro strsectblhdr t _
  apply accounts_call_bind
  intro offset t _
  by_cases hSeek : offset < 0
  · rw [if_pos hSeek, if_pos hSeek]
    exact accounts_pure rfl ⟨hAcc, hProghdrs, rfl⟩
  rw [if_neg hSeek, if_neg hSeek]
  apply accounts_malloc_bind
  · intro t _
    refine accounts_pure rfl ⟨hAcc.move rfl rfl rfl rfl rfl ?_ rfl, hProghdrs, rfl⟩
    simp only [Pointers.held, hNone]
  intro memory strsectbl t l' hPurpose hLedger
  have hBalance : {memory} + before + h.ptrs.held =
      before + Pointers.held { h.ptrs with strsectbl := some memory } := by
    simp only [Pointers.held, hNone, pointee, add_zero]
    ac_rfl
  dsimp only
  apply accounts_call_bind
  intro names t _
  cases names with
  | none =>
      exact accounts_pure rfl
        ⟨(hAcc.acquired hLedger).move rfl rfl rfl rfl rfl hBalance rfl, hProghdrs, rfl⟩
  | some names =>
      exact accounts_pure rfl
        ⟨(hAcc.acquired hLedger).move rfl rfl rfl rfl rfl hBalance rfl, hProghdrs, rfl⟩

theorem readSectionHeaders_accounts (hNone : h.ptrs.NoHeaders)
    (hAcc : Accounted before h l) :
    Accounts (Holding.readSectionHeaders sys h) (readSectionHeaders sys h.ei)
      (fun r => (r.1, r.2.ei)) s l
      (fun r l' => Accounted before r.2 l' ∧ r.2.ptrs.proghdrs = none ∧ r.2.events = h.events) := by
  unfold Holding.readSectionHeaders readSectionHeaders
  by_cases hGiven : h.ei.sechdrOffset = 0 ∨ h.ei.sechdrSize = 0
  · rw [if_pos hGiven, if_pos hGiven]
    exact accounts_pure rfl ⟨hAcc, hNone.proghdrs, rfl⟩
  rw [if_neg hGiven, if_neg hGiven]
  apply accounts_malloc_bind
  · intro t _
    refine accounts_pure rfl ⟨hAcc.move rfl rfl rfl rfl rfl ?_ rfl, hNone.proghdrs, rfl⟩
    simp only [Pointers.held, hNone.sechdrs]
  intro memory contents t l' hPurpose hLedger
  have hBalance : {memory} + before + h.ptrs.held =
      before + Pointers.held { h.ptrs with sechdrs := some memory } := by
    simp only [Pointers.held, hNone.sechdrs, pointee, add_zero]
    ac_rfl
  dsimp only
  apply accounts_call_bind
  intro offset t _
  by_cases hSeek : offset < 0
  · rw [if_pos hSeek, if_pos hSeek]
    exact accounts_pure rfl
      ⟨(hAcc.acquired hLedger).move rfl rfl rfl rfl rfl hBalance rfl, hNone.proghdrs, rfl⟩
  rw [if_neg hSeek, if_neg hSeek]
  apply accounts_call_bind
  intro headers t _
  cases headers with
  | none =>
      exact accounts_pure rfl
        ⟨(hAcc.acquired hLedger).move rfl rfl rfl rfl rfl hBalance rfl, hNone.proghdrs, rfl⟩
  | some headers =>
      refine readSectionNames_accounts _ ?_ ?_ ?_
      · exact hNone.strsectbl
      · exact hNone.proghdrs
      · exact (hAcc.acquired hLedger).move rfl rfl rfl rfl rfl hBalance rfl

end Headers

/-- A header that is read. -/
theorem sechdrAt_read {sechdrs : List UInt8} {k : Nat} {s t : OsState} {hdr : Shdr}
    (h : sechdrAt sechdrs k s = .ok (hdr, t)) : hdr = hdrIn sechdrs k ∧ t = s := by
  have hRead : Sat (sechdrAt sechdrs k s) _ (fun _ => True) := sechdrAt_sat fun _ => trivial
  rw [h] at hRead
  exact Prod.mk.inj hRead.2

section Sections
variable (sys : System) (fuel : Nat) (sechdrs : List UInt8)

/-- The symbol table is not empty, and loading it succeeds. -/
def LoadsTable (ei : ElfInternals) (s : OsState) (symtab strtab : Nat) : Prop :=
  NotEmpty (hdrIn sechdrs symtab) ∧
    Sat (exeLoadSymbolTable sys (hdrIn sechdrs symtab) (hdrIn sechdrs strtab) fuel ei s)
      (fun r => r.1.1 = 0) (fun _ => True)

/-- So it is with every table that the scan over the first sections loads. -/
def LoadsTables (n : Nat) (ei : ElfInternals) (s : OsState) : Prop :=
  ∀ k < n, ∀ symtab ei' t,
    (List.range k).foldlM (scanSection sys fuel sechdrs) (none, ei) s =
      .ok ((some symtab, ei'), t) →
    HoldsStrings (hdrIn sechdrs) ei'.secnametblIdx.toNat k →
    LoadsTable sys fuel sechdrs ei' t symtab k

variable {sys fuel} {before : Multiset (Resource Purpose)} {h : HoldingInternals} {s : OsState}
  {l : Ledger Purpose}

theorem scanSection_accounts (symtab : Option Nat) (idx : Nat) (hAcc : Accounted before h l) :
    Accounts (Holding.scanSection sys fuel sechdrs (symtab, h) idx)
      (scanSection sys fuel sechdrs (symtab, h.ei) idx) (fun r => (r.1, r.2.ei)) s l
      (fun r l' => Accounted before r.2 l' ∧ h.ptrs.SameButArray r.2.ptrs ∧
        ((∀ i, symtab = some i → HoldsStrings (hdrIn sechdrs) h.ei.secnametblIdx.toNat idx →
          LoadsTable sys fuel sechdrs h.ei s i idx) → r.2.events = h.events)) := by
  unfold Holding.scanSection scanSection
  apply accounts_call_bind
  intro hdr t hHdr
  obtain ⟨rfl, rfl⟩ := sechdrAt_read hHdr
  dsimp only
  by_cases hSymbols : (hdrIn sechdrs idx).HoldsSymbols
  · rw [if_pos hSymbols, if_pos hSymbols]
    exact accounts_pure rfl ⟨hAcc, ⟨_, _, rfl⟩, fun _ => rfl⟩
  · rw [if_neg hSymbols, if_neg hSymbols]
    by_cases hStrings : (hdrIn sechdrs idx).shType = shtStrtab ∧ idx ≠ h.ei.secnametblIdx.toNat
    · rw [if_pos hStrings, if_pos hStrings]
      cases symtab with
      | none => exact accounts_pure rfl ⟨hAcc, ⟨_, _, rfl⟩, fun _ => rfl⟩
      | some symtab =>
          apply accounts_call_bind
          intro symh u hSymh
          obtain ⟨rfl, rfl⟩ := sechdrAt_read hSymh
          have hNull : ∀ r, (none : Pointer) = some r → r.kind = .strsymtbl := nofun
          apply (exeLoadSymbolTable_accounts _ _ fuel hNull hAcc.null).bind
          rintro ⟨rc, h'⟩ v l' hReturned ⟨hAcc', hSame, hEvents⟩
          refine accounts_pure rfl ⟨hAcc', hSame, fun hLoads => ?_⟩
          obtain ⟨hNotEmpty, hSucceeds⟩ := hLoads symtab rfl hStrings
          rw [hReturned] at hSucceeds
          exact hEvents rfl hNotEmpty hSucceeds
    · rw [if_neg hStrings, if_neg hStrings]
      exact accounts_pure rfl ⟨hAcc, ⟨_, _, rfl⟩, fun _ => rfl⟩

theorem scan_accounts (n : Nat) (hAcc : Accounted before h l) :
    Accounts ((List.range n).foldlM (Holding.scanSection sys fuel sechdrs) (none, h))
      ((List.range n).foldlM (scanSection sys fuel sechdrs) (none, h.ei))
      (fun r => (r.1, r.2.ei)) s l
      (fun r l' => Accounted before r.2 l' ∧ h.ptrs.SameButArray r.2.ptrs ∧
        (LoadsTables sys fuel sechdrs n h.ei s → r.2.events = h.events)) := by
  apply accounts_range (fun r : Option Nat × HoldingInternals => (r.1, r.2.ei))
    (fun k r l' => Accounted before r.2 l' ∧ h.ptrs.SameButArray r.2.ptrs ∧
      (LoadsTables sys fuel sechdrs k h.ei s → r.2.events = h.events))
  · rfl
  · exact ⟨hAcc, ⟨_, _, rfl⟩, fun _ => rfl⟩
  · rintro k hk ⟨symtab, h'⟩ t l' hTurns ⟨hAcc', hSame, hEvents⟩
    apply (scanSection_accounts sechdrs symtab k hAcc').imp
    rintro r l'' ⟨hAcc'', hSame', hEvents'⟩
    refine ⟨hAcc'', hSame.trans hSame', fun hLoads => ?_⟩
    have hBefore : LoadsTables sys fuel sechdrs k h.ei s :=
      fun j hj => hLoads j (Nat.lt_succ_of_lt hj)
    refine (hEvents' ?_).trans (hEvents hBefore)
    rintro i rfl hStrings
    exact hLoads k (Nat.lt_succ_self k) i h'.ei t hTurns hStrings

variable (sys fuel) in
/-- Every table that is loaded with the section headers is not empty, and loading it
succeeds. -/
def LoadsSections (ei : ElfInternals) (s : OsState) : Prop :=
  ∀ sechdrs ei' t, readSectionHeaders sys ei s = .ok ((some sechdrs, ei'), t) →
    LoadsTables sys fuel sechdrs ei'.sechdrNum.toNat ei' t

/-- The section headers leave the program headers to be read. -/
theorem exeLoadSectionHeaders_accounts (hNone : h.ptrs.NoHeaders) (hAcc : Accounted before h l) :
    Accounts (Holding.exeLoadSectionHeaders sys fuel h) (exeLoadSectionHeaders sys fuel h.ei)
      (fun r => (r.1, r.2.ei)) s l
      (fun r l' => Accounted before r.2 l' ∧ r.2.ptrs.proghdrs = none ∧
        (LoadsSections sys fuel h.ei s → r.2.events = h.events)) := by
  rw [exeLoadSectionHeaders_eq]
  unfold Holding.exeLoadSectionHeaders
  apply (readSectionHeaders_accounts hNone hAcc).bind
  rintro ⟨sechdrs, h'⟩ t l' hRead ⟨hAcc', hProghdrs, hEvents⟩
  cases sechdrs with
  | none => exact accounts_pure rfl ⟨hAcc', hProghdrs, fun _ => hEvents⟩
  | some sechdrs =>
      apply (scan_accounts sechdrs _ hAcc').bind
      rintro ⟨symtab, h''⟩ u l'' - ⟨hAcc'', ⟨_, _, hSame⟩, hEvents'⟩
      dsimp only at hSame
      refine accounts_pure rfl ⟨hAcc'', hSame ▸ hProghdrs, fun hLoads => ?_⟩
      exact (hEvents' (hLoads sechdrs h'.ei t hRead)).trans hEvents

end Sections

section Programs
variable {sys : System} {before : Multiset (Resource Purpose)}
  {h : HoldingInternals} {s : OsState} {l : Ledger Purpose}

/-- The name of an interpreter is released before another one takes its place. -/
theorem loadInterp_accounts (proghdrs : List UInt8) (indices : List Nat)
    (hAcc : Accounted before h l) :
    Accounts (Holding.loadInterp sys proghdrs indices h) (loadInterp sys proghdrs indices h.ei)
      (fun r => (r.1, r.2.ei)) s l
      (fun r l' => Accounted before r.2 l' ∧ r.2.events = h.events) := by
  induction indices generalizing h s l with
  | nil => exact accounts_pure rfl ⟨hAcc, rfl⟩
  | cons idx rest ih =>
      unfold Holding.loadInterp loadInterp
      apply accounts_call_bind
      intro entry t _
      dsimp only
      by_cases hInterp : (Phdr.ofBytes entry).pType = ptInterp ∧ (Phdr.ofBytes entry).pFilesz ≠ 0
      · rw [if_pos hInterp, if_pos hInterp]
        apply accounts_call_bind
        intro offset t _
        by_cases hSeek : offset < 0
        · rw [if_pos hSeek, if_pos hSeek]
          exact accounts_pure rfl ⟨hAcc, rfl⟩
        rw [if_neg hSeek, if_neg hSeek]
        have hOut (interp : ElfInterp) : Accounted (pointee h.ptrs.interp + before)
            ⟨{ h.ei with interp := interp }, { h.ptrs with interp := none }, h.events⟩ l := by
          refine hAcc.move rfl rfl rfl rfl rfl ?_ rfl
          simp only [Pointers.held, pointee, add_zero]
          ac_rfl
        apply (hOut .zero).release_bind
        intro l₁ hReleased
        have hFree (interp : ElfInterp) : Accounted before
            ⟨{ h.ei with interp := interp }, { h.ptrs with interp := none }, h.events⟩ l₁ :=
          hReleased.move rfl rfl rfl rfl rfl rfl rfl
        apply accounts_malloc_bind
        · intro t _
          exact accounts_pure rfl ⟨hFree _, rfl⟩
        intro name memory t l₂ _ hLedger
        have hNamed (interp : ElfInterp) : Accounted before
            ⟨{ h.ei with interp := interp }, { h.ptrs with interp := some name }, h.events⟩ l₂ := by
          refine ((hFree interp).acquired hLedger).move rfl rfl rfl rfl rfl ?_ rfl
          simp only [Pointers.held, pointee, add_zero]
          ac_rfl
        apply accounts_call_bind
        intro bytes t _
        cases bytes with
        | none => exact accounts_pure rfl ⟨hNamed _, rfl⟩
        | some bytes => exact ih (hNamed _)
      · rw [if_neg hInterp, if_neg hInterp]
        exact ih hAcc

theorem exeLoadProgramHeaders_accounts (hNone : h.ptrs.proghdrs = none)
    (hAcc : Accounted before h l) :
    Accounts (Holding.exeLoadProgramHeaders sys h) (exeLoadProgramHeaders sys h.ei)
      (fun r => (r.1, r.2.ei)) s l
      (fun r l' => Accounted before r.2 l' ∧ r.2.events = h.events) := by
  unfold Holding.exeLoadProgramHeaders exeLoadProgramHeaders
  by_cases hGiven : h.ei.proghdrOffset = 0 ∨ h.ei.proghdrSize = 0
  · rw [if_pos hGiven, if_pos hGiven]
    exact accounts_pure rfl ⟨hAcc, rfl⟩
  rw [if_neg hGiven, if_neg hGiven]
  apply accounts_malloc_bind
  · intro t _
    refine accounts_pure rfl ⟨hAcc.move rfl rfl rfl rfl rfl ?_ rfl, rfl⟩
    simp only [Pointers.held, hNone]
  intro memory contents t l' _ hLedger
  have hBalance : {memory} + before + h.ptrs.held =
      before + Pointers.held { h.ptrs with proghdrs := some memory } := by
    simp only [Pointers.held, hNone, pointee, add_zero]
    ac_rfl
  have hAcc' := hAcc.acquired hLedger
  dsimp only
  apply accounts_call_bind
  intro offset t _
  by_cases hSeek : offset < 0
  · rw [if_pos hSeek, if_pos hSeek]
    exact accounts_pure rfl ⟨hAcc'.move rfl rfl rfl rfl rfl hBalance rfl, rfl⟩
  rw [if_neg hSeek, if_neg hSeek]
  apply accounts_call_bind
  intro headers t _
  cases headers with
  | none => exact accounts_pure rfl ⟨hAcc'.move rfl rfl rfl rfl rfl hBalance rfl, rfl⟩
  | some headers =>
      have hRead (array : List UInt8) : Accounted before
          { h with
            ei := { h.ei with proghdrs := some array }
            ptrs := { h.ptrs with proghdrs := some memory } } l' :=
        hAcc'.move rfl rfl rfl rfl rfl hBalance rfl
      exact loadInterp_accounts _ _ (hRead _)

theorem Accounted.withHeader (hAcc : Accounted before h l) (hdr : Ehdr) :
    Accounted before { h with ei := h.ei.withHeader hdr } l := by
  obtain ⟨-, hSymbols, hNum⟩ : (h.ei.withHeader hdr).fd = h.ei.fd ∧ _ := withHeader_kept h.ei
  exact hAcc.move hSymbols hNum rfl rfl rfl rfl rfl

end Programs

section Load
variable {sys : System} {fuel : Nat} {before : Multiset (Resource Purpose)}
  {h : HoldingInternals} {s : OsState} {l : Ledger Purpose}

theorem exeLoadHeaders_accounts (hNone : h.ptrs.NoHeaders) (hAcc : Accounted before h l) :
    Accounts (Holding.exeLoadHeaders sys fuel h) (exeLoadHeaders sys fuel h.ei)
      (fun r => (r.1, r.2.ei)) s l (fun r l' => Accounted before r.2 l' ∧
        ((∀ hdr t, readEhdr sys h.ei.fd s = .ok (some hdr, t) →
          LoadsSections sys fuel (h.ei.withHeader hdr) t) → r.2.events = h.events)) := by
  unfold Holding.exeLoadHeaders exeLoadHeaders
  apply accounts_call_bind
  intro offset t hOffset
  by_cases hSeek : offset < 0
  · rw [if_pos hSeek, if_pos hSeek]
    exact accounts_pure rfl ⟨hAcc, fun _ => rfl⟩
  rw [if_neg hSeek, if_neg hSeek]
  apply accounts_call_bind
  intro bytes u hBytes
  cases bytes with
  | none => exact accounts_pure rfl ⟨hAcc, fun _ => rfl⟩
  | some bytes =>
      dsimp only
      split
      · exact accounts_pure rfl ⟨hAcc, fun _ => rfl⟩
      · next hSupported =>
          have hHdr : readEhdr sys h.ei.fd s =
              .ok (some (Ehdr.ofBytes (overwrite (List.replicate ehdrSize 0) bytes)), u) := by
            refine bind_eq_ok.mpr ⟨(offset, t), hOffset, ?_⟩
            dsimp only
            rw [if_neg hSeek]
            refine bind_eq_ok.mpr ⟨(some bytes, u), hBytes, ?_⟩
            dsimp only
            rw [if_neg hSupported]
            rfl
          have hHeaded := hAcc.withHeader (.ofBytes (overwrite (List.replicate ehdrSize 0) bytes))
          apply (exeLoadSectionHeaders_accounts (h := { h with ei := h.ei.withHeader _ })
            hNone hHeaded).bind
          rintro ⟨rc, h'⟩ v l' - ⟨hAcc', hProghdrs, hEvents⟩
          dsimp only
          rw [if_neg (not_failed rc), if_neg (not_failed rc)]
          apply (exeLoadProgramHeaders_accounts hProghdrs hAcc').bind
          rintro ⟨rc, h''⟩ w l'' - ⟨hAcc'', hEvents'⟩
          dsimp only
          rw [if_neg (not_failed rc), if_neg (not_failed rc)]
          exact accounts_pure rfl
            ⟨hAcc'', fun hLoads => hEvents'.trans (hEvents (hLoads _ u hHdr))⟩

end Load

/-- What the caller of a load has then: the array with its names, and the name of
the interpreter where it was asked for. -/
structure Settled (before : Multiset (Resource Purpose)) (r : HoldingResult)
    (l : Ledger Purpose) : Prop where
  balance : ∃ kept, l.held = before + kept + pointee r.symbols + pointee r.interp ∧
    Lost kept (r.result.symbolsNum.getD 0).toNat r.events ∧
    ∀ name, some name ∈ r.names → name ∈ kept
  purpose : ∀ array, r.symbols = some array → array.kind = .symbols
  found : r.symbols.isSome = r.result.symbols.isSome

section Releases
variable {sys : System} {before : Multiset (Resource Purpose)}
  {h : HoldingInternals} {s : OsState} {l : Ledger Purpose}

/-- What is left when the file is closed and the headers are freed. -/
def Pointers.collected (p : Pointers) : Pointers :=
  { Pointers.opened none with symbols := p.symbols, names := p.names, interp := p.interp }

theorem accounted_opened {file : Pointer} {fd : UInt32}
    (hLedger : l.held = before + pointee file) :
    Accounted before ⟨.opened fd, .opened file, 0⟩ l := by
  refine ⟨⟨0, ?_, .nothing, nofun⟩, nofun, rfl, nofun⟩
  simp only [hLedger, Pointers.held, Pointers.opened, pointee, add_zero]

/-- The file is open afterwards, or there is no descriptor. -/
theorem exeOpenFilename_accounts (before : Multiset (Resource Purpose))
    (hLedger : l.held = before) :
    Accounts (Holding.exeOpenFilename sys) (exeOpenFilename sys) Prod.snd s l
      (fun r l' => Accounted before ⟨.opened r.2, .opened r.1, 0⟩ l') := by
  have hBind : Accounts (Holding.exeOpenFilename sys) (exeOpenFilename sys >>= pure) Prod.snd s l
      (fun r l' => Accounted before ⟨.opened r.2, .opened r.1, 0⟩ l') := by
    unfold Holding.exeOpenFilename
    apply accounts_call_bind
    intro fd t _
    by_cases hFailed : fd = -1
    · rw [if_pos hFailed]
      exact accounts_pure rfl (accounted_opened (hLedger.trans (add_zero _).symm))
    · rw [if_neg hFailed]
      apply accounts_acquire_bind
      intro file l' _ hOpened
      exact accounts_pure rfl (accounted_opened (hOpened.trans (hLedger ▸ add_comm _ _)))
  rwa [bind_pure] at hBind

theorem Accounted.settled {interp : Pointer} {r : Option ElfInterp}
    (hAcc : Accounted before ⟨h.ei, { h.ptrs.collected with interp := interp }, h.events⟩ l) :
    Settled before ⟨⟨h.ei.symbols, some h.ei.symbolsNum, r, none⟩, h.ptrs.symbols, h.ptrs.names,
      interp, h.events⟩ l := by
  obtain ⟨kept, hBalance, hKept, hIn⟩ := hAcc.balance
  refine ⟨⟨kept, ?_, hKept, hIn⟩, hAcc.purpose, hAcc.found⟩
  rw [hBalance]
  simp only [Pointers.held, Pointers.collected, Pointers.opened, pointee, zero_add]
  ac_rfl

/-- The end of a load. -/
theorem release_accounts {α β : Type} {k : Holding α} {y : Call LoadFault β} {forget : α → β}
    {post : α → Ledger Purpose → Prop} (hAcc : Accounted before h l)
    (hRest : ∀ l', Accounted before { h with ptrs := h.ptrs.collected } l' →
      Accounts k y forget s l' post) :
    Accounts (do
      release h.ptrs.file
      release h.ptrs.strsectbl
      release h.ptrs.sechdrs
      release h.ptrs.proghdrs
      k) y forget s l post := by
  have hOut : Accounted (pointee h.ptrs.file + (pointee h.ptrs.strsectbl +
      (pointee h.ptrs.sechdrs + (pointee h.ptrs.proghdrs + before))))
      { h with ptrs := h.ptrs.collected } l := by
    refine hAcc.move rfl rfl rfl rfl rfl ?_ rfl
    simp only [Pointers.held, Pointers.collected, Pointers.opened, pointee, zero_add]
    ac_rfl
  apply hOut.release_bind
  intro l₁ hFile
  apply hFile.release_bind
  intro l₂ hStrsectbl
  apply hStrsectbl.release_bind
  intro l₃ hSechdrs
  apply hSechdrs.release_bind
  exact hRest

end Releases

section Load
variable (sys : System) (fuel : Nat)

/-- Every table that a load of the file loads is not empty, and loading it
succeeds. -/
def LoadsFile (s : OsState) : Prop :=
  ∀ ei t, ReachesSections sys s ei t → LoadsSections sys fuel ei t

variable (symbolsNum : Option UInt64) (interp : Option ElfInterp) (s : OsState)
  (l : Ledger Purpose)

theorem exeLoadSymbols_accounts :
    Accounts (Holding.exeLoadSymbols sys fuel symbolsNum interp)
      (exeLoadSymbols sys fuel symbolsNum interp) HoldingResult.result s l
      (fun r l' => Settled l.held r l' ∧ (interp = none → r.interp = none) ∧
        (LoadsFile sys fuel s → r.events = 0)) := by
  unfold Holding.exeLoadSymbols exeLoadSymbols
  apply (exeOpenFilename_accounts l.held rfl).bind
  rintro ⟨file, fd⟩ t l₁ hOpen hAcc
  dsimp only at hAcc ⊢
  rw [if_neg (not_failed fd), if_neg (not_failed fd)]
  apply (exeLoadHeaders_accounts ⟨rfl, rfl, rfl⟩ hAcc).bind
  rintro ⟨rc, h⟩ u l₂ - ⟨hAcc', hEvents⟩
  have hKept (hLoads : LoadsFile sys fuel s) : h.events = 0 :=
    hEvents fun hdr v hHdr => hLoads _ v ⟨fd, t, hdr, hOpen, hHdr, rfl⟩
  apply release_accounts hAcc'
  intro l₃ hLeft
  dsimp only
  rw [if_neg (not_failed rc), if_neg (not_failed rc)]
  cases symbolsNum with
  | none => exact accounts_throw
  | some symbolsNum =>
      cases interp with
      | none =>
          have hOut : Accounted (pointee h.ptrs.interp + l.held)
              ⟨h.ei, { h.ptrs.collected with interp := none }, h.events⟩ l₃ := by
            refine hLeft.move rfl rfl rfl rfl rfl ?_ rfl
            simp only [Pointers.held, Pointers.collected, Pointers.opened, pointee, add_zero]
            ac_rfl
          apply hOut.release_bind
          intro l₄ hReleased
          exact accounts_pure rfl ⟨hReleased.settled, fun _ => rfl, hKept⟩
      | some interp =>
          have hGiven (hNone : some interp = none) : h.ptrs.interp = none :=
            absurd hNone (Option.some_ne_none interp)
          exact accounts_pure rfl ⟨hLeft.settled, hGiven, hKept⟩

/-- A load of any file, whatever the system answers. What is released was held,
so that nothing is freed or closed twice. Afterwards the file is closed and the
headers are freed. Besides what the caller gets, what stays are the names, one
for each symbol that is counted, and for each event that loses memory what it
loses. -/
theorem load_settled :
    Accounts (Holding.exeLoadSymbols sys fuel symbolsNum interp)
      (exeLoadSymbols sys fuel symbolsNum interp) HoldingResult.result s l
      (fun r l' => Settled l.held r l' ∧ (interp = none → r.interp = none)) := by
  apply (exeLoadSymbols_accounts sys fuel symbolsNum interp s l).imp
  rintro r l' ⟨hSettled, hInterp, -⟩
  exact ⟨hSettled, hInterp⟩

end Load

end TelnetDebug.Image

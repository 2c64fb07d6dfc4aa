import TelnetDebug.Redirect.RedirectIo

/-! What a command leaves behind in the descriptor table. The three numbers
`save_ori_io` takes are never closed. -/
namespace TelnetDebug

open Descriptors

namespace Process
variable {F ι : Type} {p : Process F ι} {fdConn : UInt32} {f : F}

/-- No descriptor can be saved: no number is free, or none of the three is open. -/
def SavesNothing (t : Table F) : Prop := t.Full ∨ ∀ s : Std, t.entry s.fd = none

/-- No descriptor can be saved, and where the connection is open the standard
descriptors refer to it already. -/
structure Settled (t : Table F) (fdConn : UInt32) : Prop where
  saves : SavesNothing t
  redirected : ∀ f, t.file (asInt fdConn) = some f →
    ∀ s : Std, s.fd < t.limit → t.entry s.fd = some f

theorem saveOriIo_fails (h : SavesNothing p.table) :
    p.saveOriIo = { p with gOriStd := fun _ => asUnsigned (-1) } := by
  have hSave (globals : Std → UInt32) (s : Std) :
      ({ p with gOriStd := globals } : Process F ι).save s =
        { p with gOriStd := Function.update globals s (asUnsigned (-1)) } :=
    save_fails (h.imp_right fun hClosed => hClosed s)
  have hInput : p.save .input = _ := hSave p.gOriStd .input
  rw [saveOriIo, hInput, hSave, hSave]
  congr 1
  funext s
  cases s <;> rfl

theorem restoreOriIo_fails (h : ∀ s, p.gOriStd s = asUnsigned (-1)) : p.restoreOriIo = p := by
  have hFails (s : Std) : p.restore s = p := by
    apply restore_fails
    rw [h s]
    exact asInt_asUnsigned (by decide) (by decide)
  rw [restoreOriIo, hFails, hFails, hFails]

theorem redirectIo_fails (h : p.table.file (asInt fdConn) = none) : p.redirectIo fdConn = p := by
  rw [redirectIo, redirect_fails h, redirect_fails h, redirect_fails h]

theorem redirectIo_file (h : p.table.file (asInt fdConn) = some f) :
    (p.redirectIo fdConn).table.file (asInt fdConn) = some f :=
  redirect_file (redirect_file (redirect_file h .input) .output) .err

theorem redirectIo_other (h : p.table.file (asInt fdConn) = some f) {n : Nat}
    (hOther : ∀ s : Std, n ≠ s.fd) : (p.redirectIo fdConn).table.entry n = p.table.entry n := by
  have hInput := redirect_file h .input
  have hOutput := redirect_file hInput .output
  rw [redirectIo, redirect_other hOutput (hOther .err), redirect_other hInput (hOther .output),
    redirect_other h (hOther .input)]

theorem redirectIo_std (h : p.table.file (asInt fdConn) = some f) {s : Std}
    (hLimit : s.fd < p.table.limit) : (p.redirectIo fdConn).table.entry s.fd = some f := by
  have hInput := redirect_file h .input
  have hOutput := redirect_file hInput .output
  have hFirst : (p.redirect fdConn .input).table.limit = p.table.limit :=
    (redirect_grows ..).limit
  have hSecond : ((p.redirect fdConn .input).redirect fdConn .output).table.limit =
      p.table.limit := (redirect_grows ..).limit.trans hFirst
  cases s with
  | input =>
      exact redirect_keeps hOutput .err (redirect_keeps hInput .output (redirect_std h hLimit))
  | output => exact redirect_keeps hOutput .err (redirect_std hInput (hFirst ▸ hLimit))
  | err => exact redirect_std hOutput (hSecond ▸ hLimit)

/-- Where nothing is saved nothing is restored. -/
theorem commandPhase_fails (h : SavesNothing p.table) (fdConn : UInt32) (i : ι)
    (writes : List Std) : (p.commandPhase fdConn i writes).table = (p.redirectIo fdConn).table := by
  have hSave := saveOriIo_fails h
  have hRedirect : p.saveOriIo.redirectIo fdConn =
      { p.redirectIo fdConn with gOriStd := fun _ => asUnsigned (-1) } := by
    rw [hSave]
    rfl
  obtain ⟨hTable, hGlobals⟩ := proccessCmd_keeps i writes (p.saveOriIo.redirectIo fdConn)
  have hRestore : ((p.saveOriIo.redirectIo fdConn).proccessCmd i writes).restoreOriIo =
      (p.saveOriIo.redirectIo fdConn).proccessCmd i writes := by
    apply restoreOriIo_fails
    intro s
    rw [hGlobals, hRedirect]
  rw [commandPhase, hRestore, hTable, hRedirect]

theorem Settled.commandPhase (h : Settled p.table fdConn) (i : ι) (writes : List Std) :
    (p.commandPhase fdConn i writes).table = p.table := by
  rw [commandPhase_fails h.saves]
  cases hConn : p.table.file (asInt fdConn) with
  | none => rw [redirectIo_fails hConn]
  | some f =>
      apply Table.ext (redirectIo_grows fdConn p).limit
      intro n
      by_cases hStd : ∃ s : Std, n = s.fd
      · obtain ⟨s, rfl⟩ := hStd
        by_cases hLimit : s.fd < p.table.limit
        · rw [redirectIo_std hConn hLimit, h.redirected f hConn s hLimit]
        · have hOut := Nat.le_of_not_lt hLimit
          rw [p.table.entry_none _ hOut]
          exact Table.entry_none _ _ ((redirectIo_grows fdConn p).limit ▸ hOut)
      · exact redirectIo_other hConn fun s hs => hStd ⟨s, hs⟩

theorem Settled.commandPhases (h : Settled p.table fdConn) (i : ι) (commands : List (List Std)) :
    (p.commandPhases fdConn i commands).table = p.table := by
  induction commands generalizing p with
  | nil => rfl
  | cons writes commands ih =>
      have hSame := h.commandPhase i writes
      have hRest := ih (p := p.commandPhase fdConn i writes) (hSame.symm ▸ h)
      exact hRest.trans hSame

/-- With a number free, saving an open descriptor takes one. -/
theorem saves_take {list : List Std} {s : Std} (hMem : s ∈ list) (hFree : ¬ p.table.Full)
    (hOpen : p.table.entry s.fd ≠ none) :
    ∃ n, p.table.entry n = none ∧ (list.foldl (fun p s => p.save s) p).table.entry n ≠ none := by
  induction list generalizing p with
  | nil => cases hMem
  | cons r list ih =>
      have hRest (q : Process F ι) : q.table.Grows (list.foldl (fun p s => p.save s) q).table := by
        clear ih hMem
        induction list generalizing q with
        | nil => exact .refl _
        | cons r list ih => exact (save_grows r q).trans (ih _)
      by_cases hClosed : p.table.entry r.fd = none
      · have hFails := save_fails (p := p) (.inr hClosed)
        have hOther : s ∈ list := by
          apply (List.mem_cons.mp hMem).resolve_left
          rintro rfl
          exact hOpen hClosed
        rw [List.foldl_cons, hFails]
        exact ih (p := { p with gOriStd := Function.update p.gOriStd r _ }) hOther hFree hOpen
      · obtain ⟨f, hFile⟩ := Option.ne_none_iff_exists'.mp hClosed
        have hEntry : p.table.file r.fd = some f := hFile
        obtain ⟨n, hNone, -, -, hSets⟩ := Table.dup_succeeds hFree hEntry
        refine ⟨n, hNone, (hRest (p.save r)).used n ?_⟩
        change (p.table.dup r.fd).2.entry n ≠ none
        rw [hSets.entry, if_pos rfl]
        exact Option.some_ne_none f

/-- In a full table a redirected descriptor is never restored. -/
theorem redirected_stays (hFull : p.table.Full) (hConn : p.table.file (asInt fdConn) = some f)
    {s : Std} (hSame : p.table.entry s.fd = some f) (i : ι) (commands : List (List Std)) :
    (p.commandPhases fdConn i commands).table.entry s.fd = some f := by
  induction commands generalizing p with
  | nil => exact hSame
  | cons writes commands ih =>
      have hTable : (p.commandPhase fdConn i writes).table = (p.redirectIo fdConn).table :=
        commandPhase_fails (.inl hFull) fdConn i writes
      have hLimit : s.fd < p.table.limit :=
        Table.lt_limit (hSame ▸ Option.some_ne_none f)
      apply ih (p := p.commandPhase fdConn i writes)
      · rw [hTable]
        exact (redirectIo_grows fdConn p).full hFull
      · rw [hTable]
        exact redirectIo_file hConn
      · rw [hTable]
        exact redirectIo_std hConn hLimit

theorem commandPhases_differ (h : ¬ Settled p.table fdConn) (i : ι) (writes : List Std)
    (commands : List (List Std)) :
    (p.commandPhases fdConn i (writes :: commands)).table ≠ p.table := by
  have hLater := commandPhases_grows fdConn i (p.commandPhase fdConn i writes) commands
  by_cases hSaves : SavesNothing p.table
  · have hTable := commandPhase_fails hSaves fdConn i writes
    have hOther : ¬ ∀ f, p.table.file (asInt fdConn) = some f →
        ∀ s : Std, s.fd < p.table.limit → p.table.entry s.fd = some f :=
      fun hAll => h ⟨hSaves, hAll⟩
    push Not at hOther
    obtain ⟨f, hConn, s, hLimit, hNe⟩ := hOther
    have hStd : (p.commandPhase fdConn i writes).table.entry s.fd = some f := by
      rw [hTable]
      exact redirectIo_std hConn hLimit
    by_cases hClosed : p.table.entry s.fd = none
    · have hTaken : (p.commandPhase fdConn i writes).table.entry s.fd ≠ none :=
        hStd ▸ Option.some_ne_none f
      exact (commandPhase_grows fdConn i p writes).ne_of_taken hClosed hTaken hLater
    · have hFull : p.table.Full := hSaves.resolve_right fun hNone => hClosed (hNone s)
      have hStays : (p.commandPhases fdConn i (writes :: commands)).table.entry s.fd = some f := by
        apply redirected_stays (p := p.commandPhase fdConn i writes) _ _ hStd
        · exact (commandPhase_grows fdConn i p writes).full hFull
        · rw [hTable]
          exact redirectIo_file hConn
      intro hSame
      exact hNe (hSame ▸ hStays)
  · obtain ⟨hFree, hOpen⟩ := not_or.mp hSaves
    obtain ⟨s, hOpen⟩ := not_forall.mp hOpen
    obtain ⟨n, hNone, hTaken⟩ := saves_take s.mem_all hFree hOpen
    have hAfter : p.saveOriIo.table.Grows (p.commandPhase fdConn i writes).table := by
      have hRestore := restoreOriIo_grows ((p.saveOriIo.redirectIo fdConn).proccessCmd i writes)
      rw [(proccessCmd_keeps i writes _).1] at hRestore
      exact (redirectIo_grows fdConn p.saveOriIo).trans hRestore
    exact (saveOriIo_grows p).ne_of_taken hNone hTaken (hAfter.trans hLater)

/-- The table is as it was when no command ran, or when no descriptor could be
saved and the standard descriptors referred to the connection already. -/
theorem descriptors_kept_iff (fdConn : UInt32) (i : ι) (p : Process F ι)
    (commands : List (List Std)) :
    (p.commandPhases fdConn i commands).table = p.table ↔
      commands = [] ∨ Settled p.table fdConn := by
  constructor
  · intro hSame
    cases commands with
    | nil => exact .inl rfl
    | cons writes commands =>
        refine .inr (by_contra fun hOther => ?_)
        exact commandPhases_differ hOther i writes commands hSame
  · rintro (rfl | hSettled)
    · rfl
    · exact hSettled.commandPhases i commands

end Process

/-- A process with its three descriptors and one connection. -/
def oneConnection : Process Nat Unit where
  table :=
    { limit := 1024
      entry := fun n => if n < 4 then some n else none
      entry_none := fun n hOut => if_neg (by omega)
      limit_le := by decide }
  gOriStd := fun _ => 0
  outputs := []

/-- One command leaves the number 4 open. -/
theorem descriptors_leaked :
    (oneConnection.commandPhases 3 () [[.output]]).table ≠ oneConnection.table := by
  intro hSame
  have hFree : oneConnection.table.entry 4 = none := rfl
  rw [← hSame] at hFree
  exact absurd hFree (by decide +kernel)

end TelnetDebug

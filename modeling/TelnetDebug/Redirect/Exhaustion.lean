import TelnetDebug.Redirect.Leak
import TelnetDebug.Redirect.Interleaving

/-! The commands of all sessions, each run to its end before the next one. What
they write goes to the own connection, but each takes three numbers and gives
none of them back, until the descriptors of the process are not restored. -/
namespace TelnetDebug

open Descriptors Guarded

/-- A command of a session, and what it writes to. -/
structure RunCommand (ι : Type) where
  fdConn : UInt32
  session : ι
  writes : List Std

namespace Process
variable {F ι : Type} {p q r : Process F ι} {fdConn : UInt32} {f : F} {s : Std}

/-- The commands one after another, whatever sessions they belong to. -/
def serially (p : Process F ι) (commands : List (RunCommand ι)) : Process F ι :=
  commands.foldl (fun p c => p.commandPhase c.fdConn c.session c.writes) p

/-- They are the commands whose steps are not interleaved. -/
theorem serially_run [DecidableEq ι] {fdConn : ι → UInt32} {phase : ι → Phase}
    (hIdle : ∀ i, phase i = .save .input) {commands : List (RunCommand ι)}
    (hConn : ∀ c ∈ commands, c.fdConn = fdConn c.session) :
    run (Sessions.step fdConn) ⟨p, phase⟩
        (commands.flatMap fun c => phaseEvents c.session c.writes) =
      .ok ⟨p.serially commands, phase⟩ := by
  induction commands generalizing p with
  | nil => rfl
  | cons c commands ih =>
      have hFirst : run (Sessions.step fdConn) ⟨p, phase⟩ (phaseEvents c.session c.writes) =
          .ok ⟨p.commandPhase (fdConn c.session) c.session c.writes, phase⟩ :=
        phase_run fdConn c.writes (hIdle c.session)
      rw [List.flatMap_cons, run_append, hFirst, ok_bind,
        ih fun d hMem => hConn d (List.mem_cons_of_mem c hMem), ← hConn c List.mem_cons_self]
      rfl

/-- The three descriptors refer to files. -/
def StdOpen (t : Table F) : Prop := ∀ s : Std, t.entry s.fd ≠ none

/-- The global of `s` is the number of a copy if there was a number for it, and
-1 if not. -/
structure SavedWhen (p q : Process F ι) (s : Std) (taken : Prop) : Prop where
  file : taken → q.table.file (asInt (q.gOriStd s)) = p.table.entry s.fd
  new : p.table.file (asInt (q.gOriStd s)) = none
  failed : ¬ taken → q.gOriStd s = asUnsigned (-1)

section Saving

theorem StdOpen.grows {t t' : Table F} (h : StdOpen t) (hGrows : t.Grows t') : StdOpen t' :=
  fun s => hGrows.used s.fd (h s)

theorem save_extends (s : Std) (p : Process F ι) : p.table.Extends (p.save s).table := by
  by_cases hFails : p.table.Full ∨ p.table.entry s.fd = none
  · rw [save_fails hFails]
    exact .refl _
  · obtain ⟨hFree, hOpen⟩ := not_or.mp hFails
    obtain ⟨f, hFile⟩ : ∃ f, p.table.file s.fd = some f := Option.ne_none_iff_exists'.mp hOpen
    obtain ⟨n, hNone, -, -, hSets⟩ := Table.dup_succeeds hFree hFile
    exact hSets.extends hNone

theorem save_free (hOpen : p.table.entry s.fd ≠ none) :
    (p.save s).table.free = p.table.free - 1 := by
  by_cases hFull : p.table.Full
  · rw [save_fails (.inl hFull), Table.free_eq_zero.mpr hFull]
  · obtain ⟨f, hFile⟩ : ∃ f, p.table.file s.fd = some f := Option.ne_none_iff_exists'.mp hOpen
    obtain ⟨n, hNone, hLimit, -, hSets⟩ := Table.dup_succeeds hFull hFile
    exact Nat.eq_sub_of_add_eq (hSets.free_taken hNone hLimit)

/-- Saving after other descriptors were saved. -/
theorem save_keeps (h : p.table.Extends q.table) (hOpen : p.table.entry s.fd ≠ none) :
    SavedWhen p (q.save s) s (0 < q.table.free) := by
  have hSame := h.entry s.fd hOpen
  by_cases hFull : q.table.Full
  · have hFails := save_fails (s := s) (.inl hFull)
    have hGlobal : (q.save s).gOriStd s = asUnsigned (-1) := by
      rw [hFails]
      exact Function.update_self ..
    refine ⟨fun hFree => ?_, ?_, fun _ => hGlobal⟩
    · rw [Table.free_eq_zero.mpr hFull] at hFree
      exact absurd hFree (Nat.lt_irrefl 0)
    · rw [hGlobal, asInt_asUnsigned (by decide) (by decide)]
      rfl
  · have hUsed : q.table.entry s.fd ≠ none := hSame ▸ hOpen
    obtain ⟨f, hFile⟩ : ∃ f, q.table.file s.fd = some f := Option.ne_none_iff_exists'.mp hUsed
    obtain ⟨n, hNone, hLimit, hNumber, hSets⟩ := Table.dup_succeeds hFull hFile
    have hSmall := Nat.lt_of_lt_of_le hLimit q.table.limit_le
    have hGlobal : asInt ((q.save s).gOriStd s) = n := by
      change asInt (Function.update q.gOriStd s (asUnsigned (q.table.dup s.fd).1) s) = n
      rw [Function.update_self, hNumber, asInt_asUnsigned (by omega) (by omega)]
    refine ⟨fun _ => ?_, ?_, fun hTaken => ?_⟩
    · rw [hGlobal]
      change (q.table.dup s.fd).2.entry n = _
      rw [hSets.entry, if_pos rfl, ← hSame]
      exact hFile.symm
    · rw [hGlobal]
      change p.table.entry n = none
      by_contra hUsed
      rw [← h.entry n hUsed] at hUsed
      exact hUsed hNone
    · exact absurd (Table.free_eq_zero.mp (Nat.eq_zero_of_not_pos hTaken)) hFull

theorem SavedWhen.later {taken : Prop} (h : SavedWhen p q s taken)
    (hOpen : p.table.entry s.fd ≠ none) (hExtends : q.table.Extends r.table)
    (hGlobal : r.gOriStd s = q.gOriStd s) : SavedWhen p r s taken := by
  constructor
  · intro hTaken
    have hFile := h.file hTaken
    rw [hGlobal, hExtends.file (hFile ▸ hOpen), hFile]
  · rw [hGlobal]
    exact h.new
  · rw [hGlobal]
    exact h.failed

theorem save_global {s' : Std} (h : s' ≠ s) (p : Process F ι) :
    (p.save s).gOriStd s' = p.gOriStd s' := Function.update_of_ne h ..

theorem saveOriIo_extends (p : Process F ι) : p.table.Extends p.saveOriIo.table :=
  ((save_extends ..).trans (save_extends ..)).trans (save_extends ..)

theorem saveOriIo_free (h : StdOpen p.table) : p.saveOriIo.table.free = p.table.free - 3 := by
  have hOutput := h.grows (save_grows .input p)
  have hErr := hOutput.grows (save_grows .output (p.save .input))
  rw [saveOriIo, save_free (hErr .err), save_free (hOutput .output), save_free (h .input)]
  omega

/-- The descriptors are saved in order, as long as numbers are free. -/
theorem saveOriIo_keeps (h : StdOpen p.table) (s : Std) :
    SavedWhen p p.saveOriIo s (s.fd < p.table.free) := by
  have hInput := save_extends .input p
  have hOutput := hInput.trans (save_extends .output (p.save .input))
  have hOpen := h.grows (save_grows .input p)
  have hFirst := save_free (h .input)
  have hSecond := save_free (hOpen .output)
  cases s with
  | input =>
      have hKeeps := save_keeps (.refl p.table) (h .input)
      refine (hKeeps.later (h .input) (save_extends .output _) ?_).later (h .input)
        (save_extends .err _) ?_
      · exact save_global (by decide) _
      · exact save_global (by decide) _
  | output =>
      have hKeeps := save_keeps hInput (h .output)
      rw [hFirst, Nat.sub_pos_iff_lt] at hKeeps
      exact hKeeps.later (h .output) (save_extends .err _) (save_global (by decide) _)
  | err =>
      have hKeeps := save_keeps hOutput (h .err)
      rw [hSecond, hFirst, Nat.sub_sub, Nat.sub_pos_iff_lt] at hKeeps
      exact hKeeps

end Saving

section Restoring

/-- A call of `dup2` on a number that is in use. -/
theorem dup2_std (old : Int) (h : p.table.entry s.fd ≠ none) :
    (p.table.dup2 old s.fd).2.free = p.table.free ∧
      ∀ m, (p.table.dup2 old s.fd).2.file m =
        if m = s.fd then (p.table.file old).or (p.table.file s.fd) else p.table.file m := by
  cases hFile : p.table.file old with
  | none =>
      rw [Table.dup2_fails hFile]
      refine ⟨rfl, fun m => ?_⟩
      split
      · next hStd =>
        subst hStd
        rfl
      · rfl
  | some f =>
      have hSets := Table.dup2_sets hFile (Table.lt_limit h)
      refine ⟨hSets.free_used h, fun m => ?_⟩
      rw [hSets.file]
      rfl

theorem redirect_table (fdConn : UInt32) (h : p.table.entry s.fd ≠ none) :
    (p.redirect fdConn s).table.free = p.table.free ∧
      ∀ m : Int, m ≠ s.fd → (p.redirect fdConn s).table.file m = p.table.file m := by
  refine ⟨(dup2_std _ h).1, fun m hOther => ?_⟩
  rw [redirect, (dup2_std _ h).2, if_neg hOther]

theorem redirectIo_table (fdConn : UInt32) (h : StdOpen p.table) :
    (p.redirectIo fdConn).table.free = p.table.free ∧
      ∀ m : Int, (∀ s : Std, m ≠ s.fd) → (p.redirectIo fdConn).table.file m = p.table.file m := by
  have hOutput := h.grows (redirect_grows fdConn .input p)
  have hErr := hOutput.grows (redirect_grows fdConn .output _)
  constructor
  · rw [redirectIo, (redirect_table fdConn (hErr .err)).1,
      (redirect_table fdConn (hOutput .output)).1, (redirect_table fdConn (h .input)).1]
  · intro m hOther
    rw [redirectIo, (redirect_table fdConn (hErr .err)).2 m (hOther .err),
      (redirect_table fdConn (hOutput .output)).2 m (hOther .output),
      (redirect_table fdConn (h .input)).2 m (hOther .input)]

theorem restore_file (h : p.table.entry s.fd ≠ none) (m : Int) :
    (p.restore s).table.file m =
      if m = s.fd then (p.table.file (asInt (p.gOriStd s))).or (p.table.file s.fd)
      else p.table.file m :=
  (dup2_std _ h).2 m

theorem restore_globals (s : Std) (p : Process F ι) : (p.restore s).gOriStd = p.gOriStd := rfl

/-- Each descriptor gets back what was saved of it, if anything was. -/
theorem restoreOriIo_table (h : StdOpen p.table) (hNew : ∀ r s : Std, asInt (p.gOriStd r) ≠ s.fd) :
    p.restoreOriIo.table.free = p.table.free ∧
      (∀ s : Std, p.restoreOriIo.table.file s.fd =
        (p.table.file (asInt (p.gOriStd s))).or (p.table.file s.fd)) ∧
      ∀ m : Int, (∀ s : Std, m ≠ s.fd) → p.restoreOriIo.table.file m = p.table.file m := by
  have hOutput := h.grows (restore_grows .input p)
  have hErr := hOutput.grows (restore_grows .output _)
  have hFirst := restore_file (h .input)
  have hSecond := restore_file (hOutput .output)
  have hThird := restore_file (hErr .err)
  have hFd {r s : Std} (hNe : r ≠ s) : (r.fd : Int) ≠ s.fd := by
    cases r <;> cases s <;> simp [Std.fd] at hNe ⊢
  refine ⟨?_, fun s => ?_, fun m hOther => ?_⟩
  · exact ((dup2_std _ (hErr .err)).1.trans (dup2_std _ (hOutput .output)).1).trans
      (dup2_std _ (h .input)).1
  · rw [restoreOriIo, hThird]
    cases s with
    | input => rw [if_neg (hFd (by decide)), hSecond, if_neg (hFd (by decide)), hFirst, if_pos rfl]
    | output =>
        rw [if_neg (hFd (by decide)), hSecond, if_pos rfl, restore_globals, hFirst,
          if_neg (hNew _ _), hFirst, if_neg (hFd (by decide))]
    | err =>
        rw [if_pos rfl, restore_globals, restore_globals, hSecond, if_neg (hNew _ _), hFirst,
          if_neg (hNew _ _), hSecond, if_neg (hFd (by decide)), hFirst, if_neg (hFd (by decide))]
  · rw [restoreOriIo, hThird, if_neg (hOther .err), hSecond, if_neg (hOther .output), hFirst,
      if_neg (hOther .input)]

end Restoring

section Commands

theorem proccessCmd_outputs (i : ι) (writes : List Std) (p : Process F ι) :
    (p.proccessCmd i writes).outputs = p.outputs ++ writes.map fun s => (i, p.table.entry s.fd) := by
  induction writes generalizing p with
  | nil => exact (List.append_nil _).symm
  | cons s writes ih =>
      have hRest := ih (p.output i s)
      rw [proccessCmd, List.foldl_cons, ← proccessCmd, hRest]
      exact List.append_assoc ..

/-- What a command leaves: three numbers less are free, a descriptor that could
not be saved refers to the connection, and all output has gone there. -/
structure Ran (p q : Process F ι) (i : ι) (f : F) (writes : List Std) : Prop where
  free : q.table.free = p.table.free - 3
  std : ∀ s : Std, q.table.file s.fd = if s.fd < p.table.free then p.table.file s.fd else some f
  other : ∀ m : Int, (∀ s : Std, m ≠ s.fd) → p.table.file m ≠ none →
    q.table.file m = p.table.file m
  outputs : q.outputs = p.outputs ++ writes.map fun _ => (i, some f)

theorem commandPhase_ran (h : StdOpen p.table) (hConn : p.table.file (asInt fdConn) = some f)
    (i : ι) (writes : List Std) : Ran p (p.commandPhase fdConn i writes) i f writes := by
  have hExtends := saveOriIo_extends p
  have hKeeps := saveOriIo_keeps h
  have hSavedOpen : StdOpen p.saveOriIo.table := h.grows (saveOriIo_grows p)
  have hSavedConn : p.saveOriIo.table.file (asInt fdConn) = some f := by
    rw [hExtends.file (hConn ▸ Option.some_ne_none f), hConn]
  have hNew (r s : Std) : asInt (p.saveOriIo.gOriStd r) ≠ s.fd := by
    intro hSame
    have hNone := (hKeeps r).new
    rw [hSame] at hNone
    exact h s hNone
  obtain ⟨hFree, hRedirected⟩ := redirectIo_table fdConn hSavedOpen
  have hStd (s : Std) : (p.saveOriIo.redirectIo fdConn).table.entry s.fd = some f :=
    redirectIo_std hSavedConn (Table.lt_limit (hSavedOpen s))
  obtain ⟨hTable, hGlobals⟩ := proccessCmd_keeps i writes (p.saveOriIo.redirectIo fdConn)
  have hOutputs := proccessCmd_outputs i writes (p.saveOriIo.redirectIo fdConn)
  generalize hAfter : (p.saveOriIo.redirectIo fdConn).proccessCmd i writes = after at *
  have hGlobal (r : Std) : after.gOriStd r = p.saveOriIo.gOriStd r := by
    rw [hGlobals]
    rfl
  have hOpen : StdOpen after.table := by
    intro s
    rw [hTable, hStd s]
    exact Option.some_ne_none f
  obtain ⟨hCount, hRestored, hOther⟩ :=
    restoreOriIo_table hOpen fun r s => by rw [hGlobal]; exact hNew r s
  have hPhase : p.commandPhase fdConn i writes = after.restoreOriIo := by
    rw [← hAfter]
    rfl
  rw [hPhase]
  constructor
  · rw [hCount, hTable, hFree, saveOriIo_free h]
  · intro s
    have hSaved : after.table.file (asInt (after.gOriStd s)) =
        p.saveOriIo.table.file (asInt (p.saveOriIo.gOriStd s)) := by
      rw [hGlobal, hTable, hRedirected _ (hNew s)]
    have hConnected : after.table.file s.fd = some f := by
      rw [hTable]
      exact hStd s
    rw [hRestored, hSaved, hConnected]
    split
    · next hTaken =>
      obtain ⟨g, hFile⟩ := Option.ne_none_iff_exists'.mp (h s)
      have hCopy := (hKeeps s).file hTaken
      rw [hCopy, hFile]
      exact hFile.symm
    · next hLost =>
      rw [(hKeeps s).failed hLost, asInt_asUnsigned (by decide) (by decide)]
      rfl
  · intro m hNot hUsed
    rw [hOther m hNot, hTable, hRedirected m hNot, hExtends.file hUsed]
  · change after.outputs = _
    rw [hOutputs]
    simp only [hStd]
    rfl

end Commands

section Serial
variable {files : ι → F} {commands : List (RunCommand ι)}

/-- The connection of the command is open, under a number of its own. -/
structure Connected (p : Process F ι) (files : ι → F) (c : RunCommand ι) : Prop where
  conn : p.table.file (asInt c.fdConn) = some (files c.session)
  own : ∀ s : Std, asInt c.fdConn ≠ s.fd

/-- What so many commands leave. -/
structure Worn (p q : Process F ι) (files : ι → F) (commands : List (RunCommand ι)) : Prop where
  free : q.table.free = p.table.free - 3 * commands.length
  isOpen : StdOpen q.table
  std : 3 * commands.length ≤ p.table.free → ∀ s : Std, q.table.file s.fd = p.table.file s.fd
  other : ∀ m : Int, (∀ s : Std, m ≠ s.fd) → p.table.file m ≠ none →
    q.table.file m = p.table.file m
  outputs : q.outputs =
    p.outputs ++ commands.flatMap fun c => c.writes.map fun _ => (c.session, some (files c.session))

theorem Worn.connected (h : Worn p q files commands) {c : RunCommand ι}
    (hConn : Connected p files c) : q.table.file (asInt c.fdConn) = some (files c.session) := by
  rw [h.other _ hConn.own (hConn.conn ▸ Option.some_ne_none _), hConn.conn]

theorem Worn.command (h : Worn p q files commands) {c : RunCommand ι}
    (hConn : Connected p files c) :
    Worn p (q.commandPhase c.fdConn c.session c.writes) files (commands ++ [c]) := by
  have hRan := commandPhase_ran h.isOpen (h.connected hConn) c.session c.writes
  have hLength : (commands ++ [c]).length = commands.length + 1 := by simp
  constructor
  · rw [hRan.free, h.free, hLength]
    omega
  · exact h.isOpen.grows (commandPhase_grows ..)
  · intro hRoom s
    have hFd : s.fd < 3 := by cases s <;> decide
    rw [hLength] at hRoom
    rw [hRan.std, if_pos (by rw [h.free]; omega), h.std (by omega)]
  · intro m hNot hUsed
    have hKept := h.other m hNot hUsed
    rw [hRan.other m hNot (hKept ▸ hUsed), hKept]
  · rw [hRan.outputs, h.outputs, List.flatMap_append, List.append_assoc]
    simp

theorem serially_worn (hStd : StdOpen p.table) (hConn : ∀ c ∈ commands, Connected p files c) :
    Worn p (p.serially commands) files commands := by
  induction commands using List.reverseRecOn with
  | nil =>
      refine ⟨rfl, hStd, fun _ _ => rfl, fun _ _ _ => rfl, ?_⟩
      exact (List.append_nil _).symm
  | append_singleton commands c ih =>
      have hBefore := ih fun d hMem => hConn d (List.mem_append_left _ hMem)
      have hLast := hConn c (List.mem_append_right _ (List.mem_singleton_self c))
      rw [serially, List.foldl_concat]
      exact hBefore.command hLast

/-- After any commands of any sessions, run one at a time, three numbers for each
are gone. The last command restores a descriptor exactly when a number was left
for it; the others refer to the connection of that command from then on. All
that the commands write goes to their own connections. -/
theorem commands_exhaust (hStd : StdOpen p.table) {last : RunCommand ι}
    (hConn : ∀ c ∈ commands ++ [last], Connected p files c) :
    (p.serially (commands ++ [last])).table.free = p.table.free - 3 * (commands.length + 1) ∧
      (∀ s : Std, (p.serially (commands ++ [last])).table.entry s.fd =
        if 3 * commands.length + s.fd < p.table.free then p.table.entry s.fd
        else some (files last.session)) ∧
      (p.serially (commands ++ [last])).outputs = p.outputs ++ (commands ++ [last]).flatMap
        fun c => c.writes.map fun _ => (c.session, some (files c.session)) := by
  have hBefore := serially_worn hStd fun c hMem => hConn c (List.mem_append_left _ hMem)
  have hLast := hConn last (List.mem_append_right _ (List.mem_singleton_self last))
  have hRan := commandPhase_ran hBefore.isOpen (hBefore.connected hLast) last.session last.writes
  have hAll := serially_worn hStd hConn
  have hSplit : p.serially (commands ++ [last]) =
      (p.serially commands).commandPhase last.fdConn last.session last.writes := by
    rw [serially, List.foldl_concat]
    rfl
  refine ⟨by simpa using hAll.free, fun s => ?_, hAll.outputs⟩
  change (p.serially (commands ++ [last])).table.file s.fd = _
  rw [hSplit, hRan.std, hBefore.free]
  by_cases hRoom : 3 * commands.length + s.fd < p.table.free
  · rw [if_pos hRoom, if_pos (by omega), hBefore.std (by omega)]
    rfl
  · rw [if_neg hRoom, if_neg (by omega)]

end Serial

end Process

/-- A process with one connection and room for four more numbers. -/
def fourFree : Process Nat Unit where
  table :=
    { limit := 8
      entry := fun n => if n < 4 then some n else none
      entry_none := fun n hOut => if_neg (by omega)
      limit_le := by decide }
  gOriStd := fun _ => 0
  outputs := []

def twoCommands : List (RunCommand Unit) := [⟨3, (), []⟩, ⟨3, (), [.output]⟩]

/-- The second of two commands finds one number, so only the input is restored. -/
theorem commands_exhaust_second :
    ∃ st, run (Sessions.step fun _ => 3) ⟨fourFree, fun _ => .save .input⟩
        (twoCommands.flatMap fun c => phaseEvents c.session c.writes) = .ok st ∧
      st.process.table.free = 0 ∧ st.process.table.entry 0 = some 0 ∧
      st.process.table.entry 1 = some 3 := by
  have hStd : Process.StdOpen fourFree.table := fun s => by cases s <;> decide
  have hConn : ∀ c ∈ [(⟨3, (), []⟩ : RunCommand Unit)] ++ [⟨3, (), [.output]⟩],
      Process.Connected fourFree (fun _ => 3) c := by
    intro c hMem
    rcases List.mem_pair.mp hMem with rfl | rfl
    all_goals exact ⟨rfl, fun s => by cases s <;> decide⟩
  have hNumber : ∀ c ∈ twoCommands, c.fdConn = 3 := by decide
  obtain ⟨hFree, hEntries, -⟩ := Process.commands_exhaust hStd hConn
  have hCount : fourFree.table.free = 4 := by decide
  refine ⟨_, Process.serially_run (fun _ => rfl) hNumber, hFree.trans ?_,
    (hEntries .input).trans ?_, (hEntries .output).trans ?_⟩
  all_goals
    rw [hCount]
    rfl

end TelnetDebug

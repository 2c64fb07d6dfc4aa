import TelnetDebug.Redirect.RedirectIo
import TelnetDebug.Library.Guarded
import Mathlib.Data.Fintype.Basic

/-! The command phases of several sessions, interleaved. Each `dup`, each
`dup2` and each output of a command is one step. Nothing keeps two sessions from
being in their phases at the same time. -/
namespace TelnetDebug

open Descriptors Guarded

/-- What a session does next. Before `save .input` it is idle. -/
inductive Phase where
  | save (s : Std)
  | redirect (s : Std)
  | command
  | restore (s : Std)
deriving DecidableEq

namespace Phase

def next : Phase → Phase
  | save .input => save .output
  | save .output => save .err
  | save .err => redirect .input
  | redirect .input => redirect .output
  | redirect .output => redirect .err
  | redirect .err => command
  | command => restore .input
  | restore .input => restore .output
  | restore .output => restore .err
  | restore .err => save .input

/-- The call the session makes; after `command` its command has returned. -/
def call {F ι : Type} (fdConn : UInt32) (p : Process F ι) : Phase → Process F ι
  | save s => p.save s
  | redirect s => p.redirect fdConn s
  | command => p
  | restore s => p.restore s

/-- The number has been redirected and not restored yet. -/
def Redirected : Phase → Int → Prop
  | save _, _ => False
  | redirect r, n => 0 ≤ n ∧ n < r.fd
  | command, n => 0 ≤ n ∧ n ≤ Std.err.fd
  | restore r, n => r.fd ≤ n ∧ n ≤ Std.err.fd

/-- The descriptor has been saved and is still to be restored. -/
def Saved : Phase → Std → Prop
  | save r, s => s.fd < r.fd
  | redirect _, _ => True
  | command, _ => True
  | restore r, s => r.fd ≤ s.fd

instance (phase : Phase) (n : Int) : Decidable (phase.Redirected n) := by
  cases phase <;> unfold Redirected <;> infer_instance

theorem redirected_save (s : Std) (n : Int) : ¬ (save s).next.Redirected n := by
  cases s <;> simp [next, Redirected, Std.fd]

theorem redirected_redirect (s : Std) (n : Int) :
    (redirect s).next.Redirected n ↔ (redirect s).Redirected n ∨ n = s.fd := by
  cases s <;> simp only [next, Redirected, Std.fd] <;> omega

theorem redirected_command (n : Int) : command.next.Redirected n ↔ command.Redirected n :=
  Iff.rfl

theorem redirected_restore (s : Std) (n : Int) :
    (restore s).next.Redirected n ↔ (restore s).Redirected n ∧ n ≠ s.fd := by
  cases s <;> simp only [next, Redirected, Std.fd, false_iff] <;> omega

theorem saved_next {phase : Phase} {r : Std} (h : phase.next.Saved r) :
    phase.Saved r ∨ phase = save r := by
  cases phase with
  | save s => cases s <;> cases r <;> simp_all [next, Saved, Std.fd]
  | redirect s => exact .inl trivial
  | command => exact .inl trivial
  | restore s => cases s <;> cases r <;> simp_all [next, Saved, Std.fd]

theorem saved_restore (s : Std) : (restore s).Saved s := Nat.le_refl s.fd

end Phase

structure Sessions (F ι : Type) where
  process : Process F ι
  phase : ι → Phase

inductive Event (ι : Type) where
  | next (i : ι)
  | output (i : ι) (s : Std)

/-- A session writes to its standard descriptors only while its command runs. -/
inductive Disabled where
  | output

variable {F ι : Type}

/-- The phases after session `i` has made its call. -/
def Sessions.advance [DecidableEq ι] (st : Sessions F ι) (i : ι) : ι → Phase :=
  Function.update st.phase i (st.phase i).next

def Sessions.step [DecidableEq ι] (fdConn : ι → UInt32) (st : Sessions F ι) :
    Event ι → Except Disabled (Sessions F ι)
  | .next i => .ok ⟨(st.phase i).call (fdConn i) st.process, st.advance i⟩
  | .output i s =>
      if st.phase i = .command then .ok { st with process := st.process.output i s }
      else .error .output

/-- A descriptor is saved and redirected only while no other session has it
redirected, or the number of the own connection; and saving finds a free number. -/
def Excludes (fdConn : ι → UInt32) (st : Sessions F ι) : Event ι → Prop
  | .next i =>
      match st.phase i with
      | .save s => ¬ st.process.table.Full ∧ ∀ j, j ≠ i → ¬ (st.phase j).Redirected s.fd
      | .redirect s => ∀ j, j ≠ i →
          ¬ (st.phase j).Redirected s.fd ∧ ¬ (st.phase j).Redirected (asInt (fdConn i))
      | .command => True
      | .restore _ => True
  | .output _ _ => True

instance [Fintype ι] [DecidableEq ι] (fdConn : ι → UInt32) (st : Sessions F ι) (event : Event ι) :
    Decidable (Excludes fdConn st event) :=
  match event with
  | .next i =>
      match h : st.phase i with
      | .save s => decidable_of_iff
          (¬ st.process.table.Full ∧ ∀ j, j ≠ i → ¬ (st.phase j).Redirected s.fd)
          (by simp [Excludes, h])
      | .redirect s => decidable_of_iff
          (∀ j, j ≠ i →
            ¬ (st.phase j).Redirected s.fd ∧ ¬ (st.phase j).Redirected (asInt (fdConn i)))
          (by simp [Excludes, h])
      | .command => isTrue (by simp [Excludes, h])
      | .restore _ => isTrue (by simp [Excludes, h])
  | .output _ _ => isTrue trivial

/-- The process before the first command: all sessions are idle, the three
descriptors are open, and so are the connections. -/
structure Started (fdConn : ι → UInt32) (files : ι → F) (st : Sessions F ι) : Prop where
  idle : ∀ i, st.phase i = .save .input
  std : ∀ s : Std, st.process.table.entry s.fd ≠ none
  conn : ∀ i, st.process.table.file (asInt (fdConn i)) = some (files i)
  silent : st.process.outputs = []

/-- All output went to the own connection, and when all sessions are idle the
descriptors refer to the files they referred to at the start. -/
structure Separated (start : Table F) (files : ι → F) (st : Sessions F ι) : Prop where
  outputs : ∀ i file, (i, file) ∈ st.process.outputs → file = some (files i)
  restored : (∀ i, st.phase i = .save .input) →
    ∀ s : Std, st.process.table.entry s.fd = start.entry s.fd

/-- What holds between two steps. A redirected number refers to the connection
of the one session that redirected it, any other number in use at the start to
its file of the start; and what is saved is the file of the start, under a
number that was free then. -/
structure Shared (start : Table F) (files : ι → F) (st : Sessions F ι) : Prop where
  grows : start.Grows st.process.table
  own : ∀ i n, (st.phase i).Redirected n → st.process.table.file n = some (files i)
  single : ∀ i j n, (st.phase i).Redirected n → (st.phase j).Redirected n → i = j
  kept : ∀ n, start.file n ≠ none → (∀ i, ¬ (st.phase i).Redirected n) →
    st.process.table.file n = start.file n
  saved : ∀ i s, (st.phase i).Saved s →
    st.process.table.file (asInt (st.process.gOriStd s)) = start.entry s.fd ∧
      start.file (asInt (st.process.gOriStd s)) = none
  outputs : ∀ i file, (i, file) ∈ st.process.outputs → file = some (files i)

section Start
variable {fdConn : ι → UInt32} {files : ι → F} {start : Table F} {st : Sessions F ι}

theorem Started.shared (h : Started fdConn files st) : Shared st.process.table files st where
  grows := .refl _
  own i n hRedirected := by
    rw [h.idle i] at hRedirected
    exact hRedirected.elim
  single i j n hRedirected := by
    rw [h.idle i] at hRedirected
    exact hRedirected.elim
  kept _ _ _ := rfl
  saved i s hSaved := by
    rw [h.idle i] at hSaved
    exact absurd hSaved (Nat.not_lt_zero _)
  outputs i file hMem := by
    rw [h.silent] at hMem
    cases hMem

theorem Shared.separated (h : Shared start files st)
    (hStd : ∀ s : Std, start.entry s.fd ≠ none) : Separated start files st where
  outputs := h.outputs
  restored hIdle s := by
    apply h.kept s.fd (hStd s)
    intro i hRedirected
    rw [hIdle i] at hRedirected
    exact hRedirected

/-- The number of a file saved is not the number of a standard descriptor or of
a connection. -/
theorem Shared.global_ne (h : Shared start files st) {i : ι} {s : Std}
    (hSaved : (st.phase i).Saved s) {n : Int} (hUsed : start.file n ≠ none) :
    asInt (st.process.gOriStd s) ≠ n := by
  rintro rfl
  exact hUsed (h.saved i s hSaved).2

theorem Shared.output (h : Shared start files st) {i : ι} (hPhase : st.phase i = .command)
    (s : Std) :
    Shared start files ⟨st.process.output i s, st.phase⟩ := by
  refine ⟨h.grows, h.own, h.single, h.kept, h.saved, ?_⟩
  intro j file hMem
  rcases List.mem_append.mp hMem with hOld | hNew
  · exact h.outputs j file hOld
  · obtain ⟨rfl, rfl⟩ := Prod.mk.inj (List.mem_singleton.mp hNew)
    have hMine : (st.phase j).Redirected s.fd := by
      rw [hPhase]
      exact ⟨Int.natCast_nonneg _, by cases s <;> decide⟩
    exact h.own j s.fd hMine

end Start

section Steps
variable [DecidableEq ι] {fdConn : ι → UInt32} {files : ι → F} {start : Table F}
  {st : Sessions F ι} {i j : ι} {s : Std} {n : Int}

theorem advance_self : st.advance i i = (st.phase i).next := Function.update_self ..

theorem advance_of_ne (h : j ≠ i) : st.advance i j = st.phase j := Function.update_of_ne h ..

/-- A step that leaves the own redirections as they are leaves those of all
sessions. -/
theorem redirected_advance (h : (st.phase i).next.Redirected n ↔ (st.phase i).Redirected n) :
    (st.advance i j).Redirected n ↔ (st.phase j).Redirected n := by
  by_cases hSelf : j = i
  · rw [hSelf, advance_self, h]
  · rw [advance_of_ne hSelf]

/-- A session that has saved a descriptor saved it before, or in this step. -/
theorem saved_advance (h : (st.advance i j).Saved s) :
    (st.phase j).Saved s ∨ st.phase i = .save s := by
  by_cases hSelf : j = i
  · subst hSelf
    rw [advance_self] at h
    exact Phase.saved_next h
  · rw [advance_of_ne hSelf] at h
    exact .inl h

/-- In a step that saves nothing, what a session has saved it saved before. -/
theorem saved_advance_of_ne (hPhase : st.phase i ≠ .save s) (h : (st.advance i j).Saved s) :
    (st.phase j).Saved s := (saved_advance h).resolve_right hPhase

theorem Shared.save (h : Shared start files st) (hStd : ∀ s : Std, start.entry s.fd ≠ none)
    (hPhase : st.phase i = .save s) (hFree : ¬ st.process.table.Full)
    (hAlone : ∀ j, j ≠ i → ¬ (st.phase j).Redirected s.fd) :
    Shared start files ⟨st.process.save s, st.advance i⟩ := by
  have hNobody (j : ι) : ¬ (st.phase j).Redirected s.fd := by
    by_cases hSelf : j = i
    · rw [hSelf, hPhase]
      exact id
    · exact hAlone j hSelf
  have hSame (j : ι) (m : Int) : (st.advance i j).Redirected m ↔ (st.phase j).Redirected m := by
    apply redirected_advance
    rw [hPhase]
    exact iff_of_false (Phase.redirected_save s m) id
  have hKept : st.process.table.file s.fd = start.entry s.fd := h.kept s.fd (hStd s) hNobody
  obtain ⟨f, hFile⟩ := Option.ne_none_iff_exists'.mp (hStd s)
  obtain ⟨n, hNone, hLimit, hNumber, hSets⟩ := Table.dup_succeeds hFree (hKept.trans hFile)
  have hOther {m : Int} (hUsed : st.process.table.file m ≠ none) :
      (st.process.save s).table.file m = st.process.table.file m := by
    apply hSets.file_of_ne
    rintro rfl
    exact hUsed hNone
  have hGlobal : asInt ((st.process.save s).gOriStd s) = n := by
    change asInt (Function.update st.process.gOriStd s _ s) = n
    rw [Function.update_self, hNumber]
    have hInt := Nat.lt_of_lt_of_le hLimit st.process.table.limit_le
    exact asInt_asUnsigned (by omega) (by omega)
  constructor
  · exact h.grows.trans (Process.save_grows s _)
  · intro j m hRedirected
    have hOwn := h.own j m ((hSame j m).mp hRedirected)
    exact (hOther (hOwn ▸ Option.some_ne_none _)).trans hOwn
  · intro j k m hFirst hSecond
    exact h.single j k m ((hSame j m).mp hFirst) ((hSame k m).mp hSecond)
  · intro m hUsed hNow
    have hStill := h.kept m hUsed fun j hRedirected => hNow j ((hSame j m).mpr hRedirected)
    exact (hOther (hStill ▸ hUsed)).trans hStill
  · intro j r hSaved
    by_cases hThis : r = s
    · subst hThis
      rw [hGlobal, hFile]
      refine ⟨(hSets.entry n).trans (if_pos rfl), ?_⟩
      exact by_contra fun hUsed => h.grows.used n hUsed hNone
    · have hBefore := saved_advance_of_ne
        (fun hSave => hThis (Phase.save.inj (hSave.symm.trans hPhase))) hSaved
      obtain ⟨hRefers, hFresh⟩ := h.saved j r hBefore
      have hGlobals : (st.process.save s).gOriStd r = st.process.gOriStd r :=
        Function.update_of_ne hThis _ _
      rw [hGlobals]
      exact ⟨(hOther (hRefers ▸ hStd r)).trans hRefers, hFresh⟩
  · exact h.outputs

theorem Shared.redirect (h : Shared start files st) (hStd : ∀ s : Std, start.entry s.fd ≠ none)
    (hConn : start.file (asInt (fdConn i)) = some (files i)) (hPhase : st.phase i = .redirect s)
    (hAlone : ∀ j, j ≠ i →
      ¬ (st.phase j).Redirected s.fd ∧ ¬ (st.phase j).Redirected (asInt (fdConn i))) :
    Shared start files ⟨st.process.redirect (fdConn i) s, st.advance i⟩ := by
  have hOpen : st.process.table.file (asInt (fdConn i)) = some (files i) := by
    by_cases hMine : (st.phase i).Redirected (asInt (fdConn i))
    · exact h.own i _ hMine
    · refine (h.kept _ (hConn ▸ Option.some_ne_none _) fun j hRedirected => ?_).trans hConn
      by_cases hSelf : j = i
      · exact hMine (hSelf ▸ hRedirected)
      · exact (hAlone j hSelf).2 hRedirected
  have hLimit : s.fd < st.process.table.limit := Table.lt_limit (h.grows.used _ (hStd s))
  have hSets := Process.redirect_sets hOpen hLimit
  have hNew (j : ι) (m : Int) : (st.advance i j).Redirected m ↔
      (st.phase j).Redirected m ∨ j = i ∧ m = s.fd := by
    by_cases hSelf : j = i
    · subst hSelf
      rw [advance_self, hPhase, Phase.redirected_redirect]
      simp
    · rw [advance_of_ne hSelf]
      simp [hSelf]
  constructor
  · exact h.grows.trans (Process.redirect_grows (fdConn i) s _)
  · intro j m hRedirected
    rw [hSets.file]
    rcases (hNew j m).mp hRedirected with hOld | ⟨rfl, rfl⟩
    · split
      · next hThis =>
        subst hThis
        have hSelf : j = i := by_contra fun hNe => (hAlone j hNe).1 hOld
        rw [hSelf]
      · exact h.own j m hOld
    · exact if_pos rfl
  · intro j k m hFirst hSecond
    rcases (hNew j m).mp hFirst with hOld | ⟨rfl, rfl⟩
    · rcases (hNew k m).mp hSecond with hOld' | ⟨rfl, rfl⟩
      · exact h.single j k m hOld hOld'
      · exact by_contra fun hNe => (hAlone j hNe).1 hOld
    · rcases (hNew k _).mp hSecond with hOld | ⟨rfl, -⟩
      · exact by_contra fun hNe => (hAlone k (Ne.symm hNe)).1 hOld
      · rfl
  · intro m hUsed hNow
    have hNe : m ≠ s.fd := fun hThis => hNow i ((hNew i m).mpr (.inr ⟨rfl, hThis⟩))
    rw [hSets.file_of_ne hNe]
    exact h.kept m hUsed fun j hRedirected => hNow j ((hNew j m).mpr (.inl hRedirected))
  · intro j r hSaved
    have hBefore := saved_advance_of_ne (hPhase ▸ Phase.noConfusion) hSaved
    have hNe : asInt (st.process.gOriStd r) ≠ s.fd := h.global_ne hBefore (hStd s)
    obtain ⟨hRefers, hFresh⟩ := h.saved j r hBefore
    exact ⟨(hSets.file_of_ne hNe).trans hRefers, hFresh⟩
  · exact h.outputs

theorem Shared.command (h : Shared start files st) (hPhase : st.phase i = .command) :
    Shared start files ⟨st.process, st.advance i⟩ := by
  have hSame (j : ι) (m : Int) : (st.advance i j).Redirected m ↔ (st.phase j).Redirected m := by
    apply redirected_advance
    rw [hPhase, Phase.redirected_command]
  constructor
  · exact h.grows
  · intro j m hRedirected
    exact h.own j m ((hSame j m).mp hRedirected)
  · intro j k m hFirst hSecond
    exact h.single j k m ((hSame j m).mp hFirst) ((hSame k m).mp hSecond)
  · intro m hUsed hNow
    exact h.kept m hUsed fun j hRedirected => hNow j ((hSame j m).mpr hRedirected)
  · intro j r hSaved
    exact h.saved j r (saved_advance_of_ne (hPhase ▸ Phase.noConfusion) hSaved)
  · exact h.outputs

theorem Shared.restore (h : Shared start files st) (hStd : ∀ s : Std, start.entry s.fd ≠ none)
    (hPhase : st.phase i = .restore s) :
    Shared start files ⟨st.process.restore s, st.advance i⟩ := by
  have hSaved : (st.phase i).Saved s := hPhase ▸ Phase.saved_restore s
  have hMine : (st.phase i).Redirected s.fd := by
    rw [hPhase]
    exact ⟨Int.le_refl _, by cases s <;> decide⟩
  obtain ⟨f, hFile⟩ := Option.ne_none_iff_exists'.mp (hStd s)
  have hLimit : s.fd < st.process.table.limit := Table.lt_limit (h.grows.used _ (hStd s))
  have hSets : st.process.table.Sets s.fd f (st.process.restore s).table :=
    Table.dup2_sets ((h.saved i s hSaved).1.trans hFile) hLimit
  have hNew (j : ι) (m : Int) : (st.advance i j).Redirected m ↔
      (st.phase j).Redirected m ∧ (j = i → m ≠ s.fd) := by
    by_cases hSelf : j = i
    · subst hSelf
      rw [advance_self, hPhase, Phase.redirected_restore]
      simp
    · rw [advance_of_ne hSelf]
      simp [hSelf]
  have hNe {j : ι} {m : Int} (hRedirected : (st.advance i j).Redirected m) : m ≠ s.fd := by
    obtain ⟨hOld, hOther⟩ := (hNew j m).mp hRedirected
    rintro rfl
    exact hOther (h.single j i _ hOld hMine) rfl
  constructor
  · exact h.grows.trans (Process.restore_grows s _)
  · intro j m hRedirected
    rw [hSets.file_of_ne (hNe hRedirected)]
    exact h.own j m ((hNew j m).mp hRedirected).1
  · intro j k m hFirst hSecond
    exact h.single j k m ((hNew j m).mp hFirst).1 ((hNew k m).mp hSecond).1
  · intro m hUsed hNow
    by_cases hThis : m = s.fd
    · subst hThis
      rw [hSets.file, if_pos rfl]
      exact hFile.symm
    · rw [hSets.file_of_ne hThis]
      exact h.kept m hUsed fun j hOld => hNow j ((hNew j m).mpr ⟨hOld, fun _ => hThis⟩)
  · intro j r hSavedNow
    have hBefore := saved_advance_of_ne (hPhase ▸ Phase.noConfusion) hSavedNow
    have hOther : asInt (st.process.gOriStd r) ≠ s.fd := h.global_ne hBefore (hStd s)
    obtain ⟨hRefers, hFresh⟩ := h.saved j r hBefore
    exact ⟨(hSets.file_of_ne hOther).trans hRefers, hFresh⟩
  · exact h.outputs

/-- One step, taken while no other session stands in its way. -/
theorem Shared.step (h : Shared start files st) (hStd : ∀ s : Std, start.entry s.fd ≠ none)
    (hConn : ∀ i, start.file (asInt (fdConn i)) = some (files i)) {event : Event ι}
    (hExcludes : Excludes fdConn st event) :
    Sat (st.step fdConn event) (Shared start files) (fun _ => True) := by
  cases event with
  | next i =>
      rw [Excludes] at hExcludes
      change Shared start files ⟨(st.phase i).call (fdConn i) st.process, st.advance i⟩
      cases hPhase : st.phase i with
      | save s =>
          rw [hPhase] at hExcludes
          exact h.save hStd hPhase hExcludes.1 hExcludes.2
      | redirect s =>
          rw [hPhase] at hExcludes
          exact h.redirect hStd (hConn i) hPhase hExcludes
      | command => exact h.command hPhase
      | restore s => exact h.restore hStd hPhase
  | output i s =>
      rw [Sessions.step]
      split
      · next hPhase => exact h.output hPhase s
      · trivial

/-- In every run in which each session saves and redirects a descriptor only
while no other has it redirected, all output goes to the own connection, and
whenever all sessions are idle the descriptors are as at the start. -/
theorem stdio_separated (hStarted : Started fdConn files st) {events : List (Event ι)}
    (hMeets : Meets (Sessions.step fdConn) (Excludes fdConn) st events) {st' : Sessions F ι}
    (hVisits : Visits (Sessions.step fdConn) st events st') :
    Separated st.process.table files st' := by
  have hShared : Shared st.process.table files st' :=
    hVisits.invariant (fun _ _ h hExcludes => h.step hStarted.std hStarted.conn hExcludes)
      hStarted.shared hMeets
  exact hShared.separated hStarted.std

end Steps

section Runs

/-- The steps of one command phase. -/
def phaseEvents (i : ι) (writes : List Std) : List (Event ι) :=
  List.replicate 6 (.next i) ++ writes.map (.output i) ++ List.replicate 4 (.next i)

theorem outputs_run [DecidableEq ι] (fdConn : ι → UInt32) {i : ι} (writes : List Std)
    {st : Sessions F ι} (hPhase : st.phase i = .command) :
    run (Sessions.step fdConn) st (writes.map (.output i)) =
      .ok ⟨st.process.proccessCmd i writes, st.phase⟩ := by
  induction writes generalizing st with
  | nil => rfl
  | cons s writes ih =>
      have hStep : st.step fdConn (.output i s) = .ok ⟨st.process.output i s, st.phase⟩ :=
        if_pos hPhase
      rw [List.map_cons, run_cons, hStep, ok_bind]
      exact ih hPhase

/-- A session nobody interrupts does what `shell_thread_func` does. -/
theorem phase_run [DecidableEq ι] (fdConn : ι → UInt32) {i : ι} (writes : List Std)
    {st : Sessions F ι} (hIdle : st.phase i = .save .input) :
    run (Sessions.step fdConn) st (phaseEvents i writes) =
      .ok ⟨st.process.commandPhase (fdConn i) i writes, st.phase⟩ := by
  have hNext (process : Process F ι) (phase : Phase) :
      (⟨process, Function.update st.phase i phase⟩ : Sessions F ι).step fdConn (.next i) =
        .ok ⟨phase.call (fdConn i) process, Function.update st.phase i phase.next⟩ := by
    simp [Sessions.step, Sessions.advance]
  have hStart : st = ⟨st.process, Function.update st.phase i (.save .input)⟩ := by
    rw [← hIdle, Function.update_eq_self]
  rw [phaseEvents, run_append, run_append, hStart]
  simp only [List.replicate, run_cons, run_nil, hNext, ok_bind, Phase.call, Phase.next]
  rw [outputs_run fdConn writes (Function.update_self ..)]
  simp only [hNext, ok_bind, Phase.call, Phase.next]
  rfl

def connections : Bool → UInt32
  | false => 3
  | true => 4

/-- A process with its three descriptors and the connections of two sessions. -/
def twoSessions : Sessions Nat Bool where
  process :=
    { table :=
        { limit := 16
          entry := fun n => if n < 5 then some n else none
          entry_none := fun n hOut => if_neg (by omega)
          limit_le := by decide }
      gOriStd := fun _ => 0
      outputs := [] }
  phase := fun _ => .save .input

def connectionFiles : Bool → Nat
  | false => 3
  | true => 4

theorem twoSessions_started : Started connections connectionFiles twoSessions where
  idle _ := rfl
  std s := by cases s <;> decide
  conn i := by cases i <;> decide
  silent := rfl

/-- One session saves its descriptors, and redirects them after the command of
the other is over. -/
def turns : List (Event Bool) :=
  List.replicate 3 (.next true) ++ phaseEvents false [.output] ++
    List.replicate 3 (.next true) ++ [.output true .err] ++ List.replicate 4 (.next true)

theorem stdio_separated_turns :
    ∃ st, run (Sessions.step connections) twoSessions turns = .ok st ∧
      Separated twoSessions.process.table connectionFiles st := by
  have hMeets : Meets (Sessions.step connections) (Excludes connections) twoSessions turns := by
    decide +kernel
  have hSat : Sat (run (Sessions.step connections) twoSessions turns) (fun _ => True)
      (fun _ => False) := by decide +kernel
  obtain ⟨st, hRun, -⟩ := hSat.returns
  exact ⟨st, hRun, stdio_separated twoSessions_started hMeets ⟨_, List.prefix_rfl, hRun⟩⟩

/-- The second session saves what the first has redirected. -/
def overlap : List (Event Bool) :=
  List.replicate 6 (.next false) ++ List.replicate 6 (.next true) ++ [.output false .output] ++
    List.replicate 4 (.next false) ++ List.replicate 4 (.next true)

/-- The first command writes to the second connection, and when both sessions
are idle the descriptors refer to the first. -/
theorem stdio_not_separated :
    Started connections connectionFiles twoSessions ∧
    ∃ st, run (Sessions.step connections) twoSessions overlap = .ok st ∧
      (false, some (connectionFiles true)) ∈ st.process.outputs ∧
      (∀ i, st.phase i = .save .input) ∧
      ∀ s : Std, st.process.table.entry s.fd = some (connectionFiles false) ∧
        twoSessions.process.table.entry s.fd ≠ some (connectionFiles false) := by
  have hSat : Sat (run (Sessions.step connections) twoSessions overlap)
      (fun st => (false, some (connectionFiles true)) ∈ st.process.outputs ∧
        (∀ i, st.phase i = .save .input) ∧
        ∀ s ∈ [Std.input, Std.output, Std.err],
          st.process.table.entry s.fd = some (connectionFiles false) ∧
            twoSessions.process.table.entry s.fd ≠ some (connectionFiles false))
      (fun _ => False) := by decide +kernel
  obtain ⟨st, hRun, hOutput, hIdle, hStd⟩ := hSat.returns
  exact ⟨twoSessions_started, st, hRun, hOutput, hIdle, fun s => hStd s s.mem_all⟩

end Runs

end TelnetDebug

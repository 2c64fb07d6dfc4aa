import TelnetDebug.Library.Descriptors
import Mathlib.Data.UInt

/-! The standard descriptors while a command runs. The descriptor table and the
three globals of `telnet_redirect_io.c` belong to the process; all sessions
share them. Beside them a log is kept of the outputs of the commands: who wrote,
and the file the descriptor referred to. -/
namespace TelnetDebug

open Descriptors

inductive Std where
  | input
  | output
  | err
deriving DecidableEq

def Std.fd : Std → Nat
  | .input => 0
  | .output => 1
  | .err => 2

theorem Std.mem_all (s : Std) : s ∈ [Std.input, Std.output, Std.err] := by
  cases s <;> decide

/-- An `int` stored in an `unsigned int`. -/
def asUnsigned (n : Int) : UInt32 := (Int32.ofInt n).toUInt32

/-- An `unsigned int` passed as an `int`. -/
def asInt (n : UInt32) : Int := n.toInt32.toInt

theorem asInt_asUnsigned {n : Int} (hLow : -2 ^ 31 ≤ n) (hHigh : n < 2 ^ 31) :
    asInt (asUnsigned n) = n := by
  rw [asInt, asUnsigned, Int32.toInt32_toUInt32, Int32.toInt_ofInt_of_le hLow hHigh]

/-- The globals `g_ori_std_input`, `g_ori_std_output` and `g_ori_std_err` are
indexed by the descriptor they stand for. -/
structure Process (F ι : Type) where
  table : Table F
  gOriStd : Std → UInt32
  outputs : List (ι × Option F)

namespace Process
variable {F ι : Type}

/-- One call of `save_ori_io`. -/
def save (s : Std) (p : Process F ι) : Process F ι :=
  { p with
    table := (p.table.dup s.fd).2
    gOriStd := Function.update p.gOriStd s (asUnsigned (p.table.dup s.fd).1) }

/-- One call of `restore_ori_io`. -/
def restore (s : Std) (p : Process F ι) : Process F ι :=
  { p with table := (p.table.dup2 (asInt (p.gOriStd s)) s.fd).2 }

/-- One call of `redirect_io`. -/
def redirect (fdConn : UInt32) (s : Std) (p : Process F ι) : Process F ι :=
  { p with table := (p.table.dup2 (asInt fdConn) s.fd).2 }

/-- The command of a session writes to a standard descriptor. -/
def output (i : ι) (s : Std) (p : Process F ι) : Process F ι :=
  { p with outputs := p.outputs ++ [(i, p.table.entry s.fd)] }

def saveOriIo (p : Process F ι) : Process F ι := ((p.save .input).save .output).save .err

def restoreOriIo (p : Process F ι) : Process F ι :=
  ((p.restore .input).restore .output).restore .err

def redirectIo (fdConn : UInt32) (p : Process F ι) : Process F ι :=
  ((p.redirect fdConn .input).redirect fdConn .output).redirect fdConn .err

/-- What a command that opens and closes nothing does to the process: it writes
to standard descriptors in some order. -/
def proccessCmd (i : ι) (writes : List Std) (p : Process F ι) : Process F ι :=
  writes.foldl (fun p s => p.output i s) p

/-- What `shell_thread_func` does for one command. -/
def commandPhase (fdConn : UInt32) (i : ι) (p : Process F ι) (writes : List Std) : Process F ι :=
  ((p.saveOriIo.redirectIo fdConn).proccessCmd i writes).restoreOriIo

/-- The commands of one session, one after another. -/
def commandPhases (fdConn : UInt32) (i : ι) (p : Process F ι) (commands : List (List Std)) :
    Process F ι :=
  commands.foldl (commandPhase fdConn i) p

section Calls
variable {p : Process F ι} {fdConn : UInt32} {f : F}

theorem proccessCmd_keeps (i : ι) (writes : List Std) (p : Process F ι) :
    (p.proccessCmd i writes).table = p.table ∧ (p.proccessCmd i writes).gOriStd = p.gOriStd := by
  induction writes generalizing p with
  | nil => exact ⟨rfl, rfl⟩
  | cons s writes ih => exact ih (p.output i s)

/-- A `dup` that fails leaves `-1` in the global. -/
theorem save_fails {s : Std} (h : p.table.Full ∨ p.table.entry s.fd = none) :
    p.save s = { p with gOriStd := Function.update p.gOriStd s (asUnsigned (-1)) } := by
  have hDup : p.table.dup s.fd = (-1, p.table) := Table.dup_fails h
  rw [save, hDup]

theorem restore_fails {s : Std} (h : asInt (p.gOriStd s) = -1) : p.restore s = p := by
  have hDup : p.table.dup2 (asInt (p.gOriStd s)) s.fd = (-1, p.table) := by
    apply Table.dup2_fails
    rw [h]
    rfl
  rw [restore, hDup]

theorem redirect_fails (h : p.table.file (asInt fdConn) = none) (s : Std) :
    p.redirect fdConn s = p := by
  rw [redirect, Table.dup2_fails h]

theorem redirect_sets (h : p.table.file (asInt fdConn) = some f) {s : Std}
    (hLimit : s.fd < p.table.limit) : p.table.Sets s.fd f (p.redirect fdConn s).table :=
  Table.dup2_sets h hLimit

theorem redirect_std (h : p.table.file (asInt fdConn) = some f) {s : Std}
    (hLimit : s.fd < p.table.limit) : (p.redirect fdConn s).table.entry s.fd = some f := by
  rw [(redirect_sets h hLimit).entry, if_pos rfl]

theorem redirect_other (h : p.table.file (asInt fdConn) = some f) {s : Std} {n : Nat}
    (hOther : n ≠ s.fd) : (p.redirect fdConn s).table.entry n = p.table.entry n := by
  by_cases hLimit : s.fd < p.table.limit
  · rw [(redirect_sets h hLimit).entry, if_neg hOther]
  · rw [redirect, Table.dup2_outside (Nat.le_of_not_lt hLimit)]

theorem redirect_keeps (h : p.table.file (asInt fdConn) = some f) (s : Std) {n : Nat}
    (hSame : p.table.entry n = some f) : (p.redirect fdConn s).table.entry n = some f := by
  by_cases hStd : n = s.fd
  · subst hStd
    exact redirect_std h (Table.lt_limit (hSame ▸ Option.some_ne_none f))
  · rw [redirect_other h hStd, hSame]

/-- The connection stays open under its own number. -/
theorem redirect_file (h : p.table.file (asInt fdConn) = some f) (s : Std) :
    (p.redirect fdConn s).table.file (asInt fdConn) = some f := by
  cases hConn : asInt fdConn with
  | ofNat n =>
      rw [hConn] at h
      exact redirect_keeps (hConn.symm ▸ h) s h
  | negSucc n =>
      rw [hConn] at h
      cases h

theorem save_grows (s : Std) (p : Process F ι) : p.table.Grows (p.save s).table :=
  Table.grows_dup ..

theorem restore_grows (s : Std) (p : Process F ι) : p.table.Grows (p.restore s).table :=
  Table.grows_dup2 ..

theorem redirect_grows (fdConn : UInt32) (s : Std) (p : Process F ι) :
    p.table.Grows (p.redirect fdConn s).table :=
  Table.grows_dup2 ..

theorem saveOriIo_grows (p : Process F ι) : p.table.Grows p.saveOriIo.table :=
  ((save_grows ..).trans (save_grows ..)).trans (save_grows ..)

theorem restoreOriIo_grows (p : Process F ι) : p.table.Grows p.restoreOriIo.table :=
  ((restore_grows ..).trans (restore_grows ..)).trans (restore_grows ..)

theorem redirectIo_grows (fdConn : UInt32) (p : Process F ι) :
    p.table.Grows (p.redirectIo fdConn).table :=
  ((redirect_grows ..).trans (redirect_grows ..)).trans (redirect_grows ..)

/-- No call of a round frees a number. -/
theorem commandPhase_grows (fdConn : UInt32) (i : ι) (p : Process F ι) (writes : List Std) :
    p.table.Grows (p.commandPhase fdConn i writes).table := by
  have hBefore := (saveOriIo_grows p).trans (redirectIo_grows fdConn p.saveOriIo)
  have hAfter := restoreOriIo_grows ((p.saveOriIo.redirectIo fdConn).proccessCmd i writes)
  rw [(proccessCmd_keeps i writes _).1] at hAfter
  exact hBefore.trans hAfter

theorem commandPhases_grows (fdConn : UInt32) (i : ι) (p : Process F ι)
    (commands : List (List Std)) : p.table.Grows (p.commandPhases fdConn i commands).table := by
  induction commands generalizing p with
  | nil => exact .refl _
  | cons writes commands ih => exact (commandPhase_grows fdConn i p writes).trans (ih _)

end Calls

end Process

end TelnetDebug

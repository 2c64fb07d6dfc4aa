import TelnetDebug.Library.Buffer
import TelnetDebug.Library.Guarded
import Mathlib.Data.UInt

/-! The state of one telnet session and the faults of the code that works on
it. Every array keeps its declared size, and an access outside of it stops the
session with the array and the index at fault. Two logs are kept beside the
state of the source: the bytes written to the connection, and the command
lines handed to `proccess_cmd`. -/
namespace TelnetDebug

open CBuffer

def maxCmdHistoryNum : Nat := 500
def maxCmdLen : Nat := 256

/-- The bytes of a string constant of the source. -/
def ascii (s : String) : List UInt8 := s.toList.map fun c => UInt8.ofNat c.toNat

def debugShell : List UInt8 := ascii "[debug_shell]#"

/-- Whether plain `char` is signed is a choice of the compiler. -/
inductive CharSign where
  | signed
  | unsigned
deriving DecidableEq

/-- The value of a plain `char` in an integer expression. -/
def CharSign.value : CharSign → UInt8 → Int
  | .signed, c => if c.toNat < 128 then c.toNat else c.toNat - 256
  | .unsigned, c => c.toNat

theorem CharSign.value_of_lt (sign : CharSign) {c : UInt8} (h : c.toNat < 128) :
    sign.value c = c.toNat := by
  cases sign <;> simp [value, h]

theorem CharSign.value_zero (sign : CharSign) : sign.value 0 = 0 :=
  sign.value_of_lt (c := 0) (by decide)

/-- The arrays an out-of-range access is reported for: the two line buffers,
the recalled command, the array of history entries, the text of one entry, and
the local buffer in which a recalled line is redrawn. -/
inductive Object where
  | cmdLine
  | cmdBuf
  | gCmd
  | queueCmd
  | historyCmd
  | redraw
deriving DecidableEq

inductive Fault where
  | read (object : Object) (index : Nat)
  | write (object : Object) (index : Nat)
deriving DecidableEq

def Fault.object : Fault → Object
  | read object _ => object
  | write object _ => object

/-- Code that may access an array out of its bounds. -/
abbrev Eff := Except Fault

def reading {α : Type} (object : Object) (x : Except Nat α) : Eff α := x.mapError (.read object)

def writing {α : Type} (object : Object) (x : Except Nat α) : Eff α := x.mapError (.write object)

@[simp] theorem reading_ok {α : Type} (object : Object) (a : α) :
    reading object (.ok a) = .ok a := rfl

@[simp] theorem reading_error {α : Type} (object : Object) (i : Nat) :
    reading object (.error i : Except Nat α) = .error (.read object i) := rfl

@[simp] theorem writing_ok {α : Type} (object : Object) (a : α) :
    writing object (.ok a) = .ok a := rfl

@[simp] theorem writing_error {α : Type} (object : Object) (i : Nat) :
    writing object (.error i : Except Nat α) = .error (.write object i) := rfl

abbrev Line := Buffer UInt8 maxCmdLen

/-- One entry of the history. -/
structure InCmd where
  cmd : Line
  size : UInt32

structure CmdQueue where
  allCmdNum : UInt32
  queueCmd : Buffer InCmd maxCmdHistoryNum

/-- The manager of a session, without its descriptor and process id. -/
structure TelnetMgr where
  historyCmd : CmdQueue
  hasInputCmdNum : UInt32
  cmdIndex : UInt32
  moveLeftNum : UInt32
  gCmd : Line

structure Session where
  mgr : TelnetMgr
  cmdBuf : Line
  sent : List UInt8
  executed : List (List UInt8)
  closed : Bool

namespace Session

/-- `write_certain_bytes` on the connection. -/
def send (s : Session) (bytes : List UInt8) : Session := { s with sent := s.sent ++ bytes }

@[simp] theorem send_mgr (s : Session) (bytes : List UInt8) : (s.send bytes).mgr = s.mgr := rfl
@[simp] theorem send_cmdBuf (s : Session) (bytes : List UInt8) :
    (s.send bytes).cmdBuf = s.cmdBuf := rfl

def setCursor (s : Session) (moveLeftNum : UInt32) : Session :=
  { s with mgr := { s.mgr with moveLeftNum } }

@[simp] theorem setCursor_cmdBuf (s : Session) (num : UInt32) :
    (s.setCursor num).cmdBuf = s.cmdBuf := rfl
@[simp] theorem setCursor_historyCmd (s : Session) (num : UInt32) :
    (s.setCursor num).mgr.historyCmd = s.mgr.historyCmd := rfl

def setGCmd (s : Session) (gCmd : Line) : Session := { s with mgr := { s.mgr with gCmd } }

/-- The manager as `process_thread` clears it, and the line buffer as
`shell_thread_func` clears it after the welcome and the first prompt. -/
def init : Session where
  mgr :=
    { historyCmd := { allCmdNum := 0, queueCmd := .const _ ⟨.const _ 0, 0⟩ }
      hasInputCmdNum := 0
      cmdIndex := 0
      moveLeftNum := 0
      gCmd := .const _ 0 }
  cmdBuf := .const _ 0
  sent := ascii "\r\nWelcome to telnet debug terminal\r\n" ++ ascii "\r\n" ++ debugShell
  executed := []
  closed := false

end Session

inductive Errno where
  | eintr
  | other
deriving DecidableEq

/-- What one call of `read` delivers; the kernel never stores more bytes than
were asked for. -/
inductive ReadResult where
  | data (bytes : List UInt8) (fits : bytes.length ≤ maxCmdLen)
  | failed (errno : Errno)

namespace ReadResult

/-- The result of `read` after its conversion to `unsigned int`. -/
def ret : ReadResult → UInt32
  | data bytes _ => UInt32.ofNat bytes.length
  | failed _ => -1

def errno : ReadResult → Option Errno
  | data _ _ => none
  | failed errno => some errno

/-- The cleared input buffer after the call. -/
def cmdLine : ReadResult → Line
  | data bytes fits => .fill bytes fits
  | failed _ => .const _ 0

end ReadResult

end TelnetDebug

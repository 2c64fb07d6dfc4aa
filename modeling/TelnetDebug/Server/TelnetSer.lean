import TelnetDebug.Session.Sent
import TelnetDebug.Redirect.Exhaustion
import TelnetDebug.Redirect.Interleaving

/-! The server. `telnet_ser` waits for connections and starts a thread for each
of them; all threads share the descriptor table and the globals of the process.
The steps of the threads come in any order. One step is a connection accepted,
the welcome of a session, one round of the loop of a session up to its command,
one call of `dup` or `dup2` around a command, or one output of the command. -/
namespace TelnetDebug

open Descriptors

inductive OpenFile (F : Type) where
  | inherited (file : F)
  | listener
  | connection (i : Nat)

/-- What a session thread does next. -/
inductive Activity where
  | starting
  | reading
  | command (phase : Phase)
  | ended
deriving DecidableEq

/-- A session thread. The results of its calls of `read` are kept in a log. -/
structure Thread where
  fdConn : UInt32
  activity : Activity
  session : Session
  reads : List ReadResult

/-- Beside the process and the threads a log is kept of what the threads write
with `write_certain_bytes`: who wrote, the file the descriptor referred to, and
the bytes. -/
structure Server (F : Type) where
  process : Process (OpenFile F) Nat
  threads : List Thread
  written : List (Nat × Option (OpenFile F) × List UInt8)

inductive ServerEvent where
  | idle
  | accept (arrived memory : Bool)
  | start (i : Nat)
  | read (i : Nat) (r : ReadResult)
  | call (i : Nat)
  | output (i : Nat) (s : Std)

/-- A thread cannot take the step, memory was exhausted, or a session has left
one of its arrays. -/
inductive ServerFault where
  | disabled
  | aborted
  | session (i : Nat) (f : Fault)
deriving DecidableEq

def cmdDont : UInt8 := 254
def cmdDo : UInt8 := 253
def cmdWill : UInt8 := 251

def optEcho : UInt8 := 1
def optSga : UInt8 := 3
def optNaws : UInt8 := 31
def optLflow : UInt8 := 33

namespace Server
variable {F : Type}

/-- `write_certain_bytes` of a session. -/
def write (st : Server F) (i : Nat) (fdConn : UInt32) (bytes : List UInt8) : Server F :=
  { st with written := st.written ++ [(i, st.process.table.file (asInt fdConn), bytes)] }

def sendIac (st : Server F) (i : Nat) (fdConn : UInt32) (cmd opt : UInt8) : Server F :=
  st.write i fdConn [255, cmd, opt]

def setThread (st : Server F) (i : Nat) (t : Thread) : Server F :=
  { st with threads := st.threads.set i t }

/-- The negotiation is written before the thread is started. -/
def makeNewSession (st : Server F) (fdConn : UInt32) : Server F :=
  let i := st.threads.length
  let st := st.sendIac i fdConn cmdDont optEcho
  let st := st.sendIac i fdConn cmdDo optNaws
  let st := st.sendIac i fdConn cmdDo optLflow
  let st := st.sendIac i fdConn cmdWill optEcho
  let st := st.sendIac i fdConn cmdWill optSga
  { st with threads := st.threads ++ [⟨fdConn, .starting, .init, []⟩] }

/-- `fd` may be -1: the result of `accept` is logged and used all the same. -/
def processThread (st : Server F) (fd : Int) (memory : Bool) : Except ServerFault (Server F) :=
  if memory then .ok (st.makeNewSession (asUnsigned fd)) else .error .aborted

/-- The call of `accept`, for the next session. -/
def accept (st : Server F) (arrived : Bool) : Int × Server F :=
  if arrived then
    let (client, table) := st.process.table.openFile (.connection st.threads.length)
    (client, { st with process := { st.process with table } })
  else (-1, st)

/-- The start of `shell_thread_func`: the welcome and the first prompt. -/
def startShell (st : Server F) (i : Nat) (t : Thread) : Server F :=
  (st.write i t.fdConn Session.init.sent).setThread i { t with activity := .reading }

/-- A number that refers to no file cannot be read from. -/
def readResult (st : Server F) (t : Thread) (r : ReadResult) : ReadResult :=
  if (st.process.table.file (asInt t.fdConn)).isSome then r else .failed .other

/-- One round of the loop. A command line is executed by the steps that follow,
and the prompt behind it is written after them. -/
def readShell (sign : CharSign) (st : Server F) (i : Nat) (t : Thread) (r : ReadResult) :
    Except ServerFault (Server F) :=
  let r := st.readResult t r
  match t.session.step sign r with
  | .error f => .error (.session i f)
  | .ok s =>
      let bytes := s.sent.drop t.session.sent.length
      let t' : Thread := { t with session := s, reads := t.reads ++ [r] }
      if s.closed then
        let st := st.write i t.fdConn bytes
        let process := { st.process with table := st.process.table.close (asInt t.fdConn) }
        .ok ({ st with process }.setThread i { t' with activity := .ended })
      else if s.executed ≠ t.session.executed then
        .ok ((st.write i t.fdConn (bytes.take (bytes.length - promptText.length))).setThread i
          { t' with activity := .command (.save .input) })
      else .ok ((st.write i t.fdConn bytes).setThread i t')

/-- The next call of the phase; the last one is followed by the prompt. -/
def callShell (st : Server F) (i : Nat) (t : Thread) (phase : Phase) : Server F :=
  let st := { st with process := phase.call t.fdConn st.process }
  if phase = .restore .err then
    (st.write i t.fdConn promptText).setThread i { t with activity := .reading }
  else st.setThread i { t with activity := .command phase.next }

/-- The step of a thread that exists. -/
def resume (st : Server F) (i : Nat) (step : Thread → Except ServerFault (Server F)) :
    Except ServerFault (Server F) :=
  match st.threads[i]? with
  | some t => step t
  | none => .error .disabled

def step (sign : CharSign) (st : Server F) : ServerEvent → Except ServerFault (Server F)
  | .idle => .ok st
  | .accept arrived memory =>
      let (client, st) := st.accept arrived
      st.processThread client memory
  | .start i => st.resume i fun t =>
      if t.activity = .starting then .ok (st.startShell i t) else .error .disabled
  | .read i r => st.resume i fun t =>
      if t.activity = .reading then st.readShell sign i t r else .error .disabled
  | .call i => st.resume i fun t =>
      match t.activity with
      | .command phase => .ok (st.callShell i t phase)
      | _ => .error .disabled
  | .output i s => st.resume i fun t =>
      if t.activity = .command .command then .ok { st with process := st.process.output i s }
      else .error .disabled

end Server

/-- The set-up of `telnet_ser`. `none` is the return of -1; the number of the
socket stays open then. -/
def telnetSer {F : Type} (process : Process (OpenFile F) Nat) (socket bind : Bool) :
    Option (Server F) :=
  if socket then
    let (server, table) := process.table.openFile .listener
    if server < 0 then none
    else if bind then some ⟨{ process with table }, [], []⟩
    else none
  else none

end TelnetDebug

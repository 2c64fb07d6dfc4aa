import TelnetDebug.Session.Iac
import TelnetDebug.Session.Handlers

/-! The loop of `shell_thread_func`: one read, the command filter, the chain of
tests on the first bytes of the line read, and the code behind each test. -/
namespace TelnetDebug

open CBuffer Guarded

def readReliable (r : ReadResult) : Option UInt32 :=
  if r.ret < 0 ∧ r.errno = some .eintr then none else some r.ret

/-- The tests that look at the line read only, in the order of the source. -/
inductive Key where
  | clearIac
  | ctrlC
  | ctrlL
  | up
  | down
  | right
  | left
  | backspace
  | help
  | tab
  | other
deriving DecidableEq

/-- An escape sequence is recognised by its first three bytes. -/
def isEscape (line : Line) (final : UInt8) : Bool :=
  line.peek 0 = 0x1b ∧ line.peek 1 = 0x5b ∧ line.peek 2 = final

def keyOf (sign : CharSign) (line : Line) : Key :=
  if sign.value (line.peek 0) = -1 ∨ sign.value (line.peek 0) = -3 then .clearIac
  else if line.streq [3] then .ctrlC
  else if line.peek 0 = 12 then .ctrlL
  else if isEscape line 0x41 then .up
  else if isEscape line 0x42 then .down
  else if isEscape line 0x43 then .right
  else if isEscape line 0x44 then .left
  else if line.peek 0 = 0x08 ∨ line.peek 0 = 0x7f then .backspace
  else if line.peek 0 = 0x3f then .help
  else if line.peek 0 = 0x09 then .tab
  else .other

namespace Session

/-- `sprintf` of the prompt into the line buffer, its echo, and the clearing of
the buffer. -/
def prompt (s : Session) : Eff Session := do
  let buf ← writing .cmdBuf
    ((Buffer.const maxCmdLen (0 : UInt8)).store (ascii "\r\n" ++ debugShell))
  let s := s.send (text buf.cells)
  return { s with cmdBuf := .const _ 0 }

def onCtrlC (s : Session) : Eff Session := (s.send (ascii "^C")).prompt

def onCtrlL (s : Session) : Eff Session :=
  (s.send (ascii "\x1b[2J" ++ ascii "\x1b[0;0H" ++ ascii "\x1b[2K")).prompt

/-- `strcpy` of `g_cmd` into the cleared line buffer, after either history key. -/
def reload (s : Session) : Eff Session := do
  let line ← reading .gCmd s.mgr.gCmd.str
  let buf ← writing .cmdBuf ((Buffer.const maxCmdLen (0 : UInt8)).store line)
  return { s with cmdBuf := buf }

def onUp (s : Session) : Eff Session := do (← keyboardMoveUp s).reload

def onDown (s : Session) : Eff Session := do (← keyboardMoveDown s).reload

def onLeft (s : Session) : Eff Session := do
  let len ← reading .cmdBuf s.cmdBuf.strlen
  return keyboardMoveLeft s (UInt32.ofNat len)

def onBackspace (s : Session) : Eff Session := do
  let len ← reading .cmdBuf s.cmdBuf.strlen
  if len = s.mgr.moveLeftNum.toNat then return s
  else
    let s ← keyboardBacksapce (s.send (ascii "\x08 \x08")) (UInt32.ofNat len)
    let num := s.mgr.moveLeftNum
    if num ≠ 0 then return s.send (List.replicate num.toNat moveLeft).flatten
    else return s.send moveLeft

def onHelp (s : Session) : Session :=
  (telnetTerminalHelp s).send (clearRightChar ++ debugShell)

def onTab (s : Session) : Session :=
  s.send (ascii "help\r\n" ++ clearRightChar ++ debugShell)

/-- The cursor is not at the end of a line that is not empty. -/
def midLine (s : Session) : Eff Bool :=
  if s.mgr.moveLeftNum > 0 then do
    let len ← reading .cmdBuf s.cmdBuf.strlen
    return decide (len > 0)
  else return false

/-- Behind the label `CMD_OVER`. The command works on the line buffer, which is
cleared after it, and on nothing else of the session. -/
def cmdOver (s : Session) : Eff Session :=
  if s.cmdBuf.peek 0 ≠ 13 then do
    let s ← updateHistoryCmd s s.cmdBuf
    if s.cmdBuf.streq (ascii "quit") ∨ s.cmdBuf.streq (ascii "exit") then
      return { s with closed := true }
    else
      let line ← reading .cmdBuf s.cmdBuf.str
      { s with executed := s.executed ++ [line] }.prompt
  else return s

def onEnter (s : Session) : Eff Session := do
  let s := s.setCursor 0
  let line ← reading .cmdBuf s.cmdBuf.str
  if line.length > 0 then
    let gCmd ← writing .gCmd ((Buffer.const maxCmdLen (0 : UInt8)).store line)
    ((s.setGCmd gCmd).send (ascii "\r\n")).cmdOver
  else return s.send (ascii "\r\n" ++ debugShell)

/-- Insertion of a byte that the printable test refused. -/
def insertRaw (s : Session) (c : UInt8) : Eff Session := do
  let len ← reading .cmdBuf s.cmdBuf.strlen
  let s ← insertChar s (UInt32.ofNat len) c
  return s.send (ascii "\x1b[" ++ ascii (toString s.mgr.moveLeftNum.toInt32.toInt) ++ ascii "D")

/-- One round of the append loop. -/
def appendChar (buf : Line) (c : UInt8) : Eff Line := do
  let jj ← reading .cmdBuf buf.strlen
  let buf ← writing .cmdBuf (buf.set jj c)
  writing .cmdBuf (buf.set (jj + 1) 0)

/-- Echo the line read and append all of it. -/
def append (s : Session) (line : Line) : Eff Session := do
  let bytes ← reading .cmdLine line.str
  let buf ← bytes.foldlM appendChar s.cmdBuf
  return { s.send bytes with cmdBuf := buf }

/-- The tests behind the keys, which look at the session as well. -/
def onOther (sign : CharSign) (s : Session) (line : Line) : Eff Session := do
  let c := line.peek 0
  let mid ← s.midLine
  if mid ∧ 32 ≤ sign.value c ∧ sign.value c ≤ 127 then
    let len ← reading .cmdBuf s.cmdBuf.strlen
    insertChar s (UInt32.ofNat len) c
  else if c = 13 then s.onEnter
  else if mid then s.insertRaw c
  else s.append line

def onKey (sign : CharSign) (s : Session) (line : Line) : Key → Eff Session
  | .clearIac => return s
  | .ctrlC => s.onCtrlC
  | .ctrlL => s.onCtrlL
  | .up => s.onUp
  | .down => s.onDown
  | .right => return keyboardMoveRight s
  | .left => s.onLeft
  | .backspace => s.onBackspace
  | .help => return s.onHelp
  | .tab => return s.onTab
  | .other => s.onOther sign line

def dispatch (sign : CharSign) (s : Session) (line : Line) : Eff Session :=
  s.onKey sign line (keyOf sign line)

/-- The line after `telnetd_remove_iac(cmd_line, strlen(cmd_line))`. -/
def filtered (sign : CharSign) (line : Line) : Line :=
  ⟨(telnetdRemoveIac sign line.cells (text line.cells).length).1, by simp [line.size]⟩

/-- One round of the loop. After `EINTR` the same call is to be made again. -/
def step (sign : CharSign) (s : Session) (r : ReadResult) : Eff Session :=
  if s.closed then return s
  else
    match readReliable r with
    | none => return s
    | some ret =>
        if ret < 0 then return s
        else do
          let _ ← reading .cmdLine r.cmdLine.strlen
          s.dispatch sign (filtered sign r.cmdLine)

end Session

/-- The loop of a session over the results of its calls of `read`. -/
def shellThreadFunc (sign : CharSign) (s : Session) (reads : List ReadResult) : Eff Session :=
  run (Session.step sign) s reads

end TelnetDebug

import TelnetDebug.Session.State

/-! The functions `shell_thread_func` calls on one key: the history and the
editing of the line. Lengths are passed as `unsigned int`, and offsets are
computed in that type. -/
namespace TelnetDebug

open CBuffer

def moveRight : List UInt8 := ascii "\x1b[C"
def moveLeft : List UInt8 := ascii "\x1b[D"
def clearRightChar : List UInt8 := ascii "\x1b[K"
def clearLeftChar : List UInt8 := ascii "\x1b[1K"

/-- `sprintf` of the command into the next free entry, and the three counters.
A full history is left as it is. -/
def updateHistoryCmd (s : Session) (cmd : Line) : Eff Session :=
  if s.mgr.hasInputCmdNum ≥ UInt32.ofNat maxCmdHistoryNum then return s
  else do
    let queue := s.mgr.historyCmd.queueCmd
    let index := s.mgr.hasInputCmdNum.toNat
    let entry ← writing .queueCmd (queue.get index)
    let line ← reading .cmdBuf cmd.str
    let stored ← writing .historyCmd (entry.cmd.store line)
    let queue ← writing .queueCmd (queue.set index ⟨stored, UInt32.ofNat line.length⟩)
    let next := s.mgr.hasInputCmdNum + 1
    let num := if next > UInt32.ofNat maxCmdHistoryNum then UInt32.ofNat maxCmdHistoryNum else next
    return { s with mgr := { s.mgr with
      historyCmd := { allCmdNum := num, queueCmd := queue }
      hasInputCmdNum := num
      cmdIndex := num } }

/-- The text of a history entry, as `%s` reads it. -/
def entryText (history : CmdQueue) (index : UInt32) : Eff (List UInt8) := do
  let entry ← reading .queueCmd (history.queueCmd.get index.toNat)
  reading .historyCmd entry.cmd.str

def TelnetMgr.recalled (m : TelnetMgr) (index : UInt32) (gCmd : Line) : TelnetMgr :=
  { m with cmdIndex := index, gCmd }

/-- The common part of the two history keys: redraw the line with the entry at
`index` through a local buffer, move to that entry and copy its text to the
cleared `g_cmd`. -/
def recallCmd (s : Session) (index : UInt32) : Eff Session := do
  let shown ← entryText s.mgr.historyCmd index
  let buf ← writing .redraw
    ((Buffer.const maxCmdLen (0 : UInt8)).store (ascii "\x0d" ++ debugShell ++ shown))
  let line ← entryText s.mgr.historyCmd index
  let gCmd ← writing .gCmd ((Buffer.const maxCmdLen (0 : UInt8)).store line)
  return { s with mgr := s.mgr.recalled index gCmd }.send (clearLeftChar ++ text buf.cells)

def keyboardMoveUp (s : Session) : Eff Session :=
  let s := s.setCursor 0
  if s.mgr.cmdIndex = 0 then return s else recallCmd s (s.mgr.cmdIndex - 1)

def keyboardMoveDown (s : Session) : Eff Session :=
  let s := s.setCursor 0
  if s.mgr.cmdIndex = s.mgr.hasInputCmdNum then return s else recallCmd s (s.mgr.cmdIndex + 1)

def keyboardBacksapce (s : Session) (len : UInt32) : Eff Session :=
  let num := s.mgr.moveLeftNum
  if len ≤ 0 ∨ num = len then return s
  else if num > 0 then do
    let s := s.send clearRightChar
    let buf ← writing .cmdBuf (s.cmdBuf.move (len - 1 - num).toNat (len - num).toNat num.toNat)
    let buf ← writing .cmdBuf (buf.set (len - 1).toNat 0)
    let s := { s with cmdBuf := buf }
    return s.send ((buf.cells.drop (len - 1 - num).toNat).take num.toNat)
  else do
    let buf ← writing .cmdBuf (s.cmdBuf.set (len - 1).toNat 0)
    let s := { s with cmdBuf := buf }
    return s.send (ascii " ")

/-- The character that follows the inserted one overwrites the terminator, and
no new terminator is written. -/
def insertChar (s : Session) (len : UInt32) (c : UInt8) : Eff Session :=
  let num := s.mgr.moveLeftNum
  if len ≤ 0 ∨ len > UInt32.ofNat (maxCmdLen - 1) then return s
  else if num > 0 ∧ num ≤ len then do
    let buf ← writing .cmdBuf (s.cmdBuf.move (len - num + 1).toNat (len - num).toNat num.toNat)
    let buf ← writing .cmdBuf (buf.set (len - num).toNat c)
    let s := { s with cmdBuf := buf }
    let s := s.send (ascii "\x1b[1@")
    return s.send ((buf.cells.drop (len - num).toNat).take 1)
  else return s

def keyboardMoveLeft (s : Session) (len : UInt32) : Session :=
  if s.mgr.moveLeftNum ≥ len then s
  else (s.send moveLeft).setCursor (s.mgr.moveLeftNum + 1)

def keyboardMoveRight (s : Session) : Session :=
  if s.mgr.moveLeftNum > 0 then (s.send moveRight).setCursor (s.mgr.moveLeftNum - 1) else s

def telnetTerminalHelp (s : Session) : Session :=
  s.send (ascii "\r\nshow\t\t--show command" ++ ascii "\r\nnode\t\t--enter node mode" ++
    ascii "\r\ncomp\t\t--enter comp mode" ++ ascii "\r\nproc\t\t--enter proc mode" ++
    ascii "\r\nCtrl + L\t--clear the terminal" ++ ascii "\r\ndebug\t\t--enter debug mode" ++
    ascii "\r\n")

end TelnetDebug

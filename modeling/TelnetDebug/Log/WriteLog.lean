import TelnetDebug.Library.Numeral
import TelnetDebug.Library.Stdio
import TelnetDebug.Log.Registry
import TelnetDebug.Session.State

/-! Writing a record to the log of a module. A file is written from its start
again when it has reached the size that the module asked for. -/
namespace TelnetDebug.Log

open Linked Guarded Stdio

def telLogLineSize : Nat := 1024

inductive LogSecurityLevel where
  | notset
  | debug
  | info
  | warning
  | error
  | critical
deriving DecidableEq

/-- The enumerator with this number. -/
def LogSecurityLevel.ofNumber (level : UInt32) : Option LogSecurityLevel :=
  if level = 1 then some .notset
  else if level = 2 then some .debug
  else if level = 3 then some .info
  else if level = 4 then some .warning
  else if level = 5 then some .error
  else if level = 6 then some .critical
  else none

/-- The fields of `TEL_LOG_CUR_SIZE`. -/
inductive Counter where
  | notset
  | debug
  | info
  | warning
  | error
  | critical
  | single
deriving DecidableEq

def CurSize.get (sizes : CurSize) : Counter → UInt32
  | .notset => sizes.curNotsetLogSize
  | .debug => sizes.curDebugLogSize
  | .info => sizes.curInfoLogSize
  | .warning => sizes.curWarningLogSize
  | .error => sizes.curErrorLogSize
  | .critical => sizes.curCriticalLogSize
  | .single => sizes.curLogSize

def CurSize.set (sizes : CurSize) (size : UInt32) : Counter → CurSize
  | .notset => { sizes with curNotsetLogSize := size }
  | .debug => { sizes with curDebugLogSize := size }
  | .info => { sizes with curInfoLogSize := size }
  | .warning => { sizes with curWarningLogSize := size }
  | .error => { sizes with curErrorLogSize := size }
  | .critical => { sizes with curCriticalLogSize := size }
  | .single => { sizes with curLogSize := size }

def RegInfo.setCounter (info : RegInfo) (counter : Counter) (size : UInt32) : RegInfo :=
  { info with curSize := info.curSize.set size counter }

/-- A broken-down time. The year is the one that is printed. -/
structure Tm where
  year : Nat
  mon : Nat
  mday : Nat
  hour : Nat
  min : Nat
  sec : Nat

def LogSecurityLevel.text : LogSecurityLevel → List UInt8
  | .notset => ascii "   NOTSET      "
  | .debug => ascii "   DEBUG       "
  | .info => ascii "   INFO        "
  | .warning => ascii "   WARNING     "
  | .error => ascii "   ERROR       "
  | .critical => ascii "   CRITICAL    "

/-- The text in front of a message. -/
def timeText (tm : Tm) (level : LogSecurityLevel) : List UInt8 :=
  Strtol.numeral 10 tm.year ++ ascii "/" ++ Strtol.zeroFilled 2 10 tm.mon ++ ascii "/" ++
    Strtol.zeroFilled 2 10 tm.mday ++ ascii "-" ++ Strtol.zeroFilled 2 10 tm.hour ++ ascii ":" ++
    Strtol.zeroFilled 2 10 tm.min ++ ascii ":" ++ Strtol.zeroFilled 2 10 tm.sec ++ ascii " " ++
    level.text

/-- What the name of a file ends in when each level has its own. -/
def LogSecurityLevel.suffix : LogSecurityLevel → List UInt8
  | .notset => []
  | .debug => ascii "_debug.log"
  | .info => ascii "_info.log"
  | .warning => ascii "_warning.log"
  | .error => ascii "_error.log"
  | .critical => ascii "_critical.log"

def logPath (info : RegInfo) (level : LogSecurityLevel) : Path :=
  ascii "/home/zhong" ++ ascii "/log/" ++ info.fileName ++
    (if info.mulitifile = 1 then level.suffix else []) ++
    (if info.mulitifile = 0 then ascii ".log" else [])

/-- The line buffer after `vsnprintf`, with its terminator. -/
def lineBuffer (message : List UInt8) : List UInt8 :=
  message.take (telLogLineSize - 1) ++
    List.replicate (telLogLineSize - (message.take (telLogLineSize - 1)).length) 0

/-- A file that does not exist is created first. -/
def telLogFileOpen (os : Os) (file : Path) : Call Stdio.Fault (Option Nat) := do
  let found ← access os file
  if found < 0 then
    match ← fopenAppend os file with
    | none => return none
    | some fp => do
        fclose (some fp)
        fopenUpdate os file
  else fopenUpdate os file

/-- Go to where the next record belongs, which is the start of the file when the
counter has reached the size of the file. -/
def seekCounter (info : RegInfo) (counter : Counter) (fp : Option Nat) :
    Call Stdio.Fault (Int × RegInfo) := do
  fseek fp (info.curSize.get counter).toNat
  if info.maxLogSize ≤ info.curSize.get counter then do
    rewind fp
    return (0, info.setCounter counter 0)
  else return (0, info)

/-- The choice of the counter in `tel_log_size_set`. -/
def seekRecord (info : RegInfo) (level : UInt32) (fp : Option Nat) :
    Call Stdio.Fault (Int × RegInfo) :=
  if info.mulitifile = 0 then seekCounter info .single fp
  else
    match LogSecurityLevel.ofNumber level with
    | some .notset => seekCounter info .notset fp
    | some .debug => seekCounter info .debug fp
    | some .info => seekCounter info .info fp
    | some .warning => seekCounter info .warning fp
    | some .error => seekCounter info .error fp
    | some .critical => seekCounter info .critical fp
    -- `RET_ERROR` is zero.
    | none => return (0, info)

/-- The stream is closed after a failure of `stat`, and left to the caller after
that of `access`. -/
def telLogSizeSet (os : Os) (info : RegInfo) (level : UInt32) (file : Path) (fp : Option Nat) :
    Call Stdio.Fault (Int × RegInfo) := do
  let found ← access os file
  if found < 0 ∨ fp.isNone then return (-1, info)
  else do
    let known ← stat os file
    if known < 0 then do
      fclose fp
      return (-1, info)
    else seekRecord info level fp

/-- Write the two parts of a record and advance the counter by both. -/
def writeParts (info : RegInfo) (counter : Counter) (timeBuf message : List UInt8)
    (fp : Option Nat) : Call Stdio.Fault RegInfo := do
  let info := info.setCounter counter (info.curSize.get counter + .ofNat timeBuf.length)
  fwrite timeBuf timeBuf.length fp
  let info := info.setCounter counter (info.curSize.get counter + .ofNat message.length)
  fwrite (lineBuffer message) message.length fp
  return info

/-- The choice of the counter in `tel_write_log`. -/
def writeRecord (info : RegInfo) (level : UInt32) (timeBuf message : List UInt8)
    (fp : Option Nat) : Call Stdio.Fault RegInfo :=
  if info.mulitifile = 0 then writeParts info .single timeBuf message fp
  else
    match LogSecurityLevel.ofNumber level with
    | some .notset => writeParts info .notset timeBuf message fp
    | some .debug => writeParts info .debug timeBuf message fp
    | some .info => writeParts info .info timeBuf message fp
    | some .warning => writeParts info .warning timeBuf message fp
    | some .error => writeParts info .error timeBuf message fp
    | some .critical => writeParts info .critical timeBuf message fp
    | none => return info

/-- `tel_write_log` from the formatting of the path on. After a failure of
`localtime` the stream stays open. -/
def writeLogNode (os : Os) (info : RegInfo) (level : UInt32) (tm : Tm) (message : List UInt8) :
    Call Stdio.Fault RegInfo :=
  match LogSecurityLevel.ofNumber level with
  | none => return info
  | some known => do
      match ← telLogFileOpen os (logPath info known) with
      | none => return info
      | some fp => do
          let (rc, info) ← telLogSizeSet os info level (logPath info known) (some fp)
          if rc ≠ 0 then do
            fclose (some fp)
            return info
          else do
            let timed ← succeeds os
            if timed then do
              let info ← writeRecord info level (timeText tm known) message (some fp)
              fclose (some fp)
              return info
            else return info

inductive LogFault where
  | list (fault : Linked.Fault)
  | stream (fault : Stdio.Fault)
deriving DecidableEq

/-- The registry and the files. -/
structure LogState (α : Type) where
  registry : Registry α
  world : World

/-- A call of `tel_write_log`, with the time at which it is made and the text
that its format and arguments make. -/
structure LogCall where
  moduleId : UInt32
  level : UInt32
  tm : Tm
  message : List UInt8

variable {α : Type} [DecidableEq α]

def telWriteLog (os : Os) (s : LogState α) (call : LogCall) : Except LogFault (LogState α) := do
  match ← (telLogSearchNode s.registry call.moduleId).mapError .list with
  | none => return s
  | some node =>
      if call.level < (s.registry.regInfo node).level then return s
      else do
        let (info, world) ← (writeLogNode os (s.registry.regInfo node) call.level call.tm
          call.message s.world).mapError .stream
        return ⟨{ s.registry with regInfo := Function.update s.registry.regInfo node info }, world⟩

end TelnetDebug.Log

import TelnetDebug.Library.Strtol
import TelnetDebug.Symbols.Resolution
import TelnetDebug.Session.State

/-! The parser of a command line. It works on the line in place: it cuts the
name off at the opening parenthesis, the arguments at the closing one, and every
string at its closing quote. Positions stand for the pointers into the line. -/
namespace TelnetDebug

open CBuffer

def maxArgNum : Nat := 8

/-- One slot of the argument array: a number, or a pointer into the line. -/
inductive Arg where
  | long (value : Int)
  | pointer (position : Nat)
deriving DecidableEq

abbrev Args := Buffer Arg maxArgNum

/-- An access that the parser has no right to make. -/
inductive Crash where
  | null
  | line (index : Nat)
  | args (index : Nat)
deriving DecidableEq

def onLine {α : Type} (x : Except Nat α) : Except Crash α := x.mapError .line

def onArgs {α : Type} (x : Except Nat α) : Except Crash α := x.mapError .args

@[simp] theorem onLine_ok {α : Type} (a : α) : onLine (.ok a) = .ok a := rfl

@[simp] theorem onArgs_ok {α : Type} (a : α) : onArgs (.ok a) = .ok a := rfl

/-- What the parser of the arguments leaves behind. -/
structure Parsed (n : Nat) where
  ret : UInt32
  line : Buffer UInt8 n
  args : Args

/-- What the parser of a call leaves behind, with the messages it prints. -/
structure ParsedCall (n : Nat) extends Parsed n where
  funAddr : Option UInt64
  printed : List (List UInt8)

def isDigit (c : UInt8) : Bool := 48 ≤ c.toNat ∧ c.toNat ≤ 57

section Parser
variable {n : Nat}

/-- What one argument leaves behind: whether it is one, and the position from
which the next comma is searched. -/
structure ParsedArg (n : Nat) where
  accepted : Bool
  line : Buffer UInt8 n
  args : Args
  curArg : Nat

/-- One argument, which begins at `curArg`. -/
def parseArg (line : Buffer UInt8 n) (args : Args) (argNr curArg : Nat) :
    Except Crash (ParsedArg n) := do
  let c ← onLine (line.get curArg)
  if ¬ isDigit c ∧ c ≠ 0x2d ∧ c ≠ 0x22 then return ⟨false, line, args, curArg⟩
  else if isDigit c ∨ c = 0x2d then
    let number ← onLine (line.strAt curArg)
    let args ← onArgs (args.set argNr (.long (Strtol.strtol number)))
    return ⟨true, line, args, curArg⟩
  else if c = 0x22 then
    let args ← onArgs (args.set argNr (.pointer (curArg + 1)))
    match ← onLine (line.strchr (curArg + 1) 0x22) with
    | none => return ⟨false, line, args, curArg + 1⟩
    | some quote =>
        let line ← onLine (line.set quote 0)
        return ⟨true, line, args, quote + 1⟩
  else return ⟨false, line, args, curArg⟩

/-- The rounds of the loop, of which there are at most as many as the argument
array has room for. A round starts behind the parenthesis or a comma. -/
def argsLoop (paraStrEnd : Nat) :
    (room : Nat) → Buffer UInt8 n → Args → (argNr curArg : Nat) → Except Crash (Parsed n)
  | 0, line, args, _, _ => return ⟨0, line, args⟩
  | room + 1, line, args, argNr, curArg =>
      if curArg = paraStrEnd then return ⟨-1, line, args⟩
      else do
        let arg ← parseArg line args argNr curArg
        if arg.accepted then
          match ← onLine (arg.line.strchr arg.curArg 0x2c) with
          | some tmp => argsLoop paraStrEnd room arg.line arg.args (argNr + 1) (tmp + 1)
          | none => return ⟨0, arg.line, arg.args⟩
        else return ⟨-1, arg.line, arg.args⟩

def parseFunctionArgs (line : Buffer UInt8 n) (args : Args) (paraStrBegin paraStrEnd : Nat) :
    Except Crash (Parsed n) :=
  if paraStrBegin = paraStrEnd then return ⟨0, line, args⟩
  else argsLoop paraStrEnd maxArgNum line args 0 paraStrBegin

/-- The line must hold a parenthesis: the result of the first search is used
as it is. -/
def parseFuncCall (files : List UInt8 → List SymbolTable) (nodes : List SoNode)
    (line : Buffer UInt8 n) (args : Args) : Except Crash (ParsedCall n) := do
  match ← onLine (line.strchr 0 0x28) with
  | none => .error .null
  | some paren =>
      let line ← onLine (line.set paren 0)
      let paraStrBegin := paren + 1
      let funcName ← onLine line.str
      let addr := ldFindAddress files funcName nodes
      if addr = noAddress then
        return ⟨⟨-1, line, args⟩, none, [ascii "unknown symbol " ++ funcName]⟩
      else
        match ← onLine (line.strrchr paraStrBegin 0x29) with
        | none => return ⟨⟨-1, line, args⟩, some addr, [ascii "invalid function call syntax"]⟩
        | some paraStrEnd =>
            let line ← onLine (line.set paraStrEnd 0)
            let parsed ← parseFunctionArgs line args paraStrBegin paraStrEnd
            return ⟨parsed, some addr,
              if parsed.ret ≠ 0 then [ascii "invalid function call syntax"] else []⟩

end Parser

end TelnetDebug

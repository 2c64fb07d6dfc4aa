import TelnetDebug.Command.CallSyntax

/-! The values that a called function is given. All slots of the argument array
are passed on, and the array is a local that starts with what the stack held. -/
namespace TelnetDebug

open CBuffer Guarded

section Model
variable {n : Nat}

/-- A call with its eight values. The pointer is set behind a resolved name. -/
structure FunctionCall where
  pfunc : Option UInt64
  values : List Arg

def doCallFunc (pfunc : Option UInt64) (args : Args) : FunctionCall := ⟨pfunc, args.cells⟩

/-- What a command leaves behind: the line, the messages, and the call if it
made one. -/
structure Execution (n : Nat) where
  line : Buffer UInt8 n
  printed : List (List UInt8)
  call : Option FunctionCall

/-- The argument array is taken as it comes. -/
def execFunction (files : List UInt8 → List SymbolTable) (nodes : List SoNode)
    (callFuncStr : Buffer UInt8 n) (args : Args) : Except Crash (Execution n) := do
  let parsed ← parseFuncCall files nodes callFuncStr args
  return ⟨parsed.line, parsed.printed,
    if parsed.ret = 0 then some (doCallFunc parsed.funAddr parsed.args) else none⟩

/-- The argument array on a stack that held these words. -/
def stackArgs (words : Buffer Int64 maxArgNum) : Args :=
  ⟨words.cells.map fun word => .long word.toInt, by rw [List.length_map, words.size]⟩

/-- A value as it is compared: a string by its characters. -/
inductive Passed where
  | long (value : Int)
  | string (s : List UInt8)
deriving DecidableEq

def Arg.passed (line : Buffer UInt8 n) : Arg → Passed
  | long value => .long value
  | pointer position => .string (text (line.cells.drop position))

/-- The values passed, when a function is called. -/
def passedValues (files : List UInt8 → List SymbolTable) (nodes : List SoNode)
    (callFuncStr : Buffer UInt8 n) (words : Buffer Int64 maxArgNum) : Option (List Passed) :=
  match execFunction files nodes callFuncStr (stackArgs words) with
  | .ok execution => execution.call.map fun call => call.values.map (Arg.passed execution.line)
  | .error _ => none

/-- A function is called for the command. -/
def AcceptedCall (files : List UInt8 → List SymbolTable) (nodes : List SoNode)
    (callFuncStr : Buffer UInt8 n) : Prop :=
  ∃ words, passedValues files nodes callFuncStr words ≠ none

/-- The values passed do not depend on what the stack held. -/
def SameValues (files : List UInt8 → List SymbolTable) (nodes : List SoNode)
    (callFuncStr : Buffer UInt8 n) : Prop :=
  ∀ words words', passedValues files nodes callFuncStr words =
    passedValues files nodes callFuncStr words'

/-- The text between the first opening and the last closing parenthesis has an
argument for every slot. -/
def FillsSlots (command : List UInt8) : Prop :=
  ∀ name inner after, command = name ++ 0x28 :: (inner ++ 0x29 :: after) → 0x28 ∉ name →
    0x29 ∉ after → maxArgNum ≤ (argPieces inner).length

end Model

section Calls
variable {n : Nat} {line : Buffer UInt8 n} {files : List UInt8 → List SymbolTable}
variable {nodes : List SoNode} {words : Buffer Int64 maxArgNum}

theorem execFunction_eq {args args' : Args} {ret : UInt32} {line' : Buffer UInt8 n}
    {funAddr : Option UInt64} {printed : List (List UInt8)}
    (h : parseFuncCall files nodes line args = .ok ⟨⟨ret, line', args'⟩, funAddr, printed⟩) :
    execFunction files nodes line args =
      .ok ⟨line', printed, if ret = 0 then some (doCallFunc funAddr args') else none⟩ := by
  unfold execFunction
  rw [h, ok_bind]
  rfl

theorem passedValues_error {e : Crash}
    (h : parseFuncCall files nodes line (stackArgs words) = .error e) :
    passedValues files nodes line words = none := by
  unfold passedValues execFunction
  rw [h]
  rfl

/-- An accepted command has a resolved name in front of a parenthesis. -/
theorem accepted_named (h : passedValues files nodes line words ≠ none) :
    ∃ name behind rest, line.cells = name ++ 0x28 :: behind ++ 0 :: rest ∧ 0x28 ∉ name ∧
      0 ∉ name ++ 0x28 :: behind ∧ ldFindAddress files name nodes ≠ noAddress := by
  have hTerm : Terminated line.cells := by
    by_contra hTerm
    refine h (passedValues_error (e := .line n) ?_)
    unfold parseFuncCall Buffer.strchr Buffer.strAt
    rw [List.drop_zero, if_neg hTerm]
    rfl
  obtain ⟨rest, hSplit⟩ := hTerm.split
  have hNul := zero_notMem_text line.cells
  have hParen : 0x28 ∈ text line.cells := by
    by_contra hParen
    have hCells : line.cells = [] ++ text line.cells ++ 0 :: rest := hSplit
    have hNone : line.strchr 0 0x28 = .ok none := Buffer.strchr_none hCells hNul hParen
    refine h (passedValues_error (e := .null) ?_)
    unfold parseFuncCall
    rw [hNone, onLine_ok, ok_bind]
  obtain ⟨name, behind, hText, hFirst⟩ := List.eq_append_cons_of_mem hParen
  rw [hText] at hSplit hNul
  refine ⟨name, behind, rest, hSplit, hFirst, hNul, fun hUnknown => h ?_⟩
  have hWhole : line.cells = name ++ 0x28 :: (behind ++ 0 :: rest) := by simp [hSplit]
  have hName : 0 ∉ name := fun h => hNul (List.mem_append_left _ h)
  obtain ⟨hOpen, line', hCut, hFunc, -⟩ :=
    name_cut hName hFirst hWhole (terminated_append_zero _ _)
  have hParse : parseFuncCall files nodes line (stackArgs words) =
      .ok ⟨⟨-1, line', stackArgs words⟩, none, [ascii "unknown symbol " ++ name]⟩ := by
    unfold parseFuncCall
    rw [hOpen, onLine_ok, ok_bind]
    dsimp only
    rw [hCut, onLine_ok, ok_bind, hFunc, onLine_ok, ok_bind, if_pos hUnknown]
    rfl
  unfold passedValues
  rw [execFunction_eq hParse, if_neg minusOne_ne_zero]
  rfl

/-- The values of an accepted command are those of its arguments, and behind
them what the stack held. -/
theorem passedValues_eq (hAccepted : AcceptedCall files nodes line) :
    ∃ (line' : Buffer UInt8 n) (values : List Arg),
      (maxArgNum ≤ values.length ↔ FillsSlots (text line.cells)) ∧ ∀ words,
      passedValues files nodes line words =
        some ((values ++ (stackArgs words).cells.drop values.length).map (Arg.passed line')) := by
  obtain ⟨words, hCalled⟩ := hAccepted
  obtain ⟨name, behind, rest, hLine, hParen, hNul, hResolved⟩ := accepted_named hCalled
  obtain ⟨ret, line', printed, values, -, hCount, hParse⟩ :=
    parseFuncCall_fills files nodes hParen hResolved hNul hLine
  have hValues (words : Buffer Int64 maxArgNum) : passedValues files nodes line words =
      if ret = 0 then
        some ((values ++ (stackArgs words).cells.drop values.length).map (Arg.passed line'))
      else none := by
    obtain ⟨args', hCall, hFills⟩ := hParse (stackArgs words)
    unfold passedValues
    rw [execFunction_eq hCall]
    dsimp only
    by_cases hRet : ret = 0
    · have hCells := hFills hRet
      rw [FillsFrom, List.take_zero, List.nil_append, Nat.zero_add] at hCells
      rw [if_pos hRet, if_pos hRet, ← hCells]
      rfl
    · rw [if_neg hRet, if_neg hRet]
      rfl
  have hRet : ret = 0 := by
    by_contra hRet
    rw [hValues, if_neg hRet] at hCalled
    exact hCalled rfl
  obtain ⟨inner, after, rfl, hAfter, hLength⟩ := hCount hRet
  have hFills : FillsSlots (text line.cells) ↔ maxArgNum ≤ (argPieces inner).length := by
    rw [hLine, text_append_zero hNul]
    constructor
    · exact fun h => h name inner after rfl hParen hAfter
    · intro h name' inner' after' hText hParen' hAfter'
      obtain ⟨rfl, hBehind⟩ :=
        Strtok.cut_unique hParen (.inr ⟨_, rfl⟩) hParen' (.inr ⟨_, rfl⟩) hText
      obtain ⟨rfl, -⟩ := last_paren_unique hAfter hAfter' (List.cons.inj hBehind).2
      exact h
  refine ⟨line', values, ?_, fun words => (hValues words).trans (if_pos hRet)⟩
  rw [hFills, hLength]
  omega

/-- The values passed depend on the command alone exactly when it has an argument
for every slot. -/
theorem same_values_iff (hAccepted : AcceptedCall files nodes line) :
    SameValues files nodes line ↔ FillsSlots (text line.cells) := by
  obtain ⟨line', values, hFills, hValues⟩ := passedValues_eq hAccepted
  rw [← hFills]
  constructor
  · intro h
    by_contra hShort
    have hSame := h (.const _ 0) (.const _ 1)
    rw [hValues, hValues, Option.some.injEq, List.map_append, List.map_append] at hSame
    have hStack (word : Int64) :
        ((stackArgs (.const _ word)).cells.drop values.length).map (Arg.passed line') =
          List.replicate (maxArgNum - values.length) (.long word.toInt) := by
      simp [stackArgs, Arg.passed]
    have hLast := List.append_cancel_left hSame
    rw [hStack, hStack, List.replicate_right_inj (by omega)] at hLast
    exact absurd hLast (by decide)
  · intro hLong words words'
    have hNone (words : Buffer Int64 maxArgNum) :
        (stackArgs words).cells.drop values.length = [] :=
      List.drop_eq_nil_of_le (by rw [(stackArgs words).size]; exact hLong)
    rw [hValues, hValues, hNone, hNone]

end Calls

/-- `f(1,2,3,4,5,6,7,8)` -/
def fullLine : Buffer UInt8 19 :=
  ⟨[0x66] ++ 0x28 :: ascii "1,2,3,4,5,6,7,8)" ++ [0], by decide⟩

theorem same_values_full :
    SameValues (fun _ => [oneSymbol 1 0x10]) [⟨[1], 0x4000, 0x5000⟩] fullLine ↔
      FillsSlots (text fullLine.cells) :=
  same_values_iff ⟨.const _ 0, by decide +kernel⟩

/-- `f(1)` -/
def shortLine : Buffer UInt8 5 := ⟨[0x66] ++ 0x28 :: ascii "1)" ++ [0], by decide⟩

/-- With one argument the other seven values are what the stack held. -/
theorem stack_words_passed :
    AcceptedCall (fun _ => [oneSymbol 1 0x10]) [⟨[1], 0x4000, 0x5000⟩] shortLine ∧
      ¬ SameValues (fun _ => [oneSymbol 1 0x10]) [⟨[1], 0x4000, 0x5000⟩] shortLine := by
  refine ⟨⟨.const _ 0, by decide +kernel⟩, fun h => ?_⟩
  exact absurd (h (.const _ 0) (.const _ 1)) (by decide +kernel)

end TelnetDebug

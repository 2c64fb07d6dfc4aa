import TelnetDebug.Command.Process
import TelnetDebug.Session.HistoryStore

/-! A call on its way from the keys to the function. However the line was edited
or recalled, what is called at Enter is what stands in the line then. -/
namespace TelnetDebug

open CBuffer Guarded LineZipper CommandHistory

section Written
variable {n : Nat} {files : List UInt8 → List SymbolTable} {nodes : List SoNode}
  {line : Buffer UInt8 n} {name inner rest : List UInt8}

/-- Behind a name that is resolved, the scanner gets the text between the
parentheses, with a NUL on each of them. -/
theorem parseFuncCall_inner (hName : 0 ∉ name) (hParen : 0x28 ∉ name)
    (hResolved : ldFindAddress files name nodes ≠ noAddress) (hInner : 0 ∉ inner)
    (hLine : line.cells = name ++ 0x28 :: (inner ++ 0x29 :: 0 :: rest)) :
    ∃ line' : Buffer UInt8 n, line'.cells = (name ++ [0]) ++ inner ++ 0 :: 0 :: rest ∧
      ∀ args parsed,
        parseFunctionArgs line' args (name ++ [0]).length ((name ++ [0]).length + inner.length) =
            .ok parsed →
          parseFuncCall files nodes line args = .ok ⟨parsed,
            some (ldFindAddress files name nodes),
            if parsed.ret ≠ 0 then [invalidSyntax] else []⟩ := by
  have hMore : Terminated (inner ++ 0x29 :: 0 :: rest) := by simp [Terminated]
  obtain ⟨hOpen, line₁, hCut, hFunc, hLine₁⟩ := name_cut hName hParen hLine hMore
  have hBegin : (name ++ [0]).length = name.length + 1 := by simp
  have hInside : line₁.cells = (name ++ [0]) ++ inner ++ 0x29 :: 0 :: rest := by simp [hLine₁]
  have hClose := Buffer.strrchr_last hInside hInner (by decide)
  obtain ⟨line₂, hEnd, hLine₂⟩ := Buffer.set_spec hInside 0
  rw [List.length_append] at hEnd
  refine ⟨line₂, hLine₂, fun args parsed hParsed => ?_⟩
  rw [hBegin] at hClose hEnd hParsed
  unfold parseFuncCall
  simp only [hOpen, onLine_ok, ok_bind, hCut, hFunc, if_neg hResolved, hClose, hEnd, hParsed]
  rfl

/-- The arguments that are written are stored. -/
theorem parseFunctionArgs_written {texts : List ArgText} (hCount : texts.length ≤ maxArgNum)
    {before : List UInt8} (hLine : line.cells = before ++ argsText texts ++ 0 :: rest)
    (args : Args) :
    ∃ line' args', parseFunctionArgs line args before.length
        (before.length + (argsText texts).length) = .ok ⟨0, line', args'⟩ ∧
      AllStored line' args' 0 texts := by
  unfold parseFunctionArgs
  rcases List.eq_nil_or_concat' texts with rfl | ⟨_, _, hSome⟩
  · exact ⟨line, args, if_pos rfl, fun i a h => nomatch h⟩
  · have hSome : texts ≠ [] := by simp [hSome]
    have hLength := argsText_pos hSome
    obtain ⟨line', args', hLoop, -, hStored, -⟩ := argsLoop_spec args 0 hSome hCount
      (by rw [Nat.zero_add]; exact hCount) hLine rfl
    refine ⟨line', args', ?_, hStored⟩
    rw [if_neg (by omega)]
    exact hLoop

/-- A call that is written in the line is made, with the arguments that are
written. -/
theorem proccessCmd_written (functions : Functions n) (hTerm : Terminated line.cells)
    {texts : List ArgText} (hText : text line.cells = callText name texts) (hParen : 0x28 ∉ name)
    (hResolved : ldFindAddress files name nodes ≠ noAddress) (hCount : texts.length ≤ maxArgNum)
    (args : Args) :
    ∃ execution call, proccessCmd files nodes functions line args = .ok execution ∧
      execution.call = some call ∧ call.pfunc = some (ldFindAddress files name nodes) ∧
      execution.printed = [resultText (functions execution.line call)] ∧
      ∀ (i : Nat) (a : ArgText), texts[i]? = some a →
        ∃ slot, call.values[i]? = some slot ∧ a.Stored execution.line slot := by
  have hCut : NamedCall line name (argsText texts ++ [0x29]) := ⟨hText, hTerm, hParen⟩
  obtain ⟨hNul, rest, hCells⟩ := hCut.cells
  have hLine : line.cells = name ++ 0x28 :: (argsText texts ++ 0x29 :: 0 :: rest) := by
    simp [hCells]
  obtain ⟨line₁, hLine₁, hParse⟩ := parseFuncCall_inner
    (fun hZero => hNul (List.mem_append_left _ hZero)) hParen hResolved (argsText_noNul texts) hLine
  obtain ⟨line', args', hArgs, hStored⟩ := parseFunctionArgs_written hCount hLine₁ args
  have hProcess := proccessCmd_call functions hCut (hParse args _ hArgs)
  refine ⟨_, _, hProcess, rfl, rfl, rfl, fun i a ha => ?_⟩
  obtain ⟨slot, hCell, hHolds⟩ := hStored i a ha
  rw [Nat.zero_add] at hCell
  exact ⟨slot, hCell, hHolds⟩

end Written

/-- What stands in the line after any keys within the history is executed by
Enter, from a line buffer that holds it. -/
theorem enter_executes (sign : CharSign) {keys : List HistoryKey}
    (hKeys : WithinHistory (keys ++ [.enter])) (hSome : (console keys).line.text ≠ []) :
    ∃ s t, shellThreadFunc sign .init (keys.map historyRead) = .ok s ∧
      s.step sign (historyRead .enter) = .ok t ∧
      t.executed = s.executed ++ [(console keys).line.text] ∧
      Terminated s.cmdBuf.cells ∧ text s.cmdBuf.cells = (console keys).line.text := by
  obtain ⟨s, hRun, hKeeps, hTyped⟩ := console_keeps sign hKeys (List.prefix_append keys [.enter])
  obtain ⟨t, hStep, hNext⟩ := press_keeps sign hKeeps hTyped (hKeys.allowed List.prefix_rfl)
  have hEntered : (press (console keys) .enter).entered =
      (console keys).entered ++ [(console keys).line.text] := by
    show (console keys).enter.entered = _
    rw [Console.enter_line hSome]
  refine ⟨s, t, hRun, hStep, ?_, hKeeps.line.terminated, hKeeps.line.text⟩
  rw [hNext.executed, hKeeps.executed, hEntered]

/-- For every sequence of keys within the history: if a call of a name that is
resolved stands in the line, with at most eight arguments, then Enter has it
executed. The function is called at the address of the name and with these
arguments, and the message of the command is what it returns. -/
theorem typed_call_answered (sign : CharSign) (files : List UInt8 → List SymbolTable)
    (nodes : List SoNode) (functions : Functions maxCmdLen) {keys : List HistoryKey}
    (hKeys : WithinHistory (keys ++ [.enter])) {name : List UInt8} {texts : List ArgText}
    (hLine : (console keys).line.text = callText name texts) (hParen : 0x28 ∉ name)
    (hResolved : ldFindAddress files name nodes ≠ noAddress) (hCount : texts.length ≤ maxArgNum) :
    ∃ s t, shellThreadFunc sign .init (keys.map historyRead) = .ok s ∧
      s.step sign (historyRead .enter) = .ok t ∧
      t.executed = s.executed ++ [callText name texts] ∧
      ∀ args, ∃ execution call, proccessCmd files nodes functions s.cmdBuf args = .ok execution ∧
        execution.call = some call ∧ call.pfunc = some (ldFindAddress files name nodes) ∧
        execution.printed = [resultText (functions execution.line call)] ∧
        ∀ (i : Nat) (a : ArgText), texts[i]? = some a →
          ∃ slot, call.values[i]? = some slot ∧ a.Stored execution.line slot := by
  have hSome : (console keys).line.text ≠ [] := by simp [hLine, callText]
  obtain ⟨s, t, hRun, hStep, hExecuted, hTerm, hText⟩ := enter_executes sign hKeys hSome
  rw [hLine] at hExecuted hText
  exact ⟨s, t, hRun, hStep, hExecuted, fun args =>
    proccessCmd_written functions hTerm hText hParen hResolved hCount args⟩

/-- The argument is typed last, between the parentheses. -/
def callKeys : List HistoryKey :=
  [.edit (.char 0x66 (by decide)), .edit (.char 0x28 (by decide)), .edit (.char 0x29 (by decide)),
    .edit .left, .edit (.char 0x37 (by decide))]

def callArgs : List ArgText :=
  [.int ⟨false, .decimal, [0x37], by decide +kernel, ⟨0x37, [], rfl, by decide⟩, by decide⟩]

theorem callKeys_within : WithinHistory (callKeys ++ [.enter]) :=
  .of_inits (by decide) (by decide) (by decide) (by decide)

theorem typed_call_answered_edited :
    ∃ s, shellThreadFunc .signed .init (callKeys.map historyRead) = .ok s ∧
      ∃ execution call, proccessCmd (fun _ => [oneSymbol 1 0x10]) [⟨[1], 0x4000, 0x5000⟩]
          (fun _ _ => 49) s.cmdBuf (.const _ (.long 0)) = .ok execution ∧
        execution.call = some call ∧ call.pfunc = some 0x4010 ∧
        execution.printed = [resultText 49] := by
  have hAddr : ldFindAddress (fun _ => [oneSymbol 1 0x10]) [0x66] [⟨[1], 0x4000, 0x5000⟩] =
      0x4010 := by decide +kernel
  have hResolved : ldFindAddress (fun _ => [oneSymbol 1 0x10]) [0x66] [⟨[1], 0x4000, 0x5000⟩] ≠
      noAddress := by decide +kernel
  obtain ⟨s, t, hRun, -, -, hProcess⟩ := typed_call_answered .signed (fun _ => [oneSymbol 1 0x10])
    [⟨[1], 0x4000, 0x5000⟩] (fun _ _ => 49) callKeys_within
    (by decide : (console callKeys).line.text = callText [0x66] callArgs) (by decide) hResolved
    (by decide)
  obtain ⟨execution, call, hExecution, hCall, hFunc, hPrinted, -⟩ := hProcess (.const _ (.long 0))
  exact ⟨s, hRun, execution, call, hExecution, hCall, hFunc.trans (congrArg some hAddr), hPrinted⟩

end TelnetDebug

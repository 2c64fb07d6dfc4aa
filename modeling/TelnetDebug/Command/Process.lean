import TelnetDebug.Library.Printf
import TelnetDebug.Command.PassedValues
import TelnetDebug.Redirect.Console

/-! A command from the line to its answer. What a called function does is given;
of its result the two numbers are printed. The log is left out, and so is what
its calls send to the connection when the log file cannot be opened. -/
namespace TelnetDebug

open CBuffer Guarded Strtol

/-- The text that `do_call_func` prints for a result. -/
def resultText (ret : Int64) : List UInt8 :=
  ascii "value:0x" ++ leftJustified 16 (numeral 16 ret.toUInt64.toNat) ++ ascii " (" ++
    decimal ret.toInt ++ ascii ")\n"

/-- The text for a variable. The two values are printed from the address, and the
memory behind it is not read. -/
def variableText (addr : UInt64) : List UInt8 :=
  ascii "address:" ++ pointer addr.toNat ++ ascii " value:0x" ++
    leftJustified 16 (numeral 16 addr.toNat) ++ ascii " (" ++ decimal addr.toInt64.toInt ++
      ascii ")\n"

def unknownSymbol (funcName : List UInt8) : List UInt8 := ascii "unknown symbol " ++ funcName

def unknownVariable (varName : List UInt8) : List UInt8 := ascii "unkown symbol:" ++ varName

def invalidSyntax : List UInt8 := ascii "invalid function call syntax"

section Model
variable {n : Nat} (files : List UInt8 → List SymbolTable) (nodes : List SoNode)

def showVarInfo (varName : List UInt8) : UInt32 × List (List UInt8) :=
  let addr := ldFindAddress files varName nodes
  if addr = noAddress then (-1, [unknownVariable varName]) else (1, [variableText addr])

/-- What the functions of the process return. They get the line as well, since
the strings that are passed are parts of it. -/
abbrev Functions (n : Nat) := Buffer UInt8 n → FunctionCall → Int64

def proccessCmd (functions : Functions n) (cmdLine : Buffer UInt8 n) (args : Args) :
    Except Crash (Execution n) := do
  match ← onLine (cmdLine.strchr 0 0x28) with
  | none =>
      let varName ← onLine cmdLine.str
      return ⟨cmdLine, (showVarInfo files nodes varName).2, none⟩
  | some _ =>
      let execution ← execFunction files nodes cmdLine args
      let results := execution.call.map fun call => resultText (functions execution.line call)
      return { execution with printed := execution.printed ++ results.toList }

end Model

section Parsing
variable {n : Nat} {files : List UInt8 → List SymbolTable} {nodes : List SoNode}
  {line : Buffer UInt8 n} {args : Args}

/-- Behind a name that is resolved only the syntax is complained of. -/
theorem parseFuncCall_printed {call : ParsedCall n}
    (hCall : parseFuncCall files nodes line args = .ok call) (hFound : call.funAddr ≠ none) :
    call.printed = if call.ret = 0 then [] else [invalidSyntax] := by
  unfold parseFuncCall at hCall
  obtain ⟨paren, -, hCall⟩ := bind_eq_ok.mp hCall
  cases paren with
  | none => cases hCall
  | some paren =>
      obtain ⟨line₁, -, hCall⟩ := bind_eq_ok.mp hCall
      obtain ⟨funcName, -, hCall⟩ := bind_eq_ok.mp hCall
      dsimp only at hCall
      split at hCall
      · cases hCall
        exact absurd rfl hFound
      · obtain ⟨close, -, hCall⟩ := bind_eq_ok.mp hCall
        cases close with
        | none =>
            cases hCall
            rfl
        | some close =>
            obtain ⟨line₂, -, hCall⟩ := bind_eq_ok.mp hCall
            obtain ⟨parsed, -, hCall⟩ := bind_eq_ok.mp hCall
            cases hCall
            by_cases hRet : parsed.ret = 0
            · rw [if_neg (not_not.mpr hRet), if_pos hRet]
            · rw [if_pos hRet, if_neg hRet]
              rfl

/-- What the parser of a call leaves behind where it returns. -/
structure ParseOutcome (files : List UInt8 → List SymbolTable) (nodes : List SoNode)
    (name : List UInt8) (call : ParsedCall n) : Prop where
  unknown : ldFindAddress files name nodes = noAddress →
    call.ret = -1 ∧ call.printed = [unknownSymbol name]
  known : ldFindAddress files name nodes ≠ noAddress →
    call.funAddr = some (ldFindAddress files name nodes) ∧
      call.printed = if call.ret = 0 then [] else [invalidSyntax]

/-- A text with a parenthesis, cut at the first one. -/
structure NamedCall (line : Buffer UInt8 n) (name behind : List UInt8) : Prop where
  text : text line.cells = name ++ 0x28 :: behind
  terminated : Terminated line.cells
  first : 0x28 ∉ name

theorem NamedCall.cells {name behind : List UInt8} (h : NamedCall line name behind) :
    0 ∉ name ++ 0x28 :: behind ∧
      ∃ rest, line.cells = name ++ 0x28 :: behind ++ 0 :: rest := by
  obtain ⟨rest, hSplit⟩ := h.terminated.split
  have hNul := zero_notMem_text line.cells
  rw [h.text] at hSplit hNul
  exact ⟨hNul, rest, hSplit⟩

/-- The parser returns for every text with a parenthesis, and prints at most one
message. -/
theorem parseFuncCall_outcome {name behind : List UInt8} (h : NamedCall line name behind)
    (args : Args) :
    ∃ call, parseFuncCall files nodes line args = .ok call ∧
      ParseOutcome files nodes name call := by
  obtain ⟨hNul, rest, hCells⟩ := h.cells
  by_cases hUnknown : ldFindAddress files name nodes = noAddress
  · have hWhole : line.cells = name ++ 0x28 :: (behind ++ 0 :: rest) := by simp [hCells]
    obtain ⟨hOpen, line', hCut, hFunc, -⟩ := name_cut
      (fun hZero => hNul (List.mem_append_left _ hZero)) h.first hWhole
      (terminated_append_zero _ _)
    refine ⟨⟨⟨-1, line', args⟩, none, [unknownSymbol name]⟩, ?_, fun _ => ⟨rfl, rfl⟩,
      fun hKnown => absurd hUnknown hKnown⟩
    unfold parseFuncCall
    simp only [hOpen, onLine_ok, ok_bind, hCut, hFunc, if_pos hUnknown]
    rfl
  · obtain ⟨ret, line', printed, values, -, -, hParse⟩ :=
      parseFuncCall_fills files nodes h.first hUnknown hNul hCells
    obtain ⟨args', hCall, -⟩ := hParse args
    refine ⟨_, hCall, fun hNone => absurd hNone hUnknown, fun _ => ⟨rfl, ?_⟩⟩
    exact parseFuncCall_printed hCall (Option.some_ne_none _)

/-- The one message of the command itself, and the call that was made for it. -/
structure Answer (files : List UInt8 → List SymbolTable) (nodes : List SoNode)
    (functions : Functions n) (line : Buffer UInt8 n) (execution : Execution n)
    (message : List UInt8) : Prop where
  once : execution.printed = [message]
  variable_shown : 0x28 ∉ text line.cells → execution.line = line ∧ execution.call = none ∧
    message = if ldFindAddress files (text line.cells) nodes = noAddress then
      unknownVariable (text line.cells)
    else variableText (ldFindAddress files (text line.cells) nodes)
  not_called : ∀ name behind, NamedCall line name behind → execution.call = none →
    message = if ldFindAddress files name nodes = noAddress then unknownSymbol name
      else invalidSyntax
  called : ∀ name behind, NamedCall line name behind → ∀ call ∈ execution.call,
    ldFindAddress files name nodes ≠ noAddress ∧
      call.pfunc = some (ldFindAddress files name nodes) ∧
      message = resultText (functions execution.line call)

theorem namedCall_of_mem (hTerm : Terminated line.cells) (hParen : 0x28 ∈ text line.cells) :
    ∃ name behind, NamedCall line name behind := by
  obtain ⟨name, behind, hText, hFirst⟩ := List.eq_append_cons_of_mem hParen
  exact ⟨name, behind, hText, hTerm, hFirst⟩

theorem NamedCall.unique {name behind name' behind' : List UInt8} (h : NamedCall line name behind)
    (h' : NamedCall line name' behind') : name = name' :=
  (Strtok.cut_unique h.first (.inr ⟨_, rfl⟩) h'.first (.inr ⟨_, rfl⟩)
    (h.text.symm.trans h'.text)).1

theorem Answer.of_cut {functions : Functions n} {execution : Execution n}
    {name behind message : List UInt8} (h : NamedCall line name behind)
    (hOnce : execution.printed = [message])
    (hNone : execution.call = none →
      message = if ldFindAddress files name nodes = noAddress then unknownSymbol name
        else invalidSyntax)
    (hCall : ∀ call ∈ execution.call, ldFindAddress files name nodes ≠ noAddress ∧
      call.pfunc = some (ldFindAddress files name nodes) ∧
      message = resultText (functions execution.line call)) :
    Answer files nodes functions line execution message where
  once := hOnce
  variable_shown hParen := by
    rw [h.text] at hParen
    exact absurd (List.mem_append_right _ List.mem_cons_self) hParen
  not_called name' behind' h' := by
    obtain rfl := h.unique h'
    exact hNone
  called name' behind' h' := by
    obtain rfl := h.unique h'
    exact hCall

/-- A call is parsed and, where it is accepted, made. -/
theorem proccessCmd_call (functions : Functions n) {name behind : List UInt8}
    (h : NamedCall line name behind) {call : ParsedCall n}
    (hParse : parseFuncCall files nodes line args = .ok call) :
    proccessCmd files nodes functions line args = .ok ⟨call.line, call.printed ++
        (if call.ret = 0 then
          [resultText (functions call.line (doCallFunc call.funAddr call.args))] else []),
      if call.ret = 0 then some (doCallFunc call.funAddr call.args) else none⟩ := by
  obtain ⟨hNul, rest, hCells⟩ := h.cells
  have hWhole : line.cells = name ++ 0x28 :: (behind ++ 0 :: rest) := by simp [hCells]
  obtain ⟨hOpen, -⟩ := name_cut (fun hZero => hNul (List.mem_append_left _ hZero)) h.first hWhole
    (terminated_append_zero _ _)
  unfold proccessCmd
  rw [hOpen, onLine_ok, ok_bind]
  dsimp only
  rw [execFunction_eq hParse, ok_bind]
  dsimp only
  split
  · rfl
  · rfl

/-- A text without a parenthesis names a variable. -/
theorem proccessCmd_variable (functions : Functions n) (hTerm : Terminated line.cells)
    (hParen : 0x28 ∉ text line.cells) (args : Args) :
    proccessCmd files nodes functions line args =
      .ok ⟨line, (showVarInfo files nodes (text line.cells)).2, none⟩ := by
  obtain ⟨rest, hSplit⟩ := hTerm.split
  have hCells : line.cells = [] ++ text line.cells ++ 0 :: rest := hSplit
  have hNone : line.strchr 0 0x28 = .ok none :=
    Buffer.strchr_none hCells (zero_notMem_text line.cells) hParen
  unfold proccessCmd
  rw [hNone, onLine_ok, ok_bind]
  dsimp only
  rw [Buffer.str_eq hTerm, onLine_ok, ok_bind]
  rfl

/-- For every string, whatever the argument array held: the command returns and
has one message of its own. A function is called at no other address than the one that
was found for the text in front of the first parenthesis. -/
theorem command_answered (files : List UInt8 → List SymbolTable) (nodes : List SoNode)
    (functions : Functions n) {line : Buffer UInt8 n} (hTerm : Terminated line.cells)
    (args : Args) :
    ∃ execution message, proccessCmd files nodes functions line args = .ok execution ∧
      Answer files nodes functions line execution message := by
  by_cases hParen : 0x28 ∈ text line.cells
  · obtain ⟨name, behind, hCut⟩ := namedCall_of_mem hTerm hParen
    obtain ⟨call, hParse, hOutcome⟩ := parseFuncCall_outcome hCut args
    have hProcess := proccessCmd_call functions hCut hParse
    by_cases hUnknown : ldFindAddress files name nodes = noAddress
    · obtain ⟨hRet, hPrinted⟩ := hOutcome.unknown hUnknown
      have hNotCalled : call.ret ≠ 0 := hRet ▸ minusOne_ne_zero
      rw [if_neg hNotCalled, if_neg hNotCalled, hPrinted] at hProcess
      exact ⟨_, unknownSymbol name, hProcess, .of_cut hCut rfl (fun _ => (if_pos hUnknown).symm)
        fun _ hCall => nomatch hCall⟩
    · obtain ⟨hAddr, hPrinted⟩ := hOutcome.known hUnknown
      rw [hPrinted] at hProcess
      by_cases hRet : call.ret = 0
      · rw [if_pos hRet, if_pos hRet, if_pos hRet] at hProcess
        refine ⟨_, _, hProcess, .of_cut hCut rfl (fun hNone => nomatch hNone) ?_⟩
        rintro _ ⟨⟩
        exact ⟨hUnknown, hAddr, rfl⟩
      · rw [if_neg hRet, if_neg hRet, if_neg hRet] at hProcess
        exact ⟨_, invalidSyntax, hProcess, .of_cut hCut rfl (fun _ => (if_neg hUnknown).symm)
          fun _ hCall => nomatch hCall⟩
  · have hNoCall : ∀ name behind, ¬ NamedCall line name behind := by
      intro name behind hCut
      apply hParen
      rw [hCut.text]
      exact List.mem_append_right _ List.mem_cons_self
    have hOnce : (showVarInfo files nodes (text line.cells)).2 =
        [if ldFindAddress files (text line.cells) nodes = noAddress then
          unknownVariable (text line.cells)
        else variableText (ldFindAddress files (text line.cells) nodes)] := by
      unfold showVarInfo
      dsimp only
      split <;> rfl
    exact ⟨_, _, proccessCmd_variable functions hTerm hParen args, hOnce,
      fun _ => ⟨rfl, rfl, rfl⟩, fun name behind hCut => absurd hCut (hNoCall name behind),
      fun name behind hCut => absurd hCut (hNoCall name behind)⟩

end Parsing

/-- `f(-5,"a,)",0x1F)` is answered with what `f` returns. -/
theorem command_answered_typed :
    ∃ execution call, proccessCmd (fun _ => [oneSymbol 1 0x10]) [⟨[1], 0x4000, 0x5000⟩]
        (fun _ _ => -7) typedLine (.const _ (.long 0)) = .ok execution ∧
      execution.call = some call ∧ call.pfunc = some 0x4010 ∧
      execution.printed = [resultText (-7)] := by
  have hCalled : Sat (proccessCmd (fun _ => [oneSymbol 1 0x10]) [⟨[1], 0x4000, 0x5000⟩]
      (fun _ _ => -7) typedLine (.const _ (.long 0)))
      (fun execution => execution.call.isSome = true) (fun _ => False) := by decide +kernel
  have hCut : NamedCall typedLine [0x66] (ascii "-5,\"a,)\",0x1F)") :=
    ⟨by decide, by decide, by decide⟩
  have hAddr : ldFindAddress (fun _ => [oneSymbol 1 0x10]) [0x66] [⟨[1], 0x4000, 0x5000⟩] =
      0x4010 := by decide +kernel
  have hTerm : Terminated typedLine.cells := by decide
  obtain ⟨execution, message, hProcess, hAnswer⟩ :=
    command_answered (fun _ => [oneSymbol 1 0x10]) [⟨[1], 0x4000, 0x5000⟩] (fun _ _ => -7) hTerm
      (.const _ (.long 0))
  rw [hProcess] at hCalled
  obtain ⟨call, hCall⟩ := Option.isSome_iff_exists.mp hCalled
  obtain ⟨-, hFunc, hMessage⟩ := hAnswer.called _ _ hCut call hCall
  exact ⟨execution, call, hProcess, hCall, hFunc.trans (congrArg some hAddr),
    hMessage ▸ hAnswer.once⟩

/-- The text of a result in front of its line feed. -/
def resultLine (ret : Int64) : List UInt8 :=
  ascii "value:0x" ++ leftJustified 16 (numeral 16 ret.toUInt64.toNat) ++ ascii " (" ++
    decimal ret.toInt ++ ascii ")"

section Result
variable (ret : Int64)

theorem resultText_eq : resultText ret = resultLine ret ++ [lineFeed] := by
  have hEnd : ascii ")\n" = ascii ")" ++ [lineFeed] := by decide
  rw [resultText, resultLine, hEnd, List.append_assoc _ (ascii ")")]

theorem hex_length : (leftJustified 16 (numeral 16 ret.toUInt64.toNat)).length = 16 := by
  have hBound : ret.toUInt64.toNat < 16 ^ 16 := ret.toUInt64.toNat_lt
  exact leftJustified_length (numeral_length_le (by decide) (by decide) hBound)

theorem natAbs_lt : ret.toInt.natAbs < 10 ^ 19 := by
  have hLow := ret.le_toInt
  have hHigh := ret.toInt_lt
  omega

theorem resultLine_length_le : (resultLine ret).length ≤ 47 := by
  have hDecimal := decimal_length_le (by decide : 0 < 19) (natAbs_lt ret)
  have hLead : (ascii "value:0x").length = 8 := by decide
  have hOpen : (ascii " (").length = 2 := by decide
  have hClose : (ascii ")").length = 1 := by decide
  simp only [resultLine, List.length_append, hLead, hOpen, hClose, hex_length]
  omega

/-- No byte of the line ends the string or the line. -/
theorem mem_resultLine {c : UInt8} (h : c ∈ resultLine ret) : c ≠ 0 ∧ c ≠ lineFeed := by
  have hDigit : ∀ {base : Nat} {d : UInt8}, base ≤ 36 → digitValue d < base →
      d ≠ 0 ∧ d ≠ lineFeed := by
    intro base d hBase hd
    constructor
    · rintro rfl
      exact absurd (Nat.lt_of_lt_of_le hd hBase) (by decide)
    · rintro rfl
      exact absurd (Nat.lt_of_lt_of_le hd hBase) (by decide)
  have hConst : ∀ c ∈ ascii "value:0x" ++ ascii " (" ++ ascii ")", c ≠ 0 ∧ c ≠ lineFeed := by
    decide +kernel
  simp only [resultLine, leftJustified, List.mem_append, List.mem_replicate] at h
  simp only [List.mem_append] at hConst
  rcases h with (((h | h | ⟨-, rfl⟩) | h) | h) | h
  · exact hConst c (.inl (.inl h))
  · exact hDigit (by decide) (digit_of_mem_numeral (by decide) (by decide) _ h)
  · decide
  · exact hConst c (.inl (.inr h))
  · rcases mem_decimal h with rfl | h
    · decide
    · exact hDigit (by decide) h
  · exact hConst c (.inr h)

/-- The text as the console gets it. -/
theorem crLf_resultText :
    crLf (text (printed (resultText ret))) = resultLine ret ++ [carriageReturn, lineFeed] := by
  have hLine := resultText_eq ret
  have hLength := resultLine_length_le ret
  have hPrinted : printed (resultText ret) = resultLine ret ++ [lineFeed] := by
    rw [printed, hLine]
    apply List.take_of_length_le
    rw [List.length_append, List.length_singleton, telnetLineMaxLen]
    omega
  have hNul : (0 : UInt8) ∉ resultLine ret ++ [lineFeed] := by
    rw [List.mem_append, not_or]
    exact ⟨fun h => (mem_resultLine ret h).1 rfl, by decide⟩
  have hSame : crLf (resultLine ret) = resultLine ret := by
    have hAll : ∀ s : List UInt8, (∀ c ∈ s, c ≠ lineFeed) → crLf s = s := by
      intro s hs
      induction s with
      | nil => rfl
      | cons c s ih =>
          rw [crLf_cons_of_ne (hs c List.mem_cons_self),
            ih fun d hd => hs d (List.mem_cons_of_mem c hd)]
    exact hAll _ fun c hc => (mem_resultLine ret hc).2
  have hText : text (resultLine ret ++ [lineFeed]) = resultLine ret ++ [lineFeed] :=
    text_of_not_terminated hNul
  rw [hPrinted, hText, crLf_append, hSame]
  rfl

/-- For every result: of the bytes that are written for it, both numbers can be
read back at fixed places, provided that the system takes as many bytes as the
text has. -/
theorem result_read_back (writer : Writer) (turns : Nat)
    (hTaken : (resultText ret).length < (writer.answer 0 telnetLineMaxLen).count) :
    ∃ bytes, telPrintf writer (turns + 1) (resultText ret) = .ok bytes ∧
      strtoul 16 (bytes.drop 8) = ret.toUInt64 ∧ strtolBase 10 (bytes.drop 26) = ret.toInt := by
  have hConsole := crLf_resultText ret
  have hLength := resultLine_length_le ret
  have hFits : (crLf (text (printed (resultText ret)))).length < telnetLineMaxLen := by
    rw [hConsole, List.length_append, telnetLineMaxLen]
    simp only [List.length_cons, List.length_nil]
    omega
  obtain ⟨behind, hBytes⟩ : ∃ behind, (withPadding (crLf (text (printed (resultText ret))))).take
      (writer.answer 0 telnetLineMaxLen).count = resultLine ret ++ behind := by
    rw [hConsole, withPadding, List.append_assoc (resultLine ret)]
    rw [resultText_eq, List.length_append] at hTaken
    obtain ⟨more, hMore⟩ := Nat.exists_eq_add_of_le (Nat.le_of_lt (Nat.lt_of_le_of_lt
      (Nat.le_add_right _ _) hTaken))
    rw [hMore, List.take_length_add_append]
    exact ⟨_, rfl⟩
  refine ⟨_, telPrintf_inside hFits turns, ?_, ?_⟩
  · rw [hBytes]
    have hSplit : resultLine ret ++ behind = ascii "value:0x" ++
        (numeral 16 ret.toUInt64.toNat ++
          (List.replicate (16 - (numeral 16 ret.toUInt64.toNat).length) 0x20 ++
            0x20 :: (0x28 :: (decimal ret.toInt ++ (ascii ")" ++ behind))))) := by
      have hOpen : ascii " (" = [0x20, 0x28] := by decide
      simp only [resultLine, leftJustified, hOpen, List.append_assoc, List.cons_append,
        List.nil_append]
    rw [hSplit, List.drop_left' (by decide), strtoul_numeral (by decide) (by decide) _
      ret.toUInt64.toNat_lt (stops_justified _ (by decide) _), UInt64.ofNat_toNat]
  · rw [hBytes]
    have hClose : ascii ")" = [0x29] := by decide
    have hFront : (ascii "value:0x" ++ leftJustified 16 (numeral 16 ret.toUInt64.toNat) ++
        ascii " (").length = 26 := by
      rw [List.length_append, List.length_append, hex_length]
      decide
    have hStops : Stops (ascii ")" ++ behind) := by
      rw [hClose]
      exact stops_justified 0 (by decide) behind
    rw [resultLine, List.append_assoc _ (ascii ")"), List.append_assoc _ (decimal _),
      List.drop_left' hFront]
    exact strtolBase_decimal ret.le_toInt (Int.le_sub_one_of_lt ret.toInt_lt) hStops

end Result

theorem result_read_back_negative :
    ∃ bytes, telPrintf takesAll 1 (resultText (-7)) = .ok bytes ∧
      strtoul 16 (bytes.drop 8) = 0xfffffffffffffff9 ∧ strtolBase 10 (bytes.drop 26) = -7 := by
  have hShort : (resultText (-7)).length < telnetLineMaxLen := by
    have hLength := resultLine_length_le (-7)
    rw [resultText_eq, List.length_append, List.length_singleton, telnetLineMaxLen]
    omega
  exact result_read_back (-7) takesAll 0 hShort

end TelnetDebug

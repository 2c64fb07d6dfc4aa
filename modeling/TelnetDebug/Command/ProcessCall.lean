import TelnetDebug.Command.TypedCall
import TelnetDebug.Symbols.ProcessLookup

/-! The program from its start to an executed call. The list of the objects is
made from the text of the mappings; a name in a typed call is looked up in the
files of the objects. -/
namespace TelnetDebug

open CBuffer Posix Guarded CommandHistory Runs

section Execution
variable {n : Nat} {files : List UInt8 → List SymbolTable} {nodes : List SoNode}
  {line : Buffer UInt8 n} {name : List UInt8} {texts : List ArgText}

/-- What is made of a written call, for the address that its name has. -/
inductive CallMade (functions : Functions n) (name : List UInt8) (texts : List ArgText)
    (addr : UInt64) (execution : Execution n) : Prop where
  | unknown (hAddr : addr = noAddress) (hNone : execution.call = none)
      (hPrinted : execution.printed = [unknownSymbol name])
  | called (call : FunctionCall) (hAddr : addr ≠ noAddress) (hCall : execution.call = some call)
      (hFunc : call.pfunc = some addr)
      (hPrinted : execution.printed = [resultText (functions execution.line call)])
      (hArgs : ∀ (i : Nat) (a : ArgText), texts[i]? = some a →
        ∃ slot, call.values[i]? = some slot ∧ a.Stored execution.line slot)

/-- Behind a name that is not resolved nothing is read. -/
theorem proccessCmd_unresolved (functions : Functions n) {behind : List UInt8}
    (h : NamedCall line name behind) (hUnknown : ldFindAddress files name nodes = noAddress)
    (args : Args) :
    ∃ execution, proccessCmd files nodes functions line args = .ok execution ∧
      execution.call = none ∧ execution.printed = [unknownSymbol name] := by
  obtain ⟨call, hParse, hOutcome⟩ := parseFuncCall_outcome h args
  obtain ⟨hRet, hPrinted⟩ := hOutcome.unknown hUnknown
  have hNotCalled : call.ret ≠ 0 := hRet ▸ minusOne_ne_zero
  have hProcess := proccessCmd_call functions h hParse
  rw [if_neg hNotCalled, if_neg hNotCalled, hPrinted] at hProcess
  exact ⟨_, hProcess, rfl, rfl⟩

theorem proccessCmd_made (functions : Functions n) (hTerm : Terminated line.cells)
    (hText : text line.cells = callText name texts) (hParen : 0x28 ∉ name)
    (hCount : texts.length ≤ maxArgNum) (args : Args) :
    ∃ execution, proccessCmd files nodes functions line args = .ok execution ∧
      CallMade functions name texts (ldFindAddress files name nodes) execution := by
  by_cases hUnknown : ldFindAddress files name nodes = noAddress
  · obtain ⟨execution, hProcess, hNone, hPrinted⟩ :=
      proccessCmd_unresolved functions ⟨hText, hTerm, hParen⟩ hUnknown args
    exact ⟨execution, hProcess, .unknown hUnknown hNone hPrinted⟩
  · obtain ⟨execution, call, hProcess, hCall, hFunc, hPrinted, hArgs⟩ :=
      proccessCmd_written functions hTerm hText hParen hUnknown hCount args
    exact ⟨execution, hProcess, .called call hUnknown hCall hFunc hPrinted hArgs⟩

end Execution

/-- The mappings of a process are read, and later a session types a call by any
keys within the history. Enter has it executed: the name is looked up in the
files, and what is called is at the address for the first object whose file has
a value for the name, with the arguments that stand in the line. -/
theorem process_call_typed {self : List UInt8} (hSelf : self ≠ [])
    (gSoNameList : Option SoNameList) (m : Mappings) {systems : List UInt8 → System} {fuel : Nat}
    (hFiles : ∀ l ∈ m.lines, l.Loaded self → Image.FileGiven fuel (systems l.name))
    (sign : CharSign) (functions : Functions maxCmdLen) {keys : List HistoryKey}
    (hKeys : WithinHistory (keys ++ [.enter])) {name : List UInt8} {texts : List ArgText}
    (hLine : (console keys).line.text = callText name texts) (hParen : 0x28 ∉ name)
    (hCount : texts.length ≤ maxArgNum) :
    ∃ list s t addr, getMapsSoList self gSoNameList (some m.text) = .ok (1, some list) ∧
      shellThreadFunc sign .init (keys.map historyRead) = .ok s ∧
      s.step sign (historyRead .enter) = .ok t ∧
      t.executed = s.executed ++ [callText name texts] ∧
      (∀ os, Sat (Image.ldFindAddress systems fuel name (list.nodes.map LdMaps.node) os)
        (fun r => r.1 = addr) (fun _ => False)) ∧
      Image.FoundIn (fun path => Image.fileTables (systems path).file) name
        (runs MapsLine.name (m.lines.filter (MapsLine.Loaded self))) addr ∧
      ∀ args, ∃ execution, proccessCmd (fun path => Image.fileTables (systems path).file)
          (list.nodes.map LdMaps.node) functions s.cmdBuf args = .ok execution ∧
        CallMade functions name texts addr execution := by
  obtain ⟨list, hList, hSpans, hGiven⟩ :=
    Image.getMapsSoList_given hSelf gSoNameList m hFiles
  have hSome : (console keys).line.text ≠ [] := by simp [hLine, callText]
  obtain ⟨s, t, hRun, hStep, hExecuted, hTerm, hText⟩ := enter_executes sign hKeys hSome
  rw [hLine] at hExecuted hText
  refine ⟨list, s, t, _, hList, hRun, hStep, hExecuted, fun os => Image.ldFindAddress_files hGiven,
    Image.ldFindAddress_foundIn _ name hSpans, fun args => ?_⟩
  exact proccessCmd_made functions hTerm hText hParen hCount args

/-- The library has the function `f`, which is called with the argument 7. -/
theorem process_call_typed_library :
    ∃ list s, getMapsSoList [0x2f, 0x62] none (some Image.libraryMappings.text) =
        .ok (1, some list) ∧
      shellThreadFunc .signed .init (callKeys.map historyRead) = .ok s ∧
      ∃ execution, proccessCmd (fun path => Image.fileTables (Image.librarySystems path).file)
          (list.nodes.map LdMaps.node) (fun _ _ => 49) s.cmdBuf (.const _ (.long 0)) =
            .ok execution ∧
        CallMade (fun _ _ => 49) [0x66] callArgs 0x5000 execution := by
  obtain ⟨list, s, t, addr, hList, hRun, -, -, -, hFound, hProcess⟩ :=
    process_call_typed (List.cons_ne_nil 0x2f [0x62]) none Image.libraryMappings
      Image.library_given .signed (fun _ _ => 49) callKeys_within (by decide :
        (console callKeys).line.text = callText [0x66] callArgs) (by decide) (by decide)
  obtain rfl := Image.library_found hFound
  exact ⟨list, s, hList, hRun, hProcess (.const _ (.long 0))⟩

end TelnetDebug

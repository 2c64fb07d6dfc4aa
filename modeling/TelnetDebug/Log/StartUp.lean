import TelnetDebug.Log.FileContents
import TelnetDebug.Log.Registration

/-! The log of the program itself. `main` sets up the registry and registers one
module, with one file, before anything is logged, and it looks at the result of
neither call. -/
namespace TelnetDebug.Log

open Linked Guarded Sll Stdio RecordRing

/-- What the system answers to `tel_log_init`: whether memory is got for the
registry and for its list, and what `access` and `mkdir` return. -/
structure InitAnswers where
  base : Bool
  list : Bool
  access : Int
  mkdir : Int

/-- What `tel_log_init` returns, sets up and prints. -/
structure LogInit (α : Type) where
  rc : Int
  registry : Registry α
  printed : List UInt8

def telLogPath : List UInt8 := ascii "/home/zhong" ++ ascii "/log"

variable {α : Type}

/-- The failure is reported when the directory was made. -/
def telLogInit (answers : InitAnswers) (heap : Heap α) (regInfo : α → RegInfo) :
    Except Linked.Fault (LogInit α) :=
  if !answers.base then throw .aborted
  else if !answers.list then throw .aborted
  else
    let registry := Registry.initial heap regInfo
    if answers.access = -1 then
      if answers.mkdir = 0 then
        return ⟨retError, registry, ascii "create " ++ telLogPath ++ ascii " failed!\n"⟩
      else return ⟨retError, registry, []⟩
    else return ⟨retSuccess, registry, []⟩

def telLogModuleIdTelnet : UInt32 := 1

/-- The module as `telnet_reg_log` describes it. -/
def telnetRegInfo : RegInfo where
  moduleId := telLogModuleIdTelnet
  level := 2
  mulitifile := 0
  fileName := ascii "telnet_log"
  curSize := ⟨0, 0, 0, 0, 0, 0, 0⟩
  maxLogSize := 1 * 1024 * 1024

/-- `TEL_DEBUG`, `TEL_INFO` and `TEL_ERROR`. -/
inductive TelMacro where
  | debug
  | info
  | error
deriving DecidableEq

def TelMacro.level : TelMacro → LogSecurityLevel
  | debug => .debug
  | info => .info
  | error => .error

def TelMacro.number : TelMacro → UInt32
  | debug => 2
  | info => 3
  | error => 5

/-- A use of one of the macros, with the function and the line it stands in. -/
structure TelCall where
  telMacro : TelMacro
  func : List UInt8
  line : Nat
  text : List UInt8
  tm : Tm

namespace TelCall

/-- `TEL_LOG` puts the place of the call in front of the text. -/
def message (call : TelCall) : List UInt8 :=
  ascii " <" ++ call.func ++ ascii ":" ++ Strtol.numeral 10 call.line ++ ascii ">" ++ call.text

def logCall (call : TelCall) : LogCall where
  moduleId := telLogModuleIdTelnet
  level := call.telMacro.number
  tm := call.tm
  message := call.message

def record (call : TelCall) : List UInt8 :=
  recordText call.tm call.telMacro.level call.message

/-- The message fits in the line buffer, and the text in front of it in its own. -/
structure Fits (call : TelCall) : Prop where
  message : call.message.length < telLogLineSize
  time : (timeText call.tm call.telMacro.level).length < 256

end TelCall

theorem TelMacro.ofNumber (telMacro : TelMacro) :
    LogSecurityLevel.ofNumber telMacro.number = some telMacro.level := by
  cases telMacro <;> rfl

theorem TelCall.Fits.record_length {call : TelCall} (h : call.Fits) :
    call.record.length ≤ 255 + telLogLineSize := by
  simp only [record, recordText, List.length_append]
  exact Nat.add_le_add (Nat.le_of_lt_succ h.time) (Nat.le_of_lt h.message)

theorem TelCall.Fits.logCall {call : TelCall} (h : call.Fits) (moduleId : UInt32) :
    call.logCall.Fits moduleId (255 + telLogLineSize) := by
  constructor
  · exact h.message
  · intro _ known hKnown
    obtain rfl := Option.some.inj (call.telMacro.ofNumber.symm.trans hKnown)
    exact h.record_length

section Init
variable {answers : InitAnswers} (heap : Heap α) (regInfo : α → RegInfo)

/-- The registry is set up whatever is found of the directory. -/
theorem telLogInit_registry (hBase : answers.base = true) (hList : answers.list = true) :
    ∃ rc printed, telLogInit answers heap regInfo = .ok ⟨rc, .initial heap regInfo, printed⟩ := by
  unfold telLogInit
  simp only [hBase, hList, Bool.not_true, Bool.false_eq_true, if_false]
  split
  · split
    · exact ⟨_, _, rfl⟩
    · exact ⟨_, _, rfl⟩
  · exact ⟨_, _, rfl⟩

end Init

variable [DecidableEq α]

def telnetRegLog (allocator : Allocator α) (fuel : Nat) (registry : Registry α) :
    Except Linked.Fault (Int × Registry α) :=
  telLogReg allocator fuel registry [telnetRegInfo]

/-- The two calls at the start of `main`. -/
def startLog (answers : InitAnswers) (allocator : Allocator α) (fuel : Nat) (heap : Heap α)
    (regInfo : α → RegInfo) : Except Linked.Fault (Registry α) := do
  let init ← telLogInit answers heap regInfo
  let (_, registry) ← telnetRegLog allocator fuel init.registry
  return registry

section Start
variable {answers : InitAnswers} {allocator : Allocator α} {fuel : Nat} {heap : Heap α}
  {node : α}

/-- The module is registered, and it is the only one. -/
theorem startLog_holds (regInfo : α → RegInfo) (hBase : answers.base = true)
    (hList : answers.list = true) (hNode : allocator.malloc heap = some node)
    (hFuel : 0 < fuel) :
    ∃ registry xs, startLog answers allocator fuel heap regInfo = .ok registry ∧
      registry.Holds xs [telnetRegInfo] := by
  obtain ⟨rc, printed, hInit⟩ := telLogInit_registry heap regInfo hBase hList
  have hEmpty : (Registry.initial heap regInfo).Holds [] [] :=
    ⟨.nil none, rfl, rfl, fun _ => List.nodup_nil⟩
  obtain ⟨registry, hRun⟩ : ∃ registry,
      run (registerOne allocator fuel) (.initial heap regInfo) [telnetRegInfo] = .ok registry := by
    have hSearch : telLogSearchNode (Registry.initial heap regInfo) telnetRegInfo.moduleId =
        .ok none := rfl
    have hNone : (SllLinkList.empty heap).Represents [] := .nil none
    obtain ⟨list, hInsert, -⟩ := insertAtTail_spec
      (provide_represents hNone (List.not_mem_nil (a := node)) none) List.not_mem_nil
      (provide_cell none) (Nat.zero_le fuel)
    use ⟨list, 1, Function.update regInfo node telnetRegInfo⟩
    rw [run_cons, registerOne, hSearch, ok_bind]
    simp only [telAddLogRegNode, Registry.initial]
    rw [show allocator.malloc (SllLinkList.empty heap).heap = some node from hNode]
    simp only [hInsert, ok_bind]
    rfl
  obtain ⟨xs, hHolds⟩ := registerOne_run_holds hEmpty (Nat.succ_le_of_lt hFuel) hRun
  use registry, xs
  constructor
  · unfold startLog telnetRegLog telLogReg
    rw [hInit, ok_bind]
    simp only [hRun, ok_bind]
    rfl
  · exact hHolds

/-- It is found by its number. -/
theorem startLog_node (regInfo : α → RegInfo) (hBase : answers.base = true)
    (hList : answers.list = true) (hNode : allocator.malloc heap = some node)
    (hFuel : 0 < fuel) :
    ∃ registry a, startLog answers allocator fuel heap regInfo = .ok registry ∧
      registry.regInfo a = telnetRegInfo ∧ registry.regList.Represents [a] ∧
      registry.listNum.toNat = 1 ∧
      telLogSearchNode registry telLogModuleIdTelnet = .ok (some a) := by
  obtain ⟨registry, xs, hStart, hHolds⟩ := startLog_holds regInfo hBase hList hNode hFuel
  obtain ⟨a, rfl, hInfo⟩ := List.map_eq_singleton_iff.mp hHolds.infos
  refine ⟨registry, a, hStart, hInfo, hHolds.represents, ?_, ?_⟩
  · rw [hHolds.counted]
    rfl
  · rw [hHolds.search (by decide), List.find?_cons, hInfo]
    rfl

end Start

/-- The only log file of the program. -/
def telnetLog : Path := logPath telnetRegInfo .info

section Records
variable {registry : Registry α} {node : α}
  (hInfo : registry.regInfo node = telnetRegInfo)
  (hFound : telLogSearchNode registry telLogModuleIdTelnet = .ok (some node))
include hInfo hFound

/-- The module accepts all that the program logs. -/
theorem recordsFor_calls (known : LogSecurityLevel) (calls : List TelCall) :
    recordsFor registry node known (calls.map TelCall.logCall) = calls.map TelCall.record := by
  have hEach (call : TelCall) : recordFor registry node known call.logCall = some call.record := by
    have hLevel : ¬ call.telMacro.number < telnetRegInfo.level := by
      cases call.telMacro <;> decide
    have hKnown := call.telMacro.ofNumber
    have hOne (level : LogSecurityLevel) : telnetRegInfo.counterFor level = .single := rfl
    unfold recordFor
    rw [if_pos ⟨hFound, by rw [hInfo]; exact hLevel⟩]
    simp only [TelCall.logCall, hKnown, Option.bind_some, hInfo, hOne, if_true]
    rfl
  induction calls with
  | nil => rfl
  | cons call calls ih =>
      rw [List.map_cons, List.map_cons, recordsFor, List.filterMap_cons_some (hEach call), ← ih]
      rfl

end Records

/-- The program logs, from the start of `main` on, with a system that fails at
no call. Whatever was found of the directory, and whatever was in the file, the
file begins with the last records, all of them whole and in order, as many as
were written since it was last written from its start; together they are never
more than one record longer than what was asked for. -/
theorem own_log_contents {os : Os} (hOs : ∀ k, os.fails k = false) {answers : InitAnswers}
    (hBase : answers.base = true) (hList : answers.list = true) {allocator : Allocator α}
    {heap : Heap α} {node : α} (hNode : allocator.malloc heap = some node) {fuel : Nat}
    (hFuel : 0 < fuel) (regInfo : α → RegInfo) (world : World) {calls : List TelCall}
    (hCalls : ∀ call ∈ calls, call.Fits) :
    ∃ registry t, startLog answers allocator fuel heap regInfo = .ok registry ∧
      run (telWriteLog os) ⟨registry, world⟩ (calls.map TelCall.logCall) = .ok t ∧
      let file := (RecordFile.mk (world.contents telnetLog) []).acceptAll (1 * 1024 * 1024)
        (calls.map TelCall.record)
      t.world.contents telnetLog = file.contents ∧
        file.records <:+ calls.map TelCall.record ∧ (calls ≠ [] → file.records ≠ []) ∧
        file.records.flatten.length < 1 * 1024 * 1024 + 255 + telLogLineSize := by
  obtain ⟨registry, a, hStart, hInfo, hNodes, hNum, hFound⟩ :=
    startLog_node regInfo hBase hList hNode hFuel
  have hMax : (registry.regInfo a).maxLogSize.toNat = 1 * 1024 * 1024 := by
    rw [hInfo]
    rfl
  have hOwn : OwnFiles registry [a] a := by
    intro b hMem hOther
    exact (hOther (List.mem_singleton.mp hMem)).elim
  have hFits : ∀ call ∈ calls.map TelCall.logCall,
      call.Fits telLogModuleIdTelnet (255 + telLogLineSize) := by
    intro call hCall
    obtain ⟨c, hMem, rfl⟩ := List.mem_map.mp hCall
    exact (hCalls c hMem).logCall _
  have hBegin (known : LogSecurityLevel) : HoldsFile ⟨registry, world⟩ a known
      ⟨world.contents telnetLog, []⟩ := by
    constructor
    · simp only [hInfo]
      rfl
    · simp only [hInfo]
      rfl
  have hInitial : Rotating ⟨registry, world⟩ a (255 + telLogLineSize) ⟨registry, world⟩ :=
    ⟨rfl, rfl, fun _ => ⟨rfl, rfl, rfl, rfl, rfl⟩, fun _ => Nat.le_max_left _ _⟩
  obtain ⟨t, hRun, hSame, hLast⟩ := run_file hOs hNodes hNum hFound
    (by rw [hMax]; decide) (by rw [hMax]; decide) hOwn (.inl (by rw [hInfo]; rfl)) hInitial hFits
    hBegin
  have hFile := (hLast .info).contents
  rw [foldl_nextFile, recordsFor_calls hInfo hFound, hMax, (hSame.infos a).logPath, hInfo] at hFile
  refine ⟨registry, t, hStart, hRun, hFile, ?_, ?_, ?_⟩
  · exact RecordFile.acceptAll_suffix _ _ _
  · intro hSome
    exact RecordFile.acceptAll_ne_nil (mt List.map_eq_nil_iff.mp hSome)
  · have hLength : ∀ record ∈ calls.map TelCall.record,
        record.length ≤ 255 + telLogLineSize := by
      intro record hRecord
      obtain ⟨c, hMem, rfl⟩ := List.mem_map.mp hRecord
      exact (hCalls c hMem).record_length
    have hNothing : (RecordFile.mk (world.contents telnetLog) []).size ≤
        1 * 1024 * 1024 - 1 + (255 + telLogLineSize) := Nat.zero_le _
    have hSize := RecordFile.size_acceptAll (by decide) hNothing hLength
    unfold RecordFile.size at hSize
    omega

/-- What the program logs when a client connects. -/
def connectCalls : List TelCall :=
  [⟨.info, ascii "telnet_ser", 103, ascii "accept a connecttion!\n", ⟨2020, 1, 31, 12, 0, 0⟩⟩,
    ⟨.info, ascii "make_new_session", 234, ascii "make_new_session\n", ⟨2020, 1, 31, 12, 0, 0⟩⟩]

/-- The directory was not there, and was made. -/
theorem own_log_contents_connect :
    ∃ registry t, startLog ⟨true, true, -1, 0⟩ lowAllocator 1 (fun _ => none)
        (fun _ => plainInfo 0) = .ok registry ∧
      run (telWriteLog ⟨fun _ => false⟩) ⟨registry, ⟨fun _ => none, [], 0⟩⟩
        (connectCalls.map TelCall.logCall) = .ok t ∧
      t.world.contents telnetLog = (connectCalls.map TelCall.record).flatten := by
  have hFits : ∀ call ∈ connectCalls, call.Fits := by
    have hEach : ∀ call ∈ connectCalls, call.message.length < telLogLineSize ∧
        (timeText call.tm call.telMacro.level).length < 256 := by decide +kernel
    exact fun call hCall => ⟨(hEach call hCall).1, (hEach call hCall).2⟩
  have hReliable : ∀ k, Os.fails ⟨fun _ => false⟩ k = false := fun _ => rfl
  have hNode : lowAllocator.malloc (fun _ => none) = some 0 := rfl
  have hBase : InitAnswers.base ⟨true, true, -1, 0⟩ = true := rfl
  obtain ⟨registry, t, hStart, hRun, hFile, -⟩ := own_log_contents hReliable hBase rfl hNode
    Nat.one_pos (fun _ => plainInfo 0) ⟨fun _ => none, [], 0⟩ hFits
  use registry, t, hStart, hRun
  rw [hFile]
  decide +kernel

end TelnetDebug.Log

import TelnetDebug.Library.RecordRing
import TelnetDebug.Log.Rotation

/-! All of a log file. It is a file of records that is written from its start
again when it has reached the size that was asked for, and its records are those
of the calls that the module accepted. -/
namespace TelnetDebug.Log

open Linked Guarded Stdio RecordRing

/-- The module logs to one file, or to one file a level. -/
def RegInfo.OneOrMany (info : RegInfo) : Prop := info.mulitifile = 0 ∨ info.mulitifile = 1

theorem RegInfo.written_sameBut {info : RegInfo} {counter : Counter} {length : Nat} :
    (info.written counter length).SameBut info :=
  RegInfo.SameBut.setCounter ⟨rfl, rfl, rfl, rfl, rfl⟩ _ _

/-- Two levels have the same file exactly when they have the same counter. -/
theorem logPath_eq_iff {info : RegInfo} (hMulti : info.OneOrMany) (a b : LogSecurityLevel) :
    logPath info a = logPath info b ↔ info.counterFor a = info.counterFor b := by
  rcases hMulti with hOne | hMany
  · have hPath : logPath info a = logPath info b := by
      simp [logPath, hOne]
    have hCounter : info.counterFor a = info.counterFor b := by
      simp [RegInfo.counterFor, hOne]
    exact iff_of_true hPath hCounter
  · rw [(logPath_injective hMany).eq_iff]
    have hSeveral : ¬ info.mulitifile = 0 := by simp [hMany]
    cases a <;> cases b <;> simp [RegInfo.counterFor, hSeveral]

variable {α : Type}

/-- The file of a level is this file of records, and its counter is the number
of bytes that were written since it was begun. -/
structure HoldsFile (t : LogState α) (node : α) (known : LogSecurityLevel)
    (file : RecordFile UInt8) : Prop where
  contents : t.world.contents (logPath (t.registry.regInfo node) known) = file.contents
  counter : ((t.registry.regInfo node).curSize.get
    ((t.registry.regInfo node).counterFor known)).toNat = file.size

/-- The place of the next record is the one that the counter gives. -/
theorem HoldsFile.start {t : LogState α} {node : α} {known : LogSecurityLevel}
    {file : RecordFile UInt8} (h : HoldsFile t node known file) :
    ((t.registry.regInfo node).start ((t.registry.regInfo node).counterFor known)).toNat =
      file.start (t.registry.regInfo node).maxLogSize.toNat := by
  have hCounter := h.counter
  unfold RegInfo.start RecordFile.start
  simp only [UInt32.le_iff_toNat_le, hCounter]
  split
  · rfl
  · exact hCounter

/-- A record for the file is written to it. -/
theorem HoldsFile.write {t u : LogState α} {node : α} {known level : LogSecurityLevel}
    {record : List UInt8} {file : RecordFile UInt8} (h : HoldsFile t node known file)
    (hInfo : u.registry.regInfo node = (t.registry.regInfo node).written
      ((t.registry.regInfo node).counterFor level) record.length)
    (hFiles : u.world.files = Function.update t.world.files
      (logPath (t.registry.regInfo node) level)
      (some (put (t.world.contents (logPath (t.registry.regInfo node) level))
        ((t.registry.regInfo node).start ((t.registry.regInfo node).counterFor level)).toNat
        record)))
    (hRoom : ((t.registry.regInfo node).start
        ((t.registry.regInfo node).counterFor level)).toNat + record.length < 2 ^ 32)
    (hPath : logPath (t.registry.regInfo node) known = logPath (t.registry.regInfo node) level)
    (hCounter : (t.registry.regInfo node).counterFor known =
      (t.registry.regInfo node).counterFor level) :
    HoldsFile u node known
      (file.accept (t.registry.regInfo node).maxLogSize.toNat record) := by
  have hSame : (u.registry.regInfo node).SameBut (t.registry.regInfo node) :=
    hInfo ▸ RegInfo.written_sameBut
  have hStart := h.start
  rw [hCounter] at hStart
  constructor
  · rw [hSame.logPath, World.contents, hFiles, hPath, Function.update_self, Option.getD_some,
      RecordFile.contents_accept, ← h.contents, hPath, hStart]
  · rw [hSame.counterFor, hInfo, hCounter, RegInfo.written, RegInfo.get_setCounter,
      RecordFile.size_accept, ← hStart, UInt32.toNat_add]
    have hRecord : record.length < UInt32.size := Nat.lt_of_le_of_lt (Nat.le_add_left _ _) hRoom
    rw [UInt32.toNat_ofNat_of_lt' hRecord, Nat.mod_eq_of_lt hRoom]

/-- A file that is not written to, with its counter. -/
theorem HoldsFile.keep {t u : LogState α} {node : α} {known : LogSecurityLevel}
    {file : RecordFile UInt8} (h : HoldsFile t node known file)
    (hSame : (u.registry.regInfo node).SameBut (t.registry.regInfo node))
    (hCounter : (u.registry.regInfo node).curSize.get ((t.registry.regInfo node).counterFor known) =
      (t.registry.regInfo node).curSize.get ((t.registry.regInfo node).counterFor known))
    (hFile : u.world.files (logPath (t.registry.regInfo node) known) =
      t.world.files (logPath (t.registry.regInfo node) known)) :
    HoldsFile u node known file := by
  constructor
  · rw [hSame.logPath, World.contents, hFile]
    exact h.contents
  · rw [hSame.counterFor, hCounter]
    exact h.counter

theorem Accepts.mem {t : LogState α} {call : LogCall} {node : α} {level : LogSecurityLevel}
    {xs : List α} (h : Accepts t call node level)
    (hList : t.registry.regList.Represents xs) (hNum : t.registry.listNum.toNat = xs.length) :
    node ∈ xs := by
  obtain ⟨p, hSearch, hIs⟩ : ∃ p, telLogSearchNode t.registry call.moduleId = .ok p ∧ _ :=
    search_returns hList hNum
  rw [h.found] at hSearch
  exact (hIs node (Except.ok.inj hSearch).symm).1

variable [DecidableEq α]

/-- The record that a call writes to the file of a level of a node. -/
def recordFor (registry : Registry α) (node : α) (known : LogSecurityLevel) (call : LogCall) :
    Option (List UInt8) :=
  if telLogSearchNode registry call.moduleId = .ok (some node) ∧
      ¬ call.level < (registry.regInfo node).level then
    (LogSecurityLevel.ofNumber call.level).bind fun level =>
      if (registry.regInfo node).counterFor level = (registry.regInfo node).counterFor known then
        some (recordText call.tm level call.message)
      else none
  else none

/-- The records for the file of a level, in the order of the calls. -/
def recordsFor (registry : Registry α) (node : α) (known : LogSecurityLevel)
    (calls : List LogCall) : List (List UInt8) :=
  calls.filterMap (recordFor registry node known)

/-- The file after one call. -/
def nextFile (s : LogState α) (node : α) (known : LogSecurityLevel) (file : RecordFile UInt8)
    (call : LogCall) : RecordFile UInt8 :=
  match recordFor s.registry node known call with
  | some record => file.accept (s.registry.regInfo node).maxLogSize.toNat record
  | none => file

theorem foldl_nextFile (s : LogState α) (node : α) (known : LogSecurityLevel)
    (file : RecordFile UInt8) (calls : List LogCall) :
    calls.foldl (nextFile s node known) file =
      file.acceptAll (s.registry.regInfo node).maxLogSize.toNat
        (recordsFor s.registry node known calls) := by
  induction calls generalizing file with
  | nil => rfl
  | cons call calls ih =>
      rw [List.foldl_cons, ih]
      unfold recordsFor nextFile
      cases h : recordFor s.registry node known call with
      | none => rw [List.filterMap_cons_none h]
      | some record => rw [List.filterMap_cons_some h, RecordFile.acceptAll_cons]

section Same
variable {s t : LogState α} {node : α} {longest : Nat} {call : LogCall}

/-- In the course of a run the records for a file do not depend on the counters. -/
theorem Rotating.recordFor (h : Rotating s node longest t) (known : LogSecurityLevel) :
    Log.recordFor t.registry node known = Log.recordFor s.registry node known := by
  funext call
  unfold Log.recordFor
  rw [h.search, (h.infos node).level, (h.infos node).counterFor]

theorem Rotating.nextFile (h : Rotating s node longest t) (known : LogSecurityLevel) :
    Log.nextFile t node known = Log.nextFile s node known := by
  funext file call
  unfold Log.nextFile
  rw [h.recordFor, (h.infos node).maxLogSize]

end Same

section Calls
variable {t : LogState α} {node : α} {call : LogCall}

@[simp] theorem advanced_self {info : RegInfo} {world : World} :
    (t.advanced node info world).registry.regInfo node = info := Function.update_self ..

theorem advanced_of_ne {other : α} {info : RegInfo} {world : World} (h : other ≠ node) :
    (t.advanced node info world).registry.regInfo other = t.registry.regInfo other :=
  Function.update_of_ne h ..

theorem Accepts.recordFor {level : LogSecurityLevel} (h : Accepts t call node level)
    (known : LogSecurityLevel) :
    recordFor t.registry node known call =
      if (t.registry.regInfo node).counterFor level = (t.registry.regInfo node).counterFor known
      then some (recordText call.tm level call.message) else none := by
  unfold Log.recordFor
  rw [if_pos ⟨h.found, h.level⟩, h.known, Option.bind_some]

theorem Accepts.nextFile {level : LogSecurityLevel} (h : Accepts t call node level)
    (known : LogSecurityLevel) (file : RecordFile UInt8) :
    nextFile t node known file call =
      if (t.registry.regInfo node).counterFor level = (t.registry.regInfo node).counterFor known
      then file.accept (t.registry.regInfo node).maxLogSize.toNat
        (recordText call.tm level call.message)
      else file := by
  unfold Log.nextFile
  rw [h.recordFor]
  by_cases hCounter : (t.registry.regInfo node).counterFor level =
      (t.registry.regInfo node).counterFor known
  · rw [if_pos hCounter, if_pos hCounter]
  · rw [if_neg hCounter, if_neg hCounter]

theorem recordFor_none (h : ∀ level, ¬ Accepts t call node level) (known : LogSecurityLevel) :
    recordFor t.registry node known call = none := by
  unfold recordFor
  split
  · next hNode =>
      cases hKnown : LogSecurityLevel.ofNumber call.level with
      | none => rfl
      | some level => exact (h level ⟨hNode.1, hNode.2, hKnown⟩).elim
  · rfl

/-- A record of the node goes to the files that share the counter. -/
theorem HoldsFile.recorded {known level : LogSecurityLevel} {record : List UInt8}
    {file : RecordFile UInt8} {world : World} (h : HoldsFile t node known file)
    (hMulti : (t.registry.regInfo node).OneOrMany)
    (hFiles : world.files = Function.update t.world.files
      (logPath (t.registry.regInfo node) level)
      (some (put (t.world.contents (logPath (t.registry.regInfo node) level))
        ((t.registry.regInfo node).start ((t.registry.regInfo node).counterFor level)).toNat
        record)))
    (hRoom : ((t.registry.regInfo node).start
        ((t.registry.regInfo node).counterFor level)).toNat + record.length < 2 ^ 32) :
    HoldsFile (t.advanced node ((t.registry.regInfo node).written
        ((t.registry.regInfo node).counterFor level) record.length) world) node known
      (if (t.registry.regInfo node).counterFor level = (t.registry.regInfo node).counterFor known
      then file.accept (t.registry.regInfo node).maxLogSize.toNat record else file) := by
  have hPath := logPath_eq_iff hMulti known level
  split
  · next hCounter =>
    exact h.write advanced_self hFiles hRoom (hPath.mpr hCounter.symm) hCounter.symm
  · next hCounter =>
    apply h.keep
    · rw [advanced_self]
      exact RegInfo.written_sameBut
    · rw [advanced_self]
      exact CurSize.get_set_of_ne (Ne.symm hCounter)
    · change world.files _ = _
      rw [hFiles, Function.update_of_ne fun hEq => hCounter (hPath.mp hEq).symm]

/-- A record of another node goes to another file. -/
theorem HoldsFile.passed {known : LogSecurityLevel} {file : RecordFile UInt8} {other : α}
    {info : RegInfo} {path : Path} {bytes : Option (List UInt8)} {world : World}
    (h : HoldsFile t node known file) (hNode : node ≠ other)
    (hFiles : world.files = Function.update t.world.files path bytes)
    (hPath : logPath (t.registry.regInfo node) known ≠ path) :
    HoldsFile (t.advanced other info world) node known file := by
  apply h.keep
  · rw [advanced_of_ne hNode]
    exact ⟨rfl, rfl, rfl, rfl, rfl⟩
  · rw [advanced_of_ne hNode]
  · change world.files _ = _
    rw [hFiles, Function.update_of_ne hPath]

end Calls

section Run
variable {os : Os} (hOs : ∀ k, os.fails k = false) {s t : LogState α} {xs : List α} {node : α}
  {moduleId : UInt32} {longest : Nat} {call : LogCall}
  (hList : s.registry.regList.Represents xs) (hNum : s.registry.listNum.toNat = xs.length)
  (hFound : telLogSearchNode s.registry moduleId = .ok (some node))
  (hMax : 1 ≤ (s.registry.regInfo node).maxLogSize.toNat)
  (hFits : (s.registry.regInfo node).maxLogSize.toNat + longest < 2 ^ 32)
  (hOwn : OwnFiles s.registry xs node) (hMulti : (s.registry.regInfo node).OneOrMany)

include hOs hList hNum hFound hMax hFits hOwn hMulti

/-- One call writes its record to one of the files, or to none. -/
theorem telWriteLog_file (h : Rotating s node longest t) (hCall : call.Fits moduleId longest)
    {file : LogSecurityLevel → RecordFile UInt8}
    (hFile : ∀ known, HoldsFile t node known (file known)) :
    ∃ u, telWriteLog os t call = .ok u ∧ Rotating s node longest u ∧
      ∀ known, HoldsFile u node known (nextFile s node known (file known) call) := by
  have hTList : t.registry.regList.Represents xs := h.regList ▸ hList
  have hTNum : t.registry.listNum.toNat = xs.length := h.listNum ▸ hNum
  obtain ⟨u, hStep, hNext⟩ :=
    telWriteLog_rotating hOs hList hNum hFound hMax hFits hOwn h hCall
  use u, hStep, hNext
  intro known
  rw [← h.nextFile]
  have hSame := h.infos node
  by_cases hAny : ∃ a level, Accepts t call a level
  · obtain ⟨a, level, hAccepts⟩ := hAny
    have hRecords : Records os t call a level := ⟨hAccepts, reachesWrite_of_reliable hOs _ _⟩
    obtain ⟨world, hRun, hFiles⟩ := telWriteLog_records_short hRecords hCall.short
    obtain rfl := Except.ok.inj (hStep.symm.trans hRun)
    by_cases hNode : a = node
    · subst hNode
      have hTMulti : (t.registry.regInfo a).OneOrMany := by
        rwa [RegInfo.OneOrMany, hSame.mulitifile]
      have hModule : call.moduleId = moduleId := by
        have hId := found_moduleId hTList hTNum hAccepts.found
        rw [← hId, hSame.moduleId, found_moduleId hList hNum hFound]
      have hLength := hCall.record hModule level hAccepts.known
      rw [← hSame.maxLogSize] at hMax hFits
      have hRoom := (RegInfo.start_add ((t.registry.regInfo a).counterFor level) hMax hFits
        hLength).1
      rw [hAccepts.nextFile]
      exact (hFile known).recorded hTMulti hFiles (by omega)
    · have hNone : ∀ level, ¬ Accepts t call node level := by
        intro level' hOther
        have hEq := hOther.found.symm.trans hAccepts.found
        exact hNode (Option.some.inj (Except.ok.inj hEq)).symm
      have hOther := hOwn a (hAccepts.mem hTList hTNum) hNode level known
      rw [nextFile, recordFor_none hNone]
      apply (hFile known).passed (Ne.symm hNode) hFiles
      rw [hSame.logPath, (h.infos a).logPath]
      exact hOther.symm
  · have hIgnored : telWriteLog os t call = .ok t := by
      rcases telWriteLog_cases hTList hTNum with hIgnored | ⟨a, level, hAccepts, -⟩
      · exact hIgnored
      · exact (hAny ⟨a, level, hAccepts⟩).elim
    obtain rfl := Except.ok.inj (hStep.symm.trans hIgnored)
    rw [nextFile, recordFor_none fun level hAccepts => hAny ⟨node, level, hAccepts⟩]
    exact hFile known

theorem run_file (h : Rotating s node longest t) {calls : List LogCall}
    (hCalls : ∀ call ∈ calls, call.Fits moduleId longest)
    {file : LogSecurityLevel → RecordFile UInt8}
    (hFile : ∀ known, HoldsFile t node known (file known)) :
    ∃ u, run (telWriteLog os) t calls = .ok u ∧ Rotating s node longest u ∧
      ∀ known, HoldsFile u node known (calls.foldl (nextFile s node known) (file known)) := by
  induction calls generalizing t file with
  | nil => exact ⟨t, rfl, h, hFile⟩
  | cons call calls ih =>
      obtain ⟨hCall, hCalls⟩ := List.forall_mem_cons.mp hCalls
      obtain ⟨u, hStep, hNext, hFile⟩ :=
        telWriteLog_file hOs hList hNum hFound hMax hFits hOwn hMulti h hCall hFile
      obtain ⟨v, hRun, hLast⟩ := ih hNext hCalls hFile
      exact ⟨v, by rw [run_cons, hStep, ok_bind, hRun], hLast⟩

/-- A module logs, and other modules do. After any calls each of its files is
the file of records that it was, with the records of the calls that the module
accepted written to it one after the other: it begins with the last of them, as
many as its counter has bytes for, whole and in order, and goes on with what it
held before it was last written from its start. -/
theorem log_file_contents {calls : List LogCall}
    (hCalls : ∀ call ∈ calls, call.Fits moduleId longest)
    {file : LogSecurityLevel → RecordFile UInt8}
    (hFile : ∀ known, HoldsFile s node known (file known)) :
    ∃ t, run (telWriteLog os) s calls = .ok t ∧ ∀ known,
      let written := (file known).acceptAll (s.registry.regInfo node).maxLogSize.toNat
        (recordsFor s.registry node known calls)
      HoldsFile t node known written ∧
        written.records <:+ (file known).records ++ recordsFor s.registry node known calls := by
  have hInitial : Rotating s node longest s :=
    ⟨rfl, rfl, fun _ => ⟨rfl, rfl, rfl, rfl, rfl⟩, fun _ => Nat.le_max_left _ _⟩
  obtain ⟨t, hRun, -, hLast⟩ :=
    run_file hOs hList hNum hFound hMax hFits hOwn hMulti hInitial hCalls hFile
  use t, hRun
  intro known
  constructor
  · rw [← foldl_nextFile]
    exact hLast known
  · exact RecordFile.acceptAll_suffix _ _ _

end Run

/-- A module whose file is to have thirty bytes. -/
def smallModule : LogState Nat :=
  { oneModule with registry := { oneModule.registry with
      regInfo := fun _ => ⟨1, 1, 0, ascii "telnet", ⟨0, 0, 0, 0, 0, 0, 0⟩, 30⟩ } }

/-- The second record is written over the first one, which is longer. -/
theorem log_file_contents_two :
    ∃ t, run (telWriteLog ⟨fun _ => false⟩) smallModule
        [oneCall, { oneCall with message := ascii "stop" }] = .ok t ∧
      t.world.contents (logPath (t.registry.regInfo 0) .info) =
        recordText oneCall.tm .info (ascii "stop") ++ ascii "t" := by
  have hList : smallModule.registry.regList.Represents [0] := .cons rfl (.nil none)
  have hOwn : OwnFiles smallModule.registry [0] 0 := by
    intro a hMem hOther
    exact (hOther (List.mem_singleton.mp hMem)).elim
  have hFits : ∀ call ∈ [oneCall, { oneCall with message := ascii "stop" }],
      call.Fits 1 2000 := by
    have hEach (message : List UInt8) (hShort : message.length < 30) :
        { oneCall with message := message }.Fits 1 2000 := by
      constructor
      · exact Nat.lt_trans hShort (by decide)
      · intro _ known hKnown
        obtain rfl : LogSecurityLevel.info = known := Option.some.inj hKnown
        have hTime : (timeText oneCall.tm .info).length ≤ 100 := by decide +kernel
        simp only [recordText, List.length_append]
        exact Nat.le_trans (Nat.add_le_add hTime (Nat.le_of_lt hShort)) (by decide)
    simpa using ⟨hEach _ (by decide), hEach (ascii "stop") (by decide)⟩
  have hOs : ∀ k, Os.fails ⟨fun _ => false⟩ k = false := fun _ => rfl
  have hNew (known : LogSecurityLevel) : HoldsFile smallModule 0 known ⟨[], []⟩ := ⟨rfl, rfl⟩
  obtain ⟨t, hRun, hFiles⟩ := log_file_contents hOs hList rfl rfl (by decide) (by decide) hOwn
    (.inl rfl) hFits hNew
  use t, hRun
  rw [(hFiles .info).1.contents]
  decide +kernel

end TelnetDebug.Log

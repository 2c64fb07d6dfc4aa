import TelnetDebug.Log.WriteLog

/-! Writing a record when any call of the system may fail. Whether a call is
made depends on the outcomes of the ones before it, and each way through the
three functions leaves the stream of the log file in its own state. The counter
by which the file is positioned, the counter that is advanced and the name of
the file are chosen in three places, and the three choices agree. -/
namespace TelnetDebug.Log

open Linked Guarded Stdio

/-- The counter of the file that a record of this level goes to. -/
def RegInfo.counterFor (info : RegInfo) (level : LogSecurityLevel) : Counter :=
  if info.mulitifile = 0 then .single
  else
    match level with
    | .notset => .notset
    | .debug => .debug
    | .info => .info
    | .warning => .warning
    | .error => .error
    | .critical => .critical

/-- Where the next record is written: at the counter, or at the start of the
file when the counter has reached the size that was asked for. -/
def RegInfo.start (info : RegInfo) (counter : Counter) : UInt32 :=
  if info.maxLogSize ≤ info.curSize.get counter then 0 else info.curSize.get counter

/-- The module after a record of this length was written. -/
def RegInfo.written (info : RegInfo) (counter : Counter) (length : Nat) : RegInfo :=
  info.setCounter counter (info.start counter + .ofNat length)

/-- What is written for a message. -/
def recordText (tm : Tm) (level : LogSecurityLevel) (message : List UInt8) : List UInt8 :=
  timeText tm level ++ message

section Counters
variable {sizes : CurSize} {info : RegInfo} {counter other : Counter} {size : UInt32}

@[simp] theorem CurSize.get_set_self : (sizes.set size counter).get counter = size := by
  cases counter <;> rfl

theorem CurSize.get_set_of_ne (h : other ≠ counter) :
    (sizes.set size counter).get other = sizes.get other := by
  cases counter <;> cases other <;> first | rfl | exact (h rfl).elim

@[simp] theorem CurSize.set_set (first second : UInt32) :
    (sizes.set first counter).set second counter = sizes.set second counter := by
  cases counter <;> rfl

@[simp] theorem RegInfo.setCounter_setCounter (first second : UInt32) :
    (info.setCounter counter first).setCounter counter second =
      info.setCounter counter second := by
  simp [setCounter]

@[simp] theorem RegInfo.get_setCounter :
    (info.setCounter counter size).curSize.get counter = size := CurSize.get_set_self

theorem RegInfo.setCounter_get : info.setCounter counter (info.curSize.get counter) = info := by
  cases counter <;> rfl

theorem timeText_ne_nil (tm : Tm) (level : LogSecurityLevel) : timeText tm level ≠ [] := by
  have hLevel : level.text ≠ [] := by
    cases level <;> decide
  exact List.append_ne_nil_of_right_ne_nil _ hLevel

end Counters

/-- The log file is there at the first check. -/
def fileFound (os : Os) (w : World) (path : Path) : Bool :=
  !os.fails w.calls && (w.files path).isSome

/-- The log file is opened. One that was not found is created before. -/
def opens (os : Os) (w : World) (path : Path) : Bool :=
  if fileFound os w path then !os.fails (w.calls + 1)
  else !os.fails (w.calls + 1) && !os.fails (w.calls + 2)

/-- The number of the call that follows the opening: the second check, in front
of those of `stat` and `localtime`. -/
def checkCall (os : Os) (w : World) (path : Path) : Nat :=
  if fileFound os w path then w.calls + 2 else w.calls + 3

/-- The file is open and was found again, so that `stat` is called. -/
def reachesStat (os : Os) (w : World) (path : Path) : Bool :=
  opens os w path && !os.fails (checkCall os w path)

/-- `stat` and `localtime` succeed where `stat` is called. -/
def StatAndTimeSucceed (os : Os) (w : World) (path : Path) : Prop :=
  reachesStat os w path = true →
    os.fails (checkCall os w path + 1) = false ∧ os.fails (checkCall os w path + 2) = false

/-- No call stands in the way of the record. -/
def ReachesWrite (os : Os) (w : World) (path : Path) : Prop :=
  reachesStat os w path = true ∧ StatAndTimeSucceed os w path

theorem reachesWrite_of_reliable {os : Os} (hOs : ∀ k, os.fails k = false) (w : World)
    (path : Path) : ReachesWrite os w path := by
  unfold ReachesWrite StatAndTimeSucceed reachesStat opens
  simp only [hOs, Bool.not_false, Bool.and_self, ite_self, and_self, implies_true]

section LineBuffer
variable {message : List UInt8}

theorem lineBuffer_length : (lineBuffer message).length = telLogLineSize := by
  rw [lineBuffer, List.length_append, List.length_replicate]
  have hCut := List.length_take_le (telLogLineSize - 1) message
  exact Nat.add_sub_of_le (hCut.trans (Nat.sub_le _ _))

/-- Of a message that fits, the line buffer holds all. -/
theorem lineBuffer_take (h : message.length < telLogLineSize) :
    (lineBuffer message).take message.length = message := by
  have hWhole : message.take (telLogLineSize - 1) = message :=
    List.take_of_length_le (Nat.le_pred_of_lt h)
  rw [lineBuffer, hWhole, List.take_left]

end LineBuffer

section Node
variable {os : Os} {w v : World} {path : Path} {fp pos : Nat} {info : RegInfo} {level : UInt32}
  {known : LogSecurityLevel} {tm : Tm} {message : List UInt8} {fault : Stdio.Fault → Prop}

theorem telLogFileOpen_outcome :
    Sat (telLogFileOpen os path w) (Opening w path (!opens os w path) (checkCall os w path))
      fault := by
  unfold telLogFileOpen opens checkCall
  apply Stdio.sat_bind (access_outcome os path w)
  rintro _ _ ⟨⟩
  change Sat ((if (if fileFound os w path = true then (0 : Int) else -1) < 0 then _ else _ :
    Call Stdio.Fault (Option Nat)) _) _ _
  have hCalled := (World.AllClosed.refl w).of_streams (u := w.called) rfl
  cases hFound : fileFound os w path with
  | true =>
      have hExists := (Bool.and_eq_true_iff.mp hFound).2
      rw [if_pos rfl, if_pos rfl, Bool.not_not]
      exact fopenUpdate_opening hCalled hExists (fun _ => rfl) rfl
  | false =>
      rw [if_neg Bool.false_ne_true, if_neg Bool.false_ne_true]
      apply Stdio.sat_bind (fopenAppend_outcome os path w.called)
      intro created v hCreated
      change Sat _ (Opening w path (!(!os.fails w.called.calls && _)) _) _
      cases hFails : os.fails w.called.calls with
      | true =>
          rw [hFails, if_pos rfl] at hCreated
          obtain ⟨rfl, rfl⟩ := Prod.mk.inj hCreated
          exact .refused rfl hCalled fun _ => rfl
      | false =>
          rw [hFails, if_neg Bool.false_ne_true] at hCreated
          obtain ⟨rfl, rfl⟩ := Prod.mk.inj hCreated
          have hAgain := hCalled.of_streams (u := w.called.called) rfl
          apply Stdio.sat_bind (fclose_since (hAgain.opened path))
          rintro ⟨⟩ u ⟨hClosed, hFiles, -, hCalls⟩
          have hCreated : u.files = Function.update w.files path (some (w.contents path)) := hFiles
          have hContents := contents_of_update hCreated
          have hExists : (u.files path).isSome := by
            rw [hCreated, Function.update_self]
            rfl
          have hNumber : w.calls + 2 = u.calls := hCalls.symm
          have hNext : w.calls + 3 = u.calls + 1 := congrArg Nat.succ hNumber
          rw [Bool.not_false, Bool.true_and, Bool.not_not, if_neg Bool.false_ne_true, hNumber,
            hNext]
          apply fopenUpdate_opening hClosed hExists hContents
          change Function.update u.files path (some (u.contents path)) = _
          rw [hCreated, Function.update_idem, hContents]

/-- Both functions choose the counter of the file. -/
theorem seekRecord_eq (hKnown : LogSecurityLevel.ofNumber level = some known) (fp : Option Nat) :
    seekRecord info level fp = seekCounter info (info.counterFor known) fp := by
  unfold seekRecord RegInfo.counterFor
  rw [hKnown]
  split
  · rfl
  · cases known <;> rfl

theorem writeRecord_eq (hKnown : LogSecurityLevel.ofNumber level = some known)
    (timeBuf message : List UInt8) (fp : Option Nat) :
    writeRecord info level timeBuf message fp =
      writeParts info (info.counterFor known) timeBuf message fp := by
  unfold writeRecord RegInfo.counterFor
  rw [hKnown]
  split
  · rfl
  · cases known <;> rfl

theorem seekCounter_outcome (h : w.OneOpen v fp path pos) (counter : Counter) :
    Sat (seekCounter info counter (some fp) v)
      (fun r => r.1 = (0, info.setCounter counter (info.start counter)) ∧
        w.OneOpen r.2 fp path (info.start counter).toNat ∧ r.2.files = v.files ∧
        r.2.calls = v.calls) fault := by
  unfold seekCounter RegInfo.start
  apply Stdio.sat_bind (fseek_since h _)
  rintro ⟨⟩ u ⟨hOpen, hFiles, hCalls⟩
  split
  · apply Stdio.sat_bind (fseek_since hOpen 0)
    rintro ⟨⟩ x ⟨hStart, hSame, hSameCalls⟩
    exact ⟨rfl, hStart, hSame.trans hFiles, hSameCalls.trans hCalls⟩
  · rw [RegInfo.setCounter_get]
    exact ⟨rfl, hOpen, hFiles, hCalls⟩

/-- The second check fails: the stream is left to the caller. -/
theorem telLogSizeSet_unchecked (h : w.OneOpen v fp path pos) (hCheck : os.fails v.calls = true) :
    Sat (telLogSizeSet os info level path (some fp) v)
      (fun r => r.1 = (-1, info) ∧ w.OneOpen r.2 fp path pos ∧ r.2.files = v.files) fault := by
  unfold telLogSizeSet
  apply Stdio.sat_bind (access_outcome os path v)
  rintro _ _ ⟨⟩
  rw [hCheck]
  exact ⟨rfl, h.of_streams rfl, rfl⟩

/-- `stat` fails: the stream is closed, and the caller is told the same. -/
theorem telLogSizeSet_closes (h : w.OneOpen v fp path pos) (hExists : (v.files path).isSome)
    (hCheck : os.fails v.calls = false) (hStat : os.fails (v.calls + 1) = true) :
    Sat (telLogSizeSet os info level path (some fp) v)
      (fun r => r.1 = (-1, info) ∧ r.2.streams[fp]? = some ⟨path, pos, false⟩) fault := by
  unfold telLogSizeSet
  apply Stdio.sat_bind (access_outcome os path v)
  rintro _ _ ⟨⟩
  rw [hCheck, hExists]
  apply Stdio.sat_bind (access_outcome os path v.called)
  rintro _ _ ⟨⟩
  have hFails : os.fails v.called.calls = true := hStat
  rw [hFails]
  have hOpen : w.OneOpen v.called.called fp path pos := h.of_streams rfl
  apply Stdio.sat_bind (fclose_since hOpen)
  rintro ⟨⟩ u ⟨-, -, hClosed, -⟩
  exact ⟨rfl, hClosed⟩

/-- Both succeed: the stream is at the place of the next record. -/
theorem telLogSizeSet_seeks (h : w.OneOpen v fp path pos) (hExists : (v.files path).isSome)
    (hCheck : os.fails v.calls = false) (hStat : os.fails (v.calls + 1) = false)
    (hKnown : LogSecurityLevel.ofNumber level = some known) :
    Sat (telLogSizeSet os info level path (some fp) v)
      (fun r => r.1 = (0, info.setCounter (info.counterFor known)
          (info.start (info.counterFor known))) ∧
        w.OneOpen r.2 fp path (info.start (info.counterFor known)).toNat ∧ r.2.files = v.files ∧
        r.2.calls = v.calls + 2) fault := by
  unfold telLogSizeSet
  apply Stdio.sat_bind (access_outcome os path v)
  rintro _ _ ⟨⟩
  rw [hCheck, hExists]
  apply Stdio.sat_bind (access_outcome os path v.called)
  rintro _ _ ⟨⟩
  have hSucceeds : os.fails v.called.calls = false := hStat
  have hThere : (v.called.files path).isSome = true := hExists
  rw [hSucceeds, hThere, seekRecord_eq hKnown]
  have hOpen : w.OneOpen v.called.called fp path pos := h.of_streams rfl
  exact seekCounter_outcome hOpen _

/-- The two parts make one record at the place of the stream. As many bytes of
the line buffer are written as the message has. -/
theorem writeParts_outcome (h : w.OneOpen v fp path pos) (counter : Counter)
    {timeBuf message : List UInt8} (hTime : timeBuf ≠ []) :
    Sat (writeParts info counter timeBuf message (some fp) v)
      (fun r => message.length ≤ telLogLineSize ∧
        r.1 = info.setCounter counter
          (info.curSize.get counter + .ofNat (timeBuf.length + message.length)) ∧
        (∃ place, w.OneOpen r.2 fp path place) ∧
        r.2.files = Function.update v.files path (some (put (v.contents path) pos
          (timeBuf ++ (lineBuffer message).take message.length))))
      (fun e => e = .outsideBuffer ∧ telLogLineSize < message.length) := by
  unfold writeParts
  apply Stdio.sat_bind
  · apply (fwrite_since h timeBuf timeBuf.length).mono
    · exact fun _ hFirst => hFirst
    · exact fun _ hLong => (Nat.lt_irrefl _ hLong.2).elim
  rintro ⟨⟩ u ⟨-, hOpen, hFiles⟩
  apply Stdio.sat_bind
  · apply (fwrite_since hOpen (lineBuffer message) message.length).mono
    · exact fun _ hSecond => hSecond
    · rw [lineBuffer_length]
      exact fun _ hLong => hLong
  rintro ⟨⟩ x ⟨hRoom, hEnd, hBoth⟩
  have hContents : u.contents path = put (v.contents path) pos timeBuf := by
    change (u.files path).getD [] = _
    rw [hFiles, Function.update_self, List.take_length]
    rfl
  refine ⟨lineBuffer_length ▸ hRoom, ?_, ⟨_, hEnd⟩, ?_⟩
  · simp only [RegInfo.setCounter_setCounter, RegInfo.get_setCounter, UInt32.ofNat_add,
      UInt32.add_assoc]
  · rw [hBoth]
    change Function.update u.files path (some (put (u.contents path) _ _)) = _
    rw [hContents, hFiles, Function.update_idem, put_put hTime]

/-- The file is open, and was found again, when `stat` is called. -/
theorem telLogFileOpen_opens (hStat : reachesStat os w path = true) :
    Sat (telLogFileOpen os path w)
      (fun r => ∃ fp, r.1 = some fp ∧ w.OneOpen r.2 fp path 0 ∧ (r.2.files path).isSome ∧
        os.fails r.2.calls = false ∧ r.2.calls = checkCall os w path ∧
        r.2.files = Function.update w.files path (some (w.contents path))) fault := by
  obtain ⟨hOpens, hCheck⟩ := Bool.and_eq_true_iff.mp hStat
  apply telLogFileOpen_outcome.imp
  intro r hOpening
  cases hOpening with
  | refused hFails =>
      rw [hOpens] at hFails
      cases hFails
  | opened _ hOpen hCalls hFiles =>
      rw [Bool.not_eq_true', ← hCalls] at hCheck
      refine ⟨_, rfl, hOpen, ?_, hCheck, hCalls, hFiles⟩
      rw [hFiles, Function.update_self]
      rfl

section Known
variable (hKnown : LogSecurityLevel.ofNumber level = some known)
include hKnown

/-- Before `stat` is called a failure is the end of the call, and nothing was
done but perhaps to create the file. -/
theorem writeLogNode_gives_up (hStops : reachesStat os w (logPath info known) = false) :
    Sat (writeLogNode os info level tm message w)
      (fun r => r.1 = info ∧ w.AllClosed r.2 ∧ ∀ other, r.2.contents other = w.contents other)
      fault := by
  unfold writeLogNode
  rw [hKnown]
  apply Stdio.sat_bind telLogFileOpen_outcome
  intro p v hOpening
  unfold reachesStat at hStops
  cases hOpening with
  | refused hFails hClosed hContents => exact ⟨rfl, hClosed, hContents⟩
  | opened hOpens hOpen hCalls hFiles =>
      rw [Bool.not_eq_false'] at hOpens
      rw [hOpens, Bool.true_and, Bool.not_eq_false', ← hCalls] at hStops
      apply Stdio.sat_bind (telLogSizeSet_unchecked hOpen hStops)
      rintro _ u ⟨rfl, hLeft, hSame⟩
      change Sat ((if (-1 : Int) ≠ 0 then _ else _ : Call Stdio.Fault RegInfo) _) _ _
      rw [if_pos (by decide)]
      apply Stdio.sat_bind (fclose_since hLeft)
      rintro ⟨⟩ x ⟨hClosed, hFinal, -⟩
      exact ⟨rfl, hClosed, contents_of_update (hFinal.trans (hSame.trans hFiles))⟩

section Reached
variable (hStat : reachesStat os w (logPath info known) = true)
include hStat

/-- When `stat` fails the stream is closed twice. -/
theorem writeLogNode_closes_twice
    (hFails : os.fails (checkCall os w (logPath info known) + 1) = true) :
    writeLogNode os info level tm message w = .error .closedStream := by
  apply Sat.faults
  unfold writeLogNode
  rw [hKnown]
  apply Stdio.sat_bind (telLogFileOpen_opens hStat)
  rintro _ v ⟨fp, rfl, hOpen, hExists, hCheck, hCalls, -⟩
  rw [← hCalls] at hFails
  apply Stdio.sat_bind (telLogSizeSet_closes hOpen hExists hCheck hFails)
  rintro _ u ⟨rfl, hClosed⟩
  change Sat ((if (-1 : Int) ≠ 0 then _ else _ : Call Stdio.Fault RegInfo) _) _ _
  rw [if_pos (by decide)]
  change Sat (fclose (some fp) u >>= _) _ _
  rw [fclose_again hClosed]
  exact rfl

/-- When `stat` succeeds it is left to `localtime` whether the record is written
and the stream closed. -/
theorem writeLogNode_past_stat
    (hPast : os.fails (checkCall os w (logPath info known) + 1) = false) :
    Sat (writeLogNode os info level tm message w)
      (fun r => if os.fails (checkCall os w (logPath info known) + 2) then ¬ w.AllClosed r.2
        else message.length ≤ telLogLineSize ∧
          r.1 = info.written (info.counterFor known)
            ((timeText tm known).length + message.length) ∧
          w.AllClosed r.2 ∧
          r.2.files = Function.update w.files (logPath info known)
            (some (put (w.contents (logPath info known)) (info.start (info.counterFor known)).toNat
              (timeText tm known ++ (lineBuffer message).take message.length))))
      (fun e => os.fails (checkCall os w (logPath info known) + 2) = false ∧ e = .outsideBuffer ∧
        telLogLineSize < message.length) := by
  unfold writeLogNode
  rw [hKnown]
  apply Stdio.sat_bind (telLogFileOpen_opens hStat)
  rintro _ v ⟨fp, rfl, hOpen, hExists, hCheck, hCalls, hFiles⟩
  rw [← hCalls] at hPast ⊢
  apply Stdio.sat_bind (telLogSizeSet_seeks hOpen hExists hCheck hPast hKnown)
  rintro _ u ⟨rfl, hPlace, hSame, hNext⟩
  change Sat ((if (0 : Int) ≠ 0 then _ else _ : Call Stdio.Fault RegInfo) _) _ _
  rw [if_neg fun h => h rfl, ← hNext]
  apply Stdio.sat_bind (succeeds_outcome os u)
  rintro _ _ ⟨⟩
  have hStart := hPlace.of_streams (u := u.called) rfl
  cases os.fails u.calls with
  | true => exact hStart.not_allClosed
  | false =>
      change Sat ((writeRecord _ _ _ _ _ >>= _ : Call Stdio.Fault RegInfo) _) _ _
      rw [writeRecord_eq hKnown]
      apply Stdio.sat_bind
      · apply (writeParts_outcome hStart _ (timeText_ne_nil tm known)).mono
        · exact fun _ hParts => hParts
        · exact fun _ hLong => ⟨rfl, hLong⟩
      rintro _ x ⟨hRoom, rfl, ⟨place, hEnd⟩, hWritten⟩
      apply Stdio.sat_bind (fclose_since hEnd)
      rintro ⟨⟩ y ⟨hClosed, hFinal, -⟩
      have hStartFiles : u.called.files = Function.update w.files (logPath info known)
          (some (w.contents (logPath info known))) := hSame.trans hFiles
      have hContents := contents_of_update hStartFiles
      refine ⟨hRoom, ?_, hClosed, ?_⟩
      · change (info.setCounter (info.counterFor known) _).setCounter (info.counterFor known)
          ((info.setCounter (info.counterFor known) _).curSize.get (info.counterFor known) + _) = _
        rw [RegInfo.setCounter_setCounter, RegInfo.get_setCounter]
        rfl
      · change y.files = _
        rw [hFinal]
        change x.files = _
        rw [hWritten, hContents, hStartFiles, Function.update_idem]

end Reached

end Known

end Node

variable {α : Type}

/-- A call that writes a record to the module of a node. -/
structure Accepts (s : LogState α) (call : LogCall) (node : α) (known : LogSecurityLevel) :
    Prop where
  found : telLogSearchNode s.registry call.moduleId = .ok (some node)
  level : ¬ call.level < (s.registry.regInfo node).level
  known : LogSecurityLevel.ofNumber call.level = some known

/-- A call that accepts a message, and whose record no failure stops. -/
structure Records (os : Os) (s : LogState α) (call : LogCall) (node : α)
    (known : LogSecurityLevel) : Prop where
  accepts : Accepts s call node known
  reaches : ReachesWrite os s.world (logPath (s.registry.regInfo node) known)

variable [DecidableEq α]

/-- The state after a record was written to the module of a node. -/
def LogState.advanced (s : LogState α) (node : α) (info : RegInfo) (world : World) : LogState α :=
  ⟨{ s.registry with regInfo := Function.update s.registry.regInfo node info }, world⟩

section Calls
variable {os : Os} {s : LogState α} {call : LogCall} {node : α} {known : LogSecurityLevel}
  {xs : List α}

/-- What the call does to the node, the whole call does to the state. -/
theorem telWriteLog_sat (h : Accepts s call node known) {post : LogState α → Prop}
    {fault : LogFault → Prop}
    (hNode : Sat (writeLogNode os (s.registry.regInfo node) call.level call.tm call.message s.world)
      (fun r => post (s.advanced node r.1 r.2)) (fun e => fault (.stream e))) :
    Sat (telWriteLog os s call) post fault := by
  unfold telWriteLog
  rw [h.found]
  change Sat (if _ then _ else _) _ _
  rw [if_neg h.level]
  exact hNode.mapError.bind fun _ hPost => hPost

/-- The record is written, with as many bytes of the line buffer as the message
has, and the stream is closed. -/
theorem telWriteLog_records (h : Records os s call node known) :
    Sat (telWriteLog os s call)
      (fun t => call.message.length ≤ telLogLineSize ∧ ∃ world, t = s.advanced node
          ((s.registry.regInfo node).written ((s.registry.regInfo node).counterFor known)
            ((timeText call.tm known).length + call.message.length)) world ∧
        s.world.AllClosed world ∧
        world.files = Function.update s.world.files (logPath (s.registry.regInfo node) known)
          (some (put (s.world.contents (logPath (s.registry.regInfo node) known))
            ((s.registry.regInfo node).start ((s.registry.regInfo node).counterFor known)).toNat
            (timeText call.tm known ++ (lineBuffer call.message).take call.message.length))))
      (fun e => e = .stream .outsideBuffer ∧ telLogLineSize < call.message.length) := by
  obtain ⟨hStat, hSucceed⟩ := h.reaches
  obtain ⟨hPast, hTime⟩ := hSucceed hStat
  apply telWriteLog_sat h.accepts
  apply (writeLogNode_past_stat h.accepts.known hStat hPast).mono
  · rintro ⟨info, world⟩ hWritten
    rw [hTime, if_neg Bool.false_ne_true] at hWritten
    obtain ⟨hRoom, rfl, hClosed, hFiles⟩ := hWritten
    exact ⟨hRoom, world, rfl, hClosed, hFiles⟩
  · rintro _ ⟨-, rfl, hLong⟩
    exact ⟨rfl, hLong⟩

/-- Of a message that fits in the line buffer the record has all. -/
theorem telWriteLog_records_short (h : Records os s call node known)
    (hShort : call.message.length < telLogLineSize) :
    ∃ world, telWriteLog os s call = .ok (s.advanced node
        ((s.registry.regInfo node).written ((s.registry.regInfo node).counterFor known)
          (recordText call.tm known call.message).length) world) ∧
      world.files = Function.update s.world.files (logPath (s.registry.regInfo node) known)
        (some (put (s.world.contents (logPath (s.registry.regInfo node) known))
          ((s.registry.regInfo node).start ((s.registry.regInfo node).counterFor known)).toNat
          (recordText call.tm known call.message))) := by
  have hCall : Sat (telWriteLog os s call) _ fun _ => False :=
    (telWriteLog_records h).mono (fun _ hPost => hPost)
      fun _ hLong => Nat.lt_asymm hShort hLong.2
  obtain ⟨_, hRun, -, world, rfl, -, hFiles⟩ := hCall.returns
  rw [lineBuffer_take hShort] at hFiles
  rw [← List.length_append] at hRun
  exact ⟨world, hRun, hFiles⟩

/-- What is written to a module that the search does not find is dropped. -/
theorem telWriteLog_unfound (h : telLogSearchNode s.registry call.moduleId = .ok none) :
    telWriteLog os s call = .ok s := by
  unfold telWriteLog
  rw [h]
  rfl

/-- Every other call leaves all as it is. -/
theorem telWriteLog_cases (hList : s.registry.regList.Represents xs)
    (hNum : s.registry.listNum.toNat = xs.length) :
    telWriteLog os s call = .ok s ∨ ∃ node known, Accepts s call node known ∧ node ∈ xs ∧
      (s.registry.regInfo node).moduleId = call.moduleId := by
  obtain ⟨p, hSearch, hFound⟩ : ∃ p, telLogSearchNode s.registry call.moduleId = .ok p ∧ _ :=
    search_returns hList hNum
  cases p with
  | none => exact .inl (telWriteLog_unfound hSearch)
  | some node =>
      obtain ⟨hMem, hId⟩ := hFound node rfl
      by_cases hLevel : call.level < (s.registry.regInfo node).level
      · left
        unfold telWriteLog
        rw [hSearch]
        exact if_pos hLevel
      · cases hKnown : LogSecurityLevel.ofNumber call.level with
        | none =>
            left
            unfold telWriteLog writeLogNode
            rw [hSearch, hKnown]
            change (if _ then _ else _) = _
            rw [if_neg hLevel]
            change Except.ok (s.advanced node (s.registry.regInfo node) s.world) = _
            rw [LogState.advanced, Function.update_eq_self]
        | some known => exact .inr ⟨node, known, ⟨hSearch, hLevel, hKnown⟩, hMem, hId⟩

end Calls

/-- A registry with one module, whose log is one file, and no file. -/
def oneModule : LogState Nat where
  registry := ⟨⟨some 0, some 0, fun a => if a = 0 then some none else none⟩, 1,
    fun _ => ⟨1, 1, 0, ascii "telnet", ⟨0, 0, 0, 0, 0, 0, 0⟩, 4096⟩⟩
  world := ⟨fun _ => none, [], 0⟩

def oneCall : LogCall where
  moduleId := 1
  level := 3
  tm := ⟨2020, 1, 31, 12, 0, 0⟩
  message := ascii "start"

theorem oneCall_accepts : Accepts oneModule oneCall 0 .info := ⟨rfl, by decide, rfl⟩

end TelnetDebug.Log

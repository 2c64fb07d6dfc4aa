import TelnetDebug.Log.CallOutcomes

/-! What is written for a long message. The line buffer takes the first 1023
bytes, but the length that is written and counted is that of the whole message. -/
namespace TelnetDebug.Log

open Linked Guarded Stdio

variable {α : Type} [DecidableEq α]

/-- The record of a call is in the log file, with the message cut to what the
line buffer holds, and the counter was advanced by its length. -/
structure RecordCut (s t : LogState α) (call : LogCall) (node : α) (known : LogSecurityLevel) :
    Prop where
  written : t.world.files =
    Function.update s.world.files (logPath (s.registry.regInfo node) known)
      (some (put (s.world.contents (logPath (s.registry.regInfo node) known))
        ((s.registry.regInfo node).start ((s.registry.regInfo node).counterFor known)).toNat
        (recordText call.tm known (call.message.take (telLogLineSize - 1)))))
  counter : (t.registry.regInfo node).curSize.get ((s.registry.regInfo node).counterFor known) =
    (s.registry.regInfo node).start ((s.registry.regInfo node).counterFor known) +
      .ofNat (recordText call.tm known (call.message.take (telLogLineSize - 1))).length

section Record
variable {os : Os} {s t : LogState α} {call : LogCall} {node : α} {known : LogSecurityLevel}

/-- The counter that a call leaves. -/
theorem advanced_counter {info : RegInfo} {counter : Counter} {length : Nat} {world : World} :
    ((s.advanced node (info.written counter length) world).registry.regInfo node).curSize.get
      counter = info.start counter + .ofNat length := by
  change ((Function.update s.registry.regInfo node _) node).curSize.get counter = _
  rw [Function.update_self, RegInfo.written, RegInfo.get_setCounter]

/-- A message that fills the line buffer counts for more than what is in it. -/
theorem RecordCut.short (h : RecordCut s t call node known) {world : World}
    (hState : t = s.advanced node
      ((s.registry.regInfo node).written ((s.registry.regInfo node).counterFor known)
        ((timeText call.tm known).length + call.message.length)) world)
    (hRoom : call.message.length ≤ telLogLineSize) : call.message.length < telLogLineSize := by
  have hCounter := h.counter
  rw [hState, advanced_counter, UInt32.add_right_inj, recordText, List.length_append,
    UInt32.ofNat_add, UInt32.ofNat_add, UInt32.add_right_inj, List.length_take] at hCounter
  apply lt_of_le_of_ne hRoom
  intro hFull
  rw [hFull] at hCounter
  exact absurd hCounter (by decide)

end Record

/-- A record that is written is as long as its line buffer allows, and counted
so, if and only if the message fits in the buffer with its terminator. -/
theorem log_record_cut_iff {os : Os} {s : LogState α} {call : LogCall} {node : α}
    {known : LogSecurityLevel} (h : Records os s call node known) :
    (∃ t, telWriteLog os s call = .ok t ∧ RecordCut s t call node known) ↔
      call.message.length < telLogLineSize := by
  constructor
  · rintro ⟨t, hCall, hCut⟩
    have hOutcome := telWriteLog_records h
    rw [hCall] at hOutcome
    obtain ⟨hRoom, world, hState, -, -⟩ := hOutcome
    exact hCut.short hState hRoom
  · intro hShort
    obtain ⟨world, hCall, hFiles⟩ := telWriteLog_records_short h hShort
    have hWhole : call.message.take (telLogLineSize - 1) = call.message :=
      List.take_of_length_le (Nat.le_pred_of_lt hShort)
    refine ⟨_, hCall, ?_, ?_⟩
    · rw [hWhole]
      exact hFiles
    · rw [hWhole]
      exact advanced_counter

/-- A message that does not fit in the line buffer at all is read behind its end. -/
theorem telWriteLog_overreads {os : Os} {s : LogState α} {call : LogCall} {node : α}
    {known : LogSecurityLevel} (h : Records os s call node known)
    (hLong : telLogLineSize < call.message.length) :
    telWriteLog os s call = .error (.stream .outsideBuffer) := by
  apply Sat.faults
  apply (telWriteLog_records h).mono
  · exact fun _ hWritten => (Nat.not_le_of_lt hLong hWritten.1).elim
  · exact fun _ hFault => hFault.1

theorem log_record_cut_one :
    ∃ t, telWriteLog ⟨fun _ => false⟩ oneModule oneCall = .ok t ∧
      RecordCut oneModule t oneCall 0 .info := by
  have hRecords : Records ⟨fun _ => false⟩ oneModule oneCall 0 .info :=
    ⟨oneCall_accepts, reachesWrite_of_reliable (fun _ => rfl) _ _⟩
  exact (log_record_cut_iff hRecords).mpr (by decide)

/-- A message one byte longer than the line buffer. -/
def longCall : LogCall := { oneCall with message := List.replicate (telLogLineSize + 1) 65 }

theorem log_record_long :
    telWriteLog ⟨fun _ => false⟩ oneModule longCall = .error (.stream .outsideBuffer) ∧
    ¬ ∃ t, telWriteLog ⟨fun _ => false⟩ oneModule longCall = .ok t ∧
      RecordCut oneModule t longCall 0 .info := by
  have hRecords : Records ⟨fun _ => false⟩ oneModule longCall 0 .info :=
    ⟨⟨rfl, oneCall_accepts.level, rfl⟩, reachesWrite_of_reliable (fun _ => rfl) _ _⟩
  have hLong : telLogLineSize < longCall.message.length := by
    rw [longCall, List.length_replicate]
    exact Nat.lt_succ_self _
  have hCall := telWriteLog_overreads hRecords hLong
  refine ⟨hCall, ?_⟩
  rintro ⟨t, hReturns, -⟩
  rw [hCall] at hReturns
  cases hReturns

end TelnetDebug.Log

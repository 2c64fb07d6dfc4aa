import TelnetDebug.Log.CallOutcomes

/-! The streams that writing a record opens. The function that positions the
stream closes it when `stat` fails, and its caller closes it then as well; the
caller returns without closing it when `localtime` fails. -/
namespace TelnetDebug.Log

open Linked Guarded Stdio

/-- The counters are as they were, or start again from zero where the size of
the file was reached. -/
def RegInfo.KeptOrReset (info other : RegInfo) : Prop :=
  ∀ counter, other.curSize.get counter = info.curSize.get counter ∨
    info.maxLogSize ≤ info.curSize.get counter ∧ other.curSize.get counter = 0

variable {α : Type}

/-- What a call owes the files it opened: its streams are closed when it
returns; it has put a record in its file, or left all contents alone and with
them the counters. -/
structure ClosedOnce (os : Os) (s : LogState α) (call : LogCall) (t : LogState α) : Prop where
  streams : s.world.AllClosed t.world
  wrote : ∀ node known, Records os s call node known → ∃ record, record ≠ [] ∧
    t.world.files = Function.update s.world.files (logPath (s.registry.regInfo node) known)
      (some (put (s.world.contents (logPath (s.registry.regInfo node) known))
        ((s.registry.regInfo node).start ((s.registry.regInfo node).counterFor known)).toNat
        record))
  quiet : (∀ node known, ¬ Records os s call node known) →
    (∀ path, t.world.contents path = s.world.contents path) ∧
      ∀ a, (s.registry.regInfo a).KeptOrReset (t.registry.regInfo a)

/-- The buffer of the message is read behind its end, which is no matter of the
streams. -/
def Overread (call : LogCall) (e : LogFault) : Prop :=
  e = .stream .outsideBuffer ∧ telLogLineSize < call.message.length

theorem Accepts.unique {s : LogState α} {call : LogCall} {node node' : α}
    {known known' : LogSecurityLevel} (h : Accepts s call node known)
    (h' : Accepts s call node' known') : node = node' ∧ known = known' := by
  have hNode := h.found.symm.trans h'.found
  have hKnown := h.known.symm.trans h'.known
  exact ⟨Option.some.inj (Except.ok.inj hNode), Option.some.inj hKnown⟩

variable [DecidableEq α]

section Calls
variable {os : Os} {s : LogState α} {call : LogCall} {node : α} {known : LogSecurityLevel}
  {xs : List α}

theorem telWriteLog_closes (h : Records os s call node known) :
    Sat (telWriteLog os s call) (ClosedOnce os s call) (Overread call) := by
  apply (telWriteLog_records h).imp
  rintro _ ⟨-, world, rfl, hClosed, hFiles⟩
  refine ⟨hClosed, ?_, fun hQuiet => (hQuiet node known h).elim⟩
  intro node' known' h'
  obtain ⟨rfl, rfl⟩ := h.accepts.unique h'.accepts
  exact ⟨_, List.append_ne_nil_of_left_ne_nil (timeText_ne_nil _ _) _, hFiles⟩

/-- A call that gives up closes what it opened, and nothing else comes of it. -/
theorem telWriteLog_gives_up (h : Accepts s call node known)
    (hStops : reachesStat os s.world (logPath (s.registry.regInfo node) known) = false) :
    Sat (telWriteLog os s call) (ClosedOnce os s call) (Overread call) := by
  apply telWriteLog_sat h
  apply (writeLogNode_gives_up h.known hStops).imp
  rintro ⟨_, world⟩ ⟨rfl, hClosed, hContents⟩
  refine ⟨hClosed, ?_, fun _ => ⟨hContents, fun a counter => .inl ?_⟩⟩
  · intro node' known' h'
    obtain ⟨rfl, rfl⟩ := h.unique h'.accepts
    rw [h'.reaches.1] at hStops
    cases hStops
  · change ((Function.update s.registry.regInfo node _) a).curSize.get counter = _
    rw [Function.update_eq_self]

/-- A failure of `stat` closes the stream twice. -/
theorem telWriteLog_closes_twice (h : Accepts s call node known)
    (hStat : reachesStat os s.world (logPath (s.registry.regInfo node) known) = true)
    (hFails : os.fails (checkCall os s.world (logPath (s.registry.regInfo node) known) + 1) =
      true) : telWriteLog os s call = .error (.stream .closedStream) := by
  apply Sat.faults
  apply telWriteLog_sat h
  rw [writeLogNode_closes_twice h.known hStat hFails]
  exact rfl

/-- A failure of `localtime` leaves the stream open. -/
theorem telWriteLog_leaks (h : Accepts s call node known)
    (hStat : reachesStat os s.world (logPath (s.registry.regInfo node) known) = true)
    (hPast : os.fails (checkCall os s.world (logPath (s.registry.regInfo node) known) + 1) = false)
    (hFails : os.fails (checkCall os s.world (logPath (s.registry.regInfo node) known) + 2) =
      true) : ∃ t, telWriteLog os s call = .ok t ∧ ¬ s.world.AllClosed t.world := by
  apply Sat.returns
  apply telWriteLog_sat h
  apply (writeLogNode_past_stat h.known hStat hPast).mono
  · rintro ⟨info, world⟩ hOpen
    rw [hFails, if_pos rfl] at hOpen
    exact hOpen
  · rintro _ ⟨hTime, -⟩
    rw [hFails] at hTime
    cases hTime

/-- A call closes what it opened exactly once, and leaves the counters alone when
it writes nothing, if and only if `stat` and `localtime` succeed once they are
called. -/
theorem log_streams_closed_iff (hList : s.registry.regList.Represents xs)
    (hNum : s.registry.listNum.toNat = xs.length) :
    Sat (telWriteLog os s call) (ClosedOnce os s call) (Overread call) ↔
      ∀ node known, Accepts s call node known →
        StatAndTimeSucceed os s.world (logPath (s.registry.regInfo node) known) := by
  constructor
  · intro hClosed node known hAccepts hStat
    cases hPast : os.fails
        (checkCall os s.world (logPath (s.registry.regInfo node) known) + 1) with
    | true =>
        rw [telWriteLog_closes_twice hAccepts hStat hPast] at hClosed
        cases hClosed.1
    | false =>
        refine ⟨rfl, ?_⟩
        rw [← Bool.not_eq_true]
        intro hTime
        obtain ⟨t, hCall, hOpen⟩ := telWriteLog_leaks hAccepts hStat hPast hTime
        rw [hCall] at hClosed
        exact hOpen hClosed.streams
  · intro hSucceed
    by_cases hAccepted : ∃ node known, Accepts s call node known
    · obtain ⟨node, known, hAccepts⟩ := hAccepted
      cases hStat : reachesStat os s.world (logPath (s.registry.regInfo node) known) with
      | true => exact telWriteLog_closes ⟨hAccepts, hStat, hSucceed node known hAccepts⟩
      | false => exact telWriteLog_gives_up hAccepts hStat
    · have hCases : telWriteLog os s call = .ok s ∨ _ := telWriteLog_cases hList hNum
      rcases hCases with hSame | ⟨node, known, h, -⟩
      · rw [hSame]
        refine ⟨.refl s.world, ?_, fun _ => ⟨fun _ => rfl, fun _ _ => .inl rfl⟩⟩
        exact fun node known h => (hAccepted ⟨node, known, h.accepts⟩).elim
      · exact (hAccepted ⟨node, known, h⟩).elim

end Calls

theorem log_streams_closed_one :
    Sat (telWriteLog ⟨fun _ => false⟩ oneModule oneCall)
      (ClosedOnce ⟨fun _ => false⟩ oneModule oneCall) (Overread oneCall) := by
  have hList : oneModule.registry.regList.Represents [0] := .cons rfl (.nil none)
  have hNum : oneModule.registry.listNum.toNat = 1 := rfl
  rw [log_streams_closed_iff hList hNum]
  exact fun _ _ _ => (reachesWrite_of_reliable (fun _ => rfl) _ _).2

/-- The file is created and opened by the calls 0 to 2 and checked by 3, so that
4 is `stat` and 5 is `localtime`. -/
theorem log_streams_misused :
    telWriteLog ⟨(· == 4)⟩ oneModule oneCall = .error (.stream .closedStream) ∧
    (∃ t, telWriteLog ⟨(· == 5)⟩ oneModule oneCall = .ok t ∧
      ¬ oneModule.world.AllClosed t.world) ∧
    ¬ Sat (telWriteLog ⟨(· == 4)⟩ oneModule oneCall)
      (ClosedOnce ⟨(· == 4)⟩ oneModule oneCall) (Overread oneCall) := by
  have hTwice : telWriteLog ⟨(· == 4)⟩ oneModule oneCall = .error (.stream .closedStream) :=
    telWriteLog_closes_twice oneCall_accepts rfl rfl
  refine ⟨hTwice, telWriteLog_leaks oneCall_accepts rfl rfl rfl, ?_⟩
  rw [hTwice]
  rintro ⟨hFault, -⟩
  cases hFault

end TelnetDebug.Log

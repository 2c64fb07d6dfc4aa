import TelnetDebug.Server.Isolation
import TelnetDebug.Session.EndOfInput
import TelnetDebug.Session.WriteLoop

/-! A connection that is not accepted. The failure is logged, and -1 is handed on
as the descriptor of a session. Its reads and writes fail, which neither loop
notices: the session goes on for ever, and each write returns that it has
succeeded after some four billion calls. -/
namespace TelnetDebug

open Descriptors Guarded

section Session

/-- A session without a connection. -/
structure Idle (t : Thread) : Prop where
  session : t.session = .init
  activity : t.activity = .starting ∨ t.activity = .reading
  reads : ∀ r ∈ t.reads, r = .failed .other

/-- Every thread for a refused connection is idle. -/
def RefusedIdle {F : Type} (st : Server F) : Prop :=
  ∀ t ∈ st.threads, asInt t.fdConn = -1 → Idle t

variable {F : Type} {sign : CharSign} {st : Server F} {i : Nat} {t u : Thread}

theorem init_step_failed (sign : CharSign) :
    Session.init.step sign (.failed .other) = .ok .init := by
  have hMid : Session.init.midLine = .ok false := midLine_end rfl
  rw [step_isEmpty sign rfl rfl, onOther_append hMid (by decide), append_const]
  rfl

/-- A step of one thread, whatever it does to the rest of the server. -/
theorem RefusedIdle.set (h : RefusedIdle st) (hIdle : asInt u.fdConn = -1 → Idle u)
    (process : Process (OpenFile F) Nat)
    (written : List (Nat × Option (OpenFile F) × List UInt8)) :
    RefusedIdle ⟨process, st.threads.set i u, written⟩ := by
  intro v hMem hRefused
  rcases List.mem_or_eq_of_mem_set hMem with hOld | rfl
  · exact h v hOld hRefused
  · exact hIdle hRefused

theorem RefusedIdle.makeNewSession (h : RefusedIdle st) (fdConn : UInt32) :
    RefusedIdle (st.makeNewSession fdConn) := by
  rw [makeNewSession_eq]
  intro u hMem hRefused
  rcases List.mem_append.mp hMem with hOld | hNew
  · exact h u hOld hRefused
  · rw [List.mem_singleton.mp hNew]
    exact ⟨rfl, .inl rfl, List.forall_mem_nil _⟩

theorem readShell_refused (h : RefusedIdle st) (hThread : t ∈ st.threads) (r : ReadResult) :
    Sat (st.readShell sign i t r) RefusedIdle (fun _ => True) := by
  by_cases hRefused : asInt t.fdConn = -1
  · have hIdle := h t hThread hRefused
    have hRead : st.readResult t r = .failed .other := by
      rw [Server.readResult, hRefused]
      rfl
    unfold Server.readShell
    simp only [hRead, hIdle.session, init_step_failed]
    apply h.set
    intro _
    refine ⟨rfl, hIdle.activity, fun r hMem => ?_⟩
    rcases List.mem_append.mp hMem with hOld | hNew
    · exact hIdle.reads r hOld
    · exact List.mem_singleton.mp hNew
  · unfold Server.readShell
    dsimp only
    split
    · trivial
    · next s _ =>
      have hOther (activity : Activity) : asInt t.fdConn = -1 →
          Idle ⟨t.fdConn, activity, s, t.reads ++ [st.readResult t r]⟩ :=
        fun hNone => absurd hNone hRefused
      split
      · exact h.set (hOther .ended) _ _
      · split
        · exact h.set (hOther (.command (.save .input))) _ _
        · exact h.set (hOther t.activity) _ _

theorem callShell_refused (h : RefusedIdle st) (hThread : t ∈ st.threads) {phase : Phase}
    (hPhase : t.activity = .command phase) : RefusedIdle (st.callShell i t phase) := by
  have hIdle (activity : Activity) (hRefused : asInt t.fdConn = -1) :
      Idle { t with activity } := by
    rcases (h t hThread hRefused).activity with hOther | hOther
    · rw [hPhase] at hOther
      cases hOther
    · rw [hPhase] at hOther
      cases hOther
  unfold Server.callShell
  dsimp only
  split
  · exact h.set (hIdle .reading) _ _
  · exact h.set (hIdle (.command phase.next)) _ _

theorem step_refused (h : RefusedIdle st) (event : ServerEvent) :
    Sat (st.step sign event) RefusedIdle (fun _ => True) := by
  cases event with
  | idle => exact h
  | accept arrived memory =>
      have hAccepted : RefusedIdle (st.accept arrived).2 := by
        unfold Server.accept
        split
        · exact h
        · exact h
      change Sat ((st.accept arrived).2.processThread (st.accept arrived).1 memory) _ _
      unfold Server.processThread
      split
      · exact hAccepted.makeNewSession _
      · trivial
  | start i =>
      refine resume_sat trivial fun t hThread => ?_
      split
      · apply h.set
        intro hRefused
        have hIdle := h t (List.mem_of_getElem? hThread) hRefused
        exact ⟨hIdle.session, .inr rfl, hIdle.reads⟩
      · trivial
  | read i r =>
      refine resume_sat trivial fun t hThread => ?_
      split
      · exact readShell_refused h (List.mem_of_getElem? hThread) r
      · trivial
  | call i =>
      refine resume_sat trivial fun t hThread => ?_
      split
      · next phase hPhase => exact callShell_refused h (List.mem_of_getElem? hThread) hPhase
      · trivial
  | output i s =>
      refine resume_sat trivial fun t hThread => ?_
      split
      · exact h
      · trivial

variable {process : Process (OpenFile F) Nat} {start : Server F} {socket bind : Bool}

/-- In every run, a session whose connection was not accepted stays as it was set
up, however often it reads; it never ends, and nothing that it writes goes
anywhere. -/
theorem refused_session_idle (hStd : Process.StdOpen process.table)
    (hStart : telnetSer process socket bind = some start) {events : List ServerEvent}
    (hVisit : Visits (Server.step sign) start events st) (hThread : st.threads[i]? = some t)
    (hRefused : asInt t.fdConn = -1) :
    Idle t ∧ ∀ file bytes, (i, file, bytes) ∈ st.written → file = none := by
  have hAll : Meets (Server.step sign) (fun _ _ => True) start events :=
    .of_forall fun _ _ => trivial
  have hNone : RefusedIdle start := by
    intro u hMem
    rw [telnetSer_eq hStart] at hMem
    cases hMem
  have hIdle : RefusedIdle st := hVisit.invariant
    (fun _ event h _ => (step_refused h event).mono (fun _ h => h) fun _ _ => trivial) hNone hAll
  have hServed : Serves sign st i t := (isolated_reached hStd hStart hVisit).threads i t hThread
  refine ⟨hIdle t (List.mem_of_getElem? hThread) hRefused, fun file bytes hMem => ?_⟩
  rw [hServed.files file bytes hMem, Thread.file, if_pos hRefused]

/-- An accepted connection, and one that is not. -/
theorem refused_session_idle_second :
    ∃ st t, run (Server.step .signed) listening [.accept true true, .accept false true, .start 1,
        .read 1 (.byte 13), .read 1 (.data [] (Nat.zero_le _))] = .ok st ∧ st.threads[1]? = some t ∧
      Idle t := by
  obtain ⟨st, hRun, hSecond⟩ :=
    (by decide +kernel : Sat (run (Server.step .signed) listening [.accept true true,
        .accept false true, .start 1, .read 1 (.byte 13), .read 1 (.data [] (Nat.zero_le _))])
      (fun st => st.threads[1]?.map Thread.fdConn = some 4294967295) (fun _ => False)).returns
  obtain ⟨t, hThread, hNumber⟩ := Option.map_eq_some_iff.mp hSecond
  have hStart : telnetSer terminalProcess true true = some listening := by
    rfl
  refine ⟨st, t, hRun, hThread, (refused_session_idle terminalProcess_std hStart
    ⟨_, List.prefix_rfl, hRun⟩ hThread ?_).1⟩
  rw [hNumber]
  rfl

end Session

section Writes
variable {writer : Writer} {count : UInt64} {errno : UInt32}

/-- All calls on a descriptor that refers to nothing fail. -/
def Writer.Dead (writer : Writer) (errno : UInt32) : Prop :=
  ∀ k size, writer.answer k size = .failed errno

/-- The call `k` of the loop: it starts `k` bytes in front of the buffer, modulo
the range of the offset. -/
def deadCall (size : Nat) (errno : UInt32) (k : Nat) : WriteCall :=
  ⟨(2 ^ 32 - k) % 2 ^ 32, size + k, .failed errno⟩

/-- The loop after `k` failed calls. -/
theorem dead_turns (hDead : writer.Dead errno) {k : Nat}
    (hTurns : count.toNat % 2 ^ 32 + k ≤ 2 ^ 32) (hSome : 0 < count.toNat % 2 ^ 32) :
    (writeCertainBytes writer count k).returned = none ∧
      (writeCertainBytes writer count k).left.toNat = (count.toNat % 2 ^ 32 + k) % 2 ^ 32 ∧
      (writeCertainBytes writer count k).finished.toNat = (2 ^ 32 - k) % 2 ^ 32 ∧
      (writeCertainBytes writer count k).calls =
        (List.range k).map (deadCall (count.toNat % 2 ^ 32) errno) := by
  induction k with
  | zero =>
      refine ⟨rfl, ?_, rfl, rfl⟩
      rw [Nat.add_zero, Nat.mod_mod]
      exact UInt64.toNat_toUInt32 count
  | succ k ih =>
      obtain ⟨hRunning, hLeft, hFinished, hCalls⟩ := ih (by omega)
      have hMore : count.toNat % 2 ^ 32 + k < 2 ^ 32 := by omega
      rw [Nat.mod_eq_of_lt hMore] at hLeft
      have hNext : WriteLoop.next writer (writeCertainBytes writer count k) =
          deadCall (count.toNat % 2 ^ 32) errno k := by
        rw [WriteLoop.next, hDead, hLeft, hFinished]
        rfl
      rw [writeCertainBytes_succ, WriteLoop.turn_call hRunning (by omega), hNext]
      refine ⟨hRunning, ?_, ?_, ?_⟩
      · change ((writeCertainBytes writer count k).left - -1).toNat = _
        rw [UInt32.sub_neg, UInt32.toNat_add, hLeft, UInt32.toNat_one]
        rfl
      · change ((writeCertainBytes writer count k).finished + -1).toNat = _
        rw [← UInt32.sub_eq_add_neg, UInt32.toNat_sub, hFinished, UInt32.toNat_one]
        omega
      · rw [List.range_succ, List.map_append, hCalls]
        rfl

/-- Where every call of `write` fails, the loop makes one call for each number
between the count and 2^32, all but the first behind the buffer, and then it
returns 0, although nothing was written. -/
theorem write_without_connection (hDead : writer.Dead errno) (hSome : 0 < count.toNat % 2 ^ 32) :
    (∀ turns ≤ 2 ^ 32 - count.toNat % 2 ^ 32,
      (writeCertainBytes writer count turns).returned = none) ∧
    (writeCertainBytes writer count (2 ^ 32 - count.toNat % 2 ^ 32 + 1)).returned = some 0 ∧
    (writeCertainBytes writer count (2 ^ 32 - count.toNat % 2 ^ 32 + 1)).calls =
      (List.range (2 ^ 32 - count.toNat % 2 ^ 32)).map
        (deadCall (count.toNat % 2 ^ 32) errno) := by
  have hSmall := Nat.mod_lt count.toNat (by decide : 0 < 2 ^ 32)
  obtain ⟨hRunning, hLeft, -, hCalls⟩ :=
    dead_turns (k := 2 ^ 32 - count.toNat % 2 ^ 32) hDead (by omega) hSome
  have hNone : (writeCertainBytes writer count (2 ^ 32 - count.toNat % 2 ^ 32)).left.toNat = 0 := by
    rw [hLeft, Nat.add_sub_cancel' (Nat.le_of_lt hSmall), Nat.mod_self]
  refine ⟨fun turns hTurns => (dead_turns hDead (by omega) hSome).1, ?_, ?_⟩
  · rw [writeCertainBytes_succ, WriteLoop.turn_done hRunning hNone]
  · rw [writeCertainBytes_succ, WriteLoop.turn_done hRunning hNone]
    exact hCalls

/-- A descriptor that is not open. -/
def deadWriter : Writer where
  answer _ _ := .failed 9
  bounded _ hWrote := by cases hWrote

/-- Three bytes of the negotiation. -/
theorem write_without_connection_negotiation :
    (writeCertainBytes deadWriter 3 4294967293).returned = none ∧
      (writeCertainBytes deadWriter 3 4294967294).returned = some 0 := by
  have hSize : (3 : UInt64).toNat % 2 ^ 32 = 3 := rfl
  have hDead : deadWriter.Dead 9 := fun _ _ => rfl
  obtain ⟨hRunning, hReturned, -⟩ := write_without_connection hDead
    (hSize.symm ▸ (by decide : 0 < 3) : 0 < (3 : UInt64).toNat % 2 ^ 32)
  rw [hSize] at hRunning hReturned
  exact ⟨hRunning _ (Nat.le_refl _), hReturned⟩

end Writes

end TelnetDebug

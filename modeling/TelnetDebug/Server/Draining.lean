import TelnetDebug.Session.Leaving
import TelnetDebug.Server.Ledger

/-! The server at rest. From every state that a run of the server reaches, the
sessions can be ended one after the other: a session that starts or executes a
command comes to its loop by steps of its own, and there its user can leave. -/
namespace TelnetDebug

open Descriptors Guarded

/-- The steps of a session up to its next read. -/
def Phase.callsLeft : Phase → Nat
  | save s => 10 - s.fd
  | redirect s => 7 - s.fd
  | command => 4
  | restore s => 3 - s.fd

theorem Phase.callsLeft_next {phase : Phase} (h : phase ≠ .restore .err) :
    phase.next.callsLeft < phase.callsLeft := by
  cases phase with
  | save s => cases s <;> decide
  | redirect s => cases s <;> decide
  | command => decide
  | restore s =>
      cases s with
      | input | output => decide
      | err => exact absurd rfl h

variable {F : Type} {sign : CharSign} {st st' st'' : Server F} {i : Nat} {t t' t'' : Thread}
  {activity : Activity}

/-- Only thread `i` has gone on, and it has executed nothing. -/
structure Turned (st st' : Server F) (i : Nat) (t t' : Thread) : Prop where
  threads : st'.threads = st.threads.set i t'
  fdConn : t'.fdConn = t.fdConn
  executed : t'.session.executed = t.session.executed

/-- Steps of thread `i` lead to a state in which it has this activity. -/
def Reaches (sign : CharSign) (st : Server F) (i : Nat) (t : Thread) (activity : Activity) :
    Prop :=
  ∃ events st' t', run (Server.step sign) st events = .ok st' ∧ Isolated sign st' ∧
    Turned st st' i t t' ∧ t'.activity = activity

section Turns

theorem Turned.refl (hThread : st.threads[i]? = some t) : Turned st st i t t := by
  obtain ⟨hIndex, rfl⟩ := List.getElem?_eq_some_iff.mp hThread
  exact ⟨(List.set_getElem_self hIndex).symm, rfl, rfl⟩

theorem Turned.trans (h : Turned st st' i t t') (hNext : Turned st' st'' i t' t'') :
    Turned st st'' i t t'' where
  threads := by rw [hNext.threads, h.threads, List.set_set]
  fdConn := hNext.fdConn.trans h.fdConn
  executed := hNext.executed.trans h.executed

theorem Turned.thread (h : Turned st st' i t t') (hThread : st.threads[i]? = some t) :
    st'.threads[i]? = some t' := by
  rw [h.threads]
  exact List.getElem?_set_self (List.getElem?_eq_some_iff.mp hThread).1

theorem Reaches.here (h : Isolated sign st) (hThread : st.threads[i]? = some t)
    (hActivity : t.activity = activity) : Reaches sign st i t activity :=
  ⟨[], st, t, rfl, h, .refl hThread, hActivity⟩

theorem Reaches.step (h : Isolated sign st) (hThread : st.threads[i]? = some t)
    {event : ServerEvent} (hStep : st.step sign event = .ok st') (hTurned : Turned st st' i t t')
    (hRest : Isolated sign st' → st'.threads[i]? = some t' → Reaches sign st' i t' activity) :
    Reaches sign st i t activity := by
  have hNext := step_isolated h event
  rw [hStep] at hNext
  obtain ⟨events, last, u, hRun, hLast, hMore, hActivity⟩ := hRest hNext (hTurned.thread hThread)
  refine ⟨event :: events, last, u, ?_, hLast, hTurned.trans hMore, hActivity⟩
  rw [run_cons, hStep, ok_bind, hRun]

theorem Reaches.trans {middle : Activity} (hThread : st.threads[i]? = some t)
    (hFirst : Reaches sign st i t middle)
    (hRest : ∀ (st' : Server F) (t' : Thread), Isolated sign st' → st'.threads[i]? = some t' →
      t'.activity = middle → t'.fdConn = t.fdConn → Reaches sign st' i t' activity) :
    Reaches sign st i t activity := by
  obtain ⟨events, st', t', hRun, h, hTurned, hMiddle⟩ := hFirst
  obtain ⟨more, last, u, hMore, hLast, hNext, hActivity⟩ :=
    hRest st' t' h (hTurned.thread hThread) hMiddle hTurned.fdConn
  refine ⟨events ++ more, last, u, ?_, hLast, hTurned.trans hNext, hActivity⟩
  rw [run_append, hRun, ok_bind, hMore]

end Turns

section Thread

/-- The calls around a command come to an end. -/
theorem command_reaches {phase : Phase} (h : Isolated sign st)
    (hThread : st.threads[i]? = some t) (hPhase : t.activity = .command phase) :
    Reaches sign st i t .reading := by
  induction hLeft : phase.callsLeft using Nat.strongRecOn generalizing st t phase with
  | ind left ih =>
      have hStep : st.step sign (.call i) = .ok (st.callShell i t phase) := by
        simp only [Server.step, Server.resume, hThread, hPhase]
      by_cases hLast : phase = .restore .err
      · subst hLast
        exact .step h hThread hStep ⟨rfl, rfl, rfl⟩ fun hNext hSelf => .here hNext hSelf rfl
      · have hTurned : Turned st (st.callShell i t phase) i t
            { t with activity := .command phase.next } := by
          refine ⟨?_, rfl, rfl⟩
          unfold Server.callShell
          dsimp only
          rw [if_neg hLast]
          rfl
        refine .step h hThread hStep hTurned fun hNext hSelf => ?_
        exact ih _ (hLeft ▸ Phase.callsLeft_next hLast) hNext hSelf rfl rfl

/-- A read of an accepted session, after which it has executed nothing. -/
theorem read_turned (h : Isolated sign st) (hThread : st.threads[i]? = some t)
    (hReading : t.activity = .reading) (hConn : asInt t.fdConn ≠ -1) {r : ReadResult}
    {s : Session} (hRound : t.session.step sign r = .ok s)
    (hExecuted : s.executed = t.session.executed) :
    ∃ st', st.step sign (.read i r) = .ok st' ∧ Turned st st' i t
      ⟨t.fdConn, if s.closed then .ended else .reading, s, t.reads ++ [r]⟩ := by
  have hActive : t.activity ≠ .ended := by simp [hReading]
  have hFile := ((h.threads i t hThread).file_eq hActive).resolve_left hConn
  have hRead : st.readResult t r = r := by
    unfold Server.readResult
    rw [hFile]
    rfl
  have hStep : st.step sign (.read i r) = st.readShell sign i t r := by
    simp only [Server.step, Server.resume, hThread, if_pos hReading]
  rw [hStep]
  unfold Server.readShell
  dsimp only
  rw [hRead, hRound]
  dsimp only
  split
  · exact ⟨_, rfl, rfl, rfl, hExecuted⟩
  · rw [if_neg (not_not_intro hExecuted)]
    refine ⟨_, rfl, ?_, rfl, hExecuted⟩
    rw [← hReading]
    rfl

/-- The reads that end a session end its thread. -/
theorem leaves_reaches (h : Isolated sign st) (hThread : st.threads[i]? = some t)
    (hReading : t.activity = .reading) (hConn : asInt t.fdConn ≠ -1) {reads : List ReadResult}
    (hLeaves : Leaves sign t.session reads) : Reaches sign st i t .ended := by
  generalize hSession : t.session = s at hLeaves
  induction hLeaves generalizing st t with
  | last hStep hExecuted hClosed =>
      subst hSession
      obtain ⟨st', hRead, hTurned⟩ := read_turned h hThread hReading hConn hStep hExecuted
      rw [if_pos hClosed] at hTurned
      exact .step h hThread hRead hTurned fun hNext hSelf => .here hNext hSelf rfl
  | next hStep hExecuted hOpen _ ih =>
      subst hSession
      obtain ⟨st', hRead, hTurned⟩ := read_turned h hThread hReading hConn hStep hExecuted
      rw [if_neg (by simp [hOpen])] at hTurned
      exact .step h hThread hRead hTurned fun hNext hSelf => ih hNext hSelf rfl hConn rfl

/-- Whatever an accepted session does, it can be ended. -/
theorem thread_reaches_end (h : Isolated sign st) (hThread : st.threads[i]? = some t)
    (hConn : asInt t.fdConn ≠ -1) : Reaches sign st i t .ended := by
  have hLoop (st : Server F) (t : Thread) (h : Isolated sign st)
      (hThread : st.threads[i]? = some t) (hReading : t.activity = .reading)
      (hConn : asInt t.fdConn ≠ -1) : Reaches sign st i t .ended := by
    have hOpen := (h.threads i t hThread).isOpen (by simp [hReading])
    exact leaves_reaches h hThread hReading hConn (leaving_leaves sign hOpen)
  cases hActivity : t.activity with
  | starting =>
      have hStep : st.step sign (.start i) = .ok (st.startShell i t) := by
        simp only [Server.step, Server.resume, hThread, if_pos hActivity]
      exact .step h hThread hStep ⟨rfl, rfl, rfl⟩ fun hNext hSelf =>
        hLoop _ _ hNext hSelf rfl hConn
  | reading => exact hLoop st t h hThread hActivity hConn
  | command phase =>
      refine .trans hThread (command_reaches h hThread hActivity) ?_
      intro st' t' h' hSelf hReading hFd
      exact hLoop st' t' h' hSelf hReading (hFd ▸ hConn)
  | ended => exact .here h hThread hActivity

end Thread

section Server

/-- What has become of a thread: nothing was executed, and a session that was
accepted has ended if its turn has come. -/
structure Drained (t t' : Thread) (turn : Prop) : Prop where
  fdConn : t'.fdConn = t.fdConn
  executed : t'.session.executed = t.session.executed
  ended : turn → asInt t.fdConn ≠ -1 → t'.activity = .ended

theorem Drained.imp {turn turn' : Prop} (h : Drained t t' turn) (hTurn : turn' → turn) :
    Drained t t' turn' :=
  ⟨h.fdConn, h.executed, fun hLater => h.ended (hTurn hLater)⟩

theorem Drained.later {turn turn' : Prop} (h : Drained t t' turn)
    (hTurned : Turned st st' i t' t'') (hEnded : t''.activity = .ended) : Drained t t'' turn' where
  fdConn := hTurned.fdConn.trans h.fdConn
  executed := hTurned.executed.trans h.executed
  ended _ _ := hEnded

/-- The first threads, one after the other. -/
theorem drain_first (h : Isolated sign st) (count : Nat) :
    ∃ events st', run (Server.step sign) st events = .ok st' ∧ Isolated sign st' ∧
      st'.threads.length = st.threads.length ∧ ∀ (i : Nat) (t : Thread),
        st.threads[i]? = some t → ∃ t', st'.threads[i]? = some t' ∧ Drained t t' (i < count) := by
  induction count with
  | zero =>
      exact ⟨[], st, rfl, h, rfl, fun i t hThread =>
        ⟨t, hThread, rfl, rfl, fun hTurn => absurd hTurn (Nat.not_lt_zero i)⟩⟩
  | succ count ih =>
      obtain ⟨events, st', hRun, h', hLength, hAll⟩ := ih
      by_cases hAccepted : ∃ t, st.threads[count]? = some t ∧ asInt t.fdConn ≠ -1
      · obtain ⟨t, hThread, hConn⟩ := hAccepted
        obtain ⟨t', hThread', hDrained⟩ := hAll count t hThread
        obtain ⟨more, last, u, hMore, hLast, hTurned, hEnded⟩ :=
          thread_reaches_end h' hThread' (hDrained.fdConn ▸ hConn)
        refine ⟨events ++ more, last, ?_, hLast, ?_, fun i v hOther => ?_⟩
        · rw [run_append, hRun, ok_bind, hMore]
        · rw [hTurned.threads, List.length_set, hLength]
        · by_cases hSelf : i = count
          · subst hSelf
            obtain rfl := Option.some.inj (hThread.symm.trans hOther)
            exact ⟨u, hTurned.thread hThread', hDrained.later hTurned hEnded⟩
          · obtain ⟨v', hThere, hBefore⟩ := hAll i v hOther
            refine ⟨v', ?_, hBefore.imp fun hTurn => by omega⟩
            rw [hTurned.threads, List.getElem?_set_ne (Ne.symm hSelf), hThere]
      · refine ⟨events, st', hRun, h', hLength, fun i t hThread => ?_⟩
        obtain ⟨t', hThread', hDrained⟩ := hAll i t hThread
        refine ⟨t', hThread', hDrained.fdConn, hDrained.executed, fun hTurn hConn => ?_⟩
        rcases Nat.lt_succ_iff_lt_or_eq.mp hTurn with hBefore | rfl
        · exact hDrained.ended hBefore hConn
        · exact absurd ⟨t, hThread, hConn⟩ hAccepted

variable {process : Process (OpenFile F) Nat} {start : Server F} {socket bind : Bool}

/-- No state of the server is a dead end. Whatever the clients have sent and in
whatever order the steps came, further steps of the sessions end every session
that was accepted, with nothing executed on the way. The numbers of the
connections come back, less the copies that commands still had to make. -/
theorem server_can_drain (hStd : Process.StdOpen process.table)
    (hStart : telnetSer process socket bind = some start) {events : List ServerEvent}
    (hVisit : Visits (Server.step sign) start events st) :
    ∃ more st', run (Server.step sign) st more = .ok st' ∧ st'.openConnections = 0 ∧
      st'.process.table.free + st.copiesMade sign more =
        st.process.table.free + st.openConnections ∧
      st'.threads.length = st.threads.length ∧
      ∀ (i : Nat) (t : Thread), st.threads[i]? = some t → ∃ t', st'.threads[i]? = some t' ∧
        t'.session.executed = t.session.executed ∧
          (asInt t.fdConn ≠ -1 → t'.activity = .ended) := by
  have h : Isolated sign st := isolated_reached hStd hStart hVisit
  obtain ⟨more, st', hRun, -, hLength, hAll⟩ := drain_first h st.threads.length
  have hNone : st'.openConnections = 0 := by
    rw [Server.openConnections, List.countP_eq_zero]
    intro u hMem hHolds
    obtain ⟨i, hIndex, hEntry⟩ := List.getElem_of_mem hMem
    have hOld : i < st.threads.length := hLength ▸ hIndex
    obtain ⟨t', hThread, hDrained⟩ := hAll i _ (List.getElem?_eq_getElem hOld)
    have hSame : t' = u := by
      rw [List.getElem?_eq_getElem hIndex, hEntry] at hThread
      exact (Option.some.inj hThread).symm
    subst hSame
    obtain ⟨hActive, hConn⟩ := of_decide_eq_true hHolds
    exact hActive (hDrained.ended hOld (hDrained.fdConn ▸ hConn))
  have hCapacity := run_capacity h hRun
  rw [Server.capacity, hNone] at hCapacity
  refine ⟨more, st', hRun, hNone, hCapacity, hLength, fun i t hThread => ?_⟩
  obtain ⟨t', hThread', hDrained⟩ := hAll i t hThread
  have hIndex := (List.getElem?_eq_some_iff.mp hThread).1
  exact ⟨t', hThread', hDrained.executed, hDrained.ended hIndex⟩

/-- From two sessions, one of which is in the midst of a command. -/
theorem server_can_drain_two :
    ∃ st more st', run (Server.step .signed) listening twoClients = .ok st ∧
      run (Server.step .signed) st more = .ok st' ∧ st'.openConnections = 0 := by
  obtain ⟨st, hRun, -⟩ :=
    (by decide +kernel : Sat (run (Server.step .signed) listening twoClients)
      (fun _ => True) (fun _ => False)).returns
  have hStart : telnetSer terminalProcess true true = some listening := by
    rfl
  obtain ⟨more, st', hMore, hNone, -⟩ :=
    server_can_drain terminalProcess_std hStart ⟨_, List.prefix_rfl, hRun⟩
  exact ⟨st, more, st', hRun, hMore, hNone⟩

end Server

end TelnetDebug

import TelnetDebug.Server.Isolation

/-! The account of the numbers of the descriptor table. A number is free, or it
belongs to an open connection, or it is lost to a copy that a command has made
of a standard descriptor: in no order of the steps does a number come back. -/
namespace TelnetDebug

open Descriptors Guarded

/-- The session is open and has a connection. -/
def Thread.holds (t : Thread) : Bool := decide (t.activity ≠ .ended ∧ asInt t.fdConn ≠ -1)

variable {F : Type}

namespace Server

def openConnections (st : Server F) : Nat := st.threads.countP Thread.holds

/-- The numbers that are free or will be when all sessions have ended. -/
def capacity (st : Server F) : Nat := st.process.table.free + st.openConnections

/-- Whether the step makes a copy of a standard descriptor. -/
def copies (st : Server F) : ServerEvent → Nat
  | .call i =>
      match st.threads[i]? with
      | some ⟨_, .command (.save _), _, _⟩ => if st.process.table.Full then 0 else 1
      | _ => 0
  | _ => 0

/-- The copies made in a run. -/
def copiesMade (sign : CharSign) : Server F → List ServerEvent → Nat
  | _, [] => 0
  | st, event :: events =>
      st.copies event + match st.step sign event with
        | .ok st' => copiesMade sign st' events
        | .error _ => 0

end Server

variable {sign : CharSign} {st st' : Server F} {i : Nat} {t u : Thread}

section Counting

theorem countP_set_same (hThread : st.threads[i]? = some t) (hSame : u.holds = t.holds) :
    (st.threads.set i u).countP Thread.holds = st.openConnections := by
  obtain ⟨hIndex, hEntry⟩ := List.getElem?_eq_some_iff.mp hThread
  rw [List.countP_set hIndex, hEntry, hSame, Server.openConnections]
  have hMem : t ∈ st.threads := List.mem_of_getElem? hThread
  cases hHolds : t.holds with
  | false => simp
  | true =>
      have hPos := List.countP_pos_iff.mpr ⟨t, hMem, hHolds⟩
      simp only [if_true]
      omega

theorem countP_set_lost (hThread : st.threads[i]? = some t) (hHolds : t.holds = true)
    (hLost : u.holds = false) :
    (st.threads.set i u).countP Thread.holds + 1 = st.openConnections := by
  obtain ⟨hIndex, hEntry⟩ := List.getElem?_eq_some_iff.mp hThread
  have hPos := List.countP_pos_iff.mpr ⟨t, List.mem_of_getElem? hThread, hHolds⟩
  rw [List.countP_set hIndex, hEntry, hHolds, hLost, Server.openConnections]
  simp only [if_true, Bool.false_eq_true, if_false]
  omega

theorem holds_of_active {activity : Activity} (hActive : t.activity ≠ .ended)
    (hStays : activity ≠ .ended) (s : Session) (reads : List ReadResult) :
    (⟨t.fdConn, activity, s, reads⟩ : Thread).holds = t.holds := by
  simp [Thread.holds, hActive, hStays]

theorem holds_ended (fdConn : UInt32) (s : Session) (reads : List ReadResult) :
    (⟨fdConn, .ended, s, reads⟩ : Thread).holds = false := by
  simp [Thread.holds]

end Counting

section Steps

theorem call_free {p : Process F Nat} (fdConn : UInt32) (h : Process.StdOpen p.table)
    (phase : Phase) : (phase.call fdConn p).table.free =
      p.table.free - (match phase with | .save _ => 1 | _ => 0) := by
  cases phase with
  | save s => exact Process.save_free (h s)
  | redirect s => exact (Process.redirect_table fdConn (h s)).1
  | command => rfl
  | restore s => exact (Process.dup2_std _ (h s)).1

theorem callShell_capacity (h : Isolated sign st) (hThread : st.threads[i]? = some t)
    {phase : Phase} (hPhase : t.activity = .command phase) :
    (st.callShell i t phase).capacity + st.copies (.call i) = st.capacity := by
  have hActive : t.activity ≠ .ended := by simp [hPhase]
  have hFree := call_free t.fdConn h.std phase
  have hCount : (st.callShell i t phase).openConnections = st.openConnections := by
    unfold Server.callShell
    dsimp only
    split
    · exact countP_set_same hThread (holds_of_active hActive (by simp) _ _)
    · exact countP_set_same hThread (holds_of_active hActive (by simp) _ _)
  have hTable : (st.callShell i t phase).process.table =
      (phase.call t.fdConn st.process).table := by
    unfold Server.callShell
    dsimp only
    split
    · rfl
    · rfl
  rw [Server.capacity, Server.capacity, hCount, hTable, hFree]
  obtain ⟨fdConn, activity, s, reads⟩ := t
  obtain rfl : activity = .command phase := hPhase
  unfold Server.copies
  simp only [hThread]
  cases phase with
  | save s =>
      by_cases hFull : st.process.table.Full
      · simp [hFull, Table.free_eq_zero.mpr hFull]
      · have hPos : st.process.table.free ≠ 0 := fun hZero => hFull (Table.free_eq_zero.mp hZero)
        simp only [if_neg hFull]
        omega
  | redirect s | command | restore s => rfl

theorem readShell_capacity (h : Isolated sign st) (hThread : st.threads[i]? = some t)
    (hReading : t.activity = .reading) (r : ReadResult) :
    Sat (st.readShell sign i t r) (fun st' => st'.capacity = st.capacity) (fun _ => True) := by
  have hActive : t.activity ≠ .ended := by simp [hReading]
  have hServed := h.threads i t hThread
  unfold Server.readShell
  dsimp only
  split
  · trivial
  · next s _ =>
    have hStays (activity : Activity) (hNext : activity ≠ .ended) := countP_set_same hThread
      (holds_of_active hActive hNext s (t.reads ++ [st.readResult t r]))
    split
    · have hEnded := holds_ended t.fdConn s (t.reads ++ [st.readResult t r])
      change (st.process.table.close (asInt t.fdConn)).free + (st.threads.set i _).countP _ = _
      rw [Server.capacity]
      by_cases hNone : asInt t.fdConn = -1
      · have hOut : t.holds = false := by simp [Thread.holds, hNone]
        rw [countP_set_same hThread (hEnded.trans hOut.symm), hNone, Table.close_negOne]
      · have hHeld : t.holds = true := by simp [Thread.holds, hNone, hActive]
        have hLost := countP_set_lost hThread hHeld hEnded
        have hConn := (hServed.file_eq hActive).resolve_left hNone
        cases hNumber : asInt t.fdConn with
        | ofNat n =>
            rw [hNumber] at hConn
            have hUsed : st.process.table.entry n ≠ none := by
              rw [show st.process.table.entry n = _ from hConn]
              exact Option.some_ne_none _
            have hClosed := Table.close_free hUsed
            change (st.process.table.close (n : Int)).free + _ = _
            omega
        | negSucc n =>
            rw [hNumber] at hConn
            cases hConn
    · split
      · exact congrArg (st.process.table.free + ·) (hStays _ (by simp))
      · exact congrArg (st.process.table.free + ·) (hStays _ hActive)

theorem makeNewSession_capacity (st : Server F) (fdConn : UInt32) :
    (st.makeNewSession fdConn).capacity =
      st.capacity + if asInt fdConn ≠ -1 then 1 else 0 := by
  rw [makeNewSession_eq, Server.capacity, Server.capacity, Server.openConnections]
  by_cases hNone : asInt fdConn = -1
  · simp [Thread.holds, hNone, Server.openConnections]
  · simp [Thread.holds, hNone, Server.openConnections, Nat.add_assoc]

theorem accepted_capacity (st : Server F) (arrived : Bool) :
    ((st.accept arrived).2.makeNewSession (asUnsigned (st.accept arrived).1)).capacity =
      st.capacity := by
  have hNone : asInt (asUnsigned (-1)) = -1 := asInt_asUnsigned (by decide) (by decide)
  have hRefused : (st.makeNewSession (asUnsigned (-1))).capacity = st.capacity := by
    rw [makeNewSession_capacity, hNone]
    rfl
  unfold Server.accept
  cases arrived with
  | false => exact hRefused
  | true =>
      rcases st.process.table.openFile_cases (.connection st.threads.length) with
        hFull | ⟨n, hFree, hLimit, hNumber, hSets⟩
      · simp only [if_true, hFull]
        exact hRefused
      · have hClient : asInt (asUnsigned n) = n := asInt_asUnsigned_number hLimit
        have hTaken := hSets.free_taken hFree hLimit
        simp only [if_true, hNumber]
        rw [makeNewSession_capacity, hClient, if_pos (by omega), Server.capacity, Server.capacity]
        simp only [Server.openConnections]
        omega

theorem step_capacity (h : Isolated sign st) (event : ServerEvent) :
    Sat (st.step sign event) (fun st' => st'.capacity + st.copies event = st.capacity)
      (fun _ => True) := by
  cases event with
  | idle => exact rfl
  | accept arrived memory =>
      change Sat ((st.accept arrived).2.processThread (st.accept arrived).1 memory) _ _
      unfold Server.processThread
      split
      · exact accepted_capacity st arrived
      · trivial
  | start i =>
      refine resume_sat trivial fun t hThread => ?_
      split
      · next hStarting =>
        have hActive : t.activity ≠ .ended := by simp [hStarting]
        have hStays : Activity.reading ≠ .ended := by simp
        have hHolds := holds_of_active hActive hStays t.session t.reads
        exact congrArg (st.process.table.free + ·) (countP_set_same hThread hHolds)
      · trivial
  | read i r =>
      refine resume_sat trivial fun t hThread => ?_
      split
      · next hReading => exact readShell_capacity h hThread hReading r
      · trivial
  | call i =>
      refine resume_sat trivial fun t hThread => ?_
      split
      · next phase hPhase => exact callShell_capacity h hThread hPhase
      · trivial
  | output i s =>
      refine resume_sat trivial fun t hThread => ?_
      split
      · exact rfl
      · trivial

end Steps

section Runs
variable {process : Process (OpenFile F) Nat} {start : Server F} {socket bind : Bool}

theorem run_capacity (h : Isolated sign st) {events : List ServerEvent}
    (hRun : run (Server.step sign) st events = .ok st') :
    st'.capacity + st.copiesMade sign events = st.capacity := by
  induction events generalizing st with
  | nil =>
      cases hRun
      rfl
  | cons event events ih =>
      have hIsolated := step_isolated h event
      have hCapacity := step_capacity h event
      rw [run_cons] at hRun
      obtain ⟨mid, hStep, hRest⟩ := bind_eq_ok.mp hRun
      rw [hStep] at hIsolated hCapacity
      have hLater := ih hIsolated hRest
      have hFirst : mid.capacity + st.copies event = st.capacity := hCapacity
      rw [Server.copiesMade, hStep]
      dsimp only
      omega

/-- In every run, the numbers that are free, those of the open connections, and
one for each copy that a command has made of a standard descriptor are together
the numbers that were free at the start: no copy is ever closed. -/
theorem descriptors_accounted (hStd : Process.StdOpen process.table)
    (hStart : telnetSer process socket bind = some start) {events : List ServerEvent}
    (hRun : run (Server.step sign) start events = .ok st) :
    st.process.table.free + st.openConnections + start.copiesMade sign events =
      start.process.table.free := by
  have hCapacity := run_capacity (telnetSer_isolated hStd hStart) hRun
  rw [Server.capacity, Server.capacity] at hCapacity
  rw [hCapacity, telnetSer_eq hStart]
  rfl

/-- One of two sessions has quit, the other one has executed a line. -/
theorem descriptors_accounted_two :
    ∃ st, run (Server.step .signed) listening twoClients = .ok st ∧
      st.process.table.free + st.openConnections + 3 = listening.process.table.free := by
  obtain ⟨st, hRun, -⟩ :=
    (by decide +kernel : Sat (run (Server.step .signed) listening twoClients)
      (fun _ => True) (fun _ => False)).returns
  have hCopies : listening.copiesMade .signed twoClients = 3 := by
    decide +kernel
  have hStart : telnetSer terminalProcess true true = some listening := by
    rfl
  refine ⟨st, hRun, ?_⟩
  rw [← hCopies]
  exact descriptors_accounted terminalProcess_std hStart hRun

end Runs

end TelnetDebug

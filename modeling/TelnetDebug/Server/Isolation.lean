import TelnetDebug.Server.TelnetSer

/-! The sessions do not disturb each other, in whatever order their steps come:
each has a number of its own that refers to its connection, all its threads write
themselves goes there, and its state depends on its own reads only. The output
of the commands is another matter. -/
namespace TelnetDebug

open Descriptors Guarded

/-- What is written before the first byte of a session. -/
def negotiation : List UInt8 :=
  [255, cmdDont, optEcho, 255, cmdDo, optNaws, 255, cmdDo, optLflow, 255, cmdWill, optEcho,
    255, cmdWill, optSga]

/-- What the session counts as sent, and the thread has still to write. -/
def Activity.pending : Activity → List UInt8
  | starting => Session.init.sent
  | reading => []
  | command _ => promptText
  | ended => []

variable {F : Type}

/-- The connection of a thread. One that was started after a failed `accept` has
none. -/
def Thread.file (i : Nat) (t : Thread) : Option (OpenFile F) :=
  if asInt t.fdConn = -1 then none else some (.connection i)

/-- The bytes that session `i` has written. -/
def Server.writtenBy (st : Server F) (i : Nat) : List UInt8 :=
  st.written.flatMap fun entry => if entry.1 = i then entry.2.2 else []

/-- The thread serves its own connection: its number refers to it as long as the
session is open, everything went there, and the session is the one that its reads
lead to. -/
structure Serves (sign : CharSign) (st : Server F) (i : Nat) (t : Thread) : Prop where
  session : shellThreadFunc sign .init t.reads = .ok t.session
  isOpen : t.activity ≠ .ended → t.session.closed = false
  number : ∀ s : Std, asInt t.fdConn ≠ s.fd
  conn : t.activity ≠ .ended → st.process.table.file (asInt t.fdConn) = t.file i
  written : st.writtenBy i ++ t.activity.pending = negotiation ++ t.session.sent
  files : ∀ file bytes, (i, file, bytes) ∈ st.written → file = t.file i

structure Isolated (sign : CharSign) (st : Server F) : Prop where
  std : Process.StdOpen st.process.table
  threads : ∀ i t, st.threads[i]? = some t → Serves sign st i t
  indices : ∀ entry ∈ st.written, entry.1 < st.threads.length

variable {sign : CharSign} {st : Server F} {i j : Nat} {t t' u : Thread}
  {process : Process (OpenFile F) Nat} {entries : List (Nat × Option (OpenFile F) × List UInt8)}

section Written

theorem writtenBy_append (process : Process (OpenFile F) Nat) (threads : List Thread) (i : Nat) :
    (⟨process, threads, st.written ++ entries⟩ : Server F).writtenBy i =
      st.writtenBy i ++ entries.flatMap fun entry => if entry.1 = i then entry.2.2 else [] :=
  List.flatMap_append

theorem writtenBy_other (hEntries : ∀ entry ∈ entries, entry.1 = i) (hOther : j ≠ i)
    (process : Process (OpenFile F) Nat) (threads : List Thread) :
    (⟨process, threads, st.written ++ entries⟩ : Server F).writtenBy j = st.writtenBy j := by
  have hNone : entries.flatMap (fun entry => if entry.1 = j then entry.2.2 else []) = [] := by
    rw [List.flatMap_eq_nil_iff]
    intro entry hMem
    rw [hEntries entry hMem, if_neg hOther.symm]
  rw [writtenBy_append, hNone, List.append_nil]

end Written

section Turns

theorem Serves.file_eq (h : Serves sign st i t) (hActive : t.activity ≠ .ended) :
    asInt t.fdConn = -1 ∨ st.process.table.file (asInt t.fdConn) = some (.connection i) := by
  by_cases hNone : asInt t.fdConn = -1
  · exact .inl hNone
  · refine .inr ?_
    rw [h.conn hActive, Thread.file, if_neg hNone]

/-- Two open sessions have different numbers. -/
theorem Serves.distinct (h : Serves sign st i t) (h' : Serves sign st j u) (hNe : j ≠ i)
    (hActive : t.activity ≠ .ended) (hActive' : u.activity ≠ .ended)
    (hSame : asInt u.fdConn = asInt t.fdConn) : asInt u.fdConn = -1 := by
  rcases h.file_eq hActive with hNone | hFile
  · exact hSame.trans hNone
  · rcases h'.file_eq hActive' with hNone | hFile'
    · exact hNone
    · rw [hSame, hFile] at hFile'
      cases hFile'
      exact absurd rfl hNe

/-- What one session does leaves the others as they are. -/
theorem Serves.other (h : Serves sign st j u) (hOther : j ≠ i)
    (hEntries : ∀ entry ∈ entries, entry.1 = i) (threads : List Thread)
    (hTable : u.activity ≠ .ended → asInt u.fdConn ≠ -1 →
      process.table.file (asInt u.fdConn) = st.process.table.file (asInt u.fdConn)) :
    Serves sign ⟨process, threads, st.written ++ entries⟩ j u where
  session := h.session
  isOpen := h.isOpen
  number := h.number
  conn hActive := by
    by_cases hNone : asInt u.fdConn = -1
    · rw [Thread.file, if_pos hNone, hNone]
      rfl
    · rw [← h.conn hActive]
      exact hTable hActive hNone
  written := by
    rw [writtenBy_other hEntries hOther]
    exact h.written
  files file bytes hMem := by
    rcases List.mem_append.mp hMem with hOld | hNew
    · exact h.files file bytes hOld
    · exact absurd (hEntries _ hNew) hOther

/-- The step of a thread: it may close its own number, and the numbers of the
others refer to what they referred to. -/
theorem Isolated.turn (h : Isolated sign st) (hThread : st.threads[i]? = some t)
    (hActive : t.activity ≠ .ended) (hEntries : ∀ entry ∈ entries, entry.1 = i)
    (hStd : Process.StdOpen process.table)
    (hTable : ∀ m : Int, (∀ s : Std, m ≠ s.fd) → m ≠ asInt t.fdConn →
      st.process.table.file m ≠ none → process.table.file m = st.process.table.file m)
    (hServes : Serves sign ⟨process, st.threads.set i t', st.written ++ entries⟩ i t') :
    Isolated sign ⟨process, st.threads.set i t', st.written ++ entries⟩ where
  std := hStd
  threads j u hOther := by
    have hServed := h.threads i t hThread
    by_cases hSelf : j = i
    · subst hSelf
      have hSet : (st.threads.set j t')[j]? = some t' :=
        List.getElem?_set_self (List.getElem?_eq_some_iff.mp hThread).1
      obtain rfl := Option.some.inj (hSet.symm.trans hOther)
      exact hServes
    · have hSame : st.threads[j]? = some u := by
        rw [← hOther]
        exact (List.getElem?_set_ne (Ne.symm hSelf)).symm
      have hBefore := h.threads j u hSame
      refine hBefore.other hSelf hEntries _ fun hOpen hConn => ?_
      refine hTable _ hBefore.number (fun hNumber => ?_) ?_
      · exact hConn (hServed.distinct hBefore hSelf hActive hOpen hNumber)
      · rw [hBefore.conn hOpen, Thread.file, if_neg hConn]
        exact Option.some_ne_none _
  indices entry hMem := by
    have hIndex := (List.getElem?_eq_some_iff.mp hThread).1
    change entry.1 < (st.threads.set i t').length
    rw [List.length_set]
    rcases List.mem_append.mp hMem with hOld | hNew
    · exact h.indices entry hOld
    · rwa [hEntries entry hNew]

end Turns

section Writing

/-- A thread writes once and goes on. -/
theorem Serves.wrote (h : Serves sign st i t) (hActive : t.activity ≠ .ended)
    {bytes : List UInt8} {activity : Activity} {s : Session} {reads : List ReadResult}
    (hSession : shellThreadFunc sign .init reads = .ok s)
    (hOpen : activity ≠ .ended → s.closed = false)
    (hTable : activity ≠ .ended →
      process.table.file (asInt t.fdConn) = st.process.table.file (asInt t.fdConn))
    (hWritten : st.writtenBy i ++ bytes ++ activity.pending = negotiation ++ s.sent)
    (threads : List Thread) :
    Serves sign ⟨process, threads,
      st.written ++ [(i, st.process.table.file (asInt t.fdConn), bytes)]⟩ i
        ⟨t.fdConn, activity, s, reads⟩ where
  session := hSession
  isOpen := hOpen
  number := h.number
  conn hStays := (hTable hStays).trans (h.conn hActive)
  written := by
    rw [writtenBy_append]
    simpa using hWritten
  files file bytes' hMem := by
    rcases List.mem_append.mp hMem with hOld | hNew
    · exact h.files file bytes' hOld
    · obtain ⟨-, hPair⟩ := Prod.mk.inj (List.mem_singleton.mp hNew)
      obtain ⟨rfl, -⟩ := Prod.mk.inj hPair
      exact h.conn hActive

/-- A thread writes, its session stays open, and it goes on to an activity. -/
theorem Isolated.continues (h : Isolated sign st) (hThread : st.threads[i]? = some t)
    (hActive : t.activity ≠ .ended) {bytes : List UInt8} {activity : Activity} {s : Session}
    {reads : List ReadResult} (hSession : shellThreadFunc sign .init reads = .ok s)
    (hOpen : s.closed = false)
    (hWritten : st.writtenBy i ++ bytes ++ activity.pending = negotiation ++ s.sent) :
    Isolated sign ((st.write i t.fdConn bytes).setThread i ⟨t.fdConn, activity, s, reads⟩) := by
  have hServed := h.threads i t hThread
  apply h.turn hThread hActive
  · intro entry hMem
    rw [List.mem_singleton.mp hMem]
  · exact h.std
  · intro m _ _ _
    rfl
  · exact hServed.wrote hActive hSession (fun _ => hOpen) (fun _ => rfl) hWritten _

/-- A thread writes for the last time and closes its connection. -/
theorem Isolated.quits (h : Isolated sign st) (hThread : st.threads[i]? = some t)
    (hActive : t.activity ≠ .ended) {bytes : List UInt8} {s : Session} {reads : List ReadResult}
    (hSession : shellThreadFunc sign .init reads = .ok s)
    (hWritten : st.writtenBy i ++ bytes = negotiation ++ s.sent) :
    Isolated sign (Server.setThread
      { st.write i t.fdConn bytes with
        process := { st.process with table := st.process.table.close (asInt t.fdConn) } }
      i ⟨t.fdConn, .ended, s, reads⟩) := by
  have hServed := h.threads i t hThread
  apply h.turn hThread hActive
  · intro entry hMem
    rw [List.mem_singleton.mp hMem]
  · intro r
    change (st.process.table.close (asInt t.fdConn)).file r.fd ≠ none
    rw [Table.close_file, if_neg (hServed.number r).symm]
    exact h.std r
  · intro m _ hNumber _
    exact (Table.close_file ..).trans (if_neg hNumber)
  · apply hServed.wrote hActive hSession
    · intro hEnded
      exact absurd rfl hEnded
    · intro hEnded
      exact absurd rfl hEnded
    · rw [hWritten]
      exact List.append_nil _

end Writing

section Calls
variable {p : Process F Nat}

/-- What a call of a command phase leaves as it was. -/
theorem call_keeps (fdConn : UInt32) (phase : Phase) (h : Process.StdOpen p.table) :
    Process.StdOpen (phase.call fdConn p).table ∧
      ∀ m : Int, (∀ s : Std, m ≠ s.fd) → p.table.file m ≠ none →
        (phase.call fdConn p).table.file m = p.table.file m := by
  cases phase with
  | save s =>
      exact ⟨h.grows (Process.save_grows s p), fun m _ hUsed =>
        (Process.save_extends s p).file hUsed⟩
  | redirect s =>
      exact ⟨h.grows (Process.redirect_grows fdConn s p), fun m hOther _ =>
        (Process.redirect_table fdConn (h s)).2 m (hOther s)⟩
  | command => exact ⟨h, fun _ _ _ => rfl⟩
  | restore s =>
      refine ⟨h.grows (Process.restore_grows s p), fun m hOther _ => ?_⟩
      change (p.restore s).table.file m = _
      rw [Process.restore_file (h s), if_neg (hOther s)]

/-- A change of the process that spares the numbers of the connections. -/
theorem Isolated.spared (h : Isolated sign st) (hStd : Process.StdOpen process.table)
    (hTable : ∀ m : Int, (∀ s : Std, m ≠ s.fd) → st.process.table.file m ≠ none →
      process.table.file m = st.process.table.file m) :
    Isolated sign { st with process } where
  std := hStd
  threads i t hThread := by
    have hServed := h.threads i t hThread
    refine ⟨hServed.session, hServed.isOpen, hServed.number, fun hActive => ?_, hServed.written,
      hServed.files⟩
    rw [← hServed.conn hActive]
    rcases hServed.file_eq hActive with hNone | hFile
    · rw [hNone]
      rfl
    · exact hTable _ hServed.number (hFile ▸ Option.some_ne_none _)
  indices := h.indices

/-- A thread goes on to another activity without writing. -/
theorem Isolated.goOn (h : Isolated sign st) (hThread : st.threads[i]? = some t)
    {activity : Activity} (hActive : t.activity ≠ .ended)
    (hPending : activity.pending = t.activity.pending) :
    Isolated sign (st.setThread i { t with activity }) := by
  have hServed := h.threads i t hThread
  have hNone : ∀ entry ∈ ([] : List (Nat × Option (OpenFile F) × List UInt8)), entry.1 = i :=
    List.forall_mem_nil _
  change Isolated sign ⟨st.process, st.threads.set i { t with activity }, st.written⟩
  rw [← List.append_nil st.written]
  apply h.turn hThread hActive hNone h.std
  · intro m _ _ _
    rfl
  · rw [List.append_nil]
    refine ⟨hServed.session, fun _ => hServed.isOpen hActive, hServed.number,
      fun _ => hServed.conn hActive, ?_, hServed.files⟩
    change st.writtenBy i ++ activity.pending = _
    rw [hPending]
    exact hServed.written

/-- A thread writes what its session counts as sent already. -/
theorem Isolated.writes (h : Isolated sign st) (hThread : st.threads[i]? = some t)
    (hActive : t.activity ≠ .ended) :
    Isolated sign ((st.write i t.fdConn t.activity.pending).setThread i
      { t with activity := .reading }) := by
  have hServed := h.threads i t hThread
  apply h.continues hThread hActive hServed.session (hServed.isOpen hActive)
  rw [hServed.written]
  exact List.append_nil _

theorem Isolated.startShell (h : Isolated sign st) (hThread : st.threads[i]? = some t)
    (hStarting : t.activity = .starting) : Isolated sign (st.startShell i t) := by
  have hWrites := h.writes hThread (by simp [hStarting])
  rwa [hStarting] at hWrites

theorem Isolated.callShell (h : Isolated sign st) (hThread : st.threads[i]? = some t)
    {phase : Phase} (hPhase : t.activity = .command phase) :
    Isolated sign (st.callShell i t phase) := by
  have hActive : t.activity ≠ .ended := by simp [hPhase]
  obtain ⟨hStd, hTable⟩ := call_keeps t.fdConn phase h.std
  have hCalled := h.spared hStd hTable
  unfold Server.callShell
  dsimp only
  split
  · have hWrites := hCalled.writes hThread hActive
    rwa [hPhase] at hWrites
  · apply hCalled.goOn hThread hActive
    rw [hPhase]
    rfl

end Calls

section Reading

theorem readShell_isolated (h : Isolated sign st) (hThread : st.threads[i]? = some t)
    (hReading : t.activity = .reading) (r : ReadResult) :
    Sat (st.readShell sign i t r) (Isolated sign) (fun e => ∃ f, e = .session i f ∧
      shellThreadFunc sign .init (t.reads ++ [st.readResult t r]) = .error f) := by
  have hActive : t.activity ≠ .ended := by simp [hReading]
  have hServed := h.threads i t hThread
  have hRun (r : ReadResult) :
      shellThreadFunc sign .init (t.reads ++ [r]) = t.session.step sign r := by
    rw [shellThreadFunc, run_append, ← shellThreadFunc, hServed.session, ok_bind, run_cons]
    exact bind_pure _
  unfold Server.readShell
  dsimp only
  generalize st.readResult t r = r
  have hSends := step_sends sign t.session r
  cases hStep : t.session.step sign r with
  | error f =>
      refine ⟨f, rfl, ?_⟩
      rw [hRun, hStep]
  | ok s =>
      rw [hStep] at hSends
      have hSession := (hRun r).trans hStep
      have hSent : negotiation ++ s.sent =
          st.writtenBy i ++ s.sent.drop t.session.sent.length := by
        have hBefore := hServed.written
        rw [hReading] at hBefore
        rw [← hSends.sent, ← List.append_assoc, ← hBefore]
        simp [Activity.pending]
      dsimp only
      split
      · next hClosed => exact h.quits hThread hActive hSession hSent.symm
      · next hStays =>
        have hOpen : s.closed = false := eq_false_of_ne_true hStays
        split
        · next hCommand =>
          obtain ⟨before, hPrompt⟩ := hSends.prompt hCommand
          apply h.continues hThread hActive hSession hOpen
          rw [hSent, hPrompt]
          simp [Activity.pending]
        · apply h.continues hThread hActive hSession hOpen
          rw [hSent, hReading]
          exact List.append_nil _

end Reading

section Accepting

theorem writtenBy_none (h : Isolated sign st) : st.writtenBy st.threads.length = [] := by
  rw [Server.writtenBy, List.flatMap_eq_nil_iff]
  intro entry hMem
  exact if_neg (Nat.ne_of_lt (h.indices entry hMem))

/-- The entries that `make_new_session` writes. -/
def negotiated (st : Server F) (fdConn : UInt32) : List (Nat × Option (OpenFile F) × List UInt8) :=
  [[255, cmdDont, optEcho], [255, cmdDo, optNaws], [255, cmdDo, optLflow], [255, cmdWill, optEcho],
    [255, cmdWill, optSga]].map fun bytes =>
      (st.threads.length, st.process.table.file (asInt fdConn), bytes)

theorem makeNewSession_eq (st : Server F) (fdConn : UInt32) :
    st.makeNewSession fdConn =
      ⟨st.process, st.threads ++ [⟨fdConn, .starting, .init, []⟩],
        st.written ++ negotiated st fdConn⟩ := by
  unfold Server.makeNewSession Server.sendIac Server.write negotiated
  simp

/-- The next session is told apart from the others by its number, or has none. -/
theorem Isolated.makeNewSession (h : Isolated sign st) {fdConn : UInt32}
    (hNumber : ∀ s : Std, asInt fdConn ≠ s.fd)
    (hConn : asInt fdConn = -1 ∨
      st.process.table.file (asInt fdConn) = some (.connection st.threads.length)) :
    Isolated sign (st.makeNewSession fdConn) := by
  have hFile : st.process.table.file (asInt fdConn) =
      (⟨fdConn, .starting, .init, []⟩ : Thread).file st.threads.length := by
    rw [Thread.file]
    split
    · next hNone =>
      rw [hNone]
      rfl
    · next hSome => exact hConn.resolve_left hSome
  have hEntries : ∀ entry ∈ negotiated st fdConn, entry.1 = st.threads.length := by
    simp [negotiated]
  rw [makeNewSession_eq]
  constructor
  · exact h.std
  · intro j u hThread
    rcases Nat.lt_or_ge j st.threads.length with hOld | hNew
    · rw [List.getElem?_append_left hOld] at hThread
      exact (h.threads j u hThread).other (Nat.ne_of_lt hOld) hEntries _ fun _ _ => rfl
    · rw [List.getElem?_append_right hNew] at hThread
      obtain ⟨hLast, rfl⟩ : j = st.threads.length ∧ ⟨fdConn, .starting, .init, []⟩ = u := by
        have hIndex := (List.getElem?_eq_some_iff.mp hThread).1
        rw [List.length_singleton, Nat.lt_one_iff] at hIndex
        rw [hIndex] at hThread
        exact ⟨by omega, Option.some.inj hThread⟩
      subst hLast
      refine ⟨rfl, fun _ => rfl, hNumber, fun _ => hFile, ?_, ?_⟩
      · rw [writtenBy_append, writtenBy_none h]
        simp [negotiated, negotiation, Activity.pending]
      · intro file bytes hMem
        rcases List.mem_append.mp hMem with hBefore | hNow
        · exact absurd rfl (Nat.ne_of_lt (h.indices _ hBefore))
        · simp only [negotiated, List.mem_map] at hNow
          obtain ⟨_, -, hEntry⟩ := hNow
          cases hEntry
          exact hFile
  · intro entry hMem
    change entry.1 < (st.threads ++ [_]).length
    rw [List.length_append, List.length_singleton]
    rcases List.mem_append.mp hMem with hOld | hNew
    · exact Nat.lt_succ_of_lt (h.indices entry hOld)
    · rw [hEntries entry hNew]
      exact Nat.lt_succ_self _

theorem asInt_asUnsigned_number {t : Table F} {n : Nat} (h : n < t.limit) :
    asInt (asUnsigned n) = n := by
  have hSmall := Nat.lt_of_lt_of_le h t.limit_le
  exact asInt_asUnsigned (by omega) (by omega)

/-- A failed `accept` starts a session as well. -/
theorem Isolated.accepted (h : Isolated sign st) (arrived : Bool) :
    Isolated sign ((st.accept arrived).2.makeNewSession (asUnsigned (st.accept arrived).1)) := by
  have hRefused : Isolated sign (st.makeNewSession (asUnsigned (-1))) := by
    have hNone : asInt (asUnsigned (-1)) = -1 := asInt_asUnsigned (by decide) (by decide)
    apply h.makeNewSession
    · intro s
      rw [hNone]
      cases s <;> decide
    · exact .inl hNone
  unfold Server.accept
  cases arrived with
  | false => exact hRefused
  | true =>
      rcases st.process.table.openFile_cases (.connection st.threads.length) with
        hFull | ⟨n, hFree, hLimit, hNumber, hSets⟩
      · simp only [if_true, hFull]
        exact hRefused
      · have hClient : asInt (asUnsigned n) = n := asInt_asUnsigned_number hLimit
        have hSpared : Isolated sign { st with process := { st.process with
            table := (st.process.table.openFile (.connection st.threads.length)).2 } } :=
          h.spared (h.std.grows hSets.grows) fun m _ hUsed => (hSets.extends hFree).file hUsed
        simp only [if_true, hNumber]
        apply hSpared.makeNewSession
        · intro s hSame
          rw [hClient] at hSame
          exact h.std s (Int.ofNat_inj.mp hSame ▸ hFree)
        · refine .inr ?_
          rw [hClient, hSets.file, if_pos rfl]

end Accepting

section Runs

theorem resume_sat {step : Thread → Except ServerFault (Server F)} {post : Server F → Prop}
    {fault : ServerFault → Prop} (hNone : fault .disabled)
    (hSome : ∀ t, st.threads[i]? = some t → Sat (step t) post fault) :
    Sat (st.resume i step) post fault := by
  unfold Server.resume
  split
  · next t hThread => exact hSome t hThread
  · exact hNone

/-- A session ends the server only by a fault that its own reads lead to, the
last of which is this event. -/
def OwnFault (sign : CharSign) (st : Server F) (event : ServerEvent) (e : ServerFault) : Prop :=
  ∀ i f, e = .session i f → ∃ t r, event = .read i r ∧ st.threads[i]? = some t ∧
    shellThreadFunc sign .init (t.reads ++ [st.readResult t r]) = .error f

theorem ownFault_disabled {event : ServerEvent} : OwnFault sign st event .disabled :=
  fun _ _ h => by cases h

theorem step_isolated (h : Isolated sign st) (event : ServerEvent) :
    Sat (st.step sign event) (Isolated sign) (OwnFault sign st event) := by
  cases event with
  | idle => exact h
  | accept arrived memory =>
      have hAccepted := h.accepted arrived
      change Sat ((st.accept arrived).2.processThread (st.accept arrived).1 memory) _ _
      unfold Server.processThread
      split
      · exact hAccepted
      · exact fun _ _ hAborted => by cases hAborted
  | start i =>
      refine resume_sat ownFault_disabled fun t hThread => ?_
      split
      · next hStarting => exact h.startShell hThread hStarting
      · exact ownFault_disabled
  | read i r =>
      refine resume_sat ownFault_disabled fun t hThread => ?_
      split
      · next hReading =>
        refine (readShell_isolated h hThread hReading r).mono (fun _ h => h) ?_
        rintro _ ⟨f, rfl, hRun⟩ j g hFault
        cases hFault
        exact ⟨t, r, rfl, hThread, hRun⟩
      · exact ownFault_disabled
  | call i =>
      refine resume_sat ownFault_disabled fun t hThread => ?_
      split
      · next phase hPhase => exact h.callShell hThread hPhase
      · exact ownFault_disabled
  | output i s =>
      refine resume_sat ownFault_disabled fun t hThread => ?_
      split
      · exact h.spared h.std fun _ _ _ => rfl
      · exact ownFault_disabled

variable {process : Process (OpenFile F) Nat} {start : Server F} {socket bind : Bool}

/-- The server that was set up waits for its first connection. -/
theorem telnetSer_eq (hStart : telnetSer process socket bind = some start) :
    start = ⟨{ process with table := (process.table.openFile .listener).2 }, [], []⟩ := by
  unfold telnetSer at hStart
  dsimp only at hStart
  split at hStart
  · split at hStart
    · cases hStart
    · split at hStart
      · exact (Option.some.inj hStart).symm
      · cases hStart
  · cases hStart

theorem telnetSer_isolated (hStd : Process.StdOpen process.table)
    (hStart : telnetSer process socket bind = some start) : Isolated sign start := by
  rw [telnetSer_eq hStart]
  refine ⟨?_, fun i t hThread => by simp at hThread, List.forall_mem_nil _⟩
  rcases process.table.openFile_cases .listener with hFull | ⟨n, -, -, -, hSets⟩
  · rw [hFull]
    exact hStd
  · exact hStd.grows hSets.grows

theorem isolated_reached (hStd : Process.StdOpen process.table)
    (hStart : telnetSer process socket bind = some start) {events : List ServerEvent}
    (hVisit : Visits (Server.step sign) start events st) : Isolated sign st := by
  have hAll : Meets (Server.step sign) (fun _ _ => True) start events :=
    .of_forall fun _ _ => trivial
  exact hVisit.invariant
    (fun _ event h _ => (step_isolated h event).mono (fun _ h => h) fun _ _ => trivial)
    (telnetSer_isolated hStd hStart) hAll

/-- Whatever the order of the steps of all sessions is: each session serves its
own connection, and two open connections have different numbers. -/
theorem sessions_isolated (hStd : Process.StdOpen process.table)
    (hStart : telnetSer process socket bind = some start) {events : List ServerEvent}
    (hVisit : Visits (Server.step sign) start events st) :
    (∀ i t, st.threads[i]? = some t → Serves sign st i t) ∧
      ∀ (i j : Nat) (t u : Thread), st.threads[i]? = some t → st.threads[j]? = some u → j ≠ i →
        t.activity ≠ .ended → u.activity ≠ .ended → asInt t.fdConn ≠ -1 →
          u.fdConn ≠ t.fdConn := by
  have h : Isolated sign st := isolated_reached hStd hStart hVisit
  refine ⟨h.threads, fun i j t u hThread hOther hNe hActive hActive' hConn hSame => hConn ?_⟩
  have hNumbers : asInt u.fdConn = asInt t.fdConn := by rw [hSame]
  rw [← hNumbers]
  exact (h.threads i t hThread).distinct (h.threads j u hOther) hNe hActive hActive' hNumbers

/-- A process with three descriptors, and what it accepts numbers from. -/
def terminalProcess : Process (OpenFile Nat) Nat where
  table :=
    { limit := 20
      entry := fun n => if n < 3 then some (.inherited n) else none
      entry_none := fun n hOut => if_neg (by omega)
      limit_le := by decide }
  gOriStd := fun _ => 0
  outputs := []

theorem terminalProcess_std : Process.StdOpen terminalProcess.table := fun s => by
  cases s <;> decide

def listening : Server Nat :=
  ⟨{ terminalProcess with table := (terminalProcess.table.openFile .listener).2 }, [], []⟩

/-- Two sessions. The first executes a line while the second one quits. -/
def twoClients : List ServerEvent :=
  [.accept true true, .accept true true, .start 1, .start 0,
    .read 0 (.data (ascii "go") (by decide)), .read 1 (.data (ascii "quit") (by decide)),
    .read 0 (.byte 13), .call 0, .call 0, .call 0, .read 1 (.byte 13), .call 0]

theorem sessions_isolated_two :
    ∃ st, run (Server.step .signed) listening twoClients = .ok st ∧ st.threads.length = 2 ∧
      ∀ i t, st.threads[i]? = some t → Serves .signed st i t := by
  obtain ⟨st, hRun, hTwo⟩ :=
    (by decide +kernel : Sat (run (Server.step .signed) listening twoClients)
      (fun st => st.threads.length = 2) (fun _ => False)).returns
  have hStart : telnetSer terminalProcess true true = some listening := by
    rfl
  exact ⟨st, hRun, hTwo,
    (sessions_isolated terminalProcess_std hStart ⟨_, List.prefix_rfl, hRun⟩).1⟩

/-- Where a session leaves one of its arrays, it does so on its own as well, on
the results of `read` that its thread got. -/
theorem server_fault_own (hStd : Process.StdOpen process.table)
    (hStart : telnetSer process socket bind = some start) {events : List ServerEvent} {f : Fault}
    (hFault : run (Server.step sign) start events = .error (.session i f)) :
    ∃ taken st t r, taken ++ [.read i r] <+: events ∧
      run (Server.step sign) start taken = .ok st ∧ st.threads[i]? = some t ∧
      shellThreadFunc sign .init (t.reads ++ [st.readResult t r]) = .error f := by
  obtain ⟨taken, event, st, hPrefix, hRun, hStep⟩ := run_faults hFault
  have hIsolated : Isolated sign st :=
    isolated_reached hStd hStart ⟨taken, List.prefix_rfl, hRun⟩
  have hOwn := step_isolated hIsolated event
  rw [hStep] at hOwn
  obtain ⟨t, r, rfl, hThread, hAlone⟩ := hOwn i f rfl
  exact ⟨taken, st, t, r, hPrefix, hRun, hThread, hAlone⟩

/-- A read that fills the input buffer, so that no byte 0 is behind it. -/
def filling : ReadResult :=
  .data (List.replicate maxCmdLen 0x61) (Nat.le_of_eq List.length_replicate)

theorem server_fault_own_filled :
    ∃ (f : Fault) (st : Server Nat) (t : Thread) (r : ReadResult),
      run (Server.step .signed) listening [.accept true true, .start 0, .read 0 filling] =
        .error (.session 0 f) ∧ st.threads[0]? = some t ∧
      shellThreadFunc .signed .init (t.reads ++ [st.readResult t r]) = .error f := by
  have hFault := (by decide +kernel : Sat (run (Server.step .signed) listening
      [.accept true true, .start 0, .read 0 filling]) (fun _ => False)
    (· = .session 0 (.read .cmdLine 256))).faults
  have hStart : telnetSer terminalProcess true true = some listening := by
    rfl
  obtain ⟨taken, st, t, r, -, -, hThread, hRun⟩ :=
    server_fault_own terminalProcess_std hStart hFault
  exact ⟨_, st, t, r, hFault, hThread, hRun⟩

end Runs

end TelnetDebug

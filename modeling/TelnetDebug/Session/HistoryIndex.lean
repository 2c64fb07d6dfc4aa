import TelnetDebug.Session.HistoryStore

/-! The array of entries is not left. Down reads the entry behind the one it is
at; in a full history the last entry has none behind it. -/
namespace TelnetDebug

open CBuffer Guarded CommandHistory

/-- The index is among the lines entered, or behind the last one. -/
structure IndexOk (m : TelnetMgr) : Prop where
  index : m.cmdIndex.toNat ≤ m.hasInputCmdNum.toNat
  num : m.hasInputCmdNum.toNat ≤ maxCmdHistoryNum

/-- Down does not leave the last entry of a full history. -/
def KeepsIndex (sign : CharSign) (s : Session) (r : ReadResult) : Prop :=
  ¬ (keyRead sign r = .down ∧ s.mgr.hasInputCmdNum.toNat = maxCmdHistoryNum ∧
    s.mgr.cmdIndex.toNat + 1 = maxCmdHistoryNum)

instance (sign : CharSign) (s : Session) (r : ReadResult) : Decidable (KeepsIndex sign s r) :=
  inferInstanceAs (Decidable (¬ _))

section Index
variable {s t : Session}

theorem toNat_upIndex (m : TelnetMgr) : (upIndex m).toNat = m.cmdIndex.toNat - 1 := by
  unfold upIndex
  by_cases hZero : m.cmdIndex = 0
  · rw [if_pos hZero, hZero]
    rfl
  · rw [if_neg hZero, toNat_pred hZero]

/-- Away from the end the index and the next one are below the number of lines. -/
theorem IndexOk.next (h : IndexOk s.mgr) (hEnd : s.mgr.cmdIndex ≠ s.mgr.hasInputCmdNum) :
    (s.mgr.cmdIndex + 1).toNat = s.mgr.cmdIndex.toNat + 1 ∧
      s.mgr.cmdIndex.toNat + 1 ≤ s.mgr.hasInputCmdNum.toNat := by
  have hNe : s.mgr.cmdIndex.toNat ≠ s.mgr.hasInputCmdNum.toNat := fun h =>
    hEnd (UInt32.toNat_inj.mp h)
  have hIndex := h.index
  have hNum := h.num
  exact ⟨toNat_succ_num (by omega), by omega⟩

theorem IndexOk.down (h : IndexOk s.mgr) :
    (downIndex s.mgr).toNat ≤ s.mgr.hasInputCmdNum.toNat := by
  unfold downIndex
  by_cases hEnd : s.mgr.cmdIndex = s.mgr.hasInputCmdNum
  · rw [if_pos hEnd]
    exact h.index
  · rw [if_neg hEnd, (h.next hEnd).1]
    exact (h.next hEnd).2

theorem Navigated.indexOk {index : UInt32} (hMove : Navigated s index t) (h : IndexOk s.mgr)
    (hIndex : index.toNat ≤ s.mgr.hasInputCmdNum.toNat) : IndexOk t.mgr := by
  obtain ⟨gCmd, -, hMgr⟩ := hMove.mgr
  rw [hMgr]
  exact ⟨hIndex, h.num⟩

theorem HistoryUpdated.indexOk {m m' : TelnetMgr} (hUpdate : HistoryUpdated m m')
    (h : IndexOk m) : IndexOk m' := by
  cases hUpdate with
  | kept _ hNum hIndex => exact ⟨by rw [hNum, hIndex]; exact h.index, by rw [hNum]; exact h.num⟩
  | stored _ _ hFree _ _ _ hNum hIndex =>
      refine ⟨by rw [hNum, hIndex], ?_⟩
      rw [hNum, toNat_succ_num hFree]
      exact hFree

/-- Every round keeps the index, whether or not it faults. -/
theorem HistoryStep.indexOk {key : Key} (hStep : HistoryStep s key t) (h : IndexOk s.mgr) :
    IndexOk t.mgr := by
  cases hStep with
  | kept hMgr =>
      rw [hMgr]
      exact ⟨h.index, h.num⟩
  | up hMove =>
      refine hMove.indexOk h ?_
      rw [toNat_upIndex]
      exact Nat.le_trans (Nat.sub_le _ _) h.index
  | down hMove => exact hMove.indexOk h h.down
  | entered hEnter => exact hEnter.history.indexOk h

theorem queueFault.keeps {sign : CharSign} {r : ReadResult} {f : Fault} (h : IndexOk s.mgr)
    (hKeeps : KeepsIndex sign s r) (hFault : queueFault s (keyRead sign r) f) :
    f.object ≠ .queueCmd := by
  intro hQueue
  have hNum := h.num
  have hIndex := h.index
  rcases hFault hQueue with ⟨-, hMove, hOut⟩ | ⟨hKey, hMove, hOut⟩
  · have hUp := toNat_upIndex s.mgr
    have hPos : s.mgr.cmdIndex.toNat ≠ 0 := fun h => hMove (UInt32.toNat_inj.mp h)
    rw [upIndex, if_neg hMove] at hUp
    omega
  · obtain ⟨hNext, hLe⟩ := h.next hMove
    rw [hNext] at hOut
    exact hKeeps ⟨hKey, by omega, by omega⟩

end Index

/-- The condition is exact for one round: Down at the last entry of a full
history reads behind the array. -/
theorem step_index_fault {sign : CharSign} {s : Session} {r : ReadResult}
    (hOpen : s.closed = false) (hRead : Terminated r.cmdLine.cells)
    (hLost : ¬ KeepsIndex sign s r) :
    s.step sign r = .error (.read .queueCmd maxCmdHistoryNum) := by
  obtain ⟨hKey, hNum, hIndex⟩ := not_not.mp hLost
  have hMax : maxCmdHistoryNum = 500 := rfl
  have hNext : (s.mgr.cmdIndex + 1).toNat = maxCmdHistoryNum := by
    rw [toNat_succ_num (by omega), hIndex]
  have hEnd : s.mgr.cmdIndex ≠ s.mgr.hasInputCmdNum := by
    intro h
    rw [h] at hIndex
    omega
  have hGet : s.mgr.historyCmd.queueCmd.get maxCmdHistoryNum = .error maxCmdHistoryNum :=
    Buffer.get_error (Nat.le_refl _)
  rw [step_key hOpen hRead hKey]
  change s.onDown = _
  rw [onDown_eq, if_neg hEnd]
  unfold recallCmd entryText
  rw [hNext, Session.setCursor_historyCmd, hGet]
  rfl

/-- In every run in which Down does not leave the last entry of a full history,
no access leaves the array of entries, and the index stays among the lines. -/
theorem history_index_bound (sign : CharSign) {reads : List ReadResult}
    (hKeeps : Meets (Session.step sign) (KeepsIndex sign) .init reads) :
    (∀ s, Visits (Session.step sign) .init reads s →
      s.mgr.cmdIndex.toNat ≤ s.mgr.hasInputCmdNum.toNat ∧
        s.mgr.hasInputCmdNum.toNat ≤ maxCmdHistoryNum) ∧
      ∀ f, shellThreadFunc sign .init reads = .error f → f.object ≠ .queueCmd := by
  have hStep (s : Session) (r : ReadResult) (h : IndexOk s.mgr) (hKeeps : KeepsIndex sign s r) :
      Sat (s.step sign r) (fun t => IndexOk t.mgr) (fun f => f.object ≠ .queueCmd) :=
    (step_history sign s r).mono (fun _ hStep => hStep.indexOk h)
      fun _ hFault => hFault.keeps h hKeeps
  have hInit : IndexOk Session.init.mgr := ⟨Nat.le_refl _, Nat.zero_le _⟩
  constructor
  · intro s hVisit
    have h : IndexOk s.mgr := hVisit.invariant
      (fun s r h hKeeps => (hStep s r h hKeeps).mono (fun _ h => h) fun _ _ => trivial) hInit hKeeps
    exact ⟨h.index, h.num⟩
  · intro f hFault
    have hRun := run_sat hStep hInit hKeeps
    rw [← shellThreadFunc, hFault] at hRun
    exact hRun

/-- A line, Up, and Down. -/
def upDownReads : List ReadResult :=
  [.data (ascii "a") (by decide), .data (ascii "\x0d") (by decide),
    .data (ascii "\x1b[A") (by decide), .data (ascii "\x1b[B") (by decide)]

theorem history_index_bound_typed :
    ∃ s, shellThreadFunc .signed .init upDownReads = .ok s ∧
      s.mgr.cmdIndex.toNat ≤ s.mgr.hasInputCmdNum.toNat := by
  obtain ⟨s, hRun, -⟩ : ∃ s, shellThreadFunc .signed .init upDownReads = .ok s ∧ True :=
    Sat.returns (by decide +kernel)
  have hKeeps : Meets (Session.step .signed) (KeepsIndex .signed) .init upDownReads := by
    decide +kernel
  exact ⟨s, hRun, ((history_index_bound .signed hKeeps).1 s ⟨_, List.prefix_rfl, hRun⟩).1⟩

/-- The keys that enter a line of one character. -/
def lineKeys : List HistoryKey := [.edit (.char 0x61 typable_a), .enter]

theorem lineKeys_keeps (sign : CharSign) {s : Session} {c : Console UInt8} (hKeeps : Keeps s c)
    (hTyped : Typed c) (hLine : c.line = .empty) (hRoom : c.entered.length < maxCmdHistoryNum)
    (hOld : ∀ line ∈ c.entered, line = [0x61]) :
    ∃ t, shellThreadFunc sign s (lineKeys.map historyRead) = .ok t ∧
      Keeps t (lineKeys.foldl press c) ∧ Typed (lineKeys.foldl press c) ∧
      lineKeys.foldl press c = ⟨.empty, c.entered ++ [[0x61]], c.entered.length + 1, [0x61],
        by rw [List.length_append]; exact Nat.le_refl _⟩ := by
  obtain ⟨line, entered, index, recalled, hLe⟩ := c
  subst hLine
  have hNew : ∀ line ∈ entered ++ [[0x61]], line = [0x61] := by
    intro line hMem
    rcases List.mem_append.mp hMem with h | h
    · exact hOld line h
    · exact List.mem_singleton.mp h
  have hLength : (entered ++ [[(0x61 : UInt8)]]).length ≤ maxCmdHistoryNum := by
    rw [List.length_append, List.length_singleton]
    exact hRoom
  have hShort (line : List UInt8) (h : line = [0x61]) : line.length ≤ 240 := by
    rw [h]
    decide
  have hRuns (line : List UInt8) (h : line = [0x61]) :
      line ≠ ascii "quit" ∧ line ≠ ascii "exit" := by
    rw [h]
    decide
  have hAllowed (taken : List HistoryKey) (key : HistoryKey)
      (hPrefix : taken ++ [key] <+: lineKeys) :
      Allowed (taken.foldl press ⟨.empty, entered, index, recalled, hLe⟩) key := by
    rcases taken with _ | ⟨first, taken⟩
    · cases (List.cons_prefix_cons.mp hPrefix).1
      exact ⟨(by decide : 1 ≤ 255), fun line h => hShort line (hOld line h),
        fun line h => hRuns line (hOld line h), Nat.le_of_lt hRoom, fun h => by cases h⟩
    · obtain ⟨hFirst, hRest⟩ := List.cons_prefix_cons.mp hPrefix
      cases hFirst
      rcases taken with _ | ⟨second, taken⟩
      · cases (List.cons_prefix_cons.mp hRest).1
        exact ⟨(by decide : 0 ≤ 255), fun line h => hShort line (hNew line h),
          fun line h => hRuns line (hNew line h), hLength, fun h => by cases h⟩
      · have hLong := hRest.length_le
        simp at hLong
  obtain ⟨t, hRun, hNext, hNextTyped⟩ := run_keeps sign hKeeps hTyped hAllowed
  exact ⟨t, hRun, hNext, hNextTyped, rfl⟩

theorem fill_history (sign : CharSign) {count : Nat} (hCount : count ≤ maxCmdHistoryNum) :
    ∃ s c, shellThreadFunc sign .init ((List.replicate count lineKeys).flatten.map historyRead) =
        .ok s ∧ Keeps s c ∧ Typed c ∧ c.line = .empty ∧
      c.entered = List.replicate count [0x61] ∧ c.index = count := by
  induction count with
  | zero => exact ⟨_, _, rfl, keeps_init, typed_empty, rfl, rfl, rfl⟩
  | succ count ih =>
      obtain ⟨s, c, hRun, hKeeps, hTyped, hLine, hEntered, -⟩ := ih (Nat.le_of_succ_le hCount)
      have hLength : c.entered.length = count := by rw [hEntered, List.length_replicate]
      obtain ⟨t, hNext, hNextKeeps, hNextTyped, hConsole⟩ := lineKeys_keeps sign hKeeps
        hTyped hLine (by omega) (by rw [hEntered]; exact fun line h => List.eq_of_mem_replicate h)
      refine ⟨t, _, ?_, hNextKeeps, hNextTyped, by rw [hConsole], ?_, by rw [hConsole, ← hLength]⟩
      · rw [List.replicate_succ', List.flatten_append, List.flatten_singleton, List.map_append,
          shellThreadFunc, run_append, ← shellThreadFunc, hRun]
        exact hNext
      · rw [hConsole, hEntered, List.replicate_succ']

/-- After 500 lines, Up and Down: the entry behind the array is read. -/
theorem history_index_overrun :
    shellThreadFunc .signed .init
      (((List.replicate 500 lineKeys).flatten ++
        [CommandHistory.Key.up, CommandHistory.Key.down]).map historyRead) =
      .error (.read .queueCmd 500) := by
  have hCount : 500 ≤ maxCmdHistoryNum := Nat.le_refl 500
  obtain ⟨s, c, hRun, hKeeps, hTyped, hLine, hEntered, hIndex⟩ := fill_history .signed hCount
  have hFull : c.entered.length = 500 := by rw [hEntered, List.length_replicate]
  obtain ⟨t, hUp, hNext⟩ := up_keeps hKeeps hTyped (Nat.le_of_eq hFull)
  have hFirst : s.step .signed (historyRead .up) = .ok t := by
    rw [step_key hKeeps.isOpen (by decide +kernel) (keyRead_up .signed)]
    exact hUp
  have hSecond : t.step .signed (historyRead .down) = .error (.read .queueCmd 500) := by
    refine step_index_fault hNext.isOpen (by decide +kernel)
      (not_not.mpr ⟨keyRead_down .signed, ?_, ?_⟩)
    · rw [hNext.num, c.up_entered, hFull]
      rfl
    · rw [hNext.index, c.up_index, hIndex]
      rfl
  rw [List.map_append, shellThreadFunc, run_append, ← shellThreadFunc, hRun, ok_bind]
  change run _ s [historyRead .up, historyRead .down] = _
  rw [run_cons, hFirst, ok_bind, run_cons, hSecond]
  rfl

end TelnetDebug

import TelnetDebug.Session.Step

/-! What one round of the loop can do to the history, and the history keys at
the ends of it. There the two keys show nothing on the terminal, but the line is
loaded from the last recalled or entered command all the same. -/
namespace TelnetDebug

open CBuffer Guarded

/-- A round of the loop in three cases: the history keys, Enter, and all others,
which change of the manager the cursor only. -/
theorem step_mgr_sat {sign : CharSign} {s : Session} {r : ReadResult} {post : Session → Prop}
    {fault : Fault → Prop} (hLine : ∀ f, lineFault f → fault f)
    (hKept : ∀ t : Session, t.mgr = (s.setCursor t.mgr.moveLeftNum).mgr →
      t.executed = s.executed → t.closed = s.closed → post t)
    (hUp : keyRead sign r = .up → Sat s.onUp post fault)
    (hDown : keyRead sign r = .down → Sat s.onDown post fault)
    (hEnter : keyRead sign r = .other → Sat s.onEnter post fault) :
    Sat (s.step sign r) post fault := by
  have hSame {x : Eff Session} (h : Sat x (SameMgr s) lineFault) : Sat x post fault :=
    h.mono (fun t h => hKept t (by rw [h.mgr]; rfl) h.executed h.closed) hLine
  have hNone : post s := hKept s rfl rfl rfl
  have hKey (key : Key) (hIs : keyRead sign r = key) :
      Sat (s.onKey sign (lineRead sign r) key) post fault := by
    cases key with
    | clearIac | help | tab => exact hKept _ rfl rfl rfl
    | ctrlC | ctrlL =>
        change Sat (Session.prompt _) _ _
        rw [Session.prompt_eq]
        exact hKept _ rfl rfl rfl
    | up => exact hUp hIs
    | down => exact hDown hIs
    | right =>
        change post (keyboardMoveRight s)
        unfold keyboardMoveRight
        split
        · exact hKept _ rfl rfl rfl
        · exact hNone
    | left =>
        change Sat s.onLeft _ _
        unfold Session.onLeft
        refine sat_reading_bind (fun _ _ => hLine _ (.inl rfl)) fun len _ => ?_
        change post (keyboardMoveLeft s _)
        unfold keyboardMoveLeft
        split
        · exact hNone
        · exact hKept _ rfl rfl rfl
    | backspace => exact hSame (onBackspace_frame s)
    | other =>
        exact onOther_sat (fun _ => hLine _ (.inl rfl))
          (fun _ _ _ _ => hSame (insertChar_frame s _ _)) (hEnter hIs)
          (fun _ _ _ _ => hSame (insertRaw_frame s _)) (fun _ _ => hSame (append_frame s _))
  exact step_sat (fun _ => hNone) (fun _ => hLine _ (.inr rfl)) fun _ _ => hKey _ rfl

/-- The changes of the manager in one round, by the key that was read. -/
inductive HistoryStep (s : Session) : Key → Session → Prop where
  | kept {key : Key} {t : Session} (hMgr : t.mgr = (s.setCursor t.mgr.moveLeftNum).mgr) :
      HistoryStep s key t
  | up {t : Session} (hMove : Navigated s (upIndex s.mgr) t) : HistoryStep s .up t
  | down {t : Session} (hMove : Navigated s (downIndex s.mgr) t) : HistoryStep s .down t
  | entered {t : Session} (hEnter : Entered s t) : HistoryStep s .other t

/-- The rounds in which the array of entries is left. -/
def queueFault (s : Session) (key : Key) (f : Fault) : Prop :=
  f.object = .queueCmd →
    key = .up ∧ s.mgr.cmdIndex ≠ 0 ∧ maxCmdHistoryNum ≤ (s.mgr.cmdIndex - 1).toNat ∨
      key = .down ∧ s.mgr.cmdIndex ≠ s.mgr.hasInputCmdNum ∧
        maxCmdHistoryNum ≤ (s.mgr.cmdIndex + 1).toNat

section Inversion
variable {s : Session} {key : Key}

theorem queueFault.of_line {f : Fault} (h : lineFault f) : queueFault s key f := by
  intro hQueue
  rcases h with h | h <;> cases h.symm.trans hQueue

theorem recallFault.object {index : UInt32} {f : Fault} (h : recallFault index f)
    (hQueue : f.object = .queueCmd) : maxCmdHistoryNum ≤ index.toNat := by
  rcases h with ⟨-, h⟩ | h | h | h
  · exact h
  all_goals cases h.symm.trans hQueue

theorem onUp_history (s : Session) : Sat s.onUp (HistoryStep s .up) (queueFault s .up) := by
  refine (onUp_sat (fun _ => fun h => by cases h) fun hIndex => ?_).mono (fun _ => .up) fun _ h => h
  refine (recallCmd_frame _ _).mono (fun _ h => h) fun f h hQueue => ?_
  exact .inl ⟨rfl, hIndex, h.object hQueue⟩

theorem onDown_history (s : Session) :
    Sat s.onDown (HistoryStep s .down) (queueFault s .down) := by
  refine (onDown_sat (fun _ => fun h => by cases h) fun hIndex => ?_).mono (fun _ => .down)
    fun _ h => h
  refine (recallCmd_frame _ _).mono (fun _ h => h) fun f h hQueue => ?_
  exact .inr ⟨rfl, hIndex, h.object hQueue⟩

theorem onEnter_history (s : Session) : Sat s.onEnter (HistoryStep s .other)
    (queueFault s .other) := by
  by_cases hTerm : Terminated s.cmdBuf.cells
  · obtain ⟨t, hEnter, h⟩ := onEnter_cases hTerm
    rw [hEnter]
    exact .entered h
  · rw [onEnter_error hTerm]
    exact .of_line (.inl rfl)

/-- One round changes the history by a history key or by Enter only. -/
theorem step_history (sign : CharSign) (s : Session) (r : ReadResult) :
    Sat (s.step sign r) (HistoryStep s (keyRead sign r)) (queueFault s (keyRead sign r)) := by
  apply step_mgr_sat
  · exact fun _ => .of_line
  · exact fun _ hMgr _ _ => .kept hMgr
  · intro hKey
    rw [hKey]
    exact onUp_history s
  · intro hKey
    rw [hKey]
    exact onDown_history s
  · intro hKey
    rw [hKey]
    exact onEnter_history s

end Inversion

theorem HistoryStep.gCmd {s t : Session} {key : Key} (h : HistoryStep s key t)
    (hTerm : Terminated s.mgr.gCmd.cells) : Terminated t.mgr.gCmd.cells := by
  cases h with
  | kept hMgr =>
      rw [hMgr]
      exact hTerm
  | up hMove | down hMove =>
      obtain ⟨gCmd, hKept, hMgr⟩ := hMove.mgr
      rw [hMgr]
      exact hKept hTerm
  | entered hEnter =>
      rcases hEnter.gCmd with hSame | hStored
      · rwa [hSame]
      · exact hStored

/-- In every reachable state the recalled command is a string. -/
theorem gCmd_terminated {sign : CharSign} {reads : List ReadResult} {s : Session}
    (hVisit : Visits (Session.step sign) .init reads s) : Terminated s.mgr.gCmd.cells :=
  have hAll : Meets (Session.step sign) (fun _ _ => True) .init reads :=
    .of_forall fun _ _ => trivial
  hVisit.invariant
    (fun s r hTerm _ => (step_history sign s r).mono (fun _ h => h.gCmd hTerm) fun _ _ => trivial)
    (terminated_fill (s := []) (by decide)) hAll

/-- Up at the first entry, or Down behind the last one. -/
def AtEnd (sign : CharSign) (s : Session) (r : ReadResult) : Prop :=
  keyRead sign r = .up ∧ s.mgr.cmdIndex = 0 ∨
    keyRead sign r = .down ∧ s.mgr.cmdIndex = s.mgr.hasInputCmdNum

theorem step_atEnd {sign : CharSign} {s : Session} {r : ReadResult} (hOpen : s.closed = false)
    (hRead : Terminated r.cmdLine.cells) (hEnd : AtEnd sign s r) :
    s.step sign r = (s.setCursor 0).reload := by
  rcases hEnd with ⟨hKey, hIndex⟩ | ⟨hKey, hIndex⟩
  · rw [step_key hOpen hRead hKey]
    change s.onUp = _
    rw [onUp_eq, if_pos hIndex]
  · rw [step_key hOpen hRead hKey]
    change s.onDown = _
    rw [onDown_eq, if_pos hIndex]

/-- At the ends of the history the two keys send nothing, in every reachable
state. They keep the line and the cursor exactly when the cursor is at the end
of the line and the line is the last recalled or entered command, with zeros
behind it. -/
theorem history_key_at_end (sign : CharSign) {reads : List ReadResult} {s : Session}
    (hVisit : Visits (Session.step sign) .init reads s) (hOpen : s.closed = false)
    {r : ReadResult} (hRead : Terminated r.cmdLine.cells) (hEnd : AtEnd sign s r) :
    ∃ t, s.step sign r = .ok t ∧ t.sent = s.sent ∧
      (t.cmdBuf = s.cmdBuf ∧ t.mgr.moveLeftNum = s.mgr.moveLeftNum ↔
        s.mgr.moveLeftNum = 0 ∧ s.cmdBuf.cells = text s.mgr.gCmd.cells ++
          List.replicate (maxCmdLen - (text s.mgr.gCmd.cells).length) 0) := by
  have hTerm := gCmd_terminated hVisit
  rw [step_atEnd hOpen hRead hEnd, Session.reload_eq (s := s.setCursor 0) hTerm]
  refine ⟨_, rfl, rfl, ?_⟩
  constructor
  · rintro ⟨hBuf, hCursor⟩
    exact ⟨hCursor.symm, congrArg Buffer.cells hBuf.symm⟩
  · rintro ⟨hCursor, hCells⟩
    exact ⟨Buffer.ext hCells.symm, hCursor.symm⟩

/-- Up on the empty line of a fresh session. -/
theorem history_key_at_end_fresh :
    ∃ t, Session.init.step .signed (.data (ascii "\x1b[A") (by decide)) = .ok t ∧
      t.cmdBuf = Session.init.cmdBuf := by
  have hVisit : Visits (Session.step .signed) .init [] .init := ⟨[], List.nil_prefix, rfl⟩
  obtain ⟨t, hStep, -, hKept⟩ := history_key_at_end .signed hVisit rfl
    (r := .data (ascii "\x1b[A") (by decide)) (by decide +kernel) (.inl ⟨by decide +kernel, rfl⟩)
  exact ⟨t, hStep, (hKept.mpr ⟨rfl, rfl⟩).1⟩

/-- Up discards a typed line without a trace on the terminal, and Down after a
command has Enter execute that command again in place of the line typed. -/
theorem history_key_discards :
    (∃ s t, Visits (Session.step .signed) .init [.data (ascii "ab") (by decide)] s ∧
      s.mgr.cmdIndex = 0 ∧ s.step .signed (.data (ascii "\x1b[A") (by decide)) = .ok t ∧
      text s.cmdBuf.cells = ascii "ab" ∧ text t.cmdBuf.cells = [] ∧ t.sent = s.sent) ∧
    ∃ t, shellThreadFunc .signed .init [.data (ascii "a") (by decide),
        .data (ascii "\x0d") (by decide), .data (ascii "b") (by decide),
        .data (ascii "\x1b[B") (by decide), .data (ascii "\x0d") (by decide)] = .ok t ∧
      t.executed = [ascii "a", ascii "a"] := by
  refine ⟨?_, Sat.returns (by decide +kernel)⟩
  have hTyped : Sat (shellThreadFunc .signed .init [.data (ascii "ab") (by decide)])
      (fun s => s.mgr.cmdIndex = 0 ∧ text s.cmdBuf.cells = ascii "ab" ∧
        s.sent = Session.init.sent ++ ascii "ab") (fun _ => False) := by decide +kernel
  obtain ⟨s, hRun, hIndex, hLine, hSent⟩ := hTyped.returns
  have hSat : Sat (shellThreadFunc .signed .init
      ([.data (ascii "ab") (by decide)] ++ [.data (ascii "\x1b[A") (by decide)]))
      (fun t => text t.cmdBuf.cells = [] ∧ t.sent = Session.init.sent ++ ascii "ab")
      (fun _ => False) := by decide +kernel
  obtain ⟨t, hBoth, hEmpty, hSilent⟩ := hSat.returns
  rw [shellThreadFunc, run_append, ← shellThreadFunc, hRun, ok_bind, run_cons] at hBoth
  obtain ⟨u, hStep, hEnd⟩ := bind_eq_ok.mp hBoth
  cases hEnd
  exact ⟨s, t, ⟨_, List.prefix_rfl, hRun⟩, hIndex, hStep, hLine, hEmpty, by rw [hSilent, hSent]⟩

end TelnetDebug

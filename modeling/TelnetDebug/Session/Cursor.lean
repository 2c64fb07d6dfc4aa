import TelnetDebug.Session.Step

/-! The cursor stays within the line. The counter of the columns to its right
is reset by Enter and by the history keys, but not by the two keys that clear
the line; and a byte 0 read in mid-line is inserted like any other and cuts the
line at the cursor. Every other read keeps the cursor within the line. -/
namespace TelnetDebug

open CBuffer Guarded

/-- At the head of the loop the cursor is not in front of the line. -/
def CursorOk (s : Session) : Prop := s.mgr.moveLeftNum.toNat ≤ (text s.cmdBuf.cells).length

/-- The reads that keep it so: the line is not cleared while the cursor is in
it, and no byte 0 is inserted more than half of the line from its end. -/
def KeepsCursor (sign : CharSign) (s : Session) (r : ReadResult) : Prop :=
  (keyRead sign r = .ctrlC ∨ keyRead sign r = .ctrlL → s.mgr.moveLeftNum = 0) ∧
    ((lineRead sign r).peek 0 = 0 →
      2 * s.mgr.moveLeftNum.toNat ≤ (text s.cmdBuf.cells).length)

instance (sign : CharSign) (s : Session) (r : ReadResult) : Decidable (KeepsCursor sign s r) :=
  inferInstanceAs (Decidable (_ ∧ _))

theorem cursorOk_zero {s : Session} (h : s.mgr.moveLeftNum = 0) : CursorOk s := by
  rw [CursorOk, h]
  exact Nat.zero_le _

theorem cursorOk_init : CursorOk .init := cursorOk_zero rfl

/-- Insertion keeps the cursor, provided the line is not cut in front of it. -/
theorem insertChar_cursor {s : Session} {c : UInt8} (hTerm : Terminated s.cmdBuf.cells)
    (hInv : CursorOk s) (hNum : s.mgr.moveLeftNum ≠ 0)
    (hZero : c = 0 → 2 * s.mgr.moveLeftNum.toNat ≤ (text s.cmdBuf.cells).length) :
    Sat (insertChar s (UInt32.ofNat (text s.cmdBuf.cells).length) c) CursorOk
      (fun _ => True) := by
  obtain ⟨before, after, rest, hCut⟩ := line_cut hTerm hInv
  obtain ⟨buf, hInsert, hResult⟩ := hCut.insertChar hNum c
  rw [hInsert]
  change s.mgr.moveLeftNum.toNat ≤ (text buf.cells).length
  have hNul := hCut.noNul
  rw [List.mem_append, not_or] at hNul
  rw [hCut.cursor, hResult]
  by_cases hc : c = 0
  · have hHalf := hZero hc
    rw [hCut.cursor, hCut.length] at hHalf
    rw [hc, text_append_zero hNul.1]
    omega
  · have hNew : 0 ∉ before ++ c :: after := by
      rw [List.mem_append, List.mem_cons, not_or, not_or]
      exact ⟨hNul.1, Ne.symm hc, hNul.2⟩
    rw [show before ++ c :: (after ++ rest) = (before ++ c :: after) ++ rest by simp,
      text_append hNew]
    simp only [List.length_append, List.length_cons]
    omega

theorem onBackspace_cursor {s : Session} (hInv : CursorOk s) :
    Sat s.onBackspace CursorOk (fun _ => True) := by
  by_cases hTerm : Terminated s.cmdBuf.cells
  · by_cases hStart : (text s.cmdBuf.cells).length = s.mgr.moveLeftNum.toNat
    · rw [onBackspace_start hTerm hStart]
      exact hInv
    · obtain ⟨before, after, rest, hCut⟩ := line_cut hTerm hInv
      obtain ⟨kept, old, buf, rfl, hErase, hResult⟩ := hCut.onBackspace hStart
      have hNul : 0 ∉ kept ++ after := by
        have h := hCut.noNul
        simp only [List.mem_append, not_or] at h ⊢
        exact ⟨h.1.1, h.2⟩
      rw [hErase]
      change s.mgr.moveLeftNum.toNat ≤ (text buf.cells).length
      rw [hResult, text_append_zero hNul, hCut.cursor, List.length_append]
      exact Nat.le_add_left _ _
  · unfold Session.onBackspace
    rw [Buffer.strlen_error hTerm]
    trivial

theorem onLeft_cursor {s : Session} (hInv : CursorOk s) :
    Sat s.onLeft CursorOk (fun _ => True) := by
  unfold Session.onLeft
  refine sat_reading_bind (fun _ _ => trivial) fun len hLen => ?_
  have hLine := text_length_le s.cmdBuf.cells
  rw [s.cmdBuf.size] at hLine
  by_cases hTerm : Terminated s.cmdBuf.cells
  · rw [Buffer.strlen_eq hTerm] at hLen
    cases hLen
    unfold keyboardMoveLeft
    split
    · exact hInv
    · next hLeft =>
      rw [ge_iff_le, UInt32.not_le, UInt32.lt_iff_toNat_lt, toNat_ofNat_line hLine] at hLeft
      change (s.mgr.moveLeftNum + 1).toNat ≤ (text s.cmdBuf.cells).length
      have hMax := maxCmdLen_eq
      rw [UInt32.toNat_add, UInt32.toNat_one]
      omega
  · rw [Buffer.strlen_error hTerm] at hLen
    cases hLen

theorem keyboardMoveRight_cursor {s : Session} (hInv : CursorOk s) :
    CursorOk (keyboardMoveRight s) := by
  unfold keyboardMoveRight
  split
  · next hPos =>
    change (s.mgr.moveLeftNum - 1).toNat ≤ (text s.cmdBuf.cells).length
    rw [toNat_pred (UInt32.pos_iff_ne_zero.mp hPos)]
    exact Nat.le_trans (Nat.sub_le _ _) hInv
  · exact hInv

theorem onEnter_cursor (s : Session) : Sat s.onEnter CursorOk (fun _ => True) := by
  by_cases hTerm : Terminated s.cmdBuf.cells
  · obtain ⟨t, hEnter, h⟩ := onEnter_cases hTerm
    rw [hEnter]
    exact cursorOk_zero h.cursor
  · rw [onEnter_error hTerm]
    trivial

theorem navigated_cursor {s t : Session} {index : UInt32} (h : Navigated s index t) :
    CursorOk t := by
  obtain ⟨gCmd, -, hMgr⟩ := h.mgr
  exact cursorOk_zero (by rw [hMgr]; rfl)

theorem onOther_cursor {sign : CharSign} {s : Session} {line : Line} (hInv : CursorOk s)
    (hCut : line.peek 0 = 0 → 2 * s.mgr.moveLeftNum.toNat ≤ (text s.cmdBuf.cells).length) :
    Sat (s.onOther sign line) CursorOk (fun _ => True) := by
  refine onOther_sat (fun _ => trivial) ?insert (onEnter_cursor s) ?raw ?append
  case insert =>
    intro hTerm hNum _ _
    exact insertChar_cursor hTerm hInv hNum hCut
  case raw =>
    intro hTerm hNum _ _
    unfold Session.insertRaw
    rw [Buffer.strlen_eq hTerm, reading_ok, ok_bind]
    exact (insertChar_cursor hTerm hInv hNum hCut).bind fun t h => h
  case append =>
    intro hEnd _
    refine (append_frame s line).mono (fun t h => ?_) fun _ _ => trivial
    have hZero : s.mgr.moveLeftNum.toNat = 0 := by
      rcases hEnd with hNum | ⟨-, hText⟩
      · rw [hNum]
        rfl
      · simpa [CursorOk, hText] using hInv
    exact cursorOk_zero (by rw [h.mgr]; exact UInt32.toNat_inj.mp hZero)

/-- One round of the loop. -/
theorem step_cursor {sign : CharSign} {s : Session} {r : ReadResult} (hInv : CursorOk s)
    (hKeeps : KeepsCursor sign s r) : Sat (s.step sign r) CursorOk (fun _ => True) := by
  refine step_sat (fun _ => hInv) (fun _ => trivial) fun _ _ => ?_
  cases hKey : keyRead sign r with
  | clearIac => exact hInv
  | ctrlC | ctrlL =>
      change Sat (Session.prompt _) _ _
      rw [Session.prompt_eq]
      exact cursorOk_zero (hKeeps.1 (by simp [hKey]))
  | up =>
      refine (onUp_sat (fun _ => trivial) fun _ => ?_).mono (fun _ h => navigated_cursor h)
        fun _ h => h
      exact (recallCmd_frame _ _).mono (fun _ h => h) fun _ _ => trivial
  | down =>
      refine (onDown_sat (fun _ => trivial) fun _ => ?_).mono (fun _ h => navigated_cursor h)
        fun _ h => h
      exact (recallCmd_frame _ _).mono (fun _ h => h) fun _ _ => trivial
  | right => exact keyboardMoveRight_cursor hInv
  | left => exact onLeft_cursor hInv
  | backspace => exact onBackspace_cursor hInv
  | help | tab => exact hInv
  | other => exact onOther_cursor hInv hKeeps.2

/-- A line read that begins with a byte 0 is taken for no key. -/
theorem keyRead_zero {sign : CharSign} {r : ReadResult} (h : (lineRead sign r).peek 0 = 0) :
    keyRead sign r = .other := by
  have hCtrlC : (lineRead sign r).streq [3] = false := by
    rw [Bool.eq_false_iff, ne_eq, Buffer.streq_iff (by decide)]
    rintro ⟨-, hText⟩
    unfold Buffer.peek at h
    cases hLine : (lineRead sign r).cells with
    | nil => simp [hLine, text] at hText
    | cons c cells =>
        rw [hLine] at h hText
        have hc : c = 0 := by simpa using h
        simp [hc, text] at hText
  simp [keyRead, keyOf, isEscape, h, sign.value_zero, hCtrlC]

/-- The condition is exact for one round: a read that does not meet it, and is
not itself out of bounds, leaves the cursor in front of the line. -/
theorem step_cursor_lost {sign : CharSign} {s : Session} {r : ReadResult} (hInv : CursorOk s)
    (hOpen : s.closed = false) (hRead : Terminated r.cmdLine.cells)
    (hTerm : Terminated s.cmdBuf.cells) (hLost : ¬ KeepsCursor sign s r) :
    ∃ t, s.step sign r = .ok t ∧ ¬ CursorOk t := by
  rw [step_key hOpen hRead rfl]
  have hClear (t : Session) (hMgr : t.mgr = s.mgr) (hNum : s.mgr.moveLeftNum ≠ 0) :
      ∃ u, t.prompt = .ok u ∧ ¬ CursorOk u := by
    refine ⟨_, Session.prompt_eq t, fun h => hNum (UInt32.toNat_inj.mp ?_)⟩
    have hEmpty : (text (Buffer.const maxCmdLen (0 : UInt8)).cells).length = 0 := by decide
    rw [← hMgr]
    exact Nat.eq_zero_of_le_zero (hEmpty ▸ h)
  by_cases hKey : keyRead sign r = .ctrlC ∨ keyRead sign r = .ctrlL
  · by_cases hNum : s.mgr.moveLeftNum = 0
    · refine absurd ⟨fun _ => hNum, fun _ => ?_⟩ hLost
      rw [hNum]
      exact Nat.zero_le _
    · rcases hKey with hKey | hKey <;> rw [hKey]
      · exact hClear _ rfl hNum
      · exact hClear _ rfl hNum
  · obtain ⟨hFirst, hHalf⟩ : (lineRead sign r).peek 0 = 0 ∧
        (text s.cmdBuf.cells).length < 2 * s.mgr.moveLeftNum.toNat := by
      simpa [KeepsCursor, hKey] using hLost
    obtain ⟨before, after, rest, hCut⟩ := line_cut hTerm hInv
    rw [hCut.cursor, hCut.length] at hHalf
    have hNum : s.mgr.moveLeftNum ≠ 0 := by
      rw [ne_eq, ← UInt32.toNat_inj, hCut.cursor, UInt32.toNat_zero]
      omega
    have hMid : s.mgr.moveLeftNum > 0 ∧ 0 < (text s.cmdBuf.cells).length := by
      refine ⟨UInt32.pos_iff_ne_zero.mpr hNum, ?_⟩
      rw [hCut.length]
      omega
    obtain ⟨buf, hInsert, hResult⟩ := hCut.insertChar hNum 0
    have hRaw : s.onOther sign (lineRead sign r) = s.insertRaw 0 := by
      unfold Session.onOther
      rw [midLine_eq hTerm, ok_bind]
      simp [hMid, hFirst, sign.value_zero]
    rw [keyRead_zero hFirst]
    change ∃ t, s.onOther sign (lineRead sign r) = .ok t ∧ ¬ CursorOk t
    rw [hRaw]
    unfold Session.insertRaw
    rw [Buffer.strlen_eq hTerm, reading_ok, ok_bind, hInsert, ok_bind]
    refine ⟨_, rfl, ?_⟩
    change ¬ s.mgr.moveLeftNum.toNat ≤ (text buf.cells).length
    rw [hCut.cursor, hResult, text_append_zero fun h => hCut.noNul (List.mem_append_left _ h)]
    omega

/-- In every run whose reads keep the cursor, at every return to the head of the
loop the cursor lies within the line, and the two differences of the line length
and the cursor, as they are computed in `unsigned int`, do not wrap. -/
theorem cursor_within_line (sign : CharSign) {reads : List ReadResult} {s : Session}
    (hKeeps : Meets (Session.step sign) (KeepsCursor sign) .init reads)
    (hVisit : Visits (Session.step sign) .init reads s) :
    s.mgr.moveLeftNum.toNat ≤ (text s.cmdBuf.cells).length ∧
      (UInt32.ofNat (text s.cmdBuf.cells).length - s.mgr.moveLeftNum).toNat +
          s.mgr.moveLeftNum.toNat = (text s.cmdBuf.cells).length ∧
      ((text s.cmdBuf.cells).length ≠ s.mgr.moveLeftNum.toNat →
        (UInt32.ofNat (text s.cmdBuf.cells).length - 1 - s.mgr.moveLeftNum).toNat + 1 +
          s.mgr.moveLeftNum.toNat = (text s.cmdBuf.cells).length) := by
  have hInv : CursorOk s := hVisit.invariant (fun _ _ => step_cursor) cursorOk_init hKeeps
  have hLine := text_length_le s.cmdBuf.cells
  rw [s.cmdBuf.size] at hLine
  refine ⟨hInv, ?_, fun hStart => ?_⟩
  · rw [toNat_sub_line hLine hInv]
    exact Nat.sub_add_cancel hInv
  · unfold CursorOk at hInv
    have hPred : (UInt32.ofNat (text s.cmdBuf.cells).length - 1).toNat =
        (text s.cmdBuf.cells).length - 1 := by
      rw [toNat_sub_line hLine (by rw [UInt32.toNat_one]; omega), UInt32.toNat_one]
    rw [UInt32.toNat_sub_of_le _ _ (by rw [UInt32.le_iff_toNat_le, hPred]; omega), hPred]
    omega

/-- Two characters, Left, and an insertion. -/
theorem cursor_within_line_typed :
    ∃ s, shellThreadFunc .signed .init [.data (ascii "ab") (by decide),
        .data (ascii "\x1b[D") (by decide), .data (ascii "x") (by decide)] = .ok s ∧
      s.mgr.moveLeftNum.toNat ≤ (text s.cmdBuf.cells).length := by
  have hSat : Sat (shellThreadFunc .signed .init [.data (ascii "ab") (by decide),
      .data (ascii "\x1b[D") (by decide), .data (ascii "x") (by decide)]) (fun _ => True)
      (fun _ => False) := by decide +kernel
  obtain ⟨s, hRun, -⟩ := hSat.returns
  have hKeeps : Meets (Session.step .signed) (KeepsCursor .signed) .init
      [.data (ascii "ab") (by decide), .data (ascii "\x1b[D") (by decide),
        .data (ascii "x") (by decide)] := by decide +kernel
  exact ⟨s, hRun, (cursor_within_line .signed hKeeps ⟨_, List.prefix_rfl, hRun⟩).1⟩

/-- Ctrl-C clears the line under a cursor that stays where it was; after one
more character, Backspace moves memory at an offset that wrapped. -/
theorem cursor_lost_by_ctrlC :
    (∃ s, shellThreadFunc .signed .init [.data (ascii "ab") (by decide),
        .data (ascii "\x1b[D") (by decide), .data [3] (by decide)] = .ok s ∧
      ¬ s.mgr.moveLeftNum.toNat ≤ (text s.cmdBuf.cells).length) ∧
    shellThreadFunc .signed .init [.data (ascii "ab") (by decide),
        .data (ascii "\x1b[D") (by decide), .data (ascii "\x1b[D") (by decide),
        .data [3] (by decide), .data (ascii "a") (by decide), .data [0x7f] (by decide)] =
      .error (.write .cmdBuf 4294967294) :=
  ⟨Sat.returns (by decide +kernel), Sat.faults (by decide +kernel)⟩

end TelnetDebug

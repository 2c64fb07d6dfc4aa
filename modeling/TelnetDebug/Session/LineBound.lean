import TelnetDebug.Session.Step

/-! The line buffer is not overrun. The writers of the buffer trust the length
of the line: the append loop has no guard, insertion in mid-line checks the
length of the line but needs one more cell for its terminator, and deletion
trusts the cursor. The input buffer is filled by a read of its full size. The
condition below says for each of them what it relies on. -/
namespace TelnetDebug

open CBuffer Guarded

/-- What a read must meet for the two line buffers to stay within bounds. -/
def FitsLine (sign : CharSign) (s : Session) (r : ReadResult) : Prop :=
  Terminated r.cmdLine.cells ∧
    (keyRead sign r = .backspace → 0 < (text s.cmdBuf.cells).length →
      s.mgr.moveLeftNum.toNat ≤ (text s.cmdBuf.cells).length) ∧
    (keyRead sign r = .other → (lineRead sign r).peek 0 ≠ 13 →
      if s.mgr.moveLeftNum ≠ 0 ∧ text s.cmdBuf.cells ≠ [] then
        (lineRead sign r).peek 0 ≠ 0 →
          s.mgr.moveLeftNum.toNat ≤ (text s.cmdBuf.cells).length →
            Terminated (s.cmdBuf.cells.drop ((text s.cmdBuf.cells).length + 1))
      else (text s.cmdBuf.cells).length + (text (lineRead sign r).cells).length < maxCmdLen)

instance (sign : CharSign) (s : Session) (r : ReadResult) : Decidable (FitsLine sign s r) :=
  inferInstanceAs (Decidable (_ ∧ _ ∧ (_ → _ → ite _ _ _)))

/-- The strings of the session end within their arrays. -/
structure Sound (s : Session) : Prop where
  cmdBuf : Terminated s.cmdBuf.cells
  gCmd : Terminated s.mgr.gCmd.cells
  entries : ∀ entry ∈ s.mgr.historyCmd.queueCmd.cells, Terminated entry.cmd.cells

/-- The two faults that have nothing to do with the line buffers. -/
def historyFault (f : Fault) : Prop := f.object = .redraw ∨ f.object = .queueCmd

theorem sound_init : Sound .init where
  cmdBuf := terminated_fill (s := []) (by decide)
  gCmd := terminated_fill (s := []) (by decide)
  entries := by
    intro entry h
    rw [(List.mem_replicate.mp h).2]
    exact terminated_fill (s := []) (by decide)

theorem Sound.of_mgr {s t : Session} (h : Sound s) (hMgr : t.mgr = s.mgr)
    (hBuf : Terminated t.cmdBuf.cells) : Sound t :=
  ⟨hBuf, by rw [hMgr]; exact h.gCmd, by rw [hMgr]; exact h.entries⟩

theorem insertChar_sound {s : Session} {c : UInt8} (hInv : Sound s)
    (hNum : s.mgr.moveLeftNum ≠ 0)
    (hFits : c ≠ 0 → s.mgr.moveLeftNum.toNat ≤ (text s.cmdBuf.cells).length →
      Terminated (s.cmdBuf.cells.drop ((text s.cmdBuf.cells).length + 1))) :
    Sat (insertChar s (UInt32.ofNat (text s.cmdBuf.cells).length) c) Sound historyFault := by
  have hLine := text_length_le s.cmdBuf.cells
  rw [s.cmdBuf.size] at hLine
  by_cases hCursor : s.mgr.moveLeftNum.toNat ≤ (text s.cmdBuf.cells).length
  · obtain ⟨before, after, rest, hCut⟩ := line_cut hInv.cmdBuf hCursor
    obtain ⟨buf, hInsert, hResult⟩ := hCut.insertChar hNum c
    rw [hInsert]
    refine hInv.of_mgr rfl ?_
    change Terminated buf.cells
    rw [hResult]
    by_cases hc : c = 0
    · rw [hc]
      exact terminated_append_zero _ _
    · have hTail : s.cmdBuf.cells.drop ((text s.cmdBuf.cells).length + 1) = rest := by
        rw [hCut.length, hCut.cells, ← List.length_append, ← List.drop_drop, List.drop_left]
        rfl
      have hRest := hFits hc hCursor
      rw [hTail] at hRest
      simp only [Terminated, List.mem_append, List.mem_cons] at hRest ⊢
      exact .inr (.inr (.inr hRest))
  · rw [insertChar_skip c (.inr ?_)]
    · exact hInv
    · rw [UInt32.lt_iff_toNat_lt, toNat_ofNat_line hLine]
      exact Nat.lt_of_not_le hCursor

theorem onBackspace_sound {s : Session} (hInv : Sound s)
    (hFits : 0 < (text s.cmdBuf.cells).length →
      s.mgr.moveLeftNum.toNat ≤ (text s.cmdBuf.cells).length) :
    Sat s.onBackspace Sound historyFault := by
  have hTerm := hInv.cmdBuf
  by_cases hStart : (text s.cmdBuf.cells).length = s.mgr.moveLeftNum.toNat
  · rw [onBackspace_start hTerm hStart]
    exact hInv
  · by_cases hEmpty : (text s.cmdBuf.cells).length = 0
    · unfold Session.onBackspace
      rw [Buffer.strlen_eq hTerm, reading_ok, ok_bind, if_neg hStart, hEmpty]
      have hSkip : keyboardBacksapce (s.send (ascii "\x08 \x08")) (UInt32.ofNat 0) =
          .ok (s.send (ascii "\x08 \x08")) := by
        simp [keyboardBacksapce]
        rfl
      rw [hSkip, ok_bind]
      dsimp only
      split <;> exact hInv.of_mgr rfl hTerm
    · have hCursor := hFits (Nat.pos_of_ne_zero hEmpty)
      obtain ⟨before, after, rest, hCut⟩ := line_cut hTerm hCursor
      obtain ⟨kept, old, buf, -, hErase, hResult⟩ := hCut.onBackspace hStart
      rw [hErase]
      refine hInv.of_mgr rfl ?_
      change Terminated buf.cells
      rw [hResult]
      exact terminated_append_zero _ _

theorem append_sound {s : Session} {line : Line} (hInv : Sound s) (hLine : Terminated line.cells)
    (hFits : (text s.cmdBuf.cells).length + (text line.cells).length < maxCmdLen) :
    Sat (s.append line) Sound historyFault := by
  obtain ⟨rest, hSplit⟩ := hInv.cmdBuf.split
  have hSize := s.cmdBuf.size
  rw [hSplit] at hSize
  simp only [List.length_append, List.length_cons] at hSize
  obtain ⟨buf, hAppend, hResult⟩ := append_spec hLine (zero_notMem_text _) hSplit (by omega)
  rw [hAppend]
  refine hInv.of_mgr rfl ?_
  change Terminated buf.cells
  rw [hResult]
  exact terminated_append_zero _ _

theorem onEnter_sound {s : Session} (hInv : Sound s) : Sat s.onEnter Sound historyFault := by
  obtain ⟨t, hEnter, h⟩ := onEnter_cases hInv.cmdBuf
  rw [hEnter]
  refine ⟨h.cmdBuf, ?_, ?_⟩
  · rcases h.gCmd with hSame | hTerm
    · rw [hSame]
      exact hInv.gCmd
    · exact hTerm
  · cases h.history with
    | kept hHistory _ _ =>
        rw [hHistory]
        exact hInv.entries
    | stored entry queue _ hTerm hQueue hHistory _ _ =>
        rw [hHistory]
        intro old hOld
        change old ∈ queue.cells at hOld
        rw [hQueue] at hOld
        rcases List.mem_or_eq_of_mem_set hOld with hOld | rfl
        · exact hInv.entries old hOld
        · exact hTerm

theorem onOther_sound {sign : CharSign} {s : Session} {line : Line} (hInv : Sound s)
    (hLine : Terminated line.cells)
    (hFits : line.peek 0 ≠ 13 →
      if s.mgr.moveLeftNum ≠ 0 ∧ text s.cmdBuf.cells ≠ [] then
        line.peek 0 ≠ 0 → s.mgr.moveLeftNum.toNat ≤ (text s.cmdBuf.cells).length →
          Terminated (s.cmdBuf.cells.drop ((text s.cmdBuf.cells).length + 1))
      else (text s.cmdBuf.cells).length + (text line.cells).length < maxCmdLen) :
    Sat (s.onOther sign line) Sound historyFault := by
  refine onOther_sat (fun h => absurd hInv.cmdBuf h) ?insert (onEnter_sound hInv) ?raw ?append
  case insert =>
    intro _ hNum hText hLow
    have hReturn : line.peek 0 ≠ 13 := by
      intro h
      rw [h] at hLow
      cases sign <;> exact absurd hLow (by decide)
    have hGap := hFits hReturn
    rw [if_pos ⟨hNum, hText⟩] at hGap
    exact insertChar_sound hInv hNum hGap
  case raw =>
    intro hTerm hNum hText hReturn
    have hGap := hFits hReturn
    rw [if_pos ⟨hNum, hText⟩] at hGap
    unfold Session.insertRaw
    rw [Buffer.strlen_eq hTerm, reading_ok, ok_bind]
    exact (insertChar_sound hInv hNum hGap).bind fun t h => h.of_mgr rfl h.cmdBuf
  case append =>
    intro hEnd hReturn
    have hGap := hFits hReturn
    rw [if_neg] at hGap
    · exact append_sound hInv hLine hGap
    · rintro ⟨hNum, hText⟩
      rcases hEnd with h | ⟨-, h⟩
      · exact hNum h
      · exact hText h

theorem Navigated.sound {s t : Session} {index : UInt32} (h : Navigated s index t)
    (hInv : Sound s) : Sound t := by
  obtain ⟨gCmd, hTerm, hMgr⟩ := h.mgr
  exact ⟨h.cmdBuf, by rw [hMgr]; exact hTerm hInv.gCmd, by rw [hMgr]; exact hInv.entries⟩

/-- One round of the loop. -/
theorem step_sound {sign : CharSign} {s : Session} {r : ReadResult} (hInv : Sound s)
    (hFits : FitsLine sign s r) : Sat (s.step sign r) Sound historyFault := by
  obtain ⟨hRead, hErase, hOther⟩ := hFits
  refine step_sat (fun _ => hInv) (fun h => absurd hRead h) fun _ _ => ?_
  cases hKey : keyRead sign r with
  | clearIac => exact hInv
  | ctrlC | ctrlL =>
      change Sat (Session.prompt _) _ _
      rw [Session.prompt_eq]
      exact hInv.of_mgr rfl (terminated_fill (s := []) (by decide))
  | up =>
      refine (onUp_sat (fun h => absurd hInv.gCmd h) fun _ => ?_).mono (fun _ h => h.sound hInv)
        fun _ h => h
      exact recallCmd_sound (s := s.setCursor 0) hInv.entries _
  | down =>
      refine (onDown_sat (fun h => absurd hInv.gCmd h) fun _ => ?_).mono (fun _ h => h.sound hInv)
        fun _ h => h
      exact recallCmd_sound (s := s.setCursor 0) hInv.entries _
  | right =>
      change Sound (keyboardMoveRight s)
      unfold keyboardMoveRight
      split
      · exact ⟨hInv.cmdBuf, hInv.gCmd, hInv.entries⟩
      · exact hInv
  | left =>
      change Sat s.onLeft _ _
      unfold Session.onLeft
      rw [Buffer.strlen_eq hInv.cmdBuf, reading_ok, ok_bind]
      change Sound (keyboardMoveLeft s _)
      unfold keyboardMoveLeft
      split
      · exact hInv
      · exact ⟨hInv.cmdBuf, hInv.gCmd, hInv.entries⟩
  | backspace => exact onBackspace_sound hInv (hErase hKey)
  | help | tab => exact hInv.of_mgr rfl hInv.cmdBuf
  | other => exact onOther_sound hInv (filtered_spec sign hRead).1 (hOther hKey)

/-- In every run whose reads fit the line, at every return to the head of the
loop the line buffer holds a string, and no access to the line buffer or to the
input buffer is out of bounds. -/
theorem line_buffer_bound (sign : CharSign) {reads : List ReadResult}
    (hFits : Meets (Session.step sign) (FitsLine sign) .init reads) :
    (∀ s, Visits (Session.step sign) .init reads s → Terminated s.cmdBuf.cells) ∧
      ∀ f, shellThreadFunc sign .init reads = .error f →
        f.object ≠ .cmdBuf ∧ f.object ≠ .cmdLine := by
  have hRun : Sat (shellThreadFunc sign .init reads) Sound historyFault :=
    run_sat (fun _ _ => step_sound) sound_init hFits
  constructor
  · intro s hVisit
    have hInv : Sound s := hVisit.invariant
      (fun _ _ hInv hFits => (step_sound hInv hFits).mono (fun _ h => h) fun _ _ => trivial)
      sound_init hFits
    exact hInv.cmdBuf
  · intro f hFault
    rw [hFault] at hRun
    rcases hRun with h | h <;> simp [h]

/-- A line, an insertion in it, and a deletion. -/
theorem line_buffer_bound_typed :
    ∃ s, shellThreadFunc .signed .init [.data (ascii "ab") (by decide),
        .data (ascii "\x1b[D") (by decide), .data (ascii "x") (by decide),
        .data [0x7f] (by decide)] = .ok s ∧ Terminated s.cmdBuf.cells := by
  have hSat : Sat (shellThreadFunc .signed .init [.data (ascii "ab") (by decide),
      .data (ascii "\x1b[D") (by decide), .data (ascii "x") (by decide),
      .data [0x7f] (by decide)]) (fun _ => True) (fun _ => False) := by decide +kernel
  obtain ⟨s, hRun, -⟩ := hSat.returns
  have hFits : Meets (Session.step .signed) (FitsLine .signed) .init
      [.data (ascii "ab") (by decide), .data (ascii "\x1b[D") (by decide),
        .data (ascii "x") (by decide), .data [0x7f] (by decide)] := by decide +kernel
  exact ⟨s, hRun, (line_buffer_bound .signed hFits).1 s ⟨_, List.prefix_rfl, hRun⟩⟩

/-- Two reads of text that are together as long as the buffer overrun it, by
the terminator that the append loop writes. -/
theorem text_overrun {sign : CharSign} {first second : List UInt8} (hFirst : IsText sign first)
    (hSecond : IsText sign second) (fits : first.length ≤ maxCmdLen)
    (fits' : second.length ≤ maxCmdLen) (hOver : maxCmdLen ≤ first.length + second.length) :
    shellThreadFunc sign .init [.data first fits, .data second fits'] =
      .error (.write .cmdBuf maxCmdLen) := by
  have hMax := maxCmdLen_eq
  have hShort := hFirst.short
  have hEmpty : Session.init.cmdBuf.cells = [] ++ 0 :: List.replicate 255 0 := rfl
  obtain ⟨buf, hAppend, hCells⟩ := appendAll_spec (List.not_mem_nil) hFirst.noNul hEmpty
    (by rw [List.length_replicate]; omega)
  have hFull : buf.cells = first ++ 0 :: (List.replicate 255 0).drop first.length := hCells
  have hOverrun := appendAll_overrun hFirst.noNul hSecond.noNul hFull
    (by rw [List.length_drop, List.length_replicate]; omega)
  unfold shellThreadFunc
  rw [run_cons, hFirst.step fits rfl rfl, hAppend, ok_bind, ok_bind, run_cons,
    hSecond.step fits' rfl rfl]
  change (second.foldlM Session.appendChar buf >>= _) >>= _ = _
  rw [hOverrun, error_bind, error_bind]

theorem IsText.replicate {sign : CharSign} {c : UInt8} {count : Nat} (hPlain : Plain sign c)
    (hIac : sign.value c ≠ iac) (hSome : count ≠ 0) (hShort : count < maxCmdLen) :
    IsText sign (List.replicate count c) := by
  have hList := (IsText.singleton hPlain hIac)
  have hc {d : UInt8} (h : d ∈ List.replicate count c) : d ∈ [c] := by
    rw [List.eq_of_mem_replicate h]
    exact List.mem_singleton_self c
  obtain ⟨count, rfl⟩ := Nat.exists_eq_succ_of_ne_zero hSome
  exact ⟨by rwa [List.length_replicate], ⟨c, List.replicate count c, rfl, hPlain⟩,
    fun h => hList.noNul (hc h), fun h => hList.noReturn (hc h), fun d h => hList.noIac d (hc h)⟩

/-- One character more than a full line writes past the line buffer, and a read
of 256 bytes leaves the input buffer without a terminator. -/
theorem line_buffer_overrun :
    shellThreadFunc .signed .init
        [.data (List.replicate 255 0x61) (by rw [List.length_replicate]; decide),
          .data [0x61] (by decide)] = .error (.write .cmdBuf 256) ∧
      shellThreadFunc .signed .init
        [.data (List.replicate 256 0x61) (by rw [List.length_replicate]; decide)] =
        .error (.read .cmdLine 256) :=
  ⟨text_overrun (.replicate (by decide) (by decide) (by decide) (by decide))
    (.singleton (by decide) (by decide)) _ _ (by rw [List.length_replicate]; decide),
    Sat.faults (by decide +kernel)⟩

end TelnetDebug

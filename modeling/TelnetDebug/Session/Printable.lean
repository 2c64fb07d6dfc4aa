import TelnetDebug.Session.Step
import TelnetDebug.Library.Terminal

/-! The characters of the line. A byte typed in mid-line is tested before it is
inserted, bytes typed at the end of the line are not. In runs that bring only
printable characters into the line, every cell of the line buffer, of the
recalled command and of the history is zero or printable. -/
namespace TelnetDebug

open CBuffer Guarded VT100

def CleanCell (c : UInt8) : Prop := c = 0 ∨ Printable c

instance (c : UInt8) : Decidable (CleanCell c) := inferInstanceAs (Decidable (_ ∨ _))

structure Clean (s : Session) : Prop where
  line : ∀ c ∈ s.cmdBuf.cells, CleanCell c
  gCmd : ∀ c ∈ s.mgr.gCmd.cells, CleanCell c
  entries : ∀ entry ∈ s.mgr.historyCmd.queueCmd.cells, ∀ c ∈ entry.cmd.cells, CleanCell c

/-- The read brings no other than printable characters into the line. At the end
of the line this is asked of every byte, and within the line of the first one,
the only one that is inserted. -/
def BringsPrintable (sign : CharSign) (s : Session) (r : ReadResult) : Prop :=
  keyRead sign r = .other → (lineRead sign r).peek 0 ≠ 13 →
    if s.mgr.moveLeftNum = 0 ∨ text s.cmdBuf.cells = [] then ∀ c ∈ typed sign r, Printable c
    else s.mgr.moveLeftNum.toNat ≤ (text s.cmdBuf.cells).length →
      CleanCell ((lineRead sign r).peek 0)

instance (sign : CharSign) (s : Session) (r : ReadResult) :
    Decidable (BringsPrintable sign s r) :=
  inferInstanceAs (Decidable (keyRead sign r = .other → (lineRead sign r).peek 0 ≠ 13 →
    if s.mgr.moveLeftNum = 0 ∨ text s.cmdBuf.cells = [] then ∀ c ∈ typed sign r, Printable c
    else s.mgr.moveLeftNum.toNat ≤ (text s.cmdBuf.cells).length →
      CleanCell ((lineRead sign r).peek 0)))

theorem clean_zero : CleanCell 0 := .inl rfl

section Handlers
variable {s : Session}

theorem Clean.setLine (h : Clean s) {buf : Line} (hBuf : ∀ c ∈ buf.cells, CleanCell c)
    {t : Session} (hMgr : t.mgr.historyCmd = s.mgr.historyCmd ∧ t.mgr.gCmd = s.mgr.gCmd)
    (hLine : t.cmdBuf = buf) : Clean t := by
  refine ⟨hLine ▸ hBuf, ?_, ?_⟩
  · rw [hMgr.2]
    exact h.gCmd
  · rw [hMgr.1]
    exact h.entries

theorem Clean.setCursor (h : Clean s) (num : UInt32) : Clean (s.setCursor num) :=
  ⟨h.line, h.gCmd, h.entries⟩

theorem insertChar_clean (h : Clean s) (len : UInt32) {c : UInt8} (hc : CleanCell c) :
    Sat (insertChar s len c) Clean (fun _ => True) := by
  unfold insertChar
  dsimp only
  split
  · exact h
  · split
    · refine sat_writing_bind (fun _ _ => trivial) fun b₁ hMove => ?_
      refine sat_writing_bind (fun _ _ => trivial) fun b₂ hSet => ?_
      refine h.setLine (fun d hd => ?_) ⟨rfl, rfl⟩ rfl
      rcases Buffer.mem_of_set hSet hd with rfl | hd
      · exact hc
      · exact h.line d (Buffer.mem_of_move hMove hd)
    · exact h

theorem keyboardBacksapce_clean (h : Clean s) (len : UInt32) :
    Sat (keyboardBacksapce s len) Clean (fun _ => True) := by
  unfold keyboardBacksapce
  dsimp only
  split
  · exact h
  · split
    · refine sat_writing_bind (fun _ _ => trivial) fun b₁ hMove => ?_
      refine sat_writing_bind (fun _ _ => trivial) fun b₂ hSet => ?_
      refine h.setLine (fun d hd => ?_) ⟨rfl, rfl⟩ rfl
      rcases Buffer.mem_of_set hSet hd with rfl | hd
      · exact clean_zero
      · exact h.line d (Buffer.mem_of_move hMove hd)
    · refine sat_writing_bind (fun _ _ => trivial) fun b hSet => ?_
      refine h.setLine (fun d hd => ?_) ⟨rfl, rfl⟩ rfl
      rcases Buffer.mem_of_set hSet hd with rfl | hd
      · exact clean_zero
      · exact h.line d hd

theorem onBackspace_clean (h : Clean s) : Sat s.onBackspace Clean (fun _ => True) := by
  unfold Session.onBackspace
  refine sat_reading_bind (fun _ _ => trivial) fun len _ => ?_
  split
  · exact h
  · have hStart : Clean (s.send (ascii "\x08 \x08")) := ⟨h.line, h.gCmd, h.entries⟩
    refine (keyboardBacksapce_clean hStart _).bind fun t ht => ?_
    dsimp only
    split <;> exact ⟨ht.line, ht.gCmd, ht.entries⟩

theorem appendAll_clean {buf : Line} (hBuf : ∀ c ∈ buf.cells, CleanCell c) {bytes : List UInt8}
    (hBytes : ∀ c ∈ bytes, Printable c) :
    Sat (bytes.foldlM Session.appendChar buf) (fun b => ∀ c ∈ b.cells, CleanCell c)
      (fun _ => True) := by
  induction bytes generalizing buf with
  | nil => exact hBuf
  | cons c bytes ih =>
      obtain ⟨hc, hBytes⟩ := List.forall_mem_cons.mp hBytes
      have hChar : Sat (Session.appendChar buf c) (fun b => ∀ c ∈ b.cells, CleanCell c)
          (fun _ => True) := by
        unfold Session.appendChar
        refine sat_reading_bind (fun _ _ => trivial) fun jj _ => ?_
        refine sat_writing_bind (fun _ _ => trivial) fun b₁ hFirst => ?_
        cases hSecond : b₁.set (jj + 1) 0 with
        | error i => trivial
        | ok b₂ =>
            intro d hd
            rcases Buffer.mem_of_set hSecond hd with rfl | hd
            · exact clean_zero
            · rcases Buffer.mem_of_set hFirst hd with rfl | hd
              · exact .inr hc
              · exact hBuf d hd
      rw [List.foldlM_cons]
      exact hChar.bind fun b hb => ih hb hBytes

theorem append_clean (h : Clean s) {line : Line} (hLine : ∀ c ∈ text line.cells, Printable c) :
    Sat (s.append line) Clean (fun _ => True) := by
  unfold Session.append
  refine sat_reading_bind (fun _ _ => trivial) fun bytes hBytes => ?_
  have hText : bytes = text line.cells := by
    unfold Buffer.str at hBytes
    split at hBytes
    · exact (Except.ok.inj hBytes).symm
    · cases hBytes
  exact (appendAll_clean h.line (hText ▸ hLine)).bind fun b hb =>
    h.setLine hb ⟨rfl, rfl⟩ rfl

/-- A clean string copied into an array that was cleared. -/
theorem store_clean {line : List UInt8} {buf : Line} (hLine : ∀ c ∈ line, CleanCell c)
    (hStore : (Buffer.const maxCmdLen (0 : UInt8)).store line = .ok buf) :
    ∀ c ∈ buf.cells, CleanCell c := by
  intro c hc
  rcases Buffer.mem_of_store hStore hc with rfl | hc | hc
  · exact clean_zero
  · exact hLine c hc
  · exact .inl (List.eq_of_mem_replicate hc)

theorem entryText_clean (h : Clean s) (index : UInt32) :
    Sat (entryText s.mgr.historyCmd index) (fun line => ∀ c ∈ line, CleanCell c)
      (fun _ => True) := by
  unfold entryText
  refine sat_reading_bind (fun _ _ => trivial) fun entry hEntry => ?_
  cases hStr : entry.cmd.str with
  | error i => trivial
  | ok line =>
      exact fun c hc => h.entries _ (Buffer.mem_of_get hEntry) c (Buffer.mem_of_str hStr hc)

theorem recallCmd_clean (h : Clean s) (index : UInt32) :
    Sat (recallCmd s index) Clean (fun _ => True) := by
  unfold recallCmd
  refine (entryText_clean h index).bind fun shown _ => ?_
  refine sat_writing_bind (fun _ _ => trivial) fun buf _ => ?_
  refine (entryText_clean h index).bind fun line hLine => ?_
  refine sat_writing_bind (fun _ _ => trivial) fun gCmd hStore => ?_
  exact ⟨h.line, store_clean hLine hStore, h.entries⟩

theorem reload_clean (h : Clean s) : Sat s.reload Clean (fun _ => True) := by
  unfold Session.reload
  refine sat_reading_bind (fun _ _ => trivial) fun line hLine => ?_
  refine sat_writing_bind (fun _ _ => trivial) fun buf hStore => ?_
  exact h.setLine (store_clean (fun c hc => h.gCmd c (Buffer.mem_of_str hLine hc)) hStore)
    ⟨rfl, rfl⟩ rfl

theorem onUp_clean (h : Clean s) : Sat s.onUp Clean (fun _ => True) := by
  rw [onUp_eq]
  split
  · exact reload_clean (h.setCursor 0)
  · exact (recallCmd_clean (h.setCursor 0) _).bind fun t ht => reload_clean ht

theorem onDown_clean (h : Clean s) : Sat s.onDown Clean (fun _ => True) := by
  rw [onDown_eq]
  split
  · exact reload_clean (h.setCursor 0)
  · exact (recallCmd_clean (h.setCursor 0) _).bind fun t ht => reload_clean ht

theorem updateHistoryCmd_clean (h : Clean s) {cmd : Line} (hCmd : ∀ c ∈ cmd.cells, CleanCell c) :
    Sat (updateHistoryCmd s cmd) Clean (fun _ => True) := by
  unfold updateHistoryCmd
  split
  · exact h
  · dsimp only
    refine sat_writing_bind (fun _ _ => trivial) fun entry hEntry => ?_
    refine sat_reading_bind (fun _ _ => trivial) fun line hLine => ?_
    refine sat_writing_bind (fun _ _ => trivial) fun stored hStore => ?_
    refine sat_writing_bind (fun _ _ => trivial) fun queue hQueue => ?_
    refine ⟨h.line, h.gCmd, fun e he c hc => ?_⟩
    rcases Buffer.mem_of_set hQueue he with rfl | he
    · rcases Buffer.mem_of_store hStore hc with rfl | hc | hc
      · exact clean_zero
      · exact hCmd c (Buffer.mem_of_str hLine hc)
      · exact h.entries _ (Buffer.mem_of_get hEntry) c hc
    · exact h.entries e he c hc

theorem const_clean (c : UInt8) (hc : c ∈ (Buffer.const maxCmdLen (0 : UInt8)).cells) :
    CleanCell c :=
  .inl (List.eq_of_mem_replicate hc)

theorem prompt_clean (h : Clean s) : Sat s.prompt Clean (fun _ => True) := by
  rw [Session.prompt_eq]
  exact h.setLine const_clean ⟨rfl, rfl⟩ rfl

theorem cmdOver_clean (h : Clean s) : Sat s.cmdOver Clean (fun _ => True) := by
  unfold Session.cmdOver
  split
  · refine (updateHistoryCmd_clean h h.line).bind fun t ht => ?_
    split
    · exact ⟨ht.line, ht.gCmd, ht.entries⟩
    · refine sat_reading_bind (fun _ _ => trivial) fun line _ => ?_
      exact prompt_clean ⟨ht.line, ht.gCmd, ht.entries⟩
  · exact h

theorem onEnter_clean (h : Clean s) : Sat s.onEnter Clean (fun _ => True) := by
  unfold Session.onEnter
  dsimp only
  refine sat_reading_bind (fun _ _ => trivial) fun line hLine => ?_
  split
  · refine sat_writing_bind (fun _ _ => trivial) fun gCmd hStore => ?_
    exact cmdOver_clean ⟨h.line, store_clean (fun c hc => h.line c (Buffer.mem_of_str hLine hc))
      hStore, h.entries⟩
  · exact ⟨h.line, h.gCmd, h.entries⟩

end Handlers

theorem onOther_clean {sign : CharSign} {s : Session} {r : ReadResult} (h : Clean s)
    (hKey : keyRead sign r = .other) (hBrings : BringsPrintable sign s r) :
    Sat (s.onOther sign (lineRead sign r)) Clean (fun _ => True) := by
  have hMid (hNum : s.mgr.moveLeftNum ≠ 0) (hSome : text s.cmdBuf.cells ≠ [])
      (hFirst : (lineRead sign r).peek 0 ≠ 13)
      (hCursor : s.mgr.moveLeftNum.toNat ≤ (text s.cmdBuf.cells).length) :
      CleanCell ((lineRead sign r).peek 0) := by
    have hTest := hBrings hKey hFirst
    rw [if_neg (not_or.mpr ⟨hNum, hSome⟩)] at hTest
    exact hTest hCursor
  have hInsert (hTerm : Terminated s.cmdBuf.cells) (hNum : s.mgr.moveLeftNum ≠ 0)
      (hSome : text s.cmdBuf.cells ≠ []) (hFirst : (lineRead sign r).peek 0 ≠ 13) :
      Sat (insertChar s (UInt32.ofNat (text s.cmdBuf.cells).length) ((lineRead sign r).peek 0))
        Clean (fun _ => True) := by
    by_cases hCursor : s.mgr.moveLeftNum.toNat ≤ (text s.cmdBuf.cells).length
    · exact insertChar_clean h _ (hMid hNum hSome hFirst hCursor)
    · have hShort := Nat.le_of_lt (Buffer.text_length_lt s.cmdBuf hTerm)
      rw [insertChar_skip]
      · exact h
      · right
        rw [UInt32.lt_iff_toNat_lt, toNat_ofNat_line hShort]
        exact Nat.lt_of_not_le hCursor
  refine onOther_sat (fun _ => trivial) ?insert (onEnter_clean h) ?raw ?append
  case insert =>
    intro hTerm hNum hSome hLow
    refine hInsert hTerm hNum hSome fun hReturn => ?_
    rw [hReturn, sign.value_of_lt (c := 13) (by decide)] at hLow
    exact absurd hLow (by decide)
  case raw =>
    intro hTerm hNum hSome hFirst
    unfold Session.insertRaw
    rw [Buffer.strlen_eq hTerm, reading_ok, ok_bind]
    exact (hInsert hTerm hNum hSome hFirst).bind fun t ht => ⟨ht.line, ht.gCmd, ht.entries⟩
  case append =>
    intro hEnd hFirst
    have hTest := hBrings hKey hFirst
    rw [if_pos (hEnd.imp_right And.right)] at hTest
    exact append_clean h hTest

theorem step_clean {sign : CharSign} {s : Session} {r : ReadResult} (h : Clean s)
    (hBrings : BringsPrintable sign s r) : Sat (s.step sign r) Clean (fun _ => True) := by
  refine step_sat (fun _ => h) (fun _ => trivial) fun _ _ => ?_
  cases hKey : keyRead sign r with
  | clearIac => exact h
  | ctrlC => exact prompt_clean ⟨h.line, h.gCmd, h.entries⟩
  | ctrlL => exact prompt_clean ⟨h.line, h.gCmd, h.entries⟩
  | up => exact onUp_clean h
  | down => exact onDown_clean h
  | right =>
      change Clean (keyboardMoveRight s)
      unfold keyboardMoveRight
      split
      · exact ⟨h.line, h.gCmd, h.entries⟩
      · exact h
  | left =>
      change Sat s.onLeft _ _
      unfold Session.onLeft
      refine sat_reading_bind (fun _ _ => trivial) fun len _ => ?_
      change Clean (keyboardMoveLeft s _)
      unfold keyboardMoveLeft
      split
      · exact h
      · exact ⟨h.line, h.gCmd, h.entries⟩
  | backspace => exact onBackspace_clean h
  | help | tab => exact ⟨h.line, h.gCmd, h.entries⟩
  | other => exact onOther_clean h hKey hBrings

theorem clean_init : Clean .init where
  line := const_clean
  gCmd := const_clean
  entries := by
    intro entry hEntry c hc
    obtain rfl := List.eq_of_mem_replicate hEntry
    exact const_clean c hc

/-- An append that returns has put its bytes on the line. -/
theorem mem_of_append {s t : Session} {line : Line} (hLine : Terminated line.cells)
    (hAppend : s.append line = .ok t) {c : UInt8} (hc : c ∈ text line.cells) :
    c ∈ text t.cmdBuf.cells := by
  have hLoop : s.append line = (text line.cells).foldlM Session.appendChar s.cmdBuf >>= fun buf =>
      .ok { s.send (text line.cells) with cmdBuf := buf } := by
    unfold Session.append
    rw [Buffer.str_eq hLine]
    rfl
  by_cases hTerm : Terminated s.cmdBuf.cells
  · obtain ⟨rest, hSplit⟩ := hTerm.split
    have hOld := zero_notMem_text s.cmdBuf.cells
    have hNew := zero_notMem_text line.cells
    by_cases hFits : (text line.cells).length ≤ rest.length
    · obtain ⟨buf, hResult, hCells⟩ := append_spec hLine hOld hSplit hFits
      obtain rfl := Except.ok.inj (hResult.symm.trans hAppend)
      change c ∈ text buf.cells
      rw [hCells, text_append_zero (by rw [List.mem_append, not_or]; exact ⟨hOld, hNew⟩)]
      exact List.mem_append_right _ hc
    · rw [hLoop, appendAll_overrun hOld hNew hSplit (Nat.lt_of_not_le hFits)] at hAppend
      cases hAppend
  · rw [hLoop, appendAll_unterminated hTerm (List.ne_nil_of_mem hc)] at hAppend
    cases hAppend

/-- So has an insertion within the line. -/
theorem mem_of_insert {sign : CharSign} {s t : Session} {line : Line}
    (hTerm : Terminated s.cmdBuf.cells) (hNum : s.mgr.moveLeftNum ≠ 0)
    (hSome : text s.cmdBuf.cells ≠ [])
    (hCursor : s.mgr.moveLeftNum.toNat ≤ (text s.cmdBuf.cells).length)
    (hReturn : line.peek 0 ≠ 13) (hZero : line.peek 0 ≠ 0) (hOther : s.onOther sign line = .ok t) :
    line.peek 0 ∈ text t.cmdBuf.cells := by
  obtain ⟨before, after, rest, hCut⟩ := line_cut hTerm hCursor
  obtain ⟨buf, hInsert, hCells⟩ := hCut.insertChar hNum (line.peek 0)
  have hBefore : 0 ∉ before := fun h => hCut.noNul (List.mem_append_left _ h)
  have hMem : line.peek 0 ∈ text buf.cells := by
    rw [hCells, ← List.singleton_append, ← List.append_assoc,
      text_append (by simp [hBefore, hZero.symm])]
    simp
  have hMid : decide (s.mgr.moveLeftNum > 0 ∧ 0 < (text s.cmdBuf.cells).length) = true := by
    rw [decide_eq_true_eq]
    exact ⟨UInt32.pos_iff_ne_zero.mpr hNum, List.length_pos_iff.mpr hSome⟩
  unfold Session.onOther at hOther
  rw [midLine_eq hTerm, ok_bind, hMid] at hOther
  simp only [true_and, if_true, if_neg hReturn] at hOther
  split at hOther
  · rw [Buffer.strlen_eq hTerm, reading_ok, ok_bind, hInsert] at hOther
    obtain rfl := Except.ok.inj hOther
    exact hMem
  · unfold Session.insertRaw at hOther
    rw [Buffer.strlen_eq hTerm, reading_ok, ok_bind, hInsert, ok_bind] at hOther
    obtain rfl := Except.ok.inj hOther
    exact hMem

/-- The condition is exact for one round: a read that does not meet it, and does
not leave an array, puts another byte on the line. -/
theorem step_unprintable {sign : CharSign} {s t : Session} {r : ReadResult}
    (hOpen : s.closed = false) (hRead : Terminated r.cmdLine.cells)
    (hStep : s.step sign r = .ok t) (hBrings : ¬ BringsPrintable sign s r) :
    ∃ c ∈ text t.cmdBuf.cells, ¬ Printable c := by
  unfold BringsPrintable at hBrings
  push Not at hBrings
  obtain ⟨hKey, hFirst, hTest⟩ := hBrings
  rw [step_key hOpen hRead hKey] at hStep
  change s.onOther sign (lineRead sign r) = .ok t at hStep
  have hLine : Terminated (lineRead sign r).cells := (filtered_spec sign hRead).1
  by_cases hEnd : s.mgr.moveLeftNum = 0 ∨ text s.cmdBuf.cells = []
  · rw [if_pos hEnd] at hTest
    push Not at hTest
    obtain ⟨c, hc, hBad⟩ := hTest
    rw [onOther_append (midLine_eq_false_iff.mpr hEnd) hFirst] at hStep
    exact ⟨c, mem_of_append hLine hStep hc, hBad⟩
  · rw [if_neg hEnd] at hTest
    push Not at hTest
    obtain ⟨hCursor, hBad⟩ := hTest
    obtain ⟨hNum, hSome⟩ := not_or.mp hEnd
    obtain ⟨hZero, hBad⟩ := not_or.mp hBad
    have hTerm : Terminated s.cmdBuf.cells := by
      by_contra hTerm
      unfold Session.onOther Session.midLine at hStep
      rw [if_pos (UInt32.pos_iff_ne_zero.mpr hNum), Buffer.strlen_error hTerm] at hStep
      cases hStep
    exact ⟨_, mem_of_insert hTerm hNum hSome hCursor hFirst hZero hStep, hBad⟩

/-- In every run whose reads bring only printable characters into the line, at
every return to the head of the loop the bytes of the line are printable. -/
theorem line_printable (sign : CharSign) {reads : List ReadResult} {s : Session}
    (hBrings : Meets (Session.step sign) (BringsPrintable sign) .init reads)
    (hVisit : Visits (Session.step sign) .init reads s) :
    ∀ c ∈ text s.cmdBuf.cells, 32 ≤ c.toNat ∧ c.toNat ≤ 126 := by
  intro c hc
  have hClean : Clean s := hVisit.invariant (fun _ _ h hBrings => step_clean h hBrings) clean_init
    hBrings
  have hCell := hClean.line c ((List.takeWhile_prefix _).subset hc)
  refine hCell.resolve_left fun hZero => ?_
  exact zero_notMem_text _ (hZero ▸ hc)

/-- Text, Left, and an insertion. -/
theorem line_printable_typed :
    ∃ s, shellThreadFunc .signed .init [.data (ascii "ab") (by decide),
        .data (ascii "\x1b[D") (by decide), .data (ascii "x") (by decide)] = .ok s ∧
      ∀ c ∈ text s.cmdBuf.cells, 32 ≤ c.toNat ∧ c.toNat ≤ 126 := by
  have hSat : Sat (shellThreadFunc .signed .init [.data (ascii "ab") (by decide),
      .data (ascii "\x1b[D") (by decide), .data (ascii "x") (by decide)]) (fun _ => True)
      (fun _ => False) := by decide +kernel
  obtain ⟨s, hRun, -⟩ := hSat.returns
  have hBrings : Meets (Session.step .signed) (BringsPrintable .signed) .init
      [.data (ascii "ab") (by decide), .data (ascii "\x1b[D") (by decide),
        .data (ascii "x") (by decide)] := by decide +kernel
  exact ⟨s, hRun, line_printable .signed hBrings ⟨_, List.prefix_rfl, hRun⟩⟩

/-- The Home key is no key of the session: its bytes go into the line. -/
theorem line_not_printable :
    ∃ s, Visits (Session.step .signed) .init [.data (ascii "\x1b[H") (by decide)] s ∧
      ∃ c ∈ text s.cmdBuf.cells, ¬ (32 ≤ c.toNat ∧ c.toNat ≤ 126) := by
  have hSat : Sat (shellThreadFunc .signed .init [.data (ascii "\x1b[H") (by decide)])
      (fun s => ∃ c ∈ text s.cmdBuf.cells, ¬ (32 ≤ c.toNat ∧ c.toNat ≤ 126)) (fun _ => False) := by
    decide +kernel
  obtain ⟨s, hRun, hBad⟩ := hSat.returns
  exact ⟨s, ⟨_, List.prefix_rfl, hRun⟩, hBad⟩

end TelnetDebug

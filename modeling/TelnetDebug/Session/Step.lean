import TelnetDebug.Session.History

/-! Rules for one round of the loop: the filtered line, the key it is taken
for, and the tests that also look at the session. -/
namespace TelnetDebug

open CBuffer Guarded

/-- The result of `read` is kept in an unsigned variable, so neither `read_reliable`
nor the loop ever sees a negative one. -/
theorem readReliable_eq (r : ReadResult) : readReliable r = some r.ret := by
  unfold readReliable
  rw [if_neg]
  rintro ⟨h, -⟩
  exact UInt32.not_lt_zero h

theorem filtered_spec (sign : CharSign) {line : Line} (h : Terminated line.cells) :
    Terminated (Session.filtered sign line).cells ∧
      (text (Session.filtered sign line).cells).length = (text line.cells).length := by
  obtain ⟨rest, hSplit⟩ := h.split
  obtain ⟨s, hCells, hLength, hText⟩ :=
    telnetdRemoveIac_keeps sign (zero_notMem_text line.cells) (0 :: rest)
  rw [← hSplit] at hCells
  have hFiltered : (Session.filtered sign line).cells = s ++ 0 :: rest := hCells
  rw [hFiltered, text_append_zero hText]
  exact ⟨terminated_append_zero _ _, hLength⟩

/-- A line without `IAC` and carriage returns passes the filter unchanged. -/
theorem filtered_plain {sign : CharSign} {line : Line} (h : Terminated line.cells)
    (hIac : ∀ c ∈ text line.cells, sign.value c ≠ iac) (hReturn : (13 : UInt8) ∉ text line.cells) :
    Session.filtered sign line = line := by
  obtain ⟨rest, hSplit⟩ := h.split
  ext1
  have hSame := telnetdRemoveIac_plain sign hIac hReturn (0 :: rest)
  rwa [← hSplit] at hSame

/-- The line a read leaves behind the filter. -/
def lineRead (sign : CharSign) (r : ReadResult) : Line := Session.filtered sign r.cmdLine

def keyRead (sign : CharSign) (r : ReadResult) : Key := keyOf sign (lineRead sign r)

theorem step_closed (sign : CharSign) {s : Session} (r : ReadResult) (h : s.closed = true) :
    s.step sign r = .ok s := by
  unfold Session.step
  rw [if_pos h]
  rfl

theorem step_open (sign : CharSign) {s : Session} (r : ReadResult) (h : s.closed = false) :
    s.step sign r =
      reading .cmdLine r.cmdLine.strlen >>= fun _ => s.dispatch sign (lineRead sign r) := by
  unfold Session.step
  rw [if_neg (by simp [h]), readReliable_eq]
  dsimp only
  rw [if_neg UInt32.not_lt_zero]
  rfl

/-- A terminated line read is handled by the code behind its key. -/
theorem step_key {sign : CharSign} {s : Session} {r : ReadResult} {key : Key}
    (hOpen : s.closed = false) (hTerm : Terminated r.cmdLine.cells)
    (hKey : keyRead sign r = key) : s.step sign r = s.onKey sign (lineRead sign r) key := by
  rw [step_open sign r hOpen, Buffer.strlen_eq hTerm, ← hKey]
  rfl

/-- One round either leaves a closed session, reads a line that is not
terminated, or handles the key of the line. -/
theorem step_sat {sign : CharSign} {s : Session} {r : ReadResult} {post : Session → Prop}
    {fault : Fault → Prop} (hClosed : s.closed = true → post s)
    (hUnterminated : ¬ Terminated r.cmdLine.cells → fault (.read .cmdLine maxCmdLen))
    (hKey : s.closed = false → Terminated r.cmdLine.cells →
      Sat (s.onKey sign (lineRead sign r) (keyRead sign r)) post fault) :
    Sat (s.step sign r) post fault := by
  cases hOpen : s.closed with
  | true =>
      rw [step_closed sign r hOpen]
      exact hClosed hOpen
  | false =>
      rw [step_open sign r hOpen]
      by_cases hTerm : Terminated r.cmdLine.cells
      · rw [Buffer.strlen_eq hTerm]
        exact hKey hOpen hTerm
      · rw [Buffer.strlen_error hTerm]
        exact hUnterminated hTerm

/-- The branches behind the keys, each under the tests that lead to it. -/
theorem onOther_sat {sign : CharSign} {s : Session} {line : Line} {post : Session → Prop}
    {fault : Fault → Prop}
    (hUnterminated : ¬ Terminated s.cmdBuf.cells → fault (.read .cmdBuf maxCmdLen))
    (hInsert : Terminated s.cmdBuf.cells → s.mgr.moveLeftNum ≠ 0 → text s.cmdBuf.cells ≠ [] →
      32 ≤ sign.value (line.peek 0) →
      Sat (insertChar s (UInt32.ofNat (text s.cmdBuf.cells).length) (line.peek 0)) post fault)
    (hEnter : Sat s.onEnter post fault)
    (hRaw : Terminated s.cmdBuf.cells → s.mgr.moveLeftNum ≠ 0 → text s.cmdBuf.cells ≠ [] →
      line.peek 0 ≠ 13 → Sat (s.insertRaw (line.peek 0)) post fault)
    (hAppend : s.mgr.moveLeftNum = 0 ∨ Terminated s.cmdBuf.cells ∧ text s.cmdBuf.cells = [] →
      line.peek 0 ≠ 13 → Sat (s.append line) post fault) :
    Sat (s.onOther sign line) post fault := by
  unfold Session.onOther
  dsimp only
  by_cases hNum : s.mgr.moveLeftNum = 0
  · rw [midLine_end hNum, ok_bind, if_neg (by simp)]
    split
    · exact hEnter
    · next hc => exact hAppend (.inl hNum) hc
  · have hPos : s.mgr.moveLeftNum > 0 := UInt32.pos_iff_ne_zero.mpr hNum
    by_cases hTerm : Terminated s.cmdBuf.cells
    · rw [midLine_eq hTerm, ok_bind]
      by_cases hText : text s.cmdBuf.cells = []
      · rw [if_neg (by simp [hText])]
        split
        · exact hEnter
        · next hc =>
          rw [if_neg (by simp [hText])]
          exact hAppend (.inr ⟨hTerm, hText⟩) hc
      · have hMid : decide (s.mgr.moveLeftNum > 0 ∧ 0 < (text s.cmdBuf.cells).length) = true := by
          simp only [decide_eq_true_eq]
          exact ⟨hPos, List.length_pos_iff.mpr hText⟩
        simp only [hMid, true_and, if_true]
        split
        · next hPrintable =>
          rw [Buffer.strlen_eq hTerm, reading_ok, ok_bind]
          exact hInsert hTerm hNum hText hPrintable.1
        · split
          · exact hEnter
          · next hc => exact hRaw hTerm hNum hText hc
    · unfold Session.midLine
      rw [if_pos hPos, Buffer.strlen_error hTerm]
      exact hUnterminated hTerm

theorem onOther_append {sign : CharSign} {s : Session} {line : Line}
    (hMid : s.midLine = .ok false) (hReturn : line.peek 0 ≠ 13) :
    s.onOther sign line = s.append line := by
  unfold Session.onOther
  rw [hMid, ok_bind]
  simp only [Bool.false_eq_true, false_and, if_false, if_neg hReturn]

/-- The read is taken for text: it is no key, and it is not Enter. -/
structure Types (sign : CharSign) (r : ReadResult) : Prop where
  line : Terminated r.cmdLine.cells
  key : keyRead sign r = .other
  first : (lineRead sign r).peek 0 ≠ 13

instance (sign : CharSign) (r : ReadResult) : Decidable (Types sign r) :=
  decidable_of_iff (Terminated r.cmdLine.cells ∧ keyRead sign r = .other ∧
    (lineRead sign r).peek 0 ≠ 13) ⟨fun h => ⟨h.1, h.2.1, h.2.2⟩, fun h => ⟨h.line, h.key, h.first⟩⟩

/-- The characters that the filter leaves of a read. -/
def typed (sign : CharSign) (r : ReadResult) : List UInt8 := text (lineRead sign r).cells

/-- With the cursor at the end of the line the characters of such a read are
echoed and appended. -/
theorem Types.step {sign : CharSign} {s : Session} {r : ReadResult} (h : Types sign r)
    (hOpen : s.closed = false) (hEnd : s.mgr.moveLeftNum = 0) :
    s.step sign r = (typed sign r).foldlM Session.appendChar s.cmdBuf >>= fun buf =>
      .ok { s.send (typed sign r) with cmdBuf := buf } := by
  rw [step_key hOpen h.line h.key]
  change s.onOther sign (lineRead sign r) = _
  unfold Session.onOther
  rw [midLine_end hEnd, ok_bind]
  simp only [Bool.false_eq_true, false_and, if_false, if_neg h.first]
  have hTerm : Terminated (lineRead sign r).cells := (filtered_spec sign h.line).1
  unfold Session.append
  rw [Buffer.str_eq hTerm, reading_ok, ok_bind]
  rfl

/-- A byte that is no key when it comes first in a read. -/
def Plain (sign : CharSign) (c : UInt8) : Prop :=
  c ∉ [0, 3, 8, 9, 12, 13, 0x1b, 0x3f, 0x7f] ∧ sign.value c ≠ -1 ∧ sign.value c ≠ -3

instance (sign : CharSign) (c : UInt8) : Decidable (Plain sign c) :=
  inferInstanceAs (Decidable (_ ∧ _ ∧ _))

/-- The bytes of a read that starts with no key and that the filter leaves as
they are. -/
structure IsText (sign : CharSign) (bytes : List UInt8) : Prop where
  short : bytes.length < maxCmdLen
  first : ∃ c rest, bytes = c :: rest ∧ Plain sign c
  noNul : 0 ∉ bytes
  noReturn : 13 ∉ bytes
  noIac : ∀ c ∈ bytes, sign.value c ≠ iac

theorem IsText.singleton {sign : CharSign} {c : UInt8} (hPlain : Plain sign c)
    (hIac : sign.value c ≠ iac) : IsText sign [c] := by
  have h := hPlain.1
  simp only [List.mem_cons, not_or] at h
  refine ⟨by simp [maxCmdLen], ⟨c, [], rfl, hPlain⟩, ?_, ?_, by simpa using hIac⟩
  · simpa using fun h0 => h.1 h0.symm
  · simpa using fun h13 => h.2.2.2.2.2.1 h13.symm

theorem IsText.lineRead {sign : CharSign} {bytes : List UInt8} (h : IsText sign bytes)
    (fits : bytes.length ≤ maxCmdLen) : lineRead sign (.data bytes fits) = .fill bytes fits := by
  have hText : text (ReadResult.data bytes fits).cmdLine.cells = bytes := text_fill h.noNul fits
  exact filtered_plain (terminated_fill h.short) (by rw [hText]; exact h.noIac)
    (by rw [hText]; exact h.noReturn)

theorem IsText.keyRead {sign : CharSign} {bytes : List UInt8} (h : IsText sign bytes)
    (fits : bytes.length ≤ maxCmdLen) : keyRead sign (.data bytes fits) = .other := by
  obtain ⟨c, rest, rfl, hPlain⟩ := h.first
  have hPeek : (Buffer.fill (n := maxCmdLen) (c :: rest) fits).peek 0 = c := rfl
  have hCtrlC : (Buffer.fill (n := maxCmdLen) (c :: rest) fits).streq [3] = false := by
    rw [Bool.eq_false_iff, ne_eq, Buffer.streq_iff (by decide), text_fill h.noNul fits]
    rintro ⟨-, hText⟩
    have hc : c = 3 := (List.cons.inj hText).1
    exact hPlain.1 (by simp [hc])
  obtain ⟨hList, hOne, hThree⟩ := hPlain
  simp only [List.mem_cons, List.not_mem_nil, or_false, not_or] at hList
  unfold TelnetDebug.keyRead keyOf
  simp [h.lineRead fits, hPeek, hCtrlC, isEscape, hList, hOne, hThree]

theorem IsText.typed {sign : CharSign} {bytes : List UInt8} (h : IsText sign bytes)
    (fits : bytes.length ≤ maxCmdLen) : typed sign (.data bytes fits) = bytes := by
  rw [TelnetDebug.typed, h.lineRead fits, text_fill h.noNul fits]

theorem IsText.types {sign : CharSign} {bytes : List UInt8} (h : IsText sign bytes)
    (fits : bytes.length ≤ maxCmdLen) : Types sign (.data bytes fits) := by
  refine ⟨terminated_fill h.short, h.keyRead fits, ?_⟩
  rw [h.lineRead fits]
  obtain ⟨c, rest, rfl, hPlain⟩ := h.first
  intro hc
  exact hPlain.1 (by rw [show c = 13 from hc]; decide)

theorem IsText.step {sign : CharSign} {s : Session} {bytes : List UInt8} (h : IsText sign bytes)
    (fits : bytes.length ≤ maxCmdLen) (hOpen : s.closed = false)
    (hEnd : s.mgr.moveLeftNum = 0) :
    s.step sign (.data bytes fits) = bytes.foldlM Session.appendChar s.cmdBuf >>= fun buf =>
      .ok { s.send bytes with cmdBuf := buf } := by
  rw [(h.types fits).step hOpen hEnd, h.typed fits]

/-- The line is cut at a cursor that lies within it. -/
structure CutAt (s : Session) (before after rest : List UInt8) : Prop where
  cells : s.cmdBuf.cells = before ++ after ++ 0 :: rest
  line : text s.cmdBuf.cells = before ++ after
  cursor : s.mgr.moveLeftNum.toNat = after.length

section Cut
variable {s : Session} {before after rest : List UInt8}

theorem line_cut (hTerm : Terminated s.cmdBuf.cells)
    (hNum : s.mgr.moveLeftNum.toNat ≤ (text s.cmdBuf.cells).length) :
    ∃ before after rest, CutAt s before after rest := by
  obtain ⟨rest, hSplit⟩ := hTerm.split
  let column := (text s.cmdBuf.cells).length - s.mgr.moveLeftNum.toNat
  refine ⟨(text s.cmdBuf.cells).take column, (text s.cmdBuf.cells).drop column, rest, ?_, ?_, ?_⟩
  · rw [List.take_append_drop]
    exact hSplit
  · rw [List.take_append_drop]
  · rw [List.length_drop]
    omega

theorem CutAt.noNul (h : CutAt s before after rest) : 0 ∉ before ++ after :=
  h.line ▸ zero_notMem_text s.cmdBuf.cells

theorem CutAt.length (h : CutAt s before after rest) :
    (text s.cmdBuf.cells).length = before.length + after.length := by
  rw [h.line, List.length_append]

theorem CutAt.insertChar (h : CutAt s before after rest) (hNum : s.mgr.moveLeftNum ≠ 0)
    (c : UInt8) :
    ∃ buf, insertChar s (UInt32.ofNat (text s.cmdBuf.cells).length) c =
        .ok ({ s with cmdBuf := buf }.send (ascii "\x1b[1@" ++ [c])) ∧
      buf.cells = before ++ c :: (after ++ rest) := by
  have hMid : after ≠ [] := by
    rintro rfl
    exact hNum (UInt32.toNat_inj.mp h.cursor)
  rw [h.length]
  exact insertChar_spec c h.cells h.cursor hMid

theorem CutAt.onBackspace (h : CutAt s before after rest)
    (hStart : (text s.cmdBuf.cells).length ≠ s.mgr.moveLeftNum.toNat) :
    ∃ kept old buf, before = kept ++ [old] ∧
      s.onBackspace = .ok ({ s with cmdBuf := buf }.send (backspaceEcho after)) ∧
      buf.cells = kept ++ after ++ 0 :: 0 :: rest := by
  rcases List.eq_nil_or_concat' before with rfl | ⟨kept, old, rfl⟩
  · exact absurd (by rw [h.length, h.cursor]; simp) hStart
  · have hNul := h.noNul
    have hCells := h.cells
    obtain ⟨buf, hErase, hResult⟩ := onBackspace_spec
      (show s.cmdBuf.cells = kept ++ old :: (after ++ 0 :: rest) by simpa using hCells)
      (by simpa using hNul) h.cursor
    exact ⟨kept, old, buf, rfl, hErase, hResult⟩

end Cut

end TelnetDebug

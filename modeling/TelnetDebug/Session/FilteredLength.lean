import TelnetDebug.Session.Decode
import TelnetDebug.Session.Step
import Mathlib.Data.List.GetD

/-! The loop ignores the count that the filter returns: it takes the line up to
its terminator, which the filter does not move. A round respects the count when
it does what it would do on the line cut there. -/
namespace TelnetDebug

open CBuffer Guarded

/-- The number of bytes the filter keeps of a read. -/
def keptCount (sign : CharSign) (r : ReadResult) : Nat :=
  (telnetdRemoveIac sign r.cmdLine.cells (text r.cmdLine.cells).length).2

theorem cut_fits (line : Line) (num : Nat) : (line.cells.take num).length ≤ maxCmdLen :=
  Nat.le_trans (List.length_take_le' _ _) (Nat.le_of_eq line.size)

/-- The line with zeros behind its first `num` bytes. -/
def cutLine (line : Line) (num : Nat) : Line := .fill (line.cells.take num) (cut_fits line num)

/-- A line, and the same line without the bytes the filter left over. -/
structure Leftover (full cut : Line) (kept left : List UInt8) : Prop where
  full : ∃ rest, full.cells = kept ++ left ++ 0 :: rest
  cut : cut.cells = kept ++ List.replicate (maxCmdLen - kept.length) 0
  noNul : 0 ∉ kept ++ left
  fits : kept.length + left.length < maxCmdLen
  some : left ≠ []

theorem lineRead_cells (sign : CharSign) {bytes : List UInt8} (hText : 0 ∉ bytes)
    (fits : bytes.length ≤ maxCmdLen) :
    (lineRead sign (.data bytes fits)).cells = decode sign bytes ++
      (bytes.drop (decode sign bytes).length ++ List.replicate (maxCmdLen - bytes.length) 0) ∧
    keptCount sign (.data bytes fits) = (decode sign bytes).length := by
  have hLine : text (ReadResult.data bytes fits).cmdLine.cells = bytes := text_fill hText fits
  have hFilter := (telnetdRemoveIac_decode sign bytes
    (List.replicate (maxCmdLen - bytes.length) 0)).2
  constructor
  · change (telnetdRemoveIac sign _ (text (ReadResult.data bytes fits).cmdLine.cells).length).1 = _
    rw [hLine]
    exact congrArg Prod.fst hFilter
  · rw [keptCount, hLine]
    exact congrArg Prod.snd hFilter

theorem lineRead_leftover (sign : CharSign) {bytes : List UInt8} (hText : 0 ∉ bytes)
    (fits : bytes.length ≤ maxCmdLen) (hShort : bytes.length < maxCmdLen)
    (hLess : keptCount sign (.data bytes fits) ≠ bytes.length) :
    Leftover (lineRead sign (.data bytes fits))
      (cutLine (lineRead sign (.data bytes fits)) (keptCount sign (.data bytes fits)))
      (decode sign bytes) (bytes.drop (decode sign bytes).length) := by
  obtain ⟨hCells, hCount⟩ := lineRead_cells sign hText fits
  have hLength := (telnetdRemoveIac_decode sign bytes []).1
  rw [hCount] at hLess
  obtain ⟨zeros, hZeros⟩ : ∃ zeros, maxCmdLen - bytes.length = zeros + 1 :=
    ⟨maxCmdLen - bytes.length - 1, by omega⟩
  have hLeft : (bytes.drop (decode sign bytes).length).length =
      bytes.length - (decode sign bytes).length := List.length_drop
  refine ⟨⟨List.replicate zeros 0, ?_⟩, ?_, ?_, by omega, ?_⟩
  · rw [hCells, hZeros, List.replicate_succ, List.append_assoc]
  · have hTake : (lineRead sign (.data bytes fits)).cells.take (decode sign bytes).length =
        decode sign bytes := by rw [hCells, List.take_left]
    rw [cutLine, hCount, Buffer.cells_fill, hTake]
  · obtain ⟨s, hSame, hSize, hNoNul⟩ := telnetdRemoveIac_keeps sign hText []
    rw [(telnetdRemoveIac_decode sign bytes []).2] at hSame
    simp only [List.append_nil] at hSame
    rw [hSame]
    exact hNoNul
  · rw [ne_eq, ← List.length_eq_zero_iff]
    omega

section Lines
variable {sign : CharSign} {s : Session} {full cut : Line} {kept left : List UInt8}

theorem Leftover.text_full (h : Leftover full cut kept left) : text full.cells = kept ++ left := by
  obtain ⟨rest, hCells⟩ := h.full
  rw [hCells, text_append_zero h.noNul]

theorem Leftover.full_terminated (h : Leftover full cut kept left) : Terminated full.cells := by
  obtain ⟨rest, hCells⟩ := h.full
  rw [hCells]
  exact terminated_append_zero _ _

theorem Leftover.cut_split (h : Leftover full cut kept left) :
    cut.cells = kept ++ 0 :: List.replicate (maxCmdLen - kept.length - 1) 0 := by
  have hFits := h.fits
  rw [h.cut, ← List.replicate_succ]
  congr 2
  omega

theorem Leftover.text_cut (h : Leftover full cut kept left) : text cut.cells = kept := by
  rw [h.cut_split, text_append_zero fun hZero => h.noNul (List.mem_append_left _ hZero)]

theorem Leftover.cut_terminated (h : Leftover full cut kept left) : Terminated cut.cells := by
  rw [h.cut_split]
  exact terminated_append_zero _ _

theorem Leftover.peek_eq (h : Leftover full cut kept left) {i : Nat} (hIndex : i < kept.length) :
    full.peek i = cut.peek i := by
  obtain ⟨rest, hCells⟩ := h.full
  rw [Buffer.peek, Buffer.peek, hCells, h.cut, List.append_assoc, List.getD_append _ _ _ _ hIndex,
    List.getD_append _ _ _ _ hIndex]

theorem Leftover.peek_cut (h : Leftover full cut kept left) {i : Nat} (hIndex : kept.length ≤ i) :
    cut.peek i = 0 := by
  rw [Buffer.peek, h.cut, List.getD_append_right _ _ _ _ hIndex, List.getD_eq_getElem?_getD,
    List.getElem?_replicate]
  split <;> rfl

theorem keyOf_congr (hFirst : full.peek 0 = cut.peek 0) (hCtrlC : full.streq [3] = cut.streq [3])
    (hEscape : ∀ final, final ≠ 0 → isEscape full final = isEscape cut final) :
    keyOf sign full = keyOf sign cut := by
  unfold keyOf
  rw [hFirst, hCtrlC, hEscape 0x41 (by decide), hEscape 0x42 (by decide), hEscape 0x43 (by decide),
    hEscape 0x44 (by decide)]

/-- The keys that are recognised by three bytes. -/
def IsArrow (key : Key) : Prop := key = .up ∨ key = .down ∨ key = .right ∨ key = .left

theorem keyOf_escape (sign : CharSign) (hFirst : full.peek 0 = 0x1b)
    (hCtrlC : full.streq [3] = false) :
    IsArrow (keyOf sign full) ∨ keyOf sign full = .other := by
  have hValue : sign.value 0x1b = 27 := sign.value_of_lt (c := 0x1b) (by decide)
  have hKey : keyOf sign full = if isEscape full 0x41 then .up else if isEscape full 0x42 then .down
      else if isEscape full 0x43 then .right else if isEscape full 0x44 then .left else .other := by
    simp [keyOf, hFirst, hCtrlC, hValue]
  rw [hKey]
  unfold IsArrow
  cases isEscape full 0x41 <;> cases isEscape full 0x42 <;> cases isEscape full 0x43 <;>
    cases isEscape full 0x44 <;> simp

theorem Leftover.full_ctrlC (h : Leftover full cut kept left) (hSome : kept ≠ []) :
    full.streq [3] = false := by
  rw [Bool.eq_false_iff, ne_eq, Buffer.streq_iff (by decide), h.text_full]
  rintro ⟨-, hText⟩
  have hLength := congrArg List.length hText
  have hKept := List.length_pos_iff.mpr hSome
  have hLeft := List.length_pos_iff.mpr h.some
  rw [List.length_append, List.length_singleton] at hLength
  omega

/-- The leftover bytes change the key in two ways only: they hide a Ctrl-C, and
they complete an escape sequence. -/
theorem Leftover.keys (h : Leftover full cut kept left) (sign : CharSign) (hSome : kept ≠ []) :
    keyOf sign full = keyOf sign cut ∨
      kept = [3] ∧ keyOf sign full = .other ∧ keyOf sign cut = .ctrlC ∨
        kept.length ≤ 2 ∧ cut.peek 0 = 0x1b ∧ keyOf sign cut = .other ∧
          IsArrow (keyOf sign full) := by
  have hFirst : full.peek 0 = cut.peek 0 := h.peek_eq (List.length_pos_iff.mpr hSome)
  have hFull := h.full_ctrlC hSome
  by_cases hThree : kept = [3]
  · subst hThree
    have hPeek : cut.peek 0 = 3 := by
      rw [Buffer.peek, h.cut]
      rfl
    have hCut : cut.streq [3] = true :=
      (Buffer.streq_iff (by decide)).mpr ⟨h.cut_terminated, h.text_cut⟩
    have hValue : sign.value 3 = 3 := sign.value_of_lt (c := 3) (by decide)
    refine .inr (.inl ⟨rfl, ?_, ?_⟩)
    · simp [keyOf, isEscape, hFirst, hPeek, hFull, hValue]
    · simp [keyOf, hPeek, hCut, hValue]
  · have hCut : cut.streq [3] = false := by
      rw [Bool.eq_false_iff, ne_eq, Buffer.streq_iff (by decide), h.text_cut]
      exact fun hText => hThree hText.2
    by_cases hLong : 3 ≤ kept.length
    · refine .inl (keyOf_congr hFirst (hFull.trans hCut.symm) fun final _ => ?_)
      simp only [isEscape, h.peek_eq (i := 0) (by omega), h.peek_eq (i := 1) (by omega),
        h.peek_eq (i := 2) (by omega)]
    · have hNone (final : UInt8) (hFinal : final ≠ 0) : isEscape cut final = false := by
        have hThird : cut.peek 2 = 0 := h.peek_cut (by omega)
        simp [isEscape, hThird, hFinal.symm]
      by_cases hEscape : cut.peek 0 = 0x1b
      · have hCutKey : keyOf sign cut = .other := by
          have hValue : sign.value 0x1b = 27 := sign.value_of_lt (c := 0x1b) (by decide)
          simp [keyOf, hEscape, hCut, hValue, hNone]
        rcases keyOf_escape sign (hFirst.trans hEscape) hFull with hArrow | hKey
        · exact .inr (.inr ⟨by omega, hEscape, hCutKey, hArrow⟩)
        · exact .inl (hKey.trans hCutKey.symm)
      · refine .inl (keyOf_congr hFirst (hFull.trans hCut.symm) fun final hFinal => ?_)
        rw [hNone final hFinal]
        simp [isEscape, hFirst, hEscape]

/-- Code behind a byte that is neither printable nor Enter. -/
theorem onOther_raw (hRaw : ¬ (32 ≤ sign.value (full.peek 0) ∧ sign.value (full.peek 0) ≤ 127))
    (hReturn : full.peek 0 ≠ 13) :
    s.onOther sign full =
      s.midLine >>= fun mid => if mid then s.insertRaw (full.peek 0) else s.append full := by
  unfold Session.onOther
  dsimp only
  congr 1
  funext mid
  rw [if_neg (fun h => hRaw h.2), if_neg hReturn]

/-- Enter, and a byte typed in mid-line, look at the first byte only. -/
theorem onOther_first (hFirst : full.peek 0 = cut.peek 0)
    (hLook : cut.peek 0 = 13 ∨ s.midLine ≠ .ok false) :
    s.onOther sign full = s.onOther sign cut := by
  unfold Session.onOther
  rw [hFirst]
  cases hMid : s.midLine with
  | error e => rfl
  | ok mid =>
      rcases hLook with hReturn | hMidLine
      · simp only [ok_bind, hReturn, if_true]
      · cases mid with
        | false => exact absurd hMid hMidLine
        | true => rfl

theorem insertRaw_sends (s : Session) (c : UInt8) :
    Sat (s.insertRaw c) (fun t => t.mgr = s.mgr ∧ ∃ rest, t.sent = s.sent ++ 0x1b :: rest)
      lineFault := by
  have hInsert (len : UInt32) : Sat (insertChar s len c)
      (fun t => t.mgr = s.mgr ∧ (t.sent = s.sent ∨ ∃ rest, t.sent = s.sent ++ 0x1b :: rest))
      lineFault := by
    unfold insertChar
    dsimp only
    split
    · exact ⟨rfl, .inl rfl⟩
    · split
      · refine sat_writing_bind (fun _ _ => .inl rfl) fun _ _ => ?_
        refine sat_writing_bind (fun _ _ => .inl rfl) fun _ _ => ?_
        exact ⟨rfl, .inr ⟨_, List.append_assoc _ _ _⟩⟩
      · exact ⟨rfl, .inl rfl⟩
  unfold Session.insertRaw
  refine sat_reading_bind (fun _ _ => .inl rfl) fun len _ => ?_
  refine (hInsert _).bind fun t ht => ⟨ht.1, ?_⟩
  rcases ht.2 with hSent | ⟨rest, hSent⟩
  · exact ⟨_, by rw [Session.send, hSent]; rfl⟩
  · exact ⟨rest ++ _, by rw [Session.send, hSent, List.append_assoc]; rfl⟩

theorem append_sends (s : Session) {line : Line} (hLine : Terminated line.cells) :
    Sat (s.append line) (fun t => t.mgr = s.mgr ∧ t.sent = s.sent ++ text line.cells)
      lineFault := by
  unfold Session.append
  rw [Buffer.str_eq hLine, reading_ok, ok_bind]
  exact (appendAll_frame _ _).bind fun _ _ => ⟨rfl, rfl⟩

theorem recallFault.not_line {index : UInt32} {f : Fault} (h : recallFault index f) :
    ¬ lineFault f := by
  intro hLine
  rcases h with ⟨rfl, -⟩ | h | h | h
  · rcases hLine with hLine | hLine <;> cases hLine
  all_goals rcases hLine with hLine | hLine <;> cases h.symm.trans hLine

theorem recallCmd_sends (s : Session) (index : UInt32) :
    Sat (recallCmd s index)
      (fun t => t.mgr.moveLeftNum = s.mgr.moveLeftNum ∧ s.sent.length + 2 < t.sent.length)
      (fun f => ¬ lineFault f) := by
  have hText := (entryText_frame s.mgr.historyCmd index).mono (fun _ h => h)
    fun _ h => h.not_line
  have hWrite (object : Object) (hObject : object ≠ .cmdBuf ∧ object ≠ .cmdLine) (i : Nat) :
      ¬ lineFault (.write object i) := by
    rintro (h | h)
    · exact hObject.1 h
    · exact hObject.2 h
  unfold recallCmd
  refine hText.bind fun shown _ => ?_
  refine sat_writing_bind (fun i _ => hWrite .redraw (by decide) i) fun buf _ => ?_
  refine hText.bind fun line _ => ?_
  refine sat_writing_bind (fun i _ => hWrite .gCmd (by decide) i) fun gCmd _ => ?_
  refine ⟨rfl, ?_⟩
  have hClear : clearLeftChar.length = 4 := by decide
  change s.sent.length + 2 < (s.sent ++ (clearLeftChar ++ text buf.cells)).length
  rw [List.length_append, List.length_append, hClear]
  omega

theorem reload_sends (s : Session) :
    Sat s.reload (fun t => t.mgr = s.mgr ∧ t.sent = s.sent) (fun f => ¬ lineFault f) := by
  by_cases hTerm : Terminated s.mgr.gCmd.cells
  · rw [Session.reload_eq hTerm]
    exact ⟨rfl, rfl⟩
  · unfold Session.reload
    rw [Buffer.str, if_neg hTerm]
    rintro (h | h) <;> cases h

/-- What a handler of an arrow key can do: it sends nothing or at least three
bytes, and it moves the cursor unless it sends nothing. -/
structure ArrowStep (s t : Session) : Prop where
  sent : t.sent = s.sent ∨ s.sent.length + 2 < t.sent.length
  cursor : t.mgr.moveLeftNum = s.mgr.moveLeftNum → s.mgr.moveLeftNum = 0 ∨ t.sent = s.sent

theorem history_arrow {index : UInt32} {p : Prop} [Decidable p] :
    Sat (if p then (s.setCursor 0).reload
        else recallCmd (s.setCursor 0) index >>= Session.reload) (ArrowStep s)
      (fun f => ¬ lineFault f) := by
  split
  · refine (reload_sends _).mono (fun t h => ⟨.inl h.2, fun _ => .inr h.2⟩) fun _ h => h
  · refine (recallCmd_sends (s.setCursor 0) index).bind fun t ht => ?_
    refine (reload_sends t).mono (fun u hu => ⟨.inr ?_, fun hCursor => .inl ?_⟩) fun _ h => h
    · rw [hu.2]
      exact ht.2
    · rw [← hCursor, hu.1]
      exact ht.1

theorem pred_ne {num : UInt32} (h : num ≠ 0) : num - 1 ≠ num := by
  intro hSame
  have hPred := toNat_pred h
  have hPos : num.toNat ≠ 0 := fun hZero => h (UInt32.toNat_inj.mp hZero)
  rw [hSame] at hPred
  omega

theorem succ_ne (num : UInt32) : num + 1 ≠ num := by
  intro hSame
  have hOne : (1 : UInt32) = 0 := by
    rwa [← UInt32.add_right_inj num, UInt32.add_zero]
  exact absurd hOne (by decide)

theorem moved_arrow {s t : Session} {bytes : List UInt8} (hLength : bytes.length = 3)
    (hSent : t.sent = s.sent ++ bytes) (hMoved : t.mgr.moveLeftNum ≠ s.mgr.moveLeftNum) :
    ArrowStep s t := by
  refine ⟨.inr ?_, fun hCursor => absurd hCursor hMoved⟩
  rw [hSent, List.length_append, hLength]
  exact Nat.lt_succ_self _

theorem keyboardMoveRight_arrow (s : Session) : ArrowStep s (keyboardMoveRight s) := by
  unfold keyboardMoveRight
  split
  · next hNum =>
    have hPred := pred_ne (UInt32.pos_iff_ne_zero.mp hNum)
    exact moved_arrow (by decide : moveRight.length = 3) rfl hPred
  · exact ⟨.inl rfl, fun _ => .inr rfl⟩

theorem keyboardMoveLeft_arrow (s : Session) (len : UInt32) :
    ArrowStep s (keyboardMoveLeft s len) := by
  unfold keyboardMoveLeft
  split
  · exact ⟨.inl rfl, fun _ => .inr rfl⟩
  · exact moved_arrow (by decide : moveLeft.length = 3) rfl (succ_ne _)

/-- Left measures the line, the other arrow keys do not read it. -/
theorem arrow_sat {key : Key} (hKey : IsArrow key)
    (hLeft : key = .left → Terminated s.cmdBuf.cells) :
    Sat (s.onKey sign full key) (ArrowStep s) (fun f => ¬ lineFault f) := by
  rcases hKey with rfl | rfl | rfl | rfl
  · change Sat s.onUp _ _
    rw [onUp_eq]
    exact history_arrow
  · change Sat s.onDown _ _
    rw [onDown_eq]
    exact history_arrow
  · exact keyboardMoveRight_arrow s
  · change Sat s.onLeft _ _
    unfold Session.onLeft
    rw [Buffer.strlen_eq (hLeft rfl), reading_ok, ok_bind]
    exact keyboardMoveLeft_arrow s _

/-- What one or two bytes can do that are taken for text but are neither
printable nor Enter. -/
structure RawStep (s t : Session) : Prop where
  mgr : t.mgr = s.mgr
  sent : t.sent ≠ s.sent
  short : s.mgr.moveLeftNum = 0 → t.sent.length ≤ s.sent.length + 2

theorem raw_sat (hRaw : ¬ (32 ≤ sign.value (cut.peek 0) ∧ sign.value (cut.peek 0) ≤ 127))
    (hReturn : cut.peek 0 ≠ 13) (hCut : Terminated cut.cells) (hSome : text cut.cells ≠ [])
    (hShort : (text cut.cells).length ≤ 2) :
    Sat (s.onOther sign cut) (RawStep s) lineFault := by
  rw [onOther_raw hRaw hReturn]
  cases hMid : s.midLine with
  | error e =>
      unfold Session.midLine at hMid
      split at hMid
      · by_cases hTerm : Terminated s.cmdBuf.cells
        · rw [Buffer.strlen_eq hTerm] at hMid
          cases hMid
        · rw [Buffer.strlen_error hTerm] at hMid
          cases hMid
          exact .inl rfl
      · cases hMid
  | ok mid =>
      rw [ok_bind]
      cases mid with
      | false =>
          refine (append_sends s hCut).mono (fun t h => ⟨h.1, ?_, fun _ => ?_⟩) fun _ h => h
          · rw [h.2]
            exact fun hSame => hSome (List.append_right_eq_self.mp hSame)
          · rw [h.2, List.length_append]
            exact Nat.add_le_add_left hShort _
      | true =>
          refine (insertRaw_sends s _).mono (fun t h => ⟨h.1, ?_, fun hNum => ?_⟩) fun _ h => h
          · obtain ⟨rest, hSent⟩ := h.2
            rw [hSent]
            exact fun hSame => List.cons_ne_nil _ _ (List.append_right_eq_self.mp hSame)
          · rw [midLine_end hNum] at hMid
            cases hMid

/-- One or two bytes of an incomplete escape sequence do not act like the arrow
key that the leftover bytes complete. -/
theorem Leftover.arrow_ne (h : Leftover full cut kept left) (hSome : kept ≠ [])
    (hShort : kept.length ≤ 2) (hEscape : cut.peek 0 = 0x1b) {key : Key} (hKey : IsArrow key)
    (hLeft : key = .left → Terminated s.cmdBuf.cells) :
    s.onKey sign full key ≠ s.onOther sign cut := by
  have hValue : sign.value 0x1b = 27 := sign.value_of_lt (c := 0x1b) (by decide)
  have hText := h.text_cut
  refine Sat.ne (arrow_sat hKey hLeft)
    (raw_sat (by rw [hEscape, hValue]; decide) (by rw [hEscape]; decide) h.cut_terminated
      (by rwa [hText]) (by rwa [hText])) (fun t hArrow hRaw => ?_)
      fun f hArrow hLine => hArrow hLine
  have hSent := hRaw.sent
  rcases hArrow.cursor (by rw [hRaw.mgr]) with hNum | hSame
  · rcases hArrow.sent with hSame | hMore
    · exact hSent hSame
    · exact Nat.not_lt_of_le (hRaw.short hNum) hMore
  · exact hSent hSame

/-- A Ctrl-C hidden by leftover bytes is taken for text. -/
theorem Leftover.ctrlC_ne (h : Leftover full cut [3] left) :
    s.onOther sign full ≠ s.onCtrlC := by
  have hPeek : full.peek 0 = 3 := by
    obtain ⟨rest, hCells⟩ := h.full
    rw [Buffer.peek, hCells]
    rfl
  have hValue : sign.value 3 = 3 := sign.value_of_lt (c := 3) (by decide)
  have hOther : Sat (s.onOther sign full)
      (fun t => ∃ c rest, t.sent = s.sent ++ c :: rest ∧ c ≠ 0x5e) (fun _ => True) := by
    rw [onOther_raw (by rw [hPeek, hValue]; decide) (by rw [hPeek]; decide)]
    cases s.midLine with
    | error e => trivial
    | ok mid =>
        rw [ok_bind]
        cases mid with
        | false =>
            refine (append_sends s h.full_terminated).mono (fun t ht => ?_) fun _ _ => trivial
            rw [h.text_full] at ht
            exact ⟨3, left, ht.2, by decide⟩
        | true =>
            refine (insertRaw_sends s _).mono (fun t ht => ?_) fun _ _ => trivial
            obtain ⟨rest, hSent⟩ := ht.2
            exact ⟨0x1b, rest, hSent, by decide⟩
  have hCtrlC : Sat s.onCtrlC (fun t => ∃ rest, t.sent = s.sent ++ 0x5e :: rest)
      (fun _ => False) := by
    unfold Session.onCtrlC
    rw [Session.prompt_eq]
    exact ⟨_, List.append_assoc _ _ _⟩
  refine hOther.ne hCtrlC (fun t hText hKey => ?_) fun _ _ h => h
  obtain ⟨c, rest, hSent, hc⟩ := hText
  obtain ⟨rest', hSent'⟩ := hKey
  rw [hSent] at hSent'
  exact hc (List.cons.inj (List.append_cancel_left hSent')).1

/-- Appending at the end of the line shows the leftover bytes, unless the line
buffer is left before they are reached. -/
theorem Leftover.append_eq_iff (h : Leftover full cut kept left) (hSome : kept ≠ []) :
    s.append full = s.append cut ↔
      maxCmdLen ≤ (text s.cmdBuf.cells).length + kept.length := by
  have hFull : s.append full =
      (kept ++ left).foldlM Session.appendChar s.cmdBuf >>= fun buf =>
        .ok { s.send (kept ++ left) with cmdBuf := buf } := by
    rw [← h.text_full]
    unfold Session.append
    rw [Buffer.str_eq h.full_terminated]
    rfl
  have hCut : s.append cut = kept.foldlM Session.appendChar s.cmdBuf >>= fun buf =>
      .ok { s.send kept with cmdBuf := buf } := by
    rw [← h.text_cut]
    unfold Session.append
    rw [Buffer.str_eq h.cut_terminated]
    rfl
  by_cases hTerm : Terminated s.cmdBuf.cells
  · obtain ⟨rest, hSplit⟩ := hTerm.split
    have hSize := s.cmdBuf.size
    rw [hSplit, List.length_append, List.length_cons] at hSize
    have hKept : 0 ∉ kept := fun hZero => h.noNul (List.mem_append_left _ hZero)
    by_cases hOver : maxCmdLen ≤ (text s.cmdBuf.cells).length + kept.length
    · refine iff_of_true ?_ hOver
      have hNoNul := zero_notMem_text s.cmdBuf.cells
      rw [hFull, hCut, appendAll_overrun hNoNul h.noNul hSplit
        (by rw [List.length_append]; omega), appendAll_overrun hNoNul hKept hSplit (by omega)]
      rfl
    · refine iff_of_false (fun hSame => ?_) hOver
      obtain ⟨buf, hAppend, -⟩ := append_spec h.cut_terminated (zero_notMem_text _) hSplit
        (by rw [h.text_cut]; omega)
      have hSends := append_sends s h.full_terminated
      rw [hSame, hAppend] at hSends
      have hSent : s.sent ++ text cut.cells = s.sent ++ text full.cells := hSends.2
      rw [h.text_cut, h.text_full] at hSent
      exact h.some (List.self_eq_append_right.mp (List.append_cancel_left hSent))
  · refine iff_of_true ?_ ?_
    · rw [hFull, hCut, appendAll_unterminated hTerm (List.append_ne_nil_of_left_ne_nil hSome left),
        appendAll_unterminated hTerm hSome]
      rfl
    · rw [text_of_not_terminated hTerm, s.cmdBuf.size]
      exact Nat.le_add_right _ _

/-- Where nothing is kept an append still sends the bytes left over. -/
theorem Leftover.append_ne (h : Leftover full cut [] left) (s : Session) :
    s.append full ≠ s.append cut := by
  intro hSame
  have hSends := append_sends s h.full_terminated
  have hCut : s.append cut = .ok { s.send [] with cmdBuf := s.cmdBuf } := by
    unfold Session.append
    rw [Buffer.str_eq h.cut_terminated, h.text_cut]
    rfl
  rw [hSame, hCut] at hSends
  have hSent : s.sent ++ [] = s.sent ++ text full.cells := hSends.2
  rw [h.text_full] at hSent
  exact h.some (List.append_cancel_left hSent).symm

/-- In front of the line nothing is inserted, whatever the byte. -/
theorem insertRaw_front (hTerm : Terminated s.cmdBuf.cells)
    (hFront : (text s.cmdBuf.cells).length < s.mgr.moveLeftNum.toNat) (c d : UInt8) :
    s.insertRaw c = s.insertRaw d := by
  have hLine := Buffer.text_length_lt s.cmdBuf hTerm
  have hSkip (e : UInt8) :
      insertChar s (UInt32.ofNat (text s.cmdBuf.cells).length) e = .ok s := by
    refine insertChar_skip e (.inr ?_)
    rwa [UInt32.lt_iff_toNat_lt, toNat_ofNat_line (Nat.le_of_lt hLine)]
  unfold Session.insertRaw
  rw [Buffer.strlen_eq hTerm, reading_ok, ok_bind, ok_bind, hSkip, hSkip]

/-- Within the line the byte inserted is also sent. -/
theorem insertRaw_within (hTerm : Terminated s.cmdBuf.cells) (hNum : s.mgr.moveLeftNum ≠ 0)
    (hWithin : s.mgr.moveLeftNum.toNat ≤ (text s.cmdBuf.cells).length) (c : UInt8) :
    ∃ buf : Line, s.insertRaw c = .ok { s with
      cmdBuf := buf
      sent := s.sent ++ (ascii "\x1b[1@" ++ [c]) ++ (ascii "\x1b[" ++
        ascii (toString s.mgr.moveLeftNum.toInt32.toInt) ++ ascii "D") } := by
  obtain ⟨before, after, rest, hCut⟩ := line_cut hTerm hWithin
  obtain ⟨buf, hInsert, -⟩ := hCut.insertChar hNum c
  refine ⟨buf, ?_⟩
  unfold Session.insertRaw
  rw [Buffer.strlen_eq hTerm, reading_ok, ok_bind, hInsert, ok_bind]
  rfl

/-- Different bytes are not inserted alike. -/
theorem insertRaw_ne (hTerm : Terminated s.cmdBuf.cells) (hNum : s.mgr.moveLeftNum ≠ 0)
    (hWithin : s.mgr.moveLeftNum.toNat ≤ (text s.cmdBuf.cells).length) {c d : UInt8}
    (hNe : c ≠ d) : s.insertRaw c ≠ s.insertRaw d := by
  intro hSame
  obtain ⟨buf, hFirst⟩ := insertRaw_within hTerm hNum hWithin c
  obtain ⟨buf', hSecond⟩ := insertRaw_within hTerm hNum hWithin d
  rw [hFirst, hSecond] at hSame
  have hSent := congrArg Session.sent (Except.ok.inj hSame)
  have hBytes := List.append_cancel_left (List.append_cancel_right hSent)
  exact hNe (List.cons.inj (List.append_cancel_left hBytes)).1

/-- With nothing kept, the leftover bytes are shown or inserted, unless the
cursor is in front of the line or the line buffer is not terminated. -/
theorem Leftover.none_kept_iff (h : Leftover full cut [] left)
    (hFirst : ¬ (32 ≤ sign.value (full.peek 0) ∧ sign.value (full.peek 0) ≤ 127))
    (hReturn : full.peek 0 ≠ 13) (hNonzero : full.peek 0 ≠ 0) :
    s.onOther sign full = s.onOther sign cut ↔
      s.mgr.moveLeftNum ≠ 0 ∧ (maxCmdLen ≤ (text s.cmdBuf.cells).length ∨
        0 < (text s.cmdBuf.cells).length ∧
          (text s.cmdBuf.cells).length < s.mgr.moveLeftNum.toNat) := by
  have hZero : cut.peek 0 = 0 := h.peek_cut (Nat.le_refl 0)
  rw [onOther_raw hFirst hReturn, onOther_raw (by rw [hZero, sign.value_zero]; decide)
    (by rw [hZero]; decide), hZero]
  have hAppend := h.append_ne s
  by_cases hNum : s.mgr.moveLeftNum = 0
  · rw [midLine_end hNum]
    exact iff_of_false hAppend fun hMid => hMid.1 hNum
  · by_cases hTerm : Terminated s.cmdBuf.cells
    · have hLine := Buffer.text_length_lt s.cmdBuf hTerm
      rw [midLine_eq hTerm, ok_bind, ok_bind]
      by_cases hEmpty : text s.cmdBuf.cells = []
      · have hMid : decide (s.mgr.moveLeftNum > 0 ∧ 0 < (text s.cmdBuf.cells).length) = false := by
          simp [hEmpty]
        rw [hMid]
        refine iff_of_false hAppend fun hKept => ?_
        rw [hEmpty] at hKept hLine
        rcases hKept.2 with hLong | hFront
        · exact absurd hLong (Nat.not_le_of_lt hLine)
        · exact absurd hFront.1 (Nat.lt_irrefl 0)
      · have hPos := List.length_pos_iff.mpr hEmpty
        have hMid : decide (s.mgr.moveLeftNum > 0 ∧ 0 < (text s.cmdBuf.cells).length) = true := by
          rw [decide_eq_true_eq]
          exact ⟨UInt32.pos_iff_ne_zero.mpr hNum, hPos⟩
        rw [hMid, if_pos rfl, if_pos rfl]
        by_cases hFront : (text s.cmdBuf.cells).length < s.mgr.moveLeftNum.toNat
        · exact iff_of_true (insertRaw_front hTerm hFront _ 0) ⟨hNum, .inr ⟨hPos, hFront⟩⟩
        · have hWithin := Nat.le_of_not_lt hFront
          refine iff_of_false (insertRaw_ne hTerm hNum hWithin hNonzero) fun hKept => ?_
          rcases hKept.2 with hLong | hMore
          · exact absurd hLong (Nat.not_le_of_lt hLine)
          · exact hFront hMore.2
    · refine iff_of_true ?_ ⟨hNum, .inl ?_⟩
      · have hMid : s.midLine = .error (.read .cmdBuf maxCmdLen) := by
          unfold Session.midLine
          rw [if_pos (UInt32.pos_iff_ne_zero.mpr hNum), Buffer.strlen_error hTerm]
          rfl
        rw [hMid]
        rfl
      · rw [text_of_not_terminated hTerm, s.cmdBuf.size]

theorem onKey_line {key : Key} (h : key ≠ .other) :
    s.onKey sign full key = s.onKey sign cut key := by
  cases key with
  | other => exact absurd rfl h
  | _ => rfl

/-- Both lines are taken for text. -/
theorem Leftover.onOther_eq_iff (h : Leftover full cut kept left) (hSome : kept ≠ []) :
    s.onOther sign full = s.onOther sign cut ↔
      cut.peek 0 = 13 ∨ s.mgr.moveLeftNum ≠ 0 ∧ 0 < (text s.cmdBuf.cells).length ∨
        maxCmdLen ≤ (text s.cmdBuf.cells).length + kept.length := by
  have hFirst : full.peek 0 = cut.peek 0 := h.peek_eq (List.length_pos_iff.mpr hSome)
  have hMidLine := midLine_eq_false_iff (s := s)
  rw [← List.length_eq_zero_iff] at hMidLine
  by_cases hLook : cut.peek 0 = 13 ∨ s.midLine ≠ .ok false
  · refine iff_of_true (onOther_first hFirst hLook) (hLook.imp_right fun hMid => .inl ?_)
    rw [ne_eq, hMidLine, not_or] at hMid
    exact ⟨hMid.1, Nat.pos_of_ne_zero hMid.2⟩
  · obtain ⟨hReturn, hMid⟩ := not_or.mp hLook
    rw [not_not] at hMid
    have hNone : ¬ (s.mgr.moveLeftNum ≠ 0 ∧ 0 < (text s.cmdBuf.cells).length) := fun hSee =>
      (hMidLine.mp hMid).elim hSee.1 fun hEmpty => Nat.ne_of_gt hSee.2 hEmpty
    rw [onOther_append hMid (hFirst ▸ hReturn), onOther_append hMid hReturn,
      h.append_eq_iff hSome, or_iff_right hReturn, or_iff_right hNone]

/-- An arrow key completed by leftover bytes: Left faults like the text it hides
where the line buffer is not terminated. -/
theorem Leftover.arrow_eq_iff (h : Leftover full cut kept left) (hSome : kept ≠ [])
    (hShort : kept.length ≤ 2) (hEscape : cut.peek 0 = 0x1b) {key : Key} (hKey : IsArrow key) :
    s.onKey sign full key = s.onOther sign cut ↔
      key = .left ∧ maxCmdLen ≤ (text s.cmdBuf.cells).length := by
  by_cases hFault : key = .left ∧ ¬ Terminated s.cmdBuf.cells
  · obtain ⟨rfl, hTerm⟩ := hFault
    refine iff_of_true ?_ ⟨rfl, ?_⟩
    · have hValue : sign.value 0x1b = 27 := sign.value_of_lt (c := 0x1b) (by decide)
      have hLeft : s.onLeft = .error (.read .cmdBuf maxCmdLen) := by
        unfold Session.onLeft
        rw [Buffer.strlen_error hTerm]
        rfl
      rw [onOther_raw (by rw [hEscape, hValue]; decide) (by rw [hEscape]; decide)]
      refine hLeft.trans ?_
      by_cases hNum : s.mgr.moveLeftNum = 0
      · rw [midLine_end hNum, ok_bind, if_neg (by decide)]
        unfold Session.append
        rw [Buffer.str_eq h.cut_terminated, h.text_cut, reading_ok, ok_bind,
          appendAll_unterminated hTerm hSome]
        rfl
      · unfold Session.midLine
        rw [if_pos (UInt32.pos_iff_ne_zero.mpr hNum), Buffer.strlen_error hTerm]
        rfl
    · rw [text_of_not_terminated hTerm, s.cmdBuf.size]
  · have hLeft (hKey : key = .left) : Terminated s.cmdBuf.cells := by
      by_contra hTerm
      exact hFault ⟨hKey, hTerm⟩
    exact iff_of_false (h.arrow_ne hSome hShort hEscape hKey hLeft) fun hLong =>
      absurd hLong.2 (Nat.not_le_of_lt (Buffer.text_length_lt s.cmdBuf (hLeft hLong.1)))

end Lines

/-- The bytes behind the count do not come into play. Where bytes were kept, the
line is taken for the same key without the others, and the code behind the key
looks at the first byte only or leaves the line buffer before it reaches them;
or Left and text both fault on a line buffer that is not terminated. Where none
was kept, the code inserts a byte in mid-line in vain, or faults before it. -/
def LeftoverUnseen (sign : CharSign) (s : Session) (full cut : Line) : Prop :=
  let len := (text s.cmdBuf.cells).length
  let num := (text cut.cells).length
  if num = 0 then
    s.mgr.moveLeftNum ≠ 0 ∧
      (maxCmdLen ≤ len ∨ 0 < len ∧ len < s.mgr.moveLeftNum.toNat)
  else
    keyOf sign full = keyOf sign cut ∧
        (keyOf sign cut = .other →
          cut.peek 0 = 13 ∨ s.mgr.moveLeftNum ≠ 0 ∧ 0 < len ∨ maxCmdLen ≤ len + num) ∨
      keyOf sign full = .left ∧ maxCmdLen ≤ len

instance (sign : CharSign) (s : Session) (full cut : Line) :
    Decidable (LeftoverUnseen sign s full cut) :=
  inferInstanceAs (Decidable (if (text cut.cells).length = 0 then _ ∧ _ else _ ∧ _ ∨ _ ∧ _))

theorem Leftover.dispatch_eq_iff {sign : CharSign} {s : Session} {full cut : Line}
    {kept left : List UInt8} (h : Leftover full cut kept left) (hSome : kept ≠ []) :
    s.dispatch sign full = s.dispatch sign cut ↔ LeftoverUnseen sign s full cut := by
  have hText := h.text_cut
  have hNum : ¬ (text cut.cells).length = 0 := by rwa [hText, List.length_eq_zero_iff]
  unfold LeftoverUnseen
  rw [if_neg hNum, hText]
  unfold Session.dispatch
  rcases h.keys sign hSome with hSame | ⟨rfl, hFull, hCut⟩ | ⟨hShort, hEscape, hCut, hArrow⟩
  · rw [hSame]
    by_cases hKey : keyOf sign cut = .other
    · rw [hKey]
      refine Iff.trans (h.onOther_eq_iff hSome) ?_
      simp
    · exact iff_of_true (onKey_line hKey) (.inl ⟨rfl, fun hOther => absurd hOther hKey⟩)
  · rw [hFull, hCut]
    refine iff_of_false h.ctrlC_ne ?_
    rintro (⟨hSame, -⟩ | ⟨hLeft, -⟩)
    · cases hSame
    · cases hLeft
  · rw [hCut]
    have hNe : keyOf sign full ≠ .other := by
      intro hOther
      rcases hArrow with hKey | hKey | hKey | hKey <;> cases hKey.symm.trans hOther
    refine (h.arrow_eq_iff hSome hShort hEscape hArrow).trans ?_
    rw [or_iff_right fun hSame => hNe hSame.1]

/-- A read of which nothing is kept begins with `IAC`. -/
theorem decode_nil {sign : CharSign} {c : UInt8} {bytes : List UInt8}
    (h : decode sign (c :: bytes) = []) : sign.value c = iac := by
  by_contra hData
  have hNext : decodeNext sign (c :: bytes) =
      some ([c], if c = 13 then skipReturn bytes else bytes) := if_pos hData
  rw [decode_some hNext] at h
  cases h

theorem keyOf_iac {sign : CharSign} {line : Line} (h : sign.value (line.peek 0) = iac) :
    keyOf sign line = .other := by
  have hByte : line.peek 0 = 0xff := by
    cases sign with
    | signed => exact absurd h (signed_ne_iac _)
    | unsigned => exact unsigned_iac.mp h
  have hCtrlC : line.streq [3] = false := by
    rw [Bool.eq_false_iff, ne_eq, Buffer.streq_iff (by decide)]
    rintro ⟨-, hText⟩
    have hFirst : line.peek 0 = 3 := by
      unfold Buffer.peek
      unfold text at hText
      cases hCells : line.cells with
      | nil => rw [hCells] at hText; cases hText
      | cons c cells =>
          rw [hCells, List.takeWhile_cons] at hText
          split at hText
          · exact (List.cons.inj hText).1
          · cases hText
    rw [hByte] at hFirst
    exact absurd hFirst (by decide)
  rw [hByte] at h
  simp [keyOf, isEscape, hByte, hCtrlC, h, iac]

theorem Leftover.dispatch_none_iff {sign : CharSign} {s : Session} {full cut : Line}
    {left : List UInt8} (h : Leftover full cut [] left) (hIac : sign.value (full.peek 0) = iac) :
    s.dispatch sign full = s.dispatch sign cut ↔ LeftoverUnseen sign s full cut := by
  have hZero : cut.peek 0 = 0 := h.peek_cut (Nat.le_refl 0)
  have hCut : keyOf sign cut = .other := by
    have hCtrlC : cut.streq [3] = false := by
      rw [Bool.eq_false_iff, ne_eq, Buffer.streq_iff (by decide), h.text_cut]
      exact fun hText => List.cons_ne_nil _ _ hText.2.symm
    simp [keyOf, isEscape, hZero, hCtrlC, sign.value_zero]
  have hReturn : full.peek 0 ≠ 13 := by
    intro hc
    rw [hc, sign.value_of_lt (c := 13) (by decide)] at hIac
    exact absurd hIac (by decide)
  have hNum : (text cut.cells).length = 0 := by rw [h.text_cut]; rfl
  unfold Session.dispatch LeftoverUnseen
  rw [if_pos hNum, keyOf_iac hIac, hCut]
  exact h.none_kept_iff (by rw [hIac]; decide) hReturn (IacScan.value_iac_ne_zero hIac)

/-- A round does what it would do on the line cut behind the bytes the filter
kept exactly where the filter kept everything, or what it left over does not
come into play. -/
theorem filtered_length_respected_iff (sign : CharSign) {s : Session} (hOpen : s.closed = false)
    {bytes : List UInt8} (hSome : bytes ≠ []) (hText : 0 ∉ bytes) (hShort : bytes.length ≤ 255)
    (fits : bytes.length ≤ maxCmdLen) :
    s.step sign (.data bytes fits) =
        s.dispatch sign (cutLine (lineRead sign (.data bytes fits))
          (keptCount sign (.data bytes fits))) ↔
      keptCount sign (.data bytes fits) = bytes.length ∨
        LeftoverUnseen sign s (lineRead sign (.data bytes fits))
          (cutLine (lineRead sign (.data bytes fits)) (keptCount sign (.data bytes fits))) := by
  have hLess : bytes.length < maxCmdLen := Nat.lt_succ_of_le hShort
  have hStep : s.step sign (.data bytes fits) =
      s.dispatch sign (lineRead sign (.data bytes fits)) := by
    have hTerm : Terminated (ReadResult.data bytes fits).cmdLine.cells := terminated_fill hLess
    rw [step_open sign _ hOpen, Buffer.strlen_eq hTerm]
    rfl
  rw [hStep]
  by_cases hAll : keptCount sign (.data bytes fits) = bytes.length
  · refine iff_of_true (congrArg _ (Buffer.ext ?_)) (.inl hAll)
    obtain ⟨hCells, hCount⟩ := lineRead_cells sign hText fits
    rw [cutLine, Buffer.cells_fill, List.length_take_of_le (by rw [Buffer.size]; omega)]
    rw [hCount] at hAll
    rw [hCells, hCount, List.take_left, hAll, List.drop_length, List.nil_append]
  · rw [or_iff_right hAll]
    have hLeft := lineRead_leftover sign hText fits hLess hAll
    by_cases hNone : decode sign bytes = []
    · obtain ⟨c, bytes, rfl⟩ := List.exists_cons_of_ne_nil hSome
      have hFirst : (lineRead sign (.data (c :: bytes) fits)).peek 0 = c := by
        rw [Buffer.peek, (lineRead_cells sign hText fits).1, hNone]
        rfl
      rw [hNone] at hLeft
      exact hLeft.dispatch_none_iff (by rw [hFirst]; exact decode_nil hNone)
    · exact hLeft.dispatch_eq_iff hNone

/-- The filter drops the line feed of Enter, and what it leaves over is not looked
at. -/
theorem filtered_length_respected_enter :
    Session.init.step .signed (.data (ascii "\r\n") (by decide)) =
      Session.init.dispatch .signed
        (cutLine (lineRead .signed (.data (ascii "\r\n") (by decide)))
          (keptCount .signed (.data (ascii "\r\n") (by decide)))) :=
  (filtered_length_respected_iff .signed (s := .init) rfl (by decide : ascii "\r\n" ≠ [])
    (by decide) (by decide) (by decide)).mpr (.inr (by decide +kernel))

/-- A carriage return and a line feed inside a chunk: the last byte is kept and
left over, and it is echoed and stored twice. -/
theorem leftover_appended :
    ∃ t u, Session.init.step .signed (.data (ascii "a\r\nb") (by decide)) = .ok t ∧
      Session.init.dispatch .signed
        (cutLine (lineRead .signed (.data (ascii "a\r\nb") (by decide)))
          (keptCount .signed (.data (ascii "a\r\nb") (by decide)))) = .ok u ∧
      text t.cmdBuf.cells = ascii "a\rbb" ∧ text u.cmdBuf.cells = ascii "a\rb" :=
  Sat.both_return (by decide +kernel) (by decide +kernel)

end TelnetDebug

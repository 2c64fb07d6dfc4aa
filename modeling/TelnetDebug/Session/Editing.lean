import TelnetDebug.Session.Shell

/-! What the editing handlers do. The specifications describe the line buffer by
the text before the cursor, the text behind it, and the cells after the
terminator; they are exact on the bytes sent as well. -/
namespace TelnetDebug

open CBuffer Guarded

theorem maxCmdLen_eq : maxCmdLen = 256 := rfl

theorem toNat_ofNat_line {len : Nat} (h : len ≤ maxCmdLen) : (UInt32.ofNat len).toNat = len := by
  apply UInt32.toNat_ofNat_of_lt'
  rw [UInt32.size]
  have hMax := maxCmdLen_eq
  omega

/-- A subtraction of the cursor from a line length that does not wrap. -/
theorem toNat_sub_line {len : Nat} {num : UInt32} (h : len ≤ maxCmdLen) (hNum : num.toNat ≤ len) :
    (UInt32.ofNat len - num).toNat = len - num.toNat := by
  rw [UInt32.toNat_sub_of_le _ _ (by rw [UInt32.le_iff_toNat_le, toNat_ofNat_line h]; exact hNum),
    toNat_ofNat_line h]

/-- A step down of a counter that does not wrap. -/
theorem toNat_pred {num : UInt32} (h : num ≠ 0) : (num - 1).toNat = num.toNat - 1 := by
  have hPos : num.toNat ≠ 0 := fun hZero => h (UInt32.toNat_inj.mp hZero)
  rw [UInt32.toNat_sub_of_le, UInt32.toNat_one]
  rw [UInt32.le_iff_toNat_le, UInt32.toNat_one]
  omega

theorem sat_reading_bind {α β : Type} {object : Object} {x : Except Nat α} {f : α → Eff β}
    {post : β → Prop} {fault : Fault → Prop} (hFault : ∀ i, x = .error i → fault (.read object i))
    (hRest : ∀ a, x = .ok a → Sat (f a) post fault) : Sat (reading object x >>= f) post fault := by
  cases x with
  | ok a => exact hRest a rfl
  | error i => exact hFault i rfl

theorem sat_writing_bind {α β : Type} {object : Object} {x : Except Nat α} {f : α → Eff β}
    {post : β → Prop} {fault : Fault → Prop} (hFault : ∀ i, x = .error i → fault (.write object i))
    (hRest : ∀ a, x = .ok a → Sat (f a) post fault) : Sat (writing object x >>= f) post fault := by
  cases x with
  | ok a => exact hRest a rfl
  | error i => exact hFault i rfl

/-- A string stored in a cleared array is followed by zeros only. -/
theorem store_const {s : List UInt8} (hFits : s.length < maxCmdLen) :
    (Buffer.const maxCmdLen (0 : UInt8)).store s = .ok (.fill s (Nat.le_of_lt hFits)) := by
  obtain ⟨b, hStore, hCells⟩ := (Buffer.const maxCmdLen (0 : UInt8)).store_spec hFits
  rw [hStore]
  congr 1
  ext1
  rw [hCells, Buffer.cells_fill, Buffer.cells_const, List.drop_replicate, ← List.replicate_succ]
  congr 2
  omega

theorem terminated_fill {s : List UInt8} (hFits : s.length < maxCmdLen) :
    Terminated (Buffer.fill (n := maxCmdLen) s (Nat.le_of_lt hFits)).cells := by
  simp [Terminated]
  exact .inr (by omega)

theorem text_fill {s : List UInt8} (hText : 0 ∉ s) (h : s.length ≤ maxCmdLen) :
    text (Buffer.fill (n := maxCmdLen) s h).cells = s := by
  rw [Buffer.cells_fill, text_append hText]
  cases maxCmdLen - s.length <;> simp [text, List.replicate_succ]

namespace Session

theorem prompt_eq (s : Session) :
    s.prompt = .ok { s.send (ascii "\r\n" ++ debugShell) with cmdBuf := .const _ 0 } := by
  have hFits : (ascii "\r\n" ++ debugShell).length < maxCmdLen := by decide
  unfold prompt
  rw [store_const hFits, writing_ok, ok_bind, text_fill (by decide)]
  rfl

theorem reload_eq {s : Session} (h : Terminated s.mgr.gCmd.cells) :
    s.reload = .ok { s with
      cmdBuf := .fill (text s.mgr.gCmd.cells) (Nat.le_of_lt (s.mgr.gCmd.text_length_lt h)) } := by
  unfold reload
  rw [Buffer.str_eq h, reading_ok, ok_bind, store_const (s.mgr.gCmd.text_length_lt h),
    writing_ok, ok_bind]
  rfl

end Session

section Editing
variable {s : Session} {before after rest : List UInt8}

/-- Insertion in front of `after` overwrites the terminator: the line goes on
with whatever follows it. -/
theorem insertChar_spec (c : UInt8)
    (hCells : s.cmdBuf.cells = before ++ after ++ 0 :: rest)
    (hNum : s.mgr.moveLeftNum.toNat = after.length) (hMid : after ≠ []) :
    ∃ buf, insertChar s (UInt32.ofNat (before.length + after.length)) c =
        .ok ({ s with cmdBuf := buf }.send (ascii "\x1b[1@" ++ [c])) ∧
      buf.cells = before ++ c :: (after ++ rest) := by
  have hMax := maxCmdLen_eq
  have hSize := s.cmdBuf.size
  rw [hCells] at hSize
  simp only [List.length_append, List.length_cons] at hSize
  have hPos : 0 < after.length := List.length_pos_iff.mpr hMid
  have hLen : before.length + after.length ≤ maxCmdLen := by omega
  have hSub : (UInt32.ofNat (before.length + after.length) - s.mgr.moveLeftNum).toNat =
      before.length := by
    rw [toNat_sub_line hLen (by omega)]
    omega
  have hSucc : (UInt32.ofNat (before.length + after.length) - s.mgr.moveLeftNum + 1).toNat =
      before.length + 1 := by
    rw [UInt32.toNat_add, hSub]
    simp
    omega
  have hGuard : ¬ (UInt32.ofNat (before.length + after.length) ≤ 0 ∨
      UInt32.ofNat (before.length + after.length) > UInt32.ofNat (maxCmdLen - 1)) := by
    simp only [UInt32.le_iff_toNat_le, gt_iff_lt, UInt32.lt_iff_toNat_lt, toNat_ofNat_line hLen,
      toNat_ofNat_line (Nat.sub_le maxCmdLen 1), UInt32.toNat_zero]
    omega
  have hCursor : s.mgr.moveLeftNum > 0 ∧
      s.mgr.moveLeftNum ≤ UInt32.ofNat (before.length + after.length) := by
    simp only [UInt32.le_iff_toNat_le, gt_iff_lt, UInt32.lt_iff_toNat_lt, toNat_ofNat_line hLen,
      UInt32.toNat_zero]
    omega
  obtain ⟨b₁, b₂, hMove, hSet, hResult⟩ := Buffer.insert_spec hCells c
  refine ⟨b₂, ?_, hResult⟩
  simp only [insertChar, if_neg hGuard, if_pos hCursor, hSub, hSucc, hNum, hMove, hSet, writing_ok,
    ok_bind]
  simp [hResult, Session.send]
  rfl

/-- A cursor at the end or in front of the line inserts nothing. -/
theorem insertChar_skip {len : UInt32} (c : UInt8)
    (h : s.mgr.moveLeftNum = 0 ∨ len < s.mgr.moveLeftNum) : insertChar s len c = .ok s := by
  have hCursor : ¬ (s.mgr.moveLeftNum > 0 ∧ s.mgr.moveLeftNum ≤ len) := by
    simp only [gt_iff_lt, UInt32.lt_iff_toNat_lt, UInt32.le_iff_toNat_le, UInt32.toNat_zero] at h ⊢
    rcases h with h | h
    · simp [h]
    · omega
  unfold insertChar
  simp only [hCursor, if_false, ite_self]
  rfl

/-- Deletion in front of `after`. The cell of the old terminator stays zero. -/
theorem keyboardBacksapce_spec {old : UInt8}
    (hCells : s.cmdBuf.cells = before ++ old :: (after ++ 0 :: rest))
    (hNum : s.mgr.moveLeftNum.toNat = after.length) :
    ∃ buf, keyboardBacksapce s (UInt32.ofNat (before.length + 1 + after.length)) =
        .ok ({ s with cmdBuf := buf }.send
          (if after = [] then ascii " " else clearRightChar ++ after)) ∧
      buf.cells = before ++ after ++ 0 :: 0 :: rest := by
  have hMax := maxCmdLen_eq
  have hSize := s.cmdBuf.size
  rw [hCells] at hSize
  simp only [List.length_append, List.length_cons] at hSize
  have hLen : before.length + 1 + after.length ≤ maxCmdLen := by omega
  have hGuard : ¬ (UInt32.ofNat (before.length + 1 + after.length) ≤ 0 ∨
      s.mgr.moveLeftNum = UInt32.ofNat (before.length + 1 + after.length)) := by
    simp only [UInt32.le_iff_toNat_le, ← UInt32.toNat_inj, toNat_ofNat_line hLen,
      UInt32.toNat_zero]
    omega
  have hLast : (UInt32.ofNat (before.length + 1 + after.length) - 1).toNat =
      before.length + after.length := by
    rw [toNat_sub_line hLen (by simp; omega), UInt32.toNat_one]
    omega
  have hSub : (UInt32.ofNat (before.length + 1 + after.length) - s.mgr.moveLeftNum).toNat =
      before.length + 1 := by
    rw [toNat_sub_line hLen (by omega)]
    omega
  have hPrev : (UInt32.ofNat (before.length + 1 + after.length) - 1 - s.mgr.moveLeftNum).toNat =
      before.length := by
    rw [UInt32.toNat_sub_of_le _ _ (by rw [UInt32.le_iff_toNat_le, hLast]; omega), hLast]
    omega
  cases after with
  | nil =>
      have hZero : ¬ s.mgr.moveLeftNum > 0 := by
        simp only [gt_iff_lt, UInt32.lt_iff_toNat_lt, hNum]
        simp
      have hWrite : s.cmdBuf.cells = before ++ old :: 0 :: rest := hCells
      obtain ⟨b, hSet, hResult⟩ := Buffer.set_spec hWrite 0
      refine ⟨b, ?_, by simpa using hResult⟩
      simp only [keyboardBacksapce, if_neg hGuard, if_neg hZero, hLast]
      simp only [List.length_nil, Nat.add_zero, hSet, writing_ok, ok_bind, if_true]
      rfl
  | cons a after =>
      have hPos : s.mgr.moveLeftNum > 0 := by
        simp only [gt_iff_lt, UInt32.lt_iff_toNat_lt, hNum]
        simp
      obtain ⟨b₁, b₂, hMove, hSet, hResult⟩ := Buffer.delete_spec hCells
      refine ⟨b₂, ?_, hResult⟩
      simp only [keyboardBacksapce, if_neg hGuard, if_pos hPos, hLast, hSub, hPrev, hNum,
        Session.send_cmdBuf, hMove, hSet, writing_ok, ok_bind]
      simp [hResult, Session.send]
      rfl

/-- The echo of one deletion in front of `after`. -/
def backspaceEcho (after : List UInt8) : List UInt8 :=
  ascii "\x08 \x08" ++ (if after = [] then ascii " " else clearRightChar ++ after) ++
    (if after = [] then moveLeft else (List.replicate after.length moveLeft).flatten)

theorem onBackspace_spec {old : UInt8}
    (hCells : s.cmdBuf.cells = before ++ old :: (after ++ 0 :: rest))
    (hText : 0 ∉ before ++ old :: after) (hNum : s.mgr.moveLeftNum.toNat = after.length) :
    ∃ buf, s.onBackspace = .ok ({ s with cmdBuf := buf }.send (backspaceEcho after)) ∧
      buf.cells = before ++ after ++ 0 :: 0 :: rest := by
  have hSplit : s.cmdBuf.cells = (before ++ old :: after) ++ 0 :: rest := by simp [hCells]
  have hLen : s.cmdBuf.strlen = .ok (before.length + 1 + after.length) := by
    rw [Buffer.strlen_eq (by rw [hSplit]; exact terminated_append_zero _ _), hSplit,
      text_append_zero hText]
    simp only [List.length_append, List.length_cons]
    congr 1
    omega
  obtain ⟨buf, hErase, hResult⟩ :=
    keyboardBacksapce_spec (s := s.send (ascii "\x08 \x08")) hCells hNum
  refine ⟨buf, ?_, hResult⟩
  have hZero : s.mgr.moveLeftNum = 0 ↔ after = [] := by
    rw [← UInt32.toNat_inj, hNum]
    simp
  unfold Session.onBackspace
  rw [hLen, reading_ok, ok_bind, if_neg (by omega), hErase, ok_bind]
  by_cases hEnd : after = []
  · simp only [backspaceEcho, if_pos hEnd, hZero.mpr hEnd, Session.send_mgr]
    simp [Session.send]
    rfl
  · have hNonzero : s.mgr.moveLeftNum ≠ 0 := fun h => hEnd (hZero.mp h)
    simp only [backspaceEcho, if_neg hEnd, Session.send_mgr, ne_eq, hNonzero, not_false_iff,
      if_true, hNum]
    simp [Session.send]
    rfl

theorem onBackspace_start (h : Terminated s.cmdBuf.cells)
    (hNum : (text s.cmdBuf.cells).length = s.mgr.moveLeftNum.toNat) : s.onBackspace = .ok s := by
  unfold Session.onBackspace
  rw [Buffer.strlen_eq h, reading_ok, ok_bind, if_pos hNum]
  rfl

end Editing

section Appending
variable {buf : Line} {line rest : List UInt8}

theorem appendChar_spec {old : UInt8} (c : UInt8) (hText : 0 ∉ line)
    (hCells : buf.cells = line ++ 0 :: old :: rest) :
    ∃ buf', Session.appendChar buf c = .ok buf' ∧ buf'.cells = line ++ c :: 0 :: rest := by
  obtain ⟨b₁, hFirst, hMid⟩ := Buffer.set_spec hCells c
  have hNext : b₁.cells = (line ++ [c]) ++ old :: rest := by simp [hMid]
  obtain ⟨b₂, hSecond, hResult⟩ := Buffer.set_spec hNext 0
  refine ⟨b₂, ?_, by simpa using hResult⟩
  unfold Session.appendChar
  rw [Buffer.strlen_eq (by rw [hCells]; exact terminated_append_zero _ _), hCells,
    text_append_zero hText, reading_ok, ok_bind, hFirst, writing_ok, ok_bind]
  simpa using congrArg (writing Object.cmdBuf) hSecond

/-- The append loop, for as many bytes as there are cells after the
terminator. -/
theorem appendAll_spec {bytes : List UInt8} (hText : 0 ∉ line) (hBytes : 0 ∉ bytes)
    (hCells : buf.cells = line ++ 0 :: rest) (hFits : bytes.length ≤ rest.length) :
    ∃ buf', bytes.foldlM Session.appendChar buf = .ok buf' ∧
      buf'.cells = line ++ bytes ++ 0 :: rest.drop bytes.length := by
  induction bytes generalizing buf line rest with
  | nil => exact ⟨buf, rfl, by simpa using hCells⟩
  | cons c bytes ih =>
      cases rest with
      | nil => simp at hFits
      | cons old rest =>
          obtain ⟨b₁, hFirst, hMid⟩ := appendChar_spec c hText hCells
          have hc : c ≠ 0 := fun h => hBytes (by simp [h])
          have hNext : b₁.cells = (line ++ [c]) ++ 0 :: rest := by simp [hMid]
          obtain ⟨b₂, hRest, hResult⟩ := ih (by simp [hText, hc.symm])
            (fun h => hBytes (by simp [h])) hNext (by simpa using hFits)
          refine ⟨b₂, ?_, by simpa using hResult⟩
          rw [List.foldlM_cons, hFirst]
          exact hRest

/-- With more bytes than cells the loop ends at the terminator it writes past
the buffer. -/
theorem appendAll_overrun {bytes : List UInt8} (hText : 0 ∉ line) (hBytes : 0 ∉ bytes)
    (hCells : buf.cells = line ++ 0 :: rest) (hOver : rest.length < bytes.length) :
    bytes.foldlM Session.appendChar buf = .error (.write .cmdBuf maxCmdLen) := by
  induction bytes generalizing buf line rest with
  | nil => simp at hOver
  | cons c bytes ih =>
      rw [List.foldlM_cons]
      cases rest with
      | nil =>
          have hSize := buf.size
          rw [hCells, List.length_append, List.length_singleton] at hSize
          obtain ⟨b₁, hFirst, -⟩ := Buffer.set_spec hCells c
          have hSecond : b₁.set (line.length + 1) 0 = .error maxCmdLen := by
            rw [Buffer.set, if_neg (by omega), hSize]
          have hChar : Session.appendChar buf c = .error (.write .cmdBuf maxCmdLen) := by
            unfold Session.appendChar
            rw [Buffer.strlen_eq (by rw [hCells]; exact terminated_append_zero _ _), hCells,
              text_append_zero hText, reading_ok, ok_bind, hFirst, writing_ok, ok_bind, hSecond,
              writing_error]
          rw [hChar, error_bind]
      | cons old rest =>
          obtain ⟨b₁, hFirst, hMid⟩ := appendChar_spec c hText hCells
          have hc : c ≠ 0 := fun h => hBytes (by simp [h])
          rw [hFirst, ok_bind]
          have hNext : b₁.cells = (line ++ [c]) ++ 0 :: rest := by simp [hMid]
          exact ih (by simp [hText, hc.symm]) (fun h => hBytes (by simp [h])) hNext
            (by simpa using hOver)

theorem appendAll_unterminated {bytes : List UInt8} (h : ¬ Terminated buf.cells)
    (hSome : bytes ≠ []) :
    bytes.foldlM Session.appendChar buf = .error (.read .cmdBuf maxCmdLen) := by
  obtain ⟨c, bytes, rfl⟩ := List.exists_cons_of_ne_nil hSome
  have hChar : Session.appendChar buf c = .error (.read .cmdBuf maxCmdLen) := by
    unfold Session.appendChar
    rw [Buffer.strlen_error h, reading_error, error_bind]
  rw [List.foldlM_cons, hChar, error_bind]

theorem append_spec {s : Session} {line : Line} {before rest : List UInt8}
    (hLine : Terminated line.cells) (hText : 0 ∉ before)
    (hCells : s.cmdBuf.cells = before ++ 0 :: rest)
    (hFits : (text line.cells).length ≤ rest.length) :
    ∃ buf, s.append line = .ok { s.send (text line.cells) with cmdBuf := buf } ∧
      buf.cells = before ++ text line.cells ++ 0 :: rest.drop (text line.cells).length := by
  obtain ⟨buf, hFold, hResult⟩ := appendAll_spec hText (zero_notMem_text _) hCells hFits
  refine ⟨buf, ?_, hResult⟩
  unfold Session.append
  rw [Buffer.str_eq hLine, reading_ok, ok_bind, hFold]
  rfl

end Appending

/-- Only the line and the bytes sent may differ. -/
structure SameMgr (s t : Session) : Prop where
  mgr : t.mgr = s.mgr
  executed : t.executed = s.executed
  closed : t.closed = s.closed

/-- A fault of one of the two line buffers. -/
def lineFault (f : Fault) : Prop := f.object = .cmdBuf ∨ f.object = .cmdLine

section Frames

theorem insertChar_frame (s : Session) (len : UInt32) (c : UInt8) :
    Sat (insertChar s len c) (SameMgr s) lineFault := by
  unfold insertChar
  dsimp only
  split
  · exact ⟨rfl, rfl, rfl⟩
  · split
    · refine sat_writing_bind (fun _ _ => .inl rfl) fun _ _ => ?_
      exact sat_writing_bind (fun _ _ => .inl rfl) fun _ _ => ⟨rfl, rfl, rfl⟩
    · exact ⟨rfl, rfl, rfl⟩

theorem keyboardBacksapce_frame (s : Session) (len : UInt32) :
    Sat (keyboardBacksapce s len) (SameMgr s) lineFault := by
  unfold keyboardBacksapce
  dsimp only
  split
  · exact ⟨rfl, rfl, rfl⟩
  · split
    · refine sat_writing_bind (fun _ _ => .inl rfl) fun _ _ => ?_
      exact sat_writing_bind (fun _ _ => .inl rfl) fun _ _ => ⟨rfl, rfl, rfl⟩
    · exact sat_writing_bind (fun _ _ => .inl rfl) fun _ _ => ⟨rfl, rfl, rfl⟩

theorem onBackspace_frame (s : Session) : Sat s.onBackspace (SameMgr s) lineFault := by
  unfold Session.onBackspace
  refine sat_reading_bind (fun _ _ => .inl rfl) fun len _ => ?_
  split
  · exact ⟨rfl, rfl, rfl⟩
  · refine (keyboardBacksapce_frame _ _).bind fun t h => ?_
    dsimp only
    split <;> exact ⟨h.mgr, h.executed, h.closed⟩

theorem insertRaw_frame (s : Session) (c : UInt8) : Sat (s.insertRaw c) (SameMgr s) lineFault := by
  unfold Session.insertRaw
  refine sat_reading_bind (fun _ _ => .inl rfl) fun len _ => ?_
  refine (insertChar_frame s _ c).bind fun t h => ?_
  exact ⟨h.mgr, h.executed, h.closed⟩

theorem appendChar_frame (buf : Line) (c : UInt8) :
    Sat (Session.appendChar buf c) (fun _ => True) lineFault := by
  unfold Session.appendChar
  refine sat_reading_bind (fun _ _ => .inl rfl) fun _ _ => ?_
  refine sat_writing_bind (fun _ _ => .inl rfl) fun b _ => ?_
  cases b.set _ 0 with
  | ok => trivial
  | error => exact .inl rfl

theorem appendAll_frame (bytes : List UInt8) (buf : Line) :
    Sat (bytes.foldlM Session.appendChar buf) (fun _ => True) lineFault := by
  induction bytes generalizing buf with
  | nil => trivial
  | cons c bytes ih =>
      rw [List.foldlM_cons]
      exact (appendChar_frame buf c).bind fun buf' _ => ih buf'

theorem append_frame (s : Session) (line : Line) : Sat (s.append line) (SameMgr s) lineFault := by
  unfold Session.append
  refine sat_reading_bind (fun _ _ => .inr rfl) fun bytes _ => ?_
  exact (appendAll_frame bytes _).bind fun _ _ => ⟨rfl, rfl, rfl⟩

theorem midLine_eq {s : Session} (h : Terminated s.cmdBuf.cells) :
    s.midLine = .ok (decide (s.mgr.moveLeftNum > 0 ∧ 0 < (text s.cmdBuf.cells).length)) := by
  unfold Session.midLine
  by_cases hNum : s.mgr.moveLeftNum > 0
  · rw [if_pos hNum, Buffer.strlen_eq h, reading_ok, ok_bind]
    simp [hNum]
    rfl
  · rw [if_neg hNum]
    simp [hNum]
    rfl

theorem midLine_end {s : Session} (h : s.mgr.moveLeftNum = 0) : s.midLine = .ok false := by
  unfold Session.midLine
  rw [if_neg (by simp [h])]
  rfl

theorem midLine_eq_false_iff {s : Session} :
    s.midLine = .ok false ↔ s.mgr.moveLeftNum = 0 ∨ text s.cmdBuf.cells = [] := by
  by_cases hNum : s.mgr.moveLeftNum = 0
  · exact iff_of_true (midLine_end hNum) (.inl hNum)
  · have hPos := UInt32.pos_iff_ne_zero.mpr hNum
    rw [or_iff_right hNum]
    by_cases hTerm : Terminated s.cmdBuf.cells
    · rw [midLine_eq hTerm, Except.ok.injEq, decide_eq_false_iff_not, ← List.length_eq_zero_iff]
      exact ⟨fun h => Nat.eq_zero_of_not_pos fun hLine => h ⟨hPos, hLine⟩,
        fun h hMid => Nat.ne_of_gt hMid.2 h⟩
    · refine iff_of_false (fun hMid => ?_) fun hEmpty => ?_
      · unfold Session.midLine at hMid
        rw [if_pos hPos, Buffer.strlen_error hTerm] at hMid
        cases hMid
      · have hSize := s.cmdBuf.size
        rw [← text_of_not_terminated hTerm, hEmpty] at hSize
        cases hSize

end Frames

end TelnetDebug

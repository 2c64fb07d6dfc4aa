import TelnetDebug.Library.Buffer
import TelnetDebug.Library.Guarded
import TelnetDebug.Lists.SllLinkList
import TelnetDebug.Session.WriteLoop

/-! Output on the console. A line feed takes two bytes there, but the text before
and after the expansion is kept in buffers of one size, and all of the second
buffer is written whatever it holds. -/
namespace TelnetDebug

open CBuffer Guarded

def telnetLineMaxLen : Nat := 1024

def lineFeed : UInt8 := 10
def carriageReturn : UInt8 := 13

inductive ConsoleFault where
  | outside (index : Nat)
  | endless
deriving DecidableEq

/-- The loop of `out_n_to_rn`, for the cells of the source from `cp1` on. -/
def outNToRnFrom {n : Nat} :
    List UInt8 → Buffer UInt8 n → Nat → Except Nat (Buffer UInt8 n)
  | [], _, _ => .error n
  | c :: rest, dst, cp2 =>
      if c = 0 then dst.set cp2 0
      else if c = lineFeed then do
        let dst ← dst.set cp2 carriageReturn
        let dst ← dst.set (cp2 + 1) lineFeed
        outNToRnFrom rest dst (cp2 + 2)
      else do
        let dst ← dst.set cp2 c
        outNToRnFrom rest dst (cp2 + 1)

def outNToRn {n : Nat} (pszsrc pszdst : Buffer UInt8 n) : Except Nat (Int × Buffer UInt8 n) := do
  let pszdst ← outNToRnFrom pszsrc.cells pszdst 0
  return (Sll.retSuccess, pszdst)

/-- The bytes of a buffer that a call of `write` took. -/
def WriteResult.taken (buffer : List UInt8) : WriteResult → List UInt8
  | wrote n => buffer.take n
  | failed _ => []

/-- `tel_printf` from the label `AGAIN` on, with as many turns to go. -/
def writeAgain (writer : Writer) (bufWrite : List UInt8) :
    Nat → Nat → Except ConsoleFault (List UInt8)
  | 0, _ => .error .endless
  | turns + 1, call =>
      let result := writer.answer call telnetLineMaxLen
      if result.ret < 0 ∧ result = .failed eintr then writeAgain writer bufWrite turns (call + 1)
      else return result.taken bufWrite

/-- The buffer `buf` after `vsnprintf`, which makes the text `s` of the format
and its arguments. -/
def formatted (s : List UInt8) : Except Nat (Buffer UInt8 telnetLineMaxLen) :=
  (Buffer.const telnetLineMaxLen 0).store (s.take (telnetLineMaxLen - 1))

/-- What is written to descriptor 1. -/
def telPrintf (writer : Writer) (turns : Nat) (s : List UInt8) :
    Except ConsoleFault (List UInt8) := do
  let buf ← (formatted s).mapError .outside
  let (_, bufWrite) ← (outNToRn buf (Buffer.const telnetLineMaxLen 0)).mapError .outside
  writeAgain writer bufWrite.cells turns 0

/-- A text with every line feed replaced by a carriage return and a line feed. -/
def crLf (text : List UInt8) : List UInt8 :=
  text.flatMap fun c => if c = lineFeed then [carriageReturn, lineFeed] else [c]

section Expansion
variable {text rest : List UInt8} {c : UInt8}

theorem crLf_cons_lineFeed :
    crLf (lineFeed :: text) = carriageReturn :: lineFeed :: crLf text := rfl

theorem crLf_cons_of_ne (h : c ≠ lineFeed) : crLf (c :: text) = c :: crLf text := by
  rw [crLf, List.flatMap_cons, if_neg h]
  rfl

theorem crLf_append : crLf (text ++ rest) = crLf text ++ crLf rest := List.flatMap_append

theorem length_crLf : (crLf text).length = text.length + text.count lineFeed := by
  induction text with
  | nil => rfl
  | cons c text ih =>
      by_cases hLine : c = lineFeed
      · rw [hLine, crLf_cons_lineFeed, List.count_cons_self]
        simp only [List.length_cons, ih]
        omega
      · rw [crLf_cons_of_ne hLine, List.count_cons_of_ne hLine]
        simp only [List.length_cons, ih]
        omega

/-- The expansion holds nothing but zeros only if the text does. -/
theorem eq_zero_of_crLf (h : ∀ c ∈ crLf text, c = 0) : ∀ c ∈ text, c = 0 := by
  intro c hc
  by_cases hLine : c = lineFeed
  · have hReturn : carriageReturn ∈ crLf text := by
      apply List.mem_flatMap.mpr
      exact ⟨c, hc, by rw [if_pos hLine]; exact List.mem_cons_self⟩
    cases h _ hReturn
  · apply h
    apply List.mem_flatMap.mpr
    exact ⟨c, hc, by rw [if_neg hLine]; exact List.mem_cons_self⟩

theorem crLf_of_eq_zero (h : ∀ c ∈ text, c = 0) : crLf text = text := by
  induction text with
  | nil => rfl
  | cons c text ih =>
      have hZero : c ≠ lineFeed := by
        rw [h c List.mem_cons_self]
        decide
      rw [crLf_cons_of_ne hZero, ih fun d hd => h d (List.mem_cons_of_mem c hd)]

end Expansion

section Loop
variable {n : Nat} {src dst : Buffer UInt8 n} {text rest : List UInt8}

/-- The loop writes the expansion and a terminator, byte after byte. -/
theorem outNToRnFrom_eq (hText : (0 : UInt8) ∉ text) (pos : Nat) :
    outNToRnFrom (text ++ 0 :: rest) dst pos = dst.putAll pos (crLf text ++ [0]) := by
  induction text generalizing dst pos with
  | nil =>
      change dst.set pos 0 = dst.set pos 0 >>= Except.ok
      exact (bind_pure (dst.set pos 0)).symm
  | cons c text ih =>
      have hLater : (0 : UInt8) ∉ text := fun h => hText (List.mem_cons_of_mem c h)
      have hZero : c ≠ 0 := fun h => hText (h ▸ List.mem_cons_self)
      rw [List.cons_append, outNToRnFrom, if_neg hZero]
      by_cases hLine : c = lineFeed
      · rw [if_pos hLine, hLine, crLf_cons_lineFeed]
        change _ = (dst.set pos carriageReturn >>= fun b => b.set (pos + 1) lineFeed >>=
          fun b => b.putAll (pos + 2) (crLf text ++ [0]))
        simp only [ih hLater]
      · rw [if_neg hLine, crLf_cons_of_ne hLine]
        change _ = (dst.set pos c >>= fun b => b.putAll (pos + 1) (crLf text ++ [0]))
        simp only [ih hLater]

theorem outNToRnFrom_cells (hSrc : Terminated src.cells) :
    outNToRnFrom src.cells dst 0 = dst.putAll 0 (crLf (CBuffer.text src.cells) ++ [0]) := by
  obtain ⟨rest, hSplit⟩ := hSrc.split
  calc outNToRnFrom src.cells dst 0
      = outNToRnFrom (CBuffer.text src.cells ++ 0 :: rest) dst 0 := by rw [← hSplit]
    _ = dst.putAll 0 (crLf (CBuffer.text src.cells) ++ [0]) :=
        outNToRnFrom_eq (zero_notMem_text src.cells) 0

/-- The expansion has its place when it ends before the array does. -/
theorem outNToRn_inside (dst : Buffer UInt8 n) (hSrc : Terminated src.cells)
    (hFits : (crLf (CBuffer.text src.cells)).length < n) :
    ∃ dst', outNToRn src dst = .ok (Sll.retSuccess, dst') ∧
      dst'.cells = crLf (CBuffer.text src.cells) ++
        0 :: dst.cells.drop ((crLf (CBuffer.text src.cells)).length + 1) := by
  have hRoom : (crLf (CBuffer.text src.cells) ++ [0]).length ≤ dst.cells.length := by
    rw [dst.size, List.length_append]
    exact hFits
  obtain ⟨dst', hPut, hCells⟩ := Buffer.putAll_spec (List.nil_append dst.cells).symm hRoom
  rw [List.length_nil, ← outNToRnFrom_cells hSrc] at hPut
  refine ⟨dst', ?_, ?_⟩
  · rw [outNToRn, hPut]
    rfl
  · rw [hCells, List.nil_append, List.append_assoc, List.length_append]
    rfl

/-- A longer expansion is written past the array. -/
theorem outNToRn_outside (dst : Buffer UInt8 n) (hSrc : Terminated src.cells)
    (hLong : n ≤ (crLf (CBuffer.text src.cells)).length) : outNToRn src dst = .error n := by
  have hNoRoom : dst.cells.length < (crLf (CBuffer.text src.cells) ++ [0]).length := by
    rw [dst.size, List.length_append]
    exact Nat.lt_succ_of_le hLong
  have hPut := Buffer.putAll_error (List.nil_append dst.cells).symm hNoRoom
  rw [List.length_nil, ← outNToRnFrom_cells hSrc] at hPut
  rw [outNToRn, hPut]
  rfl

end Loop

/-- How many bytes a call of `write` took. -/
def WriteResult.count : WriteResult → Nat
  | wrote n => n
  | failed _ => 0

/-- What the first buffer holds of a text. -/
def printed (s : List UInt8) : List UInt8 := s.take (telnetLineMaxLen - 1)

/-- What it takes for the console to get a text: the expansion has its place,
nothing but zeros follows the first zero, and the system takes of the buffer
exactly the bytes of the expansion. -/
structure Shown (writer : Writer) (s : List UInt8) : Prop where
  fits : (text (printed s)).length + (text (printed s)).count lineFeed < telnetLineMaxLen
  whole : ∀ c ∈ (printed s).drop (text (printed s)).length, c = 0
  counted : (writer.answer 0 telnetLineMaxLen).count =
    (printed s).length + (printed s).count lineFeed

section Console
variable {writer : Writer} {s : List UInt8}

theorem taken_eq_take (buffer : List UInt8) (result : WriteResult) :
    result.taken buffer = buffer.take result.count := by
  cases result with
  | wrote n => rfl
  | failed errno => rfl

/-- The call is made once: an unsigned result is not negative. -/
theorem writeAgain_eq (bufWrite : List UInt8) (turns call : Nat) :
    writeAgain writer bufWrite (turns + 1) call =
      .ok (bufWrite.take (writer.answer call telnetLineMaxLen).count) := by
  rw [writeAgain, if_neg fun h => UInt32.not_lt_zero h.1, taken_eq_take]
  rfl

theorem formatted_eq (s : List UInt8) :
    ∃ buf, formatted s = .ok buf ∧ Terminated buf.cells ∧ text buf.cells = text (printed s) := by
  have hCut : (printed s).length ≤ telnetLineMaxLen - 1 := List.length_take_le _ s
  have hFits : (printed s).length < telnetLineMaxLen := Nat.lt_of_le_of_lt hCut (by decide)
  obtain ⟨buf, hStore, hCells⟩ := Buffer.store_spec (Buffer.const telnetLineMaxLen 0) hFits
  refine ⟨buf, hStore, Buffer.terminated_of_store hStore, ?_⟩
  rw [hCells, text_terminate]

/-- The bytes of the second buffer, with zeros behind the expansion. -/
def withPadding (expansion : List UInt8) : List UInt8 :=
  expansion ++ List.replicate (telnetLineMaxLen - expansion.length) 0

theorem telPrintf_inside (hFits : (crLf (text (printed s))).length < telnetLineMaxLen)
    (turns : Nat) :
    telPrintf writer (turns + 1) s = .ok ((withPadding (crLf (text (printed s)))).take
      (writer.answer 0 telnetLineMaxLen).count) := by
  obtain ⟨buf, hFormat, hTerminated, hText⟩ := formatted_eq s
  rw [← hText] at hFits ⊢
  obtain ⟨bufWrite, hExpand, hCells⟩ :=
    outNToRn_inside (Buffer.const telnetLineMaxLen 0) hTerminated hFits
  have hPadded : bufWrite.cells = withPadding (crLf (text buf.cells)) := by
    rw [hCells, withPadding, Buffer.cells_const, List.drop_replicate, ← List.replicate_succ]
    congr 2
    omega
  rw [telPrintf, hFormat]
  change ((outNToRn buf _).mapError ConsoleFault.outside >>= fun r =>
    writeAgain writer r.2.cells (turns + 1) 0) = _
  rw [hExpand]
  change writeAgain writer bufWrite.cells (turns + 1) 0 = _
  rw [writeAgain_eq, hPadded]

theorem telPrintf_outside (hLong : telnetLineMaxLen ≤ (crLf (text (printed s))).length)
    (turns : Nat) : telPrintf writer turns s = .error (.outside telnetLineMaxLen) := by
  obtain ⟨buf, hFormat, hTerminated, hText⟩ := formatted_eq s
  rw [← hText] at hLong
  have hExpand := outNToRn_outside (Buffer.const telnetLineMaxLen 0) hTerminated hLong
  rw [telPrintf, hFormat]
  change ((outNToRn buf _).mapError ConsoleFault.outside >>= fun r =>
    writeAgain writer r.2.cells turns 0) = _
  rw [hExpand]
  rfl

/-- A part of the padded buffer is an expansion exactly when only zeros are
missing in front of its end. -/
theorem take_withPadding_iff {text : List UInt8} (rest : List UInt8) {count : Nat}
    (hCount : count ≤ telnetLineMaxLen) (hFits : (crLf text).length < telnetLineMaxLen) :
    (withPadding (crLf text)).take count = crLf (text ++ rest) ↔
      (∀ c ∈ rest, c = 0) ∧ count = (crLf (text ++ rest)).length := by
  have hLength : (withPadding (crLf text)).length = telnetLineMaxLen := by
    rw [withPadding, List.length_append, List.length_replicate]
    omega
  rw [crLf_append]
  constructor
  · intro hSame
    have hEnd := congrArg List.length hSame
    rw [List.length_take_of_le (hLength.symm ▸ hCount)] at hEnd
    refine ⟨eq_zero_of_crLf fun c hc => ?_, hEnd⟩
    rw [hEnd, List.length_append, withPadding, List.take_length_add_append] at hSame
    rw [← List.append_cancel_left hSame] at hc
    exact List.eq_of_mem_replicate (List.mem_of_mem_take hc)
  · rintro ⟨hZeros, hEnd⟩
    rw [crLf_of_eq_zero hZeros] at hEnd ⊢
    have hRest := List.eq_replicate_iff.mpr ⟨rfl, hZeros⟩
    have hShort : rest.length ≤ telnetLineMaxLen - (crLf text).length := by
      rw [List.length_append] at hEnd
      omega
    rw [hEnd, List.length_append, withPadding, List.take_length_add_append, List.take_replicate,
      Nat.min_eq_left hShort, ← hRest]

theorem outNToRn_returns_iff (s : List UInt8) :
    (∃ buf r, formatted s = .ok buf ∧
        outNToRn buf (Buffer.const telnetLineMaxLen 0) = .ok r) ↔
      (text (printed s)).length + (text (printed s)).count lineFeed < telnetLineMaxLen := by
  obtain ⟨buf, hFormat, hTerminated, hText⟩ := formatted_eq s
  rw [← length_crLf, ← hText]
  constructor
  · rintro ⟨other, r, hOther, hExpand⟩
    rw [hFormat] at hOther
    obtain rfl := Except.ok.inj hOther
    apply Nat.lt_of_not_le
    intro hLong
    rw [outNToRn_outside _ hTerminated hLong] at hExpand
    cases hExpand
  · intro hFits
    obtain ⟨dst, hExpand, -⟩ := outNToRn_inside (Buffer.const telnetLineMaxLen 0) hTerminated hFits
    exact ⟨buf, _, hFormat, hExpand⟩

theorem telPrintf_shown_iff (turns : Nat) :
    telPrintf writer (turns + 1) s = .ok (crLf (printed s)) ↔ Shown writer s := by
  rcases Nat.lt_or_ge (crLf (text (printed s))).length telnetLineMaxLen with hFits | hLong
  · have hSplit : text (printed s) ++ (printed s).drop (text (printed s)).length = printed s :=
      List.prefix_iff_eq_append.mp (List.takeWhile_prefix _)
    have hCount : (writer.answer 0 telnetLineMaxLen).count ≤ telnetLineMaxLen := by
      cases hAnswer : writer.answer 0 telnetLineMaxLen with
      | wrote n => exact (writer.bounded (by decide) hAnswer).2
      | failed errno => exact Nat.zero_le _
    have hPart := take_withPadding_iff ((printed s).drop (text (printed s)).length) hCount hFits
    rw [hSplit] at hPart
    rw [telPrintf_inside hFits, Except.ok.injEq, hPart, length_crLf]
    rw [length_crLf] at hFits
    exact ⟨fun ⟨hZeros, hCounted⟩ => ⟨hFits, hZeros, hCounted⟩, fun h => ⟨h.whole, h.counted⟩⟩
  · rw [telPrintf_outside hLong]
    rw [length_crLf] at hLong
    constructor
    · intro hFault
      cases hFault
    · exact fun h => (Nat.not_lt_of_le hLong h.fits).elim

/-- A text without zeros is followed by the zeros of the buffer when the system
takes all that it is given. -/
theorem not_shown_of_full (hText : (0 : UInt8) ∉ s)
    (hAll : writer.answer 0 telnetLineMaxLen = .wrote telnetLineMaxLen) : ¬ Shown writer s := by
  intro h
  have hWhole : text (printed s) = printed s :=
    text_of_not_terminated fun hZero => hText (List.mem_of_mem_take hZero)
  have hFits := h.fits
  rw [hWhole, ← h.counted, hAll] at hFits
  exact Nat.lt_irrefl _ hFits

end Console

/-- `out_n_to_rn` stays in its buffer if and only if the expansion has its place
there, and the console gets the text, expanded and nothing else, if and only if
moreover the system takes no more of the buffer than that. -/
theorem console_output_iff (writer : Writer) (turns : Nat) (s : List UInt8) :
    ((∃ buf r, formatted s = .ok buf ∧
        outNToRn buf (Buffer.const telnetLineMaxLen 0) = .ok r) ↔
      (text (printed s)).length + (text (printed s)).count lineFeed < telnetLineMaxLen) ∧
    (telPrintf writer (turns + 1) s = .ok (crLf (printed s)) ↔ Shown writer s) :=
  ⟨outNToRn_returns_iff s, telPrintf_shown_iff turns⟩

/-- A system that takes all that it is given. -/
def takesAll : Writer where
  answer _ size := .wrote size
  bounded hSize hAnswer := by
    obtain rfl := WriteResult.wrote.inj hAnswer
    exact ⟨hSize, Nat.le_refl _⟩

/-- Two bytes are withPadding, and 512 line feeds do not have their place. -/
theorem console_output_padded :
    telPrintf takesAll 1 [111, 107] ≠ .ok (crLf (printed [111, 107])) ∧
    telPrintf takesAll 1 (List.replicate 512 lineFeed) = .error (.outside telnetLineMaxLen) := by
  constructor
  · rw [Ne, telPrintf_shown_iff 0]
    exact not_shown_of_full (by decide) rfl
  · apply telPrintf_outside
    decide +kernel

end TelnetDebug

import TelnetDebug.Session.FilteredLength
import TelnetDebug.Session.Unsent

/-! How a stream is cut into reads. A read is one key, recognised by its first
bytes, and the filter keeps no state between reads, so the cut matters in
general. It does not matter where every read is a key with nothing of effect
behind it, or text typed at the end of the line. -/
namespace TelnetDebug

open CBuffer Guarded

/-- The bytes that a read delivers. -/
def ReadResult.bytes : ReadResult → List UInt8
  | data bytes _ => bytes
  | failed _ => []

def stream (reads : List ReadResult) : List UInt8 := (reads.map ReadResult.bytes).flatten

/-- What the filter leaves of a string: the bytes it keeps, and behind them
those of the string that it did not overwrite. -/
def filteredText (sign : CharSign) (s : List UInt8) : List UInt8 :=
  decode sign s ++ s.drop (decode sign s).length

theorem filteredText_nil (sign : CharSign) : filteredText sign [] = [] := by
  rw [filteredText, decode_none rfl]
  rfl

theorem filteredText_noNul (sign : CharSign) {s : List UInt8} (h : 0 ∉ s) :
    0 ∉ filteredText sign s := by
  obtain ⟨s', hKeeps, -, hNoNul⟩ := telnetdRemoveIac_keeps sign h []
  rw [(telnetdRemoveIac_decode sign s []).2] at hKeeps
  simp only [List.append_nil] at hKeeps
  rw [filteredText, hKeeps]
  exact hNoNul

theorem text_split (cells : List UInt8) :
    ∃ rest, cells = text cells ++ rest ∧ text rest = [] := by
  by_cases hTerm : Terminated cells
  · obtain ⟨rest, hSplit⟩ := hTerm.split
    exact ⟨0 :: rest, hSplit, rfl⟩
  · exact ⟨[], by rw [List.append_nil, text_of_not_terminated hTerm], rfl⟩

theorem peek_first (line : Line) : line.peek 0 = (text line.cells).headD 0 := by
  unfold Buffer.peek text
  cases line.cells with
  | nil => rfl
  | cons c cells =>
      by_cases hc : c = 0
      · simp [hc]
      · simp [hc]

theorem filtered_text (sign : CharSign) (line : Line) :
    text (Session.filtered sign line).cells = filteredText sign (text line.cells) := by
  obtain ⟨rest, hSplit, hRest⟩ := text_split line.cells
  have hFilter := congrArg Prod.fst (telnetdRemoveIac_decode sign (text line.cells) rest).2
  rw [← hSplit] at hFilter
  change text (telnetdRemoveIac sign line.cells (text line.cells).length).1 = _
  rw [hFilter, ← List.append_assoc]
  change text (filteredText sign (text line.cells) ++ rest) = _
  rw [text_append (filteredText_noNul sign (zero_notMem_text line.cells)), hRest, List.append_nil]

theorem typed_data (sign : CharSign) (bytes : List UInt8) (fits : bytes.length ≤ maxCmdLen) :
    typed sign (.data bytes fits) = filteredText sign (text bytes) := by
  rw [typed, lineRead, filtered_text]
  congr 1
  obtain ⟨rest, hSplit, hRest⟩ := text_split bytes
  have hZeros (n : Nat) : text (rest ++ List.replicate n 0) = [] := by
    cases rest with
    | nil => cases n <;> rfl
    | cons c rest =>
        unfold text at hRest ⊢
        rw [List.cons_append, List.takeWhile_cons]
        rw [List.takeWhile_cons] at hRest
        split at hRest
        · cases hRest
        · next hc => rw [if_neg hc]
  change text (bytes ++ List.replicate (maxCmdLen - bytes.length) 0) = _
  conv => lhs; rw [hSplit]
  rw [List.append_assoc, text_append (zero_notMem_text bytes), hZeros, List.append_nil]

section Filter
variable {sign : CharSign}

theorem filteredText_cons {c : UInt8} {s : List UInt8} (hData : sign.value c ≠ iac)
    (hReturn : c = 13 → skipReturn s = s) :
    filteredText sign (c :: s) = c :: filteredText sign s := by
  have hNext : decodeNext sign (c :: s) = some ([c], s) := by
    refine (if_pos hData).trans ?_
    split
    · next hc => rw [hReturn hc]
    · rfl
  rw [filteredText, decode_some hNext]
  rfl

theorem filteredText_first {c : UInt8} (hData : sign.value c ≠ iac) (s : List UInt8) :
    ∃ rest, filteredText sign (c :: s) = c :: rest := by
  have hNext : decodeNext sign (c :: s) = some ([c], if c = 13 then skipReturn s else s) :=
    if_pos hData
  exact ⟨_, by rw [filteredText, decode_some hNext]; rfl⟩

/-- The filter leaves the bytes as they are, whatever it does to the bytes
behind them: each is data and, if it is a carriage return, not followed by a
byte that goes with it. At the end of a read it also leaves a command that is
not whole, and whatever else it shortens to a prefix. -/
inductive Spares (sign : CharSign) : List UInt8 → List UInt8 → Prop where
  | nil (tail : List UInt8) : Spares sign [] tail
  | cons {c : UInt8} {s tail : List UInt8} (hData : sign.value c ≠ iac)
      (hReturn : c = 13 → skipReturn (s ++ tail) = s ++ tail) (hRest : Spares sign s tail) :
      Spares sign (c :: s) tail
  | last {s : List UInt8} (hPrefix : decode sign s <+: s) : Spares sign s []

theorem Spares.filteredText {s tail : List UInt8} (h : Spares sign s tail) :
    filteredText sign (s ++ tail) = s ++ filteredText sign tail := by
  induction h with
  | nil tail => rfl
  | cons hData hReturn hRest ih =>
      rw [List.cons_append, filteredText_cons hData hReturn, ih]
      rfl
  | last hPrefix =>
      obtain ⟨rest, hSplit⟩ := hPrefix
      rw [List.append_nil, filteredText_nil, List.append_nil, TelnetDebug.filteredText]
      conv => lhs; arg 2; arg 2; rw [← hSplit]
      rw [List.drop_left, hSplit]

end Filter

theorem char_fits (c : UInt8) : [c].length ≤ maxCmdLen := Nat.succ_le_succ (Nat.zero_le 255)

namespace Session

/-- Echo the characters and append them to the line. -/
def typeAll (s : Session) (bytes : List UInt8) : Eff Session := do
  let buf ← bytes.foldlM appendChar s.cmdBuf
  return { s.send bytes with cmdBuf := buf }

/-- A character on its own: inserted in mid-line, appended at the end. -/
def typeOne (sign : CharSign) (s : Session) (c : UInt8) : Eff Session := do
  let mid ← s.midLine
  if mid then s.onOther sign (.fill [c] (char_fits c)) else s.typeAll [c]

end Session

theorem typeAll_append (s : Session) (first second : List UInt8) :
    s.typeAll (first ++ second) = s.typeAll first >>= (·.typeAll second) := by
  unfold Session.typeAll
  rw [List.foldlM_append]
  cases first.foldlM Session.appendChar s.cmdBuf with
  | error f => rfl
  | ok buf =>
      simp only [ok_bind]
      change _ = second.foldlM Session.appendChar buf >>= _
      cases second.foldlM Session.appendChar buf with
      | error f => rfl
      | ok buf' => simp [Session.send]

theorem typeOne_end {sign : CharSign} {s : Session} (hEnd : s.mgr.moveLeftNum = 0) (c : UInt8) :
    s.typeOne sign c = s.typeAll [c] := by
  unfold Session.typeOne
  rw [midLine_end hEnd]
  rfl

theorem typeAll_kept {s t : Session} {bytes : List UInt8} (h : s.typeAll bytes = .ok t) :
    t.mgr = s.mgr ∧ t.closed = s.closed := by
  obtain ⟨buf, -, hResult⟩ := bind_eq_ok.mp h
  cases hResult
  exact ⟨rfl, rfl⟩

/-- A part of a stream that no cut divides: a character of the text that is
typed, the end of a read that the filter changes, and the bytes of a key or of
a command, with what is read and lost behind them. -/
inductive Part where
  | char (c : UInt8)
  | tail (bytes : List UInt8)
  | whole (r : ReadResult)

namespace Part

def bytes : Part → List UInt8
  | char c => [c]
  | tail bytes => bytes
  | whole r => r.bytes

def act (sign : CharSign) (s : Session) (p : Part) : Eff Session :=
  if s.closed then return s
  else
    match p with
    | char c => s.typeOne sign c
    | tail bytes => s.typeAll (filteredText sign bytes)
    | whole r => s.step sign r

end Part

/-- The parts one after the other. -/
def actAll (sign : CharSign) (s : Session) (parts : List Part) : Eff Session :=
  run (Part.act sign) s parts

theorem act_closed (sign : CharSign) {s : Session} (h : s.closed = true) (p : Part) :
    p.act sign s = .ok s := by
  unfold Part.act
  rw [if_pos h]
  rfl

theorem actAll_closed (sign : CharSign) {s : Session} (h : s.closed = true)
    (parts : List Part) : actAll sign s parts = .ok s := by
  induction parts with
  | nil => rfl
  | cons p parts ih =>
      rw [actAll, run_cons, act_closed sign h]
      exact ih

theorem act_whole (sign : CharSign) (s : Session) (r : ReadResult) :
    (Part.whole r).act sign s = s.step sign r := by
  cases hOpen : s.closed with
  | true => rw [act_closed sign hOpen, step_closed sign r hOpen]
  | false =>
      unfold Part.act
      rw [hOpen]
      rfl

theorem actAll_append (sign : CharSign) (s : Session) (first second : List Part) :
    actAll sign s (first ++ second) = actAll sign s first >>= (actAll sign · second) :=
  run_append _ _ _ _

theorem typeAll_unsent (bytes : List UInt8) : Unsent (Session.typeAll · bytes) := fun _ _ =>
  Agree.bind_same fun _ _ => .ok ⟨rfl, rfl, rfl, rfl⟩

theorem act_unsent (sign : CharSign) (p : Part) : Unsent (Part.act sign · p) := by
  refine fun s bytes => Agree.ite (fun _ => .ok (sameWork_resend s bytes)) fun _ => ?_
  cases p with
  | char c =>
      exact Agree.bind_same fun _ _ => Agree.ite
        (fun _ => onOther_unsent sign _ s bytes) fun _ => typeAll_unsent [c] s bytes
  | tail tail => exact typeAll_unsent _ s bytes
  | whole r => exact step_unsent sign r s bytes

theorem actAll_same (sign : CharSign) {s t : Session} (h : SameWork s t) (parts : List Part) :
    SameOutcome (actAll sign s parts) (actAll sign t parts) :=
  run_agree (fun _ _ p hSame => (act_unsent sign p).same hSame) h parts

/-- The parts change nothing but what is sent. -/
def Inert (sign : CharSign) (s : Session) (parts : List Part) : Prop :=
  SameOutcome (actAll sign s parts) (.ok s)

/-- A byte that decides what is done when it comes first in a read: the loop
looks at no other byte. -/
def FirstByte (sign : CharSign) (c : UInt8) : Prop :=
  sign.value c = -1 ∨ sign.value c = -3 ∨ c ∈ [0, 8, 9, 12, 13, 0x3f, 0x7f]

instance (sign : CharSign) (c : UInt8) : Decidable (FirstByte sign c) :=
  inferInstanceAs (Decidable (_ ∨ _ ∨ _))

/-- The bytes are a key or an ignored command of which the loop looks at no byte
behind. Ctrl-C has to be all that is read. -/
inductive Decides (sign : CharSign) : List UInt8 → List UInt8 → Prop where
  | first {c : UInt8} (hFirst : FirstByte sign c) (rest behind : List UInt8) :
      Decides sign (c :: rest) behind
  | escape {final : UInt8} (hFinal : final ∈ [0x41, 0x42, 0x43, 0x44]) (behind : List UInt8) :
      Decides sign [0x1b, 0x5b, final] behind
  | ctrlC {behind : List UInt8} (hBehind : text behind = []) : Decides sign [3] behind

/-- One read of a cut: any read, typed text, or a key. Behind a key, and behind
a NUL that ends the text, the read may hold further parts of the stream. -/
inductive Chunk where
  | whole (r : ReadResult)
  | text (chars tail : List UInt8) (behind : List Part)
      (fits : (chars ++ tail ++ behind.flatMap Part.bytes).length ≤ maxCmdLen)
  | key (bytes : List UInt8) (behind : List Part)
      (fits : (bytes ++ behind.flatMap Part.bytes).length ≤ maxCmdLen)

theorem fits_of_append {first second : List UInt8} (h : (first ++ second).length ≤ maxCmdLen) :
    first.length ≤ maxCmdLen :=
  Nat.le_trans (by rw [List.length_append]; exact Nat.le_add_right _ _) h

namespace Chunk

def read : Chunk → ReadResult
  | whole r => r
  | text chars tail behind fits => .data (chars ++ tail ++ behind.flatMap Part.bytes) fits
  | key bytes behind fits => .data (bytes ++ behind.flatMap Part.bytes) fits

def typedParts (chars tail : List UInt8) : List Part :=
  chars.map .char ++ if tail = [] then [] else [.tail tail]

def parts : Chunk → List Part
  | whole r => [.whole r]
  | text chars tail behind _ => typedParts chars tail ++ behind
  | key bytes behind fits => .whole (.data bytes (fits_of_append fits)) :: behind

def step (sign : CharSign) (s : Session) (c : Chunk) : Eff Session := s.step sign c.read

/-- In this state the read is what its kind says. -/
def Fits (sign : CharSign) (s : Session) : Chunk → Prop
  | whole _ => True
  | text chars tail behind fits =>
      Types sign (read (text chars tail behind fits)) ∧ 0 ∉ chars ++ tail ∧
        CBuffer.text (behind.flatMap Part.bytes) = [] ∧ Spares sign chars tail ∧
        (s.mgr.moveLeftNum = 0 ∨ chars.length = 1 ∧ tail = []) ∧
        ∀ t, actAll sign s (typedParts chars tail) = .ok t → Inert sign t behind
  | key bytes behind fits =>
      (bytes ++ behind.flatMap Part.bytes).length < maxCmdLen ∧
        Decides sign bytes (behind.flatMap Part.bytes) ∧
        ∀ t, s.step sign (.data bytes (fits_of_append fits)) = .ok t → Inert sign t behind

end Chunk

/-- A read whose rest is inert does what it does without the rest. -/
theorem inert_behind {sign : CharSign} {x : Eff Session} {behind : List Part}
    (h : ∀ t, x = .ok t → Inert sign t behind) :
    SameOutcome x (x >>= (actAll sign · behind)) := by
  cases x with
  | error f => exact .error f
  | ok t => exact (h t rfl).symm

/-- At the end of the line characters are typed one by one. -/
theorem chars_run {sign : CharSign} {s : Session} (hOpen : s.closed = false)
    (hEnd : s.mgr.moveLeftNum = 0) (chars : List UInt8) :
    actAll sign s (chars.map .char) = s.typeAll chars := by
  induction chars generalizing s with
  | nil => simp [actAll, Session.typeAll, Session.send]; rfl
  | cons c chars ih =>
      have hFirst : (Part.char c).act sign s = s.typeAll [c] := by
        unfold Part.act
        rw [hOpen]
        exact typeOne_end hEnd c
      have hAll : s.typeAll (c :: chars) = s.typeAll [c] >>= (·.typeAll chars) :=
        typeAll_append s [c] chars
      rw [List.map_cons, actAll, run_cons, hFirst, hAll]
      cases hType : s.typeAll [c] with
      | error f => rfl
      | ok t =>
          obtain ⟨hMgr, hClosed⟩ := typeAll_kept hType
          exact ih (hClosed.trans hOpen) (hMgr ▸ hEnd)

theorem typedParts_run {sign : CharSign} {s : Session} (hOpen : s.closed = false)
    (hEnd : s.mgr.moveLeftNum = 0) (chars tail : List UInt8) :
    actAll sign s (Chunk.typedParts chars tail) =
      s.typeAll (chars ++ filteredText sign tail) := by
  rw [Chunk.typedParts, actAll_append, chars_run hOpen hEnd, typeAll_append]
  cases hType : s.typeAll chars with
  | error f => rfl
  | ok t =>
      obtain ⟨hMgr, hClosed⟩ := typeAll_kept hType
      simp only [ok_bind]
      split
      · next hTail =>
        rw [hTail, filteredText_nil]
        simp [actAll, Session.typeAll, Session.send]
        rfl
      · rw [actAll, run_cons, Part.act, hClosed.trans hOpen]
        change t.typeAll _ >>= Except.ok = _
        cases t.typeAll (filteredText sign tail) <;> rfl

theorem typed_text {sign : CharSign} {chars tail behind : List UInt8}
    (fits : (chars ++ tail ++ behind).length ≤ maxCmdLen) (hNoNul : 0 ∉ chars ++ tail)
    (hBehind : text behind = []) (hSpares : Spares sign chars tail) :
    typed sign (.data (chars ++ tail ++ behind) fits) = chars ++ filteredText sign tail := by
  rw [typed_data, text_append hNoNul, hBehind, List.append_nil, hSpares.filteredText]

/-- In mid-line a character is handled by its own value. -/
theorem typeOne_eq {sign : CharSign} {s : Session} {line : Line} {c : UInt8}
    (hTerm : Terminated line.cells) (hLine : text line.cells = [c]) (hFirst : line.peek 0 = c)
    (hReturn : c ≠ 13) : s.onOther sign line = s.typeOne sign c := by
  have hAppend : s.append line = s.typeAll [c] := by
    unfold Session.append
    rw [Buffer.str_eq hTerm, hLine]
    rfl
  unfold Session.typeOne
  cases hMid : s.midLine with
  | error f =>
      unfold Session.onOther
      rw [hMid]
      rfl
  | ok mid =>
      cases mid with
      | false => rw [onOther_append hMid (hFirst ▸ hReturn), hAppend]; rfl
      | true => exact onOther_first hFirst (.inr (by rw [hMid]; simp))

theorem text_step {sign : CharSign} {s : Session} {chars tail behind : List UInt8}
    (fits : (chars ++ tail ++ behind).length ≤ maxCmdLen)
    (hTypes : Types sign (.data (chars ++ tail ++ behind) fits)) (hNoNul : 0 ∉ chars ++ tail)
    (hBehind : text behind = []) (hSpares : Spares sign chars tail)
    (hPlace : s.mgr.moveLeftNum = 0 ∨ chars.length = 1 ∧ tail = []) :
    s.step sign (.data (chars ++ tail ++ behind) fits) =
      actAll sign s (Chunk.typedParts chars tail) := by
  cases hOpen : s.closed with
  | true => rw [step_closed sign _ hOpen, actAll_closed sign hOpen]
  | false =>
      have hTyped := typed_text fits hNoNul hBehind hSpares
      by_cases hEnd : s.mgr.moveLeftNum = 0
      · rw [hTypes.step hOpen hEnd, typedParts_run hOpen hEnd, hTyped]
        rfl
      · obtain ⟨hOne, rfl⟩ := hPlace.resolve_left hEnd
        obtain ⟨c, rfl⟩ := List.length_eq_one_iff.mp hOne
        have hLine : typed sign (.data ([c] ++ [] ++ behind) fits) = [c] :=
          hTyped.trans (by rw [filteredText_nil]; rfl)
        have hFirst : (lineRead sign (.data ([c] ++ [] ++ behind) fits)).peek 0 = c := by
          rw [peek_first]
          exact congrArg (·.headD 0) hLine
        rw [step_key hOpen hTypes.line hTypes.key]
        have hOther : s.onOther sign (lineRead sign (.data ([c] ++ [] ++ behind) fits)) =
            s.typeOne sign c :=
          typeOne_eq (filtered_spec sign hTypes.line).1 hLine hFirst (hFirst ▸ hTypes.first)
        change s.onOther sign _ = run (Part.act sign) s [.char c]
        rw [run_cons, Part.act, hOpen]
        change _ = s.typeOne sign c >>= Except.ok
        rw [← hOther]
        exact (bind_pure _).symm

section Keys
variable {sign : CharSign} {s : Session} {line line' : Line} {c : UInt8}

theorem peek_text {line : Line} {i : Nat} (h : i < (text line.cells).length) :
    line.peek i = (text line.cells).getD i 0 := by
  obtain ⟨rest, hSplit, -⟩ := text_split line.cells
  rw [Buffer.peek, ← List.getD_append _ rest _ _ h, ← hSplit]

/-- Neither `IAC` nor one of the bytes that more bytes are looked at for. -/
theorem FirstByte.data (h : FirstByte sign c) : sign.value c ≠ iac ∧ c ≠ 3 ∧ c ≠ 0x1b := by
  have hThree : sign.value 3 = 3 := sign.value_of_lt (c := 3) (by decide)
  have hEscape : sign.value 0x1b = 27 := sign.value_of_lt (c := 0x1b) (by decide)
  rcases h with hValue | hValue | hMem
  · refine ⟨by rw [hValue]; decide, ?_, ?_⟩
    · rintro rfl
      omega
    · rintro rfl
      omega
  · refine ⟨by rw [hValue]; decide, ?_, ?_⟩
    · rintro rfl
      omega
    · rintro rfl
      omega
  · have hSmall : ∀ d ∈ ([0, 8, 9, 12, 13, 0x3f, 0x7f] : List UInt8),
        d.toNat < 128 ∧ d ≠ 3 ∧ d ≠ 0x1b := by decide +kernel
    obtain ⟨hLt, hNot⟩ := hSmall c hMem
    refine ⟨?_, hNot⟩
    rw [sign.value_of_lt hLt, iac]
    omega

theorem not_ctrlC (h : line.peek 0 ≠ 3) : line.streq [3] = false := by
  rw [Bool.eq_false_iff, ne_eq, Buffer.streq_iff (by decide)]
  rintro ⟨-, hText⟩
  rw [peek_first, hText] at h
  exact h rfl

/-- The key of a line is decided by such a byte, and it is text for Enter and for
a NUL only. -/
theorem FirstByte.key (h : FirstByte sign c) (hFirst : line.peek 0 = c)
    (hFirst' : line'.peek 0 = c) : keyOf sign line = keyOf sign line' := by
  refine keyOf_congr (hFirst.trans hFirst'.symm) ?_ fun final _ => ?_
  · rw [not_ctrlC (hFirst ▸ h.data.2.1), not_ctrlC (hFirst' ▸ h.data.2.1)]
  · simp [isEscape, hFirst, hFirst', h.data.2.2]

theorem FirstByte.other (h : FirstByte sign c) (hFirst : line.peek 0 = c)
    (hKey : keyOf sign line = .other) : c = 0 ∨ c = 13 := by
  have hCtrlC := not_ctrlC (hFirst ▸ h.data.2.1)
  have hEscape := h.data.2.2
  unfold keyOf at hKey
  simp only [hFirst, hCtrlC, isEscape, hEscape] at hKey
  rcases h with hValue | hValue | hMem
  · simp [hValue] at hKey
  · simp [hValue] at hKey
  · simp only [List.mem_cons, List.not_mem_nil, or_false] at hMem
    rcases hMem with rfl | rfl | rfl | rfl | rfl | rfl | rfl
    all_goals simp_all
    all_goals split at hKey <;> cases hKey

theorem FirstByte.dispatch (h : FirstByte sign c) (hTerm : Terminated line.cells)
    (hTerm' : Terminated line'.cells) (hFirst : line.peek 0 = c) (hFirst' : line'.peek 0 = c) :
    s.dispatch sign line = s.dispatch sign line' := by
  unfold Session.dispatch
  rw [h.key hFirst hFirst']
  by_cases hKey : keyOf sign line' = .other
  · rw [hKey]
    change s.onOther sign line = s.onOther sign line'
    by_cases hLook : line'.peek 0 = 13 ∨ s.midLine ≠ .ok false
    · exact onOther_first (hFirst.trans hFirst'.symm) hLook
    · obtain ⟨hReturn, hMid⟩ := not_or.mp hLook
      rw [hFirst'] at hReturn
      obtain rfl : c = 0 := (h.other hFirst' hKey).resolve_right hReturn
      have hEmpty {line : Line} (hZero : line.peek 0 = 0) : text line.cells = [] := by
        rw [peek_first] at hZero
        cases hText : text line.cells with
        | nil => rfl
        | cons d rest =>
            have hNoNul := zero_notMem_text line.cells
            rw [hText] at hZero hNoNul
            exact absurd (List.mem_cons.mpr (.inl (Eq.symm hZero))) hNoNul
      rw [onOther_append (not_not.mp hMid) (hFirst ▸ hReturn),
        onOther_append (not_not.mp hMid) (hFirst' ▸ hReturn)]
      unfold Session.append
      rw [Buffer.str_eq hTerm, Buffer.str_eq hTerm', hEmpty hFirst, hEmpty hFirst']
  · exact onKey_line hKey

theorem escape_key {final : UInt8} (hFinal : final ∈ [0x41, 0x42, 0x43, 0x44])
    (hPrefix : [0x1b, 0x5b, final] <+: text line.cells)
    (hPrefix' : [0x1b, 0x5b, final] <+: text line'.cells) :
    keyOf sign line = keyOf sign line' ∧ keyOf sign line ≠ .other := by
  have hPeek {line : Line} (h : [0x1b, 0x5b, final] <+: text line.cells) :
      line.peek 0 = 0x1b ∧ line.peek 1 = 0x5b ∧ line.peek 2 = final := by
    obtain ⟨rest, hText⟩ := h
    refine ⟨?_, ?_, ?_⟩
    all_goals rw [peek_text (by rw [← hText]; simp), ← hText]; rfl
  obtain ⟨hEsc, hBracket, hThird⟩ := hPeek hPrefix
  obtain ⟨hEsc', hBracket', hThird'⟩ := hPeek hPrefix'
  have hCtrlC : line.streq [3] = false := not_ctrlC (by rw [hEsc]; decide)
  have hCtrlC' : line'.streq [3] = false := not_ctrlC (by rw [hEsc']; decide)
  constructor
  · refine keyOf_congr (hEsc.trans hEsc'.symm) (hCtrlC.trans hCtrlC'.symm) fun _ _ => ?_
    simp only [isEscape, hEsc, hEsc', hBracket, hBracket', hThird, hThird']
  · have hValue : sign.value 0x1b = 27 := sign.value_of_lt (c := 0x1b) (by decide)
    simp only [List.mem_cons, List.not_mem_nil, or_false] at hFinal
    rcases hFinal with rfl | rfl | rfl | rfl
    all_goals simp [keyOf, isEscape, hEsc, hBracket, hThird, hCtrlC, hValue]

theorem key_dispatch (hKey : keyOf sign line = keyOf sign line')
    (hOther : keyOf sign line ≠ .other) : s.dispatch sign line = s.dispatch sign line' := by
  unfold Session.dispatch
  rw [← hKey]
  exact onKey_line hOther

theorem ctrlC_key (sign : CharSign) (hTerm : Terminated line.cells)
    (hText : text line.cells = [3]) : keyOf sign line = .ctrlC := by
  have hValue : sign.value 3 = 3 := sign.value_of_lt (c := 3) (by decide)
  have hFirst : line.peek 0 = 3 := by
    rw [peek_first, hText]
    rfl
  have hCtrlC : line.streq [3] = true := (Buffer.streq_iff (by decide)).mpr ⟨hTerm, hText⟩
  simp [keyOf, hFirst, hValue, hCtrlC]

theorem first_peek (h : FirstByte sign c) (rest : List UInt8)
    (fits : (c :: rest).length ≤ maxCmdLen) :
    (lineRead sign (.data (c :: rest) fits)).peek 0 = c := by
  rw [peek_first]
  change (typed sign _).headD 0 = c
  rw [typed_data]
  by_cases hc : c = 0
  · have hText : text (c :: rest) = [] := by simp [text, hc]
    rw [hText, filteredText_nil, hc]
    rfl
  · have hText : text (c :: rest) = c :: text rest := by simp [text, hc]
    obtain ⟨more, hMore⟩ := filteredText_first h.data.1 (text rest)
    rw [hText, hMore]
    rfl

theorem escape_typed {final : UInt8} (hFinal : final ∈ [0x41, 0x42, 0x43, 0x44])
    (behind : List UInt8) (fits : ([0x1b, 0x5b, final] ++ behind).length ≤ maxCmdLen) :
    [0x1b, 0x5b, final] <+: typed sign (.data ([0x1b, 0x5b, final] ++ behind) fits) := by
  have hSmall : ∀ d ∈ ([0x41, 0x42, 0x43, 0x44] : List UInt8), d.toNat < 128 ∧ d ≠ 0 ∧ d ≠ 13 := by
    decide +kernel
  obtain ⟨hLt, hNul, hReturn⟩ := hSmall final hFinal
  have hData {d : UInt8} (hd : d.toNat < 128) : sign.value d ≠ iac := by
    rw [sign.value_of_lt hd, iac]
    omega
  have hSpares : Spares sign [0x1b, 0x5b, final] (text behind) :=
    .cons (hData (by decide)) (fun hc => absurd hc (by decide))
      (.cons (hData (by decide)) (fun hc => absurd hc (by decide))
        (.cons (hData hLt) (fun hc => absurd hc hReturn) (.nil _)))
  rw [typed_data, text_append (by simpa using fun hc => hNul hc.symm), hSpares.filteredText]
  exact List.prefix_append _ _

theorem ctrlC_typed {behind : List UInt8} (hBehind : text behind = [])
    (fits : ([3] ++ behind).length ≤ maxCmdLen) :
    typed sign (.data ([3] ++ behind) fits) = [3] := by
  have hSpares : Spares sign [3] [] :=
    .cons (by rw [sign.value_of_lt (by decide)]; decide) (fun hc => absurd hc (by decide)) (.nil [])
  rw [typed_data, text_append (by decide), hBehind]
  exact hSpares.filteredText.trans (by rw [filteredText_nil]; rfl)

theorem decides_dispatch {bytes behind : List UInt8} (h : Decides sign bytes behind)
    (fits : (bytes ++ behind).length ≤ maxCmdLen) (fits' : bytes.length ≤ maxCmdLen)
    (hLine : Terminated (lineRead sign (.data (bytes ++ behind) fits)).cells)
    (hLine' : Terminated (lineRead sign (.data bytes fits')).cells) :
    s.dispatch sign (lineRead sign (.data (bytes ++ behind) fits)) =
      s.dispatch sign (lineRead sign (.data bytes fits')) := by
  cases h with
  | first hFirst rest behind =>
      exact hFirst.dispatch hLine hLine' (first_peek hFirst (rest ++ behind) fits)
        (first_peek hFirst rest fits')
  | escape hFinal behind =>
      obtain ⟨hKey, hOther⟩ := escape_key hFinal (escape_typed hFinal behind fits)
        (escape_typed hFinal [] fits')
      exact key_dispatch hKey hOther
  | ctrlC hBehind =>
      have hKey := ctrlC_key sign hLine (ctrlC_typed hBehind fits)
      have hKey' := ctrlC_key sign hLine' (ctrlC_typed (show text [] = [] from rfl) fits')
      exact key_dispatch (hKey.trans hKey'.symm) (by rw [hKey]; decide)

/-- What follows a key in the same read does not change what the key does. -/
theorem decides_step {bytes behind : List UInt8} (h : Decides sign bytes behind)
    (hShort : (bytes ++ behind).length < maxCmdLen) :
    s.step sign (.data (bytes ++ behind) (Nat.le_of_lt hShort)) =
      s.step sign (.data bytes (fits_of_append (Nat.le_of_lt hShort))) := by
  have hLess : bytes.length < maxCmdLen :=
    Nat.lt_of_le_of_lt (by rw [List.length_append]; exact Nat.le_add_right _ _) hShort
  have hTerm : Terminated (ReadResult.data _ (Nat.le_of_lt hShort)).cmdLine.cells :=
    terminated_fill hShort
  have hTerm' : Terminated (ReadResult.data _ (Nat.le_of_lt hLess)).cmdLine.cells :=
    terminated_fill hLess
  cases hOpen : s.closed with
  | true => rw [step_closed sign _ hOpen, step_closed sign _ hOpen]
  | false =>
      rw [step_open sign _ hOpen, step_open sign _ hOpen, Buffer.strlen_eq hTerm,
        Buffer.strlen_eq hTerm']
      exact decides_dispatch h _ _ (filtered_spec sign hTerm).1 (filtered_spec sign hTerm').1

end Keys

/-- One read does the work of its parts one after the other. -/
theorem chunk_run {sign : CharSign} {s : Session} {c : Chunk} (h : c.Fits sign s) :
    SameOutcome (s.step sign c.read) (actAll sign s c.parts) := by
  cases c with
  | whole r =>
      change SameOutcome (s.step sign r) ((Part.whole r).act sign s >>= Except.ok)
      rw [act_whole]
      exact (congrArg (SameOutcome _) (bind_pure _)).mpr (SameOutcome.refl _)
  | text chars tail behind fits =>
      obtain ⟨hTypes, hNoNul, hBehind, hSpares, hPlace, hInert⟩ := h
      rw [Chunk.parts, actAll_append, Chunk.read,
        text_step fits hTypes hNoNul hBehind hSpares hPlace]
      exact inert_behind hInert
  | key bytes behind fits =>
      obtain ⟨hShort, hDecides, hInert⟩ := h
      change SameOutcome (s.step sign (.data (bytes ++ _) fits))
        ((Part.whole _).act sign s >>= (actAll sign · behind))
      rw [act_whole, decides_step hDecides hShort]
      exact inert_behind hInert

/-- A session does the work of the parts of its reads, whatever was sent
between them. -/
theorem cut_run {sign : CharSign} {s : Session} {cut : List Chunk}
    (h : Meets (Chunk.step sign) (Chunk.Fits sign) s cut) :
    SameOutcome (shellThreadFunc sign s (cut.map Chunk.read))
      (actAll sign s (cut.flatMap Chunk.parts)) := by
  induction cut generalizing s with
  | nil => exact SameOutcome.refl _
  | cons c cut ih =>
      rw [List.flatMap_cons, actAll_append, List.map_cons, shellThreadFunc, run_cons]
      refine Agree.bind (chunk_run h.1) fun t u hStep hSame => ?_
      exact (ih (h.2 t hStep)).trans (actAll_same sign hSame _)

theorem typedParts_bytes (chars tail : List UInt8) :
    (Chunk.typedParts chars tail).flatMap Part.bytes = chars ++ tail := by
  have hChars : (chars.map Part.char).flatMap Part.bytes = chars := by
    rw [List.flatMap_map]
    exact List.flatMap_singleton' chars
  rw [Chunk.typedParts, List.flatMap_append, hChars]
  split
  · next hTail => rw [hTail]; rfl
  · exact congrArg (chars ++ ·) (List.append_nil tail)

theorem parts_bytes (c : Chunk) : c.parts.flatMap Part.bytes = c.read.bytes := by
  cases c with
  | whole r => exact List.append_nil _
  | text chars tail behind fits =>
      rw [Chunk.parts, List.flatMap_append, typedParts_bytes]
      rfl
  | key bytes behind fits => rfl

theorem parts_stream (cut : List Chunk) :
    stream (cut.map Chunk.read) = (cut.flatMap Chunk.parts).flatMap Part.bytes := by
  rw [stream, List.map_map, List.flatMap_assoc]
  exact congrArg List.flatten (List.map_congr_left fun c _ => (parts_bytes c).symm)

section Inert
variable {sign : CharSign} {s : Session}

theorem inert_nil : Inert sign s [] := .ok (SameWork.refl s)

theorem inert_cons {p : Part} {parts : List Part} (hFirst : Inert sign s [p])
    (hRest : Inert sign s parts) : Inert sign s (p :: parts) := by
  have hAct : SameOutcome (p.act sign s) (.ok s) :=
    (congrArg (SameOutcome · _) (bind_pure _)).mp hFirst
  have hAll : SameOutcome (p.act sign s >>= (actAll sign · parts))
      (Except.ok s >>= (actAll sign · parts)) :=
    Agree.bind hAct fun _ _ _ hSame => actAll_same sign hSame parts
  exact hAll.trans hRest

/-- A read that is answered and no more is inert in every state. -/
theorem answered_inert {r : ReadResult} (hTerm : Terminated r.cmdLine.cells)
    (hKey : keyRead sign r ∈ [.clearIac, .help, .tab]) : Inert sign s [.whole r] := by
  cases hOpen : s.closed with
  | true =>
      rw [Inert, actAll_closed sign hOpen]
      exact .ok (SameWork.refl s)
  | false =>
      change SameOutcome ((Part.whole r).act sign s >>= Except.ok) _
      rw [act_whole, step_key hOpen hTerm rfl]
      simp only [List.mem_cons, List.not_mem_nil, or_false] at hKey
      rcases hKey with hKey | hKey | hKey <;> rw [hKey]
      · exact .ok (SameWork.refl s)
      · exact .ok ⟨rfl, rfl, rfl, rfl⟩
      · exact .ok ⟨rfl, rfl, rfl, rfl⟩

/-- The NUL that goes with a carriage return, read on its own at the end of the
line. -/
theorem pad_inert (hEnd : s.mgr.moveLeftNum = 0) :
    Inert sign s [.whole (.data [0] (char_fits 0))] := by
  cases hOpen : s.closed with
  | true =>
      rw [Inert, actAll_closed sign hOpen]
      exact .ok (SameWork.refl s)
  | false =>
      have hTypes : Types sign (.data [0] (char_fits 0)) := by cases sign <;> decide +kernel
      have hTyped : typed sign (.data [0] (char_fits 0)) = [] := by
        rw [typed_data]
        exact filteredText_nil sign
      change SameOutcome ((Part.whole _).act sign s >>= Except.ok) _
      rw [act_whole, hTypes.step hOpen hEnd, hTyped]
      exact .ok ⟨rfl, rfl, rfl, rfl⟩

theorem enter_step (hOpen : s.closed = false) :
    s.step sign (.data [13] (char_fits 13)) = s.midLine >>= fun _ => s.onEnter := by
  have hTerm : Terminated (ReadResult.data [13] (char_fits 13)).cmdLine.cells :=
    terminated_fill (s := [13]) (by decide)
  have hKey : keyRead sign (.data [13] (char_fits 13)) = .other := by
    cases sign <;> decide +kernel
  have hFirst : (lineRead sign (.data [13] (char_fits 13))).peek 0 = 13 :=
    first_peek (.inr (.inr (by decide))) [] _
  have hValue : sign.value 13 = 13 := sign.value_of_lt (c := 13) (by decide)
  rw [step_key hOpen hTerm hKey]
  change s.onOther sign _ = _
  unfold Session.onOther
  dsimp only
  rw [hFirst, hValue]
  congr 1
  funext mid
  rw [if_neg (fun h => absurd h.2.1 (by decide)), if_pos rfl]

/-- A carriage return and the NUL behind it do not have to be read together. -/
theorem enter_inert {t : Session} (h : s.step sign (.data [13] (char_fits 13)) = .ok t) :
    Inert sign t [.whole (.data [0] (char_fits 0))] := by
  cases hOpen : s.closed with
  | true =>
      rw [step_closed sign _ hOpen] at h
      cases h
      rw [Inert, actAll_closed sign hOpen]
      exact .ok (SameWork.refl s)
  | false =>
      rw [enter_step hOpen] at h
      obtain ⟨mid, -, hEnter⟩ := bind_eq_ok.mp h
      by_cases hTerm : Terminated s.cmdBuf.cells
      · obtain ⟨u, hSpec, hCases⟩ := onEnter_cases hTerm
        rw [hSpec] at hEnter
        cases hEnter
        exact pad_inert hCases.cursor
      · rw [onEnter_error hTerm] at hEnter
        cases hEnter

end Inert

/-- Text that is plain is left as it is. -/
theorem spares_plain {sign : CharSign} {chars : List UInt8} (tail : List UInt8)
    (h : ∀ c ∈ chars, sign.value c ≠ iac ∧ c ≠ 13) : Spares sign chars tail := by
  induction chars with
  | nil => exact .nil tail
  | cons c chars ih =>
      obtain ⟨hData, hReturn⟩ := h c List.mem_cons_self
      exact .cons hData (fun hc => absurd hc hReturn)
        (ih fun d hd => h d (List.mem_cons_of_mem c hd))

/-- Where the cursor stays at the end of the line, the reads may be looked at
one by one. -/
theorem fits_at_end {sign : CharSign} {s : Session} {cut : List Chunk}
    (hEnd : Meets (Chunk.step sign) (fun s _ => s.mgr.moveLeftNum = 0) s cut)
    (hFits : ∀ c ∈ cut, ∀ s : Session, s.mgr.moveLeftNum = 0 → c.Fits sign s) :
    Meets (Chunk.step sign) (Chunk.Fits sign) s cut :=
  hEnd.mono hFits

/-- Text in one read at the end of the line. -/
theorem text_fits {sign : CharSign} {s : Session} {chars : List UInt8}
    (fits : (chars ++ [] ++ [].flatMap Part.bytes).length ≤ maxCmdLen)
    (hTypes : Types sign (.data (chars ++ [] ++ [].flatMap Part.bytes) fits)) (hNoNul : 0 ∉ chars)
    (hPlain : ∀ c ∈ chars, sign.value c ≠ iac ∧ c ≠ 13) (hEnd : s.mgr.moveLeftNum = 0) :
    (Chunk.text chars [] [] fits).Fits sign s :=
  ⟨hTypes, by simpa using hNoNul, rfl, spares_plain [] hPlain, .inl hEnd, fun _ _ => inert_nil⟩

/-- Two cuts of a stream into the same parts: the sessions have executed the
same lines, and they have the same history, the same line and the same cursor. -/
theorem cut_independent (sign : CharSign) (first second : List Chunk)
    (hFirst : Meets (Chunk.step sign) (Chunk.Fits sign) .init first)
    (hSecond : Meets (Chunk.step sign) (Chunk.Fits sign) .init second)
    (hParts : first.flatMap Chunk.parts = second.flatMap Chunk.parts) :
    stream (first.map Chunk.read) = stream (second.map Chunk.read) ∧
      SameOutcome (shellThreadFunc sign .init (first.map Chunk.read))
        (shellThreadFunc sign .init (second.map Chunk.read)) := by
  refine ⟨by rw [parts_stream, parts_stream, hParts], (cut_run hFirst).trans ?_⟩
  rw [hParts]
  exact (cut_run hSecond).symm

/-- The options of a client, a line, Enter with its NUL and two question marks,
each in one read and each in several. -/
theorem cut_independent_command :
    SameOutcome
      (shellThreadFunc .signed .init
        [.data [0xff, 0xfb, 1, 0xff, 0xfb, 0x1f, 0xff, 0xfb, 0x18] (by decide),
          .data [0x61, 0x62] (by decide), .data [13, 0] (by decide),
          .data [0x3f, 0x3f] (by decide)])
      (shellThreadFunc .signed .init
        [.data [0xff, 0xfb, 1] (by decide), .data [0xff, 0xfb, 0x1f] (by decide),
          .data [0xff, 0xfb, 0x18] (by decide), .data [0x61] (by decide), .data [0x62] (by decide),
          .data [13] (by decide), .data [0] (by decide), .data [0x3f] (by decide),
          .data [0x3f] (by decide)]) := by
  refine (cut_independent .signed
    [.key [0xff, 0xfb, 1] [.whole (.data [0xff, 0xfb, 0x1f] (by decide)),
        .whole (.data [0xff, 0xfb, 0x18] (by decide))] (by decide),
      .text [0x61, 0x62] [] [] (by decide),
      .key [13] [.whole (.data [0] (char_fits 0))] (by decide),
      .key [0x3f] [.whole (.data [0x3f] (by decide))] (by decide)]
    [.whole (.data [0xff, 0xfb, 1] (by decide)), .whole (.data [0xff, 0xfb, 0x1f] (by decide)),
      .whole (.data [0xff, 0xfb, 0x18] (by decide)), .text [0x61] [] [] (by decide),
      .text [0x62] [] [] (by decide),
      .whole (.data [13] (char_fits 13)), .whole (.data [0] (char_fits 0)),
      .whole (.data [0x3f] (by decide)), .whole (.data [0x3f] (by decide))] ?_ ?_ rfl).2
  · refine fits_at_end (by decide +kernel) ?_
    simp only [List.forall_mem_cons]
    refine ⟨fun s _ => ?_, fun s hEnd => ?_, fun s _ => ?_, fun s _ => ?_, by simp⟩
    · refine ⟨by decide, .first (.inl (by decide)) [0xfb, 1] _, fun t _ => inert_cons ?_ ?_⟩
      · exact answered_inert (terminated_fill (s := [0xff, 0xfb, 0x1f]) (by decide))
          (by decide +kernel)
      · exact answered_inert (terminated_fill (s := [0xff, 0xfb, 0x18]) (by decide))
          (by decide +kernel)
    · exact text_fits _ (by decide +kernel) (by decide) (by decide +kernel) hEnd
    · exact ⟨by decide, .first (.inr (.inr (by decide))) [] _, fun t => enter_inert⟩
    · exact ⟨by decide, .first (.inr (.inr (by decide))) [] _, fun t _ =>
        answered_inert (terminated_fill (s := [0x3f]) (by decide)) (by decide +kernel)⟩
  · refine fits_at_end (by decide +kernel) ?_
    simp only [List.forall_mem_cons]
    refine ⟨fun _ _ => trivial, fun _ _ => trivial, fun _ _ => trivial, fun s hEnd => ?_,
      fun s hEnd => ?_, fun _ _ => trivial, fun _ _ => trivial, fun _ _ => trivial,
      fun _ _ => trivial, by simp⟩
    · exact text_fits _ (by decide +kernel) (by decide) (by decide +kernel) hEnd
    · exact text_fits _ (by decide +kernel) (by decide) (by decide +kernel) hEnd

/-- The cut decides: Enter behind a character is typed, an escape sequence cut
in two is typed as well, of text in mid-line the first character of every read
is inserted, the line feed behind Enter is lost, and a command in one read with
text is not removed as it is from a read of its own. -/
theorem cut_dependent :
    (∃ s t, shellThreadFunc .signed .init [.data (ascii "a\x0d") (by decide)] = .ok s ∧
      shellThreadFunc .signed .init
        [.data (ascii "a") (by decide), .data (ascii "\x0d") (by decide)] = .ok t ∧
      s.executed = [] ∧ t.executed = [ascii "a"]) ∧
    (∃ s t, shellThreadFunc .signed .init
        [.data (ascii "a") (by decide), .data (ascii "\x1b[D") (by decide)] = .ok s ∧
      shellThreadFunc .signed .init [.data (ascii "a") (by decide),
        .data (ascii "\x1b") (by decide), .data (ascii "[D") (by decide)] = .ok t ∧
      s.mgr.moveLeftNum = 1 ∧ t.mgr.moveLeftNum = 0) ∧
    (∃ s t, shellThreadFunc .signed .init [.data (ascii "a") (by decide),
        .data (ascii "\x1b[D") (by decide), .data (ascii "xy") (by decide)] = .ok s ∧
      shellThreadFunc .signed .init [.data (ascii "a") (by decide),
        .data (ascii "\x1b[D") (by decide), .data (ascii "x") (by decide),
        .data (ascii "y") (by decide)] = .ok t ∧
      text s.cmdBuf.cells = ascii "xa" ∧ text t.cmdBuf.cells = ascii "xya") ∧
    (∃ s t, shellThreadFunc .signed .init [.data [13, 10] (by decide)] = .ok s ∧
      shellThreadFunc .signed .init [.data [13] (by decide), .data [10] (by decide)] = .ok t ∧
      text s.cmdBuf.cells = [] ∧ text t.cmdBuf.cells = [10]) ∧
    ∃ s t, shellThreadFunc .signed .init [.data [0x61, 0xff, 0xf1] (by decide)] = .ok s ∧
      shellThreadFunc .signed .init
        [.data [0x61] (by decide), .data [0xff, 0xf1] (by decide)] = .ok t ∧
      text s.cmdBuf.cells = [0x61, 0xff, 0xf1] ∧ text t.cmdBuf.cells = [0x61] := by
  exact ⟨Sat.both_return (by decide +kernel) (by decide +kernel),
    Sat.both_return (by decide +kernel) (by decide +kernel),
    Sat.both_return (by decide +kernel) (by decide +kernel),
    Sat.both_return (by decide +kernel) (by decide +kernel),
    Sat.both_return (by decide +kernel) (by decide +kernel)⟩

end TelnetDebug

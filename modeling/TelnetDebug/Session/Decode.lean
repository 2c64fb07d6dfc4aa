import TelnetDebug.Session.Iac

/-! The filter of telnet commands as a decoder. The loop that compacts its own
buffer computes a function of the bytes it was given: what is still unread has
not been touched, because the write offset never passes the read offset. -/
namespace TelnetDebug

open CBuffer

/-- The bytes left to read behind a carriage return that was kept. -/
def skipReturn : List UInt8 → List UInt8
  | [] => []
  | d :: rest => if d = 10 ∨ d = 0 then rest else d :: rest

/-- What one round keeps of the unread bytes, and the bytes it leaves unread.
No value stands for the end: nothing is unread, or a command is incomplete. -/
def decodeNext (sign : CharSign) : List UInt8 → Option (List UInt8 × List UInt8)
  | [] => none
  | c :: rest =>
      if sign.value c ≠ iac then some ([c], if c = 13 then skipReturn rest else rest)
      else
        match rest with
        | [] => none
        | cmd :: rest =>
            if sign.value cmd = nop then some ([], rest)
            else if sign.value cmd = iac then some ([cmd], rest)
            else
              match rest with
              | [] => none
              | option :: rest =>
                  if sign.value cmd = sb ∧ sign.value option = teloptNaws then
                    if rest.length < 6 then none else some ([], rest.drop 6)
                  else some ([], rest)

theorem skipReturn_length (rest : List UInt8) : (skipReturn rest).length ≤ rest.length := by
  cases rest with
  | nil => rfl
  | cons d rest =>
      rw [skipReturn]
      split <;> simp

/-- Every round reads a byte. -/
theorem decodeNext_length {sign : CharSign} {s kept rest : List UInt8}
    (h : decodeNext sign s = some (kept, rest)) : rest.length < s.length := by
  unfold decodeNext at h
  split at h
  · cases h
  · next c s =>
    have hSkip := skipReturn_length s
    split at h
    · cases h
      rw [List.length_cons]
      split <;> omega
    · split at h
      · cases h
      · split_ifs at h
        · cases h
          simp only [List.length_cons]
          omega
        · cases h
          simp only [List.length_cons]
          omega
        · split at h
          · cases h
          · split_ifs at h
            · cases h
              simp only [List.length_cons, List.length_drop]
              omega
            · cases h
              simp only [List.length_cons]
              omega

/-- The bytes the filter keeps. -/
def decode (sign : CharSign) (s : List UInt8) : List UInt8 :=
  match _h : decodeNext sign s with
  | none => []
  | some (kept, rest) => kept ++ decode sign rest
termination_by s.length
decreasing_by exact decodeNext_length _h

theorem decode_none {sign : CharSign} {s : List UInt8} (h : decodeNext sign s = none) :
    decode sign s = [] := by
  rw [decode]
  split
  · rfl
  · next kept rest hSome => rw [h] at hSome; cases hSome

theorem decode_some {sign : CharSign} {s kept rest : List UInt8}
    (h : decodeNext sign s = some (kept, rest)) : decode sign s = kept ++ decode sign rest := by
  rw [decode]
  split
  · next hNone => rw [h] at hNone; cases hNone
  · next kept' rest' hSome =>
    rw [h] at hSome
    cases hSome
    rfl

namespace IacScan

/-- The bytes kept stand at the front of the buffer, and the bytes not read yet
stand where they were. -/
structure Reads (stop : Nat) (done unread tail : List UInt8) (f : IacScan) : Prop where
  split : ∃ gap, f.buf = done ++ gap ++ (unread ++ tail) ∧ f.ptr = (done ++ gap).length
  totty : f.totty = done.length
  stop : stop = f.ptr + unread.length

section Reading
variable {sign : CharSign} {stop : Nat} {done unread tail : List UInt8} {f : IacScan}

theorem Reads.look (h : Reads stop done unread tail f) {i : Nat} (hIndex : i < unread.length) :
    f.look i = unread[i] := by
  obtain ⟨gap, hBuf, hPtr⟩ := h.split
  rw [IacScan.look, hBuf, hPtr, List.getD_eq_getElem?_getD, List.getElem?_append_right (by omega),
    Nat.add_sub_cancel_left, List.getElem?_append_left hIndex, List.getElem?_eq_getElem hIndex]
  rfl

theorem Reads.skip (passed : List UInt8) (h : Reads stop done (passed ++ unread) tail f) :
    Reads stop done unread tail (f.skip passed.length) := by
  obtain ⟨gap, hBuf, hPtr⟩ := h.split
  have hStop := h.stop
  rw [List.length_append] at hStop
  refine ⟨⟨gap ++ passed, ?_, ?_⟩, h.totty, ?_⟩
  · simp only [IacScan.skip, hBuf, List.append_assoc]
  · simp only [IacScan.skip, hPtr, List.length_append]
    omega
  · simp only [IacScan.skip]
    omega

/-- A byte is written into a cell that has been read. -/
theorem Reads.put {d : UInt8} (passed : List UInt8) (c : UInt8)
    (h : Reads stop done (d :: passed ++ unread) tail f) :
    Reads stop (done ++ [c]) unread tail ((f.put c).skip (d :: passed).length) := by
  obtain ⟨gap, hBuf, hPtr⟩ := h.split
  obtain ⟨old, mid, hMid⟩ := List.exists_cons_of_ne_nil
    (List.append_ne_nil_of_right_ne_nil gap (List.cons_ne_nil d passed))
  have hStop := h.stop
  have hLength := congrArg List.length hMid
  simp only [List.length_append, List.length_cons] at hStop hLength hPtr
  refine ⟨⟨mid, ?_, ?_⟩, ?_, ?_⟩
  · have hSplit : f.buf = done ++ old :: (mid ++ (unread ++ tail)) := by
      rw [hBuf, ← List.cons_append, ← hMid]
      simp only [List.append_assoc]
    simp only [IacScan.put, IacScan.skip, hSplit, h.totty]
    simp
  · simp only [IacScan.put, IacScan.skip, hPtr, List.length_append, List.length_cons,
      List.length_nil]
    omega
  · simp only [IacScan.put, IacScan.skip, h.totty, List.length_append, List.length_singleton]
  · simp only [IacScan.put, IacScan.skip, List.length_cons]
    omega

theorem Reads.step_data {c : UInt8} (h : Reads stop done (c :: unread) tail f)
    (hData : sign.value c ≠ iac) :
    ∃ g, f.step sign stop = some g ∧
      Reads stop (done ++ [c]) (if c = 13 then skipReturn unread else unread) tail g := by
  have hLook : f.look 0 = c := h.look (Nat.succ_pos _)
  have hKeep : Reads stop (done ++ [c]) unread tail f.data := by
    rw [IacScan.data, hLook]
    exact Reads.put [] c h
  unfold IacScan.step
  rw [hLook, if_pos hData]
  by_cases hReturn : c = 13
  · rw [if_pos hReturn]
    cases unread with
    | nil =>
        have hEnd : ¬ f.data.ptr < stop := by
          rw [hKeep.stop]
          exact Nat.lt_irrefl _
        rw [if_neg (fun hMore => hEnd hMore.2.1)]
        exact ⟨f.data, rfl, hKeep⟩
    | cons d rest =>
        have hMore : f.data.ptr < stop := by
          rw [hKeep.stop, List.length_cons]
          omega
        have hNext : f.data.look 0 = d := hKeep.look (Nat.succ_pos _)
        rw [hNext, skipReturn]
        by_cases hPad : d = 10 ∨ d = 0
        · rw [if_pos ⟨hReturn, hMore, hPad⟩, if_pos hPad]
          exact ⟨_, rfl, Reads.skip [d] hKeep⟩
        · rw [if_neg (fun hSkip => hPad hSkip.2.2), if_neg hPad]
          exact ⟨_, rfl, hKeep⟩
  · rw [if_neg hReturn, if_neg (fun hSkip => hReturn hSkip.1)]
    exact ⟨_, rfl, hKeep⟩

/-- A command that is neither `NOP` nor a literal `IAC` has a third byte. -/
theorem Reads.step_option {c cmd option : UInt8}
    (h : Reads stop done (c :: cmd :: option :: unread) tail f) (hIac : sign.value c = iac)
    (hNop : sign.value cmd ≠ nop) (hLiteral : sign.value cmd ≠ iac) :
    match decodeNext sign (c :: cmd :: option :: unread) with
    | none => f.step sign stop = none
    | some (kept, rest) =>
        ∃ g, f.step sign stop = some g ∧ Reads stop (done ++ kept) rest tail g := by
  have hLook : f.look 0 = c := h.look (Nat.succ_pos _)
  have hCmd : f.look 1 = cmd := h.look (Nat.succ_lt_succ (Nat.succ_pos _))
  have hOption : f.look 2 = option :=
    h.look (Nat.succ_lt_succ (Nat.succ_lt_succ (Nat.succ_pos _)))
  have hStop := h.stop
  simp only [List.length_cons] at hStop
  simp only [decodeNext, if_neg (not_not.mpr hIac), if_neg hNop, if_neg hLiteral]
  unfold IacScan.step
  have hSecond : ¬ f.ptr + 1 ≥ stop := by omega
  have hThird : ¬ f.ptr + 2 ≥ stop := by omega
  rw [hLook, hCmd, hOption, if_neg (not_not.mpr hIac), if_neg hSecond, if_neg hNop,
    if_neg hLiteral, if_neg hThird]
  by_cases hSize : sign.value cmd = sb ∧ sign.value option = teloptNaws
  · simp only [if_pos hSize]
    by_cases hShort : unread.length < 6
    · rw [if_pos hShort]
      exact if_pos (by omega)
    · have hWhole : ¬ f.ptr + 8 ≥ stop := by omega
      rw [if_neg hShort, if_neg hWhole]
      have hTake : ([c, cmd, option] ++ unread.take 6).length = 9 := by
        rw [List.length_append, List.length_take, Nat.min_eq_left (Nat.le_of_not_lt hShort)]
        rfl
      refine ⟨_, rfl, ?_⟩
      rw [← hTake, List.append_nil]
      apply Reads.skip
      rw [List.append_assoc, List.take_append_drop]
      exact h
  · simp only [if_neg hSize]
    refine ⟨_, rfl, ?_⟩
    rw [List.append_nil]
    exact Reads.skip [c, cmd, option] h

/-- One round of the loop does what `decodeNext` says. -/
theorem Reads.step (h : Reads stop done unread tail f) (sign : CharSign) (hMore : unread ≠ []) :
    match decodeNext sign unread with
    | none => f.step sign stop = none
    | some (kept, rest) =>
        ∃ g, f.step sign stop = some g ∧ Reads stop (done ++ kept) rest tail g := by
  obtain ⟨c, unread, rfl⟩ := List.exists_cons_of_ne_nil hMore
  have hLook : f.look 0 = c := h.look (Nat.succ_pos _)
  have hStop := h.stop
  by_cases hData : sign.value c ≠ iac
  · simp only [decodeNext, if_pos hData]
    exact h.step_data hData
  · cases unread with
    | nil =>
        simp only [decodeNext, if_neg hData]
        unfold IacScan.step
        rw [hLook, if_neg hData]
        exact if_pos (Nat.le_of_eq hStop)
    | cons cmd unread =>
        have hCmd : f.look 1 = cmd := h.look (Nat.succ_lt_succ (Nat.succ_pos _))
        rw [List.length_cons, List.length_cons] at hStop
        have hSecond : ¬ f.ptr + 1 ≥ stop := by omega
        by_cases hNop : sign.value cmd = nop
        · simp only [decodeNext, if_neg hData, if_pos hNop, List.append_nil]
          unfold IacScan.step
          rw [hLook, if_neg hData, if_neg hSecond, hCmd, if_pos hNop]
          exact ⟨_, rfl, Reads.skip [c, cmd] h⟩
        · by_cases hLiteral : sign.value cmd = iac
          · simp only [decodeNext, if_neg hData, if_neg hNop, if_pos hLiteral]
            unfold IacScan.step
            rw [hLook, if_neg hData, if_neg hSecond, hCmd, if_neg hNop, if_pos hLiteral]
            exact ⟨_, rfl, Reads.put [cmd] cmd h⟩
          · cases unread with
            | nil =>
                simp only [decodeNext, if_neg hData, if_neg hNop, if_neg hLiteral]
                unfold IacScan.step
                rw [hLook, if_neg hData, if_neg hSecond, hCmd, if_neg hNop, if_neg hLiteral]
                exact if_pos (Nat.le_of_eq hStop)
            | cons option unread => exact h.step_option (not_not.mp hData) hNop hLiteral

/-- The loop keeps what the decoder keeps. It ends at the end of the bytes or in
front of an incomplete command. -/
theorem Reads.loop (h : Reads stop done unread tail f) (sign : CharSign) {fuel : Nat}
    (hFuel : unread.length ≤ fuel) :
    ∃ left, Reads stop (done ++ decode sign unread) left tail (loop sign stop fuel f) ∧
      decodeNext sign left = none := by
  induction fuel generalizing f done unread with
  | zero =>
      obtain rfl : unread = [] := List.eq_nil_of_length_eq_zero (Nat.le_zero.mp hFuel)
      refine ⟨[], ?_, rfl⟩
      rw [decode_none rfl, List.append_nil]
      exact h
  | succ fuel ih =>
      unfold IacScan.loop
      by_cases hMore : unread = []
      · have hEnd : ¬ f.ptr < stop := by
          rw [h.stop, hMore]
          exact Nat.lt_irrefl _
        rw [if_neg hEnd]
        subst hMore
        refine ⟨[], ?_, rfl⟩
        rw [decode_none rfl, List.append_nil]
        exact h
      · have hPtr : f.ptr < stop := by
          rw [h.stop]
          exact Nat.lt_add_of_pos_right (List.length_pos_iff.mpr hMore)
        have hStep := h.step sign hMore
        rw [if_pos hPtr]
        cases hNext : decodeNext sign unread with
        | none =>
            rw [hNext] at hStep
            simp only at hStep
            rw [hStep]
            refine ⟨unread, ?_, hNext⟩
            rw [decode_none hNext, List.append_nil]
            exact h
        | some next =>
            obtain ⟨kept, rest⟩ := next
            rw [hNext] at hStep
            obtain ⟨g, hg, hReads⟩ := hStep
            have hShorter := decodeNext_length hNext
            obtain ⟨left, hLeft, hEnd⟩ := ih hReads (by omega)
            rw [hg]
            refine ⟨left, ?_, hEnd⟩
            rw [decode_some hNext, ← List.append_assoc]
            exact hLeft

end Reading

theorem step_advances {sign : CharSign} {stop : Nat} {f g : IacScan}
    (h : f.step sign stop = some g) : f.ptr < g.ptr := by
  unfold IacScan.step at h
  split_ifs at h <;> cases Option.some.inj h <;> simp only [data, put, IacScan.skip] <;> omega

/-- Rounds beyond the number of bytes change nothing: the loop has been left. -/
theorem loop_ended {sign : CharSign} {stop fuel : Nat} {f : IacScan} (h : stop ≤ f.ptr + fuel)
    (extra : Nat) : loop sign stop (fuel + extra) f = loop sign stop fuel f := by
  induction fuel generalizing f with
  | zero =>
      have hEnd : ¬ f.ptr < stop := Nat.not_lt_of_le h
      cases extra with
      | zero => rfl
      | succ extra =>
          rw [Nat.zero_add]
          unfold IacScan.loop
          exact if_neg hEnd
  | succ fuel ih =>
      rw [Nat.succ_add, loop, loop]
      cases hStep : f.step sign stop with
      | none => rfl
      | some g =>
          have hPtr := step_advances hStep
          simp only
          rw [ih (by omega)]

theorem step_untouched {sign : CharSign} {stop : Nat} {f g : IacScan}
    (h : f.step sign stop = some g) :
    f.totty ≤ g.totty ∧ g.buf.drop g.totty = f.buf.drop g.totty := by
  rcases step_cases h with rfl | rfl | ⟨-, rfl⟩ | ⟨count, rfl⟩
  all_goals simp [data, put, IacScan.skip, List.drop_set]

/-- The cells behind the bytes kept are never written. -/
theorem loop_untouched (sign : CharSign) (stop fuel : Nat) (f : IacScan) :
    f.totty ≤ (loop sign stop fuel f).totty ∧
      (loop sign stop fuel f).buf.drop (loop sign stop fuel f).totty =
        f.buf.drop (loop sign stop fuel f).totty := by
  induction fuel generalizing f with
  | zero => exact ⟨Nat.le_refl _, rfl⟩
  | succ fuel ih =>
      unfold IacScan.loop
      split
      · split
        · exact ⟨Nat.le_refl _, rfl⟩
        · next g hStep =>
          obtain ⟨hFirst, hSame⟩ := step_untouched hStep
          obtain ⟨hRest, hEnd⟩ := ih g
          refine ⟨Nat.le_trans hFirst hRest, hEnd.trans ?_⟩
          have hDrop := congrArg (List.drop ((loop sign stop fuel g).totty - g.totty)) hSame
          rwa [List.drop_drop, List.drop_drop, Nat.add_sub_cancel' hRest] at hDrop
      · exact ⟨Nat.le_refl _, rfl⟩

end IacScan

/-- The filter leaves the decoded bytes at the front of the buffer and the
bytes behind them as they were, and it returns the number of the former. -/
theorem telnetdRemoveIac_decode (sign : CharSign) (s tail : List UInt8) :
    (decode sign s).length ≤ s.length ∧
      telnetdRemoveIac sign (s ++ tail) s.length =
        (decode sign s ++ (s.drop (decode sign s).length ++ tail), (decode sign s).length) := by
  have hStart : IacScan.Reads s.length [] s tail ⟨s ++ tail, 0, 0⟩ :=
    ⟨⟨[], rfl, rfl⟩, rfl, (Nat.zero_add _).symm⟩
  obtain ⟨left, hReads, -⟩ := hStart.loop sign (Nat.le_refl s.length)
  obtain ⟨gap, hBuf, hPtr⟩ := hReads.split
  have hStop := hReads.stop
  have hLength : (decode sign s).length ≤ s.length := by
    rw [hStop, hPtr]
    simp only [List.nil_append, List.length_append]
    omega
  refine ⟨hLength, Prod.ext ?_ hReads.totty⟩
  have hRest := (IacScan.loop_untouched sign s.length s.length ⟨s ++ tail, 0, 0⟩).2
  rw [hReads.totty, List.nil_append, List.drop_append_of_le_length hLength] at hRest
  rw [← hRest]
  change (IacScan.loop sign s.length s.length ⟨s ++ tail, 0, 0⟩).buf = _
  rw [hBuf, List.nil_append, List.append_assoc, List.drop_left]

section Items

/-- What follows a carriage return that is sent as data. -/
inductive ReturnPad where
  | lf
  | nul
deriving DecidableEq

def ReturnPad.byte : ReturnPad → UInt8
  | lf => 10
  | nul => 0

inductive Negotiation where
  | will
  | wont
  | request
  | refuse
deriving DecidableEq

/-- `WILL`, `WONT`, `DO` and `DONT`. -/
def Negotiation.byte : Negotiation → UInt8
  | will => 251
  | wont => 252
  | request => 253
  | refuse => 254

/-- One item of the input of a client: a byte of data, or a command. -/
inductive TelnetItem where
  | data (c : UInt8) (pad : ReturnPad)
  | noOperation
  | negotiate (verb : Negotiation) (option : UInt8)
  | windowSize (w₁ w₂ h₁ h₂ : UInt8)
deriving DecidableEq

namespace TelnetItem

def encode : TelnetItem → List UInt8
  | data c pad => if c = 0xff then [0xff, 0xff] else if c = 13 then [13, pad.byte] else [c]
  | noOperation => [0xff, 241]
  | negotiate verb option => [0xff, verb.byte, option]
  | windowSize w₁ w₂ h₁ h₂ => [0xff, 250, 31, w₁, w₂, h₁, h₂, 0xff, 240]

def payload : TelnetItem → Option UInt8
  | data c _ => some c
  | _ => none

def encodeAll (items : List TelnetItem) : List UInt8 := items.flatMap encode

def dataBytes (items : List TelnetItem) : List UInt8 := items.filterMap payload

end TelnetItem

theorem unsigned_iac {c : UInt8} : CharSign.unsigned.value c = iac ↔ c = 0xff := by
  rw [CharSign.value, iac, ← UInt8.toNat_inj]
  change (c.toNat : Int) = (255 : Nat) ↔ c.toNat = 255
  omega

/-- An item is read in one round in front of anything. -/
theorem decodeNext_encode (item : TelnetItem) (s : List UInt8) :
    decodeNext .unsigned (item.encode ++ s) = some (item.payload.toList, s) := by
  cases item with
  | data c pad =>
      rw [TelnetItem.encode]
      by_cases hIac : c = 0xff
      · subst hIac
        rfl
      · have hData : CharSign.unsigned.value c ≠ iac := mt unsigned_iac.mp hIac
        rw [if_neg hIac]
        by_cases hReturn : c = 13
        · subst hReturn
          cases pad <;> rfl
        · rw [if_neg hReturn]
          simp only [List.singleton_append, decodeNext, if_pos hData, if_neg hReturn]
          rfl
  | noOperation => rfl
  | negotiate verb option => cases verb <;> rfl
  | windowSize w₁ w₂ h₁ h₂ =>
      have hRoom : ¬ (w₁ :: w₂ :: h₁ :: h₂ :: 0xff :: 240 :: s).length < 6 := by
        simp only [List.length_cons]
        omega
      exact if_neg (t := none) hRoom

theorem decode_encodeAll (items : List TelnetItem) :
    decode .unsigned (TelnetItem.encodeAll items) = TelnetItem.dataBytes items := by
  induction items with
  | nil => exact decode_none rfl
  | cons item items ih =>
      have hItem := decode_some (decodeNext_encode item (TelnetItem.encodeAll items))
      rw [ih] at hItem
      rw [TelnetItem.encodeAll, List.flatMap_cons, TelnetItem.dataBytes, List.filterMap_cons]
      refine hItem.trans ?_
      cases item.payload <;> rfl

/-- The filter recovers the data bytes of every input a client encodes, with any
commands in between. It stops by itself: more rounds than bytes change nothing. -/
theorem telnet_round_trip (items : List TelnetItem) (tail : List UInt8) :
    let s := TelnetItem.encodeAll items
    ∃ rest, telnetdRemoveIac .unsigned (s ++ tail) s.length =
        (TelnetItem.dataBytes items ++ rest, (TelnetItem.dataBytes items).length) ∧
      ∀ extra, IacScan.loop .unsigned s.length (s.length + extra) ⟨s ++ tail, 0, 0⟩ =
        IacScan.loop .unsigned s.length s.length ⟨s ++ tail, 0, 0⟩ := by
  have hFilter := (telnetdRemoveIac_decode .unsigned (TelnetItem.encodeAll items) tail).2
  rw [decode_encodeAll] at hFilter
  exact ⟨_, hFilter, IacScan.loop_ended (by rw [Nat.zero_add])⟩

end Items

section Signs

/-- A negative `char` is never equal to `IAC`. -/
theorem signed_ne_iac (c : UInt8) : CharSign.signed.value c ≠ iac := by
  have hByte := c.toNat_lt
  rw [CharSign.value, iac]
  split <;> omega

theorem decode_signed_cons (c : UInt8) (s : List UInt8) :
    decode .signed (c :: s) = c :: decode .signed (if c = 13 then skipReturn s else s) := by
  have hNext : decodeNext .signed (c :: s) = some ([c], if c = 13 then skipReturn s else s) :=
    if_pos (signed_ne_iac c)
  exact decode_some hNext

theorem decode_signed_skipReturn (s : List UInt8) :
    (decode .signed s).length ≤ (decode .signed (skipReturn s)).length + 1 := by
  cases s with
  | nil => exact Nat.le_succ _
  | cons d s =>
      rw [skipReturn]
      split
      · next hPad =>
        have hd : d ≠ 13 := by
          rintro rfl
          exact absurd hPad (by decide)
        rw [decode_signed_cons, if_neg hd, List.length_cons]
      · exact Nat.le_succ _

/-- Where `char` is signed, more bytes are never decoded to fewer. -/
theorem decode_signed_drop (s passed : List UInt8) :
    (decode .signed s).length ≤ (decode .signed (passed ++ s)).length := by
  induction passed with
  | nil => exact Nat.le_refl _
  | cons c passed ih =>
      rw [List.cons_append, decode_signed_cons, List.length_cons]
      split
      · exact Nat.le_trans ih (decode_signed_skipReturn _)
      · exact Nat.le_succ_of_le ih

/-- Behind an `IAC` the filter of unsigned bytes keeps at most what the filter of
signed bytes makes of the same bytes. -/
theorem decodeNext_iac_length {s kept rest : List UInt8}
    (h : decodeNext .unsigned (0xff :: s) = some (kept, rest)) :
    kept.length + (decode .signed rest).length ≤ (decode .signed s).length := by
  have hIac : ¬ CharSign.unsigned.value 0xff ≠ iac := not_not.mpr (unsigned_iac.mpr rfl)
  unfold decodeNext at h
  simp only [if_neg hIac] at h
  cases s with
  | nil => cases h
  | cons cmd s =>
      simp only at h
      split at h
      · cases h
        simpa using decode_signed_drop rest [cmd]
      · split at h
        · next hLiteral =>
          obtain rfl := unsigned_iac.mp hLiteral
          cases h
          rw [decode_signed_cons, if_neg (by decide), List.length_singleton, List.length_cons,
            Nat.add_comm]
        · cases s with
          | nil => cases h
          | cons option s =>
              simp only at h
              split at h
              · split at h
                · cases h
                · cases h
                  have hDrop := decode_signed_drop (s.drop 6) ([cmd, option] ++ s.take 6)
                  rw [List.append_assoc, List.take_append_drop] at hDrop
                  simpa using hDrop
              · cases h
                simpa using decode_signed_drop rest [cmd, option]

theorem decodeNext_data {s : List UInt8} {c : UInt8} (h : c ≠ 0xff) :
    decodeNext .unsigned (c :: s) = some ([c], if c = 13 then skipReturn s else s) :=
  if_pos (mt unsigned_iac.mp h)

theorem decode_data {s : List UInt8} {c : UInt8} (h : c ≠ 0xff) :
    decode .unsigned (c :: s) = c :: decode .unsigned (if c = 13 then skipReturn s else s) :=
  decode_some (decodeNext_data h)

theorem iac_mem_skipReturn {s : List UInt8} : 0xff ∈ skipReturn s ↔ 0xff ∈ s := by
  cases s with
  | nil => exact Iff.rfl
  | cons d s =>
      rw [skipReturn]
      split
      · next hPad =>
        have hd : (0xff : UInt8) ≠ d := by
          rintro rfl
          exact absurd hPad (by decide)
        rw [List.mem_cons, or_iff_right hd]
      · exact Iff.rfl

theorem iac_mem_unread {s : List UInt8} {c : UInt8} (h : c ≠ 0xff) :
    0xff ∈ (if c = 13 then skipReturn s else s) ↔ 0xff ∈ c :: s := by
  rw [List.mem_cons, or_iff_right (Ne.symm h)]
  split
  · exact iac_mem_skipReturn
  · exact Iff.rfl

/-- Without an `IAC` the sign of `char` does not matter. -/
theorem decode_eq_of_noIac {s : List UInt8} (h : 0xff ∉ s) :
    decode .signed s = decode .unsigned s := by
  induction s using decode.induct .unsigned with
  | case1 s hNone =>
      cases s with
      | nil => rw [decode_none rfl, decode_none rfl]
      | cons c s =>
          have hc : c ≠ 0xff := fun hEq => h (hEq ▸ List.mem_cons_self)
          rw [decodeNext_data hc] at hNone
          cases hNone
  | case2 s kept rest hSome ih =>
      cases s with
      | nil => cases hSome
      | cons c s =>
          have hc : c ≠ 0xff := fun hEq => h (hEq ▸ List.mem_cons_self)
          rw [decodeNext_data hc] at hSome
          cases hSome
          rw [decode_signed_cons, decode_data hc, ih (mt (iac_mem_unread hc).mp h)]

/-- Every `IAC` is counted where `char` is signed, and the first one is not
where it is unsigned. -/
theorem decode_length_lt {s : List UInt8} (h : 0xff ∈ s) :
    (decode .unsigned s).length < (decode .signed s).length := by
  have hLe (s : List UInt8) : (decode .unsigned s).length ≤ (decode .signed s).length ∧
      (0xff ∈ s → (decode .unsigned s).length < (decode .signed s).length) := by
    induction s using decode.induct .unsigned with
    | case1 s hNone =>
        rw [decode_none hNone]
        refine ⟨Nat.zero_le _, fun hIac => ?_⟩
        cases s with
        | nil => exact absurd hIac List.not_mem_nil
        | cons c s =>
            rw [decode_signed_cons]
            exact Nat.succ_pos _
    | case2 s kept rest hSome ih =>
        cases s with
        | nil => cases hSome
        | cons c s =>
            by_cases hc : c = 0xff
            · subst hc
              have hKept := decodeNext_iac_length hSome
              have hRest := ih.1
              have hLess : (decode .unsigned (0xff :: s)).length <
                  (decode .signed (0xff :: s)).length := by
                rw [decode_some hSome, decode_signed_cons, if_neg (by decide), List.length_append,
                  List.length_cons]
                omega
              exact ⟨Nat.le_of_lt hLess, fun _ => hLess⟩
            · rw [decodeNext_data hc] at hSome
              cases hSome
              rw [decode_signed_cons, decode_data hc, List.length_cons, List.length_cons]
              exact ⟨Nat.succ_le_succ ih.1, fun hIac =>
                Nat.succ_lt_succ (ih.2 ((iac_mem_unread hc).mpr hIac))⟩
  exact (hLe s).2 h

/-- The two kinds of `char` decode alike exactly where there is no `IAC`. -/
theorem decoding_ignores_sign_iff (s tail : List UInt8) :
    ((telnetdRemoveIac .signed (s ++ tail) s.length).2 =
        (telnetdRemoveIac .unsigned (s ++ tail) s.length).2 ∧
      (telnetdRemoveIac .signed (s ++ tail) s.length).1.take
          (telnetdRemoveIac .signed (s ++ tail) s.length).2 =
        (telnetdRemoveIac .unsigned (s ++ tail) s.length).1.take
          (telnetdRemoveIac .unsigned (s ++ tail) s.length).2) ↔ 0xff ∉ s := by
  rw [(telnetdRemoveIac_decode .signed s tail).2, (telnetdRemoveIac_decode .unsigned s tail).2,
    List.take_left, List.take_left]
  constructor
  · rintro ⟨hCount, -⟩ hIac
    exact absurd hCount (Nat.ne_of_gt (decode_length_lt hIac))
  · intro hIac
    rw [decode_eq_of_noIac hIac]
    exact ⟨rfl, rfl⟩

/-- `IAC NOP` is removed on one kind of target and kept on the other. -/
theorem decoding_depends_on_sign :
    telnetdRemoveIac .signed [0xff, 0xf1] 2 = ([0xff, 0xf1], 2) ∧
      telnetdRemoveIac .unsigned [0xff, 0xf1] 2 = ([0xff, 0xf1], 0) := by
  decide +kernel

end Signs

end TelnetDebug

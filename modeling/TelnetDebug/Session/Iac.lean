import TelnetDebug.Session.State
import Mathlib.Tactic.SplitIfs

/-! The filter of telnet commands. It compacts the buffer it reads, and leaves
the bytes behind the compacted part as they were. -/
namespace TelnetDebug

open CBuffer

def iac : Int := 255
def nop : Int := 241
def sb : Int := 250
def teloptNaws : Int := 31

/-- The two pointers of the filter as offsets into the buffer. -/
structure IacScan where
  buf : List UInt8
  ptr : Nat
  totty : Nat

namespace IacScan

def look (f : IacScan) (offset : Nat) : UInt8 := f.buf.getD (f.ptr + offset) 0

def put (f : IacScan) (c : UInt8) : IacScan :=
  { f with buf := f.buf.set f.totty c, totty := f.totty + 1 }

def skip (f : IacScan) (count : Nat) : IacScan := { f with ptr := f.ptr + count }

/-- Keep the byte just read. -/
def data (f : IacScan) : IacScan := (f.put (f.look 0)).skip 1

/-- One round of the loop with `ptr < stop`. No value stands for `break`. -/
def step (sign : CharSign) (stop : Nat) (f : IacScan) : Option IacScan :=
  if sign.value (f.look 0) ≠ iac then
    if f.look 0 = 13 ∧ f.data.ptr < stop ∧ (f.data.look 0 = 10 ∨ f.data.look 0 = 0) then
      some (f.data.skip 1)
    else some f.data
  else if f.ptr + 1 ≥ stop then none
  else if sign.value (f.look 1) = nop then some (f.skip 2)
  else if sign.value (f.look 1) = iac then some ((f.put (f.look 1)).skip 2)
  else if f.ptr + 2 ≥ stop then none
  else if sign.value (f.look 1) = sb ∧ sign.value (f.look 2) = teloptNaws then
    if f.ptr + 8 ≥ stop then none else some (f.skip 9)
  else some (f.skip 3)

/-- Every round advances `ptr`, so `stop` rounds exhaust the buffer. -/
def loop (sign : CharSign) (stop : Nat) : Nat → IacScan → IacScan
  | 0, f => f
  | fuel + 1, f =>
      if f.ptr < stop then
        match f.step sign stop with
        | none => f
        | some f => loop sign stop fuel f
      else f

/-- What a round can do: keep the byte read, keep one byte of a doubled `IAC`,
or skip a command. -/
theorem step_cases {sign : CharSign} {stop : Nat} {f g : IacScan}
    (h : f.step sign stop = some g) :
    g = f.data ∨ g = f.data.skip 1 ∨
      (sign.value (f.look 1) = iac ∧ g = (f.put (f.look 1)).skip 2) ∨
        ∃ count, g = f.skip count := by
  unfold step at h
  split at h
  · split at h
    · exact .inr (.inl (Option.some.inj h).symm)
    · exact .inl (Option.some.inj h).symm
  · split_ifs at h with _ _ hLiteral
    · exact .inr (.inr (.inr ⟨2, (Option.some.inj h).symm⟩))
    · exact .inr (.inr (.inl ⟨hLiteral, (Option.some.inj h).symm⟩))
    · exact .inr (.inr (.inr ⟨9, (Option.some.inj h).symm⟩))
    · exact .inr (.inr (.inr ⟨3, (Option.some.inj h).symm⟩))

theorem step_length {sign : CharSign} {stop : Nat} {f g : IacScan}
    (h : f.step sign stop = some g) : g.buf.length = f.buf.length := by
  rcases step_cases h with rfl | rfl | ⟨_, rfl⟩ | ⟨_, rfl⟩ <;> simp [data, put, skip]

theorem loop_length (sign : CharSign) (stop fuel : Nat) (f : IacScan) :
    (loop sign stop fuel f).buf.length = f.buf.length := by
  induction fuel generalizing f with
  | zero => rfl
  | succ fuel ih =>
      unfold loop
      split
      · split
        · rfl
        · next g hStep => rw [ih, step_length hStep]
      · rfl

/-- The bytes up to `stop` hold no NUL, the bytes behind are `tail`, and the
write offset has not passed the read offset. -/
structure Keeps (stop : Nat) (tail : List UInt8) (f : IacScan) : Prop where
  split : ∃ s, f.buf = s ++ tail ∧ s.length = stop ∧ 0 ∉ s
  behind : f.totty ≤ f.ptr

theorem Keeps.skip {stop : Nat} {tail : List UInt8} {f : IacScan} (h : Keeps stop tail f)
    (count : Nat) : Keeps stop tail (f.skip count) :=
  ⟨h.split, Nat.le_add_right_of_le h.behind⟩

theorem Keeps.put {stop count : Nat} {tail : List UInt8} {f : IacScan} {c : UInt8}
    (h : Keeps stop tail f) (hPtr : f.ptr < stop) (hc : c ≠ 0) (hCount : 0 < count) :
    Keeps stop tail ((f.put c).skip count) := by
  obtain ⟨s, hBuf, hLength, hText⟩ := h.split
  have hBehind := h.behind
  refine ⟨⟨s.set f.totty c, ?_, by simpa using hLength, ?_⟩, ?_⟩
  · simp only [IacScan.put, IacScan.skip, hBuf]
    rw [List.set_append_left _ _ (by omega)]
  · intro hZero
    rcases List.mem_or_eq_of_mem_set hZero with hOld | hNew
    · exact hText hOld
    · exact hc hNew.symm
  · simp only [IacScan.put, IacScan.skip]
    omega

theorem Keeps.look_ne_zero {stop : Nat} {tail : List UInt8} {f : IacScan}
    (h : Keeps stop tail f) (hPtr : f.ptr < stop) : f.look 0 ≠ 0 := by
  obtain ⟨s, hBuf, hLength, hText⟩ := h.split
  intro hZero
  apply hText
  have hIndex : f.ptr < s.length := by omega
  simp only [look, hBuf, Nat.add_zero, List.getD_eq_getElem?_getD] at hZero
  rw [List.getElem?_append_left hIndex, List.getElem?_eq_getElem hIndex] at hZero
  simp only [Option.getD_some] at hZero
  exact hZero ▸ List.getElem_mem hIndex

/-- A literal `IAC` is the only byte written that was not just read as data. -/
theorem value_iac_ne_zero {sign : CharSign} {c : UInt8} (h : sign.value c = iac) : c ≠ 0 := by
  rintro rfl
  cases sign <;> simp [CharSign.value, iac] at h

theorem Keeps.step {sign : CharSign} {stop : Nat} {tail : List UInt8} {f g : IacScan}
    (h : Keeps stop tail f) (hPtr : f.ptr < stop) (hStep : f.step sign stop = some g) :
    Keeps stop tail g := by
  have hData : Keeps stop tail f.data := h.put hPtr (h.look_ne_zero hPtr) Nat.one_pos
  rcases step_cases hStep with rfl | rfl | ⟨hLiteral, rfl⟩ | ⟨count, rfl⟩
  · exact hData
  · exact hData.skip 1
  · exact h.put hPtr (value_iac_ne_zero hLiteral) Nat.two_pos
  · exact h.skip count

theorem Keeps.loop {sign : CharSign} {stop : Nat} {tail : List UInt8} {f : IacScan}
    (h : Keeps stop tail f) (fuel : Nat) : Keeps stop tail (loop sign stop fuel f) := by
  induction fuel generalizing f with
  | zero => exact h
  | succ fuel ih =>
      unfold IacScan.loop
      split
      · next hPtr =>
        split
        · exact h
        · next g hStep => exact ih (h.step hPtr hStep)
      · exact h

/-- Bytes that are neither `IAC` nor a carriage return are copied onto
themselves. -/
theorem loop_plain (sign : CharSign) (fuel : Nat) (before rest tail : List UInt8)
    (hIac : ∀ c ∈ rest, sign.value c ≠ iac) (hReturn : (13 : UInt8) ∉ rest) :
    (loop sign (before.length + rest.length) fuel
      ⟨before ++ rest ++ tail, before.length, before.length⟩).buf = before ++ rest ++ tail := by
  induction fuel generalizing before rest with
  | zero => rfl
  | succ fuel ih =>
      cases rest with
      | nil => simp [loop]
      | cons c rest =>
          have hLook : (⟨before ++ c :: rest ++ tail, before.length, before.length⟩ : IacScan).look 0
              = c := by simp [look]
          have hc : c ≠ 13 := fun hEq => hReturn (by simp [hEq])
          have hStep : (⟨before ++ c :: rest ++ tail, before.length, before.length⟩ : IacScan).step
              sign (before.length + (c :: rest).length) =
                some ⟨(before ++ [c]) ++ rest ++ tail, (before ++ [c]).length,
                  (before ++ [c]).length⟩ := by
            unfold step
            rw [if_pos (by rw [hLook]; exact hIac c (by simp)), hLook]
            simp [data, look, hc, put, skip]
          have hRest := ih (before ++ [c]) rest (fun d hd => hIac d (by simp [hd]))
            (fun hd => hReturn (by simp [hd]))
          rw [loop, if_pos (by simp), hStep]
          simpa [Nat.add_assoc, Nat.add_comm 1] using hRest

end IacScan

/-- The filtered buffer and the number of bytes kept. -/
def telnetdRemoveIac (sign : CharSign) (buf : List UInt8) (uiLen : Nat) : List UInt8 × Nat :=
  let f := IacScan.loop sign uiLen uiLen ⟨buf, 0, 0⟩
  (f.buf, f.totty)

@[simp] theorem telnetdRemoveIac_length (sign : CharSign) (buf : List UInt8) (uiLen : Nat) :
    (telnetdRemoveIac sign buf uiLen).1.length = buf.length :=
  IacScan.loop_length _ _ _ _

/-- The filter neither moves the terminator of a string nor puts another one
in front of it. -/
theorem telnetdRemoveIac_keeps (sign : CharSign) {s : List UInt8} (hText : 0 ∉ s)
    (tail : List UInt8) :
    ∃ s', (telnetdRemoveIac sign (s ++ tail) s.length).1 = s' ++ tail ∧
      s'.length = s.length ∧ 0 ∉ s' := by
  have hStart : IacScan.Keeps s.length tail ⟨s ++ tail, 0, 0⟩ :=
    ⟨⟨s, rfl, rfl, hText⟩, Nat.le_refl 0⟩
  exact (hStart.loop s.length).split

theorem telnetdRemoveIac_plain (sign : CharSign) {s : List UInt8}
    (hIac : ∀ c ∈ s, sign.value c ≠ iac) (hReturn : (13 : UInt8) ∉ s) (tail : List UInt8) :
    (telnetdRemoveIac sign (s ++ tail) s.length).1 = s ++ tail := by
  simpa [telnetdRemoveIac] using IacScan.loop_plain sign s.length [] s tail hIac hReturn

end TelnetDebug

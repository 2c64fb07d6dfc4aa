import TelnetDebug.Library.Guarded
import Mathlib.Data.UInt

/-! Calls to the system by a program that reads one file and allocates memory.
The outcomes of the calls are not fixed: any of them may fail, a read may
deliver less than was asked for, and fresh memory has any contents. -/
namespace Posix

open Guarded

/-- The file and the answers of the system to the calls, which are numbered in
the order in which they are made. -/
structure System where
  file : List UInt8
  fd : UInt32
  fails : Nat → Bool
  upTo : Nat → Nat
  fresh : Nat → Nat → UInt8
  descriptor : fd.toNat < 2 ^ 31

structure OsState where
  calls : Nat
  pos : Nat

/-- A computation that makes calls and may end in a fault. -/
abbrev Call (ε α : Type) := StateT OsState (Except ε) α

variable {ε α β ι : Type}

/-- Open the file. The descriptor of a failed call is -1. -/
def openFile (sys : System) : Call ε UInt32 := fun s =>
  if sys.fails s.calls then .ok (-1, { s with calls := s.calls + 1 })
  else .ok (sys.fd, { calls := s.calls + 1, pos := 0 })

/-- The offset is an `off_t`, and a negative one is refused. -/
def lseek (sys : System) (fd : UInt32) (offset : UInt64) : Call ε Int := fun s =>
  if sys.fails s.calls ∨ fd ≠ sys.fd ∨ 2 ^ 63 ≤ offset.toNat then
    .ok (-1, { s with calls := s.calls + 1 })
  else .ok (offset.toNat, { calls := s.calls + 1, pos := offset.toNat })

/-- The bytes that a read delivers; `none` is a failed read. -/
def read (sys : System) (fd : UInt32) (size : UInt64) : Call ε (Option (List UInt8)) := fun s =>
  if sys.fails s.calls ∨ fd ≠ sys.fd then .ok (none, { s with calls := s.calls + 1 })
  else
    let bytes := (sys.file.drop s.pos).take (min size.toNat (sys.upTo s.calls))
    .ok (some bytes, { calls := s.calls + 1, pos := s.pos + bytes.length })

/-- Fresh memory of the given size. A program has `2 ^ 47` bytes of addresses, so
that no request for as many is granted. -/
def malloc (sys : System) (size : UInt64) : Call ε (Option (List UInt8)) := fun s =>
  .ok (if sys.fails s.calls ∨ 2 ^ 47 ≤ size.toNat then none
    else some ((List.range size.toNat).map (sys.fresh s.calls)),
    { s with calls := s.calls + 1 })

/-- Memory of another size in the place of what is held, if there is any. Where
that size is zero, what is held is freed and there is no memory; where the request
is refused, it stays as it is. -/
def realloc (sys : System) (held : Bool) (size : UInt64) : Call ε Bool := fun s =>
  .ok (!decide (sys.fails s.calls ∨ 2 ^ 47 ≤ size.toNat ∨ held = true ∧ size = 0),
    { s with calls := s.calls + 1 })

/-- An allocation whose contents are written at once. -/
def allocates (sys : System) : Call ε Bool := fun s =>
  .ok (!sys.fails s.calls, { s with calls := s.calls + 1 })

/-- The buffer after a read delivered these bytes. -/
def overwrite (buffer bytes : List UInt8) : List UInt8 := bytes ++ buffer.drop bytes.length

/-- A part of a file. -/
def slice (file : List UInt8) (offset size : Nat) : List UInt8 := (file.drop offset).take size

theorem slice_length {file : List UInt8} {offset size : Nat} (h : offset + size ≤ file.length) :
    (slice file offset size).length = size := by
  rw [slice, List.length_take, List.length_drop]
  omega

/-- A part of a part. -/
theorem slice_slice {file : List UInt8} {offset size inner len : Nat} (h : inner + len ≤ size) :
    slice (slice file offset size) inner len = slice file (offset + inner) len := by
  rw [slice, slice, slice, List.drop_take, List.take_take, List.drop_drop, Nat.min_eq_left]
  omega

section Rules
variable {fault : ε → Prop} {s : OsState}

theorem sat_pure {a : α} {post : α × OsState → Prop} (h : post (a, s)) :
    Sat ((pure a : Call ε α) s) post fault := h

theorem sat_bind {x : Call ε α} {f : α → Call ε β} {mid : α × OsState → Prop}
    {post : β × OsState → Prop} (hFirst : Sat (x s) mid fault)
    (hRest : ∀ a t, mid (a, t) → Sat (f a t) post fault) : Sat ((x >>= f) s) post fault :=
  Sat.bind hFirst fun r hr => hRest r.1 r.2 hr

/-- The rule for a loop over a list. The invariant is told which inputs have
been consumed. -/
theorem sat_foldlM {step : α → ι → Call ε α} (inv : List ι → α × OsState → Prop)
    {inputs : List ι} {a : α} (hInit : inv [] (a, s))
    (hStep : ∀ taken i, taken ++ [i] <+: inputs → ∀ b t, inv taken (b, t) →
      Sat (step b i t) (inv (taken ++ [i])) fault) :
    Sat (inputs.foldlM step a s) (inv inputs) fault := by
  induction inputs using List.reverseRecOn with
  | nil => exact hInit
  | append_singleton inputs i ih =>
      rw [List.foldlM_append]
      apply sat_bind
      · apply ih
        intro taken j hPrefix
        exact hStep taken j (hPrefix.trans (List.prefix_append inputs [i]))
      · intro b t hInv
        apply sat_bind (hStep inputs i List.prefix_rfl b t hInv)
        intro c u hLast
        exact sat_pure hLast

/-- The rule for a loop over an index. -/
theorem sat_range {step : α → Nat → Call ε α} (inv : Nat → α × OsState → Prop) {n : Nat} {a : α}
    (hInit : inv 0 (a, s))
    (hStep : ∀ k < n, ∀ b t, inv k (b, t) → Sat (step b k t) (inv (k + 1)) fault) :
    Sat ((List.range n).foldlM step a s) (inv n) fault := by
  have hLoop : Sat ((List.range n).foldlM step a s) (inv (List.range n).length) fault := by
    apply sat_foldlM fun taken => inv taken.length
    · exact hInit
    · intro taken k hPrefix b t hInv
      have hEnd : taken.length < (taken ++ [k]).length := by
        rw [List.length_append]
        exact Nat.lt_succ_self _
      have hEntry := hPrefix.getElem hEnd
      have hBound := Nat.lt_of_lt_of_le hEnd hPrefix.length_le
      rw [List.getElem_append_right (Nat.le_refl _), List.getElem_range] at hEntry
      simp only [Nat.sub_self, List.getElem_singleton] at hEntry
      rw [List.length_range] at hBound
      rw [hEntry, List.length_append, List.length_singleton]
      exact hStep taken.length hBound b t hInv
  rwa [List.length_range] at hLoop

end Rules

section Returns
variable (sys : System) {fault : ε → Prop} {s : OsState}

/-- A call returns whatever the system answers. -/
theorem lseek_returns (fd : UInt32) (offset : UInt64) :
    Sat (lseek sys fd offset s) (fun _ => True) fault := by
  unfold lseek
  split
  · exact trivial
  · exact trivial

theorem malloc_returns (size : UInt64) : Sat (malloc sys size s) (fun _ => True) fault := trivial

theorem read_returns (fd : UInt32) (size : UInt64) :
    Sat (read sys fd size s) (fun r => ∀ bytes, r.1 = some bytes → bytes.length ≤ size.toNat)
      fault := by
  unfold read
  split
  · rintro _ ⟨⟩
  · rintro _ ⟨⟩
    rw [List.length_take]
    omega

end Returns

/-- No call fails, and a read delivers all there is. -/
structure System.Reliable (sys : System) : Prop where
  succeeds : ∀ k, sys.fails k = false
  delivers : ∀ k, sys.file.length ≤ sys.upTo k

section Reliable
variable {sys : System} (h : sys.Reliable) {fault : ε → Prop} {s : OsState}
include h

theorem openFile_sat : Sat (openFile sys s) (fun r => r.1 = sys.fd) fault := by
  unfold openFile
  rw [h.succeeds]
  exact rfl

theorem lseek_sat {fd : UInt32} (hFd : fd = sys.fd) {offset : UInt64}
    (hOffset : offset.toNat < 2 ^ 63) :
    Sat (lseek sys fd offset s) (fun r => ¬ r.1 < 0 ∧ r.2.pos = offset.toNat) fault := by
  have hCall : ¬(sys.fails s.calls = true ∨ fd ≠ sys.fd ∨ 2 ^ 63 ≤ offset.toNat) := by
    simp only [h.succeeds, hFd, ne_eq, not_true, Bool.false_eq_true, false_or, Nat.not_le]
    exact hOffset
  unfold lseek
  rw [if_neg hCall]
  exact ⟨Int.not_lt.mpr (Int.natCast_nonneg _), rfl⟩

theorem malloc_sat {size : UInt64} (hSize : size.toNat < 2 ^ 47) :
    Sat (malloc sys size s)
      (fun r => r.2.pos = s.pos ∧ ∃ memory, r.1 = some memory ∧ memory.length = size.toNat)
      fault := by
  have hCall : ¬(sys.fails s.calls = true ∨ 2 ^ 47 ≤ size.toNat) := by
    simp only [h.succeeds, Bool.false_eq_true, false_or, Nat.not_le]
    exact hSize
  unfold malloc
  rw [if_neg hCall]
  exact ⟨rfl, _, rfl, by simp⟩

theorem realloc_sat {held : Bool} {size : UInt64} (hPos : size ≠ 0) (hSize : size.toNat < 2 ^ 47) :
    Sat (realloc sys held size s) (fun r => r.1 = true) fault := by
  have hCall : ¬(sys.fails s.calls = true ∨ 2 ^ 47 ≤ size.toNat ∨ held = true ∧ size = 0) := by
    simp only [h.succeeds, hPos, Bool.false_eq_true, and_false, false_or, or_false, Nat.not_le]
    exact hSize
  unfold realloc
  rw [decide_eq_false hCall]
  exact rfl

theorem read_sat {fd : UInt32} (hFd : fd = sys.fd) {size : UInt64} :
    Sat (read sys fd size s) (fun r => r.1 = some (slice sys.file s.pos size.toNat)) fault := by
  have hTake : (sys.file.drop s.pos).take (min size.toNat (sys.upTo s.calls)) =
      (sys.file.drop s.pos).take size.toNat := by
    rw [List.take_eq_take_iff, List.length_drop]
    have := h.delivers s.calls
    omega
  have hCall : ¬(sys.fails s.calls = true ∨ fd ≠ sys.fd) := by
    simp [h.succeeds, hFd]
  unfold read
  rw [if_neg hCall]
  exact congrArg some hTake

theorem allocates_sat : Sat (allocates sys s) (fun r => r.1 = true) fault := by
  unfold allocates
  rw [h.succeeds]
  exact rfl

end Reliable

theorem overwrite_length {buffer bytes : List UInt8} (h : bytes.length ≤ buffer.length) :
    (overwrite buffer bytes).length = buffer.length := by
  rw [overwrite, List.length_append, List.length_drop]
  omega

/-- A read that delivers as much as the buffer holds leaves nothing of its
earlier contents. -/
theorem overwrite_all {buffer bytes : List UInt8} (h : buffer.length = bytes.length) :
    overwrite buffer bytes = bytes := by
  rw [overwrite, List.drop_eq_nil_of_le (by omega), List.append_nil]

end Posix

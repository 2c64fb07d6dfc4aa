import Mathlib.Data.UInt
import Mathlib.Logic.Function.Iterate
import Mathlib.Data.Nat.Find

/-! The loop that writes a whole buffer. The answers of the system to the calls
of `write` are not fixed; the loop keeps the one that says how much was written
in an unsigned variable, and the one that says that the call failed as well. -/
namespace TelnetDebug

/-- What a call of `write` returns: a count, or -1 with the error. -/
inductive WriteResult where
  | wrote (n : Nat)
  | failed (errno : UInt32)
deriving DecidableEq

def eintr : UInt32 := 4

/-- The answers of the system, by the number of the call and the size requested.
A count is at least 1 and at most the size. -/
structure Writer where
  answer : Nat → Nat → WriteResult
  bounded : ∀ {k size n}, 0 < size → answer k size = .wrote n → 1 ≤ n ∧ n ≤ size

/-- A call that was made. Its bytes start at `offset` in the buffer. -/
structure WriteCall where
  offset : Nat
  size : Nat
  result : WriteResult
deriving DecidableEq

/-- The result as the `unsigned int` that it is assigned to. -/
def WriteResult.ret : WriteResult → UInt32
  | wrote n => .ofNat n
  | failed _ => -1

/-- What `write_reliable` returns after this result, or that it goes to `AGAIN`. -/
def writeReliable (result : WriteResult) : Option UInt32 :=
  if result.ret < 0 ∧ result = .failed eintr then none else some result.ret

/-- The variables of `write_certain_bytes`, the calls that it made and what it
returned. -/
structure WriteLoop where
  left : UInt32
  finished : UInt32
  calls : List WriteCall
  returned : Option UInt32
deriving DecidableEq

namespace WriteLoop

def start (count : UInt64) : WriteLoop where
  left := count.toUInt32
  finished := 0
  calls := []
  returned := none

/-- One call of `write` and what is made of its result, or the return. -/
def turn (writer : Writer) (s : WriteLoop) : WriteLoop :=
  if s.returned.isSome then s
  else if s.left > 0 then
    let result := writer.answer s.calls.length s.left.toNat
    let s := { s with calls := s.calls ++ [⟨s.finished.toNat, s.left.toNat, result⟩] }
    match writeReliable result with
    | none => s
    | some ret =>
        if ret < 0 then { s with returned := some ret }
        else { s with finished := s.finished + ret, left := s.left - ret }
  else { s with returned := some 0 }

end WriteLoop

/-- The state of the loop after so many turns. -/
def writeCertainBytes (writer : Writer) (count : UInt64) (turns : Nat) : WriteLoop :=
  (WriteLoop.turn writer)^[turns] (.start count)

/-- The offsets of the bytes that a call wrote. -/
def WriteCall.written (call : WriteCall) : List Nat :=
  match call.result with
  | .wrote n => List.range' call.offset n
  | .failed _ => []

/-- What a caller expects of the loop: the calls stay inside the buffer, 0 is
returned only after every byte was written once and in order, an interrupted
call is made again as it was, and any other failure is the end of the loop. -/
structure WriteLoop.Dependable (count : Nat) (s : WriteLoop) : Prop where
  inside : ∀ call ∈ s.calls, call.offset + call.size ≤ count
  complete : s.returned = some 0 → s.calls.flatMap WriteCall.written = List.range count
  retried : ∀ before call after, s.calls = before ++ call :: after →
    call.result = .failed eintr →
      match after with
      | [] => s.returned = none
      | next :: _ => next.offset = call.offset ∧ next.size = call.size
  stopped : ∀ before call after errno, s.calls = before ++ call :: after →
    call.result = .failed errno → errno ≠ eintr →
      after = [] ∧ ∃ rc, s.returned = some rc ∧ rc ≠ 0

/-- What is left to write in front of call `k`, when each call asks for all
that is left and a failed one writes nothing. -/
def Writer.left (writer : Writer) (size : Nat) : Nat → Nat
  | 0 => size
  | k + 1 =>
      match writer.answer k (writer.left size k) with
      | .wrote n => writer.left size k - n
      | .failed _ => writer.left size k

/-- No call fails while something is left to write. -/
def Writer.Delivers (writer : Writer) (size : Nat) : Prop :=
  ∀ k, 0 < writer.left size k → ∃ n, writer.answer k (writer.left size k) = .wrote n

variable {writer : Writer} {size k n : Nat} {errno : UInt32} {s : WriteLoop}

theorem Writer.left_succ_le : writer.left size (k + 1) ≤ writer.left size k := by
  rw [left]
  split
  · exact Nat.sub_le _ _
  · exact Nat.le_refl _

theorem Writer.left_antitone : Antitone (writer.left size) :=
  antitone_nat_of_succ_le fun _ => left_succ_le

theorem Writer.left_wrote (h : writer.answer k (writer.left size k) = .wrote n) :
    writer.left size (k + 1) = writer.left size k - n := by
  rw [left, h]

/-- Each call that does not fail leaves less. -/
theorem Writer.Delivers.left_le (h : writer.Delivers size) (k : Nat) :
    writer.left size k ≤ size - k := by
  induction k with
  | zero => exact Nat.le_refl _
  | succ k ih =>
      rcases Nat.eq_zero_or_pos (writer.left size k) with hNone | hSome
      · have hLess : writer.left size (k + 1) ≤ writer.left size k := left_succ_le
        omega
      · obtain ⟨n, hWrote⟩ := h k hSome
        have hBounded := writer.bounded hSome hWrote
        rw [left_wrote hWrote]
        omega

/-- The call after which nothing is left. -/
theorem Writer.Delivers.exists_last (h : writer.Delivers size) :
    ∃ last, writer.left size last = 0 ∧ ∀ k < last, 0 < writer.left size k := by
  have hEnd : ∃ k, writer.left size k = 0 := ⟨size, by have := h.left_le size; omega⟩
  exact ⟨Nat.find hEnd, Nat.find_spec hEnd, fun k hk => Nat.pos_of_ne_zero (Nat.find_min hEnd hk)⟩

namespace WriteLoop

/-- The call that the next turn makes. -/
def next (writer : Writer) (s : WriteLoop) : WriteCall :=
  ⟨s.finished.toNat, s.left.toNat, writer.answer s.calls.length s.left.toNat⟩

theorem turn_call (hRunning : s.returned = none) (hLeft : 0 < s.left.toNat) :
    turn writer s = { s with
      calls := s.calls ++ [s.next writer]
      finished := s.finished + (s.next writer).result.ret
      left := s.left - (s.next writer).result.ret } := by
  have hUnsigned (rc : UInt32) : ¬ rc < 0 := Nat.not_lt_zero rc.toNat
  have hRet : writeReliable (s.next writer).result = some (s.next writer).result.ret :=
    if_neg fun h => hUnsigned _ h.1
  change writeReliable (writer.answer s.calls.length s.left.toNat) = _ at hRet
  have hMore : s.left > 0 := UInt32.lt_iff_toNat_lt.mpr hLeft
  simp only [turn, hRunning, Option.isSome_none, Bool.false_eq_true, if_false, if_pos hMore, hRet,
    if_neg (hUnsigned _)]
  rfl

theorem turn_done (hRunning : s.returned = none) (hLeft : s.left.toNat = 0) :
    turn writer s = { s with returned := some 0 } := by
  have hNoMore : ¬ s.left > 0 := by
    rw [gt_iff_lt, UInt32.lt_iff_toNat_lt, hLeft]
    exact Nat.lt_irrefl 0
  simp only [turn, hRunning, Option.isSome_none, Bool.false_eq_true, if_false, if_neg hNoMore]

theorem turn_returned {rc : UInt32} (h : s.returned = some rc) : turn writer s = s := by
  simp only [turn, h, Option.isSome_some, if_true]

/-- The state in front of call `k` when none failed before it. -/
structure Progress (writer : Writer) (size k : Nat) (s : WriteLoop) : Prop where
  running : s.returned = none
  calls : s.calls.length = k
  left : s.left.toNat = writer.left size k
  finished : s.finished.toNat + writer.left size k = size
  inside : ∀ call ∈ s.calls, call.offset + call.size ≤ size
  succeeded : ∀ call ∈ s.calls, ∃ n, call.result = .wrote n
  written : s.calls.flatMap WriteCall.written = List.range s.finished.toNat

theorem Progress.next_eq (h : s.Progress writer size k) :
    s.next writer = ⟨s.finished.toNat, s.left.toNat, writer.answer k (writer.left size k)⟩ := by
  rw [next, h.calls, h.left]

theorem Progress.ret_toNat (h : s.Progress writer size k) (hLeft : 0 < writer.left size k)
    (hWrote : writer.answer k (writer.left size k) = .wrote n) :
    (s.next writer).result.ret.toNat = n := by
  have hBound := s.left.toNat_lt
  obtain ⟨-, hLe⟩ := writer.bounded hLeft hWrote
  rw [← h.left] at hLe
  rw [h.next_eq, hWrote]
  exact UInt32.toNat_ofNat_of_lt' (Nat.lt_of_le_of_lt hLe hBound)

theorem Progress.step (h : s.Progress writer size k) (hSize : size < 2 ^ 32)
    (hLeft : 0 < writer.left size k) (hWrote : writer.answer k (writer.left size k) = .wrote n) :
    (turn writer s).Progress writer size (k + 1) := by
  obtain ⟨hPos, hLe⟩ := writer.bounded hLeft hWrote
  have hFinished := h.finished
  have hLast := h.left
  have hNext := h.next_eq
  have hRet := h.ret_toNat hLeft hWrote
  have hAfter := Writer.left_wrote hWrote
  have hMoved : (s.finished + (s.next writer).result.ret).toNat = s.finished.toNat + n := by
    rw [UInt32.toNat_add, hRet]
    omega
  have hRest : (s.left - (s.next writer).result.ret).toNat = s.left.toNat - n := by
    rw [UInt32.toNat_sub_of_le, hRet]
    rw [UInt32.le_iff_toNat_le, hRet]
    omega
  rw [hWrote] at hNext
  have hWritten : (s.next writer).written = List.range' s.finished.toNat n := by
    rw [hNext]
    rfl
  rw [turn_call h.running (hLast ▸ hLeft)]
  constructor
  · exact h.running
  · rw [List.length_append, h.calls, List.length_singleton]
  · rw [hRest, hAfter, hLast]
  · rw [hMoved, hAfter]
    omega
  · intro call hCall
    rcases List.mem_append.mp hCall with hEarlier | hThis
    · exact h.inside call hEarlier
    · rw [List.mem_singleton.mp hThis, hNext]
      change s.finished.toNat + s.left.toNat ≤ size
      omega
  · intro call hCall
    rcases List.mem_append.mp hCall with hEarlier | hThis
    · exact h.succeeded call hEarlier
    · rw [List.mem_singleton.mp hThis, hNext]
      exact ⟨n, rfl⟩
  · rw [List.flatMap_append, h.written, List.flatMap_singleton, hWritten]
    change _ = List.range (s.finished + (s.next writer).result.ret).toNat
    rw [hMoved]
    simpa only [List.range_eq_range', Nat.zero_add] using
      List.range'_append_1 (s := 0) (m := s.finished.toNat) (n := n)

theorem Progress.not_failed (h : s.Progress writer size k) {before after : List WriteCall}
    {call : WriteCall} (hCalls : s.calls = before ++ call :: after) :
    call.result ≠ .failed errno := by
  intro hFailed
  obtain ⟨n, hWrote⟩ := h.succeeded call (hCalls ▸ List.mem_append_cons_self)
  rw [hWrote] at hFailed
  cases hFailed

/-- Without a failed call the loop is where its caller expects it. -/
theorem Progress.dependable (h : s.Progress writer size k) : s.Dependable size where
  inside := h.inside
  complete hReturned := by
    rw [h.running] at hReturned
    cases hReturned
  retried _ _ _ hCalls hFailed := (h.not_failed hCalls hFailed).elim
  stopped _ _ _ _ hCalls hFailed := (h.not_failed hCalls hFailed).elim

/-- When nothing is left, the whole buffer was written. -/
theorem Progress.done_dependable (h : s.Progress writer size k)
    (hLeft : writer.left size k = 0) :
    ({ s with returned := some 0 } : WriteLoop).Dependable size where
  inside := h.inside
  complete _ := by
    have hFinished := h.finished
    rw [hLeft, Nat.add_zero] at hFinished
    rw [h.written, hFinished]
  retried _ _ _ hCalls hFailed := (h.not_failed hCalls hFailed).elim
  stopped _ _ _ _ hCalls hFailed := (h.not_failed hCalls hFailed).elim

/-- The result of a failed call moves the loop back by one byte. -/
theorem Progress.failed_turn (h : s.Progress writer size k) (hLeft : 0 < writer.left size k)
    (hFailed : writer.answer k (writer.left size k) = .failed errno) :
    turn writer s = { s with
      calls := s.calls ++ [⟨s.finished.toNat, s.left.toNat, .failed errno⟩]
      finished := s.finished - 1
      left := s.left + 1 } := by
  rw [turn_call h.running (h.left ▸ hLeft), h.next_eq, hFailed]
  change WriteLoop.mk (s.left - -1) (s.finished + -1) _ _ = _
  rw [UInt32.sub_neg, ← UInt32.sub_eq_add_neg]

/-- A failed call is not made again as it was, and it does not end the loop. -/
theorem Progress.failed_undependable (h : s.Progress writer size k)
    (hLeft : 0 < writer.left size k)
    (hFailed : writer.answer k (writer.left size k) = .failed errno) {count : Nat}
    (hFirst : (turn writer s).Dependable count)
    (hSecond : (turn writer (turn writer s)).Dependable count) : False := by
  have hTurn := h.failed_turn hLeft hFailed
  by_cases hErrno : errno = eintr
  · rcases Nat.eq_zero_or_pos (s.left + 1).toNat with hNone | hSome
    · rw [turn_done (by rw [hTurn]; exact h.running) (by rw [hTurn]; exact hNone)] at hSecond
      have hRetried := hSecond.retried s.calls _ [] (by rw [hTurn]) (congrArg _ hErrno)
      cases hRetried
    · rw [turn_call (by rw [hTurn]; exact h.running) (by rw [hTurn]; exact hSome)] at hSecond
      have hRetried := hSecond.retried s.calls _ [next writer (turn writer s)]
        (by rw [hTurn, List.append_assoc]; rfl) (congrArg _ hErrno)
      have hMoved : (s.finished - 1).toNat = s.finished.toNat := by
        rw [hTurn] at hRetried
        exact hRetried.1
      have hBound := s.finished.toNat_lt
      rw [UInt32.toNat_sub, UInt32.toNat_one] at hMoved
      omega
  · obtain ⟨-, rc, hReturned, -⟩ := hFirst.stopped s.calls _ [] errno (by rw [hTurn]) rfl hErrno
    rw [hTurn] at hReturned
    rw [h.running] at hReturned
    cases hReturned

end WriteLoop

section Run
variable {count : UInt64}

theorem writeCertainBytes_succ (turns : Nat) :
    writeCertainBytes writer count (turns + 1) =
      WriteLoop.turn writer (writeCertainBytes writer count turns) :=
  Function.iterate_succ_apply' ..

/-- The loop starts with the count as far as it fits. -/
theorem start_progress :
    (WriteLoop.start count).Progress writer (count.toNat % 2 ^ 32) 0 where
  running := rfl
  calls := rfl
  left := UInt64.toNat_toUInt32 count
  finished := Nat.zero_add _
  inside := List.forall_mem_nil _
  succeeded := List.forall_mem_nil _
  written := rfl

theorem progress_run (h : ∀ j < k, 0 < writer.left (count.toNat % 2 ^ 32) j ∧
    ∃ n, writer.answer j (writer.left (count.toNat % 2 ^ 32) j) = .wrote n) :
    (writeCertainBytes writer count k).Progress writer (count.toNat % 2 ^ 32) k := by
  induction k with
  | zero => exact start_progress
  | succ k ih =>
      obtain ⟨hLeft, n, hWrote⟩ := h k (Nat.lt_succ_self k)
      have hBefore := ih fun j hj => h j (Nat.lt_succ_of_lt hj)
      rw [writeCertainBytes_succ]
      exact hBefore.step (Nat.mod_lt _ (by decide)) hLeft hWrote

/-- The first failed call is one that the caller notices. -/
theorem delivers_of_dependable
    (h : ∀ turns, (writeCertainBytes writer count turns).Dependable count.toNat) :
    writer.Delivers (count.toNat % 2 ^ 32) := by
  intro k
  induction k using Nat.strong_induction_on with
  | _ k ih =>
      intro hLeft
      cases hAnswer : writer.answer k (writer.left (count.toNat % 2 ^ 32) k) with
      | wrote n => exact ⟨n, rfl⟩
      | failed errno =>
          have hBefore : (writeCertainBytes writer count k).Progress writer _ k :=
            progress_run fun j hj =>
              have hEarlier := Nat.lt_of_lt_of_le hLeft (Writer.left_antitone (Nat.le_of_lt hj))
              ⟨hEarlier, ih j hj hEarlier⟩
          have hFirst := h (k + 1)
          have hSecond := h (k + 2)
          rw [writeCertainBytes_succ] at hFirst hSecond
          rw [writeCertainBytes_succ] at hSecond
          exact (hBefore.failed_undependable hLeft hAnswer hFirst hSecond).elim

/-- Where no call fails, the loop writes what fits of the count and returns 0. -/
theorem Writer.Delivers.run (h : writer.Delivers (count.toNat % 2 ^ 32)) :
    ∃ last, (∀ turns ≤ last, (writeCertainBytes writer count turns).Progress writer
        (count.toNat % 2 ^ 32) turns) ∧
      writer.left (count.toNat % 2 ^ 32) last = 0 ∧
      ∀ more, writeCertainBytes writer count (last + 1 + more) =
        { writeCertainBytes writer count last with returned := some 0 } := by
  obtain ⟨last, hNone, hBefore⟩ := h.exists_last
  have hProgress : ∀ turns ≤ last, (writeCertainBytes writer count turns).Progress writer
      (count.toNat % 2 ^ 32) turns := by
    intro turns hTurns
    apply progress_run
    intro j hj
    have hLeft := hBefore j (Nat.lt_of_lt_of_le hj hTurns)
    exact ⟨hLeft, h j hLeft⟩
  refine ⟨last, hProgress, hNone, fun more => ?_⟩
  have hEnd := hProgress last (Nat.le_refl last)
  induction more with
  | zero =>
      rw [Nat.add_zero, writeCertainBytes_succ]
      exact WriteLoop.turn_done hEnd.running (hEnd.left.trans hNone)
  | succ more ih =>
      rw [← Nat.add_assoc, writeCertainBytes_succ, ih]
      exact WriteLoop.turn_returned rfl

/-- The loop does what its caller expects if and only if the count fits in an
`unsigned int` and no call fails. -/
theorem write_certain_bytes_dependable_iff (writer : Writer) (count : UInt64) :
    (∀ turns, (writeCertainBytes writer count turns).Dependable count.toNat) ↔
      count.toNat < 2 ^ 32 ∧ writer.Delivers count.toNat := by
  constructor
  · intro h
    have hDelivers := delivers_of_dependable h
    obtain ⟨last, hProgress, hNone, hDone⟩ := hDelivers.run
    have hEnd := (hProgress last (Nat.le_refl last)).done_dependable hNone
    have hComplete := (h (last + 1)).complete
    rw [← Nat.add_zero (last + 1), hDone 0] at hComplete
    have hCount := congrArg List.length ((hEnd.complete rfl).symm.trans (hComplete rfl))
    rw [List.length_range, List.length_range] at hCount
    rw [hCount] at hDelivers
    exact ⟨by omega, hDelivers⟩
  · rintro ⟨hSmall, hDelivers⟩ turns
    have hCount := Nat.mod_eq_of_lt hSmall
    rw [← hCount] at hDelivers
    obtain ⟨last, hProgress, hNone, hDone⟩ := hDelivers.run
    rw [hCount] at hProgress hNone
    rcases Nat.lt_or_ge last turns with hAfter | hBefore
    · obtain ⟨more, rfl⟩ := Nat.exists_eq_add_of_le hAfter
      rw [hDone more]
      exact (hProgress last (Nat.le_refl last)).done_dependable hNone
    · exact (hProgress turns hBefore).dependable

end Run

/-- The first call is interrupted, and the others write all they are asked to. -/
def interruptedWriter : Writer where
  answer k size := if k = 0 then .failed eintr else .wrote size
  bounded := by
    intro k size n hSize h
    split at h
    · cases h
    · cases h
      exact ⟨hSize, Nat.le_refl _⟩

/-- The call made after an interrupted one starts in front of 4 GB behind the
buffer. -/
theorem write_certain_bytes_interrupted :
    ¬ ∀ turns, (writeCertainBytes interruptedWriter 1 turns).Dependable (1 : UInt64).toNat := by
  intro h
  have hInside := (h 2).inside ⟨4294967295, 2, .wrote 2⟩ (by decide)
  exact absurd hInside (by decide)

end TelnetDebug

import TelnetDebug.Library.Traced
import TelnetDebug.Session.Subnegotiation

/-! The accesses of the filter to its buffer, in the order in which the code
makes them. The sizes of a window are read before it is checked that they are
there. -/
namespace TelnetDebug

open CBuffer Guarded Traced

/-- An access to the buffer; a write is told how far the filter has read. -/
inductive IacAccess where
  | read (index : Nat)
  | write (index ptr : Nat)
deriving DecidableEq

/-- Only the bytes handed over are read, and no byte is written in front of
which the filter has not read. -/
def IacAccess.InBounds (uiLen : Nat) : IacAccess → Prop
  | read index => index < uiLen
  | write index ptr => index ≤ ptr

namespace IacScan

def read (f : IacScan) (offset : Nat) : Run IacAccess Empty UInt8 :=
  .event (.read (f.ptr + offset)) (f.look offset)

def write (f : IacScan) (c : UInt8) : Run IacAccess Empty IacScan :=
  .event (.write f.totty f.ptr) (f.put c)

/-- The round of a byte of data. -/
def tracedData (stop : Nat) (f : IacScan) : Run IacAccess Empty (Option IacScan) := do
  let cc ← f.read 0
  let f ← f.write cc
  let f := f.skip 1
  if cc = 13 ∧ f.ptr < stop then
    let c ← f.read 0
    if c = 10 then return some (f.skip 1)
    else
      let c ← f.read 0
      if c = 0 then return some (f.skip 1) else return some f
  else return some f

/-- The round of a command that has a third byte. -/
def tracedOption (sign : CharSign) (stop : Nat) (f : IacScan) :
    Run IacAccess Empty (Option IacScan) := do
  let cmd ← f.read 1
  if sign.value cmd = sb then
    let option ← f.read 2
    if sign.value option = teloptNaws then
      let _ ← f.read 3
      let _ ← f.read 4
      let _ ← f.read 5
      let _ ← f.read 6
      if f.ptr + 8 ≥ stop then return none else return some (f.skip 9)
    else return some (f.skip 3)
  else return some (f.skip 3)

/-- One round with its accesses. -/
def tracedStep (sign : CharSign) (stop : Nat) (f : IacScan) :
    Run IacAccess Empty (Option IacScan) := do
  let c ← f.read 0
  if sign.value c ≠ iac then f.tracedData stop
  else if f.ptr + 1 ≥ stop then return none
  else
    let cmd ← f.read 1
    if sign.value cmd = nop then return some (f.skip 2)
    else
      let cmd ← f.read 1
      if sign.value cmd = iac then
        let literal ← f.read 1
        let g ← f.write literal
        return some (g.skip 2)
      else if f.ptr + 2 ≥ stop then return none
      else f.tracedOption sign stop

def tracedLoop (sign : CharSign) (stop : Nat) : Nat → IacScan → Run IacAccess Empty IacScan
  | 0, f => return f
  | fuel + 1, f => do
      if f.ptr < stop then
        match ← f.tracedStep sign stop with
        | none => return f
        | some f => tracedLoop sign stop fuel f
      else return f

section Erasure
variable (sign : CharSign) (stop : Nat)

theorem tracedData_result (f : IacScan) :
    (f.tracedData stop).result = .ok
      (if f.look 0 = 13 ∧ f.data.ptr < stop ∧ (f.data.look 0 = 10 ∨ f.data.look 0 = 0) then
        some (f.data.skip 1)
      else some f.data) := by
  unfold tracedData
  simp only [read, write, Run.result_event_bind, Run.result_ite, Run.result_pure]
  change (if f.look 0 = 13 ∧ f.data.ptr < stop then
      if f.data.look 0 = 10 then _ else if f.data.look 0 = 0 then _ else _ else _) = _
  by_cases hReturn : f.look 0 = 13 ∧ f.data.ptr < stop
  · by_cases hLf : f.data.look 0 = 10
    · rw [if_pos hReturn, if_pos hLf, if_pos ⟨hReturn.1, hReturn.2, .inl hLf⟩]
      rfl
    · by_cases hNul : f.data.look 0 = 0
      · rw [if_pos hReturn, if_neg hLf, if_pos hNul, if_pos ⟨hReturn.1, hReturn.2, .inr hNul⟩]
        rfl
      · rw [if_pos hReturn, if_neg hLf, if_neg hNul, if_neg fun h => h.2.2.elim hLf hNul]
        rfl
  · rw [if_neg hReturn, if_neg fun h => hReturn ⟨h.1, h.2.1⟩]
    rfl

theorem tracedOption_result (f : IacScan) :
    (f.tracedOption sign stop).result = .ok
      (if sign.value (f.look 1) = sb ∧ sign.value (f.look 2) = teloptNaws then
        if f.ptr + 8 ≥ stop then none else some (f.skip 9)
      else some (f.skip 3)) := by
  unfold tracedOption
  simp only [read, Run.result_event_bind, Run.result_ite, Run.result_pure]
  split_ifs <;> first | rfl | tauto

/-- Without its accesses a round is the round of the filter. -/
theorem tracedStep_erases (f : IacScan) :
    Erases (f.tracedStep sign stop) (.ok (f.step sign stop)) := by
  unfold Erases tracedStep step
  simp only [read, write, Run.result_event_bind, Run.result_ite, Run.result_pure,
    tracedData_result, tracedOption_result]
  split_ifs <;> rfl

theorem tracedLoop_erases (fuel : Nat) (f : IacScan) :
    Erases (tracedLoop sign stop fuel f) (.ok (loop sign stop fuel f)) := by
  induction fuel generalizing f with
  | zero => rfl
  | succ fuel ih =>
      unfold tracedLoop loop
      by_cases hMore : f.ptr < stop
      · rw [if_pos hMore, if_pos hMore]
        unfold Erases
        rw [Run.bind_ok (tracedStep_erases sign stop f)]
        cases f.step sign stop with
        | none => rfl
        | some g => exact ih g
      · rw [if_neg hMore, if_neg hMore]
        rfl

end Erasure

section Bounds
variable {sign : CharSign} {stop : Nat} {f : IacScan} {α : Type}

/-- The accesses stay inside, whatever else is returned. -/
abbrev Inside (stop : Nat) (x : Run IacAccess Empty α) : Prop :=
  Respects x (IacAccess.InBounds stop) (fun _ => True) (fun _ => False)

theorem inside_read {offset : Nat} {k : UInt8 → Run IacAccess Empty α}
    (hIndex : f.ptr + offset < stop) (hRest : Inside stop (k (f.look offset))) :
    Inside stop (f.read offset >>= k) := respects_event_bind hIndex hRest

theorem inside_write {c : UInt8} {k : IacScan → Run IacAccess Empty α}
    (hBehind : f.totty ≤ f.ptr) (hRest : Inside stop (k (f.put c))) :
    Inside stop (f.write c >>= k) := respects_event_bind hBehind hRest

theorem inside_pure (a : α) : Inside stop (pure a) := respects_pure trivial

theorem inside_data (hPtr : f.ptr < stop) (hTotty : f.totty ≤ f.ptr) :
    Inside stop (f.tracedData stop) := by
  unfold tracedData
  apply inside_read hPtr
  apply inside_write hTotty
  dsimp only
  split
  · next hMore =>
    apply inside_read hMore.2
    split
    · exact inside_pure _
    · apply inside_read hMore.2
      split
      · exact inside_pure _
      · exact inside_pure _
  · exact inside_pure _

/-- The sizes of a window are read where they stand in the buffer. -/
theorem inside_option (hPtr : f.ptr + 2 < stop)
    (hSize : sign.value (f.look 1) = sb → sign.value (f.look 2) = teloptNaws → f.ptr + 6 < stop) :
    Inside stop (f.tracedOption sign stop) := by
  unfold tracedOption
  apply inside_read (by omega)
  split
  · next hSb =>
    apply inside_read hPtr
    split
    · next hNaws =>
      have hRoom := hSize hSb hNaws
      apply inside_read (by omega)
      apply inside_read (by omega)
      apply inside_read (by omega)
      apply inside_read hRoom
      split
      · exact inside_pure _
      · exact inside_pure _
    · exact inside_pure _
  · exact inside_pure _

theorem inside_step (hPtr : f.ptr < stop) (hTotty : f.totty ≤ f.ptr)
    (hSize : sign.value (f.look 0) = iac → f.ptr + 2 < stop → sign.value (f.look 1) = sb →
      sign.value (f.look 2) = teloptNaws → f.ptr + 6 < stop) :
    Inside stop (f.tracedStep sign stop) := by
  unfold tracedStep
  apply inside_read hPtr
  split
  · exact inside_data hPtr hTotty
  · next hIac =>
    split
    · exact inside_pure _
    · have hSecond : f.ptr + 1 < stop := by omega
      apply inside_read hSecond
      split
      · exact inside_pure _
      · apply inside_read hSecond
        split
        · apply inside_read hSecond
          apply inside_write hTotty
          exact inside_pure _
        · split
          · exact inside_pure _
          · have hThird : f.ptr + 2 < stop := by omega
            exact inside_option hThird (hSize (not_not.mp hIac) hThird)

/-- A window size that ends in front of its fourth byte is read beyond its end. -/
theorem outside_step (hIac : sign.value (f.look 0) = iac) (hPtr : f.ptr + 2 < stop)
    (hSb : sign.value (f.look 1) = sb) (hNaws : sign.value (f.look 2) = teloptNaws) :
    .read (f.ptr + 6) ∈ (f.tracedStep sign stop).log := by
  have hSecond : ¬ f.ptr + 1 ≥ stop := by omega
  have hThird : ¬ f.ptr + 2 ≥ stop := by omega
  have hNop : sign.value (f.look 1) ≠ nop := by
    rw [hSb]
    decide
  have hLiteral : sign.value (f.look 1) ≠ iac := by
    rw [hSb]
    decide
  unfold tracedStep tracedOption
  simp only [read, Run.log_event_bind]
  rw [if_neg (not_not.mpr hIac), if_neg hSecond]
  simp only [Run.log_event_bind]
  rw [if_neg hNop]
  simp only [Run.log_event_bind]
  rw [if_neg hLiteral, if_neg hThird]
  simp only [Run.log_event_bind]
  rw [if_pos hSb]
  simp only [Run.log_event_bind]
  rw [if_pos hNaws]
  simp

end Bounds

end IacScan

/-- The filter comes to a window size of which fewer than four bytes are there.
In front of it there are bytes of data and whole commands. -/
inductive EndsInSize : List UInt8 → Prop where
  | cut {t : List UInt8} (hShort : t.length < 4) : EndsInSize (0xff :: 250 :: 31 :: t)
  | data {c : UInt8} {s : List UInt8} (hData : c ≠ 0xff) (hRest : EndsInSize s) :
      EndsInSize (c :: s)
  | nop {s : List UInt8} (hRest : EndsInSize s) : EndsInSize (0xff :: 241 :: s)
  | literal {s : List UInt8} (hRest : EndsInSize s) : EndsInSize (0xff :: 0xff :: s)
  | size {w s : List UInt8} (hSix : w.length = 6) (hRest : EndsInSize s) :
      EndsInSize (0xff :: 250 :: 31 :: (w ++ s))
  | command {b x : UInt8} {s : List UInt8} (hNop : b ≠ 241) (hLiteral : b ≠ 0xff)
      (hSize : ¬ (b = 250 ∧ x = 31)) (hRest : EndsInSize s) : EndsInSize (0xff :: b :: x :: s)

/-- The next command is such a window size. -/
def CutSize (s : List UInt8) : Prop := ∃ t, s = 0xff :: 250 :: 31 :: t ∧ t.length < 4

section Condition
variable {s rest kept : List UInt8} {b c x : UInt8}

theorem endsInSize_data (hData : c ≠ 0xff) : EndsInSize (c :: s) ↔ EndsInSize s := by
  constructor
  · intro h
    cases h with
    | data _ hRest => exact hRest
    | cut | nop | literal | size | command => exact absurd rfl hData
  · exact .data hData

theorem endsInSize_nop : EndsInSize (0xff :: 241 :: s) ↔ EndsInSize s := by
  constructor
  · intro h
    cases h with
    | data hData => exact absurd rfl hData
    | nop hRest => exact hRest
    | command hNop => exact absurd rfl hNop
  · exact .nop

theorem endsInSize_literal : EndsInSize (0xff :: 0xff :: s) ↔ EndsInSize s := by
  constructor
  · intro h
    cases h with
    | data hData => exact absurd rfl hData
    | literal hRest => exact hRest
    | command _ hLiteral => exact absurd rfl hLiteral
  · exact .literal

theorem endsInSize_command (hNop : b ≠ 241) (hLiteral : b ≠ 0xff) (hSize : ¬ (b = 250 ∧ x = 31)) :
    EndsInSize (0xff :: b :: x :: s) ↔ EndsInSize s := by
  constructor
  · intro h
    cases h with
    | data hData => exact absurd rfl hData
    | command _ _ _ hRest => exact hRest
    | nop => exact absurd rfl hNop
    | literal => exact absurd rfl hLiteral
    | cut | size => exact absurd ⟨rfl, rfl⟩ hSize
  · exact .command hNop hLiteral hSize

theorem endsInSize_size : EndsInSize (0xff :: 250 :: 31 :: s) ↔
    s.length < 4 ∨ 6 ≤ s.length ∧ EndsInSize (s.drop 6) := by
  constructor
  · intro h
    cases h with
    | data hData => exact absurd rfl hData
    | cut hShort => exact .inl hShort
    | size hSix hRest =>
        refine .inr ⟨?_, ?_⟩
        · rw [List.length_append]
          omega
        · rw [← hSix, List.drop_left]
          exact hRest
    | command _ _ hSize => exact absurd ⟨rfl, rfl⟩ hSize
  · rintro (hShort | ⟨hLong, hRest⟩)
    · exact .cut hShort
    · have hSix : (s.take 6).length = 6 := by
        rw [List.length_take]
        omega
      have hWhole := EndsInSize.size hSix hRest
      rwa [List.take_append_drop] at hWhole

theorem not_endsInSize_short (h : s.length < 2) : ¬ EndsInSize (0xff :: s) := by
  intro hEnds
  cases hEnds with
  | data hData => exact hData rfl
  | nop hRest =>
      cases List.eq_nil_of_length_eq_zero (Nat.lt_one_iff.mp (Nat.lt_of_succ_lt_succ h))
      cases hRest
  | literal hRest =>
      cases List.eq_nil_of_length_eq_zero (Nat.lt_one_iff.mp (Nat.lt_of_succ_lt_succ h))
      cases hRest
  | cut | size | command =>
      simp only [List.length_cons] at h
      omega

/-- What can stand at the front of the bytes that are not read yet. -/
inductive Front : List UInt8 → Prop where
  | empty : Front []
  | data {c : UInt8} {s : List UInt8} (hData : c ≠ 0xff) : Front (c :: s)
  | nop {s : List UInt8} : Front (0xff :: 241 :: s)
  | literal {s : List UInt8} : Front (0xff :: 0xff :: s)
  | size {s : List UInt8} : Front (0xff :: 250 :: 31 :: s)
  | command {b x : UInt8} {s : List UInt8} (hNop : b ≠ 241) (hLiteral : b ≠ 0xff)
      (hSize : ¬ (b = 250 ∧ x = 31)) : Front (0xff :: b :: x :: s)
  | single : Front [0xff]
  | pair {b : UInt8} (hNop : b ≠ 241) (hLiteral : b ≠ 0xff) : Front [0xff, b]

theorem front (s : List UInt8) : Front s := by
  cases s with
  | nil => exact .empty
  | cons c s =>
      by_cases hData : c = 0xff
      · subst hData
        cases s with
        | nil => exact .single
        | cons b s =>
            by_cases hNop : b = 241
            · subst hNop
              exact .nop
            · by_cases hLiteral : b = 0xff
              · subst hLiteral
                exact .literal
              · cases s with
                | nil => exact .pair hNop hLiteral
                | cons x s =>
                    by_cases hSize : b = 250 ∧ x = 31
                    · obtain ⟨rfl, rfl⟩ := hSize
                      exact .size
                    · exact .command hNop hLiteral hSize
      · exact .data hData

theorem endsInSize_skipReturn : EndsInSize (skipReturn s) ↔ EndsInSize s := by
  cases s with
  | nil => exact Iff.rfl
  | cons d s =>
      rw [skipReturn]
      split
      · next hPad =>
        have hd : d ≠ 0xff := by
          rintro rfl
          exact absurd hPad (by decide)
        exact (endsInSize_data hd).symm
      · exact Iff.rfl

/-- A round leaves bytes that end like those it was given. -/
theorem endsInSize_next (h : decodeNext .unsigned s = some (kept, rest)) :
    EndsInSize s ↔ EndsInSize rest := by
  cases front s with
  | empty => cases h
  | data hData =>
      rw [decodeNext_data hData] at h
      cases h
      rw [endsInSize_data hData]
      split
      · exact endsInSize_skipReturn.symm
      · exact Iff.rfl
  | nop =>
      cases decodeNext_nop.symm.trans h
      exact endsInSize_nop
  | literal =>
      cases decodeNext_literal.symm.trans h
      exact endsInSize_literal
  | @size s =>
      rw [decodeNext_size] at h
      by_cases hShort : s.length < 6
      · rw [if_pos hShort] at h
        cases h
      · rw [if_neg hShort] at h
        cases h
        have hLong : ¬ s.length < 4 := by omega
        rw [endsInSize_size, or_iff_right hLong, and_iff_right (Nat.le_of_not_lt hShort)]
  | command hNop hLiteral hSize =>
      cases (decodeNext_command hNop hLiteral hSize).symm.trans h
      exact endsInSize_command hNop hLiteral hSize
  | single => cases h
  | pair hNop hLiteral => cases (decodeNext_pair hNop hLiteral).symm.trans h

/-- The last round is in front of a cut window size, or there is none. -/
theorem endsInSize_last (h : decodeNext .unsigned s = none) : EndsInSize s ↔ CutSize s := by
  cases front s with
  | empty =>
      constructor
      · intro hEnds
        cases hEnds
      · rintro ⟨t, hSplit, -⟩
        cases hSplit
  | data hData => cases (decodeNext_data hData).symm.trans h
  | nop => cases decodeNext_nop.symm.trans h
  | literal => cases decodeNext_literal.symm.trans h
  | @size s =>
      rw [decodeNext_size] at h
      have hShort : s.length < 6 := by
        by_contra hLong
        rw [if_neg hLong] at h
        cases h
      have hNone : ¬ (6 ≤ s.length ∧ EndsInSize (s.drop 6)) := fun hLong => by omega
      rw [endsInSize_size, or_iff_left hNone]
      constructor
      · intro hFew
        exact ⟨s, rfl, hFew⟩
      · rintro ⟨t, hSplit, hFew⟩
        cases hSplit
        exact hFew
  | command hNop hLiteral hSize => cases (decodeNext_command hNop hLiteral hSize).symm.trans h
  | single =>
      refine iff_of_false (not_endsInSize_short Nat.two_pos) ?_
      rintro ⟨t, hSplit, -⟩
      cases hSplit
  | pair hNop hLiteral =>
      refine iff_of_false (not_endsInSize_short Nat.one_lt_two) ?_
      rintro ⟨t, hSplit, -⟩
      cases hSplit

theorem not_cutSize_next (h : decodeNext .unsigned s = some (kept, rest)) : ¬ CutSize s := by
  rintro ⟨t, rfl, hShort⟩
  have hFew : t.length < 6 := by omega
  rw [decodeNext_size, if_pos hFew] at h
  cases h

end Condition

namespace IacScan

section Rounds
variable {stop : Nat} {done unread tail : List UInt8} {f : IacScan}

/-- A round stays inside the buffer unless it is in front of a cut window size. -/
theorem Reads.inside_iff (h : Reads stop done unread tail f) (hMore : unread ≠ []) :
    (∀ a ∈ (f.tracedStep .unsigned stop).log, a.InBounds stop) ↔ ¬ CutSize unread := by
  obtain ⟨gap, -, hPtr⟩ := h.split
  have hStop := h.stop
  have hPos := List.length_pos_iff.mpr hMore
  have hTotty : f.totty ≤ f.ptr := by
    rw [h.totty, hPtr, List.length_append]
    exact Nat.le_add_right _ _
  constructor
  · rintro hInside ⟨t, rfl, hShort⟩
    simp only [List.length_cons] at hStop
    have hIac : CharSign.unsigned.value (f.look 0) = iac := by
      rw [h.look (Nat.succ_pos _)]
      rfl
    have hSb : CharSign.unsigned.value (f.look 1) = sb := by
      rw [h.look (Nat.succ_lt_succ (Nat.succ_pos _))]
      rfl
    have hNaws : CharSign.unsigned.value (f.look 2) = teloptNaws := by
      rw [h.look (Nat.succ_lt_succ (Nat.succ_lt_succ (Nat.succ_pos _)))]
      rfl
    have hRead : f.ptr + 6 < stop := hInside _ (outside_step hIac (by omega) hSb hNaws)
    omega
  · intro hCut
    refine (inside_step (by omega) hTotty fun hIac hThird hSb hNaws => ?_).events
    obtain ⟨c, b, x, t, rfl⟩ : ∃ c b x t, unread = c :: b :: x :: t := by
      cases unread with
      | nil => exact absurd rfl hMore
      | cons c unread =>
          cases unread with
          | nil => simp only [List.length_singleton] at hStop; omega
          | cons b unread =>
              cases unread with
              | nil => simp only [List.length_cons, List.length_nil] at hStop; omega
              | cons x t => exact ⟨c, b, x, t, rfl⟩
    rw [h.look (Nat.succ_pos _)] at hIac
    rw [h.look (Nat.succ_lt_succ (Nat.succ_pos _))] at hSb
    rw [h.look (Nat.succ_lt_succ (Nat.succ_lt_succ (Nat.succ_pos _)))] at hNaws
    obtain rfl : c = 0xff := unsigned_iac.mp hIac
    obtain rfl : b = 250 := (unsigned_value b 250).mp hSb
    obtain rfl : x = 31 := (unsigned_value x 31).mp hNaws
    have hLong : ¬ t.length < 4 := fun hShort => hCut ⟨t, rfl, hShort⟩
    simp only [List.length_cons] at hStop
    omega

theorem tracedLoop_log {fuel : Nat} (hMore : f.ptr < stop) :
    (tracedLoop .unsigned stop (fuel + 1) f).log = (f.tracedStep .unsigned stop).log ++
      match f.step .unsigned stop with
      | none => []
      | some g => (tracedLoop .unsigned stop fuel g).log := by
  rw [tracedLoop, if_pos hMore, Run.bind_ok (tracedStep_erases .unsigned stop f)]
  cases f.step .unsigned stop with
  | none => rfl
  | some g => rfl

/-- All rounds stay inside the buffer unless one comes to a cut window size. -/
theorem Reads.run_inside_iff (h : Reads stop done unread tail f) {fuel : Nat}
    (hFuel : unread.length ≤ fuel) :
    (∀ a ∈ (tracedLoop .unsigned stop fuel f).log, a.InBounds stop) ↔ ¬ EndsInSize unread := by
  induction fuel generalizing f done unread with
  | zero =>
      obtain rfl : unread = [] := List.eq_nil_of_length_eq_zero (Nat.le_zero.mp hFuel)
      refine iff_of_true (fun a ha => absurd ha List.not_mem_nil) fun hEnds => ?_
      cases hEnds
  | succ fuel ih =>
      by_cases hMore : unread = []
      · have hEnd : ¬ f.ptr < stop := by
          rw [h.stop, hMore]
          exact Nat.lt_irrefl _
        subst hMore
        rw [tracedLoop, if_neg hEnd]
        refine iff_of_true (fun a ha => absurd ha List.not_mem_nil) fun hEnds => ?_
        cases hEnds
      · have hPtr : f.ptr < stop := by
          rw [h.stop]
          exact Nat.lt_add_of_pos_right (List.length_pos_iff.mpr hMore)
        have hStep := h.step .unsigned hMore
        have hRound := h.inside_iff hMore
        rw [tracedLoop_log hPtr]
        cases hNext : decodeNext .unsigned unread with
        | none =>
            rw [hNext] at hStep
            simp only at hStep
            rw [hStep, List.append_nil, hRound, endsInSize_last hNext]
        | some next =>
            obtain ⟨kept, rest⟩ := next
            rw [hNext] at hStep
            obtain ⟨g, hg, hReads⟩ := hStep
            have hShorter := decodeNext_length hNext
            have hRest := ih hReads (by omega)
            rw [hg, endsInSize_next hNext, ← hRest]
            simp only [List.forall_mem_append]
            exact and_iff_right (hRound.mpr (not_cutSize_next hNext))

end Rounds

end IacScan

/-- The filter with its accesses. -/
def tracedRemoveIac (sign : CharSign) (buf : List UInt8) (uiLen : Nat) :
    Run IacAccess Empty (List UInt8 × Nat) := do
  let f ← IacScan.tracedLoop sign uiLen uiLen ⟨buf, 0, 0⟩
  return (f.buf, f.totty)

theorem tracedRemoveIac_erases (sign : CharSign) (buf : List UInt8) (uiLen : Nat) :
    Erases (tracedRemoveIac sign buf uiLen) (.ok (telnetdRemoveIac sign buf uiLen)) :=
  (IacScan.tracedLoop_erases sign uiLen uiLen ⟨buf, 0, 0⟩).bind fun _ => rfl

/-- The filter accesses only what it may, its loop is left, and it returns no
more than it was given. -/
structure FilterInBounds (s tail : List UInt8) : Prop where
  result : Erases (tracedRemoveIac .unsigned (s ++ tail) s.length)
    (.ok (telnetdRemoveIac .unsigned (s ++ tail) s.length))
  accesses : ∀ a ∈ (tracedRemoveIac .unsigned (s ++ tail) s.length).log, a.InBounds s.length
  ends : ∀ extra, IacScan.loop .unsigned s.length (s.length + extra) ⟨s ++ tail, 0, 0⟩ =
    IacScan.loop .unsigned s.length s.length ⟨s ++ tail, 0, 0⟩
  count : (telnetdRemoveIac .unsigned (s ++ tail) s.length).2 ≤ s.length

/-- For every buffer and every length: the filter stays inside exactly when it
does not come to a window size whose four bytes are not all there. -/
theorem filter_in_bounds_iff (s tail : List UInt8) : FilterInBounds s tail ↔ ¬ EndsInSize s := by
  have hStart : IacScan.Reads s.length [] s tail ⟨s ++ tail, 0, 0⟩ :=
    ⟨⟨[], rfl, rfl⟩, rfl, (Nat.zero_add _).symm⟩
  have hLog : (tracedRemoveIac .unsigned (s ++ tail) s.length).log =
      (IacScan.tracedLoop .unsigned s.length s.length ⟨s ++ tail, 0, 0⟩).log := by
    rw [tracedRemoveIac, Run.bind_ok (IacScan.tracedLoop_erases .unsigned _ _ _)]
    exact List.append_nil _
  rw [← hStart.run_inside_iff (Nat.le_refl _), ← hLog]
  constructor
  · intro hBounds
    exact hBounds.accesses
  · intro hAccesses
    obtain ⟨hCount, hResult⟩ := telnetdRemoveIac_decode .unsigned s tail
    refine ⟨tracedRemoveIac_erases .unsigned (s ++ tail) s.length, hAccesses,
      IacScan.loop_ended (by rw [Nat.zero_add]), ?_⟩
    rw [hResult]
    exact hCount

/-- A buffer that ends behind the option of a window size is read behind its end. -/
theorem filter_reads_behind :
    .read 3 ∈ (tracedRemoveIac .unsigned [0xff, 250, 31] 3).log ∧
      ¬ FilterInBounds [0xff, 250, 31] [] := by
  have hRead : .read 3 ∈ (tracedRemoveIac .unsigned [0xff, 250, 31] 3).log := by decide +kernel
  refine ⟨hRead, fun hBounds => ?_⟩
  have hIndex : 3 < 3 := hBounds.accesses (.read 3) hRead
  omega

end TelnetDebug

import TelnetDebug.Command.Parse
import TelnetDebug.Library.Traced

/-! The accesses of the argument scanner. It jumps from comma to comma and puts a
NUL over the closing quote of a string, but never reads that byte again: what is
in front of it is as it was. -/
namespace TelnetDebug

open CBuffer Guarded Traced

/-- An access to the text or to the array of arguments. -/
inductive ScanAccess where
  | read (position : Nat)
  | write (position : Nat)
  | arg (slot : Nat)
deriving DecidableEq

/-- The text between the two positions and the slots of the array. -/
def ScanAccess.InBounds (paraStrBegin paraStrEnd : Nat) : ScanAccess → Prop
  | read position => paraStrBegin ≤ position ∧ position ≤ paraStrEnd
  | write position => paraStrBegin ≤ position ∧ position ≤ paraStrEnd
  | arg slot => slot < maxArgNum

section Model
variable {n : Nat}

/-- The bytes of a string with its terminator. `strtol` reads no more of them. -/
def stringReads (line : Buffer UInt8 n) (p : Nat) : List ScanAccess :=
  (List.range' p ((text (line.cells.drop p)).length + 1)).map .read

/-- The bytes up to the first `c`, or up to the terminator. -/
def searchReads (line : Buffer UInt8 n) (p : Nat) (c : UInt8) : List ScanAccess :=
  (List.range' p (((text (line.cells.drop p)).takeWhile (· ≠ c)).length + 1)).map .read

/-- The accesses of the scanner, each of which is checked and logged. -/
def readByte (line : Buffer UInt8 n) (p : Nat) : Run ScanAccess Crash UInt8 :=
  .lift [.read p] (onLine (line.get p))

def readString (line : Buffer UInt8 n) (p : Nat) : Run ScanAccess Crash (List UInt8) :=
  .lift (stringReads line p) (onLine (line.strAt p))

def searchByte (line : Buffer UInt8 n) (p : Nat) (c : UInt8) : Run ScanAccess Crash (Option Nat) :=
  .lift (searchReads line p c) (onLine (line.strchr p c))

def cutAt (line : Buffer UInt8 n) (p : Nat) : Run ScanAccess Crash (Buffer UInt8 n) :=
  .lift [.write p] (onLine (line.set p 0))

def storeArg (args : Args) (slot : Nat) (a : Arg) : Run ScanAccess Crash Args :=
  .lift [.arg slot] (onArgs (args.set slot a))

/-- One argument. The bytes tested first are all the same. -/
def tracedArg (line : Buffer UInt8 n) (args : Args) (argNr curArg : Nat) :
    Run ScanAccess Crash (ParsedArg n) := do
  let c ← readByte line curArg
  if ¬ isDigit c ∧ c ≠ 0x2d ∧ c ≠ 0x22 then return ⟨false, line, args, curArg⟩
  else if isDigit c ∨ c = 0x2d then
    let number ← readString line curArg
    let args ← storeArg args argNr (.long (Strtol.strtol number))
    return ⟨true, line, args, curArg⟩
  else if c = 0x22 then
    let args ← storeArg args argNr (.pointer (curArg + 1))
    match ← searchByte line (curArg + 1) 0x22 with
    | none => return ⟨false, line, args, curArg + 1⟩
    | some quote =>
        let line ← cutAt line quote
        return ⟨true, line, args, quote + 1⟩
  else return ⟨false, line, args, curArg⟩

def tracedArgsLoop (paraStrEnd : Nat) :
    (room : Nat) → Buffer UInt8 n → Args → (argNr curArg : Nat) → Run ScanAccess Crash (Parsed n)
  | 0, line, args, _, _ => return ⟨0, line, args⟩
  | room + 1, line, args, argNr, curArg =>
      if curArg = paraStrEnd then return ⟨-1, line, args⟩
      else do
        let arg ← tracedArg line args argNr curArg
        if arg.accepted then
          match ← searchByte arg.line arg.curArg 0x2c with
          | some tmp => tracedArgsLoop paraStrEnd room arg.line arg.args (argNr + 1) (tmp + 1)
          | none => return ⟨0, arg.line, arg.args⟩
        else return ⟨-1, arg.line, arg.args⟩

def tracedFunctionArgs (line : Buffer UInt8 n) (args : Args) (paraStrBegin paraStrEnd : Nat) :
    Run ScanAccess Crash (Parsed n) :=
  if paraStrBegin = paraStrEnd then return ⟨0, line, args⟩
  else tracedArgsLoop paraStrEnd maxArgNum line args 0 paraStrBegin

/-- Without its accesses the scanner is the one of the source. -/
theorem tracedArg_erases (line : Buffer UInt8 n) (args : Args) (argNr curArg : Nat) :
    Erases (tracedArg line args argNr curArg) (parseArg line args argNr curArg) := by
  refine (erases_lift _ _).bind fun c => ?_
  refine erases_ite (fun _ => erases_pure _) fun _ => ?_
  refine erases_ite (fun _ => ?_) fun _ => erases_ite (fun _ => ?_) fun _ => erases_pure _
  · refine (erases_lift _ _).bind fun number => ?_
    exact (erases_lift _ _).bind fun args => erases_pure _
  · refine (erases_lift _ _).bind fun args => ?_
    refine (erases_lift _ _).bind fun quote => ?_
    cases quote with
    | none => exact erases_pure _
    | some quote => exact (erases_lift _ _).bind fun line => erases_pure _

theorem tracedArgsLoop_erases (paraStrEnd room : Nat) (line : Buffer UInt8 n) (args : Args)
    (argNr curArg : Nat) :
    Erases (tracedArgsLoop paraStrEnd room line args argNr curArg)
      (argsLoop paraStrEnd room line args argNr curArg) := by
  induction room generalizing line args argNr curArg with
  | zero => exact erases_pure _
  | succ room ih =>
      refine erases_ite (fun _ => erases_pure _) fun _ => ?_
      refine (tracedArg_erases line args argNr curArg).bind fun arg => ?_
      refine erases_ite (fun _ => ?_) fun _ => erases_pure _
      refine (erases_lift _ _).bind fun tmp => ?_
      cases tmp with
      | none => exact erases_pure _
      | some tmp => exact ih ..

theorem tracedFunctionArgs_erases (line : Buffer UInt8 n) (args : Args)
    (paraStrBegin paraStrEnd : Nat) :
    Erases (tracedFunctionArgs line args paraStrBegin paraStrEnd)
      (parseFunctionArgs line args paraStrBegin paraStrEnd) :=
  erases_ite (fun _ => erases_pure _) fun _ => tracedArgsLoop_erases ..

/-- The quote at `position` closes the string that begins at `start`. -/
structure ClosingQuote (cells : List UInt8) (start position : Nat) : Prop where
  behindQuote : 0 < start ∧ cells[start - 1]? = some 0x22
  quote : start ≤ position ∧ cells[position]? = some 0x22
  first : ∀ i, start ≤ i → i < position → cells[i]? ≠ some 0x22

/-- The changes to a text: a byte that is not what it was is a NUL, and was the
closing quote of a string that is among the first arguments. -/
def OnlyQuotesCut (before after : Buffer UInt8 n) (args : Args) (argNr : Nat) : Prop :=
  ∀ i, after.cells[i]? ≠ before.cells[i]? → after.cells[i]? = some 0 ∧
    ∃ slot < argNr, ∃ start, args.cells[slot]? = some (.pointer start) ∧
      ClosingQuote before.cells start i

/-- What holds where an argument begins, and in front of every search: the text
is unchanged from `cur` on, and its end is not passed. -/
structure Scanning (before line : Buffer UInt8 n) (paraStrEnd : Nat) (args : Args)
    (argNr cur : Nat) : Prop where
  inside : cur ≤ paraStrEnd
  stop : line.cells[paraStrEnd]? = some 0
  ahead : ∀ i, cur ≤ i → line.cells[i]? = before.cells[i]?
  changed : OnlyQuotesCut before line args argNr

end Model

section Invariant
variable {n : Nat} {before line : Buffer UInt8 n} {args : Args}
variable {paraStrBegin paraStrEnd argNr cur : Nat}

theorem OnlyQuotesCut.mono (h : OnlyQuotesCut before line args argNr) {args' : Args}
    {argNr' : Nat} (hMore : argNr ≤ argNr')
    (hSame : ∀ slot < argNr, args'.cells[slot]? = args.cells[slot]?) :
    OnlyQuotesCut before line args' argNr' := by
  intro i hi
  obtain ⟨hZero, slot, hSlot, start, hArg, hQuote⟩ := h i hi
  refine ⟨hZero, slot, by omega, start, ?_, hQuote⟩
  rw [hSame slot hSlot, hArg]

/-- The next slot of the array is written, the ones in front of it stay. -/
theorem set_next (args : Args) (hRoom : argNr < maxArgNum) (a : Arg) :
    ∃ args', args.set argNr a = .ok args' ∧ args'.cells[argNr]? = some a ∧
      ∀ slot < argNr, args'.cells[slot]? = args.cells[slot]? := by
  obtain ⟨args', hSet, hArgs⟩ := args.set_inside hRoom a
  rw [← args.size] at hRoom
  refine ⟨args', hSet, ?_, fun slot hSlot => ?_⟩
  · rw [hArgs, List.getElem?_set_self hRoom]
  · rw [hArgs, List.getElem?_set_ne (Nat.ne_of_gt hSlot)]

theorem stringReads_inBounds (hStop : line.cells[paraStrEnd]? = some 0) {p : Nat}
    (hBegin : paraStrBegin ≤ p) (hEnd : p ≤ paraStrEnd) :
    ∀ access ∈ stringReads line p, access.InBounds paraStrBegin paraStrEnd := by
  have hLength := (Buffer.terminated_of_zero hStop hEnd).2
  intro access hAccess
  obtain ⟨i, hi, rfl⟩ := List.mem_map.mp hAccess
  rw [List.mem_range'_1] at hi
  exact ⟨by omega, by omega⟩

theorem searchReads_inBounds (hStop : line.cells[paraStrEnd]? = some 0) {p : Nat}
    (hBegin : paraStrBegin ≤ p) (hEnd : p ≤ paraStrEnd) (c : UInt8) :
    ∀ access ∈ searchReads line p c, access.InBounds paraStrBegin paraStrEnd := by
  have hLength := (Buffer.terminated_of_zero hStop hEnd).2
  have hPrefix := (List.takeWhile_prefix (· ≠ c) (l := text (line.cells.drop p))).length_le
  intro access hAccess
  obtain ⟨i, hi, rfl⟩ := List.mem_map.mp hAccess
  rw [List.mem_range'_1] at hi
  exact ⟨by omega, by omega⟩

theorem Scanning.search (h : Scanning before line paraStrEnd args argNr cur)
    (hBegin : paraStrBegin ≤ cur) (c : UInt8) :
    Respects (searchByte line cur c)
      (ScanAccess.InBounds paraStrBegin paraStrEnd)
      (fun found => ∀ q, found = some q → cur ≤ q ∧ q < paraStrEnd ∧ line.cells[q]? = some c ∧
        ∀ j, cur ≤ j → j < q → line.cells[j]? ≠ some c) (fun _ => False) := by
  obtain ⟨found, hFound, hPlace⟩ := Buffer.strchr_ends h.stop h.inside c
  rw [searchByte, hFound, onLine_ok]
  exact respects_lift (searchReads_inBounds h.stop hBegin h.inside c) hPlace

/-- The text in front of the cursor is not looked at again. -/
theorem Scanning.advance (h : Scanning before line paraStrEnd args argNr cur) {cur' : Nat}
    (hForward : cur ≤ cur') (hInside : cur' ≤ paraStrEnd) :
    Scanning before line paraStrEnd args argNr cur' :=
  ⟨hInside, h.stop, fun i hi => h.ahead i (Nat.le_trans hForward hi), h.changed⟩

theorem Scanning.store (h : Scanning before line paraStrEnd args argNr cur) {args' : Args}
    (hSame : ∀ slot < argNr, args'.cells[slot]? = args.cells[slot]?) :
    Scanning before line paraStrEnd args' (argNr + 1) cur :=
  ⟨h.inside, h.stop, h.ahead, h.changed.mono (Nat.le_succ argNr) hSame⟩

/-- The closing quote of the string in the last slot becomes a NUL. -/
theorem Scanning.cut (h : Scanning before line paraStrEnd args (argNr + 1) cur) {start q : Nat}
    (hArg : args.cells[argNr]? = some (.pointer start))
    (hQuote : ClosingQuote before.cells start q) (hAhead : cur ≤ q) (hLast : q < paraStrEnd) :
    ∃ line', line.set q 0 = .ok line' ∧
      Scanning before line' paraStrEnd args (argNr + 1) (q + 1) := by
  have hLength : q < line.cells.length := by
    have hCell := (h.ahead q hAhead).trans hQuote.quote.2
    exact (List.getElem?_eq_some_iff.mp hCell).1
  refine ⟨⟨line.cells.set q 0, by rw [List.length_set, line.size]⟩,
    if_pos (by rwa [line.size] at hLength), hLast, ?_, ?_, ?_⟩
  · rw [List.getElem?_set_ne (by omega)]
    exact h.stop
  · intro i hi
    rw [List.getElem?_set_ne (by omega)]
    exact h.ahead i (by omega)
  · intro i hi
    by_cases hSame : q = i
    · subst hSame
      exact ⟨List.getElem?_set_self hLength, argNr, Nat.lt_succ_self argNr, start, hArg, hQuote⟩
    · rw [List.getElem?_set_ne hSame] at hi ⊢
      exact h.changed i hi

/-- An argument is read inside the text, is stored in its slot, and leaves the
cursor inside. -/
theorem tracedArg_respects (h : Scanning before line paraStrEnd args argNr cur)
    (hBegin : paraStrBegin ≤ cur) (hRoom : argNr < maxArgNum) :
    Respects (tracedArg line args argNr cur) (ScanAccess.InBounds paraStrBegin paraStrEnd)
      (fun arg => paraStrBegin ≤ arg.curArg ∧
        Scanning before arg.line paraStrEnd arg.args (argNr + 1) arg.curArg)
      (fun _ => False) := by
  have hSlot : ∀ access ∈ [ScanAccess.arg argNr], access.InBounds paraStrBegin paraStrEnd := by
    simpa [ScanAccess.InBounds] using hRoom
  have hHere : ∀ access ∈ [ScanAccess.read cur], access.InBounds paraStrBegin paraStrEnd := by
    simpa [ScanAccess.InBounds] using ⟨hBegin, h.inside⟩
  have hUnchanged : Scanning before line paraStrEnd args (argNr + 1) cur :=
    h.store fun _ _ => rfl
  obtain ⟨c, hCell⟩ : ∃ c, line.cells[cur]? = some c := by
    have hEnd := (List.getElem?_eq_some_iff.mp h.stop).1
    have hInside : cur < line.cells.length := Nat.lt_of_le_of_lt h.inside hEnd
    exact ⟨_, List.getElem?_eq_getElem hInside⟩
  have hGet : onLine (line.get cur) = .ok c := by rw [Buffer.get_eq hCell, onLine_ok]
  rw [tracedArg, readByte, hGet]
  refine respects_lift_bind hHere ?_
  split
  · exact respects_pure ⟨hBegin, hUnchanged⟩
  split
  · have hText : onLine (line.strAt cur) = .ok (text (line.cells.drop cur)) := by
      rw [Buffer.strAt_ends h.stop h.inside, onLine_ok]
    obtain ⟨args', hSet, -, hSame⟩ := set_next args hRoom
      (.long (Strtol.strtol (text (line.cells.drop cur))))
    rw [readString, hText]
    refine respects_lift_bind (stringReads_inBounds h.stop hBegin h.inside) ?_
    rw [storeArg, hSet, onArgs_ok]
    refine respects_lift_bind hSlot ?_
    exact respects_pure ⟨hBegin, h.store hSame⟩
  split
  case isFalse => exact respects_pure ⟨hBegin, hUnchanged⟩
  case isTrue hQuote =>
      subst hQuote
      have hBefore : cur < paraStrEnd := by
        rcases Nat.lt_or_eq_of_le h.inside with hLt | hSame
        · exact hLt
        · rw [hSame, h.stop] at hCell
          cases hCell
      obtain ⟨args', hSet, hArg, hSame⟩ := set_next args hRoom (.pointer (cur + 1))
      have hStored := (h.store hSame).advance (Nat.le_succ cur) hBefore
      have hInside : paraStrBegin ≤ cur + 1 := Nat.le_succ_of_le hBegin
      rw [storeArg, hSet, onArgs_ok]
      refine respects_lift_bind hSlot ?_
      refine respects_bind (hStored.search hInside 0x22) fun found hFound => ?_
      cases found with
      | none => exact respects_pure ⟨hInside, hStored⟩
      | some q =>
          obtain ⟨hAhead, hLast, hAt, hFirst⟩ := hFound q rfl
          have hCloses : ClosingQuote before.cells (cur + 1) q :=
            ⟨⟨by omega, by rw [← hCell]; exact (h.ahead cur (Nat.le_refl cur)).symm⟩,
              ⟨hAhead, by rw [← hAt]; exact (h.ahead q (by omega)).symm⟩,
              fun i hi hq => by rw [← h.ahead i (by omega)]; exact hFirst i hi hq⟩
          obtain ⟨line', hCut, hNext⟩ := hStored.cut hArg hCloses hAhead hLast
          have hWrite : ∀ access ∈ [ScanAccess.write q],
              access.InBounds paraStrBegin paraStrEnd := by
            simpa [ScanAccess.InBounds] using ⟨by omega, by omega⟩
          have hBehind : paraStrBegin ≤ q + 1 := by omega
          dsimp only
          rw [cutAt, hCut, onLine_ok]
          exact respects_lift_bind hWrite (respects_pure ⟨hBehind, hNext⟩)

/-- The rounds that are left find room for their arguments. -/
theorem tracedArgsLoop_respects {room : Nat} (h : Scanning before line paraStrEnd args argNr cur)
    (hBegin : paraStrBegin ≤ cur) (hRoom : argNr + room ≤ maxArgNum) :
    Respects (tracedArgsLoop paraStrEnd room line args argNr cur)
      (ScanAccess.InBounds paraStrBegin paraStrEnd)
      (fun parsed => OnlyQuotesCut before parsed.line parsed.args maxArgNum) (fun _ => False) := by
  have hDone {line' : Buffer UInt8 n} {args' : Args} {argNr' : Nat} (hSlots : argNr' ≤ maxArgNum)
      (hChanged : OnlyQuotesCut before line' args' argNr') :
      OnlyQuotesCut before line' args' maxArgNum := hChanged.mono hSlots fun _ _ => rfl
  induction room generalizing line args argNr cur with
  | zero => exact respects_pure (hDone hRoom h.changed)
  | succ room ih =>
      rw [tracedArgsLoop]
      split
      · exact respects_pure (hDone (by omega) h.changed)
      · refine respects_bind (tracedArg_respects h hBegin (by omega)) fun arg hArg => ?_
        split
        case isFalse => exact respects_pure (hDone (by omega) hArg.2.changed)
        case isTrue =>
            refine respects_bind (hArg.2.search hArg.1 0x2c) fun found hFound => ?_
            cases found with
            | none => exact respects_pure (hDone (by omega) hArg.2.changed)
            | some tmp =>
                obtain ⟨hAhead, hLast, -⟩ := hFound tmp rfl
                have hPlace := hArg.1
                exact ih (hArg.2.advance (by omega) hLast) (by omega) (by omega)

theorem tracedFunctionArgs_respects (hStop : line.cells[paraStrEnd]? = some 0) (args : Args)
    (hBegin : paraStrBegin ≤ paraStrEnd) :
    Respects (tracedFunctionArgs line args paraStrBegin paraStrEnd)
      (ScanAccess.InBounds paraStrBegin paraStrEnd)
      (fun parsed => OnlyQuotesCut line parsed.line parsed.args maxArgNum) (fun _ => False) := by
  unfold tracedFunctionArgs
  split
  · exact respects_pure fun i hi => absurd rfl hi
  · have hStart : Scanning line line paraStrEnd args 0 paraStrBegin :=
      ⟨hBegin, hStop, fun _ _ => rfl, fun i hi => absurd rfl hi⟩
    exact tracedArgsLoop_respects hStart (Nat.le_refl _) (by decide)

/-- An argument that is accepted was stored. -/
theorem tracedArg_stores {arg : ParsedArg n}
    (hArg : (tracedArg line args argNr cur).result = .ok arg) (hAccepted : arg.accepted = true) :
    .arg argNr ∈ (tracedArg line args argNr cur).log := by
  have hRejected {x : ParsedArg n} {log : List ScanAccess} (hNone : x.accepted = false)
      (hPure : (pure x : Run ScanAccess Crash (ParsedArg n)).result = .ok arg) :
      .arg argNr ∈ log := by
    cases hPure
    rw [hAccepted] at hNone
    cases hNone
  unfold tracedArg at hArg ⊢
  obtain ⟨c, -, hFirst, hLog⟩ := Run.bind_returns hArg
  rw [hLog]
  refine List.mem_append_right _ ?_
  split_ifs at hFirst ⊢ with hOther hNumber
  · exact hRejected rfl hFirst
  · obtain ⟨number, -, hStore, hLog⟩ := Run.bind_returns hFirst
    obtain ⟨args', -, -, hLog'⟩ := Run.bind_returns hStore
    rw [hLog, hLog']
    exact List.mem_append_right _ List.mem_cons_self
  · obtain ⟨args', -, -, hLog⟩ := Run.bind_returns hFirst
    rw [hLog]
    exact List.mem_cons_self
  · exact hRejected rfl hFirst

/-- Where the loop accepts arguments, it has stored the first one. -/
theorem tracedFunctionArgs_stores {parsed : Parsed n}
    (hParsed : (tracedFunctionArgs line args paraStrBegin paraStrEnd).result = .ok parsed)
    (hAccepted : parsed.ret = 0) (hSome : paraStrBegin < paraStrEnd) :
    .arg 0 ∈ (tracedFunctionArgs line args paraStrBegin paraStrEnd).log := by
  have hNe : paraStrBegin ≠ paraStrEnd := Nat.ne_of_lt hSome
  rw [tracedFunctionArgs, if_neg hNe, show maxArgNum = 7 + 1 from rfl, tracedArgsLoop,
    if_neg hNe] at hParsed ⊢
  obtain ⟨arg, hArg, hRest, hLog⟩ := Run.bind_returns hParsed
  rw [hLog]
  refine List.mem_append_left _ (tracedArg_stores hArg ?_)
  by_contra hRejected
  rw [if_neg hRejected] at hRest
  cases hRest
  exact absurd (show (-1 : UInt32) = 0 from hAccepted) (by decide)

/-- The parser calls the scanner on the text between the parentheses, after a
NUL was put on the closing one. There the scanner returns, in at most as many
rounds as the array has slots. It stays between the two positions and in the
array, stores an argument when it accepts some, and cuts off closing quotes. -/
theorem scanner_in_bounds (line : Buffer UInt8 n) (args : Args)
    (hStop : line.cells[paraStrEnd]? = some 0) (hBegin : paraStrBegin ≤ paraStrEnd) :
    ∃ parsed, parseFunctionArgs line args paraStrBegin paraStrEnd = .ok parsed ∧
      (tracedFunctionArgs line args paraStrBegin paraStrEnd).result = .ok parsed ∧
      (∀ access ∈ (tracedFunctionArgs line args paraStrBegin paraStrEnd).log,
        access.InBounds paraStrBegin paraStrEnd) ∧
      (parsed.ret = 0 → paraStrBegin < paraStrEnd →
        .arg 0 ∈ (tracedFunctionArgs line args paraStrBegin paraStrEnd).log) ∧
      OnlyQuotesCut line parsed.line parsed.args maxArgNum := by
  have hRespects := tracedFunctionArgs_respects hStop args hBegin
  obtain ⟨parsed, hParsed, hChanged⟩ := hRespects.result.returns
  have hErases := tracedFunctionArgs_erases line args paraStrBegin paraStrEnd
  exact ⟨parsed, hErases.symm.trans hParsed, hParsed, hRespects.events,
    tracedFunctionArgs_stores hParsed, hChanged⟩

end Invariant

/-- `f(1,"a")` after its parentheses were cut off. -/
def stringLine : Buffer UInt8 9 := ⟨[0x66, 0] ++ ascii "1,\"a\"" ++ [0, 0], by decide⟩

theorem scanner_in_bounds_string :
    ∃ parsed, parseFunctionArgs stringLine (.const _ (.long 0)) 2 7 = .ok parsed ∧
      (tracedFunctionArgs stringLine (.const _ (.long 0)) 2 7).result = .ok parsed ∧
      (∀ access ∈ (tracedFunctionArgs stringLine (.const _ (.long 0)) 2 7).log,
        access.InBounds 2 7) ∧
      (parsed.ret = 0 → 2 < 7 →
        .arg 0 ∈ (tracedFunctionArgs stringLine (.const _ (.long 0)) 2 7).log) ∧
      OnlyQuotesCut stringLine parsed.line parsed.args maxArgNum :=
  scanner_in_bounds stringLine (.const _ (.long 0)) (by decide) (by decide)

end TelnetDebug

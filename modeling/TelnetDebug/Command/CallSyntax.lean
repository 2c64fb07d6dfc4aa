import TelnetDebug.Command.RoundTrip
import TelnetDebug.Library.Strtok

/-! What the parser of a call lets through. The grammar of a call is written
down on its own; the parser goes from one comma to the next and looks only at
how an argument begins and whether a string is closed, so the text is cut into
the pieces that it looks at, each with what it passes over. -/
namespace TelnetDebug

open CBuffer Guarded Strtok

/-- An integer as `strtol` takes it in base 0, white space and a plus sign
included. -/
def IsInteger (a : List UInt8) : Prop :=
  ∃ blanks, (∀ c ∈ blanks, Strtol.isSpace c = true) ∧ ∃ l : Strtol.Literal,
    a = blanks ++ l.text ∨ l.neg = false ∧ a = blanks ++ 0x2b :: l.text

def IsQuoted (a : List UInt8) : Prop :=
  ∃ content, 0x22 ∉ content ∧ a = 0x22 :: (content ++ [0x22])

def IsArgument (a : List UInt8) : Prop := IsInteger a ∨ IsQuoted a

/-- Arguments with commas between them, and how many they are. -/
inductive ArgList : Nat → List UInt8 → Prop where
  | one {a : List UInt8} (hFirst : IsArgument a) : ArgList 1 a
  | more {a rest : List UInt8} {count : Nat} (hFirst : IsArgument a)
      (hRest : ArgList count rest) : ArgList (count + 1) (a ++ 0x2c :: rest)

/-- A list of at most so many arguments. -/
def ArgsWithin (room : Nat) (s : List UInt8) : Prop := ∃ count ≤ room, ArgList count s

/-- A call of the named function: behind the name there are parentheses with
the arguments, and nothing else. -/
def IsCall (name line : List UInt8) : Prop :=
  ∃ inner, line = name ++ 0x28 :: (inner ++ [0x29]) ∧ (inner = [] ∨ ArgsWithin maxArgNum inner)

/-- What the parser looks at between two commas. Of a number it looks at the
first character, of a string at its quotes. -/
inductive Piece where
  | number (s : List UInt8)
  | string (content behind : List UInt8)
  | other (s : List UInt8)
  | beyond (s : List UInt8)
deriving DecidableEq

namespace Piece

/-- A digit or a minus sign begins it, or it has both of its quotes. What stands
behind the last comma that is searched is not looked at. -/
def Opened : Piece → Prop
  | other _ => False
  | _ => True

/-- Nothing of the piece is passed over: a number is read to its end and fits
into a `long`, and the closing quote of a string ends the piece. -/
def Whole : Piece → Prop
  | number s => Strtol.unread s = [] ∧ Strtol.longMin ≤ Strtol.number s ∧
      Strtol.number s ≤ Strtol.longMax
  | string _ behind => behind = []
  | other _ => False
  | beyond _ => False

instance : (piece : Piece) → Decidable piece.Opened
  | number _ => inferInstanceAs (Decidable True)
  | string _ _ => inferInstanceAs (Decidable True)
  | other _ => inferInstanceAs (Decidable False)
  | beyond _ => inferInstanceAs (Decidable True)

instance : (piece : Piece) → Decidable piece.Whole
  | number s => inferInstanceAs (Decidable (Strtol.unread s = [] ∧
      Strtol.longMin ≤ Strtol.number s ∧ Strtol.number s ≤ Strtol.longMax))
  | string _ behind => inferInstanceAs (Decidable (behind = []))
  | other _ => inferInstanceAs (Decidable False)
  | beyond _ => inferInstanceAs (Decidable False)

end Piece

/-- The first piece of the arguments, and the text from the next comma on. -/
def splitPiece : List UInt8 → Piece × List UInt8
  | [] => (.other [], [])
  | c :: s =>
      if isDigit c ∨ c = 0x2d then
        (.number (cutAt 0x2c (c :: s)).1, (cutAt 0x2c (c :: s)).2)
      else if c = 0x22 then
        match cutAt 0x22 s with
        | (_, []) => (.other (c :: s), [])
        | (content, _ :: behind) =>
            (.string content (cutAt 0x2c behind).1, (cutAt 0x2c behind).2)
      else (.other (c :: s), [])

/-- The pieces of the arguments when the array has room for so many. -/
def pieces : Nat → List UInt8 → List Piece
  | 0, s => [.beyond s]
  | room + 1, s =>
      (splitPiece s).1 :: match (splitPiece s).2 with
        | [] => []
        | _ :: more => pieces room more

def argPieces (inner : List UInt8) : List Piece :=
  if inner = [] then [] else pieces maxArgNum inner

/-- Where every argument up to the eighth is begun as one, no text stands
behind the last closing parenthesis and none is passed over in front of it. -/
def NothingPassedOver (behind : List UInt8) : Prop :=
  ∀ inner after, behind = inner ++ 0x29 :: after → 0x29 ∉ after →
    (∀ piece ∈ argPieces inner, piece.Opened) →
      after = [] ∧ ∀ piece ∈ argPieces inner, piece.Whole

/-- The ways in which a text begins with a piece. -/
inductive Splits : List UInt8 → Piece → List UInt8 → Prop where
  | empty : Splits [] (.other []) []
  | number {c : UInt8} {number tail : List UInt8} (hFirst : isDigit c = true ∨ c = 0x2d)
      (hPiece : 0x2c ∉ c :: number) (hTail : EndsOrMeets 0x2c tail) :
      Splits (c :: number ++ tail) (.number (c :: number)) tail
  | string {content behind tail : List UInt8} (hContent : 0x22 ∉ content)
      (hBehind : 0x2c ∉ behind) (hTail : EndsOrMeets 0x2c tail) :
      Splits (0x22 :: (content ++ 0x22 :: (behind ++ tail))) (.string content behind) tail
  | unclosed {s : List UInt8} (hOpen : 0x22 ∉ s) : Splits (0x22 :: s) (.other (0x22 :: s)) []
  | foreign {c : UInt8} {s : List UInt8} (hFirst : ¬ (isDigit c = true ∨ c = 0x2d))
      (hQuote : c ≠ 0x22) : Splits (c :: s) (.other (c :: s)) []

theorem splits_splitPiece (s : List UInt8) : Splits s (splitPiece s).1 (splitPiece s).2 := by
  cases s with
  | nil => exact .empty
  | cons c s =>
      by_cases hFirst : isDigit c = true ∨ c = 0x2d
      · have hSplit : splitPiece (c :: s) =
            (.number (cutAt 0x2c (c :: s)).1, (cutAt 0x2c (c :: s)).2) := by
          rw [splitPiece, if_pos hFirst]
        have hComma : c ≠ 0x2c := by
          rintro rfl
          exact absurd hFirst (by decide)
        have hCons : (cutAt 0x2c (c :: s)).1 = c :: (cutAt 0x2c s).1 := by
          simp [cutAt, hComma]
        have hParts := cutAt_append_parts 0x2c (c :: s)
        have hNone := notMem_cutAt 0x2c (c :: s)
        rw [hCons] at hParts hNone
        rw [hSplit, hCons]
        nth_rewrite 1 [← hParts]
        exact .number hFirst hNone (cutAt_endsOrMeets 0x2c (c :: s))
      · by_cases hQuote : c = 0x22
        · subst hQuote
          have hParts := cutAt_append_parts 0x22 s
          have hNone := notMem_cutAt 0x22 s
          rcases cutAt_endsOrMeets 0x22 s with hEnd | ⟨behind, hMeets⟩
          · have hSplit : splitPiece (0x22 :: s) = (.other (0x22 :: s), []) := by
              rw [splitPiece, if_neg hFirst, if_pos rfl]
              split
              · rfl
              · rename_i hCut
                rw [hCut] at hEnd
                cases hEnd
            rw [hEnd, List.append_nil] at hParts
            rw [hSplit]
            exact .unclosed (hParts ▸ hNone)
          · have hSplit : splitPiece (0x22 :: s) = (.string (cutAt 0x22 s).1
                (cutAt 0x2c behind).1, (cutAt 0x2c behind).2) := by
              rw [splitPiece, if_neg hFirst, if_pos rfl]
              split
              · rename_i hCut
                rw [hCut] at hMeets
                cases hMeets
              · rename_i hCut
                rw [hCut] at hMeets ⊢
                cases hMeets
                rfl
            rw [hMeets, ← cutAt_append_parts 0x2c behind] at hParts
            rw [hSplit]
            nth_rewrite 1 [← hParts]
            exact .string hNone (notMem_cutAt 0x2c behind) (cutAt_endsOrMeets 0x2c behind)
        · have hSplit : splitPiece (c :: s) = (.other (c :: s), []) := by
            rw [splitPiece, if_neg hFirst, if_neg hQuote]
          rw [hSplit]
          exact .foreign hFirst hQuote

theorem Splits.mem_of_tail {s tail : List UInt8} {piece : Piece} {c : UInt8}
    (h : Splits s piece tail) (hc : c ∈ tail) : c ∈ s := by
  cases h with
  | number => exact List.mem_append_right _ hc
  | string => simp [hc]
  | empty | unclosed | foreign => cases hc

theorem Splits.tail {s tail : List UInt8} {piece : Piece} (h : Splits s piece tail) :
    EndsOrMeets 0x2c tail := by
  cases h with
  | number _ _ hTail => exact hTail
  | string _ _ hTail => exact hTail
  | empty | unclosed | foreign => exact .inl rfl

section Grammar
variable {a s rest tail : List UInt8} {c : UInt8} {piece : Piece} {room : Nat}

theorem IsInteger.mem (h : IsInteger a) (hc : c ∈ a) : c ≠ 0x2c ∧ c ≠ 0x22 := by
  have hChar : Strtol.isSpace c = true ∨ c = 0x2b ∨ c = 0x2d ∨ Strtol.digitValue c < 36 := by
    obtain ⟨blanks, hBlanks, l, rfl | ⟨-, rfl⟩⟩ := h
    · rcases List.mem_append.mp hc with hc | hc
      · exact .inl (hBlanks c hc)
      · exact .inr (.inr (l.mem_text hc))
    · rcases List.mem_append.mp hc with hc | hc
      · exact .inl (hBlanks c hc)
      · rcases List.mem_cons.mp hc with hc | hc
        · exact .inr (.inl hc)
        · exact .inr (.inr (l.mem_text hc))
  constructor <;> rintro rfl <;> exact absurd hChar (by decide)

/-- An integer that begins with a digit or a minus sign is a constant. -/
theorem IsInteger.literal (h : IsInteger (c :: s)) (hFirst : isDigit c = true ∨ c = 0x2d) :
    ∃ l : Strtol.Literal, c :: s = l.text := by
  have hSpace : Strtol.isSpace c = false := by
    rcases hFirst with hDigit | rfl
    · have hRange : 48 ≤ c.toNat ∧ c.toNat ≤ 57 := of_decide_eq_true hDigit
      have h32 : c ≠ 32 := by
        rintro rfl
        exact absurd hRange (by decide)
      simp only [Strtol.isSpace, h32, false_or, decide_eq_false_iff_not]
      omega
    · decide
  obtain ⟨blanks, hBlanks, l, hText⟩ := h
  cases blanks with
  | nil =>
      rcases hText with hText | ⟨-, hText⟩
      · exact ⟨l, hText⟩
      · obtain ⟨rfl, -⟩ := List.cons.inj hText
        exact absurd hFirst (by decide)
  | cons b blanks =>
      have hHead : c = b := by
        rcases hText with hText | ⟨-, hText⟩ <;> exact (List.cons.inj hText).1
      have hBlank := hBlanks b List.mem_cons_self
      rw [← hHead, hSpace] at hBlank
      cases hBlank

/-- Such a text is a constant where its piece is whole. -/
theorem literal_iff (hFirst : isDigit c = true ∨ c = 0x2d) :
    (∃ l : Strtol.Literal, c :: s = l.text) ↔ (Piece.number (c :: s)).Whole :=
  Strtol.exists_literal_iff
    (hFirst.imp (fun h => Strtol.digitValue_lt_ten.mpr (of_decide_eq_true h)) id)

theorem Splits.argument_of_whole (h : Splits s piece tail) (hWhole : piece.Whole) :
    ∃ a, s = a ++ tail ∧ IsArgument a := by
  cases h with
  | @number c number tail hFirst hPiece hTail =>
      obtain ⟨l, hText⟩ := (literal_iff hFirst).mpr hWhole
      exact ⟨c :: number, rfl, .inl ⟨[], by simp, l, .inl hText⟩⟩
  | @string content behind tail hContent hBehind hTail =>
      obtain rfl : behind = [] := hWhole
      exact ⟨0x22 :: (content ++ [0x22]), by simp, .inr ⟨content, hContent, rfl⟩⟩
  | empty | unclosed | foreign => exact hWhole.elim

/-- Where the text begins with an argument, the piece is that argument. -/
theorem Splits.whole_of_argument (h : Splits s piece tail) (hOpened : piece.Opened)
    (hText : s = a ++ rest) (hArgument : IsArgument a) (hRest : EndsOrMeets 0x2c rest) :
    piece.Whole ∧ rest = tail := by
  cases h with
  | @number c number tail hFirst hPiece hTail =>
      rcases hArgument with hInteger | ⟨content, -, rfl⟩
      · have hComma : 0x2c ∉ a := fun hc => (hInteger.mem hc).1 rfl
        obtain ⟨rfl, rfl⟩ := cut_unique hPiece hTail hComma hRest hText
        exact ⟨(literal_iff hFirst).mp (hInteger.literal hFirst), rfl⟩
      · obtain ⟨rfl, -⟩ := List.cons.inj hText
        exact absurd hFirst (by decide)
  | @string content behind tail hContent hBehind hTail =>
      rcases hArgument with hInteger | ⟨content', hContent', rfl⟩
      · obtain ⟨c, a, rfl⟩ : ∃ c a', a = c :: a' := by
          obtain ⟨blanks, -, l, rfl | ⟨-, rfl⟩⟩ := hInteger
          · exact List.exists_cons_of_ne_nil
              (List.append_ne_nil_of_right_ne_nil _ (ArgText.int l).text_ne_nil)
          · exact List.exists_cons_of_ne_nil
              (List.append_ne_nil_of_right_ne_nil _ (List.cons_ne_nil _ _))
        obtain ⟨rfl, -⟩ := List.cons.inj hText
        exact absurd rfl (hInteger.mem List.mem_cons_self).2
      · have hInside : content ++ 0x22 :: (behind ++ tail) = content' ++ 0x22 :: rest := by
          simpa using hText
        obtain ⟨-, hBehind'⟩ :=
          cut_unique hContent (.inr ⟨_, rfl⟩) hContent' (.inr ⟨_, rfl⟩) hInside
        have hSame : behind ++ tail = [] ++ rest := (List.cons.inj hBehind').2
        obtain ⟨rfl, rfl⟩ := cut_unique hBehind hTail List.not_mem_nil hRest hSame
        exact ⟨rfl, rfl⟩
  | empty | unclosed | foreign => exact hOpened.elim

theorem argsWithin_zero : ¬ ArgsWithin 0 s := by
  rintro ⟨count, hCount, hList⟩
  cases hList with
  | one => cases hCount
  | more => cases hCount

theorem argsWithin_succ :
    ArgsWithin (room + 1) s ↔ ∃ a tail, s = a ++ tail ∧ IsArgument a ∧
      (tail = [] ∨ ∃ more, tail = 0x2c :: more ∧ ArgsWithin room more) := by
  constructor
  · rintro ⟨count, hCount, hList⟩
    cases hList with
    | one hFirst => exact ⟨s, [], (List.append_nil s).symm, hFirst, .inl rfl⟩
    | @more a rest count hFirst hRest =>
        exact ⟨a, _, rfl, hFirst, .inr ⟨rest, rfl, count, Nat.le_of_succ_le_succ hCount, hRest⟩⟩
  · rintro ⟨a, tail, rfl, hFirst, rfl | ⟨more, rfl, count, hCount, hRest⟩⟩
    · rw [List.append_nil]
      exact ⟨1, Nat.succ_le_succ (Nat.zero_le _), .one hFirst⟩
    · exact ⟨count + 1, Nat.succ_le_succ hCount, .more hFirst hRest⟩

/-- Arguments that are all begun as such form a list exactly when nothing of
their pieces is passed over. -/
theorem argsWithin_iff (hOpened : ∀ piece ∈ pieces room s, piece.Opened) :
    ArgsWithin room s ↔ ∀ piece ∈ pieces room s, piece.Whole := by
  induction room generalizing s with
  | zero =>
      refine ⟨fun h => (argsWithin_zero h).elim, fun h => ?_⟩
      exact (h (.beyond s) List.mem_cons_self).elim
  | succ room ih =>
      have hSplit := splits_splitPiece s
      have hFirst : (splitPiece s).1.Opened := hOpened _ List.mem_cons_self
      rw [argsWithin_succ]
      rcases hSplit.tail with hEnd | ⟨more, hMore⟩
      · have hPieces : pieces (room + 1) s = [(splitPiece s).1] := by rw [pieces, hEnd]
        rw [hPieces, List.forall_mem_singleton]
        constructor
        · rintro ⟨a, tail, hText, hArgument, hTail⟩
          exact (hSplit.whole_of_argument hFirst hText hArgument
            (hTail.imp id fun ⟨more, h, _⟩ => ⟨more, h⟩)).1
        · intro hWhole
          obtain ⟨a, hText, hArgument⟩ := hSplit.argument_of_whole hWhole
          exact ⟨a, _, hText, hArgument, .inl hEnd⟩
      · have hPieces : pieces (room + 1) s = (splitPiece s).1 :: pieces room more := by
          rw [pieces, hMore]
        rw [hPieces, List.forall_mem_cons] at hOpened ⊢
        rw [← ih hOpened.2]
        constructor
        · rintro ⟨a, tail, hText, hArgument, hTail⟩
          obtain ⟨hWhole, rfl⟩ := hSplit.whole_of_argument hFirst hText hArgument
            (hTail.imp id fun ⟨more, h, _⟩ => ⟨more, h⟩)
          refine ⟨hWhole, ?_⟩
          rcases hTail with hTail | ⟨more', hMore', hRest⟩
          · rw [hTail] at hMore
            cases hMore
          · rw [hMore'] at hMore
            obtain ⟨-, rfl⟩ := List.cons.inj hMore
            exact hRest
        · rintro ⟨hWhole, hRest⟩
          obtain ⟨a, hText, hArgument⟩ := hSplit.argument_of_whole hWhole
          exact ⟨a, _, hText, hArgument, .inr ⟨more, hMore, hRest⟩⟩

end Grammar

theorem minusOne_ne_zero : (-1 : UInt32) ≠ 0 := by decide

section Parsing
variable {n : Nat} {line : Buffer UInt8 n} {before s tail rest : List UInt8} {piece : Piece}

/-- What the parser makes of a piece: it takes it when it is begun as an
argument, and searches the next comma behind what it has looked at. -/
def TakenAs (before s tail rest : List UInt8) (piece : Piece) (arg : ParsedArg n) : Prop :=
  (arg.accepted = true ↔ piece.Opened) ∧
    (piece.Opened → ∃ start passed, arg.curArg = start.length ∧
      arg.line.cells = start ++ passed ++ tail ++ 0 :: rest ∧ 0 ∉ passed ∧ 0x2c ∉ passed ∧
      start.length + passed.length + tail.length = before.length + s.length)

/-- The slots from the given one on take the values, and the others stay. -/
def FillsFrom (argNr : Nat) (values : List Arg) (args args' : Args) : Prop :=
  args'.cells = args.cells.take argNr ++ values ++ args.cells.drop (argNr + values.length)

theorem fillsFrom_nil (argNr : Nat) (args : Args) : FillsFrom argNr [] args args := by
  simp [FillsFrom]

theorem fillsFrom_cons {argNr : Nat} {value : Arg} {values : List Arg} {args mid args' : Args}
    (hRoom : argNr < maxArgNum) (hFirst : mid.cells = args.cells.set argNr value)
    (hRest : FillsFrom (argNr + 1) values mid args') :
    FillsFrom argNr (value :: values) args args' := by
  have hSet : mid.cells = args.cells.take argNr ++ value :: args.cells.drop (argNr + 1) := by
    rw [hFirst, List.set_eq_take_append_cons_drop, if_pos (by rw [args.size]; exact hRoom)]
  have hLength : (args.cells.take argNr ++ [value]).length = argNr + 1 := by
    rw [List.length_append, List.length_take_of_le (by rw [args.size]; omega),
      List.length_singleton]
  have hSplit : mid.cells =
      (args.cells.take argNr ++ [value]) ++ args.cells.drop (argNr + 1) := by simp [hSet]
  have hBehind : mid.cells.drop (argNr + 1 + values.length) =
      args.cells.drop (argNr + (value :: values).length) := by
    rw [hSplit, ← List.drop_drop, List.drop_left' hLength, List.drop_drop, List.length_cons]
    congr 1
    omega
  unfold FillsFrom at hRest ⊢
  rw [hRest, hBehind, hSplit, List.take_left' hLength]
  simp

/-- What is stored does not depend on what the array held. -/
theorem parseArg_splits {argNr : Nat} (h : Splits s piece tail)
    (hCells : line.cells = before ++ s ++ 0 :: rest) (hNul : 0 ∉ s) (hRoom : argNr < maxArgNum) :
    ∃ (arg : ParsedArg n) (value : Arg), TakenAs before s tail rest piece arg ∧ ∀ args, ∃ args',
      parseArg line args argNr before.length = .ok { arg with args := args' } ∧
        (piece.Opened → args'.cells = args.cells.set argNr value) := by
  have hGet : line.get before.length = .ok (s.head?.getD 0) := by
    refine Buffer.get_eq ?_
    rw [hCells]
    cases s <;> simp
  let blank : Args := .const _ (.long 0)
  have hRefused (hOther : ¬ piece.Opened) (curArg : Nat) :
      TakenAs before s tail rest piece (⟨false, line, blank, curArg⟩ : ParsedArg n) :=
    ⟨⟨fun h => absurd h Bool.false_ne_true, fun h => absurd h hOther⟩, fun h => absurd h hOther⟩
  unfold parseArg
  simp only [hGet, onLine_ok, ok_bind]
  cases h with
  | empty =>
      exact ⟨_, .long 0, hRefused id before.length, fun args =>
        ⟨args, if_pos (by decide), fun h => h.elim⟩⟩
  | @foreign c s hFirst hQuote =>
      have hNone : ¬ isDigit c ∧ c ≠ 0x2d ∧ c ≠ 0x22 :=
        ⟨fun h => hFirst (.inl h), fun h => hFirst (.inr h), hQuote⟩
      exact ⟨_, .long 0, hRefused id before.length, fun args =>
        ⟨args, if_pos hNone, fun h => h.elim⟩⟩
  | @number c number tail hFirst hPiece hTail =>
      refine ⟨⟨true, line, blank, before.length⟩, .long (Strtol.strtol (c :: number ++ tail)),
        ⟨⟨fun _ => trivial, fun _ => rfl⟩, fun _ =>
          ⟨before, c :: number, rfl, by simp [hCells], ?_, hPiece, ?_⟩⟩, fun args => ?_⟩
      · exact fun h => hNul (List.mem_append_left _ h)
      · rw [List.length_append, Nat.add_assoc]
      · obtain ⟨args', hSet, hArgs⟩ := args.set_inside hRoom
          (.long (Strtol.strtol (c :: number ++ tail)))
        refine ⟨args', ?_, fun _ => hArgs⟩
        rw [List.cons_append, List.head?_cons, Option.getD_some,
          if_neg (by rintro ⟨h₁, h₂, -⟩; exact hFirst.elim h₁ h₂), if_pos hFirst,
          Buffer.strAt_eq hCells hNul, onLine_ok, ok_bind, hSet]
        rfl
  | @unclosed s hOpen =>
      have hInside : line.cells = (before ++ [0x22]) ++ s ++ 0 :: rest := by simp [hCells]
      have hNone : line.strchr (before.length + 1) 0x22 = .ok none := by
        have h := Buffer.strchr_none hInside (fun h => hNul (List.mem_cons_of_mem _ h)) hOpen
        simpa using h
      refine ⟨_, .long 0, hRefused id (before.length + 1), fun args => ?_⟩
      obtain ⟨args', hSet, -⟩ := args.set_inside hRoom (.pointer (before.length + 1))
      refine ⟨args', ?_, fun h => h.elim⟩
      rw [List.head?_cons, Option.getD_some, if_neg (by decide), if_neg (by decide), if_pos rfl,
        hSet, onArgs_ok, ok_bind, hNone, onLine_ok, ok_bind]
      rfl
  | @string content behind tail hContent hBehind hTail =>
      have hNoNul : 0 ∉ content := fun h =>
        hNul (List.mem_cons_of_mem _ (List.mem_append_left _ h))
      have hNoNul' : 0 ∉ behind := fun h => hNul (List.mem_cons_of_mem _
        (List.mem_append_right _ (List.mem_cons_of_mem _ (List.mem_append_left _ h))))
      have hString : line.cells =
          before ++ 0x22 :: (content ++ 0x22 :: (behind ++ tail ++ 0 :: rest)) := by simp [hCells]
      have hAny (args : Args) :=
        parseArg_str args hContent hNoNul hString (terminated_append_zero _ _) hRoom
      obtain ⟨line', -, -, hLine, -⟩ := hAny blank
      refine ⟨⟨true, line', blank, before.length + content.length + 2⟩,
        .pointer (before.length + 1), ⟨⟨fun _ => trivial, fun _ => rfl⟩, fun _ =>
          ⟨before ++ 0x22 :: (content ++ [0]), behind, ?_, by simp [hLine], hNoNul', hBehind, ?_⟩⟩,
        fun args => ?_⟩
      · simp only [List.length_append, List.length_cons, List.length_nil]
        omega
      · simp only [List.length_append, List.length_cons, List.length_nil]
        omega
      · obtain ⟨line'', args', hParse, hLine', hArgs⟩ := hAny args
        obtain rfl : line'' = line' := Buffer.ext (hLine'.trans hLine.symm)
        unfold parseArg at hParse
        rw [hGet, onLine_ok, ok_bind] at hParse
        exact ⟨args', hParse, fun _ => hArgs⟩

/-- The loop accepts the arguments when it could begin each that it came to. It
then has stored one for each, for which there is room. -/
theorem argsLoop_pieces (argNr : Nat) {room paraStrEnd : Nat}
    (hCells : line.cells = before ++ s ++ 0 :: rest) (hNul : 0 ∉ s)
    (hSlots : argNr + room ≤ maxArgNum) (hEnd : paraStrEnd = before.length + s.length) :
    ∃ (ret : UInt32) (line' : Buffer UInt8 n) (values : List Arg),
      (ret = 0 ↔ ∀ piece ∈ pieces room s, piece.Opened) ∧
      (ret = 0 → values.length = min room (pieces room s).length) ∧ ∀ args, ∃ args',
        argsLoop paraStrEnd room line args argNr before.length = .ok ⟨ret, line', args'⟩ ∧
          (ret = 0 → FillsFrom argNr values args args') := by
  induction room generalizing line argNr before s with
  | zero =>
      refine ⟨0, line, [], ⟨fun _ => ?_, fun _ => rfl⟩, fun _ => (Nat.zero_min _).symm,
        fun args => ⟨args, rfl, fun _ => fillsFrom_nil argNr args⟩⟩
      rw [pieces, List.forall_mem_singleton]
      trivial
  | succ room ih =>
      have hSplit := splits_splitPiece s
      by_cases hAtEnd : before.length = paraStrEnd
      · have hNone : s = [] := List.length_eq_zero_iff.mp (by omega)
        refine ⟨-1, line, [], ⟨fun h => absurd h minusOne_ne_zero, fun h => ?_⟩,
          fun h => absurd h minusOne_ne_zero,
          fun args => ⟨args, if_pos hAtEnd, fun h => absurd h minusOne_ne_zero⟩⟩
        exact (h (.other s) (by subst hNone; exact List.mem_cons_self)).elim
      · have hHere : argNr < maxArgNum := by omega
        obtain ⟨arg, value, ⟨hAccepted, hTaken⟩, hParse⟩ :=
          parseArg_splits hSplit hCells hNul hHere
        by_cases hOpened : (splitPiece s).1.Opened
        · obtain ⟨start, passed, hStart, hLine, hNoNul, hNoComma, hLength⟩ := hTaken hOpened
          rcases hSplit.tail with hLast | ⟨more, hMore⟩
          · rw [hLast, List.append_nil] at hLine
            have hPieces : pieces (room + 1) s = [(splitPiece s).1] := by rw [pieces, hLast]
            have hNone := Buffer.strchr_none hLine hNoNul hNoComma
            rw [hPieces, List.forall_mem_singleton]
            refine ⟨0, arg.line, [value], ⟨fun _ => hOpened, fun _ => rfl⟩, fun _ => ?_,
              fun args => ?_⟩
            · simp
            · obtain ⟨args', hArg, hValue⟩ := hParse args
              refine ⟨args', ?_, fun _ =>
                fillsFrom_cons hHere (hValue hOpened) (fillsFrom_nil _ args')⟩
              rw [argsLoop, if_neg hAtEnd, hArg, ok_bind, if_pos (hAccepted.mpr hOpened), hStart,
                hNone, onLine_ok, ok_bind]
              rfl
          · have hPieces : pieces (room + 1) s = (splitPiece s).1 :: pieces room more := by
              rw [pieces, hMore]
            have hSearched : arg.line.cells =
                start ++ passed ++ 0x2c :: (more ++ 0 :: rest) := by simp [hLine, hMore]
            have hNext : arg.line.cells = (start ++ passed ++ [0x2c]) ++ more ++ 0 :: rest := by
              simp [hLine, hMore]
            have hFound : arg.line.strchr start.length 0x2c =
                .ok (some (start.length + passed.length)) :=
              Buffer.strchr_found hSearched hNoNul (terminated_append_zero _ _) (by decide) hNoComma
            have hPosition : start.length + passed.length + 1 =
                (start ++ passed ++ [0x2c]).length := by
              simp only [List.length_append, List.length_singleton]
            have hMoreNul : 0 ∉ more := fun h =>
              hNul (hSplit.mem_of_tail (hMore ▸ List.mem_cons_of_mem _ h))
            rw [hMore, List.length_cons] at hLength
            obtain ⟨ret, line', values, hRet, hCount, hLoop⟩ := ih (argNr + 1) hNext hMoreNul
              (by omega) (by omega)
            rw [hPieces, List.forall_mem_cons]
            refine ⟨ret, line', value :: values, hRet.trans ⟨fun h => ⟨hOpened, h⟩, And.right⟩,
              fun h => ?_, fun args => ?_⟩
            · rw [List.length_cons, List.length_cons, hCount h, Nat.add_min_add_right]
            · obtain ⟨mid, hArg, hValue⟩ := hParse args
              obtain ⟨args', hRest, hValues⟩ := hLoop mid
              refine ⟨args', ?_, fun h => fillsFrom_cons hHere (hValue hOpened) (hValues h)⟩
              rw [argsLoop, if_neg hAtEnd, hArg, ok_bind, if_pos (hAccepted.mpr hOpened), hStart,
                hFound, onLine_ok, ok_bind]
              dsimp only
              rw [hPosition, hRest]
        · have hRejected : arg.accepted = false := by
            simpa using fun h => hOpened (hAccepted.mp h)
          refine ⟨-1, arg.line, [], ⟨fun h => absurd h minusOne_ne_zero, fun h => ?_⟩,
            fun h => absurd h minusOne_ne_zero, fun args => ?_⟩
          · exact absurd (h _ List.mem_cons_self) hOpened
          · obtain ⟨args', hArg, -⟩ := hParse args
            refine ⟨args', ?_, fun h => absurd h minusOne_ne_zero⟩
            rw [argsLoop, if_neg hAtEnd, hArg, ok_bind, hRejected]
            rfl

theorem parseFunctionArgs_pieces {paraStrEnd : Nat}
    (hCells : line.cells = before ++ s ++ 0 :: rest) (hNul : 0 ∉ s)
    (hEnd : paraStrEnd = before.length + s.length) :
    ∃ (ret : UInt32) (line' : Buffer UInt8 n) (values : List Arg),
      (ret = 0 ↔ ∀ piece ∈ argPieces s, piece.Opened) ∧
      (ret = 0 → values.length = min maxArgNum (argPieces s).length) ∧ ∀ args, ∃ args',
        parseFunctionArgs line args before.length paraStrEnd = .ok ⟨ret, line', args'⟩ ∧
          (ret = 0 → FillsFrom 0 values args args') := by
  unfold parseFunctionArgs argPieces
  by_cases hNone : s = []
  · have hSame : before.length = paraStrEnd := by simp [hEnd, hNone]
    rw [if_pos hNone]
    exact ⟨0, line, [], ⟨fun _ _ h => (List.not_mem_nil h).elim, fun _ => rfl⟩, fun _ => rfl,
      fun args => ⟨args, if_pos hSame, fun _ => fillsFrom_nil 0 args⟩⟩
  · have hLength := List.length_pos_iff.mpr hNone
    have hNe : before.length ≠ paraStrEnd := by omega
    simp only [if_neg hNone, if_neg hNe]
    exact argsLoop_pieces 0 hCells hNul (by omega) hEnd

end Parsing

section Calls
variable {name behind inner after inner' after' : List UInt8}

/-- A text is split at its last closing parenthesis in one way only. -/
theorem last_paren_unique (hAfter : 0x29 ∉ after) (hAfter' : 0x29 ∉ after')
    (h : inner ++ 0x29 :: after = inner' ++ 0x29 :: after') : inner = inner' ∧ after = after' := by
  have hReversed : after.reverse ++ 0x29 :: inner.reverse =
      after'.reverse ++ 0x29 :: inner'.reverse := by
    simpa using congrArg List.reverse h
  obtain ⟨hEnd, hBegin⟩ := cut_unique (fun h => hAfter (List.mem_reverse.mp h)) (.inr ⟨_, rfl⟩)
    (fun h => hAfter' (List.mem_reverse.mp h)) (.inr ⟨_, rfl⟩) hReversed
  exact ⟨List.reverse_injective (List.cons.inj hBegin).2, List.reverse_injective hEnd⟩

theorem exists_last_paren (h : 0x29 ∈ behind) :
    ∃ inner after, behind = inner ++ 0x29 :: after ∧ 0x29 ∉ after := by
  obtain ⟨after, inner, hSplit, hNone⟩ := List.eq_append_cons_of_mem (List.mem_reverse.mpr h)
  refine ⟨inner.reverse, after.reverse, ?_, fun h => hNone (List.mem_reverse.mp h)⟩
  simpa using congrArg List.reverse hSplit

theorem isCall_iff (hAfter : 0x29 ∉ after) :
    IsCall name (name ++ 0x28 :: (inner ++ 0x29 :: after)) ↔
      after = [] ∧ (inner = [] ∨ ArgsWithin maxArgNum inner) := by
  constructor
  · rintro ⟨inner', hText, hArgs⟩
    have hInside := (List.cons.inj (List.append_cancel_left hText)).2
    obtain ⟨rfl, rfl⟩ := last_paren_unique hAfter List.not_mem_nil hInside
    exact ⟨rfl, hArgs⟩
  · rintro ⟨rfl, hArgs⟩
    exact ⟨inner, rfl, hArgs⟩

theorem argPieces_whole_iff (hOpened : ∀ piece ∈ argPieces inner, piece.Opened) :
    inner = [] ∨ ArgsWithin maxArgNum inner ↔ ∀ piece ∈ argPieces inner, piece.Whole := by
  unfold argPieces at hOpened ⊢
  by_cases hNone : inner = []
  · rw [if_pos hNone]
    exact ⟨fun _ _ h => (List.not_mem_nil h).elim, fun _ => .inl hNone⟩
  · rw [if_neg hNone] at hOpened ⊢
    rw [← argsWithin_iff hOpened, or_iff_right hNone]

theorem nothingPassedOver_iff (name : List UInt8) (hAfter : 0x29 ∉ after) :
    NothingPassedOver (inner ++ 0x29 :: after) ↔
      ((∀ piece ∈ argPieces inner, piece.Opened) →
        IsCall name (name ++ 0x28 :: (inner ++ 0x29 :: after))) := by
  rw [isCall_iff hAfter]
  constructor
  · intro h hOpened
    rw [argPieces_whole_iff hOpened]
    exact h inner after rfl hAfter hOpened
  · intro h inner' after' hText hAfter' hOpened
    obtain ⟨rfl, rfl⟩ := last_paren_unique hAfter hAfter' hText
    rw [← argPieces_whole_iff hOpened]
    exact h hOpened

variable {n : Nat} {line : Buffer UInt8 n} {rest : List UInt8}

/-- Behind a name that is resolved, the parser accepts the text in front of the
last closing parenthesis by its pieces. For each it has stored an argument. -/
theorem parseFuncCall_fills (files : List UInt8 → List SymbolTable) (nodes : List SoNode)
    (hParen : 0x28 ∉ name) (hResolved : ldFindAddress files name nodes ≠ noAddress)
    (hNul : 0 ∉ name ++ 0x28 :: behind) (hLine : line.cells = name ++ 0x28 :: behind ++ 0 :: rest) :
    ∃ (ret : UInt32) (line' : Buffer UInt8 n) (printed : List (List UInt8)) (values : List Arg),
      (ret = 0 ↔ ∃ inner after, behind = inner ++ 0x29 :: after ∧ 0x29 ∉ after ∧
        ∀ piece ∈ argPieces inner, piece.Opened) ∧
      (ret = 0 → ∃ inner after, behind = inner ++ 0x29 :: after ∧ 0x29 ∉ after ∧
        values.length = min maxArgNum (argPieces inner).length) ∧ ∀ args, ∃ args',
      parseFuncCall files nodes line args =
          .ok ⟨⟨ret, line', args'⟩, some (ldFindAddress files name nodes), printed⟩ ∧
        (ret = 0 → FillsFrom 0 values args args') := by
  have hName : 0 ∉ name := fun h => hNul (List.mem_append_left _ h)
  have hBehind : 0 ∉ behind := fun h => hNul (List.mem_append_right _ (List.mem_cons_of_mem _ h))
  have hWhole : line.cells = name ++ 0x28 :: (behind ++ 0 :: rest) := by simp [hLine]
  obtain ⟨hOpen, line₁, hCut, hFunc, hLine₁⟩ :=
    name_cut hName hParen hWhole (terminated_append_zero _ _)
  have hBegin : (name ++ [0]).length = name.length + 1 := by simp
  have hSearched : line₁.cells = (name ++ [0]) ++ behind ++ 0 :: rest := by simp [hLine₁]
  unfold parseFuncCall
  simp only [hOpen, onLine_ok, ok_bind, hCut, hFunc, if_neg hResolved]
  by_cases hClosed : 0x29 ∈ behind
  · obtain ⟨inner, after, rfl, hAfter⟩ := exists_last_paren hClosed
    simp only [List.mem_append, List.mem_cons, not_or] at hBehind
    have hInside : line₁.cells =
        (name ++ [0]) ++ inner ++ 0x29 :: (after ++ 0 :: rest) := by simp [hSearched]
    have hClose := Buffer.strrchr_found hInside hBehind.1 (by decide) hBehind.2.2 hAfter
    obtain ⟨line₂, hEnd, hLine₂⟩ := Buffer.set_spec hInside 0
    rw [List.length_append] at hEnd
    obtain ⟨ret, line', values, hRet, hCount, hArgs⟩ :=
      parseFunctionArgs_pieces hLine₂ hBehind.1 rfl
    rw [hBegin] at hClose hEnd hArgs
    simp only [hClose, onLine_ok, ok_bind, hEnd]
    refine ⟨ret, line', if ret ≠ 0 then [ascii "invalid function call syntax"] else [], values,
      hRet.trans ⟨fun h => ⟨inner, after, rfl, hAfter, h⟩, ?_⟩,
      fun h => ⟨inner, after, rfl, hAfter, hCount h⟩, fun args => ?_⟩
    · rintro ⟨inner', after', hText, hAfter', hOpened⟩
      obtain ⟨rfl, rfl⟩ := last_paren_unique hAfter hAfter' hText
      exact hOpened
    · obtain ⟨args', hParsed, hFills⟩ := hArgs args
      exact ⟨args', by rw [hParsed, ok_bind]; rfl, hFills⟩
  · have hClose := Buffer.strrchr_none hSearched hBehind hClosed
    rw [hBegin] at hClose
    simp only [hClose, onLine_ok, ok_bind]
    refine ⟨-1, line₁, [ascii "invalid function call syntax"], [],
      ⟨fun h => absurd h minusOne_ne_zero, ?_⟩, fun h => absurd h minusOne_ne_zero,
      fun args => ⟨args, rfl, fun h => absurd h minusOne_ne_zero⟩⟩
    rintro ⟨inner, after, rfl, -, -⟩
    exact absurd (List.mem_append_right _ List.mem_cons_self) hClosed

theorem parseFuncCall_pieces (files : List UInt8 → List SymbolTable) (nodes : List SoNode)
    (args : Args) (hParen : 0x28 ∉ name) (hResolved : ldFindAddress files name nodes ≠ noAddress)
    (hNul : 0 ∉ name ++ 0x28 :: behind) (hLine : line.cells = name ++ 0x28 :: behind ++ 0 :: rest) :
    ∃ call, parseFuncCall files nodes line args = .ok call ∧
      (call.ret = 0 ↔ ∃ inner after, behind = inner ++ 0x29 :: after ∧ 0x29 ∉ after ∧
        ∀ piece ∈ argPieces inner, piece.Opened) := by
  obtain ⟨ret, line', printed, values, hRet, -, hCall⟩ :=
    parseFuncCall_fills files nodes hParen hResolved hNul hLine
  obtain ⟨args', hParse, -⟩ := hCall args
  exact ⟨_, hParse, hRet⟩

/-- A call that is accepted is written as one exactly where the parser passes
nothing over. -/
theorem call_syntax_sound_iff (files : List UInt8 → List SymbolTable) (nodes : List SoNode)
    (hParen : 0x28 ∉ name) (hResolved : ldFindAddress files name nodes ≠ noAddress)
    (hNul : 0 ∉ name ++ 0x28 :: behind) (hLine : line.cells = name ++ 0x28 :: behind ++ 0 :: rest)
    (args : Args) :
    ∃ call, parseFuncCall files nodes line args = .ok call ∧
      ((call.ret = 0 → IsCall name (name ++ 0x28 :: behind)) ↔ NothingPassedOver behind) := by
  obtain ⟨call, hParse, hRet⟩ :=
    parseFuncCall_pieces files nodes args hParen hResolved hNul hLine
  refine ⟨call, hParse, ?_⟩
  rw [hRet]
  by_cases hClosed : 0x29 ∈ behind
  · obtain ⟨inner, after, rfl, hAfter⟩ := exists_last_paren hClosed
    rw [nothingPassedOver_iff name hAfter]
    constructor
    · exact fun h hOpened => h ⟨inner, after, rfl, hAfter, hOpened⟩
    · rintro h ⟨inner', after', hText, hAfter', hOpened⟩
      obtain ⟨rfl, rfl⟩ := last_paren_unique hAfter hAfter' hText
      exact h hOpened
  · have hNone (inner after : List UInt8) : behind ≠ inner ++ 0x29 :: after := by
      rintro rfl
      exact hClosed (List.mem_append_right _ List.mem_cons_self)
    constructor
    · exact fun _ inner after hText => absurd hText (hNone inner after)
    · rintro - ⟨inner, after, hText, -⟩
      exact absurd hText (hNone inner after)

end Calls

/-- `f(1x)` -/
def junkLine : Buffer UInt8 6 := ⟨[0x66] ++ 0x28 :: ascii "1x)" ++ [0], by decide⟩

theorem call_syntax_sound_junk :
    ∃ call, parseFuncCall (fun _ => [oneSymbol 1 0x10]) [⟨[1], 0x4000, 0x5000⟩] junkLine
        (.const _ (.long 0)) = .ok call ∧
      ((call.ret = 0 → IsCall [0x66] ([0x66] ++ 0x28 :: ascii "1x)")) ↔
        NothingPassedOver (ascii "1x)")) :=
  have hLine : junkLine.cells = [0x66] ++ 0x28 :: ascii "1x)" ++ 0 :: [] := rfl
  call_syntax_sound_iff (fun _ => [oneSymbol 1 0x10]) [⟨[1], 0x4000, 0x5000⟩] (by decide)
    (by decide +kernel) (by decide) hLine (.const _ (.long 0))

/-- The letter behind the digit is passed over, and the call is accepted. -/
theorem call_syntax_unsound :
    ∃ call, parseFuncCall (fun _ => [oneSymbol 1 0x10]) [⟨[1], 0x4000, 0x5000⟩] junkLine
        (.const _ (.long 0)) = .ok call ∧ call.ret = 0 ∧
      ¬ IsCall [0x66] ([0x66] ++ 0x28 :: ascii "1x)") := by
  have hLine : junkLine.cells = [0x66] ++ 0x28 :: ascii "1x)" ++ 0 :: [] := rfl
  obtain ⟨call, hParse, hRet⟩ := parseFuncCall_pieces (fun _ => [oneSymbol 1 0x10])
    [⟨[1], 0x4000, 0x5000⟩] (.const _ (.long 0)) (by decide) (by decide +kernel) (by decide) hLine
  have hOpened : ∀ piece ∈ argPieces (ascii "1x"), piece.Opened := by decide
  have hClosed : ascii "1x)" = ascii "1x" ++ 0x29 :: [] := by decide
  refine ⟨call, hParse, hRet.mpr ⟨ascii "1x", [], hClosed, List.not_mem_nil, hOpened⟩, ?_⟩
  rw [hClosed, isCall_iff List.not_mem_nil, argPieces_whole_iff hOpened]
  decide

end TelnetDebug

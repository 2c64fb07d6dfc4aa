import TelnetDebug.Command.Parse

/-! Calls that are written down and parsed again. The parser cuts the line
behind every argument it has read, never in front of it, so what it has stored
stays where it is. -/
namespace TelnetDebug

open CBuffer Guarded

/-- An argument as it is written. -/
inductive ArgText where
  | int (l : Strtol.Literal)
  | str (s : List UInt8) (noQuote : 0x22 ∉ s) (noNul : 0 ∉ s)

namespace ArgText

def text : ArgText → List UInt8
  | int l => l.text
  | str s _ _ => 0x22 :: (s ++ [0x22])

/-- What is left of the argument in the line. -/
def cut : ArgText → List UInt8
  | int l => l.text
  | str s _ _ => 0x22 :: (s ++ [0])

/-- The slot of an argument that begins at a position of the line. -/
def slot (position : Nat) : ArgText → Arg
  | int l => .long l.value
  | str _ _ _ => .pointer (position + 1)

/-- The slot holds the argument: its value, or a position at which the line holds
the string. -/
def Stored {n : Nat} (line : Buffer UInt8 n) (slot : Arg) : ArgText → Prop
  | int l => slot = .long l.value
  | str s _ _ => ∃ position, slot = .pointer position ∧ line.strAt position = .ok s

end ArgText

/-- The arguments, with commas between them. -/
def argsText : List ArgText → List UInt8
  | [] => []
  | [a] => a.text
  | a :: b :: args => a.text ++ 0x2c :: argsText (b :: args)

def callText (name : List UInt8) (args : List ArgText) : List UInt8 :=
  name ++ 0x28 :: (argsText args ++ [0x29])

theorem literal_noNul {l : Strtol.Literal} {c : UInt8} (h : 36 ≤ Strtol.digitValue c)
    (hSign : c ≠ 0x2d) : c ∉ l.text := by
  intro hMem
  rcases Strtol.Literal.mem_text hMem with hc | hc
  · exact hSign hc
  · omega

theorem ArgText.noNul (a : ArgText) : 0 ∉ a.text := by
  cases a with
  | int l => exact literal_noNul (by decide) (by decide)
  | str s noQuote noNul =>
      simp only [ArgText.text, List.mem_cons, List.mem_append, List.not_mem_nil, or_false, not_or]
      exact ⟨by decide, noNul, by decide⟩

theorem argsText_noNul (args : List ArgText) : 0 ∉ argsText args := by
  fun_induction argsText args with
  | case1 => exact List.not_mem_nil
  | case2 a => exact a.noNul
  | case3 a b args ih =>
      simp only [List.mem_append, List.mem_cons, not_or]
      exact ⟨a.noNul, by decide, ih⟩

theorem ArgText.text_ne_nil (a : ArgText) : a.text ≠ [] := by
  cases a with
  | int l =>
      obtain ⟨c, rest, hBody, -⟩ := l.body_head
      simp [ArgText.text, Strtol.Literal.text, hBody]
  | str s _ _ => exact List.cons_ne_nil _ _

theorem ArgText.cut_length (a : ArgText) : a.cut.length = a.text.length := by
  cases a with
  | int l => rfl
  | str s _ _ => simp [ArgText.cut, ArgText.text]

theorem argsText_pos {args : List ArgText} (h : args ≠ []) : 0 < (argsText args).length := by
  fun_cases argsText args with
  | case1 => exact absurd rfl h
  | case2 a => exact List.length_pos_iff.mpr a.text_ne_nil
  | case3 a b args =>
      rw [List.length_append, List.length_cons]
      omega

section Parsing
variable {n : Nat} {line : Buffer UInt8 n} {args : Args} {argNr : Nat}
variable {before after : List UInt8}

/-- The text behind an argument begins with no letter and no digit. -/
def Separates (after : List UInt8) : Prop :=
  Terminated after ∧ ∀ c ∈ (text after).head?, 36 ≤ Strtol.digitValue c

theorem parseArg_int (args : Args) (l : Strtol.Literal)
    (hCells : line.cells = before ++ l.text ++ after)
    (hAfter : Separates after) (hRoom : argNr < maxArgNum) :
    ∃ args', parseArg line args argNr before.length = .ok ⟨true, line, args', before.length⟩ ∧
      args'.cells = args.cells.set argNr (.long l.value) := by
  obtain ⟨tail, hSplit⟩ := hAfter.1.split
  have hNumber : line.strAt before.length = .ok (l.text ++ text after) := by
    have hString : line.cells = before ++ (l.text ++ text after) ++ 0 :: tail := by
      rw [hCells]
      simp [← hSplit]
    refine Buffer.strAt_eq hString ?_
    rw [List.mem_append, not_or]
    exact ⟨literal_noNul (by decide) (by decide), zero_notMem_text after⟩
  obtain ⟨args', hSet, hArgs⟩ := args.set_inside hRoom (.long l.value)
  obtain ⟨c, rest, hText, hFirst⟩ : ∃ c rest, l.text = c :: rest ∧
      (isDigit c = true ∨ c = 0x2d) := by
    obtain ⟨c, rest, hBody, hDigit⟩ := l.body_head
    unfold Strtol.Literal.text
    cases l.neg with
    | true => exact ⟨0x2d, l.body, rfl, .inr rfl⟩
    | false => exact ⟨c, rest, hBody, .inl (decide_eq_true (Strtol.digitValue_lt_ten.mp hDigit))⟩
  have hGet : line.get before.length = .ok c := by
    refine Buffer.get_eq ?_
    rw [hCells, hText]
    simp
  refine ⟨args', ?_, hArgs⟩
  unfold parseArg
  rw [hGet, onLine_ok, ok_bind, if_neg (by rintro ⟨h₁, h₂, -⟩; exact hFirst.elim h₁ h₂),
    if_pos hFirst, hNumber, onLine_ok, ok_bind, Strtol.strtol_literal l hAfter.2, hSet]
  rfl

theorem parseArg_str (args : Args) {s : List UInt8} (noQuote : 0x22 ∉ s) (noNul : 0 ∉ s)
    (hCells : line.cells = before ++ 0x22 :: (s ++ 0x22 :: after)) (hAfter : Terminated after)
    (hRoom : argNr < maxArgNum) :
    ∃ line' args', parseArg line args argNr before.length =
        .ok ⟨true, line', args', before.length + s.length + 2⟩ ∧
      line'.cells = before ++ 0x22 :: (s ++ 0 :: after) ∧
      args'.cells = args.cells.set argNr (.pointer (before.length + 1)) := by
  obtain ⟨args', hSet, hArgs⟩ := args.set_inside hRoom (.pointer (before.length + 1))
  have hGet : line.get before.length = .ok 0x22 := by
    refine Buffer.get_eq ?_
    rw [hCells]
    simp
  have hOpen : line.cells = (before ++ [0x22]) ++ s ++ 0x22 :: after := by simp [hCells]
  have hQuote :
      line.strchr (before.length + 1) 0x22 = .ok (some (before.length + 1 + s.length)) := by
    have h := Buffer.strchr_found hOpen noNul hAfter (by decide) noQuote
    simpa using h
  obtain ⟨line', hWrite, hLine⟩ := Buffer.set_spec hOpen 0
  refine ⟨line', args', ?_, by simpa using hLine, hArgs⟩
  have hPosition : ((before ++ [0x22]) ++ s).length = before.length + 1 + s.length := by
    simp
    omega
  rw [hPosition] at hWrite
  unfold parseArg
  rw [hGet, onLine_ok, ok_bind, if_neg (by decide), if_neg (by decide), if_pos rfl, hSet, onArgs_ok,
    ok_bind, hQuote, onLine_ok, ok_bind]
  dsimp only
  rw [hWrite, onLine_ok, ok_bind]
  congr 2
  omega

/-- One argument: it is stored, and the comma is searched from a position behind
which only the rest of the argument precedes it. -/
theorem parseArg_spec (args : Args) (argNr : Nat) (a : ArgText)
    (hCells : line.cells = before ++ a.text ++ after)
    (hAfter : Separates after) (hRoom : argNr < maxArgNum) :
    ∃ line' args' start rest, parseArg line args argNr before.length =
        .ok ⟨true, line', args', start.length⟩ ∧
      line'.cells = before ++ a.cut ++ after ∧ before ++ a.cut = start ++ rest ∧
      0 ∉ rest ∧ 0x2c ∉ rest ∧ args'.cells = args.cells.set argNr (a.slot before.length) := by
  cases a with
  | int l =>
      obtain ⟨args', hParse, hArgs⟩ := parseArg_int args l hCells hAfter hRoom
      exact ⟨line, args', before, l.text, hParse, hCells, rfl,
        literal_noNul (by decide) (by decide), literal_noNul (by decide) (by decide), hArgs⟩
  | str s noQuote noNul =>
      have hString : line.cells = before ++ 0x22 :: (s ++ 0x22 :: after) := by
        rw [hCells]
        simp [ArgText.text]
      obtain ⟨line', args', hParse, hLine, hArgs⟩ :=
        parseArg_str args noQuote noNul hString hAfter.1 hRoom
      refine ⟨line', args', before ++ 0x22 :: (s ++ [0]), [], ?_, ?_, by simp [ArgText.cut],
        List.not_mem_nil, List.not_mem_nil, hArgs⟩
      · rw [hParse]
        congr 2
        simp
        omega
      · rw [hLine]
        simp [ArgText.cut]

/-- What is written in front of a position is found there. -/
theorem stored_of_start {a : ArgText} {line : Buffer UInt8 n}
    (h : before ++ a.cut <+: line.cells) : a.Stored line (a.slot before.length) := by
  obtain ⟨rest, hCells⟩ := h
  cases a with
  | int l => rfl
  | str s noQuote noNul =>
      refine ⟨before.length + 1, rfl, ?_⟩
      have hSplit : line.cells = (before ++ [0x22]) ++ s ++ 0 :: rest := by
        rw [← hCells]
        simp [ArgText.cut]
      simpa using Buffer.strAt_eq hSplit noNul

/-- The slots hold the arguments, from the given slot on. -/
def AllStored (line : Buffer UInt8 n) (args : Args) (argNr : Nat) (texts : List ArgText) : Prop :=
  ∀ i a, texts[i]? = some a → ∃ slot, args.cells[argNr + i]? = some slot ∧ a.Stored line slot

theorem separates_end (rest : List UInt8) : Separates (0 :: rest) := by
  refine ⟨List.mem_cons_self, ?_⟩
  simp [text]

theorem separates_comma {rest : List UInt8} (h : Terminated rest) : Separates (0x2c :: rest) := by
  refine ⟨List.mem_cons_of_mem _ h, ?_⟩
  intro c hc
  have hText : text (0x2c :: rest) = 0x2c :: text rest := by simp [text]
  rw [hText, List.head?_cons, Option.mem_some_iff] at hc
  rw [← hc]
  decide

/-- The turn of the loop at the last argument. -/
theorem argsLoop_last (args : Args) {argNr : Nat} (a : ArgText) {room paraStrEnd : Nat}
    {rest : List UInt8} (hCells : line.cells = before ++ a.text ++ 0 :: rest)
    (hRoom : argNr < maxArgNum) (hEnd : paraStrEnd = before.length + a.text.length) :
    ∃ line' args', argsLoop paraStrEnd (room + 1) line args argNr before.length =
        .ok ⟨0, line', args'⟩ ∧
      before ++ a.cut <+: line'.cells ∧
      args'.cells = args.cells.set argNr (a.slot before.length) := by
  have hText := List.length_pos_iff.mpr a.text_ne_nil
  obtain ⟨line', args', start, tail, hParse, hLine, hSplit, hNul, hComma, hArgs⟩ :=
    parseArg_spec args argNr a hCells (separates_end rest) hRoom
  have hLast : line'.strchr start.length 0x2c = .ok none :=
    Buffer.strchr_none (by rw [hLine, hSplit]) hNul hComma
  refine ⟨line', args', ?_, ?_, hArgs⟩
  · rw [argsLoop, if_neg (by omega), hParse, ok_bind, if_pos rfl, hLast, onLine_ok, ok_bind]
    rfl
  · rw [hLine]
    exact List.prefix_append _ _

/-- The turn of the loop at an argument with a comma behind it. -/
theorem argsLoop_next (args : Args) {argNr : Nat} (a : ArgText) {room paraStrEnd : Nat}
    {more : List UInt8} (hCells : line.cells = before ++ a.text ++ 0x2c :: more)
    (hMore : Terminated more) (hRoom : argNr < maxArgNum)
    (hEnd : before.length + a.text.length < paraStrEnd) :
    ∃ line' args', argsLoop paraStrEnd (room + 1) line args argNr before.length =
        argsLoop paraStrEnd room line' args' (argNr + 1) (before ++ a.cut ++ [0x2c]).length ∧
      line'.cells = before ++ a.cut ++ [0x2c] ++ more ∧
      args'.cells = args.cells.set argNr (a.slot before.length) := by
  obtain ⟨line', args', start, tail, hParse, hLine, hSplit, hNul, hComma, hArgs⟩ :=
    parseArg_spec args argNr a hCells (separates_comma hMore) hRoom
  have hFound : line'.strchr start.length 0x2c = .ok (some (start.length + tail.length)) :=
    Buffer.strchr_found (by rw [hLine, hSplit]) hNul hMore (by decide) hComma
  have hPosition : start.length + tail.length + 1 = (before ++ a.cut ++ [0x2c]).length := by
    simp only [hSplit, List.length_append, List.length_singleton]
  refine ⟨line', args', ?_, ?_, hArgs⟩
  · rw [argsLoop, if_neg (by omega), hParse, ok_bind, if_pos rfl, hFound, onLine_ok, ok_bind]
    dsimp only
    rw [hPosition]
  · rw [hLine, List.append_assoc _ [0x2c], List.singleton_append]

/-- The loop reads the arguments one after the other. It writes at or behind the
argument it is at, and into its slot or later ones. -/
theorem argsLoop_spec (args : Args) (argNr : Nat) {texts : List ArgText} {room paraStrEnd : Nat}
    {rest : List UInt8}
    (hSome : texts ≠ []) (hRoom : texts.length ≤ room) (hSlots : argNr + texts.length ≤ maxArgNum)
    (hCells : line.cells = before ++ argsText texts ++ 0 :: rest)
    (hEnd : paraStrEnd = before.length + (argsText texts).length) :
    ∃ line' args', argsLoop paraStrEnd room line args argNr before.length =
        .ok ⟨0, line', args'⟩ ∧
      before <+: line'.cells ∧ AllStored line' args' argNr texts ∧
      ∀ i < argNr, args'.cells[i]? = args.cells[i]? := by
  induction texts generalizing line args argNr before room with
  | nil => exact absurd rfl hSome
  | cons a texts ih =>
      obtain ⟨room, rfl⟩ : ∃ k, room = k + 1 :=
        Nat.exists_eq_succ_of_ne_zero (by rintro rfl; simp at hRoom)
      rw [List.length_cons] at hRoom hSlots
      have hSize := args.size
      have hHere : argNr < maxArgNum := by omega
      have hSlot (args' : Args)
          (hArgs : args'.cells = args.cells.set argNr (a.slot before.length)) :
          args'.cells[argNr]? = some (a.slot before.length) := by
        rw [hArgs, List.getElem?_set_self (by omega)]
      have hOther (args' : Args) (hArgs : args'.cells = args.cells.set argNr (a.slot before.length))
          (i : Nat) (hi : i < argNr) : args'.cells[i]? = args.cells[i]? := by
        rw [hArgs, List.getElem?_set_ne (by omega)]
      cases texts with
      | nil =>
          obtain ⟨line', args', hLoop, hFirst, hArgs⟩ :=
            argsLoop_last args a hCells hHere hEnd
          refine ⟨line', args', hLoop, (List.prefix_append _ _).trans hFirst, ?_,
            hOther args' hArgs⟩
          intro i b hb
          cases i with
          | zero =>
              cases hb
              exact ⟨_, hSlot args' hArgs, stored_of_start hFirst⟩
          | succ i => cases hb
      | cons b texts =>
          change paraStrEnd =
            before.length + (a.text ++ 0x2c :: argsText (b :: texts)).length at hEnd
          rw [List.length_append, List.length_cons] at hEnd
          have hSplit : line.cells =
              before ++ a.text ++ 0x2c :: (argsText (b :: texts) ++ 0 :: rest) := by
            simp [hCells, argsText]
          have hMore : Terminated (argsText (b :: texts) ++ 0 :: rest) := terminated_append_zero _ _
          have hBehind : before.length + a.text.length < paraStrEnd := by omega
          obtain ⟨line', args', hTurn, hNext, hArgs⟩ :=
            argsLoop_next args a hSplit hMore hHere hBehind
          have hLength :
              (before ++ a.cut ++ [0x2c]).length = before.length + a.text.length + 1 := by
            simp only [List.length_append, List.length_singleton, a.cut_length]
          have hLeft : (b :: texts).length ≤ room := by omega
          rw [← List.append_assoc] at hNext
          obtain ⟨line'', args'', hLoop, hPrefix, hStored, hKept⟩ := ih args' (argNr + 1)
            (List.cons_ne_nil _ _) hLeft (by omega) hNext (by rw [hLength]; omega)
          have hFirst : before ++ a.cut <+: line''.cells := (List.prefix_append _ _).trans hPrefix
          refine ⟨line'', args'', hTurn.trans hLoop, (List.prefix_append _ _).trans hFirst, ?_, ?_⟩
          · intro i c hc
            cases i with
            | zero =>
                cases hc
                exact ⟨_, by rw [Nat.add_zero, hKept argNr (by omega), hSlot args' hArgs],
                  stored_of_start hFirst⟩
            | succ i =>
                obtain ⟨slot, hCell, hHolds⟩ := hStored i c hc
                exact ⟨slot, by rw [← hCell]; congr 1; omega, hHolds⟩
          · intro i hi
            rw [hKept i (by omega), hOther args' hArgs i hi]

/-- The name is cut off at the opening parenthesis. -/
theorem name_cut {name more : List UInt8} (hName : 0 ∉ name) (hParen : 0x28 ∉ name)
    (hCells : line.cells = name ++ 0x28 :: more) (hMore : Terminated more) :
    line.strchr 0 0x28 = .ok (some name.length) ∧ ∃ line', line.set name.length 0 = .ok line' ∧
      line'.str = .ok name ∧ line'.cells = (name ++ [0]) ++ more := by
  have hOpen : line.strchr 0 0x28 = .ok (some name.length) := by
    have hStart : line.cells = [] ++ name ++ 0x28 :: more := hCells
    have h := Buffer.strchr_found hStart hName hMore (by decide) hParen
    simpa using h
  obtain ⟨line', hCut, hLine⟩ := Buffer.set_spec hCells 0
  refine ⟨hOpen, line', hCut, ?_, by simp [hLine]⟩
  rw [Buffer.str_eq (by rw [hLine]; exact terminated_append_zero _ _), hLine,
    text_append_zero hName]

end Parsing

/-- A call that is written down is parsed back: the function is resolved, and the
slots hold the numbers and the positions of the strings. -/
theorem call_round_trip {n : Nat} (files : List UInt8 → List SymbolTable) (nodes : List SoNode)
    {name : List UInt8} (hName : 0 ∉ name) (hParen : 0x28 ∉ name)
    (hResolved : ldFindAddress files name nodes ≠ noAddress) {texts : List ArgText}
    (hCount : texts.length ≤ 8) {line : Buffer UInt8 n} {rest : List UInt8}
    (hLine : line.cells = callText name texts ++ 0 :: rest) (args : Args) :
    ∃ call, parseFuncCall files nodes line args = .ok call ∧ call.ret = 0 ∧
      call.funAddr = some (ldFindAddress files name nodes) ∧
      ∀ (i : Nat) (a : ArgText), texts[i]? = some a →
        ∃ slot, call.args.cells[i]? = some slot ∧ a.Stored call.line slot := by
  have hArgs := argsText_noNul texts
  have hWhole : line.cells = name ++ 0x28 :: (argsText texts ++ [0x29] ++ 0 :: rest) := by
    simp [hLine, callText]
  obtain ⟨hOpen, line₁, hCut, hFunc, hLine₁⟩ :=
    name_cut hName hParen hWhole (terminated_append_zero _ _)
  have hBegin : (name ++ [0]).length = name.length + 1 := by simp
  have hInner : line₁.cells = (name ++ [0]) ++ argsText texts ++ 0x29 :: 0 :: rest := by
    simp [hLine₁]
  have hClose : line₁.strrchr (name.length + 1) 0x29 =
      .ok (some (name.length + 1 + (argsText texts).length)) := by
    have h := Buffer.strrchr_last hInner hArgs (by decide)
    rwa [hBegin] at h
  obtain ⟨line₂, hEnd, hLine₂⟩ := Buffer.set_spec hInner 0
  rw [List.length_append, hBegin] at hEnd
  have hParsed : ∃ line' args', parseFunctionArgs line₂ args (name.length + 1)
      (name.length + 1 + (argsText texts).length) = .ok ⟨0, line', args'⟩ ∧
        AllStored line' args' 0 texts := by
    unfold parseFunctionArgs
    by_cases hNone : texts = []
    · subst hNone
      exact ⟨line₂, args, if_pos rfl, fun i a h => by cases h⟩
    · obtain ⟨line', args', hLoop, -, hStored, -⟩ := argsLoop_spec args 0
        hNone hCount (by rw [Nat.zero_add]; exact hCount) hLine₂ rfl
      rw [hBegin] at hLoop
      refine ⟨line', args', ?_, hStored⟩
      rw [if_neg (by
        have h := argsText_pos hNone
        omega)]
      exact hLoop
  obtain ⟨line', args', hParsed, hStored⟩ := hParsed
  refine ⟨⟨⟨0, line', args'⟩, some (ldFindAddress files name nodes), []⟩, ?_, rfl, rfl, ?_⟩
  · unfold parseFuncCall
    rw [hOpen, onLine_ok, ok_bind]
    dsimp only
    rw [hCut, onLine_ok, ok_bind, hFunc, onLine_ok, ok_bind, if_neg hResolved, hClose, onLine_ok,
      ok_bind]
    dsimp only
    rw [hEnd, onLine_ok, ok_bind, hParsed, ok_bind]
    rfl
  · intro i a ha
    obtain ⟨slot, hCell, hHolds⟩ := hStored i a ha
    exact ⟨slot, by rw [← hCell, Nat.zero_add], hHolds⟩

/-- `f(-5,"a,)",0x1F)` -/
def typedArgs : List ArgText :=
  [.int ⟨true, .decimal, [0x35], by decide +kernel, ⟨0x35, [], rfl, by decide⟩, by decide⟩,
    .str (ascii "a,)") (by decide) (by decide),
    .int ⟨false, .hex false, ascii "1F", by decide +kernel, List.cons_ne_nil _ _, by decide⟩]

def typedLine : Buffer UInt8 17 := ⟨ascii "f(-5,\"a,)\",0x1F)" ++ [0], by decide⟩

theorem call_round_trip_typed :
    ∃ call, parseFuncCall (fun _ => [oneSymbol 1 0x10]) [⟨[1], 0x4000, 0x5000⟩] typedLine
        (.const _ (.long 0)) = .ok call ∧ call.ret = 0 ∧
      ∃ slot, call.args.cells[1]? = some slot ∧
        ∃ position, slot = .pointer position ∧ call.line.strAt position = .ok (ascii "a,)") := by
  have hLine : typedLine.cells = callText [0x66] typedArgs ++ 0 :: [] := by decide
  obtain ⟨call, hParse, hRet, -, hStored⟩ := call_round_trip (fun _ => [oneSymbol 1 0x10])
    [⟨[1], 0x4000, 0x5000⟩] (by decide) (by decide) (by decide +kernel) (by decide) hLine
    (.const _ (.long 0))
  exact ⟨call, hParse, hRet, hStored 1 _ rfl⟩

end TelnetDebug

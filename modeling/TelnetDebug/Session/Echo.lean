import TelnetDebug.Session.LineEditor
import TelnetDebug.Library.Terminal

/-! What the terminal of the user shows while a line is edited. The echo of each
key is a function of the line and the key, and it takes a row that shows the
line to a row that shows the edited line. -/
namespace TelnetDebug

open CBuffer Guarded LineZipper VT100

/-- The bytes sent for a key. -/
def EditKey.echo (z : Zipper UInt8) : EditKey → List UInt8
  | char c _ => if z.after = [] then [c] else ascii "\x1b[1@" ++ [c]
  | left => if z.before = [] then [] else moveLeft
  | right => if z.after = [] then [] else moveRight
  | backspace _ _ => if z.before = [] then [] else backspaceEcho z.after

/-- The row shows the prompt, the line and blanks, and its cursor stands where
the line is cut. -/
def Displays (width : Nat) (t : Terminal) (z : Zipper UInt8) : Prop :=
  t.Shows (debugShell ++ z.before) (z.after ++ blanks (width - debugShell.length - z.text.length))

section Keys
variable {sign : CharSign} {s t : Session} {z : Zipper UInt8}

/-- A step that edits the line sends its echo and nothing else. -/
theorem echo_step (hShows : ShowsLine s z) (hOpen : s.closed = false) {key : EditKey}
    (hFits : (EditKey.apply z key).text.length < maxCmdLen)
    (hStep : s.step sign key.read = .ok t) : t.sent = s.sent ++ key.echo z := by
  cases key with
  | char c hTypable =>
      rw [EditKey.echo]
      by_cases hEnd : z.after = []
      · obtain ⟨buf, hType, -⟩ := char_end_eq sign hShows hOpen hTypable hEnd hFits
        obtain rfl := Except.ok.inj (hType.symm.trans hStep)
        rw [if_pos hEnd]
        rfl
      · obtain ⟨buf, hType, -⟩ := char_mid_eq sign hShows hOpen hTypable hEnd
        obtain rfl := Except.ok.inj (hType.symm.trans hStep)
        rw [if_neg hEnd]
        rfl
  | left =>
      obtain rfl := Except.ok.inj ((left_eq hShows hOpen).symm.trans hStep)
      rw [EditKey.echo]
      split
      · exact (List.append_nil _).symm
      · rfl
  | right =>
      obtain rfl := Except.ok.inj ((right_eq hShows hOpen).symm.trans hStep)
      rw [EditKey.echo]
      split
      · exact (List.append_nil _).symm
      · rfl
  | backspace c hErases =>
      obtain ⟨before, after⟩ := z
      rw [EditKey.echo]
      rcases List.eq_nil_or_concat' before with rfl | ⟨before, old, rfl⟩
      · obtain rfl := Except.ok.inj ((backspace_start hShows hOpen hErases rfl).symm.trans hStep)
        exact (List.append_nil _).symm
      · obtain ⟨buf, hErase, -⟩ := backspace_eq sign hShows hOpen hErases
        obtain rfl := Except.ok.inj (hErase.symm.trans hStep)
        rw [if_neg (by simp)]
        rfl

end Keys

section Rows
variable {width : Nat} {t : Terminal} {before after : List UInt8} {c : UInt8}

theorem Typable.printable (h : Typable c) : Printable c := ⟨h.low, h.high⟩

theorem printable_space : Printable 0x20 := by decide

theorem append_blanks_ne_nil (line : List UInt8) {count : Nat} (h : 0 < count) :
    line ++ blanks count ≠ [] := by
  apply List.append_ne_nil_of_right_ne_nil
  rw [blanks, ne_eq, List.replicate_eq_nil_iff]
  omega

theorem blanks_succ (count : Nat) : blanks (count + 1) = blank :: blanks count :=
  List.replicate_succ

/-- With room for one more character, one of the blanks behind the line is given
up and another one remains. -/
theorem char_displays (h : Displays width t ⟨before, after⟩) (hTypable : Typable c)
    (hWide : debugShell.length + (Zipper.mk (before ++ [c]) after).text.length < width) :
    Displays width (t.feedAll ((EditKey.char c hTypable).echo ⟨before, after⟩))
      ⟨before ++ [c], after⟩ := by
  have hLength := Zipper.text_length (Zipper.mk (before ++ [c]) after)
  have hOld := Zipper.text_length (Zipper.mk before after)
  simp only [List.length_append, List.length_singleton] at hLength hOld
  obtain ⟨count, hCount⟩ : ∃ count,
      width - debugShell.length - (Zipper.mk (before ++ [c]) after).text.length = count + 1 :=
    ⟨width - debugShell.length - (Zipper.mk (before ++ [c]) after).text.length - 1, by omega⟩
  unfold Displays at h ⊢
  rw [show width - debugShell.length - (Zipper.mk before after).text.length = count + 2 by
    omega] at h
  rw [hCount, EditKey.echo]
  simp only at h ⊢
  rw [← List.append_assoc]
  by_cases hEnd : after = []
  · subst hEnd
    rw [if_pos rfl]
    rw [List.nil_append, blanks_succ] at h
    exact h.char (append_blanks_ne_nil [] (Nat.succ_pos count)) hTypable.printable
  · rw [if_neg hEnd, Terminal.feedAll_append]
    have hShift : after ++ blanks (count + 2) = (after ++ blanks (count + 1)) ++ [blank] := by
      rw [List.append_assoc, blanks, List.replicate_succ']
      rfl
    rw [hShift] at h
    have hInserted := h.insertBlank
    exact hInserted.char (append_blanks_ne_nil after (Nat.succ_pos count)) hTypable.printable

theorem left_displays {x : UInt8} (h : Displays width t ⟨before ++ [x], after⟩) :
    Displays width (t.feedAll moveLeft) ⟨before, x :: after⟩ := by
  unfold Displays at h ⊢
  simp only [Zipper.text, List.append_assoc, List.singleton_append] at h ⊢
  rw [← List.append_assoc] at h
  exact h.cursorBack

theorem right_displays {x : UInt8} (h : Displays width t ⟨before, x :: after⟩)
    (hWide : debugShell.length + (Zipper.mk before (x :: after)).text.length < width) :
    Displays width (t.feedAll moveRight) ⟨before ++ [x], after⟩ := by
  unfold Displays at h ⊢
  simp only [Zipper.text, List.append_assoc, List.singleton_append] at h hWide ⊢
  rw [← List.append_assoc]
  exact h.cursorForward (append_blanks_ne_nil after (by omega))

/-- The echo of a deletion blanks the character twice and redraws what stood
behind it. -/
theorem backspace_displays {old : UInt8} (h : Displays width t ⟨before ++ [old], after⟩)
    (hAfter : ∀ c ∈ after, Printable c)
    (hWide : debugShell.length + (Zipper.mk (before ++ [old]) after).text.length < width) :
    Displays width (t.feedAll (backspaceEcho after)) ⟨before, after⟩ := by
  have hLength := Zipper.text_length (Zipper.mk (before ++ [old]) after)
  have hNew := Zipper.text_length (Zipper.mk before after)
  simp only [List.length_append, List.length_singleton] at hLength hNew
  obtain ⟨count, hCount⟩ : ∃ count,
      width - debugShell.length - (Zipper.mk (before ++ [old]) after).text.length = count + 1 :=
    ⟨width - debugShell.length - (Zipper.mk (before ++ [old]) after).text.length - 1, by omega⟩
  unfold Displays at h ⊢
  rw [hCount] at h
  rw [show width - debugShell.length - (Zipper.mk before after).text.length = count + 2 by omega]
  simp only at h ⊢
  rw [← List.append_assoc] at h
  have hRoom : after ++ blanks (count + 1) ≠ [] := append_blanks_ne_nil after (Nat.succ_pos count)
  have hErased : (t.feedAll (ascii "\x08 \x08")).Shows (debugShell ++ before)
      (0x20 :: (after ++ blanks (count + 1))) :=
    (h.back.char hRoom printable_space).back
  rw [backspaceEcho, Terminal.feedAll_append, Terminal.feedAll_append]
  by_cases hEnd : after = []
  · subst hEnd
    exact (hErased.char hRoom printable_space).cursorBack
  · rw [if_neg hEnd, if_neg hEnd, Terminal.feedAll_append]
    have hCleared := hErased.eraseRight
    have hSplit : blanks (0x20 :: (after ++ blanks (count + 1))).length =
        blanks after.length ++ blanks (count + 2) := by
      simp only [blanks, List.length_cons, List.length_append, List.length_replicate,
        List.replicate_append_replicate]
      congr 1
    rw [hSplit] at hCleared
    have hTail := hCleared.chars (append_blanks_ne_nil [] (Nat.succ_pos _)) hAfter
      List.length_replicate
    exact hTail.back_over

/-- The echo of a key takes the row that shows the line to the row that shows
the edited line. -/
theorem echo_displays {z : Zipper UInt8} (h : Displays width t z) {key : EditKey}
    (hText : ∀ c ∈ z.text, Printable c)
    (hWide : debugShell.length + z.text.length < width)
    (hNext : debugShell.length + (EditKey.apply z key).text.length < width) :
    Displays width (t.feedAll (key.echo z)) (EditKey.apply z key) := by
  obtain ⟨before, after⟩ := z
  cases key with
  | char c hTypable => exact char_displays h hTypable hNext
  | left =>
      rcases List.eq_nil_or_concat' before with rfl | ⟨before, x, rfl⟩
      · exact h
      · rw [EditKey.apply, Zipper.left_step, EditKey.echo, if_neg (by simp)]
        exact left_displays h
  | right =>
      cases after with
      | nil => exact h
      | cons x after => exact right_displays h hWide
  | backspace c hErases =>
      rcases List.eq_nil_or_concat' before with rfl | ⟨before, old, rfl⟩
      · exact h
      · rw [EditKey.apply, Zipper.erase_step, EditKey.echo, if_neg (by simp)]
        exact backspace_displays h (fun d hd => hText d (List.mem_append_right _ hd)) hWide

theorem apply_printable {z : Zipper UInt8} (hText : ∀ c ∈ z.text, Printable c) (key : EditKey) :
    ∀ c ∈ (EditKey.apply z key).text, Printable c := by
  intro d hd
  cases key with
  | char c hTypable =>
      rcases Zipper.mem_text_insert.mp hd with rfl | hd
      · exact hTypable.printable
      · exact hText d hd
  | left => exact hText d (Zipper.text_left z ▸ hd)
  | right => exact hText d (Zipper.text_right z ▸ hd)
  | backspace c hErases => exact hText d (Zipper.mem_of_mem_erase hd)

end Rows

/-- The session and a terminal that shows its line: from `start` on, the terminal
has received what was sent after `sent`. -/
structure Mirrors (sent : List UInt8) (start : Terminal) (width : Nat) (s : Session)
    (z : Zipper UInt8) : Prop where
  shows : ShowsLine s z
  isOpen : s.closed = false
  printable : ∀ c ∈ z.text, Printable c
  echoed : ∃ out, s.sent = sent ++ out ∧ Displays width (start.feedAll out) z

theorem Mirrors.step {sent : List UInt8} {start : Terminal} {width : Nat} {s : Session}
    {z : Zipper UInt8} (h : Mirrors sent start width s z) (sign : CharSign)
    (hWide : debugShell.length + 255 < width) (key : EditKey)
    (hNext : (EditKey.apply z key).text.length ≤ 255) :
    ∃ t, s.step sign key.read = .ok t ∧ Mirrors sent start width t (EditKey.apply z key) := by
  have hFits := Nat.lt_succ_of_le hNext
  have hOld := h.shows.fits
  rw [maxCmdLen_eq] at hOld
  obtain ⟨t, hStep, hEdited⟩ := edit_step sign h.shows h.isOpen key hFits
  obtain ⟨out, hSent, hDisplays⟩ := h.echoed
  refine ⟨t, hStep, hEdited.shows, hEdited.only.closed.trans h.isOpen,
    apply_printable h.printable key, out ++ key.echo z, ?_, ?_⟩
  · rw [echo_step h.shows h.isOpen hFits hStep, hSent, List.append_assoc]
  · rw [Terminal.feedAll_append]
    exact echo_displays hDisplays h.printable (by omega) (by omega)

/-- After every key the row reads the prompt, the contents of the line buffer
and blanks, and the cursor of the terminal stands as many columns before the
end of the line as the cursor counter says. -/
theorem terminal_agrees (sign : CharSign) {s : Session} (hOpen : s.closed = false)
    (hLine : s.cmdBuf = .const _ 0) (hCursor : s.mgr.moveLeftNum = 0) {width : Nat}
    (hWide : debugShell.length + 255 < width) {keys : List EditKey}
    (hFits : ∀ taken, taken <+: keys → (edited taken).text.length ≤ 255) {taken : List EditKey}
    (hTaken : taken <+: keys) :
    ∃ t out, shellThreadFunc sign s (taken.map EditKey.read) = .ok t ∧ t.sent = s.sent ++ out ∧
      let screen := (Terminal.showing debugShell width
        (Nat.lt_of_le_of_lt (Nat.le_add_right _ _) hWide)).feedAll out
      screen.row.cells = debugShell ++ text t.cmdBuf.cells ++
          blanks (width - debugShell.length - (text t.cmdBuf.cells).length) ∧
        t.mgr.moveLeftNum.toNat ≤ (text t.cmdBuf.cells).length ∧
        screen.row.column =
          debugShell.length + (text t.cmdBuf.cells).length - t.mgr.moveLeftNum.toNat := by
  have hShort := Nat.lt_of_le_of_lt (Nat.le_add_right debugShell.length 255) hWide
  have hStart : Mirrors s.sent (Terminal.showing debugShell width hShort) width s .empty :=
    ⟨showsLine_empty hLine hCursor, hOpen, fun _ h => absurd h List.not_mem_nil, [],
      (List.append_nil _).symm, Terminal.showing_shows debugShell hShort⟩
  obtain ⟨t, hRun, hMirrors⟩ := run_simulates
    (fun _ _ key h hNext => h.step sign hWide key hNext) hStart
    (fun before key hPrefix => by
      have h := hFits _ (hPrefix.trans hTaken)
      rwa [edited, List.foldl_concat] at h)
  obtain ⟨hShows, -, -, out, hSent, hRow, -⟩ := hMirrors
  have hText := hShows.text
  have hLength := Zipper.text_length (taken.foldl EditKey.apply .empty)
  have hNum := hShows.cursor
  have hColumn := hRow.column
  refine ⟨t, out, by rw [shellThreadFunc, run_map]; exact hRun, hSent, ?_, ?_, ?_⟩
  · rw [hRow.cells, hText, Zipper.text]
    simp only [List.append_assoc]
  · rw [hText, hNum, hLength]
    exact Nat.le_add_left _ _
  · rw [hColumn, hText, hNum, hLength, List.length_append]
    omega

/-- Two characters, one typed between them and erased again, and Right. -/
theorem terminal_agrees_typed :
    ∃ t out, shellThreadFunc .signed .init (editedKeys.map EditKey.read) = .ok t ∧
      t.sent = Session.init.sent ++ out ∧
      ((Terminal.showing debugShell 300 (by decide)).feedAll out).row.column =
        debugShell.length + (text t.cmdBuf.cells).length - t.mgr.moveLeftNum.toNat := by
  have hInits : ∀ taken ∈ editedKeys.inits, (edited taken).text.length ≤ 255 := by decide
  have hFits (taken : List EditKey) (h : taken <+: editedKeys) : (edited taken).text.length ≤ 255 :=
    hInits taken ((List.mem_inits taken editedKeys).mpr h)
  obtain ⟨t, out, hRun, hSent, -, -, hColumn⟩ := terminal_agrees .signed (s := .init) rfl rfl rfl
    (by decide : debugShell.length + 255 < 300) hFits List.prefix_rfl
  exact ⟨t, out, hRun, hSent, hColumn⟩

end TelnetDebug

import Mathlib.Data.List.TakeWhile

/-! Reading text the way the C library does it: the lines that `fgets` delivers,
the tokens that `strtok` cuts off a line, and the part in front of a character
that `strchr` finds. -/
namespace Strtok

variable {α : Type} [DecidableEq α]

section Tokens

/-- The next token and what is left behind its delimiter. -/
def strtok (delim : List α) (left : List α) : Option (List α) × List α :=
  match left.dropWhile (· ∈ delim) with
  | [] => (none, [])
  | c :: rest =>
      (some ((c :: rest).takeWhile (· ∉ delim)), ((c :: rest).dropWhile (· ∉ delim)).drop 1)

variable {delim token rest : List α} {d : α}

/-- A token that ends at a delimiter. -/
theorem strtok_token (hSome : token ≠ []) (hToken : ∀ c ∈ token, c ∉ delim) (hDelim : d ∈ delim) :
    strtok delim (token ++ d :: rest) = (some token, rest) := by
  obtain ⟨c, token, rfl⟩ := List.exists_cons_of_ne_nil hSome
  have hFirst : c ∉ delim := hToken c List.mem_cons_self
  have hAll : ∀ x ∈ c :: token, decide (x ∉ delim) = true :=
    fun x hx => decide_eq_true (hToken x hx)
  have hStart : (c :: token ++ d :: rest).dropWhile (· ∈ delim) = c :: (token ++ d :: rest) := by
    rw [List.cons_append, List.dropWhile_cons_of_neg (by simpa using hFirst)]
  rw [strtok, hStart]
  change (some ((c :: token ++ d :: rest).takeWhile _),
    ((c :: token ++ d :: rest).dropWhile _).drop 1) = _
  rw [List.takeWhile_append_of_pos hAll, List.dropWhile_append_of_pos hAll,
    List.takeWhile_cons_of_neg (by simpa using hDelim), List.append_nil,
    List.dropWhile_cons_of_neg (by simpa using hDelim)]
  rfl

end Tokens

section Cuts
variable {c : α} {s front tail : List α}

/-- The part in front of the first `c`, and the rest from there on. -/
def cutAt (c : α) (s : List α) : List α × List α := (s.takeWhile (· ≠ c), s.dropWhile (· ≠ c))

/-- The text is at its end, or goes on with `c`. -/
def EndsOrMeets (c : α) (tail : List α) : Prop := tail = [] ∨ ∃ more, tail = c :: more

theorem cutAt_append_parts (c : α) (s : List α) : (cutAt c s).1 ++ (cutAt c s).2 = s :=
  List.takeWhile_append_dropWhile

theorem notMem_cutAt (c : α) (s : List α) : c ∉ (cutAt c s).1 := by
  intro h
  simpa using List.mem_takeWhile_imp h

theorem cutAt_endsOrMeets (c : α) (s : List α) : EndsOrMeets c (cutAt c s).2 := by
  induction s with
  | nil => exact .inl rfl
  | cons d s ih =>
      by_cases hd : d = c
      · exact .inr ⟨s, by simp [cutAt, hd]⟩
      · have hRest : (cutAt c (d :: s)).2 = (cutAt c s).2 := by simp [cutAt, hd]
        rwa [hRest]

/-- A text is cut in one way only. -/
theorem cutAt_append (hFront : c ∉ front) (hTail : EndsOrMeets c tail) :
    cutAt c (front ++ tail) = (front, tail) := by
  have hAll : ∀ d ∈ front, decide (d ≠ c) = true := by
    intro d hd
    exact decide_eq_true fun h => hFront (h ▸ hd)
  rw [cutAt, List.takeWhile_append_of_pos hAll, List.dropWhile_append_of_pos hAll]
  rcases hTail with rfl | ⟨more, rfl⟩ <;> simp

theorem cut_unique {front' tail' : List α} (hFront : c ∉ front) (hTail : EndsOrMeets c tail)
    (hFront' : c ∉ front') (hTail' : EndsOrMeets c tail') (h : front ++ tail = front' ++ tail') :
    front = front' ∧ tail = tail' := by
  have hCut := cutAt_append hFront hTail
  rw [h, cutAt_append hFront' hTail', Prod.mk.injEq] at hCut
  exact ⟨hCut.1.symm, hCut.2.symm⟩

end Cuts

section Lines

/-- What successive calls of `fgets` deliver: each stops behind a newline, or
when the buffer has room for no more than the terminator. -/
def fgetsAll (newline : α) (room : Nat) (taken : List α) : List α → List (List α)
  | [] => if taken = [] then [] else [taken]
  | c :: rest =>
      if c = newline ∨ taken.length + 1 = room then
        (taken ++ [c]) :: fgetsAll newline room [] rest
      else fgetsAll newline room (taken ++ [c]) rest

variable {newline : α} {room : Nat}

theorem fgetsAll_line (taken : List α) {line : List α} (hLine : newline ∉ line)
    (hRoom : taken.length + line.length < room) (rest : List α) :
    fgetsAll newline room taken (line ++ newline :: rest) =
      (taken ++ line ++ [newline]) :: fgetsAll newline room [] rest := by
  induction line generalizing taken with
  | nil =>
      rw [List.nil_append, fgetsAll, if_pos (.inl rfl), List.append_nil]
  | cons c line ih =>
      simp only [List.mem_cons, not_or, List.length_cons] at hLine hRoom
      have hGoOn : ¬ (c = newline ∨ taken.length + 1 = room) := by
        rintro (rfl | hFull)
        · exact hLine.1 rfl
        · omega
      have hTaken : (taken ++ [c]).length = taken.length + 1 := List.length_append
      rw [List.cons_append, fgetsAll, if_neg hGoOn, ih (taken ++ [c]) hLine.2 (by omega)]
      simp only [List.append_assoc, List.singleton_append]

/-- Lines that fit into the buffer are delivered one by one. -/
theorem fgetsAll_lines {lines : List (List α)}
    (hLines : ∀ line ∈ lines, newline ∉ line ∧ line.length < room) :
    fgetsAll newline room [] (lines.map (· ++ [newline])).flatten =
      lines.map (· ++ [newline]) := by
  induction lines with
  | nil => rfl
  | cons line lines ih =>
      obtain ⟨hLine, hRoom⟩ := hLines line List.mem_cons_self
      rw [List.map_cons, List.flatten_cons, List.append_assoc, List.singleton_append,
        fgetsAll_line [] hLine (by rwa [List.length_nil, Nat.zero_add]),
        ih fun other hOther => hLines other (List.mem_cons_of_mem _ hOther)]
      rfl

end Lines

end Strtok

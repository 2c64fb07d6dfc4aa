import TelnetDebug.Symbols.SingleTable
import TelnetDebug.Symbols.TableOutcomes

/-! The loop in which a symbol table is loaded. Its condition never changes, so
it is left from within its body or not at all. -/
namespace TelnetDebug.Image

open CBuffer Posix Guarded

section Turn
variable (sys : System) (symh strh : Shdr)

/-- The loop is left in its first turn: no further turn changes anything, and
the function returns, or ends at an access outside an object. -/
def LeavesInFirstTurn (ei : ElfInternals) (s : OsState) : Prop :=
  Sat (exeLoadSymbolTable sys symh strh 1 ei s) (fun _ => True) (· ≠ .endless) ∧
    ∀ extra, exeLoadSymbolTable sys symh strh (1 + extra) ei s =
      exeLoadSymbolTable sys symh strh 1 ei s

/-- Nothing in the turn leaves the loop: the table is empty, and the string
section is read without a refusal. -/
def FallsThrough (ei : ElfInternals) (s : OsState) : Prop :=
  ¬ NotEmpty symh ∧ ei.fd = sys.fd ∧ sys.firstRefused (stringRequests strh) s.calls = none

variable {sys symh strh}

theorem tableRequests_empty (h : ¬ NotEmpty symh) :
    tableRequests symh strh = stringRequests strh := by
  rw [tableRequests, if_neg h, List.append_nil]

theorem entryAt_ends (object : ElfObject) (entrySize : Nat) (table : List UInt8) (idx : Nat)
    {s : OsState} :
    Sat (entryAt object entrySize table idx s) (fun _ => True) (· ≠ .endless) := by
  unfold entryAt
  split
  · exact trivial
  · exact LoadFault.noConfusion

theorem symbolName_ends (strsymtbl : List UInt8) (sym : ElfSym) {s : OsState} :
    Sat (symbolName strsymtbl sym s) (fun _ => True) (· ≠ .endless) := by
  unfold symbolName stringAt
  split
  · split
    · exact trivial
    · exact LoadFault.noConfusion
  · exact trivial

theorem ElfInternals.store_ends (ei : ElfInternals) (symbol : ElfSymbol) {s : OsState} :
    Sat (ei.store symbol s) (fun _ => True) (· ≠ .endless) := by
  unfold ElfInternals.store
  cases ei.symbols with
  | none => exact LoadFault.noConfusion
  | some array =>
      dsimp only
      split
      · exact trivial
      · exact LoadFault.noConfusion

theorem storeSymbol_ends (strsymtbl syms : List UInt8) (ei : ElfInternals) (idx : Nat)
    {s : OsState} :
    Sat (storeSymbol sys strsymtbl syms ei idx s) (fun _ => True) (· ≠ .endless) := by
  unfold storeSymbol
  apply sat_bind (entryAt_ends _ _ _ _)
  rintro entry t -
  apply sat_bind (symbolName_ends _ _)
  rintro name t -
  apply sat_bind (allocates_outcome sys)
  rintro copied t -
  split
  · exact ei.store_ends _
  · exact trivial

/-- The loop over the entries is bounded by their number, and the turn ends
behind it. -/
theorem storeSymbols_ends (strsymtbl syms : List UInt8) (ei : ElfInternals) {s : OsState} :
    Sat (storeSymbols sys symh strsymtbl syms ei s) (fun r => r.1.1 ≠ none) (· ≠ .endless) := by
  refine storeSymbols_rule (fun _ _ _ => Option.some_ne_none _) fun _ t _ => ?_
  refine Sat.imp (?_ : Sat _ (fun _ => True) _) fun _ _ => Option.some_ne_none _
  apply sat_foldlM fun _ _ => True
  · trivial
  · intro _ idx _ ei' u _
    exact storeSymbol_ends strsymtbl syms ei' idx

/-- The loop goes on behind a turn that falls through, with nothing changed, and
behind no other. -/
theorem symbolTableBody_ends (ei : ElfInternals) (s : OsState) :
    Sat (symbolTableBody sys ei symh strh s)
      (fun r => FallsThrough sys symh strh ei s ∧ r.1 = (none, ei) ∧ r.2.calls = s.calls + 3 ∨
        ¬ FallsThrough sys symh strh ei s ∧ r.1.1 ≠ none)
      (fun e => e ≠ .endless ∧ ¬ FallsThrough sys symh strh ei s) := by
  rw [symbolTableBody_eq]
  by_cases hFd : ei.fd = sys.fd
  · apply sat_bind (readTables_outcome sys symh strh hFd)
    rintro tables t hFollows
    cases tables with
    | failed =>
        obtain ⟨refused, hRefused, -⟩ := hFollows
        refine .inr ⟨?_, Option.some_ne_none _⟩
        rintro ⟨hEmpty, -, hAnswered⟩
        rw [tableRequests_empty hEmpty] at hRefused
        cases hRefused.symm.trans hAnswered
    | empty =>
        obtain ⟨hEmpty, hAnswered, hCalls⟩ := hFollows
        rw [tableRequests_empty hEmpty] at hAnswered
        exact .inl ⟨⟨hEmpty, hFd, hAnswered⟩, rfl, hCalls⟩
    | read strsymtbl syms =>
        obtain ⟨hNotEmpty, -⟩ := hFollows
        have hNot : ¬ FallsThrough sys symh strh ei s := fun hFalls => hFalls.1 hNotEmpty
        apply (storeSymbols_ends strsymtbl syms ei).mono
        · exact fun r hLeft => .inr ⟨hNot, hLeft⟩
        · exact fun e hEnds => ⟨hEnds, hNot⟩
  · have hRead : Sat (readTables sys ei.fd symh strh s) (fun r => r.1 = .failed)
        (fun e => e ≠ .endless ∧ ¬ FallsThrough sys symh strh ei s) := by
      unfold readTables
      apply sat_bind (lseek_closed sys hFd _)
      rintro offset t ⟨hRefused, -⟩
      rw [if_pos hRefused]
      exact rfl
    apply sat_bind hRead
    rintro tables t rfl
    exact .inr ⟨fun hFalls => hFd hFalls.2.1, Option.some_ne_none _⟩

section Steps
variable {ei ei' : ElfInternals} {s t : OsState}

/-- The three ways a turn can end. -/
theorem exeLoadSymbolTable_next (h : symbolTableBody sys ei symh strh s = .ok ((none, ei'), t))
    (fuel : Nat) : exeLoadSymbolTable sys symh strh (fuel + 1) ei s =
      exeLoadSymbolTable sys symh strh fuel ei' t := by
  rw [exeLoadSymbolTable]
  change Except.bind (symbolTableBody sys ei symh strh s) _ = _
  rw [h]
  rfl

theorem exeLoadSymbolTable_returned {rc : UInt32}
    (h : symbolTableBody sys ei symh strh s = .ok ((some rc, ei'), t)) (fuel : Nat) :
    exeLoadSymbolTable sys symh strh (fuel + 1) ei s = .ok ((rc, ei'), t) := by
  rw [exeLoadSymbolTable]
  change Except.bind (symbolTableBody sys ei symh strh s) _ = _
  rw [h]
  rfl

theorem exeLoadSymbolTable_faulted {e : LoadFault}
    (h : symbolTableBody sys ei symh strh s = .error e) (fuel : Nat) :
    exeLoadSymbolTable sys symh strh (fuel + 1) ei s = .error e := by
  rw [exeLoadSymbolTable]
  change Except.bind (symbolTableBody sys ei symh strh s) _ = _
  rw [h]
  rfl

end Steps

/-- A turn that falls through is followed by the next one, with nothing changed. -/
theorem exeLoadSymbolTable_falls {ei : ElfInternals} {s : OsState}
    (h : FallsThrough sys symh strh ei s) :
    ∃ t : OsState, t.calls = s.calls + 3 ∧ ∀ fuel,
      exeLoadSymbolTable sys symh strh (fuel + 1) ei s =
        exeLoadSymbolTable sys symh strh fuel ei t := by
  have hEnds : Sat (symbolTableBody sys ei symh strh s) _ _ := symbolTableBody_ends ei s
  cases hBody : symbolTableBody sys ei symh strh s with
  | error e =>
      rw [hBody] at hEnds
      exact absurd h hEnds.2
  | ok r =>
      obtain ⟨⟨_, ei'⟩, t⟩ := r
      rw [hBody] at hEnds
      rcases hEnds with ⟨-, ⟨⟩, hCalls⟩ | ⟨hNot, -⟩
      · exact ⟨t, hCalls, exeLoadSymbolTable_next hBody⟩
      · exact absurd h hNot

/-- Any other turn is the last one. -/
theorem exeLoadSymbolTable_leaves {ei : ElfInternals} {s : OsState}
    (h : ¬ FallsThrough sys symh strh ei s) : LeavesInFirstTurn sys symh strh ei s := by
  have hEnds : Sat (symbolTableBody sys ei symh strh s) _ _ := symbolTableBody_ends ei s
  cases hBody : symbolTableBody sys ei symh strh s with
  | error e =>
      rw [hBody] at hEnds
      have hFault := exeLoadSymbolTable_faulted hBody
      constructor
      · rw [hFault 0]
        exact hEnds.1
      · intro extra
        rw [Nat.add_comm, hFault, hFault]
  | ok r =>
      obtain ⟨⟨rc, ei'⟩, t⟩ := r
      rw [hBody] at hEnds
      cases rc with
      | none =>
          rcases hEnds with ⟨hFalls, -⟩ | ⟨-, hLeft⟩
          · exact absurd hFalls h
          · exact absurd rfl hLeft
      | some rc =>
          have hReturn := exeLoadSymbolTable_returned hBody
          constructor
          · rw [hReturn 0]
            exact trivial
          · intro extra
            rw [Nat.add_comm, hReturn, hReturn]

end Turn

/-- For every file, every answer of the system and every pair of headers: the
loop is left in its first turn exactly when the table is not empty or one of the
calls for the string section is refused. -/
theorem leaves_in_first_turn_iff (sys : System) (symh strh : Shdr) (ei : ElfInternals)
    (s : OsState) :
    LeavesInFirstTurn sys symh strh ei s ↔
      NotEmpty symh ∨ ei.fd ≠ sys.fd ∨
        sys.firstRefused (stringRequests strh) s.calls ≠ none := by
  have hCondition : (NotEmpty symh ∨ ei.fd ≠ sys.fd ∨
      sys.firstRefused (stringRequests strh) s.calls ≠ none) ↔
        ¬ FallsThrough sys symh strh ei s := by
    rw [FallsThrough, not_and_or, not_and_or, not_not]
  rw [hCondition]
  constructor
  · rintro ⟨hEnds, -⟩ hFalls
    obtain ⟨t, -, hNext⟩ := exeLoadSymbolTable_falls hFalls
    rw [hNext 0] at hEnds
    exact hEnds rfl
  · exact exeLoadSymbolTable_leaves

/-- Where the system answers every call, an empty table is read for ever. -/
theorem empty_table_endless {sys : System} (hSys : sys.Reliable) {symh strh : Shdr}
    (hEmpty : ¬ NotEmpty symh) (hOffset : strh.shOffset.toNat < 2 ^ 63)
    (hSize : strh.shSize.toNat < 2 ^ 47) {ei : ElfInternals} (hFd : ei.fd = sys.fd) (fuel : Nat)
    (s : OsState) :
    exeLoadSymbolTable sys symh strh fuel ei s = .error .endless := by
  induction fuel generalizing s with
  | zero => rfl
  | succ fuel ih =>
      have hAnswered : sys.firstRefused (stringRequests strh) s.calls = none :=
        firstRefused_none (fun _ _ _ => hSys.succeeds _) ⟨hOffset, hSize, trivial⟩
      obtain ⟨t, -, hNext⟩ := exeLoadSymbolTable_falls ⟨hEmpty, hFd, hAnswered⟩
      rw [hNext, ih]

/-- A symbol section without entries, for the string section of the small file. -/
def emptySection : Shdr := ⟨shtSymtab, 64, 0, 2, 24⟩

theorem empty_section_endless :
    (∀ fuel, exeLoadSymbolTable smallSystem emptySection (sectionOf smallSystem.file 2) fuel
        (.opened 3) ⟨0, 0⟩ = .error .endless) ∧
      ¬ LeavesInFirstTurn smallSystem emptySection (sectionOf smallSystem.file 2)
        (.opened 3) ⟨0, 0⟩ := by
  have hEmpty : ¬ NotEmpty emptySection := by decide
  have hOffset : (sectionOf smallSystem.file 2).shOffset.toNat < 2 ^ 63 := by decide +kernel
  have hEndless (fuel : Nat) : exeLoadSymbolTable smallSystem emptySection
      (sectionOf smallSystem.file 2) fuel (.opened 3) ⟨0, 0⟩ = .error .endless :=
    empty_table_endless smallSystem_reliable hEmpty hOffset (by decide +kernel) rfl fuel ⟨0, 0⟩
  refine ⟨hEndless, fun hLeaves => ?_⟩
  have hEnds := hLeaves.1
  rw [hEndless 1] at hEnds
  exact hEnds rfl

end TelnetDebug.Image

import TelnetDebug.Symbols.LoaderOutcomes
import Mathlib.Data.List.Chain

/-! What loading the symbol tables does for any file and any answers of the
system. As long as no symbol is stored, the calls that are refused say whether
there is an array of symbols. -/
namespace TelnetDebug.Image

open CBuffer Posix Guarded

section Tables
variable (sys : System) (symh strh : Shdr)

/-- The check of the loader before it reads the entries. -/
def NotEmpty : Prop := symh.shEntsize > 0 ∧ symh.shSize > 0

instance : Decidable (NotEmpty symh) := inferInstanceAs (Decidable (_ ∧ _))

/-- The requests for the string section. -/
def stringRequests : List Request := [.lseek strh.shOffset, .malloc strh.shSize, .other]

/-- The requests for the entries of a symbol table. -/
def entryRequests : List Request := [.malloc symh.shSize, .lseek symh.shOffset, .other]

/-- The requests for the sections of a symbol table, in every turn of the loop. -/
def tableRequests : List Request :=
  stringRequests strh ++ if NotEmpty symh then entryRequests symh else []

/-- The number of entries that the loader counts in a symbol table. -/
def symNumOf : Nat := (symh.shSize / symh.shEntsize).toNat

/-- The size of the array that is asked for when there are symbols. -/
def arraySize (symbolsNum : UInt64) : UInt64 :=
  (symh.shSize / symh.shEntsize + symbolsNum) * elfSymbolSize

/-- The array as it is cleared. -/
def clearedArray (symbolsNum : UInt64) : List ElfSymbol :=
  List.replicate (arraySize symh symbolsNum / elfSymbolSize).toNat .cleared

/-- The contents of a section in memory, which call `k` allocates and call `l`
reads the section into. -/
def sectionRead (h : Shdr) (k l : Nat) : List UInt8 :=
  overwrite ((List.range h.shSize.toNat).map (sys.fresh k))
    (sys.delivered l h.shOffset.toNat h.shSize.toNat)

/-- What reading the sections from call `k` on gives, where `m` calls were made
then. -/
def TablesRead.Follows (k m : Nat) : TablesRead → Prop
  | .failed => ∃ refused, sys.firstRefused (tableRequests symh strh) k = some refused ∧
      m = refused + 1
  | .empty => ¬ NotEmpty symh ∧ sys.firstRefused (tableRequests symh strh) k = none ∧ m = k + 3
  | .read strsymtbl syms => NotEmpty symh ∧
      sys.firstRefused (tableRequests symh strh) k = none ∧ m = k + 6 ∧
      strsymtbl = sectionRead sys strh (k + 1) (k + 2) ∧ syms = sectionRead sys symh (k + 3) (k + 5)

theorem readEntries_outcome {fd : UInt32} (hFd : fd = sys.fd) (hNotEmpty : NotEmpty symh)
    {k : Nat} {s : OsState} (hCalls : s.calls = k + 3)
    (hPending : sys.Pending (tableRequests symh strh) k (entryRequests symh) s.calls)
    {strsymtbl : List UInt8} (hStrings : strsymtbl = sectionRead sys strh (k + 1) (k + 2))
    {fault : LoadFault → Prop} :
    Sat (readEntries sys fd symh strsymtbl s)
      (fun r => r.1.Follows sys symh strh k r.2.calls) fault := by
  unfold readEntries
  apply sat_bind (malloc_outcome sys _)
  rintro syms t₁ ⟨hCalls₁, -, hSyms, hMemory⟩
  cases syms with
  | none => exact ⟨_, hPending.refused (hSyms.mp rfl), hCalls₁⟩
  | some syms =>
      have hPending := hPending.answered (fun h => nomatch hSyms.mpr h) hCalls₁
      apply sat_bind (lseek_outcome sys hFd _)
      rintro offset t₂ ⟨hCalls₂, hOffset, hPos⟩
      by_cases hRefused : offset < 0
      · rw [if_pos hRefused]
        exact ⟨_, hPending.refused (hOffset.mp hRefused), hCalls₂⟩
      · have hPending := hPending.answered (mt hOffset.mpr hRefused) hCalls₂
        rw [if_neg hRefused]
        apply sat_bind (read_outcome sys hFd _)
        rintro entries t₃ ⟨hCalls₃, hEntries, hDelivered⟩
        cases entries with
        | none => exact ⟨_, hPending.refused (hEntries.mp rfl), hCalls₃⟩
        | some entries =>
            have hPending := hPending.answered (fun h => nomatch hEntries.mpr h) hCalls₃
            have hRead : t₂.calls = k + 5 := by
              dsimp only at hCalls₁ hCalls₂
              omega
            refine ⟨hNotEmpty, hPending.done, hCalls₃.trans (congrArg _ hRead), hStrings, ?_⟩
            rw [hMemory syms rfl, hDelivered entries rfl, hPos hRefused, hRead, hCalls]
            rfl

theorem readTables_outcome {fd : UInt32} (hFd : fd = sys.fd) {s : OsState}
    {fault : LoadFault → Prop} :
    Sat (readTables sys fd symh strh s)
      (fun r => r.1.Follows sys symh strh s.calls r.2.calls) fault := by
  have hPending : sys.Pending (tableRequests symh strh) s.calls
      (.lseek strh.shOffset :: .malloc strh.shSize :: .other ::
        if NotEmpty symh then entryRequests symh else []) s.calls := pending_init
  unfold readTables
  apply sat_bind (lseek_outcome sys hFd _)
  rintro offset t₁ ⟨hCalls₁, hOffset, hPos⟩
  by_cases hRefused : offset < 0
  · rw [if_pos hRefused]
    exact ⟨_, hPending.refused (hOffset.mp hRefused), hCalls₁⟩
  · have hPending := hPending.answered (mt hOffset.mpr hRefused) hCalls₁
    rw [if_neg hRefused]
    apply sat_bind (malloc_outcome sys _)
    rintro strsymtbl t₂ ⟨hCalls₂, hPos₂, hStrsymtbl, hMemory⟩
    cases strsymtbl with
    | none => exact ⟨_, hPending.refused (hStrsymtbl.mp rfl), hCalls₂⟩
    | some strsymtbl =>
        have hPending := hPending.answered (fun h => nomatch hStrsymtbl.mpr h) hCalls₂
        apply sat_bind (read_outcome sys hFd _)
        rintro strings t₃ ⟨hCalls₃, hStrings, hDelivered⟩
        cases strings with
        | none => exact ⟨_, hPending.refused (hStrings.mp rfl), hCalls₃⟩
        | some strings =>
            have hPending := hPending.answered (fun h => nomatch hStrings.mpr h) hCalls₃
            have hRead : t₂.calls = s.calls + 2 := hCalls₂.trans (congrArg _ hCalls₁)
            have hCount : t₃.calls = s.calls + 3 := hCalls₃.trans (congrArg _ hRead)
            have hContents : overwrite strsymtbl strings =
                sectionRead sys strh (s.calls + 1) (s.calls + 2) := by
              have hPos₂ : t₂.pos = t₁.pos := hPos₂
              have hCalls₁ : t₁.calls = s.calls + 1 := hCalls₁
              rw [hMemory strsymtbl rfl, hDelivered strings rfl, hPos₂, hPos hRefused, hRead,
                hCalls₁]
              rfl
            dsimp only
            split
            · have hNotEmpty : NotEmpty symh := ‹_›
              rw [if_pos hNotEmpty] at hPending
              exact readEntries_outcome sys symh strh hFd hNotEmpty hCount hPending hContents
            · have hEmpty : ¬ NotEmpty symh := ‹_›
              rw [if_neg hEmpty] at hPending
              exact ⟨hEmpty, hPending.done, hCount⟩

/-- The loading of a symbol table from call `k` on stores no symbol, and ends with
call `m`. There was an array before it if `held` is true, which then is not lost,
and there is one behind it if `held'` is. An empty table is read again and again. -/
inductive TableYields : Bool → Nat → Bool → Nat → Prop
  | refused {held : Bool} {k refused : Nat} :
      sys.firstRefused (tableRequests symh strh) k = some refused →
        TableYields held k held (refused + 1)
  | again {held held' : Bool} {k m : Nat} : ¬ NotEmpty symh →
      sys.firstRefused (tableRequests symh strh) k = none → TableYields held (k + 3) held' m →
        TableYields held k held' m
  | denied {held : Bool} {k : Nat} : NotEmpty symh →
      sys.firstRefused (tableRequests symh strh) k = none →
      sys.Refuses (.realloc held (arraySize symh 0)) (k + 6) →
      (held = true → arraySize symh 0 = 0) → TableYields held k false (k + 7)
  | unnamed {held : Bool} {k : Nat} : NotEmpty symh →
      sys.firstRefused (tableRequests symh strh) k = none →
      ¬ sys.Refuses (.realloc held (arraySize symh 0)) (k + 6) →
      (∀ i < symNumOf symh - 1, sys.Refuses .other (k + 7 + i)) →
        TableYields held k true (k + 7 + (symNumOf symh - 1))

variable {sys symh strh}

/-- A turn of the loop: the sections are read, and then the table is given up,
read again, or its symbols are stored. -/
theorem exeLoadSymbolTable_turn {fuel : Nat} {ei : ElfInternals} (hFd : ei.fd = sys.fd)
    {s : OsState} {post : (UInt32 × ElfInternals) × OsState → Prop} {fault : LoadFault → Prop}
    (hFailed : ∀ t : OsState, TablesRead.failed.Follows sys symh strh s.calls t.calls →
      post ((-1, ei), t))
    (hEmpty : ∀ t : OsState, TablesRead.empty.Follows sys symh strh s.calls t.calls →
      Sat (exeLoadSymbolTable sys symh strh fuel ei t) post fault)
    (hRead : ∀ strsymtbl syms, ∀ t : OsState,
      (TablesRead.read strsymtbl syms).Follows sys symh strh s.calls t.calls →
      Sat (storeSymbols sys symh strsymtbl syms ei t)
        (fun r => ∃ rc, r.1.1 = some rc ∧ post ((rc, r.1.2), r.2)) fault) :
    Sat (exeLoadSymbolTable sys symh strh (fuel + 1) ei s) post fault := by
  unfold exeLoadSymbolTable
  rw [symbolTableBody_eq, bind_assoc]
  apply sat_bind (readTables_outcome sys symh strh hFd)
  rintro tables t hFollows
  cases tables with
  | failed => exact hFailed t hFollows
  | empty => exact hEmpty t hFollows
  | read strsymtbl syms =>
      apply sat_bind (hRead strsymtbl syms t hFollows)
      rintro ⟨_, ei'⟩ u ⟨rc, rfl, hPost⟩
      exact hPost

/-- The calls decide where the loading ends, and whether there is an array. -/
theorem TableYields.unique {held held' held'' : Bool} {k m m' : Nat}
    (h : TableYields sys symh strh held k held' m)
    (h' : TableYields sys symh strh held k held'' m') : held' = held'' ∧ m = m' := by
  induction h with
  | refused hRefused =>
      cases h' with
      | refused hRefused' =>
          exact ⟨rfl, congrArg _ (Option.some.inj (hRefused.symm.trans hRefused'))⟩
      | again _ hAnswered => cases hRefused.symm.trans hAnswered
      | denied _ hAnswered => cases hRefused.symm.trans hAnswered
      | unnamed _ hAnswered => cases hRefused.symm.trans hAnswered
  | again hEmpty hAnswered _ ih =>
      cases h' with
      | refused hRefused' => cases hAnswered.symm.trans hRefused'
      | again _ _ hNext => exact ih hNext
      | denied hNotEmpty => exact absurd hNotEmpty hEmpty
      | unnamed hNotEmpty => exact absurd hNotEmpty hEmpty
  | denied hNotEmpty hAnswered hDenied =>
      cases h' with
      | refused hRefused' => cases hAnswered.symm.trans hRefused'
      | again hEmpty => exact absurd hNotEmpty hEmpty
      | denied => exact ⟨rfl, rfl⟩
      | unnamed _ _ hGranted => exact absurd hDenied hGranted
  | unnamed hNotEmpty hAnswered hGranted =>
      cases h' with
      | refused hRefused' => cases hAnswered.symm.trans hRefused'
      | again hEmpty => exact absurd hNotEmpty hEmpty
      | denied _ _ hDenied => exact absurd hDenied hGranted
      | unnamed => exact ⟨rfl, rfl⟩

/-- The rule for the storing of the symbols, behind the request for the array. -/
theorem storeSymbols_rule {strsymtbl syms : List UInt8} {ei : ElfInternals} {s : OsState}
    {post : (Option UInt32 × ElfInternals) × OsState → Prop} {fault : LoadFault → Prop}
    (hDenied : sys.Refuses (.realloc ei.symbols.isSome (arraySize symh ei.symbolsNum)) s.calls →
      ∀ t : OsState, t.calls = s.calls + 1 → post ((some (-1), { ei with symbols := none }), t))
    (hGranted : ¬ sys.Refuses (.realloc ei.symbols.isSome (arraySize symh ei.symbolsNum)) s.calls →
      ∀ t : OsState, t.calls = s.calls + 1 →
        Sat ((List.range' 1 (symNumOf symh - 1)).foldlM (storeSymbol sys strsymtbl syms)
            { ei with symbols := some (clearedArray symh ei.symbolsNum) } t)
          (fun r => post ((some 0, r.1), r.2)) fault) :
    Sat (storeSymbols sys symh strsymtbl syms ei s) post fault := by
  unfold storeSymbols
  apply sat_bind (realloc_outcome sys _ _)
  rintro enlarged t ⟨hCalls, hEnlarged⟩
  cases enlarged with
  | false => exact hDenied (not_not.mp fun h => nomatch hEnlarged.mpr h) t hCalls
  | true =>
      dsimp only
      rw [if_neg (by decide)]
      apply sat_bind (hGranted (hEnlarged.mp rfl) t hCalls)
      rintro ei' u hPost
      exact hPost

/-- An index that is counted up behind an entry of an array does not become zero. -/
theorem symbolsNum_succ_ne_zero {num : UInt64} {array : List ElfSymbol}
    (hRoom : num.toNat < array.length) (hSmall : array.length < UInt64.size) : num + 1 ≠ 0 := by
  intro hZero
  have hNext := congrArg UInt64.toNat hZero
  rw [UInt64.toNat_add, UInt64.toNat_one, UInt64.toNat_zero] at hNext
  rw [UInt64.size] at hSmall
  omega

/-- The entries are gone through, and the number of symbols stays zero exactly
where memory for every name is refused. -/
theorem storeEntries_outcome {strsymtbl syms : List UInt8} {ei : ElfInternals}
    {array : List ElfSymbol} (hArray : ei.symbols = some array)
    (hSmall : array.length < UInt64.size) (indices : List Nat) {s : OsState} :
    Sat (indices.foldlM (storeSymbol sys strsymtbl syms) ei s) (fun r =>
      (∃ array', r.1.symbols = some array' ∧ array'.length = array.length) ∧
        r.2.calls = s.calls + indices.length ∧
        (r.1.symbolsNum = 0 ↔ ei.symbolsNum = 0 ∧
          ∀ i < indices.length, sys.Refuses .other (s.calls + i))) (fun _ => True) := by
  apply sat_foldlM fun taken (r : ElfInternals × OsState) =>
    (∃ array', r.1.symbols = some array' ∧ array'.length = array.length) ∧
      r.2.calls = s.calls + taken.length ∧
      (r.1.symbolsNum = 0 ↔ ei.symbolsNum = 0 ∧
        ∀ i < taken.length, sys.Refuses .other (s.calls + i))
  · exact ⟨⟨array, hArray, rfl⟩, rfl, iff_self_and.mpr fun _ i hi => absurd hi (Nat.not_lt_zero i)⟩
  · rintro taken idx - ei' t ⟨⟨array', hArray', hLength⟩, hCalls, hNum⟩
    dsimp only at hArray' hCalls hNum
    apply (storeSymbol_cases sys strsymtbl syms ei' idx).imp
    rw [List.length_append, List.length_singleton, Nat.forall_lt_succ_right, ← hCalls]
    rintro ⟨_, u⟩ ⟨hNext, ⟨hRefused, rfl⟩ | ⟨hAnswered, _, symbol, hSame, hRoom, rfl⟩⟩
    · refine ⟨⟨array', hArray', hLength⟩, ?_, ?_⟩
      · exact hNext.trans (congrArg _ hCalls)
      · rw [hNum, and_iff_left hRefused]
    · obtain rfl := Option.some.inj (hArray'.symm.trans hSame)
      refine ⟨⟨_, rfl, List.length_set.trans hLength⟩, ?_, ?_⟩
      · exact hNext.trans (congrArg _ hCalls)
      · exact iff_of_false (symbolsNum_succ_ne_zero hRoom (hLength ▸ hSmall)) fun h =>
          hAnswered h.2.2

theorem clearedArray_length_lt (num : UInt64) :
    (clearedArray symh num).length < UInt64.size := by
  rw [clearedArray, List.length_replicate]
  exact UInt64.toNat_lt _

/-- An array that is held when there are no symbols is lost, or given back where it
is to have no bytes. -/
def ElfInternals.Loses (ei ei' : ElfInternals) (symh : Shdr) : Prop :=
  ei.symbols.isSome ∧ ei'.symbols = none ∧ arraySize symh 0 ≠ 0

/-- What the loading of a table from call `k` to call `m` did to a state without
symbols: it yields none and loses no array, or it stores some or loses the
array. -/
def TableDone (sys : System) (symh strh : Shdr) (k m : Nat) (ei ei' : ElfInternals) : Prop :=
  TableYields sys symh strh ei.symbols.isSome k ei'.symbols.isSome m ∧ ei'.symbolsNum = 0 ∧
      ¬ ei.Loses ei' symh ∨
    (¬ ∃ held m, TableYields sys symh strh ei.symbols.isSome k held m) ∧
      (ei'.symbolsNum ≠ 0 ∨ ei.Loses ei' symh)

section Done
variable {ei : ElfInternals} {k : Nat} (hNotEmpty : NotEmpty symh)
  (hAnswered : sys.firstRefused (tableRequests symh strh) k = none)
include hNotEmpty hAnswered

/-- The sections were read, and the array is refused. -/
theorem tableDone_denied (hNum : ei.symbolsNum = 0)
    (hDenied : sys.Refuses (.realloc ei.symbols.isSome (arraySize symh 0)) (k + 6)) :
    TableDone sys symh strh k (k + 7) ei { ei with symbols := none } := by
  by_cases hGiven : ei.symbols.isSome = true → arraySize symh 0 = 0
  · refine .inl ⟨.denied hNotEmpty hAnswered hDenied hGiven, hNum, ?_⟩
    rintro ⟨hSome, -, hSize⟩
    exact hSize (hGiven hSome)
  · obtain ⟨hSome, hSize⟩ := not_forall.mp hGiven
    refine .inr ⟨?_, .inr ⟨hSome, rfl, hSize⟩⟩
    rintro ⟨held, m, hYields⟩
    cases hYields with
    | refused hRefused => cases hAnswered.symm.trans hRefused
    | again hEmpty => exact hEmpty hNotEmpty
    | denied _ _ _ hGiven' => exact hGiven hGiven'
    | unnamed _ _ hGranted => exact hGranted hDenied

/-- The sections were read, and there is an array. -/
theorem tableDone_granted {ei' : ElfInternals}
    (hGranted : ¬ sys.Refuses (.realloc ei.symbols.isSome (arraySize symh 0)) (k + 6))
    (hArray : ei'.symbols.isSome)
    (hNum : ei'.symbolsNum = 0 ↔ ∀ i < symNumOf symh - 1, sys.Refuses .other (k + 7 + i)) :
    TableDone sys symh strh k (k + 7 + (symNumOf symh - 1)) ei ei' := by
  by_cases hUnnamed : ∀ i < symNumOf symh - 1, sys.Refuses .other (k + 7 + i)
  · have hYields := TableYields.unnamed hNotEmpty hAnswered hGranted hUnnamed
    rw [← hArray] at hYields
    refine .inl ⟨hYields, hNum.mpr hUnnamed, ?_⟩
    rintro ⟨-, hNone, -⟩
    rw [hNone] at hArray
    cases hArray
  · refine .inr ⟨?_, .inl (mt hNum.mp hUnnamed)⟩
    rintro ⟨held, m, hYields⟩
    cases hYields with
    | refused hRefused => cases hAnswered.symm.trans hRefused
    | again hEmpty => exact hEmpty hNotEmpty
    | denied _ _ hDenied => exact hGranted hDenied
    | unnamed _ _ _ hUnnamed' => exact hUnnamed hUnnamed'

end Done

/-- Loading a table into a state without symbols. -/
theorem exeLoadSymbolTable_done {fuel : Nat} {ei : ElfInternals} (hFd : ei.fd = sys.fd)
    {s : OsState} :
    Sat (exeLoadSymbolTable sys symh strh fuel ei s)
      (fun r => ei.symbolsNum = 0 → TableDone sys symh strh s.calls r.2.calls ei r.1.2)
      (fun _ => True) := by
  by_cases hNum : ei.symbolsNum = 0
  case neg => exact (Sat.any _).imp fun _ _ h => absurd h hNum
  refine (?_ : Sat _ (fun r => TableDone sys symh strh s.calls r.2.calls ei r.1.2) _).imp
    fun _ h _ => h
  induction fuel generalizing s with
  | zero => exact trivial
  | succ fuel ih =>
      refine exeLoadSymbolTable_turn hFd ?_ ?_ ?_
      · rintro t ⟨refused, hRefused, hCalls⟩
        rw [hCalls]
        refine .inl ⟨.refused hRefused, hNum, ?_⟩
        rintro ⟨hSome, hNone, -⟩
        rw [hNone] at hSome
        cases hSome
      · rintro t ⟨hEmpty, hAnswered, hCalls⟩
        apply (ih (s := t)).imp
        intro r hDone
        rw [hCalls] at hDone
        refine hDone.imp (And.imp_left (.again hEmpty hAnswered)) (And.imp_left ?_)
        rintro hNot ⟨held, m, hYields⟩
        cases hYields with
        | refused hRefused => cases hAnswered.symm.trans hRefused
        | again _ _ hNext => exact hNot ⟨held, m, hNext⟩
        | denied hNotEmpty => exact hEmpty hNotEmpty
        | unnamed hNotEmpty => exact hEmpty hNotEmpty
      · rintro strsymtbl syms t ⟨hNotEmpty, hAnswered, hCalls, -, -⟩
        have hCalls : t.calls = s.calls + 6 := hCalls
        refine storeSymbols_rule ?_ ?_
        · intro hDenied u hNext
          rw [hNum, hCalls] at hDenied
          refine ⟨_, rfl, ?_⟩
          rw [hNext, hCalls]
          exact tableDone_denied hNotEmpty hAnswered hNum hDenied
        · intro hGranted u hNext
          rw [hNum, hCalls] at hGranted
          apply (storeEntries_outcome rfl (clearedArray_length_lt _) _).imp
          rintro ⟨ei', v⟩ ⟨⟨array, hArray, -⟩, hCalls', hNum'⟩
          dsimp only at hArray hCalls' hNum' ⊢
          rw [List.length_range', hNext, hCalls] at hCalls' hNum'
          refine ⟨_, rfl, ?_⟩
          rw [hCalls']
          refine tableDone_granted hNotEmpty hAnswered hGranted ?_ ?_
          · rw [hArray]
            rfl
          · exact hNum'.trans (and_iff_right hNum)

/-- Symbols that were stored stay. -/
theorem exeLoadSymbolTable_keeps {fuel : Nat} {ei : ElfInternals} (hFd : ei.fd = sys.fd)
    {s : OsState} :
    Sat (exeLoadSymbolTable sys symh strh fuel ei s)
      (fun r => ei.symbolsNum ≠ 0 → r.1.2.symbolsNum ≠ 0) (fun _ => True) := by
  induction fuel generalizing s with
  | zero => exact trivial
  | succ fuel ih =>
      refine exeLoadSymbolTable_turn hFd (fun _ _ => id) (fun _ _ => ih) ?_
      intro strsymtbl syms t _
      refine storeSymbols_rule (fun _ _ _ => ⟨_, rfl, id⟩) fun _ u _ => ?_
      apply (storeEntries_outcome rfl (clearedArray_length_lt _) _).imp
      rintro r ⟨-, -, hZero⟩
      exact ⟨_, rfl, mt fun h => (hZero.mp h).1⟩

end Tables

section Scan
variable (sys : System) (hdrs : Nat → Shdr)

/-- The loadings of some pairs of tables yield no symbol one after the other. -/
def TablesYield : List (Nat × Nat) → Bool → Nat → Bool → Nat → Prop
  | [], held, k, held', m => held' = held ∧ m = k
  | pair :: pairs, held, k, held', m =>
      ∃ held₁ l, TableYields sys (hdrs pair.1) (hdrs pair.2) held k held₁ l ∧
        TablesYield pairs held₁ l held' m

/-- A call keeps the array that the call before it left, or gives it back when no
symbol is in it. -/
def KeepsArray (call next : TableCall) : Prop :=
  call.after.symbols.isSome → next.after.symbols.isSome ∨
    call.after.symbolsNum = 0 ∧ arraySize (hdrs next.symtab) call.after.symbolsNum = 0

variable {sys hdrs}

theorem tablesYield_concat {pairs : List (Nat × Nat)} {pair : Nat × Nat} {held held' : Bool}
    {k m : Nat} :
    TablesYield sys hdrs (pairs ++ [pair]) held k held' m ↔
      ∃ held₁ l, TablesYield sys hdrs pairs held k held₁ l ∧
        TableYields sys (hdrs pair.1) (hdrs pair.2) held₁ l held' m := by
  induction pairs generalizing held k with
  | nil =>
      constructor
      · rintro ⟨_, _, hYields, rfl, rfl⟩
        exact ⟨held, k, ⟨rfl, rfl⟩, hYields⟩
      · rintro ⟨_, _, ⟨rfl, rfl⟩, hYields⟩
        exact ⟨held', m, hYields, rfl, rfl⟩
  | cons first pairs ih =>
      constructor
      · rintro ⟨held₁, l, hFirst, hRest⟩
        obtain ⟨held₂, l', hPairs, hLast⟩ := ih.mp hRest
        exact ⟨held₂, l', ⟨held₁, l, hFirst, hPairs⟩, hLast⟩
      · rintro ⟨held₂, l', ⟨held₁, l, hFirst, hPairs⟩, hLast⟩
        exact ⟨held₁, l, hFirst, ih.mpr ⟨held₂, l', hPairs, hLast⟩⟩

theorem TablesYield.unique {pairs : List (Nat × Nat)} {held held' held'' : Bool} {k m m' : Nat}
    (h : TablesYield sys hdrs pairs held k held' m)
    (h' : TablesYield sys hdrs pairs held k held'' m') : held' = held'' ∧ m = m' := by
  induction pairs generalizing held k with
  | nil => exact ⟨h.1.trans h'.1.symm, h.2.trans h'.2.symm⟩
  | cons pair pairs ih =>
      obtain ⟨held₁, l, hFirst, hRest⟩ := h
      obtain ⟨held₂, l', hFirst', hRest'⟩ := h'
      obtain ⟨rfl, rfl⟩ := hFirst.unique hFirst'
      exact ih hRest hRest'

/-- After some calls, the last of which left this state: no symbol was stored and
no array lost, or one of both is so for good. -/
def Obtained (sys : System) (hdrs : Nat → Shdr) (k : Nat) (calls : List TableCall)
    (r : ElfInternals × OsState) : Prop :=
  (∀ call ∈ calls.getLast?, call.after = r.1) ∧
    (TablesYield sys hdrs (calls.map TableCall.tables) false k r.1.symbols.isSome r.2.calls ∧
        r.1.symbolsNum = 0 ∧ calls.IsChain (KeepsArray hdrs) ∨
      (¬ ∃ held m, TablesYield sys hdrs (calls.map TableCall.tables) false k held m) ∧
        (r.1.symbolsNum ≠ 0 ∨ ¬ calls.IsChain (KeepsArray hdrs)))

theorem isChain_concat {calls : List TableCall} {call : TableCall} :
    (calls ++ [call]).IsChain (KeepsArray hdrs) ↔ calls.IsChain (KeepsArray hdrs) ∧
      ∀ last ∈ calls.getLast?, KeepsArray hdrs last call := by
  rw [List.isChain_append]
  simp

section Step
variable {k : Nat} {calls : List TableCall} {ei ei' : ElfInternals} {i j : Nat}

/-- A call keeps the array that was there exactly where it does not lose it. -/
theorem keepsArray_iff (hLast : ∀ call ∈ calls.getLast?, call.after = ei)
    (hNum : ei.symbolsNum = 0) :
    (∀ last ∈ calls.getLast?, KeepsArray hdrs last ⟨i, j, ei'⟩) ↔
      (calls = [] ∨ ¬ ei.Loses ei' (hdrs i)) := by
  cases hCalls : calls.getLast? with
  | none => exact iff_of_true nofun (.inl (List.getLast?_eq_none_iff.mp hCalls))
  | some last =>
      have hAfter : last.after = ei := hLast last hCalls
      have hSome : calls ≠ [] := fun h => nomatch (List.getLast?_eq_none_iff.mpr h).symm.trans hCalls
      have hKeeps : KeepsArray hdrs last ⟨i, j, ei'⟩ ↔ ¬ ei.Loses ei' (hdrs i) := by
        rw [KeepsArray, hAfter, hNum, ElfInternals.Loses, ← Option.not_isSome_iff_eq_none,
          and_iff_right rfl]
        tauto
      rw [or_iff_right hSome, ← hKeeps]
      exact ⟨fun h => h last rfl, fun h call hMem => Option.some.inj hMem ▸ h⟩

/-- One more call. -/
theorem Obtained.step {t u : OsState} (h : Obtained sys hdrs k calls (ei, t))
    (hDone : ei.symbolsNum = 0 → TableDone sys (hdrs i) (hdrs j) t.calls u.calls ei ei')
    (hKeeps : ei.symbolsNum ≠ 0 → ei'.symbolsNum ≠ 0) :
    Obtained sys hdrs k (calls ++ [⟨i, j, ei'⟩]) (ei', u) := by
  have hPairs : (calls ++ [TableCall.mk i j ei']).map TableCall.tables =
      calls.map TableCall.tables ++ [(i, j)] := List.map_append
  have hBefore {held : Bool} {m : Nat}
      (hYields : TablesYield sys hdrs (calls.map TableCall.tables ++ [(i, j)]) false k held m) :
      ∃ held₁ l, TablesYield sys hdrs (calls.map TableCall.tables) false k held₁ l ∧
        TableYields sys (hdrs i) (hdrs j) held₁ l held m := tablesYield_concat.mp hYields
  obtain ⟨hLast, hCalls⟩ := h
  refine ⟨fun call hMem => ?_, ?_⟩
  · rw [List.getLast?_concat] at hMem
    rw [← Option.some.inj hMem]
  rw [hPairs, isChain_concat]
  rcases hCalls with ⟨hYields, hNum, hChain⟩ | ⟨hNot, hSpoiled⟩
  · dsimp only at hYields hNum
    rw [keepsArray_iff hLast hNum, and_iff_right hChain]
    rcases hDone hNum with ⟨hTable, hNum', hKept⟩ | ⟨hTable, hSpoiled⟩
    · exact .inl ⟨tablesYield_concat.mpr ⟨_, _, hYields, hTable⟩, hNum', .inr hKept⟩
    · refine .inr ⟨?_, hSpoiled.imp_right ?_⟩
      · rintro ⟨held, m, hAll⟩
        obtain ⟨held₁, l, hFirst, hTable'⟩ := hBefore hAll
        obtain ⟨rfl, rfl⟩ := hFirst.unique hYields
        exact hTable ⟨held, m, hTable'⟩
      · rintro hLoses (rfl | hKept)
        · exact absurd (hYields.1.symm.trans hLoses.1) Bool.false_ne_true
        · exact hKept hLoses
  · refine .inr ⟨?_, hSpoiled.imp hKeeps (mt And.left)⟩
    rintro ⟨held, m, hAll⟩
    obtain ⟨held₁, l, hFirst, -⟩ := hBefore hAll
    exact hNot ⟨held₁, l, hFirst⟩

end Step

theorem scanCalls_outcome {sechdrs : List UInt8} {fuel n : Nat} {ei : ElfInternals}
    (hFd : ei.fd = sys.fd) (hSymbols : ei.symbols = none) (hNum : ei.symbolsNum = 0)
    {s : OsState} :
    Sat ((List.range n).foldlM (scanSectionCalls sys fuel sechdrs) ([], none, ei) s)
      (fun r => r.1.1.map TableCall.tables =
          tablePairs (hdrIn sechdrs) ei.secnametblIdx.toNat n ∧ r.1.2.2.fd = sys.fd ∧
        Obtained sys (hdrIn sechdrs) s.calls r.1.1 (r.1.2.2, r.2)) (fun _ => True) := by
  have hInit : Obtained sys (hdrIn sechdrs) s.calls [] (ei, s) := by
    refine ⟨nofun, .inl ⟨⟨?_, rfl⟩, hNum, .nil⟩⟩
    dsimp only
    rw [hSymbols]
    rfl
  refine (scanCalls_sat (fun calls r => r.1.fd = sys.fd ∧
    r.1.secnametblIdx = ei.secnametblIdx ∧ Obtained sys (hdrIn sechdrs) s.calls calls r)
    (fun _ _ _ h => congrArg UInt64.toNat h.2.1) (fun _ _ _ => trivial) ?_
    ⟨hFd, rfl, hInit⟩).imp fun r hr => ⟨hr.2.1, hr.2.2.1, hr.2.2.2.2⟩
  rintro calls i j - ei t ⟨hFd, hIdx, hObtained⟩
  apply ((exeLoadSymbolTable_frame sys _ _ fuel ei).and ((exeLoadSymbolTable_done hFd).and
    (exeLoadSymbolTable_keeps hFd))).mono
  · rintro ⟨⟨rc, ei'⟩, u⟩ ⟨⟨_, _, rfl⟩, hDone, hKeeps⟩
    exact ⟨hFd, hIdx, hObtained.step hDone hKeeps⟩
  · exact fun _ _ => trivial

/-- The calls for the section headers, and what they leave. -/
theorem exeLoadSectionHeadersCalls_outcome (fuel : Nat) {ei : ElfInternals}
    (hFd : ei.fd = sys.fd) (hSymbols : ei.symbols = none) (hNum : ei.symbolsNum = 0)
    {s : OsState} :
    Sat (exeLoadSectionHeadersCalls sys fuel ei s) (fun r =>
      SectionsRead sys ei s.calls ∧ r.1.2.1 = 0 ∧ r.1.2.2.fd = sys.fd ∧
          r.1.1.map TableCall.tables =
            tablePairs (hdrIn (sechdrsDelivered sys ei (s.calls + 2))) ei.secnametblIdx.toNat
              ei.sechdrNum.toNat ∧
          Obtained sys (hdrIn (sechdrsDelivered sys ei (s.calls + 2))) (s.calls + 6) r.1.1
            (r.1.2.2, r.2) ∨
        AfterSections sys ei s.calls r.2.calls ∧ r.1.1 = [] ∧ r.1.2.1 = -1 ∧
          ei.SameButHeaders r.1.2.2) (fun _ => True) := by
  unfold exeLoadSectionHeadersCalls
  apply sat_bind (readSectionHeaders_outcome sys ei hFd fun _ _ _ _ => trivial)
  rintro ⟨sechdrs, ei'⟩ t ⟨hSame, hOutcome⟩
  rcases hOutcome with ⟨hRead, rfl, hCalls⟩ | ⟨-, rfl, hAfter⟩
  · obtain ⟨_, _, _, rfl⟩ := hSame
    dsimp only at hCalls ⊢
    refine sat_bind (scanCalls_outcome ?_ ?_ ?_) ?_
    · exact hFd
    · exact hSymbols
    · exact hNum
    · rintro ⟨calls, symtab, ei''⟩ u ⟨hTables, hFd', hObtained⟩
      rw [hCalls] at hObtained
      exact .inl ⟨hRead, rfl, hFd', hTables, hObtained⟩
  · exact .inr ⟨hAfter, rfl, rfl, hSame⟩

end Scan

end TelnetDebug.Image

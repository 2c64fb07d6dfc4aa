import TelnetDebug.Symbols.TableOutcomes

/-! The accesses to the sections of a symbol table. They stay inside the
sections for every answer of the system exactly where the entries of the file
do, whatever memory holds behind the end of the file. -/
namespace TelnetDebug.Image

open CBuffer Posix Guarded

/-- An access outside the section headers, the program headers or the two
sections of a symbol table. -/
def LoadFault.LeavesObject : LoadFault → Prop
  | .outside .sechdrs _ => True
  | .outside .proghdrs _ => True
  | .outside .strsymtbl _ => True
  | .outside .syms _ => True
  | _ => False

/-- Entry `idx` lies in its section, and so does the name that it gives. -/
def EntryInside (strsymtbl syms : List UInt8) (idx : Nat) : Prop :=
  (idx + 1) * symSize ≤ syms.length ∧
    ((ElfSym.ofBytes (slice syms (idx * symSize) symSize)).stName > 0 →
      Terminated (strsymtbl.drop
        (ElfSym.ofBytes (slice syms (idx * symSize) symSize)).stName.toNat))

/-- The entries that the loader goes through; the first one is passed over. -/
def EntriesInside (symh : Shdr) (strsymtbl syms : List UInt8) : Prop :=
  ∀ idx, 0 < idx → idx < symNumOf symh → EntryInside strsymtbl syms idx

/-- What memory of the size of a section may hold when the section was read into
it: behind the end of the file it keeps its contents. -/
def InMemory (file : List UInt8) (h : Shdr) (memory : List UInt8) : Prop :=
  memory.length = h.shSize.toNat ∧ slice file h.shOffset.toNat h.shSize.toNat <+: memory

/-- The section can be sought, and memory has room for it. -/
def Shdr.CanBeRead (h : Shdr) : Prop := h.shOffset.toNat < 2 ^ 63 ∧ h.shSize.toNat < 2 ^ 47

/-- Memory has room for the array of the symbols. -/
def ArrayFits (symh : Shdr) : Prop := symNumOf symh * elfSymbolSize.toNat < 2 ^ 47

/-- Where both sections of a symbol table can be read and its symbols can be stored,
its entries are inside. -/
def TableInside (file : List UInt8) (symh strh : Shdr) : Prop :=
  NotEmpty symh → Shdr.CanBeRead strh → Shdr.CanBeRead symh → ArrayFits symh →
    ∀ strsymtbl syms, InMemory file strh strsymtbl → InMemory file symh syms →
      EntriesInside symh strsymtbl syms

section Array
variable {symh : Shdr} {num : UInt64}

theorem symNumOf_le : symNumOf symh ≤ symh.shSize.toNat := by
  rw [symNumOf, UInt64.toNat_div]
  exact Nat.div_le_self _ _

theorem arraySize_toNat (hSmall : symNumOf symh + num.toNat < 2 ^ 59) :
    (arraySize symh num).toNat = (symNumOf symh + num.toNat) * 32 := by
  rw [arraySize, UInt64.toNat_mul, UInt64.toNat_add]
  change (symNumOf symh + _) % 2 ^ 64 * 32 % 2 ^ 64 = _
  omega

theorem clearedArray_length (hSmall : symNumOf symh + num.toNat < 2 ^ 59) :
    (clearedArray symh num).length = symNumOf symh + num.toNat := by
  rw [clearedArray, List.length_replicate, UInt64.toNat_div, arraySize_toNat hSmall]
  exact Nat.mul_div_cancel _ (by decide)

/-- An array that is granted has room for the symbols of the table. -/
theorem arrayFits_of_granted (hSize : symh.shSize.toNat < 2 ^ 47) (hNum : num.toNat < 2 ^ 42)
    (hGranted : (arraySize symh num).toNat < 2 ^ 47) : ArrayFits symh := by
  have hCount : symNumOf symh ≤ symh.shSize.toNat := symNumOf_le
  rw [arraySize_toNat (by omega)] at hGranted
  change symNumOf symh * 32 < 2 ^ 47
  omega

/-- An array that is granted has few entries. -/
theorem clearedArray_length_le (hGranted : (arraySize symh num).toNat < 2 ^ 47) :
    (clearedArray symh num).length < 2 ^ 42 := by
  rw [clearedArray, List.length_replicate, UInt64.toNat_div]
  change _ / 32 < _
  omega

/-- The first array is granted where memory has room for it. -/
theorem arrayFits_small (h : ArrayFits symh) :
    Request.Small (.realloc false (arraySize symh 0)) := by
  have hFits : symNumOf symh * 32 < 2 ^ 47 := h
  refine ⟨?_, fun hHeld => Bool.false_ne_true hHeld.1⟩
  rw [arraySize_toNat (by rw [UInt64.toNat_zero]; omega), UInt64.toNat_zero]
  omega

end Array

section Contents
variable {sys : System} (hDelivers : sys.Delivers) {h : Shdr}
include hDelivers

theorem sectionRead_inMemory (k l : Nat) : InMemory sys.file h (sectionRead sys h k l) := by
  unfold sectionRead
  rw [hDelivers.delivered]
  refine ⟨?_, List.prefix_append _ _⟩
  rw [overwrite_length, List.length_map, List.length_range]
  rw [List.length_map, List.length_range, slice, List.length_take]
  exact Nat.min_le_left _ _

/-- Fresh memory may hold anything before the section is read into it. -/
theorem sectionRead_eq {k : Nat} {memory : List UInt8} (hMemory : InMemory sys.file h memory)
    (hFresh : sys.fresh k = fun i => memory.getD i 0) (l : Nat) :
    sectionRead sys h k l = memory := by
  have hContents : (List.range h.shSize.toNat).map (sys.fresh k) = memory := by
    rw [hFresh, ← hMemory.1]
    apply List.ext_getElem
    · rw [List.length_map, List.length_range]
    · intro i _ hi
      rw [List.getElem_map, List.getElem_range, List.getD_eq_getElem?_getD,
        List.getElem?_eq_getElem hi, Option.getD_some]
  obtain ⟨rest, hPrefix⟩ := hMemory.2
  unfold sectionRead overwrite
  rw [hDelivers.delivered, hContents, ← hPrefix, List.drop_left]

end Contents

section Entries
variable {sys : System} {symh : Shdr} {strsymtbl syms : List UInt8} {fault : LoadFault → Prop}

/-- An entry that is inside is stored when memory for its name can be had. -/
theorem storeSymbol_inside (sys : System) {idx : Nat} (hInside : EntryInside strsymtbl syms idx)
    (ei : ElfInternals) : ∃ symbol, storeSymbol sys strsymtbl syms ei idx =
      allocates sys >>= fun copied => if copied then ei.store symbol else pure ei := by
  have hName : ∃ name, symbolName strsymtbl
      (ElfSym.ofBytes (slice syms (idx * symSize) symSize)) = pure name := by
    unfold symbolName
    split
    · exact ⟨_, if_pos (hInside.2 ‹_›)⟩
    · exact ⟨[], rfl⟩
  obtain ⟨name, hName⟩ := hName
  unfold storeSymbol
  rw [entryAt_eq hInside.1, pure_bind]
  dsimp only
  rw [hName, pure_bind]
  exact ⟨_, rfl⟩

/-- An entry is gone through where it is inside; where memory for its name is
refused, nothing is stored. -/
theorem storeSymbol_bounds {idx : Nat} (ei : ElfInternals) {s : OsState}
    (hOutside : ¬ EntryInside strsymtbl syms idx → ∀ e : LoadFault, e.LeavesObject → fault e)
    (hStore : ¬ sys.Refuses .other s.calls → ∀ e : LoadFault, ¬ e.LeavesObject → fault e) :
    Sat (storeSymbol sys strsymtbl syms ei idx s)
      (fun r => EntryInside strsymtbl syms idx ∧ r.2.calls = s.calls + 1) fault := by
  by_cases hInside : EntryInside strsymtbl syms idx
  · obtain ⟨symbol, hStep⟩ := storeSymbol_inside sys hInside ei
    rw [hStep]
    apply sat_bind (allocates_outcome sys)
    rintro copied t ⟨hCalls, hCopied⟩
    cases copied with
    | false => exact ⟨hInside, hCalls⟩
    | true =>
        rw [if_pos rfl]
        unfold ElfInternals.store
        cases ei.symbols with
        | none => exact hStore (hCopied.mp rfl) _ id
        | some array =>
            dsimp only
            split
            · exact ⟨hInside, hCalls⟩
            · exact hStore (hCopied.mp rfl) _ id
  · unfold storeSymbol
    by_cases hEntry : (idx + 1) * symSize ≤ syms.length
    · obtain ⟨hNamed, hEnd⟩ := not_forall.mp fun h => hInside ⟨hEntry, h⟩
      unfold symbolName stringAt
      rw [entryAt_eq hEntry, pure_bind, if_pos hNamed, if_neg hEnd]
      exact hOutside hInside _ trivial
    · unfold entryAt
      rw [if_neg hEntry]
      exact hOutside hInside _ trivial

/-- The entries of a table are gone through where the array is granted. -/
theorem storeSymbols_bounds (ei : ElfInternals) {s : OsState}
    (hOutside : ¬ sys.Refuses (.realloc ei.symbols.isSome (arraySize symh ei.symbolsNum)) s.calls →
      ¬ EntriesInside symh strsymtbl syms → ∀ e : LoadFault, e.LeavesObject → fault e)
    (hStore : (∃ k, s.calls < k ∧ ¬ sys.Refuses .other k) →
      ∀ e : LoadFault, ¬ e.LeavesObject → fault e) :
    Sat (storeSymbols sys symh strsymtbl syms ei s) (fun r => r.1.1.isSome ∧
      s.calls < r.2.calls ∧
      (¬ sys.Refuses (.realloc ei.symbols.isSome (arraySize symh ei.symbolsNum)) s.calls →
        EntriesInside symh strsymtbl syms)) fault := by
  refine storeSymbols_rule ?_ ?_
  · intro hDenied t hCalls
    exact ⟨rfl, Nat.lt_of_succ_le (Nat.le_of_eq hCalls.symm), fun h => absurd hDenied h⟩
  · intro hGranted t hCalls
    have hLater : s.calls < t.calls := Nat.lt_of_succ_le (Nat.le_of_eq hCalls.symm)
    refine Sat.imp (?_ : Sat _ (fun r => s.calls < r.2.calls ∧
      ∀ idx ∈ List.range' 1 (symNumOf symh - 1), EntryInside strsymtbl syms idx) _) ?_
    · apply sat_foldlM fun taken (r : ElfInternals × OsState) =>
        s.calls < r.2.calls ∧ ∀ idx ∈ taken, EntryInside strsymtbl syms idx
      · exact ⟨hLater, fun idx h => absurd h List.not_mem_nil⟩
      · rintro taken idx hPrefix ei' u ⟨hAfter, hTaken⟩
        have hMem : idx ∈ List.range' 1 (symNumOf symh - 1) :=
          hPrefix.subset (List.mem_append_right _ (List.mem_singleton_self idx))
        have hRange := List.mem_range'_1.mp hMem
        have hEntryOutside (hEntry : ¬ EntryInside strsymtbl syms idx) :
            ¬ EntriesInside symh strsymtbl syms := fun h =>
          hEntry (h idx (by omega) (by omega))
        refine (storeSymbol_bounds ei' (fun hEntry => hOutside hGranted (hEntryOutside hEntry))
          fun hAnswered => hStore ⟨_, hAfter, hAnswered⟩).imp ?_
        rintro r ⟨hEntry, hNext⟩
        refine ⟨by omega, fun i hi => ?_⟩
        rcases List.mem_append.mp hi with hi | hi
        · exact hTaken i hi
        · exact List.mem_singleton.mp hi ▸ hEntry
    · rintro r ⟨hAfter, hEntries⟩
      refine ⟨rfl, hAfter, fun _ idx hPos hLt => hEntries idx ?_⟩
      rw [List.mem_range'_1]
      omega

/-- The number of symbols stays below the size of an array that memory has room for. -/
theorem storeEntries_few {ei : ElfInternals} {array : List ElfSymbol}
    (hArray : ei.symbols = some array) (hLength : array.length < 2 ^ 42)
    (hNum : ei.symbolsNum.toNat < 2 ^ 42) (indices : List Nat) {s : OsState} :
    Sat (indices.foldlM (storeSymbol sys strsymtbl syms) ei s)
      (fun r => r.1.symbolsNum.toNat < 2 ^ 42) (fun _ => True) := by
  apply Sat.imp (sat_foldlM (fun _ (r : ElfInternals × OsState) =>
    (∃ array', r.1.symbols = some array' ∧ array'.length = array.length) ∧
      r.1.symbolsNum.toNat < 2 ^ 42) ⟨⟨array, hArray, rfl⟩, hNum⟩ ?_) fun _ h => h.2
  rintro _ idx - ei' t ⟨⟨array', hArray', hSame⟩, hNum'⟩
  apply (storeSymbol_cases sys strsymtbl syms ei' idx).imp
  rintro ⟨_, u⟩ ⟨-, ⟨-, rfl⟩ | ⟨-, _, symbol, hIs, hRoom, rfl⟩⟩
  · exact ⟨⟨array', hArray', hSame⟩, hNum'⟩
  · obtain rfl := Option.some.inj (hArray'.symm.trans hIs)
    refine ⟨⟨_, rfl, List.length_set.trans hSame⟩, ?_⟩
    change (ei'.symbolsNum + 1).toNat < _
    rw [UInt64.toNat_add, UInt64.toNat_one]
    omega

end Entries

section Tables
variable {sys : System} {symh strh : Shdr} {fuel : Nat} {ei : ElfInternals}
  (hFd : ei.fd = sys.fd) {s : OsState}

theorem tableRequests_notEmpty (h : NotEmpty symh) : tableRequests symh strh =
    [.lseek strh.shOffset, .malloc strh.shSize, .other,
      .malloc symh.shSize, .lseek symh.shOffset, .other] := by
  unfold tableRequests stringRequests entryRequests
  rw [if_pos h]
  rfl

/-- Sections that were read can be read. -/
theorem canBeRead_of_answered {k : Nat} (hNotEmpty : NotEmpty symh)
    (hAnswered : sys.firstRefused (tableRequests symh strh) k = none) :
    Shdr.CanBeRead strh ∧ Shdr.CanBeRead symh := by
  rw [tableRequests_notEmpty hNotEmpty] at hAnswered
  exact ⟨⟨small_of_answered (answered_of_none (i := 0) hAnswered rfl),
      small_of_answered (answered_of_none (i := 1) hAnswered rfl)⟩,
    small_of_answered (answered_of_none (i := 4) hAnswered rfl),
    small_of_answered (answered_of_none (i := 3) hAnswered rfl)⟩

include hFd

theorem exeLoadSymbolTable_few (hNum : ei.symbolsNum.toNat < 2 ^ 42) :
    Sat (exeLoadSymbolTable sys symh strh fuel ei s) (fun r => r.1.2.symbolsNum.toNat < 2 ^ 42)
      (fun _ => True) := by
  induction fuel generalizing s with
  | zero => exact trivial
  | succ fuel ih =>
      refine exeLoadSymbolTable_turn hFd (fun _ _ => hNum) (fun _ _ => ih) ?_
      intro strsymtbl syms t _
      refine storeSymbols_rule (fun _ _ _ => ⟨_, rfl, hNum⟩) fun hGranted u _ => ?_
      have hLength := clearedArray_length_le (small_of_answered hGranted).1
      apply (storeEntries_few rfl hLength ?_ _).imp
      · exact fun _ hFew => ⟨_, rfl, hFew⟩
      · exact hNum

/-- A table whose entries are inside is loaded without leaving it. -/
theorem exeLoadSymbolTable_inside (hDelivers : sys.Delivers)
    (hInside : TableInside sys.file symh strh) (hNum : ei.symbolsNum.toNat < 2 ^ 42) :
    Sat (exeLoadSymbolTable sys symh strh fuel ei s) (fun _ => True)
      (fun e => ¬ e.LeavesObject) := by
  induction fuel generalizing s with
  | zero => exact id
  | succ fuel ih =>
      refine exeLoadSymbolTable_turn hFd (fun _ _ => trivial) (fun _ _ => ih) ?_
      rintro strsymtbl syms t ⟨hNotEmpty, hAnswered, -, rfl, rfl⟩
      obtain ⟨hStrh, hSymh⟩ := canBeRead_of_answered hNotEmpty hAnswered
      refine (storeSymbols_bounds ei ?_ fun _ _ => id).imp ?_
      · intro hGranted hOutside
        have hFits := arrayFits_of_granted hSymh.2 hNum (small_of_answered hGranted).1
        exact absurd (hInside hNotEmpty hStrh hSymh hFits _ _
          (sectionRead_inMemory hDelivers _ _) (sectionRead_inMemory hDelivers _ _)) hOutside
      · rintro r ⟨hSome, -⟩
        obtain ⟨rc, hRc⟩ := Option.isSome_iff_exists.mp hSome
        exact ⟨rc, hRc, trivial⟩

/-- A table is given up at its first call, and changes nothing. -/
theorem exeLoadSymbolTable_refused (hRefused : sys.Refuses .other s.calls)
    {fault : LoadFault → Prop} :
    Sat (exeLoadSymbolTable sys symh strh (fuel + 1) ei s)
      (fun r => r.1.2 = ei ∧ r.2.calls = s.calls + 1) fault := by
  have hFirst : sys.firstRefused (tableRequests symh strh) s.calls = some s.calls :=
    if_pos (refuses_of_other hRefused)
  refine exeLoadSymbolTable_turn hFd ?_ ?_ ?_
  · rintro t ⟨refused, hSame, hCalls⟩
    rw [hFirst] at hSame
    rw [← Option.some.inj hSame] at hCalls
    exact ⟨rfl, hCalls⟩
  · rintro t ⟨-, hNone, -⟩
    cases hFirst.symm.trans hNone
  · rintro strsymtbl syms t ⟨-, hNone, -⟩
    cases hFirst.symm.trans hNone

/-- A table that is loaded while all later calls are refused is gone through to
its end, or left. -/
theorem exeLoadSymbolTable_seen (hNotEmpty : NotEmpty symh)
    (hAnswered : sys.firstRefused (tableRequests symh strh) s.calls = none)
    (hGranted : ¬ sys.Refuses (.realloc ei.symbols.isSome (arraySize symh ei.symbolsNum))
      (s.calls + 6))
    (hLater : ∀ k, s.calls + 7 ≤ k → sys.Refuses .other k) :
    Sat (exeLoadSymbolTable sys symh strh (fuel + 1) ei s) (fun r => s.calls + 7 ≤ r.2.calls ∧
      EntriesInside symh (sectionRead sys strh (s.calls + 1) (s.calls + 2))
        (sectionRead sys symh (s.calls + 3) (s.calls + 5))) LoadFault.LeavesObject := by
  refine exeLoadSymbolTable_turn hFd ?_ ?_ ?_
  · rintro t ⟨refused, hRefused, -⟩
    cases hAnswered.symm.trans hRefused
  · rintro t ⟨hEmpty, -⟩
    exact absurd hNotEmpty hEmpty
  · rintro strsymtbl syms t ⟨-, -, hCalls, rfl, rfl⟩
    have hCalls : t.calls = s.calls + 6 := hCalls
    rw [← hCalls] at hGranted
    refine (storeSymbols_bounds ei (fun _ _ _ => id) ?_).imp ?_
    · rintro ⟨k, hAfter, hNot⟩
      exact absurd (hLater k (by omega)) hNot
    · rintro ⟨⟨rc, ei'⟩, u⟩ ⟨hSome, hAfter, hEntries⟩
      obtain ⟨rc, rfl⟩ := Option.isSome_iff_exists.mp hSome
      refine ⟨rc, rfl, ?_, hEntries hGranted⟩
      dsimp only at hAfter ⊢
      omega

end Tables

end TelnetDebug.Image

import TelnetDebug.Symbols.SectionHeaders

/-! The scan over the sections pairs a symbol table with the next string table.
Which tables are paired depends on the types of the sections only. -/
namespace TelnetDebug.Image

open CBuffer Posix Guarded

/-- Section header `k` of a table of section headers. -/
def hdrIn (sechdrs : List UInt8) (k : Nat) : Shdr :=
  .ofBytes (slice sechdrs (k * shdrSize) shdrSize)

theorem hdrIn_sectionHeaders {file : List UInt8} {k : Nat}
    (hk : k < (ehdrOf file).eShnum.toNat) : hdrIn (sectionHeaders file) k = sectionOf file k := by
  have hEntry : k * shdrSize + shdrSize ≤ (ehdrOf file).eShnum.toNat * shdrSize := by
    rw [← Nat.succ_mul]
    exact Nat.mul_le_mul_right shdrSize hk
  rw [hdrIn, sectionHeaders, slice_slice hEntry]
  rfl

section Pairs
variable (hdrs : Nat → Shdr) (names : Nat)

/-- A string table that does not hold the section names. -/
def HoldsStrings (k : Nat) : Prop := (hdrs k).shType = shtStrtab ∧ k ≠ names

instance (k : Nat) : Decidable (HoldsStrings hdrs names k) :=
  inferInstanceAs (Decidable (_ ∧ _))

/-- The symbol table that waits for its string table in front of section `k`. -/
def waiting : Nat → Option Nat
  | 0 => none
  | k + 1 =>
      if (hdrs k).HoldsSymbols then some k
      else if HoldsStrings hdrs names k then none
      else waiting k

/-- The string table `k` with the symbol table that waits for it. -/
def pairAt (k : Nat) : Option (Nat × Nat) :=
  if HoldsStrings hdrs names k then (waiting hdrs names k).map (·, k) else none

/-- The pairs among the first sections. -/
def tablePairs (n : Nat) : List (Nat × Nat) := (List.range n).filterMap (pairAt hdrs names)

/-- Section `i` holds symbols, and `j` is the next section that holds symbols or
strings. -/
@[mk_iff] structure Adjacent (i j : Nat) : Prop where
  lt : i < j
  symbols : (hdrs i).HoldsSymbols
  strings : HoldsStrings hdrs names j
  between : ∀ k < j, i < k → ¬ (hdrs k).HoldsSymbols ∧ ¬ HoldsStrings hdrs names k

instance (i j : Nat) : Decidable (Adjacent hdrs names i j) :=
  decidable_of_iff _ (adjacent_iff hdrs names i j).symm

variable {hdrs names} {i j k n : Nat}

/-- A string table holds no symbols. -/
theorem HoldsStrings.not_symbols (h : HoldsStrings hdrs names k) : ¬ (hdrs k).HoldsSymbols := by
  unfold Shdr.HoldsSymbols
  rw [h.1]
  decide

/-- Which tables are adjacent depends on the sections up to the second one. -/
theorem Adjacent.congr {hdrs' : Nat → Shdr} (hSame : ∀ k ≤ j, hdrs k = hdrs' k)
    (h : Adjacent hdrs names i j) : Adjacent hdrs' names i j where
  lt := h.lt
  symbols := hSame i (Nat.le_of_lt h.lt) ▸ h.symbols
  strings := ⟨hSame j (Nat.le_refl j) ▸ h.strings.1, h.strings.2⟩
  between := by
    intro k hBefore hAfter
    unfold HoldsStrings
    rw [← hSame k (Nat.le_of_lt hBefore)]
    exact h.between k hBefore hAfter

/-- The string table next to a symbol table is determined by it. -/
theorem Adjacent.unique {j' : Nat} (h : Adjacent hdrs names i j) (h' : Adjacent hdrs names i j') :
    j = j' := by
  rcases Nat.lt_trichotomy j j' with hLt | hEq | hGt
  · exact absurd h.strings (h'.between j hLt h.lt).2
  · exact hEq
  · exact absurd h'.strings (h.between j' hGt h'.lt).2

theorem waiting_symbols (h : (hdrs k).HoldsSymbols) : waiting hdrs names (k + 1) = some k :=
  if_pos h

theorem waiting_strings (h : HoldsStrings hdrs names k) : waiting hdrs names (k + 1) = none := by
  rw [waiting, if_neg h.not_symbols, if_pos h]

theorem waiting_other (hSymbols : ¬ (hdrs k).HoldsSymbols)
    (hStrings : ¬ HoldsStrings hdrs names k) :
    waiting hdrs names (k + 1) = waiting hdrs names k := by
  rw [waiting, if_neg hSymbols, if_neg hStrings]

/-- The table that waits is the last one, and no string table came after it. -/
theorem waiting_eq_some :
    waiting hdrs names j = some i ↔ i < j ∧ (hdrs i).HoldsSymbols ∧
      ∀ k < j, i < k → ¬ (hdrs k).HoldsSymbols ∧ ¬ HoldsStrings hdrs names k := by
  induction j with
  | zero =>
      constructor
      · intro h
        cases h
      · rintro ⟨hLt, -⟩
        cases hLt
  | succ j ih =>
      rw [Nat.forall_lt_succ_right, Nat.lt_succ_iff_lt_or_eq]
      by_cases hSymbols : (hdrs j).HoldsSymbols
      · rw [waiting_symbols hSymbols]
        constructor
        · rintro ⟨⟩
          exact ⟨.inr rfl, hSymbols, fun k hk hAfter => by omega, fun h => by omega⟩
        · rintro ⟨hLt, -, -, hLast⟩
          rcases hLt with hBefore | rfl
          · exact absurd hSymbols (hLast hBefore).1
          · rfl
      · by_cases hStrings : HoldsStrings hdrs names j
        · rw [waiting_strings hStrings]
          constructor
          · intro h
            cases h
          · rintro ⟨hLt, hHolds, -, hLast⟩
            rcases hLt with hBefore | rfl
            · exact absurd hStrings (hLast hBefore).2
            · exact absurd hHolds hSymbols
        · rw [waiting_other hSymbols hStrings, ih]
          constructor
          · rintro ⟨hLt, hHolds, hBetween⟩
            exact ⟨.inl hLt, hHolds, hBetween, fun _ => ⟨hSymbols, hStrings⟩⟩
          · rintro ⟨hLt, hHolds, hBetween, -⟩
            rcases hLt with hBefore | rfl
            · exact ⟨hBefore, hHolds, hBetween⟩
            · exact absurd hHolds hSymbols

theorem waiting_lt (h : waiting hdrs names j = some i) : i < j := (waiting_eq_some.mp h).1

theorem pairAt_eq_some {pair : Nat × Nat} :
    pairAt hdrs names k = some pair ↔ pair.2 = k ∧ Adjacent hdrs names pair.1 k := by
  obtain ⟨i, j⟩ := pair
  unfold pairAt
  constructor
  · intro h
    by_cases hStrings : HoldsStrings hdrs names k
    · rw [if_pos hStrings, Option.map_eq_some_iff] at h
      obtain ⟨symtab, hWaiting, hPair⟩ := h
      obtain ⟨rfl, rfl⟩ := Prod.mk.inj hPair
      obtain ⟨hLt, hSymbols, hBetween⟩ := waiting_eq_some.mp hWaiting
      exact ⟨rfl, hLt, hSymbols, hStrings, hBetween⟩
    · rw [if_neg hStrings] at h
      cases h
  · rintro ⟨rfl, hAdjacent⟩
    have hWaiting := waiting_eq_some.mpr
      ⟨hAdjacent.lt, hAdjacent.symbols, hAdjacent.between⟩
    rw [if_pos hAdjacent.strings, hWaiting]
    rfl

/-- The pairs are the adjacent tables. -/
theorem mem_tablePairs : (i, j) ∈ tablePairs hdrs names n ↔ j < n ∧ Adjacent hdrs names i j := by
  unfold tablePairs
  rw [List.mem_filterMap]
  constructor
  · rintro ⟨k, hMem, hPair⟩
    obtain ⟨rfl, hAdjacent⟩ := pairAt_eq_some.mp hPair
    exact ⟨List.mem_range.mp hMem, hAdjacent⟩
  · rintro ⟨hLt, hAdjacent⟩
    exact ⟨j, List.mem_range.mpr hLt, pairAt_eq_some.mpr ⟨rfl, hAdjacent⟩⟩

/-- No symbol table is in two pairs. -/
theorem tablePairs_nodup : ((tablePairs hdrs names n).map Prod.fst).Nodup := by
  have hNodup : (tablePairs hdrs names n).Nodup := by
    apply List.nodup_range.filterMap
    rintro k k' pair hPair hPair'
    exact (pairAt_eq_some.mp hPair).1.symm.trans (pairAt_eq_some.mp hPair').1
  apply hNodup.map_on
  rintro ⟨i, j⟩ hMem ⟨i', j'⟩ hMem' rfl
  exact congrArg (i, ·) ((mem_tablePairs.mp hMem).2.unique (mem_tablePairs.mp hMem').2)

theorem tablePairs_succ :
    tablePairs hdrs names (n + 1) = tablePairs hdrs names n ++ (pairAt hdrs names n).toList := by
  unfold tablePairs
  rw [List.range_succ, List.filterMap_append]
  cases hPair : pairAt hdrs names n with
  | none =>
      rw [List.filterMap_cons_none hPair]
      rfl
  | some pair =>
      rw [List.filterMap_cons_some hPair]
      rfl

theorem tablePairs_mono (h : k ≤ n) : tablePairs hdrs names k <+: tablePairs hdrs names n := by
  induction n, h using Nat.le_induction with
  | base => exact List.prefix_rfl
  | succ n _ ih =>
      rw [tablePairs_succ]
      exact ih.trans (List.prefix_append _ _)

end Pairs

/-- A call of `exe_load_symbol_table`: the indices of the two sections, and the
state after it. -/
structure TableCall where
  symtab : Nat
  strtab : Nat
  after : ElfInternals

def TableCall.tables (call : TableCall) : Nat × Nat := (call.symtab, call.strtab)

/-- One turn of the loop over the sections, with the calls that were made. -/
def scanSectionCalls (sys : System) (fuel : Nat) (sechdrs : List UInt8)
    (state : List TableCall × Option Nat × ElfInternals) (idx : Nat) :
    Call LoadFault (List TableCall × Option Nat × ElfInternals) := do
  let (calls, symtab, ei) := state
  let hdr ← sechdrAt sechdrs idx
  if hdr.HoldsSymbols then return (calls, some idx, ei)
  else if hdr.shType = shtStrtab ∧ idx ≠ ei.secnametblIdx.toNat then
    match symtab with
    | some symtab =>
        let symh ← sechdrAt sechdrs symtab
        let (_, ei) ← exeLoadSymbolTable sys symh hdr fuel ei
        return (calls ++ [⟨symtab, idx, ei⟩], none, ei)
    | none => return (calls, none, ei)
  else return (calls, symtab, ei)

section Erasure
variable {sys : System} {fuel : Nat} {sechdrs : List UInt8}

/-- Without the calls, the turn is that of the loader. -/
theorem scanSectionCalls_erased {β : Type} (calls : List TableCall)
    (state : Option Nat × ElfInternals) (idx : Nat)
    (rest : Option Nat × ElfInternals → Call LoadFault β) :
    (scanSectionCalls sys fuel sechdrs (calls, state) idx >>= fun r => rest r.2) =
      scanSection sys fuel sechdrs state idx >>= rest := by
  obtain ⟨symtab, ei⟩ := state
  unfold scanSectionCalls scanSection
  simp only [bind_assoc]
  congr 1
  funext hdr
  split
  · rfl
  · split
    · cases symtab with
      | none => rfl
      | some symtab =>
          simp only [bind_assoc]
          rfl
    · rfl

theorem scanCalls_erased (calls : List TableCall) (state : Option Nat × ElfInternals)
    (indices : List Nat) :
    (indices.foldlM (scanSectionCalls sys fuel sechdrs) (calls, state) >>= fun r => pure r.2) =
      indices.foldlM (scanSection sys fuel sechdrs) state := by
  induction indices generalizing calls state with
  | nil => rfl
  | cons idx indices ih =>
      rw [List.foldlM_cons, List.foldlM_cons, bind_assoc, ← scanSectionCalls_erased calls]
      congr 1
      funext r
      exact ih r.1 r.2

end Erasure

/-- The loading of the section headers, with the calls that were made. -/
def exeLoadSectionHeadersCalls (sys : System) (fuel : Nat) (ei : ElfInternals) :
    Call LoadFault (List TableCall × UInt32 × ElfInternals) := do
  let (sechdrs, ei) ← readSectionHeaders sys ei
  match sechdrs with
  | none => return ([], -1, ei)
  | some sechdrs =>
      let (calls, _, ei) ← (List.range ei.sechdrNum.toNat).foldlM
        (scanSectionCalls sys fuel sechdrs) ([], none, ei)
      return (calls, 0, ei)

theorem sectionHeadersCalls_erased (sys : System) (fuel : Nat) (ei : ElfInternals) :
    (exeLoadSectionHeadersCalls sys fuel ei >>= fun r => pure r.2) =
      exeLoadSectionHeaders sys fuel ei := by
  rw [exeLoadSectionHeaders_eq]
  unfold exeLoadSectionHeadersCalls
  rw [bind_assoc]
  congr 1
  funext r
  obtain ⟨sechdrs, ei⟩ := r
  cases sechdrs with
  | none => rfl
  | some sechdrs =>
      dsimp only
      rw [← scanCalls_erased [], bind_assoc, bind_assoc]
      rfl

section Scan
variable {sys : System} {fuel : Nat} {sechdrs : List UInt8} {fault : LoadFault → Prop}

/-- A header inside the table is read, and another one is a fault. -/
theorem sechdrAt_sat {k : Nat} {s : OsState}
    (hOutside : sechdrs.length < (k + 1) * shdrSize → fault (.outside .sechdrs k)) :
    Sat (sechdrAt sechdrs k s) (fun r => (k + 1) * shdrSize ≤ sechdrs.length ∧
      r = (hdrIn sechdrs k, s)) fault := by
  by_cases hInside : (k + 1) * shdrSize ≤ sechdrs.length
  · rw [sechdrAt_eq hInside]
    exact ⟨hInside, rfl⟩
  · unfold sechdrAt entryAt
    rw [if_neg hInside]
    exact hOutside (Nat.lt_of_not_le hInside)

variable {names n : Nat} (inv : List TableCall → ElfInternals × OsState → Prop)

/-- What holds in front of section `k`: the calls for the pairs among the
sections before it were made. -/
def BeforeSection (hdrs : Nat → Shdr) (names k : Nat)
    (r : (List TableCall × Option Nat × ElfInternals) × OsState) : Prop :=
  r.1.2.1 = waiting hdrs names k ∧ r.1.1.map TableCall.tables = tablePairs hdrs names k ∧
    inv r.1.1 (r.1.2.2, r.2)

variable (hNames : ∀ calls ei t, inv calls (ei, t) → ei.secnametblIdx.toNat = names)
  (hOutside : ∀ k < n, sechdrs.length < (k + 1) * shdrSize → fault (.outside .sechdrs k))
  (hLoad : ∀ calls i j, calls.map TableCall.tables ++ [(i, j)] <+:
      tablePairs (hdrIn sechdrs) names n → ∀ ei t, inv calls (ei, t) →
    Sat (exeLoadSymbolTable sys (hdrIn sechdrs i) (hdrIn sechdrs j) fuel ei t)
      (fun r => inv (calls ++ [⟨i, j, r.1.2⟩]) (r.1.2, r.2)) fault)
include hNames hOutside hLoad

theorem scanSectionCalls_sat {k : Nat} (hk : k < n) {ei : ElfInternals} {symtab : Option Nat}
    {calls : List TableCall} {t : OsState}
    (hBefore : BeforeSection inv (hdrIn sechdrs) names k ((calls, symtab, ei), t)) :
    Sat (scanSectionCalls sys fuel sechdrs (calls, symtab, ei) k t)
      (BeforeSection inv (hdrIn sechdrs) names (k + 1)) fault := by
  obtain ⟨hWaiting, hCalls, hInv⟩ := hBefore
  dsimp only at hWaiting hCalls hInv
  unfold scanSectionCalls
  dsimp only
  rw [hNames calls ei t hInv]
  apply sat_bind (sechdrAt_sat (hOutside k hk))
  rintro _ _ ⟨hInside, ⟨⟩⟩
  by_cases hSymbols : (hdrIn sechdrs k).HoldsSymbols
  · have hNone : pairAt (hdrIn sechdrs) names k = none := if_neg fun h => h.not_symbols hSymbols
    rw [if_pos hSymbols]
    refine ⟨(waiting_symbols hSymbols).symm, ?_, hInv⟩
    rw [tablePairs_succ, hNone]
    exact hCalls.trans (List.append_nil _).symm
  · rw [if_neg hSymbols]
    by_cases hTest : (hdrIn sechdrs k).shType = shtStrtab ∧ k ≠ names
    · have hStrings : HoldsStrings (hdrIn sechdrs) names k := hTest
      have hPair : pairAt (hdrIn sechdrs) names k = symtab.map (·, k) := by
        rw [hWaiting]
        exact if_pos hStrings
      have hPairs : tablePairs (hdrIn sechdrs) names (k + 1) = _ := tablePairs_succ
      rw [hPair, ← hCalls] at hPairs
      rw [if_pos hTest]
      cases symtab with
      | none =>
          refine ⟨(waiting_strings hStrings).symm, ?_, hInv⟩
          rw [hPairs]
          exact (List.append_nil _).symm
      | some symtab =>
          have hBefore := waiting_lt hWaiting.symm
          have hSymtab : (symtab + 1) * shdrSize ≤ sechdrs.length :=
            (Nat.mul_le_mul_right shdrSize (by omega)).trans hInside
          have hPrefix : calls.map TableCall.tables ++ [(symtab, k)] <+:
              tablePairs (hdrIn sechdrs) names n := hPairs ▸ tablePairs_mono hk
          dsimp only
          rw [sechdrAt_eq hSymtab, pure_bind]
          apply sat_bind (hLoad calls symtab k hPrefix ei t hInv)
          rintro ⟨_, ei⟩ t hInv
          refine ⟨(waiting_strings hStrings).symm, ?_, hInv⟩
          rw [hPairs]
          exact List.map_append
    · have hStrings : ¬ HoldsStrings (hdrIn sechdrs) names k := hTest
      have hNone : pairAt (hdrIn sechdrs) names k = none := if_neg hStrings
      rw [if_neg hTest]
      refine ⟨hWaiting.trans (waiting_other hSymbols hStrings).symm, ?_, hInv⟩
      rw [tablePairs_succ, hNone]
      exact hCalls.trans (List.append_nil _).symm

/-- The rule for the scan: it makes the calls for the pairs of tables, from the
first to the last, and keeps what every call keeps. -/
theorem scanCalls_sat {ei : ElfInternals} {s : OsState} (hInit : inv [] (ei, s)) :
    Sat ((List.range n).foldlM (scanSectionCalls sys fuel sechdrs) ([], none, ei) s)
      (BeforeSection inv (hdrIn sechdrs) names n) fault := by
  apply sat_range (BeforeSection inv (hdrIn sechdrs) names)
  · exact ⟨rfl, rfl, hInit⟩
  · rintro k hk ⟨calls, symtab, ei⟩ t hBefore
    exact scanSectionCalls_sat inv hNames hOutside hLoad hk hBefore

end Scan

end TelnetDebug.Image

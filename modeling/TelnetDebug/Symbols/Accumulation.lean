import TelnetDebug.Symbols.SingleTable

/-! A file may have more than one symbol table, and their symbols share one
array. The array is cleared as a whole when it grows. -/
namespace TelnetDebug.Image

open CBuffer Posix Guarded

/-- The symbols that the loader has collected. -/
def ElfInternals.held (ei : ElfInternals) : List ElfSymbol :=
  (ei.symbols.getD []).take ei.symbolsNum.toNat

variable {file : List UInt8} {symh strh : Shdr}

/-- The symbols of the entries of a table, entry 0 apart. -/
def TablePair.entries (h : TablePair file symh strh) : List ElfSymbol :=
  (List.range' 1 (symCount symh - 1)).map fun idx => h.table.symbol (symAt file symh idx)

/-- The symbols collected before are kept, and those of the table follow. -/
def TablePair.Accumulates (h : TablePair file symh strh) (before after : ElfInternals) : Prop :=
  after.held = before.held ++ h.entries ∧
    after.symbolsNum.toNat = before.symbolsNum.toNat + (symCount symh - 1)

instance (h : TablePair file symh strh) (before after : ElfInternals) :
    Decidable (h.Accumulates before after) := inferInstanceAs (Decidable (_ ∧ _))

theorem TablePair.syms_tail_symbols (h : TablePair file symh strh) :
    h.table.syms.tail.map h.table.symbol = h.entries := by
  rw [h.syms_tail, List.map_map]
  rfl

/-- The number of symbols after a table is loaded. -/
theorem TablePair.loaded_num (h : TablePair file symh strh) (l : TelnetDebug.ElfInternals) :
    (TelnetDebug.exeLoadSymbolTable l h.table).symbolsNum =
      l.symbolsNum + (symCount symh - 1) := by
  have hTail : h.table.syms.tail.length = symCount symh - 1 := by
    rw [List.length_tail, h.syms_length]
  obtain ⟨hNum, -⟩ := foldl_push_lengths h.table.symbol
    ⟨List.replicate (h.table.syms.length + l.symbolsNum) .cleared, l.symbolsNum⟩ h.table.syms.tail
  rw [hTail] at hNum
  exact hNum

section Load
variable (h : TablePair file symh strh) {ei : ElfInternals}
  (hSmall : symCount symh + ei.symbolsNum.toNat < 2 ^ 42)
include hSmall

theorem loaded_num_toNat :
    (ei.withSymbols (TelnetDebug.exeLoadSymbolTable ei.collected h.table)).symbolsNum.toNat =
      ei.symbolsNum.toNat + (symCount symh - 1) := by
  have hNum := h.loaded_num ei.collected
  change (UInt64.ofNat _).toNat = _
  rw [hNum, UInt64.toNat_ofNat_of_lt']
  · rfl
  · change ei.symbolsNum.toNat + (symCount symh - 1) < UInt64.size
    rw [UInt64.size]
    omega

/-- Loading a table leaves cleared symbols in the place of the earlier ones. -/
theorem loaded_held :
    (ei.withSymbols (TelnetDebug.exeLoadSymbolTable ei.collected h.table)).held =
      List.replicate ei.symbolsNum.toNat .cleared ++ h.entries := by
  have hNum := (loaded_num_toNat h hSmall).trans (h.loaded_num ei.collected).symm
  unfold ElfInternals.held
  rw [hNum, ← h.syms_tail_symbols]
  exact exeLoadSymbolTable_spec ei.collected h.table

/-- The earlier symbols are kept only where they were cleared ones. -/
theorem accumulates_iff (hHeld : ei.held.length = ei.symbolsNum.toNat) :
    h.Accumulates ei (ei.withSymbols (TelnetDebug.exeLoadSymbolTable ei.collected h.table)) ↔
      ∀ symbol ∈ ei.held, symbol = ElfSymbol.cleared := by
  unfold TablePair.Accumulates
  rw [loaded_held h hSmall, loaded_num_toNat h hSmall, List.append_left_inj, ← hHeld,
    eq_comm, List.eq_replicate_iff]
  exact ⟨fun hKept => hKept.1.2, fun hCleared => ⟨⟨rfl, hCleared⟩, rfl⟩⟩

end Load

/-- The symbols of a table are put behind those collected before, and these are
kept if and only if every one of them is a cleared symbol, so that clearing the
array does not change it. -/
theorem symbols_accumulate_iff {sys : System} (hSys : sys.Reliable)
    (h : TablePair sys.file symh strh) {ei : ElfInternals} (hFd : ei.fd = sys.fd)
    (hHeld : ei.held.length = ei.symbolsNum.toNat)
    (hFits : (symCount symh + ei.symbolsNum.toNat) * elfSymbolSize.toNat < 2 ^ 47)
    {fuel : Nat} (hFuel : 0 < fuel) (s : OsState) :
    Sat (exeLoadSymbolTable sys symh strh fuel ei s)
        (fun r => r.1.1 = 0 ∧ h.Accumulates ei r.1.2) (fun _ => False) ↔
      ∀ symbol ∈ ei.held, symbol = ElfSymbol.cleared := by
  have hSmall : symCount symh + ei.symbolsNum.toNat < 2 ^ 42 := by
    have hSize : elfSymbolSize.toNat = 32 := by decide
    rw [hSize] at hFits
    omega
  have hLoad : Sat (exeLoadSymbolTable sys symh strh fuel ei s) _ (fun _ => False) :=
    exeLoadSymbolTable_sat hSys h hFd hSmall hFuel
  obtain ⟨⟨_, t⟩, hRun, rfl⟩ := hLoad.returns
  rw [hRun, ← accumulates_iff h hSmall hHeld]
  exact ⟨fun hKept => hKept.2, fun hKept => ⟨rfl, hKept⟩⟩

/-- The state with one symbol, `g` at 8192. -/
def oneSymbol : ElfInternals :=
  { ElfInternals.opened 3 with
    symbols := some [⟨some [103], 8192, .function, 4⟩]
    symbolsNum := 1 }

theorem smallFile_pair :
    TablePair smallSystem.file (sectionOf smallSystem.file 1) (sectionOf smallSystem.file 2) := by
  decide +kernel

/-- The state with one symbol, which is cleared. -/
def oneCleared : ElfInternals :=
  { ElfInternals.opened 3 with symbols := some [ElfSymbol.cleared], symbolsNum := 1 }

theorem symbols_accumulate_cleared :
    Sat (exeLoadSymbolTable smallSystem (sectionOf smallSystem.file 1)
        (sectionOf smallSystem.file 2) 1 (.opened 3) ⟨0, 0⟩)
      (fun r => r.1.1 = 0 ∧ smallFile_pair.Accumulates (.opened 3) r.1.2) (fun _ => False) ∧
    Sat (exeLoadSymbolTable smallSystem (sectionOf smallSystem.file 1)
        (sectionOf smallSystem.file 2) 1 oneCleared ⟨0, 0⟩)
      (fun r => r.1.1 = 0 ∧ smallFile_pair.Accumulates oneCleared r.1.2) (fun _ => False) := by
  constructor
  · exact (symbols_accumulate_iff smallSystem_reliable smallFile_pair rfl rfl (by decide +kernel)
      Nat.one_pos ⟨0, 0⟩).mpr (List.forall_mem_nil _)
  · exact (symbols_accumulate_iff smallSystem_reliable smallFile_pair rfl rfl (by decide +kernel)
      Nat.one_pos ⟨0, 0⟩).mpr (List.forall_mem_singleton.mpr rfl)

/-- The symbol `g` is lost when the table of `f` is loaded. -/
theorem symbols_accumulate_one_lost :
    oneSymbol.held.length = oneSymbol.symbolsNum.toNat ∧
    ¬ Sat (exeLoadSymbolTable smallSystem (sectionOf smallSystem.file 1)
        (sectionOf smallSystem.file 2) 1 oneSymbol ⟨0, 0⟩)
      (fun r => r.1.1 = 0 ∧ smallFile_pair.Accumulates oneSymbol r.1.2) (fun _ => False) := by
  decide +kernel

end TelnetDebug.Image

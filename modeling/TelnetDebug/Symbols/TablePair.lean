import TelnetDebug.Symbols.Loader
import Mathlib.Tactic.MkIffOfInductiveProp

/-! One symbol table with its string table, both whole in the file. Loading the
pair from the file is the loading of the table that the pair denotes. -/
namespace TelnetDebug.Image

open CBuffer Posix Guarded

/-- A section that lies in the file. -/
def Shdr.InFile (file : List UInt8) (h : Shdr) : Prop :=
  h.shOffset.toNat + h.shSize.toNat ≤ file.length

instance (file : List UInt8) (h : Shdr) : Decidable (Shdr.InFile file h) :=
  inferInstanceAs (Decidable (_ ≤ _))

/-- The contents of a section. -/
def sectionBytes (file : List UInt8) (h : Shdr) : List UInt8 :=
  slice file h.shOffset.toNat h.shSize.toNat

/-- Entry `k` of a symbol table. -/
def symAt (file : List UInt8) (symh : Shdr) (k : Nat) : ElfSym :=
  .ofBytes (slice (sectionBytes file symh) (k * symSize) symSize)

def symCount (symh : Shdr) : Nat := symh.shSize.toNat / symSize

/-- A symbol table that is not empty and whose names are strings of the string
table, for which memory has room. -/
@[mk_iff] structure TablePair (file : List UInt8) (symh strh : Shdr) : Prop where
  small : file.length < 2 ^ 63
  entsize : symh.shEntsize.toNat = symSize
  nonempty : 0 < symCount symh
  whole : symh.shSize.toNat = symCount symh * symSize
  symbolsInFile : Shdr.InFile file symh
  stringsInFile : Shdr.InFile file strh
  stringsFit : strh.shSize.toNat < 2 ^ 47
  terminated : (sectionBytes file strh).getLast? = some 0
  named : ∀ k < symCount symh, 0 < k → (symAt file symh k).stName.toNat < strh.shSize.toNat

variable {file : List UInt8} {symh strh : Shdr}

instance : Decidable (TablePair file symh strh) :=
  decidable_of_iff _ (tablePair_iff file symh strh).symm

/-- The table that the two sections denote. -/
def TablePair.table (h : TablePair file symh strh) : SymbolTable where
  syms := (List.range (symCount symh)).map (symAt file symh)
  strsymtbl := sectionBytes file strh
  nonempty := by simpa using Nat.ne_of_gt h.nonempty

theorem TablePair.syms_length (h : TablePair file symh strh) :
    h.table.syms.length = symCount symh := by
  rw [table, List.length_map, List.length_range]

theorem TablePair.syms_tail (h : TablePair file symh strh) :
    h.table.syms.tail = (List.range' 1 (symCount symh - 1)).map (symAt file symh) := by
  rw [table, ← List.map_tail, List.range_eq_range', List.tail_range']

/-- A string that starts in a table whose last byte is zero ends in it. -/
theorem terminated_drop {table : List UInt8} (hLast : table.getLast? = some 0) {offset : Nat}
    (hOffset : offset < table.length) : Terminated (table.drop offset) := by
  have hDrop : (table.drop offset).getLast? = some 0 := by
    rw [List.getLast?_drop, if_neg (by omega), hLast]
  exact List.mem_of_getLast? hDrop

theorem overwrite_section {h : Shdr} (hInFile : Shdr.InFile file h) {memory : List UInt8}
    (hLength : memory.length = h.shSize.toNat) :
    overwrite memory (slice file h.shOffset.toNat h.shSize.toNat) = sectionBytes file h := by
  apply overwrite_all
  rw [slice_length hInFile, hLength]

/-- The check of the loader before it reads the entries. -/
theorem TablePair.not_empty (h : TablePair file symh strh) :
    symh.shEntsize > 0 ∧ symh.shSize > 0 := by
  have hEntsize := h.entsize
  have hWhole := h.whole
  have hNonempty := h.nonempty
  unfold symSize at hEntsize hWhole
  rw [gt_iff_lt, gt_iff_lt, UInt64.lt_iff_toNat_lt, UInt64.lt_iff_toNat_lt, UInt64.toNat_zero]
  omega

theorem entryAt_eq {object : ElfObject} {entrySize : Nat} {table : List UInt8} {idx : Nat}
    (h : (idx + 1) * entrySize ≤ table.length) :
    entryAt object entrySize table idx = pure (slice table (idx * entrySize) entrySize) := if_pos h

theorem stringAt_eq {object : ElfObject} {table : List UInt8} {offset : Nat}
    (h : Terminated (table.drop offset)) :
    stringAt object table offset = pure (text (table.drop offset)) := if_pos h

theorem sechdrAt_eq {sechdrs : List UInt8} {idx : Nat}
    (h : (idx + 1) * shdrSize ≤ sechdrs.length) :
    sechdrAt sechdrs idx = pure (.ofBytes (slice sechdrs (idx * shdrSize) shdrSize)) := by
  unfold sechdrAt
  rw [entryAt_eq h]
  rfl

theorem TablePair.symNum (h : TablePair file symh strh) :
    (symh.shSize / symh.shEntsize).toNat = symCount symh := by
  rw [UInt64.toNat_div, h.entsize]
  rfl

/-- The size of the enlarged array does not overflow. -/
theorem TablePair.size_toNat (h : TablePair file symh strh) {symbolsNum : UInt64}
    (hSmall : symCount symh + symbolsNum.toNat < 2 ^ 42) :
    ((symh.shSize / symh.shEntsize + symbolsNum) * elfSymbolSize).toNat =
      (symCount symh + symbolsNum.toNat) * 32 := by
  rw [UInt64.toNat_mul, UInt64.toNat_add, h.symNum]
  change (_ + _) % 2 ^ 64 * 32 % 2 ^ 64 = _
  omega

theorem TablePair.cleared_length (h : TablePair file symh strh) {symbolsNum : UInt64}
    (hSmall : symCount symh + symbolsNum.toNat < 2 ^ 42) :
    ((symh.shSize / symh.shEntsize + symbolsNum) * elfSymbolSize / elfSymbolSize).toNat =
      symCount symh + symbolsNum.toNat := by
  rw [UInt64.toNat_div, h.size_toNat hSmall]
  exact Nat.mul_div_cancel _ (by decide)

/-- The state with the symbols collected so far. -/
def ElfInternals.withSymbols (ei : ElfInternals) (l : TelnetDebug.ElfInternals) : ElfInternals :=
  { ei with symbols := some l.symbols, symbolsNum := .ofNat l.symbolsNum }

/-- The symbols collected so far; there are none behind a null pointer. -/
def ElfInternals.collected (ei : ElfInternals) : TelnetDebug.ElfInternals :=
  ⟨ei.symbols.getD [], ei.symbolsNum.toNat⟩

/-- Storing symbols moves the end of the symbols, and not the end of the array. -/
theorem foldl_push_lengths {ι : Type} (f : ι → ElfSymbol) (l : TelnetDebug.ElfInternals)
    (inputs : List ι) :
    (inputs.foldl (fun l i => l.push (f i)) l).symbolsNum = l.symbolsNum + inputs.length ∧
      (inputs.foldl (fun l i => l.push (f i)) l).symbols.length = l.symbols.length := by
  induction inputs generalizing l with
  | nil => exact ⟨rfl, rfl⟩
  | cons i inputs ih =>
      obtain ⟨hNum, hLength⟩ := ih (l.push (f i))
      rw [List.foldl_cons, hNum, hLength, List.length_cons]
      simp only [TelnetDebug.ElfInternals.push, List.length_set]
      exact ⟨by omega, trivial⟩

theorem ElfInternals.cleared_eq (ei : ElfInternals) (array : List ElfSymbol) :
    { ei with symbols := some array } = ei.withSymbols ⟨array, ei.symbolsNum.toNat⟩ := by
  rw [withSymbols, UInt64.ofNat_toNat]

theorem ElfInternals.store_withSymbols {ei : ElfInternals} {l : TelnetDebug.ElfInternals}
    {s : ElfSymbol} (hRoom : l.symbolsNum < l.symbols.length)
    (hSmall : l.symbols.length < UInt64.size) :
    (ei.withSymbols l).store s = pure (ei.withSymbols (l.push s)) := by
  have hNum : (UInt64.ofNat l.symbolsNum).toNat = l.symbolsNum :=
    UInt64.toNat_ofNat_of_lt (by omega)
  unfold store withSymbols
  simp only [hNum, hRoom, if_true, TelnetDebug.ElfInternals.push, UInt64.ofNat_add]
  rfl

/-- The name read for an entry is the name in the table. -/
theorem symbolName_eq (h : TablePair file symh strh) {idx : Nat} (hIdx : idx < symCount symh)
    (hPos : 0 < idx) :
    symbolName (sectionBytes file strh) (symAt file symh idx) =
      pure (h.table.name (symAt file symh idx)) := by
  have hStrings : (sectionBytes file strh).length = strh.shSize.toNat :=
    slice_length h.stringsInFile
  unfold symbolName SymbolTable.name
  by_cases hZero : (symAt file symh idx).stName > 0
  · rw [if_pos hZero, if_pos hZero]
    exact stringAt_eq (terminated_drop h.terminated (hStrings ▸ h.named idx hIdx hPos))
  · rw [if_neg hZero, if_neg hZero]

section Store
variable {sys : System} (hSys : sys.Reliable) {s : OsState} {fault : LoadFault → Prop}
include hSys

/-- An entry is stored as the symbol it denotes. -/
theorem storeSymbol_sat (h : TablePair file symh strh) {idx : Nat} (hIdx : idx < symCount symh)
    (hPos : 0 < idx) {ei : ElfInternals} {l : TelnetDebug.ElfInternals}
    (hRoom : l.symbolsNum < l.symbols.length) (hSmall : l.symbols.length < UInt64.size) :
    Sat (storeSymbol sys (sectionBytes file strh) (sectionBytes file symh) (ei.withSymbols l) idx s)
      (fun r => r.1 = ei.withSymbols (l.push (h.table.symbol (symAt file symh idx)))) fault := by
  have hEntry : (idx + 1) * symSize ≤ (sectionBytes file symh).length := by
    rw [sectionBytes, slice_length h.symbolsInFile, h.whole]
    exact Nat.mul_le_mul_right symSize hIdx
  unfold storeSymbol
  rw [entryAt_eq hEntry, pure_bind]
  change Sat ((symbolName _ (symAt file symh idx) >>= _) s) _ _
  rw [symbolName_eq h hIdx hPos, pure_bind]
  apply sat_bind (allocates_sat hSys)
  intro copied t hCopied
  change copied = true at hCopied
  rw [hCopied, if_pos rfl, ElfInternals.store_withSymbols hRoom hSmall]
  exact rfl

/-- The loop stores the entries of the table behind the symbols collected
before, entry 0 apart. -/
theorem storeSymbols_sat (h : TablePair file symh strh) {ei : ElfInternals}
    {l : TelnetDebug.ElfInternals} (hRoom : l.symbolsNum + symCount symh ≤ l.symbols.length)
    (hSmall : l.symbols.length < UInt64.size) :
    Sat ((List.range' 1 (symCount symh - 1)).foldlM
        (storeSymbol sys (sectionBytes file strh) (sectionBytes file symh)) (ei.withSymbols l) s)
      (fun r => r.1 = ei.withSymbols
        (h.table.syms.tail.foldl (fun l sym => l.push (h.table.symbol sym)) l)) fault := by
  rw [h.syms_tail, List.foldl_map]
  apply sat_foldlM fun taken r => r.1 = ei.withSymbols
    (taken.foldl (fun l k => l.push (h.table.symbol (symAt file symh k))) l)
  · exact rfl
  · intro taken idx hPrefix b t hTaken
    obtain ⟨hNum, hLength⟩ := foldl_push_lengths
      (fun k => h.table.symbol (symAt file symh k)) l taken
    have hCount := hPrefix.length_le
    have hLast := List.mem_append_right taken (List.mem_singleton_self idx)
    have hMem := List.mem_range'_1.mp (hPrefix.subset hLast)
    rw [List.length_append, List.length_singleton, List.length_range'] at hCount
    change b = _ at hTaken
    rw [hTaken, List.foldl_append]
    apply storeSymbol_sat hSys h
    · omega
    · omega
    · omega
    · omega

/-- The first turn of the loop loads the table. The array is cleared as a
whole, and so are the symbols collected before. -/
theorem symbolTableBody_sat (h : TablePair sys.file symh strh) {ei : ElfInternals}
    (hFd : ei.fd = sys.fd) (hSmall : symCount symh + ei.symbolsNum.toNat < 2 ^ 42) :
    Sat (symbolTableBody sys ei symh strh s)
      (fun r => r.1 =
        (some 0, ei.withSymbols (TelnetDebug.exeLoadSymbolTable ei.collected h.table))) fault := by
  have hFile := h.small
  have hFits := h.stringsFit
  have hWhole := h.whole
  have hSymbols := h.symbolsInFile
  have hStrings := h.stringsInFile
  unfold Shdr.InFile at hSymbols hStrings
  unfold symSize at hWhole
  unfold symbolTableBody
  apply sat_bind (lseek_sat hSys hFd (by omega))
  intro offset t hSeek
  rw [if_neg hSeek.1]
  apply sat_bind (malloc_sat hSys (by omega))
  rintro _ t ⟨hPos, strsymtbl, rfl, hLength⟩
  apply sat_bind (read_sat hSys hFd)
  rintro _ u rfl
  rw [hPos, hSeek.2]
  dsimp only
  rw [overwrite_section h.stringsInFile hLength, if_pos h.not_empty]
  apply sat_bind (malloc_sat hSys (by omega))
  rintro _ t ⟨-, syms, rfl, hLength⟩
  dsimp only
  apply sat_bind (lseek_sat hSys hFd (by omega))
  intro offset t hSeek
  rw [if_neg hSeek.1]
  apply sat_bind (read_sat hSys hFd)
  rintro _ u rfl
  rw [hSeek.2]
  dsimp only
  rw [overwrite_section h.symbolsInFile hLength]
  have hSize := h.size_toNat hSmall
  have hNonempty := h.nonempty
  apply sat_bind (realloc_sat hSys (fun hZero => by simp [hZero] at hSize; omega) (by omega))
  intro enlarged u hEnlarged
  change enlarged = true at hEnlarged
  rw [hEnlarged, if_neg (by decide), h.symNum, h.cleared_length hSmall,
    ElfInternals.cleared_eq]
  have hRoom : ei.symbolsNum.toNat + symCount symh ≤
      (List.replicate (symCount symh + ei.symbolsNum.toNat) ElfSymbol.cleared).length := by
    rw [List.length_replicate]
    omega
  apply sat_bind (storeSymbols_sat hSys h hRoom _)
  · rintro _ t rfl
    rw [← h.syms_length]
    exact rfl
  · rw [List.length_replicate, UInt64.size]
    omega

theorem exeLoadSymbolTable_sat (h : TablePair sys.file symh strh) {ei : ElfInternals}
    (hFd : ei.fd = sys.fd) (hSmall : symCount symh + ei.symbolsNum.toNat < 2 ^ 42) {fuel : Nat}
    (hFuel : 0 < fuel) :
    Sat (exeLoadSymbolTable sys symh strh fuel ei s)
      (fun r => r.1 =
        (0, ei.withSymbols (TelnetDebug.exeLoadSymbolTable ei.collected h.table))) fault := by
  obtain ⟨turns, rfl⟩ := Nat.exists_eq_succ_of_ne_zero (Nat.ne_of_gt hFuel)
  unfold exeLoadSymbolTable
  apply sat_bind (symbolTableBody_sat hSys h hFd hSmall)
  rintro _ t rfl
  exact rfl

end Store

end TelnetDebug.Image

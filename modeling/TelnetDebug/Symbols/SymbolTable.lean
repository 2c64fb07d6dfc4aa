import TelnetDebug.Library.Buffer
import Mathlib.Data.UInt

/-! The symbols of one loaded file. The sections that the loader reads are
given: each symbol table is a list of entries with the string table of their
names. -/
namespace TelnetDebug

open CBuffer

/-- One entry of a symbol table, an `Elf64_Sym`. -/
structure ElfSym where
  stName : UInt32
  stInfo : UInt8
  stShndx : UInt16
  stValue : UInt64
  stSize : UInt64
deriving DecidableEq

def shnUndef : UInt16 := 0

/-- A symbol table and the string table behind it. The loader does not return
from a table of size zero. -/
structure SymbolTable where
  syms : List ElfSym
  strsymtbl : List UInt8
  nonempty : syms ≠ []

inductive SymbolType where
  | unknown
  | function
  | filename
  | section
  | object
deriving DecidableEq

/-- A symbol as the loader keeps it; the name of a cleared one is a null pointer. -/
structure ElfSymbol where
  name : Option (List UInt8)
  address : UInt64
  type : SymbolType
  size : UInt64
deriving DecidableEq

structure ElfInternals where
  symbols : List ElfSymbol
  symbolsNum : Nat

def exeGetType (info : UInt8) : SymbolType :=
  if info &&& 0xf = 2 then .function
  else if info &&& 0xf = 4 then .filename
  else if info &&& 0xf = 3 then .section
  else if info &&& 0xf = 1 then .object
  else .unknown

namespace SymbolTable

def name (t : SymbolTable) (sym : ElfSym) : List UInt8 :=
  if sym.stName > 0 then text (t.strsymtbl.drop sym.stName.toNat) else []

def symbol (t : SymbolTable) (sym : ElfSym) : ElfSymbol :=
  ⟨some (t.name sym), sym.stValue, exeGetType sym.stInfo, sym.stSize⟩

end SymbolTable

def ElfSymbol.cleared : ElfSymbol := ⟨none, 0, .unknown, 0⟩

/-- Store one symbol behind the symbols stored so far. -/
def ElfInternals.push (ei : ElfInternals) (s : ElfSymbol) : ElfInternals :=
  ⟨ei.symbols.set ei.symbolsNum s, ei.symbolsNum + 1⟩

/-- The array is enlarged for the new table and cleared as a whole; entry 0 of
the table is passed over. -/
def exeLoadSymbolTable (ei : ElfInternals) (t : SymbolTable) : ElfInternals :=
  t.syms.tail.foldl (fun ei sym => ei.push (t.symbol sym))
    ⟨List.replicate (t.syms.length + ei.symbolsNum) .cleared, ei.symbolsNum⟩

def exeLoadSymbols (tables : List SymbolTable) : ElfInternals :=
  tables.foldl exeLoadSymbolTable ⟨[], 0⟩

/-- The result of a failed lookup, `(uintptr_t)-1`. -/
def noAddress : UInt64 := -1

def getSymAddr (tables : List SymbolTable) (symName : List UInt8) : UInt64 :=
  let ei := exeLoadSymbols tables
  match (ei.symbols.take ei.symbolsNum).find? (fun s => s.name = some symName) with
  | some s => s.address
  | none => noAddress

theorem push_all {syms : List ElfSymbol} (done : List ElfSymbol) {room : Nat}
    (h : syms.length ≤ room) :
    syms.foldl ElfInternals.push ⟨done ++ List.replicate room .cleared, done.length⟩ =
      ⟨done ++ syms ++ List.replicate (room - syms.length) .cleared, done.length + syms.length⟩ := by
  induction syms generalizing done room with
  | nil => simp
  | cons s syms ih =>
      cases room with
      | zero => simp at h
      | succ room =>
          have hPush :
              ElfInternals.push ⟨done ++ List.replicate (room + 1) .cleared, done.length⟩ s =
              ⟨(done ++ [s]) ++ List.replicate room .cleared, (done ++ [s]).length⟩ := by
            simp [ElfInternals.push, List.replicate_succ]
          rw [List.foldl_cons, hPush, ih _ (by simpa using h)]
          simp
          omega

/-- Loading a table keeps its own symbols and clears the earlier ones. -/
theorem exeLoadSymbolTable_spec (ei : ElfInternals) (t : SymbolTable) :
    (exeLoadSymbolTable ei t).symbols.take (exeLoadSymbolTable ei t).symbolsNum =
      List.replicate ei.symbolsNum .cleared ++ t.syms.tail.map t.symbol := by
  have hPos := List.length_pos_iff.mpr t.nonempty
  have hSplit : List.replicate (t.syms.length + ei.symbolsNum) ElfSymbol.cleared =
      List.replicate ei.symbolsNum .cleared ++ List.replicate t.syms.length .cleared := by
    rw [List.replicate_append_replicate, Nat.add_comm]
  have hRoom : (t.syms.tail.map t.symbol).length ≤ t.syms.length := by simp
  have hFold := push_all (List.replicate ei.symbolsNum .cleared) hRoom
  have hLoad : exeLoadSymbolTable ei t = (t.syms.tail.map t.symbol).foldl ElfInternals.push
      ⟨List.replicate ei.symbolsNum .cleared ++ List.replicate t.syms.length .cleared,
        (List.replicate ei.symbolsNum ElfSymbol.cleared).length⟩ := by
    rw [List.foldl_map, List.length_replicate, ← hSplit]
    rfl
  rw [hLoad, hFold]
  exact List.take_left' List.length_append

/-- A file without tables has no symbols, and otherwise those of its last table
are left. -/
theorem exeLoadSymbols_spec (tables : List SymbolTable) :
    ∃ count, (exeLoadSymbols tables).symbols.take (exeLoadSymbols tables).symbolsNum =
      List.replicate count .cleared ++
        (tables.getLast?.map fun t => t.syms.tail.map t.symbol).getD [] := by
  rcases List.eq_nil_or_concat' tables with rfl | ⟨before, t, rfl⟩
  · exact ⟨0, rfl⟩
  · refine ⟨(exeLoadSymbols before).symbolsNum, ?_⟩
    have hLast : exeLoadSymbols (before ++ [t]) = exeLoadSymbolTable (exeLoadSymbols before) t :=
      List.foldl_concat ..
    rw [hLast, exeLoadSymbolTable_spec, List.getLast?_concat]
    rfl

/-- The entry that the lookup finds: the first one of that name in the last
table, entry 0 apart. -/
def firstNamed (tables : List SymbolTable) (symName : List UInt8) : Option ElfSym :=
  tables.getLast?.bind fun t => t.syms.tail.find? fun sym => t.name sym = symName

theorem getSymAddr_eq (tables : List SymbolTable) (symName : List UInt8) :
    getSymAddr tables symName = ((firstNamed tables symName).map ElfSym.stValue).getD noAddress := by
  obtain ⟨count, hSymbols⟩ := exeLoadSymbols_spec tables
  have hCleared : (List.replicate count ElfSymbol.cleared).find?
      (fun s => s.name = some symName) = none := by
    rw [List.find?_eq_none]
    intro s hs
    rw [List.eq_of_mem_replicate hs]
    simp [ElfSymbol.cleared]
  unfold getSymAddr firstNamed
  dsimp only
  rw [hSymbols, List.find?_append, hCleared, Option.none_or]
  cases tables.getLast? with
  | none => rfl
  | some t =>
      have hName : ((fun s : ElfSymbol => decide (s.name = some symName)) ∘ t.symbol) =
          fun sym => decide (t.name sym = symName) := by
        funext sym
        simp [SymbolTable.symbol]
      simp only [Option.map_some, Option.getD_some, Option.bind_some, List.find?_map, hName]
      cases t.syms.tail.find? fun sym => decide (t.name sym = symName) with
      | none => rfl
      | some sym => rfl

end TelnetDebug

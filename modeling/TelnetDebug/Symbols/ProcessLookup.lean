import TelnetDebug.Symbols.FileTables
import TelnetDebug.Symbols.LoadedObjects
import TelnetDebug.Symbols.RunTimeAddress

/-! The lookup of a symbol in a process, from the text of its mappings and the
bytes of its files. The file of an object is loaded each time the walk comes to
it. -/
namespace TelnetDebug.Image

open CBuffer Posix Guarded Runs

section Walk
variable (systems : List UInt8 → System) (fuel : Nat) (symName : List UInt8)

/-- The walk over the objects, with the object it ends at. -/
def ldSearch : List SoNode → Call LoadFault (Option (SoNode × UInt64))
  | [] => return none
  | node :: nodes => do
      let symAddr ← getSymAddr (systems node.pathname) fuel symName
      if symAddr ≠ noAddress then return some (node, symAddr) else ldSearch nodes

def ldFindAddress (nodes : List SoNode) : Call LoadFault UInt64 := do
  match ← ldSearch systems fuel symName nodes with
  | none => return noAddress
  | some (node, symAddr) =>
      if symAddr > node.addrStart then return symAddr
      else
        let symAddr := node.addrStart + symAddr
        if symAddr < node.addrEnd then return symAddr else return noAddress

/-- The file can be read, and the lookup has turns for all its symbols. -/
structure FileGiven (sys : System) : Prop where
  reliable : sys.Reliable
  readable : Readable sys.file
  turns : symbolsIn sys.file < fuel

end Walk

section Refinement
variable {systems : List UInt8 → System} {fuel : Nat} {symName : List UInt8}
  {nodes : List SoNode} (hFiles : ∀ node ∈ nodes, FileGiven fuel (systems node.pathname))
  {s : OsState} {fault : LoadFault → Prop}
include hFiles

/-- The walk over the files is the walk over their tables. -/
theorem ldSearch_files : Sat (ldSearch systems fuel symName nodes s)
    (fun r => r.1 =
      TelnetDebug.ldSearch (fun path => fileTables (systems path).file) symName nodes) fault := by
  induction nodes generalizing s with
  | nil => exact rfl
  | cons node nodes ih =>
      have hFile := hFiles node List.mem_cons_self
      unfold ldSearch TelnetDebug.ldSearch
      apply sat_bind (getSymAddr_tables hFile.reliable hFile.readable hFile.turns symName)
      rintro symAddr t rfl
      dsimp only
      split
      · exact rfl
      · exact ih fun other hOther => hFiles other (List.mem_cons_of_mem _ hOther)

/-- So is the address. -/
theorem ldFindAddress_files : Sat (ldFindAddress systems fuel symName nodes s)
    (fun r => r.1 =
      TelnetDebug.ldFindAddress (fun path => fileTables (systems path).file) symName nodes)
    fault := by
  unfold ldFindAddress TelnetDebug.ldFindAddress
  apply sat_bind (ldSearch_files hFiles)
  rintro found t rfl
  dsimp only
  cases TelnetDebug.ldSearch (fun path => fileTables (systems path).file) symName nodes with
  | none => exact rfl
  | some found =>
      dsimp only
      split
      · exact rfl
      · split
        · exact rfl
        · exact rfl

end Refinement

/-- An object: its mappings, which follow each other in the text. -/
abbrev Object := List MapsLine

/-- What a lookup returns: that no object has a value for the symbol, or the
address for the value in the first object that has one. The object reaches from
its least address to its greatest. -/
inductive FoundIn (files : List UInt8 → List SymbolTable) (symName : List UInt8)
    (objects : List Object) (addr : UInt64) : Prop where
  | none (hSilent : ∀ object ∈ objects, ∀ l ∈ object, Silent symName (files l.name))
      (hAddr : addr = noAddress)
  | found (before after : List Object) (object : Object) (node : SoNode) (sym : ElfSym)
      (hObjects : objects = before ++ object :: after)
      (hSilent : ∀ object ∈ before, ∀ l ∈ object, Silent symName (files l.name))
      (hSpans : Spans object node)
      (hSym : firstNamed (files node.pathname) symName = some sym)
      (hValue : sym.stValue ≠ noAddress) (hAddr : addr = node.wordAddress sym.stValue)

/-- The paths of the nodes are those of the lines. -/
theorem spans_paths {P : List UInt8 → Prop} {objects : List Object} {nodes : List SoNode}
    (h : List.Forall₂ Spans objects nodes) :
    (∀ node ∈ nodes, P node.pathname) ↔ ∀ object ∈ objects, ∀ l ∈ object, P l.name := by
  induction h with
  | nil => exact iff_of_true (List.forall_mem_nil _) (List.forall_mem_nil _)
  | @cons object node objects nodes hSpans _ ih =>
      have hObject : P node.pathname ↔ ∀ l ∈ object, P l.name := by
        constructor
        · intro hNode l hLine
          rwa [hSpans.path l hLine]
        · intro hLines
          obtain ⟨l, hLine, -⟩ := hSpans.start.1
          exact hSpans.path l hLine ▸ hLines l hLine
      rw [List.forall_mem_cons, List.forall_mem_cons, hObject, ih]

/-- The lookup among the nodes of the objects. -/
theorem ldFindAddress_foundIn (files : List UInt8 → List SymbolTable) (symName : List UInt8)
    {objects : List Object} {nodes : List SoNode} (h : List.Forall₂ Spans objects nodes) :
    FoundIn files symName objects (TelnetDebug.ldFindAddress files symName nodes) := by
  have hSearch : TelnetDebug.ldSearch files symName nodes = _ := ldSearch_eq nodes
  cases hNode : valuedNode files symName nodes with
  | none =>
      have hSilent : ∀ node ∈ nodes, Silent symName (files node.pathname) := by
        simpa [valuedNode, List.find?_eq_none] using hNode
      rw [hNode, Option.map_none] at hSearch
      refine .none ((spans_paths (P := fun path => Silent symName (files path)) h).mp hSilent) ?_
      unfold TelnetDebug.ldFindAddress
      rw [hSearch]
  | some node =>
      obtain ⟨sym, hSym, hValue, hAddr⟩ := valuedNode_symbol hNode
      obtain ⟨-, before, after, hNodes, hBefore⟩ := List.find?_eq_some_iff_append.mp hNode
      have hSilent : ∀ other ∈ before, Silent symName (files other.pathname) := by
        simpa using hBefore
      rw [hNode, Option.map_some, hAddr] at hSearch
      rw [hNodes] at h
      have hTake := List.forall₂_take_append _ _ _ h
      have hDrop := List.forall₂_drop_append _ _ _ h
      obtain ⟨object, rest, hSpans, -, hRest⟩ := List.forall₂_cons_right_iff.mp hDrop
      have hEarlier := (spans_paths (P := fun path => Silent symName (files path)) hTake).mp hSilent
      refine .found _ rest object node sym ?_ hEarlier hSpans hSym hValue
        (ldFindAddress_found hSearch)
      rw [← hRest, List.take_append_drop]

/-- The nodes of the list stand for the objects, and their files are given. -/
theorem getMapsSoList_given {self : List UInt8} (hSelf : self ≠ [])
    (gSoNameList : Option SoNameList) (m : Mappings) {systems : List UInt8 → System} {fuel : Nat}
    (hFiles : ∀ l ∈ m.lines, l.Loaded self → FileGiven fuel (systems l.name)) :
    ∃ list, getMapsSoList self gSoNameList (some m.text) = .ok (1, some list) ∧
      List.Forall₂ Spans (runs MapsLine.name (m.lines.filter (MapsLine.Loaded self)))
        (list.nodes.map LdMaps.node) ∧
      ∀ node ∈ list.nodes.map LdMaps.node, FileGiven fuel (systems node.pathname) := by
  obtain ⟨list, hList, hRepresents⟩ := getMapsSoList_nodes hSelf gSoNameList m
  refine ⟨list, hList, hRepresents.spans, (spans_paths (P := fun path =>
    FileGiven fuel (systems path)) hRepresents.spans).mpr ?_⟩
  intro object hObject l hLine
  have hMem := List.mem_flatten_of_mem hObject hLine
  rw [runs_flatten, List.mem_filter] at hMem
  exact hFiles l hMem.1 (of_decide_eq_true hMem.2)

/-- For every text of mappings that the kernel prints, and whole files in the
place of the objects: the list is made, and the lookup of every name in it
returns the address for the first object whose file has a value for the name. -/
theorem process_symbol_address {self : List UInt8} (hSelf : self ≠ [])
    (gSoNameList : Option SoNameList) (m : Mappings) {systems : List UInt8 → System} {fuel : Nat}
    (hFiles : ∀ l ∈ m.lines, l.Loaded self → FileGiven fuel (systems l.name)) :
    ∃ list, getMapsSoList self gSoNameList (some m.text) = .ok (1, some list) ∧
      ∀ symName s, Sat (ldFindAddress systems fuel symName (list.nodes.map LdMaps.node) s)
        (fun r => FoundIn (fun path => fileTables (systems path).file) symName
          (runs MapsLine.name (m.lines.filter (MapsLine.Loaded self))) r.1)
        (fun _ => False) := by
  obtain ⟨list, hList, hSpans, hGiven⟩ := getMapsSoList_given hSelf gSoNameList m hFiles
  refine ⟨list, hList, fun symName s => ?_⟩
  apply (ldFindAddress_files hGiven).imp
  rintro ⟨addr, t⟩ rfl
  exact ldFindAddress_foundIn _ symName hSpans

/-- A library in one part. -/
def libraryLine : MapsLine :=
  ⟨0x4000, 0x6000, true, false, true, false, 0, 8, 1, 77, 9, [0x2f, 0x66, 0x2e, 0x73, 0x6f],
    by decide, by decide, by decide, by decide, .inr (.inr ⟨⟨_, rfl⟩, by decide⟩)⟩

def libraryMappings : Mappings := ⟨[libraryLine], by decide⟩

def librarySystems (_ : List UInt8) : System := smallSystem

theorem smallSystem_given : FileGiven 2 smallSystem :=
  ⟨smallSystem_reliable, by decide +kernel, by decide +kernel⟩

theorem library_given : ∀ l ∈ libraryMappings.lines, l.Loaded [0x2f, 0x62] →
    FileGiven 2 (librarySystems l.name) :=
  fun _ _ _ => smallSystem_given

/-- The function `f` is found behind the start of the library. -/
theorem library_found {addr : UInt64} (hFound : FoundIn
    (fun path => fileTables (librarySystems path).file) [0x66]
    (runs MapsLine.name (libraryMappings.lines.filter (MapsLine.Loaded [0x2f, 0x62]))) addr) :
    addr = 0x5000 := by
  have hKept : libraryMappings.lines.filter (MapsLine.Loaded [0x2f, 0x62]) = [libraryLine] :=
    List.filter_cons_of_pos (by decide +kernel)
  have hObjects : runs MapsLine.name
      (libraryMappings.lines.filter (MapsLine.Loaded [0x2f, 0x62])) = [[libraryLine]] := by
    rw [hKept]
    rfl
  have hSym : (firstNamed (fileTables smallSystem.file) [0x66]).map ElfSym.stValue =
      some 0x1000 := by decide +kernel
  obtain ⟨sym, hFirst, hValue⟩ := Option.map_eq_some_iff.mp hSym
  rw [hObjects] at hFound
  cases hFound with
  | none hSilent =>
      have hNone := hSilent [libraryLine] (by simp) libraryLine (by simp) sym hFirst
      exact absurd (hValue.symm.trans hNone) (by decide)
  | found before after object node sym' hSplit _ hSpans hSym' _ hAddr =>
      obtain rfl := Option.some.inj (hFirst.symm.trans hSym')
      have hOne : object = [libraryLine] := by
        have hMem : object ∈ [[libraryLine]] := by simp [hSplit]
        exact List.mem_singleton.mp hMem
      obtain ⟨⟨first, hFirst, hStart⟩, -⟩ := hSpans.start
      obtain ⟨⟨last, hLast, hStop⟩, -⟩ := hSpans.stop
      rw [hOne, List.mem_singleton] at hFirst hLast
      rw [hFirst] at hStart
      rw [hLast] at hStop
      have hNode : node.addrStart = 0x4000 ∧ node.addrEnd = 0x6000 := ⟨hStart.symm, hStop.symm⟩
      rw [hAddr, hValue, SoNode.wordAddress, hNode.1, hNode.2]
      decide

theorem process_symbol_address_library :
    ∃ list, getMapsSoList [0x2f, 0x62] none (some libraryMappings.text) = .ok (1, some list) ∧
      Sat (ldFindAddress librarySystems 2 [0x66] (list.nodes.map LdMaps.node) ⟨0, 0⟩)
        (fun r => r.1 = 0x5000) (fun _ => False) := by
  obtain ⟨list, hList, hLookup⟩ :=
    process_symbol_address (List.cons_ne_nil 0x2f [0x62]) none libraryMappings library_given
  exact ⟨list, hList, (hLookup [0x66] ⟨0, 0⟩).imp fun _ hFound => library_found hFound⟩

end TelnetDebug.Image

import TelnetDebug.Symbols.SymbolTable

/-! The lookup of a symbol in the loaded objects. The walk ends at the first
object whose table yields a value at all; whether the entry is a definition or
an import of the symbol is not looked at. -/
namespace TelnetDebug

/-- One loaded object. -/
structure SoNode where
  pathname : List UInt8
  addrStart : UInt64
  addrEnd : UInt64
deriving DecidableEq

section Lookup
variable (files : List UInt8 → List SymbolTable) (symName : List UInt8)

/-- The walk over the objects, with the object it ends at. -/
def ldSearch : List SoNode → Option (SoNode × UInt64)
  | [] => none
  | node :: nodes =>
      let symAddr := getSymAddr (files node.pathname) symName
      if symAddr ≠ noAddress then some (node, symAddr) else ldSearch nodes

/-- A value above the start of the object is taken for an address, any other
for an offset in it. -/
def ldFindAddress (nodes : List SoNode) : UInt64 :=
  match ldSearch files symName nodes with
  | none => noAddress
  | some (node, symAddr) =>
      if symAddr > node.addrStart then symAddr
      else
        let symAddr := node.addrStart + symAddr
        if symAddr < node.addrEnd then symAddr else noAddress

/-- One of the tables has an entry of that name with a section. -/
def Defines (tables : List SymbolTable) : Prop :=
  ∃ t ∈ tables, ∃ sym ∈ t.syms, t.name sym = symName ∧ sym.stShndx ≠ shnUndef

instance (tables : List SymbolTable) : Decidable (Defines symName tables) :=
  inferInstanceAs (Decidable (∃ t ∈ tables, ∃ sym ∈ t.syms, _))

/-- The last table has no entry of that name, or the first such entry has the
value that a failed lookup returns. -/
def Silent (tables : List SymbolTable) : Prop :=
  ∀ sym ∈ firstNamed tables symName, sym.stValue = noAddress

instance (tables : List SymbolTable) : Decidable (Silent symName tables) :=
  inferInstanceAs (Decidable (∀ sym ∈ firstNamed tables symName, _))

/-- The object whose base and value are used is the first one that defines the
symbol, and there is none if none defines it. -/
def FindsDefinition (nodes : List SoNode) : Prop :=
  (ldSearch files symName nodes).map Prod.fst =
    nodes.find? fun node => Defines symName (files node.pathname)

/-- The objects in front of the first definition are silent, and the object of
the definition is not. -/
def SilentBefore : List SoNode → Prop
  | [] => True
  | node :: nodes =>
      if Defines symName (files node.pathname) then ¬ Silent symName (files node.pathname)
      else Silent symName (files node.pathname) ∧ SilentBefore nodes

variable {files symName}

theorem getSymAddr_eq_noAddress {tables : List SymbolTable} :
    getSymAddr tables symName = noAddress ↔ Silent symName tables := by
  rw [getSymAddr_eq, Silent]
  cases firstNamed tables symName with
  | none => simp
  | some sym => simp

theorem ldSearch_silent {node : SoNode} {nodes : List SoNode}
    (h : Silent symName (files node.pathname)) :
    ldSearch files symName (node :: nodes) = ldSearch files symName nodes := by
  rw [ldSearch, if_neg (not_not.mpr (getSymAddr_eq_noAddress.mpr h))]

theorem ldSearch_found {node : SoNode} {nodes : List SoNode}
    (h : ¬ Silent symName (files node.pathname)) :
    ldSearch files symName (node :: nodes) =
      some (node, getSymAddr (files node.pathname) symName) := by
  rw [ldSearch, if_pos (mt getSymAddr_eq_noAddress.mp h)]

/-- The walk ends at no silent object. -/
theorem ldSearch_not_silent {nodes : List SoNode} {found : SoNode × UInt64}
    (h : ldSearch files symName nodes = some found) :
    ¬ Silent symName (files found.1.pathname) := by
  induction nodes with
  | nil => cases h
  | cons node nodes ih =>
      by_cases hSilent : Silent symName (files node.pathname)
      · rw [ldSearch_silent hSilent] at h
        exact ih h
      · rw [ldSearch_found hSilent] at h
        cases h
        exact hSilent

end Lookup

/-- For every list of objects and every content of their tables: the definition
is found exactly when no object in front of it yields a value. -/
theorem finds_definition_iff (files : List UInt8 → List SymbolTable) (symName : List UInt8)
    (nodes : List SoNode) :
    FindsDefinition files symName nodes ↔ SilentBefore files symName nodes := by
  induction nodes with
  | nil => exact ⟨fun _ => trivial, fun _ => rfl⟩
  | cons node nodes ih =>
      rw [FindsDefinition, SilentBefore]
      by_cases hDefines : Defines symName (files node.pathname)
      · rw [if_pos hDefines, List.find?_cons_of_pos (by simpa using hDefines)]
        constructor
        · intro hFound hSilent
          rw [ldSearch_silent hSilent] at hFound
          obtain ⟨found, hSearch, hNode⟩ := Option.map_eq_some_iff.mp hFound
          have hLoud := ldSearch_not_silent hSearch
          rw [hNode] at hLoud
          exact hLoud hSilent
        · intro hLoud
          rw [ldSearch_found hLoud]
          rfl
      · rw [if_neg hDefines, List.find?_cons_of_neg (by simpa using hDefines)]
        constructor
        · intro hFound
          have hSilent : Silent symName (files node.pathname) := by
            by_contra hLoud
            rw [ldSearch_found hLoud] at hFound
            have hMem := List.find?_some hFound.symm
            exact hDefines (by simpa using hMem)
          rw [ldSearch_silent hSilent] at hFound
          exact ⟨hSilent, ih.mp hFound⟩
        · rintro ⟨hSilent, hRest⟩
          rw [ldSearch_silent hSilent]
          exact ih.mpr hRest

/-- The null entry, and `f` of the given section and value. -/
def oneSymbol (stShndx : UInt16) (stValue : UInt64) : SymbolTable :=
  ⟨[⟨0, 0, 0, 0, 0⟩, ⟨1, 0x12, stShndx, stValue, 0⟩], [0, 0x66, 0], List.cons_ne_nil _ _⟩

def importFiles (pathname : List UInt8) : List SymbolTable :=
  if pathname = [1] then [oneSymbol shnUndef 0] else [oneSymbol 1 0x10]

def importNodes : List SoNode := [⟨[1], 0x1000, 0x2000⟩, ⟨[2], 0x4000, 0x5000⟩]

/-- The first object imports `f`, the second one defines it: the lookup returns
the start of the importing object. -/
theorem import_found :
    ¬ Defines [0x66] (importFiles [1]) ∧ Defines [0x66] (importFiles [2]) ∧
      ¬ FindsDefinition importFiles [0x66] importNodes ∧
      ldFindAddress importFiles [0x66] importNodes = 0x1000 := by
  refine ⟨by decide +kernel, by decide +kernel, ?_, by decide +kernel⟩
  unfold FindsDefinition
  decide +kernel

end TelnetDebug

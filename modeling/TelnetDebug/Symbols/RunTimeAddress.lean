import TelnetDebug.Symbols.Resolution
import Mathlib.Tactic.SplitIfs

/-! The run-time address of a symbol. A value inside the range of its object is
an address; a value below it is an offset, and the address is the sum. Nothing
else is to be called, whatever the symbol table holds. -/
namespace TelnetDebug

namespace SoNode

/-- The addresses of the object. -/
def Holds (node : SoNode) (addr : UInt64) : Prop :=
  node.addrStart ≤ addr ∧ addr < node.addrEnd

instance (node : SoNode) (addr : UInt64) : Decidable (node.Holds addr) :=
  inferInstanceAs (Decidable (_ ∧ _))

/-- The address that a value stands for, the sum taken without wrapping. -/
def addressOf (node : SoNode) (symAddr : UInt64) : UInt64 :=
  if node.Holds symAddr then symAddr
  else if symAddr < node.addrStart ∧
      node.addrStart.toNat + symAddr.toNat < node.addrEnd.toNat then node.addrStart + symAddr
  else noAddress

/-- What the comparison of machine words makes of a value. -/
def wordAddress (node : SoNode) (symAddr : UInt64) : UInt64 :=
  if symAddr > node.addrStart then symAddr
  else if node.addrStart + symAddr < node.addrEnd then node.addrStart + symAddr
  else noAddress

/-- A value above the start is below the end as well, the sum with another one
either does not wrap or wraps to the end or behind it, and the start itself is
no value of a symbol unless it is zero or the range is empty. -/
structure Fits (node : SoNode) (symAddr : UInt64) : Prop where
  above : node.addrStart < symAddr → symAddr < node.addrEnd
  wrapped : symAddr ≤ node.addrStart →
    2 ^ 64 ≤ node.addrStart.toNat + symAddr.toNat → node.addrEnd ≤ node.addrStart + symAddr
  start : symAddr = node.addrStart → node.addrStart = 0 ∨ node.addrEnd ≤ node.addrStart

/-- The address is in the range of the object, or there is none. -/
theorem addressOf_holds (node : SoNode) (symAddr : UInt64) :
    node.addressOf symAddr = noAddress ∨ node.Holds (node.addressOf symAddr) := by
  unfold addressOf
  split_ifs with hAbsolute hOffset
  · exact .inr hAbsolute
  · obtain ⟨hBelow, hSum⟩ := hOffset
    have hEnd := node.addrEnd.toNat_lt
    have hExact : (node.addrStart + symAddr).toNat = node.addrStart.toNat + symAddr.toNat := by
      rw [UInt64.toNat_add, Nat.mod_eq_of_lt (by omega)]
    right
    constructor
    · rw [UInt64.le_iff_toNat_le, hExact]
      exact Nat.le_add_right _ _
    · rw [UInt64.lt_iff_toNat_lt, hExact]
      exact hSum
  · exact .inl rfl

theorem lt_ne_noAddress {addr bound : UInt64} (h : addr < bound) : addr ≠ noAddress := by
  rintro rfl
  have hBound := bound.toNat_lt
  have hTop : noAddress.toNat = 2 ^ 64 - 1 := by decide
  rw [UInt64.lt_iff_toNat_lt] at h
  omega

theorem start_eq_zero {node : SoNode} : node.addrStart = 0 ↔ node.addrStart.toNat = 0 := by
  rw [← UInt64.toNat_inj]
  rfl

section Values
variable {node : SoNode} {symAddr : UInt64}

theorem fits_above (h : node.addrStart < symAddr) :
    node.Fits symAddr ↔ symAddr < node.addrEnd := by
  rw [UInt64.lt_iff_toNat_lt] at h
  constructor
  · intro hFits
    exact hFits.above (UInt64.lt_iff_toNat_lt.mpr h)
  · intro hBelow
    refine ⟨fun _ => hBelow, fun hLe => ?_, fun hStart => ?_⟩
    · rw [UInt64.le_iff_toNat_le] at hLe
      omega
    · rw [hStart] at h
      omega

/-- A value above the start is returned as it is. -/
theorem address_above (hValue : symAddr ≠ noAddress) (h : node.addrStart < symAddr) :
    node.wordAddress symAddr = node.addressOf symAddr ↔ symAddr < node.addrEnd := by
  have hLow : node.addrStart ≤ symAddr := UInt64.le_of_lt h
  have hNotBelow : ¬ symAddr < node.addrStart := UInt64.not_lt.mpr hLow
  rw [wordAddress, if_pos h, addressOf]
  by_cases hEnd : symAddr < node.addrEnd
  · rw [if_pos ⟨hLow, hEnd⟩]
    exact iff_of_true rfl hEnd
  · rw [if_neg (fun hHolds => hEnd hHolds.2), if_neg (fun hSum => hNotBelow hSum.1)]
    exact iff_of_false hValue hEnd

theorem exact_sum (h : node.addrStart.toNat + symAddr.toNat < 2 ^ 64) :
    (node.addrStart + symAddr).toNat = node.addrStart.toNat + symAddr.toNat := by
  rw [UInt64.toNat_add, Nat.mod_eq_of_lt h]

theorem wordAddress_sum (h : ¬ node.addrStart < symAddr) : node.wordAddress symAddr =
    if node.addrStart + symAddr < node.addrEnd then node.addrStart + symAddr else noAddress := by
  rw [wordAddress, if_neg h]

/-- A value below the start is taken for an offset by both; the sums are on the
same side of the end unless the word has wrapped to a place in front of it. -/
theorem address_below (h : symAddr < node.addrStart) :
    node.wordAddress symAddr = node.addressOf symAddr ↔
      (2 ^ 64 ≤ node.addrStart.toNat + symAddr.toNat →
        node.addrEnd ≤ node.addrStart + symAddr) := by
  have hEnd := node.addrEnd.toNat_lt
  have hNotAbove : ¬ node.addrStart < symAddr := UInt64.not_lt.mpr (UInt64.le_of_lt h)
  have hOutside : ¬ node.Holds symAddr := fun hHolds => UInt64.not_lt.mpr hHolds.1 h
  rw [wordAddress_sum hNotAbove, addressOf, if_neg hOutside]
  by_cases hWrap : 2 ^ 64 ≤ node.addrStart.toNat + symAddr.toNat
  · have hNoSum : ¬ (symAddr < node.addrStart ∧
        node.addrStart.toNat + symAddr.toNat < node.addrEnd.toNat) := by omega
    rw [if_neg hNoSum]
    by_cases hWord : node.addrStart + symAddr < node.addrEnd
    · rw [if_pos hWord]
      exact iff_of_false (lt_ne_noAddress hWord) (fun hLe => UInt64.not_lt.mpr (hLe hWrap) hWord)
    · rw [if_neg hWord]
      exact iff_of_true rfl fun _ => UInt64.not_lt.mp hWord
  · have hSum : node.addrStart + symAddr < node.addrEnd ↔
        symAddr < node.addrStart ∧
          node.addrStart.toNat + symAddr.toNat < node.addrEnd.toNat := by
      rw [UInt64.lt_iff_toNat_lt, exact_sum (Nat.lt_of_not_le hWrap), and_iff_right h]
    refine iff_of_true ?_ fun hLe => absurd hLe hWrap
    simp only [hSum]

/-- The start itself is an address of the object, and doubled by the word sum. -/
theorem address_start :
    node.wordAddress node.addrStart = node.addressOf node.addrStart ↔
      node.addrStart = 0 ∨ node.addrEnd ≤ node.addrStart ∧
        node.addrEnd ≤ node.addrStart + node.addrStart := by
  have hStart := node.addrStart.toNat_lt
  have hDouble : node.addrStart + node.addrStart = node.addrStart ↔ node.addrStart = 0 := by
    rw [start_eq_zero, ← UInt64.toNat_inj, UInt64.toNat_add]
    omega
  rw [wordAddress_sum (UInt64.lt_irrefl _), addressOf]
  by_cases hEmpty : node.addrEnd ≤ node.addrStart
  · have hOutside : ¬ node.Holds node.addrStart := fun hHolds => UInt64.not_lt.mpr hEmpty hHolds.2
    have hNoSum : ¬ (node.addrStart < node.addrStart ∧
        node.addrStart.toNat + node.addrStart.toNat < node.addrEnd.toNat) :=
      fun hSum => UInt64.lt_irrefl _ hSum.1
    rw [if_neg hOutside, if_neg hNoSum]
    by_cases hWord : node.addrStart + node.addrStart < node.addrEnd
    · rw [if_pos hWord]
      refine iff_of_false (lt_ne_noAddress hWord) ?_
      rintro (hZero | ⟨-, hLe⟩)
      · rw [hZero] at hWord hEmpty
        exact UInt64.not_lt.mpr hEmpty hWord
      · exact UInt64.not_lt.mpr hLe hWord
    · rw [if_neg hWord]
      exact iff_of_true rfl (.inr ⟨hEmpty, UInt64.not_lt.mp hWord⟩)
  · have hInside : node.Holds node.addrStart := ⟨UInt64.le_refl _, UInt64.not_le.mp hEmpty⟩
    rw [if_pos hInside]
    by_cases hWord : node.addrStart + node.addrStart < node.addrEnd
    · rw [if_pos hWord, hDouble]
      exact ⟨.inl, fun hEither => hEither.resolve_right fun hBoth => hEmpty hBoth.1⟩
    · rw [if_neg hWord]
      refine iff_of_false (Ne.symm (lt_ne_noAddress hInside.2)) ?_
      rintro (hZero | ⟨hLe, -⟩)
      · rw [hDouble.mpr hZero] at hWord
        exact hWord hInside.2
      · exact hEmpty hLe

/-- For every range and every value found: the comparison of words yields the
address exactly when the value fits the range. -/
theorem wordAddress_eq_iff (hValue : symAddr ≠ noAddress) :
    node.wordAddress symAddr = node.addressOf symAddr ↔ node.Fits symAddr := by
  by_cases hAbove : node.addrStart < symAddr
  · rw [address_above hValue hAbove, fits_above hAbove]
  · by_cases hBelow : symAddr < node.addrStart
    · rw [address_below hBelow]
      constructor
      · intro hWrap
        refine ⟨fun h => absurd h hAbove, fun _ => hWrap, ?_⟩
        rintro rfl
        exact absurd hBelow (UInt64.lt_irrefl _)
      · intro hFits
        exact hFits.wrapped (UInt64.le_of_lt hBelow)
    · obtain rfl : symAddr = node.addrStart :=
        UInt64.le_antisymm (UInt64.not_lt.mp hAbove) (UInt64.not_lt.mp hBelow)
      rw [address_start]
      constructor
      · rintro (hZero | ⟨hEmpty, hWord⟩)
        · refine ⟨fun h => absurd h hAbove, fun _ hWrap => ?_, fun _ => .inl hZero⟩
          rw [start_eq_zero] at hZero
          omega
        · exact ⟨fun h => absurd h hAbove, fun _ _ => hWord, fun _ => .inr hEmpty⟩
      · intro hFits
        rcases hFits.start rfl with hZero | hEmpty
        · exact .inl hZero
        · refine .inr ⟨hEmpty, ?_⟩
          by_cases hWrap : 2 ^ 64 ≤ node.addrStart.toNat + node.addrStart.toNat
          · exact hFits.wrapped (UInt64.le_refl _) hWrap
          · rw [UInt64.le_iff_toNat_le, exact_sum (Nat.lt_of_not_le hWrap)]
            rw [UInt64.le_iff_toNat_le] at hEmpty
            omega

end Values

end SoNode

section Lookup
variable (files : List UInt8 → List SymbolTable) (symName : List UInt8)

/-- The first object of the list in which the symbol has a value. -/
def valuedNode (nodes : List SoNode) : Option SoNode :=
  nodes.find? fun node => ¬ Silent symName (files node.pathname)

/-- The address returned is the one that the value found stands for, and it is
in the range of the object whose value it is, or there is none. -/
def ReturnsAddress (nodes : List SoNode) : Prop :=
  match ldSearch files symName nodes with
  | none => ldFindAddress files symName nodes = noAddress
  | some (node, symAddr) =>
      ldFindAddress files symName nodes = node.addressOf symAddr ∧
        (ldFindAddress files symName nodes = noAddress ∨
          node.Holds (ldFindAddress files symName nodes))

variable {files symName}

theorem ldSearch_eq (nodes : List SoNode) :
    ldSearch files symName nodes = (valuedNode files symName nodes).map fun node =>
      (node, getSymAddr (files node.pathname) symName) := by
  unfold valuedNode
  induction nodes with
  | nil => rfl
  | cons node nodes ih =>
      by_cases hSilent : Silent symName (files node.pathname)
      · rw [ldSearch_silent hSilent, List.find?_cons_of_neg (by simpa using hSilent), ih]
      · rw [ldSearch_found hSilent, List.find?_cons_of_pos (by simpa using hSilent)]
        rfl

theorem ldFindAddress_found {nodes : List SoNode} {node : SoNode} {symAddr : UInt64}
    (h : ldSearch files symName nodes = some (node, symAddr)) :
    ldFindAddress files symName nodes = node.wordAddress symAddr := by
  unfold ldFindAddress
  rw [h]
  rfl

theorem valuedNode_symbol {nodes : List SoNode} {node : SoNode}
    (h : valuedNode files symName nodes = some node) :
    ∃ sym, firstNamed (files node.pathname) symName = some sym ∧ sym.stValue ≠ noAddress ∧
      getSymAddr (files node.pathname) symName = sym.stValue := by
  have hLoud : ¬ Silent symName (files node.pathname) := by
    simpa using List.find?_some h
  rw [Silent, not_forall] at hLoud
  obtain ⟨sym, hLoud⟩ := hLoud
  rw [Classical.not_imp] at hLoud
  obtain ⟨hSym, hValue⟩ := hLoud
  refine ⟨sym, hSym, hValue, ?_⟩
  rw [getSymAddr_eq, hSym]
  rfl

end Lookup

/-- For every list of objects, every content of their tables and every name: the
address returned is right exactly when the value of the symbol in the first
object that has one fits the range of that object. -/
theorem returns_address_iff (files : List UInt8 → List SymbolTable) (symName : List UInt8)
    (nodes : List SoNode) :
    ReturnsAddress files symName nodes ↔
      ∀ node ∈ valuedNode files symName nodes,
        ∀ sym ∈ firstNamed (files node.pathname) symName, node.Fits sym.stValue := by
  have hSearch : ldSearch files symName nodes = _ := ldSearch_eq nodes
  cases hNode : valuedNode files symName nodes with
  | none =>
      rw [hNode] at hSearch
      simp only [ReturnsAddress, ldFindAddress, hSearch, Option.map_none]
      exact iff_of_true trivial fun node h => absurd h (Option.not_mem_none node)
  | some node =>
      obtain ⟨sym, hSym, hValue, hAddr⟩ := valuedNode_symbol hNode
      rw [hNode, Option.map_some, hAddr] at hSearch
      have hReturned := ldFindAddress_found hSearch
      have hFits := node.wordAddress_eq_iff hValue
      simp only [ReturnsAddress, hSearch, Option.mem_some_iff, forall_eq', hSym]
      rw [← hFits, hReturned]
      constructor
      · intro h
        exact h.1
      · intro hEq
        rw [hEq]
        exact ⟨rfl, node.addressOf_holds sym.stValue⟩

/-- A file whose symbol `f` has a value behind the end of its object. -/
def highFiles (_ : List UInt8) : List SymbolTable := [oneSymbol 1 0x3000]

def highNodes : List SoNode := [⟨[1], 0x1000, 0x2000⟩]

/-- The value behind the end of the range is returned as an address. -/
theorem high_value_returned :
    ldSearch highFiles [0x66] highNodes = some (⟨[1], 0x1000, 0x2000⟩, 0x3000) ∧
      ldFindAddress highFiles [0x66] highNodes = 0x3000 ∧
      ¬ SoNode.Holds ⟨[1], 0x1000, 0x2000⟩ 0x3000 ∧
      ¬ ReturnsAddress highFiles [0x66] highNodes := by
  have hSearch : ldSearch highFiles [0x66] highNodes =
      some (⟨[1], 0x1000, 0x2000⟩, 0x3000) := by decide +kernel
  have hReturned : ldFindAddress highFiles [0x66] highNodes = 0x3000 := by decide +kernel
  have hOutside : ¬ SoNode.Holds ⟨[1], 0x1000, 0x2000⟩ 0x3000 := by decide
  refine ⟨hSearch, hReturned, hOutside, ?_⟩
  simp only [ReturnsAddress, hSearch, hReturned]
  rintro ⟨-, hNone | hHolds⟩
  · exact absurd hNone (by decide)
  · exact hOutside hHolds

end TelnetDebug

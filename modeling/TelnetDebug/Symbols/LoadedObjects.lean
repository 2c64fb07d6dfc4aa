import TelnetDebug.Library.Runs
import TelnetDebug.Symbols.MapsFields
import TelnetDebug.Symbols.Resolution
import Mathlib.Order.Bounds.Defs

/-! The loaded objects are the runs of lines with the same path. A line is what
the kernel prints for one mapping; the node of a run has the path of its lines,
the least of their first addresses and the greatest of their last ones. -/
namespace TelnetDebug

open CBuffer Strtok Strtol Guarded Runs

/-- One mapping. The name is empty, in brackets or an absolute path. -/
structure MapsLine where
  start : UInt64
  stop : UInt64
  readable : Bool
  writable : Bool
  executable : Bool
  shared : Bool
  offset : UInt64
  major : UInt32
  minor : UInt32
  inode : UInt64
  pad : Nat
  name : List UInt8
  pad_le : pad ≤ 73
  noNul : 0 ∉ name
  noNewline : 0x0a ∉ name
  short : name.length < pathnameLen
  named : name = [] ∨ (∃ inner, name = 0x5b :: inner ++ [0x5d]) ∨
    (∃ rest, name = 0x2f :: rest) ∧ 0x5b ∉ name

namespace MapsLine

def fields (l : MapsLine) : MapsFields where
  width := 8
  start := l.start
  stop := l.stop
  readable := l.readable
  writable := l.writable
  executable := l.executable
  shared := l.shared
  offset := l.offset
  major := l.major
  minor := l.minor
  inode := l.inode

/-- The rest of the line behind the inode and one space. -/
def column (l : MapsLine) : List UInt8 := List.replicate l.pad 0x20 ++ l.name

/-- The line without its newline: the fields, and the name in its column. -/
def text (l : MapsLine) : List UInt8 := l.fields.front ++ l.column

end MapsLine

/-- The mappings of a process. The kernel counts them in an `int`. -/
structure Mappings where
  lines : List MapsLine
  count : lines.length < 2 ^ 31

def Mappings.text (m : Mappings) : List UInt8 :=
  (m.lines.map fun l => l.text ++ [0x0a]).flatten

section Names

/-- The two searches put the name of the line at the front of a cleared array. -/
def MapsLine.Stores (l : MapsLine) : Prop :=
  ∃ size size' pathname pathname',
    storeFrom 0x2f l.column (.const pathnameLen 0) = .ok (size, pathname) ∧
      storeFrom 0x5b l.column pathname = .ok (size', pathname') ∧
        pathname'.cells = l.name ++ List.replicate (pathnameLen - l.name.length) 0

theorem notMem_column {l : MapsLine} {c : UInt8} (hc : c ≠ 0x20) (hName : c ∉ l.name) :
    c ∉ l.column := by
  rw [MapsLine.column, List.mem_append, not_or]
  exact ⟨notMem_spaces hc l.pad, hName⟩

theorem stores_blank {l : MapsLine} (hName : l.name = []) : l.Stores := by
  have hNone (c : UInt8) : c ∉ l.name := by
    rw [hName]
    exact List.not_mem_nil
  refine ⟨none, none, .const _ 0, .const _ 0, ?_, ?_, ?_⟩
  · exact storeFrom_none (notMem_column (by decide) (hNone 0x2f))
  · exact storeFrom_none (notMem_column (by decide) (hNone 0x5b))
  · rw [hName]
    rfl

theorem stores_path {l : MapsLine} {rest : List UInt8} (hName : l.name = 0x2f :: rest)
    (hBracket : 0x5b ∉ l.name) : l.Stores := by
  have hColumn : l.column = List.replicate l.pad 0x20 ++ 0x2f :: rest := by
    rw [MapsLine.column, hName]
  obtain ⟨pathname, hStore, hCells⟩ := storeFrom_found (.const _ 0)
    (notMem_spaces (by decide) l.pad) (Nat.le_of_lt (hName ▸ l.short))
  refine ⟨_, none, pathname, pathname, hColumn ▸ hStore,
    storeFrom_none (notMem_column (by decide) hBracket), ?_⟩
  rw [hCells, const_drop, ← hName]

/-- What a slash in the name has put into the array is not longer than the name. -/
theorem slash_clears {l : MapsLine} (hSlash : 0x2f ∈ l.name) :
    ∃ size pathname, storeFrom 0x2f l.column (.const pathnameLen 0) = .ok (size, pathname) ∧
      pathname.cells.drop l.name.length = List.replicate (pathnameLen - l.name.length) 0 := by
  obtain ⟨front, back, hSplit, hFront⟩ := List.eq_append_cons_of_mem hSlash
  have hShort := l.short
  have hLength : l.name.length = front.length + (0x2f :: back).length := by
    rw [hSplit, List.length_append]
  have hStart : 0x2f ∉ List.replicate l.pad 0x20 ++ front := by
    rw [List.mem_append, not_or]
    exact ⟨notMem_spaces (by decide) l.pad, hFront⟩
  have hFits : (0x2f :: back).length ≤ pathnameLen := by omega
  obtain ⟨pathname, hStore, hCells⟩ := storeFrom_found (.const _ 0) hStart hFits
  refine ⟨some (0x2f :: back).length, pathname, ?_, ?_⟩
  · rw [MapsLine.column, hSplit, ← List.append_assoc]
    exact hStore
  · rw [hCells, const_drop, List.drop_append, List.drop_of_length_le (by omega),
      List.drop_replicate, List.nil_append]
    congr 1
    omega

/-- The bracketed name is copied over what a slash in it has put there. -/
theorem stores_bracketed {l : MapsLine} {inner : List UInt8}
    (hName : l.name = 0x5b :: inner ++ [0x5d]) : l.Stores := by
  have hColumn : l.column = List.replicate l.pad 0x20 ++ 0x5b :: (inner ++ [0x5d]) := by
    rw [MapsLine.column, hName]
    rfl
  have hFits : (0x5b :: (inner ++ [0x5d])).length ≤ pathnameLen := by
    have hShort := Nat.le_of_lt l.short
    rw [hName] at hShort
    exact hShort
  have hLast {pathname : Buffer UInt8 pathnameLen} (hCells : pathname.cells.drop l.name.length =
      List.replicate (pathnameLen - l.name.length) 0) :
      ∃ size' pathname', storeFrom 0x5b l.column pathname = .ok (size', pathname') ∧
        pathname'.cells = l.name ++ List.replicate (pathnameLen - l.name.length) 0 := by
    obtain ⟨pathname', hStore, hResult⟩ :=
      storeFrom_found pathname (notMem_spaces (by decide) l.pad) hFits
    refine ⟨_, pathname', hColumn ▸ hStore, ?_⟩
    rw [hResult, ← hCells, hName]
    rfl
  by_cases hSlash : 0x2f ∈ l.name
  · obtain ⟨size, pathname, hStore, hCleared⟩ := slash_clears hSlash
    obtain ⟨size', pathname', hStore', hResult⟩ := hLast hCleared
    exact ⟨size, size', pathname, pathname', hStore, hStore', hResult⟩
  · have hNone := notMem_column (by decide) hSlash
    obtain ⟨size', pathname', hStore', hResult⟩ := hLast (const_drop l.name.length)
    exact ⟨none, size', .const _ 0, pathname', storeFrom_none hNone, hStore', hResult⟩

/-- Whatever a slash has put into the array, the name is in it at the end. -/
theorem stores_column (l : MapsLine) : l.Stores := by
  rcases l.named with hNone | ⟨inner, hName⟩ | ⟨⟨rest, hName⟩, hBracket⟩
  · exact stores_blank hNone
  · exact stores_bracketed hName
  · exact stores_path hName hBracket

/-- The name is read whatever column it stands in. -/
theorem nameOf_column (l : MapsLine) :
    ∃ size, nameOf (strtok [0x0a] (l.column ++ [0x0a])).1 = .ok (size, l.name) := by
  by_cases hEmpty : l.column = []
  · have hName : l.name = [] := (List.append_eq_nil_iff.mp hEmpty).2
    rw [hEmpty, hName]
    exact ⟨none, nameOf_none⟩
  · have hToken : ∀ c ∈ l.column, c ∉ [0x0a] := by
      intro c hc hNewline
      rw [List.mem_singleton.mp hNewline] at hc
      rcases List.mem_append.mp hc with hc | hc
      · exact absurd (List.eq_of_mem_replicate hc) (by decide)
      · exact l.noNewline hc
    obtain ⟨size, size', pathname, pathname', hSlash, hBracket, hCells⟩ := stores_column l
    refine ⟨size, ?_⟩
    rw [strtok_token hEmpty hToken (List.mem_singleton_self 0x0a),
      nameOf_token hSlash hBracket, str_name l.noNul l.short hCells]
    rfl

end Names

section Lines

theorem ldMapsParse_line (l : MapsLine) (map : LdMaps) :
    ∃ size, ldMapsParse (l.text ++ [0x0a]) map = .ok (l.fields.record size l.name map) := by
  obtain ⟨size, hName⟩ := nameOf_column l
  have hParse := ldMapsParse_fields l.fields l.column map
  rw [hName, ok_bind] at hParse
  exact ⟨size, hParse⟩

theorem MapsLine.mem_text {l : MapsLine} {c : UInt8} (h : c ∈ l.text) :
    c ∈ l.name ∨ c ≠ 0 ∧ c ≠ 0x0a := by
  rcases List.mem_append.mp h with h | h
  · exact .inr (MapsFields.mem_front h)
  · rcases List.mem_append.mp h with h | h
    · rw [List.eq_of_mem_replicate h]
      exact .inr (by decide)
    · exact .inl h

theorem MapsLine.text_fits (l : MapsLine) : 0x0a ∉ l.text ∧ l.text.length < mapsRoom := by
  constructor
  · intro h
    rcases mem_text h with hName | ⟨-, hNe⟩
    · exact l.noNewline hName
    · exact hNe rfl
  · have hWide (n : UInt64) : (zeroFilled 8 16 n.toNat).length ≤ 16 :=
      zeroFilled_length_le (by decide) (by decide) (by decide) n.toNat_lt
    have hNarrow (n : UInt32) : (zeroFilled 2 16 n.toNat).length ≤ 8 :=
      zeroFilled_length_le (by decide) (by decide) (by decide) n.toNat_lt
    have hInode : (numeral 10 l.inode.toNat).length ≤ 20 :=
      numeral_length_le (by decide) (by decide) (Nat.lt_trans l.inode.toNat_lt (by decide))
    have hStart := hWide l.start
    have hStop := hWide l.stop
    have hOffset := hWide l.offset
    have hMajor := hNarrow l.major
    have hMinor := hNarrow l.minor
    have hPad := l.pad_le
    have hShort := l.short
    have hLetters : l.fields.permissions.length = 4 := rfl
    have hRoom : mapsRoom = 4095 := rfl
    have hSize : pathnameLen = 128 := rfl
    simp only [text, column, fields, MapsFields.front, List.length_append, List.length_cons,
      List.length_nil, List.length_replicate] at hLetters ⊢
    omega

/-- The buffer holds the line as a string. -/
theorem MapsLine.text_line (l : MapsLine) : CBuffer.text (l.text ++ [0x0a]) = l.text ++ [0x0a] := by
  have hNul : 0 ∉ l.text := fun h => (mem_text h).elim l.noNul fun hNe => hNe.1 rfl
  rw [text_append hNul]
  rfl

theorem fgetsAll_mappings (m : Mappings) :
    fgetsAll 0x0a mapsRoom [] m.text = m.lines.map fun l => l.text ++ [0x0a] := by
  have hLines : ∀ line ∈ m.lines.map MapsLine.text, 0x0a ∉ line ∧ line.length < mapsRoom := by
    intro line hLine
    obtain ⟨l, -, rfl⟩ := List.mem_map.mp hLine
    exact l.text_fits
  have hRead := fgetsAll_lines hLines
  simpa only [Mappings.text, List.map_map, Function.comp_def] using hRead

end Lines

section Nodes

theorem sllLinkListInsertAtTail_eq {α : Type} (chain : List α) (node : α) :
    sllLinkListInsertAtTail chain node = chain ++ [node] := by
  induction chain with
  | nil => rfl
  | cons first rest ih =>
      cases rest with
      | nil => rfl
      | cons next rest => exact congrArg (first :: ·) ih

theorem sllLinkListGetTail_eq {α : Type} (chain : List α) :
    sllLinkListGetTail chain = chain.getLast? := by
  induction chain with
  | nil => rfl
  | cons first rest ih =>
      cases rest with
      | nil => rfl
      | cons next rest => exact ih.trans List.getLast?_cons_cons.symm

/-- What the lookup of a symbol uses of a record. -/
def LdMaps.node (map : LdMaps) : SoNode := ⟨map.pathname, map.addrStart, map.addrEnd⟩

def MapsLine.node (l : MapsLine) : SoNode := ⟨l.name, l.start, l.stop⟩

/-- A node and one more line of its run. -/
def widenNode (node : SoNode) (l : MapsLine) : SoNode where
  pathname := node.pathname
  addrStart := if node.addrStart < l.start then node.addrStart else l.start
  addrEnd := if node.addrEnd < l.stop then l.stop else node.addrEnd

def pushLine : List SoNode → MapsLine → List SoNode :=
  push MapsLine.name SoNode.pathname MapsLine.node widenNode

variable {list : SoNameList} {nodes : List SoNode} {map : LdMaps} {l : MapsLine}

/-- The list holds these nodes, and their number. -/
structure Represents (list : SoNameList) (nodes : List SoNode) : Prop where
  chain : list.nodes.map LdMaps.node = nodes
  num : list.num.toNat = nodes.length

theorem widen_node {node : LdMaps} (hLine : map.node = l.node) :
    (widen node map).node = widenNode node.node l := by
  obtain ⟨hName, hStart, hStop⟩ : map.pathname = l.name ∧ map.addrStart = l.start ∧
      map.addrEnd = l.stop := by simpa [LdMaps.node, MapsLine.node] using hLine
  unfold widen widenNode LdMaps.node
  rw [hStart, hStop]
  dsimp only
  split_ifs <;> rfl

theorem Represents.add (h : Represents list nodes) (hRoom : nodes.length + 1 < UInt32.size)
    (hLine : map.node = l.node) :
    Represents (soNameAddNode list map) (nodes ++ [l.node]) where
  chain := by
    rw [soNameAddNode, sllLinkListInsertAtTail_eq, List.map_append, h.chain, List.map_singleton,
      hLine]
  num := by
    have hNum := h.num
    have hOne : (1 : UInt32).toNat = 1 := rfl
    have hSize : UInt32.size = 2 ^ 32 := rfl
    rw [soNameAddNode, UInt32.toNat_add, hNum, hOne, List.length_append, List.length_singleton]
    exact Nat.mod_eq_of_lt (hSize ▸ hRoom)

theorem Represents.take (h : Represents list nodes) (hRoom : nodes.length + 1 < UInt32.size)
    (hLine : map.node = l.node) : Represents (list.take map) (pushLine nodes l) := by
  have hAdd := h.add hRoom hLine
  rcases List.eq_nil_or_concat' list.nodes with hEmpty | ⟨init, tail, hTail⟩
  · obtain rfl : nodes = [] := by rw [← h.chain, hEmpty]; rfl
    have hNum : ¬ list.num > 0 := fun hPos => absurd (UInt32.lt_iff_toNat_lt.mp hPos)
      (by rw [h.num]; exact Nat.lt_irrefl 0)
    rw [SoNameList.take, if_neg hNum]
    exact hAdd
  · have hNodes : init.map LdMaps.node ++ [tail.node] = nodes := by
      rw [← h.chain, hTail, List.map_append, List.map_singleton]
    have hNum : list.num > 0 := by
      rw [gt_iff_lt, UInt32.lt_iff_toNat_lt, h.num, ← hNodes, List.length_append]
      exact Nat.lt_of_lt_of_le Nat.zero_lt_one (Nat.le_add_left _ _)
    have hGet : sllLinkListGetTail list.nodes = some tail := by
      rw [sllLinkListGetTail_eq, hTail, List.getLast?_concat]
    have hKey : tail.pathname = map.pathname ↔ tail.node.pathname = l.name := by
      rw [← show map.node.pathname = l.name by rw [hLine]; rfl]
      rfl
    rw [SoNameList.take, if_pos hNum, hGet]
    by_cases hSame : tail.pathname = map.pathname
    · simp only [if_pos hSame]
      subst hNodes
      rw [pushLine, push_same (hKey.mp hSame)]
      constructor
      · rw [hTail, List.dropLast_concat, List.map_append, List.map_singleton, widen_node hLine]
      · exact h.num.trans (by simp only [List.length_append, List.length_singleton])
    · simp only [if_neg hSame]
      have hPush : pushLine nodes l = nodes ++ [l.node] := by
        rw [← hNodes, pushLine, push_other (mt hKey.mpr hSame)]
      rw [hPush]
      exact hAdd

end Nodes

section Runs

/-- The line names a file, and `.so` or the executable is in its path. -/
def MapsLine.Loaded (self : List UInt8) (l : MapsLine) : Prop :=
  l.name ≠ [] ∧ l.name.head? ≠ some 0x5b ∧ (soSuffix <:+: l.name ∨ self <:+: l.name)

instance (self : List UInt8) (l : MapsLine) : Decidable (l.Loaded self) :=
  inferInstanceAs (Decidable (_ ∧ _))

/-- An executable without a name would be in every line. -/
theorem accepted_iff {self : List UInt8} (hSelf : self ≠ []) (l : MapsLine) :
    Accepted self l.name ↔ l.Loaded self := by
  constructor
  · rintro ⟨hBracket, hFound⟩
    refine ⟨?_, fun hHead => hBracket (List.mem_of_mem_head? hHead), hFound⟩
    intro hNone
    rw [hNone, List.infix_nil, List.infix_nil] at hFound
    exact hFound.elim (List.cons_ne_nil _ _) hSelf
  · rintro ⟨hSome, hHead, hFound⟩
    rcases l.named with hNone | ⟨inner, hName⟩ | ⟨-, hBracket⟩
    · exact absurd hNone hSome
    · rw [hName] at hHead
      exact absurd rfl hHead
    · exact ⟨hBracket, hFound⟩

/-- The node has the path of the run and the bounds of all of its lines. -/
structure Spans (run : List MapsLine) (node : SoNode) : Prop where
  path : ∀ l ∈ run, l.name = node.pathname
  start : IsLeast {a | ∃ l ∈ run, l.start = a} node.addrStart
  stop : IsGreatest {a | ∃ l ∈ run, l.stop = a} node.addrEnd

theorem spans_single (l : MapsLine) : Spans [l] l.node := by
  refine ⟨fun l' h => by rw [List.mem_singleton.mp h]; rfl, ⟨⟨l, by simp, rfl⟩, ?_⟩,
    ⟨⟨l, by simp, rfl⟩, ?_⟩⟩
  · rintro a ⟨l', h, rfl⟩
    rw [List.mem_singleton.mp h]
    exact UInt64.le_refl _
  · rintro a ⟨l', h, rfl⟩
    rw [List.mem_singleton.mp h]
    exact UInt64.le_refl _

theorem Spans.widen {run : List MapsLine} {node : SoNode} (h : Spans run node) {l : MapsLine}
    (hName : l.name = node.pathname) : Spans (run ++ [l]) (widenNode node l) := by
  have hCases {l' : MapsLine} (hMem : l' ∈ run ++ [l]) : l' ∈ run ∨ l' = l := by
    simpa using hMem
  constructor
  · intro l' hMem
    rcases hCases hMem with hOld | rfl
    · exact h.path l' hOld
    · exact hName
  · obtain ⟨⟨least, hLeast, hStart⟩, hLower⟩ := h.start
    unfold widenNode
    dsimp only
    split
    · next hLess =>
      refine ⟨⟨least, List.mem_append_left _ hLeast, hStart⟩, ?_⟩
      rintro a ⟨l', hMem, rfl⟩
      rcases hCases hMem with hOld | rfl
      · exact hLower ⟨l', hOld, rfl⟩
      · exact UInt64.le_of_lt hLess
    · next hLess =>
      refine ⟨⟨l, by simp, rfl⟩, ?_⟩
      rintro a ⟨l', hMem, rfl⟩
      rcases hCases hMem with hOld | rfl
      · exact UInt64.le_trans (UInt64.not_lt.mp hLess) (hLower ⟨l', hOld, rfl⟩)
      · exact UInt64.le_refl _
  · obtain ⟨⟨greatest, hGreatest, hStop⟩, hUpper⟩ := h.stop
    unfold widenNode
    dsimp only
    split
    · next hLess =>
      refine ⟨⟨l, by simp, rfl⟩, ?_⟩
      rintro a ⟨l', hMem, rfl⟩
      rcases hCases hMem with hOld | rfl
      · exact UInt64.le_trans (hUpper ⟨l', hOld, rfl⟩) (UInt64.le_of_lt hLess)
      · exact UInt64.le_refl _
    · next hLess =>
      refine ⟨⟨greatest, List.mem_append_left _ hGreatest, hStop⟩, ?_⟩
      rintro a ⟨l', hMem, rfl⟩
      rcases hCases hMem with hOld | rfl
      · exact hUpper ⟨l', hOld, rfl⟩
      · exact UInt64.not_lt.mp hLess

theorem Spans.widenAll {run rest : List MapsLine} {node : SoNode} (h : Spans run node)
    (hNames : ∀ l ∈ rest, l.name = node.pathname) :
    Spans (run ++ rest) (rest.foldl widenNode node) := by
  induction rest generalizing run node with
  | nil => rwa [List.append_nil]
  | cons l rest ih =>
      have hWide := h.widen (hNames l List.mem_cons_self)
      rw [List.append_cons]
      exact ih hWide fun l' hMem => hNames l' (List.mem_cons_of_mem _ hMem)

/-- The node of a run spans it. -/
theorem spans_collect {lines run : List MapsLine} {node : SoNode}
    (hRun : run ∈ runs MapsLine.name lines)
    (hNode : collect MapsLine.node widenNode run = some node) : Spans run node := by
  cases run with
  | nil => cases hNode
  | cons first rest =>
      cases hNode
      have hLast := List.getLast?_eq_some_getLast (List.cons_ne_nil first rest)
      have hFirst := key_of_mem_run hRun List.mem_cons_self hLast
      apply (spans_single first).widenAll
      intro l hMem
      exact (key_of_mem_run hRun (List.mem_cons_of_mem _ hMem) hLast).trans hFirst.symm

theorem foldl_pushLine (lines : List MapsLine) : (lines.foldl pushLine []).map some =
    (runs MapsLine.name lines).map (collect MapsLine.node widenNode) := by
  have hSingle (l : MapsLine) : l.node.pathname = l.name := rfl
  have hExtend (node : SoNode) (l : MapsLine) : (widenNode node l).pathname = node.pathname := rfl
  exact foldl_push hSingle hExtend lines

/-- What one line does to the nodes. -/
def nextNodes (self : List UInt8) (nodes : List SoNode) (l : MapsLine) : List SoNode :=
  if Accepted self l.name then pushLine nodes l else nodes

theorem mapsStep_line {self : List UInt8} {s : LdMaps × SoNameList} {nodes : List SoNode}
    (h : Represents s.2 nodes) {l : MapsLine} (hRoom : nodes.length + 1 < UInt32.size) :
    ∃ t, mapsStep self s (l.text ++ [0x0a]) = .ok t ∧ Represents t.2 (nextNodes self nodes l) := by
  obtain ⟨size, hParse⟩ := ldMapsParse_line l s.1
  rw [mapsStep, l.text_line, hParse, ok_bind]
  refine ⟨_, rfl, ?_⟩
  unfold nextNodes
  have hName : (l.fields.record size l.name s.1).pathname = l.name := rfl
  rw [hName]
  by_cases hAccepted : Accepted self l.name
  · simp only [if_pos hAccepted]
    exact h.take hRoom rfl
  · simp only [if_neg hAccepted]
    exact h

theorem pushLine_length_le (nodes : List SoNode) (l : MapsLine) :
    (pushLine nodes l).length ≤ nodes.length + 1 := by
  rcases List.eq_nil_or_concat' nodes with rfl | ⟨init, tail, rfl⟩
  · exact Nat.le_refl 1
  · by_cases hSame : tail.pathname = l.name
    · rw [pushLine, push_same hSame, List.length_append, List.length_append, List.length_singleton]
      exact Nat.le_succ _
    · rw [pushLine, push_other hSame, List.length_append]
      exact Nat.le_refl _

theorem nextNodes_length_le (self : List UInt8) (nodes : List SoNode) (lines : List MapsLine) :
    (lines.foldl (nextNodes self) nodes).length ≤ nodes.length + lines.length := by
  induction lines generalizing nodes with
  | nil => exact Nat.le_refl _
  | cons l lines ih =>
      have hStep : (nextNodes self nodes l).length ≤ nodes.length + 1 := by
        unfold nextNodes
        split
        · exact pushLine_length_le nodes l
        · exact Nat.le_succ _
      have hRest := ih (nextNodes self nodes l)
      rw [List.foldl_cons, List.length_cons]
      omega

/-- The list has the nodes of the accepted lines. -/
theorem getMapsSoList_nodes {self : List UInt8} (hSelf : self ≠ [])
    (gSoNameList : Option SoNameList) (m : Mappings) :
    ∃ list, getMapsSoList self gSoNameList (some m.text) = .ok (1, some list) ∧
      Represents list ((m.lines.filter (MapsLine.Loaded self)).foldl pushLine []) := by
  have hStep (s : LdMaps × SoNameList) (nodes : List SoNode) (l : MapsLine)
      (h : Represents s.2 nodes) (hRoom : nodes.length + 1 < UInt32.size) :
      ∃ t, mapsStep self s (l.text ++ [0x0a]) = .ok t ∧ Represents t.2 (nextNodes self nodes l) :=
    mapsStep_line h hRoom
  have hStart : Represents (LdMaps.cleared, debugInitList).2 [] := ⟨rfl, rfl⟩
  have hRoom (taken : List MapsLine) (l : MapsLine) (hTaken : taken ++ [l] <+: m.lines) :
      (taken.foldl (nextNodes self) []).length + 1 < UInt32.size := by
    have hNodes := nextNodes_length_le self [] taken
    have hLength := Nat.lt_of_le_of_lt hTaken.length_le m.count
    rw [List.length_append, List.length_singleton] at hLength
    rw [List.length_nil] at hNodes
    exact Nat.lt_trans (by omega) (by decide : 2 ^ 31 < UInt32.size)
  obtain ⟨⟨map, list⟩, hRun, hRepresents⟩ := run_simulates hStep hStart hRoom
  have hNodes : m.lines.foldl (nextNodes self) [] =
      (m.lines.filter (MapsLine.Loaded self)).foldl pushLine [] := by
    have hFilter : m.lines.filter (fun l => Accepted self l.name) =
        m.lines.filter (fun l => l.Loaded self) :=
      List.filter_congr fun l _ => decide_eq_decide.mpr (accepted_iff hSelf l)
    rw [← hFilter, List.foldl_filter]
    simp only [decide_eq_true_eq]
    rfl
  refine ⟨list, ?_, hNodes ▸ hRepresents⟩
  rw [getMapsSoList, fgetsAll_mappings, run_map, hRun]
  rfl

theorem Represents.spans {list : SoNameList} {lines : List MapsLine}
    (h : Represents list (lines.foldl pushLine [])) :
    List.Forall₂ Spans (runs MapsLine.name lines) (list.nodes.map LdMaps.node) := by
  rw [h.chain]
  exact forall₂_collect (foldl_pushLine _) fun run hRun node hNode => spans_collect hRun hNode

/-- For every text that the kernel prints: the nodes are those of the runs of
accepted lines with the same path, in the order of the text, and `num` is their
number. -/
theorem loaded_objects {self : List UInt8} (hSelf : self ≠ []) (gSoNameList : Option SoNameList)
    (m : Mappings) :
    ∃ list, getMapsSoList self gSoNameList (some m.text) = .ok (1, some list) ∧
      List.Forall₂ Spans (runs MapsLine.name (m.lines.filter (MapsLine.Loaded self)))
        (list.nodes.map LdMaps.node) ∧
      list.num.toNat = list.nodes.length := by
  obtain ⟨list, hList, hRepresents⟩ := getMapsSoList_nodes hSelf gSoNameList m
  refine ⟨list, hList, hRepresents.spans, ?_⟩
  rw [hRepresents.num, ← hRepresents.chain, List.length_map]

/-- A library in two parts with a mapping of no file between them, the heap, and
the executable. -/
def fewMappings : Mappings where
  lines :=
    [⟨0x1000, 0x2000, true, false, true, false, 0, 8, 1, 77, 10, [0x2f, 0x61, 0x2e, 0x73, 0x6f],
        by decide, by decide, by decide, by decide, .inr (.inr ⟨⟨_, rfl⟩, by decide⟩)⟩,
      ⟨0x2000, 0x3000, true, true, false, false, 0, 0, 0, 0, 0, [], by decide, by decide, by decide,
        by decide, .inl rfl⟩,
      ⟨0x3000, 0x5000, true, true, false, false, 0x1000, 8, 1, 77, 10,
        [0x2f, 0x61, 0x2e, 0x73, 0x6f], by decide, by decide, by decide, by decide,
        .inr (.inr ⟨⟨_, rfl⟩, by decide⟩)⟩,
      ⟨0x6000, 0x7000, true, true, false, false, 0, 0, 0, 0, 20,
        [0x5b, 0x68, 0x65, 0x61, 0x70, 0x5d], by decide, by decide, by decide, by decide,
        .inr (.inl ⟨[0x68, 0x65, 0x61, 0x70], rfl⟩)⟩,
      ⟨0x400000, 0x401000, true, false, true, false, 0, 8, 1, 99, 10, [0x2f, 0x62], by decide,
        by decide, by decide, by decide, .inr (.inr ⟨⟨_, rfl⟩, by decide⟩)⟩]
  count := by decide

theorem loaded_objects_few :
    ∃ list, getMapsSoList [0x2f, 0x62] none (some fewMappings.text) = .ok (1, some list) ∧
      list.num.toNat = list.nodes.length ∧ list.nodes.length = 2 := by
  obtain ⟨list, hLoad, hSpans, hNum⟩ :=
    loaded_objects (List.cons_ne_nil 0x2f [0x62]) none fewMappings
  have hRuns : (runs MapsLine.name
      (fewMappings.lines.filter (MapsLine.Loaded [0x2f, 0x62]))).length = 2 := by decide +kernel
  have hLength := hSpans.length_eq
  rw [hRuns, List.length_map] at hLength
  exact ⟨list, hLoad, hNum, hLength.symm⟩

end Runs

end TelnetDebug

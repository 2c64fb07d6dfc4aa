import TelnetDebug.Lists.ListRun

/-! Inserting a node at an index. The walk to the position ends when the index
is reached and when the list ends, and both ends are reported as a success. -/
namespace TelnetDebug.Sll

open Linked Guarded

/-- The sequence with the node directly behind position `pos`, counted from one. -/
def InsertedBehind {α : Type} (xs : List α) (pos : Int) (node : α) (ys : List α) : Prop :=
  ∃ before previous after, xs = before ++ previous :: after ∧ (before.length : Int) + 1 = pos ∧
    ys = before ++ previous :: node :: after

/-- A position behind which something can be put is one of the sequence. -/
theorem InsertedBehind.le_length {α : Type} {xs ys : List α} {pos : Int} {node : α}
    (h : InsertedBehind xs pos node ys) : pos ≤ xs.length := by
  obtain ⟨before, previous, after, rfl, rfl, -⟩ := h
  rw [List.length_append, List.length_cons]
  omega

variable {α : Type} [DecidableEq α]

/-- What the result of an insertion tells its caller: after a success the node
is in its place, and otherwise the position is not there and nothing happened. -/
structure InsertionReported (list : SllLinkList α) (xs : List α) (node : α) (index : Int)
    (r : ListResult α) : Prop where
  inserted : r.1 = retSuccess →
    ∃ ys, InsertedBehind xs (max 1 index) node ys ∧ r.2.Represents ys
  refused : r.1 ≠ retSuccess → xs.length < index ∧ r.1 = retError ∧ r.2 = list

section Insertion
variable {list : SllLinkList α} {xs : List α} {node : α} {index : Int}

/-- The walk reaches every position of the list. -/
theorem insertAtIndex_inside (h : list.Represents xs) (hNonempty : xs ≠ []) (hFresh : node ∉ xs)
    (hCell : (list.heap node).isSome) (hIndex : index ≤ xs.length) :
    ∃ t ys, insertAtIndex list (some node) index = .ok (retSuccess, t) ∧
      InsertedBehind xs (max 1 index) node ys ∧ t.Represents ys := by
  have hInside : (index - 1).toNat < xs.length := by
    have hPos := List.length_pos_iff.mpr hNonempty
    omega
  obtain ⟨before, previous, after, rfl, hBefore⟩ := split_at hInside
  obtain ⟨t, hCall, hLeaves⟩ := insertAtIndex_spec h hFresh hCell hBefore.symm
  have hPosition : (before.length : Int) + 1 = max 1 index := by omega
  exact ⟨t, _, hCall, ⟨before, previous, after, rfl, hPosition, rfl⟩, hLeaves.represents⟩

/-- A node is inserted and reported as it should be if and only if the index is
at most the length of the list. -/
theorem insert_at_index_reported_iff (h : list.Represents xs) (hNonempty : xs ≠ [])
    (hFresh : node ∉ xs) (hCell : (list.heap node).isSome) :
    (∃ r, insertAtIndex list (some node) index = .ok r ∧
        InsertionReported list xs node index r) ↔ index ≤ xs.length := by
  constructor
  · rintro ⟨r, hCall, hReported⟩
    by_contra hBeyond
    have hEnd : xs.length ≤ (index - 1).toNat := by omega
    rw [insertAtIndex_beyond h hNonempty hEnd] at hCall
    obtain rfl := Except.ok.inj hCall
    obtain ⟨ys, hInserted, -⟩ := hReported.inserted rfl
    have hLength := hInserted.le_length
    omega
  · intro hIndex
    obtain ⟨t, ys, hCall, hInserted, hChain⟩ :=
      insertAtIndex_inside h hNonempty hFresh hCell hIndex
    exact ⟨_, hCall, fun _ => ⟨ys, hInserted, hChain⟩, fun hNot => (hNot rfl).elim⟩

end Insertion

theorem numbered_two : (SllLinkList.numbered 2).Represents [1, 2] :=
  .cons rfl (.cons rfl (.nil none))

/-- The third node is put behind the first of two. -/
theorem insert_at_index_reported_first :
    ∃ r, insertAtIndex (.numbered 2) (some 3) 0 = .ok r ∧
      InsertionReported (.numbered 2) [1, 2] 3 0 r :=
  (insert_at_index_reported_iff numbered_two (by decide) (by decide) rfl).mpr (by decide)

/-- Position three of two is reported as a success. -/
theorem insert_at_index_lost :
    insertAtIndex (.numbered 2) (some 3) 3 = .ok (retSuccess, .numbered 2) ∧
    ¬ ∃ r, insertAtIndex (.numbered 2) (some 3) 3 = .ok r ∧
      InsertionReported (.numbered 2) [1, 2] 3 3 r := by
  have hCall : insertAtIndex (.numbered 2) (some 3) 3 = .ok (retSuccess, .numbered 2) :=
    insertAtIndex_beyond numbered_two (by decide) (by decide) (some 3)
  refine ⟨hCall, ?_⟩
  rintro ⟨r, hSame, hReported⟩
  rw [hCall] at hSame
  obtain rfl := Except.ok.inj hSame
  obtain ⟨ys, hInserted, -⟩ := hReported.inserted rfl
  exact absurd hInserted.le_length (by decide)

end TelnetDebug.Sll

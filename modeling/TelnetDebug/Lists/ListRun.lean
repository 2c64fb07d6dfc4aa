import TelnetDebug.Lists.Refinement
import Mathlib.Data.List.InsertIdx

/-! Runs of calls on a list that starts empty. The chain of links follows the
sequence that the same operations make of the empty sequence. -/
namespace TelnetDebug.Sll

open Linked Guarded

theorem split_at {α : Type} {xs : List α} {k : Nat} (hInside : k < xs.length) :
    ∃ ys z ws, xs = ys ++ z :: ws ∧ ys.length = k := by
  refine ⟨xs.take k, xs[k], xs.drop (k + 1), ?_, List.length_take_of_le (Nat.le_of_lt hInside)⟩
  rw [← List.drop_eq_getElem_cons hInside, List.take_append_drop]

theorem insertIdx_behind {α : Type} (ys ws : List α) (z a : α) :
    (ys ++ z :: ws).insertIdx (ys.length + 1) a = ys ++ z :: a :: ws := by
  induction ys with
  | nil => rfl
  | cons y ys ih =>
      rw [List.cons_append, List.length_cons, List.insertIdx_succ_cons, ih, List.cons_append]

variable {α : Type} [DecidableEq α]

/-- A call with its arguments. The link of a node to insert has any value before. -/
inductive ListOp (α : Type) where
  | insertAtHead (node : α) (link : Option α)
  | insertAtTail (node : α) (link : Option α)
  | insertAtIndex (node : α) (link : Option α) (index : Int)
  | headRemove
  | tailRemove
  | nodeRemove (node : α)
deriving DecidableEq

namespace ListOp

def call (fuel : Nat) (list : SllLinkList α) : ListOp α → Except Fault (ListResult α)
  | insertAtHead node link => Sll.insertAtHead (list.provide node link) (some node)
  | insertAtTail node link => Sll.insertAtTail fuel (list.provide node link) (some node)
  | insertAtIndex node link index => Sll.insertAtIndex (list.provide node link) (some node) index
  | headRemove => Sll.headRemove list
  | tailRemove => Sll.tailRemove fuel list
  | nodeRemove node => Sll.nodeRemove fuel list (some node)

def step (fuel : Nat) (list : SllLinkList α) (op : ListOp α) : Except Fault (SllLinkList α) := do
  let (_, t) ← op.call fuel list
  return t

/-- What the call does to the sequence of the nodes. -/
def apply (xs : List α) : ListOp α → List α
  | insertAtHead node _ => node :: xs
  | insertAtTail node _ => xs ++ [node]
  | insertAtIndex node _ index => xs.insertIdx ((index - 1).toNat + 1) node
  | headRemove => xs.tail
  | tailRemove => xs.dropLast
  | nodeRemove node => xs.erase node

/-- The arguments are valid: a node to insert is not in the list, and the list
is not empty where the function asks for that. -/
def Allowed (xs : List α) : ListOp α → Prop
  | insertAtHead node _ => node ∉ xs
  | insertAtTail node _ => node ∉ xs
  | insertAtIndex node _ _ => node ∉ xs ∧ xs ≠ []
  | headRemove => xs ≠ []
  | tailRemove => xs ≠ []
  | nodeRemove _ => xs ≠ []

instance (xs : List α) : (op : ListOp α) → Decidable (op.Allowed xs)
  | insertAtHead node _ => inferInstanceAs (Decidable (node ∉ xs))
  | insertAtTail node _ => inferInstanceAs (Decidable (node ∉ xs))
  | insertAtIndex node _ _ => inferInstanceAs (Decidable (node ∉ xs ∧ xs ≠ []))
  | headRemove => inferInstanceAs (Decidable (xs ≠ []))
  | tailRemove => inferInstanceAs (Decidable (xs ≠ []))
  | nodeRemove _ => inferInstanceAs (Decidable (xs ≠ []))

/-- The tail pointer that the call leaves. -/
def tailAfter (tail : Option α) (xs : List α) : ListOp α → Option α
  | insertAtHead node _ => if tail.isNone then some node else tail
  | insertAtTail node _ => if xs = [] then some node else tail
  | _ => tail

/-- Every call of a run meets the condition at the sequence that it finds. -/
def Along (cond : List α → ListOp α → Prop) : List α → List (ListOp α) → Prop
  | _, [] => True
  | xs, op :: ops => cond xs op ∧ Along cond (op.apply xs) ops

instance alongDecidable (cond : List α → ListOp α → Prop) [∀ xs op, Decidable (cond xs op)] :
    (xs : List α) → (ops : List (ListOp α)) → Decidable (Along cond xs ops)
  | _, [] => isTrue trivial
  | xs, op :: ops =>
      have := alongDecidable cond (op.apply xs) ops
      inferInstanceAs (Decidable (_ ∧ _))

end ListOp

section Step
variable {list : SllLinkList α} {xs : List α} {fuel : Nat}

theorem length_apply (op : ListOp α) (xs : List α) : (op.apply xs).length ≤ xs.length + 1 := by
  cases op with
  | insertAtHead node link => exact Nat.le_refl _
  | insertAtTail node link => exact Nat.le_of_eq (List.length_append ..)
  | insertAtIndex node link index =>
      rw [ListOp.apply, List.length_insertIdx]
      split
      · exact Nat.le_refl _
      · exact Nat.le_succ _
  | headRemove => exact (List.length_tail ..).trans_le (by omega)
  | tailRemove => exact (List.length_dropLast ..).trans_le (by omega)
  | nodeRemove node => exact List.length_erase_le.trans (Nat.le_succ _)

/-- Each call does to the list what its operation does to the sequence. -/
theorem call_spec (op : ListOp α) (h : list.Represents xs) (hAllowed : op.Allowed xs)
    (hTail : op = .tailRemove → xs.length ≠ 1) (hFuel : xs.length < fuel) :
    ∃ t, op.step fuel list = .ok t ∧ t.Represents (op.apply xs) ∧
      t.tail = op.tailAfter list.tail xs := by
  cases op with
  | insertAtHead node link =>
      obtain ⟨t, hCall, hLeaves⟩ :=
        insertAtHead_spec (provide_represents h hAllowed link) hAllowed (provide_cell link)
      exact ⟨t, bind_eq_ok.mpr ⟨_, hCall, rfl⟩, hLeaves.represents, hLeaves.tail⟩
  | insertAtTail node link =>
      obtain ⟨t, hCall, hLeaves⟩ := insertAtTail_spec (provide_represents h hAllowed link) hAllowed
        (provide_cell link) (Nat.le_of_lt hFuel)
      exact ⟨t, bind_eq_ok.mpr ⟨_, hCall, rfl⟩, hLeaves.represents, hLeaves.tail⟩
  | insertAtIndex node link index =>
      obtain ⟨hFresh, hNonempty⟩ := hAllowed
      have hProvided := provide_represents h hFresh link
      rcases Nat.lt_or_ge (index - 1).toNat xs.length with hInside | hBeyond
      · obtain ⟨ys, z, ws, rfl, hLength⟩ := split_at hInside
        obtain ⟨t, hCall, hLeaves⟩ :=
          insertAtIndex_spec hProvided hFresh (provide_cell link) hLength.symm
        refine ⟨t, bind_eq_ok.mpr ⟨_, hCall, rfl⟩, ?_, hLeaves.tail⟩
        rw [ListOp.apply, ← hLength, insertIdx_behind]
        exact hLeaves.represents
      · have hCall := insertAtIndex_beyond hProvided hNonempty hBeyond (some node)
        refine ⟨_, bind_eq_ok.mpr ⟨_, hCall, rfl⟩, ?_, rfl⟩
        rw [ListOp.apply, List.insertIdx_of_length_lt (Nat.lt_succ_of_le hBeyond)]
        exact hProvided
  | headRemove =>
      cases xs with
      | nil => exact (hAllowed rfl).elim
      | cons x xs =>
          obtain ⟨t, hCall, hLeaves⟩ := headRemove_spec h
          exact ⟨t, bind_eq_ok.mpr ⟨_, hCall, rfl⟩, hLeaves.represents, hLeaves.tail⟩
  | tailRemove =>
      rcases List.eq_nil_or_concat' xs with rfl | ⟨ys, z, rfl⟩
      · exact (hAllowed rfl).elim
      · rcases List.eq_nil_or_concat' ys with rfl | ⟨ys, y, rfl⟩
        · exact (hTail rfl rfl).elim
        · simp only [List.length_append, List.length_singleton] at hFuel
          rw [List.append_assoc, List.singleton_append] at h
          obtain ⟨t, hCall, hLeaves⟩ := tailRemove_spec h (Nat.lt_of_succ_lt hFuel)
          refine ⟨t, bind_eq_ok.mpr ⟨_, hCall, rfl⟩, ?_, hLeaves.tail⟩
          rw [ListOp.apply, List.dropLast_concat]
          exact hLeaves.represents
  | nodeRemove node =>
      by_cases hMem : node ∈ xs
      · obtain ⟨t, hCall, hLeaves⟩ := nodeRemove_spec h hMem hFuel
        exact ⟨t, bind_eq_ok.mpr ⟨_, hCall, rfl⟩, hLeaves.represents, hLeaves.tail⟩
      · have hCall := nodeRemove_absent h hAllowed hMem hFuel
        refine ⟨list, bind_eq_ok.mpr ⟨_, hCall, rfl⟩, ?_, rfl⟩
        rw [ListOp.apply, List.erase_of_not_mem hMem]
        exact h

/-- A run without the removal of the tail follows the sequence. -/
theorem run_spec {ops : List (ListOp α)} (h : list.Represents xs)
    (hAlong : ListOp.Along (fun xs op => op.Allowed xs ∧ op ≠ .tailRemove) xs ops)
    (hFuel : xs.length + ops.length < fuel) :
    ∃ t, run (ListOp.step fuel) list ops = .ok t ∧ t.Represents (ops.foldl ListOp.apply xs) ∧
      (ops.foldl ListOp.apply xs).length < fuel := by
  induction ops generalizing list xs with
  | nil => exact ⟨list, rfl, h, hFuel⟩
  | cons op ops ih =>
      obtain ⟨⟨hAllowed, hNotTail⟩, hRest⟩ := hAlong
      have hLength := length_apply op xs
      rw [List.length_cons] at hFuel
      have hShort : xs.length < fuel := by omega
      obtain ⟨t, hStep, hNext, -⟩ :=
        call_spec op h hAllowed (fun hTail => (hNotTail hTail).elim) hShort
      obtain ⟨u, hRun, hFinal⟩ := ih hNext hRest (by omega)
      exact ⟨u, by rw [run_cons, hStep, ok_bind, hRun], hFinal⟩

end Step

/-- A run of calls with valid arguments, without the removal of the tail. At its
end, and so after each of its calls, the chain of links is the sequence that the
operations make. -/
theorem list_run_refines (heap : Heap α) {ops : List (ListOp α)}
    (hAllowed : ListOp.Along (fun xs op => op.Allowed xs ∧ op ≠ .tailRemove) [] ops)
    {fuel : Nat} (hFuel : ops.length < fuel) :
    ∃ list, run (ListOp.step fuel) (.empty heap) ops = .ok list ∧
      let xs := ops.foldl ListOp.apply []
      list.Represents xs ∧ xs.Nodup ∧
      getHead list = xs.head? ∧ getTail fuel list = .ok xs.getLast? ∧
      (xs ≠ [] → ∀ node, ∃ t,
        nodeRemove fuel list (some node) =
          .ok (if node ∈ xs then retSuccess else retError, t) ∧
        t.Represents (xs.erase node) ∧
        (∀ b, (t.heap b).isSome ↔ (list.heap b).isSome ∧ ¬(b = node ∧ node ∈ xs)) ∧
        (node ∉ xs → t = list)) := by
  have hEmpty : (SllLinkList.empty heap).Represents [] := .nil none
  obtain ⟨list, hRun, hList, hShort⟩ := run_spec hEmpty hAllowed (by simpa using hFuel)
  refine ⟨list, hRun, hList, hList.nodup, hList.head_eq,
    getTail_eq hList (Nat.le_of_lt hShort), fun hNonempty node => ?_⟩
  by_cases hMem : node ∈ ops.foldl ListOp.apply []
  · obtain ⟨t, hCall, hLeaves⟩ := nodeRemove_spec hList hMem hShort
    refine ⟨t, ?_, hLeaves.represents, ?_, fun hAbsent => (hAbsent hMem).elim⟩
    · rw [if_pos hMem, hCall]
    · intro b
      rw [hLeaves.cells, List.mem_singleton, and_iff_left hMem]
  · have hCall := nodeRemove_absent hList hNonempty hMem hShort
    refine ⟨list, ?_, ?_, ?_, fun _ => rfl⟩
    · rw [if_neg hMem, hCall]
    · rw [List.erase_of_not_mem hMem]
      exact hList
    · intro b
      exact ⟨fun h => ⟨h, fun hNode => hMem hNode.2⟩, fun h => h.1⟩

/-- The node 1 is put at the tail, 2 at the head and 3 behind both, and 1 is
taken out of the middle. -/
theorem list_run_refines_middle :
    ∃ list : SllLinkList Nat, run (ListOp.step 5) (.empty fun _ => none)
        [.insertAtTail 1 none, .insertAtHead 2 (some 7), .insertAtTail 3 none, .nodeRemove 1] =
          .ok list ∧
      list.Represents [2, 3] ∧ getTail 5 list = .ok (some 3) := by
  have hAllowed : ListOp.Along (fun xs op => op.Allowed xs ∧ op ≠ .tailRemove) []
      [.insertAtTail 1 none, .insertAtHead 2 (some 7), .insertAtTail 3 none,
        .nodeRemove (1 : Nat)] := by decide
  obtain ⟨list, hRun, hList, -, -, hTail, -⟩ :=
    list_run_refines (fun _ => none) hAllowed (Nat.lt_succ_self 4)
  exact ⟨list, hRun, hList, hTail⟩

end TelnetDebug.Sll

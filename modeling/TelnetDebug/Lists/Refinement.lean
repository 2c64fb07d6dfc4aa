import TelnetDebug.Lists.SllLinkList
import Mathlib.Data.List.Nodup

/-! A list in memory stands for the sequence of its nodes. Each call does to the
chain of links what an operation on sequences does to the sequence. -/
namespace TelnetDebug.Sll

open Linked Guarded

/-- The chain of links from the head is this sequence, and it ends. -/
def SllLinkList.Represents {α : Type} (list : SllLinkList α) (xs : List α) : Prop :=
  Segment list.heap list.head xs none

section Loops
variable {α : Type} {heap : Heap α} {p : Option α} {xs ys : List α} {a b z : α} {fuel : Nat}

/-- One link further into a list. -/
theorem link_cons (h : Segment heap p (a :: xs) none) :
    p = some a ∧ heap.link (some a) = .ok xs.head? ∧ Segment heap xs.head? xs none := by
  obtain ⟨rfl, next, hCell, hRest⟩ := h.cons_inv
  obtain rfl := hRest.head_eq
  exact ⟨rfl, Heap.link_eq hCell, hRest⟩

theorem lastNode_eq (h : Segment heap p (ys ++ [z]) none) (hFuel : ys.length < fuel) :
    lastNode heap fuel p = .ok (some z) := by
  induction ys generalizing p fuel with
  | nil =>
      obtain ⟨fuel, rfl⟩ := Nat.exists_eq_succ_of_ne_zero (Nat.ne_of_gt hFuel)
      obtain ⟨rfl, hLink, -⟩ := link_cons h
      rw [lastNode, hLink]
      rfl
  | cons y ys ih =>
      obtain ⟨fuel, rfl⟩ := Nat.exists_eq_succ_of_ne_zero (Nat.ne_of_gt (Nat.zero_lt_of_lt hFuel))
      obtain ⟨rfl, hLink, hRest⟩ := link_cons h
      obtain ⟨c, hNext⟩ := hRest.exists_head (List.append_ne_nil_of_right_ne_nil ys (by simp))
      have hLater := ih hRest (Nat.lt_of_succ_lt_succ hFuel)
      rw [hNext] at hLink hLater
      rw [lastNode, hLink]
      exact hLater

/-- The node in front of the last one is the one the loop came from when there
is only one. -/
theorem lastTwo_eq (h : Segment heap p (ys ++ [z]) none) (hFuel : ys.length < fuel)
    (preNode : Option α) :
    lastTwo heap fuel preNode p = .ok (ys.getLast?.or preNode, some z) := by
  induction ys generalizing p fuel preNode with
  | nil =>
      obtain ⟨fuel, rfl⟩ := Nat.exists_eq_succ_of_ne_zero (Nat.ne_of_gt hFuel)
      obtain ⟨rfl, hLink, -⟩ := link_cons h
      rw [lastTwo, hLink]
      rfl
  | cons y ys ih =>
      obtain ⟨fuel, rfl⟩ := Nat.exists_eq_succ_of_ne_zero (Nat.ne_of_gt (Nat.zero_lt_of_lt hFuel))
      obtain ⟨rfl, hLink, hRest⟩ := link_cons h
      obtain ⟨c, hNext⟩ := hRest.exists_head (List.append_ne_nil_of_right_ne_nil ys (by simp))
      have hLater := ih hRest (Nat.lt_of_succ_lt_succ hFuel) (some y)
      rw [hNext] at hLink hLater
      rw [lastTwo, hLink, List.getLast?_cons, Option.some_or]
      cases hLast : ys.getLast? with
      | none =>
          rw [hLast] at hLater
          exact hLater
      | some w =>
          rw [hLast] at hLater
          exact hLater

theorem walk_eq (h : Segment heap p xs none) (steps : Nat) :
    walk heap steps p = .ok xs[steps]? := by
  induction xs generalizing p steps with
  | nil =>
      obtain rfl := h.nil_inv
      cases steps with
      | zero => rfl
      | succ steps => rfl
  | cons a xs ih =>
      obtain ⟨rfl, hLink, hRest⟩ := link_cons h
      cases steps with
      | zero => rfl
      | succ steps =>
          rw [walk, hLink]
          exact ih hRest steps

/-- The loop stops at the last node. -/
theorem advance_eq (h : Segment heap p xs none) (hNonempty : xs ≠ []) (steps : Nat) :
    advance heap steps p = .ok xs[min steps (xs.length - 1)]? := by
  induction xs generalizing p steps with
  | nil => exact (hNonempty rfl).elim
  | cons a xs ih =>
      obtain ⟨rfl, hLink, hRest⟩ := link_cons h
      cases steps with
      | zero =>
          rw [Nat.zero_min]
          rfl
      | succ steps =>
          rw [advance, hLink]
          cases xs with
          | nil => rfl
          | cons b xs =>
              have hIndex : min (steps + 1) ((a :: b :: xs).length - 1) =
                  min steps ((b :: xs).length - 1) + 1 := by
                simp only [List.length_cons]
                omega
              rw [hIndex, List.getElem?_cons_succ]
              exact ih hRest (List.cons_ne_nil b xs) steps

theorem getTail_eq {list : SllLinkList α} (h : list.Represents xs) (hFuel : xs.length ≤ fuel) :
    getTail fuel list = .ok xs.getLast? := by
  rcases List.eq_nil_or_concat' xs with rfl | ⟨ys, z, rfl⟩
  · have hHead : list.head = none := h.nil_inv
    rw [getTail, hHead]
    rfl
  · obtain ⟨c, hHead⟩ :=
      h.exists_head (List.append_ne_nil_of_right_ne_nil ys (List.cons_ne_nil z []))
    rw [List.length_append, List.length_singleton] at hFuel
    have hLoop := lastNode_eq h hFuel
    unfold getTail
    rw [hHead] at hLoop ⊢
    rw [List.getLast?_concat]
    exact hLoop

end Loops

variable {α : Type} [DecidableEq α]

section Unlink
variable {list : SllLinkList α} {p : Option α} {xs before after : List α} {a b : α} {fuel : Nat}

/-- A node that is not in the list is not found, and nothing is changed. -/
theorem unlink_absent (h : Segment list.heap p xs none) (hAbsent : a ∉ xs)
    (hFuel : xs.length < fuel) : unlink list (some a) fuel p = .ok (retError, list) := by
  induction xs generalizing p fuel with
  | nil =>
      obtain ⟨fuel, rfl⟩ := Nat.exists_eq_succ_of_ne_zero (Nat.ne_of_gt hFuel)
      obtain rfl := h.nil_inv
      rfl
  | cons x xs ih =>
      obtain ⟨fuel, rfl⟩ := Nat.exists_eq_succ_of_ne_zero (Nat.ne_of_gt (Nat.zero_lt_of_lt hFuel))
      obtain ⟨rfl, hLink, hRest⟩ := link_cons h
      have hNotNext : xs.head? ≠ some a := fun hNext =>
        hAbsent (List.mem_cons_of_mem _ (List.mem_of_head? hNext))
      rw [unlink, hLink, ok_bind, if_neg hNotNext]
      exact ih hRest (fun hMem => hAbsent (List.mem_cons_of_mem _ hMem))
        (Nat.lt_of_succ_lt_succ hFuel)

/-- The node `a` is taken out from behind `b` and freed. -/
theorem unlink_present (h : Segment list.heap p (before ++ b :: a :: after) none)
    (hFuel : before.length < fuel) :
    unlink list (some a) fuel p = .ok (retSuccess, { list with
      heap := Function.update (Function.update list.heap b (some after.head?)) a none }) := by
  induction before generalizing p fuel with
  | nil =>
      obtain ⟨fuel, rfl⟩ := Nat.exists_eq_succ_of_ne_zero (Nat.ne_of_gt hFuel)
      have hCells := h.isSome_of_mem (a := b) List.mem_cons_self
      have hNode := h.isSome_of_mem (a := a) (List.mem_cons_of_mem _ List.mem_cons_self)
      obtain ⟨rfl, hLink, hRest⟩ := link_cons h
      obtain ⟨-, hAfter, -⟩ := link_cons hRest
      rw [unlink, hLink, ok_bind, List.head?_cons, if_pos rfl, hAfter, ok_bind,
        Heap.setLink_eq hCells, ok_bind, Heap.free_eq]
      · rfl
      · rw [Heap.isSome_update hCells]
        exact hNode
  | cons x before ih =>
      obtain ⟨fuel, rfl⟩ := Nat.exists_eq_succ_of_ne_zero (Nat.ne_of_gt (Nat.zero_lt_of_lt hFuel))
      rw [List.cons_append] at h
      obtain ⟨rfl, hLink, hRest⟩ := link_cons h
      have hNotNext : (before ++ b :: a :: after).head? ≠ some a := by
        have hNodup := hRest.nodup
        intro hNext
        cases before with
        | nil =>
            obtain rfl : b = a := Option.some.inj hNext
            exact (List.nodup_cons.mp hNodup).1 List.mem_cons_self
        | cons y before =>
            obtain rfl : y = a := Option.some.inj hNext
            apply (List.nodup_cons.mp hNodup).1
            exact List.mem_append_right before (List.mem_cons_of_mem b List.mem_cons_self)
      rw [unlink, hLink, ok_bind, if_neg hNotNext]
      exact ih hRest (Nat.lt_of_succ_lt_succ hFuel)

end Unlink

/-- What a call did: the list stands for `ys`, the tail pointer has this value,
and of the cells those of `gone` were freed. -/
structure Leaves (list t : SllLinkList α) (ys : List α) (tail : Option α) (gone : List α) :
    Prop where
  represents : t.Represents ys
  tail : t.tail = tail
  cells : ∀ b, (t.heap b).isSome ↔ (list.heap b).isSome ∧ b ∉ gone

/-- Freeing a cell leaves the others. -/
theorem freed_iff (heap : Heap α) (a b : α) :
    (Function.update heap a none b).isSome ↔ (heap b).isSome ∧ b ∉ [a] := by
  rcases eq_or_ne b a with rfl | hOther
  · simp
  · simp [hOther]

section Calls
variable {list : SllLinkList α} {xs ys : List α} {a : α} {fuel : Nat}

theorem provide_represents (h : list.Represents xs) (hFresh : a ∉ xs) (link : Option α) :
    (list.provide a link).Represents xs := h.update hFresh _

theorem provide_cell (link : Option α) : ((list.provide a link).heap a).isSome := by
  change (Function.update list.heap a _ a).isSome
  rw [Function.update_self]
  rfl

theorem insertAtHead_spec (h : list.Represents xs) (hFresh : a ∉ xs)
    (hCell : (list.heap a).isSome) :
    ∃ t, insertAtHead list (some a) = .ok (retSuccess, t) ∧
      Leaves list t (a :: xs) (if list.tail.isNone then some a else list.tail) [] := by
  have hCall : insertAtHead list (some a) = .ok (retSuccess, ⟨some a,
      if list.tail.isNone then some a else list.tail,
      Function.update list.heap a (some list.head)⟩) := by
    rw [insertAtHead, Heap.setLink_eq hCell]
    rfl
  refine ⟨_, hCall, ?_, rfl, ?_⟩
  · exact .cons (Function.update_self a _ _) (h.update hFresh _)
  · intro b
    rw [Heap.isSome_update hCell]
    simp

theorem insertAtTail_nil_spec (h : list.Represents []) (hCell : (list.heap a).isSome) :
    ∃ t, insertAtTail fuel list (some a) = .ok (retSuccess, t) ∧ Leaves list t [a] (some a) [] := by
  have hHead : list.head = none := h.nil_inv
  have hCall : insertAtTail fuel list (some a) = .ok (retSuccess,
      ⟨some a, some a, Function.update list.heap a (some none)⟩) := by
    rw [insertAtTail, hHead, Heap.setLink_eq hCell]
    rfl
  refine ⟨_, hCall, ?_, rfl, ?_⟩
  · exact .cons (Function.update_self a _ _) (.nil none)
  · intro b
    rw [Heap.isSome_update hCell]
    simp

theorem insertAtTail_concat_spec {z : α} (h : list.Represents (ys ++ [z]))
    (hFresh : a ∉ ys ++ [z]) (hCell : (list.heap a).isSome) (hFuel : ys.length < fuel) :
    ∃ t, insertAtTail fuel list (some a) = .ok (retSuccess, t) ∧
      Leaves list t (ys ++ [z, a]) list.tail [] := by
  have hLast := h.isSome_of_mem (a := z) List.mem_concat_self
  have hOther : z ≠ a := ne_of_mem_of_not_mem List.mem_concat_self hFresh
  have hNew : (Function.update list.heap z (some (some a)) a).isSome := by
    rw [Heap.isSome_update hLast]
    exact hCell
  obtain ⟨c, hHead⟩ := h.exists_head (List.append_ne_nil_of_right_ne_nil ys (List.cons_ne_nil z []))
  have hLoop := lastNode_eq h hFuel
  have hCall : insertAtTail fuel list (some a) = .ok (retSuccess, { list with
      heap := Function.update (Function.update list.heap z (some (some a))) a (some none) }) := by
    unfold insertAtTail
    rw [hHead] at hLoop ⊢
    dsimp only
    rw [hLoop, ok_bind, Heap.setLink_eq hLast, ok_bind, Heap.setLink_eq hNew]
    rfl
  refine ⟨_, hCall, ?_, rfl, ?_⟩
  · apply h.insert_after hFresh
    · exact (Function.update_of_ne hOther _ _).trans (Function.update_self z _ _)
    · exact Function.update_self a _ _
    · intro b hz ha
      exact (Function.update_of_ne ha _ _).trans (Function.update_of_ne hz _ _)
  · intro b
    rw [Heap.isSome_update hNew, Heap.isSome_update hLast]
    simp

theorem insertAtTail_spec (h : list.Represents xs) (hFresh : a ∉ xs)
    (hCell : (list.heap a).isSome) (hFuel : xs.length ≤ fuel) :
    ∃ t, insertAtTail fuel list (some a) = .ok (retSuccess, t) ∧
      Leaves list t (xs ++ [a]) (if xs = [] then some a else list.tail) [] := by
  rcases List.eq_nil_or_concat' xs with rfl | ⟨ys, z, rfl⟩
  · exact insertAtTail_nil_spec h hCell
  · rw [List.length_append, List.length_singleton] at hFuel
    rw [if_neg (List.concat_ne_nil z ys), List.append_assoc]
    exact insertAtTail_concat_spec h hFresh hCell hFuel

/-- The node is put behind the one in front of position `index`, or behind the
first one. -/
theorem insertAtIndex_spec {z : α} {ws : List α} {index : Int}
    (h : list.Represents (ys ++ z :: ws)) (hFresh : a ∉ ys ++ z :: ws)
    (hCell : (list.heap a).isSome) (hIndex : (index - 1).toNat = ys.length) :
    ∃ t, insertAtIndex list (some a) index = .ok (retSuccess, t) ∧
      Leaves list t (ys ++ z :: a :: ws) list.tail [] := by
  have hMem : z ∈ ys ++ z :: ws := List.mem_append_cons_self
  have hPrevious := h.isSome_of_mem hMem
  have hOther : z ≠ a := ne_of_mem_of_not_mem hMem hFresh
  have hNew : (Function.update list.heap a (some ws.head?) z).isSome := by
    rw [Heap.isSome_update hCell]
    exact hPrevious
  obtain ⟨c, hHead⟩ := h.exists_head (List.append_ne_nil_of_right_ne_nil ys (List.cons_ne_nil z ws))
  obtain ⟨-, next, hNext, hRest⟩ := h.split_cons
  obtain rfl := hRest.head_eq
  have hLoop := walk_eq h (index - 1).toNat
  rw [hIndex, List.getElem?_append_right (Nat.le_refl _), Nat.sub_self] at hLoop
  have hCall : insertAtIndex list (some a) index = .ok (retSuccess, { list with
      heap := Function.update (Function.update list.heap a (some ws.head?)) z
        (some (some a)) }) := by
    unfold insertAtIndex
    rw [hIndex]
    rw [hHead] at hLoop ⊢
    dsimp only
    rw [hLoop]
    change (list.heap.link (some z) >>= _) = _
    rw [Heap.link_eq hNext, ok_bind, Heap.setLink_eq hCell, ok_bind, Heap.setLink_eq hNew]
    rfl
  refine ⟨_, hCall, ?_, rfl, ?_⟩
  · apply h.insert_after hFresh
    · exact Function.update_self z _ _
    · exact (Function.update_of_ne hOther.symm _ _).trans (Function.update_self a _ _)
    · intro b hz ha
      exact (Function.update_of_ne hz _ _).trans (Function.update_of_ne ha _ _)
  · intro b
    rw [Heap.isSome_update hNew, Heap.isSome_update hCell]
    simp

/-- Behind the end of the list nothing is inserted. -/
theorem insertAtIndex_beyond {index : Int} (h : list.Represents xs) (hNonempty : xs ≠ [])
    (hIndex : xs.length ≤ (index - 1).toNat) (node : Option α) :
    insertAtIndex list node index = .ok (retSuccess, list) := by
  obtain ⟨c, hHead⟩ := h.exists_head hNonempty
  have hLoop := walk_eq h (index - 1).toNat
  rw [List.getElem?_eq_none hIndex] at hLoop
  unfold insertAtIndex
  rw [hHead] at hLoop ⊢
  dsimp only
  rw [hLoop]
  rfl

theorem headRemove_spec (h : list.Represents (a :: xs)) :
    ∃ t, headRemove list = .ok (retSuccess, t) ∧ Leaves list t xs list.tail [a] := by
  have hFirst := (List.nodup_cons.mp h.nodup).1
  have hCell := h.isSome_of_mem (a := a) List.mem_cons_self
  obtain ⟨hHead, hLink, hRest⟩ := link_cons h
  have hCall : headRemove list = .ok (retSuccess, ⟨xs.head?, list.tail,
      Function.update list.heap a none⟩) := by
    unfold headRemove
    rw [hHead]
    dsimp only
    rw [hLink, ok_bind, Heap.free_eq hCell]
    rfl
  refine ⟨_, hCall, hRest.update hFirst _, rfl, ?_⟩
  exact freed_iff list.heap a

/-- The node in front of the last one is now the last one. -/
theorem tailRemove_spec {y z : α} (h : list.Represents (ys ++ [y, z]))
    (hFuel : ys.length + 1 < fuel) :
    ∃ t, tailRemove fuel list = .ok (retSuccess, t) ∧
      Leaves list t (ys ++ [y]) list.tail [z] := by
  have hNodup := (List.nodup_append.mp h.nodup).2.1
  have hOther : y ≠ z := fun hSame => (List.nodup_cons.mp hNodup).1 (hSame ▸ List.mem_cons_self)
  have hPrevious := h.isSome_of_mem (a := y) (List.mem_append_right ys List.mem_cons_self)
  have hLast := h.isSome_of_mem (a := z)
    (List.mem_append_right ys (List.mem_cons_of_mem y List.mem_cons_self))
  have hFreed : (Function.update list.heap y (some none) z).isSome := by
    rw [Heap.isSome_update hPrevious]
    exact hLast
  obtain ⟨c, hHead⟩ :=
    h.exists_head (List.append_ne_nil_of_right_ne_nil ys (List.cons_ne_nil y [z]))
  have hLoop : lastTwo list.heap fuel none list.head = .ok (some y, some z) := by
    have hSplit : ys ++ [y, z] = (ys ++ [y]) ++ [z] := by
      rw [List.append_assoc, List.singleton_append]
    rw [SllLinkList.Represents, hSplit] at h
    rw [lastTwo_eq h (by rw [List.length_append, List.length_singleton]; exact hFuel) none,
      List.getLast?_concat, Option.some_or]
  have hCall : tailRemove fuel list = .ok (retSuccess, { list with
      heap := Function.update (Function.update list.heap y (some none)) z none }) := by
    unfold tailRemove
    rw [hHead] at hLoop ⊢
    dsimp only
    rw [hLoop, ok_bind, Heap.setLink_eq hPrevious, ok_bind, Heap.free_eq hFreed]
    rfl
  refine ⟨_, hCall, ?_, rfl, ?_⟩
  · apply h.remove_after
    · exact (Function.update_of_ne hOther _ _).trans (Function.update_self y _ _)
    · intro b hy hz
      exact (Function.update_of_ne hz _ _).trans (Function.update_of_ne hy _ _)
  · intro b
    rw [freed_iff, Heap.isSome_update hPrevious]

/-- The only node of a list is freed, but nothing is in front of it. -/
theorem tailRemove_single (h : list.Represents [a]) (hFuel : 0 < fuel) :
    tailRemove fuel list = .error .null := by
  have hLoop : lastTwo list.heap fuel none list.head = .ok (none, some a) := by
    rw [← List.nil_append [a]] at h
    exact lastTwo_eq h hFuel none
  obtain ⟨hHead, -, -⟩ := link_cons h
  unfold tailRemove
  rw [hHead] at hLoop ⊢
  dsimp only
  rw [hLoop, ok_bind]
  rfl

/-- A node is taken out by one of three functions: the one for the head, the
one for the tail, and the loop for the nodes in between. -/
theorem nodeRemove_eq (h : list.Represents xs) (hNonempty : xs ≠ []) (hFuel : xs.length ≤ fuel)
    (node : Option α) :
    nodeRemove fuel list node =
      if node = xs.head? then headRemove list >>= fun r => .ok (retSuccess, r.2)
      else if node = xs.getLast? then tailRemove fuel list >>= fun r => .ok (retSuccess, r.2)
      else unlink list node fuel list.head := by
  obtain ⟨c, hHead⟩ := h.exists_head hNonempty
  have hTail := getTail_eq h hFuel
  have hFirst : some c = xs.head? := hHead.symm.trans h.head_eq
  unfold nodeRemove
  rw [hTail, ← hFirst, hHead]
  rfl

theorem nodeRemove_spec (h : list.Represents xs) (hMem : a ∈ xs) (hFuel : xs.length < fuel) :
    ∃ t, nodeRemove fuel list (some a) = .ok (retSuccess, t) ∧
      Leaves list t (xs.erase a) list.tail [a] := by
  have hCall := nodeRemove_eq h (List.ne_nil_of_mem hMem) (Nat.le_of_lt hFuel) (some a)
  obtain ⟨ys, ws, rfl⟩ := List.append_of_mem hMem
  have hOther := (List.nodup_cons.mp (List.nodup_middle.mp h.nodup)).1
  have hErase : (ys ++ a :: ws).erase a = ys ++ ws := by
    rw [List.erase_append_right _ fun hIn => hOther (List.mem_append_left ws hIn),
      List.erase_cons_head]
  rw [hErase]
  rcases List.eq_nil_or_concat' ys with rfl | ⟨ys, y, rfl⟩
  · obtain ⟨t, hRemoved, hLeaves⟩ := headRemove_spec h
    refine ⟨t, ?_, hLeaves⟩
    rw [hCall, List.nil_append, List.head?_cons, if_pos rfl, hRemoved]
    rfl
  · have hNotHead : some a ≠ (ys ++ [y] ++ a :: ws).head? := by
      rw [List.head?_append_of_ne_nil _ (List.concat_ne_nil y ys)]
      exact fun hHead => hOther (List.mem_append_left ws (List.mem_of_head? hHead.symm))
    rw [if_neg hNotHead] at hCall
    rcases List.eq_nil_or_concat' ws with rfl | ⟨ws, w, rfl⟩
    · rw [List.append_assoc, List.singleton_append] at h
      have hRoom : ys.length + 1 < fuel := by
        simp only [List.length_append, List.length_cons, List.length_nil] at hFuel
        omega
      obtain ⟨t, hRemoved, hLeaves⟩ := tailRemove_spec h hRoom
      refine ⟨t, ?_, ?_⟩
      · rw [hCall, List.getLast?_concat, if_pos rfl, hRemoved]
        rfl
      · rw [List.append_nil]
        exact hLeaves
    · have hNotTail : some a ≠ (ys ++ [y] ++ a :: (ws ++ [w])).getLast? := by
        rw [← List.cons_append, ← List.append_assoc, List.getLast?_concat]
        intro hLast
        rw [Option.some.inj hLast] at hOther
        exact hOther (List.mem_append_right _ List.mem_concat_self)
      rw [if_neg hNotTail] at hCall
      rw [List.append_assoc, List.singleton_append] at h
      have hPrevious := h.isSome_of_mem (a := y) List.mem_append_cons_self
      have hNeighbour : y ≠ a :=
        ne_of_mem_of_not_mem (List.mem_append_left _ List.mem_concat_self) hOther
      have hRoom : ys.length < fuel := by
        simp only [List.length_append, List.length_cons] at hFuel
        omega
      refine ⟨_, hCall.trans (unlink_present h hRoom), ?_, rfl, ?_⟩
      · rw [List.append_assoc, List.singleton_append]
        apply h.remove_after
        · exact (Function.update_of_ne hNeighbour _ _).trans (Function.update_self y _ _)
        · intro b hy ha
          exact (Function.update_of_ne ha _ _).trans (Function.update_of_ne hy _ _)
      · intro b
        rw [freed_iff, Heap.isSome_update hPrevious]

theorem nodeRemove_absent (h : list.Represents xs) (hNonempty : xs ≠ []) (hAbsent : a ∉ xs)
    (hFuel : xs.length < fuel) :
    nodeRemove fuel list (some a) = .ok (retError, list) := by
  rw [nodeRemove_eq h hNonempty (Nat.le_of_lt hFuel)]
  rw [if_neg fun hHead => hAbsent (List.mem_of_head? hHead.symm),
    if_neg fun hLast => hAbsent (List.mem_of_getLast? hLast.symm)]
  exact unlink_absent h hAbsent hFuel

end Calls

end TelnetDebug.Sll

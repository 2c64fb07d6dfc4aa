import TelnetDebug.Lists.ListRun

/-! Emptying a list from its tail, and destroying it. The removal of the tail
works as long as there is a node in front of the last one; the loop that frees
the nodes ends after its first turn. -/
namespace TelnetDebug.Sll

open Linked Guarded

variable {α : Type} [DecidableEq α]

/-- After `count` calls of `sll_link_list_tail_remove` the list has lost its
last `count` nodes, and these are the cells that were freed. -/
def TailsRemoved (fuel : Nat) (list : SllLinkList α) (xs : List α) (count : Nat) : Prop :=
  ∃ t, run (ListOp.step fuel) list (List.replicate count .tailRemove) = .ok t ∧
    t.Represents (xs.take (xs.length - count)) ∧
    ∀ b, (t.heap b).isSome ↔ (list.heap b).isSome ∧ b ∉ xs.drop (xs.length - count)

/-- The nodes are freed from the last to the first, one in each call. -/
def Drains (fuel : Nat) (list : SllLinkList α) (xs : List α) : Prop :=
  ∀ count ≤ xs.length, TailsRemoved fuel list xs count

/-- Every node is freed once, and the header after them. -/
def Destroys (fuel : Nat) (list : SllLinkList α) (xs : List α) : Prop :=
  ∃ (order : List α) (heap : Heap α),
    destory fuel list = .ok (order.map .node ++ [.header], heap) ∧ order.Perm xs

section Drain
variable {list : SllLinkList α} {xs : List α} {fuel count : Nat}

/-- One more call, while a node stays in front of the last one. -/
theorem TailsRemoved.succ (h : TailsRemoved fuel list xs count) (hMore : count + 1 < xs.length)
    (hFuel : xs.length < fuel) : TailsRemoved fuel list xs (count + 1) := by
  obtain ⟨t, hRun, hList, hCells⟩ := h
  obtain ⟨kept, hKept⟩ : ∃ kept, xs.length - count = kept + 2 :=
    ⟨xs.length - count - 2, by omega⟩
  have hLast : kept + 1 < xs.length := by omega
  have hNext : xs.length - (count + 1) = kept + 1 := by omega
  have hTwo : xs.take (kept + 2) = xs.take kept ++ [xs[kept], xs[kept + 1]] := by
    rw [List.take_succ_eq_append_getElem hLast,
      List.take_succ_eq_append_getElem (Nat.lt_of_succ_lt hLast), List.append_assoc]
    rfl
  rw [hKept, hTwo] at hList
  have hRoom : (xs.take kept).length + 1 < fuel := by
    rw [List.length_take]
    omega
  obtain ⟨u, hCall, hLeaves⟩ := tailRemove_spec hList hRoom
  refine ⟨u, ?_, ?_, ?_⟩
  · have hStep : ListOp.step fuel t .tailRemove = .ok u := bind_eq_ok.mpr ⟨_, hCall, rfl⟩
    rw [List.replicate_succ', run_append, hRun, ok_bind, run_cons, hStep]
    rfl
  · rw [hNext, List.take_succ_eq_append_getElem (Nat.lt_of_succ_lt hLast)]
    exact hLeaves.represents
  · intro b
    rw [hLeaves.cells, hCells, hKept, hNext, List.drop_eq_getElem_cons hLast, List.mem_singleton,
      List.mem_cons, not_or, and_assoc, and_comm (a := b ∉ _)]

/-- All nodes but the first are removed as they should be. -/
theorem tailsRemoved (h : list.Represents xs) (hFuel : xs.length < fuel)
    (hCount : count < xs.length) : TailsRemoved fuel list xs count := by
  induction count with
  | zero =>
      refine ⟨list, rfl, ?_, ?_⟩
      · rw [Nat.sub_zero, List.take_length]
        exact h
      · intro b
        rw [Nat.sub_zero, List.drop_length]
        simp
  | succ count ih => exact (ih (Nat.lt_of_succ_lt hCount)).succ hCount hFuel

/-- The call that is to remove the first node follows a null pointer. -/
theorem drain_faults {a : α} (h : list.Represents (a :: xs)) (hFuel : xs.length + 1 < fuel) :
    run (ListOp.step fuel) list (List.replicate (xs.length + 1) .tailRemove) = .error .null := by
  obtain ⟨t, hRun, hList, -⟩ := tailsRemoved h hFuel (Nat.lt_succ_self xs.length)
  rw [List.length_cons, Nat.add_sub_cancel_left, List.take_succ_cons, List.take_zero] at hList
  have hStep : ListOp.step fuel t .tailRemove = .error .null := by
    change (tailRemove fuel t >>= _) = _
    rw [tailRemove_single hList (Nat.zero_lt_of_lt hFuel)]
    rfl
  rw [List.replicate_succ', run_append, hRun, ok_bind, run_cons, hStep]
  rfl

/-- Only the second node is freed, when there is one. -/
theorem destory_eq {a : α} (h : list.Represents (a :: xs)) (hFuel : xs.length + 1 < fuel) :
    ∃ heap, destory fuel list = .ok (xs.head?.toList.map .node ++ [.header], heap) := by
  obtain ⟨fuel, rfl⟩ : ∃ turns, fuel = turns + 2 := ⟨fuel - 2, by omega⟩
  obtain ⟨hHead, hLink, hRest⟩ := link_cons h
  obtain ⟨heap, hFree⟩ : ∃ heap, list.heap.free xs.head? = .ok heap := by
    cases xs with
    | nil => exact ⟨_, rfl⟩
    | cons b xs => exact ⟨_, Heap.free_eq (hRest.isSome_of_mem List.mem_cons_self)⟩
  refine ⟨heap, ?_⟩
  unfold destory
  rw [hHead]
  dsimp only
  rw [destoryLoop, hLink, ok_bind, hFree]
  change Except.ok ((xs.head?.toList.map Freed.node ++ []) ++ [Freed.header], heap) = _
  rw [List.append_nil]

end Drain

/-- No list with a node is emptied from its tail, or destroyed, as it should be:
the first node is not removed, and at most one node is freed. -/
theorem release_never {list : SllLinkList α} {xs : List α} {fuel : Nat}
    (h : list.Represents xs) (hNonempty : xs ≠ []) (hFuel : xs.length < fuel) :
    ¬ Drains fuel list xs ∧ ¬ Destroys fuel list xs := by
  obtain ⟨a, rest, rfl⟩ := List.exists_cons_of_ne_nil hNonempty
  constructor
  · intro hDrains
    obtain ⟨t, hRun, -⟩ := hDrains (rest.length + 1) (Nat.le_refl _)
    rw [drain_faults h hFuel] at hRun
    cases hRun
  · rintro ⟨order, heap, hCall, hPerm⟩
    obtain ⟨left, hFreed⟩ := destory_eq h hFuel
    rw [hFreed] at hCall
    have hLists := List.append_cancel_right (congrArg Prod.fst (Except.ok.inj hCall))
    have hLength := congrArg List.length hLists
    rw [List.length_map, List.length_map, hPerm.length_eq] at hLength
    cases rest with
    | nil => cases hLength
    | cons b rest => cases hLength

theorem release_never_two :
    ¬ Drains 3 (.numbered 2) [1, 2] ∧ ¬ Destroys 3 (.numbered 2) [1, 2] := by
  have hList : (SllLinkList.numbered 2).Represents [1, 2] := .cons rfl (.cons rfl (.nil none))
  exact release_never hList (List.cons_ne_nil 1 [2]) (Nat.lt_succ_self 2)

/-- Of three nodes the third removal faults, and only the second node is freed. -/
theorem release_three :
    (SllLinkList.numbered 3).Represents [1, 2, 3] ∧
    ¬ Drains 4 (.numbered 3) [1, 2, 3] ∧ ¬ Destroys 4 (.numbered 3) [1, 2, 3] := by
  refine ⟨.cons rfl (.cons rfl (.cons rfl (.nil none))), fun hDrains => ?_, ?_⟩
  · obtain ⟨t, hRun, -⟩ := hDrains 3 (Nat.le_refl 3)
    have hNull : run (ListOp.step 4) (.numbered 3) (List.replicate 3 .tailRemove) =
      .error .null := rfl
    rw [hNull] at hRun
    cases hRun
  · rintro ⟨order, heap, hCall, hPerm⟩
    obtain ⟨left, hFreed⟩ : ∃ left, destory 4 (.numbered 3) = .ok ([.node 2, .header], left) :=
      ⟨_, rfl⟩
    rw [hFreed] at hCall
    have hLength := congrArg (fun r => r.1.length) (Except.ok.inj hCall)
    simp [hPerm.length_eq] at hLength

end TelnetDebug.Sll

import TelnetDebug.Log.Registration
import Mathlib.Data.List.Perm.Basic

/-! Reading a list by index, one node after the other. Past the first index a
call goes two links too far, and stays at the last node. -/
namespace TelnetDebug.Log

open Linked Guarded Sll

variable {α : Type}

/-- The nodes that turns of a loop over the index read, from index `i` on. -/
def enumerate (list : SllLinkList α) (i turns : Nat) : Except Fault (List (Option α)) :=
  (List.range' i turns).mapM fun (j : Nat) => getIndex list j

/-- What callers expect of an index: each one is the position of its node, and
going through them meets every node once. -/
structure IndexedInOrder (list : SllLinkList α) (xs : List α) : Prop where
  access : ∀ i, 1 ≤ i → i ≤ xs.length → getIndex list i = .ok xs[i - 1]?
  enumeration : ∃ ys : List α, enumerate list 1 xs.length = .ok (ys.map some) ∧ ys.Perm xs

section Index
variable {list : SllLinkList α} {xs : List α} {i turns : Nat}

/-- Only the first and the last index lead to their nodes. -/
theorem visited_eq_iff (hNodup : xs.Nodup) (hPos : 1 ≤ i) (hLength : i ≤ xs.length) :
    visited xs i = xs[i - 1]? ↔ i = 1 ∨ i = xs.length := by
  unfold visited
  by_cases hFirst : i = 1
  · rw [if_pos hFirst, hFirst, List.head?_eq_getElem?]
    exact iff_of_true rfl (.inl rfl)
  · rw [if_neg hFirst, List.getElem?_eq_getElem (by omega), List.getElem?_eq_getElem (by omega),
      Option.some.injEq, hNodup.getElem_inj_iff]
    omega

theorem getIndex_eq_iff (h : list.Represents xs) (hPos : 1 ≤ i) (hLength : i ≤ xs.length) :
    getIndex list i = .ok xs[i - 1]? ↔ i = 1 ∨ i = xs.length := by
  rw [getIndex_visited h hLength hPos, Except.ok.injEq]
  exact visited_eq_iff h.nodup hPos hLength

/-- Every turn reads a node of the list. -/
theorem enumerate_eq (h : list.Represents xs) (hPos : 1 ≤ i) (hEnd : i + turns ≤ xs.length + 1) :
    ∃ ys : List α, enumerate list i turns = .ok (ys.map some) ∧
      ys.map some = (List.range' i turns).map (visited xs) := by
  induction turns generalizing i with
  | zero => exact ⟨[], rfl, rfl⟩
  | succ turns ih =>
      obtain ⟨a, hVisited, -⟩ := visited_mem hPos (show i ≤ xs.length by omega)
      obtain ⟨ys, hRest, hNodes⟩ := ih (Nat.le_succ_of_le hPos) (by omega)
      refine ⟨a :: ys, ?_, ?_⟩
      · unfold enumerate at hRest ⊢
        rw [List.range'_succ, List.mapM_cons, getIndex_visited h (by omega) hPos, hVisited, ok_bind,
          hRest]
        rfl
      · rw [List.range'_succ, List.map_cons, List.map_cons, hNodes, hVisited]

/-- The search for a module goes through these nodes. -/
theorem searchFrom_enumerates {registry : Registry α} {moduleId : UInt32} {ys : List α}
    (h : registry.regList.Represents xs) (hPos : 1 ≤ i) (hEnd : i + turns ≤ xs.length + 1)
    (hNodes : ys.map some = (List.range' i turns).map (visited xs)) :
    searchFrom registry moduleId turns i =
      .ok (ys.find? fun node => (registry.regInfo node).moduleId = moduleId) := by
  induction turns generalizing i ys with
  | zero =>
      obtain rfl := List.map_eq_nil_iff.mp hNodes
      rfl
  | succ turns ih =>
      rw [List.range'_succ, List.map_cons] at hNodes
      obtain ⟨a, rest, rfl, hVisited, hRest⟩ := List.map_eq_cons_iff.mp hNodes
      obtain ⟨b, hSame, hMem⟩ := visited_mem hPos (show i ≤ xs.length by omega)
      obtain rfl := Option.some.inj (hVisited.trans hSame)
      rw [searchFrom, getIndex_visited h (by omega) hPos, hSame, ok_bind, infoAt_eq h hMem, ok_bind,
        ih (Nat.le_succ_of_le hPos) (by omega) hRest, List.find?_cons]
      by_cases hMatch : (registry.regInfo a).moduleId = moduleId
      · rw [if_pos hMatch, decide_eq_true hMatch]
        rfl
      · rw [if_neg hMatch, decide_eq_false hMatch]

/-- The second of three nodes or more is not met. -/
theorem enumerate_few {ys : List α} (h : list.Represents xs)
    (hNodes : enumerate list 1 xs.length = .ok (ys.map some)) (hPerm : ys.Perm xs) :
    xs.length ≤ 2 := by
  obtain ⟨zs, hSame, hVisited⟩ := enumerate_eq h (Nat.le_refl 1) (Nat.le_of_eq (Nat.add_comm ..))
  rw [hNodes, Except.ok.injEq] at hSame
  apply Nat.le_of_not_lt
  intro hMany
  have hMem : some xs[1] ∈ ys.map some :=
    List.mem_map_of_mem (hPerm.mem_iff.mpr (List.getElem_mem _))
  rw [hSame, hVisited, List.mem_map] at hMem
  obtain ⟨i, hRange, hSecond⟩ := hMem
  exact visited_ne_second h.nodup hMany (List.mem_range'_1.mp hRange).1 hSecond

/-- With at most two nodes each is met in its turn. -/
theorem map_visited_few (hFew : xs.length ≤ 2) :
    (List.range' 1 xs.length).map (visited xs) = xs.map some := by
  match xs, hFew with
  | [], _ => rfl
  | [_], _ => rfl
  | [_, _], _ => rfl

/-- What the search finds is the first node met that has the identifier. -/
theorem telLogSearchNode_enumerates {registry : Registry α} (h : registry.regList.Represents xs)
    (hNum : registry.listNum.toNat = xs.length) :
    ∃ ys : List α, enumerate registry.regList 1 registry.listNum.toNat = .ok (ys.map some) ∧
      ∀ moduleId, telLogSearchNode registry moduleId =
        .ok (ys.find? fun node => (registry.regInfo node).moduleId = moduleId) := by
  have hEnd : 1 + registry.listNum.toNat ≤ xs.length + 1 := by omega
  obtain ⟨ys, hNodes, hVisited⟩ := enumerate_eq h (Nat.le_refl 1) hEnd
  exact ⟨ys, hNodes, fun _ => searchFrom_enumerates h (Nat.le_refl 1) hEnd hVisited⟩

/-- The nodes that an index leads to. Those at positions 2 and 3 are passed over,
unless they are the last. -/
theorem visited_position_iff (hNodup : xs.Nodup) {k : Nat} (hInside : k < xs.length) :
    (∃ i, 1 ≤ i ∧ i ≤ xs.length ∧ visited xs i = some xs[k]) ↔
      k = 0 ∨ k + 1 = xs.length ∨ 3 ≤ k := by
  have hVisited (i : Nat) (hPos : 1 ≤ i) : visited xs i = some xs[k] ↔
      if i = 1 then k = 0 else min (i + 1) (xs.length - 1) = k := by
    unfold visited
    split
    · rw [List.head?_eq_getElem?, List.getElem?_eq_getElem (by omega), Option.some.injEq,
        hNodup.getElem_inj_iff, eq_comm]
    · rw [List.getElem?_eq_getElem (by omega), Option.some.injEq, hNodup.getElem_inj_iff]
  constructor
  · rintro ⟨i, hPos, hLast, hNode⟩
    rw [hVisited i hPos] at hNode
    split at hNode <;> omega
  · intro hPlace
    -- Index `k - 1` leads to a node behind the third one, the last index to the last node.
    refine ⟨if k = 0 then 1 else if 3 ≤ k then k - 1 else xs.length, ?_, ?_, ?_⟩
    · split_ifs <;> omega
    · split_ifs <;> omega
    · rw [hVisited _ (by split_ifs <;> omega)]
      split_ifs <;> omega

/-- The modules that the search can find. -/
theorem telLogSearchNode_finds_iff {registry : Registry α} (h : registry.regList.Represents xs)
    (hNum : registry.listNum.toNat = xs.length)
    (hIds : (xs.map fun node => (registry.regInfo node).moduleId).Nodup) {k : Nat}
    (hInside : k < xs.length) :
    telLogSearchNode registry (registry.regInfo xs[k]).moduleId = .ok (some xs[k]) ↔
      k = 0 ∨ k + 1 = xs.length ∨ 3 ≤ k := by
  obtain ⟨ys, -, hVisited⟩ := enumerate_eq h (Nat.le_refl 1) (Nat.le_of_eq (Nat.add_comm ..))
  have hMet (a : α) : a ∈ ys ↔ ∃ i, 1 ≤ i ∧ i ≤ xs.length ∧ visited xs i = some a := by
    rw [← List.mem_map_of_injective (Option.some_injective α), hVisited, List.mem_map]
    refine exists_congr fun i => ?_
    rw [List.mem_range'_1, ← and_assoc, Nat.add_comm, Nat.lt_succ_iff]
  unfold telLogSearchNode
  rw [hNum, searchFrom_enumerates h (Nat.le_refl 1) (Nat.le_of_eq (Nat.add_comm ..)) hVisited,
    Except.ok.injEq, ← visited_position_iff h.nodup hInside, ← hMet]
  constructor
  · exact List.mem_of_find?_eq_some
  · intro hMem
    obtain ⟨a, hFind⟩ : ∃ a, ys.find? (fun node =>
        (registry.regInfo node).moduleId = (registry.regInfo xs[k]).moduleId) = some a :=
      Option.isSome_iff_exists.mp (List.find?_isSome.mpr ⟨xs[k], hMem, decide_eq_true rfl⟩)
    have hSame : (registry.regInfo a).moduleId = (registry.regInfo xs[k]).moduleId := by
      simpa using List.find?_some hFind
    obtain ⟨i, hPos, hLast, hNode⟩ := (hMet a).mp (List.mem_of_find?_eq_some hFind)
    obtain ⟨b, hb, hMemList⟩ := visited_mem hPos hLast
    obtain rfl := Option.some.inj (hNode.symm.trans hb)
    rw [hFind, List.inj_on_of_nodup_map hIds hMemList (List.getElem_mem hInside) hSame]

end Index

/-- An index leads to its node if and only if it is the first or the last one,
so that a list is read as it should be if and only if it has at most two nodes. -/
theorem indexed_in_order_iff {list : SllLinkList α} {xs : List α} (h : list.Represents xs) :
    (∀ i, 1 ≤ i → i ≤ xs.length →
      (getIndex list i = .ok xs[i - 1]? ↔ i = 1 ∨ i = xs.length)) ∧
    (IndexedInOrder list xs ↔ xs.length ≤ 2) := by
  refine ⟨fun i => getIndex_eq_iff h, ?_, fun hFew => ⟨?_, ?_⟩⟩
  · rintro ⟨-, ys, hNodes, hPerm⟩
    exact enumerate_few h hNodes hPerm
  · intro i hPos hLength
    apply (getIndex_eq_iff h hPos hLength).mpr
    omega
  · obtain ⟨ys, hNodes, hVisited⟩ :=
      enumerate_eq h (Nat.le_refl 1) (Nat.le_of_eq (Nat.add_comm ..))
    rw [map_visited_few hFew] at hVisited
    obtain rfl := List.map_injective_iff.mpr (Option.some_injective α) hVisited
    exact ⟨ys, hNodes, .refl ys⟩

/-- The two indices of two nodes. -/
theorem indexed_in_order_two : IndexedInOrder (.numbered 2) [1, 2] := by
  have hList : (SllLinkList.numbered 2).Represents [1, 2] := .cons rfl (.cons rfl (.nil none))
  exact (indexed_in_order_iff hList).2.mpr (Nat.le_refl 2)

/-- Of three nodes the index 2 leads to the last one. -/
theorem indexed_in_order_three :
    (SllLinkList.numbered 3).Represents [1, 2, 3] ∧
    getIndex (.numbered 3) 2 = .ok (some 3) ∧ ¬ IndexedInOrder (.numbered 3) [1, 2, 3] := by
  have hIndex : getIndex (.numbered 3) 2 = .ok (some 3) := rfl
  refine ⟨.cons rfl (.cons rfl (.cons rfl (.nil none))), hIndex, fun hOrder => ?_⟩
  have hSecond : getIndex (.numbered 3) 2 = .ok (some 2) :=
    hOrder.access 2 (Nat.le_succ 1) (Nat.le_succ 2)
  rw [hIndex] at hSecond
  cases hSecond

end TelnetDebug.Log

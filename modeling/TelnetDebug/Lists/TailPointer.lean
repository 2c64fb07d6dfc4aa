import TelnetDebug.Lists.ListRun

/-! The tail pointer of a list. Only the insertions at the head and into an
empty list look after it, and it is not moved when another node becomes the last
one. -/
namespace TelnetDebug.Sll

open Linked Guarded

variable {α : Type} [DecidableEq α]

/-- The tail pointer is the last node of the chain from the head, and null when
there is no node. -/
def SllLinkList.TailValid (list : SllLinkList α) : Prop :=
  ∃ xs, list.Represents xs ∧ list.tail = xs.getLast?

/-- The call leaves the last node of the sequence alone: nothing is put behind
it, and it is not taken out. -/
def ListOp.KeepsLast (xs : List α) : ListOp α → Prop
  | insertAtHead _ _ => True
  | insertAtTail _ _ => xs = []
  | insertAtIndex _ _ index => (index - 1).toNat + 1 ≠ xs.length
  | headRemove => xs.length ≠ 1
  | tailRemove => False
  | nodeRemove node => xs.getLast? ≠ some node

instance (xs : List α) : (op : ListOp α) → Decidable (op.KeepsLast xs)
  | .insertAtHead _ _ => isTrue trivial
  | .insertAtTail _ _ => inferInstanceAs (Decidable (xs = []))
  | .insertAtIndex _ _ index => inferInstanceAs (Decidable ((index - 1).toNat + 1 ≠ xs.length))
  | .headRemove => inferInstanceAs (Decidable (xs.length ≠ 1))
  | .tailRemove => isFalse id
  | .nodeRemove node => inferInstanceAs (Decidable (xs.getLast? ≠ some node))

section Sequences
variable {α : Type} {xs : List α} {a : α}

theorem getLast?_insertIdx (k : Nat) (hFresh : a ∉ xs) :
    xs.getLast? = (xs.insertIdx (k + 1) a).getLast? ↔ k + 1 ≠ xs.length := by
  rcases Nat.lt_or_ge k xs.length with hInside | hBeyond
  · obtain ⟨ys, z, ws, rfl, rfl⟩ := split_at hInside
    rw [insertIdx_behind, List.length_append, List.length_cons]
    rcases List.eq_nil_or_concat' ws with rfl | ⟨ws, w, rfl⟩
    · have hOther : z ≠ a := ne_of_mem_of_not_mem List.mem_append_cons_self hFresh
      simp [hOther]
    · simp only [← List.cons_append, ← List.append_assoc, List.getLast?_concat, true_iff,
        List.length_append, List.length_singleton]
      omega
  · rw [List.insertIdx_of_length_lt (Nat.lt_succ_of_le hBeyond)]
    exact ⟨fun _ => Nat.ne_of_gt (Nat.lt_succ_of_le hBeyond), fun _ => rfl⟩

theorem getLast?_erase [DecidableEq α] (hNodup : xs.Nodup) :
    xs.getLast? = (xs.erase a).getLast? ↔ xs.getLast? ≠ some a := by
  by_cases hMem : a ∈ xs
  · obtain ⟨ys, ws, rfl⟩ := List.append_of_mem hMem
    have hOther := (List.nodup_cons.mp (List.nodup_middle.mp hNodup)).1
    rw [List.mem_append, not_or] at hOther
    rw [List.erase_append_right _ hOther.1, List.erase_cons_head]
    rcases List.eq_nil_or_concat' ws with rfl | ⟨ws, w, rfl⟩
    · rw [List.getLast?_concat, List.append_nil]
      constructor
      · intro hLast
        exact (hOther.1 (List.mem_of_getLast? hLast.symm)).elim
      · exact fun hLast => (hLast rfl).elim
    · have hLast : w ≠ a := ne_of_mem_of_not_mem List.mem_concat_self hOther.2
      simp only [← List.cons_append, ← List.append_assoc, List.getLast?_concat, true_iff]
      exact fun hSame => hLast (Option.some.inj hSame)
  · rw [List.erase_of_not_mem hMem]
    exact ⟨fun _ hLast => hMem (List.mem_of_getLast? hLast), fun _ => rfl⟩

theorem getLast?_tail (hNonempty : xs ≠ []) : xs.getLast? = xs.tail.getLast? ↔ xs.length ≠ 1 := by
  cases xs with
  | nil => exact (hNonempty rfl).elim
  | cons x xs =>
      cases xs with
      | nil => simp
      | cons y xs => simp

theorem getLast?_dropLast (hNodup : xs.Nodup) (hNonempty : xs ≠ []) :
    xs.getLast? ≠ xs.dropLast.getLast? := by
  rcases List.eq_nil_or_concat' xs with rfl | ⟨ys, z, rfl⟩
  · exact (hNonempty rfl).elim
  · rw [List.getLast?_concat, List.dropLast_concat]
    intro hLast
    have hMem := List.mem_of_getLast? hLast.symm
    exact (List.nodup_append.mp hNodup).2.2 z hMem z List.mem_cons_self rfl

end Sequences

section Step
variable {list : SllLinkList α} {xs : List α} {fuel : Nat}

/-- The tail pointer that a call leaves is the last node of the new sequence
when the call leaves the last node alone. -/
theorem tailAfter_iff (op : ListOp α) (hAllowed : op.Allowed xs) (hNodup : xs.Nodup) :
    op.tailAfter xs.getLast? xs = (op.apply xs).getLast? ↔ op.KeepsLast xs := by
  cases op with
  | insertAtHead node link =>
      rw [ListOp.tailAfter, ListOp.apply, List.getLast?_cons]
      cases xs.getLast? with
      | none => exact iff_true_intro rfl
      | some z => exact iff_true_intro rfl
  | insertAtTail node link =>
      rw [ListOp.tailAfter, ListOp.apply, List.getLast?_concat]
      change _ ↔ xs = []
      by_cases hEmpty : xs = []
      · rw [if_pos hEmpty]
        exact iff_of_true rfl hEmpty
      · rw [if_neg hEmpty]
        exact iff_of_false (fun hLast => hAllowed (List.mem_of_getLast? hLast)) hEmpty
  | insertAtIndex node link index => exact getLast?_insertIdx _ hAllowed.1
  | headRemove => exact getLast?_tail hAllowed
  | tailRemove => exact iff_of_false (getLast?_dropLast hNodup hAllowed) id
  | nodeRemove node => exact getLast?_erase hNodup

/-- A call keeps the tail pointer right if and only if it leaves the last node
alone. -/
theorem step_tailValid_iff (op : ListOp α) (h : list.Represents xs)
    (hLast : list.tail = xs.getLast?) (hAllowed : op.Allowed xs) (hFuel : xs.length < fuel) :
    (∃ t, op.step fuel list = .ok t ∧ t.TailValid) ↔ op.KeepsLast xs := by
  by_cases hSingle : op = .tailRemove ∧ xs.length = 1
  · obtain ⟨rfl, hLength⟩ := hSingle
    obtain ⟨a, rfl⟩ := List.length_eq_one_iff.mp hLength
    have hNull : ListOp.step fuel list .tailRemove = .error .null := by
      change (tailRemove fuel list >>= _) = _
      rw [tailRemove_single h (Nat.zero_lt_of_lt hFuel)]
      rfl
    rw [hNull]
    exact ⟨fun ⟨_, hStep, _⟩ => (nomatch hStep), False.elim⟩
  · have hTail : op = .tailRemove → xs.length ≠ 1 := fun hOp hLength => hSingle ⟨hOp, hLength⟩
    obtain ⟨t, hStep, hRepresents, hAfter⟩ := call_spec op h hAllowed hTail hFuel
    rw [hLast] at hAfter
    rw [← tailAfter_iff op hAllowed h.nodup, ← hAfter, hStep]
    constructor
    · rintro ⟨u, hSame, ys, hChain, hValid⟩
      obtain rfl := Except.ok.inj hSame
      rw [hValid, hChain.unique hRepresents]
    · exact fun hValid => ⟨t, rfl, _, hRepresents, hValid⟩

/-- The tail pointer is right after every call of a run if and only if each call
leaves the last node alone. -/
theorem run_tailValid_iff {ops : List (ListOp α)} (h : list.Represents xs)
    (hLast : list.tail = xs.getLast?) (hAllowed : ListOp.Along ListOp.Allowed xs ops)
    (hFuel : xs.length + ops.length < fuel) :
    (∀ taken, taken <+: ops → ∃ t, run (ListOp.step fuel) list taken = .ok t ∧ t.TailValid) ↔
      ListOp.Along ListOp.KeepsLast xs ops := by
  induction ops generalizing list xs with
  | nil =>
      refine ⟨fun _ => trivial, fun _ taken hPrefix => ?_⟩
      obtain rfl := List.prefix_nil.mp hPrefix
      exact ⟨list, rfl, xs, h, hLast⟩
  | cons op ops ih =>
      rw [List.length_cons] at hFuel
      have hShort : xs.length < fuel := by omega
      have hStep := step_tailValid_iff op h hLast hAllowed.1 hShort
      have hNext : ∀ t, op.step fuel list = .ok t → t.TailValid →
          t.Represents (op.apply xs) ∧ t.tail = (op.apply xs).getLast? := by
        intro t hCall hValid
        have hKeeps := hStep.mp ⟨t, hCall, hValid⟩
        have hTail : op = .tailRemove → xs.length ≠ 1 := by
          rintro rfl
          exact hKeeps.elim
        obtain ⟨u, hSame, hRepresents, -⟩ := call_spec op h hAllowed.1 hTail hShort
        obtain rfl := Except.ok.inj (hSame.symm.trans hCall)
        obtain ⟨ys, hChain, hLast⟩ := hValid
        rw [hChain.unique hRepresents] at hLast
        exact ⟨hRepresents, hLast⟩
      have hLength := length_apply op xs
      constructor
      · intro hEvery
        obtain ⟨t, hRun, hValid⟩ := hEvery [op] (List.prefix_append [op] ops)
        have hCall : op.step fuel list = .ok t := (bind_pure (op.step fuel list)).symm.trans hRun
        obtain ⟨hRepresents, hTail⟩ := hNext t hCall hValid
        refine ⟨hStep.mp ⟨t, hCall, hValid⟩, ?_⟩
        apply (ih hRepresents hTail hAllowed.2 (by omega)).mp
        intro taken hPrefix
        obtain ⟨u, hRest, hFinal⟩ :=
          hEvery (op :: taken) (List.cons_prefix_cons.mpr ⟨rfl, hPrefix⟩)
        rw [run_cons, hCall] at hRest
        exact ⟨u, hRest, hFinal⟩
      · rintro ⟨hKeeps, hRest⟩ taken hPrefix
        cases taken with
        | nil => exact ⟨list, rfl, xs, h, hLast⟩
        | cons first taken =>
            obtain ⟨rfl, hLater⟩ := List.cons_prefix_cons.mp hPrefix
            obtain ⟨t, hCall, hValid⟩ := hStep.mpr hKeeps
            obtain ⟨hRepresents, hTail⟩ := hNext t hCall hValid
            rw [run_cons, hCall]
            exact (ih hRepresents hTail hAllowed.2 (by omega)).mpr hRest taken hLater

end Step

/-- Along a run from the empty list the tail pointer is right after every call
if and only if each call leaves the last node alone, or puts a node at the head
or into an empty list. -/
theorem tail_pointer_valid_iff (heap : Heap α) {ops : List (ListOp α)}
    (hAllowed : ListOp.Along ListOp.Allowed [] ops) {fuel : Nat} (hFuel : ops.length < fuel) :
    (∀ taken, taken <+: ops →
        ∃ list, run (ListOp.step fuel) (.empty heap) taken = .ok list ∧ list.TailValid) ↔
      ListOp.Along ListOp.KeepsLast [] ops := by
  have hEmpty : (SllLinkList.empty heap).Represents [] := .nil none
  exact run_tailValid_iff hEmpty rfl hAllowed (by simpa using hFuel)

/-- Three nodes put at the head and one taken out of the middle. -/
theorem tail_pointer_valid_heads :
    ∃ list : SllLinkList Nat, run (ListOp.step 5) (.empty fun _ => none)
        [.insertAtHead 1 none, .insertAtHead 2 none, .insertAtHead 3 none, .nodeRemove 2] =
          .ok list ∧ list.TailValid :=
  (tail_pointer_valid_iff (fun _ => none) (by decide) (by decide)).mpr (by decide) _
    List.prefix_rfl

/-- The only node of a list is freed, and the tail pointer still leads to it
when the next node is put at the head. -/
theorem tail_pointer_dangles :
    ListOp.Along ListOp.Allowed [] [.insertAtHead 1 none, .nodeRemove (1 : Nat),
      .insertAtHead 2 none] ∧
    ¬ ∀ taken, taken <+: [.insertAtHead 1 none, .nodeRemove 1, .insertAtHead 2 none] →
      ∃ list : SllLinkList Nat,
        run (ListOp.step 4) (.empty fun _ => none) taken = .ok list ∧ list.TailValid := by
  refine ⟨by decide, fun hEvery => ?_⟩
  obtain ⟨list, hRun, xs, hList, hTail⟩ := hEvery _ List.prefix_rfl
  obtain rfl := Except.ok.inj hRun
  have hOne : xs = [2] := hList.unique (.cons rfl (.nil none))
  rw [hOne] at hTail
  cases hTail

end TelnetDebug.Sll

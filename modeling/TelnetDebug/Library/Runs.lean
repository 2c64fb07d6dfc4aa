import Mathlib.Data.List.SplitBy
import Mathlib.Data.List.Induction

/-! Collecting a list into nodes, one for each run of neighbours with the same
key. An element extends the last node when it has the key of that node, and
opens a new node otherwise. -/
namespace Runs

variable {α β κ : Type} [DecidableEq κ] (key : α → κ)

/-- The maximal runs of neighbours with the same key. -/
def runs (list : List α) : List (List α) := list.splitBy fun a b => key a = key b

theorem runs_flatten (list : List α) : (runs key list).flatten = list := List.flatten_splitBy ..

section Append
variable {key}

/-- All elements of a run have the key of its last element. -/
theorem key_of_mem_run {list run : List α} {a last : α} (hRun : run ∈ runs key list) (ha : a ∈ run)
    (hLast : last ∈ run.getLast?) : key a = key last := by
  have hChain : run.IsChain fun a b => key a = key b := by
    simpa using List.isChain_of_mem_splitBy hRun
  obtain ⟨init, rfl⟩ := List.getLast?_eq_some_iff.mp hLast
  have hTrans : Trans (fun a b : α => key a = key b) (fun a b => key a = key b)
      (fun a b => key a = key b) := ⟨fun h h' => h.trans h'⟩
  rcases List.mem_append.mp ha with ha | ha
  · exact (List.pairwise_append.mp (List.isChain_iff_pairwise.mp hChain)).2.2 a ha last
      (List.mem_singleton_self last)
  · rw [List.mem_singleton.mp ha]

theorem runs_concat_other {list : List α} {a : α} (h : ∀ last ∈ list.getLast?, key last ≠ key a) :
    runs key (list ++ [a]) = runs key list ++ [[a]] := by
  apply List.splitBy_append_cons
  intro last hLast
  exact decide_eq_false (h last hLast)

theorem runs_concat_same {list run : List α} {init : List (List α)} {last a : α}
    (hRuns : runs key list = init ++ [run]) (hLast : last ∈ run.getLast?)
    (hKey : key last = key a) : runs key (list ++ [a]) = init ++ [run ++ [a]] := by
  obtain ⟨hFlatten, hNonempty, hChains, hNeighbours⟩ := List.splitBy_eq_iff.mp hRuns
  have hRun : run ≠ [] := by
    rintro rfl
    cases hLast
  refine List.splitBy_eq_iff.mpr ⟨?_, ?_, ?_, ?_⟩
  · rw [hFlatten]
    simp
  · simp only [List.mem_append, List.mem_singleton, not_or] at hNonempty ⊢
    exact ⟨hNonempty.1, by simp⟩
  · intro other hOther
    rcases List.mem_append.mp hOther with hOther | hOther
    · exact hChains other (List.mem_append_left _ hOther)
    · rw [List.mem_singleton.mp hOther]
      refine List.isChain_append.mpr ⟨hChains run (by simp), by simp, fun b hb c hc => ?_⟩
      obtain rfl : last = b := Option.some.inj (hLast.symm.trans hb)
      obtain rfl : a = c := by simpa using hc
      simpa using hKey
  · obtain ⟨hInit, -, hEnd⟩ := List.isChain_append.mp hNeighbours
    refine List.isChain_append.mpr ⟨hInit, by simp, fun before hBefore next hNext => ?_⟩
    obtain rfl : run ++ [a] = next := by simpa using hNext
    obtain ⟨hSome, _, hDiffer⟩ := hEnd before hBefore run (by simp)
    refine ⟨hSome, by simp, ?_⟩
    rw [List.head_append_of_ne_nil hRun]
    exact hDiffer

end Append

variable (keyOf : β → κ) (single : α → β) (extend : β → α → β)

/-- Take one more element into the nodes. -/
def push (nodes : List β) (a : α) : List β :=
  match nodes.getLast? with
  | some tail =>
      if keyOf tail = key a then nodes.dropLast ++ [extend tail a] else nodes ++ [single a]
  | none => [single a]

/-- The node of a run: its first element, extended by the others. -/
def collect : List α → Option β
  | [] => none
  | a :: rest => some (rest.foldl extend (single a))

variable {key keyOf single extend}

theorem push_same {nodes : List β} {tail : β} {a : α} (h : keyOf tail = key a) :
    push key keyOf single extend (nodes ++ [tail]) a = nodes ++ [extend tail a] := by
  rw [push, List.getLast?_concat]
  simp only [if_pos h, List.dropLast_concat]

theorem push_other {nodes : List β} {tail : β} {a : α} (h : keyOf tail ≠ key a) :
    push key keyOf single extend (nodes ++ [tail]) a = nodes ++ [tail] ++ [single a] := by
  rw [push, List.getLast?_concat]
  simp only [if_neg h]

theorem collect_concat {run : List α} {node : β} (h : collect single extend run = some node)
    (a : α) : collect single extend (run ++ [a]) = some (extend node a) := by
  cases run with
  | nil => cases h
  | cons first rest =>
      cases h
      exact congrArg some (List.foldl_concat ..)

omit [DecidableEq κ] in
/-- A node has the key of the elements it was made of. -/
theorem collect_key (hSingle : ∀ a, keyOf (single a) = key a)
    (hExtend : ∀ b a, keyOf (extend b a) = keyOf b) {run : List α} {node : β}
    (h : collect single extend run = some node) : ∃ a ∈ run, keyOf node = key a := by
  cases run with
  | nil => cases h
  | cons first rest =>
      cases h
      have hRest (node : β) : keyOf (rest.foldl extend node) = keyOf node := by
        induction rest generalizing node with
        | nil => rfl
        | cons a rest ih => exact (ih (extend node a)).trans (hExtend node a)
      exact ⟨first, List.mem_cons_self, (hRest (single first)).trans (hSingle first)⟩

/-- The nodes are those of the maximal runs, in order. -/
theorem foldl_push (hSingle : ∀ a, keyOf (single a) = key a)
    (hExtend : ∀ b a, keyOf (extend b a) = keyOf b) (list : List α) :
    (list.foldl (push key keyOf single extend) []).map some =
      (runs key list).map (collect single extend) := by
  induction list using List.reverseRecOn with
  | nil => rfl
  | append_singleton list a ih =>
      rw [List.foldl_concat]
      rcases List.eq_nil_or_concat' (runs key list) with hNone | ⟨init, run, hRuns⟩
      · obtain rfl : list = [] := by
          rw [← runs_flatten key list, hNone]
          rfl
        rfl
      · rw [hRuns, List.map_append, List.map_singleton] at ih
        obtain ⟨nodes, last, hNodes, hInit, hLast⟩ := List.map_eq_append_iff.mp ih
        obtain ⟨tail, rfl, hTail⟩ := List.map_eq_singleton_iff.mp hLast
        obtain ⟨b, hb, hKey⟩ := collect_key hSingle hExtend hTail.symm
        have hRun : run ∈ runs key list :=
          hRuns ▸ List.mem_append_right _ (List.mem_singleton_self _)
        have hLastRun := List.getLast?_eq_some_getLast (List.ne_nil_of_mem hb)
        have hSame := (hKey.trans (key_of_mem_run hRun hb hLastRun)).symm
        rw [hNodes]
        by_cases hExtends : keyOf tail = key a
        · rw [push_same hExtends, runs_concat_same hRuns hLastRun (hSame.trans hExtends)]
          simp only [List.map_append, List.map_singleton, hInit, collect_concat hTail.symm]
        · have hOther : ∀ last ∈ list.getLast?, key last ≠ key a := by
            intro last hLastList
            rw [← runs_flatten key list, hRuns, List.flatten_concat,
              List.getLast?_append_of_ne_nil _ (List.ne_nil_of_mem hb), hLastRun] at hLastList
            rw [← Option.some.inj hLastList, hSame]
            exact hExtends
          rw [push_other hExtends, runs_concat_other hOther, hRuns]
          simp only [List.map_append, List.map_singleton, hInit, hTail, collect, List.foldl_nil]

omit [DecidableEq κ] in
/-- What holds of a run and its node holds along the two lists. -/
theorem forall₂_collect {P : List α → β → Prop} {nodes : List β} {runs : List (List α)}
    (h : nodes.map some = runs.map (collect single extend))
    (hP : ∀ run ∈ runs, ∀ node, collect single extend run = some node → P run node) :
    List.Forall₂ P runs nodes := by
  induction runs generalizing nodes with
  | nil =>
      rw [List.map_eq_nil_iff.mp h]
      exact .nil
  | cons run runs ih =>
      obtain ⟨node, rest, rfl, hNode, hRest⟩ := List.map_eq_cons_iff.mp h
      exact .cons (hP run List.mem_cons_self node hNode.symm)
        (ih hRest fun other hOther => hP other (List.mem_cons_of_mem _ hOther))

end Runs

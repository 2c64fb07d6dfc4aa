import TelnetDebug.Lists.Refinement
import Mathlib.Data.UInt

/-! The modules that have registered for the log. They are kept in a list, and a
module is looked up by going through the list by index. -/
namespace TelnetDebug.Log

open Linked Guarded Sll

/-- How far each log file of a module is written. -/
structure CurSize where
  curNotsetLogSize : UInt32
  curDebugLogSize : UInt32
  curInfoLogSize : UInt32
  curWarningLogSize : UInt32
  curErrorLogSize : UInt32
  curCriticalLogSize : UInt32
  curLogSize : UInt32
deriving DecidableEq

/-- The identifier and the level are compared as unsigned numbers. -/
structure RegInfo where
  moduleId : UInt32
  level : UInt32
  mulitifile : Int
  fileName : List UInt8
  curSize : CurSize
  maxLogSize : UInt32
deriving DecidableEq

/-- The list of the registered modules, the counter beside it, and what its
nodes hold behind their links. -/
structure Registry (α : Type) where
  regList : SllLinkList α
  listNum : UInt32
  regInfo : α → RegInfo

/-- An allocator. It hands out addresses at which there is no cell. -/
structure Allocator (α : Type) where
  malloc : Heap α → Option α
  fresh : ∀ {heap a}, malloc heap = some a → heap a = none

variable {α : Type}

/-- The registry as `tel_log_init` sets it up. -/
def Registry.initial (heap : Heap α) (regInfo : α → RegInfo) : Registry α :=
  ⟨.empty heap, 0, regInfo⟩

/-- What a node holds behind its link. -/
def Registry.infoAt (registry : Registry α) : Option α → Except Fault RegInfo
  | none => .error .null
  | some node =>
      if (registry.regList.heap node).isSome then .ok (registry.regInfo node) else .error .noCell

/-- The loop of `tel_log_search_node`, with as many turns to go. -/
def searchFrom (registry : Registry α) (moduleId : UInt32) :
    Nat → Nat → Except Fault (Option α)
  | 0, _ => return none
  | turns + 1, i => do
      let node ← getIndex registry.regList i
      let info ← registry.infoAt node
      if info.moduleId = moduleId then return node
      else searchFrom registry moduleId turns (i + 1)

def telLogSearchNode (registry : Registry α) (moduleId : UInt32) : Except Fault (Option α) :=
  searchFrom registry moduleId registry.listNum.toNat 1

/-- The node that turn `i` of the search looks at. When there are more than two,
the second one is passed over. -/
def visited (xs : List α) (i : Nat) : Option α :=
  if i = 1 then xs.head? else xs[min (i + 1) (xs.length - 1)]?

section Search
variable {registry : Registry α} {xs : List α} {moduleId : UInt32}

theorem getIndex_visited {list : SllLinkList α} (h : list.Represents xs) {i : Nat}
    (hLength : i ≤ xs.length) (hPos : 0 < i) : getIndex list i = .ok (visited xs i) := by
  unfold getIndex visited
  rcases eq_or_ne i 1 with rfl | hFirst
  · exact congrArg Except.ok h.head_eq
  · have hNotFirst : ¬ (i : Int) = 1 := fun hOne => hFirst (Int.ofNat.inj hOne)
    rw [if_neg hFirst, if_neg hNotFirst, Int.toNat_natCast]
    obtain ⟨a, b, rest, rfl⟩ : ∃ a b rest, xs = a :: b :: rest := by
      match xs, hLength with
      | [], hLength => simp at hLength; omega
      | [_], hLength => simp at hLength; omega
      | a :: b :: rest, _ => exact ⟨a, b, rest, rfl⟩
    obtain ⟨hHead, hLink, hRest⟩ := link_cons h
    have hIndex : min (i + 1) ((a :: b :: rest).length - 1) =
        min i ((b :: rest).length - 1) + 1 := by
      simp only [List.length_cons]
      omega
    rw [hHead, hLink, ok_bind, advance_eq hRest (List.cons_ne_nil b rest), hIndex,
      List.getElem?_cons_succ]

theorem visited_mem {i : Nat} (hPos : 0 < i) (hLength : i ≤ xs.length) :
    ∃ a, visited xs i = some a ∧ a ∈ xs := by
  unfold visited
  split
  · obtain ⟨a, rest, rfl⟩ := List.exists_cons_of_length_pos (Nat.lt_of_lt_of_le hPos hLength)
    exact ⟨a, rfl, List.mem_cons_self⟩
  · have hInside : min (i + 1) (xs.length - 1) < xs.length := by omega
    exact ⟨_, List.getElem?_eq_getElem hInside, List.getElem_mem hInside⟩

theorem infoAt_eq (h : registry.regList.Represents xs) {node : α} (hMem : node ∈ xs) :
    registry.infoAt (some node) = .ok (registry.regInfo node) :=
  if_pos (h.isSome_of_mem hMem)

theorem infoAt_eq_ok {node : α} {info : RegInfo} (h : registry.infoAt (some node) = .ok info) :
    info = registry.regInfo node := by
  unfold Registry.infoAt at h
  dsimp only at h
  split at h
  · exact (Except.ok.inj h).symm
  · cases h

/-- The node found is one of those looked at. -/
theorem searchFrom_mem {turns i : Nat} {node : α}
    (h : searchFrom registry moduleId turns i = .ok (some node)) :
    ∃ j, i ≤ j ∧ j < i + turns ∧ getIndex registry.regList j = .ok (some node) ∧
      (registry.regInfo node).moduleId = moduleId := by
  induction turns generalizing i with
  | zero => cases h
  | succ turns ih =>
      obtain ⟨p, hIndex, hRest⟩ := bind_eq_ok.mp h
      obtain ⟨info, hInfo, hRest⟩ := bind_eq_ok.mp hRest
      by_cases hMatch : info.moduleId = moduleId
      · rw [if_pos hMatch] at hRest
        obtain rfl := Except.ok.inj hRest
        exact ⟨i, Nat.le_refl i, by omega, hIndex, infoAt_eq_ok hInfo ▸ hMatch⟩
      · rw [if_neg hMatch] at hRest
        obtain ⟨j, hLow, hHigh, hFound⟩ := ih hRest
        exact ⟨j, by omega, by omega, hFound⟩

/-- The search looks at the list and at the identifiers only. -/
theorem search_congr {other : Registry α} (hList : other.regList = registry.regList)
    (hNum : other.listNum = registry.listNum)
    (hIds : ∀ a, (other.regInfo a).moduleId = (registry.regInfo a).moduleId) :
    telLogSearchNode other moduleId = telLogSearchNode registry moduleId := by
  have hFrom (turns i : Nat) :
      searchFrom other moduleId turns i = searchFrom registry moduleId turns i := by
    induction turns generalizing i with
    | zero => rfl
    | succ turns ih =>
        unfold searchFrom
        rw [hList]
        cases getIndex registry.regList i with
        | error e => rfl
        | ok p =>
            cases p with
            | none => rfl
            | some a =>
                unfold Registry.infoAt
                rw [ok_bind, ok_bind, hList]
                dsimp only
                split
                · rw [ok_bind, ok_bind, hIds, ih]
                · rfl
  unfold telLogSearchNode
  rw [hNum, hFrom]

/-- The search returns, and what it finds is a node of the list that has the
identifier. -/
theorem search_returns (h : registry.regList.Represents xs)
    (hNum : registry.listNum.toNat = xs.length) :
    ∃ p, telLogSearchNode registry moduleId = .ok p ∧
      ∀ a, p = some a → a ∈ xs ∧ (registry.regInfo a).moduleId = moduleId := by
  have hFrom (turns i : Nat) (hPos : 0 < i) (hEnd : i + turns ≤ xs.length + 1) :
      ∃ p, searchFrom registry moduleId turns i = .ok p ∧
        ∀ a, p = some a → a ∈ xs ∧ (registry.regInfo a).moduleId = moduleId := by
    induction turns generalizing i with
    | zero => exact ⟨none, rfl, fun a h => nomatch h⟩
    | succ turns ih =>
        obtain ⟨a, hVisited, hMem⟩ := visited_mem hPos (show i ≤ xs.length by omega)
        rw [searchFrom, getIndex_visited h (by omega) hPos, hVisited, ok_bind, infoAt_eq h hMem,
          ok_bind]
        by_cases hMatch : (registry.regInfo a).moduleId = moduleId
        · rw [if_pos hMatch]
          refine ⟨some a, rfl, ?_⟩
          rintro b ⟨⟩
          exact ⟨hMem, hMatch⟩
        · rw [if_neg hMatch]
          exact ih (i + 1) (Nat.succ_pos i) (by omega)
  unfold telLogSearchNode
  rw [hNum]
  exact hFrom _ 1 Nat.one_pos (by omega)

/-- With at most two nodes every node is looked at. -/
theorem search_few (h : registry.regList.Represents xs) (hNum : registry.listNum.toNat = xs.length)
    (hFew : xs.length ≤ 2) :
    telLogSearchNode registry moduleId =
      .ok (xs.find? fun node => (registry.regInfo node).moduleId = moduleId) := by
  have hTurn (turns i : Nat) (a : α) (hMem : a ∈ xs) (hPos : 0 < i) (hLast : i ≤ xs.length)
      (hVisited : visited xs i = some a) :
      searchFrom registry moduleId (turns + 1) i =
        if (registry.regInfo a).moduleId = moduleId then .ok (some a)
        else searchFrom registry moduleId turns (i + 1) := by
    rw [searchFrom, getIndex_visited h hLast hPos, hVisited, ok_bind, infoAt_eq h hMem]
    rfl
  unfold telLogSearchNode
  rw [hNum]
  match xs, h, hFew with
  | [], _, _ => rfl
  | [a], _, _ =>
      rw [List.find?_cons, List.find?_nil]
      change searchFrom registry moduleId 1 1 = _
      rw [hTurn 0 1 a List.mem_cons_self Nat.one_pos (Nat.le_refl 1) rfl]
      by_cases hMatch : (registry.regInfo a).moduleId = moduleId
      · rw [if_pos hMatch, decide_eq_true hMatch]
      · rw [if_neg hMatch, decide_eq_false hMatch]
        rfl
  | [a, b], _, _ =>
      rw [List.find?_cons, List.find?_cons, List.find?_nil]
      change searchFrom registry moduleId 2 1 = _
      rw [hTurn 1 1 a List.mem_cons_self Nat.one_pos (Nat.le_succ 1) rfl,
        hTurn 0 2 b (List.mem_cons_of_mem a List.mem_cons_self) Nat.two_pos (Nat.le_refl 2) rfl]
      by_cases hMatch : (registry.regInfo a).moduleId = moduleId
      · rw [if_pos hMatch, decide_eq_true hMatch]
      · rw [if_neg hMatch, decide_eq_false hMatch]
        by_cases hMatch' : (registry.regInfo b).moduleId = moduleId
        · rw [if_pos hMatch', decide_eq_true hMatch']
        · rw [if_neg hMatch', decide_eq_false hMatch']
          rfl

end Search

variable [DecidableEq α]

def telAddLogRegNode (allocator : Allocator α) (fuel : Nat) (registry : Registry α)
    (regInfo : RegInfo) : Except Fault (Registry α) :=
  match allocator.malloc registry.regList.heap with
  | none => .error .aborted
  | some node => do
      let (_, list) ← insertAtTail fuel (registry.regList.provide node none) (some node)
      return ⟨list, registry.listNum + 1, Function.update registry.regInfo node regInfo⟩

/-- A turn of the loop of `tel_log_reg`. A module that is found is not
registered again. -/
def registerOne (allocator : Allocator α) (fuel : Nat) (registry : Registry α)
    (regInfo : RegInfo) : Except Fault (Registry α) := do
  match ← telLogSearchNode registry regInfo.moduleId with
  | some _ => throw .aborted
  | none => telAddLogRegNode allocator fuel registry regInfo

def telLogReg (allocator : Allocator α) (fuel : Nat) (registry : Registry α)
    (regInfos : List RegInfo) : Except Fault (Int × Registry α) :=
  match regInfos with
  | [] => .error .aborted
  | _ :: _ => do
      let registry ← run (registerOne allocator fuel) registry regInfos
      return (retSuccess, registry)

/-- A call that has to succeed. -/
def registerBatch (allocator : Allocator α) (fuel : Nat) (registry : Registry α)
    (regInfos : List RegInfo) : Except Fault (Registry α) := do
  let (rc, registry) ← telLogReg allocator fuel registry regInfos
  if rc = retSuccess then return registry else throw .aborted

end TelnetDebug.Log

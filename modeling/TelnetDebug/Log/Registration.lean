import TelnetDebug.Log.Registry

/-! Registering modules one after the other. The search that is to keep a module
from being registered twice does not look at every node, so that from the third
module on the registry is not what its users take it for. -/
namespace TelnetDebug.Log

open Linked Guarded Sll

variable {α : Type} [DecidableEq α]

/-- What the users of the registry expect of it, after these modules were
registered in this order; `xs` are the nodes of the list. -/
structure Registry.Dependable (registry : Registry α) (registered : List RegInfo)
    (xs : List α) : Prop where
  represents : registry.regList.Represents xs
  counted : registry.listNum.toNat = xs.length
  unique : (xs.map fun node => (registry.regInfo node).moduleId).Nodup
  found : ∀ moduleId, ∃ p, telLogSearchNode registry moduleId = .ok p ∧
    (p = none ↔ moduleId ∉ registered.map RegInfo.moduleId) ∧
    ∀ node, p = some node → node ∈ xs ∧ registry.regInfo node ∈ registered ∧
      (registry.regInfo node).moduleId = moduleId

/-- The nodes of the list hold these modules, in this order. -/
structure Registry.Holds (registry : Registry α) (xs : List α) (registered : List RegInfo) :
    Prop where
  represents : registry.regList.Represents xs
  infos : xs.map registry.regInfo = registered
  counted : registry.listNum = .ofNat registered.length
  few : registered.length ≤ 2 → (registered.map RegInfo.moduleId).Nodup

section Holds
variable {α : Type} {registry : Registry α} {xs : List α} {registered : List RegInfo}

theorem Registry.Holds.length (h : registry.Holds xs registered) :
    xs.length = registered.length := by
  rw [← h.infos, List.length_map]

/-- While there are at most two modules the search finds the one that has the
identifier. -/
theorem Registry.Holds.search (h : registry.Holds xs registered) (hFew : registered.length ≤ 2)
    (moduleId : UInt32) :
    telLogSearchNode registry moduleId =
      .ok (xs.find? fun node => (registry.regInfo node).moduleId = moduleId) := by
  apply search_few h.represents
  · rw [h.counted, h.length]
    exact UInt32.toNat_ofNat_of_lt' (Nat.lt_of_le_of_lt hFew (by decide))
  · exact h.length.trans_le hFew

theorem Registry.Holds.mem_moduleId (h : registry.Holds xs registered) {moduleId : UInt32} :
    moduleId ∈ registered.map RegInfo.moduleId ↔
      ∃ node ∈ xs, (registry.regInfo node).moduleId = moduleId := by
  rw [← h.infos, List.map_map, List.mem_map]
  rfl

end Holds

section Register
variable {allocator : Allocator α} {fuel : Nat} {registry t : Registry α} {xs : List α}
  {registered : List RegInfo}

/-- The new node is put behind the others and filled. -/
theorem telAddLogRegNode_holds {regInfo : RegInfo} (h : registry.Holds xs registered)
    (hFuel : registered.length < fuel)
    (hNew : registered.length ≤ 1 → regInfo.moduleId ∉ registered.map RegInfo.moduleId)
    (hCall : telAddLogRegNode allocator fuel registry regInfo = .ok t) :
    ∃ node, t.Holds (xs ++ [node]) (registered ++ [regInfo]) := by
  unfold telAddLogRegNode at hCall
  cases hNode : allocator.malloc registry.regList.heap with
  | none =>
      rw [hNode] at hCall
      cases hCall
  | some node =>
      rw [hNode] at hCall
      have hFresh : node ∉ xs := by
        intro hMem
        have hCell := h.represents.isSome_of_mem hMem
        rw [allocator.fresh hNode] at hCell
        cases hCell
      obtain ⟨list, hInsert, hLeaves⟩ :=
        insertAtTail_spec (provide_represents h.represents hFresh none) hFresh (provide_cell none)
          (h.length.trans_le (Nat.le_of_lt hFuel))
      dsimp only at hCall
      rw [hInsert] at hCall
      obtain rfl := Except.ok.inj hCall
      have hOthers : xs.map (Function.update registry.regInfo node regInfo) = registered := by
        rw [← h.infos]
        apply List.map_congr_left
        intro a ha
        exact Function.update_of_ne (ne_of_mem_of_not_mem ha hFresh) _ _
      refine ⟨node, hLeaves.represents, ?_, ?_, ?_⟩
      · change (xs ++ [node]).map (Function.update registry.regInfo node regInfo) = _
        rw [List.map_append, List.map_singleton, Function.update_self, hOthers]
      · rw [List.length_append, List.length_singleton, UInt32.ofNat_add, ← h.counted]
        rfl
      · intro hFew
        rw [List.length_append, List.length_singleton] at hFew
        rw [List.map_append, List.map_singleton, List.nodup_append]
        have hOld : registered.length ≤ 1 := by omega
        refine ⟨h.few (hOld.trans (Nat.le_succ 1)), List.nodup_singleton _, ?_⟩
        intro moduleId hMem other hOther
        rw [List.mem_singleton.mp hOther]
        exact ne_of_mem_of_not_mem hMem (hNew hOld)

theorem registerOne_holds {regInfo : RegInfo} (h : registry.Holds xs registered)
    (hFuel : registered.length < fuel)
    (hCall : registerOne allocator fuel registry regInfo = .ok t) :
    ∃ ys, t.Holds ys (registered ++ [regInfo]) := by
  obtain ⟨p, hSearch, hRest⟩ := bind_eq_ok.mp hCall
  cases p with
  | some node => cases hRest
  | none =>
      have hNew : registered.length ≤ 1 → regInfo.moduleId ∉ registered.map RegInfo.moduleId := by
        intro hOld hMem
        obtain ⟨node, hNode, hSame⟩ := h.mem_moduleId.mp hMem
        rw [h.search (hOld.trans (Nat.le_succ 1))] at hSearch
        have hNone := List.find?_eq_none.mp (Except.ok.inj hSearch) node hNode
        exact hNone (decide_eq_true hSame)
      obtain ⟨node, hHolds⟩ := telAddLogRegNode_holds h hFuel hNew hRest
      exact ⟨_, hHolds⟩

/-- Registering modules one after the other. -/
theorem registerOne_run_holds {regInfos : List RegInfo} (h : registry.Holds xs registered)
    (hFuel : registered.length + regInfos.length ≤ fuel)
    (hRun : run (registerOne allocator fuel) registry regInfos = .ok t) :
    ∃ ys, t.Holds ys (registered ++ regInfos) := by
  induction regInfos generalizing registry xs registered with
  | nil =>
      obtain rfl := Except.ok.inj hRun
      rw [List.append_nil]
      exact ⟨xs, h⟩
  | cons regInfo regInfos ih =>
      rw [List.length_cons] at hFuel
      obtain ⟨u, hFirst, hRest⟩ := bind_eq_ok.mp hRun
      have hRoom : registered.length < fuel := by omega
      obtain ⟨ys, hNext⟩ := registerOne_holds h hRoom hFirst
      rw [List.append_cons]
      apply ih hNext _ hRest
      rw [List.length_append, List.length_singleton]
      omega

theorem registerBatch_holds {regInfos : List RegInfo} (h : registry.Holds xs registered)
    (hFuel : registered.length + regInfos.length ≤ fuel)
    (hCall : registerBatch allocator fuel registry regInfos = .ok t) :
    ∃ ys, t.Holds ys (registered ++ regInfos) := by
  obtain ⟨⟨rc, u⟩, hReg, hEnd⟩ := bind_eq_ok.mp hCall
  cases regInfos with
  | nil => cases hReg
  | cons regInfo regInfos =>
      obtain ⟨v, hRun, hReturn⟩ := bind_eq_ok.mp hReg
      obtain ⟨rfl, rfl⟩ := Prod.mk.inj (Except.ok.inj hReturn)
      obtain rfl := Except.ok.inj hEnd
      exact registerOne_run_holds h hFuel hRun

/-- Any number of calls, with any number of modules each. -/
theorem registerBatch_run_holds {batches : List (List RegInfo)}
    (h : registry.Holds xs registered)
    (hFuel : registered.length + batches.flatten.length ≤ fuel)
    (hRun : run (registerBatch allocator fuel) registry batches = .ok t) :
    ∃ ys, t.Holds ys (registered ++ batches.flatten) := by
  induction batches generalizing registry xs registered with
  | nil =>
      obtain rfl := Except.ok.inj hRun
      rw [List.flatten_nil, List.append_nil]
      exact ⟨xs, h⟩
  | cons regInfos batches ih =>
      rw [List.flatten_cons, List.length_append] at hFuel
      obtain ⟨u, hFirst, hRest⟩ := bind_eq_ok.mp hRun
      obtain ⟨ys, hNext⟩ := registerBatch_holds h (by omega) hFirst
      rw [List.flatten_cons, ← List.append_assoc]
      apply ih hNext _ hRest
      rw [List.length_append]
      omega

end Register

section Dependable
variable {α : Type} {registry : Registry α} {xs : List α} {registered : List RegInfo}

/-- The second of three nodes or more is not looked at. -/
theorem visited_ne_second (hNodup : xs.Nodup) (hMany : 2 < xs.length) {i : Nat} (hPos : 0 < i) :
    visited xs i ≠ some xs[1] := by
  unfold visited
  split
  · rw [List.head?_eq_getElem?, List.getElem?_eq_getElem (by omega), Ne, Option.some.injEq,
      hNodup.getElem_inj_iff]
    exact Nat.zero_ne_one
  · rw [List.getElem?_eq_getElem (by omega), Ne, Option.some.injEq, hNodup.getElem_inj_iff]
    omega

/-- A registry that its users can depend on has at most two modules: the second
of three is not found. -/
theorem Registry.Dependable.few (h : registry.Dependable registered xs)
    (hInfos : xs.map registry.regInfo = registered) : xs.length ≤ 2 := by
  apply Nat.le_of_not_lt
  intro hMany
  have hSecond : xs[1] ∈ xs := List.getElem_mem _
  obtain ⟨p, hSearch, hNone, hFound⟩ := h.found (registry.regInfo xs[1]).moduleId
  cases p with
  | none =>
      apply hNone.mp rfl
      rw [← hInfos]
      exact List.mem_map_of_mem (List.mem_map_of_mem hSecond)
  | some node =>
      obtain ⟨hMem, -, hSame⟩ := hFound node rfl
      have hNode : node = xs[1] := List.inj_on_of_nodup_map h.unique hMem hSecond hSame
      unfold telLogSearchNode at hSearch
      rw [h.counted] at hSearch
      obtain ⟨j, hLow, hHigh, hIndex, -⟩ := searchFrom_mem hSearch
      rw [getIndex_visited h.represents (by omega) hLow, hNode] at hIndex
      exact visited_ne_second h.represents.nodup hMany hLow (Except.ok.inj hIndex)

/-- With at most two modules the registry is what its users expect. -/
theorem Registry.Holds.dependable (h : registry.Holds xs registered)
    (hFew : registered.length ≤ 2) : registry.Dependable registered xs where
  represents := h.represents
  counted := by
    rw [h.counted, h.length]
    exact UInt32.toNat_ofNat_of_lt' (Nat.lt_of_le_of_lt hFew (by decide))
  unique := by
    have hNodup := h.few hFew
    rw [← h.infos, List.map_map] at hNodup
    exact hNodup
  found moduleId := by
    refine ⟨_, h.search hFew moduleId, ?_, ?_⟩
    · rw [List.find?_eq_none, h.mem_moduleId]
      simp
    · intro node hNode
      have hMem := List.mem_of_find?_eq_some hNode
      have hSame : (registry.regInfo node).moduleId = moduleId := by
        simpa using List.find?_some hNode
      refine ⟨hMem, ?_, hSame⟩
      rw [← h.infos]
      exact List.mem_map_of_mem hMem

end Dependable

/-- After calls that all succeed the registry is what its users expect if and
only if they registered at most two modules. -/
theorem log_registry_dependable_iff {allocator : Allocator α} {fuel : Nat} {heap : Heap α}
    {regInfo : α → RegInfo} {batches : List (List RegInfo)} {registry : Registry α}
    (hFuel : batches.flatten.length ≤ fuel)
    (hRun : run (registerBatch allocator fuel) (.initial heap regInfo) batches = .ok registry) :
    (∃ xs, registry.Dependable batches.flatten xs) ↔ batches.flatten.length ≤ 2 := by
  have hInitial : (Registry.initial heap regInfo).Holds [] [] :=
    ⟨.nil none, rfl, rfl, fun _ => List.nodup_nil⟩
  obtain ⟨xs, hHolds⟩ := registerBatch_run_holds hInitial (by simpa using hFuel) hRun
  rw [List.nil_append] at hHolds
  constructor
  · rintro ⟨ys, hDependable⟩
    obtain rfl := hDependable.represents.unique hHolds.represents
    rw [← hHolds.length]
    exact hDependable.few hHolds.infos
  · exact fun hFew => ⟨xs, hHolds.dependable hFew⟩

/-- The lowest of eight addresses that has no cell. -/
def lowAllocator : Allocator Nat where
  malloc heap := (List.range 8).find? fun a => (heap a).isNone
  fresh h := by simpa using List.find?_some h

def plainInfo (moduleId : UInt32) : RegInfo :=
  ⟨moduleId, 1, 0, [108], ⟨0, 0, 0, 0, 0, 0, 0⟩, 4096⟩

/-- Two modules in two calls. -/
theorem log_registry_dependable_two :
    ∃ registry, run (registerBatch lowAllocator 4) (.initial (fun _ => none) fun _ => plainInfo 0)
        [[plainInfo 1], [plainInfo 2]] = .ok registry ∧
      ∃ xs, registry.Dependable [plainInfo 1, plainInfo 2] xs := by
  obtain ⟨registry, hRun⟩ : ∃ registry, run (registerBatch lowAllocator 4)
      (.initial (fun _ => none) fun _ => plainInfo 0) [[plainInfo 1], [plainInfo 2]] =
        .ok registry := ⟨_, rfl⟩
  exact ⟨registry, hRun, (log_registry_dependable_iff (by decide) hRun).mpr (by decide)⟩

/-- Of three modules the second is not found. -/
theorem log_registry_second_of_three :
    ∃ registry, run (registerBatch lowAllocator 4) (.initial (fun _ => none) fun _ => plainInfo 0)
        [[plainInfo 1, plainInfo 2, plainInfo 3]] = .ok registry ∧
      ¬ ∃ xs, registry.Dependable [plainInfo 1, plainInfo 2, plainInfo 3] xs := by
  have hSearch : (run (registerBatch lowAllocator 4)
      (.initial (fun _ => none) fun _ => plainInfo 0)
      [[plainInfo 1, plainInfo 2, plainInfo 3]] >>= fun r => telLogSearchNode r 2) =
        .ok none := rfl
  obtain ⟨registry, hRun, hNotFound⟩ := bind_eq_ok.mp hSearch
  refine ⟨registry, hRun, ?_⟩
  rintro ⟨xs, h⟩
  obtain ⟨p, hFound, hNone, -⟩ := h.found 2
  rw [hNotFound] at hFound
  exact hNone.mp (Except.ok.inj hFound).symm (by decide)

end TelnetDebug.Log

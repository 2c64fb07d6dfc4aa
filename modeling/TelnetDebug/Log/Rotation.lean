import TelnetDebug.Log.CallOutcomes

/-! The place of a record in its file, as long as no call of the system fails. -/
namespace TelnetDebug.Log

open Linked Guarded Stdio

theorem logPath_injective {info : RegInfo} (hMulti : info.mulitifile = 1) :
    Function.Injective (logPath info) := by
  have hSuffix : Function.Injective LogSecurityLevel.suffix := by
    intro a b h
    cases a <;> cases b <;> first | rfl | exact absurd h (by decide)
  intro a b h
  unfold logPath at h
  rw [if_pos hMulti, if_pos hMulti] at h
  exact hSuffix (List.append_cancel_left (List.append_cancel_right h))

/-- The modules differ in their counters only. -/
structure RegInfo.SameBut (info other : RegInfo) : Prop where
  moduleId : info.moduleId = other.moduleId
  level : info.level = other.level
  mulitifile : info.mulitifile = other.mulitifile
  fileName : info.fileName = other.fileName
  maxLogSize : info.maxLogSize = other.maxLogSize

section SameBut
variable {info other : RegInfo} (h : info.SameBut other)
include h

theorem RegInfo.SameBut.logPath : logPath info = logPath other := by
  funext level
  unfold Log.logPath
  rw [h.fileName, h.mulitifile]

theorem RegInfo.SameBut.counterFor : info.counterFor = other.counterFor := by
  funext level
  unfold RegInfo.counterFor
  rw [h.mulitifile]

theorem RegInfo.SameBut.setCounter (counter : Counter) (size : UInt32) :
    (info.setCounter counter size).SameBut other :=
  ⟨h.moduleId, h.level, h.mulitifile, h.fileName, h.maxLogSize⟩

end SameBut

/-- A record of an allowed length advances the counter without overflow, and not
further than one record past the size of the file. -/
theorem RegInfo.start_add {info : RegInfo} {length longest : Nat} (counter : Counter)
    (hMax : 1 ≤ info.maxLogSize.toNat) (hFits : info.maxLogSize.toNat + longest < 2 ^ 32)
    (hLength : length ≤ longest) :
    (info.start counter).toNat + length ≤ info.maxLogSize.toNat - 1 + longest ∧
      (info.start counter + .ofNat length).toNat = (info.start counter).toNat + length := by
  have hStart : (info.start counter).toNat ≤ info.maxLogSize.toNat - 1 := by
    unfold start
    split
    · exact Nat.zero_le _
    · next hBelow =>
        rw [UInt32.le_iff_toNat_le] at hBelow
        omega
  refine ⟨by omega, ?_⟩
  rw [UInt32.toNat_add, UInt32.toNat_ofNat_of_lt' (by rw [UInt32.size]; omega)]
  omega

/-- A call with a message that fits in the line buffer; for the module, its
record is not longer than `longest`. -/
structure LogCall.Fits (call : LogCall) (moduleId : UInt32) (longest : Nat) : Prop where
  short : call.message.length < telLogLineSize
  record : call.moduleId = moduleId → ∀ known, LogSecurityLevel.ofNumber call.level = some known →
    (recordText call.tm known call.message).length ≤ longest

variable {α : Type}

/-- What a run leaves of the state `s` in which it started: the modules up to
their counters, counters of the node that are at most one record past the size
of the file, and files of the node that are not longer. -/
structure Rotating (s : LogState α) (node : α) (longest : Nat) (t : LogState α) : Prop where
  regList : t.registry.regList = s.registry.regList
  listNum : t.registry.listNum = s.registry.listNum
  infos : ∀ a, (t.registry.regInfo a).SameBut (s.registry.regInfo a)
  files : ∀ level, (t.world.contents (logPath (s.registry.regInfo node) level)).length ≤
    max (s.world.contents (logPath (s.registry.regInfo node) level)).length
      ((s.registry.regInfo node).maxLogSize.toNat - 1 + longest)

/-- The files of a node are its own. -/
def OwnFiles (registry : Registry α) (xs : List α) (node : α) : Prop :=
  ∀ a ∈ xs, a ≠ node → ∀ level level',
    logPath (registry.regInfo a) level ≠ logPath (registry.regInfo node) level'

theorem Rotating.search {s t : LogState α} {node : α} {longest : Nat} {moduleId : UInt32}
    (h : Rotating s node longest t) :
    telLogSearchNode t.registry moduleId = telLogSearchNode s.registry moduleId :=
  search_congr h.regList h.listNum fun a => (h.infos a).moduleId

theorem found_moduleId {registry : Registry α} {xs : List α} {moduleId : UInt32} {node : α}
    (hList : registry.regList.Represents xs) (hNum : registry.listNum.toNat = xs.length)
    (hFound : telLogSearchNode registry moduleId = .ok (some node)) :
    (registry.regInfo node).moduleId = moduleId := by
  obtain ⟨p, hSearch, hIs⟩ : ∃ p, telLogSearchNode registry moduleId = .ok p ∧ _ :=
    search_returns hList hNum
  rw [hFound] at hSearch
  exact (hIs node (Except.ok.inj hSearch).symm).2

variable [DecidableEq α]

/-- A record was written to the module of a node, from `t` to `u`: all of it is
in its file, at the counter of the file or at the start when the counter had
reached the size asked for; the counter is behind it; and no other counter and
no other file was changed. -/
structure Placed (t u : LogState α) (node : α) (known : LogSecurityLevel)
    (record : List UInt8) : Prop where
  written : Posix.slice (u.world.contents (logPath (t.registry.regInfo node) known))
    ((t.registry.regInfo node).start ((t.registry.regInfo node).counterFor known)).toNat
    record.length = record
  counter : ((u.registry.regInfo node).curSize.get
      ((t.registry.regInfo node).counterFor known)).toNat =
    ((t.registry.regInfo node).start ((t.registry.regInfo node).counterFor known)).toNat +
      record.length
  otherCounters : ∀ other, other ≠ (t.registry.regInfo node).counterFor known →
    (u.registry.regInfo node).curSize.get other = (t.registry.regInfo node).curSize.get other
  otherModules : ∀ a, a ≠ node → u.registry.regInfo a = t.registry.regInfo a
  otherFiles : ∀ path, path ≠ logPath (t.registry.regInfo node) known →
    u.world.files path = t.world.files path

section Run
variable {os : Os} (hOs : ∀ k, os.fails k = false) {s t : LogState α} {xs : List α} {node : α}
  {moduleId : UInt32} {longest : Nat} {call : LogCall}
  (hList : s.registry.regList.Represents xs) (hNum : s.registry.listNum.toNat = xs.length)
  (hFound : telLogSearchNode s.registry moduleId = .ok (some node))
  (hMax : 1 ≤ (s.registry.regInfo node).maxLogSize.toNat)
  (hFits : (s.registry.regInfo node).maxLogSize.toNat + longest < 2 ^ 32)
  (hOwn : OwnFiles s.registry xs node)

include hOs hList hNum hFound hMax hFits hOwn

theorem telWriteLog_rotating (h : Rotating s node longest t) (hCall : call.Fits moduleId longest) :
    ∃ u, telWriteLog os t call = .ok u ∧ Rotating s node longest u := by
  have hTList : t.registry.regList.Represents xs := h.regList ▸ hList
  have hTNum : t.registry.listNum.toNat = xs.length := h.listNum ▸ hNum
  rcases telWriteLog_cases hTList hTNum with hIgnored | ⟨a, known, hAccepts, hMem, hId⟩
  · exact ⟨t, hIgnored, h⟩
  · have hRecords : Records os t call a known := ⟨hAccepts, reachesWrite_of_reliable hOs _ _⟩
    obtain ⟨world, hRun, hFiles⟩ := telWriteLog_records_short hRecords hCall.short
    refine ⟨_, hRun, h.regList, h.listNum, ?_, ?_⟩
    · intro b
      change (Function.update t.registry.regInfo a _ b).SameBut _
      rcases eq_or_ne b a with rfl | hOther
      · rw [Function.update_self]
        exact (h.infos b).setCounter _ _
      · rw [Function.update_of_ne hOther]
        exact h.infos b
    · intro level
      have hOld := h.files level
      change (world.contents _).length ≤ _
      unfold World.contents at hOld ⊢
      rw [hFiles, (h.infos a).logPath]
      by_cases hPath :
          logPath (s.registry.regInfo node) level = logPath (s.registry.regInfo a) known
      · have hNode : a = node := by
          by_contra hOther
          exact hOwn a hMem hOther known level hPath.symm
        obtain rfl := hNode
        have hModule : call.moduleId = moduleId := by
          rw [← hId, (h.infos a).moduleId, found_moduleId hList hNum hFound]
        have hLength := hCall.record hModule known hAccepts.known
        rw [← (h.infos a).maxLogSize] at hMax hFits hOld ⊢
        obtain ⟨hPlace, -⟩ := RegInfo.start_add ((t.registry.regInfo a).counterFor known) hMax hFits
          hLength
        rw [hPath] at hOld ⊢
        rw [Function.update_self, Option.getD_some]
        apply length_put_le.trans (Nat.max_le.mpr ⟨hOld, _⟩)
        exact hPlace.trans (Nat.le_max_right _ _)
      · rw [Function.update_of_ne hPath]
        exact hOld

theorem run_rotating (h : Rotating s node longest t) {calls : List LogCall}
    (hCalls : ∀ call ∈ calls, call.Fits moduleId longest) :
    ∃ u, run (telWriteLog os) t calls = .ok u ∧ Rotating s node longest u := by
  induction calls generalizing t with
  | nil => exact ⟨t, rfl, h⟩
  | cons call calls ih =>
      obtain ⟨u, hFirst, hNext⟩ := telWriteLog_rotating hOs hList hNum hFound hMax hFits hOwn h
        (hCalls call List.mem_cons_self)
      obtain ⟨v, hRun, hLast⟩ := ih hNext fun c hc => hCalls c (List.mem_cons_of_mem call hc)
      exact ⟨v, by rw [run_cons, hFirst, ok_bind, hRun], hLast⟩

/-- A module writes to the log, and other modules do. After any calls no file of
the module is longer than it was, or than one record past the size asked for;
with several files each level has its own; and the next record has its place. -/
theorem log_rotation {calls : List LogCall}
    (hCalls : ∀ call ∈ calls, call.Fits moduleId longest) :
    ∃ t, run (telWriteLog os) s calls = .ok t ∧
      (t.registry.regInfo node).SameBut (s.registry.regInfo node) ∧
      (∀ level, (t.world.contents (logPath (s.registry.regInfo node) level)).length ≤
        max (s.world.contents (logPath (s.registry.regInfo node) level)).length
          ((s.registry.regInfo node).maxLogSize.toNat - 1 + longest)) ∧
      ((s.registry.regInfo node).mulitifile = 1 →
        Function.Injective (logPath (s.registry.regInfo node))) ∧
      ∀ call known, call.moduleId = moduleId → call.Fits moduleId longest →
        LogSecurityLevel.ofNumber call.level = some known →
        (s.registry.regInfo node).level ≤ call.level →
        ∃ u, telWriteLog os t call = .ok u ∧
          Placed t u node known (recordText call.tm known call.message) := by
  have hInitial : Rotating s node longest s :=
    ⟨rfl, rfl, fun _ => ⟨rfl, rfl, rfl, rfl, rfl⟩, fun _ => Nat.le_max_left _ _⟩
  obtain ⟨t, hRun, hLast⟩ := run_rotating hOs hList hNum hFound hMax hFits hOwn hInitial hCalls
  have hSame := hLast.infos node
  refine ⟨t, hRun, hSame, hLast.files, logPath_injective, ?_⟩
  intro call known hModule hCall hKnown hLevel
  have hAccepts : Accepts t call node known := by
    refine ⟨?_, ?_, hKnown⟩
    · rw [hModule, hLast.search, hFound]
    · rw [hSame.level]
      exact UInt32.not_lt.mpr hLevel
  have hRecords : Records os t call node known := ⟨hAccepts, reachesWrite_of_reliable hOs _ _⟩
  obtain ⟨world, hWrite, hFiles⟩ := telWriteLog_records_short hRecords hCall.short
  have hLength := hCall.record hModule known hKnown
  rw [← hSame.maxLogSize] at hMax hFits
  refine ⟨_, hWrite, ?_, ?_, ?_, ?_, ?_⟩
  · change Posix.slice (world.contents _) _ _ = _
    rw [World.contents, hFiles, Function.update_self, Option.getD_some]
    exact slice_put
  · change ((Function.update t.registry.regInfo node _ node).curSize.get _).toNat = _
    rw [Function.update_self]
    unfold RegInfo.written
    rw [RegInfo.get_setCounter]
    exact (RegInfo.start_add _ hMax hFits hLength).2
  · intro other hOther
    change (Function.update t.registry.regInfo node _ node).curSize.get _ = _
    rw [Function.update_self]
    exact CurSize.get_set_of_ne hOther
  · intro a ha
    exact Function.update_of_ne ha _ _
  · intro other hOther
    change world.files other = _
    rw [hFiles, Function.update_of_ne hOther]

end Run

/-- Three modules with files of their own, none of which exists yet. -/
def threeModules : LogState Nat where
  registry := ⟨.numbered 3, 3,
    fun a => ⟨.ofNat a, 1, 0, [96 + .ofNat a], ⟨0, 0, 0, 0, 0, 0, 0⟩, 4096⟩⟩
  world := ⟨fun _ => none, [], 0⟩

def callTo (moduleId : UInt32) : LogCall := { oneCall with moduleId }

theorem threeModules_represents : threeModules.registry.regList.Represents [1, 2, 3] :=
  .cons rfl (.cons rfl (.cons rfl (.nil none)))

theorem threeModules_ownFiles {node : Nat} (hNode : node ∈ [1, 2, 3]) :
    OwnFiles threeModules.registry [1, 2, 3] node := by
  intro a hMem hOther level level'
  change logPath (threeModules.registry.regInfo a) .info ≠
    logPath (threeModules.registry.regInfo node) .info
  simp only [List.mem_cons, List.not_mem_nil, or_false] at hMem hNode
  rcases hMem with rfl | rfl | rfl <;> rcases hNode with rfl | rfl | rfl <;>
    first | exact absurd rfl hOther | decide +kernel

theorem callTo_fits (moduleId : UInt32) : (callTo moduleId).Fits moduleId 2000 := by
  refine ⟨show oneCall.message.length < telLogLineSize by decide, fun _ known hKnown => ?_⟩
  obtain rfl : LogSecurityLevel.info = known := Option.some.inj hKnown
  change (recordText oneCall.tm .info oneCall.message).length ≤ 2000
  decide +kernel

/-- The first and the last of three modules write to their own files. -/
theorem log_rotation_last_of_three :
    ∃ t, run (telWriteLog ⟨fun _ => false⟩) threeModules [callTo 1, callTo 3] = .ok t ∧
      (∀ level, (t.world.contents (logPath (threeModules.registry.regInfo 3) level)).length ≤
        6095) ∧
      ∃ u, telWriteLog ⟨fun _ => false⟩ t (callTo 3) = .ok u ∧
        Placed t u 3 .info (recordText oneCall.tm .info oneCall.message) := by
  have hOs : ∀ k, Os.fails ⟨fun _ => false⟩ k = false := fun _ => rfl
  have hFits : ∀ call ∈ [callTo 1, callTo 3], call.Fits 3 2000 := by
    intro call hMem
    rcases List.mem_pair.mp hMem with rfl | rfl
    · exact ⟨(callTo_fits 1).short, fun hModule => absurd hModule (by decide)⟩
    · exact callTo_fits 3
  obtain ⟨t, hRun, -, hFiles, -, hNext⟩ := log_rotation hOs threeModules_represents rfl rfl
    (by decide) (by decide) (threeModules_ownFiles (by decide)) hFits
  exact ⟨t, hRun, hFiles, hNext (callTo 3) .info rfl (callTo_fits 3) rfl (by decide)⟩

/-- Of three modules the second is not found, and what is written to it is in no
file. -/
theorem log_rotation_second_of_three :
    OwnFiles threeModules.registry [1, 2, 3] 2 ∧ (callTo 2).Fits 2 2000 ∧
    telWriteLog ⟨fun _ => false⟩ threeModules (callTo 2) = .ok threeModules ∧
    ¬ Placed threeModules threeModules 2 .info (recordText oneCall.tm .info oneCall.message) := by
  have hDropped : telWriteLog ⟨fun _ => false⟩ threeModules (callTo 2) = .ok threeModules :=
    telWriteLog_unfound rfl
  refine ⟨threeModules_ownFiles (by decide), callTo_fits 2, hDropped, fun hPlaced => ?_⟩
  exact absurd hPlaced.counter (by decide +kernel)

end TelnetDebug.Log

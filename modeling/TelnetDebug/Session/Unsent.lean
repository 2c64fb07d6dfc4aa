import TelnetDebug.Session.Step

/-! What a session has sent decides nothing: from sessions that differ in it
alone every round of the loop does the same work. -/
namespace TelnetDebug

open CBuffer Guarded

/-- The sessions have executed the same lines, and they agree in the history,
the line and the cursor. -/
structure SameWork (s t : Session) : Prop where
  mgr : s.mgr = t.mgr
  cmdBuf : s.cmdBuf = t.cmdBuf
  executed : s.executed = t.executed
  closed : s.closed = t.closed

theorem SameWork.refl (s : Session) : SameWork s s := ⟨rfl, rfl, rfl, rfl⟩

theorem SameWork.symm {s t : Session} (h : SameWork s t) : SameWork t s :=
  ⟨h.mgr.symm, h.cmdBuf.symm, h.executed.symm, h.closed.symm⟩

theorem SameWork.trans {s t u : Session} (h : SameWork s t) (h' : SameWork t u) : SameWork s u :=
  ⟨h.mgr.trans h'.mgr, h.cmdBuf.trans h'.cmdBuf, h.executed.trans h'.executed,
    h.closed.trans h'.closed⟩

/-- Both return with the same work done, or both fault at the same access. -/
abbrev SameOutcome : Eff Session → Eff Session → Prop := Agree SameWork

theorem SameOutcome.refl (x : Eff Session) : SameOutcome x x := Agree.refl SameWork.refl x

theorem SameOutcome.symm {x y : Eff Session} (h : SameOutcome x y) : SameOutcome y x :=
  Agree.symm (fun _ _ => SameWork.symm) h

theorem SameOutcome.trans {x y z : Eff Session} (h : SameOutcome x y) (h' : SameOutcome y z) :
    SameOutcome x z :=
  Agree.trans (fun _ _ _ hFirst hSecond => hFirst.trans hSecond) h h'

namespace Session

def resend (s : Session) (bytes : List UInt8) : Session := { s with sent := bytes }

@[simp] theorem resend_mgr (s : Session) (bytes : List UInt8) : (s.resend bytes).mgr = s.mgr := rfl
@[simp] theorem resend_cmdBuf (s : Session) (bytes : List UInt8) :
    (s.resend bytes).cmdBuf = s.cmdBuf := rfl
@[simp] theorem resend_closed (s : Session) (bytes : List UInt8) :
    (s.resend bytes).closed = s.closed := rfl

end Session

theorem sameWork_resend (s : Session) (bytes : List UInt8) : SameWork s (s.resend bytes) :=
  ⟨rfl, rfl, rfl, rfl⟩

theorem SameWork.resend {s t : Session} (h : SameWork s t) : t = s.resend t.sent := by
  obtain ⟨mgr, cmdBuf, sent, executed, closed⟩ := t
  obtain ⟨rfl, rfl, rfl, rfl⟩ := h
  rfl

/-- What has been sent before decides nothing for this part of the loop. -/
def Unsent (f : Session → Eff Session) : Prop :=
  ∀ s bytes, SameOutcome (f s) (f (s.resend bytes))

theorem Unsent.same {f : Session → Eff Session} (hf : Unsent f) {s t : Session}
    (h : SameWork s t) : SameOutcome (f s) (f t) := by
  rw [h.resend]
  exact hf s t.sent

theorem Unsent.bind {f g : Session → Eff Session} (hf : Unsent f) (hg : Unsent g) :
    Unsent fun s => f s >>= g :=
  fun s bytes => Agree.bind (hf s bytes) fun _ _ _ h => hg.same h

theorem prompt_unsent : Unsent Session.prompt := fun _ _ =>
  Agree.bind_same fun _ _ => .ok ⟨rfl, rfl, rfl, rfl⟩

theorem reload_unsent : Unsent Session.reload := fun _ _ =>
  Agree.bind_same fun _ _ => Agree.bind_same fun _ _ => .ok ⟨rfl, rfl, rfl, rfl⟩

theorem recallCmd_unsent (index : UInt32) : Unsent (recallCmd · index) := fun _ _ =>
  Agree.bind_same fun _ _ => Agree.bind_same fun _ _ => Agree.bind_same fun _ _ =>
    Agree.bind_same fun _ _ => .ok ⟨rfl, rfl, rfl, rfl⟩

theorem onUp_unsent : Unsent Session.onUp := by
  intro s bytes
  rw [onUp_eq, onUp_eq]
  exact Agree.ite (fun _ => reload_unsent (s.setCursor 0) bytes) fun _ =>
    (recallCmd_unsent _).bind reload_unsent (s.setCursor 0) bytes

theorem onDown_unsent : Unsent Session.onDown := by
  intro s bytes
  rw [onDown_eq, onDown_eq]
  exact Agree.ite (fun _ => reload_unsent (s.setCursor 0) bytes) fun _ =>
    (recallCmd_unsent _).bind reload_unsent (s.setCursor 0) bytes

theorem updateHistoryCmd_unsent (cmd : Line) : Unsent (updateHistoryCmd · cmd) := fun s bytes =>
  Agree.ite (fun _ => .ok (sameWork_resend s bytes)) fun _ =>
    Agree.bind_same fun _ _ => Agree.bind_same fun _ _ => Agree.bind_same fun _ _ =>
      Agree.bind_same fun _ _ => .ok ⟨rfl, rfl, rfl, rfl⟩

theorem insertChar_unsent (len : UInt32) (c : UInt8) : Unsent (insertChar · len c) :=
  fun s bytes =>
    Agree.ite (fun _ => .ok (sameWork_resend s bytes)) fun _ =>
      Agree.ite (fun _ => Agree.bind_same fun _ _ => Agree.bind_same fun _ _ =>
        .ok ⟨rfl, rfl, rfl, rfl⟩) fun _ => .ok (sameWork_resend s bytes)

theorem insertRaw_unsent (c : UInt8) : Unsent (Session.insertRaw · c) := fun s bytes =>
  Agree.bind_same fun _ _ => Agree.bind (insertChar_unsent _ c s bytes) fun _ _ _ h =>
    .ok ⟨h.mgr, h.cmdBuf, h.executed, h.closed⟩

theorem append_unsent (line : Line) : Unsent (Session.append · line) := fun _ _ =>
  Agree.bind_same fun _ _ => Agree.bind_same fun _ _ => .ok ⟨rfl, rfl, rfl, rfl⟩

theorem keyboardBacksapce_unsent (len : UInt32) : Unsent (keyboardBacksapce · len) :=
  fun s bytes =>
    Agree.ite (fun _ => .ok (sameWork_resend s bytes)) fun _ =>
      Agree.ite (fun _ => Agree.bind_same fun _ _ => Agree.bind_same fun _ _ =>
          .ok ⟨rfl, rfl, rfl, rfl⟩) fun _ =>
        Agree.bind_same fun _ _ => .ok ⟨rfl, rfl, rfl, rfl⟩

theorem onBackspace_unsent : Unsent Session.onBackspace := fun s bytes =>
  Agree.bind_same fun _ _ => Agree.ite (fun _ => .ok (sameWork_resend s bytes)) fun _ =>
    Agree.bind (keyboardBacksapce_unsent _ (s.send (ascii "\x08 \x08")) _) fun t u _ h => by
      rw [h.mgr]
      exact Agree.ite (fun _ => .ok ⟨h.mgr, h.cmdBuf, h.executed, h.closed⟩) fun _ =>
        .ok ⟨h.mgr, h.cmdBuf, h.executed, h.closed⟩

theorem keyboardMoveLeft_unsent (len : UInt32) : Unsent fun s => .ok (keyboardMoveLeft s len) := by
  refine fun s bytes => .ok ?_
  unfold keyboardMoveLeft
  rw [Session.resend_mgr]
  split
  · exact sameWork_resend s bytes
  · exact ⟨rfl, rfl, rfl, rfl⟩

theorem keyboardMoveRight_unsent : Unsent fun s => .ok (keyboardMoveRight s) := by
  refine fun s bytes => .ok ?_
  unfold keyboardMoveRight
  rw [Session.resend_mgr]
  split
  · exact ⟨rfl, rfl, rfl, rfl⟩
  · exact sameWork_resend s bytes

theorem onLeft_unsent : Unsent Session.onLeft := fun s bytes =>
  Agree.bind_same fun _ _ => keyboardMoveLeft_unsent _ s bytes

theorem cmdOver_unsent : Unsent Session.cmdOver := fun s bytes =>
  Agree.ite (fun _ => Agree.bind (updateHistoryCmd_unsent s.cmdBuf s bytes) fun t u _ h => by
    rw [h.cmdBuf]
    refine Agree.ite (fun _ => .ok ⟨h.mgr, rfl, h.executed, rfl⟩) fun _ =>
      Agree.bind_same fun line _ => prompt_unsent.same ?_
    exact ⟨h.mgr, rfl, congrArg (· ++ [line]) h.executed, h.closed⟩)
    fun _ => .ok (sameWork_resend s bytes)

theorem onEnter_unsent : Unsent Session.onEnter := fun _ _ =>
  Agree.bind_same fun _ _ => Agree.ite (fun _ => Agree.bind_same fun _ _ =>
    cmdOver_unsent.same ⟨rfl, rfl, rfl, rfl⟩) fun _ => .ok ⟨rfl, rfl, rfl, rfl⟩

theorem onOther_unsent (sign : CharSign) (line : Line) : Unsent (Session.onOther sign · line) :=
  fun s bytes => Agree.bind_same fun _ _ =>
    Agree.ite (fun _ => Agree.bind_same fun _ _ => insertChar_unsent _ _ s bytes) fun _ =>
      Agree.ite (fun _ => onEnter_unsent s bytes) fun _ =>
        Agree.ite (fun _ => insertRaw_unsent _ s bytes) fun _ => append_unsent line s bytes

theorem onKey_unsent (sign : CharSign) (line : Line) (key : Key) :
    Unsent (Session.onKey sign · line key) := by
  intro s bytes
  cases key with
  | clearIac => exact .ok (sameWork_resend s bytes)
  | ctrlC => exact prompt_unsent (s.send (ascii "^C")) ((s.resend bytes).send (ascii "^C")).sent
  | ctrlL => exact prompt_unsent.same ⟨rfl, rfl, rfl, rfl⟩
  | up => exact onUp_unsent s bytes
  | down => exact onDown_unsent s bytes
  | right => exact keyboardMoveRight_unsent s bytes
  | left => exact onLeft_unsent s bytes
  | backspace => exact onBackspace_unsent s bytes
  | help => exact .ok ⟨rfl, rfl, rfl, rfl⟩
  | tab => exact .ok ⟨rfl, rfl, rfl, rfl⟩
  | other => exact onOther_unsent sign line s bytes

theorem step_unsent (sign : CharSign) (r : ReadResult) : Unsent (Session.step sign · r) := by
  intro s bytes
  change SameOutcome (s.step sign r) ((s.resend bytes).step sign r)
  cases hOpen : s.closed with
  | true =>
      rw [step_closed sign r hOpen, step_closed sign r ((s.resend_closed bytes).trans hOpen)]
      exact .ok (sameWork_resend s bytes)
  | false =>
      rw [step_open sign r hOpen, step_open sign r ((s.resend_closed bytes).trans hOpen)]
      exact Agree.bind_same fun _ _ => onKey_unsent sign _ _ s bytes

end TelnetDebug

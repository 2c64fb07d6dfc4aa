import TelnetDebug.Session.LatestCommand

/-! What a round adds to the bytes sent. Nothing sent before is taken back, and
the round of a command ends with the prompt. -/
namespace TelnetDebug

open CBuffer Guarded

/-- What `cmd_buf` holds when the prompt is written. -/
def promptText : List UInt8 := ascii "\r\n" ++ debugShell

/-- Bytes are sent, and no command is executed. -/
structure OnlySends (s t : Session) : Prop where
  sent : s.sent <+: t.sent
  executed : t.executed = s.executed

/-- What a round sends. -/
inductive Sends (s t : Session) : Prop where
  | only (h : OnlySends s t)
  | command (before : List UInt8) (hSent : t.sent = s.sent ++ before ++ promptText)
      (hExecuted : t.executed ≠ s.executed)

theorem Sends.sent {s t : Session} (h : Sends s t) :
    s.sent ++ t.sent.drop s.sent.length = t.sent := by
  cases h with
  | only h => exact (List.prefix_append_drop h.sent).symm
  | command before hSent =>
      rw [hSent, List.append_assoc, List.drop_left]

theorem Sends.prompt {s t : Session} (h : Sends s t) (hExecuted : t.executed ≠ s.executed) :
    ∃ before, t.sent.drop s.sent.length = before ++ promptText := by
  cases h with
  | only h => exact absurd h.executed hExecuted
  | command before hSent =>
      use before
      rw [hSent, List.append_assoc, List.drop_left]

section Handlers
variable {s t u : Session}

theorem OnlySends.refl (s : Session) : OnlySends s s := ⟨List.prefix_rfl, rfl⟩

theorem OnlySends.trans (h : OnlySends s t) (h' : OnlySends t u) : OnlySends s u :=
  ⟨h.sent.trans h'.sent, h'.executed.trans h.executed⟩

/-- A state that differs from `s` after a `send` in what is not sent. -/
theorem onlySends_send {bytes : List UInt8} (hSent : t.sent = s.sent ++ bytes)
    (hExecuted : t.executed = s.executed) : OnlySends s t :=
  ⟨hSent ▸ List.prefix_append s.sent bytes, hExecuted⟩

theorem OnlySends.after_send {bytes : List UInt8} (h : OnlySends (s.send bytes) t) :
    OnlySends s t :=
  ⟨(List.prefix_append s.sent bytes).trans h.sent, h.executed⟩

theorem OnlySends.after_cursor {num : UInt32} (h : OnlySends (s.setCursor num) t) :
    OnlySends s t := ⟨h.sent, h.executed⟩

theorem prompt_onlySends (s : Session) : Sat s.prompt (OnlySends s) (fun _ => True) := by
  rw [Session.prompt_eq]
  exact onlySends_send rfl rfl

theorem insertChar_onlySends (s : Session) (len : UInt32) (c : UInt8) :
    Sat (insertChar s len c) (OnlySends s) (fun _ => True) := by
  unfold insertChar
  dsimp only
  split
  · exact .refl s
  · split
    · refine sat_writing_bind (fun _ _ => trivial) fun _ _ => ?_
      refine sat_writing_bind (fun _ _ => trivial) fun _ _ => ?_
      exact onlySends_send (List.append_assoc ..) rfl
    · exact .refl s

theorem keyboardBacksapce_onlySends (s : Session) (len : UInt32) :
    Sat (keyboardBacksapce s len) (OnlySends s) (fun _ => True) := by
  unfold keyboardBacksapce
  dsimp only
  split
  · exact .refl s
  · split
    · refine sat_writing_bind (fun _ _ => trivial) fun _ _ => ?_
      refine sat_writing_bind (fun _ _ => trivial) fun _ _ => ?_
      exact onlySends_send (List.append_assoc ..) rfl
    · exact sat_writing_bind (fun _ _ => trivial) fun _ _ => onlySends_send rfl rfl

theorem onBackspace_onlySends (s : Session) : Sat s.onBackspace (OnlySends s) (fun _ => True) := by
  unfold Session.onBackspace
  refine sat_reading_bind (fun _ _ => trivial) fun len _ => ?_
  split
  · exact .refl s
  · refine (keyboardBacksapce_onlySends _ _).bind fun t h => ?_
    have hBefore : OnlySends s t := h.after_send
    dsimp only
    split
    · exact hBefore.trans (onlySends_send rfl rfl)
    · exact hBefore.trans (onlySends_send rfl rfl)

theorem insertRaw_onlySends (s : Session) (c : UInt8) :
    Sat (s.insertRaw c) (OnlySends s) (fun _ => True) := by
  unfold Session.insertRaw
  refine sat_reading_bind (fun _ _ => trivial) fun len _ => ?_
  refine (insertChar_onlySends s _ c).bind fun t h => ?_
  exact h.trans (onlySends_send rfl rfl)

theorem append_onlySends (s : Session) (line : Line) :
    Sat (s.append line) (OnlySends s) (fun _ => True) := by
  unfold Session.append
  refine sat_reading_bind (fun _ _ => trivial) fun bytes _ => ?_
  refine (Sat.any _).bind fun _ _ => ?_
  exact onlySends_send rfl rfl

theorem recallCmd_onlySends (s : Session) (index : UInt32) :
    Sat (recallCmd s index) (OnlySends s) (fun _ => True) := by
  unfold recallCmd
  refine (Sat.any _).bind fun _ _ => ?_
  refine sat_writing_bind (fun _ _ => trivial) fun buf _ => ?_
  refine (Sat.any _).bind fun _ _ => ?_
  refine sat_writing_bind (fun _ _ => trivial) fun gCmd _ => ?_
  exact onlySends_send rfl rfl

theorem reload_onlySends (s : Session) : Sat s.reload (OnlySends s) (fun _ => True) := by
  unfold Session.reload
  refine sat_reading_bind (fun _ _ => trivial) fun line _ => ?_
  exact sat_writing_bind (fun _ _ => trivial) fun buf _ => ⟨List.prefix_rfl, rfl⟩

theorem onUp_onlySends (s : Session) : Sat s.onUp (OnlySends s) (fun _ => True) := by
  rw [onUp_eq]
  split
  · exact (reload_onlySends _).imp fun _ => OnlySends.after_cursor
  · refine (recallCmd_onlySends _ _).bind fun t h => ?_
    exact (reload_onlySends t).imp fun _ h' => (h.trans h').after_cursor

theorem onDown_onlySends (s : Session) : Sat s.onDown (OnlySends s) (fun _ => True) := by
  rw [onDown_eq]
  split
  · exact (reload_onlySends _).imp fun _ => OnlySends.after_cursor
  · refine (recallCmd_onlySends _ _).bind fun t h => ?_
    exact (reload_onlySends t).imp fun _ h' => (h.trans h').after_cursor

theorem onLeft_onlySends (s : Session) : Sat s.onLeft (OnlySends s) (fun _ => True) := by
  unfold Session.onLeft
  refine sat_reading_bind (fun _ _ => trivial) fun len _ => ?_
  change OnlySends s (keyboardMoveLeft s _)
  unfold keyboardMoveLeft
  split
  · exact .refl s
  · exact onlySends_send rfl rfl

theorem onRight_onlySends (s : Session) : OnlySends s (keyboardMoveRight s) := by
  unfold keyboardMoveRight
  split
  · exact onlySends_send rfl rfl
  · exact .refl s

/-- After the echo of Enter either nothing more is sent, or the prompt. -/
theorem cmdOver_sends (h : OnlySends s u) (hTerm : Terminated u.cmdBuf.cells) :
    Sat u.cmdOver (Sends s) (fun _ => True) := by
  obtain ⟨before, hSent⟩ := h.sent
  unfold Session.cmdOver
  split
  · obtain ⟨m, hUpdate, -⟩ := updateHistoryCmd_records (s := u) hTerm
    rw [hUpdate, ok_bind]
    dsimp only
    split
    · exact .only ⟨h.sent, h.executed⟩
    · rw [Buffer.str_eq hTerm, reading_ok, ok_bind, Session.prompt_eq]
      refine .command before (by rw [hSent]; rfl) ?_
      change u.executed ++ [_] ≠ s.executed
      rw [h.executed]
      simp
  · exact .only h

theorem onEnter_sends (s : Session) : Sat s.onEnter (Sends s) (fun _ => True) := by
  by_cases hTerm : Terminated s.cmdBuf.cells
  · by_cases hNone : text s.cmdBuf.cells = []
    · rw [onEnter_empty hTerm hNone]
      exact .only (onlySends_send rfl rfl)
    · rw [onEnter_spec hTerm hNone]
      exact cmdOver_sends (onlySends_send rfl rfl) hTerm
  · rw [onEnter_error hTerm]
    trivial

end Handlers

theorem step_sends (sign : CharSign) (s : Session) (r : ReadResult) :
    Sat (s.step sign r) (Sends s) (fun _ => True) := by
  have hOnly {x : Eff Session} (h : Sat x (OnlySends s) (fun _ => True)) :
      Sat x (Sends s) (fun _ => True) := h.imp fun _ => .only
  refine step_sat (fun _ => .only (.refl s)) (fun _ => trivial) fun _ _ => ?_
  cases keyRead sign r with
  | clearIac => exact .only (.refl s)
  | help => exact .only (onlySends_send (List.append_assoc ..) rfl)
  | tab => exact .only (onlySends_send rfl rfl)
  | ctrlC | ctrlL =>
      exact hOnly ((prompt_onlySends _).imp fun t h => h.after_send)
  | up => exact hOnly (onUp_onlySends s)
  | down => exact hOnly (onDown_onlySends s)
  | right => exact .only (onRight_onlySends s)
  | left => exact hOnly (onLeft_onlySends s)
  | backspace => exact hOnly (onBackspace_onlySends s)
  | other =>
      exact onOther_sat (fun _ => trivial) (fun _ _ _ _ => hOnly (insertChar_onlySends s _ _))
        (onEnter_sends s) (fun _ _ _ _ => hOnly (insertRaw_onlySends s _))
        (fun _ _ => hOnly (append_onlySends s _))

end TelnetDebug

import TelnetDebug.Library.Guarded

/-! Computations that log their events. Forgetting the log gives a plain
computation back, and a rule of partial correctness speaks of the events beside
the value and the faults. -/
namespace Traced

open Guarded

/-- What a computation returns, or the fault it ends in, and its events up to
there. -/
structure Run (ω ε α : Type) where
  result : Except ε α
  log : List ω

variable {ω ε α β : Type}

namespace Run

def bind (x : Run ω ε α) (f : α → Run ω ε β) : Run ω ε β :=
  match x.result with
  | .ok a => ⟨(f a).result, x.log ++ (f a).log⟩
  | .error e => ⟨.error e, x.log⟩

instance : Monad (Run ω ε) where
  pure a := ⟨.ok a, []⟩
  bind := bind

/-- A value together with one event. -/
def event (w : ω) (a : α) : Run ω ε α := ⟨.ok a, [w]⟩

/-- A computation with the events it stands for. -/
def lift (log : List ω) (x : Except ε α) : Run ω ε α := ⟨x, log⟩

@[simp] theorem result_pure (a : α) : (pure a : Run ω ε α).result = .ok a := rfl

@[simp] theorem log_pure (a : α) : (pure a : Run ω ε α).log = [] := rfl

@[simp] theorem result_event (w : ω) (a : α) : (event w a : Run ω ε α).result = .ok a := rfl

theorem bind_ok {x : Run ω ε α} {a : α} (h : x.result = .ok a) (f : α → Run ω ε β) :
    x >>= f = ⟨(f a).result, x.log ++ (f a).log⟩ := by
  change Run.bind x f = _
  rw [Run.bind, h]

theorem bind_error {x : Run ω ε α} {e : ε} (h : x.result = .error e) (f : α → Run ω ε β) :
    x >>= f = ⟨.error e, x.log⟩ := by
  change Run.bind x f = _
  rw [Run.bind, h]

/-- The first of two computations returned when their composition did. -/
theorem bind_returns {x : Run ω ε α} {f : α → Run ω ε β} {b : β}
    (h : (x >>= f).result = .ok b) :
    ∃ a, x.result = .ok a ∧ (f a).result = .ok b ∧ (x >>= f).log = x.log ++ (f a).log := by
  cases hx : x.result with
  | ok a =>
      rw [bind_ok hx] at h ⊢
      exact ⟨a, rfl, h, rfl⟩
  | error e =>
      rw [bind_error hx] at h
      cases h

@[simp] theorem result_event_bind (w : ω) (a : α) (f : α → Run ω ε β) :
    (event w a >>= f).result = (f a).result := rfl

@[simp] theorem log_event_bind (w : ω) (a : α) (f : α → Run ω ε β) :
    (event w a >>= f).log = w :: (f a).log := rfl

theorem result_ite (p : Prop) [Decidable p] (x y : Run ω ε α) :
    (if p then x else y).result = if p then x.result else y.result := apply_ite ..

end Run

/-- The run is the plain computation with a log. -/
def Erases (x : Run ω ε α) (y : Except ε α) : Prop := x.result = y

theorem erases_pure (a : α) : Erases (pure a : Run ω ε α) (pure a) := rfl

theorem erases_lift (log : List ω) (x : Except ε α) : Erases (Run.lift log x) x := rfl

theorem Erases.bind {x : Run ω ε α} {y : Except ε α} {f : α → Run ω ε β} {g : α → Except ε β}
    (hFirst : Erases x y) (hRest : ∀ a, Erases (f a) (g a)) : Erases (x >>= f) (y >>= g) := by
  unfold Erases at *
  cases y with
  | ok a =>
      rw [Run.bind_ok hFirst]
      exact hRest a
  | error e =>
      rw [Run.bind_error hFirst]
      rfl

theorem erases_ite {p : Prop} [Decidable p] {x x' : Run ω ε α} {y y' : Except ε α}
    (hThen : p → Erases x y) (hElse : ¬ p → Erases x' y') :
    Erases (if p then x else x') (if p then y else y') := by
  split
  · exact hThen ‹_›
  · exact hElse ‹_›

/-- All events satisfy `inv`, a returned value satisfies `post`, and a fault
satisfies `fault`. -/
structure Respects (x : Run ω ε α) (inv : ω → Prop) (post : α → Prop) (fault : ε → Prop) :
    Prop where
  events : ∀ w ∈ x.log, inv w
  result : Sat x.result post fault

section Rules
variable {inv : ω → Prop} {post : α → Prop} {fault : ε → Prop}

theorem respects_pure {a : α} (h : post a) : Respects (pure a : Run ω ε α) inv post fault :=
  ⟨fun _ hw => absurd hw List.not_mem_nil, h⟩

theorem respects_event {w : ω} {a : α} (hEvent : inv w) (h : post a) :
    Respects (Run.event w a : Run ω ε α) inv post fault :=
  ⟨fun _ hw => List.mem_singleton.mp hw ▸ hEvent, h⟩

theorem respects_lift {log : List ω} {x : Except ε α} (hEvents : ∀ w ∈ log, inv w)
    (h : Sat x post fault) : Respects (Run.lift log x) inv post fault := ⟨hEvents, h⟩

theorem respects_bind {x : Run ω ε β} {f : β → Run ω ε α} {mid : β → Prop}
    (hFirst : Respects x inv mid fault) (hRest : ∀ b, mid b → Respects (f b) inv post fault) :
    Respects (x >>= f) inv post fault := by
  have hResult := hFirst.result
  cases hx : x.result with
  | ok b =>
      rw [hx] at hResult
      have hNext := hRest b hResult
      rw [Run.bind_ok hx]
      refine ⟨fun w hw => ?_, hNext.result⟩
      rcases List.mem_append.mp hw with hw | hw
      · exact hFirst.events w hw
      · exact hNext.events w hw
  | error e =>
      rw [hx] at hResult
      rw [Run.bind_error hx]
      exact ⟨hFirst.events, hResult⟩

theorem respects_event_bind {w : ω} {b : β} {f : β → Run ω ε α} (hEvent : inv w)
    (hRest : Respects (f b) inv post fault) : Respects (Run.event w b >>= f) inv post fault := by
  apply respects_bind (respects_event hEvent (rfl : b = b))
  rintro _ rfl
  exact hRest

/-- A plain computation that is known to return. -/
theorem respects_lift_bind {log : List ω} {b : β} {f : β → Run ω ε α} (hEvents : ∀ w ∈ log, inv w)
    (hRest : Respects (f b) inv post fault) :
    Respects (Run.lift log (.ok b) >>= f) inv post fault := by
  have hFirst : Respects (Run.lift log (.ok b)) inv (· = b) fault := respects_lift hEvents rfl
  apply respects_bind hFirst
  rintro _ rfl
  exact hRest

theorem Respects.mono {x : Run ω ε α} {post' : α → Prop} (h : Respects x inv post fault)
    (hPost : ∀ a, post a → post' a) : Respects x inv post' fault :=
  ⟨h.events, h.result.imp hPost⟩

end Rules

end Traced

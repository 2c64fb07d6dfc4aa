import Mathlib.Data.List.Infix

/-! Partial correctness of computations that may fault, and of the runs of a
step function that consumes one input at a time. A fault ends a run; the rules
carry both what holds of the state reached and which faults can end it. -/
namespace Guarded

variable {ε σ ι κ τ α β : Type}

/-- A returned value satisfies `post`, and a fault satisfies `fault`. -/
def Sat (x : Except ε α) (post : α → Prop) (fault : ε → Prop) : Prop :=
  match x with
  | .ok a => post a
  | .error e => fault e

theorem Sat.bind {x : Except ε α} {f : α → Except ε β} {mid : α → Prop} {post : β → Prop}
    {fault : ε → Prop} (hFirst : Sat x mid fault)
    (hRest : ∀ a, mid a → Sat (f a) post fault) : Sat (x >>= f) post fault := by
  cases x with
  | ok a => exact hRest a hFirst
  | error e => exact hFirst

theorem Sat.mono {x : Except ε α} {post post' : α → Prop} {fault fault' : ε → Prop}
    (h : Sat x post fault) (hPost : ∀ a, post a → post' a)
    (hFault : ∀ e, fault e → fault' e) : Sat x post' fault' := by
  cases x with
  | ok a => exact hPost a h
  | error e => exact hFault e h

/-- The faults stay as they are. -/
theorem Sat.imp {x : Except ε α} {post post' : α → Prop} {fault : ε → Prop}
    (h : Sat x post fault) (hPost : ∀ a, post a → post' a) : Sat x post' fault :=
  h.mono hPost fun _ => id

/-- A fault told in other terms. -/
theorem Sat.mapError {ε' : Type} {x : Except ε α} {f : ε → ε'} {post : α → Prop}
    {fault : ε' → Prop} (h : Sat x post (fun e => fault (f e))) :
    Sat (x.mapError f) post fault := by
  cases x with
  | ok a => exact h
  | error e => exact h

/-- Nothing is said of a computation that may do anything. -/
theorem Sat.any (x : Except ε α) : Sat x (fun _ => True) (fun _ => True) := by
  cases x with
  | ok a => exact trivial
  | error e => exact trivial

theorem Sat.and {x : Except ε α} {post post' : α → Prop} {fault fault' : ε → Prop}
    (h : Sat x post fault) (h' : Sat x post' fault') :
    Sat x (fun a => post a ∧ post' a) (fun e => fault e ∧ fault' e) := by
  cases x with
  | ok a => exact ⟨h, h'⟩
  | error e => exact ⟨h, h'⟩

instance (x : Except ε α) (post : α → Prop) (fault : ε → Prop) [∀ a, Decidable (post a)]
    [∀ e, Decidable (fault e)] : Decidable (Sat x post fault) :=
  match x with
  | .ok a => inferInstanceAs (Decidable (post a))
  | .error e => inferInstanceAs (Decidable (fault e))

/-- Where no fault is admitted, the computation returned. -/
theorem Sat.returns {x : Except ε α} {post : α → Prop} (h : Sat x post (fun _ => False)) :
    ∃ a, x = .ok a ∧ post a := by
  cases x with
  | ok a => exact ⟨a, rfl, h⟩
  | error e => exact h.elim

theorem Sat.both_return {x : Except ε α} {y : Except ε β} {post : α → Prop} {post' : β → Prop}
    (hFirst : Sat x post (fun _ => False)) (hSecond : Sat y post' (fun _ => False)) :
    ∃ a b, x = .ok a ∧ y = .ok b ∧ post a ∧ post' b := by
  obtain ⟨a, hx, hPost⟩ := hFirst.returns
  obtain ⟨b, hy, hPost'⟩ := hSecond.returns
  exact ⟨a, b, hx, hy, hPost, hPost'⟩

/-- Where no value is admitted, the computation faulted. -/
theorem Sat.faults {x : Except ε α} {e : ε} (h : Sat x (fun _ => False) (· = e)) :
    x = .error e := by
  cases x with
  | ok a => exact h.elim
  | error f => exact congrArg Except.error h

/-- Computations that share neither a value nor a fault are different. -/
theorem Sat.ne {x y : Except ε α} {post post' : α → Prop} {fault fault' : ε → Prop}
    (hFirst : Sat x post fault) (hSecond : Sat y post' fault')
    (hPost : ∀ a, post a → ¬ post' a) (hFault : ∀ e, fault e → ¬ fault' e) : x ≠ y := by
  rintro rfl
  cases x with
  | ok a => exact hPost a hFirst hSecond
  | error e => exact hFault e hFirst hSecond

/-- Both computations return, with related values, or both end in the same
fault. -/
inductive Agree (rel : α → β → Prop) : Except ε α → Except ε β → Prop where
  | ok {a : α} {b : β} (h : rel a b) : Agree rel (.ok a) (.ok b)
  | error (e : ε) : Agree rel (.error e) (.error e)

theorem Agree.refl {rel : α → α → Prop} (h : ∀ a, rel a a) (x : Except ε α) : Agree rel x x := by
  cases x with
  | ok a => exact .ok (h a)
  | error e => exact .error e

theorem Agree.symm {rel : α → α → Prop} (h : ∀ a b, rel a b → rel b a) {x y : Except ε α}
    (hAgree : Agree rel x y) : Agree rel y x := by
  cases hAgree with
  | ok hRel => exact .ok (h _ _ hRel)
  | error e => exact .error e

theorem Agree.trans {rel : α → α → Prop} (h : ∀ a b c, rel a b → rel b c → rel a c)
    {x y z : Except ε α} (hFirst : Agree rel x y) (hSecond : Agree rel y z) : Agree rel x z := by
  cases hFirst with
  | ok hRel =>
      cases hSecond with
      | ok hNext => exact .ok (h _ _ _ hRel hNext)
  | error e => exact hSecond

theorem Agree.bind {γ δ : Type} {rel : α → β → Prop} {next : γ → δ → Prop} {x : Except ε α}
    {y : Except ε β} {f : α → Except ε γ} {g : β → Except ε δ} (hFirst : Agree rel x y)
    (hRest : ∀ a b, x = .ok a → rel a b → Agree next (f a) (g b)) :
    Agree next (x >>= f) (y >>= g) := by
  cases hFirst with
  | ok hRel => exact hRest _ _ rfl hRel
  | error e => exact .error e

/-- Computations that begin alike agree when what follows agrees. -/
theorem Agree.bind_same {γ δ : Type} {next : γ → δ → Prop} {x : Except ε α}
    {f : α → Except ε γ} {g : α → Except ε δ} (hRest : ∀ a, x = .ok a → Agree next (f a) (g a)) :
    Agree next (x >>= f) (x >>= g) := by
  cases x with
  | ok a => exact hRest a rfl
  | error e => exact .error e

theorem Agree.ite {rel : α → β → Prop} {p : Prop} [Decidable p] {x x' : Except ε α}
    {y y' : Except ε β} (hThen : p → Agree rel x y) (hElse : ¬ p → Agree rel x' y') :
    Agree rel (if p then x else x') (if p then y else y') := by
  by_cases h : p
  · rw [if_pos h, if_pos h]
    exact hThen h
  · rw [if_neg h, if_neg h]
    exact hElse h

/-- The first of two computations returned when their composition did. -/
theorem bind_eq_ok {x : Except ε α} {f : α → Except ε β} {b : β} :
    x >>= f = .ok b ↔ ∃ a, x = .ok a ∧ f a = .ok b := by
  constructor
  · intro h
    cases x with
    | ok a => exact ⟨a, rfl, h⟩
    | error e => cases h
  · rintro ⟨a, rfl, h⟩
    exact h

@[simp] theorem ok_bind (a : α) (f : α → Except ε β) :
    (Except.ok a >>= f : Except ε β) = f a := rfl

@[simp] theorem error_bind (e : ε) (f : α → Except ε β) :
    (Except.error e >>= f : Except ε β) = .error e := rfl

section Runs
variable (step : σ → ι → Except ε σ)

/-- Consume the inputs from left to right; the first fault ends the run. -/
def run (s : σ) (inputs : List ι) : Except ε σ := inputs.foldlM step s

@[simp] theorem run_nil (s : σ) : run step s [] = .ok s := rfl

@[simp] theorem run_cons (s : σ) (i : ι) (inputs : List ι) :
    run step s (i :: inputs) = step s i >>= fun t => run step t inputs := rfl

theorem run_append (s : σ) (first second : List ι) :
    run step s (first ++ second) = run step s first >>= fun t => run step t second :=
  List.foldlM_append

theorem run_map (read : κ → ι) (s : σ) (keys : List κ) :
    run step s (keys.map read) = run (fun s key => step s (read key)) s keys :=
  List.foldlM_map

/-- `t` is a state reached from `s` after some of the inputs. -/
def Visits (s : σ) (inputs : List ι) (t : σ) : Prop :=
  ∃ taken, taken <+: inputs ∧ run step s taken = .ok t

/-- Every step of the run is taken in a state and on an input that meet the
condition. Nothing is asked after a fault. -/
def Meets (cond : σ → ι → Prop) : σ → List ι → Prop
  | _, [] => True
  | s, i :: inputs => cond s i ∧ ∀ t, step s i = .ok t → Meets cond t inputs

instance meetsDecidable (cond : σ → ι → Prop) [∀ s i, Decidable (cond s i)] :
    (s : σ) → (inputs : List ι) → Decidable (Meets step cond s inputs)
  | _, [] => isTrue trivial
  | s, i :: inputs =>
      match h : step s i with
      | .ok t =>
          have := meetsDecidable cond t inputs
          decidable_of_iff (cond s i ∧ Meets step cond t inputs) (by simp [Meets, h])
      | .error _ => decidable_of_iff (cond s i) (by simp [Meets, h])

variable {step}

theorem Meets.of_forall {cond : σ → ι → Prop} (h : ∀ s i, cond s i) {s : σ} {inputs : List ι} :
    Meets step cond s inputs := by
  induction inputs generalizing s with
  | nil => exact trivial
  | cons i inputs ih => exact ⟨h s i, fun _ _ => ih⟩

theorem Meets.mono {cond cond' : σ → ι → Prop} {s : σ} {inputs : List ι}
    (h : Meets step cond s inputs) (hCond : ∀ i ∈ inputs, ∀ t, cond t i → cond' t i) :
    Meets step cond' s inputs := by
  induction inputs generalizing s with
  | nil => exact trivial
  | cons i inputs ih =>
      exact ⟨hCond i List.mem_cons_self s h.1, fun t hStep =>
        ih (h.2 t hStep) fun j hj => hCond j (List.mem_cons_of_mem i hj)⟩

theorem Meets.of_taken {cond : σ → ι → Prop} {s : σ} {taken inputs : List ι}
    (h : Meets step cond s inputs) (hPrefix : taken <+: inputs) :
    Meets step cond s taken := by
  induction taken generalizing s inputs with
  | nil => exact trivial
  | cons i taken ih =>
      obtain ⟨rest, rfl⟩ := hPrefix
      exact ⟨h.1, fun t hStep => ih (h.2 t hStep) (List.prefix_append _ _)⟩

/-- What one step preserves under the condition, a run that meets the
condition preserves; its faults are among the faults of the steps. -/
theorem run_sat {inv : σ → Prop} {cond : σ → ι → Prop} {fault : ε → Prop}
    (hStep : ∀ s i, inv s → cond s i → Sat (step s i) inv fault)
    {s : σ} {inputs : List ι} (hInv : inv s) (hMeets : Meets step cond s inputs) :
    Sat (run step s inputs) inv fault := by
  induction inputs generalizing s with
  | nil => exact hInv
  | cons i inputs ih =>
      have hFirst := hStep s i hInv hMeets.1
      rw [run_cons]
      cases h : step s i with
      | ok t =>
          rw [h] at hFirst
          exact ih hFirst (hMeets.2 t h)
      | error e =>
          rw [h] at hFirst
          exact hFirst

/-- Steps that agree from related states make runs that agree. -/
theorem run_agree {rel : σ → σ → Prop}
    (hStep : ∀ s t i, rel s t → Agree rel (step s i) (step t i)) {s t : σ} (hRel : rel s t)
    (inputs : List ι) : Agree rel (run step s inputs) (run step t inputs) := by
  induction inputs generalizing s t with
  | nil => exact .ok hRel
  | cons i inputs ih => exact (hStep s t i hRel).bind fun _ _ _ hNext => ih hNext

/-- A run ends in a fault at a step that ends in this fault. -/
theorem run_faults {s : σ} {inputs : List ι} {e : ε} (h : run step s inputs = .error e) :
    ∃ taken i t, taken ++ [i] <+: inputs ∧ run step s taken = .ok t ∧ step t i = .error e := by
  induction inputs generalizing s with
  | nil => cases h
  | cons i inputs ih =>
      rw [run_cons] at h
      cases hFirst : step s i with
      | error e' =>
          rw [hFirst] at h
          exact ⟨[], i, s, List.prefix_append [i] inputs, rfl, hFirst.trans h⟩
      | ok t =>
          rw [hFirst] at h
          obtain ⟨taken, j, u, hPrefix, hRun, hLast⟩ := ih h
          exact ⟨i :: taken, j, u, List.cons_prefix_cons.mpr ⟨rfl, hPrefix⟩,
            by rw [run_cons, hFirst, ok_bind, hRun], hLast⟩

/-- An invariant of the steps holds in every state a run visits. -/
theorem Visits.invariant {inv : σ → Prop} {cond : σ → ι → Prop}
    (hStep : ∀ s i, inv s → cond s i → Sat (step s i) inv (fun _ => True))
    {s t : σ} {inputs : List ι} (hVisit : Visits step s inputs t) (hInv : inv s)
    (hMeets : Meets step cond s inputs) : inv t := by
  obtain ⟨taken, hPrefix, hRun⟩ := hVisit
  have h := run_sat hStep hInv (hMeets.of_taken hPrefix)
  rwa [hRun] at h

/-- Lift a forward simulation from one input to a run. The abstract machine is
total; the concrete one must not fault where the condition holds. -/
theorem run_simulates {rel : σ → τ → Prop} {next : τ → ι → τ} {cond : τ → ι → Prop}
    (hStep : ∀ s a i, rel s a → cond a i → ∃ t, step s i = .ok t ∧ rel t (next a i))
    {s : σ} {a : τ} {inputs : List ι} (hRel : rel s a)
    (hCond : ∀ taken i, taken ++ [i] <+: inputs → cond (taken.foldl next a) i) :
    ∃ t, run step s inputs = .ok t ∧ rel t (inputs.foldl next a) := by
  induction inputs generalizing s a with
  | nil => exact ⟨s, rfl, hRel⟩
  | cons i inputs ih =>
      obtain ⟨t, hFirst, hNext⟩ := hStep s a i hRel (hCond [] i (by simp))
      obtain ⟨u, hRest, hFinal⟩ := ih hNext fun taken j hPrefix =>
        hCond (i :: taken) j (List.cons_prefix_cons.mpr ⟨rfl, hPrefix⟩)
      exact ⟨u, by rw [run_cons, hFirst, ok_bind, hRest], hFinal⟩

end Runs

end Guarded

import TelnetDebug.Library.Calls
import Mathlib.Algebra.Order.Group.Multiset

/-! What a program holds of the system: memory, open files. A computation that
acquires and releases is compared with the same computation without its
resources. A release of what is not held is a fault, so that a computation free
of such faults releases nothing twice. -/
namespace Resources

open Guarded Posix

variable {κ ε α β γ δ ι : Type}

/-- A resource, with what it was acquired for. -/
structure Resource (κ : Type) where
  kind : κ
  number : Nat
deriving DecidableEq

/-- The resources that are held. No number is given twice. -/
structure Ledger (κ : Type) where
  held : Multiset (Resource κ)
  next : Nat
  distinct : held.Nodup
  given : ∀ r ∈ held, r.number < next

namespace Ledger

def empty : Ledger κ := ⟨0, 0, Multiset.nodup_zero, fun _ h => absurd h (Multiset.notMem_zero _)⟩

/-- The resource that is acquired next. -/
def fresh (l : Ledger κ) (kind : κ) : Resource κ := ⟨kind, l.next⟩

def acquire (l : Ledger κ) (kind : κ) : Ledger κ where
  held := l.fresh kind ::ₘ l.held
  next := l.next + 1
  distinct := Multiset.nodup_cons.mpr ⟨fun h => Nat.lt_irrefl _ (l.given _ h), l.distinct⟩
  given := by
    intro r h
    rcases Multiset.mem_cons.mp h with rfl | h
    · exact Nat.lt_succ_self _
    · exact Nat.lt_succ_of_lt (l.given r h)

def release [DecidableEq κ] (l : Ledger κ) (r : Resource κ) : Ledger κ where
  held := l.held.erase r
  next := l.next
  distinct := l.distinct.erase r
  given _ h := l.given _ (Multiset.mem_of_mem_erase h)

end Ledger

/-- A fault of the computation itself, or the release of what is not held. -/
inductive Fault (κ ε : Type) where
  | own (e : ε)
  | notHeld (r : Resource κ)

/-- A computation that makes calls and keeps a ledger. -/
abbrev Tracked (κ ε α : Type) := StateT (OsState × Ledger κ) (Except (Fault κ ε)) α

/-- Calls that leave the ledger as it is. -/
def call (x : Call ε α) : Tracked κ ε α := fun (s, l) =>
  match x s with
  | .ok (a, t) => .ok (a, t, l)
  | .error e => .error (.own e)

def acquire (kind : κ) : Tracked κ ε (Resource κ) := fun (s, l) =>
  .ok (l.fresh kind, s, l.acquire kind)

/-- A null pointer is released without effect. -/
def release [DecidableEq κ] : Option (Resource κ) → Tracked κ ε Unit
  | none => pure ()
  | some r => fun (s, l) =>
      if r ∈ l.held then .ok ((), s, l.release r) else .error (.notHeld r)

/-- Fresh memory with its contents. -/
def mallocFor (kind : κ) (sys : System) (size : UInt64) :
    Tracked κ ε (Option (Resource κ × List UInt8)) := do
  match ← call (malloc sys size) with
  | none => return none
  | some memory => return some (← acquire kind, memory)

/-- Memory whose contents are written at once. -/
def allocateFor (kind : κ) (sys : System) : Tracked κ ε (Option (Resource κ)) := do
  if ← call (allocates sys) then return some (← acquire kind) else return none

/-- Memory in place of other memory, which is kept when there is none, and freed when
none is asked for. -/
def reallocFor [DecidableEq κ] (kind : κ) (sys : System) (old : Option (Resource κ))
    (size : UInt64) : Tracked κ ε (Option (Resource κ)) := do
  if ← call (realloc sys old.isSome size) then
    release old
    return some (← acquire kind)
  else
    release (if size = 0 then old else none)
    return none

/-- What a pointer refers to. -/
def pointee : Option (Resource κ) → Multiset (Resource κ)
  | none => 0
  | some r => {r}

/-- `x` is the computation `y` with its resources: it returns what `y` returns
and ends in the faults of `y` alone, and `post` holds of the ledger. -/
def Accounts (x : Tracked κ ε α) (y : Call ε β) (forget : α → β) (s : OsState) (l : Ledger κ)
    (post : α → Ledger κ → Prop) : Prop :=
  Sat (x (s, l)) (fun r => y s = .ok (forget r.1, r.2.1) ∧ post r.1 r.2.2)
    (fun e => ∃ own, e = .own own ∧ y s = .error own)

section Rules
variable {x : Tracked κ ε α} {y : Call ε β} {forget : α → β} {s : OsState} {l : Ledger κ}
  {post post' : α → Ledger κ → Prop}

theorem accounts_pure {a : α} {b : β} (hForget : forget a = b) (h : post a l) :
    Accounts (pure a : Tracked κ ε α) (pure b) forget s l post := ⟨hForget ▸ rfl, h⟩

theorem Accounts.imp (h : Accounts x y forget s l post) (hPost : ∀ a l', post a l' → post' a l') :
    Accounts x y forget s l post' :=
  Sat.imp h fun _ hr => ⟨hr.1, hPost _ _ hr.2⟩

/-- What is known of the computation without resources. -/
theorem Accounts.sat (h : Accounts x y forget s l post) {mid : β × OsState → Prop}
    {fault : ε → Prop} (hSat : Sat (y s) mid fault) :
    Accounts x y forget s l (fun a l' => post a l' ∧ ∃ t, mid (forget a, t)) := by
  apply Sat.imp h
  rintro r ⟨hReturned, hPost⟩
  rw [hReturned] at hSat
  exact ⟨hReturned, hPost, _, hSat⟩

/-- Where the computation without resources returns, so does the other one. -/
theorem Accounts.returns (h : Accounts x y forget s l post) {mid : β × OsState → Prop}
    (hSat : Sat (y s) mid (fun _ => False)) :
    Sat (x (s, l)) (fun r => mid (forget r.1, r.2.1) ∧ post r.1 r.2.2) (fun _ => False) := by
  apply Sat.mono h
  · rintro r ⟨hReturned, hPost⟩
    rw [hReturned] at hSat
    exact ⟨hSat, hPost⟩
  · rintro _ ⟨own, rfl, hFault⟩
    rw [hFault] at hSat
    exact hSat

theorem Accounts.bind {mid : α → Ledger κ → Prop} {k : α → Tracked κ ε γ} {k' : β → Call ε δ}
    {forget' : γ → δ} {post : γ → Ledger κ → Prop} (hFirst : Accounts x y forget s l mid)
    (hRest : ∀ a t l', y s = .ok (forget a, t) → mid a l' →
      Accounts (k a) (k' (forget a)) forget' t l' post) :
    Accounts (x >>= k) (y >>= k') forget' s l post := by
  unfold Accounts at *
  change Sat (x (s, l) >>= fun r => k r.1 r.2) _ _
  have hBind (t : Except ε (β × OsState)) (h : y s = t) :
      (y >>= k') s = t >>= fun r => k' r.1 r.2 := by
    rw [← h]
    rfl
  cases hx : x (s, l) with
  | ok r =>
      rw [hx] at hFirst
      obtain ⟨hReturned, hMid⟩ := hFirst
      rw [hBind _ hReturned]
      exact hRest r.1 r.2.1 r.2.2 hReturned hMid
  | error e =>
      rw [hx] at hFirst
      obtain ⟨own, rfl, hFault⟩ := hFirst
      rw [hBind _ hFault]
      exact ⟨own, rfl, rfl⟩

/-- The value in another form. -/
theorem Accounts.map (h : Accounts x y forget s l post) {g : α → γ} {forget' : γ → β}
    {post' : γ → Ledger κ → Prop} (hForget : ∀ a, forget' (g a) = forget a)
    (hPost : ∀ a l', post a l' → post' (g a) l') :
    Accounts (x >>= fun a => pure (g a)) y forget' s l post' := by
  rw [← bind_pure y]
  apply h.bind
  intro a t l' _ ha
  exact accounts_pure (hForget a) (hPost a l' ha)

theorem accounts_throw {e : ε} :
    Accounts (call (throw e) : Tracked κ ε α) (throw e : Call ε β) forget s l post :=
  ⟨e, rfl, rfl⟩

/-- Nothing comes behind a fault. -/
theorem accounts_throw_bind {e : ε} {k : γ → Tracked κ ε α} :
    Accounts (call (throw e) >>= k) (throw e : Call ε β) forget s l post := ⟨e, rfl, rfl⟩

theorem accounts_call {x : Call ε α} :
    Accounts (call x : Tracked κ ε α) x id s l (fun _ l' => l' = l) := by
  unfold Accounts call
  dsimp only
  cases hx : x s with
  | ok r => exact ⟨rfl, rfl⟩
  | error e => exact ⟨e, rfl, rfl⟩

/-- A call of both computations. -/
theorem accounts_call_bind {x : Call ε ι} {k : ι → Tracked κ ε γ} {k' : ι → Call ε δ}
    {forget : γ → δ} {post : γ → Ledger κ → Prop}
    (hRest : ∀ a t, x s = .ok (a, t) → Accounts (k a) (k' a) forget t l post) :
    Accounts (call x >>= k) (x >>= k') forget s l post := by
  apply accounts_call.bind
  rintro a t _ hReturned rfl
  exact hRest a t hReturned

/-- The computation without resources waits for the other one. -/
theorem accounts_acquire_bind {kind : κ} {k : Resource κ → Tracked κ ε α}
    (hRest : ∀ r l', r.kind = kind → l'.held = {r} + l.held → Accounts (k r) y forget s l' post) :
    Accounts (acquire kind >>= k) y forget s l post :=
  hRest (l.fresh kind) (l.acquire kind) rfl (Multiset.singleton_add _ _).symm

theorem accounts_release_bind [DecidableEq κ] {r : Option (Resource κ)}
    {rest : Multiset (Resource κ)} {k : Unit → Tracked κ ε α} (hHeld : l.held = pointee r + rest)
    (hRest : ∀ l' : Ledger κ, l'.held = rest → Accounts (k ()) y forget s l' post) :
    Accounts (release r >>= k) y forget s l post := by
  cases r with
  | none => exact hRest l (hHeld.trans (zero_add rest))
  | some r =>
      have hCons : l.held = r ::ₘ rest := hHeld
      have hMem : r ∈ l.held := hCons ▸ Multiset.mem_cons_self r rest
      have hErase : (l.release r).held = rest := by
        change l.held.erase r = rest
        rw [hCons, Multiset.erase_cons_head]
      have hRelease : (release (some r) : Tracked κ ε Unit) (s, l) = .ok ((), s, l.release r) :=
        if_pos hMem
      unfold Accounts
      change Sat ((release (some r) : Tracked κ ε Unit) (s, l) >>= fun r => k r.1 r.2) _ _
      rw [hRelease]
      exact hRest _ hErase

theorem accounts_foldlM {step : α → ι → Tracked κ ε α} {step' : β → ι → Call ε β}
    (forget : α → β) (inv : α → Ledger κ → Prop) {inputs : List ι} {a : α} {b : β}
    (hForget : forget a = b) (hInit : inv a l) (hStep : ∀ i ∈ inputs, ∀ a s l, inv a l →
      Accounts (step a i) (step' (forget a) i) forget s l inv) :
    Accounts (inputs.foldlM step a) (inputs.foldlM step' b) forget s l inv := by
  subst hForget
  induction inputs generalizing a s l with
  | nil => exact accounts_pure rfl hInit
  | cons i inputs ih =>
      rw [List.foldlM_cons, List.foldlM_cons]
      apply (hStep i List.mem_cons_self a s l hInit).bind
      intro b t l' _ hInv
      exact ih hInv fun j hj => hStep j (List.mem_cons_of_mem i hj)

/-- The rule for a loop over an index. The invariant may use what the turns so far
did without resources. -/
theorem accounts_range {step : α → Nat → Tracked κ ε α} {step' : β → Nat → Call ε β}
    (forget : α → β) (inv : Nat → α → Ledger κ → Prop) {n : Nat} {a : α} {b : β}
    (hForget : forget a = b) (hInit : inv 0 a l) (hStep : ∀ k < n, ∀ a t l,
      (List.range k).foldlM step' b s = .ok (forget a, t) → inv k a l →
      Accounts (step a k) (step' (forget a) k) forget t l (inv (k + 1))) :
    Accounts ((List.range n).foldlM step a) ((List.range n).foldlM step' b) forget s l
      (inv n) := by
  induction n with
  | zero => exact accounts_pure hForget hInit
  | succ n ih =>
      rw [List.range_succ, List.foldlM_append, List.foldlM_append]
      apply (ih fun k hk => hStep k (Nat.lt_succ_of_lt hk)).bind
      intro a' t l' hTurns hInv
      rw [List.foldlM_cons, List.foldlM_cons]
      apply (hStep n (Nat.lt_succ_self n) a' t l' hTurns hInv).bind
      intro a'' u l'' _ hInv'
      exact accounts_pure rfl hInv'

end Rules

section Memory
variable {sys : System} {s : OsState} {l : Ledger κ} {forget : γ → δ}
  {post : γ → Ledger κ → Prop} {kind : κ}

theorem accounts_malloc_bind {size : UInt64} {k : Option (Resource κ × List UInt8) → Tracked κ ε γ}
    {k' : Option (List UInt8) → Call ε δ}
    (hNone : ∀ t, malloc (ε := ε) sys size s = .ok (none, t) →
      Accounts (k none) (k' none) forget t l post)
    (hSome : ∀ r memory t l', r.kind = kind → l'.held = {r} + l.held →
      Accounts (k (some (r, memory))) (k' (some memory)) forget t l' post) :
    Accounts (mallocFor kind sys size >>= k) (malloc sys size >>= k') forget s l post := by
  unfold mallocFor
  rw [bind_assoc]
  apply accounts_call_bind
  intro memory t hReturned
  cases memory with
  | none => exact hNone t hReturned
  | some memory =>
      dsimp only
      rw [bind_assoc]
      apply accounts_acquire_bind
      intro r l' hKind hHeld
      exact hSome r memory t l' hKind hHeld

theorem accounts_allocate_bind {k : Option (Resource κ) → Tracked κ ε γ} {k' : Bool → Call ε δ}
    (hFalse : ∀ t, Accounts (k none) (k' false) forget t l post)
    (hTrue : ∀ r t l', r.kind = kind → l'.held = {r} + l.held →
      Accounts (k (some r)) (k' true) forget t l' post) :
    Accounts (allocateFor kind sys >>= k) (allocates sys >>= k') forget s l post := by
  unfold allocateFor
  rw [bind_assoc]
  apply accounts_call_bind
  intro allocated t _
  cases allocated with
  | false => exact hFalse t
  | true =>
      rw [if_pos rfl, bind_assoc]
      apply accounts_acquire_bind
      intro r l' hKind hHeld
      exact hTrue r t l' hKind hHeld

theorem accounts_realloc_bind [DecidableEq κ] {old : Option (Resource κ)} {held : Bool}
    (hOld : old.isSome = held) {rest : Multiset (Resource κ)}
    (hLedger : l.held = pointee old + rest) {size : UInt64}
    {k : Option (Resource κ) → Tracked κ ε γ} {k' : Bool → Call ε δ}
    (hKept : size ≠ 0 → ∀ t, Accounts (k none) (k' false) forget t l post)
    (hFreed : size = 0 → ∀ t (l' : Ledger κ), l'.held = rest →
      Accounts (k none) (k' false) forget t l' post)
    (hTrue : ∀ r t (l₁ l₂ : Ledger κ), r.kind = kind → l₁.held = rest →
      l₂.held = {r} + l₁.held → Accounts (k (some r)) (k' true) forget t l₂ post) :
    Accounts (reallocFor kind sys old size >>= k) (realloc sys held size >>= k') forget s l
      post := by
  subst hOld
  unfold reallocFor
  rw [bind_assoc]
  apply accounts_call_bind
  intro allocated t _
  cases allocated with
  | false =>
      rw [if_neg Bool.false_ne_true, bind_assoc]
      split
      · next hZero =>
          apply accounts_release_bind hLedger
          intro l' hRest
          exact hFreed hZero t l' hRest
      · next hNotZero => exact hKept hNotZero t
  | true =>
      rw [if_pos rfl, bind_assoc]
      apply accounts_release_bind hLedger
      intro l₁ hRest
      rw [bind_assoc]
      apply accounts_acquire_bind
      intro r l₂ hKind hHeld
      exact hTrue r t l₁ l₂ hKind hRest hHeld

end Memory

end Resources

import TelnetDebug.Library.Calls

/-! Which calls the system refuses. A program that gives up at the first refusal
makes the calls in front of it, and that one. -/
namespace Posix

open Guarded

variable {ε : Type}

/-- What may make the system refuse a call. -/
inductive Request where
  | lseek (offset : UInt64)
  | malloc (size : UInt64)
  | realloc (held : Bool) (size : UInt64)
  | other

/-- The request is not refused for what it asks. -/
def Request.Small : Request → Prop
  | .lseek offset => offset.toNat < 2 ^ 63
  | .malloc size => size.toNat < 2 ^ 47
  | .realloc held size => size.toNat < 2 ^ 47 ∧ ¬(held = true ∧ size = 0)
  | .other => True

instance : DecidablePred Request.Small
  | .lseek _ | .malloc _ => inferInstanceAs (Decidable (_ < _))
  | .realloc _ _ => inferInstanceAs (Decidable (_ ∧ _))
  | .other => inferInstanceAs (Decidable True)

/-- Call `k` makes the request, and it is refused. -/
def System.Refuses (sys : System) (request : Request) (k : Nat) : Prop :=
  sys.fails k = true ∨ ¬ request.Small

instance (sys : System) (request : Request) (k : Nat) : Decidable (sys.Refuses request k) :=
  inferInstanceAs (Decidable (_ ∨ _))

section Refuses
variable {sys : System} {k : Nat}

theorem small_of_answered {request : Request} (h : ¬ sys.Refuses request k) : request.Small :=
  not_not.mp (not_or.mp h).2

theorem refuses_other : sys.Refuses .other k ↔ sys.fails k = true :=
  or_iff_left (not_not.mpr trivial)

/-- A call that fails is refused whatever it asks for. -/
theorem refuses_of_other {request : Request} (h : sys.Refuses .other k) :
    sys.Refuses request k := .inl (refuses_other.mp h)

theorem refuses_lseek {offset : UInt64} :
    sys.Refuses (.lseek offset) k ↔ sys.fails k = true ∨ 2 ^ 63 ≤ offset.toNat :=
  or_congr_right Nat.not_lt

theorem refuses_malloc {size : UInt64} :
    sys.Refuses (.malloc size) k ↔ sys.fails k = true ∨ 2 ^ 47 ≤ size.toNat :=
  or_congr_right Nat.not_lt

theorem refuses_realloc {held : Bool} {size : UInt64} :
    sys.Refuses (.realloc held size) k ↔
      sys.fails k = true ∨ 2 ^ 47 ≤ size.toNat ∨ held = true ∧ size = 0 := by
  apply or_congr_right
  change ¬(_ ∧ ¬ _) ↔ _
  rw [not_and_or, not_not, Nat.not_lt]

end Refuses

/-- The number of the first call that is refused, where the requests are made
from call `k` on. -/
def System.firstRefused (sys : System) : List Request → Nat → Option Nat
  | [], _ => none
  | request :: requests, k =>
      if sys.Refuses request k then some k else sys.firstRefused requests (k + 1)

/-- The bytes that read number `k` delivers. -/
def System.delivered (sys : System) (k offset size : Nat) : List UInt8 :=
  (sys.file.drop offset).take (min size (sys.upTo k))

theorem System.delivered_length (sys : System) (k offset size : Nat) :
    (sys.delivered k offset size).length ≤ size := by
  rw [delivered, List.length_take]
  omega

/-- A read delivers what the file holds. -/
def System.Delivers (sys : System) : Prop := ∀ k, sys.file.length ≤ sys.upTo k

theorem System.Delivers.delivered {sys : System} (h : sys.Delivers) (k offset size : Nat) :
    sys.delivered k offset size = slice sys.file offset size := by
  have hLength := h k
  rw [System.delivered, slice, List.take_eq_take_iff, List.length_drop]
  omega

/-- Of the requests that were made from call `k` on, none was refused so far, and
these are left. -/
def System.Pending (sys : System) (requests : List Request) (k : Nat) (left : List Request)
    (calls : Nat) : Prop :=
  sys.firstRefused requests k = sys.firstRefused left calls

section Pending
variable {sys : System} {request : Request} {requests left : List Request} {k calls calls' : Nat}

theorem pending_init : sys.Pending requests k requests k := rfl

/-- The next request is the first that is refused. -/
theorem System.Pending.refused (h : sys.Pending requests k (request :: left) calls)
    (hRefused : sys.Refuses request calls) : sys.firstRefused requests k = some calls :=
  h.trans (if_pos hRefused)

theorem System.Pending.answered (h : sys.Pending requests k (request :: left) calls)
    (hAnswered : ¬ sys.Refuses request calls) (hCalls : calls' = calls + 1) :
    sys.Pending requests k left calls' := by
  unfold Pending
  rw [hCalls]
  exact h.trans (if_neg hAnswered)

/-- All requests were answered. -/
theorem System.Pending.done (h : sys.Pending requests k [] calls) :
    sys.firstRefused requests k = none := h

theorem firstRefused_le {i : Nat} (hRequest : requests[i]? = some request)
    (hRefused : sys.Refuses request (k + i)) :
    ∃ m ≤ k + i, sys.firstRefused requests k = some m := by
  induction requests generalizing k i with
  | nil => cases hRequest
  | cons first requests ih =>
      by_cases hFirst : sys.Refuses first k
      · exact ⟨k, Nat.le_add_right k i, if_pos hFirst⟩
      · cases i with
        | zero =>
            cases hRequest
            exact absurd hRefused hFirst
        | succ i =>
            rw [← Nat.succ_add_eq_add_succ] at hRefused ⊢
            obtain ⟨m, hLe, hRest⟩ := ih hRequest hRefused
            exact ⟨m, hLe, (if_neg hFirst).trans hRest⟩

/-- Where no call fails, only a request that asks for too much is refused. -/
theorem firstRefused_none (hSucceeds : ∀ i, k ≤ i → i < k + requests.length → sys.fails i = false)
    (hSmall : requests.Forall Request.Small) : sys.firstRefused requests k = none := by
  induction requests generalizing k with
  | nil => rfl
  | cons request requests ih =>
      rw [List.length_cons] at hSucceeds
      rw [List.forall_cons] at hSmall
      have hFirst : ¬ sys.Refuses request k := by
        rintro (hFails | hLarge)
        · exact absurd hFails (Bool.eq_false_iff.mp (hSucceeds k (Nat.le_refl k) (by omega)))
        · exact hLarge hSmall.1
      unfold System.firstRefused
      rw [if_neg hFirst]
      exact ih (fun i hLe hLt => hSucceeds i (by omega) (by omega)) hSmall.2

theorem answered_of_none (h : sys.firstRefused requests k = none) {i : Nat}
    (hRequest : requests[i]? = some request) : ¬ sys.Refuses request (k + i) := by
  intro hRefused
  obtain ⟨m, -, hFirst⟩ := firstRefused_le hRequest hRefused
  cases h.symm.trans hFirst

theorem firstRefused_append {more : List Request}
    (h : sys.firstRefused (requests ++ more) k = none) : sys.firstRefused requests k = none := by
  induction requests generalizing k with
  | nil => rfl
  | cons request requests ih =>
      have hAnswered : ¬ sys.Refuses request k := answered_of_none (i := 0) h rfl
      unfold System.firstRefused
      rw [if_neg hAnswered]
      exact ih ((if_neg hAnswered).symm.trans h)

end Pending

section Outcomes
variable (sys : System) {s : OsState} {fault : ε → Prop}

theorem openFile_outcome :
    Sat (openFile sys s) (fun r => r.2.calls = s.calls + 1 ∧
      (sys.Refuses .other s.calls → r.1 = -1) ∧ (¬ sys.Refuses .other s.calls → r.1 = sys.fd))
      fault := by
  rw [refuses_other]
  unfold openFile
  split
  · exact ⟨rfl, fun _ => rfl, fun h => absurd ‹_› h⟩
  · exact ⟨rfl, fun h => absurd h ‹_›, fun _ => rfl⟩

theorem lseek_outcome {fd : UInt32} (hFd : fd = sys.fd) (offset : UInt64) :
    Sat (lseek sys fd offset s) (fun r => r.2.calls = s.calls + 1 ∧
      (r.1 < 0 ↔ sys.Refuses (.lseek offset) s.calls) ∧ (¬ r.1 < 0 → r.2.pos = offset.toNat))
      fault := by
  have hNegative : (-1 : Int) < 0 := by decide
  rw [refuses_lseek]
  unfold lseek
  by_cases hRefused : sys.fails s.calls = true ∨ 2 ^ 63 ≤ offset.toNat
  · rw [if_pos (hRefused.elim .inl fun h => .inr (.inr h))]
    exact ⟨rfl, iff_of_true hNegative hRefused, fun h => absurd hNegative h⟩
  · rw [if_neg]
    · have hOffset : ¬ (offset.toNat : Int) < 0 := Int.not_lt.mpr (Int.natCast_nonneg _)
      exact ⟨rfl, iff_of_false hOffset hRefused, fun _ => rfl⟩
    · rintro (hFails | hOther | hLarge)
      · exact hRefused (.inl hFails)
      · exact hOther hFd
      · exact hRefused (.inr hLarge)

/-- A descriptor that is not that of the file is refused. -/
theorem lseek_closed {fd : UInt32} (hFd : fd ≠ sys.fd) (offset : UInt64) :
    Sat (lseek sys fd offset s) (fun r => r.1 < 0 ∧ r.2.calls = s.calls + 1) fault := by
  have hNegative : (-1 : Int) < 0 := by decide
  unfold lseek
  rw [if_pos (.inr (.inl hFd))]
  exact ⟨hNegative, rfl⟩

theorem malloc_outcome (size : UInt64) :
    Sat (malloc sys size s) (fun r => r.2.calls = s.calls + 1 ∧ r.2.pos = s.pos ∧
      (r.1 = none ↔ sys.Refuses (.malloc size) s.calls) ∧
      ∀ memory, r.1 = some memory → memory = (List.range size.toNat).map (sys.fresh s.calls))
      fault := by
  rw [refuses_malloc]
  unfold malloc
  by_cases hRefused : sys.fails s.calls = true ∨ 2 ^ 47 ≤ size.toNat
  · rw [if_pos hRefused]
    exact ⟨rfl, rfl, iff_of_true rfl hRefused, nofun⟩
  · rw [if_neg hRefused]
    exact ⟨rfl, rfl, iff_of_false nofun hRefused, fun memory h => (Option.some.inj h).symm⟩

theorem realloc_outcome (held : Bool) (size : UInt64) :
    Sat (realloc sys held size s) (fun r => r.2.calls = s.calls + 1 ∧
      (r.1 = true ↔ ¬ sys.Refuses (.realloc held size) s.calls)) fault := by
  refine ⟨rfl, ?_⟩
  rw [refuses_realloc]
  exact (Bool.not_eq_true' _).to_iff.trans decide_eq_false_iff_not

theorem read_outcome {fd : UInt32} (hFd : fd = sys.fd) (size : UInt64) :
    Sat (read sys fd size s) (fun r => r.2.calls = s.calls + 1 ∧
      (r.1 = none ↔ sys.Refuses .other s.calls) ∧
      ∀ bytes, r.1 = some bytes → bytes = sys.delivered s.calls s.pos size.toNat) fault := by
  rw [refuses_other]
  unfold read
  by_cases hRefused : sys.fails s.calls = true
  · rw [if_pos (.inl hRefused)]
    exact ⟨rfl, iff_of_true rfl hRefused, nofun⟩
  · rw [if_neg]
    · exact ⟨rfl, iff_of_false nofun hRefused, fun bytes h => (Option.some.inj h).symm⟩
    · rintro (hFails | hOther)
      · exact hRefused hFails
      · exact hOther hFd

theorem allocates_outcome :
    Sat (allocates sys s) (fun r => r.2.calls = s.calls + 1 ∧
      (r.1 = true ↔ ¬ sys.Refuses .other s.calls)) fault := by
  refine ⟨rfl, ?_⟩
  rw [refuses_other, Bool.not_eq_true]
  exact (Bool.not_eq_true' _).to_iff

end Outcomes

end Posix

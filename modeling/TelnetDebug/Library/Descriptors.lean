import Mathlib.Logic.Function.Basic
import Mathlib.Data.Fin.Tuple.Basic
import Mathlib.Algebra.Group.Nat.Defs
import Mathlib.Data.Finset.Card
import Mathlib.Data.Finset.Range

/-! The descriptor table of a process. Numbers below a limit may refer to open
files; `dup` takes the lowest number that is free and `dup2` a given one. Both
return `-1` and change nothing when they fail. -/
namespace Descriptors

structure Table (F : Type) where
  limit : Nat
  entry : Nat → Option F
  entry_none : ∀ n, limit ≤ n → entry n = none
  limit_le : limit ≤ 2 ^ 31

namespace Table
variable {F : Type} {t t' : Table F} {old new : Int} {n : Nat} {f : F}

@[ext] theorem ext (hLimit : t.limit = t'.limit) (hEntry : ∀ n, t.entry n = t'.entry n) :
    t = t' := by
  cases t
  cases t'
  obtain rfl := hLimit
  obtain rfl := funext hEntry
  rfl

theorem lt_limit (h : t.entry n ≠ none) : n < t.limit :=
  Nat.lt_of_not_le fun hOut => h (t.entry_none n hOut)

/-- The file an argument of a call refers to. -/
def file (t : Table F) : Int → Option F
  | .ofNat n => t.entry n
  | .negSucc _ => none

@[simp] theorem file_natCast (t : Table F) (n : Nat) : t.file n = t.entry n := rfl

@[simp] theorem file_negOne (t : Table F) : t.file (-1) = none := rfl

/-- Every number below the limit is in use. -/
def Full (t : Table F) : Prop := ∀ n, n < t.limit → t.entry n ≠ none

instance (t : Table F) : Decidable t.Full :=
  inferInstanceAs (Decidable (∀ n, n < t.limit → t.entry n ≠ none))

def lowestFree (t : Table F) : Option (Fin t.limit) := Fin.find? fun n => (t.entry n).isNone

theorem lowestFree_eq_none : t.lowestFree = none ↔ t.Full := by
  rw [lowestFree, Fin.find?_eq_none_iff]
  constructor
  · intro h n hLimit hFree
    have hUsed := h ⟨n, hLimit⟩
    rw [hFree] at hUsed
    cases hUsed
  · intro h n
    exact Option.isNone_eq_false_iff.mpr (Option.isSome_iff_ne_none.mpr (h n n.isLt))

theorem lowestFree_entry {n : Fin t.limit} (h : t.lowestFree = some n) : t.entry n = none :=
  Option.isNone_iff_eq_none.mp (Fin.find?_eq_some_iff.mp h).1

def set (t : Table F) (n : Fin t.limit) (f : F) : Table F where
  limit := t.limit
  entry := Function.update t.entry n (some f)
  entry_none m hOut := by
    have hNe : m ≠ n := fun h => absurd (h ▸ hOut) (Nat.not_le_of_lt n.isLt)
    rw [Function.update_of_ne hNe]
    exact t.entry_none m hOut
  limit_le := t.limit_le

@[simp] theorem set_limit (t : Table F) (n : Fin t.limit) (f : F) : (t.set n f).limit = t.limit :=
  rfl

theorem set_entry (t : Table F) (n : Fin t.limit) (f : F) (m : Nat) :
    (t.set n f).entry m = if m = n then some f else t.entry m :=
  Function.update_apply _ _ _ _

def dup (t : Table F) (old : Int) : Int × Table F :=
  match t.file old, t.lowestFree with
  | some f, some n => (n, t.set n f)
  | _, _ => (-1, t)

/-- The call on two equal numbers sets a number to the file it refers to. -/
def dup2 (t : Table F) (old new : Int) : Int × Table F :=
  match t.file old with
  | some f =>
      if h : 0 ≤ new ∧ new.toNat < t.limit then (new, t.set ⟨new.toNat, h.2⟩ f) else (-1, t)
  | none => (-1, t)

theorem dup_fails (h : t.Full ∨ t.file old = none) : t.dup old = (-1, t) := by
  unfold dup
  split
  · next f n hFile hFree =>
    rcases h with hFull | hNone
    · rw [lowestFree_eq_none.mpr hFull] at hFree
      cases hFree
    · rw [hNone] at hFile
      cases hFile
  · rfl

/-- The second table differs from the first in one number. -/
structure Sets (t : Table F) (n : Nat) (f : F) (t' : Table F) : Prop where
  limit : t'.limit = t.limit
  entry : ∀ m, t'.entry m = if m = n then some f else t.entry m

theorem Sets.file (h : t.Sets n f t') (m : Int) :
    t'.file m = if m = n then some f else t.file m := by
  cases m with
  | ofNat m =>
      change t'.entry m = if (m : Int) = n then some f else t.entry m
      rw [h.entry]
      simp only [Int.ofNat_inj]
  | negSucc m => rfl

theorem Sets.file_of_ne (h : t.Sets n f t') {m : Int} (hNe : m ≠ n) : t'.file m = t.file m := by
  rw [h.file, if_neg hNe]

theorem sets_set (t : Table F) (n : Fin t.limit) (f : F) : t.Sets n f (t.set n f) :=
  ⟨rfl, t.set_entry n f⟩

/-- A call of `dup` that does not fail makes a free number refer to the file. -/
theorem dup_succeeds (hFree : ¬ t.Full) (hFile : t.file old = some f) :
    ∃ n : Nat, t.entry n = none ∧ n < t.limit ∧ (t.dup old).1 = n ∧ t.Sets n f (t.dup old).2 := by
  obtain ⟨n, hLowest⟩ := Option.ne_none_iff_exists'.mp fun h => hFree (lowestFree_eq_none.mp h)
  have hDup : t.dup old = (((n : Nat) : Int), t.set n f) := by
    unfold dup
    rw [hFile, hLowest]
  rw [hDup]
  exact ⟨n, lowestFree_entry hLowest, n.isLt, rfl, sets_set t n f⟩

theorem dup2_fails (h : t.file old = none) (new : Int) : t.dup2 old new = (-1, t) := by
  unfold dup2
  rw [h]

theorem dup2_sets (h : t.file old = some f) {new : Nat} (hLimit : new < t.limit) :
    t.Sets new f (t.dup2 old new).2 := by
  have hNew : 0 ≤ (new : Int) ∧ (new : Int).toNat < t.limit := ⟨Int.natCast_nonneg _, hLimit⟩
  unfold dup2
  rw [h]
  simp only [dif_pos hNew]
  exact sets_set t ⟨new, hLimit⟩ f

theorem dup2_outside {new : Nat} (h : t.limit ≤ new) (old : Int) :
    t.dup2 old new = (-1, t) := by
  have hNew : ¬ (0 ≤ (new : Int) ∧ (new : Int).toNat < t.limit) :=
    fun hIn => Nat.not_lt_of_le h hIn.2
  unfold dup2
  split
  · rw [dif_neg hNew]
  · rfl

/-- Numbers in use stay in use. -/
structure Grows (t t' : Table F) : Prop where
  limit : t'.limit = t.limit
  used : ∀ n, t.entry n ≠ none → t'.entry n ≠ none

theorem Grows.refl (t : Table F) : t.Grows t := ⟨rfl, fun _ h => h⟩

theorem Grows.trans {t'' : Table F} (h : t.Grows t') (h' : t'.Grows t'') : t.Grows t'' :=
  ⟨h'.limit.trans h.limit, fun n hUsed => h'.used n (h.used n hUsed)⟩

theorem Grows.full (h : t.Grows t') (hFull : t.Full) : t'.Full :=
  fun n hLimit => h.used n (hFull n (h.limit ▸ hLimit))

theorem Sets.grows (h : t.Sets n f t') : t.Grows t' := by
  refine ⟨h.limit, fun m hUsed => ?_⟩
  rw [h.entry]
  split
  · exact Option.some_ne_none f
  · exact hUsed

theorem grows_dup (t : Table F) (old : Int) : t.Grows (t.dup old).2 := by
  unfold dup
  split
  · exact (sets_set ..).grows
  · exact .refl t

theorem grows_dup2 (t : Table F) (old new : Int) : t.Grows (t.dup2 old new).2 := by
  unfold dup2
  split
  · split
    · exact (sets_set ..).grows
    · exact .refl t
  · exact .refl t

/-- A number taken by the growth tells the tables apart. -/
theorem Grows.ne_of_taken (h : t.Grows t') (hFree : t.entry n = none) {t'' : Table F}
    (hTaken : t'.entry n ≠ none) (hLater : t'.Grows t'') : t'' ≠ t := by
  rintro rfl
  exact hLater.used n hTaken hFree

section Free

def freeNumbers (t : Table F) : Finset Nat :=
  (Finset.range t.limit).filter fun n => (t.entry n).isNone

theorem mem_freeNumbers : n ∈ t.freeNumbers ↔ n < t.limit ∧ t.entry n = none := by
  rw [freeNumbers, Finset.mem_filter, Finset.mem_range, Option.isNone_iff_eq_none]

/-- How many numbers are free. -/
def free (t : Table F) : Nat := t.freeNumbers.card

theorem free_eq_zero : t.free = 0 ↔ t.Full := by
  rw [free, Finset.card_eq_zero, Finset.eq_empty_iff_forall_notMem]
  simp only [mem_freeNumbers, not_and]
  exact Iff.rfl

theorem Sets.free_used (h : t.Sets n f t') (hUsed : t.entry n ≠ none) : t'.free = t.free := by
  have hSame : t'.freeNumbers = t.freeNumbers := by
    ext m
    rw [mem_freeNumbers, mem_freeNumbers, h.limit, h.entry]
    by_cases hNumber : m = n
    · simp [hNumber, hUsed]
    · rw [if_neg hNumber]
  rw [free, hSame, free]

theorem Sets.free_taken (h : t.Sets n f t') (hFree : t.entry n = none) (hLimit : n < t.limit) :
    t'.free + 1 = t.free := by
  have hErased : t'.freeNumbers = t.freeNumbers.erase n := by
    ext m
    rw [Finset.mem_erase, mem_freeNumbers, mem_freeNumbers, h.limit, h.entry]
    by_cases hNumber : m = n
    · simp [hNumber]
    · simp [hNumber]
  rw [free, hErased]
  exact Finset.card_erase_add_one (mem_freeNumbers.mpr ⟨hLimit, hFree⟩)

/-- What is in use stays as it is. -/
structure Extends (t t' : Table F) : Prop where
  limit : t'.limit = t.limit
  entry : ∀ n, t.entry n ≠ none → t'.entry n = t.entry n

theorem Extends.refl (t : Table F) : t.Extends t := ⟨rfl, fun _ _ => rfl⟩

theorem Extends.trans {t'' : Table F} (h : t.Extends t') (h' : t'.Extends t'') : t.Extends t'' := by
  refine ⟨h'.limit.trans h.limit, fun n hUsed => ?_⟩
  have hFirst := h.entry n hUsed
  rw [h'.entry n (hFirst ▸ hUsed), hFirst]

theorem Extends.file (h : t.Extends t') {m : Int} (hUsed : t.file m ≠ none) :
    t'.file m = t.file m := by
  cases m with
  | ofNat n => exact h.entry n hUsed
  | negSucc n => exact absurd rfl hUsed

theorem Sets.extends (h : t.Sets n f t') (hFree : t.entry n = none) : t.Extends t' := by
  refine ⟨h.limit, fun m hUsed => ?_⟩
  rw [h.entry, if_neg]
  rintro rfl
  exact hUsed hFree

end Free

section Opening

/-- A call that opens a file takes the lowest number that is free. -/
def openFile (t : Table F) (f : F) : Int × Table F :=
  match t.lowestFree with
  | some n => (n, t.set n f)
  | none => (-1, t)

/-- A number that is not in use cannot be closed. -/
def close (t : Table F) (number : Int) : Table F where
  limit := t.limit
  entry n := if (n : Int) = number then none else t.entry n
  entry_none n hOut := by
    split
    · rfl
    · exact t.entry_none n hOut
  limit_le := t.limit_le

/-- Either no number is free, or the file has a number that was free. -/
theorem openFile_cases (t : Table F) (f : F) :
    t.openFile f = (-1, t) ∨
      ∃ n : Nat, t.entry n = none ∧ n < t.limit ∧ (t.openFile f).1 = n ∧
        t.Sets n f (t.openFile f).2 := by
  unfold openFile
  cases hLowest : t.lowestFree with
  | none => exact .inl rfl
  | some n => exact .inr ⟨n, lowestFree_entry hLowest, n.isLt, rfl, sets_set t n f⟩

theorem close_file (t : Table F) (number m : Int) :
    (t.close number).file m = if m = number then none else t.file m := by
  cases m with
  | ofNat n => rfl
  | negSucc n => exact (ite_self none).symm

/-- A number that is closed is free again. -/
theorem close_free (hUsed : t.entry n ≠ none) : (t.close n).free = t.free + 1 := by
  have hLimit := lt_limit hUsed
  have hInserted : (t.close n).freeNumbers = insert n t.freeNumbers := by
    ext m
    rw [Finset.mem_insert, mem_freeNumbers, mem_freeNumbers]
    change m < t.limit ∧ (if (m : Int) = n then none else t.entry m) = none ↔ _
    by_cases hNumber : m = n
    · simp [hNumber, hLimit]
    · have hCast : ¬ (m : Int) = n := by omega
      simp [hNumber, hCast]
  rw [free, hInserted]
  refine Finset.card_insert_of_notMem fun hMem => ?_
  exact hUsed (mem_freeNumbers.mp hMem).2

theorem close_negOne (t : Table F) : t.close (-1) = t := by
  apply Table.ext rfl
  intro n
  have hCast : ¬ (n : Int) = -1 := by omega
  change (if (n : Int) = -1 then none else t.entry n) = t.entry n
  rw [if_neg hCast]

end Opening

end Table

end Descriptors

import TelnetDebug.Library.Stdio

/-! A file of records that is written from its start again when it has reached a
limit. It begins with the records written since then, and behind them are the
bytes that it held before. -/
namespace RecordRing

open Stdio

/-- The file as it was when it was last written from its start, and the records
written since. -/
structure RecordFile (β : Type) where
  previous : List β
  records : List (List β)
deriving DecidableEq

namespace RecordFile

variable {β : Type}

def size (r : RecordFile β) : Nat := r.records.flatten.length

def contents (r : RecordFile β) : List β := r.records.flatten ++ r.previous.drop r.size

/-- Where the next record is written. -/
def start (limit : Nat) (r : RecordFile β) : Nat := if limit ≤ r.size then 0 else r.size

/-- Write one more record. -/
def accept (limit : Nat) (r : RecordFile β) (record : List β) : RecordFile β :=
  if limit ≤ r.size then ⟨r.contents, [record]⟩ else ⟨r.previous, r.records ++ [record]⟩

def acceptAll (limit : Nat) (r : RecordFile β) (records : List (List β)) : RecordFile β :=
  records.foldl (accept limit) r

section Accept
variable {limit : Nat} {r : RecordFile β} {record : List β}

theorem accept_restart (h : limit ≤ r.size) : r.accept limit record = ⟨r.contents, [record]⟩ :=
  if_pos h

theorem accept_append (h : ¬ limit ≤ r.size) :
    r.accept limit record = ⟨r.previous, r.records ++ [record]⟩ := if_neg h

/-- The file begins with the records, as they were written. -/
theorem take_contents (r : RecordFile β) : r.contents.take r.size = r.records.flatten :=
  List.take_left

theorem length_contents (r : RecordFile β) : r.contents.length = max r.size r.previous.length := by
  simp only [contents, List.length_append, List.length_drop]
  simp only [size]
  omega

theorem start_restart (h : limit ≤ r.size) : r.start limit = 0 := if_pos h

theorem start_append (h : ¬ limit ≤ r.size) : r.start limit = r.size := if_neg h

@[simp] theorem size_accept :
    (r.accept limit record).size = r.start limit + record.length := by
  by_cases h : limit ≤ r.size
  · simp [accept_restart h, start_restart h, size]
  · rw [accept_append h, start_append h]
    simp [size]

theorem start_lt (hLimit : 0 < limit) : r.start limit < limit := by
  by_cases h : limit ≤ r.size
  · rwa [start_restart h]
  · rw [start_append h]
    exact Nat.lt_of_not_le h

/-- The record is the last one that the file begins with. -/
theorem getLast?_accept : (r.accept limit record).records.getLast? = some record := by
  by_cases h : limit ≤ r.size
  · simp [accept_restart h]
  · simp [accept_append h]

end Accept

/-- Writing a record to the file is writing its bytes at the place of the next
record. -/
theorem contents_accept (limit : Nat) (r : RecordFile UInt8) (record : List UInt8) :
    (r.accept limit record).contents = put r.contents (r.start limit) record := by
  by_cases hNone : record = []
  · subst hNone
    rw [put_nil]
    by_cases h : limit ≤ r.size
    · simp [accept_restart h, contents, size]
    · simp [accept_append h, contents, size]
  · rw [put, if_neg hNone]
    by_cases h : limit ≤ r.size
    · rw [accept_restart h, start_restart h]
      simp [contents, size]
    · have hInside : r.size - r.contents.length = 0 := by
        rw [length_contents]
        omega
      rw [accept_append h, start_append h, hInside, List.replicate_zero, List.append_nil,
        take_contents]
      simp only [contents, size, List.flatten_append, List.flatten_singleton, List.length_append,
        List.drop_append, List.drop_drop]
      simp

section Run
variable {limit longest : Nat} {r : RecordFile β}

theorem acceptAll_cons (limit : Nat) (r : RecordFile β) (record : List β)
    (records : List (List β)) :
    r.acceptAll limit (record :: records) = (r.accept limit record).acceptAll limit records := rfl

/-- The records that the file begins with are the last ones written, in the
order in which they were written. -/
theorem acceptAll_suffix (limit : Nat) (r : RecordFile β) (records : List (List β)) :
    (r.acceptAll limit records).records <:+ r.records ++ records := by
  induction records generalizing r with
  | nil => simp [acceptAll]
  | cons record records ih =>
      rw [acceptAll_cons]
      apply (ih (r.accept limit record)).trans
      by_cases h : limit ≤ r.size
      · rw [accept_restart h]
        exact ⟨r.records, rfl⟩
      · simp [accept_append h]

/-- After a record was written the file begins with one at least. -/
theorem acceptAll_ne_nil {records : List (List β)} (h : records ≠ []) :
    (r.acceptAll limit records).records ≠ [] := by
  obtain ⟨front, record, rfl⟩ := (List.eq_nil_or_concat' records).resolve_left h
  have hLast : ((r.acceptAll limit front).accept limit record).records.getLast? = some record :=
    getLast?_accept
  rw [acceptAll, List.foldl_concat]
  intro hNone
  rw [acceptAll, hNone] at hLast
  cases hLast

/-- The records are never longer together than one record past the limit. -/
theorem size_acceptAll (hLimit : 0 < limit) (hStart : r.size ≤ limit - 1 + longest)
    {records : List (List β)} (hRecords : ∀ record ∈ records, record.length ≤ longest) :
    (r.acceptAll limit records).size ≤ limit - 1 + longest := by
  induction records generalizing r with
  | nil => exact hStart
  | cons record records ih =>
      obtain ⟨hFirst, hRest⟩ := List.forall_mem_cons.mp hRecords
      rw [acceptAll_cons]
      apply ih _ hRest
      have hPlace : r.start limit < limit := start_lt hLimit
      rw [size_accept]
      omega

end Run

end RecordFile

end RecordRing

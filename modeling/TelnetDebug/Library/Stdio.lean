import TelnetDebug.Library.Calls
import Mathlib.Logic.Function.Basic

/-! Files and the streams through which they are written. Every call that can
fail does so as the system decides; a stream is not used through a null pointer
or after it was closed, and a buffer is not read behind its end. -/
namespace Stdio

open Guarded

abbrev Path := List UInt8

/-- A stream with its place in the file. -/
structure Stream where
  path : Path
  pos : Nat
  isOpen : Bool

/-- The files, the streams that were opened, and the number of calls made. -/
structure World where
  files : Path → Option (List UInt8)
  streams : List Stream
  calls : Nat

inductive Fault where
  | nullStream
  | closedStream
  | outsideBuffer
deriving DecidableEq

/-- The calls that fail, by their number. -/
structure Os where
  fails : Nat → Bool

/-- A call that works on files and may end in a fault. -/
abbrev Call (ε α : Type) := StateT World (Except ε) α

/-- The bytes of a file; there are none in a file that does not exist. -/
def World.contents (w : World) (path : Path) : List UInt8 := (w.files path).getD []

/-- The file with the bytes written at an offset. A gap is filled with zeros. -/
def put (file : List UInt8) (pos : Nat) (bytes : List UInt8) : List UInt8 :=
  if bytes = [] then file
  else (file ++ List.replicate (pos - file.length) 0).take pos ++ bytes ++
    file.drop (pos + bytes.length)

/-- Whether a call succeeds. -/
def succeeds {ε : Type} (os : Os) : Call ε Bool := fun w =>
  .ok (!os.fails w.calls, { w with calls := w.calls + 1 })

def access {ε : Type} (os : Os) (path : Path) : Call ε Int := do
  let ok ← succeeds os
  let w ← get
  return if ok && (w.files path).isSome then 0 else -1

def stat {ε : Type} (os : Os) (path : Path) : Call ε Int := access os path

def World.opened (w : World) (path : Path) : World :=
  { w with
    files := Function.update w.files path (some (w.contents path))
    streams := w.streams ++ [⟨path, 0, true⟩] }

/-- Open a file for appending, and create it when it does not exist. -/
def fopenAppend {ε : Type} (os : Os) (path : Path) : Call ε (Option Nat) := do
  let ok ← succeeds os
  let w ← get
  if ok then
    set (w.opened path)
    return some w.streams.length
  else return none

/-- Open a file that exists for reading and writing. -/
def fopenUpdate {ε : Type} (os : Os) (path : Path) : Call ε (Option Nat) := do
  let ok ← succeeds os
  let w ← get
  if ok && (w.files path).isSome then
    set (w.opened path)
    return some w.streams.length
  else return none

/-- The stream behind a pointer, which has to be open. -/
def stream (fp : Option Nat) : Call Fault (Nat × Stream) := fun w =>
  match fp with
  | none => .error .nullStream
  | some i =>
      match w.streams[i]? with
      | none => .error .nullStream
      | some s => if s.isOpen then .ok ((i, s), w) else .error .closedStream

def fclose (fp : Option Nat) : Call Fault Unit := do
  let (i, s) ← stream fp
  modify fun w => { w with streams := w.streams.set i { s with isOpen := false } }

def fseek (fp : Option Nat) (pos : Nat) : Call Fault Unit := do
  let (i, s) ← stream fp
  modify fun w => { w with streams := w.streams.set i { s with pos := pos } }

def rewind (fp : Option Nat) : Call Fault Unit := fseek fp 0

/-- Write the first `size` bytes of a buffer. -/
def fwrite (buffer : List UInt8) (size : Nat) (fp : Option Nat) : Call Fault Unit := do
  let (i, s) ← stream fp
  if size ≤ buffer.length then
    modify fun w => { w with
      files := Function.update w.files s.path
        (some (put (w.contents s.path) s.pos (buffer.take size)))
      streams := w.streams.set i { s with pos := s.pos + size } }
  else throw .outsideBuffer

section Put
variable {file a b : List UInt8} {pos : Nat}

theorem put_nil : put file pos [] = file := if_pos rfl

/-- What is in front of the bytes does not depend on them. -/
theorem exists_front (file : List UInt8) (pos : Nat) :
    ∃ front : List UInt8, front.length = pos ∧
      ∀ bytes, bytes ≠ [] →
        put file pos bytes = front ++ bytes ++ file.drop (pos + bytes.length) := by
  refine ⟨(file ++ List.replicate (pos - file.length) 0).take pos, ?_, ?_⟩
  · simp only [List.length_take, List.length_append, List.length_replicate]
    omega
  · intro bytes hBytes
    rw [put, if_neg hBytes]

theorem length_put (h : a ≠ []) : (put file pos a).length = max file.length (pos + a.length) := by
  obtain ⟨front, rfl, hPut⟩ := exists_front file pos
  rw [hPut a h]
  simp only [List.length_append, List.length_drop]
  omega

theorem length_put_le : (put file pos a).length ≤ max file.length (pos + a.length) := by
  by_cases h : a = []
  · rw [h, put_nil]
    exact Nat.le_max_left _ _
  · exact (length_put h).le

/-- The bytes are in the file where they were written. -/
theorem slice_put : Posix.slice (put file pos a) pos a.length = a := by
  by_cases h : a = []
  · rw [h]
    exact List.take_zero
  · obtain ⟨front, rfl, hPut⟩ := exists_front file pos
    rw [Posix.slice, hPut a h, List.append_assoc, List.drop_left, List.take_left]

/-- Writing one after the other is writing both. -/
theorem put_put (h : a ≠ []) : put (put file pos a) (pos + a.length) b = put file pos (a ++ b) := by
  by_cases hb : b = []
  · rw [hb, put_nil, List.append_nil]
  · have hEnd : pos + a.length ≤ (put file pos a).length :=
      (length_put h).ge.trans' (Nat.le_max_right _ _)
    obtain ⟨front, rfl, hPut⟩ := exists_front file pos
    have hFront : (front ++ a).length = front.length + a.length := List.length_append
    rw [put, if_neg hb, Nat.sub_eq_zero_of_le hEnd, List.replicate_zero, List.append_nil,
      hPut a h, hPut (a ++ b) (List.append_ne_nil_of_left_ne_nil h b), ← hFront, List.take_left,
      ← List.drop_drop, List.drop_left, List.drop_drop, List.append_assoc front a b,
      @List.length_append _ a b, hFront, Nat.add_assoc]

end Put

/-- The stream is open at this place of the file. -/
def World.At (w : World) (fp : Nat) (path : Path) (pos : Nat) : Prop :=
  w.streams[fp]? = some ⟨path, pos, true⟩

section Rules
variable {ε α β : Type} {w : World} {fault : ε → Prop}

theorem sat_bind {x : Call ε α} {f : α → Call ε β} {mid : α × World → Prop}
    {post : β × World → Prop} (hFirst : Sat (x w) mid fault)
    (hRest : ∀ a v, mid (a, v) → Sat (f a v) post fault) : Sat ((x >>= f) w) post fault :=
  Sat.bind hFirst fun r hr => hRest r.1 r.2 hr

end Rules

section Streams
variable {w : World} {fp pos : Nat} {path : Path}

theorem stream_bind {α : Type} (h : w.At fp path pos) (f : Nat × Stream → Call Fault α) :
    (stream (some fp) >>= f) w = f (fp, ⟨path, pos, true⟩) w := by
  have hStream : stream (some fp) w = .ok ((fp, ⟨path, pos, true⟩), w) := by
    unfold World.At at h
    simp only [stream, h, if_true]
  change stream (some fp) w >>= _ = _
  rw [hStream]
  rfl

theorem World.At.lt (h : w.At fp path pos) : fp < w.streams.length :=
  (List.getElem?_eq_some_iff.mp h).1

theorem World.At.set (h : w.At fp path pos) (s : Stream) : (w.streams.set fp s)[fp]? = some s :=
  List.getElem?_set_self h.lt

end Streams

/-- The streams opened since `w` are closed, and those of `w` are as they were. -/
def World.AllClosed (w v : World) : Prop :=
  ∃ closed : List Stream, v.streams = w.streams ++ closed ∧ ∀ s ∈ closed, s.isOpen = false

/-- Of the streams opened since `w` only the last one is open, at this place of
its file. -/
def World.OneOpen (w v : World) (fp : Nat) (path : Path) (pos : Nat) : Prop :=
  ∃ closed : List Stream, v.streams = w.streams ++ closed ++ [⟨path, pos, true⟩] ∧
    fp = (w.streams ++ closed).length ∧ ∀ s ∈ closed, s.isOpen = false

section Since
variable {w v u : World} {fp pos : Nat} {path : Path} {fault : Fault → Prop}

theorem World.AllClosed.refl (w : World) : w.AllClosed w :=
  ⟨[], (List.append_nil _).symm, fun _ h => (List.not_mem_nil h).elim⟩

theorem World.AllClosed.of_streams (h : w.AllClosed v) (hSame : u.streams = v.streams) :
    w.AllClosed u := by
  unfold AllClosed
  rw [hSame]
  exact h

theorem World.OneOpen.of_streams (h : w.OneOpen v fp path pos) (hSame : u.streams = v.streams) :
    w.OneOpen u fp path pos := by
  unfold OneOpen
  rw [hSame]
  exact h

theorem World.AllClosed.opened (h : w.AllClosed v) (path : Path) :
    w.OneOpen (v.opened path) v.streams.length path 0 := by
  obtain ⟨closed, hStreams, hClosed⟩ := h
  refine ⟨closed, ?_, congrArg List.length hStreams, hClosed⟩
  rw [← hStreams]
  rfl

theorem World.OneOpen.at (h : w.OneOpen v fp path pos) : v.At fp path pos := by
  obtain ⟨closed, hStreams, rfl, -⟩ := h
  unfold At
  rw [hStreams, List.getElem?_append_right (Nat.le_refl _), Nat.sub_self]
  rfl

/-- Nothing but the open stream is touched through its pointer. -/
theorem World.OneOpen.set (h : w.OneOpen v fp path pos) (s : Stream) :
    ∃ closed : List Stream, v.streams.set fp s = w.streams ++ closed ++ [s] ∧
      fp = (w.streams ++ closed).length ∧ ∀ s ∈ closed, s.isOpen = false := by
  obtain ⟨closed, hStreams, rfl, hClosed⟩ := h
  refine ⟨closed, ?_, rfl, hClosed⟩
  rw [hStreams, List.set_append_right _ _ (Nat.le_refl _), Nat.sub_self]
  rfl

/-- An open stream is a leak. -/
theorem World.OneOpen.not_allClosed (h : w.OneOpen v fp path pos) : ¬ w.AllClosed v := by
  obtain ⟨closed, hStreams, -, -⟩ := h
  rintro ⟨all, hAll, hClosed⟩
  rw [hStreams, List.append_assoc] at hAll
  rw [← List.append_cancel_left hAll] at hClosed
  cases hClosed _ List.mem_concat_self

theorem fclose_since (h : w.OneOpen v fp path pos) :
    Sat (fclose (some fp) v)
      (fun r => w.AllClosed r.2 ∧ r.2.files = v.files ∧
        r.2.streams[fp]? = some ⟨path, pos, false⟩ ∧ r.2.calls = v.calls) fault := by
  unfold fclose
  rw [stream_bind h.at]
  obtain ⟨closed, hStreams, -, hClosed⟩ := h.set ⟨path, pos, false⟩
  refine ⟨⟨closed ++ [⟨path, pos, false⟩], ?_, ?_⟩, rfl, h.at.set _, rfl⟩
  · rw [← List.append_assoc]
    exact hStreams
  · intro s hs
    rcases List.mem_append.mp hs with hOld | hNew
    · exact hClosed s hOld
    · rw [List.mem_singleton.mp hNew]

/-- A stream that was closed cannot be closed again. -/
theorem fclose_again (h : v.streams[fp]? = some ⟨path, pos, false⟩) :
    fclose (some fp) v = .error .closedStream := by
  have hStream : stream (some fp) v = .error .closedStream := by
    simp only [stream, h]
    rfl
  change stream (some fp) v >>= _ = _
  rw [hStream]
  rfl

theorem fseek_since (h : w.OneOpen v fp path pos) (place : Nat) :
    Sat (fseek (some fp) place v)
      (fun r => w.OneOpen r.2 fp path place ∧ r.2.files = v.files ∧ r.2.calls = v.calls) fault := by
  unfold fseek
  rw [stream_bind h.at]
  exact ⟨h.set ⟨path, place, true⟩, rfl, rfl⟩

/-- The only fault of writing to an open stream is to read behind the buffer. -/
theorem fwrite_since (h : w.OneOpen v fp path pos) (buffer : List UInt8) (size : Nat) :
    Sat (fwrite buffer size (some fp) v)
      (fun r => size ≤ buffer.length ∧ w.OneOpen r.2 fp path (pos + size) ∧
        r.2.files = Function.update v.files path
          (some (put (v.contents path) pos (buffer.take size))))
      (fun e => e = .outsideBuffer ∧ buffer.length < size) := by
  unfold fwrite
  rw [stream_bind h.at]
  dsimp only
  split
  · next hSize => exact ⟨hSize, h.set ⟨path, pos + size, true⟩, rfl⟩
  · next hSize => exact ⟨rfl, Nat.lt_of_not_le hSize⟩

end Since

/-- The world after a call that changed nothing. -/
def World.called (w : World) : World := { w with calls := w.calls + 1 }

section Outcomes
variable {ε : Type} (os : Os) (path : Path) (w : World) {fault : ε → Prop}

theorem succeeds_outcome : Sat (succeeds os w) (· = (!os.fails w.calls, w.called)) fault := rfl

/-- A check succeeds when the system lets it and the file is there. -/
theorem access_outcome :
    Sat (access os path w)
      (· = (if !os.fails w.calls && (w.files path).isSome then 0 else -1, w.called)) fault := rfl

theorem fopenAppend_outcome :
    Sat (fopenAppend os path w)
      (· = if os.fails w.calls then (none, w.called)
        else (some w.streams.length, w.called.opened path)) fault := by
  change Sat ((if (!os.fails w.calls) = true then _ else _ : Call ε (Option Nat)) w.called) _ _
  cases os.fails w.calls with
  | true => exact rfl
  | false => exact rfl

theorem fopenUpdate_outcome :
    Sat (fopenUpdate os path w)
      (· = if !os.fails w.calls && (w.files path).isSome then
          (some w.streams.length, w.called.opened path)
        else (none, w.called)) fault := by
  change Sat ((if (!os.fails w.calls && (w.files path).isSome) = true then _ else _ :
    Call ε (Option Nat)) w.called) _ _
  cases !os.fails w.calls && (w.files path).isSome with
  | true => exact rfl
  | false => exact rfl

end Outcomes

/-- What comes of opening a file since `w`: it was refused, or it was opened and
so many calls had been made. No contents are changed. -/
inductive Opening (w : World) (path : Path) (fails : Bool) (calls : Nat) :
    Option Nat × World → Prop where
  | refused {v : World} (hFails : fails = true) (hClosed : w.AllClosed v)
      (hContents : ∀ other, v.contents other = w.contents other) :
      Opening w path fails calls (none, v)
  | opened {v : World} {fp : Nat} (hOpens : fails = false) (hOpen : w.OneOpen v fp path 0)
      (hCalls : v.calls = calls)
      (hFiles : v.files = Function.update w.files path (some (w.contents path))) :
      Opening w path fails calls (some fp, v)

section Opening
variable {ε : Type} {os : Os} {path : Path} {w v : World} {fault : ε → Prop}

/-- Nothing is in the files that was not there, once the file itself is. -/
theorem contents_of_update
    (hFiles : v.files = Function.update w.files path (some (w.contents path))) (other : Path) :
    v.contents other = w.contents other := by
  unfold World.contents at hFiles ⊢
  rw [hFiles]
  rcases eq_or_ne other path with rfl | hOther
  · rw [Function.update_self]
    rfl
  · rw [Function.update_of_ne hOther]

/-- Opening a file for update that is there. -/
theorem fopenUpdate_opening (hClosed : w.AllClosed v) (hExists : (v.files path).isSome)
    (hContents : ∀ other, v.contents other = w.contents other)
    (hFiles : Function.update v.files path (some (v.contents path)) =
      Function.update w.files path (some (w.contents path))) :
    Sat (fopenUpdate os path v) (Opening w path (os.fails v.calls) (v.calls + 1)) fault := by
  apply (fopenUpdate_outcome os path v).imp
  rintro _ rfl
  rw [hExists, Bool.and_true]
  cases hFails : os.fails v.calls with
  | true => exact .refused rfl (hClosed.of_streams rfl) hContents
  | false => exact .opened rfl ((hClosed.of_streams rfl).opened path) rfl hFiles

end Opening

end Stdio

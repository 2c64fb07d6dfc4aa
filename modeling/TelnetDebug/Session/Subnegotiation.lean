import TelnetDebug.Session.Decode

/-! Subnegotiations in front of the filter. It looks for no end of one: it passes
over nine bytes of a window size and over three bytes of any other, so that it
depends on the payload whether it comes out of the subnegotiation in step. -/
namespace TelnetDebug

open CBuffer

/-- A payload as it is sent: an `IAC` in it is doubled. -/
def escaped (payload : List UInt8) : List UInt8 :=
  payload.flatMap fun b => if b = 0xff then [0xff, 0xff] else [b]

/-- A complete subnegotiation. -/
def subnegotiation (option : UInt8) (payload : List UInt8) : List UInt8 :=
  0xff :: 250 :: option :: (escaped payload ++ [0xff, 240])

/-- A byte of data that is neither `IAC` nor a carriage return. -/
def PlainBytes (s : List UInt8) : Prop := 0xff ∉ s ∧ 13 ∉ s

instance (s : List UInt8) : Decidable (PlainBytes s) := inferInstanceAs (Decidable (_ ∧ _))

section Decoding
variable {s after : List UInt8} {b x c : UInt8}

theorem unsigned_value (c k : UInt8) : CharSign.unsigned.value c = (k.toNat : Int) ↔ c = k := by
  rw [CharSign.value, ← UInt8.toNat_inj]
  omega

theorem decode_empty : decode .unsigned [] = [] := decode_none rfl

theorem decodeNext_nop : decodeNext .unsigned (0xff :: 241 :: s) = some ([], s) := rfl

theorem decodeNext_literal : decodeNext .unsigned (0xff :: 0xff :: s) = some ([0xff], s) := rfl

/-- A window size is taken to have nine bytes. -/
theorem decodeNext_size : decodeNext .unsigned (0xff :: 250 :: 31 :: s) =
    if s.length < 6 then none else some ([], s.drop 6) := rfl

/-- Any other command is three bytes long. -/
theorem decodeNext_command (hNop : b ≠ 241) (hLiteral : b ≠ 0xff)
    (hSize : ¬ (b = 250 ∧ x = 31)) :
    decodeNext .unsigned (0xff :: b :: x :: s) = some ([], s) := by
  have hIac : ¬ CharSign.unsigned.value 0xff ≠ iac := not_not.mpr (unsigned_iac.mpr rfl)
  have hNop : CharSign.unsigned.value b ≠ nop := mt (unsigned_value b 241).mp hNop
  have hLiteral : CharSign.unsigned.value b ≠ iac := mt unsigned_iac.mp hLiteral
  have hSize : ¬ (CharSign.unsigned.value b = sb ∧ CharSign.unsigned.value x = teloptNaws) := by
    rintro ⟨hSb, hNaws⟩
    exact hSize ⟨(unsigned_value b 250).mp hSb, (unsigned_value x 31).mp hNaws⟩
  simp only [decodeNext, if_neg hIac, if_neg hNop, if_neg hLiteral, if_neg hSize]

/-- A command without its option is incomplete. -/
theorem decodeNext_pair (hNop : b ≠ 241) (hLiteral : b ≠ 0xff) :
    decodeNext .unsigned [0xff, b] = none := by
  have hIac : ¬ CharSign.unsigned.value 0xff ≠ iac := not_not.mpr (unsigned_iac.mpr rfl)
  have hNop : CharSign.unsigned.value b ≠ nop := mt (unsigned_value b 241).mp hNop
  have hLiteral : CharSign.unsigned.value b ≠ iac := mt unsigned_iac.mp hLiteral
  simp only [decodeNext, if_neg hIac, if_neg hNop, if_neg hLiteral]

theorem decode_nop : decode .unsigned (0xff :: 241 :: s) = decode .unsigned s :=
  decode_some decodeNext_nop

theorem decode_literal : decode .unsigned (0xff :: 0xff :: s) = 0xff :: decode .unsigned s :=
  decode_some decodeNext_literal

theorem decode_command (hNop : b ≠ 241) (hLiteral : b ≠ 0xff) (hSize : ¬ (b = 250 ∧ x = 31)) :
    decode .unsigned (0xff :: b :: x :: s) = decode .unsigned s :=
  decode_some (decodeNext_command hNop hLiteral hSize)

theorem decode_size : decode .unsigned (0xff :: 250 :: 31 :: s) =
    if s.length < 6 then [] else decode .unsigned (s.drop 6) := by
  have hNext := decodeNext_size (s := s)
  by_cases hShort : s.length < 6
  · rw [if_pos hShort] at hNext ⊢
    exact decode_none hNext
  · rw [if_neg hShort] at hNext ⊢
    exact decode_some hNext

theorem decode_byte (hIac : c ≠ 0xff) (hReturn : c ≠ 13) :
    decode .unsigned (c :: s) = c :: decode .unsigned s := by
  rw [decode_data hIac, if_neg hReturn]

theorem PlainBytes.tail (h : PlainBytes (c :: s)) : PlainBytes s :=
  ⟨mt (List.mem_cons_of_mem c) h.1, mt (List.mem_cons_of_mem c) h.2⟩

theorem PlainBytes.drop (h : PlainBytes s) (n : Nat) : PlainBytes (s.drop n) :=
  ⟨mt List.mem_of_mem_drop h.1, mt List.mem_of_mem_drop h.2⟩

theorem decode_before (h : PlainBytes s) (rest : List UInt8) :
    decode .unsigned (s ++ rest) = s ++ decode .unsigned rest := by
  induction s with
  | nil => rfl
  | cons c s ih =>
      have hIac : c ≠ 0xff := fun hEq => h.1 (hEq ▸ List.mem_cons_self)
      have hReturn : c ≠ 13 := fun hEq => h.2 (hEq ▸ List.mem_cons_self)
      rw [List.cons_append, decode_byte hIac hReturn, ih h.tail, List.cons_append]

theorem decode_plain (h : PlainBytes s) : decode .unsigned s = s := by
  have hAll := decode_before h []
  rwa [List.append_nil, decode_empty, List.append_nil] at hAll

/-- `IAC SE` takes the byte behind it along. -/
theorem decode_end (h : PlainBytes after) :
    decode .unsigned (0xff :: 240 :: after) = after.drop 1 := by
  cases after with
  | nil => exact decode_none rfl
  | cons a after =>
      have hSize : ¬ ((240 : UInt8) = 250 ∧ a = 31) := fun h => absurd h.1 (by decide)
      rw [decode_command (by decide) (by decide) hSize, decode_plain h.tail]
      rfl

end Decoding

section Payload
variable {after : List UInt8}

theorem escaped_iac (p : List UInt8) : escaped (0xff :: p) = 0xff :: 0xff :: escaped p := rfl

theorem escaped_cons {c : UInt8} (h : c ≠ 0xff) (p : List UInt8) :
    escaped (c :: p) = c :: escaped p := by
  rw [escaped, List.flatMap_cons, if_neg h]
  rfl

theorem escaped_append (p q : List UInt8) : escaped (p ++ q) = escaped p ++ escaped q :=
  List.flatMap_append

/-- The payload and what comes behind it. -/
def unreadPayload (after p : List UInt8) : List UInt8 := escaped p ++ 0xff :: 240 :: after

theorem unreadPayload_length (after p : List UInt8) :
    (unreadPayload after p).length = (escaped p).length + 2 + after.length := by
  rw [unreadPayload, List.length_append, List.length_cons, List.length_cons]
  omega

theorem unreadPayload_append (after p q : List UInt8) :
    unreadPayload after (p ++ q) = escaped p ++ unreadPayload after q := by
  rw [unreadPayload, unreadPayload, escaped_append, List.append_assoc]

theorem unreadPayload_iac (after p : List UInt8) :
    unreadPayload after (0xff :: p) = 0xff :: 0xff :: unreadPayload after p := rfl

theorem unreadPayload_cons (after : List UInt8) {c : UInt8} (h : c ≠ 0xff) (p : List UInt8) :
    unreadPayload after (c :: p) = c :: unreadPayload after p := by
  rw [unreadPayload, unreadPayload, escaped_cons h, List.cons_append]

theorem skipReturn_unreadPayload (after p : List UInt8) :
    ∃ q, q.length ≤ p.length ∧ skipReturn (unreadPayload after p) = unreadPayload after q := by
  cases p with
  | nil => exact ⟨[], Nat.le_refl _, rfl⟩
  | cons c p =>
      by_cases hIac : c = 0xff
      · subst hIac
        exact ⟨_, Nat.le_refl _, rfl⟩
      · rw [unreadPayload_cons after hIac, skipReturn]
        split
        · exact ⟨p, Nat.le_succ _, rfl⟩
        · exact ⟨c :: p, Nat.le_refl _, (unreadPayload_cons after hIac p).symm⟩

/-- Where the payload is read as data, it is kept, a padded return apart, and the
end of the subnegotiation takes one byte along. -/
theorem decode_unreadPayload (h : PlainBytes after) (p : List UInt8) :
    ∃ kept, decode .unsigned (unreadPayload after p) = kept ++ after.drop 1 ∧
      (kept = [] ↔ p = []) ∧ ∀ c, c ≠ 13 → (kept = [c] ↔ p = [c]) := by
  induction hLength : p.length using Nat.strong_induction_on generalizing p with
  | _ n ih =>
      cases p with
      | nil =>
          refine ⟨[], decode_end h, iff_of_true rfl rfl, fun c _ => ?_⟩
          exact iff_of_false (List.cons_ne_nil c []).symm (List.cons_ne_nil c []).symm
      | cons c p =>
          rw [List.length_cons] at hLength
          by_cases hIac : c = 0xff
          · subst hIac
            obtain ⟨kept, hDecode, hNil, -⟩ := ih p.length (by omega) p rfl
            refine ⟨0xff :: kept, ?_, ?_, fun d _ => ?_⟩
            · rw [unreadPayload_iac, decode_literal, hDecode, List.cons_append]
            · exact iff_of_false (List.cons_ne_nil _ _) (List.cons_ne_nil _ _)
            · rw [List.cons.injEq, List.cons.injEq, hNil]
          · by_cases hReturn : c = 13
            · subst hReturn
              obtain ⟨q, hShorter, hSkip⟩ := skipReturn_unreadPayload after p
              obtain ⟨kept, hDecode, -⟩ := ih q.length (by omega) q rfl
              refine ⟨13 :: kept, ?_, ?_, fun d hd => ?_⟩
              · rw [unreadPayload_cons after hIac, decode_data hIac, if_pos rfl, hSkip, hDecode,
                  List.cons_append]
              · exact iff_of_false (List.cons_ne_nil _ _) (List.cons_ne_nil _ _)
              · rw [List.cons.injEq, List.cons.injEq]
                exact iff_of_false (fun hEq => hd hEq.1.symm) (fun hEq => hd hEq.1.symm)
            · obtain ⟨kept, hDecode, hNil, -⟩ := ih p.length (by omega) p rfl
              refine ⟨c :: kept, ?_, ?_, fun d _ => ?_⟩
              · rw [unreadPayload_cons after hIac, decode_byte hIac hReturn, hDecode,
                  List.cons_append]
              · exact iff_of_false (List.cons_ne_nil _ _) (List.cons_ne_nil _ _)
              · rw [List.cons.injEq, List.cons.injEq, hNil]

/-- A payload that is read as data disappears if and only if it is the byte that
its end takes along. -/
theorem decode_unreadPayload_iff (h : PlainBytes after) (p : List UInt8) :
    decode .unsigned (unreadPayload after p) = after ↔ p = after.take 1 := by
  obtain ⟨kept, hDecode, hNil, hOne⟩ := decode_unreadPayload h p
  have hSplit : kept ++ after.drop 1 = after ↔ kept = after.take 1 := by
    conv_lhs => rhs; rw [← List.take_append_drop 1 after]
    exact List.append_left_inj _
  rw [hDecode, hSplit]
  cases after with
  | nil => exact hNil
  | cons a after => exact hOne a fun hReturn => h.2 (hReturn ▸ List.mem_cons_self)

end Payload

section Steps

/-- Where the filter is when it comes to the rest of a payload. -/
inductive Place where
  | data
  | behindIac
  | windowSize
deriving DecidableEq

/-- The bytes of a command that have been passed already. -/
def Place.passed : Place → List UInt8
  | data => []
  | behindIac => [0xff]
  | windowSize => [0xff, 250, 31]

/-- The place at which the filter comes to the payload of an option. -/
def Place.ofOption (option : UInt8) : Place := if option = 31 then windowSize else data

/-- The filter is in step again at the end of the subnegotiation, in front of
`after`. Read as a window size, the payload has four bytes as it is sent, or is
cut off with nothing behind it, or six of its bytes are passed over and the rest
is read as data, or behind the first half of a doubled `IAC`. -/
inductive Recovers (after : List UInt8) : Place → List UInt8 → Prop where
  | data : Recovers after .data (after.take 1)
  | whole {p : List UInt8} (hFour : (escaped p).length = 4) : Recovers after .windowSize p
  | cut {p : List UInt8} (hShort : (escaped p).length < 4) (hEnd : after = []) :
      Recovers after .windowSize p
  | beyond {passed p : List UInt8} (hSix : (escaped passed).length = 6)
      (hRest : Recovers after .data p) : Recovers after .windowSize (passed ++ p)
  | half {passed p : List UInt8} (hFive : (escaped passed).length = 5)
      (hRest : Recovers after .behindIac p) : Recovers after .windowSize (passed ++ 0xff :: p)
  | nop {p : List UInt8} (hRest : Recovers after .data p) : Recovers after .behindIac (241 :: p)
  | command {b x : UInt8} {p : List UInt8} (hNop : b ≠ 241) (hLiteral : b ≠ 0xff)
      (hWhole : x ≠ 0xff) (hSize : ¬ (b = 250 ∧ x = 31)) (hRest : Recovers after .data p) :
      Recovers after .behindIac (b :: x :: p)
  | commandHalf {b : UInt8} {p : List UInt8} (hNop : b ≠ 241) (hLiteral : b ≠ 0xff)
      (hRest : Recovers after .behindIac p) : Recovers after .behindIac (b :: 0xff :: p)
  | size {p : List UInt8} (hRest : Recovers after .windowSize p) :
      Recovers after .behindIac (250 :: 31 :: p)

/-- Nothing of the rest of the payload is kept, and all that is behind it is. -/
def Removed (after : List UInt8) (place : Place) (p : List UInt8) : Prop :=
  decode .unsigned (place.passed ++ unreadPayload after p) = after

variable {after : List UInt8}

theorem removed_data (h : PlainBytes after) (p : List UInt8) :
    Removed after .data p ↔ p = after.take 1 := decode_unreadPayload_iff h p

theorem removed_nop (p : List UInt8) :
    Removed after .behindIac (241 :: p) ↔ Removed after .data p := by
  unfold Removed
  rw [unreadPayload_cons after (by decide)]
  exact Eq.congr_left decode_nop

theorem removed_command {b x : UInt8} (hNop : b ≠ 241) (hLiteral : b ≠ 0xff) (hWhole : x ≠ 0xff)
    (hSize : ¬ (b = 250 ∧ x = 31)) (p : List UInt8) :
    Removed after .behindIac (b :: x :: p) ↔ Removed after .data p := by
  unfold Removed
  rw [unreadPayload_cons after hLiteral, unreadPayload_cons after hWhole]
  exact Eq.congr_left (decode_command hNop hLiteral hSize)

theorem removed_commandHalf {b : UInt8} (hNop : b ≠ 241) (hLiteral : b ≠ 0xff) (p : List UInt8) :
    Removed after .behindIac (b :: 0xff :: p) ↔ Removed after .behindIac p := by
  have hSize : ¬ (b = 250 ∧ (0xff : UInt8) = 31) := fun h => absurd h.2 (by decide)
  unfold Removed
  rw [unreadPayload_cons after hLiteral, unreadPayload_iac]
  exact Eq.congr_left (decode_command hNop hLiteral hSize)

theorem removed_size (p : List UInt8) :
    Removed after .behindIac (250 :: 31 :: p) ↔ Removed after .windowSize p := by
  unfold Removed
  rw [unreadPayload_cons after (by decide), unreadPayload_cons after (by decide)]
  exact Iff.rfl

/-- An `IAC` behind a half of another one is taken for a literal one. -/
theorem not_removed_literal (h : PlainBytes after) {s : List UInt8} :
    decode .unsigned (0xff :: 0xff :: s) ≠ after := by
  rw [decode_literal]
  rintro rfl
  exact h.1 List.mem_cons_self

theorem not_removed_one (h : PlainBytes after) {b : UInt8} (hNop : b ≠ 241) :
    ¬ Removed after .behindIac [b] := by
  unfold Removed
  by_cases hLiteral : b = 0xff
  · subst hLiteral
    exact not_removed_literal h
  · have hSize : ¬ (b = 250 ∧ (0xff : UInt8) = 31) := fun h => absurd h.2 (by decide)
    have hOne : unreadPayload after [b] = b :: 0xff :: 240 :: after :=
      unreadPayload_cons after hLiteral []
    change decode .unsigned (0xff :: unreadPayload after [b]) ≠ after
    rw [hOne, decode_command hNop hLiteral hSize, decode_byte (by decide) (by decide),
      decode_plain h]
    exact List.cons_ne_self 240 after

/-- What is read of a window size is passed over, if there is enough of it. -/
theorem removed_windowSize (p : List UInt8) :
    Removed after .windowSize p ↔
      (if (escaped p).length + after.length < 4 then []
        else decode .unsigned ((unreadPayload after p).drop 6)) = after := by
  have hShort : (escaped p).length + after.length < 4 ↔ (unreadPayload after p).length < 6 := by
    rw [unreadPayload_length]
    omega
  rw [if_congr hShort rfl rfl]
  exact Eq.congr_left decode_size

theorem unreadPayload_drop {p : List UInt8} {n k : Nat} (h : n = (escaped p).length + k) :
    (unreadPayload after p).drop n = (0xff :: 240 :: after).drop k := by
  rw [h, unreadPayload, List.drop_append, Nat.add_sub_cancel_left,
    List.drop_eq_nil_of_le (Nat.le_add_right _ _), List.nil_append]

theorem removed_whole (h : PlainBytes after) {p : List UInt8} (hFour : (escaped p).length = 4) :
    Removed after .windowSize p := by
  have hEnough : ¬ (escaped p).length + after.length < 4 := by omega
  have hDrop : 6 = (escaped p).length + 2 := by omega
  rw [removed_windowSize, if_neg hEnough, unreadPayload_drop hDrop]
  exact decode_plain h

theorem removed_cut (h : PlainBytes after) {p : List UInt8} (hShort : (escaped p).length < 4) :
    Removed after .windowSize p ↔ after = [] := by
  rw [removed_windowSize]
  by_cases hNone : (escaped p).length + after.length < 4
  · rw [if_pos hNone]
    exact eq_comm
  · obtain ⟨k, hk⟩ := Nat.exists_eq_add_of_lt hShort
    have hDrop : 6 = (escaped p).length + (k + 1 + 2) := by omega
    rw [if_neg hNone, unreadPayload_drop hDrop]
    change decode .unsigned (after.drop (k + 1)) = after ↔ after = []
    rw [decode_plain (h.drop _)]
    constructor
    · intro hSame
      have hLength := congrArg List.length hSame
      rw [List.length_drop] at hLength
      exact List.eq_nil_of_length_eq_zero (by omega)
    · rintro rfl
      rfl

theorem not_removed_five (h : PlainBytes after) {p : List UInt8} (hFive : (escaped p).length = 5) :
    ¬ Removed after .windowSize p := by
  have hEnough : ¬ (escaped p).length + after.length < 4 := by omega
  have hDrop : 6 = (escaped p).length + 1 := by omega
  rw [removed_windowSize, if_neg hEnough, unreadPayload_drop hDrop]
  change decode .unsigned (240 :: after) ≠ after
  rw [decode_byte (by decide) (by decide), decode_plain h]
  exact List.cons_ne_self 240 after

theorem removed_beyond {passed : List UInt8} (hSix : (escaped passed).length = 6)
    (p : List UInt8) : Removed after .windowSize (passed ++ p) ↔ Removed after .data p := by
  have hEnough : ¬ (escaped (passed ++ p)).length + after.length < 4 := by
    rw [escaped_append, List.length_append]
    omega
  rw [removed_windowSize, if_neg hEnough, unreadPayload_append, ← hSix, List.drop_left]
  exact Iff.rfl

theorem removed_half {passed : List UInt8} (hFive : (escaped passed).length = 5)
    (p : List UInt8) :
    Removed after .windowSize (passed ++ 0xff :: p) ↔ Removed after .behindIac p := by
  have hEnough : ¬ (escaped (passed ++ 0xff :: p)).length + after.length < 4 := by
    rw [escaped_append, List.length_append]
    omega
  have hSplit : unreadPayload after (passed ++ 0xff :: p) =
      (escaped passed ++ [0xff]) ++ 0xff :: unreadPayload after p := by
    rw [unreadPayload_append, unreadPayload_iac, List.append_assoc]
    rfl
  have hSix : 6 = (escaped passed ++ [0xff]).length := by
    rw [List.length_append, hFive]
    rfl
  rw [removed_windowSize, if_neg hEnough, hSplit, hSix, List.drop_left]
  exact Iff.rfl

/-- The bytes of a payload as it is sent, cut anywhere: between two bytes of the
payload or within a doubled one. -/
theorem escaped_split {n : Nat} {p : List UInt8} (h : n ≤ (escaped p).length) :
    ∃ passed q, p = passed ++ q ∧ (escaped passed).length = n ∨
      p = passed ++ 0xff :: q ∧ (escaped passed).length + 1 = n := by
  induction p generalizing n with
  | nil => exact ⟨[], [], .inl ⟨rfl, (Nat.le_zero.mp h).symm⟩⟩
  | cons c p ih =>
      obtain ⟨size, hSize, hPos, hHalf⟩ : ∃ size, (∀ q, (escaped (c :: q)).length =
          size + (escaped q).length) ∧ 0 < size ∧ (size ≠ 1 → c = 0xff ∧ size = 2) := by
        by_cases hIac : c = 0xff
        · subst hIac
          refine ⟨2, fun q => ?_, Nat.two_pos, fun _ => ⟨rfl, rfl⟩⟩
          rw [escaped_iac, List.length_cons, List.length_cons]
          omega
        · refine ⟨1, fun q => ?_, Nat.one_pos, fun hOne => absurd rfl hOne⟩
          rw [escaped_cons hIac, List.length_cons, Nat.add_comm]
      rw [hSize] at h
      by_cases hStart : n = 0
      · exact ⟨[], c :: p, .inl ⟨rfl, hStart.symm⟩⟩
      · by_cases hFirst : size ≤ n
        · obtain ⟨passed, q, hSplit⟩ := ih (n := n - size) (by omega)
          refine ⟨c :: passed, q, ?_⟩
          rcases hSplit with ⟨rfl, hLength⟩ | ⟨rfl, hLength⟩
          · refine .inl ⟨rfl, ?_⟩
            rw [hSize]
            omega
          · refine .inr ⟨rfl, ?_⟩
            rw [hSize]
            omega
        · obtain ⟨rfl, rfl⟩ := hHalf (by omega)
          refine ⟨[], p, .inr ⟨rfl, ?_⟩⟩
          change 0 + 1 = n
          omega

/-- Every payload that recovers is removed. -/
theorem Recovers.removed (h : PlainBytes after) {place : Place} {p : List UInt8}
    (hRecovers : Recovers after place p) : Removed after place p := by
  induction hRecovers with
  | data => exact (removed_data h _).mpr rfl
  | whole hFour => exact removed_whole h hFour
  | cut hShort hEnd => exact (removed_cut h hShort).mpr hEnd
  | beyond hSix _ ih => exact (removed_beyond hSix _).mpr ih
  | half hFive _ ih => exact (removed_half hFive _).mpr ih
  | nop _ ih => exact (removed_nop _).mpr ih
  | command hNop hLiteral hWhole hSize _ ih =>
      exact (removed_command hNop hLiteral hWhole hSize _).mpr ih
  | commandHalf hNop hLiteral _ ih => exact (removed_commandHalf hNop hLiteral _).mpr ih
  | size _ ih => exact (removed_size _).mpr ih

/-- Every payload that is removed recovers: each round leaves a shorter one. -/
theorem Removed.recovers (h : PlainBytes after) {place : Place} {p : List UInt8}
    (hRemoved : Removed after place p) : Recovers after place p := by
  induction hLength : p.length using Nat.strong_induction_on generalizing place p with
  | _ n ih =>
      cases place with
      | data =>
          rw [(removed_data h p).mp hRemoved]
          exact .data
      | behindIac =>
          cases p with
          | nil => exact absurd hRemoved (not_removed_literal h)
          | cons b p =>
              rw [List.length_cons] at hLength
              by_cases hLiteral : b = 0xff
              · subst hLiteral
                exact absurd hRemoved (not_removed_literal h)
              · by_cases hNop : b = 241
                · subst hNop
                  exact .nop (ih p.length (by omega) ((removed_nop p).mp hRemoved) rfl)
                · cases p with
                  | nil => exact absurd hRemoved (not_removed_one h hNop)
                  | cons x p =>
                      rw [List.length_cons] at hLength
                      have hShorter : p.length < n := by omega
                      by_cases hHalf : x = 0xff
                      · subst hHalf
                        have hRest := (removed_commandHalf hNop hLiteral p).mp hRemoved
                        exact .commandHalf hNop hLiteral (ih p.length hShorter hRest rfl)
                      · by_cases hSize : b = 250 ∧ x = 31
                        · obtain ⟨rfl, rfl⟩ := hSize
                          exact .size (ih p.length hShorter ((removed_size p).mp hRemoved) rfl)
                        · have hRest := (removed_command hNop hLiteral hHalf hSize p).mp hRemoved
                          exact .command hNop hLiteral hHalf hSize (ih p.length hShorter hRest rfl)
      | windowSize =>
          rcases Nat.lt_or_ge (escaped p).length 6 with hFew | hMany
          · rcases Nat.lt_trichotomy (escaped p).length 4 with hShort | hFour | hFive
            · exact .cut hShort ((removed_cut h hShort).mp hRemoved)
            · exact .whole hFour
            · exact absurd hRemoved (not_removed_five h (by omega))
          · obtain ⟨passed, q, ⟨rfl, hSix⟩ | ⟨rfl, hFive⟩⟩ := escaped_split hMany
            · have hSome : passed ≠ [] := by
                rintro rfl
                cases hSix
              have hPos := List.length_pos_iff.mpr hSome
              rw [List.length_append] at hLength
              exact .beyond hSix (ih q.length (by omega) ((removed_beyond hSix q).mp hRemoved) rfl)
            · have hFive : (escaped passed).length = 5 := by omega
              rw [List.length_append, List.length_cons] at hLength
              exact .half hFive (ih q.length (by omega) ((removed_half hFive q).mp hRemoved) rfl)

end Steps

/-- For every option, every payload and every plain bytes around: exactly the
bytes around are kept if and only if the filter recovers from the payload. -/
theorem subnegotiation_removed_iff (option : UInt8) (payload : List UInt8)
    {before after : List UInt8} (hBefore : PlainBytes before) (hAfter : PlainBytes after)
    (tail : List UInt8) :
    let s := before ++ subnegotiation option payload ++ after
    (telnetdRemoveIac .unsigned (s ++ tail) s.length).1.take
        (telnetdRemoveIac .unsigned (s ++ tail) s.length).2 = before ++ after ↔
      Recovers after (.ofOption option) payload := by
  intro s
  have hSplit : s = before ++ 0xff :: 250 :: option :: unreadPayload after payload := by
    simp only [s, subnegotiation, unreadPayload, List.append_assoc, List.cons_append,
      List.nil_append]
  have hPlace : decode .unsigned (0xff :: 250 :: option :: unreadPayload after payload) = after ↔
      Removed after (.ofOption option) payload := by
    unfold Place.ofOption
    by_cases hNaws : option = 31
    · subst hNaws
      exact Iff.rfl
    · have hSize : ¬ ((250 : UInt8) = 250 ∧ option = 31) := fun h => hNaws h.2
      rw [if_neg hNaws, decode_command (by decide) (by decide) hSize]
      exact Iff.rfl
  rw [(telnetdRemoveIac_decode .unsigned s tail).2, List.take_left, hSplit, decode_before hBefore,
    List.append_right_inj, hPlace]
  exact ⟨Removed.recovers hAfter, Recovers.removed hAfter⟩

/-- A window of 80 columns and 24 rows is removed. -/
theorem subnegotiation_removed_window :
    let s := [0x61] ++ subnegotiation 31 [0, 80, 0, 24] ++ [0x62]
    (telnetdRemoveIac .unsigned (s ++ [0]) s.length).1.take
        (telnetdRemoveIac .unsigned (s ++ [0]) s.length).2 = [0x61] ++ [0x62] :=
  (subnegotiation_removed_iff 31 [0, 80, 0, 24] (by decide) (by decide) [0]).mpr (.whole rfl)

/-- A window of 255 columns leaves the last byte of its subnegotiation. -/
theorem subnegotiation_leaks :
    let s := [0x61] ++ subnegotiation 31 [0, 0xff, 0, 24] ++ [0x62]
    s = [0x61, 0xff, 250, 31, 0, 0xff, 0xff, 0, 24, 0xff, 240, 0x62] ∧
      (telnetdRemoveIac .unsigned (s ++ [0]) s.length).1.take
        (telnetdRemoveIac .unsigned (s ++ [0]) s.length).2 = [0x61, 240, 0x62] := by
  decide +kernel

end TelnetDebug

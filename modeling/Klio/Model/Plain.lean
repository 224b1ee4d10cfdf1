import Klio.Model.Format

/-!
# Concrete outside code

Instances of `Codec` and `Deps` on which the model can be run. The header is encoded as
protobuf does it; blocks are stored as they are.
-/

namespace Klio

/-- Base 128 digits, lowest first, with the continuation bit on all but the last. -/
def varint : ℕ → ℕ → List UInt8
  | 0, n => [UInt8.ofNat n]
  | fuel + 1, n => if n < 128 then [UInt8.ofNat n] else UInt8.ofNat (n % 128 + 128) :: varint fuel (n / 128)

def consumeVarint : List UInt8 → Option (ℕ × List UInt8)
  | [] => none
  | b :: bs =>
    if b.toNat < 128 then some (b.toNat, bs)
    else match consumeVarint bs with
      | some (n, rest) => some (b.toNat - 128 + 128 * n, rest)
      | none => none

theorem consume_varint (fuel n : ℕ) (rest : List UInt8) (hn : n < 128 ^ (fuel + 1)) :
    consumeVarint (varint fuel n ++ rest) = some (n, rest) := by
  induction fuel generalizing n with
  | zero =>
    have h8 : (UInt8.ofNat n).toNat = n := by rw [UInt8.toNat_ofNat']; omega
    simp only [varint, List.cons_append, List.nil_append, consumeVarint, h8]
    rw [if_pos (by omega)]
  | succ fuel ih =>
    unfold varint
    split
    · rename_i hlt
      have h8 : (UInt8.ofNat n).toNat = n := by rw [UInt8.toNat_ofNat']; omega
      simp only [List.cons_append, List.nil_append, consumeVarint, h8, if_pos hlt]
    have h8 : (UInt8.ofNat (n % 128 + 128)).toNat = n % 128 + 128 := by rw [UInt8.toNat_ofNat']; omega
    have hdiv : n / 128 < 128 ^ (fuel + 1) := by
      rw [Nat.div_lt_iff_lt_mul (by decide), ← Nat.pow_succ]; exact hn
    simp only [List.cons_append, consumeVarint, h8, ih _ hdiv]
    rw [if_neg (by omega)]
    congr 2
    omega

/-- The fields of `StartWALFile`: the version 1, and the file length unless it is zero. -/
def plainStartBlock (n : UInt64) : List UInt8 := [8, 1] ++ if n = 0 then [] else 16 :: varint 9 n.toNat

/-- Read the fields back. -/
def plainUnmarshal : List UInt8 → Option UInt64
  | [8, 1] => some 0
  | 8 :: 1 :: 16 :: v => match consumeVarint v with
    | some (n, []) => some (UInt64.ofNat n)
    | _ => none
  | _ => none

/-- The size, then the fields. -/
def plainUnmarshalFrom : List UInt8 → Except Err (UInt64 × List UInt8)
  | [] => .error .eof
  | b :: bs =>
    if bs.length < b.toNat then .error .unexpectedEOF
    else match plainUnmarshal (bs.take b.toNat) with
      | some n => .ok (n, bs.drop b.toNat)
      | none => .error (.new "proto: cannot parse invalid wire-format data")

theorem varint_length_le (fuel n : ℕ) : (varint fuel n).length ≤ fuel + 1 := by
  induction fuel generalizing n with
  | zero => simp [varint]
  | succ fuel ih =>
    unfold varint
    split
    · simp
    · simp only [List.length_cons]; have := ih (n / 128); omega

theorem plainStartBlock_length_le (n : UInt64) : (plainStartBlock n).length ≤ 13 := by
  have := varint_length_le 9 n.toNat
  unfold plainStartBlock
  split
  · simp
  · simp only [List.length_append, List.length_cons, List.length_nil]; omega

theorem plainUnmarshal_startBlock (n : UInt64) : plainUnmarshal (plainStartBlock n) = some n := by
  unfold plainStartBlock
  split
  · rename_i h; subst h; rfl
  · have hv := consume_varint 9 n.toNat [] (lt_trans n.toNat_lt (by decide))
    rw [List.append_nil] at hv
    simp only [List.cons_append, List.nil_append, plainUnmarshal, hv, UInt64.ofNat_toNat]

/-- **A codec that stores blocks as they are.** An odd draw fails. -/
def plainCodec : Codec where
  wrap r b := if b.length ≤ walBlockSize ∧ r % 2 = 0 then .ok b else .error (.new "rand")
  unwrap b := .ok b
  delim n := [UInt8.ofNat (plainStartBlock n).length]
  startBlock := plainStartBlock
  unmarshalFrom := plainUnmarshalFrom
  unwrap_wrap r b w h := by
    split at h
    · cases h; rfl
    · cases h
  wrap_length r b w h := by
    split at h
    · rename_i hb
      cases h
      exact le_trans hb.1 (by decide)
    · cases h
  wrap_total := ⟨0, fun b hb => ⟨b, if_pos ⟨hb, rfl⟩⟩⟩
  unmarshal_marshal n rest := by
    have hlen : (UInt8.ofNat (plainStartBlock n).length).toNat = (plainStartBlock n).length := by
      have := plainStartBlock_length_le n
      rw [UInt8.toNat_ofNat']; omega
    simp only [List.cons_append, List.nil_append, plainUnmarshalFrom, hlen]
    rw [if_neg (by rw [List.length_append]; omega), List.take_left, List.drop_left]
    simp only [plainUnmarshal_startBlock]
  unmarshal_nil := rfl

/-- **The name checks for ASCII.** -/
def plainDeps : Deps where
  isWALFile := hexRun 24
  isLetter := Char.isAlpha
  isNumber := Char.isDigit
  isWALFile_eq _ _ := rfl
  isLetter_ascii _ _ := rfl
  isNumber_ascii _ _ := rfl

end Klio

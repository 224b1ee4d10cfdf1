import Klio.Model.Numbering

/-!
# Names of segments read back

* `parseHex_hexDigits`, `parseHex_formatHex`: a number written in hexadecimal reads back.
* `PostgresNumbering`: what is assumed of the library that computes names and positions.
* `numbered_postgres`: the numbering of the model is one.
-/

namespace Klio

open List Nat

/-! ## Hexadecimal numbers -/

/-- The digits of `%X`. -/
def hexDigits (n : ℕ) : Name := (Nat.toDigits 16 n).map Char.toUpper

/-- The value of a string of digits. -/
def hexNumber (s : Name) : ℕ := s.foldl (fun n c => 16 * n + hexValue c) 0

theorem hexDigit_spec {d : ℕ} (hd : d < 16) :
    isHexDigit (digitChar d).toUpper = true ∧ hexValue (digitChar d).toUpper = d ∧ (digitChar d).toUpper ≠ '/' := by
  have hall : ∀ d : Fin 16, isHexDigit (digitChar d).toUpper = true ∧ hexValue (digitChar d).toUpper = d ∧
      (digitChar d).toUpper ≠ '/' := by decide
  exact hall ⟨d, hd⟩

/-- **The digits of a number**: all of them are digits, and their value is the number. -/
theorem hexDigits_spec : ∀ n : ℕ, (∀ c ∈ hexDigits n, isHexDigit c = true ∧ c ≠ '/') ∧ hexNumber (hexDigits n) = n := by
  intro n
  induction n using Nat.strong_induction_on with
  | _ n ih =>
    by_cases hn : n < 16
    · -- one digit
      have hone : hexDigits n = [(digitChar n).toUpper] := by
        unfold hexDigits
        rw [toDigits_of_lt_base hn]
        rfl
      obtain ⟨hdigit, hvalue, hslash⟩ := hexDigit_spec hn
      rw [hone]
      refine ⟨fun c hc => ?_, ?_⟩
      · rw [mem_singleton.mp hc]
        exact ⟨hdigit, hslash⟩
      · simp [hexNumber, hvalue]
    · -- the digits of the quotient, then the last one
      have hmore : hexDigits n = hexDigits (n / 16) ++ [(digitChar (n % 16)).toUpper] := by
        unfold hexDigits
        rw [toDigits_of_base_le (by decide) (by omega), map_append]
        rfl
      obtain ⟨hdigit, hvalue, hslash⟩ := hexDigit_spec (mod_lt n (by decide : 0 < 16))
      obtain ⟨hdigits, hnumber⟩ := ih (n / 16) (by omega)
      rw [hmore]
      refine ⟨fun c hc => ?_, ?_⟩
      · rcases mem_append.mp hc with hc | hc
        · exact hdigits c hc
        · rw [mem_singleton.mp hc]
          exact ⟨hdigit, hslash⟩
      · unfold hexNumber at hnumber ⊢
        rw [foldl_append, hnumber]
        simp only [foldl_cons, foldl_nil, hvalue]
        omega

theorem parseHex_hexDigits (n : ℕ) : parseHex (hexDigits n) = some n := by
  obtain ⟨hdigits, hnumber⟩ := hexDigits_spec n
  have hne : hexDigits n ≠ [] := by
    unfold hexDigits
    simp
  unfold parseHex
  rw [if_pos ⟨hne, all_eq_true.mpr fun c hc => (hdigits c hc).1⟩]
  exact congrArg some hnumber

theorem hexNumber_zeros (k : ℕ) (s : Name) : hexNumber (replicate k '0' ++ s) = hexNumber s := by
  induction k with
  | zero => rfl
  | succ k ih =>
    rw [replicate_succ, cons_append]
    unfold hexNumber at ih ⊢
    exact ih

theorem parseHex_formatHex (n : ℕ) : parseHex (formatHex n) = some n := by
  obtain ⟨hdigits, hnumber⟩ := hexDigits_spec n
  have hformat : formatHex n = replicate (8 - (hexDigits n).length) '0' ++ hexDigits n := rfl
  have hne : formatHex n ≠ [] := by
    rw [hformat]
    unfold hexDigits
    simp
  have hall : ∀ c ∈ formatHex n, isHexDigit c = true := by
    intro c hc
    rcases mem_append.mp hc with hc | hc
    · rw [eq_of_mem_replicate hc]
      decide
    · exact (hdigits c hc).1
  unfold parseHex
  rw [if_pos ⟨hne, all_eq_true.mpr hall⟩]
  refine congrArg some ?_
  show hexNumber (formatHex n) = n
  rw [hformat, hexNumber_zeros, hnumber]

theorem length_formatHex {n : ℕ} (hn : n < 2 ^ 32) : (formatHex n).length = 8 := by
  have hlen : (hexDigits n).length ≤ 8 := by
    unfold hexDigits
    rw [length_map]
    exact toDigits_length 16 n 8 (by decide) (by omega)
  show (replicate (8 - (hexDigits n).length) '0' ++ hexDigits n).length = 8
  rw [length_append, length_replicate]
  omega

theorem parseLsnText_lsnText (pos : ℕ) : parseLsnText (lsnText pos) = some pos := by
  have hslash : ∀ c ∈ hexDigits (pos / 2 ^ 32), (c != '/') = true := by
    intro c hc
    have hne := ((hexDigits_spec (pos / 2 ^ 32)).1 c hc).2
    simpa using hne
  have htext : lsnText pos = hexDigits (pos / 2 ^ 32) ++ '/' :: hexDigits (pos % 2 ^ 32) := rfl
  have htake : (lsnText pos).takeWhile (· != '/') = hexDigits (pos / 2 ^ 32) := by
    rw [htext, takeWhile_append_of_pos hslash]
    simp
  have hdrop : ((lsnText pos).dropWhile (· != '/')).drop 1 = hexDigits (pos % 2 ^ 32) := by
    rw [htext, dropWhile_append_of_pos hslash]
    simp
  unfold parseLsnText
  rw [htake, hdrop, parseHex_hexDigits, parseHex_hexDigits]
  simp only [Option.bind_eq_bind, Option.bind_some, Option.some.injEq]
  omega

/-! ## Segments -/

/-- **A segment size**: a power of two of at most 1 GiB. -/
def IsSegmentSize (segmentSize : UInt64) : Prop := ∃ k, k ≤ 30 ∧ segmentSize.toNat = 2 ^ k

theorem IsSegmentSize.pos {size : UInt64} (h : IsSegmentSize size) : 0 < size.toNat := by
  obtain ⟨k, -, hk⟩ := h
  rw [hk]
  exact Nat.two_pow_pos k

theorem IsSegmentSize.perLog {size : UInt64} (h : IsSegmentSize size) : segmentsPerLog size * size.toNat = 2 ^ 32 := by
  obtain ⟨k, hk, hsize⟩ := h
  show 2 ^ 32 / size.toNat * size.toNat = 2 ^ 32
  rw [hsize]
  exact Nat.div_mul_cancel (pow_dvd_pow 2 (by omega))

theorem segmentNumber_segmentName {size : UInt64} (hsize : IsSegmentSize size) {timeline n : ℕ} (htl : timeline < 2 ^ 32)
    (hn : n * size.toNat < 2 ^ 64) : segmentNumber size (segmentName timeline size n) = some n := by
  have hper := hsize.perLog
  have hpos : 0 < segmentsPerLog size := by
    rcases Nat.eq_zero_or_pos (segmentsPerLog size) with h0 | h0
    · rw [h0, zero_mul] at hper
      cases hper
    · exact h0
  -- both parts have eight digits
  have hlog : n / segmentsPerLog size < 2 ^ 32 := by
    rw [div_lt_iff_lt_mul hpos]
    have h64 : n * size.toNat < 2 ^ 32 * (segmentsPerLog size * size.toNat) := by
      rw [hper]
      exact hn
    rw [← mul_assoc] at h64
    exact Nat.lt_of_mul_lt_mul_right h64
  have hmod : n % segmentsPerLog size < segmentsPerLog size := mod_lt n hpos
  have hseg : n % segmentsPerLog size < 2 ^ 32 := by
    have hle : segmentsPerLog size ≤ 2 ^ 32 := by
      rw [← hper]
      exact Nat.le_mul_of_pos_right _ hsize.pos
    omega
  have h1 := length_formatHex htl
  have h2 := length_formatHex hlog
  have h3 := length_formatHex hseg
  set a := formatHex timeline with ha
  set b := formatHex (n / segmentsPerLog size) with hb
  set d := formatHex (n % segmentsPerLog size) with hd
  have hname : segmentName timeline size n = a ++ b ++ d := rfl
  have htake : (a ++ b ++ d).take 8 = a := by
    rw [append_assoc, ← h1, take_left']
    rfl
  have hmid : ((a ++ b ++ d).drop 8).take 8 = b := by
    rw [append_assoc, drop_left' h1, take_left' h2]
  have hlast : ((a ++ b ++ d).drop 16).take 8 = d := by
    rw [drop_left' (by rw [length_append, h1, h2]), take_of_length_le (by omega)]
  unfold segmentNumber
  rw [hname, if_neg (by rw [length_append, length_append, h1, h2, h3]; decide), htake, hmid, hlast, ha, hb, hd,
    parseHex_formatHex, parseHex_formatHex, parseHex_formatHex]
  simp only [Option.bind_eq_bind, Option.bind_some, if_pos hmod, Option.some.injEq]
  rw [mul_comm]
  exact div_add_mod n (segmentsPerLog size)

/-- **PostgreSQL's numbering**, as the outside code computes it: the start of a segment is its number times the
segment size, and the segment of a position is the quotient. -/
structure PostgresNumbering (P : Outside) : Prop where
  start : ∀ (size : UInt64) (timeline n : ℕ), IsSegmentSize size → timeline < 2 ^ 31 → n * size.toNat < 2 ^ 64 →
    ∃ lsn, P.lsnStartFromWALName (segmentName timeline size n) size = .ok lsn ∧ P.parseLSN lsn = .ok (UInt64.ofNat (n * size.toNat))
  name : ∀ (pos size : UInt64) (timeline : ℤ), IsSegmentSize size → 0 ≤ timeline → timeline < 2 ^ 31 →
    P.walFileName pos timeline size = .ok (segmentName timeline.toNat size (pos.toNat / size.toNat))

theorem numbered_postgres (policies : List RetentionPolicy) (metadata : List ClusterMetadata) :
    PostgresNumbering (numbered policies metadata) where
  start size timeline n hsize htl hn := by
    refine ⟨lsnText (n * size.toNat), ?_, ?_⟩
    · simp only [numbered, segmentNumber_segmentName hsize (by omega : timeline < 2 ^ 32) hn]
    · simp only [numbered, parseLsnText_lsnText]
  name _ _ _ _ _ _ := rfl

end Klio

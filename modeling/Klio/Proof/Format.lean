import Klio.Lib.ObjStore
import Klio.Model.Plain

/-!
# What the writers write, the reader reads

* `Framed`: a byte string that is a sequence of length-prefixed blocks; `Image`: a file
  with its header.
* `decode_image`, `decode_extends`: reading an image gives its blocks and then the end of
  the file; reading a file that starts with an image gives at least its blocks.
* `writeBlock_sat`, `flush_sat`, `close_sat`: the writers keep the staging protocol and
  what they were given is, with the buffer, an image on the staging file.
-/

namespace Klio

open Lib Prog List Reader

variable {K : Codec} {M : Type}

/-! ## Fixed-width lengths -/

theorem littleEndian_length (k n : ℕ) : (littleEndian k n).length = k := by
  induction k generalizing n with
  | zero => rfl
  | succ k ih => simp [littleEndian, ih]

theorem appendFixed64_length (n : ℕ) : (appendFixed64 n).length = 8 := littleEndian_length 8 n

theorem consume_littleEndian (k n : ℕ) : consumeFixed64 (littleEndian k n) = n % 256 ^ k := by
  induction k generalizing n with
  | zero => simp [littleEndian, consumeFixed64, Nat.mod_one]
  | succ k ih =>
    have h8 : (UInt8.ofNat (n % 256)).toNat = n % 256 := by
      rw [UInt8.toNat_ofNat']; omega
    have hrec : consumeFixed64 (littleEndian (k + 1) n) = n % 256 + 256 * (n / 256 % 256 ^ k) := by
      rw [← ih (n / 256), ← h8]; rfl
    rw [hrec, Nat.pow_succ', Nat.mod_mul]

/-- **A length survives its encoding.** -/
theorem consume_appendFixed64 {n : ℕ} (hn : n ≤ maxAlloc) : consumeFixed64 (appendFixed64 n) = n := by
  rw [appendFixed64, consume_littleEndian]
  exact Nat.mod_eq_of_lt (lt_of_le_of_lt hn (by decide))

/-! ## Frames -/

/-- A sequence of wrapped blocks, each with its length in front, and what they unwrap to. -/
inductive Framed (K : Codec) : List UInt8 → List (List UInt8) → Prop
  | nil : Framed K [] []
  | cons {b c e : List UInt8} {cs : List (List UInt8)} (hu : K.unwrap b = .ok c) (hb : b.length ≤ maxAlloc)
      (hne : c ≠ []) (hlen : c.length ≤ walBlockSize) (h : Framed K e cs) :
      Framed K (appendFixed64 b.length ++ b ++ e) (c :: cs)

theorem Framed.append {e e' : List UInt8} {cs cs' : List (List UInt8)} (h : Framed K e cs)
    (h' : Framed K e' cs') : Framed K (e ++ e') (cs ++ cs') := by
  induction h with
  | nil => exact h'
  | cons hu hb hne hlen _ ih => rw [append_assoc]; exact .cons hu hb hne hlen ih

theorem Framed.single {b c : List UInt8} (hu : K.unwrap b = .ok c) (hb : b.length ≤ maxAlloc) (hne : c ≠ [])
    (hlen : c.length ≤ walBlockSize) : Framed K (appendFixed64 b.length ++ b) [c] := by
  have := Framed.cons hu hb hne hlen Framed.nil
  rwa [append_nil] at this

variable {cs : List (List UInt8)} {e : List UInt8}

theorem Framed.blocks (h : Framed K e cs) :
    ∀ c ∈ cs, c ≠ [] ∧ c.length ≤ walBlockSize := by
  induction h with
  | nil => intro c hc; cases hc
  | cons _ _ hne hlen _ ih =>
    intro c hc
    rcases mem_cons.1 hc with rfl | hc
    · exact ⟨hne, hlen⟩
    · exact ih c hc

theorem Framed.length_le (h : Framed K e cs) : cs.length ≤ e.length := by
  induction h with
  | nil => exact Nat.le_refl _
  | cons _ _ _ _ _ ih =>
    simp only [length_append, length_cons, appendFixed64_length]
    omega

theorem readFull_append {b t : List UInt8} {n : ℕ} (hn : b.length = n) : readFull n (b ++ t) = (.ok b, t) := by
  unfold readFull
  by_cases h0 : n = 0
  · rw [if_pos h0]
    have : b = [] := eq_nil_of_length_eq_zero (hn.trans h0)
    rw [this]; rfl
  have hne : b ++ t ≠ [] := by
    intro h
    have := congrArg length h
    simp only [length_append, length_nil] at this
    omega
  rw [if_neg h0, if_neg hne, if_neg (by rw [length_append]; omega)]
  subst hn
  rw [take_left, drop_left]

theorem readBlockData_frame {b t : List UInt8} (hb : b.length ≤ maxAlloc) :
    readBlockData (appendFixed64 b.length ++ b ++ t) = (.ok b, t) := by
  unfold readBlockData
  rw [append_assoc, readFull_append (appendFixed64_length _)]
  simp only [consume_appendFixed64 hb]
  rw [if_neg (by omega), readFull_append rfl]

variable {n : UInt64}

theorem readBlock_frame {b c t : List UInt8} (hu : K.unwrap b = .ok c) (hb : b.length ≤ maxAlloc) :
    readBlock K ⟨appendFixed64 b.length ++ b ++ t, n⟩ = (.ok c, ⟨t, n⟩) := by
  unfold readBlock
  rw [readBlockData_frame hb]
  simp only [hu]

def endOfFile : Err := .wrap "while reading WAL file block prefix: %w" [] .eof

theorem readBlock_end : readBlock K ⟨[], n⟩ = (.error endOfFile, ⟨[], n⟩) := rfl

theorem readFull_length {n : ℕ} {rest b rest' : List UInt8} (h : readFull n rest = (.ok b, rest')) :
    rest'.length + n = rest.length := by
  unfold readFull at h
  by_cases h0 : n = 0
  · rw [if_pos h0] at h
    cases h
    omega
  rw [if_neg h0] at h
  split at h
  · cases h
  split at h
  · cases h
  · cases h
    rw [length_drop]
    omega

theorem readBlock_length {K : Codec} {r r' : Reader} {b : List UInt8} (h : r.readBlock K = (.ok b, r')) :
    r'.rest.length < r.rest.length := by
  unfold readBlock at h
  split at h
  · cases h
  rename_i block rest hdata
  have hrest : rest.length + 8 ≤ r.rest.length := by
    unfold readBlockData at hdata
    split at hdata
    · cases hdata
    rename_i lenBytes rest₁ hlen
    have h8 := readFull_length hlen
    split at hdata
    · cases hdata
    split at hdata
    · cases hdata
    rename_i block' rest₂ hblock
    have hb := readFull_length hblock
    cases hdata
    omega
  split at h
  · cases h
  · cases h
    show rest.length < r.rest.length
    omega

theorem readBlocks_succ {r r' : Reader} {b : List UInt8} (h : r.readBlock K = (.ok b, r')) (fuel : ℕ) :
    r.readBlocks K (fuel + 1) = (b :: (r'.readBlocks K fuel).1, (r'.readBlocks K fuel).2) := by
  rw [readBlocks, h]

/-- **Reading frames gives their blocks**, then whatever follows. -/
theorem readBlocks_framed (h : Framed K e cs) (t : List UInt8)
    (n : UInt64) (fuel : ℕ) :
    readBlocks K (cs.length + fuel) ⟨e ++ t, n⟩ =
      (cs ++ (readBlocks K fuel ⟨t, n⟩).1, (readBlocks K fuel ⟨t, n⟩).2) := by
  induction h with
  | nil => simp
  | @cons b c e cs hu hb hne hlen _ ih =>
    rw [length_cons, Nat.add_right_comm, append_assoc _ e t]
    rw [readBlocks_succ (readBlock_frame hu hb), ih]
    rfl

/-- A file: the header for a declared length, and frames whose blocks make up `p`. -/
def Image (K : Codec) (n : UInt64) (w p : List UInt8) : Prop :=
  ∃ e cs, w = K.header n ++ e ∧ Framed K e cs ∧ cs.flatten = p

theorem image_header (n : UInt64) : Image K n (K.header n) [] := ⟨[], [], (append_nil _).symm, .nil, rfl⟩

theorem Image.append {w p e : List UInt8} (h : Image K n w p)
    (he : Framed K e cs) : Image K n (w ++ e) (p ++ cs.flatten) := by
  obtain ⟨e₀, cs₀, rfl, hf, rfl⟩ := h
  exact ⟨e₀ ++ e, cs₀ ++ cs, append_assoc _ _ _, hf.append he, flatten_append⟩

theorem ofContent_header (n : UInt64) (path : Path) (t : List UInt8) :
    ofContent K path (K.header n ++ t) = .ok ⟨t, n⟩ := by
  unfold ofContent Codec.header
  rw [K.unmarshal_marshal]

/-- **A file that starts with an image reads back at least its blocks.** -/
theorem decode_extends {w p : List UInt8} (h : Image K n w p) (t : List UInt8) :
    ∃ bs last, decode K (w ++ t) = .ok ⟨n, bs, last⟩ ∧ p <+: bs.flatten := by
  obtain ⟨e, cs, rfl, hf, rfl⟩ := h
  have hle := hf.length_le
  -- the reader's fuel covers the frames
  obtain ⟨fuel, hfuel⟩ : ∃ fuel, (K.header n ++ e ++ t).length + 1 = cs.length + fuel := by
    refine ⟨(K.header n ++ e ++ t).length + 1 - cs.length, ?_⟩
    simp only [length_append]; omega
  refine ⟨cs ++ (readBlocks K fuel ⟨t, n⟩).1, (readBlocks K fuel ⟨t, n⟩).2, ?_, ?_⟩
  · unfold decode
    rw [hfuel, append_assoc, ofContent_header]
    simp only [readBlocks_framed hf t n fuel]
    rfl
  · rw [flatten_append]; exact prefix_append _ _

theorem readBlocks_whole (hf : Framed K e cs) (n : UInt64) {fuel : ℕ}
    (hfuel : cs.length < fuel) : readBlocks K fuel ⟨e, n⟩ = (cs, some endOfFile) := by
  obtain ⟨k, rfl⟩ : ∃ k, fuel = cs.length + (k + 1) := ⟨fuel - cs.length - 1, by omega⟩
  have h := readBlocks_framed hf [] n (k + 1)
  rw [append_nil] at h
  rw [h, readBlocks, readBlock_end]
  simp

/-- **Reading an image gives its blocks and then the end of the file.** -/
theorem decode_image {w p : List UInt8} (h : Image K n w p) :
    ∃ bs, decode K w = .ok ⟨n, bs, some endOfFile⟩ ∧ bs.flatten = p := by
  obtain ⟨e, cs, rfl, hf, rfl⟩ := h
  have hfuel : cs.length < (K.header n ++ e).length + 1 := by
    have hle := hf.length_le
    rw [length_append]
    omega
  refine ⟨cs, ?_, rfl⟩
  unfold decode
  rw [ofContent_header]
  simp only [readBlocks_whole hf n hfuel, getFileLength]

/-! ## Writers -/

/-- The random source does not fail. -/
def Draws (K : Codec) (rand : ℕ → ℕ) : Prop :=
  ∀ k b, b.length ≤ walBlockSize → ∃ w, K.wrap (rand k) b = .ok w

theorem exists_draws (K : Codec) : ∃ rand, Draws K rand := by
  obtain ⟨r, hr⟩ := K.wrap_total
  exact ⟨fun _ => r, fun _ b => hr b⟩

theorem plain_draws : Draws plainCodec fun _ => 0 := fun _ b hb => ⟨b, if_pos ⟨hb, rfl⟩⟩

/-- **A writer that was given `p`**: nothing has failed, and the staging file followed by the
buffer is an image of `p`. The part `b` of the file is synced. -/
def Good (K : Codec) (n : UInt64) (p b : List UInt8) (w : DirectWriter) (ph : Stage.Phase UInt8) : Prop :=
  w.buffer.err = none ∧
    ∃ d, ph = .staging w.buffer.fd d b.length ∧ b <+: d ∧ Image K n (d ++ w.buffer.buf) p

/-- The same after a flush: everything is in the file, and synced. -/
def Flushed (K : Codec) (n : UInt64) (p : List UInt8) (w : DirectWriter) (ph : Stage.Phase UInt8) : Prop :=
  w.buffer.err = none ∧ w.buffer.buf = [] ∧ ∃ d, ph = .staging w.buffer.fd d d.length ∧ Image K n d p

variable {n : UInt64} {p s : List UInt8} {w : DirectWriter} {ph : Stage.Phase UInt8}
  {sp : Stage.Spec Name UInt8 M} {X : Err → Stage.Phase UInt8 → Prop}

theorem Flushed.good (h : Flushed K n p w ph) : ∃ s, Image K n s p ∧ Good K n p s w ph := by
  obtain ⟨he, hb, d, hph, him⟩ := h
  exact ⟨d, him, he, d, hph, prefix_rfl, by rwa [hb, append_nil]⟩

/-! ## The bytes a writer writes -/

/-- **The writer was given exactly `x`**: nothing has failed, and `x` is the staging file followed by the
buffer. The part `s` of the file is synced. -/
def Given (s x : List UInt8) (w : DirectWriter) (ph : Stage.Phase UInt8) : Prop :=
  w.buffer.err = none ∧ ∃ d, ph = .staging w.buffer.fd d s.length ∧ s <+: d ∧ d ++ w.buffer.buf = x

/-- What `WriteBlock` writes for this data, and whether every chunk of it could be wrapped. -/
def wrapChunks (K : Codec) : ℕ → (ℕ → ℕ) → List UInt8 → List UInt8 × Bool
  | 0, _, _ => ([], true)
  | fuel + 1, rand, data =>
    if data = [] then ([], true)
    else match K.wrap (rand 0) (data.take walBlockSize) with
      | .error _ => ([], false)
      | .ok b =>
        let rest := wrapChunks K fuel (fun n => rand (n + 1)) (data.drop walBlockSize)
        (appendFixed64 b.length ++ b ++ rest.1, rest.2)

theorem good_iff : Good K n p s w ph ↔ ∃ x, Given s x w ph ∧ Image K n x p := by
  constructor
  · rintro ⟨he, d, hph, hs, him⟩
    exact ⟨_, ⟨he, d, hph, hs, rfl⟩, him⟩
  · rintro ⟨-, ⟨he, d, hph, hs, rfl⟩, him⟩
    exact ⟨he, d, hph, hs, him⟩

theorem Good.given (h : Good K n [] s w ph) : Given s (K.header n) w ph := by
  obtain ⟨x, hx, e, cs, hw, hf, hnil⟩ := good_iff.mp h
  rcases hf with _ | ⟨_, _, hne, _, _⟩
  · rwa [hw, append_nil] at hx
  rw [flatten_cons] at hnil
  exact absurd (append_eq_nil_iff.mp hnil).1 hne

theorem writeBlockData_given {x : List UInt8} (h : Given s x w ph) (b : List UInt8) :
    (w.writeBlockData b : FsProg M _).Sat (Stage.proto sp) (fun out ph => match out.2 with
      | .ok _ => Given s (x ++ (appendFixed64 b.length ++ b)) out.1 ph ∧ out.1.rand = w.rand
      | .error _ => ph = .broken ∧ out.1.buffer.err ≠ none) X ph := by
  obtain ⟨he, d, rfl, hs, rfl⟩ := h
  have hfail : ∀ {b : Bufio UInt8} {e : FsErr}, b.err = some e → b.err ≠ none := fun hb => by rw [hb]; exact Option.some_ne_none _
  refine sat_bind (Bufio.write_sat he _ d s.length) ?_
  rintro ⟨b₁, r⟩ ph hw
  rcases r with e | _
  · exact ⟨hw.2, hfail hw.1⟩
  obtain ⟨hfd, he₁, d₁, rfl, hd₁, hgoal⟩ := hw
  rw [← hfd]
  refine sat_bind (Bufio.write_sat he₁ _ d₁ s.length) ?_
  rintro ⟨b₂, r⟩ ph hw
  rcases r with e | _
  · exact ⟨hw.2, hfail hw.1⟩
  obtain ⟨hfd₂, he₂, d₂, rfl, hd₂, hgoal₂⟩ := hw
  refine ⟨⟨he₂, d₂, by rw [← hfd₂], (hs.trans hd₁).trans hd₂, ?_⟩, rfl⟩
  rw [hgoal₂, hgoal, append_assoc]

/-- The loop over chunks writes what `wrapChunks` says, and fails when a chunk cannot be wrapped or a file
operation fails. -/
theorem writeChunks_given : ∀ (fuel : ℕ) (data x : List UInt8) (w : DirectWriter) (ph : Stage.Phase UInt8), Given s x w ph →
    (DirectWriter.writeChunks K fuel w data : FsProg M _).Sat (Stage.proto sp) (fun out ph => match out.2 with
      | .ok _ => Given s (x ++ (wrapChunks K fuel w.rand data).1) out.1 ph ∧ (wrapChunks K fuel w.rand data).2 = true ∧
          ∃ k, out.1.rand = fun n => w.rand (n + k)
      | .error _ => ph = .broken ∧ out.1.buffer.err ≠ none ∨
          Given s (x ++ (wrapChunks K fuel w.rand data).1) out.1 ph ∧ (wrapChunks K fuel w.rand data).2 = false) X ph := by
  intro fuel
  induction fuel with
  | zero => exact fun data x w ph h => ⟨by rwa [wrapChunks, append_nil], rfl, 0, rfl⟩
  | succ fuel ih =>
    intro data x w ph h
    unfold DirectWriter.writeChunks wrapChunks
    by_cases hd : data = []
    · rw [if_pos hd, if_pos hd]
      exact ⟨by rwa [append_nil], rfl, 0, rfl⟩
    rw [if_neg hd, if_neg hd]
    rcases hw : K.wrap (w.rand 0) (data.take walBlockSize) with e | b
    · exact .inr ⟨by rwa [append_nil], rfl⟩
    refine sat_bind (writeBlockData_given (w := ⟨w.buffer, fun n => w.rand (n + 1)⟩) h b) ?_
    rintro ⟨w', r⟩ ph' hq
    rcases r with e | _
    · exact .inl hq
    obtain ⟨hgiven, hrand⟩ := hq
    have hr : w'.rand = fun n => w.rand (n + 1) := hrand
    refine sat_mono (ih (data.drop walBlockSize) _ w' ph' hgiven) ?_ fun _ _ hx => hx
    rw [hr]
    rintro ⟨w'', r⟩ ph'' hq
    cases r with
    | error e => simpa only [append_assoc] using hq
    | ok _ =>
      obtain ⟨hgiven', hok, k, hk⟩ := hq
      exact ⟨by simpa only [append_assoc] using hgiven', hok, k + 1, hk⟩

/-- What a call of `WriteBlock` leaves: the writer was given the data, or it is broken for good, or it
was given a part of the data. -/
def Written (K : Codec) (n : UInt64) (p data s : List UInt8) (rand : ℕ → ℕ) (out : DirectWriter × Except Err Unit)
    (ph : Stage.Phase UInt8) : Prop :=
  match out.2 with
  | .ok _ => Good K n (p ++ data) s out.1 ph ∧ (Draws K rand → Draws K out.1.rand)
  | .error _ => ph = .broken ∧ out.1.buffer.err ≠ none ∨ ¬ Draws K rand ∧ ∃ k, Good K n (p ++ data.take k) s out.1 ph

/-- **The chunks are frames**, of a part of the data at least. -/
theorem wrapChunks_framed : ∀ (fuel : ℕ) (rand : ℕ → ℕ) (data : List UInt8), data.length ≤ fuel → ∃ cs k,
    Framed K (wrapChunks K fuel rand data).1 cs ∧ cs.flatten = data.take k ∧
      ((wrapChunks K fuel rand data).2 = true → cs.flatten = data) ∧ ((wrapChunks K fuel rand data).2 = false → ¬ Draws K rand) := by
  intro fuel
  induction fuel with
  | zero => exact fun rand data hlen => ⟨[], 0, .nil, rfl, fun _ => (eq_nil_of_length_eq_zero (by omega)).symm, nofun⟩
  | succ fuel ih =>
    intro rand data hlen
    unfold wrapChunks
    by_cases hd : data = []
    · rw [if_pos hd]
      exact ⟨[], 0, .nil, rfl, fun _ => hd.symm, nofun⟩
    rw [if_neg hd]
    have hpos : 0 < data.length := length_pos_iff.2 hd
    have hbs : 0 < walBlockSize := by decide
    rcases hw : K.wrap (rand 0) (data.take walBlockSize) with e | b
    · refine ⟨[], 0, .nil, rfl, nofun, fun _ hdr => ?_⟩
      obtain ⟨x, hx⟩ := hdr 0 _ (length_take_le _ _)
      cases hw.symm.trans hx
    have hne : data.take walBlockSize ≠ [] := by
      rw [Ne, take_eq_nil_iff]
      exact not_or.mpr ⟨hbs.ne', hd⟩
    obtain ⟨cs, k, hf, htake, hall, hnd⟩ := ih (fun n => rand (n + 1)) (data.drop walBlockSize) (by rw [length_drop]; omega)
    refine ⟨_ :: cs, walBlockSize + k, .cons (K.unwrap_wrap _ _ _ hw) (K.wrap_length _ _ _ hw) hne (length_take_le _ _) hf, ?_,
      fun hok => ?_, fun hno hdr => hnd hno fun i => hdr (i + 1)⟩
    · rw [flatten_cons, htake, take_add]
    · rw [flatten_cons, hall hok, take_append_drop]

/-- **`WriteBlock` appends its data to what the writer was given.** -/
theorem writeBlock_sat (h : Good K n p s w ph) (data : List UInt8) :
    (w.writeBlock K data : FsProg M _).Sat (Stage.proto sp) (Written K n p data s w.rand) X ph := by
  obtain ⟨x, hx, him⟩ := good_iff.mp h
  obtain ⟨cs, k, hf, htake, hall, hnd⟩ := wrapChunks_framed (K := K) data.length w.rand data (Nat.le_refl _)
  have himage := him.append hf
  refine sat_mono (writeChunks_given data.length data x w ph hx) ?_ fun _ _ hx => hx
  rintro ⟨w', r⟩ ph' hq
  cases r with
  | ok _ =>
    obtain ⟨hgiven, hok, k, hk⟩ := hq
    rw [hall hok] at himage
    exact ⟨good_iff.mpr ⟨_, hgiven, himage⟩, fun hdr => hk ▸ fun i => hdr (i + k)⟩
  | error e =>
    rcases hq with hbroken | ⟨hgiven, hno⟩
    · exact .inl hbroken
    · rw [htake] at himage
      exact .inr ⟨hnd hno, k, good_iff.mpr ⟨_, hgiven, himage⟩⟩

/-- **`Flush` puts everything on disk.** -/
theorem flush_sat (h : Good K n p s w ph) :
    (w.flush : FsProg M _).Sat (Stage.proto sp) (fun out ph => match out.2 with
      | .ok _ => Flushed K n p out.1 ph ∧ out.1.rand = w.rand
      | .error _ => ph = .broken) X ph := by
  obtain ⟨he, d, rfl, -, him⟩ := h
  refine sat_bind (Bufio.flush_sat he d s.length) ?_
  rintro ⟨b, r⟩ ph ⟨hw, hempty⟩
  rcases r with e | _
  · exact hw.2
  obtain ⟨hfd, he', d', rfl, -, hgoal⟩ := hw
  have hbuf : b.buf = [] := hempty rfl
  rw [hbuf, append_nil] at hgoal
  refine sat_call ⟨d', s.length, by rw [hfd]⟩ fun (r : Except FsErr Unit) => ?_
  cases r with
  | error e => exact rfl
  | ok _ => exact ⟨⟨he', hbuf, d', by rw [hfd]; rfl, by rwa [hgoal]⟩, rfl⟩

/-- **`Close` leaves the file with everything the writer was given.** -/
theorem close_sat {d : List UInt8} {s : ℕ} (he : w.buffer.err = none) :
    (w.close : FsProg M _).Sat (Stage.proto sp) (fun out ph => match out.2 with
      | .ok _ => ph = .closed (d ++ w.buffer.buf) s
      | .error _ => ph = .broken) X (.staging w.buffer.fd d s) := by
  refine sat_bind (Bufio.flush_sat he d s) ?_
  rintro ⟨b, r⟩ ph ⟨hw, hempty⟩
  rcases r with e | _
  · exact hw.2
  obtain ⟨hfd, he', d', rfl, -, hgoal⟩ := hw
  rw [hempty rfl, append_nil] at hgoal
  refine sat_call (.inl ⟨d', s, by rw [hfd]⟩) fun (r : Except FsErr Unit) => ?_
  cases r with
  | error e => exact rfl
  | ok _ => rw [← hgoal]; exact rfl

/-- **Opening a writer** leaves a header in it. -/
theorem newDirectWriterAtPath_sat (rand : ℕ → ℕ) (opts : WriterOptions) :
    (newDirectWriterAtPath K rand sp.stg opts : FsProg M _).Sat (Stage.proto sp)
      (fun w ph => Good K opts.segmentSize [] [] w ph ∧ w.rand = rand) (fun _ ph => ph = .broken) .start := by
  refine sat_call ⟨rfl, rfl⟩ fun (r : Except FsErr Unit) => ?_
  cases r with
  | error e => exact rfl
  | ok _ =>
  refine sat_call ⟨rfl, rfl⟩ fun (r : Except FsErr ℕ) => ?_
  cases r with
  | error e => exact rfl
  | ok fd =>
  have hnew : (newDirectWriter K rand fd opts : FsProg M _).Sat (Stage.proto sp)
      (fun w ph => Good K opts.segmentSize [] [] w ph ∧ w.rand = rand) (fun _ ph => ph = .broken)
      (.staging fd [] 0) := by
    refine sat_bind (Bufio.write_sat (b := Bufio.newWriterSize fd _) rfl _ [] 0) ?_
    rintro ⟨b₁, r⟩ ph hw
    rcases r with e | _
    · exact hw.2
    obtain ⟨hfd, he₁, d₁, rfl, -, hgoal⟩ := hw
    rw [← hfd]
    refine sat_bind (Bufio.write_sat he₁ _ d₁ 0) ?_
    rintro ⟨b₂, r⟩ ph hw
    rcases r with e | _
    · exact hw.2
    obtain ⟨hfd₂, he₂, d₂, rfl, -, hgoal₂⟩ := hw
    refine ⟨⟨he₂, d₂, by rw [← hfd₂]; rfl, nil_prefix, ?_⟩, rfl⟩
    show Image K opts.segmentSize (d₂ ++ b₂.buf) []
    rw [hgoal₂, hgoal]
    exact image_header _
  refine sat_bind (Q := Prog.Ends _ _) (sat_attempt hnew) ?_
  rintro r ph hr
  cases r with
  | ok w => exact hr
  | error e =>
    obtain rfl := hr
    exact sat_call (.inr rfl) fun (r : Except FsErr Unit) => by cases r <;> rfl

theorem close_sticky (he : w.buffer.err ≠ none) : ∃ e, (w.close : FsProg M _) = .ret (w, .error e) := by
  obtain ⟨e, he⟩ := Option.ne_none_iff_exists'.1 he
  obtain ⟨⟨fd, size, buf, err⟩, rand⟩ := w
  obtain rfl : err = some e := he
  exact ⟨_, rfl⟩

/-! ## Blocks are only written -/

theorem writeBlockData_uses {M : Type} (w : DirectWriter) (b : List UInt8) : (w.writeBlockData b : FsProg M _).Uses IsWrite := by
  refine uses_bind (fun out => ?_) (Bufio.write_uses _ _)
  obtain ⟨b₁, r⟩ := out
  rcases r with e | _
  · trivial
  refine uses_bind (fun out => ?_) (Bufio.write_uses _ _)
  obtain ⟨b₂, r⟩ := out
  cases r <;> trivial

theorem writeBlock_uses {M : Type} (w : DirectWriter) (data : List UInt8) : (w.writeBlock K data : FsProg M _).Uses IsWrite := by
  have hchunks : ∀ (fuel : ℕ) (w : DirectWriter) (data : List UInt8), (DirectWriter.writeChunks K fuel w data : FsProg M _).Uses IsWrite := by
    intro fuel
    induction fuel with
    | zero => exact fun _ _ => trivial
    | succ fuel ih =>
      intro w data
      unfold DirectWriter.writeChunks
      split
      · trivial
      split
      · trivial
      refine uses_bind (fun out => ?_) (writeBlockData_uses _ _)
      obtain ⟨w', r⟩ := out
      cases r with
      | error e => trivial
      | ok _ => exact ih w' _
  exact hchunks _ w data

end Klio

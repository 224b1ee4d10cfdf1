import Klio.Proof.RoundTrip

/-!
# Files that are cut

Where a prefix of a written file ends, and what reading it reports. A cut inside the header, inside the
length of a block or inside its body is reported; a cut right behind the length is not, since
`io.ReadFull` says `io.EOF` when it reads nothing at all.

* `framed_split`: a prefix of a sequence of frames is some whole frames and a part of the next.
* `readBlock_cut`, `decode_cut`: what reading finds at the end.
* `cut_file_reported_iff`: for every written file and every cut.
* `readBlock_cases`, `reading_bounded_iff`: files with any content.
-/

namespace Klio

open Lib List Reader

variable {K : Codec} {M : Type}

/-- **Assumption on the header's encoding**: `protodelim.UnmarshalFrom` fails on a message that is
cut. -/
def HeaderCut (K : Codec) : Prop := ∀ n x y, K.header n = x ++ y → y ≠ [] → ∃ e, K.unmarshalFrom x = .error e

/-- A block with its length in front. -/
def frame (b : List UInt8) : List UInt8 := appendFixed64 b.length ++ b

theorem frame_length (b : List UInt8) : (frame b).length = 8 + b.length := by
  unfold frame
  rw [length_append, appendFixed64_length]

/-! ## Where a cut is -/

/-- **A prefix of frames** is some whole ones, and a proper part of the next. -/
theorem framed_split {e : List UInt8} {cs : List (List UInt8)} (h : Framed K e cs) :
    ∀ q t, e = q ++ t → ∃ e₁ cs₁ x e₂ cs₂, q = e₁ ++ x ∧ x ++ t = e₂ ∧ Framed K e₁ cs₁ ∧ Framed K e₂ cs₂ ∧ cs = cs₁ ++ cs₂ ∧
      (x = [] ∨ ∃ b c e₃, e₂ = frame b ++ e₃ ∧ K.unwrap b = .ok c ∧ b.length ≤ maxAlloc ∧ x.length < (frame b).length) := by
  induction h with
  | nil =>
    intro q t hqt
    obtain ⟨rfl, rfl⟩ := append_eq_nil_iff.1 hqt.symm
    exact ⟨[], [], [], [], [], rfl, rfl, .nil, .nil, rfl, .inl rfl⟩
  | @cons b c e cs hu hb hne hlen hf ih =>
    intro q t hqt
    have hqt' : frame b ++ e = q ++ t := hqt
    by_cases hin : q.length < (frame b).length
    · -- the cut is in this frame
      refine ⟨[], [], q, _, c :: cs, rfl, rfl, .nil, ?_, rfl, .inr ⟨b, c, e, hqt'.symm, hu, hb, hin⟩⟩
      rw [← hqt']
      exact .cons hu hb hne hlen hf
    · -- the frame is whole, the cut is in the rest
      have hle : (frame b).length ≤ q.length := by omega
      obtain ⟨q', rfl⟩ : ∃ q', q = frame b ++ q' := by
        have hpre : frame b <+: q ++ t := by rw [← hqt']; exact prefix_append _ _
        obtain ⟨q', hq'⟩ := prefix_of_prefix_length_le hpre (prefix_append q t) hle
        exact ⟨q', hq'.symm⟩
      rw [append_assoc] at hqt'
      obtain ⟨e₁, cs₁, x, e₂, cs₂, rfl, hx, hf₁, hf₂, rfl, hcase⟩ := ih q' t (append_cancel_left hqt')
      refine ⟨frame b ++ e₁, c :: cs₁, x, e₂, cs₂, (append_assoc _ _ _).symm, hx, ?_, hf₂, rfl, hcase⟩
      exact .cons hu hb hne hlen hf₁

/-! ## What reading a part of a frame finds -/

/-- The error at the end of a part `x` of a frame. -/
def cutErr (x : List UInt8) : Err :=
  if x = [] then endOfFile
  else if x.length < 8 then .wrap "while reading WAL file block prefix: %w" [] .unexpectedEOF
  else if x.length = 8 then .wrap "while reading WAL file block: %w" [] .eof
  else .wrap "while reading WAL file block: %w" [] .unexpectedEOF

theorem cutErr_isEOF (x : List UInt8) : (cutErr x).isEOF = true ↔ x = [] ∨ x.length = 8 := by
  unfold cutErr
  by_cases hx : x = []
  · simp [hx, endOfFile, Err.isEOF]
  by_cases h8 : x.length < 8
  · have hne : x.length ≠ 8 := by omega
    simp [hx, h8, hne, Err.isEOF]
  · by_cases heq : x.length = 8
    · simp [hx, heq, Err.isEOF]
    · simp [hx, h8, heq, Err.isEOF]

/-- **Reading a proper part of a frame** fails as `cutErr` says. -/
theorem readBlock_cut {b x y : List UInt8} (hb : b.length ≤ maxAlloc) (hx : frame b = x ++ y)
    (hlt : x.length < (frame b).length) (n : UInt64) : (readBlock K ⟨x, n⟩).1 = .error (cutErr x) := by
  unfold readBlock readBlockData cutErr
  by_cases h0 : x = []
  · simp [h0, readFull, endOfFile]
  by_cases h8 : x.length < 8
  · simp [h0, h8, readFull]
  -- the length is whole, so that the part of the body is too short
  obtain ⟨body, rfl⟩ : ∃ body, x = appendFixed64 b.length ++ body := by
    have hpre : appendFixed64 b.length <+: x ++ y := by rw [← hx]; exact prefix_append _ _
    have hle : (appendFixed64 b.length).length ≤ x.length := by rw [appendFixed64_length]; omega
    obtain ⟨body, hbody⟩ := prefix_of_prefix_length_le hpre (prefix_append x y) hle
    exact ⟨body, hbody.symm⟩
  have hshort : body.length < b.length := by
    rw [frame_length, length_append, appendFixed64_length] at hlt
    omega
  have hlen : (appendFixed64 b.length ++ body).length = 8 + body.length := by
    rw [length_append, appendFixed64_length]
  rw [readFull_append (appendFixed64_length _)]
  simp only [consume_appendFixed64 hb]
  rw [if_neg (by omega), if_neg h0, if_neg h8, hlen]
  unfold readFull
  rw [if_neg (by omega)]
  by_cases hbody : body = []
  · simp [hbody]
  · have hpos : 0 < body.length := length_pos_iff.2 hbody
    rw [if_neg hbody, if_pos hshort, if_neg (by omega)]

/-- **Reading a file that is cut**: the blocks that are whole, then `cutErr`. -/
theorem decode_cut {e x : List UInt8} {cs : List (List UInt8)} (hf : Framed K e cs) (n : UInt64)
    (hx : x = [] ∨ ∃ b y, b.length ≤ maxAlloc ∧ frame b = x ++ y ∧ x.length < (frame b).length) :
    decode K (K.header n ++ (e ++ x)) = .ok ⟨n, cs, some (cutErr x)⟩ := by
  have hle := hf.length_le
  obtain ⟨fuel, hfuel⟩ : ∃ fuel, (K.header n ++ (e ++ x)).length + 1 = cs.length + (fuel + 1) := by
    refine ⟨(K.header n ++ (e ++ x)).length - cs.length, ?_⟩
    simp only [length_append]
    omega
  have hlast : (readBlock K ⟨x, n⟩).1 = .error (cutErr x) := by
    rcases hx with rfl | ⟨b, y, hb, hxy, hlt⟩
    · simp [readBlock_end, cutErr]
    · exact readBlock_cut hb hxy hlt n
  have htail : readBlocks K (fuel + 1) ⟨x, n⟩ = ([], some (cutErr x)) := by
    unfold readBlocks
    split
    · rename_i e' r' heq
      rw [heq] at hlast
      cases hlast
      rfl
    · rename_i b r' heq
      rw [heq] at hlast
      cases hlast
  have hall := readBlocks_framed hf x n (fuel + 1)
  rw [htail, append_nil] at hall
  unfold decode
  rw [hfuel, ofContent_header]
  simp only [hall, getFileLength]

/-! ## Every cut of every file -/

/-- The part `P` of the file `F` is the header and a whole number of blocks. -/
def WholeBlocks (K : Codec) (n : UInt64) (F P : List UInt8) : Prop :=
  ∃ e₁ cs₁ e₂ cs₂, P = K.header n ++ e₁ ∧ F = P ++ e₂ ∧ Framed K e₁ cs₁ ∧ Framed K e₂ cs₂

/-- The part `P` of the file `F` ends right behind the length of a block that is not empty. -/
def AfterLength (K : Codec) (n : UInt64) (F P : List UInt8) : Prop :=
  ∃ e₁ cs₁ b e₂, P = K.header n ++ (e₁ ++ appendFixed64 b.length) ∧ F = P ++ (b ++ e₂) ∧ Framed K e₁ cs₁ ∧
    b.length ≤ maxAlloc ∧ b ≠ []

/-- Reading the file ends with an error that is not the end of the file. -/
def CutReported (K : Codec) (data : List UInt8) : Prop :=
  (∃ e, decode K data = .error e) ∨ ∃ D e, decode K data = .ok D ∧ D.last = some e ∧ e.isEOF = false

theorem not_cutReported_of_eof {data : List UInt8} {D : Decoded} {e : Err} (hd : decode K data = .ok D)
    (hlast : D.last = some e) (he : e.isEOF = true) : ¬ CutReported K data := by
  rintro (⟨e', h⟩ | ⟨D', e', h, hl, hne⟩)
  · rw [hd] at h
    cases h
  rw [hd] at h
  cases h
  rw [hlast] at hl
  cases hl
  rw [he] at hne
  cases hne

/-- A part of a file: where it ends decides what is reported. -/
theorem cut_image {n : UInt64} {e P t : List UInt8} {cs : List (List UInt8)} (hcut : HeaderCut K) (hf : Framed K e cs)
    (hF : K.header n ++ e = P ++ t) (ht : t ≠ []) (hw : ¬ WholeBlocks K n (P ++ t) P) :
    (CutReported K P ↔ ¬ AfterLength K n (P ++ t) P) ∧ ∀ D, decode K P = .ok D → D.blocks <+: cs := by
  rcases append_eq_append_iff.1 hF with ⟨q, rfl, rfl⟩ | ⟨y, hy, rfl⟩
  · -- the header is whole
    obtain ⟨e₁, cs₁, x, e₂, cs₂, rfl, hx, hf₁, hf₂, rfl, hcase⟩ := framed_split hf q t rfl
    have hx0 : x ≠ [] := by
      rintro rfl
      refine hw ⟨e₁, cs₁, e₂, cs₂, by rw [append_nil], ?_, hf₁, hf₂⟩
      rw [← hx, nil_append]
    obtain ⟨b, c, e₃, he₂, hu, hb, hlt⟩ := hcase.resolve_left hx0
    -- the part of the frame, and what is missing of it
    obtain ⟨y, hy⟩ : ∃ y, frame b = x ++ y := by
      have hpre : x <+: frame b ++ e₃ := ⟨t, hx.trans he₂⟩
      obtain ⟨y, hy⟩ := prefix_of_prefix_length_le hpre (prefix_append _ _) hlt.le
      exact ⟨y, hy.symm⟩
    have hdec := decode_cut hf₁ n (.inr ⟨b, y, hb, hy, hlt⟩)
    refine ⟨⟨?_, ?_⟩, fun D hD => ?_⟩
    · rintro hrep ⟨e₁', cs₁', b', e₂', hP, -, hf', hb', hne'⟩
      have hfb : frame b' = appendFixed64 b'.length ++ b' := rfl
      have hlt' : (appendFixed64 b'.length).length < (frame b').length := by
        have hpos : 0 < b'.length := length_pos_iff.2 hne'
        rw [frame_length, appendFixed64_length]
        omega
      have hdec' := decode_cut hf' n (.inr ⟨b', b', hb', hfb, hlt'⟩)
      rw [← hP] at hdec'
      exact not_cutReported_of_eof hdec' rfl ((cutErr_isEOF _).2 (.inr (appendFixed64_length _))) hrep
    · intro hno
      refine .inr ⟨_, _, hdec, rfl, ?_⟩
      rw [← Bool.not_eq_true, cutErr_isEOF]
      rintro (h | h8)
      · exact hx0 h
      -- eight bytes of the frame are its length
      obtain ⟨hxl, hyb⟩ : x = appendFixed64 b.length ∧ y = b := by
        have h := append_inj hy (by rw [appendFixed64_length, h8])
        exact ⟨h.1.symm, h.2.symm⟩
      have hb0 : b ≠ [] := by
        rintro rfl
        rw [frame_length] at hlt
        simp only [length_nil] at hlt
        omega
      refine hno ⟨e₁, cs₁, b, e₃, by rw [hxl], ?_, hf₁, hb, hb0⟩
      have ht' : t = b ++ e₃ := by
        rw [he₂, hy, hyb, append_assoc] at hx
        exact append_cancel_left hx
      rw [ht']
    · rw [hdec] at hD
      cases hD
      exact prefix_append _ _
  · -- the cut is in the header
    by_cases hy0 : y = []
    · subst hy0
      refine absurd ⟨[], [], e, cs, ?_, rfl, .nil, hf⟩ hw
      simpa using hy.symm
    obtain ⟨err, herr⟩ := hcut n P y hy hy0
    have hdec : ∃ e', decode K P = .error e' := by
      unfold decode ofContent
      rw [herr]
      by_cases heof : err.isEOF
      · simp [heof]
      · simp [heof]
    obtain ⟨e', hdec⟩ := hdec
    refine ⟨⟨?_, fun _ => .inl ⟨e', hdec⟩⟩, fun D hD => ?_⟩
    · rintro - ⟨e₁, cs₁, b, e₂, hP, -⟩
      -- such a part has the whole header
      have hlen := congrArg length hP
      have hlen' := congrArg length hy
      have hpos : 0 < y.length := length_pos_iff.2 hy0
      simp only [length_append] at hlen hlen'
      omega
    · rw [hdec] at hD
      cases hD

/-- **A file that is cut in the middle of a block is reported**, unless the cut is right behind the
length of the block. For every file that a session writes and every proper part of it that is not the
header and a whole number of blocks; the blocks that are read are always the first ones of the
file. -/
theorem cut_file_reported_iff (K : Codec) (hcut : HeaderCut K) (rand : ℕ → ℕ) (hdr : Draws K rand) (opts : WriterOptions)
    (calls : List WriterCall) (fs : Fs Name UInt8) (hfs : CanWrite fs (getWALArchivePath opts.clusterName opts.walName)) :
    ∃ w' F DF, (writeFile K rand opts calls).eval (sem Unit Name UInt8 M) () (fun _ => none) ⟨fs, []⟩ = (.ok (), w') ∧
      w'.fs.read (getWALArchivePath opts.clusterName opts.walName) = some F ∧ decode K F = .ok DF ∧
      DF.blocks.flatten = payload calls ∧
      ∀ P t, F = P ++ t → t ≠ [] → ¬ WholeBlocks K opts.segmentSize F P →
        (CutReported K P ↔ ¬ AfterLength K opts.segmentSize F P) ∧ ∀ D, decode K P = .ok D → D.blocks <+: DF.blocks := by
  obtain ⟨w', F, hwrite, hread, e, cs, rfl, hf, hflat⟩ := writeFile_image (M := M) rand hdr opts calls fs hfs
  have hdec := decode_cut hf opts.segmentSize (.inl rfl)
  rw [append_nil] at hdec
  refine ⟨w', _, _, hwrite, hread, hdec, hflat, fun P t hF ht hw => ?_⟩
  rw [hF] at hw ⊢
  exact cut_image hcut hf hF ht hw

/-! ## A cut right behind a length -/

theorem headerCut_plainCodec : HeaderCut plainCodec := by
  intro n x y hxy hy
  rcases x with _ | ⟨b, bs⟩
  · exact ⟨.eof, rfl⟩
  have hb : b = UInt8.ofNat (plainStartBlock n).length ∧ plainStartBlock n = bs ++ y := by
    have h : UInt8.ofNat (plainStartBlock n).length :: plainStartBlock n = b :: (bs ++ y) := hxy
    exact ⟨(cons.inj h).1.symm, (cons.inj h).2⟩
  obtain ⟨rfl, hbs⟩ := hb
  have hlen := plainStartBlock_length_le n
  have hshort : bs.length < (UInt8.ofNat (plainStartBlock n).length).toNat := by
    have hpos : 0 < y.length := length_pos_iff.2 hy
    have h := congrArg length hbs
    rw [length_append] at h
    rw [UInt8.toNat_ofNat']
    omega
  refine ⟨.unexpectedEOF, ?_⟩
  simp only [plainCodec, plainUnmarshalFrom, if_pos hshort]

/-- Write one block of one byte. -/
def oneByteFile : Option (List UInt8) :=
  ((writeFile plainCodec (fun _ => 0) ⟨"c".toList, "000000010000000000000001".toList, 1, 0⟩ [.writeBlock [7]]).eval
    (sem Unit Name UInt8 Empty) () (fun _ => none) ⟨Fs.empty, []⟩).2.fs.read
      (getWALArchivePath "c".toList "000000010000000000000001".toList)

/-- Such a file exists, and the condition is about all its parts. -/
theorem cut_file_reported_small : HeaderCut plainCodec ∧ Draws plainCodec (fun _ => 0) ∧
    ∃ w' F DF, (writeFile plainCodec (fun _ => 0) ⟨"c".toList, "000000010000000000000001".toList, 1, 0⟩
        [.writeBlock [7]]).eval (sem Unit Name UInt8 Empty) () (fun _ => none) ⟨Fs.empty, []⟩ = (.ok (), w') ∧
      w'.fs.read (getWALArchivePath "c".toList "000000010000000000000001".toList) = some F ∧
      decode plainCodec F = .ok DF ∧ DF.blocks.flatten = [7] ∧
      ∀ P t, F = P ++ t → t ≠ [] → ¬ WholeBlocks plainCodec 1 F P →
        (CutReported plainCodec P ↔ ¬ AfterLength plainCodec 1 F P) ∧
          ∀ D, decode plainCodec P = .ok D → D.blocks <+: DF.blocks := by
  refine ⟨headerCut_plainCodec, plain_draws, ?_⟩
  exact cut_file_reported_iff plainCodec headerCut_plainCodec (fun _ => 0) plain_draws
    ⟨"c".toList, "000000010000000000000001".toList, 1, 0⟩ [.writeBlock [7]] Fs.empty ⟨by decide, fun _ _ => rfl⟩

/-- The file without its last byte is cut in a block, and reading it ends with `io.EOF`. -/
theorem cut_behind_length_not_reported : ∃ P, oneByteFile = some (P ++ [7]) ∧ ¬ WholeBlocks plainCodec 1 (P ++ [7]) P ∧
    ∃ D e, decode plainCodec P = .ok D ∧ D.last = some e ∧ e.isEOF = true := by
  refine ⟨[4, 8, 1, 16, 1] ++ appendFixed64 1, by decide +kernel, ?_, ⟨1, [], some (cutErr (appendFixed64 1))⟩, _, ?_, rfl, by decide⟩
  · rintro ⟨e₁, cs₁, e₂, cs₂, -, hF, -, hf₂⟩
    -- one byte is not a frame
    have he₂ : [7] = e₂ := append_cancel_left hF
    have hlen := congrArg length he₂
    rcases hf₂ with _ | ⟨hu, hb, hne, hlen', h⟩
    · simp at hlen
    simp only [length_append, length_cons, length_nil, appendFixed64_length] at hlen
    omega
  · have hfb : frame [7] = appendFixed64 1 ++ [7] := rfl
    exact decode_cut (K := plainCodec) .nil 1 (.inr ⟨[7], [7], by decide, hfb, by decide⟩)

/-! ## Files with any content -/

/-- The buffer that `ReadBlock` makes: the length in front, if there are eight bytes. -/
def Reader.requested (r : Reader) : ℕ := if r.rest.length < 8 then 0 else consumeFixed64 (r.rest.take 8)

/-- Up to `fuel` calls of `ReadBlock`, to the first error: none panics, or asks for more than what is left. -/
def Reader.Bounded (K : Codec) : ℕ → Reader → Prop
  | 0, _ => True
  | fuel + 1, r => (r.requested ≤ r.rest.length - 8 ∧ ∀ text, (r.readBlock K).1 ≠ .error (.panics text)) ∧
    ∀ c r', r.readBlock K = (.ok c, r') → r'.Bounded K fuel

/-- Whole blocks up to one that cannot be unwrapped, or to fewer than eight bytes. -/
inductive WellCut (K : Codec) : List UInt8 → Prop
  | tail {x : List UInt8} (h : x.length < 8) : WellCut K x
  | block {p b t : List UInt8} (hp : p.length = 8) (hb : consumeFixed64 p = b.length) (hmax : b.length ≤ maxAlloc)
      (ht : ∀ c, K.unwrap b = .ok c → WellCut K t) : WellCut K (p ++ (b ++ t))

theorem WellCut.inv {p q : List UInt8} (hp : p.length = 8) (h : WellCut K (p ++ q)) : ∃ b t, q = b ++ t ∧ consumeFixed64 p = b.length ∧
    b.length ≤ maxAlloc ∧ ∀ c, K.unwrap b = .ok c → WellCut K t := by
  generalize hx : p ++ q = x at h
  cases h with
  | tail h =>
    rw [← hx, length_append] at h
    omega
  | block hp' hb hmax ht =>
    obtain ⟨rfl, rfl⟩ := append_inj hx (hp.trans hp'.symm)
    exact ⟨_, _, rfl, hb, hmax, ht⟩

/-- **One call of `ReadBlock`**: it fails, within bounds exactly at the end of a file that is cut well; or it takes a
whole block. -/
theorem readBlock_cases (rest : List UInt8) (n : UInt64) :
    ((∃ e r', readBlock K ⟨rest, n⟩ = (.error e, r')) ∧ ((requested ⟨rest, n⟩ ≤ rest.length - 8 ∧
      ∀ text, (readBlock K ⟨rest, n⟩).1 ≠ .error (.panics text)) ↔ WellCut K rest)) ∨
    ∃ c t, readBlock K ⟨rest, n⟩ = (.ok c, ⟨t, n⟩) ∧ t.length + 8 ≤ rest.length ∧
      requested ⟨rest, n⟩ ≤ rest.length - 8 ∧ (WellCut K rest ↔ WellCut K t) := by
  by_cases h8 : rest.length < 8
  · refine .inl ⟨?_, iff_of_true ?_ (.tail h8)⟩ <;> unfold readBlock readBlockData readFull <;>
      by_cases hnil : rest = [] <;> simp [requested, hnil, h8]
  obtain ⟨p, q, rfl, hp⟩ : ∃ p q, rest = p ++ q ∧ p.length = 8 :=
    ⟨rest.take 8, rest.drop 8, (take_append_drop 8 rest).symm, by rw [length_take]; omega⟩
  have hreq : requested ⟨p ++ q, n⟩ = consumeFixed64 p := by
    simp [requested, hp, take_left' hp]
  have hleft : (p ++ q).length - 8 = q.length := by rw [length_append]; omega
  rw [hreq, hleft]
  unfold readBlock readBlockData
  simp only [readFull_append hp]
  by_cases hok : consumeFixed64 p ≤ q.length ∧ consumeFixed64 p ≤ maxAlloc
  · -- a whole block
    obtain ⟨b, t, rfl, hb⟩ : ∃ b t, q = b ++ t ∧ consumeFixed64 p = b.length :=
      ⟨_, _, (take_append_drop (consumeFixed64 p) q).symm, by rw [length_take]; omega⟩
    rw [if_neg (by omega), hb, readFull_append rfl]
    have hwell : WellCut K (p ++ (b ++ t)) ↔ ∀ c, K.unwrap b = .ok c → WellCut K t := by
      refine ⟨fun h => ?_, .block hp hb (hb ▸ hok.2)⟩
      obtain ⟨b', t', heq, hb', -, ht⟩ := h.inv hp
      obtain ⟨rfl, rfl⟩ := append_inj heq (hb.symm.trans hb')
      exact ht
    rw [hwell]
    cases hu : K.unwrap b with
    | error e => simp [hu]
    | ok c => exact .inr ⟨c, t, by simp [hu], by simp only [length_append]; omega, by simp, by simp⟩
  · have hbad : ¬ WellCut K (p ++ q) := by
      intro h
      obtain ⟨b, t, rfl, hb, hmax, -⟩ := h.inv hp
      exact hok ⟨by simp [hb], hb ▸ hmax⟩
    left
    by_cases hmax : maxAlloc < consumeFixed64 p
    · simp [hmax, hbad]
    have hlt : q.length < consumeFixed64 p := by omega
    have hread : ∃ e q', readFull (consumeFixed64 p) q = (.error e, q') := by
      unfold readFull
      rw [if_neg (by omega)]
      split <;> simp
    obtain ⟨e, q', hread⟩ := hread
    simp [hmax, hread, hbad, hlt]

theorem bounded_iff (fuel : ℕ) (rest : List UInt8) (n : UInt64) (h : rest.length < 8 * fuel) :
    (readBlocks K fuel ⟨rest, n⟩).2.isSome = true ∧ (Reader.Bounded K fuel ⟨rest, n⟩ ↔ WellCut K rest) := by
  induction fuel generalizing rest with
  | zero => omega
  | succ fuel ih =>
    unfold readBlocks Reader.Bounded
    rcases readBlock_cases (K := K) rest n with ⟨⟨e, r', heq⟩, hiff⟩ | ⟨c, t, heq, hlen, hreq, hiff⟩
    · rw [← hiff]
      simp [heq]
    · obtain ⟨hsome, hrest⟩ := ih t (by omega)
      rw [hiff, ← hrest]
      simp [heq, hreq, hsome]

/-- **Reading any file** ends with an error after at most `L / 8 + 1` calls of `ReadBlock`; it never panics and never asks
for more than what is left exactly if the bytes behind the header are cut well. -/
theorem reading_bounded_iff (K : Codec) (walFilePath : Path) (F : List UInt8) : match Reader.ofContent K walFilePath F with
    | .error _ => True
    | .ok r => r.rest.length ≤ F.length → (Reader.readBlocks K (F.length / 8 + 1) r).2.isSome = true ∧
      (Reader.Bounded K (F.length / 8 + 1) r ↔ WellCut K r.rest) := by
  split
  · trivial
  · intro h
    exact bounded_iff _ _ _ (by omega)

/-- A length that is out of range is a panic; one that is not, of a buffer that the file cannot fill. -/
theorem reading_unbounded : (Reader.readBlock plainCodec ⟨List.replicate 8 255, 0⟩).1 = .error (.panics "makeslice: len out of range") ∧
    Reader.requested ⟨[0, 0, 0, 64, 0, 0, 0, 0], 0⟩ = 2 ^ 30 :=
  ⟨rfl, rfl⟩

end Klio

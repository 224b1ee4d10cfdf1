import Klio.Proof.Format

/-!
# The WAL file format round-trips

`session` is any sequence of `WriteBlock` and `Flush` calls on an open writer, followed by
`Close`. Without I/O errors a file written so is opened by `newReader` with the declared
length, and its blocks are the written bytes, cut into non-empty pieces of at most 1 MiB,
then the end of the file for ever (`wal_file_roundtrip`).
-/

namespace Klio

open Lib Prog

variable {K : Codec} {M : Type}

inductive WriterCall where
  | writeBlock (data : List UInt8)
  | flush

/-- The bytes a sequence of calls writes. -/
def payload : List WriterCall → List UInt8
  | [] => []
  | .writeBlock data :: calls => data ++ payload calls
  | .flush :: calls => payload calls

/-- The calls in order, stopping at the first error, then `Close`. -/
def session (K : Codec) : DirectWriter → List WriterCall → FsProg M Unit
  | w, [] => w.close.bind fun out => Prog.orErr id out.2
  | w, .writeBlock data :: calls => (w.writeBlock K data).bind fun
    | (w, .ok _) => session K w calls
    | (_, .error e) => .err e
  | w, .flush :: calls => w.flush.bind fun
    | (w, .ok _) => session K w calls
    | (_, .error e) => .err e

/-- Write a file with `NewDirectWriter`. -/
def writeFile (K : Codec) (rand : ℕ → ℕ) (opts : WriterOptions) (calls : List WriterCall) : FsProg M Unit :=
  (newDirectWriterFor K rand opts).bind fun w => session K w calls

/-- The reader after `k` calls of `ReadBlock`. -/
def Reader.after (K : Codec) (r : Reader) : ℕ → Reader
  | 0 => r
  | k + 1 => Reader.after K (r.readBlock K).2 k

/-- What call number `k` of `ReadBlock` returns, counting from zero. -/
def Reader.nth (K : Codec) (r : Reader) (k : ℕ) : Except Err (List UInt8) := ((r.after K k).readBlock K).1

/-- Nothing stands in the way of a file at this path. -/
def CanWrite (fs : Fs Name UInt8) (p : Path) : Prop :=
  ¬ fs.IsDir p ∧ ∀ d ∈ Fs.ancestors p.dropLast, fs.look d = none

theorem after_end (n : UInt64) (k : ℕ) : Reader.after K ⟨[], n⟩ k = ⟨[], n⟩ := by
  induction k with
  | zero => rfl
  | succ k ih => exact ih

theorem nth_framed {e : List UInt8} {cs : List (List UInt8)} (h : Framed K e cs) (n : UInt64) (k : ℕ) :
    Reader.nth K ⟨e, n⟩ k = match cs[k]? with
      | some c => .ok c
      | none => .error endOfFile := by
  induction h generalizing k with
  | nil => simp only [Reader.nth, after_end, readBlock_end, List.getElem?_nil]
  | cons hu hb hne hlen _ ih =>
    rcases k with _ | k
    · simp only [Reader.nth, Reader.after, readBlock_frame hu hb, List.getElem?_cons_zero]
    rw [List.getElem?_cons_succ, ← ih k]
    simp only [Reader.nth, Reader.after, readBlock_frame hu hb]

theorem session_sat {sp : Stage.Spec Name UInt8 M} {n : UInt64} : ∀ (calls : List WriterCall) (p s : List UInt8)
    (w : DirectWriter) (ph : Stage.Phase UInt8), Good K n p s w ph → Draws K w.rand →
    (session K w calls : FsProg M Unit).Sat (Stage.proto sp)
      (fun _ ph => ∃ d s, ph = .closed d s ∧ Image K n d (p ++ payload calls)) (fun _ ph => ph = .broken) ph := by
  intro calls
  induction calls with
  | nil =>
    intro p s w ph h _
    obtain ⟨he, d, rfl, -, him⟩ := h
    refine sat_bind (close_sat he) ?_
    rintro ⟨w', r⟩ ph hr
    cases r with
    | ok _ => exact ⟨_, s.length, hr, by rwa [payload, List.append_nil]⟩
    | error e => exact hr
  | cons call calls ih =>
    intro p s w ph h hdr
    cases call with
    | writeBlock data =>
      refine sat_bind (writeBlock_sat h data) ?_
      rintro ⟨w', r⟩ ph hr
      cases r with
      | ok _ =>
        refine sat_mono (ih _ s w' ph hr.1 (hr.2 hdr)) (fun _ _ hq => ?_) fun _ _ hx => hx
        rwa [payload, ← List.append_assoc]
      | error e =>
        rcases hr with ⟨hr, -⟩ | ⟨hnd, -⟩
        · exact hr
        · exact absurd hdr hnd
    | flush =>
      refine sat_bind (flush_sat h) ?_
      rintro ⟨w', r⟩ ph hr
      cases r with
      | ok _ =>
        obtain ⟨s', -, hgood⟩ := hr.1.good
        exact ih p s' w' ph hgood (by rw [show w'.rand = w.rand from hr.2]; exact hdr)
      | error e => exact hr

/-- A file is written by a process that never renames it. -/
def plainSpec (M : Type) (p : Path) : Stage.Spec Name UInt8 M where
  stg := p
  fin := p
  Pub _ _ := False
  Msg _ _ := False

theorem writeFile_sat (rand : ℕ → ℕ) (hdr : Draws K rand) (opts : WriterOptions) (calls : List WriterCall) :
    (writeFile K rand opts calls : FsProg M Unit).Sat
      (Stage.proto (plainSpec M (getWALArchivePath opts.clusterName opts.walName)))
      (fun _ ph => ∃ d s, ph = .closed d s ∧ Image K opts.segmentSize d (payload calls)) (fun _ ph => ph = .broken)
      .start := by
  refine sat_bind (newDirectWriterAtPath_sat rand opts) ?_
  rintro w ph ⟨hgood, hrand⟩
  exact session_sat calls [] [] w ph hgood (by rwa [hrand])

/-- **Without I/O errors the file is there, and is an image of the written bytes.** -/
theorem writeFile_image (rand : ℕ → ℕ) (hdr : Draws K rand) (opts : WriterOptions) (calls : List WriterCall)
    (fs : Fs Name UInt8) (hfs : CanWrite fs (getWALArchivePath opts.clusterName opts.walName)) :
    ∃ w' d, (writeFile K rand opts calls).eval (sem Unit Name UInt8 M) () (fun _ => none) ⟨fs, []⟩ = (.ok (), w') ∧
      w'.fs.read (getWALArchivePath opts.clusterName opts.walName) = some d ∧
      Image K opts.segmentSize d (payload calls) := by
  set sp := plainSpec M (getWALArchivePath opts.clusterName opts.walName)
  have hstart : Stage.Smooth sp fs .start := ⟨trivial, ⟨hfs.1, fun ⟨_, _, h⟩ => h.elim⟩, hfs.2⟩
  obtain ⟨ph, hsm, hend⟩ := eval_sat (M := sem Unit Name UInt8 M) (i := ())
    (fun w ph => Stage.Smooth sp w.fs ph) (fun c => c = none)
    (fun w ph o c hI ha hc => by subst hc; exact Stage.exec_smooth ha hI)
    (writeFile K rand opts calls) .start (fun _ => none) ⟨fs, []⟩ (writeFile_sat rand hdr opts calls) hstart
    fun _ => rfl
  generalize (writeFile K rand opts calls).eval (sem Unit Name UInt8 M) () (fun _ => none) ⟨fs, []⟩ = out at hsm hend
  obtain ⟨r, w'⟩ := out
  rcases r with e | _
  · obtain rfl : ph = .broken := hend; exact hsm.2.2.elim
  obtain ⟨d, s, rfl, him⟩ := hend
  obtain ⟨ino, hl, hd, -⟩ := hsm.1
  refine ⟨w', d, rfl, ?_, him⟩
  unfold Fs.read
  rw [show w'.fs.look (getWALArchivePath opts.clusterName opts.walName) = some ino from hl]
  exact congrArg some hd

/-- **The WAL file format round-trips.** Whatever is written in one session, with any segment
size, any buffer size and flushes anywhere, is read back by successive `ReadBlock` calls in
non-empty blocks of at most 1 MiB, and then `io.EOF` for ever. -/
theorem wal_file_roundtrip (K : Codec) (rand : ℕ → ℕ) (hdr : Draws K rand) (opts : WriterOptions)
    (calls : List WriterCall) (fs : Fs Name UInt8)
    (hfs : CanWrite fs (getWALArchivePath opts.clusterName opts.walName)) :
    ∃ w' r, ∃ blocks : List (List UInt8),
      (writeFile K rand opts calls).eval (sem Unit Name UInt8 M) () (fun _ => none) ⟨fs, []⟩ = (.ok (), w') ∧
      (newReader K opts.clusterName opts.walName).eval (sem Unit Name UInt8 M) () (fun _ => none) w' = (.ok r, w') ∧
      r.getFileLength = opts.segmentSize ∧
      blocks.flatten = payload calls ∧ (∀ b ∈ blocks, b ≠ [] ∧ b.length ≤ 1024 * 1024) ∧
      (∀ k, r.nth K k = match blocks[k]? with
        | some b => .ok b
        | none => .error endOfFile) ∧
      endOfFile.isEOF = true := by
  obtain ⟨w', d, hwrite, hread, e, cs, rfl, hf, hflat⟩ := writeFile_image (M := M) rand hdr opts calls fs hfs
  refine ⟨w', ⟨e, opts.segmentSize⟩, cs, hwrite, ?_, rfl, hflat, hf.blocks, nth_framed hf _, rfl⟩
  simp only [newReader, Prog.eval, sem, Fs.exec, hread, ofContent_header, logOp]

/-- A session of three blocks, one of them empty, on an empty repository. -/
theorem wal_file_roundtrip_small : Draws plainCodec (fun _ => 0) ∧ ∃ w' r, ∃ blocks : List (List UInt8),
    (writeFile plainCodec (fun _ => 0) ⟨"c".toList, "000000010000000000000001".toList, 3, 1⟩
      [.writeBlock [1, 2], .flush, .writeBlock [], .writeBlock [3]]).eval (sem Unit Name UInt8 Empty) () (fun _ => none)
        ⟨Fs.empty, []⟩ = (.ok (), w') ∧
    (newReader plainCodec "c".toList "000000010000000000000001".toList).eval (sem Unit Name UInt8 Empty) ()
      (fun _ => none) w' = (.ok r, w') ∧
    r.getFileLength = 3 ∧ blocks.flatten = [1, 2, 3] ∧ (∀ b ∈ blocks, b ≠ [] ∧ b.length ≤ 1024 * 1024) ∧
    (∀ k, r.nth plainCodec k = match blocks[k]? with
      | some b => .ok b
      | none => .error endOfFile) ∧ endOfFile.isEOF = true := by
  refine ⟨plain_draws, ?_⟩
  exact wal_file_roundtrip plainCodec (fun _ => 0) plain_draws ⟨"c".toList, "000000010000000000000001".toList, 3, 1⟩
    [.writeBlock [1, 2], .flush, .writeBlock [], .writeBlock [3]] Fs.empty ⟨by decide, fun _ _ => rfl⟩

end Klio

import Klio.Proof.Names

/-!
# What appears under a final name

Several `Put` streams on one repository, in any order of their steps and with any faults.

* `published`: as long as no stream opens a staging file that another running stream uses,
  a file under a final name was there before or is the complete payload of one stream.
* `final_segments_complete`: streams run one at a time publish exactly the declared number
  of bytes, if they carry fewer than 2^64.
* `concurrent_uploads`: streams of one file that do not overlap cannot corrupt it;
  `concurrent_uploads_corrupt` shows two that do overlap.
-/

namespace Klio

open Lib List

/-- A `Put` call: who makes it, what its writer draws, and the batches `Drain` delivers until
the stream ends. -/
structure PutStream where
  peer : Peer
  rand : ℕ → ℕ
  batches : List Batch

namespace PutStream

def blocks (t : PutStream) : List PutRequest := streamBlocks t.batches

/-- The concatenation of their `wal_block` fields. -/
def payload (t : PutStream) : List UInt8 := blocksPayload t.blocks

def first (t : PutStream) : PutRequest := firstBlock t.blocks

/-- The handler of the call. -/
def prog (D : Deps) (K : Codec) (I : Implementation) (t : PutStream) : FsProg Msg Unit :=
  put D K I t.rand t.peer t.batches

end PutStream

variable {ι : Type} [DecidableEq ι] {D : Deps} {K : Codec} {I : Implementation}

/-- A system of `Put` calls. -/
abbrev PutSys (ι : Type) := Sys ι (FsOp Name UInt8 Msg) FsOp.Res Err (World ι Name UInt8 Msg)

/-- The system before any call has started. -/
def putSys (D : Deps) (K : Codec) (I : Implementation) (streams : ι → PutStream) (fs : Fs Name UInt8) : PutSys ι :=
  Sys.init ⟨fs, []⟩ fun i => (streams i).prog D K I

def streamSpec (D : Deps) (K : Codec) (streams : ι → PutStream) (i : ι) : Stage.Spec Name UInt8 Msg :=
  putSpec D K (streams i).peer (streams i).blocks

/-! ## Final and staging paths -/

theorem stagingPath_last (r : PutRequest) : ∃ dir x, stagingPath r = dir ++ [withPartialSuffix x] := ⟨_, _, rfl⟩

/-- A final name carries no suffix. -/
def NotPartial (p : Path) : Prop := ∃ dir x, p = dir ++ [x] ∧ ¬ partialSuffix <:+ x

theorem NotPartial.ne_staging {p : Path} (h : NotPartial p) (r : PutRequest) : p ≠ stagingPath r := by
  obtain ⟨dir, x, rfl, hx⟩ := h
  obtain ⟨dir', y, hy⟩ := stagingPath_last r
  rw [hy]
  intro heq
  have hlast := (append_inj' heq rfl).2
  have hxy : x = withPartialSuffix y := by simpa using hlast
  exact hx (hxy ▸ suffix_withPartialSuffix y)

theorem finalPath_notPartial {r : PutRequest} (h : walFileRE r.walName = true) : NotPartial (finalPath r) := by
  obtain ⟨dir, hdir⟩ := archivePath_accepted h
  refine ⟨dir, _, finalPath_eq hdir, ?_⟩
  by_cases hs : partialSuffix <:+ r.walName
  · obtain ⟨x, hx, hn⟩ := walFileRE_partial h hs
    rw [hn, withPartialSuffix_append, trimPartialSuffix_append]
    exact hx.not_suffix
  · rw [withPartialSuffix_of_not hs, trimPartialSuffix_append]
    exact hs

theorem finalPath_segment {r : PutRequest} (h : IsSegment r.walName) :
    finalPath r = getWALArchivePath r.clusterName r.walName := by
  have harch := archivePath_segment r.clusterName h
  rw [finalPath_eq harch, harch, h.withPartial, trimPartialSuffix_append]

theorem stagingPath_segment {r : PutRequest} (h : IsSegment r.walName) :
    stagingPath r = getWALArchivePath r.clusterName (withPartialSuffix r.walName) := by
  rw [stagingPath_eq (archivePath_segment r.clusterName h), h.withPartial, archivePath_partialSegment r.clusterName h]

def WellNamed (t : PutStream) : Prop := t.blocks = [] ∨ walFileRE t.first.walName = true

variable {t : PutStream}

theorem WellNamed.notPartial (h : WellNamed t) : NotPartial (finalPath t.first) := by
  rcases h with h | h
  · unfold PutStream.first
    rw [h]
    exact ⟨[], ".".toList, by decide, by decide⟩
  · exact finalPath_notPartial h

/-! ## Published files -/

omit [DecidableEq ι] in
theorem streams_track (streams : ι → PutStream) (fs : Fs Name UInt8) :
    Tracks (fun i => Stage.proto (streamSpec D K streams i)) (putSys D K I streams fs) fun _ => .start := by
  intro i
  exact put_sat (streams i).batches

omit [DecidableEq ι] in
theorem putSpec_stable {streams : ι → PutStream} {Old : Path → List UInt8 → ℕ → Prop}
    (hOld : ∀ p d s k, Old p d s → Old p (d.take (max s k)) s) : Stage.Stable (streamSpec D K streams) Old := by
  refine ⟨hOld, ?_⟩
  intro i d s k hpub
  obtain ⟨him, rfl, hrest⟩ := hpub
  have hall : d.take (max d.length k) = d := take_of_length_le (Nat.le_max_left _ _)
  rw [hall]
  exact ⟨him, rfl, hrest⟩

/-- **A file under a final name was there before or is what one stream has published**, in every
run in which no stream opens a staging file that another running stream uses. -/
theorem published {streams : ι → PutStream} (hnames : ∀ i, WellNamed (streams i)) (fs : Fs Name UInt8)
    (Old : Path → List UInt8 → ℕ → Prop) (hOld : ∀ p i, NotPartial p → fs.look p = some i → Old p (fs.data i) (fs.synced i))
    {G : PutSys ι → Ev ι (Option ℕ) (ℕ → ℕ) → Prop}
    (hex : ∀ s i c, G s (.step i c) → Stage.Exclusive (streamSpec D K streams) s i)
    (hst : ∀ s x, G s (.crash x) → Stage.Stable (streamSpec D K streams) Old)
    {es : List (Ev ι (Option ℕ) (ℕ → ℕ))} (hg : Guarded (sem ι Name UInt8 Msg) G (putSys D K I streams fs) es) :
    ∃ φ, Tracks (fun i => Stage.proto (streamSpec D K streams i)) ((putSys D K I streams fs).run (sem ι Name UInt8 Msg) es) φ ∧
      Stage.Inv (streamSpec D K streams) NotPartial Old ((putSys D K I streams fs).run (sem ι Name UInt8 Msg) es) φ := by
  have hstg : ∀ p, NotPartial p → ∀ i, p ≠ (streamSpec D K streams i).stg := fun p hp i => hp.ne_staging _
  have hfin : ∀ i j, (streamSpec D K streams j).stg ≠ (streamSpec D K streams i).fin :=
    fun i j => ((hnames i).notPartial.ne_staging _).symm
  exact Stage.run_inv hstg hfin hex hst (streams_track streams fs) (Stage.Inv.init hOld) hg

/-! ## Streams run one at a time -/

/-- A stream takes a step only when no other is under way. -/
def OneAtATime (s : PutSys ι) : Ev ι (Option ℕ) (ℕ → ℕ) → Prop
  | .step i _ => ∀ j, j ≠ i → ¬ s.Running j
  | .crash _ => True

def IsFinal (p : Path) : Prop := ∃ dir x, p = dir ++ [x] ∧ IsSegment x

theorem IsFinal.notPartial {p : Path} (h : IsFinal p) : NotPartial p := by
  obtain ⟨dir, x, hp, hx⟩ := h
  exact ⟨dir, x, hp, hx.not_suffix⟩

theorem decode_published {d : List UInt8} {s : ℕ} (h : (putSpec D K t.peer t.blocks).Pub d s) :
    ∃ blocks, decode K d = .ok ⟨t.first.segmentSize, blocks, some endOfFile⟩ ∧ blocks.flatten = t.payload :=
  decode_image h.1

/-- **A segment visible under its final name is complete.** Streams of segments run one at a time
against a repository without segments, each with fewer than 2^64 bytes, in any batches, with any
faults and crashes: whatever lies under the name of a segment decodes to the declared number of
bytes, and they are the blocks of one stream. -/
theorem final_segments_complete (D : Deps) (K : Codec) (I : Implementation) (streams : ι → PutStream)
    (hnames : ∀ i, ∀ r ∈ (streams i).blocks, IsSegment r.walName)
    (hbound : ∀ i, (streams i).payload.length < 2 ^ 64) (fs : Fs Name UInt8) (hfs : ∀ p, IsFinal p → fs.look p = none)
    (es : List (Ev ι (Option ℕ) (ℕ → ℕ)))
    (hg : Guarded (sem ι Name UInt8 Msg) OneAtATime (putSys D K I streams fs) es) :
    ∀ p d, IsFinal p → ((putSys D K I streams fs).run (sem ι Name UInt8 Msg) es).st.fs.read p = some d →
      ∃ i blocks, p = getWALArchivePath (streams i).first.clusterName (streams i).first.walName ∧
        decode K d = .ok ⟨(streams i).first.segmentSize, blocks, some endOfFile⟩ ∧
        blocks.flatten = (streams i).payload ∧
        blocks.flatten.length = (streams i).first.segmentSize.toNat := by
  intro p d hp hread
  have hwell : ∀ i, WellNamed (streams i) := by
    intro i
    by_cases h0 : (streams i).blocks = []
    · exact .inl h0
    right
    obtain ⟨r, rs, hrs⟩ := exists_cons_of_ne_nil h0
    have hr := hnames i r (by rw [hrs]; exact mem_cons_self)
    unfold PutStream.first
    rw [hrs]
    exact isSegment_walFileRE hr
  obtain ⟨φ, -, hinv⟩ := published (G := OneAtATime) (I := I) hwell fs
    (fun p _ _ => ¬ IsFinal p) (fun p i _ hl hF => by rw [hfs p hF] at hl; cases hl)
    (fun s i c hg q k _ j hj _ => hg j hj) (fun s x _ => putSpec_stable fun _ _ _ _ h => h) hg
  obtain ⟨ino, hl, hd⟩ := Option.map_eq_some_iff.1 hread
  rcases hinv.final p ino hp.notPartial hl with hold | ⟨i, hpi, hpub⟩
  · exact absurd hp hold
  rw [hd] at hpub
  obtain ⟨blocks, hdec, hflat⟩ := decode_published hpub
  -- the stream has blocks, as its final path ends in the name of a segment
  have hne : (streams i).blocks ≠ [] := by
    intro h0
    obtain ⟨dir, x, hx, hseg⟩ := hp
    have hdot : finalPath (firstBlock (streams i).blocks) = [".".toList] := by rw [h0]; decide
    have hpi : p = [".".toList] := hpi.trans hdot
    rw [hpi] at hx
    have hlen := congrArg length hx
    rw [length_append, length_singleton, length_singleton] at hlen
    have hdir : dir = [] := eq_nil_of_length_eq_zero (by omega)
    rw [hdir] at hx
    have hxdot : x = ".".toList := by simpa using hx.symm
    rw [hxdot] at hseg
    exact absurd hseg (by decide)
  have hfirst : IsSegment (streams i).first.walName := by
    obtain ⟨r, rs, hrs⟩ := exists_cons_of_ne_nil hne
    have hr := hnames i r (by rw [hrs]; exact mem_cons_self)
    unfold PutStream.first
    rw [hrs]
    exact hr
  refine ⟨i, blocks, hpi.trans (finalPath_segment hfirst), hdec, hflat, ?_⟩
  have hsize : UInt64.ofNat (streams i).payload.length = (streams i).first.segmentSize := hpub.2.2.1
  have hnat := congrArg UInt64.toNat hsize
  rw [UInt64.toNat_ofNat', Nat.mod_eq_of_lt (hbound i)] at hnat
  rw [hflat, hnat]

/-! ## A stream nobody disturbs -/

/-- Nothing on disk is in the way of an upload of `r`. -/
structure Unobstructed (fs : Fs Name UInt8) (r : PutRequest) : Prop where
  staging : ¬ fs.IsDir (stagingPath r)
  final : ¬ fs.IsDir (finalPath r)
  above : ∀ d ∈ Fs.ancestors (stagingPath r).dropLast, fs.look d = none

theorem finalPath_not_ancestor (r : PutRequest) : finalPath r ∉ Fs.ancestors (stagingPath r).dropLast := by
  intro h
  have hlen := (Fs.mem_ancestors.1 h).1.length_le
  unfold finalPath onBase at hlen
  rw [length_append, length_singleton] at hlen
  omega

theorem Unobstructed.smooth {fs : Fs Name UInt8} {peer : Peer} {rs : List PutRequest}
    (h : Unobstructed fs (firstBlock rs)) : Stage.Smooth (putSpec D K peer rs) fs .start :=
  ⟨trivial, ⟨h.staging, fun _ => ⟨h.final, finalPath_not_ancestor _⟩⟩, h.above⟩

variable {J : Fs Name UInt8 → Stage.Phase UInt8 → Prop}

omit [DecidableEq ι] in
/-- **A stream that meets no fault gets to its end**, and keeps on the way what its operations
keep. -/
theorem put_ended (hI : I.isReadOnly = false) (hdr : Draws K t.rand)
    (hacc : ∃ m, acceptBlocks D t.peer {} t.blocks = .ok m)
    {w : World ι Name UInt8 Msg} (hfs : Unobstructed w.fs t.first) (i : ι)
    (h0 : J w.fs .start)
    (hJ : ∀ fs ph o, J fs ph → Stage.allowed (putSpec D K t.peer t.blocks) ph o →
      J (Fs.exec o none fs).2 (Stage.next ph o (Fs.exec o none fs).1)) :
    ∃ ph, Ended K t.blocks ph ∧
      Stage.Smooth (putSpec D K t.peer t.blocks)
        (Prog.eval (sem ι Name UInt8 Msg) i (t.prog D K I) (fun _ => none) w).2.fs ph ∧
      J (Prog.eval (sem ι Name UInt8 Msg) i (t.prog D K I) (fun _ => none) w).2.fs ph := by
  have hprog : t.prog D K I = PutHandler.run D K I t.rand t.peer {} t.batches := by
    unfold PutStream.prog put
    rw [hI]; rfl
  rw [hprog]
  obtain ⟨ph, ⟨hsm, hj⟩, hend⟩ := Prog.eval_sat (M := sem ι Name UInt8 Msg) (i := i)
    (fun w ph => Stage.Smooth (putSpec D K t.peer t.blocks) w.fs ph ∧ J w.fs ph) (fun c => c = none)
    (by rintro s ph o c ⟨hs, hj⟩ ha rfl; exact ⟨Stage.exec_smooth ha hs, hJ _ _ _ hj ha⟩) _ .start (fun _ => none) w
    (run_sat t.batches) ⟨hfs.smooth, h0⟩ fun _ => rfl
  refine ⟨ph, ?_, hsm, hj⟩
  revert hend
  split
  · exact id
  rintro (rfl | h | h | h)
  · exact hsm.2.2.elim
  · exact absurd hacc h
  · exact absurd hdr h
  · exact h

omit [DecidableEq ι] in
/-- A complete one gets done. -/
theorem put_done (hI : I.isReadOnly = false) (hdr : Draws K t.rand)
    (hacc : ∃ m, acceptBlocks D t.peer {} t.blocks = .ok m) (hne : t.blocks ≠ []) (hsize : SizeReached t.blocks)
    {w : World ι Name UInt8 Msg} (hfs : Unobstructed w.fs t.first) (i : ι)
    (h0 : J w.fs .start)
    (hJ : ∀ fs ph o, J fs ph → Stage.allowed (putSpec D K t.peer t.blocks) ph o →
      J (Fs.exec o none fs).2 (Stage.next ph o (Fs.exec o none fs).1)) :
    Stage.Smooth (putSpec D K t.peer t.blocks)
        (Prog.eval (sem ι Name UInt8 Msg) i (t.prog D K I) (fun _ => none) w).2.fs .done ∧
      J (Prog.eval (sem ι Name UInt8 Msg) i (t.prog D K I) (fun _ => none) w).2.fs .done := by
  obtain ⟨ph, hend, hsm, hj⟩ := put_ended hI hdr hacc hfs i h0 hJ
  rcases hend with ⟨h0, -⟩ | ⟨d, -, -, hs⟩ | ⟨-, rfl⟩
  · exact absurd h0 hne
  · exact absurd hsize hs
  · exact ⟨hsm, hj⟩

theorem run_publishes (hI : I.isReadOnly = false) (hdr : Draws K t.rand)
    (hacc : ∃ m, acceptBlocks D t.peer {} t.blocks = .ok m) (hne : t.blocks ≠ []) (hsize : SizeReached t.blocks)
    {fs : Fs Name UInt8} (hfs : Unobstructed fs t.first) :
    ∃ n d blocks, ((putSys D K I (fun _ : Unit => t) fs).run (sem Unit Name UInt8 Msg)
        (replicate n (.step () none))).st.fs.read (finalPath t.first) = some d ∧
      decode K d = .ok ⟨t.first.segmentSize, blocks, some endOfFile⟩ ∧ blocks.flatten = t.payload := by
  obtain ⟨n, hst, -⟩ := run_eval (sem Unit Name UInt8 Msg) () none _ (putSys D K I (fun _ : Unit => t) fs) rfl
  obtain ⟨⟨-, -, ino, hlook, hpub⟩, -⟩ := put_done hI hdr hacc hne hsize (w := ⟨fs, []⟩) hfs ()
    (J := fun _ _ => True) trivial fun _ _ _ _ _ => trivial
  obtain ⟨blocks, hdec, hflat⟩ := decode_published hpub
  refine ⟨n, _, blocks, ?_, hdec, hflat⟩
  rw [hst]
  exact congrArg (Option.map _) hlook

/-! ## The declared size and the counter -/

/-- A block for a segment of declared size 1. -/
def oneByteRequest (block : List UInt8) : PutRequest :=
  ⟨"c".toList, "000000010000000000000001".toList, block, 1, 0, false⟩

/-- A stream of such blocks, each received alone. -/
def oneByteStream (bs : List (List UInt8)) : PutStream where
  peer := .cert "u@c".toList
  rand := fun _ => 0
  batches := bs.map fun b => ⟨oneByteRequest b, []⟩

theorem oneByteStream_blocks (bs : List (List UInt8)) : (oneByteStream bs).blocks = bs.map oneByteRequest := by
  unfold PutStream.blocks streamBlocks oneByteStream
  induction bs with
  | nil => rfl
  | cons b bs ih => rw [map_cons, flatMap_cons, ih]; rfl

/-- Every block is accepted, the first and those after it. -/
theorem oneByteStream_accepted (bs : List (List UInt8)) : ∀ m : BlockMeta, m = {} ∨
    m = ⟨"c".toList, "000000010000000000000001".toList, 1, false, 0⟩ →
      ∃ m', acceptBlocks plainDeps (.cert "u@c".toList) m (bs.map oneByteRequest) = .ok m' := by
  induction bs with
  | nil => exact fun m _ => ⟨m, rfl⟩
  | cons b bs ih =>
    intro m hm
    have hone : acceptBlock plainDeps (.cert "u@c".toList) m (oneByteRequest b) =
        .ok ⟨"c".toList, "000000010000000000000001".toList, 1, false, 0⟩ := by
      rcases hm with rfl | rfl <;> rfl
    rw [map_cons, acceptBlocks, hone]
    exact ih _ (.inr rfl)

theorem oneByteStream_payload (bs : List (List UInt8)) : (oneByteStream bs).payload = bs.flatten := by
  unfold PutStream.payload
  rw [oneByteStream_blocks]
  unfold blocksPayload
  rw [flatMap_map]
  exact flatMap_id

theorem unobstructed_empty (b : List UInt8) : Unobstructed Fs.empty (oneByteRequest b) := by
  have hstg : ¬ (Fs.empty : Fs Name UInt8).IsDir (stagingPath (oneByteRequest [])) := by decide
  have hfin : ¬ (Fs.empty : Fs Name UInt8).IsDir (finalPath (oneByteRequest [])) := by decide
  exact ⟨hstg, hfin, fun d _ => rfl⟩

/-- **The handler counts modulo 2^64**: a stream of any number of bytes that is congruent to
its declared size is published. -/
theorem oneByteStream_published {bs : List (List UInt8)} (hne : bs ≠ []) (h : UInt64.ofNat bs.flatten.length = 1) :
    ∃ n d blocks, ((putSys plainDeps plainCodec ⟨false, true⟩ (fun _ : Unit => oneByteStream bs) Fs.empty).run
        (sem Unit Name UInt8 Msg) (replicate n (.step () none))).st.fs.read
          (getWALArchivePath "c".toList "000000010000000000000001".toList) = some d ∧
      decode plainCodec d = .ok ⟨1, blocks, some endOfFile⟩ ∧ blocks.flatten = bs.flatten := by
  have hblocks := oneByteStream_blocks bs
  have hne' : (oneByteStream bs).blocks ≠ [] := by
    rw [hblocks]; exact fun h0 => hne (map_eq_nil_iff.1 h0)
  obtain ⟨b, bs', rfl⟩ := exists_cons_of_ne_nil hne
  have hfirst : (oneByteStream (b :: bs')).first = oneByteRequest b := by
    unfold PutStream.first; rw [hblocks]; rfl
  have hacc : ∃ m, acceptBlocks plainDeps (oneByteStream (b :: bs')).peer {} (oneByteStream (b :: bs')).blocks = .ok m := by
    rw [hblocks]
    exact oneByteStream_accepted _ _ (.inl rfl)
  have hsize : SizeReached (oneByteStream (b :: bs')).blocks := by
    have hpay : blocksPayload (oneByteStream (b :: bs')).blocks = (b :: bs').flatten := oneByteStream_payload _
    have hseg : (firstBlock (oneByteStream (b :: bs')).blocks).segmentSize = 1 := congrArg PutRequest.segmentSize hfirst
    unfold SizeReached
    rw [hpay, hseg]
    exact h
  have hclear : Unobstructed (Fs.empty : Fs Name UInt8) (oneByteStream (b :: bs')).first := by
    rw [hfirst]; exact unobstructed_empty b
  obtain ⟨n, d, blocks, hread, hdec, hflat⟩ :=
    run_publishes (I := ⟨false, true⟩) rfl plain_draws hacc hne' hsize hclear
  have hseg : IsSegment "000000010000000000000001".toList := by decide
  rw [hfirst] at hread hdec
  rw [finalPath_segment (r := oneByteRequest b) hseg] at hread
  exact ⟨n, d, blocks, hread, hdec, hflat.trans (oneByteStream_payload _)⟩

set_option maxRecDepth 10000 in
theorem final_segments_complete_small :
    ∃ d, ((putSys plainDeps plainCodec ⟨false, true⟩ (fun _ : Unit => oneByteStream [[7]]) Fs.empty).run
        (sem Unit Name UInt8 Msg) (List.replicate 8 (.step () none))).st.fs.read
          (getWALArchivePath "c".toList "000000010000000000000001".toList) = some d ∧
      ∃ blocks, decode plainCodec d = .ok ⟨1, blocks, some endOfFile⟩ ∧ blocks.flatten = [7] := by
  have hsome : (((putSys plainDeps plainCodec ⟨false, true⟩ (fun _ : Unit => oneByteStream [[7]]) Fs.empty).run
        (sem Unit Name UInt8 Msg) (replicate 8 (.step () none))).st.fs.read
          (getWALArchivePath "c".toList "000000010000000000000001".toList)).isSome = true := by decide +kernel
  obtain ⟨d, hd⟩ := Option.isSome_iff_exists.1 hsome
  have hseg : IsSegment "000000010000000000000001".toList := by decide
  obtain ⟨-, blocks, -, hdec, hflat, -⟩ :=
    final_segments_complete plainDeps plainCodec ⟨false, true⟩ (fun _ : Unit => oneByteStream [[7]])
      (fun _ r hr => by obtain rfl := mem_singleton.1 hr; exact hseg) (fun _ => by decide) Fs.empty (fun _ _ => rfl)
      _ (guarded_alone (fun _ h => h) 8 _ fun j hj => absurd rfl hj) _ d
      ⟨_, _, archivePath_segment _ hseg, hseg⟩ hd
  exact ⟨d, hd, blocks, hdec, hflat⟩

/-- A segment of declared size 1 that is published with 2^64 + 1 bytes. -/
theorem final_segment_overflow :
    ∃ n d blocks,
      Guarded (sem Unit Name UInt8 Msg) OneAtATime
        (putSys plainDeps plainCodec ⟨false, true⟩
          (fun _ : Unit => oneByteStream (List.replicate (2 ^ 44) (List.replicate (2 ^ 20) 0) ++ [[0]])) Fs.empty)
        (List.replicate n (.step () none)) ∧
      ((putSys plainDeps plainCodec ⟨false, true⟩
          (fun _ : Unit => oneByteStream (List.replicate (2 ^ 44) (List.replicate (2 ^ 20) 0) ++ [[0]])) Fs.empty).run
        (sem Unit Name UInt8 Msg) (List.replicate n (.step () none))).st.fs.read
          (getWALArchivePath "c".toList "000000010000000000000001".toList) = some d ∧
      decode plainCodec d = .ok ⟨1, blocks, some endOfFile⟩ ∧ blocks.flatten.length = 2 ^ 64 + 1 := by
  have hlen : (replicate (2 ^ 44) (replicate (2 ^ 20) (0 : UInt8)) ++ [[0]]).flatten.length = 2 ^ 64 + 1 := by
    rw [flatten_append, length_append, flatten_replicate_replicate, length_replicate]
    rfl
  have hmod : UInt64.ofNat (2 ^ 64 + 1) = 1 := by decide
  obtain ⟨n, d, blocks, hread, hdec, hflat⟩ :=
    oneByteStream_published (append_ne_nil_of_right_ne_nil _ (cons_ne_nil _ _)) (by rw [hlen]; exact hmod)
  refine ⟨n, d, blocks, ?_, hread, hdec, by rw [hflat, hlen]⟩
  exact guarded_alone (fun _ h => h) n _ fun j hj => absurd rfl hj

/-! ## Streams of one file -/

/-- A stream opens the staging file only when no other stream is under way; nothing crashes. -/
def NoOverlap (s : PutSys ι) : Ev ι (Option ℕ) (ℕ → ℕ) → Prop
  | .step i _ => ∀ p k, s.procs i = .call (.openTrunc p) k → ∀ j, j ≠ i → ¬ s.Running j
  | .crash _ => False

omit [DecidableEq ι] in
theorem finalPath_congr {r r' : PutRequest} (hc : r.clusterName = r'.clusterName) (hn : r.walName = r'.walName) :
    finalPath r = finalPath r' := by
  unfold finalPath stagingPath
  rw [hc, hn]

/-- **Uploads of one file cannot corrupt it, as long as they do not overlap.** All the streams carry
the cluster and the accepted name of `r`. In every interleaving of their steps, with any faults, in
which none opens the staging file while another is under way, what lies under the final name
was there before or decodes to the complete payload of one of the streams. -/
theorem concurrent_uploads (D : Deps) (K : Codec) (I : Implementation) (streams : ι → PutStream) (r : PutRequest)
    (hname : walFileRE r.walName = true)
    (hsame : ∀ i, ∀ r' ∈ (streams i).blocks, r'.clusterName = r.clusterName ∧ r'.walName = r.walName)
    (fs : Fs Name UInt8) (es : List (Ev ι (Option ℕ) (ℕ → ℕ)))
    (hg : Guarded (sem ι Name UInt8 Msg) NoOverlap (putSys D K I streams fs) es) :
    ∀ d, ((putSys D K I streams fs).run (sem ι Name UInt8 Msg) es).st.fs.read (finalPath r) = some d →
      fs.read (finalPath r) = some d ∨
        ∃ i size blocks, decode K d = .ok ⟨size, blocks, some endOfFile⟩ ∧ blocks.flatten = (streams i).payload := by
  intro d hread
  have hwell : ∀ i, WellNamed (streams i) := by
    intro i
    by_cases h0 : (streams i).blocks = []
    · exact .inl h0
    · right
      have hmem : (streams i).first ∈ (streams i).blocks := firstBlock_mem h0
      rw [(hsame i _ hmem).2]
      exact hname
  obtain ⟨φ, -, hinv⟩ := published (G := NoOverlap) (I := I) hwell fs
    (fun p d _ => fs.read p = some d) (fun p i _ hl => congrArg (Option.map fs.data) hl)
    (fun s i c hg p k hp j hj _ => hg p k hp j hj) (fun s x hg => hg.elim) hg
  obtain ⟨ino, hl, hd⟩ := Option.map_eq_some_iff.1 hread
  rcases hinv.final _ ino (finalPath_notPartial hname) hl with hold | ⟨i, -, hpub⟩
  · left
    rw [← hd]
    exact hold
  · right
    rw [hd] at hpub
    obtain ⟨blocks, hdec, hflat⟩ := decode_published hpub
    exact ⟨i, _, blocks, hdec, hflat⟩

def twoStreams (first : Bool) : PutStream := if first then oneByteStream [[1]] else oneByteStream [[2]]

set_option maxRecDepth 10000 in
/-- Two streams one after the other: the file is that of the second. -/
theorem concurrent_uploads_in_turn :
    ∃ d, ((putSys plainDeps plainCodec ⟨false, true⟩ twoStreams Fs.empty).run (sem Bool Name UInt8 Msg)
        (List.replicate 8 (.step true none) ++ List.replicate 8 (.step false none))).st.fs.read
          (finalPath (oneByteRequest [])) = some d ∧
      ∃ i size blocks, decode plainCodec d = .ok ⟨size, blocks, some endOfFile⟩ ∧
        blocks.flatten = (twoStreams i).payload := by
  have hsome : (((putSys plainDeps plainCodec ⟨false, true⟩ twoStreams Fs.empty).run (sem Bool Name UInt8 Msg)
        (replicate 8 (.step true none) ++ replicate 8 (.step false none))).st.fs.read
          (finalPath (oneByteRequest []))).isSome = true := by decide +kernel
  have hfirst : (((putSys plainDeps plainCodec ⟨false, true⟩ twoStreams Fs.empty).run (sem Bool Name UInt8 Msg)
        (replicate 8 (.step true none))).procs true).Finished := by decide +kernel
  obtain ⟨d, hd⟩ := Option.isSome_iff_exists.1 hsome
  refine ⟨d, hd, ?_⟩
  refine (concurrent_uploads plainDeps plainCodec ⟨false, true⟩ twoStreams (oneByteRequest []) (by decide) ?_
    Fs.empty _ ?_ d hd).resolve_left (by intro h; cases h)
  · intro i r hr
    cases i with
    | true => obtain rfl := mem_singleton.1 hr; exact ⟨rfl, rfl⟩
    | false => obtain rfl := mem_singleton.1 hr; exact ⟨rfl, rfl⟩
  · rw [guarded_append]
    refine ⟨guarded_alone (fun _ h _ _ _ => h) 8 _ ?_, guarded_alone (fun _ h _ _ _ => h) 8 _ ?_⟩
    · intro j _ hrun
      cases hrun.1
    intro j hj hrun
    obtain rfl : j = true := by cases j with
      | true => rfl
      | false => exact absurd rfl hj
    exact hrun.2 hfirst

set_option maxRecDepth 10000 in
/-- Two streams that overlap: the second truncates the staging file between the sync and the
rename of the first, and an empty file, which no reader accepts, appears under the final name. -/
theorem concurrent_uploads_corrupt :
    ((putSys plainDeps plainCodec ⟨false, true⟩ twoStreams Fs.empty).run (sem Bool Name UInt8 Msg)
        (List.replicate 6 (.step true none) ++ List.replicate 2 (.step false none) ++ [.step true none])).st.fs.read
          (finalPath (oneByteRequest [])) = some [] ∧
      ¬ ∃ size blocks, decode plainCodec [] = .ok ⟨size, blocks, some endOfFile⟩ := by
  refine ⟨by decide +kernel, ?_⟩
  rintro ⟨size, blocks, h⟩
  cases h

end Klio

import Klio.Proof.Publish

/-!
# Acknowledged WAL

Streams of one segment, one after the other, each cut wherever it may be: what a stream has
reported as flushed can be read back, from the segment or from its staging file.

* `acked_survives`: in every run in which a staging file is opened only when the segment is stored
  or nothing was acknowledged yet.
* `reconnection_loses_acked`: a second stream that opens the staging file of a partial upload.
-/

namespace Klio

open Lib List Stage UInt64

variable {ι : Type} {D : Deps} {K : Codec} {I : Implementation}

/-- Streams of the segment of `r` that carry parts of the same bytes `W`. -/
structure SameSegment (streams : ι → PutStream) (r : PutRequest) (W : List UInt8) : Prop where
  name : IsSegment r.walName
  same : ∀ i, ∀ r' ∈ (streams i).blocks, r'.clusterName = r.clusterName ∧ r'.walName = r.walName ∧
    r'.segmentSize = r.segmentSize ∧ r'.walStartLsn = (streams i).first.walStartLsn
  payload : ∀ i, (streams i).payload <+: W
  size : W.length ≤ r.segmentSize.toNat

/-- Stream `i` has reported the flush position `f`. -/
def Reported (log : List (ι × Msg × Bool)) (i : ι) (f : UInt64) : Prop :=
  ∃ w ok, (i, Msg.setFeedback w f, ok) ∈ log ∨ (i, Msg.putResult w f, ok) ∈ log

/-- Stream `i` has reported `start + n`, and these are its first `n` bytes. -/
def Acked (streams : ι → PutStream) (log : List (ι × Msg × Bool)) (i : ι) (bytes : List UInt8) : Prop :=
  ∃ n, n < 2 ^ 64 ∧ Reported log i ((streams i).first.walStartLsn + UInt64.ofNat n) ∧
    bytes = (streams i).payload.take n

/-- The file at `q` can be read, and starts with `bytes`. -/
def ReadBack (K : Codec) (fs : Fs Name UInt8) (q : Path) (bytes : List UInt8) : Prop :=
  ∃ d out, fs.read q = some d ∧ decode K d = .ok out ∧ bytes <+: out.blocks.flatten

/-- An image of `bytes`, or of more, is on disk as the segment or its staging file. -/
def Kept (K : Codec) (r : PutRequest) (fs : Fs Name UInt8) (bytes : List UInt8) : Prop :=
  ∃ q, (q = stagingPath r ∨ q = finalPath r) ∧ ∃ b p, Image K r.segmentSize b p ∧ bytes <+: p ∧ Stage.OnDisk fs q b

theorem Kept.readBack {r : PutRequest} {fs : Fs Name UInt8} {bytes : List UInt8} (h : Kept K r fs bytes) :
    ReadBack K fs (finalPath r) bytes ∨ ReadBack K fs (stagingPath r) bytes := by
  obtain ⟨q, hq, b, p, him, hpre, ino, hl, hb⟩ := h
  have hbd : b <+: fs.data ino := hb.trans (List.take_prefix _ _)
  obtain ⟨t, ht⟩ := hbd
  obtain ⟨bs, last, hdec, hp⟩ := decode_extends him t
  rw [ht] at hdec
  have hread : fs.read q = some (fs.data ino) := congrArg (Option.map fs.data) hl
  have hback : ReadBack K fs q bytes := ⟨_, _, hread, hdec, hpre.trans hp⟩
  rcases hq with rfl | rfl
  · exact .inr hback
  · exact .inl hback

section Streams

variable {streams : ι → PutStream} {r : PutRequest} {W : List UInt8}

variable {i : ι}

theorem SameSegment.first (h : SameSegment streams r W) (hne : (streams i).blocks ≠ []) :
    (streams i).first.clusterName = r.clusterName ∧ (streams i).first.walName = r.walName ∧
      (streams i).first.segmentSize = r.segmentSize := by
  have := h.same i _ (firstBlock_mem hne)
  exact ⟨this.1, this.2.1, this.2.2.1⟩

theorem SameSegment.wellNamed (h : SameSegment streams r W) (i : ι) : WellNamed (streams i) := by
  by_cases h0 : (streams i).blocks = []
  · exact .inl h0
  · right
    rw [(h.first h0).2.1]
    exact isSegment_walFileRE h.name

theorem SameSegment.staging (h : SameSegment streams r W) (hne : (streams i).blocks ≠ []) :
    stagingPath (streams i).first = stagingPath r := by
  unfold stagingPath
  rw [(h.first hne).1, (h.first hne).2.1]

theorem SameSegment.final (h : SameSegment streams r W) (hne : (streams i).blocks ≠ []) :
    finalPath (streams i).first = finalPath r :=
  finalPath_congr (h.first hne).1 (h.first hne).2.1

theorem SameSegment.empty_paths (h : SameSegment streams r W) (h0 : (streams i).blocks = []) {q : Path}
    (hq : q = stagingPath r ∨ q = finalPath r) : q ≠ stagingPath (streams i).first ∧ q ≠ finalPath (streams i).first := by
  have hdir := archivePath_segment r.clusterName h.name
  have hlong : ∃ dir x, q = dir ++ [x] ∧ 23 < x.length := by
    have hlen := h.name.length
    rcases hq with rfl | rfl
    · refine ⟨_, _, stagingPath_eq hdir, ?_⟩
      rw [h.name.withPartial, length_append]
      omega
    · refine ⟨_, _, finalPath_eq hdir, ?_⟩
      rw [h.name.withPartial, trimPartialSuffix_append]
      omega
  obtain ⟨dir, x, rfl, hx⟩ := hlong
  have hshort : ∀ y : Name, y.length < 23 → dir ++ [x] ≠ [y] := by
    intro y hy heq
    have hxy : x = y := by
      have hl := congrArg getLast? heq
      simpa using hl
    rw [hxy] at hx
    omega
  unfold PutStream.first
  rw [h0]
  constructor
  · have hs : stagingPath (firstBlock []) = [withPartialSuffix ".".toList] := by decide
    exact hshort _ (by decide)
  · have hf : finalPath (firstBlock []) = [".".toList] := by decide
    exact hshort _ (by decide)

theorem SameSegment.published (h : SameSegment streams r W) (hne : (streams i).blocks ≠ []) {d : List UInt8}
    {s : ℕ} (hpub : (streamSpec D K streams i).Pub d s) : Image K r.segmentSize d W ∧ s = d.length := by
  obtain ⟨him, hs, hsize, -⟩ := hpub
  have hseg : (firstBlock (streams i).blocks).segmentSize = r.segmentSize := (h.first hne).2.2
  have hpre := h.payload i
  have hle := hpre.length_le
  have hW := h.size
  have hlt := r.segmentSize.toNat_lt
  have hnat : (streams i).payload.length = r.segmentSize.toNat := by
    have hs : ofNat (streams i).payload.length = r.segmentSize := hsize.trans hseg
    have := congrArg UInt64.toNat hs
    rw [toNat_ofNat', Nat.mod_eq_of_lt (by omega)] at this
    exact this
  have heq : (streams i).payload = W := hpre.eq_of_length (by omega)
  rw [hseg] at him
  have him : Image K r.segmentSize d (streams i).payload := him
  rw [heq] at him
  exact ⟨him, hs⟩

/-! ## The invariant -/

/-- **The invariant of acknowledged bytes.** -/
structure AckInv (D : Deps) (K : Codec) (streams : ι → PutStream) (r : PutRequest) (s : PutSys ι)
    (φ : ι → Stage.Phase UInt8) : Prop where
  inv : Stage.Inv (streamSpec D K streams) NotPartial (fun p _ _ => p ≠ finalPath r) s φ
  done : ∀ i, φ i = .done → (streams i).blocks ≠ [] → ∃ ino, s.st.fs.look (finalPath r) = some ino
  acks : ∀ i bytes, Acked streams s.st.log i bytes → bytes = [] ∨ Kept K r s.st.fs bytes

variable {s : PutSys ι} {φ : ι → Stage.Phase UInt8}

variable {bytes : List UInt8}

/-- **Once the segment is stored it has all the bytes.** -/
theorem kept_of_stored (h : SameSegment streams r W)
    (hinv : Stage.Inv (streamSpec D K streams) NotPartial (fun p _ _ => p ≠ finalPath r) s φ) {ino : ℕ}
    (hl : s.st.fs.look (finalPath r) = some ino) (hb : bytes <+: W) : Kept K r s.st.fs bytes := by
  have hnp := finalPath_notPartial (isSegment_walFileRE h.name)
  rcases hinv.final _ ino hnp hl with hold | ⟨i, hfin, hpub⟩
  · exact absurd rfl hold
  have hne : (streams i).blocks ≠ [] := by
    intro h0
    exact (h.empty_paths h0 (.inr rfl)).2 hfin
  obtain ⟨him, hs⟩ := h.published hne hpub
  refine ⟨finalPath r, .inr rfl, _, W, him, hb, ino, hl, ?_⟩
  simp only [hs, take_length, prefix_rfl]

theorem Acked.le (h : SameSegment streams r W) {log : List (ι × Msg × Bool)}
    (ha : Acked streams log i bytes) : bytes <+: W := by
  obtain ⟨n, -, -, rfl⟩ := ha
  exact (List.take_prefix _ _).trans (h.payload i)

theorem kept_of_report (h : SameSegment streams r W) (hinv : AckInv D K streams r s φ)
    (hrun : ¬ (s.procs i).Finished) {n : ℕ} (hn : n < 2 ^ 64)
    (hm : MayReport K (streams i).blocks ((streams i).first.walStartLsn + ofNat n) (φ i)) :
    (streams i).payload.take n = [] ∨ Kept K r s.st.fs ((streams i).payload.take n) := by
  rcases hm with ⟨h0, -⟩ | ⟨p, r', hr', hf, hpre, hd⟩
  · left
    unfold PutStream.payload
    rw [h0]
    exact take_nil
  have hne : (streams i).blocks ≠ [] := ne_nil_of_mem hr'
  have hseg : (firstBlock (streams i).blocks).segmentSize = r.segmentSize := (h.first hne).2.2
  -- the reported position determines the number of bytes
  have hlen : n = p.length := by
    rw [(h.same i r' hr').2.2.2, UInt64.add_comm] at hf
    have heq := congrArg UInt64.toNat ((UInt64.add_left_inj _).1 hf)
    have h1 : p.length ≤ (streams i).payload.length := hpre.length_le
    have h2 := (h.payload i).length_le
    have h3 := h.size
    have h4 := r.segmentSize.toNat_lt
    rw [toNat_ofNat', toNat_ofNat', Nat.mod_eq_of_lt hn, Nat.mod_eq_of_lt (by omega)] at heq
    exact heq
  have hp : (streams i).payload.take n = p := by
    rw [hlen]; exact (prefix_iff_eq_take.1 hpre).symm
  rw [hp]
  rcases hd with rfl | hd
  · exact .inl rfl
  right
  have hholds := hinv.inv.holds i hrun
  have hstg : (streamSpec D K streams i).stg = stagingPath r := h.staging hne
  cases hph : φ i with
  | staging fd d sy =>
    rw [hph] at hd hholds
    have hdisk := hholds.onDisk (.inl ⟨fd, rfl⟩)
    exact ⟨_, .inl hstg, _, p, hseg ▸ hd, prefix_rfl, hdisk⟩
  | closed d sy =>
    rw [hph] at hd hholds
    have hdisk := hholds.onDisk (.inr rfl)
    exact ⟨_, .inl hstg, _, p, hseg ▸ hd, prefix_rfl, hdisk⟩
  | done =>
    obtain ⟨ino, hl⟩ := hinv.done i hph hne
    exact kept_of_stored h hinv.inv hl (hpre.trans (h.payload i))
  | start => rw [hph] at hd; exact hd.elim
  | ready => rw [hph] at hd; exact hd.elim
  | broken => rw [hph] at hd; exact hd.elim

variable {o : FsOp Name UInt8 Msg} {c : Option ℕ}

theorem stored_exec
    (ha : allowed (streamSpec D K streams i) (φ i) o)
    (hh : Stage.Holds s.st.fs (streamSpec D K streams i).stg (φ i)) (hne : finalPath r ≠ (streamSpec D K streams i).stg)
    {ino : ℕ} (hl : s.st.fs.look (finalPath r) = some ino) :
    ∃ ino', (Fs.exec o c s.st.fs).2.look (finalPath r) = some ino' := by
  by_cases hr : finalPath r = (streamSpec D K streams i).fin → ∀ x y, o ≠ .rename x y
  · exact ⟨ino, (exec_frame ha hh c hne hr).1.trans hl⟩
  push Not at hr
  obtain ⟨hfin, x, y, rfl⟩ := hr
  rcases exec_rename ha c with ⟨he, -⟩ | ⟨w, sy, -, -, j, hj, -, he, -⟩
  · exact ⟨ino, by rw [he]; exact hl⟩
  · exact ⟨j, by rw [he, hfin]; exact look_link_self hj⟩

/-- A stream opens the staging file only when the segment is stored or nothing was acknowledged,
and streams run one after the other. -/
def OpensSafely (streams : ι → PutStream) (r : PutRequest) (s : PutSys ι) : Ev ι (Option ℕ) (ℕ → ℕ) → Prop
  | .step i _ => (∀ j, j ≠ i → ¬ s.Running j) ∧ ∀ p k, s.procs i = .call (.openTrunc p) k →
      (∃ ino, s.st.fs.look (finalPath r) = some ino) ∨ ∀ j bytes, Acked streams s.st.log j bytes → bytes = []
  | .crash _ => True

theorem kept_exec (h : SameSegment streams r W) (hinv : AckInv D K streams r s φ) {k : o.Res → FsProg Msg Unit} (hp : s.procs i = .call o k)
    (hg : OpensSafely streams r s (.step i c)) (ha : allowed (streamSpec D K streams i) (φ i) o)
    (hstored : ∀ ino, (Fs.exec o c s.st.fs).2.look (finalPath r) = some ino → ∀ bytes, bytes <+: W →
      Kept K r (Fs.exec o c s.st.fs).2 bytes)
    {j : ι} (hack : Acked streams s.st.log j bytes) :
    bytes = [] ∨ Kept K r (Fs.exec o c s.st.fs).2 bytes := by
  have hh := hinv.inv.holds i (by rw [hp]; exact id)
  have hnp := finalPath_notPartial (isSegment_walFileRE h.name)
  have hfin : finalPath r ≠ (streamSpec D K streams i).stg := hnp.ne_staging _
  rcases hinv.acks j bytes hack with h0 | hkept
  · exact .inl h0
  by_cases h0 : (streams i).blocks = []
  · -- this stream has other paths
    right
    obtain ⟨q, hq, b, p, him, hpre, hdisk⟩ := hkept
    have hne := h.empty_paths h0 hq
    exact ⟨q, hq, b, p, him, hpre, onDisk_same (exec_frame ha hh c hne.1 fun hf => absurd hf hne.2) hdisk⟩
  by_cases hopen : ∃ q, o = .openTrunc q
  · obtain ⟨q, rfl⟩ := hopen
    rcases hg.2 q k hp with ⟨ino, hl⟩ | hnone
    · obtain ⟨ino', hl'⟩ := stored_exec (c := c) ha hh hfin hl
      exact .inr (hstored ino' hl' bytes (hack.le h))
    · exact .inl (hnone j bytes hack)
  right
  by_cases hren : ∃ x y, o = .rename x y
  · obtain ⟨x, y, rfl⟩ := hren
    rcases exec_rename ha c with ⟨he, -⟩ | ⟨w, sy, -, -, ino, hi, -, he, -⟩
    · rw [he]; exact hkept
    · have hfi : finalPath r = (streamSpec D K streams i).fin := (h.final h0).symm
      refine hstored ino ?_ bytes (hack.le h)
      rw [he, hfi]
      exact look_link_self hi
  · push Not at hopen hren
    obtain ⟨q, hq, b, p, him, hpre, hdisk⟩ := hkept
    exact ⟨q, hq, b, p, him, hpre, exec_onDisk ha hh c hopen hren hdisk⟩

variable [DecidableEq ι]

/-- **One operation keeps the invariant.** -/
theorem AckInv.call (h : SameSegment streams r W) (hinv : AckInv D K streams r s φ) {k : o.Res → FsProg Msg Unit} (hp : s.procs i = .call o k)
    (hg : OpensSafely streams r s (.step i c)) (ha : allowed (streamSpec D K streams i) (φ i) o) :
    AckInv D K streams r (s.stepProc (sem ι Name UInt8 Msg) i c)
      (Function.update φ i (next (φ i) o ((sem ι Name UInt8 Msg).exec i o c s.st).1)) := by
  have hrun : ¬ (s.procs i).Finished := by rw [hp]; exact id
  have hh := hinv.inv.holds i hrun
  have hnp := finalPath_notPartial (isSegment_walFileRE h.name)
  have hne : finalPath r ≠ (streamSpec D K streams i).stg := hnp.ne_staging _
  have hinv' := hinv.inv.call (c := c) (fun p hp i => hp.ne_staging _)
    (fun i j => ((h.wellNamed i).notPartial.ne_staging _).symm) (fun _ _ _ j hj _ => hg.1 j hj) hp ha
  have hstored : ∀ ino, (Fs.exec o c s.st.fs).2.look (finalPath r) = some ino → ∀ bytes, bytes <+: W →
      Kept K r (Fs.exec o c s.st.fs).2 bytes := by
    intro ino hl bytes hb
    rw [Sys.stepProc_call hp] at hinv'
    exact kept_of_stored h hinv' hl hb
  refine ⟨hinv', ?_, ?_⟩
  · rw [Sys.stepProc_call hp]
    intro j hj hnej
    by_cases hji : j = i
    · subst hji
      rw [Function.update_self] at hj
      rcases exec_done ha c hj with ⟨hd, -⟩ | ⟨w, sy, -, -, ino, hi, -, he⟩
      · obtain ⟨ino, hl⟩ := hinv.done j hd hnej
        exact stored_exec ha hh hne hl
      -- the rename has put the staging file there
      refine ⟨ino, ?_⟩
      show (Fs.exec o c s.st.fs).2.look (finalPath r) = some ino
      rw [he, ← h.final hnej]
      exact look_link_self hi
    · rw [Function.update_of_ne hji] at hj
      obtain ⟨ino, hl⟩ := hinv.done j hj hnej
      exact stored_exec ha hh hne hl
  · rw [Sys.stepProc_call hp]
    intro j bytes hack
    have hold : Acked streams s.st.log j bytes → bytes = [] ∨ Kept K r (Fs.exec o c s.st.fs).2 bytes :=
      kept_exec h hinv hp hg ha hstored
    cases o with
    | emit m =>
      obtain ⟨n, hn, ⟨w, ok, hrep⟩, rfl⟩ := hack
      have hro : Fs.ReadOnly (.emit m : FsOp Name UInt8 Msg) := trivial
      have hfs := Fs.exec_readOnly hro c s.st.fs
      have hmem : ∀ m', (j, m', ok) ∈ logOp i c s.st.log (.emit m : FsOp Name UInt8 Msg) →
          (j, m', ok) ∈ s.st.log ∨ j = i ∧ m' = m := by
        intro m' hm'
        rcases mem_append.1 hm' with hm' | hm'
        · exact .inl hm'
        · have := mem_singleton.1 hm'
          exact .inr ⟨congrArg Prod.fst this, congrArg (fun x => x.2.1) this⟩
      have hnew : ∀ m', j = i ∧ m' = m → (m' = .setFeedback w ((streams j).first.walStartLsn + ofNat n) ∨
          m' = .putResult w ((streams j).first.walStartLsn + ofNat n)) →
          (streams j).payload.take n = [] ∨ Kept K r (Fs.exec (.emit m) c s.st.fs).2 ((streams j).payload.take n) := by
        rintro m' ⟨rfl, rfl⟩ hm'
        rw [hfs]
        refine kept_of_report h hinv hrun hn ?_
        rcases hm' with rfl | rfl
        · exact ha
        · exact ha
      rcases hrep with hrep | hrep
      · rcases hmem _ hrep with hl | hnow
        · exact hold ⟨n, hn, ⟨w, ok, .inl hl⟩, rfl⟩
        · exact hnew _ hnow (.inl rfl)
      · rcases hmem _ hrep with hl | hnow
        · exact hold ⟨n, hn, ⟨w, ok, .inr hl⟩, rfl⟩
        · exact hnew _ hnow (.inr rfl)
    | _ => exact hold hack

/-- **A crash keeps the invariant.** -/
theorem AckInv.crash (hinv : AckInv D K streams r s φ) (keep : ℕ → ℕ) :
    AckInv D K streams r (s.step (sem ι Name UInt8 Msg) (.crash keep)) φ := by
  refine ⟨hinv.inv.crash (putSpec_stable fun _ _ _ _ h => h) keep, hinv.done, ?_⟩
  intro i bytes hack
  rcases hinv.acks i bytes hack with h0 | ⟨q, hq, b, p, him, hpre, hdisk⟩
  · exact .inl h0
  · exact .inr ⟨q, hq, b, p, him, hpre, onDisk_crash hdisk keep⟩

end Streams

variable [DecidableEq ι]

/-- **Acknowledged WAL is not lost**, in every run of streams of one segment, one after the other,
with any faults and crashes, in which the staging file is opened only when the segment is stored or
nothing was acknowledged yet: what a stream has reported as flushed can be read back from the
segment or from its staging file. -/
theorem acked_survives (D : Deps) (K : Codec) (I : Implementation) (streams : ι → PutStream) (r : PutRequest)
    (W : List UInt8) (hs : SameSegment streams r W) (fs : Fs Name UInt8) (hfs : fs.look (finalPath r) = none)
    (es : List (Ev ι (Option ℕ) (ℕ → ℕ)))
    (hg : Guarded (sem ι Name UInt8 Msg) (OpensSafely streams r) (putSys D K I streams fs) es) :
    ∀ i bytes, Acked streams ((putSys D K I streams fs).run (sem ι Name UInt8 Msg) es).st.log i bytes →
      bytes = [] ∨
      ReadBack K ((putSys D K I streams fs).run (sem ι Name UInt8 Msg) es).st.fs
        (getWALArchivePath r.clusterName r.walName) bytes ∨
      ReadBack K ((putSys D K I streams fs).run (sem ι Name UInt8 Msg) es).st.fs
        (getWALArchivePath r.clusterName (withPartialSuffix r.walName)) bytes := by
  have h0 : AckInv D K streams r (putSys D K I streams fs) fun _ => .start := by
    refine ⟨Stage.Inv.init ?_, nofun, ?_⟩
    · rintro p ino - hl rfl
      rw [hfs] at hl
      cases hl
    · rintro i bytes ⟨n, -, ⟨w, ok, h | h⟩, -⟩
      · cases h
      · cases h
  obtain ⟨φ, -, hinv⟩ := run_proto (M := sem ι Name UInt8 Msg) (G := OpensSafely streams r) (AckInv D K streams r)
    (fun s φ i c o k hi hg hp ha => hi.call hs hp hg ha) (fun s φ x hi _ => hi.crash x)
    es (putSys D K I streams fs) (fun _ => .start) (streams_track streams fs) h0 hg
  intro i bytes hack
  rcases hinv.acks i bytes hack with hnil | hkept
  · exact .inl hnil
  · right
    rw [← finalPath_segment hs.name, ← stagingPath_segment hs.name]
    exact hkept.readBack

/-! ## A reconnection -/

/-- A block of a segment of two bytes that starts at 16. -/
def twoByteRequest (block : List UInt8) : PutRequest :=
  ⟨"c".toList, "000000010000000000000001".toList, block, 2, 16, false⟩

/-- A stream that is cut after the first byte, and one that sends both. -/
def reconnecting (first : Bool) : PutStream where
  peer := .cert "u@c".toList
  rand := fun _ => 0
  batches := if first then [⟨twoByteRequest [7], []⟩] else [⟨twoByteRequest [7, 8], []⟩]

theorem reconnecting_same : SameSegment reconnecting (twoByteRequest []) [7, 8] := by
  refine ⟨by decide, ?_, ?_, by decide⟩
  · intro i r hr
    cases i with
    | true => obtain rfl := mem_singleton.1 hr; exact ⟨rfl, rfl, rfl, rfl⟩
    | false => obtain rfl := mem_singleton.1 hr; exact ⟨rfl, rfl, rfl, rfl⟩
  · intro i
    cases i with
    | true => exact ⟨[8], rfl⟩
    | false => exact ⟨[], rfl⟩

def opensNext : FsProg Msg Unit → Bool
  | .call (.openTrunc _) _ => true
  | _ => false

set_option maxRecDepth 10000 in
/-- The first stream alone: its byte is acknowledged and can be read back. -/
theorem acked_survives_first :
    Acked reconnecting ((putSys plainDeps plainCodec ⟨false, true⟩ reconnecting Fs.empty).run (sem Bool Name UInt8 Msg)
        (List.replicate 8 (.step true none))).st.log true [7] ∧
      ([7] = ([] : List UInt8) ∨
      ReadBack plainCodec ((putSys plainDeps plainCodec ⟨false, true⟩ reconnecting Fs.empty).run (sem Bool Name UInt8 Msg)
        (List.replicate 8 (.step true none))).st.fs
        (getWALArchivePath "c".toList "000000010000000000000001".toList) [7] ∨
      ReadBack plainCodec ((putSys plainDeps plainCodec ⟨false, true⟩ reconnecting Fs.empty).run (sem Bool Name UInt8 Msg)
        (List.replicate 8 (.step true none))).st.fs
        (getWALArchivePath "c".toList (withPartialSuffix "000000010000000000000001".toList)) [7]) := by
  have hack : Acked reconnecting ((putSys plainDeps plainCodec ⟨false, true⟩ reconnecting Fs.empty).run
      (sem Bool Name UInt8 Msg) (replicate 8 (.step true none))).st.log true [7] :=
    ⟨1, by decide, ⟨17, true, .inr (by decide +kernel)⟩, rfl⟩
  refine ⟨hack, acked_survives plainDeps plainCodec ⟨false, true⟩ reconnecting (twoByteRequest []) [7, 8]
    reconnecting_same Fs.empty rfl _ ?_ true [7] hack⟩
  -- the file is opened before anything is reported
  have hstates : ∀ m, m < 8 →
      ((putSys plainDeps plainCodec ⟨false, true⟩ reconnecting Fs.empty).run (sem Bool Name UInt8 Msg)
        (replicate m (.step true none))).started false = false ∧
      (opensNext (((putSys plainDeps plainCodec ⟨false, true⟩ reconnecting Fs.empty).run (sem Bool Name UInt8 Msg)
        (replicate m (.step true none))).procs true) = true →
      ((putSys plainDeps plainCodec ⟨false, true⟩ reconnecting Fs.empty).run (sem Bool Name UInt8 Msg)
        (replicate m (.step true none))).st.log = []) := by decide +kernel
  refine guarded_replicate 8 _ fun m hm => ⟨?_, ?_⟩
  · rintro (_ | _) hj hrun
    · exact Bool.false_ne_true ((hstates m hm).1.symm.trans hrun.1)
    · exact absurd rfl hj
  intro p k hopen
  right
  rintro j bytes ⟨n, -, ⟨w, ok, h⟩, -⟩
  rw [(hstates m hm).2 (by rw [hopen]; rfl)] at h
  rcases h with h | h <;> cases h

set_option maxRecDepth 10000 in
/-- The second stream opens the staging file: the acknowledged byte is gone. -/
theorem reconnection_loses_acked :
    Acked reconnecting ((putSys plainDeps plainCodec ⟨false, true⟩ reconnecting Fs.empty).run (sem Bool Name UInt8 Msg)
        (List.replicate 8 (.step true none) ++ List.replicate 2 (.step false none))).st.log true [7] ∧
      (¬ ReadBack plainCodec ((putSys plainDeps plainCodec ⟨false, true⟩ reconnecting Fs.empty).run
          (sem Bool Name UInt8 Msg) (List.replicate 8 (.step true none) ++ List.replicate 2 (.step false none))).st.fs
          (getWALArchivePath "c".toList "000000010000000000000001".toList) [7]) ∧
      ¬ ReadBack plainCodec ((putSys plainDeps plainCodec ⟨false, true⟩ reconnecting Fs.empty).run
          (sem Bool Name UInt8 Msg) (List.replicate 8 (.step true none) ++ List.replicate 2 (.step false none))).st.fs
          (getWALArchivePath "c".toList (withPartialSuffix "000000010000000000000001".toList)) [7] := by
  refine ⟨⟨1, by decide, ⟨17, true, .inr (by decide +kernel)⟩, rfl⟩, ?_, ?_⟩
  · rintro ⟨d, out, hread, -⟩
    have hnone : ((putSys plainDeps plainCodec ⟨false, true⟩ reconnecting Fs.empty).run (sem Bool Name UInt8 Msg)
        (replicate 8 (.step true none) ++ replicate 2 (.step false none))).st.fs.read
          (getWALArchivePath "c".toList "000000010000000000000001".toList) = none := by decide +kernel
    cases hread
  · rintro ⟨d, out, hread, hdec, -⟩
    have hempty : ((putSys plainDeps plainCodec ⟨false, true⟩ reconnecting Fs.empty).run (sem Bool Name UInt8 Msg)
        (replicate 8 (.step true none) ++ replicate 2 (.step false none))).st.fs.read
          (getWALArchivePath "c".toList (withPartialSuffix "000000010000000000000001".toList)) = some [] := by
      decide +kernel
    obtain rfl := Option.some.inj hread
    cases hdec

end Klio

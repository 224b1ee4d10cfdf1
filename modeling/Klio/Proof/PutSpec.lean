import Klio.Model.Put
import Klio.Proof.Format

/-!
# `Put` keeps the staging protocol

Whatever the file system answers, a `Put` call does nothing but open the staging file of
its first block, append to it, and rename it once it holds the payload of the whole stream;
and the positions it reports are those of bytes already synced.

* `acceptBlocks`: the checks on the blocks of a stream, and what they leave.
* `putSpec`: the paths of a stream, what it may publish and what it may acknowledge.
* `run_sat`: the handler keeps the protocol with that specification.
-/

namespace Klio

open Lib Prog List Stage UInt64

variable {D : Deps} {K : Codec} {I : Implementation} {rand : ℕ → ℕ} {peer : Peer}

/-- The blocks `Drain` has delivered, in order. -/
def streamBlocks (batches : List Batch) : List PutRequest := batches.flatMap Batch.blocks

def blocksPayload (rs : List PutRequest) : List UInt8 := rs.flatMap PutRequest.walBlock

/-! ## Accepted blocks -/

def acceptBlocks (D : Deps) (peer : Peer) : BlockMeta → List PutRequest → Except Err BlockMeta
  | m, [] => .ok m
  | m, r :: rs => match acceptBlock D peer m r with
    | .ok m => acceptBlocks D peer m rs
    | .error e => .error e

variable {m m' : BlockMeta} {rs : List PutRequest}

theorem acceptBlocks_append (h : acceptBlocks D peer m rs = .ok m')
    (rs' : List PutRequest) : acceptBlocks D peer m (rs ++ rs') = acceptBlocks D peer m' rs' := by
  induction rs generalizing m with
  | nil => cases h; rfl
  | cons r rs ih =>
    unfold acceptBlocks at h
    rw [cons_append, acceptBlocks]
    cases hr : acceptBlock D peer m r with
    | error e => rw [hr] at h; cases h
    | ok m₁ => rw [hr] at h; exact ih h

theorem setOrVerify_ok {T : Type} [DecidableEq T] {zero field incoming v : T} {sprint : T → Name} {n : Name}
    (h : setOrVerify zero sprint field incoming n = .ok v) : v = incoming ∧ (field = zero ∨ field = incoming) := by
  unfold setOrVerify at h
  split at h
  · rename_i h0; cases h; exact ⟨rfl, .inl h0⟩
  split at h
  · cases h
  · rename_i h1
    have h1 := not_not.1 h1
    cases h; exact ⟨h1, .inr h1⟩

/-- **What an accepted block leaves**: its own fields, and they agree with those before. -/
structure Accepted (m m' : BlockMeta) (r : PutRequest) : Prop where
  cluster : m'.clusterName = r.clusterName
  wal : m'.walFileName = r.walName
  size : m'.segmentSize = r.segmentSize
  start : m'.walStartLSN = r.walStartLsn
  tier2 : m'.sendToTier2 = r.sendToTier2
  cluster_ne : r.clusterName ≠ []
  wal_ne : r.walName ≠ []
  size_ne : r.segmentSize ≠ 0
  same_cluster : m.clusterName = [] ∨ m.clusterName = r.clusterName
  same_wal : m.walFileName = [] ∨ m.walFileName = r.walName
  same_size : m.segmentSize = 0 ∨ m.segmentSize = r.segmentSize
  same_start : m.walStartLSN = 0 ∨ m.walStartLSN = r.walStartLsn

theorem handleRequest_ok {r : PutRequest} (h : m.handleRequest r = .ok m') : Accepted m m' r := by
  unfold BlockMeta.handleRequest at h
  split at h
  · cases h
  rename_i hc
  split at h
  · cases h
  rename_i hw
  split at h
  · cases h
  rename_i hs
  cases h1 : setOrVerify [] id m.clusterName r.clusterName "cluster name".toList with
  | error e => rw [h1] at h; cases h
  | ok c =>
  cases h2 : setOrVerify [] id m.walFileName r.walName "wal name".toList with
  | error e => rw [h1, h2] at h; cases h
  | ok w =>
  cases h3 : setOrVerify 0 sprintUInt64 m.segmentSize r.segmentSize "wal segment size".toList with
  | error e => rw [h1, h2, h3] at h; cases h
  | ok s =>
  cases h4 : setOrVerify 0 sprintUInt64 m.walStartLSN r.walStartLsn "wal start lsn".toList with
  | error e => rw [h1, h2, h3, h4] at h; cases h
  | ok l =>
  rw [h1, h2, h3, h4] at h
  obtain rfl := Except.ok.inj h
  obtain ⟨rfl, hc'⟩ := setOrVerify_ok h1
  obtain ⟨rfl, hw'⟩ := setOrVerify_ok h2
  obtain ⟨rfl, hs'⟩ := setOrVerify_ok h3
  obtain ⟨rfl, hl'⟩ := setOrVerify_ok h4
  exact ⟨rfl, rfl, rfl, rfl, rfl, hc, hw, hs, hc', hw', hs', hl'⟩

theorem acceptBlock_ok {r : PutRequest} (h : acceptBlock D peer m r = .ok m') :
    validateRequest D peer r = .ok () ∧ Accepted m m' r := by
  unfold acceptBlock at h
  split at h
  · cases h
  rename_i hv
  split at h
  · cases h
  · rename_i hm
    obtain rfl := Except.ok.inj h
    exact ⟨hv, handleRequest_ok hm⟩

/-- The first block of a stream. A stream without blocks opens no file. -/
def firstBlock (rs : List PutRequest) : PutRequest := rs.headD ⟨[], [], [], 0, 0, false⟩

theorem firstBlock_mem (h : rs ≠ []) : firstBlock rs ∈ rs := by
  cases rs with
  | nil => exact absurd rfl h
  | cons r rs => exact mem_cons_self

/-- The last block of a stream is accepted after those before it. -/
theorem acceptBlocks_concat {r : PutRequest} (h : acceptBlocks D peer m (rs ++ [r]) = .ok m') :
    ∃ m₀, acceptBlocks D peer m rs = .ok m₀ ∧ Accepted m₀ m' r := by
  induction rs generalizing m with
  | nil =>
    rw [nil_append, acceptBlocks] at h
    rcases hr : acceptBlock D peer m r with e | m₁ <;> rw [hr] at h <;> cases h
    exact ⟨m, rfl, (acceptBlock_ok hr).2⟩
  | cons b rs ih =>
    rw [cons_append, acceptBlocks] at h
    rw [acceptBlocks]
    rcases hb : acceptBlock D peer m b with e | m₁ <;> rw [hb] at h
    · cases h
    · exact ih h

theorem acceptBlocks_last (h : acceptBlocks D peer m rs = .ok m')
    (hne : rs ≠ []) : ∃ r ∈ rs, ∃ m₀, Accepted m₀ m' r := by
  rw [← dropLast_append_getLast hne] at h
  obtain ⟨m₀, -, hlast⟩ := acceptBlocks_concat h
  exact ⟨_, getLast_mem hne, m₀, hlast⟩

/-- **The blocks of a stream agree** with what they leave, in the start position if the first has one that is not zero. -/
theorem acceptBlocks_fields (h : acceptBlocks D peer {} rs = .ok m) : ∀ r ∈ rs,
    r.clusterName = m.clusterName ∧ r.walName = m.walFileName ∧ r.segmentSize = m.segmentSize ∧
      ((firstBlock rs).walStartLsn ≠ 0 → r.walStartLsn = m.walStartLSN) := by
  induction rs using reverseRecOn generalizing m with
  | nil => exact nofun
  | append_singleton rs r ih =>
    obtain ⟨m₀, h₀, ha⟩ := acceptBlocks_concat h
    intro x hx
    rcases mem_append.1 hx with hx | hx
    · have hne := ne_nil_of_mem hx
      obtain ⟨hc, hw, hs, hl⟩ := ih h₀ x hx
      -- what the blocks before have left is not zero, so that this one has the same
      obtain ⟨y, -, m₁, hy⟩ := acceptBlocks_last h₀ hne
      refine ⟨hc.trans ((ha.same_cluster.resolve_left (hy.cluster.trans_ne hy.cluster_ne)).trans ha.cluster.symm),
        hw.trans ((ha.same_wal.resolve_left (hy.wal.trans_ne hy.wal_ne)).trans ha.wal.symm),
        hs.trans ((ha.same_size.resolve_left (hy.size.trans_ne hy.size_ne)).trans ha.size.symm), fun h0 => ?_⟩
      have hfirst : firstBlock (rs ++ [r]) = firstBlock rs := by
        cases rs with
        | nil => exact absurd rfl hne
        | cons => rfl
      rw [hfirst] at h0
      have hfl := (ih h₀ _ (firstBlock_mem hne)).2.2.2 h0
      exact (hl h0).trans ((ha.same_start.resolve_left (hfl ▸ h0)).trans ha.start.symm)
    · obtain rfl := mem_singleton.1 hx
      exact ⟨ha.cluster.symm, ha.wal.symm, ha.size.symm, fun _ => ha.start.symm⟩

/-- **The identity of a stream is that of its first block.** -/
theorem acceptBlocks_first {m : BlockMeta} (h : acceptBlocks D peer {} rs = .ok m)
    (hne : rs ≠ []) :
    m.clusterName = (firstBlock rs).clusterName ∧ m.walFileName = (firstBlock rs).walName ∧
      m.segmentSize = (firstBlock rs).segmentSize := by
  obtain ⟨hc, hw, hs, -⟩ := acceptBlocks_fields h _ (firstBlock_mem hne)
  exact ⟨hc.symm, hw.symm, hs.symm⟩

theorem acceptBlocks_start (h : acceptBlocks D peer m rs = .ok m')
    (hne : rs ≠ []) : ∃ r ∈ rs, m'.walStartLSN = r.walStartLsn := by
  obtain ⟨r, hr, m₀, hlast⟩ := acceptBlocks_last h hne
  exact ⟨r, hr, hlast.start⟩

/-! ## The specification of a stream -/

/-- The file a block is written to. -/
def stagingPath (r : PutRequest) : Path := onBase withPartialSuffix (getWALArchivePath r.clusterName r.walName)

/-- The name it gets when it is complete. -/
def finalPath (r : PutRequest) : Path := onBase trimPartialSuffix (stagingPath r)

/-- The number of bytes is the declared one, as the handler counts. -/
def SizeReached (rs : List PutRequest) : Prop :=
  UInt64.ofNat (blocksPayload rs).length = (firstBlock rs).segmentSize

/-- The payload `p` is on disk. -/
def Durable (K : Codec) (rs : List PutRequest) (p : List UInt8) : Stage.Phase UInt8 → Prop
  | .staging _ d s => Image K (firstBlock rs).segmentSize (d.take s) p
  | .closed d s => Image K (firstBlock rs).segmentSize (d.take s) p
  | .done => p = blocksPayload rs
  | _ => False

/-- A flush position that may be reported: that of a part of the payload that is on disk, or zero
by a stream without blocks. -/
def MayReport (K : Codec) (rs : List PutRequest) (flushLsn : UInt64) (ph : Stage.Phase UInt8) : Prop :=
  rs = [] ∧ flushLsn = 0 ∨
    ∃ p, ∃ r ∈ rs, flushLsn = UInt64.ofNat p.length + r.walStartLsn ∧ p <+: blocksPayload rs ∧
      (p = [] ∨ Durable K rs p ph)

/-- **The specification of a `Put` stream.** -/
def putSpec (D : Deps) (K : Codec) (peer : Peer) (rs : List PutRequest) : Stage.Spec Name UInt8 Msg where
  stg := stagingPath (firstBlock rs)
  fin := finalPath (firstBlock rs)
  Pub d s := Image K (firstBlock rs).segmentSize d (blocksPayload rs) ∧ s = d.length ∧ SizeReached rs ∧
    ∃ m, acceptBlocks D peer {} rs = .ok m
  Msg m ph := match m with
    | .setFeedback _ flushLsn => MayReport K rs flushLsn ph
    | .putResult _ flushLsn => MayReport K rs flushLsn ph
    | _ => True

/-- Where a stream that has not failed ends. -/
def Ended (K : Codec) (rs : List PutRequest) (ph : Stage.Phase UInt8) : Prop :=
  rs = [] ∧ ph = .start ∨
    (∃ d, ph = .closed d d.length ∧ Image K (firstBlock rs).segmentSize d (blocksPayload rs) ∧ ¬ SizeReached rs) ∨
    SizeReached rs ∧ ph = .done

/-- Why a stream may fail: a file operation, a block or the random source; or it was done. -/
def Stopped (D : Deps) (K : Codec) (rand : ℕ → ℕ) (peer : Peer) (rs : List PutRequest) (ph : Stage.Phase UInt8) : Prop :=
  ph = .broken ∨ (¬ ∃ m, acceptBlocks D peer {} rs = .ok m) ∨ ¬ Draws K rand ∨ Ended K rs ph

variable {rs : List PutRequest}

/-- The handler has its writer, which was given `p`; the part `s` of the file is synced. -/
def Opened (K : Codec) (rand : ℕ → ℕ) (rs : List PutRequest) (p s : List UInt8) (h : PutHandler)
    (ph : Stage.Phase UInt8) : Prop :=
  ∃ w, h.walBuffer = some w ∧ w.walFilePath = stagingPath (firstBlock rs) ∧
    (Draws K rand → Draws K w.inner.rand) ∧ Good K (firstBlock rs).segmentSize p s w.inner ph

/-- The handler has accepted `acc`: nothing is opened before the first block. -/
def Position (K : Codec) (rand : ℕ → ℕ) (rs acc : List PutRequest) (p s : List UInt8) (h : PutHandler)
    (ph : Stage.Phase UInt8) : Prop :=
  acc = [] ∧ h.walBuffer = none ∧ ph = .start ∧ p = [] ∧ s = [] ∨ acc ≠ [] ∧ Opened K rand rs p s h ph

theorem newWriter_sat (opts : WriterOptions) {sp : Stage.Spec Name UInt8 Msg}
    (hp : sp.stg = onBase withPartialSuffix (getWALArchivePath opts.clusterName opts.walName)) :
    (newWriter K rand opts : FsProg Msg Writer).Sat (proto sp)
      (fun w ph => w.walFilePath = sp.stg ∧ w.inner.rand = rand ∧ Good K opts.segmentSize [] [] w.inner ph)
      (fun _ ph => ph = .broken) .start := by
  unfold newWriter
  simp only [← hp]
  refine sat_bind (newDirectWriterAtPath_sat rand opts) ?_
  intro w ph hw
  exact ⟨rfl, hw.2, hw.1⟩

variable {h : PutHandler}

theorem openWriter_sat (hm : acceptBlocks D peer {} [firstBlock rs] = .ok h.blockMeta)
    (hb : h.walBuffer = none) :
    (h.openWriter K rand).Sat (proto (putSpec D K peer rs))
      (fun h' ph => h' = { h with walBuffer := h'.walBuffer } ∧ Opened K rand rs [] [] h' ph)
      (fun _ ph => Stopped D K rand peer rs ph) .start := by
  obtain ⟨hc, hw, hs⟩ := acceptBlocks_first hm (by simp)
  have hfirst : firstBlock [firstBlock rs] = firstBlock rs := rfl
  rw [hfirst] at hc hw hs
  unfold PutHandler.openWriter
  rw [hb]
  set opts : WriterOptions := ⟨h.blockMeta.clusterName, h.blockMeta.walFileName, h.blockMeta.segmentSize,
    putWriteBufferSize⟩ with hopts
  have hp : (putSpec D K peer rs).stg = onBase withPartialSuffix (getWALArchivePath opts.clusterName opts.walName) := by
    simp only [hopts, hc, hw]; rfl
  refine sat_bind (Q := Prog.Ends _ _) (sat_attempt (newWriter_sat opts hp)) ?_
  intro r ph hr
  rcases r with e | w
  · exact .inl hr
  obtain ⟨hpath, hrand, hgood⟩ := hr
  refine ⟨rfl, w, rfl, hpath, by rw [hrand]; exact id, ?_⟩
  rw [← hs]; exact hgood

/-- **Validating a batch**: every block is accepted, and the writer is open after the first. -/
theorem validateBlocks_sat (p s : List UInt8) : ∀ (bs acc : List PutRequest) (h : PutHandler) (ph : Stage.Phase UInt8),
    (acc ++ bs) <+: rs → acceptBlocks D peer {} acc = .ok h.blockMeta → Position K rand rs acc p s h ph →
    (PutHandler.validateBlocks D K rand peer h bs).Sat (proto (putSpec D K peer rs))
      (fun h' ph' => acceptBlocks D peer {} (acc ++ bs) = .ok h'.blockMeta ∧ h'.writtenBytes = h.writtenBytes ∧
        h'.flushedBytes = h.flushedBytes ∧ Position K rand rs (acc ++ bs) p s h' ph')
      (fun _ ph => Stopped D K rand peer rs ph) ph := by
  intro bs
  induction bs with
  | nil =>
    intro acc h ph _ hm hpos
    rw [append_nil]
    exact ⟨hm, rfl, rfl, hpos⟩
  | cons r bs ih =>
    intro acc h ph hpre hm hpos
    obtain ⟨later, hrs⟩ := id hpre
    have hone : acceptBlocks D peer {} (acc ++ [r]) = acceptBlocks D peer h.blockMeta [r] := acceptBlocks_append hm [r]
    unfold PutHandler.validateBlocks PutHandler.validateBlock
    rcases hr : acceptBlock D peer h.blockMeta r with e | m
    · -- the stream holds a block that is not accepted
      refine .inr (.inl ?_)
      rintro ⟨m, hall⟩
      rw [← hrs, append_assoc, acceptBlocks_append hm, cons_append, acceptBlocks, hr] at hall
      cases hall
    have hm' : acceptBlocks D peer {} (acc ++ [r]) = .ok m := by rw [hone, acceptBlocks, hr]; rfl
    have happ : acc ++ [r] ++ bs = acc ++ r :: bs := by simp
    have hrest : ∀ h' ph', h'.blockMeta = m → h'.writtenBytes = h.writtenBytes → h'.flushedBytes = h.flushedBytes →
        Opened K rand rs p s h' ph' →
        (PutHandler.validateBlocks D K rand peer h' bs).Sat (proto (putSpec D K peer rs))
          (fun h' ph' => acceptBlocks D peer {} (acc ++ r :: bs) = .ok h'.blockMeta ∧
            h'.writtenBytes = h.writtenBytes ∧ h'.flushedBytes = h.flushedBytes ∧
            Position K rand rs (acc ++ r :: bs) p s h' ph')
          (fun _ ph => Stopped D K rand peer rs ph) ph' := by
      intro h' ph' hmeta hwr hfl ho
      have := ih (acc ++ [r]) h' ph' (by rwa [happ]) (by rw [hmeta]; exact hm') (.inr ⟨by simp, ho⟩)
      rwa [happ, hwr, hfl] at this
    rcases hpos with ⟨rfl, hb, rfl, rfl, rfl⟩ | ⟨-, ho⟩
    · have hfirst : firstBlock rs = r := by rw [← hrs]; rfl
      refine sat_bind (openWriter_sat (h := { h with blockMeta := m }) (by rw [hfirst]; exact hm') hb) ?_
      rintro h' ph' ⟨hh, ho⟩
      exact hrest h' ph' (by rw [hh]) (by rw [hh]) (by rw [hh]) ho
    · obtain ⟨w, hb, hw⟩ := ho
      have hopen : ({ h with blockMeta := m } : PutHandler).openWriter K rand = .ret { h with blockMeta := m } := by
        unfold PutHandler.openWriter; simp only [hb]
      dsimp only
      rw [hopen, Prog.ret_bind]
      exact hrest _ ph rfl rfl rfl ⟨w, hb, hw⟩

/-! ## One batch -/

variable {ph : Stage.Phase UInt8}

theorem withBuffer_sat {w : Writer} (hb : h.walBuffer = some w) {text : String}
    {f : Writer → FsProg Msg (Writer × Except Err Unit)} {Q : Writer → Stage.Phase UInt8 → Prop}
    (hf : (f w).Sat (proto (putSpec D K peer rs)) (fun out ph => match out.2 with
      | .ok _ => Q out.1 ph
      | .error _ => Stopped D K rand peer rs ph) (fun _ ph => Stopped D K rand peer rs ph) ph) :
    (h.withBuffer text f).Sat (proto (putSpec D K peer rs))
      (fun h' ph => ∃ w', h' = { h with walBuffer := some w' } ∧ Q w' ph)
      (fun _ ph => Stopped D K rand peer rs ph) ph := by
  unfold PutHandler.withBuffer
  rw [hb]
  refine sat_bind hf ?_
  rintro ⟨w', r⟩ ph hr
  cases r with
  | ok _ => exact ⟨w', rfl, hr⟩
  | error e => exact hr

theorem writeBlock_put_sat {p s : List UInt8}
    (ho : Opened K rand rs p s h ph) (data : List UInt8) :
    (h.writeBlock K data).Sat (proto (putSpec D K peer rs))
      (fun h' ph => h' = { h with walBuffer := h'.walBuffer } ∧ Opened K rand rs (p ++ data) s h' ph)
      (fun _ ph => Stopped D K rand peer rs ph) ph := by
  obtain ⟨w, hb, hpath, hdr, hgood⟩ := ho
  have hw : (w.writeBlock K data).Sat (proto (putSpec D K peer rs)) (fun out ph => match out.2 with
      | .ok _ => out.1.walFilePath = w.walFilePath ∧ (Draws K rand → Draws K out.1.inner.rand) ∧
          Good K (firstBlock rs).segmentSize (p ++ data) s out.1.inner ph
      | .error _ => Stopped D K rand peer rs ph) (fun _ ph => Stopped D K rand peer rs ph) ph := by
    refine sat_bind (writeBlock_sat hgood data) ?_
    rintro ⟨inner, r⟩ ph hr
    cases r with
    | ok _ => exact ⟨rfl, fun hd => hr.2 (hdr hd), hr.1⟩
    | error e =>
      rcases hr with ⟨hr, -⟩ | ⟨hnd, -⟩
      · exact .inl hr
      · exact .inr (.inr (.inl fun hd => hnd (hdr hd)))
  refine sat_mono (withBuffer_sat (Q := fun w' ph => w'.walFilePath = w.walFilePath ∧
    (Draws K rand → Draws K w'.inner.rand) ∧ Good K _ (p ++ data) s w'.inner ph) hb hw) ?_ fun _ _ hx => hx
  rintro h' ph ⟨w', rfl, hp', hdr', hgood'⟩
  exact ⟨rfl, w', rfl, hp'.trans hpath, hdr', hgood'⟩

/-- The handler has its writer, and everything it was given is synced. -/
def Settled (K : Codec) (rand : ℕ → ℕ) (rs : List PutRequest) (p : List UInt8) (h : PutHandler)
    (ph : Stage.Phase UInt8) : Prop :=
  ∃ w, h.walBuffer = some w ∧ w.walFilePath = stagingPath (firstBlock rs) ∧
    (Draws K rand → Draws K w.inner.rand) ∧ Flushed K (firstBlock rs).segmentSize p w.inner ph

theorem flushBuffer_sat {p s : List UInt8}
    (ho : Opened K rand rs p s h ph) :
    h.flushBuffer.Sat (proto (putSpec D K peer rs))
      (fun h' ph => h' = { h with walBuffer := h'.walBuffer } ∧ Settled K rand rs p h' ph)
      (fun _ ph => Stopped D K rand peer rs ph) ph := by
  obtain ⟨w, hb, hpath, hdr, hgood⟩ := ho
  have hw : w.flush.Sat (proto (putSpec D K peer rs)) (fun out ph => match out.2 with
      | .ok _ => out.1.walFilePath = w.walFilePath ∧ out.1.inner.rand = w.inner.rand ∧
          Flushed K (firstBlock rs).segmentSize p out.1.inner ph
      | .error _ => Stopped D K rand peer rs ph) (fun _ ph => Stopped D K rand peer rs ph) ph := by
    refine sat_bind (flush_sat hgood) ?_
    rintro ⟨inner, r⟩ ph hr
    cases r with
    | ok _ => exact ⟨rfl, hr.2, hr.1⟩
    | error e => exact .inl hr
  refine sat_mono (withBuffer_sat (Q := fun w' ph => w'.walFilePath = w.walFilePath ∧
    w'.inner.rand = w.inner.rand ∧ Flushed K _ p w'.inner ph) hb hw) ?_ fun _ _ hx => hx
  rintro h' ph ⟨w', rfl, hp', hrand, hfl⟩
  exact ⟨rfl, w', rfl, hp'.trans hpath, by rw [hrand]; exact hdr, hfl⟩

theorem feedback_sat
    (hr : MayReport K rs (h.flushedBytes + h.blockMeta.walStartLSN) ph) {X : Err → Stage.Phase UInt8 → Prop} :
    h.feedback.Sat (proto (putSpec D K peer rs)) (fun _ ph' => ph' = ph) X ph := by
  unfold PutHandler.feedback setFeedback
  split
  · rfl
  · exact sat_call hr fun _ => rfl

/-- Between batches: `acc` is accepted, counted and on disk. -/
structure Between (D : Deps) (K : Codec) (rand : ℕ → ℕ) (peer : Peer) (rs acc : List PutRequest) (h : PutHandler)
    (ph : Stage.Phase UInt8) : Prop where
  accepted : acceptBlocks D peer {} acc = .ok h.blockMeta
  written : h.writtenBytes = UInt64.ofNat (blocksPayload acc).length
  flushed : h.flushedBytes = UInt64.ofNat (blocksPayload acc).length
  writer : acc = [] ∧ h.walBuffer = none ∧ ph = .start ∨ acc ≠ [] ∧ Settled K rand rs (blocksPayload acc) h ph

variable {acc : List PutRequest}

theorem Between.position
    (hb : Between D K rand peer rs acc h ph) :
    ∃ s, (blocksPayload acc = [] ∨ Image K (firstBlock rs).segmentSize s (blocksPayload acc)) ∧
      Position K rand rs acc (blocksPayload acc) s h ph := by
  rcases hb.writer with ⟨rfl, hw, hph⟩ | ⟨hne, w, hw, hp, hdr, hfl⟩
  · exact ⟨[], .inl rfl, .inl ⟨rfl, hw, hph, rfl, rfl⟩⟩
  · obtain ⟨s, him, hgood⟩ := hfl.good
    exact ⟨s, .inr him, .inr ⟨hne, w, hw, hp, hdr, hgood⟩⟩

theorem blocksPayload_append (a b : List PutRequest) : blocksPayload (a ++ b) = blocksPayload a ++ blocksPayload b :=
  flatMap_append

theorem mayReport_of {m : BlockMeta} {p : List UInt8}
    (hpre : acc <+: rs) (hne : acc ≠ []) (hm : acceptBlocks D peer {} acc = .ok m)
    (hp : p <+: blocksPayload rs) (hd : p = [] ∨ Durable K rs p ph) :
    MayReport K rs (ofNat p.length + m.walStartLSN) ph := by
  obtain ⟨r, hr, hs⟩ := acceptBlocks_start hm hne
  exact .inr ⟨p, r, hpre.subset hr, by rw [hs], hp, hd⟩

theorem blocksPayload_mono {a b : List PutRequest} (h : a <+: b) : blocksPayload a <+: blocksPayload b := by
  obtain ⟨c, rfl⟩ := h
  rw [blocksPayload_append]; exact prefix_append _ _

theorem count_next (acc : List PutRequest) (batch : Batch) :
    ofNat (blocksPayload acc).length + ofNat (batch.blocks.flatMap PutRequest.walBlock).length =
      ofNat (blocksPayload (acc ++ batch.blocks)).length := by
  rw [← ofNat_add, blocksPayload_append, length_append]; rfl

theorem Between.next {h h₁ h₂ h₄ : PutHandler} {ph ph' : Stage.Phase UInt8} {batch : Batch}
    (hb : Between D K rand peer rs acc h ph) (hacc : acceptBlocks D peer {} (acc ++ batch.blocks) = .ok h₁.blockMeta)
    (hwr : h₁.writtenBytes = h.writtenBytes) (hfl : h₁.flushedBytes = h.flushedBytes)
    (hh₂ : h₂ = { h₁ with walBuffer := h₂.walBuffer })
    (hh₄ : h₄ = { h₂ with
      writtenBytes := h₂.writtenBytes + ofNat (batch.blocks.flatMap PutRequest.walBlock).length, walBuffer := h₄.walBuffer })
    (hset : Settled K rand rs (blocksPayload acc ++ batch.blocks.flatMap PutRequest.walBlock) h₄ ph') :
    Between D K rand peer rs (acc ++ batch.blocks)
      { h₄ with flushedBytes := h₄.flushedBytes + ofNat (batch.blocks.flatMap PutRequest.walBlock).length } ph' where
  accepted := by
    have hbm : h₄.blockMeta = h₁.blockMeta := by rw [hh₄, hh₂]
    exact hbm ▸ hacc
  written := by
    rw [hh₄, hh₂, ← count_next, ← hb.written, ← hwr]
  flushed := by
    show h₄.flushedBytes + _ = _
    rw [hh₄, hh₂, ← count_next, ← hb.flushed, ← hfl]
  writer := by
    have hpay : blocksPayload acc ++ batch.blocks.flatMap PutRequest.walBlock = blocksPayload (acc ++ batch.blocks) := by
      rw [blocksPayload_append]; rfl
    rw [hpay] at hset
    exact .inr ⟨by simp [Batch.blocks], hset⟩

/-- **One batch**: its blocks are accepted, written, flushed and counted. -/
theorem processBatch_sat {batch : Batch}
    (hpre : (acc ++ batch.blocks) <+: rs) (hb : Between D K rand peer rs acc h ph) :
    (h.processBatch D K rand peer batch).Sat (proto (putSpec D K peer rs))
      (fun h' ph' => Between D K rand peer rs (acc ++ batch.blocks) h' ph')
      (fun _ ph => Stopped D K rand peer rs ph) ph := by
  obtain ⟨s, hsynced, hpos⟩ := hb.position
  have hne : acc ++ batch.blocks ≠ [] := by simp [Batch.blocks]
  refine sat_bind (validateBlocks_sat _ s batch.blocks acc h ph hpre hb.accepted hpos) ?_
  rintro h₁ ph₁ ⟨hacc, hwr, hfl, hpos₁⟩
  obtain ⟨-, ho⟩ := hpos₁.resolve_left fun h0 => hne h0.1
  refine sat_bind (writeBlock_put_sat ho _) ?_
  rintro h₂ ph₂ ⟨hh₂, ho₂⟩
  -- what was synced before the batch may be reported now
  have hrep₂ : MayReport K rs (h₂.flushedBytes + h₂.blockMeta.walStartLSN) ph₂ := by
    rw [hh₂, hfl, hb.flushed]
    refine mayReport_of hpre hne hacc (blocksPayload_mono ((prefix_append _ _).trans hpre)) ?_
    rcases hsynced with h0 | him
    · exact .inl h0
    · obtain ⟨w, -, -, -, -, d, rfl, hsd, -⟩ := ho₂
      right
      show Image K _ (d.take s.length) _
      rwa [← prefix_iff_eq_take.1 hsd]
  refine sat_bind (feedback_sat (by exact hrep₂)) ?_
  rintro - ph₃ rfl
  refine sat_bind (flushBuffer_sat (by exact ho₂)) ?_
  rintro h₄ ph₄ ⟨hh₄, hset⟩
  have hnext := hb.next hacc hwr hfl hh₂ hh₄ hset
  have hrep₄ : MayReport K rs (h₄.flushedBytes + ofNat (batch.blocks.flatMap PutRequest.walBlock).length +
      h₄.blockMeta.walStartLSN) ph₄ := by
    have hcount := hnext.flushed
    dsimp only at hcount
    rw [hcount]
    refine mayReport_of hpre hne hnext.accepted (blocksPayload_mono hpre) (.inr ?_)
    obtain ⟨w, -, -, -, -, -, d, rfl, him⟩ := (hnext.writer.resolve_left fun h0 => hne h0.1).2
    show Image K _ (d.take d.length) _
    rwa [take_length]
  refine sat_bind (feedback_sat (by exact hrep₄)) ?_
  rintro - ph₅ rfl
  exact hnext

/-! ## The end of a stream -/

theorem send_sat {text : String} {m : Msg} (hm : (putSpec D K peer rs).Msg m ph)
    (he : Ended K rs ph) :
    (PutHandler.send text m).Sat (proto (putSpec D K peer rs)) (fun _ ph' => ph' = ph)
      (fun _ ph => Stopped D K rand peer rs ph) ph := by
  refine sat_call hm fun (r : Except FsErr Unit) => ?_
  cases r with
  | ok _ => exact rfl
  | error e => exact .inr (.inr (.inr he))

theorem notifyTier2_sat (he : Ended K rs ph) :
    (h.notifyTier2 I).Sat (proto (putSpec D K peer rs)) (fun _ ph => Ended K rs ph)
      (fun _ ph => Stopped D K rand peer rs ph) ph := by
  have hstop : Stopped D K rand peer rs ph := .inr (.inr (.inr he))
  unfold PutHandler.notifyTier2
  split
  · exact he
  split
  · exact hstop
  split
  · exact hstop
  · refine sat_mono (send_sat trivial he) ?_ fun _ _ hx => hx
    rintro - ph' rfl
    exact he

/-- **Closing the file of a stream**: it is published exactly when the size is reached. -/
theorem closeBuffer_sat (hb : Between D K rand peer rs rs h ph)
    (hne : rs ≠ []) :
    h.closeBuffer.Sat (proto (putSpec D K peer rs))
      (fun h' ph => h' = { h with walBuffer := h'.walBuffer } ∧ ph ≠ .start ∧ Ended K rs ph ∧
        ∃ w, h'.walBuffer = some w ∧ (ph = .done → w.walFilePath = finalPath (firstBlock rs)) ∧
          (ph ≠ .done → w.walFilePath = stagingPath (firstBlock rs)))
      (fun _ ph => Stopped D K rand peer rs ph) ph := by
  obtain ⟨w, hw, hpath, -, he, hbuf, d, rfl, him⟩ := (hb.writer.resolve_left fun h0 => hne h0.1).2
  have hsize := (acceptBlocks_first hb.accepted hne).2.2
  have hclose : w.inner.close.Sat (proto (putSpec D K peer rs)) (fun out ph => match out.2 with
      | .ok _ => ph = .closed d d.length
      | .error _ => ph = .broken) (fun _ ph => Stopped D K rand peer rs ph) (.staging w.inner.buffer.fd d d.length) := by
    refine sat_mono (close_sat he) ?_ fun _ _ hx => hx
    rw [hbuf, append_nil]
    exact fun _ _ hq => hq
  unfold PutHandler.closeBuffer
  split
  · rename_i hdone
    have hreached : SizeReached rs := by
      have := beq_iff_eq.1 hdone
      rwa [hb.flushed, hsize] at this
    have hmark : w.closeMarkDone.Sat (proto (putSpec D K peer rs)) (fun out ph => match out.2 with
        | .ok _ => ph = .done ∧ out.1.walFilePath = finalPath (firstBlock rs)
        | .error _ => Stopped D K rand peer rs ph) (fun _ ph => Stopped D K rand peer rs ph)
        (.staging w.inner.buffer.fd d d.length) := by
      refine sat_bind hclose ?_
      rintro ⟨inner, r⟩ ph hr
      rcases r with e | _
      · exact .inl hr
      obtain rfl : ph = .closed d d.length := hr
      have hfin : onBase trimPartialSuffix w.walFilePath = (putSpec D K peer rs).fin := by rw [hpath]; rfl
      refine sat_call ⟨d, d.length, rfl, ⟨him, rfl, hreached, h.blockMeta, hb.accepted⟩, hpath, hfin⟩ ?_
      intro (r : Except FsErr Unit)
      cases r with
      | ok _ => exact ⟨rfl, hfin⟩
      | error e => exact .inl rfl
    refine sat_mono (withBuffer_sat (Q := fun w ph => ph = .done ∧ w.walFilePath = finalPath (firstBlock rs)) hw hmark) ?_
      fun _ _ hx => hx
    rintro h' ph ⟨w', rfl, rfl, hpath'⟩
    exact ⟨rfl, by simp, .inr (.inr ⟨hreached, rfl⟩), w', rfl, fun _ => hpath', fun hno => absurd rfl hno⟩
  · rename_i hdone
    have hshort : ¬ SizeReached rs := by
      intro hs
      apply hdone
      unfold PutHandler.isCompleted
      rw [hb.flushed, hsize]
      exact beq_iff_eq.2 hs
    have hcl : w.close.Sat (proto (putSpec D K peer rs)) (fun out ph => match out.2 with
        | .ok _ => ph = .closed d d.length ∧ out.1.walFilePath = w.walFilePath
        | .error _ => Stopped D K rand peer rs ph) (fun _ ph => Stopped D K rand peer rs ph)
        (.staging w.inner.buffer.fd d d.length) := by
      refine sat_bind hclose ?_
      rintro ⟨inner, r⟩ ph hr
      cases r with
      | ok _ => exact ⟨hr, rfl⟩
      | error e => exact .inl hr
    refine sat_mono (withBuffer_sat (Q := fun w' ph => ph = .closed d d.length ∧ w'.walFilePath = w.walFilePath) hw hcl) ?_
      fun _ _ hx => hx
    rintro h' ph ⟨w', rfl, rfl, hpath'⟩
    exact ⟨rfl, by simp, .inr (.inl ⟨d, rfl, him, hshort⟩), w', rfl, nofun,
      fun _ => hpath'.trans hpath⟩

theorem Ended.durable (he : Ended K rs ph) (hst : ph ≠ .start) :
    Durable K rs (blocksPayload rs) ph := by
  rcases he with ⟨-, h0⟩ | ⟨d, rfl, him, -⟩ | ⟨-, rfl⟩
  · exact absurd h0 hst
  · show Image K _ (d.take d.length) _
    rwa [take_length]
  · exact rfl

/-- **`finalize`** closes the file and reports what is on disk. -/
theorem finalize_sat (hb : Between D K rand peer rs rs h ph) :
    (h.finalize I).Sat (proto (putSpec D K peer rs)) (fun _ ph => Ended K rs ph)
      (fun _ ph => Stopped D K rand peer rs ph) ph := by
  unfold PutHandler.finalize
  rcases hb.writer with ⟨hrs, hw, rfl⟩ | ⟨hne, w, hw, -⟩
  · rw [hw]
    have he : Ended K rs .start := .inl ⟨hrs, rfl⟩
    refine sat_mono (send_sat (.inl ⟨hrs, rfl⟩) he) ?_ fun _ _ hx => hx
    rintro - ph' rfl
    exact he
  · rw [hw]
    refine sat_bind (closeBuffer_sat hb hne) ?_
    rintro h' ph' ⟨hh, hst, he, -⟩
    have hrep : MayReport K rs (h'.flushedBytes + h'.blockMeta.walStartLSN) ph' := by
      rw [hh, hb.flushed]
      exact mayReport_of prefix_rfl hne hb.accepted prefix_rfl (.inr (he.durable hst))
    refine sat_bind (send_sat hrep he) ?_
    rintro - ph'' rfl
    exact notifyTier2_sat he

theorem run_sat_from : ∀ (batches : List Batch) (acc : List PutRequest) (h : PutHandler) (ph : Stage.Phase UInt8),
    acc ++ streamBlocks batches = rs → Between D K rand peer rs acc h ph →
    (PutHandler.run D K I rand peer h batches).Sat (proto (putSpec D K peer rs))
      (fun _ ph => Ended K rs ph) (fun _ ph => Stopped D K rand peer rs ph) ph := by
  intro batches
  induction batches with
  | nil =>
    intro acc h ph hrs hb
    have hrs : acc = rs := by simpa [streamBlocks] using hrs
    subst hrs
    exact finalize_sat hb
  | cons batch batches ih =>
    intro acc h ph hrs hb
    have hsplit : acc ++ batch.blocks ++ streamBlocks batches = rs := by
      rw [← hrs, append_assoc]; rfl
    refine sat_bind (processBatch_sat ⟨_, hsplit⟩ hb) ?_
    intro h' ph' hb'
    exact ih _ h' ph' hsplit hb'

/-- **`Put` keeps the staging protocol**, whatever the batches, the answers of the file system
and the random source. -/
theorem run_sat (batches : List Batch) :
    (PutHandler.run D K I rand peer {} batches).Sat (proto (putSpec D K peer (streamBlocks batches)))
      (fun _ ph => Ended K (streamBlocks batches) ph)
      (fun _ ph => Stopped D K rand peer (streamBlocks batches) ph) .start :=
  run_sat_from batches [] {} .start rfl ⟨rfl, rfl, rfl, .inl ⟨rfl, rfl, rfl⟩⟩

theorem put_sat (batches : List Batch) :
    (put D K I rand peer batches).Sat (proto (putSpec D K peer (streamBlocks batches)))
      (fun _ _ => True) (fun _ _ => True) .start := by
  unfold put
  split
  · trivial
  · exact sat_mono (run_sat batches) (fun _ _ _ => trivial) fun _ _ _ => trivial

end Klio

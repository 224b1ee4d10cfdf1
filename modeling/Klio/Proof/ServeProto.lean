import Klio.Model.Serve
import Klio.Proof.PutSpec

/-!
# How the goroutines of a `Put` call proceed

The handler leaves a position only for what was flushed, and sends one itself only after the sender
has ended; the sender sends what it has loaded.

* `Mute`: the writer sends no messages, so that what it does leaves the phase alone (`onFiles_sat`).
* `HandlerPh`, `SenderPh`: the phases; `handlerProto`, `senderProto`: what is done in them.
* `servePut_sat`, `sendLoop_sat`: the goroutines proceed so.
* `identity_kept_iff`: when the blocks of a stream and the positions that are reported have one start position.
-/

namespace Klio

open Lib Prog UInt64

variable {D : Deps} {K : Codec} {I : Implementation} {rand : ℕ → ℕ} {peer : Peer} {start : UInt64}

/-! ## Programs that send nothing -/

/-- Not a message. -/
def Mute : FsOp Name UInt8 Msg → Prop
  | .emit _ => False
  | _ => True

variable {o : FsOp Name UInt8 Msg}

theorem mute_of_isWrite (h : IsWrite o) : Mute o := by
  cases o <;> first | exact h.elim | trivial

theorem newWriter_mute (opts : WriterOptions) : (newWriter K rand opts : FsProg Msg Writer).Uses Mute := by
  -- the writer keeps a protocol without messages
  have hsat : (newWriter K rand opts : FsProg Msg Writer).Sat
      (Stage.proto ⟨onBase withPartialSuffix (getWALArchivePath opts.clusterName opts.walName), [], fun _ _ => False,
        fun _ _ => False⟩) _ _ .start := newWriter_sat opts rfl
  refine Prog.Sat.uses (fun ph o ha => ?_) hsat
  cases o with
  | emit m => exact ha.elim
  | _ => trivial

variable (w : DirectWriter)

theorem writeBlock_mute (data : List UInt8) : (w.writeBlock K data : FsProg Msg _).Uses Mute :=
  uses_mono (fun _ => mute_of_isWrite) (writeBlock_uses w data)

theorem bufioFlush_mute (b : Bufio UInt8) : (b.flush : FsProg Msg _).Uses Mute :=
  uses_mono (fun _ => mute_of_isWrite) (Bufio.flush_uses b)

theorem directFlush_mute : (w.flush : FsProg Msg _).Uses Mute := by
  refine uses_bind ?_ (bufioFlush_mute _)
  rintro ⟨b, r⟩
  rcases r with e | _
  · trivial
  refine ⟨trivial, fun (r : Except FsErr Unit) => ?_⟩
  cases r <;> trivial

theorem directClose_mute : (w.close : FsProg Msg _).Uses Mute := by
  refine uses_bind ?_ (bufioFlush_mute _)
  rintro ⟨b, r⟩
  rcases r with e | _
  · trivial
  refine ⟨trivial, fun (r : Except FsErr Unit) => ?_⟩
  cases r <;> trivial

theorem closeMarkDone_mute (w : Writer) : (w.closeMarkDone : FsProg Msg _).Uses Mute := by
  refine uses_bind ?_ (directClose_mute _)
  rintro ⟨inner, r⟩
  rcases r with e | _
  · trivial
  refine ⟨trivial, fun (r : Except FsErr Unit) => ?_⟩
  cases r <;> trivial

/-- Anything but messages. -/
def mutely : Proto (FsOp Name UInt8 Msg) FsOp.Res Unit := ⟨fun _ => Mute, fun _ _ _ => ()⟩

theorem withBuffer_mute (h : PutHandler) (text : String) {f : Writer → FsProg Msg (Writer × Except Err Unit)}
    (hf : ∀ w, (f w).Uses Mute) :
    (h.withBuffer text f).Sat mutely (fun h' _ => ∃ w, h' = { h with walBuffer := some w }) (fun _ _ => True) () := by
  unfold PutHandler.withBuffer
  split
  · trivial
  rename_i w _
  refine sat_bind ((hf w).sat (fun _ _ ho => ho) ()) ?_
  rintro ⟨w', r⟩ ph -
  cases r with
  | ok _ => exact ⟨w', rfl⟩
  | error e => trivial

/-- **Validating blocks** opens the writer, and leaves the counters alone. -/
theorem validateBlocks_mute : ∀ (bs : List PutRequest) (h : PutHandler),
    (PutHandler.validateBlocks D K rand peer h bs).Sat mutely
      (fun h' _ => acceptBlocks D peer h.blockMeta bs = .ok h'.blockMeta ∧
        (h'.flushedBytes = h.flushedBytes ∧ h'.writtenBytes = h.writtenBytes) ∧
        (bs ≠ [] ∨ h.walBuffer ≠ none → h'.walBuffer ≠ none)) (fun _ _ => True) () := by
  intro bs
  induction bs with
  | nil => intro h; exact ⟨rfl, ⟨rfl, rfl⟩, fun hopen => hopen.resolve_left fun hne => hne rfl⟩
  | cons b bs ih =>
    intro h
    unfold PutHandler.validateBlocks PutHandler.validateBlock
    rcases hb : acceptBlock D peer h.blockMeta b with e | m
    · trivial
    refine sat_bind (Q := fun h' _ => h'.blockMeta = m ∧ (h'.flushedBytes = h.flushedBytes ∧ h'.writtenBytes = h.writtenBytes) ∧
      h'.walBuffer ≠ none) ?_ ?_
    · unfold PutHandler.openWriter
      cases h.walBuffer with
      | some w =>
        exact sat_ret ⟨rfl, ⟨rfl, rfl⟩, by simp⟩
      | none =>
        refine sat_bind ((uses_attempt (newWriter_mute _)).sat (fun _ _ ho => ho) ()) ?_
        intro out ph _
        cases out with
        | ok w => exact ⟨rfl, ⟨rfl, rfl⟩, by simp⟩
        | error e => trivial
    · rintro h' ph ⟨hmeta, hcounts, hopen⟩
      refine sat_mono (ih h') ?_ fun _ _ ht => ht
      rintro h'' - ⟨haccept, hcounts', hopen'⟩
      refine ⟨?_, ⟨hcounts'.1.trans hcounts.1, hcounts'.2.trans hcounts.2⟩, fun _ => hopen' (.inr hopen)⟩
      rw [acceptBlocks, hb]
      rw [hmeta] at haccept
      exact haccept

theorem closeBuffer_mute (h : PutHandler) :
    h.closeBuffer.Sat mutely (fun h' _ => ∃ w, h' = { h with walBuffer := some w }) (fun _ _ => True) () := by
  unfold PutHandler.closeBuffer
  split
  · exact withBuffer_mute h _ fun w => closeMarkDone_mute w
  · exact withBuffer_mute h _ fun w => uses_map (directClose_mute w.inner)

/-! ## Phases -/

structure HandlerPh where
  /-- A block came with another start position. -/
  foreign : Bool := false
  flushed : List UInt8 := []
  /-- The payload that was drained and is not flushed yet. -/
  pending : List UInt8 := []
  stored : Bool := false
  /-- The sender has ended. -/
  stopped : Bool := false
  /-- The closing result was sent. -/
  final : Bool := false
  /-- `Drain` has returned an error. -/
  ended : Bool := false

def HandlerPh.position (start : UInt64) (ph : HandlerPh) : UInt64 := start + UInt64.ofNat ph.flushed.length

/-- What the handler does in a phase. -/
def handlerAllowed (start : UInt64) (ph : HandlerPh) : SrvOp → Prop
  | .drain => ph.pending = [] ∧ ph.ended = false
  | .files (.emit (.putResult _ f)) => ph.stopped = true ∧ ph.final = false ∧
      (ph.foreign = true ∨ f = ph.position start ∨ (f = 0 ∧ ph.stored = false))
  | .files _ => True
  | .flushed payload => payload = ph.pending
  | .storeFlush v => ph.stopped = false ∧ (ph.foreign = true ∨ v = ph.position start)
  | .storeWrite _ | .wake | .cancel | .awaitDone => True
  | .returned ok => ok = true → ph.ended = true ∧ ph.pending = []
  | _ => False

/-- The phase of the handler after an answer. -/
def handlerNext (start : UInt64) (ph : HandlerPh) : (o : SrvOp) → o.Res → HandlerPh
  | .drain, d => match (d : Drained) with
    | .batch b => { ph with foreign := ph.foreign || b.blocks.any (fun r => r.walStartLsn != start), pending := blocksPayload b.blocks }
    | .eof | .failed => { ph with ended := true }
  | .files (.emit (.putResult _ _)), _ => { ph with final := true }
  | .flushed payload, _ => { ph with flushed := ph.flushed ++ payload, pending := [] }
  | .storeFlush _, _ => { ph with stored := true }
  | .awaitDone, _ => { ph with stopped := true }
  | _, _ => ph

structure SenderPh where
  /-- The position it is about to send. -/
  loaded : Option UInt64 := none
  exited : Bool := false

/-- What the sender does in a phase. -/
def senderAllowed (ph : SenderPh) : SrvOp → Prop
  | .next | .closeDone => ph.loaded = none ∧ ph.exited = false
  | .loadWrite | .loadFlush => ph.exited = false
  | .files (.emit (.putResult _ f)) => ph.loaded = some f ∧ ph.exited = false
  | _ => False

/-- The phase of the sender after an answer. -/
def senderNext (ph : SenderPh) : (o : SrvOp) → o.Res → SenderPh
  | .loadFlush, v => { ph with loaded := some (v : UInt64) }
  | .files _, _ => { ph with loaded := none }
  | .closeDone, _ => { ph with exited := true }
  | _, _ => ph

def handlerProto (start : UInt64) : Proto SrvOp SrvOp.Res HandlerPh := ⟨handlerAllowed start, handlerNext start⟩

def senderProto : Proto SrvOp SrvOp.Res SenderPh := ⟨senderAllowed, senderNext⟩

/-! ## The handler -/

theorem files_mute (ho : Mute o) (start : UInt64) (ph : HandlerPh) :
    handlerAllowed start ph (.files o) ∧ ∀ r, handlerNext start ph (.files o) r = ph := by
  cases o <;> first | exact ho.elim | exact ⟨trivial, fun _ => rfl⟩

variable {ph : HandlerPh}

theorem onFiles_sat {α : Type} {p : FsProg Msg α} {Q : α → Prop} {X : Err → Prop}
    (hp : p.Sat mutely (fun a _ => Q a) (fun e _ => X e) ()) :
    (onFiles p).Sat (handlerProto start) (fun a ph' => Q a ∧ ph' = ph) (fun _ ph' => ph' = ph) ph := by
  induction p with
  | ret a => exact ⟨hp, rfl⟩
  | err e => exact rfl
  | call o k ih =>
    obtain ⟨hallowed, hnext⟩ := files_mute hp.1 start ph
    refine ⟨hallowed, fun r => ?_⟩
    show Prog.Sat _ _ _ _ (handlerNext start ph (.files o) r)
    rw [hnext r]
    exact ih r (hp.2 r)

variable {X : Err → HandlerPh → Prop}

theorem srv_sat_run {T : Proto SrvOp SrvOp.Res HandlerPh} {Q : Unit → HandlerPh → Prop} {o : SrvOp}
    {h : o.Res = Unit} (ha : T.allowed ph o) (hq : ∀ r, Q () (T.next ph o r)) : (SrvOp.run o h).Sat T Q X ph :=
  ⟨ha, hq⟩

theorem storeFeedback_sat {w f : UInt64} (hstop : ph.stopped = false)
    (hf : ph.foreign = true ∨ f = ph.position start) :
    (storeFeedback w f).Sat (handlerProto start) (fun _ ph' => ∃ b, ph' = { ph with stored := b }) X ph := by
  unfold storeFeedback
  split
  · exact sat_ret ⟨ph.stored, rfl⟩
  refine sat_bind (Q := fun _ ph' => ph' = ph) (srv_sat_run trivial fun _ => rfl) ?_
  rintro - ph' rfl
  refine sat_bind (Q := fun _ ph'' => ph'' = { ph' with stored := true }) (srv_sat_run ⟨hstop, hf⟩ fun _ => rfl) ?_
  rintro - ph'' rfl
  exact srv_sat_run trivial fun _ => ⟨true, rfl⟩

theorem stopFeedback_sat :
    stopFeedback.Sat (handlerProto start) (fun _ ph' => ph' = { ph with stopped := true }) X ph := by
  refine sat_bind (Q := fun _ ph' => ph' = ph) (srv_sat_run trivial fun _ => rfl) ?_
  rintro - ph' rfl
  exact srv_sat_run trivial fun _ => rfl

/-- **The handler between two batches.** -/
structure Serving (start : UInt64) (h : PutHandler) (ph : HandlerPh) : Prop where
  flushed : h.flushedBytes = UInt64.ofNat ph.flushed.length
  closed : h.walBuffer = none → ph.stored = false
  opened : h.walBuffer ≠ none → ph.foreign = true ∨ h.blockMeta.walStartLSN = start
  pending : ph.pending = []
  running : ph.stopped = false ∧ ph.final = false ∧ ph.ended = false

/-- A batch was not processed. -/
def Interrupted (ph : HandlerPh) : Prop := ph.stopped = false ∧ ph.final = false ∧ ph.ended = false

variable {h : PutHandler}

theorem Serving.position (hflushed : h.flushedBytes = ofNat ph.flushed.length)
    (hstart : h.blockMeta.walStartLSN = start) : h.flushedBytes + h.blockMeta.walStartLSN = ph.position start := by
  rw [hflushed, hstart, HandlerPh.position, UInt64.add_comm]

theorem accepted_start {m m' : BlockMeta} {b : Batch} (h : acceptBlocks D peer m b.blocks = .ok m') (start : UInt64) (foreign : Bool) :
    (foreign || b.blocks.any (fun r => r.walStartLsn != start)) = true ∨ m'.walStartLSN = start := by
  obtain ⟨r, hr, hs⟩ := acceptBlocks_start h (List.cons_ne_nil _ _)
  by_cases hstart : r.walStartLsn = start
  · exact .inr (hs.trans hstart)
  · refine .inl (Bool.or_eq_true_iff.mpr (.inr (List.any_eq_true.mpr ⟨r, hr, ?_⟩)))
    exact bne_iff_ne.mpr hstart

/-- **A batch**: its payload is pending when it was drained, and flushed when it is processed. -/
theorem processBatchWith_sat (hs : Serving start h ph) (b : Batch) :
    (h.processBatchWith onFiles storeFeedback (fun payload => SrvOp.run (.flushed payload) rfl) D K rand peer b).Sat (handlerProto start)
      (Serving start) (fun _ => Interrupted) (handlerNext start ph .drain (.batch b)) := by
  set ph₁ : HandlerPh := handlerNext start ph .drain (.batch b) with hph₁
  refine sat_bind (sat_mono (onFiles_sat (validateBlocks_mute b.blocks h)) (fun _ _ hq => hq) ?_) ?_
  · rintro e ph' rfl
    exact hs.running
  rintro h₁ ph' ⟨⟨haccept, ⟨hflushed₁, -⟩, hopen₁⟩, rfl⟩
  have hstart := accepted_start haccept start ph.foreign
  have hfl : h₁.flushedBytes = ofNat ph₁.flushed.length := hflushed₁.trans hs.flushed
  have hpos₁ : ph₁.foreign = true ∨ h₁.flushedBytes + h₁.blockMeta.walStartLSN = ph₁.position start :=
    hstart.imp id fun hst => Serving.position hfl hst
  -- the write leaves the counters alone
  refine sat_bind (sat_mono (onFiles_sat (withBuffer_mute h₁ _ fun w => uses_map (writeBlock_mute w.inner _)))
    (fun _ _ hq => hq) ?_) ?_
  · rintro e ph' rfl
    exact hs.running
  rintro h₂ ph' ⟨⟨w₂, rfl⟩, rfl⟩
  refine sat_bind (storeFeedback_sat hs.running.1 hpos₁) ?_
  rintro - ph₂ ⟨stored, rfl⟩
  refine sat_bind (sat_mono (onFiles_sat (withBuffer_mute _ _ fun w => uses_map (directFlush_mute w.inner)))
    (fun _ _ hq => hq) ?_) ?_
  · rintro e ph' rfl
    exact hs.running
  rintro h₃ ph' ⟨⟨w₃, rfl⟩, rfl⟩
  refine sat_bind (Q := fun _ ph' => ph' = { ph₁ with stored := stored, flushed := ph₁.flushed ++ ph₁.pending, pending := [] })
    (srv_sat_run rfl fun _ => rfl) ?_
  rintro - ph₃ rfl
  have hfl' : h₁.flushedBytes + ofNat (b.blocks.flatMap PutRequest.walBlock).length =
      ofNat (ph₁.flushed ++ ph₁.pending).length := by
    rw [hfl, List.length_append, ofNat_add]
    rfl
  have hpos₃ : ph₁.foreign = true ∨ h₁.flushedBytes + ofNat (b.blocks.flatMap PutRequest.walBlock).length +
      h₁.blockMeta.walStartLSN = start + ofNat (ph₁.flushed ++ ph₁.pending).length :=
    hstart.imp id fun hst => by rw [hfl', hst, UInt64.add_comm]
  refine sat_bind (storeFeedback_sat hs.running.1 hpos₃) ?_
  rintro - ph₄ ⟨stored', rfl⟩
  exact sat_ret ⟨hfl', nofun, fun _ => hstart, rfl, hs.running⟩

theorem send_walTask_sat {text : String} {c w : Name} :
    (onFiles (PutHandler.send text (.walTask c w))).Sat (handlerProto start) (fun _ ph' => ph' = ph) (fun _ ph' => ph' = ph) ph := by
  refine sat_call trivial fun (r : Except FsErr Unit) => ?_
  cases r with
  | ok _ => exact rfl
  | error e => exact rfl

theorem send_putResult_sat {text : String} {w f : UInt64} (hstop : ph.stopped = true) (hfinal : ph.final = false)
    (hf : ph.foreign = true ∨ f = ph.position start ∨ (f = 0 ∧ ph.stored = false)) :
    (onFiles (PutHandler.send text (.putResult w f))).Sat (handlerProto start) (fun _ ph' => ph' = { ph with final := true })
      (fun _ ph' => ph' = { ph with final := true }) ph := by
  refine sat_call ⟨hstop, hfinal, hf⟩ fun (r : Except FsErr Unit) => ?_
  cases r with
  | ok _ => exact rfl
  | error e => exact rfl

theorem onFiles_bind {α β : Type} (p : FsProg Msg α) (f : α → FsProg Msg β) :
    onFiles (p.bind f) = (onFiles p).bind fun a => onFiles (f a) := by
  induction p with
  | ret a => rfl
  | err e => rfl
  | call o k ih =>
    show Prog.call (SrvOp.files o) _ = Prog.call (SrvOp.files o) _
    congr 1
    funext r
    exact ih r

/-- **The end of a call**: one result, of what is flushed. -/
theorem finalize_sat' (hs : Serving start h { ph with stopped := false, ended := false })
    (hstop : ph.stopped = true) :
    (onFiles (h.finalize I)).Sat (handlerProto start) (fun _ ph' => ph'.ended = ph.ended ∧ ph'.pending = [])
      (fun _ ph' => ph'.ended = ph.ended ∧ ph'.pending = []) ph := by
  have hfinal : ph.final = false := hs.running.2.1
  unfold PutHandler.finalize
  split
  · rename_i hnone
    refine sat_mono (send_putResult_sat hstop hfinal (.inr (.inr ⟨rfl, hs.closed hnone⟩))) ?_ ?_
    · rintro - ph' rfl
      exact ⟨rfl, hs.pending⟩
    · rintro - ph' rfl
      exact ⟨rfl, hs.pending⟩
  · rename_i w hw
    have hopen : h.walBuffer ≠ none := fun hno => by cases hw.symm.trans hno
    rw [onFiles_bind]
    refine sat_bind (sat_mono (onFiles_sat (closeBuffer_mute h)) (fun _ _ hq => hq) ?_) ?_
    · rintro e ph' rfl
      exact ⟨rfl, hs.pending⟩
    rintro h' ph' ⟨⟨w', rfl⟩, rfl⟩
    rw [onFiles_bind]
    have hpos : ph'.foreign = true ∨ h.flushedBytes + h.blockMeta.walStartLSN = ph'.position start :=
      (hs.opened hopen).imp id fun hst => Serving.position hs.flushed hst
    refine sat_bind (sat_mono (send_putResult_sat hstop hfinal (hpos.imp id .inl)) (fun _ _ hq => hq) ?_) ?_
    · rintro e ph'' rfl
      exact ⟨rfl, hs.pending⟩
    rintro - ph'' rfl
    unfold PutHandler.notifyTier2
    split
    · exact ⟨rfl, hs.pending⟩
    split
    · exact ⟨rfl, hs.pending⟩
    refine sat_mono send_walTask_sat ?_ ?_
    · rintro - ph''' rfl
      exact ⟨rfl, hs.pending⟩
    · rintro - ph''' rfl
      exact ⟨rfl, hs.pending⟩

theorem endOfBlocks_sat (ph : HandlerPh) (hs : Serving start h { ph with ended := false }) (hended : ph.ended = true) :
    (h.endOfBlocks I).Sat (handlerProto start) (fun _ _ => True) (fun _ _ => False) ph := by
  refine sat_bind stopFeedback_sat ?_
  rintro - ph' rfl
  have hs' : Serving start h { ({ ph with stopped := true } : HandlerPh) with stopped := false, ended := false } :=
    ⟨hs.flushed, hs.closed, hs.opened, hs.pending, ⟨rfl, hs.running.2.1, rfl⟩⟩
  refine sat_bind (Q := fun _ ph' => ph'.ended = ph.ended ∧ ph'.pending = [])
    (sat_attempt (sat_mono (finalize_sat' hs' rfl) (fun _ _ hq => hq) fun _ _ hx => hx)) ?_
  intro res ph'' hph''
  exact srv_sat_run (fun _ => ⟨hph''.1.trans hended, hph''.2⟩) fun _ => trivial

theorem serve_sat : ∀ (n : ℕ) (h : PutHandler) (ph : HandlerPh), Serving start h ph →
    (PutHandler.serve D K I rand peer n h).Sat (handlerProto start) (fun _ _ => True) (fun _ _ => False) ph := by
  intro n
  induction n with
  | zero => intro h ph _; trivial
  | succ n ih =>
    intro h ph hs
    -- however the blocks end, the handler goes on the same way
    have hend : (h.endOfBlocks I).Sat (handlerProto start) (fun _ _ => True) (fun _ _ => False) { ph with ended := true } := by
      refine endOfBlocks_sat { ph with ended := true } ?_ rfl
      rw [← hs.running.2.2]
      exact hs
    refine sat_call ⟨hs.pending, hs.running.2.2⟩ fun (d : Drained) => ?_
    cases d with
    | eof => exact hend
    | failed => exact hend
    | batch b =>
      refine sat_bind (Q := Prog.Ends (Serving start) fun _ => Interrupted) (sat_attempt (processBatchWith_sat hs b)) ?_
      intro res ph' hres
      cases res with
      | ok h' => exact ih h' ph' hres
      | error e =>
        refine sat_bind stopFeedback_sat ?_
        rintro - ph'' rfl
        exact srv_sat_run (by rintro ⟨⟩) fun _ => trivial

/-- **The handler** proceeds so. -/
theorem servePut_sat (n : ℕ) :
    (servePut D K I rand peer n).Sat (handlerProto start) (fun _ _ => True) (fun _ _ => False) {} := by
  unfold servePut
  split
  · exact srv_sat_run nofun fun _ => trivial
  · exact serve_sat n {} {} ⟨rfl, fun _ => rfl, fun hno => absurd rfl hno, rfl, rfl, rfl, rfl⟩

/-! ## The sender -/

theorem sendLatest_sat {X : Err → SenderPh → Prop} {ph : SenderPh} (hexit : ph.exited = false) :
    sendLatest.Sat senderProto (fun _ ph' => ph' = { ph with loaded := none }) X ph := by
  refine sat_call hexit fun (w : UInt64) => ?_
  refine sat_call hexit fun (f : UInt64) => ?_
  exact sat_call ⟨rfl, hexit⟩ fun _ => sat_ret rfl

/-- **The sender** proceeds so. -/
theorem sendLoop_sat : ∀ n : ℕ, (sendLoop n).Sat senderProto (fun _ _ => True) (fun _ _ => False) {} := by
  intro n
  induction n with
  | zero => trivial
  | succ n ih =>
    refine sat_call ⟨rfl, rfl⟩ fun (woken : Bool) => ?_
    cases woken with
    | true =>
      refine sat_bind (sendLatest_sat rfl) ?_
      rintro - ph rfl
      exact ih
    | false =>
      refine sat_bind (sendLatest_sat rfl) ?_
      rintro - ph rfl
      exact ⟨⟨rfl, rfl⟩, fun _ => trivial⟩

/-! ## The identity of a stream -/

variable {m m' : BlockMeta} {rs acc : List PutRequest}

/-- The blocks belong to one file of one cluster. -/
def OneFile (rs : List PutRequest) : Prop := ∀ r ∈ rs, r.clusterName = (firstBlock rs).clusterName ∧
  r.walName = (firstBlock rs).walName ∧ r.segmentSize = (firstBlock rs).segmentSize

/-- They have one start position, and it is the one that the handler computes positions from, after every block. -/
def OneStart (D : Deps) (peer : Peer) (rs : List PutRequest) : Prop :=
  (∀ r ∈ rs, r.walStartLsn = (firstBlock rs).walStartLsn) ∧
    ∀ pre m, pre <+: rs → pre ≠ [] → acceptBlocks D peer {} pre = .ok m → m.walStartLSN = (firstBlock rs).walStartLsn

/-- Positions in a message are those of the payload of some blocks, from the start position that they leave. -/
def Computed (D : Deps) (peer : Peer) (rs : List PutRequest) (o : FsOp Name UInt8 Msg) : Prop :=
  ∀ w f, o = .emit (.setFeedback w f) ∨ o = .emit (.putResult w f) → ∃ pre m n, pre <+: rs ∧ acceptBlocks D peer {} pre = .ok m ∧
    n ≤ (blocksPayload pre).length ∧ w = UInt64.ofNat (blocksPayload pre).length + m.walStartLSN ∧ f = UInt64.ofNat n + m.walStartLSN

theorem Mute.computed (h : Mute o) : Computed D peer rs o := by
  rintro w f (rfl | rfl) <;> exact h.elim

/-- A program that computes its positions so. -/
abbrev Computes {α : Type} (D : Deps) (peer : Peer) (rs : List PutRequest) (p : FsProg Msg α) (Q : α → Prop) : Prop :=
  p.Sat ⟨fun _ => Computed D peer rs, fun _ _ _ => ()⟩ (fun a _ => Q a) (fun _ _ => True) ()

theorem computes_of_mute {α : Type} {p : FsProg Msg α} {Q : α → Prop} (hp : p.Sat mutely (fun a _ => Q a) (fun _ _ => True) ()) :
    Computes D peer rs p Q := by
  induction p with
  | ret a => exact hp
  | err e => trivial
  | call o k ih => exact ⟨hp.1.computed, fun r => ih r (hp.2 r)⟩

theorem setFeedback_computes {w f : UInt64} (h : Computed D peer rs (.emit (.setFeedback w f))) :
    Computes D peer rs (setFeedback w f) fun _ => True := by
  unfold setFeedback
  split
  · trivial
  · exact ⟨h, fun _ => trivial⟩

/-- The handler has accepted these blocks, and counted their bytes. -/
structure Tallied (D : Deps) (peer : Peer) (acc : List PutRequest) (h : PutHandler) : Prop where
  accepted : acceptBlocks D peer {} acc = .ok h.blockMeta
  written : h.writtenBytes = UInt64.ofNat (blocksPayload acc).length
  flushed : h.flushedBytes = UInt64.ofNat (blocksPayload acc).length

theorem processBatch_computes {batch : Batch} (hc : Tallied D peer acc h) (hpre : acc ++ batch.blocks <+: rs) :
    Computes D peer rs (h.processBatch D K rand peer batch) (Tallied D peer (acc ++ batch.blocks)) := by
  have hsum : ofNat (blocksPayload acc).length + ofNat (batch.blocks.flatMap PutRequest.walBlock).length =
      ofNat (blocksPayload (acc ++ batch.blocks)).length := by
    rw [blocksPayload_append, List.length_append, ofNat_add]
    rfl
  refine sat_bind (computes_of_mute (validateBlocks_mute batch.blocks h)) ?_
  rintro h₁ - ⟨haccept, ⟨hflushed, hwritten⟩, -⟩
  have hall : acceptBlocks D peer {} (acc ++ batch.blocks) = .ok h₁.blockMeta := (acceptBlocks_append hc.accepted _).trans haccept
  refine sat_bind (computes_of_mute (withBuffer_mute h₁ _ fun w => uses_map (writeBlock_mute w.inner _))) ?_
  rintro h₂ - ⟨w₂, rfl⟩
  rw [hwritten, hflushed, hc.written, hc.flushed, hsum]
  refine sat_bind (setFeedback_computes ?_) fun _ _ _ => ?_
  · rintro w f (hm | hm) <;> cases hm
    refine ⟨_, _, _, hpre, hall, ?_, rfl, rfl⟩
    rw [blocksPayload_append, List.length_append]
    exact Nat.le_add_right _ _
  refine sat_bind (computes_of_mute (withBuffer_mute _ _ fun w => uses_map (directFlush_mute w.inner))) ?_
  rintro h₃ - ⟨w₃, rfl⟩
  rw [hsum]
  refine sat_bind (setFeedback_computes ?_) fun _ _ _ => ⟨hall, rfl, rfl⟩
  rintro w f (hm | hm) <;> cases hm
  exact ⟨_, _, _, hpre, hall, le_rfl, rfl, rfl⟩

theorem run_computes : ∀ (batches : List Batch) (acc : List PutRequest) (h : PutHandler), acc ++ streamBlocks batches = rs →
    Tallied D peer acc h → Computes D peer rs (PutHandler.run D K I rand peer h batches) fun _ => True := by
  intro batches
  induction batches with
  | nil =>
    intro acc h hrs hc
    obtain rfl : acc = rs := (List.append_nil acc).symm.trans hrs
    have hsend : ∀ text m, Computed D peer acc (.emit m) → Computes D peer acc (PutHandler.send text m) fun _ => True := by
      refine fun text m hm => ⟨hm, fun (r : Except FsErr Unit) => ?_⟩
      cases r <;> trivial
    change Computes D peer acc (h.finalize I) _
    unfold PutHandler.finalize
    split
    · refine hsend _ _ ?_
      rintro w f (hm | hm) <;> cases hm
      exact ⟨[], {}, 0, List.nil_prefix, rfl, le_rfl, rfl, rfl⟩
    refine sat_bind (computes_of_mute (closeBuffer_mute h)) ?_
    rintro h' - ⟨w', rfl⟩
    refine sat_bind (hsend _ _ ?_) fun _ _ _ => ?_
    · rintro w f (hm | hm) <;> cases hm
      exact ⟨acc, _, _, List.prefix_rfl, hc.accepted, le_rfl, by rw [← hc.written], by rw [← hc.flushed]⟩
    unfold PutHandler.notifyTier2
    split
    · trivial
    split
    · trivial
    · exact hsend _ _ (by rintro w f (hm | hm) <;> cases hm)
  | cons batch batches ih =>
    intro acc h hrs hc
    have hsplit : acc ++ batch.blocks ++ streamBlocks batches = rs := by
      rw [← hrs, List.append_assoc]
      rfl
    exact sat_bind (processBatch_computes hc ⟨_, hsplit⟩) fun h' _ hc' => ih _ h' hsplit hc'

/-- **When a stream keeps its identity.** The positions it reports are computed from the start position that some of its
blocks leave. Blocks that were accepted belong to one file; they have one start position, and positions are
computed from it, exactly if none comes after a first block with position zero. -/
theorem identity_kept_iff (D : Deps) (K : Codec) (I : Implementation) (rand : ℕ → ℕ) (peer : Peer) (batches : List Batch) :
    (put D K I rand peer batches).Uses (Computed D peer (streamBlocks batches)) ∧
      ∀ acc, acc <+: streamBlocks batches → match acceptBlocks D peer {} acc with
        | .error _ => True
        | .ok _ => OneFile acc ∧
            (OneStart D peer acc ↔ ((firstBlock acc).walStartLsn = 0 → ∀ r ∈ acc, r.walStartLsn = 0)) := by
  refine ⟨?_, fun acc _ => ?_⟩
  · unfold put
    split
    · trivial
    · exact Prog.Sat.uses (fun _ _ ho => ho) (run_computes batches [] {} rfl ⟨rfl, rfl, rfl⟩)
  split
  · trivial
  rename_i m hm
  refine ⟨fun r hr => ?_, fun hone h0 r hr => (hone.1 r hr).trans h0, fun hzero => ?_⟩
  · obtain ⟨hc, hw, hs⟩ := acceptBlocks_first hm (List.ne_nil_of_mem hr)
    obtain ⟨hc', hw', hs', -⟩ := acceptBlocks_fields hm r hr
    exact ⟨hc'.trans hc, hw'.trans hw, hs'.trans hs⟩
  have hsame : ∀ r ∈ acc, r.walStartLsn = (firstBlock acc).walStartLsn := by
    intro r hr
    by_cases h0 : (firstBlock acc).walStartLsn = 0
    · exact (hzero h0 r hr).trans h0.symm
    · have hfirst := (acceptBlocks_fields hm _ (firstBlock_mem (List.ne_nil_of_mem hr))).2.2.2 h0
      exact ((acceptBlocks_fields hm r hr).2.2.2 h0).trans hfirst.symm
  refine ⟨hsame, fun pre m' hpre hne hm' => ?_⟩
  obtain ⟨r, hr, hstart⟩ := acceptBlocks_start hm' hne
  exact hstart.trans (hsame r (hpre.subset hr))

/-- A block at position zero, then one at 100. -/
def movesStart : List Batch :=
  let r : UInt64 → PutRequest := fun lsn => ⟨"c".toList, "000000010000000000000001".toList, [7], 2, lsn, false⟩
  [⟨r 0, []⟩, ⟨r 100, []⟩]

/-- **The start position changes**: both blocks are accepted, and the second is acknowledged from 100. -/
theorem start_changes : (acceptBlocks plainDeps (.cert "u@c".toList) {} (streamBlocks movesStart)).isOk = true ∧
    ¬ OneStart plainDeps (.cert "u@c".toList) (streamBlocks movesStart) ∧
    ((put plainDeps plainCodec ⟨false, true⟩ (fun _ => 0) (.cert "u@c".toList) movesStart).eval (sem Unit Name UInt8 Msg) () (fun _ => none)
      ⟨Fs.empty, []⟩).2.log = [((), .setFeedback 1 1, true), ((), .setFeedback 102 101, true), ((), .setFeedback 102 102, true),
        ((), .putResult 102 102, true)] := by
  refine ⟨by decide +kernel, fun hone => ?_, by decide +kernel⟩
  cases hone.1 ⟨"c".toList, "000000010000000000000001".toList, [7], 2, 100, false⟩ (.tail _ (.head _))

end Klio

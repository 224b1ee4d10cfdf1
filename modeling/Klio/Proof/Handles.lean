import Klio.Model.Handles
import Klio.Model.Plain

/-!
# Which files a call leaves open

`Get` never closes its reader, and `Put` closes its writer only where the stream has ended and the rest of
the buffer was written. So a call gives back every file exactly if it opened none, or if it is a `Put`
that gets as far as the `Close` of its file.

* `getWALAt_eq`: reading through a handle is what `getWAL` does.
* `validateBlock_held`, `receiveAll_held`: a `Put` holds the file of its writer, whatever fails.
* `finalize_eq`: where the file is closed.
* `handles_balance_iff`: when a call leaves as many files open as it found.
-/

namespace Klio

open Lib Prog

variable {D : Deps} {K : Codec} {I : Implementation} {rand : ℕ → ℕ} {peer : Peer}

/-! ## Writers -/

section Writers

variable {N B M E : Type} {X : E → Option Handle → Prop} {b : Bufio B}

theorem bufio_flush_held : (b.flush : Prog (FsOp N B M) FsOp.Res E (Bufio.Out B)).Sat holdingFiles
    (fun out h' => h' = some (.writing b.fd) ∧ out.1.fd = b.fd) X (some (.writing b.fd)) := by
  unfold Bufio.flush
  split
  · exact ⟨rfl, rfl⟩
  · exact ⟨rfl, rfl⟩
  · refine sat_call rfl fun (r : Except FsErr Unit) => ?_
    cases r <;> exact ⟨rfl, rfl⟩

theorem bufio_direct_held (p : List B) : (b.direct p : Prog (FsOp N B M) FsOp.Res E (Bufio.Out B)).Sat holdingFiles
    (fun out h' => h' = some (.writing b.fd) ∧ out.1.fd = b.fd) X (some (.writing b.fd)) := by
  refine sat_call rfl fun (r : Except FsErr Unit) => ?_
  cases r <;> exact ⟨rfl, rfl⟩

theorem bufio_write_held (p : List B) : (b.write p : Prog (FsOp N B M) FsOp.Res E (Bufio.Out B)).Sat holdingFiles
    (fun out h' => h' = some (.writing b.fd) ∧ out.1.fd = b.fd) X (some (.writing b.fd)) := by
  unfold Bufio.write
  split
  · exact ⟨rfl, rfl⟩
  split_ifs
  · exact ⟨rfl, rfl⟩
  · exact bufio_direct_held p
  · have hflush : (({ b with buf := b.buf ++ p.take b.available } : Bufio B).flush : Prog (FsOp N B M) FsOp.Res E (Bufio.Out B)).Sat
        holdingFiles (fun out h' => h' = some (.writing b.fd) ∧ out.1.fd = b.fd) X (some (.writing b.fd)) :=
      @bufio_flush_held N B M E X { b with buf := b.buf ++ p.take b.available }
    refine sat_bind hflush ?_
    rintro ⟨b', r⟩ h' ⟨rfl, hfd⟩
    rcases r with e | _
    · exact ⟨rfl, hfd⟩
    simp only [Bufio.writeRest]
    split_ifs
    · exact ⟨rfl, hfd⟩
    · rw [← hfd]
      exact bufio_direct_held _

end Writers

section DirectWriters

variable {M : Type} {X : Err → Option Handle → Prop} {w : DirectWriter}

theorem writeBlockData_held (bs : List UInt8) : (w.writeBlockData bs : FsProg M (DirectWriter × Except Err Unit)).Sat holdingFiles
    (fun out h' => h' = some (.writing w.buffer.fd) ∧ out.1.buffer.fd = w.buffer.fd) X (some (.writing w.buffer.fd)) := by
  refine sat_bind (bufio_write_held _) ?_
  rintro ⟨b, r⟩ h' ⟨rfl, hfd⟩
  rcases r with e | _
  · exact ⟨rfl, hfd⟩
  rw [← hfd]
  refine sat_bind (bufio_write_held bs) ?_
  rintro ⟨b', r'⟩ h'' ⟨rfl, hfd'⟩
  cases r' <;> exact ⟨rfl, hfd'⟩

theorem writeChunks_held (fuel : ℕ) : ∀ (w : DirectWriter) (data : List UInt8),
    (w.writeChunks K fuel data : FsProg M (DirectWriter × Except Err Unit)).Sat holdingFiles
      (fun out h' => h' = some (.writing w.buffer.fd) ∧ out.1.buffer.fd = w.buffer.fd) X (some (.writing w.buffer.fd)) := by
  induction fuel with
  | zero => intro w data; exact ⟨rfl, rfl⟩
  | succ fuel ih =>
    intro w data
    unfold DirectWriter.writeChunks
    split
    · exact ⟨rfl, rfl⟩
    split
    · exact ⟨rfl, rfl⟩
    rename_i wrapped _
    have hblock : (({ w with rand := fun n => w.rand (n + 1) } : DirectWriter).writeBlockData wrapped :
        FsProg M (DirectWriter × Except Err Unit)).Sat holdingFiles
        (fun out h' => h' = some (.writing w.buffer.fd) ∧ out.1.buffer.fd = w.buffer.fd) X (some (.writing w.buffer.fd)) :=
      @writeBlockData_held M X { w with rand := fun n => w.rand (n + 1) } wrapped
    refine sat_bind hblock ?_
    rintro ⟨w', r⟩ h' ⟨rfl, hfd⟩
    rcases r with e | _
    · exact ⟨rfl, hfd⟩
    rw [← hfd]
    exact ih w' _

theorem flush_held : (w.flush : FsProg M (DirectWriter × Except Err Unit)).Sat holdingFiles
    (fun out h' => h' = some (.writing w.buffer.fd) ∧ out.1.buffer.fd = w.buffer.fd) X (some (.writing w.buffer.fd)) := by
  refine sat_bind bufio_flush_held ?_
  rintro ⟨b, r⟩ h' ⟨rfl, hfd⟩
  rcases r with e | _
  · exact ⟨rfl, hfd⟩
  rw [← hfd]
  refine sat_call rfl fun (r : Except FsErr Unit) => ?_
  cases r <;> exact ⟨rfl, rfl⟩

theorem newDirectWriter_held (fd : ℕ) (opts : WriterOptions) : (newDirectWriter K rand fd opts : FsProg M DirectWriter).Sat holdingFiles
    (fun w h' => h' = some (.writing fd) ∧ w.buffer.fd = fd) (fun _ h' => h' = some (.writing fd)) (some (.writing fd)) := by
  refine sat_bind (bufio_write_held _) ?_
  rintro ⟨b, r⟩ h' ⟨rfl, hfd⟩
  have hfd : b.fd = fd := hfd
  rcases r with e | _
  · exact rfl
  subst hfd
  refine sat_bind (bufio_write_held _) ?_
  rintro ⟨b', r'⟩ h'' ⟨rfl, hfd'⟩
  cases r' with
  | error e => exact rfl
  | ok _ => exact ⟨rfl, hfd'⟩

/-- **A new writer holds its file**; one that cannot be made holds none. -/
theorem newDirectWriterAtPath_held (filePath : Path) (opts : WriterOptions) :
    (newDirectWriterAtPath K rand filePath opts : FsProg M DirectWriter).Sat holdingFiles
      (fun w h' => h' = some (.writing w.buffer.fd)) (fun _ h' => h' = none) none := by
  refine sat_call trivial fun (r : Except FsErr Unit) => ?_
  rcases r with e | _
  · exact rfl
  refine sat_call rfl fun (r : Except FsErr ℕ) => ?_
  rcases r with e | fd
  · exact rfl
  refine sat_bind (Q := Prog.Ends _ _) (sat_attempt (newDirectWriter_held fd opts)) ?_
  intro r h' hr
  cases r with
  | ok w =>
    obtain ⟨rfl, hfd⟩ := hr
    exact congrArg (fun fd => some (Handle.writing fd)) hfd.symm
  | error e => exact ⟨hr, fun _ => rfl⟩

end DirectWriters

/-! ## The handler of a Put -/

/-- The file a handler holds: that of its writer. -/
def PutHandler.Held (ph : PutHandler) (h : Option Handle) : Prop :=
  h = ph.walBuffer.map fun w => .writing w.inner.buffer.fd

variable {h : Option Handle} {ph : PutHandler}

theorem openWriter_held (hh : ph.Held h) :
    (ph.openWriter K rand).Sat holdingFiles (fun ph' h' => ph'.Held h' ∧ ph'.walBuffer ≠ none ∧ (ph.walBuffer ≠ none → h' = h))
      (fun _ h' => h' = h) h := by
  unfold PutHandler.openWriter
  cases hb : ph.walBuffer with
  | some w => exact ⟨hh, by rw [hb]; simp, fun _ => rfl⟩
  | none =>
    obtain rfl : h = none := by rw [hh, hb]; rfl
    have hnew : (newWriter K rand ⟨ph.blockMeta.clusterName, ph.blockMeta.walFileName, ph.blockMeta.segmentSize,
        putWriteBufferSize⟩ : FsProg Msg Writer).attempt.Sat holdingFiles (Prog.Ends (fun w h' => h' = some (.writing w.inner.buffer.fd)) fun _ h' => h' = none) (fun _ h' => h' = none) none := by
      refine sat_attempt (sat_bind (newDirectWriterAtPath_held _ _) ?_)
      intro w h' hw
      exact hw
    refine sat_bind hnew ?_
    intro r h' hr
    cases r with
    | error e => exact hr
    | ok w => exact ⟨hr, by simp, fun hne => absurd rfl hne⟩

/-- **A block leaves the handler with a file**, or fails with the file it had. -/
theorem validateBlock_held (hh : ph.Held h) (request : PutRequest) :
    (ph.validateBlock D K rand peer request).Sat holdingFiles
      (fun ph' h' => ph'.Held h' ∧ ph'.walBuffer ≠ none ∧ (ph.walBuffer ≠ none → h' = h)) (fun _ h' => h' = h) h := by
  unfold PutHandler.validateBlock
  split
  · exact rfl
  · rename_i m _
    have hm : ({ ph with blockMeta := m } : PutHandler).Held h := hh
    exact openWriter_held hm

theorem withBuffer_held (hh : ph.Held h) (hb : ph.walBuffer ≠ none) (text : String)
    {f : Writer → FsProg Msg (Writer × Except Err Unit)}
    (hf : ∀ w, h = some (.writing w.inner.buffer.fd) →
      (f w).Sat holdingFiles (fun out h' => h' = h ∧ out.1.inner.buffer.fd = w.inner.buffer.fd) (fun _ h' => h' = h) h) :
    (ph.withBuffer text f).Sat holdingFiles (fun ph' h' => ph'.Held h' ∧ ph'.walBuffer ≠ none ∧ h' = h) (fun _ h' => h' = h) h := by
  unfold PutHandler.withBuffer
  rcases hw : ph.walBuffer with _ | w
  · exact absurd hw hb
  have hmine : h = some (.writing w.inner.buffer.fd) := by
    rw [PutHandler.Held, hw] at hh
    exact hh
  refine sat_bind (hf w hmine) ?_
  rintro ⟨w', r⟩ h' ⟨rfl, hfd⟩
  cases r with
  | error e => exact rfl
  | ok _ => exact ⟨hmine.trans (congrArg (fun fd => some (Handle.writing fd)) hfd.symm), by simp, rfl⟩

theorem lift_held {w : Writer} (hmine : h = some (.writing w.inner.buffer.fd))
    {p : FsProg Msg (DirectWriter × Except Err Unit)}
    (hp : p.Sat holdingFiles (fun out h' => h' = some (.writing w.inner.buffer.fd) ∧ out.1.buffer.fd = w.inner.buffer.fd)
      (fun _ h' => h' = some (.writing w.inner.buffer.fd)) (some (.writing w.inner.buffer.fd))) :
    (w.lift p).Sat holdingFiles (fun out h' => h' = h ∧ out.1.inner.buffer.fd = w.inner.buffer.fd) (fun _ h' => h' = h) h := by
  subst hmine
  exact sat_bind hp fun _ _ hout => hout

theorem feedback_neutral (ph : PutHandler) : ph.feedback.Uses FsOp.Neutral := by
  unfold PutHandler.feedback setFeedback
  split
  · trivial
  · exact ⟨trivial, fun _ => trivial⟩

theorem validateBlocks_held : ∀ (batch : List PutRequest) {ph : PutHandler}, ph.Held h → ph.walBuffer ≠ none →
    (PutHandler.validateBlocks D K rand peer ph batch).Sat holdingFiles (fun ph' h' => ph'.Held h' ∧ ph'.walBuffer ≠ none ∧ h' = h)
      (fun _ h' => h' = h) h := by
  intro batch
  induction batch with
  | nil => intro ph hh hb; exact ⟨hh, hb, rfl⟩
  | cons request batch ih =>
    intro ph hh hb
    refine sat_bind (validateBlock_held hh request) ?_
    rintro ph' h' ⟨hh', hb', hkeep⟩
    obtain rfl := hkeep hb
    exact ih hh' hb'

/-- What `processBatch` does after its blocks were accepted. -/
def PutHandler.storeBatch (K : Codec) (ph : PutHandler) (payload : List UInt8) : FsProg Msg PutHandler :=
  (ph.writeBlock K payload).bind fun ph =>
  let ph := { ph with writtenBytes := ph.writtenBytes + UInt64.ofNat payload.length }
  ph.feedback.bind fun _ =>
  ph.flushBuffer.bind fun ph =>
  let ph := { ph with flushedBytes := ph.flushedBytes + UInt64.ofNat payload.length }
  ph.feedback.bind fun _ => .ret ph

theorem storeBatch_held (hh : ph.Held h) (hb : ph.walBuffer ≠ none) (payload : List UInt8) :
    (ph.storeBatch K payload).Sat holdingFiles (fun ph' h' => ph'.Held h' ∧ ph'.walBuffer ≠ none ∧ h' = h) (fun _ h' => h' = h) h := by
  have hwrite := withBuffer_held hh hb "error while writing WAL: %v" (f := fun w => w.writeBlock K payload)
    fun w hmine => lift_held hmine (writeChunks_held _ _ _)
  refine sat_bind hwrite ?_
  rintro ph₁ h₁ ⟨hh₁, hb₁, rfl⟩
  refine sat_bind ((feedback_neutral _).held _) ?_
  rintro - h₂ rfl
  have hh₂ : ({ ph₁ with writtenBytes := ph₁.writtenBytes + UInt64.ofNat payload.length } : PutHandler).Held h₂ := hh₁
  have hflush := withBuffer_held hh₂ hb₁ "error while flushing WAL: %v" (f := fun w => w.flush)
    fun w hmine => lift_held hmine flush_held
  refine sat_bind hflush ?_
  rintro ph₃ h₃ ⟨hh₃, hb₃, rfl⟩
  refine sat_bind ((feedback_neutral _).held _) ?_
  rintro - h₄ rfl
  exact ⟨hh₃, hb₃, rfl⟩

theorem receiveAll_held : ∀ (batches : List Batch) {ph : PutHandler}, ph.Held h → ph.walBuffer ≠ none →
    (PutHandler.receiveAll D K rand peer ph batches).Sat holdingFiles (fun ph' h' => ph'.Held h' ∧ ph'.walBuffer ≠ none ∧ h' = h)
      (fun _ h' => h' = h) h := by
  intro batches
  induction batches with
  | nil => intro ph hh hb; exact ⟨hh, hb, rfl⟩
  | cons batch batches ih =>
    intro ph hh hb
    have hbatch : (ph.processBatch D K rand peer batch).Sat holdingFiles (fun ph' h' => ph'.Held h' ∧ ph'.walBuffer ≠ none ∧ h' = h)
        (fun _ h' => h' = h) h := by
      refine sat_bind (validateBlocks_held batch.blocks hh hb) ?_
      rintro ph₁ h₁ ⟨hh₁, hb₁, rfl⟩
      exact storeBatch_held hh₁ hb₁ _
    refine sat_bind hbatch ?_
    rintro ph₁ h₁ ⟨hh₁, hb₁, rfl⟩
    exact ih hh₁ hb₁

theorem send_neutral (text : String) (m : Msg) : (PutHandler.send text m).Uses FsOp.Neutral := by
  refine ⟨trivial, fun (r : Except FsErr Unit) => ?_⟩
  cases r <;> trivial

theorem notifyTier2_neutral (ph : PutHandler) : (ph.notifyTier2 I).Uses FsOp.Neutral := by
  unfold PutHandler.notifyTier2
  split_ifs
  · trivial
  · trivial
  · split
    · trivial
    · exact send_neutral _ _

/-- **Where the file of a stream is closed**: after the rest of the buffer was written, and nowhere else. -/
theorem finalize_eq {w : Writer} (hw : ph.walBuffer = some w) :
    ∃ F, ph.finalize I = w.inner.buffer.flush.bind F ∧ (∀ b e, ∃ x, F (b, .error e) = .err x) ∧
      ∀ b, ∃ k, F (b, .ok ()) = .call (.close b.fd) k ∧
        ∀ r, (k r).Sat holdingFiles (fun _ h' => h' = none) (fun _ h' => h' = none) none := by
  have hlast : ∀ ph' : PutHandler, ((PutHandler.send "error while sending response: %v"
      (.putResult (ph'.writtenBytes + ph'.blockMeta.walStartLSN) (ph'.flushedBytes + ph'.blockMeta.walStartLSN))).bind
        fun _ => ph'.notifyTier2 I).Sat holdingFiles (fun _ h' => h' = none) (fun _ h' => h' = none) none :=
    fun ph' => (uses_bind (fun _ => notifyTier2_neutral ph') (send_neutral _ _)).held none
  unfold PutHandler.finalize PutHandler.closeBuffer PutHandler.closeComplete PutHandler.closePartial PutHandler.withBuffer
  simp only [hw]
  split
  · -- the file is renamed after it was closed
    simp only [Writer.closeMarkDone, DirectWriter.close, Prog.bind_assoc]
    refine ⟨_, rfl, fun b e => ⟨_, rfl⟩, fun b => ⟨_, rfl, fun (r : Except FsErr Unit) => ?_⟩⟩
    rcases r with e | _
    · exact rfl
    refine ⟨rfl, fun (r : Except FsErr Unit) => ?_⟩
    cases r with
    | error e => exact rfl
    | ok _ => exact hlast _
  · simp only [Writer.close, Writer.lift, DirectWriter.close, Prog.bind_assoc]
    refine ⟨_, rfl, fun b e => ⟨_, rfl⟩, fun b => ⟨_, rfl, fun (r : Except FsErr Unit) => ?_⟩⟩
    cases r with
    | error e => exact rfl
    | ok _ => exact hlast _

theorem run_eq (batches : List Batch) : ∀ ph : PutHandler, PutHandler.run D K I rand peer ph batches =
    (PutHandler.receiveAll D K rand peer ph batches).bind fun ph => ph.finalize I := by
  induction batches with
  | nil => intro ph; rfl
  | cons batch batches ih =>
    intro ph
    show (ph.processBatch D K rand peer batch).bind _ = ((ph.processBatch D K rand peer batch).bind _).bind _
    rw [Prog.bind_assoc]
    exact congrArg _ (funext fun ph' => ih ph')

variable (D K rand peer) in
/-- The first block of a stream, and the rest. -/
theorem receiveAll_first (batch : Batch) (batches : List Batch) : ∃ R : PutHandler → FsProg Msg PutHandler,
    PutHandler.receiveAll D K rand peer {} (batch :: batches) =
      (({} : PutHandler).validateBlock D K rand peer batch.first).bind R ∧
    ∀ (ph : PutHandler) (h : Option Handle), ph.Held h → ph.walBuffer ≠ none →
      (R ph).Sat holdingFiles (fun ph' h' => ph'.Held h' ∧ ph'.walBuffer ≠ none ∧ h' = h) (fun _ h' => h' = h) h := by
  refine ⟨fun ph => (PutHandler.validateBlocks D K rand peer ph batch.rest).bind fun ph =>
    (ph.storeBatch K (batch.blocks.flatMap PutRequest.walBlock)).bind fun ph =>
    PutHandler.receiveAll D K rand peer ph batches, ?_, ?_⟩
  · simp only [PutHandler.receiveAll, PutHandler.processBatch, Batch.blocks, PutHandler.validateBlocks, Prog.bind_assoc,
      PutHandler.storeBatch]
  intro ph h hh hb
  refine sat_bind (validateBlocks_held batch.rest hh hb) ?_
  rintro ph₁ h₁ ⟨hh₁, hb₁, rfl⟩
  refine sat_bind (storeBatch_held hh₁ hb₁ _) ?_
  rintro ph₂ h₂ ⟨hh₂, hb₂, rfl⟩
  exact receiveAll_held batches hh₂ hb₂

/-! ## The table after a call -/

variable {ι : Type} (i : ι) (cs : ℕ → Option ℕ) (s : Table ι Name UInt8 Msg)

abbrev evalFiles {α : Type} (i : ι) (p : FsProg Msg α) (cs : ℕ → Option ℕ) (s : Table ι Name UInt8 Msg) :
    Except Err α × Table ι Name UInt8 Msg :=
  p.onFiles.eval (handleSem ι Name UInt8 Msg) i cs s

variable {s}

/-- **The table after a program on files** that holds at most one file. -/
theorem evalFiles_held {α : Type} {p : FsProg Msg α} {Q : α → Option Handle → Prop} {X : Err → Option Handle → Prop}
    (hp : p.Sat holdingFiles Q X h) {others : List Handle} (hs : s.opened = h.toList ++ others) :
    (∃ a s' h', evalFiles i p cs s = (.ok a, s') ∧ s'.opened = h'.toList ++ others ∧ Q a h') ∨
      ∃ e s' h', evalFiles i p cs s = (.error e, s') ∧ s'.opened = h'.toList ++ others ∧ X e h' := by
  obtain ⟨h', hopen, hpost⟩ := eval_holding hp.onFiles i cs s hs
  cases hout : evalFiles i p cs s with
  | mk res s' =>
    unfold evalFiles at hout
    rw [hout] at hopen hpost
    cases res with
    | ok a => exact .inl ⟨a, s', h', rfl, hopen, hpost⟩
    | error e => exact .inr ⟨e, s', h', rfl, hopen, hpost⟩

theorem evalFiles_none {α : Type} {p : FsProg Msg α} (hp : p.Sat holdingFiles (fun _ h' => h' = none) (fun _ h' => h' = none) none) :
    (evalFiles i p cs s).2.opened = s.opened := by
  have hnothing : s.opened = (none : Option Handle).toList ++ s.opened := rfl
  obtain ⟨a, s', h', heq, hopen, rfl⟩ | ⟨e, s', h', heq, hopen, rfl⟩ := evalFiles_held i cs hp hnothing
  · rw [heq]
    exact hopen
  · rw [heq]
    exact hopen

variable {i cs}

/-- What is left open for the programs after `p`. -/
def leftAfter {α : Type} (i : ι) (p : FsProg Msg α) (cs : ℕ → Option ℕ) (s : Table ι Name UInt8 Msg) : ℕ → Option ℕ :=
  fun k => cs (k + p.onFiles.used (handleSem ι Name UInt8 Msg) i cs s)

theorem evalFiles_bind_ok {α β : Type} {p : FsProg Msg α} {a : α} {s' : Table ι Name UInt8 Msg}
    (hp : evalFiles i p cs s = (.ok a, s')) (f : α → FsProg Msg β) :
    evalFiles i (p.bind f) cs s = evalFiles i (f a) (leftAfter i p cs s) s' := by
  unfold evalFiles at hp ⊢
  rw [Prog.onFiles_bind, eval_bind_used, hp]
  rfl

theorem evalFiles_bind_error {α β : Type} {p : FsProg Msg α} {e : Err} {s' : Table ι Name UInt8 Msg}
    (hp : evalFiles i p cs s = (.error e, s')) (f : α → FsProg Msg β) : evalFiles i (p.bind f) cs s = (.error e, s') := by
  unfold evalFiles at hp ⊢
  rw [Prog.onFiles_bind, eval_bind_used, hp]

/-- **The end of a stream that has a writer**: its file is closed if the rest of the buffer can be written. -/
theorem finalize_handles {w : Writer} (hw : ph.walBuffer = some w) {others : List Handle}
    (hs : s.opened = .writing w.inner.buffer.fd :: others) :
    ((evalFiles i (ph.finalize I) cs s).2.opened.length = others.length ↔
      (evalFiles i (w.inner.buffer.flush.bind fun out => Prog.orErr .fs out.2 : FsProg Msg Unit) cs s).1 = .ok ()) := by
  obtain ⟨F, hF, herr, hok⟩ := finalize_eq (I := I) hw
  rw [hF]
  -- the rest of the buffer is written, to a file that stays open
  have hheld : (w.inner.buffer.flush : FsProg Msg (Bufio.Out UInt8)).Sat holdingFiles
      (fun out h' => h' = some (.writing w.inner.buffer.fd) ∧ out.1.fd = w.inner.buffer.fd)
      (fun _ h' => h' = some (.writing w.inner.buffer.fd)) (some (.writing w.inner.buffer.fd)) := bufio_flush_held
  have hmine : s.opened = (some (Handle.writing w.inner.buffer.fd)).toList ++ others := hs
  obtain ⟨⟨b, r⟩, s', h', heq, hopen, rfl, hfd⟩ | ⟨e, s', h', heq, hopen, rfl⟩ := evalFiles_held i cs hheld hmine
  · rw [evalFiles_bind_ok heq, evalFiles_bind_ok heq]
    rcases r with e | u
    · obtain ⟨x, hx⟩ := herr b e
      rw [hx]
      change s'.opened.length = _ ↔ (Except.error _ : Except Err Unit) = _
      rw [hopen]
      simp
    obtain ⟨k, hk, hneutral⟩ := hok b
    rw [hk]
    have hclosed : ∀ c, (Table.exec i (.files (.close b.fd)) c s').2.opened = others := by
      intro c
      show s'.opened.erase _ = _
      rw [hopen, show b.fd = w.inner.buffer.fd from hfd, Option.toList_some, List.singleton_append, List.erase_cons_head]
    refine iff_of_true ?_ rfl
    have hrest := evalFiles_none i (fun n => leftAfter i (w.inner.buffer.flush : FsProg Msg (Bufio.Out UInt8)) cs s (n + 1))
      (s := (Table.exec i (.files (.close b.fd)) (leftAfter i (w.inner.buffer.flush : FsProg Msg (Bufio.Out UInt8)) cs s 0) s').2)
      (hneutral (Table.exec i (.files (.close b.fd)) (leftAfter i (w.inner.buffer.flush : FsProg Msg (Bufio.Out UInt8)) cs s 0) s').1)
    exact congrArg List.length (hrest.trans (hclosed _))
  · rw [evalFiles_bind_error heq, evalFiles_bind_error heq]
    rw [hopen]
    simp

/-- **When a `Put` leaves as many files open as it found**: the first block opens none, or the call gets as far as
the `Close` of its file. -/
def PutReleases (D : Deps) (K : Codec) (I : Implementation) (rand : ℕ → ℕ) (peer : Peer) (batches : List Batch) (i : ι)
    (cs : ℕ → Option ℕ) (s : Table ι Name UInt8 Msg) : Prop :=
  I.isReadOnly = true ∨ (∃ e, (evalFiles i (PutHandler.firstBlockOpened D K rand peer batches) cs s).1 = .error e) ∨
    (evalFiles i (PutHandler.upToClose D K rand peer batches) cs s).1 = .ok ()

theorem put_handles_iff (batches : List Batch) :
    (evalFiles i (put D K I rand peer batches) cs s).2.opened.length = s.opened.length ↔
      PutReleases D K I rand peer batches i cs s := by
  unfold put PutReleases
  cases hro : I.isReadOnly with
  | true => exact iff_of_true rfl (.inl rfl)
  | false =>
    rw [if_neg (by simp)]
    rcases batches with _ | ⟨batch, batches⟩
    · refine iff_of_true ?_ (.inr (.inr rfl))
      exact congrArg List.length (evalFiles_none i cs ((send_neutral _ _).held none))
    obtain ⟨R, hR, hheld⟩ := receiveAll_first D K rand peer batch batches
    have hnothing : s.opened = (none : Option Handle).toList ++ s.opened := rfl
    have hstart : ({} : PutHandler).Held none := rfl
    rw [run_eq, PutHandler.upToClose, hR, Prog.bind_assoc, Prog.bind_assoc]
    change _ ↔ _ ∨ (∃ e, (evalFiles i (({} : PutHandler).validateBlock D K rand peer batch.first) cs s).1 = .error e) ∨ _
    have hfirst : (({} : PutHandler).validateBlock D K rand peer batch.first).Sat holdingFiles
        (fun ph' h' => ph'.Held h' ∧ ph'.walBuffer ≠ none ∧ (({} : PutHandler).walBuffer ≠ none → h' = none))
        (fun _ h' => h' = none) none := validateBlock_held hstart batch.first
    obtain ⟨ph, s₁, h₁, heq, hopen₁, hh₁, hb₁, -⟩ | ⟨e, s₁, h₁, heq, hopen₁, rfl⟩ := evalFiles_held i cs hfirst hnothing
    · -- the first block has opened the file
      rw [evalFiles_bind_ok heq, evalFiles_bind_ok heq]
      have hopens : ¬ ∃ e, (evalFiles i (({} : PutHandler).validateBlock D K rand peer batch.first) cs s).1 = .error e := by
        rw [heq]
        simp
      simp only [Bool.false_eq_true, hopens, false_or]
      obtain ⟨ph₂, s₂, h₂, heq₂, hopen₂, hh₂, hb₂, rfl⟩ | ⟨e, s₂, h₂, heq₂, hopen₂, rfl⟩ :=
        evalFiles_held i (leftAfter i (({} : PutHandler).validateBlock D K rand peer batch.first) cs s) (hheld ph h₁ hh₁ hb₁) hopen₁
      · obtain ⟨w, hw⟩ := Option.ne_none_iff_exists'.1 hb₂
        rw [evalFiles_bind_ok heq₂, evalFiles_bind_ok heq₂]
        simp only [hw]
        have hmine : s₂.opened = .writing w.inner.buffer.fd :: s.opened := by
          rw [hopen₂, hh₂, hw]
          rfl
        exact finalize_handles hw hmine
      · -- receiving has failed, and the file stays open
        rw [evalFiles_bind_error heq₂, evalFiles_bind_error heq₂]
        obtain ⟨w, hw⟩ := Option.ne_none_iff_exists'.1 hb₁
        rw [hh₁, hw] at hopen₂
        rw [hopen₂]
        simp
    · rw [evalFiles_bind_error heq]
      exact iff_of_true (congrArg List.length hopen₁) (.inr (.inl ⟨e, by rw [heq]⟩))

/-! ## Get -/

theorem openForGet_held (clusterName walName : Name) : (openForGet D K peer clusterName walName).Sat holding
    (fun r h' => h' = some (.reading r.1)) (fun _ h' => h' = none) none := by
  have hreader : (newReaderAt K clusterName walName).Sat holding (fun r h' => h' = some (.reading r.1)) (fun _ h' => h' = none) none := by
    refine sat_call rfl fun (r : Except FsErr ℕ) => ?_
    rcases r with e | fd
    · exact rfl
    refine sat_call trivial fun (r : Except FsErr (List UInt8)) => ?_
    rcases r with e | data
    · exact ⟨rfl, fun _ => rfl⟩
    dsimp only
    split
    · exact rfl
    · exact ⟨rfl, fun _ => rfl⟩
  unfold openForGet
  split
  · exact rfl
  split
  · exact rfl
  · split
    · exact rfl
    · exact sat_mapErr hreader

theorem sendBlocks_neutral (fuel : ℕ) : ∀ r : Reader, (sendBlocks K fuel r).Uses FsOp.Neutral := by
  induction fuel with
  | zero => intro r; trivial
  | succ fuel ih =>
    intro r
    unfold sendBlocks
    split
    · exact uses_bind (fun _ => ih _) (send_neutral _ _)
    · split_ifs
      · exact send_neutral _ _
      · trivial

/-- **When a `Get` leaves as many files open as it found**: there is no reader. -/
def GetReleases (D : Deps) (K : Codec) (peer : Peer) (clusterName walName : Name) (i : ι) (cs : ℕ → Option ℕ)
    (s : Table ι Name UInt8 Msg) : Prop :=
  ∃ e, ((openForGet D K peer clusterName walName).eval (handleSem ι Name UInt8 Msg) i cs s).1 = .error e

theorem get_handles_iff (clusterName walName : Name) :
    ((getWALAt D K peer clusterName walName).eval (handleSem ι Name UInt8 Msg) i cs s).2.opened.length = s.opened.length ↔
      GetReleases D K peer clusterName walName i cs s := by
  have hnothing : s.opened = (none : Option Handle).toList ++ s.opened := rfl
  have hheld : (openForGet D K peer clusterName walName).Sat holding (fun r h' => h' = some (.reading r.1)) (fun _ h' => h' = none) none :=
    openForGet_held clusterName walName
  obtain ⟨h', hopen, hpost⟩ := eval_holding hheld i cs s hnothing
  unfold getWALAt GetReleases
  rw [eval_bind_used]
  cases hout : (openForGet D K peer clusterName walName).eval (handleSem ι Name UInt8 Msg) i cs s with
  | mk res s' =>
    rw [hout] at hopen hpost
    rcases res with e | r
    · obtain rfl : h' = none := hpost
      exact iff_of_true (congrArg List.length hopen) ⟨e, rfl⟩
    -- the blocks are sent, and nothing closes the reader
    obtain rfl : h' = some (.reading r.1) := hpost
    have hlen : (evalFiles i (sendBlocks K (r.2.rest.length + 1) r.2)
        (fun k => cs (k + (openForGet D K peer clusterName walName).used (handleSem ι Name UInt8 Msg) i cs s)) s').2.opened.length =
        s.opened.length + 1 := by
      rw [evalFiles_none i _ ((sendBlocks_neutral _ _).held none), hopen]
      simp
    refine iff_of_false ?_ (by simp)
    intro hsame
    have := hlen.symm.trans hsame
    omega

/-! ## Reading through a handle -/

theorem evalFiles_eq {α : Type} : ∀ (p : FsProg Msg α) (cs : ℕ → Option ℕ) (s : Table ι Name UInt8 Msg),
    (evalFiles i p cs s).1 = (p.eval (sem ι Name UInt8 Msg) i cs s.world).1 ∧
      (evalFiles i p cs s).2.world = (p.eval (sem ι Name UInt8 Msg) i cs s.world).2 := by
  intro p
  induction p with
  | ret a => intro cs s; exact ⟨rfl, rfl⟩
  | err e => intro cs s; exact ⟨rfl, rfl⟩
  | call o k ih => intro cs s; exact ih _ _ _

variable (i s) in
/-- A file that cannot be opened is not there; what is opened is read as in one operation. -/
theorem readAt_cases (p : Path) :
    ((handleSem ι Name UInt8 Msg).exec i (.openRead p) none s = ((.error .notExist : Except FsErr ℕ), s) ∧
      (sem ι Name UInt8 Msg).exec i (.readFile p) none s.world = ((.error .notExist : Except FsErr (List UInt8)), s.world)) ∨
    ∃ s₁ res, (handleSem ι Name UInt8 Msg).exec i (.openRead p) none s = ((.ok s.nextRead : Except FsErr ℕ), s₁) ∧
      s₁.world = s.world ∧ (handleSem ι Name UInt8 Msg).exec i (.readAll s.nextRead) none s₁ = (res, s₁) ∧
      (sem ι Name UInt8 Msg).exec i (.readFile p) none s.world = (res, s.world) ∧ ∀ e, res = .error e → e = .isDir := by
  have hfile : (sem ι Name UInt8 Msg).exec i (.readFile p) none s.world = (((s.world.fs.look p).elim
      (.error (if s.world.fs.IsDir p then .isDir else .notExist)) fun ino => .ok (s.world.fs.data ino) :
        Except FsErr (List UInt8)), s.world) := by
    show ((Fs.exec _ none s.world.fs).1, (⟨(Fs.exec _ none s.world.fs).2, s.world.log⟩ : World ι Name UInt8 Msg)) = _
    simp only [Fs.exec, Fs.read]
    cases s.world.fs.look p <;> rfl
  by_cases hopen : (s.world.fs.look p).isSome ∨ s.world.fs.IsDir p
  · refine .inr ⟨_, _, if_pos hopen, rfl, rfl, ?_⟩
    rw [hfile]
    simp only [Table.readAll, Function.update_self]
    cases hlook : s.world.fs.look p with
    | some ino => exact ⟨rfl, by simp⟩
    | none =>
      -- a directory can be opened, and not read
      have hdir : s.world.fs.IsDir p := hopen.resolve_left (by rw [hlook]; simp)
      rw [if_pos hdir]
      exact ⟨rfl, by rintro e ⟨⟩; rfl⟩
  · have hlook : s.world.fs.look p = none := Option.not_isSome_iff_eq_none.1 fun h => hopen (.inl h)
    refine .inl ⟨if_neg hopen, ?_⟩
    rw [hfile, hlook, if_neg fun h => hopen (.inr h), Option.elim_none]

variable (K i s) in
/-- **Opening, reading and closing** answers as reading in one operation does, without faults. -/
theorem newReaderAt_eval (clusterName walName : Name) :
    ((newReaderAt K clusterName walName).eval (handleSem ι Name UInt8 Msg) i (fun _ => none) s).1.map Prod.snd =
        ((newReader K clusterName walName : FsProg Msg Reader).eval (sem ι Name UInt8 Msg) i (fun _ => none) s.world).1 ∧
      ((newReaderAt K clusterName walName).eval (handleSem ι Name UInt8 Msg) i (fun _ => none) s).2.world =
        ((newReader K clusterName walName : FsProg Msg Reader).eval (sem ι Name UInt8 Msg) i (fun _ => none) s.world).2 := by
  unfold newReaderAt newReader
  rcases readAt_cases i s (getWALArchivePath clusterName walName) with ⟨hopen, hfile⟩ | ⟨s₁, res, hopen, hworld, hall, hfile, hdir⟩
  · simp only [Prog.eval, hopen, hfile]
    exact ⟨rfl, trivial⟩
  simp only [Prog.eval, hopen, hfile, hall]
  rcases res with e | data
  · rw [hdir e rfl]
    exact ⟨rfl, hworld⟩
  dsimp only
  cases Reader.ofContent K (getWALArchivePath clusterName walName) data <;> exact ⟨rfl, hworld⟩

variable (D K peer i s) in
/-- **`getWAL` with its handle** sends and answers what `getWAL` does, without faults. -/
theorem getWALAt_eq (clusterName walName : Name) :
    ((getWALAt D K peer clusterName walName).eval (handleSem ι Name UInt8 Msg) i (fun _ => none) s).1 =
        ((getWAL D K peer clusterName walName).eval (sem ι Name UInt8 Msg) i (fun _ => none) s.world).1 ∧
      ((getWALAt D K peer clusterName walName).eval (handleSem ι Name UInt8 Msg) i (fun _ => none) s).2.world =
        ((getWAL D K peer clusterName walName).eval (sem ι Name UInt8 Msg) i (fun _ => none) s.world).2 := by
  unfold getWALAt openForGet getWAL withClusterName
  rcases checkClusterName D peer clusterName with e | _
  · exact ⟨rfl, rfl⟩
  rcases validatePathComponent D walName with e | _
  · exact ⟨rfl, rfl⟩
  rcases validateWalFileName walName with e | _
  · exact ⟨rfl, rfl⟩
  obtain ⟨hres, hworld⟩ := newReaderAt_eval K i s clusterName walName
  rw [eval_bind_used, eval_bind_used, eval_mapErr, eval_mapErr]
  cases hat : (newReaderAt K clusterName walName).eval (handleSem ι Name UInt8 Msg) i (fun _ => none) s with
  | mk res s' =>
    cases hof : (newReader K clusterName walName : FsProg Msg Reader).eval (sem ι Name UInt8 Msg) i (fun _ => none) s.world with
    | mk res' w' =>
      rw [hat, hof] at hres hworld
      obtain rfl : res.map Prod.snd = res' := hres
      obtain rfl : s'.world = w' := hworld
      cases res with
      | error e => exact ⟨rfl, rfl⟩
      | ok r => exact evalFiles_eq _ _ s'

/-! ## Both calls -/

/-- **Which calls give back their files.** A `Put`, whatever its blocks and whatever fails, leaves as many files
open as it found exactly if its first block opens none or it gets as far as the `Close` of its file; a
`Get`, whatever is stored, exactly if it has no reader. -/
theorem handles_balance_iff (D : Deps) (K : Codec) (I : Implementation) (peer : Peer) (i : ι) (cs : ℕ → Option ℕ)
    (s : Table ι Name UInt8 Msg) :
    (∀ (rand : ℕ → ℕ) (batches : List Batch),
      (evalFiles i (put D K I rand peer batches) cs s).2.opened.length = s.opened.length ↔
        PutReleases D K I rand peer batches i cs s) ∧
    ∀ clusterName walName : Name,
      ((getWALAt D K peer clusterName walName).eval (handleSem ι Name UInt8 Msg) i cs s).2.opened.length = s.opened.length ↔
        GetReleases D K peer clusterName walName i cs s :=
  ⟨fun _ batches => put_handles_iff batches, fun clusterName walName => get_handles_iff clusterName walName⟩

/-- A block of a segment of two bytes. -/
def halfSegment (walName : Name) : PutRequest := ⟨"c".toList, walName, [7], 2, 0, false⟩

/-- A file system without open files. -/
def nothingOpen (fs : Fs Name UInt8) : Table Unit Name UInt8 Msg := { world := ⟨fs, []⟩ }

/-- A stream that goes on with another file. -/
def changesName : List Batch :=
  [⟨halfSegment "000000010000000000000001".toList, []⟩, ⟨halfSegment "000000010000000000000002".toList, []⟩]

def storedSegment : Fs Name UInt8 :=
  Fs.single (getWALArchivePath "c".toList "000000010000000000000001".toList)
    (plainCodec.delim 2 ++ plainCodec.startBlock 2 ++ appendFixed64 2 ++ [7, 8])

/-- **Files stay open**: that of a `Put` whose second block is refused, and that of a `Get` that has succeeded. -/
theorem handles_leak :
    (evalFiles () (put plainDeps plainCodec ⟨false, false⟩ (fun _ => 0) (.cert "u@c".toList) changesName) (fun _ => none)
      (nothingOpen Fs.empty)).2.opened.length ≠ (nothingOpen Fs.empty).opened.length ∧
    ((getWALAt plainDeps plainCodec (.cert "u@c".toList) "c".toList "000000010000000000000001".toList).eval
      (handleSem Unit Name UInt8 Msg) () (fun _ => none) (nothingOpen storedSegment)).1 = .ok () ∧
    ((getWALAt plainDeps plainCodec (.cert "u@c".toList) "c".toList "000000010000000000000001".toList).eval
      (handleSem Unit Name UInt8 Msg) () (fun _ => none) (nothingOpen storedSegment)).2.opened.length ≠
        (nothingOpen storedSegment).opened.length := by
  refine ⟨by decide +kernel, ?_, by decide +kernel⟩
  rfl

end Klio

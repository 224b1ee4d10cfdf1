import Klio.Proof.PutFrame
import Klio.Proof.Session

/-!
# What the end of an upload says about the archive

A client sends the blocks of one file and waits for the end of the call, or does not. The handler stores
what it has received when `Drain` returns an error, whichever it is; so the file is there when all blocks
were received, which the client cannot know.

* `StorePh`, `storing`: the handler, over the blocks of the whole stream; `servePut_stores`: that it
  proceeds so as long as `Drain` does not fail.
* `UpPh`, `upProto`: a client that sends these blocks; `UpInv`: both ends together, and the files.
* `closed_segment_archived`: a segment that was closed is in the archive, unless `Recv` has failed.
-/

namespace Klio

open Lib Prog List

variable {D : Deps} {K : Codec} {I : Implementation} {rand : ℕ → ℕ} {peer : Peer} {rs : List PutRequest}

/-! ## What a stream publishes -/

def tasksAfter (tasks : List (Name × Name)) : (o : FsOp Name UInt8 Msg) → o.Res → List (Name × Name)
  | .emit (.walTask clusterName walName), r => match (r : Except FsErr Unit) with
    | .ok _ => tasks ++ [(clusterName, walName)]
    | .error _ => tasks
  | _, _ => tasks

/-- The file of a stream that has ended. -/
def endPath (rs : List PutRequest) : Path :=
  if UInt64.ofNat (blocksPayload rs).length = (firstBlock rs).segmentSize then finalPath (firstBlock rs)
  else stagingPath (firstBlock rs)

/-- The task for it. A stream without blocks has none. -/
def streamTasks (rs : List PutRequest) : List (Name × Name) :=
  if rs = [] then [] else [((firstBlock rs).clusterName, (endPath rs).getLastD ".".toList)]

theorem endPath_of_reached (h : SizeReached rs) : endPath rs = finalPath (firstBlock rs) := if_pos h

theorem endPath_of_short (h : ¬ SizeReached rs) : endPath rs = stagingPath (firstBlock rs) := if_neg h

/-- Anything but the publication of a WAL task. -/
def NoTask (o : FsOp Name UInt8 Msg) : Prop := ∀ c n, o ≠ .emit (.walTask c n)

theorem Mute.noTask {o : FsOp Name UInt8 Msg} (h : Mute o) : NoTask o := by
  rintro c n rfl
  exact h

namespace PutHandler

theorem feedback_noTask (h : PutHandler) : h.feedback.Uses NoTask := by
  unfold feedback setFeedback
  split
  · trivial
  · exact ⟨nofun, fun _ => trivial⟩

theorem closeBuffer_noTask (h : PutHandler) : h.closeBuffer.Uses NoTask :=
  (closeBuffer_mute h).uses fun _ _ => Mute.noTask

theorem processBatch_noTask (h : PutHandler) (batch : Batch) : (h.processBatch D K rand peer batch).Uses NoTask := by
  refine uses_bind (fun h₁ => ?_) ((validateBlocks_mute batch.blocks h).uses fun _ _ => Mute.noTask)
  refine uses_bind (fun h₂ => ?_) ((withBuffer_mute h₁ _ fun w => uses_map (writeBlock_mute w.inner _)).uses fun _ _ => Mute.noTask)
  refine uses_bind (fun _ => ?_) (feedback_noTask _)
  refine uses_bind (fun h₃ => ?_) ((withBuffer_mute _ _ fun w => uses_map (directFlush_mute w.inner)).uses fun _ _ => Mute.noTask)
  refine uses_bind (fun _ => ?_) (feedback_noTask _)
  trivial

end PutHandler

/-- How far a stream is, with the tasks that the queue has taken. -/
structure TaskPh where
  stage : Stage.Phase UInt8
  tasks : List (Name × Name)

def tasking (sp : Stage.Spec Name UInt8 Msg) : Proto (FsOp Name UInt8 Msg) FsOp.Res TaskPh where
  allowed ph o := Stage.allowed sp ph.stage o
  next ph o r := ⟨Stage.next ph.stage o r, tasksAfter ph.tasks o r⟩

theorem tasksAfter_of_noTask {o : FsOp Name UInt8 Msg} (h : NoTask o) (tasks : List (Name × Name)) (r : o.Res) :
    tasksAfter tasks o r = tasks := by
  unfold tasksAfter
  split
  · rename_i c n _
    exact absurd rfl (h c n)
  · rfl

theorem sat_tasking {α : Type} {sp : Stage.Spec Name UInt8 Msg} {Q : α → Stage.Phase UInt8 → Prop}
    {X : Err → Stage.Phase UInt8 → Prop} {tasks : List (Name × Name)} : ∀ {p : FsProg Msg α} {ph : Stage.Phase UInt8},
    p.Sat (Stage.proto sp) Q X ph → p.Uses NoTask →
      p.Sat (tasking sp) (fun a ph' => Q a ph'.stage ∧ ph'.tasks = tasks) (fun _ _ => True) ⟨ph, tasks⟩ := by
  intro p
  induction p with
  | ret a => exact fun h _ => ⟨h, rfl⟩
  | err e => exact fun _ _ => trivial
  | call o k ih =>
    intro ph h hu
    refine ⟨h.1, fun r => ?_⟩
    have hnext : (tasking sp).next ⟨ph, tasks⟩ o r = ⟨Stage.next ph o r, tasks⟩ :=
      congrArg (TaskPh.mk _) (tasksAfter_of_noTask hu.1 tasks r)
    rw [hnext]
    exact ih r (h.2 r) (hu.2 r)

/-- The tasks have nothing to do with how far the file is. -/
theorem sat_stage {α : Type} {sp : Stage.Spec Name UInt8 Msg} {Q : α → Stage.Phase UInt8 → Prop} {X : Err → Stage.Phase UInt8 → Prop}
    {p : FsProg Msg α} {ph : TaskPh} (hp : p.Sat (Stage.proto sp) Q X ph.stage) :
    p.Sat (tasking sp) (fun a ph' => Q a ph'.stage) (fun e ph' => X e ph'.stage) ph := by
  induction p generalizing ph with
  | ret a => exact hp
  | err e => exact hp
  | call o k ih => exact ⟨hp.1, fun r => ih r (hp.2 r)⟩

/-- **The end of a stream** publishes the task of its file, if its blocks ask for it. -/
theorem finalize_tasks {h : PutHandler} {ph : Stage.Phase UInt8} {old : List (Name × Name)} (hb : Between D K rand peer rs rs h ph) :
    (h.finalize I).Sat (tasking (putSpec D K peer rs)) (fun _ ph => Ended K rs ph.stage ∧
      ((∀ r ∈ rs, r.sendToTier2 = true) → ph.tasks = old ++ streamTasks rs)) (fun _ _ => True) ⟨ph, old⟩ := by
  have hquiet : ∀ text w f, (PutHandler.send text (.putResult w f)).Uses NoTask := by
    refine fun text w f => ⟨nofun, fun (r : Except FsErr Unit) => ?_⟩
    cases r <;> trivial
  rcases hb.writer with ⟨hrs, hw, hph⟩ | ⟨hne, w, hw, -⟩
  · have hsend : (h.finalize I).Uses NoTask := by
      unfold PutHandler.finalize
      rw [hw]
      exact hquiet _ _ _
    refine sat_mono (sat_tasking (finalize_sat (I := I) hb) hsend) ?_ fun _ _ h => h
    rintro - ph' ⟨he, htasks⟩
    refine ⟨he, fun _ => ?_⟩
    rw [htasks, streamTasks, if_pos hrs, append_nil]
  unfold PutHandler.finalize
  rw [hw]
  refine sat_bind (sat_tasking (closeBuffer_sat hb hne) h.closeBuffer_noTask) ?_
  rintro h' ⟨ph₁, tasks⟩ ⟨⟨hh, hst, he, w', hw', hfin, hstg⟩, htasks⟩
  obtain rfl : tasks = old := htasks
  have hrep : MayReport K rs (h'.flushedBytes + h'.blockMeta.walStartLSN) ph₁ := by
    rw [hh, hb.flushed]
    exact mayReport_of prefix_rfl hne hb.accepted prefix_rfl (.inr (he.durable hst))
  have hsend : (PutHandler.send "error while sending response: %v" (.putResult (h'.writtenBytes + h'.blockMeta.walStartLSN)
      (h'.flushedBytes + h'.blockMeta.walStartLSN))).Sat (Stage.proto (putSpec D K peer rs)) (fun _ ph' => ph' = ph₁)
      (fun _ ph => Stopped D K rand peer rs ph) ph₁ := send_sat hrep he
  refine sat_bind (sat_tasking hsend (hquiet _ _ _)) ?_
  rintro - ⟨ph₂, tasks⟩ ⟨hph₂, htasks₂⟩
  obtain rfl : ph₂ = ph₁ := hph₂
  obtain rfl : tasks = _ := htasks₂
  have hcluster : h'.blockMeta.clusterName = (firstBlock rs).clusterName := by
    rw [hh]
    exact (acceptBlocks_first hb.accepted hne).1
  have hpath : w'.walFilePath = endPath rs := by
    rcases he with ⟨hrs, -⟩ | ⟨d, rfl, -, hshort⟩ | ⟨hreached, rfl⟩
    · exact absurd hrs hne
    · rw [endPath_of_short hshort]
      exact hstg nofun
    · rw [endPath_of_reached hreached]
      exact hfin rfl
  unfold PutHandler.notifyTier2
  split
  · -- the last block does not ask for the task
    rename_i hno
    refine ⟨he, fun hall => ?_⟩
    obtain ⟨r, hr, m₀, hlast⟩ := acceptBlocks_last hb.accepted hne
    rw [hh] at hno
    simp [hlast.tier2, hall r hr] at hno
  split
  · trivial
  rw [hw']
  refine sat_call trivial fun (r : Except FsErr Unit) => ?_
  rcases r with e | _
  · trivial
  refine ⟨he, fun _ => ?_⟩
  show _ ++ [(h'.blockMeta.clusterName, w'.walFilePath.getLastD ".".toList)] = _
  rw [hcluster, hpath, streamTasks, if_neg hne]

/-! ## The handler -/

/-- How far the handler is with the blocks of a stream. -/
structure StorePh where
  /-- The blocks that `Drain` has returned. -/
  taken : List PutRequest := []
  stage : Stage.Phase UInt8 := .start
  /-- The tasks that the queue has taken. -/
  tasks : List (Name × Name) := []
  /-- What the handler has returned. -/
  ended : Option Bool := none

/-- The task for the file of a stream. -/
def taskOf (r : PutRequest) : Name × Name := (r.clusterName, (finalPath r).getLastD ".".toList)

/-- What a call has done that returns without an error. -/
structure CallDone (K : Codec) (rs : List PutRequest) (ph : StorePh) : Prop where
  ended : Ended K rs ph.stage
  task : rs ≠ [] → (∀ r ∈ rs, r.sendToTier2 = true) → SizeReached rs → taskOf (firstBlock rs) ∈ ph.tasks

/-- What the handler does in a phase. -/
def storeAllowed (D : Deps) (K : Codec) (peer : Peer) (rs : List PutRequest) (ph : StorePh) : SrvOp → Prop
  | .files o => ph.ended = none ∧ Stage.allowed (putSpec D K peer rs) ph.stage o
  | .returned ok => ph.ended = none ∧ (ok = true → CallDone K rs ph)
  | .drain => ph.ended = none
  | .loadWrite | .loadFlush | .next | .closeDone => False
  | _ => True

/-- The phase of the handler after an answer. -/
def storeNext (ph : StorePh) : (o : SrvOp) → o.Res → StorePh
  | .drain, d => match (d : Drained) with
    | .batch b => { ph with taken := ph.taken ++ b.blocks }
    | _ => ph
  | .files o, r => { ph with stage := Stage.next ph.stage o r, tasks := tasksAfter ph.tasks o r }
  | .returned ok, _ => { ph with ended := some ok }
  | _, _ => ph

/-- The handler stores the blocks `rs`. -/
def storing (D : Deps) (K : Codec) (peer : Peer) (rs : List PutRequest) : Proto SrvOp SrvOp.Res StorePh :=
  ⟨storeAllowed D K peer rs, storeNext⟩

/-- `Drain` returns these blocks, and `io.EOF` after the last. -/
def Whole (rs : List PutRequest) (ph : StorePh) : (o : SrvOp) → o.Res → Prop
  | .drain, d => match (d : Drained) with
    | .batch b => ph.taken ++ b.blocks <+: rs
    | .eof => ph.taken = rs
    | .failed => False
  | _, _ => True

theorem onFiles_stores {α : Type} {Q : α → TaskPh → Prop} {X : Err → TaskPh → Prop} {p : FsProg Msg α} {ph : StorePh}
    (hover : ph.ended = none) (hp : p.Sat (tasking (putSpec D K peer rs)) Q X ⟨ph.stage, ph.tasks⟩) :
    (onFiles p).SatIf (storing D K peer rs) (Whole rs)
      (fun a ph' => Q a ⟨ph'.stage, ph'.tasks⟩ ∧ ph'.taken = ph.taken ∧ ph'.ended = none) (fun _ ph' => ph'.ended = none) ph := by
  induction p generalizing ph with
  | ret a => exact ⟨hp, rfl, hover⟩
  | err e => exact hover
  | call o k ih =>
    refine satIf_call ⟨hover, hp.1⟩ fun r _ => ?_
    have hnext : (storeNext ph (.files o) r).ended = none := hover
    exact ih r hnext (hp.2 r)

variable {o : SrvOp} {X : Err → StorePh → Prop}

theorem srv_satIf_run {Q : Unit → StorePh → Prop} {h : o.Res = Unit} {ph : StorePh}
    (ha : storeAllowed D K peer rs ph o) (hq : ∀ r, Q () (storeNext ph o r)) :
    (SrvOp.run o h).SatIf (storing D K peer rs) (Whole rs) Q X ph :=
  ⟨ha, fun r _ => hq r⟩

variable (ph : StorePh)

theorem storeFeedback_stores (w f : UInt64) :
    (storeFeedback w f).SatIf (storing D K peer rs) (Whole rs) (fun _ ph' => ph' = ph) X ph := by
  unfold storeFeedback
  split
  · exact rfl
  refine satIf_bind (Q := fun _ ph' => ph' = ph) (srv_satIf_run trivial fun _ => rfl) ?_
  rintro - ph' rfl
  refine satIf_bind (Q := fun _ ph'' => ph'' = ph') (srv_satIf_run trivial fun _ => rfl) ?_
  rintro - ph'' rfl
  exact srv_satIf_run trivial fun _ => rfl

theorem stopFeedback_stores :
    stopFeedback.SatIf (storing D K peer rs) (Whole rs) (fun _ ph' => ph' = ph) X ph := by
  refine satIf_bind (Q := fun _ ph' => ph' = ph) (srv_satIf_run trivial fun _ => rfl) ?_
  rintro - ph' rfl
  exact srv_satIf_run trivial fun _ => rfl

/-- **A batch**: its blocks are accepted, written, flushed and counted. -/
theorem processBatchWith_stores {h : PutHandler} {acc : List PutRequest} {batch : Batch} (hover : ph.ended = none)
    (htaken : ph.taken = acc ++ batch.blocks) (hpre : acc ++ batch.blocks <+: rs) (hb : Between D K rand peer rs acc h ph.stage) :
    (h.processBatchWith onFiles storeFeedback (fun payload => SrvOp.run (.flushed payload) rfl) D K rand peer batch).SatIf
      (storing D K peer rs) (Whole rs)
      (fun h' ph' => Between D K rand peer rs ph'.taken h' ph'.stage ∧ ph'.ended = none) (fun _ ph' => ph'.ended = none) ph := by
  obtain ⟨s, -, hpos⟩ := hb.position
  have hne : acc ++ batch.blocks ≠ [] := by simp [Batch.blocks]
  refine satIf_bind (onFiles_stores hover (sat_stage (validateBlocks_sat _ s batch.blocks acc h ph.stage hpre hb.accepted hpos))) ?_
  rintro h₁ ph₁ ⟨⟨hacc, hwr, hfl, hpos₁⟩, htaken₁, hover₁⟩
  obtain ⟨-, ho⟩ := hpos₁.resolve_left fun h0 => hne h0.1
  refine satIf_bind (onFiles_stores hover₁ (sat_stage (writeBlock_put_sat ho _))) ?_
  rintro h₂ ph₂ ⟨⟨hh₂, ho₂⟩, htaken₂, hover₂⟩
  refine satIf_bind (storeFeedback_stores ph₂ _ _) ?_
  rintro - ph₂' rfl
  refine satIf_bind (onFiles_stores hover₂ (sat_stage (flushBuffer_sat (by exact ho₂)))) ?_
  rintro h₃ ph₃ ⟨⟨hh₃, hset⟩, htaken₃, hover₃⟩
  refine satIf_bind (Q := fun _ ph' => ph' = ph₃) (srv_satIf_run trivial fun _ => rfl) ?_
  rintro - ph₃' rfl
  refine satIf_bind (storeFeedback_stores ph₃' _ _) ?_
  rintro - ph₄ rfl
  have htake : ph₄.taken = acc ++ batch.blocks := by rw [htaken₃, htaken₂, htaken₁, htaken]
  refine ⟨?_, hover₃⟩
  rw [htake]
  exact hb.next hacc hwr hfl hh₂ hh₃ hset

/-- **The end of a stream**, once all its blocks were taken. -/
theorem finalize_stores {h : PutHandler} {ph : StorePh} (hover : ph.ended = none) (hb : Between D K rand peer rs rs h ph.stage) :
    (onFiles (h.finalize I)).SatIf (storing D K peer rs) (Whole rs) (fun _ ph' => CallDone K rs ph' ∧ ph'.ended = none)
      (fun _ ph' => ph'.ended = none) ph := by
  refine satIf_mono (fun _ _ ha => ha) rfl (onFiles_stores hover (finalize_tasks hb)) ?_ fun _ _ hx => hx
  rintro - ph' ⟨⟨he, htasks⟩, -, hover'⟩
  refine ⟨⟨he, fun hne hall hsize => ?_⟩, hover'⟩
  -- a file that is complete was renamed
  rw [show ph'.tasks = _ from htasks hall, streamTasks, if_neg hne, endPath_of_reached hsize]
  exact mem_append_right _ mem_cons_self

/-- **The handler stores the blocks of the stream**, as long as `Drain` does not fail. -/
theorem serve_stores : ∀ (n : ℕ) (h : PutHandler) (ph : StorePh), ph.ended = none → Between D K rand peer rs ph.taken h ph.stage →
    (PutHandler.serve D K I rand peer n h).SatIf (storing D K peer rs) (Whole rs) (fun _ _ => True) (fun _ _ => True) ph := by
  intro n
  induction n with
  | zero => intro h ph _ _; trivial
  | succ n ih =>
    intro h ph hover hb
    refine satIf_call hover fun (d : Drained) hd => ?_
    cases d with
    | failed => exact hd.elim
    | eof =>
      have htaken : ph.taken = rs := hd
      rw [htaken] at hb
      refine satIf_bind (stopFeedback_stores ph) ?_
      rintro - ph' rfl
      refine satIf_bind (Q := fun res ph' => (res.isOk = true → CallDone K rs ph') ∧ ph'.ended = none)
        (satIf_attempt (satIf_mono (fun _ _ ha => ha) rfl (finalize_stores hover hb) ?_ ?_)) ?_
      · rintro - ph'' ⟨hdone, hover''⟩
        exact ⟨fun _ => hdone, hover''⟩
      · intro e ph'' hover''
        exact ⟨by rintro ⟨⟩, hover''⟩
      · rintro res ph'' ⟨hdone, hover''⟩
        exact srv_satIf_run ⟨hover'', hdone⟩ fun _ => trivial
    | batch b =>
      refine satIf_bind (Q := Prog.Ends _ _)
        (satIf_attempt (processBatchWith_stores (storeNext ph .drain (.batch b)) hover rfl hd hb)) ?_
      intro res ph' hres
      cases res with
      | ok h' => exact ih h' ph' hres.2 hres.1
      | error e =>
        refine satIf_bind (stopFeedback_stores ph') ?_
        rintro - ph'' rfl
        exact srv_satIf_run ⟨hres, by simp⟩ fun _ => trivial

theorem servePut_stores (n : ℕ) :
    (servePut D K I rand peer n).SatIf (storing D K peer rs) (Whole rs) (fun _ _ => True) (fun _ _ => True) {} := by
  unfold servePut
  split
  · exact srv_satIf_run ⟨rfl, by simp⟩ fun _ => trivial
  · exact serve_stores n {} {} rfl ⟨rfl, rfl, rfl, .inl ⟨rfl, rfl, rfl⟩⟩

/-! ## The client -/

/-- How far a client is that sends the blocks of one file. -/
structure UpPh where
  stream : Option ℕ := none
  /-- The blocks that `Send` took. -/
  sent : List (List UInt8) := []
  /-- `CloseSend` has returned without an error. -/
  half : Bool := false
  /-- The reader has seen the end of the stream. -/
  acked : Bool := false

/-- What the client does in a phase. -/
def upAllowed (g : GrpcWALStream) (blocks : List (List UInt8)) (ph : UpPh) : SesOp → Prop
  | .put g' => ph.stream = none ∧ g' = g
  | .send k block => ph.stream = some k ∧ ph.sent ++ [block] <+: blocks
  | .closeSend k => ph.stream = some k ∧ ph.sent = blocks
  | .awaitAck k => ph.stream = some k
  | .ackedErr _ | .recv _ => True
  | _ => False

/-- The phase of the client after an answer. -/
def upNext (ph : UpPh) : (o : SesOp) → o.Res → UpPh
  | .put _, r => match (r : Except Err ℕ) with
    | .ok k => { ph with stream := some k }
    | .error _ => ph
  | .send _ block, r => match (r : Except Err Unit) with
    | .ok _ => { ph with sent := ph.sent ++ [block] }
    | .error _ => ph
  | .closeSend _, r => match (r : Except Err Unit) with
    | .ok _ => { ph with half := true }
    | .error _ => ph
  | .awaitAck _, failed => match (failed : Bool) with
    | true => ph
    | false => { ph with acked := true }
  | _, _ => ph

/-- The client sends these blocks. -/
def upProto (g : GrpcWALStream) (blocks : List (List UInt8)) : Proto SesOp SesOp.Res UpPh := ⟨upAllowed g blocks, upNext⟩

variable {g : GrpcWALStream} {blocks : List (List UInt8)}

theorem sendAll_sat : ∀ (left : List (List UInt8)) (ph : UpPh) (k : ℕ), ph.stream = some k → ph.sent ++ left = blocks →
    (sendAll k left).Sat (upProto g blocks) (fun _ ph' => ph' = { ph with sent := blocks }) (fun _ _ => True) ph := by
  intro left
  induction left with
  | nil =>
    intro ph k _ hsent
    rw [append_nil] at hsent
    subst hsent
    exact rfl
  | cons block left ih =>
    intro ph k hk hsent
    have happ : ph.sent ++ [block] ++ left = blocks := by rw [append_assoc]; exact hsent
    refine sat_call trivial fun (failed : Bool) => ?_
    cases failed with
    | true => trivial
    | false =>
      refine sat_call ⟨hk, ⟨left, happ⟩⟩ fun (r : Except Err Unit) => ?_
      cases r with
      | error e => trivial
      | ok _ => exact ih { ph with sent := ph.sent ++ [block] } k hk happ

theorem segmentClient_sat : (segmentClient g blocks).Sat (upProto g blocks) (fun _ ph => ph.acked = true) (fun _ _ => True) {} := by
  refine sat_call ⟨rfl, rfl⟩ fun (r : Except Err ℕ) => ?_
  rcases r with e | k
  · trivial
  refine sat_bind (sendAll_sat blocks { stream := some k } k rfl rfl) ?_
  rintro - ph rfl
  refine sat_call ⟨rfl, rfl⟩ fun (r : Except Err Unit) => ?_
  rcases r with e | _
  · trivial
  refine sat_call rfl fun (failed : Bool) => ?_
  cases failed with
  | true => trivial
  | false => exact rfl

/-! ## Both ends -/

def requests (clusterName : Name) (g : GrpcWALStream) (blocks : List (List UInt8)) : List PutRequest :=
  blocks.map (g.request clusterName)

@[simp] theorem requests_append (clusterName : Name) (a b : List (List UInt8)) :
    requests clusterName g (a ++ b) = requests clusterName g a ++ requests clusterName g b := map_append

@[simp] theorem requests_singleton (clusterName : Name) (block : List UInt8) :
    requests clusterName g [block] = [g.request clusterName block] := rfl

theorem requests_prefix {clusterName : Name} {a b : List (List UInt8)} (h : a <+: b) :
    requests clusterName g a <+: requests clusterName g b := h.map _

theorem requests_payload (clusterName : Name) (blocks : List (List UInt8)) :
    blocksPayload (requests clusterName g blocks) = blocks.flatten := by
  rw [blocksPayload, requests, flatMap_map, flatten_eq_flatMap]
  rfl

variable {clusterName : Name} {fs₀ fs fs' : Fs Name UInt8} {t t' : StreamState} {u : UpPh} {r : ReaderPh}

/-- **The call of an upload**, as long as `Drain` has not failed. -/
structure CallInv (D : Deps) (K : Codec) (peer : Peer) (clusterName : Name) (g : GrpcWALStream) (blocks : List (List UInt8))
    (fs₀ fs : Fs Name UInt8) (srv : SrvState) (sent : List (List UInt8)) (r : ReaderPh) (ph : StorePh) : Prop where
  account : ph.taken ++ srv.wire = requests clusterName g sent
  files : Stage.Leaves (putSpec D K peer (requests clusterName g blocks)) fs₀ fs ph.stage
  published : srv.published = ph.tasks
  returned : srv.returned = ph.ended
  done : ph.ended = some true → CallDone K (requests clusterName g blocks) ph
  seen : r.ended = some false → ph.ended = some true

/-- **Both ends of an upload**, and the files. -/
structure UpInv (D : Deps) (K : Codec) (peer : Peer) (clusterName : Name) (g : GrpcWALStream) (blocks : List (List UInt8))
    (fs₀ fs : Fs Name UInt8) (opened : ℕ) (t : StreamState) (u : UpPh) (r : ReaderPh) (h : Option StorePh) : Prop where
  stream : u.stream = none ∧ opened = 0 ∨ u.stream = some 0 ∧ opened = 1
  fresh : opened = 0 → t = {} ∧ r = {}
  info : opened = 1 → t.info = g
  sent : u.sent <+: blocks
  half : t.srv.halfClosed = true → u.sent = blocks
  acked : u.acked = true → t.ackDone = some false
  ended : ∀ b, t.ackDone = some b → r.ended = some b
  call : t.srv.recvFailed = false → ∃ ph, h = some ph ∧ CallInv D K peer clusterName g blocks fs₀ fs t.srv u.sent r ph

theorem emitted_frame (s : SrvState) (c : SrvChoice) (o : FsOp Name UInt8 Msg) :
    (s.emitted c o).wire = s.wire ∧ (s.emitted c o).halfClosed = s.halfClosed ∧ (s.emitted c o).recvFailed = s.recvFailed ∧
      (s.emitted c o).returned = s.returned := by
  unfold SrvState.emitted
  split
  · exact ⟨rfl, rfl, rfl, rfl⟩
  · split <;> exact ⟨rfl, rfl, rfl, rfl⟩
  · exact ⟨rfl, rfl, rfl, rfl⟩

theorem emitted_published (s : SrvState) (c : SrvChoice) (o : FsOp Name UInt8 Msg) (fs : Fs Name UInt8) :
    (s.emitted c o).published = tasksAfter s.published o (Fs.exec o c.toFault fs).1 := by
  cases o with
  | emit m =>
    cases m with
    | walTask cluster wal => cases c <;> rfl
    | _ => rfl
  | _ => rfl

variable {c : SrvChoice} {a : o.Res} {srv srv' : SrvState}

/-- **A step of the handler** in a call whose `Drain` has not failed yet. -/
theorem CallInv.handler_step {sent : List (List UInt8)} {ph : StorePh}
    (hi : CallInv D K peer clusterName g blocks fs₀ fs srv sent r ph) (hsent : sent <+: blocks)
    (hhalf : srv.halfClosed = true → sent = blocks) (ha : storeAllowed D K peer (requests clusterName g blocks) ph o)
    (he : SrvState.exec o c (srv, fs) = some (a, (srv', fs'))) (hrecv : srv'.recvFailed = false) :
    Whole (requests clusterName g blocks) ph o a ∧ CallInv D K peer clusterName g blocks fs₀ fs' srv' sent r (storeNext ph o a) := by
  have hacc := hi.account
  have hpre : ph.taken ++ srv.wire <+: requests clusterName g blocks := hacc ▸ requests_prefix hsent
  have hopen : ph.ended = none → ph.ended ≠ some true := fun hnone hno => by cases hnone.symm.trans hno
  cases o with
  | drain =>
    have hover : ph.ended = none := ha
    have heof : srv.wire.isEmpty = true ∧ srv.halfClosed = true ∧ srv.broken = false → some (Drained.eof, (srv, fs)) = some (a, (srv', fs')) →
        Whole (requests clusterName g blocks) ph .drain a ∧
          CallInv D K peer clusterName g blocks fs₀ fs' srv' sent r (storeNext ph .drain a) := by
      rintro ⟨hwire, hclosed, -⟩ heq
      cases heq
      rw [isEmpty_iff.mp hwire, append_nil, hhalf hclosed] at hacc
      exact ⟨hacc, hi⟩
    cases c with
    | none =>
      simp only [SrvState.exec] at he
      split at he
      · exact heof ‹_› he
      · cases he
    | fault k =>
      simp only [SrvState.exec] at he
      split at he
      · exact heof ‹_› he
      · cases he
    | ended => cases he; cases hrecv
    | take n =>
      rcases hw : srv.wire with _ | ⟨first, rest⟩
      · simp only [SrvState.exec, hw] at he; cases he
      simp only [SrvState.exec, hw] at he
      cases he
      have hsplit : ph.taken ++ (first :: rest.take n) ++ rest.drop n = ph.taken ++ srv.wire := by
        rw [hw, append_assoc, cons_append, take_append_drop]
      refine ⟨?_, { hi with account := hsplit.trans hacc, done := fun hno => (hopen hover hno).elim }⟩
      exact (prefix_append _ _).trans (hsplit ▸ hpre)
  | files o =>
    obtain ⟨hover, hallowed⟩ := ha
    cases he
    obtain ⟨hwire, -, -, hret⟩ := emitted_frame srv c o
    refine ⟨trivial, ?_, ?_, ?_, ?_, fun hno => (hopen hover hno).elim, hi.seen⟩
    · exact hwire.symm ▸ hacc
    · exact Stage.exec_leaves (staging_ne_final _) hallowed hi.files c.toFault
    · rw [emitted_published srv c o fs, hi.published]
      rfl
    · exact hret.trans hi.returned
  | returned ok =>
    obtain ⟨hover, hdone⟩ := ha
    cases he
    refine ⟨trivial, { hi with returned := rfl, done := fun hok => ?_, seen := fun hend => (hopen hover (hi.seen hend)).elim }⟩
    have hcall := hdone (Option.some.inj hok)
    exact ⟨hcall.ended, hcall.task⟩
  | awaitDone =>
    simp only [SrvState.exec] at he
    split at he <;> cases he
    exact ⟨trivial, hi⟩
  | loadWrite => exact ha.elim
  | loadFlush => exact ha.elim
  | next => exact ha.elim
  | closeDone => exact ha.elim
  | _ => cases he; exact ⟨trivial, { hi with }⟩

theorem sender_frame {sp : SenderPh} (ha : senderAllowed sp o)
    (he : SrvState.exec o c (srv, fs) = some (a, (srv', fs'))) :
    fs' = fs ∧ srv'.wire = srv.wire ∧ srv'.halfClosed = srv.halfClosed ∧ srv'.recvFailed = srv.recvFailed ∧
      srv'.published = srv.published ∧ srv'.returned = srv.returned := by
  cases o with
  | files o =>
    cases o with
    | emit m =>
      cases m with
      | putResult w f =>
        cases he
        have hro : Fs.ReadOnly (.emit (.putResult w f) : FsOp Name UInt8 Msg) := trivial
        exact ⟨Fs.exec_readOnly hro _ _, rfl, rfl, rfl, rfl, rfl⟩
      | _ => exact ha.elim
    | _ => exact ha.elim
  | next =>
    cases c <;> simp only [SrvState.exec] at he <;> (try split at he) <;> (try split at he) <;> cases he <;>
      exact ⟨rfl, rfl, rfl, rfl, rfl, rfl⟩
  | loadWrite => cases he; exact ⟨rfl, rfl, rfl, rfl, rfl, rfl⟩
  | loadFlush => cases he; exact ⟨rfl, rfl, rfl, rfl, rfl, rfl⟩
  | closeDone => cases he; exact ⟨rfl, rfl, rfl, rfl, rfl, rfl⟩
  | _ => exact ha.elim

theorem recvFailed_mono
    (he : SrvState.exec o c (srv, fs) = some (a, (srv', fs'))) (h : srv'.recvFailed = false) : srv.recvFailed = false := by
  cases o with
  | files o => cases he; rwa [(emitted_frame srv c o).2.2.1] at h
  | drain => cases c <;> simp only [SrvState.exec] at he <;> (try split at he) <;> cases he <;> first | exact h | cases h
  | awaitDone => simp only [SrvState.exec] at he; split at he <;> cases he; exact h
  | next => cases c <;> simp only [SrvState.exec] at he <;> (try split at he) <;> (try split at he) <;> cases he <;> exact h
  | _ => cases he; exact h

variable {h : Option StorePh} {opened : ℕ}

theorem UpInv.handler_step {srv' : SrvState}
    (hi : UpInv D K peer clusterName g blocks fs₀ fs opened t u r h) (hopen : opened ≠ 0)
    (ha : ((storing D K peer (requests clusterName g blocks)).assuming (Whole (requests clusterName g blocks))).allowed h o)
    (he : SrvState.exec o c (t.srv, fs) = some (a, (srv', fs'))) :
    UpInv D K peer clusterName g blocks fs₀ fs' opened { t with srv := srv' } u r
      (((storing D K peer (requests clusterName g blocks)).assuming (Whole (requests clusterName g blocks))).next h o a) where
  stream := hi.stream
  fresh hno := absurd hno hopen
  info := hi.info
  sent := hi.sent
  half hh := hi.half ((srvExec_frame he).2.1 ▸ hh)
  acked := hi.acked
  ended := hi.ended
  call hrecv := by
    obtain ⟨ph, rfl, hcall⟩ := hi.call (recvFailed_mono he hrecv)
    obtain ⟨hwhole, hcall'⟩ := hcall.handler_step hi.sent hi.half (ha ph rfl) he hrecv
    exact ⟨_, if_pos hwhole, hcall'⟩

theorem UpInv.sender_step {srv' : SrvState} {sp : SenderPh}
    (hi : UpInv D K peer clusterName g blocks fs₀ fs opened t u r h) (hopen : opened ≠ 0) (ha : senderAllowed sp o)
    (he : SrvState.exec o c (t.srv, fs) = some (a, (srv', fs'))) :
    UpInv D K peer clusterName g blocks fs₀ fs' opened { t with srv := srv' } u r h := by
  obtain ⟨rfl, hwire, hhalf, hrecv, hpub, hret⟩ := sender_frame ha he
  refine { hi with fresh := fun hno => absurd hno hopen, half := fun hh => hi.half (hhalf ▸ hh), call := fun hr => ?_ }
  obtain ⟨ph, hph, hcall⟩ := hi.call (hrecv ▸ hr)
  exact ⟨ph, hph, { hcall with
    account := hwire.symm ▸ hcall.account
    published := hpub.trans hcall.published
    returned := hret.trans hcall.returned }⟩

variable {st st' : SesState}

theorem UpInv.of_eq (hi : UpInv D K peer clusterName g blocks fs₀ st.files st.opened (st.streams 0) u r h)
    (hopened : st'.opened = st.opened) (hstream : st'.streams 0 = st.streams 0) (hfiles : st'.files = st.files) :
    UpInv D K peer clusterName g blocks fs₀ st'.files st'.opened (st'.streams 0) u r h := by
  rw [hopened, hstream, hfiles]
  exact hi

theorem UpInv.opened_le (hi : UpInv D K peer clusterName g blocks fs₀ fs opened t u r h) : opened ≤ 1 := by
  rcases hi.stream with ⟨-, ho⟩ | ⟨-, ho⟩ <;> omega

variable {sees : SeesEOF}

theorem recv_cases {k : ℕ} {a : Recvd}
    (he : SesState.exec clusterName sees (.recv k) c st = some (a, st')) :
    k < st.opened ∧ (∃ n, st' = st.set k { st.streams k with received := n }) ∧ (a = .eof → sees (st.streams k).srv = true) := by
  simp only [SesState.exec] at he
  split at he
  · cases he
  rename_i hopen
  have hself : st = st.set k { st.streams k with received := (st.streams k).received } := (SesState.set_self st k).symm
  refine ⟨Nat.lt_of_not_le hopen, ?_⟩
  split at he
  · cases he
    exact ⟨⟨_, hself⟩, by simp⟩
  split at he
  · cases he
    exact ⟨⟨_, rfl⟩, by simp⟩
  split at he
  · cases he
  cases hsee : sees (st.streams k).srv with
  | true =>
    cases he
    exact ⟨⟨_, hself⟩, fun _ => rfl⟩
  | false =>
    rw [hsee] at he
    cases he
    exact ⟨⟨_, hself⟩, by simp⟩

theorem UpInv.set_reader (hi : UpInv D K peer clusterName g blocks fs₀ fs opened t u r h) {r' : ReaderPh} (hopen : opened ≠ 0)
    (hinfo : t'.info = t.info) (hsrv : t'.srv = t.srv) (hacked : u.acked = true → t'.ackDone = some false)
    (hended : ∀ b, t'.ackDone = some b → r'.ended = some b)
    (hseen : r'.ended = some false → r.ended = some false ∨ t.srv.returned = some true) :
    UpInv D K peer clusterName g blocks fs₀ fs opened t' u r' h := by
  refine ⟨hi.stream, fun hno => absurd hno hopen, fun ho => hinfo.trans (hi.info ho), hi.sent, ?_, hacked, hended, ?_⟩
  · rw [hsrv]
    exact hi.half
  rw [hsrv]
  intro hr
  obtain ⟨ph, hph, hcall⟩ := hi.call hr
  refine ⟨ph, hph, { hcall with seen := fun hend => ?_ }⟩
  rcases hseen hend with hend | hret
  · exact hcall.seen hend
  · exact hcall.returned.symm.trans hret

/-- A step of the reader of a stream; only that of the first has anything to read. -/
theorem UpInv.reader_step (hsees : ∀ x, sees x = true → x.returned = some true) {k : ℕ} {rp : ReaderPh}
    {o : SesOp} {a : o.Res} (hi : UpInv D K peer clusterName g blocks fs₀ st.files st.opened (st.streams 0) u r h)
    (hk : k = 0 → rp = r) (ha : readerAllowed k rp o) (he : SesState.exec clusterName sees o c st = some (a, st')) :
    UpInv D K peer clusterName g blocks fs₀ st'.files st'.opened (st'.streams 0) u (if k = 0 then readerNext rp o a else r) h := by
  have hopen : r ≠ {} → st.opened ≠ 0 := fun hne h0 => hne (hi.fresh h0).2
  cases o with
  | place f =>
    cases he
    by_cases hk0 : k = 0
    · obtain rfl := hk hk0
      rw [if_pos hk0]
      have hpend : rp.pending = some f.flushLSN := ha
      have hne : rp ≠ {} := fun hno => by rw [hno] at hpend; cases hpend
      exact hi.set_reader (hopen hne) rfl rfl hi.acked hi.ended .inl
    · rw [if_neg hk0]
      exact hi
  | closeAck j failed =>
    cases he
    obtain ⟨rfl, hend⟩ := ha
    by_cases hj : j = 0
    · subst hj
      obtain rfl := hk rfl
      have hne : rp ≠ {} := fun hno => by rw [hno] at hend; cases hend
      refine hi.set_reader (hopen hne) rfl rfl (fun hacked => ?_) (fun b hb => hend.trans hb) .inl
      exact hend.symm.trans (hi.ended false (hi.acked hacked))
    · rw [if_neg hj]
      exact hi.of_eq rfl (SesState.set_streams_of_ne _ _ (Ne.symm hj)) rfl
  | recv j =>
    obtain ⟨rfl, hpend, hend⟩ := ha
    obtain ⟨hlt, ⟨n, rfl⟩, hsee⟩ := recv_cases he
    have hj : j = 0 := by have := hi.opened_le; omega
    subst hj
    obtain rfl := hk rfl
    have hnone : (st.streams 0).ackDone = none := by
      cases hack : (st.streams 0).ackDone with
      | none => rfl
      | some b => cases (hi.ended b hack).symm.trans hend
    refine hi.set_reader (Nat.ne_of_gt hlt) rfl rfl hi.acked (fun b hb => ?_) fun hseen => ?_
    · cases hnone.symm.trans hb
    · cases (a : Recvd) with
      | result w f => exact .inl hseen
      | failed => cases hseen
      | eof => exact .inr (hsees _ (hsee rfl))
  | _ => exact ha.elim

/-- **A step of the client.** -/
theorem UpInv.client_step {o : SesOp} {a : o.Res}
    (hi : UpInv D K peer clusterName g blocks fs₀ st.files st.opened (st.streams 0) u r h) (ha : upAllowed g blocks u o)
    (he : SesState.exec clusterName sees o c st = some (a, st')) :
    UpInv D K peer clusterName g blocks fs₀ st'.files st'.opened (st'.streams 0) (upNext u o a) r h := by
  -- the number of its stream
  have hstream : ∀ k, u.stream = some k → k = 0 ∧ st.opened = 1 := by
    intro k hk
    rcases hi.stream with ⟨hno, -⟩ | ⟨hs, ho⟩
    · cases hno.symm.trans hk
    · exact ⟨(Option.some.inj (hs.symm.trans hk)).symm, ho⟩
  cases o with
  | put g' =>
    obtain ⟨hnone, rfl⟩ := ha
    have hzero : st.opened = 0 := (hi.stream.resolve_right fun hno => by cases hnone.symm.trans hno.1).2
    obtain ⟨ht, hr⟩ := hi.fresh hzero
    rw [ht] at hi
    have hput : UpInv D K peer clusterName g' blocks fs₀ st.files (st.opened + 1)
        ((st.set st.opened { info := g' }).streams 0) { u with stream := some st.opened } r h := by
      rw [hzero, SesState.set_streams_self]
      exact { hi with
        stream := .inr ⟨rfl, rfl⟩
        fresh := nofun
        info := fun _ => rfl }
    cases c with
    | fault n => cases he; rw [← ht] at hi; exact hi
    | _ => cases he; exact hput
  | ackedErr k => cases he; exact hi
  | recv k =>
    obtain ⟨hlt, ⟨n, rfl⟩, -⟩ := recv_cases he
    have hk : k = 0 := by have := hi.opened_le; omega
    subst hk
    exact hi.set_reader (Nat.ne_of_gt hlt) rfl rfl hi.acked hi.ended .inl
  | send k block =>
    obtain ⟨hk, hpre⟩ := ha
    obtain ⟨rfl, hone⟩ := hstream k hk
    simp only [SesState.exec] at he
    split at he
    · cases he
      exact hi
    rename_i hup
    simp only [not_or, Bool.not_eq_true] at hup
    have hne : st.opened ≠ 0 := by omega
    have hsent : UpInv D K peer clusterName g blocks fs₀ st.files st.opened { st.streams 0 with
        srv := { (st.streams 0).srv with wire := (st.streams 0).srv.wire ++ [(st.streams 0).info.request clusterName block] } }
        { u with sent := u.sent ++ [block] } r h := by
      refine { hi with fresh := fun hno => absurd hno hne, sent := hpre, half := fun hno => ?_, call := fun hr => ?_ }
      · cases hup.2.1.symm.trans hno
      · obtain ⟨ph, hph, hcall⟩ := hi.call hr
        refine ⟨ph, hph, { hcall with account := ?_ }⟩
        rw [← append_assoc, hcall.account, hi.info hone, requests_append, requests_singleton]
    cases c with
    | fault n =>
      cases he
      refine { hi with fresh := fun hno => absurd hno hne, call := fun hr => ?_ }
      obtain ⟨ph, hph, hcall⟩ := hi.call hr
      exact ⟨ph, hph, { hcall with }⟩
    | _ =>
      cases he
      exact hsent
  | closeSend k =>
    obtain ⟨hk, hall⟩ := ha
    obtain ⟨rfl, hone⟩ := hstream k hk
    have hne : st.opened ≠ 0 := by omega
    have hclosed : UpInv D K peer clusterName g blocks fs₀ st.files st.opened
        { st.streams 0 with srv := { (st.streams 0).srv with halfClosed := true } } { u with half := true } r h := by
      refine { hi with fresh := fun hno => absurd hno hne, half := fun _ => hall, call := fun hr => ?_ }
      obtain ⟨ph, hph, hcall⟩ := hi.call hr
      exact ⟨ph, hph, { hcall with }⟩
    cases c with
    | fault n => cases he; exact hi
    | _ =>
      cases he
      exact hclosed
  | awaitAck k =>
    obtain ⟨rfl, hone⟩ := hstream k ha
    simp only [SesState.exec] at he
    split at he
    · rename_i hack
      cases he
      cases (a : Bool) with
      | true => exact hi
      | false => exact { hi with acked := fun _ => hack }
    · cases he
  | _ => exact ha.elim

/-! ## Every run -/

/-- The phases: a goroutine uses its own. -/
structure UploadPh where
  client : UpPh := {}
  reader : ReaderPh := {}
  handler : Option StorePh := some {}
  sender : SenderPh := {}

/-- What the reader of a stream does, if there is one. -/
def readerProto (k : ℕ) : Bool → Proto SesOp SesOp.Res ReaderPh
  | true => ⟨readerAllowed k, readerNext⟩
  | false => ⟨fun _ _ => False, readerNext⟩

/-- What the goroutines of an upload do; a client may have a reader for its results or not. -/
noncomputable def sendingProto (reads : Bool) (D : Deps) (K : Codec) (peer : Peer) (clusterName : Name) (g : GrpcWALStream)
    (blocks : List (List UInt8)) : SesThread → Proto SesOp SesOp.Res UploadPh
  | .client => (upProto g blocks).part UploadPh.client fun c ph => { ph with client := c }
  | .reader k => Proto.part UploadPh.reader (fun r ph => { ph with reader := r }) (readerProto k reads)
  | .handler k => Proto.part UploadPh.handler (fun h ph => { ph with handler := h })
      (onCall k ((storing D K peer (requests clusterName g blocks)).assuming (Whole (requests clusterName g blocks))))
  | .sender k => Proto.part UploadPh.sender (fun s ph => { ph with sender := s }) (onCall k senderProto)

theorem server_uploads (reads : Bool) (S : Server) (k : ℕ) :
    (onStream k (servePut S.deps S.codec S.impl (S.rand k) S.peer S.rounds)).Sat
        (sendingProto reads S.deps S.codec S.peer clusterName g blocks (.handler k)) (fun _ _ => True) (fun _ _ => True) {} ∧
      (onStream k (if S.impl.isReadOnly then .ret () else sendLoop S.rounds)).Sat
        (sendingProto reads S.deps S.codec S.peer clusterName g blocks (.sender k)) (fun _ _ => True) (fun _ _ => True) {} := by
  constructor
  · have hput : (onStream k (servePut S.deps S.codec S.impl (S.rand k) S.peer S.rounds)).Sat
        (onCall k ((storing S.deps S.codec S.peer (requests clusterName g blocks)).assuming (Whole (requests clusterName g blocks))))
        (fun _ _ => True) (fun _ _ => True) (UploadPh.handler {}) :=
      onStream_sat (servePut_stores S.rounds).sat
    exact hput.part (fun h ph => { ph with handler := h }) fun _ _ => rfl
  · have hsend : (onStream k (if S.impl.isReadOnly then .ret () else sendLoop S.rounds)).Sat (onCall k senderProto) (fun _ _ => True)
        (fun _ _ => True) (UploadPh.sender {}) := by
      split
      · trivial
      · exact onStream_sat (sendLoop_sat S.rounds)
    exact hsend.part (fun s ph => { ph with sender := s }) fun _ _ => rfl

/-- The invariant, over the phases of all goroutines. -/
def UploadInv (D : Deps) (K : Codec) (peer : Peer) (clusterName : Name) (g : GrpcWALStream) (blocks : List (List UInt8))
    (fs₀ : Fs Name UInt8) (st : SesState) (φ : SesThread → UploadPh) : Prop :=
  UpInv D K peer clusterName g blocks fs₀ st.files st.opened (st.streams 0) (φ .client).client (φ (.reader 0)).reader
    (φ (.handler 0)).handler

theorem UpInv.first_call {k : ℕ}
    (hi : UpInv D K peer clusterName g blocks fs₀ st.files st.opened (st.streams 0) u r h)
    (he : SesState.exec clusterName sees (.srv k o) c st = some (a, st')) :
    k = 0 ∧ st.opened ≠ 0 ∧ ∃ srv files, SrvState.exec o c ((st.streams 0).srv, st.files) = some (a, (srv, files)) ∧
      st' = { st.set 0 { st.streams 0 with srv := srv } with files := files } := by
  simp only [SesState.exec] at he
  split at he
  · cases he
  rename_i hopen
  have hle := hi.opened_le
  have hk : k = 0 := by omega
  subst hk
  split at he
  · cases he
  rename_i a' srv files hexec
  cases he
  exact ⟨rfl, by omega, srv, files, hexec, rfl⟩

/-- **Every step of every goroutine** keeps the invariant. -/
theorem uploadInv_step {reads : Bool} (hsees : reads = true → ∀ x, sees x = true → x.returned = some true) {φ : SesThread → UploadPh}
    {i : SesThread} {o : SesOp} {a : o.Res} (hi : UploadInv D K peer clusterName g blocks fs₀ st φ)
    (ha : (sendingProto reads D K peer clusterName g blocks i).allowed (φ i) o) (he : SesState.exec clusterName sees o c st = some (a, st')) :
    UploadInv D K peer clusterName g blocks fs₀ st'
      (Function.update φ i ((sendingProto reads D K peer clusterName g blocks i).next (φ i) o a)) := by
  unfold UploadInv at hi ⊢
  cases i with
  | client =>
    exact hi.client_step ha he
  | reader k =>
    cases reads with
    | false => exact ha.elim
    | true =>
    have hstep := hi.reader_step (hsees rfl) (k := k) (fun hk => by rw [hk]) ha he
    by_cases hk : k = 0
    · subst hk
      exact hstep
    · rw [if_neg hk] at hstep
      rw [Function.update_of_ne fun heq => hk (SesThread.reader.inj heq).symm]
      exact hstep
  | handler k =>
    cases o with
    | srv j o =>
      obtain ⟨rfl, ha⟩ := ha
      obtain ⟨rfl, hopen, srv, files, hexec, rfl⟩ := hi.first_call he
      have hstep := hi.handler_step hopen ha hexec
      exact hstep
    | _ => exact ha.elim
  | sender k =>
    cases o with
    | srv j o =>
      obtain ⟨rfl, ha⟩ := ha
      obtain ⟨rfl, hopen, srv, files, hexec, rfl⟩ := hi.first_call he
      have hstep := hi.sender_step hopen ha hexec
      exact hstep
    | _ => exact ha.elim

theorem uploadInv_init (D : Deps) (K : Codec) (peer : Peer) (clusterName : Name) (g : GrpcWALStream) (blocks : List (List UInt8))
    (fs : Fs Name UInt8) : UploadInv D K peer clusterName g blocks fs { files := fs } fun _ => {} where
  stream := .inl ⟨rfl, rfl⟩
  fresh _ := ⟨rfl, rfl⟩
  info hno := by cases hno
  sent := nil_prefix
  half hno := by cases hno
  acked hno := by cases hno
  ended _ hno := by cases hno
  call _ := ⟨{}, rfl, rfl, Stage.Leaves.start _ fs, rfl, rfl, nofun, nofun⟩

/-! ## The archive -/

def Archived (K : Codec) (fs : Fs Name UInt8) (p : Path) (segmentSize : UInt64) (bytes : List UInt8) : Prop :=
  ∃ d, ∃ blocks : List (List UInt8), fs.read p = some d ∧ decode K d = .ok ⟨segmentSize, blocks, some endOfFile⟩ ∧ blocks.flatten = bytes

/-- **A call that has returned without an error** has stored its file, and has queued its task. -/
theorem CallInv.archived {srv : SrvState} {ph : StorePh} (hi : CallInv D K peer clusterName g blocks fs₀ fs srv u.sent r ph)
    (hret : srv.returned = some true) (hne : blocks ≠ []) (hsize : UInt64.ofNat blocks.flatten.length = g.segmentSize) :
    Archived K fs (finalPath (g.request clusterName [])) g.segmentSize blocks.flatten ∧
      (g.sendToTier2 = true → taskOf (g.request clusterName []) ∈ srv.published) := by
  have hdone := hi.done (hi.returned ▸ hret)
  obtain ⟨b, bs, rfl⟩ := exists_cons_of_ne_nil hne
  have hrs : requests clusterName g (b :: bs) ≠ [] := cons_ne_nil _ _
  have hreached : SizeReached (requests clusterName g (b :: bs)) := by
    unfold SizeReached
    rw [requests_payload, hsize]
    rfl
  have hstage : ph.stage = .done := by
    rcases hdone.ended with ⟨hno, -⟩ | ⟨d, -, -, hno⟩ | ⟨-, hd⟩
    · exact absurd hno hrs
    · exact absurd hreached hno
    · exact hd
  constructor
  · obtain ⟨ino, hlook, hpub⟩ := hi.files.published hstage
    obtain ⟨blocks', hdec, hflat⟩ := decode_image hpub.1
    -- the path does not depend on the block
    have hlook : fs.look (finalPath (g.request clusterName [])) = some ino := hlook
    refine ⟨fs.data ino, blocks', ?_, hdec, hflat.trans (requests_payload _ _)⟩
    rw [Fs.read, hlook]
    rfl
  · intro htier2
    rw [hi.published]
    refine hdone.task hrs (fun r hr => ?_) hreached
    obtain ⟨block, -, rfl⟩ := mem_map.mp hr
    exact htier2

/-- **In every run of an upload**, the invariant holds, and a client that has returned is where it ends. -/
theorem upload_inv (reads : Bool) (S : Server) (clusterName : Name) (sys : Sys SesThread SesOp SesOp.Res Err SesState) {Q : UpPh → Prop} (hst : sys.st = { files := fs₀ })
    (hclient : (sys.procs .client).Sat (upProto g blocks) (fun _ => Q) (fun _ _ => True) {})
    (hreader : ∀ k, (sys.procs (.reader k)).Sat (readerProto k reads) (fun _ _ => True) (fun _ _ => True) {})
    (hhandler : ∀ k, sys.procs (.handler k) = onStream k (servePut S.deps S.codec S.impl (S.rand k) S.peer S.rounds))
    (hsender : ∀ k, sys.procs (.sender k) = onStream k (if S.impl.isReadOnly then .ret () else sendLoop S.rounds)) (hsees : reads = true → ∀ x, sees x = true → x.returned = some true) (es : List (SesThread × SrvChoice)) :
    ∃ u r h, ((sys.schedule (sesSem clusterName sees) es).procs .client = .ret () → Q u) ∧
      UpInv S.deps S.codec S.peer clusterName g blocks fs₀ (sys.schedule (sesSem clusterName sees) es).st.files
        (sys.schedule (sesSem clusterName sees) es).st.opened ((sys.schedule (sesSem clusterName sees) es).st.streams 0) u r h := by
  have habides : Abides (sendingProto reads S.deps S.codec S.peer clusterName g blocks) (fun i ph => i = .client → Q ph.client)
      (fun _ _ => True) sys fun _ => {} := by
    intro i
    cases i with
    | client =>
      have hclient : (sys.procs .client).Sat (upProto g blocks) (fun _ => Q) (fun _ _ => True) (UploadPh.client {}) := hclient
      have hpart : (sys.procs .client).Sat (sendingProto reads S.deps S.codec S.peer clusterName g blocks .client) (fun _ ph => Q ph.client)
        (fun _ _ => True) {} := hclient.part (fun c (ph : UploadPh) => { ph with client := c }) fun _ _ => rfl
      exact sat_mono hpart (fun _ _ hq _ => hq) fun _ _ hx => hx
    | reader k =>
      have hreader : (sys.procs (.reader k)).Sat (readerProto k reads) (fun _ _ => True) (fun _ _ => True) (UploadPh.reader {}) := hreader k
      have hpart : (sys.procs (.reader k)).Sat (sendingProto reads S.deps S.codec S.peer clusterName g blocks (.reader k)) (fun _ _ => True)
        (fun _ _ => True) {} := hreader.part (fun r (ph : UploadPh) => { ph with reader := r }) fun _ _ => rfl
      exact sat_mono hpart (fun _ _ _ hno => by cases hno) fun _ _ hx => hx
    | handler k =>
      rw [hhandler k]
      exact sat_mono (server_uploads reads S k).1 (fun _ _ _ hno => by cases hno) fun _ _ hx => hx
    | sender k =>
      rw [hsender k]
      exact sat_mono (server_uploads reads S k).2 (fun _ _ _ hno => by cases hno) fun _ _ hx => hx
  obtain ⟨φ, hab, -, hinv⟩ := schedule_proto (M := sesSem clusterName sees) (G := fun _ _ _ => True) (fun _ => {})
    (UploadInv S.deps S.codec S.peer clusterName g blocks fs₀)
    (fun s φ i c o k a st _ _ hi _ _ ha he => uploadInv_step hsees hi ha he) es sys
    (fun _ => {}) habides (fun _ _ => rfl) (hst ▸ uploadInv_init _ _ _ _ _ _ _) (heeds_of_forall (fun _ _ _ => trivial) es _)
  refine ⟨_, _, _, fun hret => ?_, hinv⟩
  have hq := hab .client
  rw [hret] at hq
  exact hq rfl

/-- **A segment that was closed is in the archive**, unless `Recv` has failed. In every run of a client that
sends a segment with `SendBlock` and closes it, and of its call, in which no call of `Drain` has returned an
error other than `io.EOF`: when the client has returned without an error, the file of the segment holds
exactly these bytes. The client sees `io.EOF` exactly when the handler has returned without an error. -/
theorem closed_segment_archived (S : Server) (g : GrpcWALStream) (blocks : List (List UInt8)) (clusterName : Name)
    (fs : Fs Name UInt8) (sees : SeesEOF) (hsees : ∀ x, sees x = true ↔ x.returned = some true)
    (hsize : blocks.flatten.length = g.segmentSize.toNat) (hpos : g.segmentSize ≠ 0) (es : List (SesThread × SrvChoice)) :
    let s := (clientServer S (segmentClient g blocks) fs).schedule (sesSem clusterName sees) es
    s.procs .client = .ret () → (s.st.streams 0).srv.recvFailed = false →
      Archived S.codec s.st.files (finalPath (g.request clusterName [])) g.segmentSize blocks.flatten := by
  intro s hclient hrecv
  have hreader : ∀ k, (feedbackReader k S.rounds).Sat (readerProto k true) (fun _ _ => True) (fun _ _ => True) {} :=
    fun k => sat_mono (feedbackReader_sat k S.rounds) (fun _ _ hq => hq) fun _ _ hx => hx.elim
  obtain ⟨u, r, h, hacked, hinv⟩ := upload_inv true S clusterName (clientServer S (segmentClient g blocks) fs) rfl
    segmentClient_sat hreader (fun _ => rfl) (fun _ => rfl) (fun _ x hx => (hsees x).mp hx) es
  obtain ⟨ph, -, hcall⟩ := hinv.call hrecv
  have hret : (s.st.streams 0).srv.returned = some true :=
    hcall.returned.trans (hcall.seen (hinv.ended false (hinv.acked (hacked hclient))))
  have hne : blocks ≠ [] := by
    rintro rfl
    exact hpos (UInt64.toNat_inj.mp hsize.symm)
  refine (hcall.archived hret hne ?_).1
  rw [hsize]
  exact UInt64.ofNat_toNat

/-- The client sees the end of the stream when the handler has returned without an error. -/
def seesReturn : SeesEOF := fun x => x.returned == some true

def twoByteSegment : GrpcWALStream := ⟨2, "000000010000000000000001".toList, 16777216, false⟩

/-- The segment is sent in two blocks, and the call is served to its end; `drained` is what the second call
of `Drain` meets. -/
def segmentRun (drained : SrvChoice) : List (SesThread × SrvChoice) :=
  List.replicate 6 (.client, .none) ++ (.handler 0, .take 0) :: List.replicate 13 (.handler 0, .none) ++
    (.handler 0, drained) :: List.replicate 30 (.handler 0, .none) ++ List.replicate 20 (.sender 0, .none) ++
    List.replicate 20 (.handler 0, .none) ++ List.replicate 9 (.reader 0, .none) ++ [(.client, .none)]

set_option maxRecDepth 10000 in
theorem received_segment_archived :
    let s := (clientServer plainServer (segmentClient twoByteSegment [[7], [8]]) Fs.empty).schedule (sesSem "c".toList seesReturn)
      (segmentRun (.take 0))
    s.procs .client = .ret () ∧ (s.st.streams 0).srv.recvFailed = false ∧
      Archived plainCodec s.st.files (finalPath (twoByteSegment.request "c".toList [])) 2 [7, 8] := by
  intro s
  have hret : s.procs .client = .ret () := rfl
  have hrecv : (s.st.streams 0).srv.recvFailed = false := by decide +kernel
  refine ⟨hret, hrecv, ?_⟩
  exact closed_segment_archived plainServer twoByteSegment [[7], [8]] "c".toList Fs.empty seesReturn
    (fun x => by simp [seesReturn]) (by decide) (by decide) (segmentRun (.take 0)) hret hrecv

set_option maxRecDepth 10000 in
/-- `Recv` fails after the first block: the handler returns without an error, `Close` too, and the segment is
not in the archive. -/
theorem closed_segment_missing :
    let s := (clientServer plainServer (segmentClient twoByteSegment [[7], [8]]) Fs.empty).schedule (sesSem "c".toList seesReturn)
      (segmentRun .ended)
    s.procs .client = .ret () ∧ (∀ x, seesReturn x = true ↔ x.returned = some true) ∧
      ([[7], [8]] : List (List UInt8)).flatten.length = twoByteSegment.segmentSize.toNat ∧
      ¬ Archived plainCodec s.st.files (finalPath (twoByteSegment.request "c".toList [])) 2 [7, 8] := by
  refine ⟨rfl, fun x => by simp [seesReturn], by decide, ?_⟩
  rintro ⟨d, blocks, hread, -⟩
  have hnone : ((clientServer plainServer (segmentClient twoByteSegment [[7], [8]]) Fs.empty).schedule (sesSem "c".toList seesReturn)
      (segmentRun .ended)).st.files.read (finalPath (twoByteSegment.request "c".toList [])) = none := by decide +kernel
  cases hnone.symm.trans hread

end Klio

import Klio.Proof.Discard

/-!
# The migration of the old stream

`New` reads the messages of the old stream, deletes it, creates the new streams and publishes the messages there.
Between the deletion and the publication they are only in memory.

* `Archive`: the broker, with what has ever been in the streams of tasks.
* `LegacyKept`: every old task is in the old stream, or has been in a new one.
* `legacy_kept_iff`: it is so throughout a run if and only if the old stream is only deleted when its tasks have been
  in a new one.
-/

namespace Klio

open Lib Prog

/-- The tasks in the new streams. -/
def workMsgs (b : Broker StreamName QueueMsg) : List QueueMsg :=
  (((b .wal).map fun s => s.msgs.map Stored.msg).getD []) ++ ((b .backup).map fun s => s.msgs.map Stored.msg).getD []

/-- The messages in the old stream. -/
def legacyMsgs (b : Broker StreamName QueueMsg) : List (Stored QueueMsg) := ((b .legacy).map MsgStream.msgs).getD []

/-- **The broker**, with every task that has ever been in a new stream, consumed or not. -/
structure Archive where
  broker : Broker StreamName QueueMsg
  everStored : List QueueMsg

def Archive.start (b : Broker StreamName QueueMsg) : Archive := ⟨b, workMsgs b⟩

/-- Clients of the broker, with the record of the tasks. -/
def archiveSem (ι : Type) : Sem ι (StreamOp StreamName QueueMsg) StreamOp.Res Archive (Option NatsFault) Unit where
  exec _ o c s :=
    ((Broker.exec route o c s.broker).1,
      ⟨(Broker.exec route o c s.broker).2, s.everStored ++ workMsgs (Broker.exec route o c s.broker).2⟩)
  crash _ s := s

/-- The old task has been in a new stream. -/
def Copied (m : QueueMsg) (s : Archive) : Prop :=
  ∃ subject, translateLegacySubject m.subject = some subject ∧ ∃ x ∈ s.everStored, x.subject = subject ∧ x.data = m.data

/-- **No task is lost**: every message that the old stream had is still there, or has been in a new stream. -/
def LegacyKept (b : Broker StreamName QueueMsg) (s : Archive) : Prop :=
  ∀ m ∈ legacyMsgs b, m ∈ legacyMsgs s.broker ∨ Copied m.msg s

/-- A request that leaves the old stream alone. -/
def SparesLegacy : StreamOp StreamName QueueMsg → Prop
  | .delete name _ | .createStream name | .deleteStream name => name ≠ .legacy
  | _ => True

/-- Such a request that stores nothing either. -/
def Quiet (o : StreamOp StreamName QueueMsg) : Prop := SparesLegacy o ∧ ∀ m, o ≠ .publish m

section Run

variable {ι : Type} [DecidableEq ι]

/-- **The condition**: if the event deletes the old stream, all its tasks have been in a new one. -/
def DropsCopied (s : Sys ι (StreamOp StreamName QueueMsg) StreamOp.Res Err Archive) (e : Ev ι (Option NatsFault) Unit) : Prop :=
  (s.step (archiveSem ι) e).st.broker .legacy = none → ∀ m ∈ legacyMsgs s.st.broker, Copied m.msg s.st

/-- The requests of `New` and of clients that leave the old stream alone. -/
def Migrates (o : StreamOp StreamName QueueMsg) : Prop := SparesLegacy o ∨ o = .deleteStream .legacy

theorem createStreams_uses : ∀ names : List StreamName, StreamName.legacy ∉ names → (createStreams names).Uses Quiet := by
  intro names
  induction names with
  | nil => intro _; trivial
  | cons name names ih =>
    intro hnot
    refine ⟨⟨fun h => hnot (h ▸ List.mem_cons_self), nofun⟩, fun r => ?_⟩
    cases (r : Except NatsErr Unit) with
    | error e => trivial
    | ok _ => exact ih fun h => hnot (List.mem_cons_of_mem _ h)

theorem republishLegacyMessages_uses : ∀ pending : List LegacyMessage, (republishLegacyMessages pending).Uses SparesLegacy := by
  intro pending
  induction pending with
  | nil => trivial
  | cons msg pending ih =>
    unfold republishLegacyMessages
    rcases translateLegacySubject msg.subject with _ | subject
    · exact ih
    refine ⟨trivial, fun r => ?_⟩
    cases (r : Except NatsErr Unit) with
    | error e => trivial
    | ok _ => exact ih

theorem configureConsumers_uses : configureConsumers.Uses Quiet := by
  refine ⟨⟨trivial, nofun⟩, fun r => ?_⟩
  rcases (r : Except NatsErr Unit) with e | _
  · trivial
  refine ⟨⟨trivial, nofun⟩, fun r => ?_⟩
  cases (r : Except NatsErr Unit) with
  | error e => trivial
  | ok _ => trivial

theorem readLegacyMessages_uses (numMsgs : ℕ) : (readLegacyMessages numMsgs).Uses Quiet := by
  refine ⟨⟨trivial, nofun⟩, fun r => ?_⟩
  rcases (r : Except NatsErr Unit) with e | _
  · trivial
  refine ⟨⟨trivial, nofun⟩, fun r => ?_⟩
  cases (r : Except NatsErr (List (Stored QueueMsg))) with
  | error e => trivial
  | ok batch => trivial

theorem drainLegacyStream_uses : drainLegacyStream.Uses Migrates := by
  refine ⟨.inl trivial, fun r => ?_⟩
  rcases (r : Except NatsErr Unit) with (_ | _ | _) | _
  · trivial
  · trivial
  · trivial
  refine ⟨.inl trivial, fun r => ?_⟩
  rcases (r : Except NatsErr ℕ) with e | numMsgs
  · trivial
  have hread : ((readLegacyMessages numMsgs).mapErr (.wrap "while reading legacy KLIO stream: %w" [])).Uses Migrates :=
    uses_mapErr (uses_mono (fun _ h => .inl h.1) (readLegacyMessages_uses numMsgs))
  refine uses_bind ?_ ?_
  · intro pending
    refine ⟨.inr rfl, fun r => ?_⟩
    cases (r : Except NatsErr Unit) with
    | error e => trivial
    | ok _ => trivial
  · split
    · exact hread
    · trivial

theorem newQueue_uses : newQueue.Uses Migrates := by
  have hquiet : ∀ {p : QueueProg Unit}, p.Uses Quiet → p.Uses Migrates := fun h => uses_mono (fun _ h => .inl h.1) h
  refine uses_bind (fun pending => ?_) drainLegacyStream_uses
  refine uses_bind (fun _ => ?_) (hquiet (createStreams_uses _ (by decide)))
  refine uses_bind (fun _ => ?_) (hquiet configureConsumers_uses)
  exact uses_mono (fun _ h => .inl h) (republishLegacyMessages_uses pending)

theorem route_ne_legacy (m : QueueMsg) : route m ≠ some .legacy := by
  unfold route
  split
  · simp
  split
  · simp
  split
  · split
    · simp
    split
    · simp
    · split
      · simp
      · split <;> simp
  · simp

/-- **What such a request does to the old stream**: nothing. -/
theorem exec_legacy {o : StreamOp StreamName QueueMsg} (ho : SparesLegacy o) (c : Option NatsFault)
    (b : Broker StreamName QueueMsg) : (Broker.exec route o c b).2 .legacy = b .legacy := by
  have hset : ∀ {name : StreamName} {s : Option (MsgStream QueueMsg)}, name ≠ .legacy → b.set name s .legacy = b .legacy :=
    fun hname => Function.update_of_ne (Ne.symm hname) _ _
  have heffect := Broker.exec_effect route o c b
  generalize (Broker.exec route o c b).2 = b' at heffect ⊢
  cases heffect with
  | same => rfl
  | removed name seq h =>
    subst h
    have hname : name ≠ .legacy := ho
    unfold Broker.keep
    rcases b .legacy with _ | s
    · rfl
    refine congrArg some (Eq.trans (MsgStream.keep_congr fun m _ => ?_) MsgStream.keep_true)
    simp [Ne.symm hname]
  | stored name s m h hroute hs => exact hset fun hname => route_ne_legacy m (hname ▸ hroute)
  | created name h hs =>
    subst h
    exact hset ho
  | dropped name h =>
    subst h
    exact hset ho

theorem exec_drop (c : Option NatsFault) (b : Broker StreamName QueueMsg) :
    (Broker.exec route (.deleteStream .legacy) c b).2 = b ∨
      ((Broker.exec route (.deleteStream .legacy) c b).2 .legacy = none ∧
        workMsgs (Broker.exec route (.deleteStream .legacy) c b).2 = workMsgs b) := by
  have heffect := Broker.exec_effect route (.deleteStream .legacy) c b
  generalize (Broker.exec route (.deleteStream .legacy) c b).2 = b' at heffect ⊢
  cases heffect with
  | same => exact .inl rfl
  | removed name seq h => cases h
  | stored name s m h _ _ => cases h
  | created name h _ => cases h
  | dropped name h =>
    cases h
    exact .inr ⟨Function.update_self _ _ _, rfl⟩

omit [DecidableEq ι] in
theorem Copied.exec {m : QueueMsg} {s : Archive} {o : StreamOp StreamName QueueMsg} {c : Option NatsFault}
    (h : Copied m s) (i : ι) : Copied m ((archiveSem ι).exec i o c s).2 := by
  obtain ⟨subject, hsubject, x, hx, hrest⟩ := h
  exact ⟨subject, hsubject, x, List.mem_append_left _ hx, hrest⟩

/-- What holds of the state throughout a run: the old stream is as it was or gone, and what is in the new streams is
on record. -/
structure Migrating (b : Broker StreamName QueueMsg) (s : Archive) : Prop where
  legacy : s.broker .legacy = b .legacy ∨ s.broker .legacy = none
  record : ∀ m ∈ workMsgs s.broker, m ∈ s.everStored

omit [DecidableEq ι] in
theorem Migrating.exec {b : Broker StreamName QueueMsg} {s : Archive} {i : ι} {o : StreamOp StreamName QueueMsg}
    (h : Migrating b s) (ho : Migrates o) (c : Option NatsFault) : Migrating b ((archiveSem ι).exec i o c s).2 := by
  refine ⟨?_, fun m hm => List.mem_append_right _ hm⟩
  show (Broker.exec route o c s.broker).2 .legacy = b .legacy ∨ (Broker.exec route o c s.broker).2 .legacy = none
  rcases ho with ho | rfl
  · rw [exec_legacy ho]
    exact h.legacy
  · rcases exec_drop c s.broker with hsame | ⟨hgone, -⟩
    · rw [hsame]
      exact h.legacy
    · exact .inr hgone

variable {b : Broker StreamName QueueMsg} {procs : ι → QueueProg Unit}

theorem migrating_run (hprocs : ∀ i, (procs i).Uses Migrates) (es : List (Ev ι (Option NatsFault) Unit)) :
    Migrating b ((Sys.init (Archive.start b) procs).run (archiveSem ι) es).st := by
  refine run_uses (L := Migrates) (Migrating b) (fun i o c s ho hs => hs.exec ho c) (fun _ _ h => h) ?_ hprocs es
  exact ⟨.inl rfl, fun m hm => hm⟩

/-- A system whose processes issue such requests only. -/
def AllMigrate (s : Sys ι (StreamOp StreamName QueueMsg) StreamOp.Res Err Archive) : Prop := ∀ i, (s.procs i).Uses Migrates

/-- **One event** that meets the condition loses no task. -/
theorem legacyKept_step {s : Sys ι (StreamOp StreamName QueueMsg) StreamOp.Res Err Archive} (hall : AllMigrate s)
    (hs : LegacyKept b s.st) {e : Ev ι (Option NatsFault) Unit} (he : DropsCopied s e) : LegacyKept b (s.step (archiveSem ι) e).st := by
  cases e with
  | crash x => exact hs
  | step i c =>
    have hstep : s.step (archiveSem ι) (.step i c) = s.stepProc (archiveSem ι) i c := rfl
    unfold DropsCopied at he
    rw [hstep] at he ⊢
    rcases Sys.stepProc_cases (archiveSem ι) s i c with heq | ⟨o, k, hp, heq⟩
    · rw [heq]
      exact hs
    have ho : Migrates o := by
      have hi := hall i
      rw [hp] at hi
      exact hi.1
    rw [heq] at he ⊢
    intro m hm
    rcases hs m hm with hleft | hcopied
    · rcases ho with ho | rfl
      · left
        show m ∈ legacyMsgs (Broker.exec route o c s.st.broker).2
        unfold legacyMsgs
        rw [exec_legacy ho]
        exact hleft
      · rcases exec_drop c s.st.broker with hsame | ⟨hgone, -⟩
        · left
          show m ∈ legacyMsgs (Broker.exec route (.deleteStream .legacy) c s.st.broker).2
          rw [hsame]
          exact hleft
        · exact .inr (Copied.exec (he hgone m hleft) i)
    · exact .inr (hcopied.exec i)

/-- **A deletion after which no task is lost** meets the condition: it stores nothing itself. -/
theorem dropsCopied_of_legacyKept {s : Sys ι (StreamOp StreamName QueueMsg) StreamOp.Res Err Archive} (hall : AllMigrate s)
    (hm : Migrating b s.st) {e : Ev ι (Option NatsFault) Unit} (hkept : LegacyKept b (s.step (archiveSem ι) e).st) :
    DropsCopied s e := by
  intro hgone m hmem
  have hmb : m ∈ legacyMsgs b := by
    unfold legacyMsgs at hmem ⊢
    rcases hm.legacy with h | h
    · rw [h] at hmem
      exact hmem
    · rw [h] at hmem
      cases hmem
  have hcopied : Copied m.msg (s.step (archiveSem ι) e).st := by
    rcases hkept m hmb with h | h
    · unfold legacyMsgs at h
      rw [hgone] at h
      cases h
    · exact h
  cases e with
  | crash x => exact hcopied
  | step i c =>
    have hstep : s.step (archiveSem ι) (.step i c) = s.stepProc (archiveSem ι) i c := rfl
    rw [hstep] at hgone hcopied
    rcases Sys.stepProc_cases (archiveSem ι) s i c with heq | ⟨o, k, hp, heq⟩
    · rw [heq] at hcopied
      exact hcopied
    rw [heq] at hgone hcopied
    have hi := hall i
    rw [hp] at hi
    rcases hi.1 with ho | rfl
    · -- the old stream was gone before
      have hlegacy : s.st.broker .legacy = none := (exec_legacy ho c s.st.broker).symm.trans hgone
      unfold legacyMsgs at hmem
      rw [hlegacy] at hmem
      cases hmem
    · obtain ⟨subject, hsubject, x, hx, hrest⟩ := hcopied
      refine ⟨subject, hsubject, x, ?_, hrest⟩
      rcases List.mem_append.mp hx with hx | hx
      · exact hx
      rcases exec_drop c s.st.broker with hsame | ⟨-, hsame⟩
      · rw [hsame] at hx
        exact hm.record x hx
      · rw [hsame] at hx
        exact hm.record x hx

end Run

/-! ## Runs of `New` -/

/-- An old stream with nothing in it. -/
def emptyLegacy : Broker StreamName QueueMsg
  | .legacy => some MsgStream.empty
  | _ => none

/-- A broker with one old task. -/
def oneLegacy : Broker StreamName QueueMsg
  | .legacy => some (streamOf [⟨"klio.c.backup".toList, plainQueue.marshalBackupTask ⟨"c".toList, true, none⟩, []⟩])
  | _ => none

/-- Calls of `New`. -/
def startups : Sys ℕ (StreamOp StreamName QueueMsg) StreamOp.Res Err Archive :=
  Sys.init (Archive.start oneLegacy) fun _ => newQueue

/-- The first call crashes right after the deletion, and a second one meets no failure. -/
def crashAfterDrop : List (Ev ℕ (Option NatsFault) Unit) :=
  List.replicate 5 (.step 0 none) ++ .crash () :: List.replicate 8 (.step 1 none)

/-- A call whose fetch returns too early. -/
def shortFetch : List (Ev ℕ (Option NatsFault) Unit) :=
  List.replicate 3 (.step 0 none) ++ .step 0 (some (.short 0)) :: List.replicate 8 (.step 0 none)

theorem not_legacyKept {s : Archive} (hold : legacyMsgs s.broker = []) (hnew : s.everStored = []) : ¬ LegacyKept oneLegacy s := by
  intro h
  rcases h _ List.mem_cons_self with hmem | ⟨_, -, x, hx, -⟩
  · rw [hold] at hmem
    cases hmem
  · rw [hnew] at hx
    cases hx

end Klio

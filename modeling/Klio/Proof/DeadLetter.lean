import Klio.Proof.Discard

/-!
# Dead letters of the backup consumer

A delivery of a backup task that succeeds discards the dead letters of its cluster. Which of them asked for a relay to
tier 2 does not matter to it, and neither does whether it has relayed anything itself.

* `QueueLog`: the broker and the repositories, with what has ever been stored and what happened to dead letters.
* `Remembered`: a dead letter that asks for a relay is removed by the consumer only after a relay that followed it.
* `deliverBackup_sat`: what a delivery has read before it removes a dead letter.
* `relay_remembered`: it holds in every run in which tasks are given up only between deliveries, and a delivery that
  removes a dead letter with a request has relayed.
-/

namespace Klio

open Lib Prog List Function Option Broker

/-! ## Histories -/

/-- What happens to dead letters: they appear, a delivery has relayed, and they are removed. -/
inductive DlqEvent (ι : Type) where
  | failed (dlqSeq : ℕ)
  | relayed (i : ι)
  | removed (i : ι) (dlqSeq : ℕ)
  deriving DecidableEq

/-- **The state of a server**, with every message that was ever stored and the history, the latest first. -/
structure QueueLog (ι S : Type) where
  repos : S
  broker : Broker StreamName QueueMsg
  ever : StreamName → ℕ → Option QueueMsg
  history : List (DlqEvent ι)

def lastDead (b : Broker StreamName QueueMsg) : ℕ := ((b .dlqBackup).map MsgStream.lastSeq).getD 0

def messageAt (b : Broker StreamName QueueMsg) (name : StreamName) (seq : ℕ) : Option QueueMsg :=
  ((b name).bind fun s => s.find seq).map Stored.msg

section Log

variable {ι S C K : Type}

/-- What a request writes to the history. -/
def dlqEvents (i : ι) (b b' : Broker StreamName QueueMsg) : StreamOp StreamName QueueMsg → List (DlqEvent ι)
  | .publish _ => if lastDead b < lastDead b' then [.failed (lastDead b')] else []
  | .delete .dlqBackup q => if (messageAt b .dlqBackup q).isSome && !(messageAt b' .dlqBackup q).isSome then [.removed i q] else []
  | _ => []

/-- `refreshServer` on tier 2 ends a relay that has succeeded. -/
def relayEvents (i : ι) : RepoOp → List (DlqEvent ι)
  | .refreshServer .tier2 => [.relayed i]
  | _ => []

/-- **The semantics of a server**: requests to the broker, and to repositories that work as `R` says. -/
def serverSem (R : Sem ι RepoOp RepoOp.Res S C K) : Sem ι ServerOp ServerOp.Res (QueueLog ι S) (C × Option NatsFault) K where
  exec i
    | .repo o, c, s =>
      ((R.exec i o c.1 s.repos).1, { s with repos := (R.exec i o c.1 s.repos).2, history := relayEvents i o ++ s.history })
    | .queue o, c, s =>
      ((Broker.exec route o c.2 s.broker).1,
        { s with
          broker := (Broker.exec route o c.2 s.broker).2
          ever := fun name seq => (s.ever name seq).or (messageAt (Broker.exec route o c.2 s.broker).2 name seq)
          history := dlqEvents i s.broker (Broker.exec route o c.2 s.broker).2 o ++ s.history })
  crash x s := { s with repos := R.crash x s.repos }

/-- The start, with the dead letters that are there. -/
def QueueLog.start (repos : S) (b : Broker StreamName QueueMsg) : QueueLog ι S where
  repos := repos
  broker := b
  ever := messageAt b
  history := (((b .dlqBackup).map MsgStream.msgs).getD []).map fun m => .failed m.seq

/-- The task of a message, gone or not. -/
def runTask (Z : QueueDeps) (s : QueueLog ι S) (seq : ℕ) : Option BackupTask :=
  (s.ever .backup seq).bind fun m => Z.unmarshalBackupTask m.data

/-- The task of a dead letter, gone or not. -/
def entryTask (Z : QueueDeps) (s : QueueLog ι S) (dlqSeq : ℕ) : Option BackupTask :=
  (s.ever .dlqBackup dlqSeq).bind fun a => (Z.unmarshalAdvisory a.data).bind fun n => runTask Z s n

end Log

/-! ## The system -/

/-- Who works with the queue: servers that publish, the consumer, the broker that gives up a task, and operators. -/
inductive BackupParty where
  | publish (task : BackupTask)
  | deliver (streams : Handles) (seq : ℕ)
  | giveUp (seq : ℕ)
  | retry (cfg : OptionConfig) (streams : Handles)

/-- What they do. -/
def BackupParty.prog (V : RelayDeps) (Z : QueueDeps) (tier2Enabled : Bool) (fuel : ℕ) : BackupParty → ServerProg Unit
  | publish task => onQueue (notifyBackupReceived Z task)
  | deliver streams seq => deliverBackup V Z tier2Enabled fuel streams seq
  | giveUp seq => onQueue (.call (.publish ⟨backupAdvisorySubject, Z.marshalAdvisory seq, []⟩) fun _ => .ret ())
  | retry cfg streams => onQueue (retryFailedBackupTasks Z fuel cfg streams)

def BackupParty.delivers : BackupParty → Option ℕ
  | deliver _ seq => some seq
  | _ => none

section System

variable {ι S C K : Type} [DecidableEq ι]

/-- **A request for a relay is not forgotten**: when a delivery removes a dead letter that asks for a relay, a delivery
for the cluster has relayed since it failed. -/
def Remembered (Z : QueueDeps) (parties : ι → BackupParty) (s : QueueLog ι S) : Prop :=
  ∀ later i dlqSeq before, s.history = later ++ .removed i dlqSeq :: before → (parties i).delivers.isSome = true →
    ∀ t, entryTask Z s dlqSeq = some t → t.sendToTier2 = true →
      ∃ j seq t' mid first, (parties j).delivers = some seq ∧ runTask Z s seq = some t' ∧ t'.clusterName = t.clusterName ∧
        before = mid ++ .relayed j :: first ∧ .failed dlqSeq ∈ first

/-- The conditions on a request of process `i`: a task is given up only while nothing is delivered; a delivery that
removes a dead letter is for a cluster with a name, and has relayed unless the dead letter does not ask for it. -/
def CarefulOp (Z : QueueDeps) (parties : ι → BackupParty) (s : Sys ι ServerOp ServerOp.Res Err (QueueLog ι S)) (i : ι) :
    ServerOp → Prop
  | .queue (.publish m) => route m = some .dlqBackup → ∀ j, (parties j).delivers.isSome = true → ¬ s.Running j
  | .queue (.delete .dlqBackup dlqSeq) => ∀ seq ∈ (parties i).delivers,
      (∀ t ∈ runTask Z s.st seq, t.clusterName ≠ []) ∧
        (.relayed i ∈ s.st.history ∨ ∀ t ∈ entryTask Z s.st dlqSeq, t.sendToTier2 = false)
  | _ => True

instance [Fintype ι] (Z : QueueDeps) (parties : ι → BackupParty) (s : Sys ι ServerOp ServerOp.Res Err (QueueLog ι S)) (i : ι)
    (o : ServerOp) : Decidable (CarefulOp Z parties s i o) :=
  match o with
  | .queue (.publish m) =>
    inferInstanceAs (Decidable (route m = some .dlqBackup → ∀ j, (parties j).delivers.isSome = true → ¬ s.Running j))
  | .queue (.delete .dlqBackup dlqSeq) =>
    inferInstanceAs (Decidable (∀ seq ∈ (parties i).delivers, (∀ t ∈ runTask Z s.st seq, t.clusterName ≠ []) ∧
      (.relayed i ∈ s.st.history ∨ ∀ t ∈ entryTask Z s.st dlqSeq, t.sendToTier2 = false)))
  | .queue (.delete .wal _) | .queue (.delete .dlqWal _) | .queue (.delete .latestUploadedWal _) | .queue (.delete .backup _)
  | .queue (.delete .legacy _) | .queue (.load _) | .queue (.count _) | .queue (.next _ _) | .queue (.read _ _)
  | .queue (.fetch _ _) | .queue (.createStream _) | .queue (.deleteStream _) | .queue (.createConsumer _) | .repo _ =>
    isTrue trivial

/-- The next request of a process meets the conditions. -/
def CarefulProg (Z : QueueDeps) (parties : ι → BackupParty) (s : Sys ι ServerOp ServerOp.Res Err (QueueLog ι S)) (i : ι) :
    ServerProg Unit → Prop
  | .call o _ => CarefulOp Z parties s i o
  | _ => True

instance [Fintype ι] (Z : QueueDeps) (parties : ι → BackupParty) (s : Sys ι ServerOp ServerOp.Res Err (QueueLog ι S)) (i : ι)
    (p : ServerProg Unit) : Decidable (CarefulProg Z parties s i p) :=
  match p with
  | .call o _ => inferInstanceAs (Decidable (CarefulOp Z parties s i o))
  | .ret _ | .err _ => isTrue trivial

/-- An event that meets the conditions. -/
def Careful (Z : QueueDeps) (parties : ι → BackupParty) (s : Sys ι ServerOp ServerOp.Res Err (QueueLog ι S)) :
    Ev ι (C × Option NatsFault) K → Prop
  | .step i _ => CarefulProg Z parties s i (s.procs i)
  | .crash _ => True

instance [Fintype ι] (Z : QueueDeps) (parties : ι → BackupParty) (s : Sys ι ServerOp ServerOp.Res Err (QueueLog ι S))
    (e : Ev ι (C × Option NatsFault) K) : Decidable (Careful Z parties s e) :=
  match e with
  | .step i _ => inferInstanceAs (Decidable (CarefulProg Z parties s i (s.procs i)))
  | .crash _ => isTrue trivial

end System

/-! ## What a delivery has read -/

/-- Messages that were read. -/
abbrev KnownMsgs := List (StreamName × ℕ × QueueMsg)

/-- What an answer adds. -/
def learn (known : KnownMsgs) : (o : StreamOp StreamName QueueMsg) → o.Res → KnownMsgs
  | .next name _, (r : Except NatsErr (Option (Stored QueueMsg))) => match r with
    | .ok (some m) => (name, m.seq, m.msg) :: known
    | _ => known
  | .read name seq, (r : Except NatsErr (Option (Stored QueueMsg))) => match r with
    | .ok (some m) => (name, seq, m.msg) :: known
    | _ => known
  | _, _ => known

/-- The message with this number is a task. -/
def KnownTask (Z : QueueDeps) (known : KnownMsgs) (seq : ℕ) (t : BackupTask) : Prop :=
  ∃ m, (.backup, seq, m) ∈ known ∧ Z.unmarshalBackupTask m.data = some t

/-- The dead letter with this number is about a task. -/
def KnownEntry (Z : QueueDeps) (known : KnownMsgs) (dlqSeq : ℕ) (t : BackupTask) : Prop :=
  ∃ a n, (.dlqBackup, dlqSeq, a) ∈ known ∧ Z.unmarshalAdvisory a.data = some n ∧ KnownTask Z known n t

/-- A request that leaves the set of streams alone. -/
def KeepsStreams : StreamOp StreamName QueueMsg → Prop
  | .createStream _ | .deleteStream _ => False
  | _ => True

/-- **The protocol of a delivery**, in its requests to the broker: a dead letter is removed only when it is known to be
about a task of the same cluster. -/
def deliveryQueue (Z : QueueDeps) (seq : ℕ) : Proto (StreamOp StreamName QueueMsg) StreamOp.Res KnownMsgs where
  allowed known o := KeepsStreams o ∧ ∀ dlqSeq, o = .delete .dlqBackup dlqSeq → ∃ t, KnownTask Z known seq t ∧
    (t.clusterName ≠ [] → ∃ t', KnownEntry Z known dlqSeq t' ∧ t'.clusterName = t.clusterName)
  next := learn

/-- The protocol of a party: that of the delivery of a message, or any requests that leave the set of streams alone. -/
def partyProto (Z : QueueDeps) (delivers : Option ℕ) : Proto ServerOp ServerOp.Res KnownMsgs where
  allowed known
    | .repo _ => True
    | .queue o => KeepsStreams o ∧ ∀ seq ∈ delivers, (deliveryQueue Z seq).allowed known o
  next known
    | .repo _, _ => known
    | .queue o, r => learn known o r

section Sat

variable {Z : QueueDeps} {seq : ℕ}

variable {known known' : KnownMsgs} {t : BackupTask}

theorem KnownTask.mono (h : known ⊆ known') {n : ℕ} (hk : KnownTask Z known n t) :
    KnownTask Z known' n t := by
  obtain ⟨m, hm, ht⟩ := hk
  exact ⟨m, h hm, ht⟩

theorem KnownEntry.mono (h : known ⊆ known') {n : ℕ} (hk : KnownEntry Z known n t) :
    KnownEntry Z known' n t := by
  obtain ⟨a, m, ha, hm, ht⟩ := hk
  exact ⟨a, m, h ha, hm, ht.mono h⟩

theorem subset_learn (known : KnownMsgs) (o : StreamOp StreamName QueueMsg) (r : o.Res) : known ⊆ learn known o r := by
  cases o with
  | next name after =>
    rcases (r : Except NatsErr (Option (Stored QueueMsg))) with e | _ | m
    · exact fun _ h => h
    · exact fun _ h => h
    · exact fun _ h => mem_cons_of_mem _ h
  | read name n =>
    rcases (r : Except NatsErr (Option (Stored QueueMsg))) with e | _ | m
    · exact fun _ h => h
    · exact fun _ h => h
    · exact fun _ h => mem_cons_of_mem _ h
  | _ => exact fun _ h => h

/-- A request that is allowed whatever is known. -/
def Harmless : StreamOp StreamName QueueMsg → Prop
  | .createStream _ | .deleteStream _ => False
  | .delete name _ => name ≠ .dlqBackup
  | _ => True

theorem Harmless.allowed {o : StreamOp StreamName QueueMsg} (h : Harmless o) (known : KnownMsgs) :
    (deliveryQueue Z seq).allowed known o := by
  constructor
  · cases o <;> trivial
  · rintro dlqSeq rfl
    exact absurd rfl h

theorem looks_delete_backup (n : ℕ) : Harmless (.delete .backup n) := by
  intro h
  cases h

variable {α : Type}

/-- **What is known stays known.** -/
theorem sat_known {Q : α → KnownMsgs → Prop} {X : Err → KnownMsgs → Prop} {p : QueueProg α} {known : KnownMsgs}
    (h : p.Sat (deliveryQueue Z seq) Q X known) :
    p.Sat (deliveryQueue Z seq) (fun a known' => known ⊆ known' ∧ Q a known') (fun _ _ => True) known := by
  induction p generalizing known with
  | ret a => exact ⟨fun _ h => h, h⟩
  | err e => trivial
  | call o k ih =>
    refine ⟨h.1, fun r => sat_mono (ih r (h.2 r)) (fun _ _ hq => ⟨?_, hq.2⟩) fun _ _ hx => hx⟩
    exact List.Subset.trans (subset_learn known o r) hq.1

theorem harmless_sat {p : QueueProg α} (hp : p.Uses Harmless) (known : KnownMsgs) :
    p.Sat (deliveryQueue Z seq) (fun _ known' => known ⊆ known' ∧ True) (fun _ _ => True) known :=
  sat_known (hp.sat (fun known _ ho => ho.allowed known) known)

theorem loadStreamOrNil_looks (streams : Handles) (name : StreamName) : (loadStreamOrNil streams name).Uses Harmless := by
  unfold loadStreamOrNil
  split
  · trivial
  · refine ⟨trivial, fun r => ?_⟩
    rcases (r : Except NatsErr Unit) with (_ | _ | _) | _ <;> trivial

/-- The advisories are those of dead letters that are known. -/
def KnownAdvisories (Z : QueueDeps) (advs : List DlqAdvisory) (known : KnownMsgs) : Prop :=
  ∀ adv ∈ advs, ∃ a, (.dlqBackup, adv.dlqSequence, a) ∈ known ∧ Z.unmarshalAdvisory a.data = some adv.sourceSeq

/-- The tasks are those of dead letters that are known, and of the cluster if there is one. -/
def KnownFailed (Z : QueueDeps) (cfg : OptionConfig) (tasks : List (FailedTask BackupTask)) (known : KnownMsgs) : Prop :=
  ∀ f ∈ tasks, KnownEntry Z known f.sequence f.task ∧ (cfg.cluster ≠ [] → f.task.clusterName = cfg.cluster)

theorem drainPager_sat : ∀ (fuel after : ℕ) (known : KnownMsgs),
    (drainPager Z (backupTasks Z) fuel after).Sat (deliveryQueue Z seq) (KnownAdvisories Z) (fun _ _ => True) known := by
  intro fuel
  induction fuel with
  | zero => exact fun _ _ => trivial
  | succ fuel ih =>
    intro after known
    refine ⟨Harmless.allowed (by trivial) known, fun r => ?_⟩
    rcases (r : Except NatsErr (Option (Stored QueueMsg))) with e | _ | m
    · trivial
    · rintro _ ⟨⟩
    · dsimp only
      rcases hadv : Z.unmarshalAdvisory m.msg.data with _ | sourceSeq
      · trivial
      refine sat_bind (sat_known (ih m.seq _)) ?_
      rintro advs known' ⟨hsub, hall⟩
      exact forall_mem_cons.mpr ⟨⟨m.msg, hsub mem_cons_self, hadv⟩, hall⟩

theorem resolveAdvisories_sat (cfg : OptionConfig) : ∀ (advs : List DlqAdvisory) (known : KnownMsgs), KnownAdvisories Z advs known →
    (resolveAdvisories Z (backupTasks Z) cfg advs).Sat (deliveryQueue Z seq) (KnownFailed Z cfg) (fun _ _ => True) known := by
  intro advs
  induction advs with
  | nil => exact fun known _ => nofun
  | cons adv advs ih =>
    intro known hknown
    obtain ⟨⟨a, ha, hn⟩, hrest⟩ := forall_mem_cons.mp hknown
    refine ⟨Harmless.allowed (by trivial) known, fun r => ?_⟩
    rcases (r : Except NatsErr (Option (Stored QueueMsg))) with (_ | _ | _) | _ | m
    · exact ih known hrest
    · trivial
    · trivial
    · trivial
    · have hgrow : known ⊆ (.backup, adv.sourceSeq, m.msg) :: known := fun _ h => mem_cons_of_mem _ h
      have hloop := ih ((.backup, adv.sourceSeq, m.msg) :: known) fun x hx => by
        obtain ⟨a', ha', hn'⟩ := hrest x hx
        exact ⟨a', hgrow ha', hn'⟩
      rcases htask : (backupTasks Z).unmarshal m.msg.data with _ | task
      · simp only [htask]
        trivial
      simp only [htask]
      by_cases hother : cfg.cluster ≠ [] ∧ (backupTasks Z).cluster task ≠ cfg.cluster
      · rw [if_pos hother]
        exact hloop
      rw [if_neg hother]
      refine sat_bind (sat_known hloop) ?_
      rintro tasks known' ⟨hsub, hall⟩
      refine forall_mem_cons.mpr ⟨⟨?_, fun hc => ?_⟩, hall⟩
      · exact ⟨a, adv.sourceSeq, hsub (hgrow ha), hn, m.msg, hsub mem_cons_self, htask⟩
      · by_contra hne
        exact hother ⟨hc, hne⟩

theorem listFailedTasks_sat (cfg : OptionConfig) (fuel : ℕ) (known : KnownMsgs) :
    (listFailedTasks Z (backupTasks Z) fuel cfg).Sat (deliveryQueue Z seq) (KnownFailed Z cfg) (fun _ _ => True) known := by
  refine ⟨Harmless.allowed (by trivial) known, fun r => ?_⟩
  rcases (r : Except NatsErr ℕ) with e | expected
  · trivial
  refine ⟨Harmless.allowed (by trivial) known, fun r => ?_⟩
  rcases (r : Except NatsErr Unit) with e | _
  · trivial
  have hdrain : (drainDLQPager Z (backupTasks Z) fuel expected).Sat (deliveryQueue Z seq) (KnownAdvisories Z)
      (fun _ _ => True) known := by
    refine sat_bind (drainPager_sat fuel 0 known) fun advs known' h => ?_
    by_cases hshort : advs.length < expected
    · rw [if_pos hshort]
      trivial
    · rw [if_neg hshort]
      exact h
  refine sat_bind hdrain fun advs known₁ hadvs => ?_
  refine sat_bind (resolveAdvisories_sat cfg advs known₁ hadvs) fun tasks known₂ hall => ?_
  exact fun f hf => hall f ((Z.sort_perm tasks).mem_iff.mp hf)

variable (seq) in
/-- **The listing** returns tasks of dead letters that are known, and of the cluster if there is one. -/
theorem listFailedBackupTasks_sat (cfg : OptionConfig) (fuel : ℕ) (streams : Handles) (known : KnownMsgs) :
    (listFailedBackupTasks Z fuel cfg streams).Sat (deliveryQueue Z seq) (fun out => KnownFailed Z cfg out.1)
      (fun _ _ => True) known := by
  unfold listFailedBackupTasks
  by_cases hbad : cfg.wals ≠ []
  · rw [if_pos hbad]
    trivial
  rw [if_neg hbad]
  refine sat_bind (harmless_sat (loadStreamOrNil_looks streams _) known) fun source known₁ _ => ?_
  refine sat_bind (harmless_sat (loadStreamOrNil_looks source.2 _) known₁) fun dlq known₂ _ => ?_
  by_cases hmissing : source.1 = false ∨ dlq.1 = false
  · rw [if_pos hmissing]
    exact nofun
  · rw [if_neg hmissing]
    exact sat_bind (listFailedTasks_sat cfg fuel known₂) fun tasks known₃ hall => hall

def MayRemove (Z : QueueDeps) (seq : ℕ) (known : KnownMsgs) (dlqSeq : ℕ) : Prop :=
  ∃ t, KnownTask Z known seq t ∧ (t.clusterName ≠ [] → ∃ t', KnownEntry Z known dlqSeq t' ∧ t'.clusterName = t.clusterName)

theorem MayRemove.mono (h : known ⊆ known') {dlqSeq : ℕ} (hk : MayRemove Z seq known dlqSeq) :
    MayRemove Z seq known' dlqSeq := by
  obtain ⟨t, ht, hentry⟩ := hk
  refine ⟨t, ht.mono h, fun hc => ?_⟩
  obtain ⟨t', ht', hsame⟩ := hentry hc
  exact ⟨t', ht'.mono h, hsame⟩

theorem purgeDLQEntryBySequence_sat (dlqSeq : ℕ) (known : KnownMsgs) (hmay : MayRemove Z seq known dlqSeq) :
    (purgeDLQEntryBySequence Z (backupTasks Z) dlqSeq).Sat (deliveryQueue Z seq) (fun _ _ => True) (fun _ _ => True) known := by
  have hdelete : ∀ known₁, known ⊆ known₁ → (purgeDLQEntryBySequence.deleteEntry (backupTasks Z) dlqSeq).Sat
      (deliveryQueue Z seq) (fun _ _ => True) (fun _ _ => True) known₁ := by
    intro known₁ hsub
    refine ⟨⟨trivial, ?_⟩, fun r => ?_⟩
    · rintro _ ⟨⟩
      exact hmay.mono hsub
    · rcases (r : Except NatsErr Unit) with e | _ <;> trivial
  have hrelease : ∀ known₁ streamSeq, known ⊆ known₁ → (purgeDLQEntryBySequence.releaseOriginal (backupTasks Z) dlqSeq
      streamSeq).Sat (deliveryQueue Z seq) (fun _ _ => True) (fun _ _ => True) known₁ := by
    intro known₁ streamSeq hsub
    refine ⟨(looks_delete_backup streamSeq).allowed known₁, fun r => ?_⟩
    rcases (r : Except NatsErr Unit) with e | _
    · trivial
    · exact hdelete known₁ hsub
  refine ⟨Harmless.allowed (by trivial) known, fun r => ?_⟩
  rcases (r : Except NatsErr (Option (Stored QueueMsg))) with (_ | _ | _) | _ | m
  · trivial
  · trivial
  · trivial
  · trivial
  have hsub : known ⊆ (.dlqBackup, dlqSeq, m.msg) :: known := fun _ h => mem_cons_of_mem _ h
  rcases hadv : Z.unmarshalAdvisory m.msg.data with _ | streamSeq
  · simp only [hadv]
    trivial
  simp only [hadv]
  refine ⟨Harmless.allowed (by trivial) _, fun r => ?_⟩
  have hsub' := List.Subset.trans hsub (subset_learn _ (.read .backup streamSeq) r)
  rcases (r : Except NatsErr (Option (Stored QueueMsg))) with (_ | _ | _) | m'
  · exact hdelete _ hsub'
  · trivial
  · trivial
  · exact hrelease _ streamSeq hsub'

theorem purgeEntries_sat : ∀ (failed : List (FailedTask BackupTask)) (known : KnownMsgs),
    (∀ f ∈ failed, MayRemove Z seq known f.sequence) →
    (purgeEntries Z (backupTasks Z) failed).Sat (deliveryQueue Z seq) (fun _ _ => True) (fun _ _ => True) known := by
  intro failed
  induction failed with
  | nil => exact fun _ _ => trivial
  | cons f failed ih =>
    intro known hmay
    have hthis := purgeDLQEntryBySequence_sat f.sequence known (hmay f mem_cons_self)
    have hround : (purgeDLQEntryBySequence Z (backupTasks Z) f.sequence).attempt.Sat (deliveryQueue Z seq)
        (fun _ _ => True) (fun _ _ => True) known := sat_attempt hthis
    refine sat_bind (sat_known hround) fun out known₁ hsub => ?_
    exact sat_bind (ih known₁ fun g hg => (hmay g (mem_cons_of_mem _ hg)).mono hsub.1) fun _ _ _ => trivial

/-- **The purge after a delivery** removes dead letters of the cluster of the task. -/
theorem purgeBackupDLQEntries_sat (fuel : ℕ) (streams : Handles) (known : KnownMsgs)
    (ht : KnownTask Z known seq t) : (purgeBackupDLQEntries Z fuel t.clusterName streams).Sat (deliveryQueue Z seq)
      (fun _ _ => True) (fun _ _ => True) known := by
  refine sat_bind (Q := fun _ _ => True) ?_ fun _ _ _ => trivial
  have hlist := listFailedBackupTasks_sat (Z := Z) seq { cluster := t.clusterName } fuel streams known
  refine sat_bind (sat_mapErr (sat_known hlist)) ?_
  rintro out known₁ ⟨hsub, hall⟩
  unfold purgeDLQEntries
  by_cases hlen : out.1.length = 0
  · rw [if_pos hlen]
    trivial
  rw [if_neg hlen]
  refine sat_bind (harmless_sat (loadStreamOrNil_looks out.2 _) known₁) fun dlq known₂ hsub₂ => ?_
  refine sat_bind (harmless_sat (loadStreamOrNil_looks dlq.2 _) known₂) fun source known₃ hsub₃ => ?_
  by_cases hmissing : dlq.1 = false ∨ source.1 = false
  · rw [if_pos hmissing]
    trivial
  rw [if_neg hmissing]
  have hgrown := List.Subset.trans hsub₂.1 hsub₃.1
  refine sat_bind (purgeEntries_sat out.1 known₃ fun f hf => ?_) fun purged known₄ _ => ?_
  · refine ⟨t, ht.mono (List.Subset.trans hsub hgrown), fun hc => ⟨f.task, ?_⟩⟩
    exact ⟨(hall f hf).1.mono hgrown, (hall f hf).2 hc⟩
  · cases purged.2 <;> trivial

theorem onQueue_sat {Q : α → KnownMsgs → Prop} {X : Err → KnownMsgs → Prop} : ∀ {p : QueueProg α} {known : KnownMsgs},
    p.Sat (deliveryQueue Z seq) Q X known → (onQueue p).Sat (partyProto Z (some seq)) Q X known := by
  intro p
  induction p with
  | ret a => exact fun h => h
  | err e => exact fun h => h
  | call o k ih =>
    intro known h
    refine ⟨⟨h.1.1, fun n hn => ?_⟩, fun r => ih r (h.2 r)⟩
    cases hn
    exact h.1

theorem onRepo_sat {delivers : Option ℕ} (p : RepoProg α) (known : KnownMsgs) :
    (onRepo p).Sat (partyProto Z delivers) (fun _ known' => known' = known) (fun _ _ => True) known := by
  induction p with
  | ret a => rfl
  | err e => trivial
  | call o k ih => exact ⟨trivial, fun r => ih r⟩

/-- **A delivery** keeps its protocol. -/
theorem deliverBackup_sat (V : RelayDeps) (tier2Enabled : Bool) (fuel : ℕ) (streams : Handles) :
    (deliverBackup V Z tier2Enabled fuel streams seq).Sat (partyProto Z (some seq)) (fun _ _ => True) (fun _ _ => True) [] := by
  have hsettle : ∀ n known, (onQueue (settleMessage .backup n)).Sat (partyProto Z (some seq)) (fun _ _ => True)
      (fun _ _ => True) known := by
    intro n known
    exact onQueue_sat ⟨(looks_delete_backup n).allowed known, fun r => trivial⟩
  refine ⟨⟨trivial, fun n hn => ?_⟩, fun r => ?_⟩
  · cases hn
    exact Harmless.allowed (by trivial) []
  rcases (r : Except NatsErr (Option (Stored QueueMsg))) with e | _ | m
  · trivial
  · trivial
  show Prog.Sat (partyProto Z (some seq)) _ _ (handleBackupMessage V Z tier2Enabled fuel streams m) [(.backup, seq, m.msg)]
  unfold handleBackupMessage
  rcases htask : Z.unmarshalBackupTask m.msg.data with _ | task
  · exact hsettle m.seq _
  refine sat_bind (onRepo_sat _ _) ?_
  rintro - known rfl
  have hpurge := purgeBackupDLQEntries_sat (t := task) fuel streams [(.backup, seq, m.msg)]
    ⟨m.msg, mem_cons_self, htask⟩
  have hattempt : (onQueue (purgeBackupDLQEntries Z fuel task.clusterName streams)).attempt.Sat (partyProto Z (some seq))
      (fun _ _ => True) (fun _ _ => True) [(.backup, seq, m.msg)] := sat_attempt (onQueue_sat hpurge)
  refine sat_bind hattempt fun _ known _ => ?_
  exact hsettle m.seq known

theorem onQueue_free : ∀ {p : QueueProg α} {known : KnownMsgs}, p.Uses KeepsStreams →
    (onQueue p).Sat (partyProto Z none) (fun _ _ => True) (fun _ _ => True) known := by
  intro p
  induction p with
  | ret a => exact fun _ => trivial
  | err e => exact fun _ => trivial
  | call o k ih =>
    intro known h
    refine ⟨⟨h.1, nofun⟩, fun r => ih r (h.2 r)⟩

theorem notifyMessage_uses (subject data origin : Name) : (notifyMessage subject data origin).Uses KeepsStreams := by
  refine ⟨trivial, fun r => ?_⟩
  rcases (r : Except NatsErr Unit) with e | _ <;> trivial

theorem enqueueClusters_uses (tasks : List (FailedTask BackupTask)) :
    ∀ clusters : List Name, (enqueueClusters Z tasks clusters).Uses KeepsStreams := by
  intro clusters
  induction clusters with
  | nil => trivial
  | cons c clusters ih => exact uses_bind (fun _ => ih) (uses_mapErr (notifyMessage_uses _ _ _))

theorem party_sat (V : RelayDeps) (tier2Enabled : Bool) (fuel : ℕ) (party : BackupParty) :
    (party.prog V Z tier2Enabled fuel).Sat (partyProto Z party.delivers) (fun _ _ => True) (fun _ _ => True) [] := by
  cases party with
  | publish task => exact onQueue_free (notifyMessage_uses _ _ _)
  | deliver streams seq => exact deliverBackup_sat V tier2Enabled fuel streams
  | giveUp seq => exact onQueue_free ⟨trivial, fun _ => trivial⟩
  | retry cfg streams =>
    have hlist : (listFailedBackupTasks Z fuel cfg streams).Uses KeepsStreams :=
      Prog.Sat.uses (T := deliveryQueue Z 0) (fun _ _ h => h.1) (listFailedBackupTasks_sat 0 cfg fuel streams [])
    have hretry : (retryFailedBackupTasks Z fuel cfg streams).Uses KeepsStreams := by
      refine uses_bind ?_ (uses_mapErr hlist)
      intro out
      exact enqueueClusters_uses out.1 _
    exact onQueue_free hretry

end Sat

/-! ## The record of messages -/

variable {t : BackupTask}

section Record

variable {ι S C K : Type} {R : Sem ι RepoOp RepoOp.Res S C K}

/-- The streams agree with the record, and numbers that were used are not used again. -/
structure OnRecord (s : QueueLog ι S) : Prop where
  agree : ∀ name strm m, s.broker name = some strm → m ∈ strm.msgs → s.ever name m.seq = some m.msg
  fresh : ∀ name seq m, s.ever name seq = some m → ∃ strm, s.broker name = some strm ∧ seq ≤ strm.lastSeq

variable {name : StreamName}

theorem messageAt_eq_some {b : Broker StreamName QueueMsg} {seq : ℕ} {x : QueueMsg} :
    messageAt b name seq = some x ↔ ∃ strm m, b name = some strm ∧ m ∈ strm.msgs ∧ m.seq = seq ∧ m.msg = x := by
  unfold messageAt
  simp only [map_eq_some_iff, bind_eq_some_iff, MsgStream.find_eq_some]
  constructor
  · rintro ⟨m, ⟨strm, hs, hm, hseq⟩, hx⟩
    exact ⟨strm, m, hs, hm, hseq, hx⟩
  · rintro ⟨strm, m, hs, hm, hseq, hx⟩
    exact ⟨m, ⟨strm, hs, hm, hseq⟩, hx⟩

theorem OnRecord.start (repos : S) (b : Broker StreamName QueueMsg) : OnRecord (QueueLog.start repos b : QueueLog ι S) := by
  refine ⟨fun name strm m hs hm => messageAt_eq_some.mpr ⟨strm, m, hs, hm, rfl, rfl⟩, fun name seq x hx => ?_⟩
  obtain ⟨strm, m, hs, hm, rfl, -⟩ := messageAt_eq_some.mp hx
  exact ⟨strm, hs, strm.bounded m hm⟩

variable {c : C × Option NatsFault} {s : QueueLog ι S} {i : ι}

theorem ever_exec {o : ServerOp} {seq : ℕ}
    {m : QueueMsg} (h : s.ever name seq = some m) : ((serverSem R).exec i o c s).2.ever name seq = some m := by
  cases o with
  | repo o => exact h
  | queue o =>
    show (s.ever name seq).or _ = some m
    rw [h]
    rfl

theorem runTask_exec {Z : QueueDeps} {o : ServerOp} {seq : ℕ}
    (h : runTask Z s seq = some t) : runTask Z ((serverSem R).exec i o c s).2 seq = some t := by
  obtain ⟨m, hm, ht⟩ := bind_eq_some_iff.mp h
  exact bind_eq_some_iff.mpr ⟨m, ever_exec hm, ht⟩

theorem entryTask_exec {Z : QueueDeps} {o : ServerOp} {dlqSeq : ℕ}
    (h : entryTask Z s dlqSeq = some t) : entryTask Z ((serverSem R).exec i o c s).2 dlqSeq = some t := by
  obtain ⟨a, ha, hrest⟩ := bind_eq_some_iff.mp h
  obtain ⟨n, hn, ht⟩ := bind_eq_some_iff.mp hrest
  exact bind_eq_some_iff.mpr ⟨a, ever_exec ha, bind_eq_some_iff.mpr ⟨n, hn, runTask_exec ht⟩⟩

variable {o : StreamOp StreamName QueueMsg}

/-- A request that keeps the set of streams keeps them, or adds one message with the next number. -/
theorem exec_streams (ho : KeepsStreams o) (c : Option NatsFault)
    (b : Broker StreamName QueueMsg) :
    (∀ strm, b name = some strm → ∃ strm', (Broker.exec route o c b).2 name = some strm' ∧ strm.lastSeq ≤ strm'.lastSeq) ∧
      ∀ strm' m, (Broker.exec route o c b).2 name = some strm' → m ∈ strm'.msgs → ∃ strm, b name = some strm ∧
        (m ∈ strm.msgs ∨ (m.seq = strm.lastSeq + 1 ∧ strm'.lastSeq = m.seq ∧ o = .publish m.msg ∧ route m.msg = some name)) := by
  have heffect := exec_effect route o c b
  generalize (Broker.exec route o c b).2 = b' at heffect ⊢
  cases heffect with
  | same => exact ⟨fun strm hs => ⟨strm, hs, Nat.le_refl _⟩, fun strm m hs hm => ⟨strm, hs, .inl hm⟩⟩
  | removed name' seq h =>
    refine ⟨fun strm hs => ⟨strm.keep _, (by rw [keep, hs]; rfl), Nat.le_refl _⟩, fun strm' m hs hm => ?_⟩
    obtain ⟨strm, hstrm, rfl⟩ := map_eq_some_iff.mp hs
    exact ⟨strm, hstrm, .inl (MsgStream.mem_keep.mp hm).1⟩
  | stored name' strm₀ x h hroute hs₀ =>
    by_cases hn : name = name'
    · subst hn
      rw [Broker.set, update_self]
      refine ⟨fun strm hs => ?_, fun strm' m hs hm => ?_⟩
      · rw [hs₀] at hs
        cases hs
        exact ⟨_, rfl, Nat.le_succ _⟩
      cases hs
      refine ⟨strm₀, hs₀, ?_⟩
      rcases mem_append.mp hm with hm | hm
      · exact .inl hm
      · rw [mem_singleton.mp hm]
        exact .inr ⟨rfl, rfl, h, hroute⟩
    · rw [Broker.set, update_of_ne hn]
      exact ⟨fun strm hs => ⟨strm, hs, Nat.le_refl _⟩, fun strm m hs hm => ⟨strm, hs, .inl hm⟩⟩
  | created name' h _ =>
    subst h
    exact ho.elim
  | dropped name' h =>
    subst h
    exact ho.elim

theorem OnRecord.exec (ho : KeepsStreams o) (h : OnRecord s) : OnRecord ((serverSem R).exec i (.queue o) c s).2 := by
  constructor
  · intro name strm' m hs hm
    show (s.ever name m.seq).or (messageAt (Broker.exec route o c.2 s.broker).2 name m.seq) = some m.msg
    obtain ⟨strm, hstrm, hcase⟩ := (exec_streams ho c.2 s.broker).2 strm' m hs hm
    rcases hever : s.ever name m.seq with _ | x
    · exact messageAt_eq_some.mpr ⟨strm', m, hs, hm, rfl, rfl⟩
    rcases hcase with hold | ⟨hnew, -⟩
    · rw [h.agree name strm m hstrm hold] at hever
      exact hever.symm
    -- the number is new
    obtain ⟨strm₀, hs₀, hle⟩ := h.fresh name _ x hever
    rw [hstrm] at hs₀
    cases hs₀
    omega
  · intro name seq x hx
    cases hever : s.ever name seq with
    | some y =>
      obtain ⟨strm, hstrm, hle⟩ := h.fresh name seq y hever
      obtain ⟨strm', hs', hgrow⟩ := (exec_streams ho c.2 s.broker).1 strm hstrm
      exact ⟨strm', hs', Nat.le_trans hle hgrow⟩
    | none =>
      have hat : messageAt (Broker.exec route o c.2 s.broker).2 name seq = some x := by
        have hor : (s.ever name seq).or (messageAt (Broker.exec route o c.2 s.broker).2 name seq) = some x := hx
        rwa [hever] at hor
      obtain ⟨strm', m, hs', hm, rfl, -⟩ := messageAt_eq_some.mp hat
      exact ⟨strm', hs', strm'.bounded m hm⟩

/-- **What is read is on record.** -/
theorem learn_exec (h : OnRecord s)
    {known : KnownMsgs} (hknown : ∀ x ∈ known, s.ever x.1 x.2.1 = some x.2.2) :
    ∀ x ∈ learn known o ((serverSem R).exec i (.queue o) c s).1, ((serverSem R).exec i (.queue o) c s).2.ever x.1 x.2.1 = some x.2.2 := by
  have hold : ∀ x ∈ known, ((serverSem R).exec i (.queue o) c s).2.ever x.1 x.2.1 = some x.2.2 :=
    fun x hx => ever_exec (hknown x hx)
  cases o with
  | next name after =>
    show ∀ x ∈ learn known (.next name after) (Broker.exec route (.next name after) c.2 s.broker).1, _
    rcases hs : s.broker name with _ | strm
    · have hexec : (Broker.exec route (.next name after) c.2 s.broker).1 = answer (.error .failed) c.2 := by
        simp only [Broker.exec, hs]
        rfl
      rw [hexec]
      rcases c.2 with _ | _ | _ <;> exact hold
    rw [exec_next hs]
    rcases c.2 with _ | _ | _
    · rcases hnext : strm.next after with _ | m
      · exact hold
      refine forall_mem_cons.mpr ⟨ever_exec ?_, hold⟩
      exact h.agree name strm m hs (mem_of_find?_eq_some hnext)
    · exact hold
    · exact hold
  | read name seq =>
    show ∀ x ∈ learn known (.read name seq) (Broker.exec route (.read name seq) c.2 s.broker).1, _
    rcases hs : s.broker name with _ | strm
    · rw [exec_read_missing hs]
      rcases c.2 with _ | _ | _ <;> exact hold
    rw [exec_read hs]
    rcases c.2 with _ | _ | _
    · rcases hfind : strm.find seq with _ | m
      · exact hold
      obtain ⟨hm, rfl⟩ := MsgStream.find_eq_some.mp hfind
      exact forall_mem_cons.mpr ⟨ever_exec (h.agree name strm m hs hm), hold⟩
    · exact hold
    · exact hold
  | _ => exact hold

end Record

/-! ## Runs -/

section Runs

variable {ι S C K : Type} [DecidableEq ι] {R : Sem ι RepoOp RepoOp.Res S C K} {Z : QueueDeps} {parties : ι → BackupParty}

omit [DecidableEq ι] in
/-- What a request writes to the history. -/
theorem dlqEvents_cases (i : ι) (b b' : Broker StreamName QueueMsg) (o : StreamOp StreamName QueueMsg) :
    dlqEvents i b b' o = [] ∨
      (∃ m, o = .publish m ∧ lastDead b < lastDead b' ∧ dlqEvents i b b' o = [.failed (lastDead b')]) ∨
      ∃ q, o = .delete .dlqBackup q ∧ (messageAt b .dlqBackup q).isSome = true ∧ dlqEvents i b b' o = [.removed i q] := by
  cases o with
  | publish m =>
    by_cases hlt : lastDead b < lastDead b'
    · exact .inr (.inl ⟨m, rfl, hlt, if_pos hlt⟩)
    · exact .inl (if_neg hlt)
  | delete name q =>
    cases name with
    | dlqBackup =>
      by_cases hgone : ((messageAt b .dlqBackup q).isSome && !(messageAt b' .dlqBackup q).isSome) = true
      · exact .inr (.inr ⟨q, rfl, ((Bool.and_eq_true _ _).mp hgone).1, if_pos hgone⟩)
      · exact .inl (if_neg hgone)
    | _ => exact .inl rfl
  | _ => exact .inl rfl

/-- **What holds along a run.** -/
structure Orderly (Z : QueueDeps) (parties : ι → BackupParty) (s : Sys ι ServerOp ServerOp.Res Err (QueueLog ι S))
    (φ : ι → KnownMsgs) : Prop where
  archived : OnRecord s.st
  known : ∀ i, ∀ x ∈ φ i, s.st.ever x.1 x.2.1 = some x.2.2
  recorded : ∀ strm m, s.st.broker .dlqBackup = some strm → m ∈ strm.msgs → .failed m.seq ∈ s.st.history
  idle : ∀ i, s.started i = false → .relayed i ∉ s.st.history
  order : ∀ i, (parties i).delivers.isSome = true → s.Running i → ∀ later before,
    s.st.history = later ++ .relayed i :: before → ∀ q, .failed q ∉ later
  resolved : ∀ i q, .removed i q ∈ s.st.history → (parties i).delivers.isSome = true → (entryTask Z s.st q).isSome = true
  remembered : Remembered Z parties s.st

omit [DecidableEq ι] in
/-- The occurrences of an event in a history with one event more. -/
theorem append_cons_cases {e x : DlqEvent ι} {h later before : List (DlqEvent ι)} (heq : e :: h = later ++ x :: before) :
    (later = [] ∧ e = x ∧ h = before) ∨ ∃ later', later = e :: later' ∧ h = later' ++ x :: before := by
  rcases later with _ | ⟨y, later'⟩
  · cases heq
    exact .inl ⟨rfl, rfl, rfl⟩
  cases heq
  exact .inr ⟨later', rfl, rfl⟩

theorem route_of_lastDead {m : QueueMsg} {c : Option NatsFault} {b : Broker StreamName QueueMsg}
    (h : lastDead b < lastDead (Broker.exec route (.publish m) c b).2) : route m = some .dlqBackup := by
  have heffect := exec_effect route (.publish m) c b
  generalize (Broker.exec route (.publish m) c b).2 = b' at heffect h
  cases heffect with
  | same => exact absurd h (Nat.lt_irrefl _)
  | removed name seq ho => cases ho
  | stored name strm x ho hroute hs =>
    cases ho
    by_cases hn : name = .dlqBackup
    · rw [hroute, hn]
    · unfold lastDead Broker.set at h
      rw [update_of_ne (Ne.symm hn)] at h
      exact absurd h (Nat.lt_irrefl _)
  | created name ho _ => cases ho
  | dropped name ho => cases ho

/-- What one request adds to the history, and what is known when it does. -/
inductive Adds (Z : QueueDeps) (parties : ι → BackupParty) (s : Sys ι ServerOp ServerOp.Res Err (QueueLog ι S)) (i : ι) :
    List (DlqEvent ι) → Prop
  | nothing : Adds Z parties s i []
  | relayed : Adds Z parties s i [.relayed i]
  | failed (q : ℕ) (h : ∀ j, (parties j).delivers.isSome = true → ¬ s.Running j) : Adds Z parties s i [.failed q]
  | removed (q : ℕ) (hthere : .failed q ∈ s.st.history) (h : ∀ seq, (parties i).delivers = some seq →
      ∃ t t', runTask Z s.st seq = some t ∧ entryTask Z s.st q = some t' ∧ t'.clusterName = t.clusterName ∧
        (.relayed i ∈ s.st.history ∨ t'.sendToTier2 = false)) : Adds Z parties s i [.removed i q]

variable {s : Sys ι ServerOp ServerOp.Res Err (QueueLog ι S)}

omit [DecidableEq ι] in
theorem Orderly.knownTask {φ : ι → KnownMsgs} (h : Orderly Z parties s φ)
    {i : ι} {seq : ℕ} (hk : KnownTask Z (φ i) seq t) : runTask Z s.st seq = some t := by
  obtain ⟨m, hm, ht⟩ := hk
  exact bind_eq_some_iff.mpr ⟨m, h.known i _ hm, ht⟩

omit [DecidableEq ι] in
theorem Orderly.knownEntry {φ : ι → KnownMsgs} (h : Orderly Z parties s φ)
    {i : ι} {q : ℕ} (hk : KnownEntry Z (φ i) q t) : entryTask Z s.st q = some t := by
  obtain ⟨a, n, ha, hn, ht⟩ := hk
  exact bind_eq_some_iff.mpr ⟨a, h.known i _ ha, bind_eq_some_iff.mpr ⟨n, hn, h.knownTask ht⟩⟩

omit [DecidableEq ι] in
/-- **One request**, as the protocol and the conditions allow it. -/
theorem Orderly.adds {φ : ι → KnownMsgs} (h : Orderly Z parties s φ)
    {i : ι} {o : ServerOp} (c : C × Option NatsFault) (hallowed : (partyProto Z (parties i).delivers).allowed (φ i) o)
    (hg : CarefulOp Z parties s i o) :
    ∃ evs, ((serverSem R).exec i o c s.st).2.history = evs ++ s.st.history ∧ Adds Z parties s i evs := by
  cases o with
  | repo o =>
    refine ⟨relayEvents i o, rfl, ?_⟩
    cases o with
    | refreshServer tier =>
      cases tier with
      | tier1 => exact .nothing
      | tier2 => exact .relayed
    | _ => exact .nothing
  | queue o =>
    refine ⟨dlqEvents i s.st.broker (Broker.exec route o c.2 s.st.broker).2 o, rfl, ?_⟩
    rcases dlqEvents_cases i s.st.broker (Broker.exec route o c.2 s.st.broker).2 o with hev | ⟨m, rfl, hlt, hev⟩ | ⟨q, rfl, hat, hev⟩
    · rw [hev]
      exact .nothing
    · rw [hev]
      exact .failed _ (hg (route_of_lastDead hlt))
    · rw [hev]
      obtain ⟨x, hx⟩ := isSome_iff_exists.mp hat
      obtain ⟨strm, m, hs, hm, rfl, -⟩ := messageAt_eq_some.mp hx
      refine .removed _ (h.recorded strm m hs hm) fun seq hseq => ?_
      -- the listing has read the dead letter and its task
      obtain ⟨t, ht, hentry⟩ := (hallowed.2 seq hseq).2 _ rfl
      have htask := h.knownTask ht
      obtain ⟨hname, hrelay⟩ := hg seq hseq
      obtain ⟨t', ht', hsame⟩ := hentry (hname t htask)
      have htask' := h.knownEntry ht'
      refine ⟨t, t', htask, htask', hsame, ?_⟩
      rcases hrelay with hrelay | hrelay
      · exact .inl hrelay
      · exact .inr (hrelay t' htask')

section Step

variable {s : Sys ι ServerOp ServerOp.Res Err (QueueLog ι S)} {φ : ι → KnownMsgs} {i : ι} {c : C × Option NatsFault}
  {o : ServerOp} {k : o.Res → ServerProg Unit} {evs : List (DlqEvent ι)}

theorem Orderly.running_before (h : Orderly Z parties s φ) (hp : s.procs i = .call o k) {j : ι}
    (hrun : (s.stepProc (serverSem R) i c).Running j) (hrel : .relayed j ∈ s.st.history) : s.Running j := by
  by_cases hj : j = i
  · subst hj
    refine ⟨?_, by rw [hp]; exact id⟩
    by_contra hstart
    exact h.idle j (Bool.eq_false_iff.mpr hstart) hrel
  · exact (Sys.running_stepProc c hj).mp hrun

theorem Orderly.order_step (h : Orderly Z parties s φ) (hp : s.procs i = .call o k) (hadds : Adds Z parties s i evs) {j : ι}
    (hdel : (parties j).delivers.isSome = true) (hrun : (s.stepProc (serverSem R) i c).Running j)
    {later before : List (DlqEvent ι)} (heq : evs ++ s.st.history = later ++ .relayed j :: before) (q : ℕ) :
    .failed q ∉ later := by
  intro hq
  -- an earlier relay belongs to a delivery under way, and was not followed by a failure
  have hunder : ∀ later', s.st.history = later' ++ .relayed j :: before → s.Running j := by
    intro later' heq'
    refine h.running_before hp hrun ?_
    rw [heq']
    exact mem_append_right _ mem_cons_self
  have hearlier : ∀ later', s.st.history = later' ++ .relayed j :: before → .failed q ∉ later' :=
    fun later' heq' => h.order j hdel (hunder later' heq') later' before heq' q
  have hnext : ∀ e, e :: s.st.history = later ++ .relayed j :: before → .failed q ≠ e → False := by
    intro e heq' hne
    rcases append_cons_cases heq' with ⟨rfl, -, -⟩ | ⟨later', rfl, heq''⟩
    · cases hq
    · rcases mem_cons.mp hq with rfl | hq
      · exact hne rfl
      · exact hearlier later' heq'' hq
  cases hadds with
  | nothing => exact hearlier later heq hq
  | relayed => exact hnext _ heq nofun
  | removed q' _ _ => exact hnext _ heq nofun
  | failed q' hidle =>
    rcases append_cons_cases heq with ⟨rfl, -, -⟩ | ⟨later', rfl, heq'⟩
    · cases hq
    · exact hidle j hdel (hunder later' heq')

omit [DecidableEq ι] in
theorem Orderly.idle_step (h : Orderly Z parties s φ) (hadds : Adds Z parties s i evs) {j : ι} (hji : j ≠ i)
    (hj : s.started j = false) : .relayed j ∉ evs ++ s.st.history := by
  intro hrel
  rcases mem_append.mp hrel with hrel | hrel
  · cases hadds with
    | nothing => cases hrel
    | relayed =>
      cases mem_singleton.mp hrel
      exact hji rfl
    | failed q _ => cases mem_singleton.mp hrel
    | removed q _ _ => cases mem_singleton.mp hrel
  · exact h.idle j hj hrel

omit [DecidableEq ι] in
theorem Orderly.resolved_step (h : Orderly Z parties s φ) (hadds : Adds Z parties s i evs) {j : ι} {q : ℕ}
    (hmem : .removed j q ∈ evs ++ s.st.history) (hdel : (parties j).delivers.isSome = true) :
    (entryTask Z s.st q).isSome = true := by
  rcases mem_append.mp hmem with hmem | hmem
  · cases hadds with
    | nothing => cases hmem
    | relayed => cases mem_singleton.mp hmem
    | failed q' _ => cases mem_singleton.mp hmem
    | removed q' _ hfacts =>
      cases mem_singleton.mp hmem
      obtain ⟨seq, hseq⟩ := isSome_iff_exists.mp hdel
      obtain ⟨t, t', -, ht', -⟩ := hfacts seq hseq
      rw [ht']
      rfl
  · exact h.resolved j q hmem hdel

omit [DecidableEq ι] in
/-- **A delivery that removes a dead letter** with a request has relayed, and nothing has failed since. -/
theorem Orderly.removed_step (h : Orderly Z parties s φ) (hp : s.procs i = .call o k) {q seq : ℕ} {t t' : BackupTask}
    (hthere : .failed q ∈ s.st.history) (hseq : (parties i).delivers = some seq) (htask : runTask Z s.st seq = some t)
    (hcluster : t'.clusterName = t.clusterName) (hrelay : .relayed i ∈ s.st.history) :
    ∃ j seq t₁ mid first, (parties j).delivers = some seq ∧ runTask Z s.st seq = some t₁ ∧ t₁.clusterName = t'.clusterName ∧
      s.st.history = mid ++ .relayed j :: first ∧ .failed q ∈ first := by
  obtain ⟨mid, first, hsplit⟩ := append_of_mem hrelay
  have hstarted : s.started i = true := by
    by_contra hstart
    exact h.idle i (Bool.eq_false_iff.mpr hstart) hrelay
  have hrun : s.Running i := ⟨hstarted, by rw [hp]; exact id⟩
  have hmid := h.order i (by rw [hseq]; rfl) hrun mid first hsplit q
  refine ⟨i, seq, t, mid, first, hseq, htask, hcluster.symm, hsplit, ?_⟩
  rw [hsplit] at hthere
  rcases mem_append.mp hthere with hthere | hthere
  · exact absurd hthere hmid
  · rcases mem_cons.mp hthere with hbad | hthere
    · cases hbad
    · exact hthere

omit [DecidableEq ι] in
theorem Orderly.remembered_step (h : Orderly Z parties s φ) (hp : s.procs i = .call o k) (hadds : Adds Z parties s i evs)
    {later before : List (DlqEvent ι)} {j : ι} {q : ℕ} (heq : evs ++ s.st.history = later ++ .removed j q :: before)
    (hdel : (parties j).delivers.isSome = true) (ht : entryTask Z s.st q = some t) (hsend : t.sendToTier2 = true) :
    ∃ j' seq t' mid first, (parties j').delivers = some seq ∧ runTask Z s.st seq = some t' ∧ t'.clusterName = t.clusterName ∧
      before = mid ++ .relayed j' :: first ∧ .failed q ∈ first := by
  have hold : ∀ later', s.st.history = later' ++ .removed j q :: before → _ :=
    fun later' heq' => h.remembered later' j q before heq' hdel t ht hsend
  cases hadds with
  | nothing => exact hold later heq
  | relayed =>
    rcases append_cons_cases heq with ⟨-, hbad, -⟩ | ⟨later', -, heq'⟩
    · cases hbad
    · exact hold later' heq'
  | failed q' _ =>
    rcases append_cons_cases heq with ⟨-, hbad, -⟩ | ⟨later', -, heq'⟩
    · cases hbad
    · exact hold later' heq'
  | removed q' hthere hfacts =>
    rcases append_cons_cases heq with ⟨-, hsame, rfl⟩ | ⟨later', -, heq'⟩
    swap
    · exact hold later' heq'
    cases hsame
    obtain ⟨seq, hseq⟩ := isSome_iff_exists.mp hdel
    obtain ⟨t₁, t₂, htask, hentry, hcluster, hrelay⟩ := hfacts seq hseq
    have hsame : t₂ = t := some.inj (hentry.symm.trans ht)
    subst hsame
    rcases hrelay with hrelay | hrelay
    · exact h.removed_step hp hthere hseq htask hcluster hrelay
    · rw [hrelay] at hsend
      cases hsend

omit [DecidableEq ι] in
/-- A dead letter that is there is in the history. -/
theorem Orderly.recorded_step (h : Orderly Z parties s φ) {o : StreamOp StreamName QueueMsg} (ho : KeepsStreams o)
    {strm' : MsgStream QueueMsg} {m : Stored QueueMsg}
    (hs : (Broker.exec route o c.2 s.st.broker).2 .dlqBackup = some strm') (hm : m ∈ strm'.msgs) :
    .failed m.seq ∈ dlqEvents i s.st.broker (Broker.exec route o c.2 s.st.broker).2 o ++ s.st.history := by
  obtain ⟨strm, hstrm, hcase⟩ := (exec_streams ho c.2 s.st.broker).2 strm' m hs hm
  rcases hcase with hold | ⟨hnew, hlast, rfl, -⟩
  · exact mem_append_right _ (h.recorded strm m hstrm hold)
  have hbefore : lastDead s.st.broker = strm.lastSeq := by
    unfold lastDead
    rw [hstrm]
    rfl
  have hafter : lastDead (Broker.exec route (.publish m.msg) c.2 s.st.broker).2 = m.seq := by
    unfold lastDead
    rw [hs]
    exact hlast
  have hlt : lastDead s.st.broker < lastDead (Broker.exec route (.publish m.msg) c.2 s.st.broker).2 := by
    omega
  rw [dlqEvents, if_pos hlt, hafter]
  exact mem_append_left _ mem_cons_self

/-- **One step** of a process keeps what holds along a run. -/
theorem Orderly.step (h : Orderly Z parties s φ) (hp : s.procs i = .call o k)
    (hallowed : (partyProto Z (parties i).delivers).allowed (φ i) o) (hg : CarefulOp Z parties s i o) :
    Orderly Z parties (s.stepProc (serverSem R) i c) (update φ i
      ((partyProto Z (parties i).delivers).next (φ i) o ((serverSem R).exec i o c s.st).1)) := by
  obtain ⟨evs, hhist, hadds⟩ := h.adds (R := R) c hallowed hg
  have hst : (s.stepProc (serverSem R) i c).st = ((serverSem R).exec i o c s.st).2 := by rw [Sys.stepProc_call hp]
  have hstarted : (s.stepProc (serverSem R) i c).started = update s.started i true := by rw [Sys.stepProc_call hp]
  have hback : ∀ q t, (entryTask Z s.st q).isSome = true → entryTask Z ((serverSem R).exec i o c s.st).2 q = some t →
      entryTask Z s.st q = some t := by
    intro q t hsome ht
    obtain ⟨t₀, ht₀⟩ := isSome_iff_exists.mp hsome
    rw [entryTask_exec (R := R) (i := i) (o := o) (c := c) ht₀] at ht
    rw [ht₀, ht]
  refine ⟨?archived, ?known, ?recorded, ?idle, ?order, ?resolved, ?remembered⟩
  case archived =>
    rw [hst]
    cases o with
    | repo o => exact ⟨h.archived.agree, h.archived.fresh⟩
    | queue o => exact OnRecord.exec (R := R) hallowed.1 h.archived
  case known =>
    intro j x hx
    rw [hst]
    by_cases hj : j = i
    · subst hj
      rw [update_self] at hx
      cases o with
      | repo o => exact h.known j x hx
      | queue o => exact learn_exec h.archived (h.known j) x hx
    · rw [update_of_ne hj] at hx
      exact ever_exec (h.known j x hx)
  case recorded =>
    rw [hst]
    intro strm' m hs hm
    cases o with
    | repo o => exact mem_append_right _ (h.recorded strm' m hs hm)
    | queue o => exact h.recorded_step hallowed.1 hs hm
  case idle =>
    rw [hst, hhist, hstarted]
    intro j hj
    have hji : j ≠ i := by
      rintro rfl
      rw [update_self] at hj
      cases hj
    rw [update_of_ne hji] at hj
    exact h.idle_step hadds hji hj
  case order =>
    intro j hdel hrun later before heq q
    rw [hst, hhist] at heq
    exact h.order_step hp hadds hdel hrun heq q
  case resolved =>
    rw [hst, hhist]
    intro j q hmem hdel
    obtain ⟨t, ht⟩ := isSome_iff_exists.mp (h.resolved_step hadds hmem hdel)
    rw [entryTask_exec ht]
    rfl
  case remembered =>
    rw [hst]
    intro later j q before heq hdel t ht hsend
    rw [hhist] at heq
    have hmem : .removed j q ∈ evs ++ s.st.history := by
      rw [heq]
      exact mem_append_right _ mem_cons_self
    have ht' := hback q t (h.resolved_step hadds hmem hdel) ht
    obtain ⟨j', seq, t', mid, first, hseq, htask, hrest⟩ := h.remembered_step hp hadds heq hdel ht' hsend
    exact ⟨j', seq, t', mid, first, hseq, runTask_exec htask, hrest⟩

theorem Orderly.crash (h : Orderly Z parties s φ) (x : K) : Orderly Z parties (s.step (serverSem R) (.crash x)) φ := by
  refine ⟨⟨h.archived.agree, h.archived.fresh⟩, h.known, h.recorded, h.idle, fun i hdel hrun => ?_, h.resolved, h.remembered⟩
  obtain ⟨hstarted, hunfinished⟩ := hrun
  have hprocs : ((s.step (serverSem R) (.crash x)).procs i) = if s.started i then .ret () else s.procs i := rfl
  rw [hprocs, show s.started i = true from hstarted] at hunfinished
  exact absurd trivial hunfinished

end Step

end Runs

/-! ## Two runs -/

def emptyQueues : Broker StreamName QueueMsg
  | .backup | .dlqBackup => some MsgStream.empty
  | _ => none

/-- One snapshot of the cluster `c`, on tier 1. -/
def oneSnapshot {ι : Type} : Repos ι where
  snapshots
    | .tier1 => [⟨"1".toList, ⟨"c".toList, [], []⟩, 0, []⟩]
    | .tier2 => []
  wal _ := Fs.empty

/-- Repositories in which everything can be read. -/
def plainRepos (ι : Type) : Sem ι RepoOp RepoOp.Res (Repos ι) (Option Fault) (Tier → ℕ → ℕ) :=
  repoSem ι ⟨fun _ => ⟨[], [], 0⟩, fun _ _ => false⟩

/-- A task of the cluster `c`. -/
def taskOfC (sendToTier2 : Bool) : BackupTask := ⟨"c".toList, sendToTier2, none⟩

/-- A relay is asked for, its deliveries fail and it is given up; then there is another task, or the operator retries. -/
def fiveFailures (next : BackupParty) : Fin 9 → BackupParty
  | 0 => .publish (taskOfC true)
  | 6 => .giveUp 1
  | 7 => next
  | 8 => .deliver [] 2
  | _ => .deliver [] 1

/-- The system of it. -/
def failuresSys (next : BackupParty) : Sys (Fin 9) ServerOp ServerOp.Res Err (QueueLog (Fin 9) (Repos (Fin 9))) :=
  Sys.init (QueueLog.start oneSnapshot emptyQueues) fun i => (fiveFailures next i).prog ⟨id, fun l => List.Perm.refl l⟩ plainQueue true 3

/-- Five deliveries in which Kopia fails, and everything after them without a failure. -/
def failuresThen (steps : ℕ) : List (Ev (Fin 9) (Option Fault × Option NatsFault) (Tier → ℕ → ℕ)) :=
  .step 0 (none, none) :: ([1, 2, 3, 4, 5] : List (Fin 9)).flatMap (fun i => List.replicate 2 (.step i (some (.kopia false), none))) ++
    .step 6 (none, none) :: List.replicate steps (.step 7 (none, none)) ++ List.replicate 20 (.step 8 (none, none))

end Klio

import Klio.Model.Plain
import Klio.Lib.Trace
import Klio.Proof.Discard

/-!
# Tasks in the queue

* `captured_iff`: a cluster can be relayed exactly if its name has no dot, which is a separator in subjects.
* `listing_complete`: a listing of dead letters is never silently truncated, whatever happens meanwhile.
* `purge_selective_iff`: clearing the dead letters of one WAL file removes just them, unless one cannot be read.
* `retries_merged`: an operator's retry publishes one task for each cluster, in which its failed tasks are merged (`Merged`).
-/

namespace Klio

open Lib Prog List

/-! ## Subjects -/

theorem splitDots_append {a : Name} (ha : '.' ∉ a) (s : Name) : splitDots (a ++ '.' :: s) = a :: splitDots s := by
  induction a with
  | nil => rfl
  | cons c a ih =>
    obtain ⟨hc, ha⟩ := not_or.1 (mt mem_cons.2 ha)
    rw [cons_append, splitDots, if_neg (Ne.symm hc), ih ha]

theorem splitDots_ne_nil (s : Name) : splitDots s ≠ [] := by
  rcases s with _ | ⟨c, s⟩
  · exact nofun
  unfold splitDots
  split
  · exact nofun
  · split <;> exact nofun

/-- A name is one token exactly if it has no dot. -/
theorem splitDots_cases {c : Name} : '.' ∉ c ∧ splitDots c = [c] ∨ '.' ∈ c ∧ ∃ a b t, splitDots c = a :: b :: t := by
  by_cases hc : '.' ∈ c
  · obtain ⟨a, b, rfl, ha⟩ := eq_append_cons_of_mem hc
    obtain ⟨t, ts, hb⟩ := exists_cons_of_ne_nil (splitDots_ne_nil b)
    exact .inr ⟨hc, a, t, ts, by rw [splitDots_append ha, hb]⟩
  refine .inl ⟨hc, ?_⟩
  induction c with
  | nil => rfl
  | cons a c ih =>
    obtain ⟨ha, hc⟩ := not_or.1 (mt mem_cons.2 hc)
    rw [splitDots, if_neg (Ne.symm ha), ih hc]

/-- **Which clusters can be relayed**: what is published for a cluster goes to exactly the stream for it if and only if
there is no dot in the name, which `ValidatePathComponent` accepts. Subjects of latest uploads are distinct. -/
theorem captured_iff (c : Name) (hne : c ≠ []) :
    ((∀ s : StreamName, s.captures (walSubject c) = true ↔ s = .wal) ∧
      (∀ s : StreamName, s.captures (backupSubject c) = true ↔ s = .backup) ∧
      (∀ s : StreamName, s.captures (latestUploadedWalSubject c) = true ↔ s = .latestUploadedWal) ∧
      ∀ c', latestUploadedWalSubject c' = latestUploadedWalSubject c → c' = c) ↔ '.' ∉ c := by
  have hwal : splitDots (walSubject c) = "klio".toList :: "wal".toList :: splitDots c := rfl
  have hbackup : splitDots (backupSubject c) = "klio".toList :: "backup".toList :: splitDots c := rfl
  have hlatest : splitDots (latestUploadedWalSubject c) = "klio".toList :: "latest-uploaded-wal".toList :: splitDots c := rfl
  have hsubjects : splitDots (walSubject ['*']) = ["klio".toList, "wal".toList, ['*']] ∧
      splitDots (backupSubject ['*']) = ["klio".toList, "backup".toList, ['*']] ∧
      splitDots (latestUploadedWalSubject ['*']) = ["klio".toList, "latest-uploaded-wal".toList, ['*']] ∧
      (∃ t, splitDots walAdvisorySubject = "$JS".toList :: t) ∧ ∃ t, splitDots backupAdvisorySubject = "$JS".toList :: t :=
    ⟨by decide, by decide, by decide, ⟨_, rfl⟩, ⟨_, rfl⟩⟩
  obtain ⟨h1, h2, h3, ⟨t, h4⟩, ⟨t', h5⟩⟩ := hsubjects
  rcases splitDots_cases (c := c) with ⟨hc, htok⟩ | ⟨hc, a, b, ts, htok⟩
  · refine iff_of_true ⟨?_, ?_, ?_, fun c' h => append_cancel_left h⟩ hc
    all_goals
      intro s
      cases s <;> simp [StreamName.captures, StreamName.subject, tokensMatch, hwal, hbackup, hlatest, h1, h2, h3, h4, h5, htok, hne]
  · refine iff_of_false (fun h => ?_) (not_not.2 hc)
    have := (h.1 .wal).2 rfl
    simp [StreamName.captures, StreamName.subject, tokensMatch, hwal, h1, htok] at this

theorem captured_plain : "c".toList ≠ [] ∧ ∀ s : StreamName, s.captures (walSubject "c".toList) = true ↔ s = .wal :=
  ⟨by decide, ((captured_iff "c".toList (by decide)).2 (by decide)).1⟩

/-- A cluster that is accepted, and whose tasks no stream takes. -/
theorem dotted_cluster_lost : validatePathComponent plainDeps "a.b".toList = .ok () ∧
    ∀ s : StreamName, s.captures (walSubject "a.b".toList) = false :=
  ⟨rfl, by intro s; cases s <;> decide⟩

/-! ## Listings -/

/-- What the dead letters may be later on: some were deleted, and others have got larger numbers. -/
def LaterStream (s₀ s : MsgStream QueueMsg) : Prop := ∀ x ∈ s.msgs, x ∈ s₀.msgs ∨ s₀.lastSeq < x.seq

/-- An answer of a pager: the next message that is there when it is reached, a failure, or that it has given up. -/
def PagerAnswers (dlq : StreamName) (s : MsgStream QueueMsg) (ev : Σ o : StreamOp StreamName QueueMsg, o.Res) : Prop :=
  ∀ after r, ev = ⟨.next dlq after, r⟩ → (∃ e, r = .error e) ∨ r = .ok none ∨ r = .ok (s.next after)

variable {T : Type} {Z : QueueDeps} {kind : TaskKind T}

theorem MsgStream.next_spec {s : MsgStream QueueMsg} {after : ℕ} {x : Stored QueueMsg} (h : s.next after = some x) :
    x ∈ s.msgs ∧ after < x.seq ∧ ∀ m ∈ s.msgs, after < m.seq → x = m ∨ x.seq < m.seq := by
  unfold MsgStream.next at h
  obtain ⟨hx, pre, post, heq, hpre⟩ := find?_eq_some_iff_append.1 h
  have hinc := s.increasing
  rw [heq] at hinc ⊢
  simp only [pairwise_append, pairwise_cons] at hinc
  refine ⟨by simp, by simpa using hx, fun m hm hlt => ?_⟩
  rcases mem_append.1 hm with hm | hm
  · have := hpre m hm
    simp at this
    omega
  · exact (mem_cons.1 hm).imp Eq.symm fun hm => hinc.2.1.1 m hm

/-- **What a pager was asked for**: its messages come with increasing numbers, each from a stream it has met; and one that
was there all the time was read, unless all that were read have smaller numbers. -/
theorem drainPager_runs (fuel after : ℕ) {tr : List (Σ o : StreamOp StreamName QueueMsg, o.Res)} {advs : List DlqAdvisory}
    {states : List (MsgStream QueueMsg)} (hrun : (drainPager Z kind fuel after).Runs tr (.ret advs))
    (hans : List.Forall₂ (fun ev s => PagerAnswers kind.dlq s ev) tr states) :
    (advs.Pairwise fun a a' => a.dlqSequence < a'.dlqSequence) ∧
      (∀ a ∈ advs, after < a.dlqSequence ∧ ∃ s ∈ states, ∃ x ∈ s.msgs, x.seq = a.dlqSequence) ∧
      ∀ m, after < m.seq → (∀ s ∈ states, m ∈ s.msgs) →
        (∃ a ∈ advs, a.dlqSequence = m.seq ∧ Z.unmarshalAdvisory m.msg.data = some a.sourceSeq) ∨ ∀ a ∈ advs, a.dlqSequence < m.seq := by
  induction fuel generalizing after tr advs states with
  | zero => cases hrun
  | succ fuel ih =>
    unfold drainPager at hrun
    cases hrun with
    | cons r hrun =>
      cases hans with
      | cons hans hrest =>
        rename_i s states
        rcases hans after r rfl with ⟨e, rfl⟩ | rfl | rfl
        · cases hrun
        · cases hrun
          simp
        · rcases hnext : s.next after with _ | x
          · rw [hnext] at hrun
            cases hrun
            simp
          rw [hnext] at hrun
          obtain ⟨hx, hafter, hfirst⟩ := MsgStream.next_spec hnext
          rcases hdata : Z.unmarshalAdvisory x.msg.data with _ | n
          · simp only [hdata] at hrun; cases hrun
          simp only [hdata] at hrun
          obtain ⟨rest, tr₁, tr₂, rfl, hrun₁, hrun₂⟩ := runs_bind hrun
          cases hrun₂
          rw [append_nil] at hrest
          obtain ⟨hinc, hread, hall⟩ := ih x.seq hrun₁ hrest
          refine ⟨pairwise_cons.2 ⟨fun a ha => (hread a ha).1, hinc⟩, ?_, fun m hm hthere => ?_⟩
          · refine forall_mem_cons.2 ⟨⟨hafter, s, mem_cons_self, x, hx, rfl⟩, fun a ha => ?_⟩
            obtain ⟨hlt, s', hs', hx'⟩ := hread a ha
            exact ⟨hafter.trans hlt, s', mem_cons_of_mem _ hs', hx'⟩
          rcases hfirst m (hthere s mem_cons_self) hm with rfl | hlt
          · exact .inl ⟨_, mem_cons_self, rfl, hdata⟩
          · refine (hall m hlt fun s' hs' => hthere s' (mem_cons_of_mem _ hs')).imp ?_ fun h => forall_mem_cons.2 ⟨hlt, h⟩
            rintro ⟨a, ha, h⟩
            exact ⟨a, mem_cons_of_mem _ ha, h⟩

/-- **A listing is never silently truncated.** The number of dead letters is read, and then whatever is added, with
larger numbers, and deleted meanwhile, and wherever the pager gives up: if `drainDLQPager` succeeds, every dead letter
of then that is there till the end is listed. -/
theorem listing_complete (Z : QueueDeps) (kind : TaskKind T) (fuel : ℕ) (s₀ : MsgStream QueueMsg)
    (states : List (MsgStream QueueMsg)) (hlater : ∀ s ∈ states, LaterStream s₀ s)
    (tr : List (Σ o : StreamOp StreamName QueueMsg, o.Res)) (hans : List.Forall₂ (fun ev s => PagerAnswers kind.dlq s ev) tr states)
    (advs : List DlqAdvisory) (hrun : (drainDLQPager Z kind fuel s₀.msgs.length).Runs tr (.ret advs)) :
    ∀ m ∈ s₀.msgs, (∀ s ∈ states, m ∈ s.msgs) →
      ∃ a ∈ advs, a.dlqSequence = m.seq ∧ Z.unmarshalAdvisory m.msg.data = some a.sourceSeq := by
  intro m hm hthere
  obtain ⟨advs', tr₁, tr₂, rfl, hrun₁, hrun₂⟩ := runs_bind hrun
  split at hrun₂
  · cases hrun₂
  rename_i hlen
  cases hrun₂
  rw [append_nil] at hans
  obtain ⟨hinc, hread, hall⟩ := drainPager_runs fuel 0 hrun₁ hans
  refine (hall m (s₀.positive m hm) hthere).resolve_right fun hless => hlen ?_
  -- otherwise what was read are dead letters of then, and this one is missing
  have hnd : (m.seq :: advs.map DlqAdvisory.dlqSequence).Nodup := by
    refine nodup_cons.2 ⟨fun hmem => ?_, (pairwise_map.2 (hinc.imp fun h => Nat.ne_of_lt h))⟩
    obtain ⟨a, ha, heq⟩ := mem_map.1 hmem
    exact absurd (hless a ha) (by omega)
  have hsub : m.seq :: advs.map DlqAdvisory.dlqSequence ⊆ s₀.msgs.map Stored.seq := by
    refine cons_subset.2 ⟨mem_map_of_mem hm, fun n hn => ?_⟩
    obtain ⟨a, ha, rfl⟩ := mem_map.1 hn
    obtain ⟨-, s, hs, x, hx, hseq⟩ := hread a ha
    rcases hlater s hs x hx with hx | hlt
    · exact hseq ▸ mem_map_of_mem hx
    · have hle := s₀.bounded m hm
      have hlt' := hless a ha
      omega
  have hle := (subperm_of_subset hnd hsub).length_le
  rwa [length_cons, length_map, length_map] at hle

/-- A broker with one dead letter. -/
def oneLetter : Broker StreamName QueueMsg := fun _ => some (streamOf [⟨walAdvisorySubject, "*".toList, []⟩])

theorem listing_complete_one : ∃ a ∈ [(⟨1, 1⟩ : DlqAdvisory)], a.dlqSequence = 1 ∧ plainQueue.unmarshalAdvisory "*".toList = some a.sourceSeq :=
  have hans (o : StreamOp StreamName QueueMsg) : PagerAnswers .dlqWal (streamOf [⟨walAdvisorySubject, "*".toList, []⟩])
      ⟨o, (Broker.exec route o none oneLetter).1⟩ := by
    rintro after r ⟨⟩
    exact .inr (.inr rfl)
  listing_complete plainQueue (walTasks plainQueue) 3 (streamOf [⟨walAdvisorySubject, "*".toList, []⟩]) [_, _]
    (by simp +contextual [LaterStream]) _ (.cons (hans _) (.cons (hans _) .nil)) _
    (runs_answered (fun o => (Broker.exec route o none oneLetter).1) 2 (drainDLQPager plainQueue (walTasks plainQueue) 3 1))
    ⟨1, ⟨walAdvisorySubject, "*".toList, []⟩⟩ mem_cons_self (by simp [streamOf, MsgStream.append, MsgStream.empty])

/-! ## The dead letters of one WAL file -/

section OneWAL

variable (Z : QueueDeps) (c w : Name) (b : Broker StreamName QueueMsg)

/-- A dead letter of the task, or a message that such a dead letter names. -/
def ofTask (name : StreamName) (m : Stored QueueMsg) : Bool :=
  (name = .dlqWal && failedTask Z (walTasks Z) b m = some ⟨c, w⟩) ||
    (name = .wal && (advisories (walTasks Z) b).any fun a =>
      failedTask Z (walTasks Z) b a = some ⟨c, w⟩ && Z.unmarshalAdvisory a.msg.data = some m.seq)

variable {Z c w b}

theorem ofTask_iff {name : StreamName} {m : Stored QueueMsg} : ofTask Z c w b name m = true ↔
    (name = .dlqWal ∧ failedTask Z (walTasks Z) b m = some ⟨c, w⟩) ∨ (name = .wal ∧ ∃ a ∈ advisories (walTasks Z) b,
      failedTask Z (walTasks Z) b a = some ⟨c, w⟩ ∧ Z.unmarshalAdvisory a.msg.data = some m.seq) := by
  simp [ofTask]

theorem picks_oneWAL {a : Stored QueueMsg} : picks Z (walTasks Z) (DiscardCall.walAccepts Z ⟨c, [w]⟩) b a = true ↔
    (c ≠ [] ∧ readable Z (walTasks Z) b = true) ∧ failedTask Z (walTasks Z) b a = some ⟨c, w⟩ := by
  have hacc : ∀ t : WALTask, DiscardCall.walAccepts Z ⟨c, [w]⟩ t = true ↔ c ≠ [] ∧ t = ⟨c, w⟩ := by
    rintro ⟨c', w'⟩
    by_cases hc : c = [] <;> simp [DiscardCall.walAccepts, inCluster, walTasks, hc]
    exact fun _ => decide_eq_true_iff
  unfold picks
  cases failedTask Z (walTasks Z) b a with
  | none => simp
  | some t => simp only [Option.any_some, Bool.and_eq_true, hacc, Option.some.injEq]; tauto

theorem eval_purgeWAL {fuel : ℕ} (hfuel : (advisories (walTasks Z) b).length < fuel) (streams : Handles) :
    ((purgeWALDLQEntries Z fuel c w streams).eval queueSem () (fun _ => none) b).2 =
      discarded Z (walTasks Z) (DiscardCall.walAccepts Z ⟨c, [w]⟩) b := by
  refine Eq.trans ?_ (DiscardCall.eval_prog (.wal ⟨c, [w]⟩) hfuel streams)
  rw [purgeWALDLQEntries, DiscardCall.prog, eval_bind_used]
  split <;> simp_all [Prog.eval]

variable (Z c w b)

/-- **Clearing dead letters is selective exactly if the listing gets past them all**, and the task names a cluster: one
dead letter that cannot be read keeps those of every other task. -/
theorem purge_selective_iff (fuel : ℕ) (hfuel : (advisories (walTasks Z) b).length < fuel) (streams : Handles) :
    ((purgeWALDLQEntries Z fuel c w streams).eval queueSem () (fun _ => none) b).2 = b.keep (fun name m => !ofTask Z c w b name m) ↔
      ∀ a ∈ advisories (walTasks Z) b, failedTask Z (walTasks Z) b a = some ⟨c, w⟩ →
        c ≠ [] ∧ readable Z (walTasks Z) b = true := by
  rw [eval_purgeWAL hfuel]
  constructor
  · intro heq a ha htask
    obtain ⟨dlq, hdlq, hmem⟩ := mem_advisories.1 ha
    have hof : ofTask Z c w b (walTasks Z).dlq a = true := ofTask_iff.2 (.inl ⟨rfl, htask⟩)
    have hkept := Broker.keep_inj heq hdlq hmem
    rw [hof, Bool.not_inj_iff] at hkept
    rcases removable_iff.1 hkept with ⟨-, hp⟩ | ⟨hname, -⟩
    · exact (picks_oneWAL.1 hp).1
    · cases hname
  · intro hall
    refine Broker.keep_congr fun name strm m hstrm hm => congrArg (!·) (Bool.eq_iff_iff.2 ?_)
    rw [removable_iff, ofTask_iff]
    simp only [picks_oneWAL]
    refine or_congr (and_congr_right fun hname => ?_) (and_congr_right fun _ => exists_congr fun a => and_congr_right fun ha => ?_)
    · subst hname
      exact and_iff_right_of_imp (hall m (mem_advisories.2 ⟨strm, hstrm, hm⟩))
    · rw [and_iff_right_of_imp (hall a ha)]

end OneWAL

/-- A task with a dead letter, after one that is not a task. -/
def unreadableLetter (data : Name) : Broker StreamName QueueMsg
  | .wal => some (streamOf [⟨walSubject "c".toList, data, []⟩, ⟨walSubject "c".toList, packPair "c".toList "w".toList, []⟩])
  | .dlqWal => some (streamOf [⟨walAdvisorySubject, "*".toList, []⟩, ⟨walAdvisorySubject, "**".toList, []⟩])
  | _ => none

set_option maxRecDepth 10000 in
theorem purge_selective_other : (advisories (walTasks plainQueue) (unreadableLetter (packPair "c".toList "v".toList))).length < 3 ∧
    ((purgeWALDLQEntries plainQueue 3 "c".toList "w".toList []).eval queueSem () (fun _ => none)
      (unreadableLetter (packPair "c".toList "v".toList))).2 = (unreadableLetter (packPair "c".toList "v".toList)).keep fun name m =>
        !ofTask plainQueue "c".toList "w".toList (unreadableLetter (packPair "c".toList "v".toList)) name m :=
  ⟨by decide +kernel, (purge_selective_iff plainQueue _ _ _ 3 (by decide +kernel) []).2 (by decide +kernel)⟩

set_option maxRecDepth 10000 in
/-- The dead letter of the task stays, because of the other one. -/
theorem purge_blocked : (((purgeWALDLQEntries plainQueue 3 "c".toList "w".toList []).eval queueSem () (fun _ => none)
    (unreadableLetter [])).2 .dlqWal).map (fun s => s.msgs.length) = some 2 := by
  decide +kernel

/-! ## Retries -/

/-- A record of the messages that were published, and whether a publication failed. -/
def publications : Proto (StreamOp StreamName QueueMsg) StreamOp.Res (List QueueMsg × Bool) where
  allowed _ o := ∃ m, o = .publish m
  next
    | ph, .publish m, (.ok _ : Except NatsErr Unit) => (ph.1 ++ [m], ph.2)
    | ph, _, _ => (ph.1, true)

/-- **What the failed tasks of a cluster come to.** -/
structure Merged (tasks : List BackupTask) (t : BackupTask) : Prop where
  cluster : ∃ x ∈ tasks, x.clusterName = t.clusterName
  sendToTier2 : t.sendToTier2 = true ↔ ∃ x ∈ tasks, x.clusterName = t.clusterName ∧ x.sendToTier2 = true
  policy : ∀ p, t.tier2CompressionPolicy = some p ↔
    (∃ x ∈ tasks, x.clusterName = t.clusterName ∧ x.tier2CompressionPolicy = some p) ∧
      ∀ x ∈ tasks, x.clusterName = t.clusterName → ∀ q, x.tier2CompressionPolicy = some q → q = p

variable {tasks : List BackupTask}

theorem Merged.unique {t t' : BackupTask} (h : Merged tasks t) (h' : Merged tasks t')
    (hc : t.clusterName = t'.clusterName) : t = t' := by
  obtain ⟨c, s, p⟩ := t
  obtain ⟨c', s', p'⟩ := t'
  obtain rfl : c = c' := hc
  have hs : s = s' := Bool.eq_iff_iff.2 (h.sendToTier2.trans h'.sendToTier2.symm)
  have hp : p = p' := Option.ext fun q => (h.policy q).trans (h'.policy q).symm
  rw [hs, hp]

/-- **The fold over the tasks**: without a conflict the policy is the common one, and after a conflict there is none. -/
theorem mergeBackupTasks_fold (c : Name) (l : List BackupTask) :
    let m := l.foldl (fun (merged : BackupTask × Bool) task =>
      let policy := mergePolicyField merged.1.tier2CompressionPolicy merged.2 task.tier2CompressionPolicy
      (⟨merged.1.clusterName, merged.1.sendToTier2 || task.sendToTier2, policy.1⟩, policy.2)) (⟨c, false, none⟩, false)
    m.1.clusterName = c ∧ (m.1.sendToTier2 = true ↔ ∃ x ∈ l, x.sendToTier2 = true) ∧
      if m.2 = true then m.1.tier2CompressionPolicy = none ∧
        ∃ x ∈ l, ∃ y ∈ l, ∃ p q, x.tier2CompressionPolicy = some p ∧ y.tier2CompressionPolicy = some q ∧ p ≠ q
      else (∀ p, m.1.tier2CompressionPolicy = some p → ∃ x ∈ l, x.tier2CompressionPolicy = some p) ∧
        ∀ x ∈ l, ∀ p, x.tier2CompressionPolicy = some p → m.1.tier2CompressionPolicy = some p := by
  induction l using reverseRecOn with
  | nil => simp
  | append_singleton l x ih =>
    simp only [foldl_append, foldl_cons, foldl_nil]
    generalize l.foldl _ _ = m at ih ⊢
    obtain ⟨hc, hs, hp⟩ := ih
    refine ⟨hc, by simp [hs, or_and_right, exists_or], ?_⟩
    have hor : ∀ P : BackupTask → Prop, (∃ y ∈ l ++ [x], P y) ↔ (∃ y ∈ l, P y) ∨ P x := by simp [or_and_right, exists_or]
    unfold mergePolicyField
    cases hm : m.2 <;> cases hx : x.tier2CompressionPolicy <;> cases hq : m.1.tier2CompressionPolicy <;> grind

theorem mergeBackupTasks_merged {c : Name} (hc : ∃ x ∈ tasks, x.clusterName = c) :
    Merged tasks (mergeBackupTasks (tasks.filter fun t => t.clusterName = c)) ∧
      (mergeBackupTasks (tasks.filter fun t => t.clusterName = c)).clusterName = c := by
  have hhead : (((tasks.filter fun t => t.clusterName = c).head?.map BackupTask.clusterName).getD []) = c := by
    cases hl : tasks.filter fun t => t.clusterName = c with
    | nil =>
      obtain ⟨x, hx, hxc⟩ := hc
      exact absurd (decide_eq_true hxc) (filter_eq_nil_iff.1 hl x hx)
    | cons x l =>
      have hx : x ∈ tasks.filter fun t => t.clusterName = c := hl ▸ mem_cons_self
      simpa using (mem_filter.1 hx).2
  obtain ⟨hname, hs, hp⟩ := mergeBackupTasks_fold c (tasks.filter fun t => t.clusterName = c)
  unfold mergeBackupTasks
  rw [hhead]
  generalize foldl _ _ _ = m at hname hs hp ⊢
  refine ⟨⟨by rw [hname]; exact hc, by simp [hs, hname, and_assoc], fun p => ?_⟩, hname⟩
  grind

def clustersOf (tasks : List BackupTask) : List Name :=
  tasks.foldl (fun clusters t => if t.clusterName ∈ clusters then clusters else clusters ++ [t.clusterName]) []

theorem clustersOf_spec (tasks : List BackupTask) :
    (clustersOf tasks).Nodup ∧ ∀ c, c ∈ clustersOf tasks ↔ ∃ x ∈ tasks, x.clusterName = c := by
  induction tasks using reverseRecOn with
  | nil => simp [clustersOf]
  | append_singleton tasks t ih =>
    have hstep : clustersOf (tasks ++ [t]) = if t.clusterName ∈ clustersOf tasks then clustersOf tasks
        else clustersOf tasks ++ [t.clusterName] := foldl_append
    rw [hstep]
    split <;> grind

/-- The tasks that `enqueueBackupTasks` publishes. -/
def retried (tasks : List BackupTask) : List BackupTask :=
  (clustersOf tasks).map fun c => mergeBackupTasks (tasks.filter fun t => t.clusterName = c)

theorem mem_retried {t : BackupTask} : t ∈ retried tasks ↔ Merged tasks t := by
  unfold retried
  rw [mem_map]
  constructor
  · rintro ⟨c, hc, rfl⟩
    exact (mergeBackupTasks_merged (((clustersOf_spec tasks).2 c).1 hc)).1
  · intro h
    obtain ⟨hm, hc⟩ := mergeBackupTasks_merged h.cluster
    exact ⟨t.clusterName, ((clustersOf_spec tasks).2 _).2 h.cluster, hm.unique h hc⟩

theorem retried_clusters (tasks : List BackupTask) : (retried tasks).map BackupTask.clusterName = clustersOf tasks := by
  refine (map_map.trans (map_congr_left (g := id) fun c hc => ?_)).trans (map_id _)
  exact (mergeBackupTasks_merged (((clustersOf_spec tasks).2 c).1 hc)).2

theorem enqueueClusters_sat (Z : QueueDeps) (tasks : List (FailedTask BackupTask)) (clusters : List Name) (sent : List QueueMsg) :
    (enqueueClusters Z tasks clusters).Sat publications (fun _ ph => ph = (sent ++ clusters.map fun c =>
      ⟨backupSubject c, Z.marshalBackupTask (mergeBackupTasks ((tasks.map FailedTask.task).filter fun t => t.clusterName = c)),
        taskOriginDLQRetry⟩, false)) (fun _ ph => ph.2 = true) (sent, false) := by
  induction clusters generalizing sent with
  | nil => exact congrArg (·, false) (append_nil sent).symm
  | cons c clusters ih =>
    refine sat_call ⟨_, rfl⟩ fun r => ?_
    rcases r with e | u
    · exact rfl
    refine sat_mono (ih _) (fun _ ph hph => ?_) fun _ _ h => h
    rw [hph, append_assoc]
    rfl

/-- **A retry merges the failed tasks faithfully.** If nothing fails, one task is published for each cluster, what its
failed tasks come to; and it is the same tasks in whatever order they are listed. -/
theorem retries_merged (Z : QueueDeps) (tasks : List (FailedTask BackupTask)) :
    (enqueueBackupTasks Z tasks).Sat publications (fun _ ph => ph = ((retried (tasks.map FailedTask.task)).map fun t =>
      ⟨backupSubject t.clusterName, Z.marshalBackupTask t, taskOriginDLQRetry⟩, false)) (fun _ ph => ph.2 = true) ([], false) ∧
    ((retried (tasks.map FailedTask.task)).map BackupTask.clusterName).Nodup ∧
    (∀ c, c ∈ (retried (tasks.map FailedTask.task)).map BackupTask.clusterName ↔ ∃ t ∈ tasks, t.task.clusterName = c) ∧
    (∀ t, t ∈ retried (tasks.map FailedTask.task) ↔ Merged (tasks.map FailedTask.task) t) ∧
    ∀ tasks', tasks'.Perm (tasks.map FailedTask.task) → (retried tasks').Perm (retried (tasks.map FailedTask.task)) := by
  have hnd : ∀ l, ((retried l).map BackupTask.clusterName).Nodup := fun l => retried_clusters l ▸ (clustersOf_spec l).1
  refine ⟨?_, hnd _, fun c => ?_, fun t => mem_retried, fun tasks' hperm => ?_⟩
  · have hclusters : enqueueBackupTasks Z tasks = enqueueClusters Z tasks (clustersOf (tasks.map FailedTask.task)) := by
      rw [enqueueBackupTasks, clustersOf, foldl_map]
    rw [hclusters]
    refine sat_mono (enqueueClusters_sat Z tasks _ []) (fun _ ph hph => ?_) fun _ _ h => h
    rw [hph, retried, map_map, nil_append]
    refine congrArg (·, false) (map_congr_left fun c hc => ?_)
    have hname := (mergeBackupTasks_merged (((clustersOf_spec _).2 c).1 hc)).2
    simp only [Function.comp, hname]
  · rw [retried_clusters, (clustersOf_spec _).2]
    simp
  · refine (perm_ext_iff_of_nodup (hnd _).of_map (hnd _).of_map).2 fun t => ?_
    have hmono : ∀ {l l' : List BackupTask}, (∀ x, x ∈ l ↔ x ∈ l') → Merged l t → Merged l' t := fun h ⟨h1, h2, h3⟩ =>
      ⟨by simpa only [h] using h1, by simpa only [h] using h2, by simpa only [h] using h3⟩
    rw [mem_retried, mem_retried]
    exact ⟨hmono fun x => hperm.mem_iff, hmono fun x => hperm.mem_iff.symm⟩

end Klio

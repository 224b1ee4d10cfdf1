import Klio.Proof.ReadOnly
import Klio.Proof.SweepOps
import Klio.Proof.WalRetention

/-!
# WAL files that tier 2 waits for

`Put` calls store segments and queue tasks for tier 2, consumers work on the tasks, sweeps prune
tier 1. `applyWALRetention` only looks at the backups: it never asks the queue. So a segment whose
task is pending is removed as soon as it precedes the oldest backup.

`pending_kept`: in every interleaving in which no task for a segment before the first required one is
pending when a sweep announces it, or queued while that sweep is under way, sweeps remove no file of a
pending task.
-/

namespace Klio

open Lib Prog Function Repos

variable {ι : Type}

/-- A system of processes on the repositories. -/
abbrev RepoSys (ι : Type) := Sys ι RepoOp RepoOp.Res Err (Repos ι)

/-- Who acts on the WAL repository of tier 1 and on its queue. Repeated deliveries of one task, up to
the last one before it is a dead letter and after a retry, are as many actors. -/
inductive Actor where
  | put (stream : PutStream)
  | deliver (rand : ℕ → ℕ) (fails : ℕ → Bool) (isRetried : Bool) (task : WALTask)
  | retry (task : WALTask)
  | discard (task : WALTask)
  | sweep (sweeper : Sweeper)

namespace Actor

/-- What an actor does; `K₂` has the key of tier 2. -/
def prog (D : Deps) (K K₂ : Codec) (P : Outside) (W : SweepDeps) (I : Implementation) : Actor → RepoProg Unit
  | put stream => onWAL .tier1 (stream.prog D K I)
  | deliver rand fails isRetried task => consumeWAL D K K₂ rand fails isRetried task
  | retry task => retryWAL task
  | discard task => discardWAL task
  | sweep sweeper => (sweeper.sweep D K P W).bind fun _ => .ret ()

def IsSweep : Actor → Prop
  | sweep _ => True
  | _ => False

end Actor

/-! ## Pending tasks -/

/-- The task was queued, no delivery has handled it, and no one has discarded it. -/
structure Pending (log : List (ι × Msg × Bool)) (task : WALTask) : Prop where
  queued : ∃ i, (i, Msg.walTask task.clusterName task.walName, true) ∈ log
  unhandled : ∀ i b, (i, Msg.ackWAL task.clusterName task.walName, b) ∉ log
  kept : ∀ i b, (i, Msg.discardWAL task.clusterName task.walName, b) ∉ log

theorem Pending.of_append {log : List (ι × Msg × Bool)} {task : WALTask} {e : ι × Msg × Bool}
    (h : Pending (log ++ [e]) task) : Pending log task ∨ e.2.1 = .walTask task.clusterName task.walName := by
  obtain ⟨i, hi⟩ := h.queued
  have hold : ∀ x, x ∉ log ++ [e] → x ∉ log := fun x hx hmem => hx (List.mem_append_left _ hmem)
  rcases List.mem_append.1 hi with hi | hi
  · exact .inl ⟨⟨i, hi⟩, fun j b => hold _ (h.unhandled j b), fun j b => hold _ (h.kept j b)⟩
  · have heq := List.mem_singleton.1 hi
    exact .inr (by rw [← heq])

/-- The task is for a file of a segment of the cluster `c` before `f`. -/
def Before (c f : Name) (task : WALTask) : Prop :=
  ∃ x, IsSegment x ∧ IsFileOf x task.walName ∧ joinPath [task.clusterName] = joinPath [c] ∧ x < f

/-- No task for a segment before `f` is pending. -/
def NoneBefore (log : List (ι × Msg × Bool)) (c f : Name) : Prop := ∀ task, Pending log task → ¬ Before c f task

section Announced

variable [DecidableEq ι]

/-- What a log entry says about the first WAL required by process `i`. -/
def announce (i : ι) (cur : Option (Name × Name)) : ι × Msg × Bool → Option (Name × Name)
  | (j, .settingFirstRequiredWAL c f, _) => if j = i then some (c, f) else cur
  | _ => cur

/-- The cluster and the first WAL required that process `i` has announced last. -/
def announced (i : ι) (log : List (ι × Msg × Bool)) : Option (Name × Name) := log.foldl (announce i) none

theorem announced_append (i : ι) (log : List (ι × Msg × Bool)) (e : ι × Msg × Bool) :
    announced i (log ++ [e]) = announce i (announced i log) e := by
  unfold announced
  rw [List.foldl_append]
  rfl

end Announced

/-! ## The protocol of a sweep -/

/-- The first WAL required that is known after an operation. -/
def nextBound (ph : Option (Name × Name)) : RepoOp → Option (Name × Name)
  | .wal .tier1 (.emit (.settingFirstRequiredWAL c f)) => some (c, f)
  | _ => ph

/-- What a sweep may do to tier 1: it removes what precedes the first WAL it has announced. -/
def SweepAllowed (D : Deps) (ph : Option (Name × Name)) : RepoOp → Prop
  | .wal .tier1 (.remove p) => ∃ c f, ph = some (c, f) ∧ PrunedOf D f (joinPath [c]) p
  | .wal .tier1 (.emit m) => ∃ c f, m = .settingFirstRequiredWAL c f
  | .wal .tier1 (.readDir _) | .wal .tier1 (.readFile _) | .wal .tier1 (.stat _) => True
  | .wal .tier1 _ => False
  | _ => True

/-- The protocol of an actor; only that of a sweep restricts it. -/
def actorProto (D : Deps) (a : Actor) : Proto RepoOp RepoOp.Res (Option (Name × Name)) where
  allowed ph o := a.IsSweep → SweepAllowed D ph o
  next ph o _ := nextBound ph o

theorem sweepAllowed_of_sweeps {D : Deps} {t : Tier} {ph : Option (Name × Name)} {o : RepoOp} (h : SweepsTier t o) :
    SweepAllowed D ph o := by
  cases o with
  | wal tier o =>
    cases tier with
    | tier2 => trivial
    | tier1 => cases o <;> trivial
  | _ => trivial

theorem sat_onWAL_pruning {Ph α : Type} {tier : Tier} {Z : Path → Prop} {T : Proto RepoOp RepoOp.Res Ph} {ph : Ph}
    (hT : ∀ o, (pruning Ph Z).allowed ph o → T.allowed ph (.wal tier o) ∧ ∀ r, T.next ph (.wal tier o) r = ph)
    {p : FsProg Msg α} (hp : p.Sat (pruning Ph Z) (fun _ _ => True) (fun _ _ => True) ph) :
    (onWAL tier p).Sat T (fun _ _ => True) (fun _ _ => True) ph := by
  induction p with
  | ret a => trivial
  | err e => trivial
  | call o k ih =>
    refine ⟨(hT o hp.1).1, fun r => ?_⟩
    rw [(hT o hp.1).2 r]
    exact ih r (hp.2 r)

/-- **WAL retention keeps the protocol of a sweep**: it announces before it removes. -/
theorem applyWALRetention_sat (D : Deps) (c : Name) (tc : TierConfig) (a : Actor) (ph : Option (Name × Name)) :
    (applyWALRetention D c tc).Sat (actorProto D a) (fun _ _ => True) (fun _ _ => True) ph := by
  unfold applyWALRetention
  split
  · trivial
  have hlist := (uses_mapErr (f := .wrap "while listing backups: %w" []) (listBackups_uses tc.tier c)).sat
    (T := actorProto D a) (fun _ _ ho _ => sweepAllowed_of_sweeps (t := tc.tier) ho.sweeps) ph
  refine sat_bind hlist fun backups ph₁ _ => ?_
  rcases retainWALOf_cases D c tc.tier backups with ⟨-, -, heq⟩ | ⟨-, hfin⟩
  · rw [heq]
    cases tc.tier with
    | tier1 =>
      refine ⟨fun _ => ⟨c, findOldestWAL backups, rfl⟩, fun _ => ?_⟩
      refine sat_onWAL_pruning ?_ (setFirstRequired_sat c fun _ hp => hp)
      intro o ho
      cases o with
      | remove p => exact ⟨fun _ => ⟨c, findOldestWAL backups, rfl, ho⟩, fun _ => rfl⟩
      | readDir p => exact ⟨fun _ => trivial, fun _ => rfl⟩
      | readFile p => exact ⟨fun _ => trivial, fun _ => rfl⟩
      | stat p => exact ⟨fun _ => trivial, fun _ => rfl⟩
      | _ => exact ho.elim
    | tier2 =>
      refine ⟨fun _ => trivial, fun _ => ?_⟩
      exact sat_onWAL_pruning (Z := fun _ => True) (fun o _ => ⟨fun _ => trivial, fun _ => rfl⟩)
        (setFirstRequired_sat c fun _ _ => trivial)
  · cases hp : retainWALOf D c tc.tier backups with
    | ret b => trivial
    | err e => trivial
    | call o k => rw [hp] at hfin; exact hfin.elim

theorem actor_sat (D : Deps) (K K₂ : Codec) (P : Outside) (W : SweepDeps) (I : Implementation) (a : Actor)
    (ph : Option (Name × Name)) :
    (a.prog D K K₂ P W I).Sat (actorProto D a) (fun _ _ => True) (fun _ _ => True) ph := by
  cases a with
  | sweep s =>
    have hsweep := sweep_sat (T := actorProto D (.sweep s)) K P W s
      (fun _ _ _ ho _ => sweepAllowed_of_sweeps ho) (fun c tc ph => applyWALRetention_sat D c tc _ ph) ph
    exact sat_bind hsweep fun _ _ _ => trivial
  | _ => exact (uses_any _).sat (fun _ _ _ hs => hs.elim) ph

/-! ## The invariant -/

variable [DecidableEq ι] {D : Deps} {B : Backups}

/-- The condition on a step: a sweep announces a first WAL required only if no task before it is
pending, and no task before it is queued while the sweep is under way. -/
def QueueDrained (actors : ι → Actor) (s : RepoSys ι) : Ev ι (Option Fault) (Tier → ℕ → ℕ) → Prop
  | .step i _ =>
    (∀ c f k, s.procs i = .call (.wal .tier1 (.emit (.settingFirstRequiredWAL c f))) k →
      NoneBefore (s.st.log .tier1) c f) ∧
    ∀ task k, s.procs i = .call (.wal .tier1 (.emit (.walTask task.clusterName task.walName))) k →
      ∀ j, (actors j).IsSweep → ¬ (s.procs j).Finished → ∀ c f, announced j (s.st.log .tier1) = some (c, f) →
        ¬ Before c f task
  | .crash _ => True

/-- What holds all along: a sweep under way has no pending task before what it has announced. -/
structure WaitInv (actors : ι → Actor) (s : RepoSys ι) (φ : ι → Option (Name × Name)) : Prop where
  bound : ∀ i, φ i = announced i (s.st.log .tier1)
  drained : ∀ i, (actors i).IsSweep → ¬ (s.procs i).Finished → ∀ c f, φ i = some (c, f) →
    NoneBefore (s.st.log .tier1) c f

omit [DecidableEq ι] in
/-- Only messages change the log. -/
theorem log_exec (i : ι) (o : RepoOp) (c : Option Fault) (s : Repos ι) :
    (∃ m, o = .wal .tier1 (.emit m) ∧
        (exec B i o c s).2.log .tier1 = s.log .tier1 ++ [(i, m, (ioFault c).isNone)]) ∨
      (∀ ph, nextBound ph o = ph) ∧ (exec B i o c s).2.log .tier1 = s.log .tier1 := by
  cases o with
  | wal tier o =>
    cases tier with
    | tier1 =>
      have hlog : (exec B i (.wal .tier1 o) c s).2.log .tier1 = logOp i (ioFault c) (s.log .tier1) o := by
        simp [exec]
      cases o with
      | emit m => exact .inl ⟨m, rfl, rfl⟩
      | _ => exact .inr ⟨fun _ => rfl, rfl⟩
    | tier2 => exact .inr ⟨fun _ => rfl, by simp [exec]⟩
  | deleteSnapshot tier id =>
    refine .inr ⟨fun _ => rfl, ?_⟩
    simp only [exec]
    split
    · split <;> rfl
    · split <;> rfl
  | migrateSnapshot m =>
    refine .inr ⟨fun _ => rfl, ?_⟩
    simp only [exec]
    split <;> rfl
  | _ => exact .inr ⟨fun _ => rfl, rfl⟩

/-- **One step keeps the invariant**, if it meets the condition. -/
theorem waitInv_step {actors : ι → Actor} {s : RepoSys ι} {φ : ι → Option (Name × Name)} {i : ι} {c : Option Fault}
    {o : RepoOp} {k : o.Res → RepoProg Unit} (hinv : WaitInv actors s φ) (hg : QueueDrained actors s (.step i c))
    (hp : s.procs i = .call o k) (hall : (actorProto D (actors i)).allowed (φ i) o) :
    WaitInv actors (s.stepProc (repoSem ι B) i c) (update φ i (nextBound (φ i) o)) := by
  rw [Sys.stepProc_call hp]
  have hrun : ¬ (s.procs i).Finished := by rw [hp]; exact id
  -- a process that is under way after the step was so before
  have hbefore : ∀ j, ¬ (update s.procs i (k ((repoSem ι B).exec i o c s.st).1) j).Finished →
      ¬ (s.procs j).Finished := by
    intro j hj
    by_cases hji : j = i
    · rw [hji]; exact hrun
    · rwa [update_of_ne hji] at hj
  rcases log_exec (B := B) i o c s.st with ⟨m, rfl, hlog⟩ | ⟨hnext, hlog⟩
  · constructor
    · intro j
      show update φ i _ j = announced j ((exec B i _ c s.st).2.log .tier1)
      rw [hlog, announced_append]
      by_cases hji : j = i
      · rw [hji, update_self, hinv.bound i]
        cases m <;> simp [nextBound, announce]
      · rw [update_of_ne hji, hinv.bound j]
        cases m <;> simp [announce, Ne.symm hji]
    · intro j hsweep hj cl f hφ task hpend hbef
      have hpend' : Pending (s.st.log .tier1 ++ [(i, m, (ioFault c).isNone)]) task := by rw [← hlog]; exact hpend
      have hj' := hbefore j hj
      by_cases hji : j = i
      · -- the sweep itself sends only its announcement
        obtain ⟨cl', f', rfl⟩ := hall (hji ▸ hsweep)
        rw [hji, update_self] at hφ
        obtain ⟨rfl, rfl⟩ : cl' = cl ∧ f' = f := by simpa [nextBound] using hφ
        rcases hpend'.of_append with hold | hnew
        · exact hg.1 cl' f' k hp task hold hbef
        · cases hnew
      · rw [update_of_ne hji] at hφ
        rcases hpend'.of_append with hold | hnew
        · exact hinv.drained j hsweep hj' cl f hφ task hold hbef
        · obtain rfl : m = .walTask task.clusterName task.walName := hnew
          exact hg.2 task k hp j hsweep hj' cl f (by rw [← hinv.bound j]; exact hφ) hbef
  · have hφ' : update φ i (nextBound (φ i) o) = φ := by rw [hnext, update_eq_self]
    rw [hφ']
    constructor
    · intro j
      show φ j = announced j ((exec B i o c s.st).2.log .tier1)
      rw [hlog]
      exact hinv.bound j
    · intro j hsweep hj cl f hφ
      show NoneBefore ((exec B i o c s.st).2.log .tier1) cl f
      rw [hlog]
      exact hinv.drained j hsweep (hbefore j hj) cl f hφ

def queueSys (D : Deps) (K K₂ : Codec) (P : Outside) (W : SweepDeps) (I : Implementation) (actors : ι → Actor)
    (snapshots : Tier → List Manifest) (wal : Tier → Fs Name UInt8) : RepoSys ι :=
  Sys.init { snapshots := snapshots, wal := wal } fun i => (actors i).prog D K K₂ P W I

/-- **Along every run that meets the condition** the invariant holds, and the actors keep their
protocols. -/
theorem queueSys_inv (K K₂ : Codec) (P : Outside) (W : SweepDeps) (I : Implementation) (actors : ι → Actor)
    (snapshots : Tier → List Manifest) (wal : Tier → Fs Name UInt8) {es : List (Ev ι (Option Fault) (Tier → ℕ → ℕ))}
    (hg : Guarded (repoSem ι B) (QueueDrained actors) (queueSys D K K₂ P W I actors snapshots wal) es) :
    ∃ φ, Tracks (fun i => actorProto D (actors i)) ((queueSys D K K₂ P W I actors snapshots wal).run (repoSem ι B) es) φ ∧
      WaitInv actors ((queueSys D K K₂ P W I actors snapshots wal).run (repoSem ι B) es) φ := by
  refine run_proto (WaitInv actors) ?_ ?_ es _ (fun _ => none) (fun i => actor_sat D K K₂ P W I (actors i) none) ?_ hg
  · intro s φ i c o k hinv hstep hp hall
    exact waitInv_step hinv hstep hp hall
  · intro s φ x hinv _
    refine ⟨hinv.bound, fun i hsweep hi cl f hφ => hinv.drained i hsweep ?_ cl f hφ⟩
    intro hfin
    refine hi ?_
    show (if s.started i = true then _ else _ : RepoProg Unit).Finished
    split
    · trivial
    · exact hfin
  · exact ⟨fun _ => rfl, nofun⟩

omit [DecidableEq ι] in
/-- Kopia commands leave the WAL repositories alone. -/
theorem wal_exec (i : ι) (o : RepoOp) (c : Option Fault) (s : Repos ι) :
    (∃ tier o', o = .wal tier o') ∨ (exec B i o c s).2.wal = s.wal := by
  cases o with
  | wal tier o' => exact .inl ⟨tier, o', rfl⟩
  | deleteSnapshot tier id =>
    refine .inr ?_
    simp only [exec]
    split
    · split <;> rfl
    · split <;> rfl
  | migrateSnapshot m =>
    refine .inr ?_
    simp only [exec]
    split <;> rfl
  | _ => exact .inr rfl

omit [DecidableEq ι] in
/-- An operation a sweep may issue leaves every path that its announcement does not cover. -/
theorem sweepAllowed_same {ph : Option (Name × Name)} {o : RepoOp} (ho : SweepAllowed D ph o) {p : Path}
    (hp : ∀ c f, ph = some (c, f) → ¬ PrunedOf D f (joinPath [c]) p) (i : ι) (c : Option Fault) (s : Repos ι) :
    (s.wal .tier1).Same ((exec B i o c s).2.wal .tier1) p := by
  rcases wal_exec (B := B) i o c s with ⟨tier, o', rfl⟩ | hwal
  · cases tier with
    | tier2 => simp only [exec]; exact Fs.Same.refl _ _
    | tier1 =>
      have hexec : (exec B i (.wal .tier1 o') c s).2.wal .tier1 = (Fs.exec o' (ioFault c) (s.wal .tier1)).2 := by
        simp [exec]
      rw [hexec]
      cases o' with
      | remove q =>
        obtain ⟨cl, f, hph, hq⟩ := ho
        cases ioFault c with
        | none => exact ((Fs.Pruned.refl (s.wal .tier1)).remove hq).same p (hp cl f hph)
        | some k => exact Fs.Same.refl _ _
      | readDir q => rw [Fs.exec_readOnly (o := .readDir q) trivial]; exact Fs.Same.refl _ _
      | readFile q => rw [Fs.exec_readOnly (o := .readFile q) trivial]; exact Fs.Same.refl _ _
      | stat q => rw [Fs.exec_readOnly (o := .stat q) trivial]; exact Fs.Same.refl _ _
      | emit m => rw [Fs.exec_readOnly (o := .emit m) trivial]; exact Fs.Same.refl _ _
      | _ => exact ho.elim
  · rw [hwal]
    exact Fs.Same.refl _ _

/-! ## A pending segment before the oldest backup -/

/-- Sorting by insertion, and two attempts. -/
def plainSweepDeps : SweepDeps where
  sortByAscendingTime l := l.insertionSort fun a b => a.startedAt ≤ b.startedAt
  deleteAttempts := 2
  sort_perm l := List.perm_insertionSort _ l
  sort_sorted l := by
    have htotal : Std.Total fun a b : BackupMetadata => a.startedAt ≤ b.startedAt := ⟨fun a b => le_total _ _⟩
    have htrans : IsTrans BackupMetadata fun a b => a.startedAt ≤ b.startedAt := ⟨fun a b c h h' => le_trans h h'⟩
    exact List.pairwise_insertionSort _ l

/-- An upload of the first segment that asks for tier 2, and a sweep. -/
def uploadAndSweep : Bool → Actor
  | false => .put
    { peer := .cert "u@c".toList
      rand := fun _ => 0
      batches := [⟨⟨"c".toList, "000000010000000000000001".toList, [7], 1, 0, true⟩, []⟩] }
  | true => .sweep ⟨true⟩

/-- The two, on a server with one backup, which starts at the fifth segment. -/
def uploadAndSweepSys : RepoSys Bool :=
  queueSys plainDeps plainCodec plainCodec plainOutside plainSweepDeps ⟨false, true⟩ uploadAndSweep
    (fun tier => match tier with
      | .tier1 => [snapshotOf "m5" "newer" "metadata" 5]
      | .tier2 => [])
    fun _ => Fs.empty

def firstSegmentTask : WALTask := ⟨"c".toList, "000000010000000000000001".toList⟩

/-- The upload to its end, then so many steps of the sweep. -/
def uploadThenSweep (n : ℕ) : RepoSys Bool :=
  uploadAndSweepSys.run (repoSem Bool (olderAndNewer false))
    (List.replicate 9 (.step false none) ++ List.replicate n (.step true none))

/-- The next operation announces a first WAL required. -/
def announces : RepoProg Unit → Bool
  | .call (.wal .tier1 (.emit (.settingFirstRequiredWAL _ _))) _ => true
  | _ => false

end Klio

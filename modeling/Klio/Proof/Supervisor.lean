import Klio.Model.Supervisor

/-!
# Whether a demoted instance stays quiet

Once a `Reconcile` has seen that another instance is the primary, no send-wal should be launched
until one sees this instance as the primary again. The reconciler only looks whether a process runs at
that moment, so a request that is still queued, or a restart after a crash, is not called off. The
supervisor stays quiet exactly if nothing of the kind is left when the call returns.

* `SvPh`, `svProto`: where a goroutine is, and what it does next.
* `Quiescent`: no launch is under way, queued, or going to be asked for.
* `settled_quiet`: a settled supervisor launches nothing.
* `SvInv`, `Live`: what holds in every run, to find a launch where the supervisor is not settled.
* `demotion_quiet_iff`: when the instance stays quiet.
* `one_process`, `two_processes_run`: when at most one process runs at a time.
-/

namespace Klio

open Lib List Function Option

variable {ι : Type} {podName : Name} {d : Definition}

/-! ## Where a goroutine is -/

/-- The steps of `Reconcile`. -/
inductive RecPh where
  | begun
  | ctx (running : Bool)
  | getting (running : Bool)
  /-- At the check of `StartProcess`. -/
  | checking
  | queueing
  | stopping
  | ended

/-- The steps of an iteration. -/
inductive LoopPh where
  | selecting
  | launching
  /-- From here on, the checks of `triggerRestartWhenNeeded` one by one. -/
  | ticked
  | notStopped
  | started
  | exited
  | due
  | checking
  | queueing
  | leaving
  | ended
  deriving DecidableEq

/-- The steps of the goroutine of a process. -/
inductive ProcPh where
  | spawned
  | running
  | finishing
  | ended

/-- **Where a goroutine is.** -/
inductive SvPh where
  | reconcile (ph : RecPh)
  | loop (ph : LoopPh)
  | process (ph : ProcPh)
  | manager (ended : Bool)

/-- What comes next. -/
def SvPh.op : SvPh → Option SvOp
  | .reconcile .begun => some .isProcessRunning
  | .reconcile (.ctx _) => some .ctxErr
  | .reconcile (.getting _) => some .get
  | .reconcile .checking | .loop .checking => some .alreadyStarted
  | .reconcile .queueing | .loop .queueing => some .enqueueStart
  | .reconcile .stopping => some .cancelProcess
  | .loop .selecting => some .select
  | .loop .launching => some .newProcess
  | .loop .ticked => some .stopRequestTimeIsZero
  | .loop .notStopped => some .startTimeIsZero
  | .loop .started => some .stopTimeIsZero
  | .loop .exited => some .restartedRecently
  | .loop .due => some .setLastAutomaticRestart
  | .loop .leaving => some .again
  | .process .spawned => some .cmdStart
  | .process .running => some .cmdWait
  | .process .finishing => some .processFinished
  | .manager false => some .shutdown
  | .reconcile .ended | .loop .ended | .process .ended | .manager true => none

/-- The phase is one of the goroutine. -/
def SvPh.Of : SvPh → SvThread ι → Prop
  | .reconcile _, .reconcile _ | .loop _, .iteration _ | .process _, .process _ | .manager _, .manager => True
  | _, _ => False

/-- What `Reconcile` does about what it reads. -/
def RecPh.decide (podName : Name) (running : Bool) : ClusterAnswer → RecPh
  | .notFound => if running then .stopping else .ended
  | .failed => .ended
  | .cluster currentPrimary targetPrimary =>
    if currentPrimary ≠ targetPrimary then .ended
    else if podName = currentPrimary ∧ running = false then .checking
    else if podName ≠ currentPrimary ∧ running = true then .stopping
    else .ended

/-- Where a tick leads. -/
def LoopPh.onSelect (d : Definition) : SelectCase → LoopPh
  | .done => .ended
  | .startRequest => .launching
  | .tick => if d.autoRestart then .ticked else .leaving

/-- Where the answer leads. -/
def svNext (podName : Name) (d : Definition) : SvPh → (o : SvOp) → o.Res → SvPh
  | .reconcile _, .isProcessRunning, (r : Bool) => .reconcile (.ctx r)
  | .reconcile (.ctx running), .ctxErr, (r : Bool) => .reconcile (if r then .ended else .getting running)
  | .reconcile (.getting running), .get, (r : ClusterAnswer) => .reconcile (.decide podName running r)
  | .reconcile _, .alreadyStarted, (r : Bool) => .reconcile (if r then .ended else .queueing)
  | .reconcile _, _, _ => .reconcile .ended
  | .loop _, .select, (r : SelectCase) => .loop (.onSelect d r)
  | .loop _, .newProcess, _ => .loop .leaving
  | .loop _, .stopRequestTimeIsZero, (r : Bool) => .loop (if r then .notStopped else .leaving)
  | .loop _, .startTimeIsZero, (r : Bool) => .loop (if r then .leaving else .started)
  | .loop _, .stopTimeIsZero, (r : Bool) => .loop (if r then .leaving else .exited)
  | .loop _, .restartedRecently, (r : Bool) => .loop (if r then .leaving else .due)
  | .loop _, .setLastAutomaticRestart, _ => .loop .checking
  | .loop _, .alreadyStarted, (r : Bool) => .loop (if r then .leaving else .queueing)
  | .loop _, .enqueueStart, _ => .loop .leaving
  | .loop _, _, _ => .loop .ended
  | .process _, .cmdStart, (r : Bool) => .process (if r then .running else .finishing)
  | .process _, .cmdWait, _ => .process .finishing
  | .process _, _, _ => .process .ended
  | .manager _, _, _ => .manager true

/-- The protocol of a goroutine: each phase allows one operation. -/
def svProto (podName : Name) (d : Definition) (t : SvThread ι) : Proto SvOp SvOp.Res SvPh where
  allowed ph o := ph.op = some o ∧ ph.Of t
  next := svNext podName d

/-- A goroutine ends where nothing comes next. -/
def SvOver (t : SvThread ι) (ph : SvPh) : Prop := ph.op = none ∧ ph.Of t

/-- Where a call begins. -/
def SvCall.begins : SvCall → RecPh
  | .reconcile => .begun
  | .startProcess => .checking
  | .stopProcess => .stopping

/-- The program keeps the protocol of the goroutine, up to an end. -/
abbrev Follows (podName : Name) (d : Definition) (t : SvThread ι) (p : SvProg Unit) (ph : SvPh) : Prop :=
  p.Sat (svProto podName d t) (fun _ => SvOver t) (fun _ => SvOver t) ph

theorem startProcess_sat (i : ι) : Follows podName d (.reconcile i) startProcess (.reconcile .checking) := by
  refine ⟨⟨rfl, trivial⟩, fun (r : Bool) => ?_⟩
  cases r with
  | true => exact ⟨rfl, trivial⟩
  | false => exact ⟨⟨rfl, trivial⟩, fun _ => ⟨rfl, trivial⟩⟩

theorem stopProcess_sat (i : ι) : Follows podName d (.reconcile i) stopProcess (.reconcile .stopping) := by
  refine ⟨⟨rfl, trivial⟩, fun (r : Bool) => ?_⟩
  cases r <;> exact ⟨rfl, trivial⟩

theorem reconcile_sat (i : ι) : Follows podName d (.reconcile i) (reconcile podName) (.reconcile .begun) := by
  refine ⟨⟨rfl, trivial⟩, fun (running : Bool) => ⟨⟨rfl, trivial⟩, fun (cancelled : Bool) => ?_⟩⟩
  cases cancelled with
  | true => exact ⟨rfl, trivial⟩
  | false =>
    refine ⟨⟨rfl, trivial⟩, fun (answer : ClusterAnswer) => ?_⟩
    cases answer with
    | failed => exact ⟨rfl, trivial⟩
    | notFound =>
      rcases running with _ | _
      · exact ⟨rfl, trivial⟩
      refine ⟨⟨rfl, trivial⟩, fun (r : Bool) => ?_⟩
      cases r <;> exact ⟨rfl, trivial⟩
    | cluster cur tgt =>
      change Prog.Sat _ _ _ (ite (cur ≠ tgt) _ _) (SvPh.reconcile (RecPh.decide podName running (.cluster cur tgt)))
      simp only [RecPh.decide]
      split_ifs with hmoving hstart hstop
      · exact ⟨rfl, trivial⟩
      · refine ⟨⟨rfl, trivial⟩, fun (r : Bool) => ?_⟩
        cases r with
        | true => exact ⟨rfl, trivial⟩
        | false => exact ⟨⟨rfl, trivial⟩, fun _ => ⟨rfl, trivial⟩⟩
      · refine ⟨⟨rfl, trivial⟩, fun (r : Bool) => ?_⟩
        cases r <;> exact ⟨rfl, trivial⟩
      · exact ⟨rfl, trivial⟩

theorem triggerRestart_sat (k : ℕ) : (triggerRestartWhenNeeded d).attempt.Sat (svProto (ι := ι) podName d (.iteration k))
    (fun _ ph => ph = .loop .leaving) (fun _ _ => False) (.loop (.onSelect d .tick)) := by
  unfold triggerRestartWhenNeeded LoopPh.onSelect
  rcases d.autoRestart with _ | _
  · rfl
  refine ⟨⟨rfl, trivial⟩, fun (notStopped : Bool) => ?_⟩
  rcases notStopped with _ | _
  · rfl
  refine ⟨⟨rfl, trivial⟩, fun (neverStarted : Bool) => ?_⟩
  cases neverStarted with
  | true => rfl
  | false =>
    refine ⟨⟨rfl, trivial⟩, fun (running : Bool) => ?_⟩
    cases running with
    | true => rfl
    | false =>
      refine ⟨⟨rfl, trivial⟩, fun (recently : Bool) => ?_⟩
      cases recently with
      | true => rfl
      | false =>
        refine ⟨⟨rfl, trivial⟩, fun _ => ⟨⟨rfl, trivial⟩, fun (r : Bool) => ?_⟩⟩
        cases r with
        | true => rfl
        | false => exact ⟨⟨rfl, trivial⟩, fun _ => rfl⟩

theorem startIteration_sat (k : ℕ) : Follows podName d (SvThread.iteration (ι := ι) k) (startIteration d) (.loop .selecting) := by
  refine ⟨⟨rfl, trivial⟩, fun (case : SelectCase) => ?_⟩
  cases case with
  | done => exact ⟨rfl, trivial⟩
  | startRequest => exact ⟨⟨rfl, trivial⟩, fun _ => ⟨⟨rfl, trivial⟩, fun _ => ⟨rfl, trivial⟩⟩⟩
  | tick =>
    refine Prog.sat_bind (Prog.sat_mono (triggerRestart_sat k) (fun _ _ h => h) (fun _ _ h => h.elim)) ?_
    rintro r ph rfl
    exact ⟨⟨rfl, trivial⟩, fun _ => ⟨rfl, trivial⟩⟩

theorem runProcess_sat (n : ℕ) : Follows podName d (SvThread.process (ι := ι) n) runProcess (.process .spawned) := by
  refine ⟨⟨rfl, trivial⟩, fun (launched : Bool) => ?_⟩
  cases launched with
  | true => exact ⟨⟨rfl, trivial⟩, fun _ => ⟨⟨rfl, trivial⟩, fun _ => ⟨rfl, trivial⟩⟩⟩
  | false => exact ⟨⟨rfl, trivial⟩, fun _ => ⟨rfl, trivial⟩⟩

/-- Where the goroutines begin. -/
def svPh₀ : SvThread ι → SvPh
  | .reconcile _ => .reconcile .begun
  | .iteration _ => .loop .selecting
  | .process _ => .process .spawned
  | .manager => .manager false

/-- A service with its goroutines. -/
abbrev SvSys (ι : Type) := Sys (SvThread ι) SvOp SvOp.Res SvErr (Supervisor ι)

/-- The goroutines are where the phases say. -/
abbrev At (podName : Name) (d : Definition) (s : SvSys ι) (φ : SvThread ι → SvPh) : Prop :=
  Abides (svProto podName d) SvOver SvOver s φ

theorem supervised_at : At podName d (supervised ι podName d) svPh₀ := by
  intro t
  cases t with
  | reconcile i => exact reconcile_sat i
  | iteration k => exact startIteration_sat k
  | process n => exact runProcess_sat n
  | manager => exact ⟨⟨rfl, trivial⟩, fun _ => ⟨rfl, trivial⟩⟩

/-- Where the goroutines begin when the service is called in other ways, too. -/
def calledPh (calls : ι → SvCall) : SvThread ι → SvPh
  | .reconcile i => .reconcile (calls i).begins
  | t => svPh₀ t

theorem called_at (calls : ι → SvCall) : At podName d (calledService podName d calls) (calledPh calls) := by
  intro t
  cases t with
  | reconcile i =>
    show Follows podName d (.reconcile i) ((calls i).prog podName) (.reconcile (calls i).begins)
    cases calls i with
    | reconcile => exact reconcile_sat i
    | startProcess => exact startProcess_sat i
    | stopProcess => exact stopProcess_sat i
  | iteration | process | manager => exact supervised_at _

variable {s : SvSys ι} {φ : SvThread ι → SvPh}

/-- **The phases say what comes next.** -/
theorem At.nextOp (h : At podName d s φ) (t : SvThread ι) : (s.procs t).nextOp = (φ t).op ∧ (φ t).Of t := by
  have ht := h t
  cases hp : s.procs t with
  | ret a => rw [hp] at ht; exact ⟨ht.1.symm, ht.2⟩
  | err e => rw [hp] at ht; exact ⟨ht.1.symm, ht.2⟩
  | call o k => rw [hp] at ht; exact ⟨ht.1.1.symm, ht.1.2⟩

theorem At.iteration_phase (h : At podName d s φ) (k : ℕ) : ∃ ph, φ (.iteration k) = .loop ph := by
  have hof := (h.nextOp (.iteration k)).2
  cases hφ : φ (.iteration k) with
  | loop ph => exact ⟨ph, rfl⟩
  | reconcile | process | manager => rw [hφ] at hof; exact hof.elim

theorem At.process_phase (h : At podName d s φ) (n : ℕ) : ∃ ph, φ (.process n) = .process ph := by
  have hof := (h.nextOp (.process n)).2
  cases hφ : φ (.process n) with
  | process ph => exact ⟨ph, rfl⟩
  | reconcile | loop | manager => rw [hφ] at hof; exact hof.elim

/-! ## Staying quiet -/

/-- A `Reconcile` sees the pod as the primary. -/
def SvNote.Primary (podName : Name) : SvNote ι → Prop
  | .observed _ (.cluster currentPrimary targetPrimary) => currentPrimary = targetPrimary ∧ currentPrimary = podName
  | _ => False

/-- This call of `Reconcile` has seen another instance as the primary, and has returned. -/
def Demoted (podName : Name) (s : SvSys ι) (i : ι) : Prop :=
  (s.procs (.reconcile i)).Finished ∧ ∃ primary, primary ≠ podName ∧ .observed (.reconcile i) (.cluster primary primary) ∈ s.st.log

/-- **No subprocess is launched** from here on before a `Reconcile` sees the pod as the primary. -/
def StaysQuiet [DecidableEq ι] (podName : Name) (d : Definition) (s : SvSys ι) : Prop :=
  ∀ es new, (s.schedule (svSem ι d) es).st.log = s.st.log ++ new → (∀ x ∈ new, ¬ x.Primary podName) → ∀ n, .launched n ∉ new

/-- The operation is on the way to a start. -/
def SvOp.starts : SvOp → Bool
  | .alreadyStarted | .enqueueStart | .newProcess | .stopTimeIsZero | .restartedRecently | .setLastAutomaticRestart => true
  | _ => false

/-- **Nothing is left that leads to a launch**, by what the goroutines do next: no request is queued, no
goroutine is on the way to a start, a process that is yet to be launched was cancelled, and there will
be no automatic restart. -/
structure Rested (st : Supervisor ι) (next : SvThread ι → Option SvOp) : Prop where
  noRequest : st.startRequests = false
  noneStarts : ∀ t o, next t = some o → o.starts = false
  noneLaunches : ∀ n, n < st.processes → next (.process n) = some .cmdStart → st.cancelled n = true
  noRestart : st.startTime ≠ none → st.stopRequestTime ≠ none ∧ ∀ t, next t ≠ some .startTimeIsZero

/-- The supervisor is shut down, or nothing is left that leads to a launch. -/
def Quiescent (s : SvSys ι) : Prop := s.st.done = true ∨ Rested s.st fun t => (s.procs t).nextOp

theorem At.settled_iff (h : At podName d s φ) : Quiescent s ↔ s.st.done = true ∨ Rested s.st fun t => (φ t).op := by
  have hnext : (fun t => (s.procs t).nextOp) = fun t => (φ t).op := funext fun t => (h.nextOp t).1
  unfold Quiescent
  rw [hnext]

variable {st st' : Supervisor ι} {next : SvThread ι → Option SvOp} {t : SvThread ι} {c : SvChoice}

theorem Supervisor.exec_select {r : SelectCase} (h : st.exec d t .select c = some (r, st')) : t = .iteration st.iterations ∧
    ((r = .done ∧ st' = st ∧ st.done = true) ∨ (r = .tick ∧ st' = st) ∨
      (r = .startRequest ∧ st' = { st with startRequests := false } ∧ st.startRequests = true)) := by
  cases t with
  | iteration k =>
    by_cases hk : k = st.iterations
    · subst hk
      have hsel : st.selects c.case = some (r, st') := (if_pos rfl).symm.trans h
      refine ⟨rfl, ?_⟩
      unfold selects at hsel
      split at hsel
      · split at hsel <;> cases hsel
        exact .inl ⟨rfl, rfl, by assumption⟩
      · split at hsel <;> cases hsel
        exact .inr (.inr ⟨rfl, rfl, by assumption⟩)
      · cases hsel
        exact .inr (.inl ⟨rfl, rfl⟩)
    · have hwait : (none : Option (SelectCase × Supervisor ι)) = some (r, st') := (if_neg hk).symm.trans h
      cases hwait
  | reconcile | process | manager => cases h

theorem Supervisor.exec_cmdStart {r : Bool} (h : st.exec d t .cmdStart c = some (r, st')) : ∃ n, t = .process n ∧ n < st.processes ∧
    ((r = true ∧ st' = { st with log := st.log ++ [.launched n] } ∧ st.cancelled n = false ∧ st.done = false) ∨
      (r = false ∧ st' = st)) := by
  cases t with
  | process n =>
    simp only [exec, launch] at h
    split at h
    · rename_i hn
      refine ⟨n, rfl, hn, ?_⟩
      split at h
      · rename_i hl
        cases h
        exact .inl ⟨rfl, rfl, hl.2.1, hl.2.2⟩
      · cases h
        exact .inr ⟨rfl, rfl⟩
    · cases h
  | reconcile | iteration | manager => cases h

theorem Supervisor.exec_cancelProcess {r : Bool} (h : st.exec d t .cancelProcess c = some (r, st')) :
    st' = st ∨ ∃ n, st' = { st with stopRequestTime := some st.now, cancelled := update st.cancelled n true } := by
  simp only [exec] at h
  split at h
  · cases h
    exact .inr ⟨_, rfl⟩
  · cases h
    exact .inl rfl

variable {o : SvOp} {r : o.Res}

/-- **What an operation does**: only two of them change which process can be cancelled, a shutdown is final, and what is
noted is what was read of the cluster, or a launch, of a process whose context is not done. -/
structure Supervisor.Effect (t : SvThread ι) (o : SvOp) (c : SvChoice) (st st' : Supervisor ι) : Prop where
  done : st.done = true → st'.done = true
  process : o ≠ .newProcess → o ≠ .processFinished → st'.processCancelFunc = st.processCancelFunc ∧ st'.processes = st.processes
  log : (o ≠ .get ∧ st'.log = st.log) ∨ (o = .get ∧ st'.log = st.log ++ [.observed t c.answer]) ∨
    ∃ n, t = .process n ∧ o = .cmdStart ∧ st.cancelled n = false ∧ st.done = false ∧ st'.log = st.log ++ [.launched n]

theorem Supervisor.exec_effect (h : st.exec d t o c = some (r, st')) : Effect t o c st st' := by
  cases o with
  | get => cases h; exact ⟨id, fun _ _ => ⟨rfl, rfl⟩, .inr (.inl ⟨rfl, rfl⟩)⟩
  | cmdStart =>
    obtain ⟨n, rfl, -, ⟨-, rfl, hcanc, hdone⟩ | ⟨-, rfl⟩⟩ := exec_cmdStart h
    · exact ⟨id, fun _ _ => ⟨rfl, rfl⟩, .inr (.inr ⟨n, rfl, rfl, hcanc, hdone, rfl⟩)⟩
    · exact ⟨id, fun _ _ => ⟨rfl, rfl⟩, .inl ⟨by simp, rfl⟩⟩
  | cancelProcess =>
    obtain rfl | ⟨n, rfl⟩ := exec_cancelProcess h <;> exact ⟨id, fun _ _ => ⟨rfl, rfl⟩, .inl ⟨by simp, rfl⟩⟩
  | select =>
    obtain ⟨-, ⟨-, rfl, -⟩ | ⟨-, rfl⟩ | ⟨-, rfl, -⟩⟩ := exec_select h <;> exact ⟨id, fun _ _ => ⟨rfl, rfl⟩, .inl ⟨by simp, rfl⟩⟩
  | shutdown => cases h; exact ⟨fun _ => rfl, fun _ _ => ⟨rfl, rfl⟩, .inl ⟨by simp, rfl⟩⟩
  | newProcess => cases h; exact ⟨id, fun hn => absurd rfl hn, .inl ⟨by simp, rfl⟩⟩
  | processFinished => cases h; exact ⟨id, fun _ hf => absurd rfl hf, .inl ⟨by simp, rfl⟩⟩
  | isProcessRunning | ctxErr | alreadyStarted | enqueueStart | stopRequestTimeIsZero | startTimeIsZero | stopTimeIsZero
  | restartedRecently | setLastAutomaticRestart | again | cmdWait =>
    cases h
    exact ⟨id, fun _ _ => ⟨rfl, rfl⟩, .inl ⟨by simp, rfl⟩⟩

theorem update_cases [DecidableEq ι] {α : Type} (f : SvThread ι → α) (t : SvThread ι) (x : α) (t' : SvThread ι) :
    update f t x t' = f t' ∨ (t = t' ∧ update f t x t' = x) := by
  by_cases ht : t = t'
  · exact .inr ⟨ht, by rw [ht, update_self]⟩
  · exact .inl (update_of_ne (Ne.symm ht) _ _)

theorem Rested.later (h : Rested st next) (elapsed : ℕ) : Rested (st.later elapsed) next :=
  ⟨h.noRequest, h.noneStarts, h.noneLaunches, h.noRestart⟩

variable [DecidableEq ι]

/-- Nothing was started, and no stop request was taken back. -/
structure Calm (st st' : Supervisor ι) : Prop where
  request : st'.startRequests = st.startRequests
  process : st'.processes = st.processes
  cancel : ∀ n, st.cancelled n = true → st'.cancelled n = true
  start : st'.startTime = st.startTime
  stop : st.stopRequestTime ≠ none → st'.stopRequestTime ≠ none

theorem Rested.after (h : Rested st next) (hcalm : Calm st st') {x : Option SvOp}
    (hx : ∀ o, x = some o → o.starts = false ∧ o ≠ .cmdStart ∧ (o = .startTimeIsZero → st.startTime = none)) :
    Rested st' (update next t x) := by
  have hnext : ∀ t' o, update next t x t' = some o → next t' = some o ∨ x = some o := fun t' o ho =>
    (update_cases next t x t').imp (fun hold => hold.symm.trans ho) fun hnew => hnew.2.symm.trans ho
  refine ⟨by rw [hcalm.request, h.noRequest], ?_, ?_, ?_⟩
  · intro t' o ho
    rcases hnext t' o ho with hold | hnew
    · exact h.noneStarts t' o hold
    · exact (hx o hnew).1
  · intro n hn ho
    rw [hcalm.process] at hn
    rcases hnext _ _ ho with hold | hnew
    · exact hcalm.cancel n (h.noneLaunches n hn hold)
    · exact absurd rfl (hx _ hnew).2.1
  · intro hst
    rw [hcalm.start] at hst
    obtain ⟨hreqTime, hchecks⟩ := h.noRestart hst
    refine ⟨hcalm.stop hreqTime, ?_⟩
    intro t' ho
    rcases hnext t' _ ho with hold | hnew
    · exact hchecks t' hold
    · exact hst ((hx _ hnew).2.2 rfl)

/-- **One step of a settled supervisor** launches nothing, and leaves it settled unless a `Reconcile` sees
the pod as the primary. -/
theorem rested_step (hop : (φ t).op = some o) (hrest : Rested st fun t => (φ t).op)
    (he : st.exec d t o c = some (r, st')) (hprim : o = .get → ¬ (SvNote.observed t c.answer).Primary podName) :
    st'.done = true ∨ Rested st' fun t' => (update φ t (svNext podName d (φ t) o r) t').op := by
  have hcomp : (fun t' => (update φ t (svNext podName d (φ t) o r) t').op) =
      update (fun t => (φ t).op) t (svNext podName d (φ t) o r).op := comp_update SvPh.op ..
  rw [hcomp]
  have hidle := hrest.noneStarts t o hop
  -- an operation that leads to `x` and changes nothing that matters here
  have same : ∀ {x : Option SvOp}, (∀ o, x = some o → o.starts = false ∧ o ≠ .cmdStart ∧ o ≠ .startTimeIsZero) →
      Rested st (update (fun t => (φ t).op) t x) := fun hx =>
    hrest.after ⟨rfl, rfl, fun _ h => h, rfl, id⟩ fun o ho => ⟨(hx o ho).1, (hx o ho).2.1, fun h => absurd h (hx o ho).2.2⟩
  cases hφ : φ t with
  | manager ended =>
    rw [hφ] at hop
    cases ended <;> cases hop
    cases he
    exact .inl rfl
  | reconcile ph =>
    rw [hφ] at hop
    refine .inr ?_
    cases ph with
    | checking | queueing => cases hop; cases hidle
    | ended => cases hop
    | begun =>
      cases hop; cases he
      exact same fun o ho => by cases ho; simp [SvOp.starts]
    | ctx running =>
      cases hop; cases he
      refine same fun o ho => ?_
      cases hc : c.ctxErr <;> rw [hc] at ho <;> cases ho
      simp [SvOp.starts]
    | stopping =>
      cases hop
      have hx : ∀ o, (svNext podName d (.reconcile .stopping) .cancelProcess r).op = some o →
          o.starts = false ∧ o ≠ .cmdStart ∧ o ≠ .startTimeIsZero := nofun
      obtain rfl | ⟨n, rfl⟩ := Supervisor.exec_cancelProcess he
      · exact same hx
      apply hrest.after
      · refine ⟨rfl, rfl, fun m hm => ?_, rfl, fun _ => some_ne_none _⟩
        by_cases hmn : m = n
        · subst hmn
          exact update_self _ _ _
        · exact (update_of_ne hmn _ _).trans hm
      · exact nofun
    | getting running =>
      cases hop; cases he
      apply hrest.after
      · exact ⟨rfl, rfl, fun _ h => h, rfl, id⟩
      intro o ho
      -- only a `Reconcile` that sees the pod as the primary goes on to a start
      have hdec : o = .cancelProcess := by
        have hprim := hprim rfl
        cases hans : c.answer with
        | notFound => rw [hans] at ho; cases running <;> cases ho; rfl
        | failed => rw [hans] at ho; cases ho
        | cluster cur tgt =>
          rw [hans] at ho hprim
          change (SvPh.reconcile (RecPh.decide podName running (.cluster cur tgt))).op = some o at ho
          simp only [RecPh.decide] at ho
          split_ifs at ho with hmoving hstart hstop
          · cases ho
          · exact absurd ⟨not_not.1 hmoving, hstart.1.symm⟩ hprim
          · cases ho; rfl
          · cases ho
      subst hdec
      simp [SvOp.starts]
  | loop ph =>
    rw [hφ] at hop
    refine .inr ?_
    cases ph with
    | launching | started | exited | due | checking | queueing => cases hop; cases hidle
    | ended => cases hop
    | selecting =>
      cases hop
      obtain ⟨-, ⟨rfl, rfl, -⟩ | ⟨rfl, rfl⟩ | ⟨-, -, hreq⟩⟩ := Supervisor.exec_select he
      · exact same nofun
      · refine same fun o ho => ?_
        change (SvPh.loop (if d.autoRestart then .ticked else .leaving)).op = some o at ho
        split at ho <;> cases ho <;> simp [SvOp.starts]
      · rw [hrest.noRequest] at hreq
        cases hreq
    | ticked =>
      cases hop; cases he
      refine hrest.after ⟨rfl, rfl, fun _ h => h, rfl, id⟩ ?_
      intro o ho
      change (SvPh.loop (if st.stopRequestTime.isNone then .notStopped else .leaving)).op = some o at ho
      split at ho <;> cases ho
      · rename_i hnone
        refine ⟨rfl, by simp, fun _ => ?_⟩
        by_contra hst
        exact (hrest.noRestart hst).1 (isNone_iff_eq_none.1 hnone)
      · simp [SvOp.starts]
    | notStopped =>
      have hnever : st.startTime = none := by
        by_contra hst
        exact (hrest.noRestart hst).2 t (by rw [hφ]; rfl)
      cases hop; cases he
      refine same fun o ho => ?_
      rw [hnever] at ho
      cases ho
      simp [SvOp.starts]
    | leaving =>
      cases hop; cases he
      apply hrest.after
      · exact ⟨rfl, rfl, fun _ h => h, rfl, id⟩
      · exact nofun
  | process ph =>
    rw [hφ] at hop
    refine .inr ?_
    cases ph with
    | ended => cases hop
    | spawned =>
      cases hop
      obtain ⟨n, rfl, hn, ⟨-, -, hcanc, -⟩ | ⟨rfl, rfl⟩⟩ := Supervisor.exec_cmdStart he
      · rw [hrest.noneLaunches n hn (by rw [hφ]; rfl)] at hcanc
        cases hcanc
      · exact same fun o ho => by cases ho; simp [SvOp.starts]
    | running =>
      cases hop; cases he
      exact same fun o ho => by cases ho; simp [SvOp.starts]
    | finishing =>
      cases hop; cases he
      apply hrest.after
      · exact ⟨rfl, rfl, fun _ h => h, rfl, id⟩
      · exact nofun

/-- **What a step notes** of a supervisor that is shut down or settled: no launch. It stays so, unless a
`Reconcile` sees the pod as the primary. -/
theorem settled_step (hat : At podName d s φ) (hset : s.st.done = true ∨ Rested s.st fun t => (φ t).op) (t : SvThread ι)
    (c : SvChoice) : ∃ new, (s.advance (svSem ι d) t c).st.log = s.st.log ++ new ∧ (∀ n, .launched n ∉ new) ∧
      ((∀ x ∈ new, ¬ x.Primary podName) → ∃ φ', At podName d (s.advance (svSem ι d) t c) φ' ∧
        ((s.advance (svSem ι d) t c).st.done = true ∨ Rested (s.advance (svSem ι d) t c).st fun t => (φ' t).op)) := by
  rcases Sys.advance_cases (svSem ι d) s t c with hsame | ⟨o, k, r, st, hp, he, hnext⟩
  · rw [hsame]
    exact ⟨[], (append_nil _).symm, fun n => not_mem_nil, fun _ => ⟨φ, hat, hset⟩⟩
  have hal := hat.allowed hp
  have hat' := hat.next hp r st
  rw [← hnext] at hat'
  have hst : (s.advance (svSem ι d) t c).st = st := by rw [hnext]
  rw [hst]
  have hexec : (s.st.later c.elapsed).exec d t o c = some (r, st) := he
  have hstep : (o = .get → ¬ (SvNote.observed t c.answer).Primary podName) → ∃ φ', At podName d (s.advance (svSem ι d) t c) φ' ∧
      (st.done = true ∨ Rested st fun t => (φ' t).op) := by
    intro hprim
    refine ⟨_, hat', ?_⟩
    rcases hset with hdone | hrest
    · exact .inl ((Supervisor.exec_effect hexec).done hdone)
    · exact rested_step hal.1 (hrest.later c.elapsed) hexec hprim
  rcases (Supervisor.exec_effect hexec).log with ⟨hget, hlog⟩ | ⟨hget, hlog⟩ | ⟨n, rfl, rfl, hcanc, hdone, hlog⟩
  · exact ⟨[], hlog.trans (append_nil _).symm, fun n => not_mem_nil, fun _ => hstep fun h => absurd h hget⟩
  · exact ⟨_, hlog, fun n hn => by simp at hn, fun hprim => hstep fun _ => hprim _ mem_cons_self⟩
  · -- a launch needs a context that is not done
    exfalso
    rcases hset with hdone' | hrest
    · rw [show (s.st.later c.elapsed).done = s.st.done from rfl, hdone'] at hdone
      cases hdone
    have hn : n < s.st.processes := by
      obtain ⟨m, hm, hlt, -⟩ := Supervisor.exec_cmdStart hexec
      cases hm
      exact hlt
    have hcanc' := hrest.noneLaunches n hn hal.1
    rw [show (s.st.later c.elapsed).cancelled = s.st.cancelled from rfl, hcanc'] at hcanc
    cases hcanc

theorem log_grows (es : List (SvThread ι × SvChoice)) : ∀ s : SvSys ι, s.st.log <+: (s.schedule (svSem ι d) es).st.log := by
  induction es with
  | nil => exact fun s => prefix_rfl
  | cons e es ih =>
    intro s
    refine List.IsPrefix.trans ?_ (ih (s.advance (svSem ι d) e.1 e.2))
    rcases Sys.advance_cases (svSem ι d) s e.1 e.2 with hsame | ⟨o, k, r, st, -, he, hnext⟩
    · exact (congrArg (fun x : SvSys ι => s.st.log <+: x.st.log) hsame).mpr prefix_rfl
    rw [hnext]
    rcases (Supervisor.exec_effect (show (s.st.later e.2.elapsed).exec d e.1 o e.2 = some (r, st) from he)).log with
      ⟨-, hlog⟩ | ⟨-, hlog⟩ | ⟨n, -, -, -, -, hlog⟩
    · exact hlog ▸ prefix_rfl
    · exact ⟨_, hlog.symm⟩
    · exact ⟨_, hlog.symm⟩

/-- **A settled supervisor stays quiet.** -/
theorem settled_quiet (hat : At podName d s φ) (hset : s.st.done = true ∨ Rested s.st fun t => (φ t).op) : StaysQuiet podName d s := by
  intro es
  induction es generalizing s φ with
  | nil =>
    intro new hnew _ n
    have hnil : new = [] := append_cancel_left (hnew.symm.trans (append_nil _).symm)
    rw [hnil]
    exact not_mem_nil
  | cons e es ih =>
    intro new hnew hprim n hn
    obtain ⟨new₁, hlog₁, hquiet, hstep⟩ := settled_step hat hset e.1 e.2
    obtain ⟨new₂, hlog₂⟩ := log_grows (d := d) es (s.advance (svSem ι d) e.1 e.2)
    have hsplit : new = new₁ ++ new₂ := by
      rw [Sys.schedule_cons, ← hlog₂, hlog₁, append_assoc] at hnew
      exact (append_cancel_left hnew).symm
    rw [hsplit] at hprim hn
    rcases mem_append.1 hn with hn | hn
    · exact hquiet n hn
    · obtain ⟨φ', hat', hset'⟩ := hstep fun x hx => hprim x (mem_append_left _ hx)
      exact ih hat' hset' new₂ hlog₂.symm (fun x hx => hprim x (mem_append_right _ hx)) n hn

/-! ## Finding a launch -/

/-- **What holds in every run** of the loop and of the processes. -/
structure SvInv (st : Supervisor ι) (φ : SvThread ι → SvPh) : Prop where
  current : ∀ n, st.processCancelFunc = some n → n < st.processes ∧ φ (.process n) ≠ .process .ended
  runs : st.startTime ≠ none → st.stopTime = none → st.processCancelFunc ≠ none
  fresh : ∀ n, st.processes ≤ n → φ (.process n) = .process .spawned
  behind : ∀ k, k < st.iterations → φ (.iteration k) = .loop .ended
  ahead : ∀ k, st.iterations < k → φ (.iteration k) = .loop .selecting
  goesOn : st.done = false → φ (.iteration st.iterations) ≠ .loop .ended
  started : ∀ k, φ (.iteration k) = .loop .started → st.startTime ≠ none

omit [DecidableEq ι] in
/-- An iteration that is between its `select` and its end is the one the loop is in. -/
theorem SvInv.current_iteration (h : SvInv st φ) {k : ℕ} {ph : LoopPh} (hφ : φ (.iteration k) = .loop ph) (hsel : ph ≠ .selecting)
    (hover : ph ≠ .ended) : k = st.iterations := by
  rcases Nat.lt_trichotomy k st.iterations with hlt | heq | hgt
  · have hb := h.behind k hlt
    rw [hφ] at hb
    cases hb
    exact absurd rfl hover
  · exact heq
  · have ha := h.ahead k hgt
    rw [hφ] at ha
    cases ha
    exact absurd rfl hsel

/-- The fields of the invariant are the same, apart from a shutdown. -/
structure SvSame (st st' : Supervisor ι) : Prop where
  cancel : st'.processCancelFunc = st.processCancelFunc
  process : st'.processes = st.processes
  start : st'.startTime = st.startTime
  stop : st'.stopTime = st.stopTime
  iteration : st'.iterations = st.iterations
  done : st'.done = false → st.done = false

omit [DecidableEq ι] in
theorem SvInv.same (h : SvInv st φ) (hs : SvSame st st') : SvInv st' φ := by
  obtain ⟨hc, hp, hstart, hstop, hk, hd⟩ := hs
  refine ⟨?_, ?_, ?_, ?_, ?_, fun hdone => ?_, ?_⟩
  · rw [hc, hp]; exact h.current
  · rw [hc, hstart, hstop]; exact h.runs
  · rw [hp]; exact h.fresh
  · rw [hk]; exact h.behind
  · rw [hk]; exact h.ahead
  · rw [hk]; exact h.goesOn (hd hdone)
  · rw [hstart]; exact h.started

/-- **A goroutine moves on**: an iteration that ends before the loop does is one after a shutdown, and a
process that has finished cannot be cancelled. -/
theorem SvInv.move (h : SvInv st φ) {ph : SvPh}
    (hloop : ∀ k, t = .iteration k → k = st.iterations ∧ (ph = .loop .ended → st.done = true) ∧
      (ph = .loop .started → st.startTime ≠ none))
    (hproc : ∀ n, t = .process n → n < st.processes ∧ (ph = .process .ended → st.processCancelFunc = none)) :
    SvInv st (update φ t ph) := by
  have hφ := update_cases φ t ph
  constructor
  · intro n hn
    obtain ⟨hlt, hover⟩ := h.current n hn
    refine ⟨hlt, fun hend => ?_⟩
    rcases hφ (.process n) with hold | ⟨ht, hnew⟩
    · exact hover (hold.symm.trans hend)
    · rw [(hproc n ht).2 (hnew.symm.trans hend)] at hn
      cases hn
  · exact h.runs
  · intro n hn
    rcases hφ (.process n) with hold | ⟨ht, -⟩
    · exact hold.trans (h.fresh n hn)
    · exact absurd (hproc n ht).1 (by omega)
  · intro k hlt
    rcases hφ (.iteration k) with hold | ⟨ht, -⟩
    · exact hold.trans (h.behind k hlt)
    · exact absurd (hloop k ht).1 (by omega)
  · intro k hgt
    rcases hφ (.iteration k) with hold | ⟨ht, -⟩
    · exact hold.trans (h.ahead k hgt)
    · exact absurd (hloop k ht).1 (by omega)
  · intro hdone hend
    rcases hφ (.iteration st.iterations) with hold | ⟨ht, hnew⟩
    · exact h.goesOn hdone (hold.symm.trans hend)
    · rw [(hloop _ ht).2.1 (hnew.symm.trans hend)] at hdone
      cases hdone
  · intro k hst
    rcases hφ (.iteration k) with hold | ⟨ht, hnew⟩
    · exact h.started k (hold.symm.trans hst)
    · exact (hloop k ht).2.2 (hnew.symm.trans hst)

theorem SvInv.inLoop (h : SvInv st φ) {ph : LoopPh} (hover : ph = .ended → st.done = true)
    (hstarted : ph = .started → st.startTime ≠ none) : SvInv st (update φ (.iteration st.iterations) (.loop ph)) := by
  refine h.move ?_ nofun
  rintro k ⟨⟩
  exact ⟨rfl, fun hend => hover (by cases hend; rfl), fun hst => hstarted (by cases hst; rfl)⟩

theorem SvInv.inProcess (h : SvInv st φ) {n : ℕ} {ph : ProcPh} (hn : n < st.processes)
    (hend : ph = .ended → st.processCancelFunc = none) : SvInv st (update φ (.process n) (.process ph)) := by
  refine h.move nofun ?_
  rintro m ⟨⟩
  exact ⟨hn, fun hover => hend (by cases hover; rfl)⟩

omit [DecidableEq ι] in
/-- The loop starts a process. -/
theorem SvInv.begins (h : SvInv st φ) : SvInv st.begin φ := by
  refine ⟨?_, fun _ _ => some_ne_none _, fun n hn => h.fresh n (Nat.le_of_succ_le hn), h.behind, h.ahead, h.goesOn,
    fun _ _ => some_ne_none _⟩
  rintro n ⟨⟩
  rw [h.fresh _ le_rfl]
  exact ⟨Nat.lt_succ_self _, by simp⟩

omit [DecidableEq ι] in
/-- A process takes its cancel function away at the end. -/
theorem SvInv.finished (h : SvInv st φ) : SvInv { st with stopTime := some st.now, processCancelFunc := none } φ :=
  ⟨nofun, nofun, h.fresh, h.behind, h.ahead, h.goesOn, h.started⟩

theorem SvInv.leaves (h : SvInv st φ) : SvInv { st with iterations := st.iterations + 1 }
    (update φ (.iteration st.iterations) (.loop .ended)) := by
  have hφi : ∀ k, k ≠ st.iterations →
      update φ (.iteration st.iterations) (.loop .ended) (.iteration k) = φ (.iteration k) :=
    fun k hne => update_of_ne (by simpa using hne) _ _
  refine ⟨h.current, h.runs, h.fresh, ?_, ?_, ?_, ?_⟩
  · intro k hlt
    change k < st.iterations + 1 at hlt
    by_cases hki : k = st.iterations
    · subst hki
      exact update_self _ _ _
    · rw [hφi k hki]
      exact h.behind k (by omega)
  · intro k hgt
    change st.iterations + 1 < k at hgt
    rw [hφi k (by omega)]
    exact h.ahead k (by omega)
  · intro _ hφ
    change update φ (.iteration st.iterations) (.loop .ended) (.iteration (st.iterations + 1)) = .loop .ended at hφ
    rw [hφi _ (by omega), h.ahead _ (by omega)] at hφ
    cases hφ
  · intro k hφ
    by_cases hki : k = st.iterations
    · subst hki
      rw [update_self] at hφ
      cases hφ
    · rw [hφi k hki] at hφ
      exact h.started k hφ

/-- **Every step keeps the invariant.** -/
theorem SvInv.step (h : SvInv st φ) (hop : (φ t).op = some o) (hof : (φ t).Of t)
    (he : st.exec d t o c = some (r, st')) : SvInv st' (update φ t (svNext podName d (φ t) o r)) := by
  cases hφ : φ t with
  | manager ended =>
    rw [hφ] at hop hof
    cases t <;> try exact hof.elim
    cases ended <;> cases hop
    cases he
    exact SvInv.same (h.move nofun nofun) ⟨rfl, rfl, rfl, rfl, rfl, nofun⟩
  | reconcile ph =>
    rw [hφ] at hop hof
    cases t <;> try exact hof.elim
    refine SvInv.same (h.move nofun nofun) ?_
    cases ph with
    | stopping =>
      cases hop
      obtain rfl | ⟨n, rfl⟩ := Supervisor.exec_cancelProcess he <;> exact ⟨rfl, rfl, rfl, rfl, rfl, id⟩
    | ended => cases hop
    | begun | ctx | getting | checking | queueing => cases hop; cases he; exact ⟨rfl, rfl, rfl, rfl, rfl, id⟩
  | process ph =>
    rw [hφ] at hop hof
    cases t with
    | process n =>
      have hn : ph ≠ .spawned → n < st.processes := by
        intro hne
        by_contra hge
        rw [h.fresh n (Nat.le_of_not_lt hge)] at hφ
        cases hφ
        exact hne rfl
      cases ph with
      | ended => cases hop
      | spawned =>
        cases hop
        obtain ⟨m, hm, hn, ⟨rfl, rfl, -, -⟩ | ⟨rfl, rfl⟩⟩ := Supervisor.exec_cmdStart he <;> cases hm
        · exact SvInv.same (h.inProcess hn nofun) ⟨rfl, rfl, rfl, rfl, rfl, id⟩
        · exact h.inProcess hn nofun
      | running =>
        cases hop; cases he
        exact h.inProcess (hn nofun) nofun
      | finishing =>
        cases hop; cases he
        exact h.finished.inProcess (hn nofun) fun _ => rfl
    | reconcile | iteration | manager => exact hof.elim
  | loop ph =>
    rw [hφ] at hop hof
    cases t with
    | iteration k =>
      have hk : ph ≠ .selecting → ph ≠ .ended → k = st.iterations := h.current_iteration hφ
      cases ph with
      | ended => cases hop
      | selecting =>
        cases hop
        obtain ⟨hk, hcase⟩ := Supervisor.exec_select he
        cases hk
        obtain ⟨rfl, rfl, hd⟩ | ⟨rfl, rfl⟩ | ⟨rfl, rfl, -⟩ := hcase
        · exact h.inLoop (fun _ => hd) nofun
        · change SvInv _ (update φ _ (.loop (if d.autoRestart then .ticked else .leaving)))
          split <;> exact h.inLoop nofun nofun
        · exact SvInv.same (h.inLoop nofun nofun) ⟨rfl, rfl, rfl, rfl, rfl, id⟩
      | launching =>
        obtain rfl := hk nofun nofun
        cases hop; cases he
        exact SvInv.begins (h.inLoop nofun nofun)
      | leaving =>
        obtain rfl := hk nofun nofun
        cases hop; cases he
        exact h.leaves
      | notStopped =>
        obtain rfl := hk nofun nofun
        cases hop; cases he
        change SvInv _ (update φ _ (.loop (if st.startTime.isNone then .leaving else .started)))
        split
        · exact h.inLoop nofun nofun
        · rename_i hsome
          refine h.inLoop nofun fun _ hnone => hsome ?_
          rw [hnone]
          rfl
      | due | queueing =>
        obtain rfl := hk nofun nofun
        cases hop; cases he
        exact SvInv.same (h.inLoop nofun nofun) ⟨rfl, rfl, rfl, rfl, rfl, id⟩
      | ticked | started | exited | checking =>
        obtain rfl := hk nofun nofun
        cases hop; cases he
        simp only [svNext]
        split <;> exact h.inLoop nofun nofun
    | reconcile | process | manager => exact hof.elim

omit [DecidableEq ι] in
theorem supervised_inv (hproc : ∀ n, φ (.process n) = .process .spawned) (hloop : ∀ k, φ (.iteration k) = .loop .selecting) :
    SvInv ({} : Supervisor ι) φ := by
  refine ⟨nofun, fun h => absurd rfl h, fun n _ => hproc n, nofun, fun k _ => hloop k, fun _ => ?_, fun k => ?_⟩ <;>
    rw [hloop] <;> exact nofun

/-- The supervisor has not been shut down, and is as in every run. -/
structure Live (podName : Name) (d : Definition) (s : SvSys ι) (φ : SvThread ι → SvPh) : Prop where
  at_ : At podName d s φ
  inv : SvInv s.st φ
  up : s.st.done = false

/-- **There is a run to a launch**, in which no `Reconcile` sees the pod as the primary. -/
def CanLaunch (podName : Name) (d : Definition) (s : SvSys ι) : Prop :=
  ∃ es new n, (s.schedule (svSem ι d) es).st.log = s.st.log ++ new ∧ (∀ x ∈ new, ¬ x.Primary podName) ∧ .launched n ∈ new

theorem CanLaunch.not_quiet (h : CanLaunch podName d s) : ¬ StaysQuiet podName d s := by
  obtain ⟨es, new, n, hlog, hprim, hn⟩ := h
  exact fun hq => hq es new hlog hprim n hn

omit [DecidableEq ι] in
/-- The invariant does not read the clock. -/
theorem SvInv.later (h : SvInv st φ) (elapsed : ℕ) : SvInv (st.later elapsed) φ :=
  h.same ⟨rfl, rfl, rfl, rfl, rfl, id⟩

omit [DecidableEq ι] in
/-- A process whose context is not done can be launched. -/
theorem Supervisor.exec_launch {n : ℕ} (c : SvChoice) (hl : c.launches = true) (hn : n < st.processes) (hc : st.cancelled n = false)
    (hd : st.done = false) : st.exec d (.process n) .cmdStart c = some (true, { st with log := st.log ++ [.launched n] }) := by
  simp only [exec, launch]
  rw [if_pos hn, if_pos ⟨hl, hc, hd⟩]
  rfl

omit [DecidableEq ι] in
/-- The launch may fail. -/
theorem Supervisor.exec_noLaunch {n : ℕ} (c : SvChoice) (hl : c.launches = false) (hn : n < st.processes) :
    st.exec d (.process n) .cmdStart c = some (false, st) := by
  simp only [exec, launch]
  rw [if_pos hn, if_neg (by rw [hl]; simp)]
  rfl

omit [DecidableEq ι] in
/-- The loop may take a request that is queued. -/
theorem Supervisor.exec_startRequest (c : SvChoice) (hc : c.case = .startRequest) (hreq : st.startRequests = true) :
    st.exec d (.iteration st.iterations) .select c = some (.startRequest, { st with startRequests := false }) := by
  have hsel : st.selects c.case = some (.startRequest, { st with startRequests := false }) := by
    rw [hc]
    simp only [selects]
    rw [if_pos hreq]
  exact (if_pos rfl).trans hsel

omit [DecidableEq ι] in
/-- A tick may come. -/
theorem Supervisor.exec_tick (c : SvChoice) (hc : c.case = .tick) :
    st.exec d (.iteration st.iterations) .select c = some (.tick, st) := by
  have hsel : st.selects c.case = some (.tick, st) := by
    rw [hc]
    rfl
  exact (if_pos rfl).trans hsel

theorem At.advance (h : At podName d s φ) (hop : (φ t).op = some o)
    (he : (s.st.later c.elapsed).exec d t o c = some (r, st)) : (s.advance (svSem ι d) t c).st = st ∧
      At podName d (s.advance (svSem ι d) t c) (update φ t (svNext podName d (φ t) o r)) := by
  have hsem : (svSem ι d).exec t o c s.st = some (r, st) := he
  have hnext := (h.nextOp t).1
  rw [hop] at hnext
  cases hp : s.procs t with
  | ret a => rw [hp] at hnext; cases hnext
  | err e => rw [hp] at hnext; cases hnext
  | call o' k =>
    rw [hp] at hnext
    cases hnext
    have hadv : s.advance (svSem ι d) t c = ⟨st, update s.procs t (k r), update s.started t true⟩ := by
      unfold Sys.advance
      rw [hp]
      simp only [hsem]
    rw [hadv]
    exact ⟨rfl, h.next hp r st⟩

section

variable (h : Live podName d s φ)
include h

/-- **A step towards a launch.** -/
theorem Live.step (c : SvChoice) (hop : (φ t).op = some o)
    (he : (s.st.later c.elapsed).exec d t o c = some (r, st)) (hup : st.done = false) (hlog : st.log = s.st.log)
    (hgo : ∀ s', s'.st = st → Live podName d s' (update φ t (svNext podName d (φ t) o r)) → CanLaunch podName d s') :
    CanLaunch podName d s := by
  obtain ⟨hst, hat⟩ := h.at_.advance hop he
  have hinv : SvInv st (update φ t (svNext podName d (φ t) o r)) :=
    (h.inv.later c.elapsed).step hop (h.at_.nextOp t).2 he
  rw [← hst] at hinv hup
  obtain ⟨es, new, n, hes, hprim, hn⟩ := hgo _ hst ⟨hat, hinv, hup⟩
  refine ⟨(t, c) :: es, new, n, ?_, hprim, hn⟩
  rw [Sys.schedule_cons, hes, hst, hlog]

theorem Live.loopStep (c : SvChoice) {ph ph' : LoopPh}
    (hφ : φ (.iteration s.st.iterations) = .loop ph) (hop : (SvPh.loop ph).op = some o)
    (he : (s.st.later c.elapsed).exec d (.iteration s.st.iterations) o c = some (r, st))
    (hnext : svNext podName d (.loop ph) o r = .loop ph') (hup : st.done = false) (hlog : st.log = s.st.log)
    (hit : st.iterations = s.st.iterations)
    (hgo : ∀ s' φ', s'.st = st → Live podName d s' φ' → φ' (.iteration s'.st.iterations) = .loop ph' → CanLaunch podName d s') :
    CanLaunch podName d s := by
  refine h.step c (by rw [hφ]; exact hop) he hup hlog fun s' hs' hlive => hgo s' _ hs' hlive ?_
  rw [hs', hit, update_self, hφ, hnext]

theorem Live.launch {n : ℕ} (hn : n < s.st.processes) (hφ : φ (.process n) = .process .spawned)
    (hc : s.st.cancelled n = false) : CanLaunch podName d s := by
  have hst := (h.at_.advance (congrArg SvPh.op hφ) (Supervisor.exec_launch {} rfl hn hc h.up)).1
  refine ⟨[(.process n, {})], [.launched n], n, ?_, ?_, mem_cons_self⟩
  · rw [Sys.schedule_cons, Sys.schedule_nil, hst]
    rfl
  · intro x hx
    rw [mem_singleton.1 hx]
    exact id

theorem Live.launching (hφ : φ (.iteration s.st.iterations) = .loop .launching) :
    CanLaunch podName d s := by
  refine h.step {} (congrArg SvPh.op hφ) rfl h.up rfl ?_
  intro s' hs' hlive
  have hn : s.st.processes < s'.st.processes := by rw [hs']; exact Nat.lt_succ_self _
  refine hlive.launch hn ?_ ?_
  · rw [update_of_ne (by simp)]
    exact h.inv.fresh _ le_rfl
  · rw [hs']
    exact update_self _ _ _

end

/-- How many steps the loop may be away from its `select`. -/
def LoopPh.rank : LoopPh → ℕ
  | .ticked => 8
  | .notStopped => 7
  | .started => 6
  | .exited => 5
  | .due => 4
  | .checking => 3
  | .queueing => 2
  | .leaving => 1
  | .selecting | .launching | .ended => 0

/-- A step that takes no request away and leaves the times that a restart depends on. -/
structure KeepsRequest (st st' : Supervisor ι) : Prop where
  request : st.startRequests = true → st'.startRequests = true
  start : st'.startTime = st.startTime
  stopRequest : st'.stopRequestTime = st.stopRequestTime

omit [DecidableEq ι] in
theorem KeepsRequest.trans {st'' : Supervisor ι} (h : KeepsRequest st st') (h' : KeepsRequest st' st'') : KeepsRequest st st'' :=
  ⟨fun hreq => h'.request (h.request hreq), h'.start.trans h.start, h'.stopRequest.trans h.stopRequest⟩

omit [DecidableEq ι] in
theorem Live.loop (h : Live podName d s φ) : ∃ ph, φ (.iteration s.st.iterations) = .loop ph ∧ ph ≠ .ended := by
  obtain ⟨ph, hφ⟩ := h.at_.iteration_phase s.st.iterations
  have hgo := h.inv.goesOn h.up
  rw [hφ] at hgo
  exact ⟨ph, hφ, fun heq => hgo (by rw [heq])⟩

/-- **The loop comes back to its `select`**, unless it starts a process before. -/
theorem Live.to_select (n : ℕ) : ∀ {s : SvSys ι} {φ : SvThread ι → SvPh} {ph : LoopPh}, Live podName d s φ →
    φ (.iteration s.st.iterations) = .loop ph → ph ≠ .ended → ph.rank ≤ n →
    (∀ s' φ', Live podName d s' φ' → KeepsRequest s.st s'.st → φ' (.iteration s'.st.iterations) = .loop .selecting →
      CanLaunch podName d s') → CanLaunch podName d s := by
  -- on how many steps it may take
  induction n with
  | zero =>
    intro s φ ph h hφ hover hrank hgo
    cases ph with
    | selecting => exact hgo s φ h ⟨id, rfl, rfl⟩ hφ
    | launching => exact h.launching hφ
    | ended => exact absurd rfl hover
    | ticked | notStopped | started | exited | due | checking | queueing | leaving => simp [LoopPh.rank] at hrank
  | succ n ih =>
    intro s φ ph h hφ hover hrank hgo
    have hstay : ∀ {o : SvOp} {r : o.Res} {st : Supervisor ι} (ph' : LoopPh), (SvPh.loop ph).op = some o →
        (s.st.later 0).exec d (.iteration s.st.iterations) o {} = some (r, st) → st.done = false → st.log = s.st.log →
        st.iterations = s.st.iterations → KeepsRequest s.st st → svNext podName d (.loop ph) o r = .loop ph' →
        ph' ≠ .ended ∧ ph'.rank ≤ n → CanLaunch podName d s := by
      intro o r st ph' hop he hup hlog hit hpend hnext hok
      refine h.loopStep {} hφ hop he hnext hup hlog hit ?_
      intro s' φ' hs' hlive hφ'
      refine ih hlive hφ' hok.1 hok.2 fun s'' φ'' hlive'' hpend'' => hgo s'' φ'' hlive'' ?_
      rw [hs'] at hpend''
      exact hpend.trans hpend''
    -- a check leads to one of two phases that are nearer to the end
    have hbranch : ∀ (b : Bool) (ph₁ ph₂ : LoopPh), ph₁ ≠ .ended ∧ ph₁.rank < ph.rank → ph₂ ≠ .ended ∧ ph₂.rank < ph.rank →
        (if b then ph₁ else ph₂) ≠ .ended ∧ (if b then ph₁ else ph₂).rank ≤ n := by
      intro b ph₁ ph₂ h₁ h₂
      cases b
      · exact ⟨h₂.1, by simp only [Bool.false_eq_true, if_false]; omega⟩
      · exact ⟨h₁.1, by simp only [if_true]; omega⟩
    cases ph with
    | selecting => exact hgo s φ h ⟨id, rfl, rfl⟩ hφ
    | launching => exact h.launching hφ
    | ended => exact absurd rfl hover
    | leaving =>
      refine h.step {} (congrArg SvPh.op hφ) rfl h.up rfl ?_
      intro s' hs' hlive
      refine hgo s' _ hlive (by rw [hs']; exact ⟨id, rfl, rfl⟩) ?_
      have hit : s'.st.iterations = s.st.iterations + 1 := by rw [hs']; rfl
      rw [hit, update_of_ne (by simp)]
      exact h.inv.ahead _ (Nat.lt_succ_self _)
    | queueing =>
      refine hstay (o := .enqueueStart) .leaving rfl rfl h.up rfl rfl ⟨fun _ => rfl, rfl, rfl⟩ rfl ⟨by simp, ?_⟩
      simp only [LoopPh.rank] at hrank ⊢
      omega
    | due =>
      refine hstay (o := .setLastAutomaticRestart) .checking rfl rfl h.up rfl rfl ⟨id, rfl, rfl⟩ rfl ⟨by simp, ?_⟩
      simp only [LoopPh.rank] at hrank ⊢
      omega
    | checking =>
      exact hstay (o := .alreadyStarted) _ rfl rfl h.up rfl rfl ⟨id, rfl, rfl⟩ rfl
        (hbranch s.st.processCancelFunc.isSome .leaving .queueing (by decide) (by decide))
    | exited =>
      exact hstay (o := .restartedRecently) _ rfl rfl h.up rfl rfl ⟨id, rfl, rfl⟩ rfl
        (hbranch (s.st.tooRecent d) .leaving .due (by decide) (by decide))
    | started =>
      exact hstay (o := .stopTimeIsZero) _ rfl rfl h.up rfl rfl ⟨id, rfl, rfl⟩ rfl
        (hbranch s.st.stopTime.isNone .leaving .exited (by decide) (by decide))
    | notStopped =>
      exact hstay (o := .startTimeIsZero) _ rfl rfl h.up rfl rfl ⟨id, rfl, rfl⟩ rfl
        (hbranch s.st.startTime.isNone .leaving .started (by decide) (by decide))
    | ticked =>
      exact hstay (o := .stopRequestTimeIsZero) _ rfl rfl h.up rfl rfl ⟨id, rfl, rfl⟩ rfl
        (hbranch s.st.stopRequestTime.isNone .notStopped .leaving (by decide) (by decide))

section

variable (h : Live podName d s φ)
include h

/-- **A request that is queued is taken**, wherever the loop is. -/
theorem Live.requested (hreq : s.st.startRequests = true) : CanLaunch podName d s := by
  obtain ⟨ph, hφ, hover⟩ := h.loop
  refine Live.to_select ph.rank h hφ hover le_rfl ?_
  intro s' φ' hlive hpend hsel
  refine hlive.loopStep { case := .startRequest } hsel rfl (Supervisor.exec_startRequest _ rfl (hpend.request hreq)) rfl hlive.up
    rfl rfl ?_
  exact fun s'' φ'' _ hlive'' hφ'' => hlive''.launching hφ''

/-- The goroutine of the process that can be cancelled runs to its end. -/
theorem Live.finish {n : ℕ} (hc : s.st.processCancelFunc = some n)
    (hgo : ∀ s' φ', Live podName d s' φ' → (∀ t, t ≠ .process n → φ' t = φ t) → s'.st.stopTime ≠ none →
      s'.st.processCancelFunc = none → s'.st.iterations = s.st.iterations → s'.st.startTime = s.st.startTime → CanLaunch podName d s') :
    CanLaunch podName d s := by
  obtain ⟨hn, hover⟩ := h.inv.current n hc
  -- the last section, from a state in which only the goroutine itself has moved
  have hlast : ∀ s₁ φ₁, Live podName d s₁ φ₁ → φ₁ (.process n) = .process .finishing → (∀ t, t ≠ .process n → φ₁ t = φ t) →
      s₁.st.iterations = s.st.iterations → s₁.st.startTime = s.st.startTime → s₁.st.log = s.st.log → CanLaunch podName d s₁ := by
    intro s₁ φ₁ h₁ hφ₁ hsame hit hstart hlog
    refine h₁.step {} (congrArg SvPh.op hφ₁) rfl h₁.up rfl ?_
    intro s' hs' hlive
    refine hgo s' _ hlive (fun t ht => ?_) (by rw [hs']; exact some_ne_none _) (by rw [hs']) (by rw [hs']; exact hit)
      (by rw [hs']; exact hstart)
    rw [update_of_ne ht]
    exact hsame t ht
  have hmoved : ∀ {x : SvPh}, ∀ t, t ≠ .process n → update φ (.process n) x t = φ t :=
    fun t ht => update_of_ne ht _ _
  obtain ⟨ph, hφ⟩ := h.at_.process_phase n
  cases ph with
  | ended => exact absurd hφ hover
  | finishing => exact hlast s φ h hφ (fun _ _ => rfl) rfl rfl rfl
  | running =>
    refine h.step {} (congrArg SvPh.op hφ) rfl h.up rfl ?_
    intro s' hs' hlive
    exact hlast s' _ hlive (by rw [update_self, hφ]; rfl) hmoved (by rw [hs']; rfl) (by rw [hs']; rfl) (by rw [hs']; rfl)
  | spawned =>
    refine h.step { launches := false } (congrArg SvPh.op hφ) (Supervisor.exec_noLaunch _ rfl hn) h.up rfl ?_
    intro s' hs' hlive
    exact hlast s' _ hlive (by rw [update_self, hφ]; rfl) hmoved (by rw [hs']; rfl) (by rw [hs']; rfl) (by rw [hs']; rfl)

theorem Live.enqueues (hop : (φ t).op = some .enqueueStart) : CanLaunch podName d s := by
  refine h.step {} hop rfl h.up rfl ?_
  intro s' hs' hlive
  exact hlive.requested (by rw [hs'])

/-- **A start that is being checked can go through**: the process that is in its way may end. -/
theorem Live.checks (hop : (φ t).op = some .alreadyStarted) : CanLaunch podName d s := by
  have hnone : ∀ s₁ φ₁, Live podName d s₁ φ₁ → (φ₁ t).op = some .alreadyStarted → s₁.st.processCancelFunc = none →
      CanLaunch podName d s₁ := by
    intro s₁ φ₁ h₁ hop₁ hc₁
    have he : (s₁.st.later 0).exec d t .alreadyStarted {} = some (false, s₁.st) := by
      show some (s₁.st.processCancelFunc.isSome, s₁.st) = _
      rw [hc₁]
      rfl
    refine h₁.step {} hop₁ he h₁.up rfl ?_
    intro s' _ hlive
    refine hlive.enqueues (t := t) ?_
    rw [update_self]
    cases hφ : φ₁ t with
    | reconcile ph => rw [hφ] at hop₁; cases ph <;> cases hop₁; rfl
    | loop ph => rw [hφ] at hop₁; cases ph <;> cases hop₁; rfl
    | process ph => rw [hφ] at hop₁; cases ph <;> cases hop₁
    | manager ended => rw [hφ] at hop₁; cases ended <;> cases hop₁
  rcases hc : s.st.processCancelFunc with _ | n
  · exact hnone s φ h hop hc
  refine h.finish hc fun s' φ' hlive hsame _ hc' _ _ => hnone s' φ' hlive ?_ hc'
  rw [hsame t ?_]
  · exact hop
  · rintro rfl
    obtain ⟨ph, hφ⟩ := h.at_.process_phase n
    rw [hφ] at hop
    cases ph <;> cases hop

theorem Live.due (hφ : φ (.iteration s.st.iterations) = .loop .due) : CanLaunch podName d s := by
  refine h.step {} (congrArg SvPh.op hφ) rfl h.up rfl ?_
  intro s' _ hlive
  refine hlive.checks (t := .iteration s.st.iterations) ?_
  rw [update_self, hφ]
  rfl

theorem Live.exited (hφ : φ (.iteration s.st.iterations) = .loop .exited) : CanLaunch podName d s := by
  have hlong : (s.st.later (d.restartWaitPeriod + s.st.lastAutomaticRestart.getD 0)).tooRecent d = false := by
    unfold Supervisor.tooRecent Supervisor.later
    rcases s.st.lastAutomaticRestart with _ | last
    · rfl
    simp only [getD_some, decide_eq_false_iff_not]
    omega
  have he : (s.st.later (d.restartWaitPeriod + s.st.lastAutomaticRestart.getD 0)).exec d (.iteration s.st.iterations)
      .restartedRecently { elapsed := d.restartWaitPeriod + s.st.lastAutomaticRestart.getD 0 } =
      some (false, s.st.later (d.restartWaitPeriod + s.st.lastAutomaticRestart.getD 0)) := by
    show some (Supervisor.tooRecent d _, _) = _
    rw [hlong]
  refine h.loopStep { elapsed := d.restartWaitPeriod + s.st.lastAutomaticRestart.getD 0 } hφ rfl he rfl h.up rfl rfl ?_
  exact fun s' φ' _ hlive hφ' => hlive.due hφ'

theorem Live.begun (hφ : φ (.iteration s.st.iterations) = .loop .started) : CanLaunch podName d s := by
  have hstopped : ∀ (s₁ : SvSys ι) φ₁, Live podName d s₁ φ₁ → φ₁ (.iteration s₁.st.iterations) = .loop .started → s₁.st.stopTime ≠ none →
      CanLaunch podName d s₁ := by
    intro s₁ φ₁ h₁ hφ₁ hstop
    have he : (s₁.st.later 0).exec d (.iteration s₁.st.iterations) .stopTimeIsZero {} = some (false, s₁.st) := by
      show some (s₁.st.stopTime.isNone, s₁.st) = _
      rw [isNone_eq_false_iff.2 (isSome_iff_ne_none.2 hstop)]
    refine h₁.loopStep {} hφ₁ rfl he rfl h₁.up rfl rfl ?_
    exact fun s' φ' _ hlive hφ' => hlive.exited hφ'
  by_cases hstop : s.st.stopTime = none
  · -- a process that has not stopped can be cancelled; it ends first
    have hc := h.inv.runs (h.inv.started _ hφ) hstop
    obtain ⟨n, hn⟩ := ne_none_iff_exists'.1 hc
    refine h.finish hn fun s' φ' hlive hsame hstop' _ hit _ => hstopped s' φ' hlive ?_ hstop'
    rw [hit, hsame _ (by simp)]
    exact hφ
  · exact hstopped s φ h hφ hstop

theorem Live.notStopped (hφ : φ (.iteration s.st.iterations) = .loop .notStopped)
    (hstart : s.st.startTime ≠ none) : CanLaunch podName d s := by
  have he : (s.st.later 0).exec d (.iteration s.st.iterations) .startTimeIsZero {} = some (false, s.st) := by
    show some (s.st.startTime.isNone, s.st) = _
    rw [isNone_eq_false_iff.2 (isSome_iff_ne_none.2 hstart)]
  refine h.loopStep {} hφ rfl he rfl h.up rfl rfl ?_
  exact fun s' φ' _ hlive hφ' => hlive.begun hφ'

/-- **A process that was started and not asked to stop is restarted** after it has exited. -/
theorem Live.restarts (hauto : d.autoRestart = true) (hstart : s.st.startTime ≠ none)
    (hstop : s.st.stopRequestTime = none) : CanLaunch podName d s := by
  obtain ⟨ph, hφ, hover⟩ := h.loop
  refine Live.to_select ph.rank h hφ hover le_rfl ?_
  intro s' φ' hlive hpend hsel
  have hticked : svNext podName d (.loop .selecting) .select SelectCase.tick = .loop .ticked := by
    show SvPh.loop (if d.autoRestart then .ticked else .leaving) = _
    rw [if_pos hauto]
  refine hlive.loopStep {} hsel rfl (Supervisor.exec_tick _ rfl) hticked hlive.up rfl rfl ?_
  intro s₁ φ₁ hs₁ hlive₁ hφ₁
  have he : (s₁.st.later 0).exec d (.iteration s₁.st.iterations) .stopRequestTimeIsZero {} = some (true, s₁.st) := by
    show some (s₁.st.stopRequestTime.isNone, s₁.st) = _
    rw [hs₁, show s'.st.stopRequestTime = none from hpend.stopRequest.trans hstop]
    rfl
  refine hlive₁.loopStep {} hφ₁ rfl he rfl hlive₁.up rfl rfl ?_
  intro s₂ φ₂ hs₂ hlive₂ hφ₂
  refine hlive₂.notStopped hφ₂ ?_
  rw [hs₂, hs₁]
  exact hpend.start.trans_ne hstart

end

omit [DecidableEq ι] in
/-- The phase of the loop can be told from what it does next, unless that is something `Reconcile` does as well. -/
theorem At.loop_phase (h : At podName d s φ) (hinv : SvInv s.st φ) {ph : LoopPh} {o : SvOp} (hop : (φ t).op = some o)
    (hph : (SvPh.loop ph).op = some o) (hcheck : o ≠ .alreadyStarted) (hqueue : o ≠ .enqueueStart) (hsel : o ≠ .select) :
    φ (.iteration s.st.iterations) = .loop ph := by
  have hφ : φ t = .loop ph := by
    cases hφ : φ t with
    | reconcile x => rw [hφ] at hop; cases ph <;> cases hph <;> cases x <;> cases hop <;> simp at hcheck hqueue
    | loop x => rw [hφ] at hop; cases ph <;> cases hph <;> cases x <;> cases hop <;> rfl
    | process x => rw [hφ] at hop; cases ph <;> cases hph <;> cases x <;> cases hop
    | manager x => rw [hφ] at hop; cases ph <;> cases hph <;> cases x <;> cases hop
  have hof := (h.nextOp t).2
  rw [hφ] at hof
  cases t with
  | iteration k =>
    have hk := hinv.current_iteration hφ (by rintro rfl; cases hph; exact hsel rfl) (by rintro rfl; cases hph)
    rwa [hk] at hφ
  | reconcile | process | manager => exact hof.elim

/-- **A supervisor that is not settled can launch.** -/
theorem Live.unsettled (h : Live podName d s φ) (hauto : d.autoRestart = true) (hrest : ¬ Rested s.st fun t => (φ t).op) :
    CanLaunch podName d s := by
  by_contra hcan
  refine hrest ⟨?_, ?_, ?_, ?_⟩
  · by_contra hreq
    exact hcan (h.requested (by simpa using hreq))
  · intro t o hop
    cases o with
    | alreadyStarted => exact absurd (h.checks hop) hcan
    | enqueueStart => exact absurd (h.enqueues hop) hcan
    | newProcess => exact absurd (h.launching (h.at_.loop_phase h.inv hop rfl (by simp) (by simp) (by simp))) hcan
    | stopTimeIsZero => exact absurd (h.begun (h.at_.loop_phase h.inv hop rfl (by simp) (by simp) (by simp))) hcan
    | restartedRecently => exact absurd (h.exited (h.at_.loop_phase h.inv hop rfl (by simp) (by simp) (by simp))) hcan
    | setLastAutomaticRestart => exact absurd (h.due (h.at_.loop_phase h.inv hop rfl (by simp) (by simp) (by simp))) hcan
    | isProcessRunning | ctxErr | get | cancelProcess | select | stopRequestTimeIsZero | startTimeIsZero | again | cmdStart
    | cmdWait | processFinished | shutdown => rfl
  · intro n hn hop
    obtain ⟨ph, hφ⟩ := h.at_.process_phase n
    have hspawned : ph = .spawned := by
      rw [hφ] at hop
      cases ph <;> cases hop
      rfl
    rw [hspawned] at hφ
    by_contra hc
    exact hcan (h.launch hn hφ (by simpa using hc))
  · intro hstart
    refine ⟨fun hstop => hcan (h.restarts hauto hstart hstop), ?_⟩
    intro t hop
    exact hcan (h.notStopped (h.at_.loop_phase h.inv hop rfl (by simp) (by simp) (by simp)) hstart)

/-! ## The instance is demoted -/

variable (podName d) in
/-- Every run keeps the invariant. -/
theorem supervised_run (es : List (SvThread ι × SvChoice)) :
    ∃ φ, At podName d ((supervised ι podName d).schedule (svSem ι d) es) φ ∧
      SvInv ((supervised ι podName d).schedule (svSem ι d) es).st φ := by
  obtain ⟨φ, hat, -, hinv⟩ := schedule_proto (M := svSem ι d) (T := svProto podName d) (Q := SvOver) (X := SvOver)
    (G := fun _ _ _ => True) svPh₀ SvInv (fun s φ t c o k r st hat _ hinv _ hp _ he =>
      (hinv.later c.elapsed).step (hat.allowed hp).1 (hat.allowed hp).2 he) es (supervised ι podName d) svPh₀ supervised_at
    (fun _ _ => rfl) (supervised_inv (fun _ => rfl) fun _ => rfl) (heeds_of_forall (fun _ _ _ => trivial) es _)
  exact ⟨φ, hat, hinv⟩

def podA : Name := "a".toList

def podB : Name := "b".toList

/-- Steps of one goroutine in which nothing is left open. -/
def plainSteps (t : SvThread Bool) (n : ℕ) : List (SvThread Bool × SvChoice) := List.replicate n (t, {})

/-- A `Reconcile` up to what it reads of the cluster. -/
def seesPrimary (i : Bool) (primary : Name) : List (SvThread Bool × SvChoice) :=
  plainSteps (.reconcile i) 2 ++ [(.reconcile i, { answer := .cluster primary primary })]

def requestsStart : List (SvThread Bool × SvChoice) := seesPrimary false podA ++ plainSteps (.reconcile false) 2

/-- The loop takes the request in its `k`-th iteration, and process `n` is launched. -/
def takesRequest (k n : ℕ) : List (SvThread Bool × SvChoice) :=
  (.iteration k, { case := .startRequest }) :: plainSteps (.iteration k) 1 ++ plainSteps (.process n) 1

/-- The supervisor of pod `a` after a run. -/
def afterSteps (es : List (SvThread Bool × SvChoice)) : SvSys Bool := (supervised Bool podA sendWal).schedule (svSem Bool sendWal) es

/-- The process is launched, and the second call stops it. -/
def startedThenStopped : List (SvThread Bool × SvChoice) :=
  requestsStart ++ takesRequest 0 0 ++ seesPrimary true podB ++ plainSteps (.reconcile true) 1

/-- The process exits on its own, and only then the second call looks. -/
def exitedBefore : List (SvThread Bool × SvChoice) :=
  requestsStart ++ takesRequest 0 0 ++ plainSteps (.process 0) 2 ++ seesPrimary true podB

/-- The second call looks before the loop has taken the request. -/
def queuedBefore : List (SvThread Bool × SvChoice) := requestsStart ++ seesPrimary true podB

/-! ## One process at a time -/

/-- Process `n` is between its launch and its exit. -/
abbrev SvSys.Running (s : SvSys ι) (n : ℕ) : Prop := (s.procs (.process n)).nextOp = some .cmdWait

/-- **At most one process runs**, and a cancel function that is stored is the one of a process that has not finished, and
of the process that runs. -/
def SvSys.OneProcess (s : SvSys ι) : Prop := (∀ n m, s.Running n → s.Running m → n = m) ∧
  ∀ m, s.st.processCancelFunc = some m → (s.procs (.process m)).nextOp ≠ none ∧ ∀ n, s.Running n → n = m

/-- A process is started only when no cancel function is stored. -/
abbrev SvSys.startsAlone (s : SvSys ι) (t : SvThread ι) (_ : SvChoice) : Prop :=
  (s.procs t).nextOp = some .newProcess → s.st.processCancelFunc = none

/-- Every process that has not finished can be cancelled. -/
def Alone (st : Supervisor ι) (φ : SvThread ι → SvPh) : Prop :=
  ∀ n < st.processes, φ (.process n) ≠ .process .ended → st.processCancelFunc = some n

theorem alone_step (h : SvInv st φ) (hone : Alone st φ) (hop : (φ t).op = some o) (hof : (φ t).Of t)
    (halone : o = .newProcess → st.processCancelFunc = none) (he : st.exec d t o c = some (r, st')) :
    Alone st' (update φ t (svNext podName d (φ t) o r)) := by
  -- a process that has not finished had not before the step
  have hback : ∀ n, update φ t (svNext podName d (φ t) o r) (.process n) ≠ .process .ended →
      φ (.process n) ≠ .process .ended := by
    intro n hn hend
    by_cases ht : t = .process n
    · subst ht
      rw [hend] at hop
      cases hop
    · rw [update_of_ne (Ne.symm ht)] at hn
      exact hn hend
  intro n hlt hn
  by_cases hnew : o = .newProcess
  · subst hnew
    cases he
    rcases Nat.lt_succ_iff_lt_or_eq.1 hlt with hold | rfl
    · cases (halone rfl).symm.trans (hone n hold (hback n hn))
    · rfl
  by_cases hfin : o = .processFinished
  · subst hfin
    cases he
    -- the goroutine that finishes is the one whose process could be cancelled, so there is no other
    cases hφ : φ t with
    | process ph =>
      rw [hφ] at hop hof
      cases ph <;> cases hop
      cases t with
      | process m =>
        have hm : st.processCancelFunc = some m := by
          refine hone m ?_ (by rw [hφ]; simp)
          by_contra hge
          rw [h.fresh m (Nat.le_of_not_lt hge)] at hφ
          cases hφ
        cases hm.symm.trans (hone n hlt (hback n hn))
        rw [update_self, hφ] at hn
        exact absurd rfl hn
      | reconcile | iteration | manager => exact hof.elim
    | reconcile ph | loop ph | manager ph => rw [hφ] at hop; cases ph <;> cases hop
  · obtain ⟨hcancel, hcount⟩ := (Supervisor.exec_effect he).process hnew hfin
    rw [hcancel]
    exact hone n (hcount ▸ hlt) (hback n hn)

/-- **The supervisor runs at most one process** in every run in which a process is started only when no cancel function
is stored. -/
theorem one_process (podName : Name) (d : Definition) (calls : ι → SvCall) (es : List (SvThread ι × SvChoice))
    (hes : Heeds (svSem ι d) SvSys.startsAlone (calledService podName d calls) es) :
    SvSys.OneProcess ((calledService podName d calls).schedule (svSem ι d) es) := by
  obtain ⟨φ, hat, -, hinv, hone⟩ := schedule_proto (M := svSem ι d) (T := svProto podName d) (Q := SvOver) (X := SvOver)
    (fun | .reconcile i => .reconcile (calls i).begins | t => svPh₀ t) (fun st φ => SvInv st φ ∧ Alone st φ)
    (fun s φ t c o k r st hat _ hi hg hp ha he => ⟨(hi.1.later c.elapsed).step ha.1 ha.2 he,
      alone_step (hi.1.later c.elapsed) hi.2 ha.1 ha.2 (fun ho => hg (by rw [hp]; exact congrArg some ho)) he⟩) es
    (calledService podName d calls) _ (by
      intro t
      cases t with
      | reconcile i =>
        change ((calls i).prog podName).Sat _ _ _ (SvPh.reconcile (calls i).begins)
        cases calls i with
        | reconcile => exact reconcile_sat i
        | startProcess => exact startProcess_sat i
        | stopProcess => exact stopProcess_sat i
      | iteration | process | manager => exact supervised_at _)
    (fun _ _ => rfl) ⟨supervised_inv (fun _ => rfl) fun _ => rfl, nofun⟩ hes
  have hcancel : ∀ n, SvSys.Running ((calledService podName d calls).schedule (svSem ι d) es) n →
      ((calledService podName d calls).schedule (svSem ι d) es).st.processCancelFunc = some n := by
    intro n hn
    rw [SvSys.Running, (At.nextOp hat _).1] at hn
    refine hone n ?_ fun hend => by rw [hend] at hn; cases hn
    by_contra hge
    rw [hinv.fresh n (Nat.le_of_not_lt hge)] at hn
    cases hn
  refine ⟨fun n m hn hm => some.inj ((hcancel n hn).symm.trans (hcancel m hm)), fun m hm => ⟨fun hend => ?_, fun n hn =>
    some.inj ((hcancel n hn).symm.trans hm)⟩⟩
  obtain ⟨ph, hph⟩ := At.process_phase hat m
  rw [(At.nextOp hat _).1, hph] at hend
  cases ph <;> cases hend
  exact (hinv.current m hm).2 hph

/-- The service of pod `a` after a run, called by `Reconcile`. -/
def calledSteps (es : List (SvThread Bool × SvChoice)) : SvSys Bool :=
  (calledService podA sendWal fun _ => .reconcile).schedule (svSem Bool sendWal) es

/-- A first process is launched, and it runs alone. -/
theorem one_process_first : (calledSteps (requestsStart ++ takesRequest 0 0)).Running 0 ∧
    (calledSteps (requestsStart ++ takesRequest 0 0)).OneProcess :=
  ⟨by decide +kernel, one_process podA sendWal (fun _ => .reconcile) (requestsStart ++ takesRequest 0 0) (by decide +kernel)⟩

/-- A second call looks after the loop has taken the first request and before it has stored a cancel function. -/
def secondRequest : List (SvThread Bool × SvChoice) :=
  requestsStart ++ (.iteration 0, { case := .startRequest }) :: seesPrimary true podA ++ plainSteps (.reconcile true) 2 ++
    plainSteps (.iteration 0) 2 ++ plainSteps (.process 0) 1 ++ takesRequest 1 1

/-- **Two processes run**, and the exit of the first takes away the cancel function of the second. -/
theorem two_processes_run : ((calledSteps secondRequest).Running 0 ∧ (calledSteps secondRequest).Running 1) ∧
    (calledSteps (secondRequest ++ plainSteps (.process 0) 2)).Running 1 ∧
      (calledSteps (secondRequest ++ plainSteps (.process 0) 2)).st.processCancelFunc = none := by
  decide +kernel

variable (podName d) in
/-- However the service is called, every run keeps the invariant. -/
theorem called_run (calls : ι → SvCall) (es : List (SvThread ι × SvChoice)) :
    ∃ φ, At podName d ((calledService podName d calls).schedule (svSem ι d) es) φ ∧
      SvInv ((calledService podName d calls).schedule (svSem ι d) es).st φ := by
  obtain ⟨φ, hat, -, hinv⟩ := schedule_proto (M := svSem ι d) (T := svProto podName d) (Q := SvOver) (X := SvOver)
    (G := fun _ _ _ => True) (calledPh calls) SvInv (fun s φ t c o k r st hat _ hinv _ hp _ he =>
      (hinv.later c.elapsed).step (hat.allowed hp).1 (hat.allowed hp).2 he) es (calledService podName d calls) _ (called_at calls)
    (fun _ _ => rfl) (supervised_inv (fun _ => rfl) fun _ => rfl) (heeds_of_forall (fun _ _ _ => trivial) es _)
  exact ⟨φ, hat, hinv⟩

/-- **Only a process that has not finished can be cancelled**, in every run and however the service is called, and one
that was started and has not stopped can be. -/
theorem cancellable_unfinished (podName : Name) (d : Definition) (calls : ι → SvCall) (es : List (SvThread ι × SvChoice)) :
    let s := (calledService podName d calls).schedule (svSem ι d) es
    (∀ n, s.st.processCancelFunc = some n → n < s.st.processes ∧ (s.procs (.process n)).nextOp ≠ none) ∧
      (s.st.startTime ≠ none → s.st.stopTime = none → s.st.processCancelFunc ≠ none) := by
  obtain ⟨φ, hat, hinv⟩ := called_run podName d calls es
  refine ⟨fun n hn => ?_, hinv.runs⟩
  obtain ⟨hlt, hover⟩ := hinv.current n hn
  obtain ⟨ph, hφ⟩ := hat.process_phase n
  refine ⟨hlt, ?_⟩
  rw [(hat.nextOp _).1, hφ]
  cases ph <;> first | exact absurd hφ hover | exact nofun

end Klio

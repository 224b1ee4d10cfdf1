import Klio.Lib.Threads
import Klio.Model.Name

/-!
# The supervisor of send-wal

`supervisor/supervisor.go`, `supervisor/utils.go` and `cnpgi/send-wal.go`: a service that keeps one
subprocess running, and the reconciler that asks it to, on the instance that is the primary.

The goroutines are the calls of `Reconcile`, the loop of `Start`, one goroutine for every process the
loop has started, and the manager that may shut everything down. An operation below is one step of a
goroutine: a read of one field, or a whole section under the mutex. Fields are read without the mutex
as the code does, so that a section of another goroutine may come between two reads.

* `SvOp`, `Supervisor`, `Supervisor.exec`: the operations and what they do.
* `reconcile`, `startIteration`, `runProcess`: the goroutines.
* `supervised`: all of them, before anything has happened.
* `calledService`: also with calls of `StartProcess` and `StopProcess` on their own.
-/

namespace Klio

open Lib

/-- What is supervised: `Definition`, of which the command line is left out. -/
structure Definition where
  autoRestart : Bool
  restartWaitPeriod : ℕ

/-- The errors of the service and of the reconciler. -/
inductive SvErr where
  /-- `ErrProcessAlreadyStarted` -/
  | processAlreadyStarted
  /-- `ErrProcessNotStarted` -/
  | processNotStarted
  /-- What the API server answered. -/
  | api
  deriving DecidableEq

/-- What `r.Get` brings: the two fields of the status that are read, or an error. -/
inductive ClusterAnswer where
  | cluster (currentPrimary targetPrimary : Name)
  | notFound
  | failed
  deriving DecidableEq

/-- The cases of the `select` in `Start`. -/
inductive SelectCase where
  /-- `<-ctx.Done()` -/
  | done
  /-- `<-s.startRequests` -/
  | startRequest
  /-- `<-tick.C` -/
  | tick
  deriving DecidableEq

/-! ## Operations -/

/-- A goroutine: a call of `Reconcile`, one iteration of the loop in `Start`, the goroutine that runs a
process, or the manager. -/
inductive SvThread (ι : Type) where
  | reconcile (i : ι)
  | iteration (k : ℕ)
  | process (n : ℕ)
  | manager
  deriving DecidableEq

/-- What a goroutine does in one step. -/
inductive SvOp where
  /-- `IsProcessRunning` -/
  | isProcessRunning
  /-- `ctx.Err()` -/
  | ctxErr
  /-- `r.Get(ctx, req.NamespacedName, &cluster)` -/
  | get
  /-- The check of `StartProcess`. -/
  | alreadyStarted
  /-- `s.startRequests <- nil`, unless one is pending. -/
  | enqueueStart
  /-- The section of `StopProcess`; the answer says whether there was a process. -/
  | cancelProcess
  | select
  /-- The section of `internalStartProcess`, and its `go` statement. -/
  | newProcess
  /-- `s.StopRequestTime.IsZero()` -/
  | stopRequestTimeIsZero
  /-- `s.StartTime.IsZero()` -/
  | startTimeIsZero
  /-- `s.StopTime.IsZero()` -/
  | stopTimeIsZero
  /-- `time.Since(s.LastAutomaticRestart) < s.Definition.RestartWaitPeriod` -/
  | restartedRecently
  /-- The section of `triggerRestartWhenNeeded`. -/
  | setLastAutomaticRestart
  /-- The loop comes back to its `select`. -/
  | again
  /-- The launch in `cmd.Run()`; the answer says whether there is a subprocess. -/
  | cmdStart
  /-- The subprocess exits. -/
  | cmdWait
  /-- The section at the end of the goroutine. -/
  | processFinished
  /-- The context of the manager is cancelled. -/
  | shutdown
  deriving DecidableEq

/-- What an operation answers. -/
def SvOp.Res : SvOp → Type
  | .get => ClusterAnswer
  | .select => SelectCase
  | .isProcessRunning | .ctxErr | .alreadyStarted | .cancelProcess | .stopRequestTimeIsZero | .startTimeIsZero
  | .stopTimeIsZero | .restartedRecently | .cmdStart => Bool
  | _ => Unit

/-- A program of a goroutine. -/
abbrev SvProg (α : Type) := Prog SvOp SvOp.Res SvErr α

/-- What is noted of a run: what a goroutine has read of the cluster, and the launch of a subprocess. -/
inductive SvNote (ι : Type) where
  | observed (t : SvThread ι) (answer : ClusterAnswer)
  | launched (n : ℕ)
  deriving DecidableEq

/-- `Service`, with the clock, the contexts of its processes and of the manager, and how far the loop
is. A time that is zero is `none`; a cancel function is the number of the process it stops. -/
structure Supervisor (ι : Type) where
  stopTime : Option ℕ := none
  stopRequestTime : Option ℕ := none
  startTime : Option ℕ := none
  lastAutomaticRestart : Option ℕ := none
  processCancelFunc : Option ℕ := none
  startRequests : Bool := false
  now : ℕ := 0
  /-- How many processes were started. -/
  processes : ℕ := 0
  cancelled : ℕ → Bool := fun _ => false
  iterations : ℕ := 0
  /-- The context of the manager is done, and with it those of the processes. -/
  done : Bool := false
  log : List (SvNote ι) := []

/-- What a step leaves open: how much time has passed, and what is answered from outside. -/
structure SvChoice where
  elapsed : ℕ := 0
  ctxErr : Bool := false
  answer : ClusterAnswer := .failed
  case : SelectCase := .tick
  /-- The executable can be launched. -/
  launches : Bool := true

namespace Supervisor

variable {ι : Type}

/-- Time passes. -/
def later (s : Supervisor ι) (elapsed : ℕ) : Supervisor ι := { s with now := s.now + elapsed }

/-- The loop is at its `select`: which cases are ready. Ticks may come at any time. -/
def selects (s : Supervisor ι) : SelectCase → Option (SelectCase × Supervisor ι)
  | .done => if s.done then some (.done, s) else none
  | .startRequest => if s.startRequests then some (.startRequest, { s with startRequests := false }) else none
  | .tick => some (.tick, s)

/-- `time.Since(s.LastAutomaticRestart) < s.Definition.RestartWaitPeriod` -/
def tooRecent (d : Definition) (s : Supervisor ι) : Bool := match s.lastAutomaticRestart with
  | some t => decide (s.now - t < d.restartWaitPeriod)
  | none => false

/-- A new process: its context, and the fields that `internalStartProcess` sets. -/
def begin (s : Supervisor ι) : Supervisor ι :=
  { s with
    startTime := some s.now
    stopTime := none
    stopRequestTime := none
    processCancelFunc := some s.processes
    cancelled := Function.update s.cancelled s.processes false
    processes := s.processes + 1 }

/-- The launch of process `n`: there is none when the context is done already. -/
def launch (s : Supervisor ι) (n : ℕ) (launches : Bool) : Bool × Supervisor ι :=
  if launches ∧ s.cancelled n = false ∧ s.done = false then (true, { s with log := s.log ++ [.launched n] }) else (false, s)

/-- **What an operation answers and does**, or nothing as long as it has to wait. -/
def exec (d : Definition) (t : SvThread ι) : (o : SvOp) → SvChoice → Supervisor ι → Option (o.Res × Supervisor ι)
  | .isProcessRunning, _, s => some (s.processCancelFunc.isSome, s)
  | .ctxErr, c, s => some (c.ctxErr, s)
  | .get, c, s => some (c.answer, { s with log := s.log ++ [.observed t c.answer] })
  | .alreadyStarted, _, s => some (s.processCancelFunc.isSome, s)
  | .enqueueStart, _, s => some ((), { s with startRequests := true })
  | .cancelProcess, _, s => match s.processCancelFunc with
    | some n => some (true, { s with stopRequestTime := some s.now, cancelled := Function.update s.cancelled n true })
    | none => some (false, s)
  | .select, c, s => match t with
    | .iteration k => if k = s.iterations then s.selects c.case else none
    | _ => none
  | .newProcess, _, s => some ((), s.begin)
  | .stopRequestTimeIsZero, _, s => some (s.stopRequestTime.isNone, s)
  | .startTimeIsZero, _, s => some (s.startTime.isNone, s)
  | .stopTimeIsZero, _, s => some (s.stopTime.isNone, s)
  | .restartedRecently, _, s => some (s.tooRecent d, s)
  | .setLastAutomaticRestart, _, s => some ((), { s with lastAutomaticRestart := some s.now })
  | .again, _, s => some ((), { s with iterations := s.iterations + 1 })
  | .cmdStart, c, s => match t with
    | .process n => if n < s.processes then some (s.launch n c.launches) else none
    | _ => none
  | .cmdWait, _, s => some ((), s)
  | .processFinished, _, s => some ((), { s with stopTime := some s.now, processCancelFunc := none })
  | .shutdown, _, s => some ((), { s with done := true })

end Supervisor

/-- The semantics of the goroutines of one service. -/
def svSem (ι : Type) [DecidableEq ι] (d : Definition) : WaitSem (SvThread ι) SvOp SvOp.Res (Supervisor ι) SvChoice where
  exec t o c s := Supervisor.exec d t o c (s.later c.elapsed)

/-! ## The service -/

def startProcess : SvProg Unit :=
  .call .alreadyStarted fun (started : Bool) =>
  if started then .err .processAlreadyStarted
  else .call .enqueueStart fun _ => .ret ()

/-- `StopProcess`. The reason is only passed on to the subprocess. -/
def stopProcess : SvProg Unit :=
  .call .cancelProcess fun (running : Bool) =>
  if running then .ret () else .err .processNotStarted

def ensureProcessStarted : SvProg Unit :=
  startProcess.attempt.bind fun
    | .ok _ | .error .processAlreadyStarted => .ret ()
    | .error e => .err e

def ensureProcessStopped : SvProg Unit :=
  stopProcess.attempt.bind fun
    | .ok _ | .error .processNotStarted => .ret ()
    | .error e => .err e

def triggerRestartWhenNeeded (d : Definition) : SvProg Unit :=
  if !d.autoRestart then .ret ()
  else
  -- a process that was stopped by a request is not restarted
  .call .stopRequestTimeIsZero fun (notStopped : Bool) =>
  if !notStopped then .ret ()
  else .call .startTimeIsZero fun (neverStarted : Bool) =>
  if neverStarted then .ret ()
  else .call .stopTimeIsZero fun (running : Bool) =>
  if running then .ret ()
  else .call .restartedRecently fun (recently : Bool) =>
  if recently then .ret ()
  else .call .setLastAutomaticRestart fun _ => startProcess

/-- `internalStartProcess`, up to its `go` statement. -/
def internalStartProcess : SvProg Unit := .call .newProcess fun _ => .ret ()

/-- The goroutine that `internalStartProcess` leaves behind. -/
def runProcess : SvProg Unit :=
  .call .cmdStart fun (launched : Bool) =>
  (if launched then .call .cmdWait fun _ => .ret () else .ret () : SvProg Unit).bind fun _ =>
  .call .processFinished fun _ => .ret ()

/-- One iteration of the loop in `Start`. An error of the restart is logged only. -/
def startIteration (d : Definition) : SvProg Unit :=
  .call .select fun (case : SelectCase) => match case with
  | .done => .ret ()
  | .startRequest => internalStartProcess.bind fun _ => .call .again fun _ => .ret ()
  | .tick => (triggerRestartWhenNeeded d).attempt.bind fun _ => .call .again fun _ => .ret ()

/-! ## The reconciler -/

def reconcile (podName : Name) : SvProg Unit :=
  .call .isProcessRunning fun (sendWALRunning : Bool) =>
  .call .ctxErr fun (cancelled : Bool) =>
  if cancelled then .ret ()
  else .call .get fun (answer : ClusterAnswer) => match answer with
  | .notFound => if sendWALRunning then ensureProcessStopped.attempt.bind fun _ => .ret () else .ret ()
  | .failed => .err .api
  | .cluster currentPrimary targetPrimary =>
    -- a switchover or failover is in progress
    if currentPrimary ≠ targetPrimary then .ret ()
    else if podName = currentPrimary ∧ sendWALRunning = false then ensureProcessStarted
    else if podName ≠ currentPrimary ∧ sendWALRunning = true then ensureProcessStopped
    else .ret ()

/-- The `Definition` of send-wal, with times in nanoseconds. -/
def sendWal : Definition where
  autoRestart := true
  restartWaitPeriod := 15 * 10 ^ 9

/-- **A service** with its calls of `Reconcile`, before anything has happened. -/
def supervised (ι : Type) (podName : Name) (d : Definition) : Sys (SvThread ι) SvOp SvOp.Res SvErr (Supervisor ι) :=
  .init {} fun
    | .reconcile _ => reconcile podName
    | .iteration _ => startIteration d
    | .process _ => runProcess
    | .manager => .call .shutdown fun _ => .ret ()

/-- A call from another goroutine. -/
inductive SvCall where
  | reconcile
  | startProcess
  | stopProcess

def SvCall.prog (podName : Name) : SvCall → SvProg Unit
  | .reconcile => Klio.reconcile podName
  | .startProcess => Klio.startProcess
  | .stopProcess => Klio.stopProcess

/-- A service that is called in other ways, too. -/
def calledService {ι : Type} (podName : Name) (d : Definition) (calls : ι → SvCall) :
    Sys (SvThread ι) SvOp SvOp.Res SvErr (Supervisor ι) :=
  .init {} fun
    | .reconcile i => (calls i).prog podName
    | t => (supervised ι podName d).procs t

end Klio

import Klio.Lib.Streams
import Klio.Model.Consumer

/-!
# The work queue

`queue/queue.go`, `queue/manager.go` and `queue/backup.go`: the streams of the message broker, the dead letters, and
what operators and consumers do with them.

A task that was delivered too often stays in its stream, and the broker stores an advisory that names its number in a
second stream. A dead letter is such an advisory; its task is in the message it names.

* `listFailedWALTasks`, `listFailedBackupTasks`: the dead letters that are selected.
* `discardFailedWALTasks`, `discardFailedBackupTasks`: their removal; `retryFailedBackupTasks`: their retry.
* `deliverBackup`: one delivery of a backup task, which discards dead letters when it has succeeded.
* `newQueue`: `New`, with the migration of the old stream.
-/

namespace Klio

open Lib

/-! ## Streams and subjects -/

/-- The streams, by what their names stand for. -/
inductive StreamName where
  | wal
  | dlqWal
  | latestUploadedWal
  | backup
  | dlqBackup
  | legacy
  deriving DecidableEq

/-- Their names. -/
def StreamName.text : StreamName → Name
  | .wal => "klio-wal-stream".toList
  | .dlqWal => "klio-dlq-wal-stream".toList
  | .latestUploadedWal => "klio-latest-uploaded-wal-per-cluster-stream".toList
  | .backup => "klio-backup-stream".toList
  | .dlqBackup => "klio-dlq-backup-stream".toList
  | .legacy => "KLIO".toList

/-- A message; `origin` is its header `Klio-Task-Origin`, empty if there is none. -/
structure QueueMsg where
  subject : Name
  data : Name
  origin : Name := []
  deriving DecidableEq

/-- A program of a client of the broker. -/
abbrev QueueProg (α : Type) := Prog (StreamOp StreamName QueueMsg) StreamOp.Res Err α

def taskOriginDLQRetry : Name := "dlq-retry".toList

def backupSubject (clusterName : Name) : Name := "klio.backup.".toList ++ clusterName

def walSubject (clusterName : Name) : Name := "klio.wal.".toList ++ clusterName

def latestUploadedWalSubject (clusterName : Name) : Name := "klio.latest-uploaded-wal.".toList ++ clusterName

def advisorySubject (stream consumer : Name) : Name :=
  "$JS.EVENT.ADVISORY.CONSUMER.MAX_DELIVERIES.".toList ++ stream ++ '.' :: consumer

def walAdvisorySubject : Name := advisorySubject StreamName.wal.text "klio-wal-consumer".toList

def backupAdvisorySubject : Name := advisorySubject StreamName.backup.text "klio-backup-consumer".toList

/-- `strings.Split(s, ".")` -/
def splitDots : Name → List Name
  | [] => [[]]
  | c :: s =>
    if c = '.' then [] :: splitDots s
    else match splitDots s with
      | [] => [[c]]
      | token :: tokens => (c :: token) :: tokens

/-- The subject that `configureStreams` gives a stream. -/
def StreamName.subject : StreamName → Option Name
  | .wal => some (walSubject ['*'])
  | .dlqWal => some walAdvisorySubject
  | .latestUploadedWal => some (latestUploadedWalSubject ['*'])
  | .backup => some (backupSubject ['*'])
  | .dlqBackup => some backupAdvisorySubject
  | .legacy => none

/-- NATS subjects match token by token; `*` matches one that is not empty. -/
def tokensMatch : List Name → List Name → Bool
  | [], [] => true
  | p :: ps, t :: ts => ((p = ['*'] && t ≠ []) || p = t) && tokensMatch ps ts
  | _, _ => false

def StreamName.captures (s : StreamName) (subject : Name) : Bool :=
  s.subject.any fun p => tokensMatch (splitDots p) (splitDots subject)

/-- **The stream that a message goes to**, by the subjects in `configureStreams`; `*` is one token. -/
def route (m : QueueMsg) : Option StreamName :=
  if m.subject = walAdvisorySubject then some .dlqWal
  else if m.subject = backupAdvisorySubject then some .dlqBackup
  else match splitDots m.subject with
    | [root, kind, cluster] =>
      if root ≠ "klio".toList ∨ cluster = [] then none
      else if kind = "wal".toList then some .wal
      else if kind = "backup".toList then some .backup
      else if kind = "latest-uploaded-wal".toList then some .latestUploadedWal
      else none
    | _ => none

def natsError : NatsErr → Err
  | .noMessageFound => .new "nats: no message found"
  | .streamNotFound => .new "nats: stream not found"
  | .failed => .new "nats: request failed"

/-- An error of `json.Unmarshal`. -/
def jsonError : Err := .new "json: cannot unmarshal"

def numberText (n : ℕ) : Name := (toString n).toList

/-! ## Dead letters -/

structure FailedTask (T : Type) where
  sequence : ℕ
  task : T
  timestamp : ℤ

structure OptionConfig where
  cluster : Name := []
  wals : List Name := []

/-- **Outside code of the queue**: JSON, the time at which the broker has stored a message, and `slices.SortFunc`, which
puts the latest first, in some order where the times are equal. -/
structure QueueDeps where
  unmarshalAdvisory : Name → Option ℕ
  unmarshalWALTask : Name → Option WALTask
  unmarshalBackupTask : Name → Option BackupTask
  marshalAdvisory : ℕ → Name
  marshalWALTask : WALTask → Name
  marshalBackupTask : BackupTask → Name
  timestamp : StreamName → ℕ → ℤ
  sortByTimestamp : {T : Type} → List (FailedTask T) → List (FailedTask T)
  unmarshal_advisory : ∀ n, unmarshalAdvisory (marshalAdvisory n) = some n
  unmarshal_wal : ∀ t, unmarshalWALTask (marshalWALTask t) = some t
  unmarshal_backup : ∀ t, unmarshalBackupTask (marshalBackupTask t) = some t
  sort_perm : ∀ {T : Type} (l : List (FailedTask T)), (sortByTimestamp l).Perm l
  sort_sorted : ∀ {T : Type} (l : List (FailedTask T)), (sortByTimestamp l).Pairwise fun a b => b.timestamp ≤ a.timestamp

/-- The handles that `loadStreamOrNil` has cached. -/
abbrev Handles := List StreamName

/-- `loadStreamOrNil`: whether there is a stream, and the handles afterwards. -/
def loadStreamOrNil (streams : Handles) (name : StreamName) : QueueProg (Bool × Handles) :=
  if name ∈ streams then .ret (true, streams)
  else .call (.load name) fun (r : Except NatsErr Unit) => match r with
    | .ok _ => .ret (true, name :: streams)
    | .error .streamNotFound => .ret (false, streams)
    | .error e => .err (.wrap "loading stream %q: %w" [name.text] (natsError e))

structure DlqAdvisory where
  dlqSequence : ℕ
  sourceSeq : ℕ
  deriving DecidableEq

def errIncompleteDLQListing : Err := .new "incomplete DLQ listing"

def errWALFilterUnsupported : Err := .new "WAL name filtering is only supported for WAL tasks"

def errWALFilterRequiresCluster : Err := .new "WAL name filtering requires a cluster name"

def errAmbiguousSourceRead : Err := .new "ambiguous source stream read: no message and no error"

/-- The kinds of tasks with a stream and dead letters of their own. -/
structure TaskKind (T : Type) where
  source : StreamName
  dlq : StreamName
  cluster : T → Name
  unmarshal : Name → Option T

section Listing

variable {T : Type} (Z : QueueDeps) (kind : TaskKind T)

/-- The loop of `drainDLQPager`. A pager that gives up answers like one at its end. The rounds are bounded by `fuel`. -/
def drainPager : ℕ → ℕ → QueueProg (List DlqAdvisory)
  | 0, _ => .err stillRunning
  | fuel + 1, after => .call (.next kind.dlq after) fun (r : Except NatsErr (Option (Stored QueueMsg))) => match r with
    | .error e => .err (.wrap "failed to read DLQ stream message: %w" [] (natsError e))
    | .ok none => .ret []
    | .ok (some dlqMsg) => match Z.unmarshalAdvisory dlqMsg.msg.data with
      | none => .err (.wrap "failed to unmarshal DLQ stream message data: %w" [] jsonError)
      | some sourceSeq => (drainPager fuel dlqMsg.seq).bind fun rest => .ret (⟨dlqMsg.seq, sourceSeq⟩ :: rest)

def drainDLQPager (fuel expected : ℕ) : QueueProg (List DlqAdvisory) :=
  (drainPager Z kind fuel 0).bind fun advisories =>
  if advisories.length < expected then
    .err (.wrap "%w: read %d of %d entries" [numberText advisories.length, numberText expected] errIncompleteDLQListing)
  else .ret advisories

/-- The loop of `listPager`. An advisory without its message is skipped. -/
def resolveAdvisories (cfg : OptionConfig) : List DlqAdvisory → QueueProg (List (FailedTask T))
  | [] => .ret []
  | advisory :: advisories =>
    .call (.read kind.source advisory.sourceSeq) fun (r : Except NatsErr (Option (Stored QueueMsg))) => match r with
      | .error .noMessageFound => resolveAdvisories cfg advisories
      | .error e => .err (.wrap "failed to read original stream message: %w" [] (natsError e))
      | .ok none => .err (.wrap "%w: streamSeq %d" [numberText advisory.sourceSeq] errAmbiguousSourceRead)
      | .ok (some msg) => match kind.unmarshal msg.msg.data with
        | none => .err (.wrap "failed to unmarshal original stream message data: %w" [] jsonError)
        | some task =>
          if cfg.cluster ≠ [] ∧ kind.cluster task ≠ cfg.cluster then resolveAdvisories cfg advisories
          else (resolveAdvisories cfg advisories).bind fun tasks =>
            .ret (⟨advisory.dlqSequence, task, Z.timestamp kind.dlq advisory.dlqSequence⟩ :: tasks)

/-- `listFailedTasks`, with `listPager` -/
def listFailedTasks (fuel : ℕ) (cfg : OptionConfig) : QueueProg (List (FailedTask T)) :=
  .call (.count kind.dlq) fun (r : Except NatsErr ℕ) => match r with
    | .error e => .err (.wrap "while getting DLQ stream state: %w" [] (natsError e))
    | .ok expected => .call (.createConsumer kind.dlq) fun (r : Except NatsErr Unit) => match r with
      | .error e => .err (natsError e)
      | .ok _ =>
        (drainDLQPager Z kind fuel expected).bind fun advisories =>
        (resolveAdvisories Z kind cfg advisories).bind fun tasks => .ret (Z.sortByTimestamp tasks)

/-- The common part of `ListFailedWALTasks` and `ListFailedBackupTasks`: nothing is listed without both streams. -/
def listFailed (fuel : ℕ) (cfg : OptionConfig) (streams : Handles) : QueueProg (List (FailedTask T) × Handles) :=
  (loadStreamOrNil streams kind.source).bind fun source =>
  (loadStreamOrNil source.2 kind.dlq).bind fun dlq =>
  if source.1 = false ∨ dlq.1 = false then .ret ([], dlq.2)
  else (listFailedTasks Z kind fuel cfg).bind fun tasks => .ret (tasks, dlq.2)

def purgeDLQEntryBySequence (dlqSeq : ℕ) : QueueProg Unit :=
  .call (.read kind.dlq dlqSeq) fun (r : Except NatsErr (Option (Stored QueueMsg))) => match r with
    | .error .noMessageFound => .ret ()
    | .error e => .err (.wrap "while fetching dead-letter queue entry at sequence %d: %w" [numberText dlqSeq] (natsError e))
    | .ok none => .err (.wrap "while fetching dead-letter queue entry at sequence %d: %w" [numberText dlqSeq] errAmbiguousSourceRead)
    | .ok (some advisoryMsg) => match Z.unmarshalAdvisory advisoryMsg.msg.data with
      | none => .err (.wrap "while unmarshalling dead-letter queue advisory at sequence %d: %w" [numberText dlqSeq] jsonError)
      | some streamSeq =>
        -- the original first, then the entry
        .call (.read kind.source streamSeq) fun (r : Except NatsErr (Option (Stored QueueMsg))) => match r with
          | .error .noMessageFound => deleteEntry
          | .error e => .err (.wrap "while checking original message at sequence %d: %w" [numberText streamSeq] (natsError e))
          | .ok _ => releaseOriginal streamSeq
where
  /-- Delete the original, and then the entry. -/
  releaseOriginal (streamSeq : ℕ) : QueueProg Unit :=
    .call (.delete kind.source streamSeq) fun (r : Except NatsErr Unit) => match r with
      | .error e => .err (.wrap "while releasing original message at sequence %d: %w" [numberText streamSeq] (natsError e))
      | .ok _ => deleteEntry
  /-- The end of it. -/
  deleteEntry : QueueProg Unit := .call (.delete kind.dlq dlqSeq) fun (r : Except NatsErr Unit) => match r with
    | .error e => .err (.wrap "while deleting dead-letter queue entry at sequence %d: %w" [numberText dlqSeq] (natsError e))
    | .ok _ => .ret ()

/-- The loop of `purgeDLQEntries`: how many were purged, and the errors of the others. -/
def purgeEntries : List (FailedTask T) → QueueProg (ℕ × List Err)
  | [] => .ret (0, [])
  | task :: failed =>
    (purgeDLQEntryBySequence Z kind task.sequence).attempt.bind fun out =>
    (purgeEntries failed).bind fun rest => .ret (match out with
      | .ok _ => (rest.1 + 1, rest.2)
      | .error e => (rest.1, e :: rest.2))

/-- `purgeDLQEntries`: how many were purged. -/
def purgeDLQEntries (streams : Handles) (failed : List (FailedTask T)) : QueueProg ℕ :=
  if failed.length = 0 then .ret 0
  else
    (loadStreamOrNil streams kind.dlq).bind fun dlq =>
    (loadStreamOrNil dlq.2 kind.source).bind fun source =>
    if dlq.1 = false ∨ source.1 = false then .ret 0
    else (purgeEntries Z kind failed).bind fun out => match out.2 with
      | [] => .ret out.1
      | e :: _ => .err (.wrap "discarded %d of %d dead-letter queue entries, the rest could not be removed: %w"
          [numberText out.1, numberText failed.length] e)

end Listing

def walTasks (Z : QueueDeps) : TaskKind WALTask := ⟨.wal, .dlqWal, WALTask.clusterName, Z.unmarshalWALTask⟩

def backupTasks (Z : QueueDeps) : TaskKind BackupTask := ⟨.backup, .dlqBackup, BackupTask.clusterName, Z.unmarshalBackupTask⟩

def listFailedWALTasks (Z : QueueDeps) (fuel : ℕ) (cfg : OptionConfig) (streams : Handles) :
    QueueProg (List (FailedTask WALTask) × Handles) :=
  if cfg.wals ≠ [] ∧ cfg.cluster = [] then .err errWALFilterRequiresCluster
  else (listFailed Z (walTasks Z) fuel cfg streams).bind fun out =>
    .ret (if cfg.wals = [] then out.1 else out.1.filter fun t => t.task.walName ∈ cfg.wals, out.2)

def listFailedBackupTasks (Z : QueueDeps) (fuel : ℕ) (cfg : OptionConfig) (streams : Handles) :
    QueueProg (List (FailedTask BackupTask) × Handles) :=
  if cfg.wals ≠ [] then .err errWALFilterUnsupported
  else listFailed Z (backupTasks Z) fuel cfg streams

/-- `DiscardFailedWALTasks`, by a manager with these handles. -/
def discardFailedWALTasks (Z : QueueDeps) (fuel : ℕ) (cfg : OptionConfig) (streams : Handles) : QueueProg ℕ :=
  ((listFailedWALTasks Z fuel cfg streams).mapErr (.wrap "while listing failed WAL tasks: %w" [])).bind fun out =>
  purgeDLQEntries Z (walTasks Z) out.2 out.1

def discardFailedBackupTasks (Z : QueueDeps) (fuel : ℕ) (cfg : OptionConfig) (streams : Handles) : QueueProg ℕ :=
  ((listFailedBackupTasks Z fuel cfg streams).mapErr (.wrap "while listing failed backup tasks: %w" [])).bind fun out =>
  purgeDLQEntries Z (backupTasks Z) out.2 out.1

def purgeWALDLQEntries (Z : QueueDeps) (fuel : ℕ) (clusterName walName : Name) (streams : Handles) : QueueProg Unit :=
  (discardFailedWALTasks Z fuel { cluster := clusterName, wals := [walName] } streams).bind fun _ => .ret ()

def purgeBackupDLQEntries (Z : QueueDeps) (fuel : ℕ) (clusterName : Name) (streams : Handles) : QueueProg Unit :=
  (discardFailedBackupTasks Z fuel { cluster := clusterName } streams).bind fun _ => .ret ()

/-! ## Retries -/

def notifyMessage (subject data origin : Name) : QueueProg Unit :=
  .call (.publish ⟨subject, data, origin⟩) fun (r : Except NatsErr Unit) => match r with
    | .ok _ => .ret ()
    | .error e => .err (.wrap "while pushing message to the queue: %w" [] (natsError e))

def notifyBackupReceived (Z : QueueDeps) (task : BackupTask) : QueueProg Unit :=
  notifyMessage (backupSubject task.clusterName) (Z.marshalBackupTask task) []

def mergePolicyField {T : Type} [DecidableEq T] (current : Option T) (conflict : Bool) (candidate : Option T) : Option T × Bool :=
  if conflict = true ∨ candidate = none then (current, conflict)
  else if current = none then (candidate, false)
  else if current ≠ candidate then (none, true)
  else (current, false)

/-- `mergeBackupTasks`, of one task or more. -/
def mergeBackupTasks (tasks : List BackupTask) : BackupTask :=
  (tasks.foldl (fun (merged : BackupTask × Bool) task =>
    let policy := mergePolicyField merged.1.tier2CompressionPolicy merged.2 task.tier2CompressionPolicy
    (⟨merged.1.clusterName, merged.1.sendToTier2 || task.sendToTier2, policy.1⟩, policy.2))
    (⟨(tasks.head?.map BackupTask.clusterName).getD [], false, none⟩, false)).1

def enqueueClusters (Z : QueueDeps) (tasks : List (FailedTask BackupTask)) : List Name → QueueProg Unit
  | [] => .ret ()
  | clusterName :: clusters =>
    ((notifyMessage (backupSubject clusterName)
        (Z.marshalBackupTask (mergeBackupTasks
          ((tasks.map FailedTask.task).filter fun t => t.clusterName = clusterName))) taskOriginDLQRetry).mapErr
      (.wrap "while retrying failed backup task for cluster %s: %w" [clusterName])).bind fun _ =>
    enqueueClusters Z tasks clusters

/-- `enqueueBackupTasks`: the clusters in the order of their first task. -/
def enqueueBackupTasks (Z : QueueDeps) (tasks : List (FailedTask BackupTask)) : QueueProg Unit :=
  enqueueClusters Z tasks (tasks.foldl (fun clusters t =>
    if t.task.clusterName ∈ clusters then clusters else clusters ++ [t.task.clusterName]) [])

def retryFailedBackupTasks (Z : QueueDeps) (fuel : ℕ) (cfg : OptionConfig) (streams : Handles) : QueueProg Unit :=
  ((listFailedBackupTasks Z fuel cfg streams).mapErr (.wrap "while listing failed backup tasks: %w" [])).bind fun out =>
  enqueueBackupTasks Z out.1

/-- `enqueueWALTasks`, each task once; these have been attempted. -/
def enqueueWALTasks (Z : QueueDeps) (attempted : List WALTask) : List (FailedTask WALTask) → QueueProg Unit
  | [] => .ret ()
  | t :: tasks =>
    if t.task ∈ attempted then enqueueWALTasks Z attempted tasks
    else ((notifyMessage (walSubject t.task.clusterName) (Z.marshalWALTask t.task) taskOriginDLQRetry).mapErr
        (.wrap "while retrying failed WAL task for cluster %s, wal %s: %w" [t.task.clusterName, t.task.walName])).bind fun _ =>
      enqueueWALTasks Z (t.task :: attempted) tasks

def retryFailedWALTasks (Z : QueueDeps) (fuel : ℕ) (cfg : OptionConfig) (streams : Handles) : QueueProg Unit :=
  ((listFailedWALTasks Z fuel cfg streams).mapErr (.wrap "while listing failed WAL tasks: %w" [])).bind fun out =>
  enqueueWALTasks Z [] out.1

/-! ## Deliveries -/

/-- What a consumer asks of the repositories and of the broker. -/
inductive ServerOp where
  | repo (o : RepoOp)
  | queue (o : StreamOp StreamName QueueMsg)

/-- What it is answered. -/
def ServerOp.Res : ServerOp → Type
  | .repo o => o.Res
  | .queue o => o.Res

/-- A program of a consumer. -/
abbrev ServerProg (α : Type) := Prog ServerOp ServerOp.Res Err α

/-- A program on the repositories. -/
def onRepo {α : Type} : RepoProg α → ServerProg α
  | .ret a => .ret a
  | .err e => .err e
  | .call o k => .call (.repo o) fun r => onRepo (k r)

/-- A program on the broker. -/
def onQueue {α : Type} : QueueProg α → ServerProg α
  | .ret a => .ret a
  | .err e => .err e
  | .call o k => .call (.queue o) fun r => onQueue (k r)

/-- Acknowledge or terminate a message: it leaves its stream. A failure is logged. -/
def settleMessage (name : StreamName) (seq : ℕ) : QueueProg Unit :=
  .call (.delete name seq) fun _ => .ret ()

/-- What `ConsumeBackupReceivedMessages` does with a message. Without an acknowledgement it is delivered again. -/
def handleBackupMessage (V : RelayDeps) (Z : QueueDeps) (tier2Enabled : Bool) (fuel : ℕ) (streams : Handles)
    (m : Stored QueueMsg) : ServerProg Unit :=
  match Z.unmarshalBackupTask m.msg.data with
  | none => onQueue (settleMessage .backup m.seq)
  | some task =>
    (onRepo (processBackup V tier2Enabled task)).bind fun _ =>
    (onQueue (purgeBackupDLQEntries Z fuel task.clusterName streams)).attempt.bind fun _ =>
    onQueue (settleMessage .backup m.seq)

/-- The delivery of the message with this number, if it is still there. -/
def deliverBackup (V : RelayDeps) (Z : QueueDeps) (tier2Enabled : Bool) (fuel : ℕ) (streams : Handles) (seq : ℕ) :
    ServerProg Unit :=
  .call (.queue (.read .backup seq)) fun (r : Except NatsErr (Option (Stored QueueMsg))) => match r with
    | .ok (some m) => handleBackupMessage V Z tier2Enabled fuel streams m
    | _ => .ret ()

/-! ## The migration of the old stream -/

structure LegacyMessage where
  subject : Name
  data : Name
  deriving DecidableEq

def translateLegacySubject (subject : Name) : Option Name :=
  match splitDots subject with
  | [root, cluster, kind] =>
    if root ≠ "klio".toList then none
    else if kind = "wal".toList then some (walSubject cluster)
    else if kind = "backup".toList then some (backupSubject cluster)
    else none
  | _ => none

def readLegacyMessages (numMsgs : ℕ) : QueueProg (List LegacyMessage) :=
  .call (.createConsumer .legacy) fun (r : Except NatsErr Unit) => match r with
    | .error e => .err (.wrap "while creating ephemeral consumer: %w" [] (natsError e))
    | .ok _ => .call (.fetch .legacy numMsgs) fun (r : Except NatsErr (List (Stored QueueMsg))) => match r with
      | .error e => .err (.wrap "while fetching legacy messages: %w" [] (natsError e))
      -- a deadline that has passed is no error, and leaves what has come until then
      | .ok batch => .ret (batch.map fun m => ⟨m.msg.subject, m.msg.data⟩)

def drainLegacyStream : QueueProg (List LegacyMessage) :=
  .call (.load .legacy) fun (r : Except NatsErr Unit) => match r with
    | .error .streamNotFound => .ret []
    | .error e => .err (.wrap "while looking up legacy KLIO stream: %w" [] (natsError e))
    | .ok _ => .call (.count .legacy) fun (r : Except NatsErr ℕ) => match r with
      | .error e => .err (.wrap "while getting legacy KLIO stream info: %w" [] (natsError e))
      | .ok numMsgs =>
        (if 0 < numMsgs then (readLegacyMessages numMsgs).mapErr (.wrap "while reading legacy KLIO stream: %w" [])
          else .ret []).bind fun pending =>
        .call (.deleteStream .legacy) fun (r : Except NatsErr Unit) => match r with
          | .error e => .err (.wrap "while deleting legacy KLIO stream: %w" [] (natsError e))
          | .ok _ => .ret pending

/-- `republishLegacyMessages`. A message with another subject is skipped. -/
def republishLegacyMessages : List LegacyMessage → QueueProg Unit
  | [] => .ret ()
  | msg :: pending => match translateLegacySubject msg.subject with
    | none => republishLegacyMessages pending
    | some newSubject => .call (.publish ⟨newSubject, msg.data, []⟩) fun (r : Except NatsErr Unit) => match r with
      | .error e => .err (.wrap "while republishing legacy message from %q to %q: %w" [msg.subject, newSubject] (natsError e))
      | .ok _ => republishLegacyMessages pending

/-- `configureStreams`, from this stream on. -/
def createStreams : List StreamName → QueueProg Unit
  | [] => .ret ()
  | name :: names => .call (.createStream name) fun (r : Except NatsErr Unit) => match r with
    | .error e => .err (.wrap "while creating or updating JetStream stream %q: %w" [name.text] (natsError e))
    | .ok _ => createStreams names

def configureStreams : QueueProg Unit := createStreams [.wal, .dlqWal, .latestUploadedWal, .backup, .dlqBackup]

def configureConsumers : QueueProg Unit :=
  .call (.createConsumer .wal) fun (r : Except NatsErr Unit) => match r with
    | .error e => .err (.wrap "while creating or updating JetStream WAL consumer: %w" [] (natsError e))
    | .ok _ => .call (.createConsumer .backup) fun (r : Except NatsErr Unit) => match r with
      | .error e => .err (.wrap "while creating or updating JetStream Base consumer: %w" [] (natsError e))
      | .ok _ => .ret ()

/-- `New` -/
def newQueue : QueueProg Unit :=
  drainLegacyStream.bind fun pending =>
  configureStreams.bind fun _ =>
  configureConsumers.bind fun _ => republishLegacyMessages pending

end Klio

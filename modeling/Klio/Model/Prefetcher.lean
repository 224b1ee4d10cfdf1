import Klio.Lib.Threads
import Klio.Model.Download

/-!
# The WAL prefetcher

`cnpgi/prefetcher.go`: WAL files are downloaded into a spool directory, on request or ahead of it, by
a pool of workers, and moved to where PostgreSQL wants them.

Requests and workers share the map of entries, the entries themselves, the pool and the file system.
Each operation below is one step of a goroutine; taking the mutex, giving work to the pool and
waiting for a download may have to wait.

* `PfOp`, `PfState`, `pfSem`: the operations and what they do.
* `request`, `worker`: the goroutines.
* `prefetcher`: all of them, before anything has happened.
-/

namespace Klio

open Lib

/-! ## Names -/

def canHavePartial (walName : Name) : Bool := pathExt walName == []

def isCompleteWALName (name : Name) : Bool := byteLen name == 24

/-- The value of a hexadecimal digit. -/
def hexValue (c : Char) : ℕ :=
  if c.isDigit then c.toNat - '0'.toNat else if 'a' ≤ c then c.toNat - 'a'.toNat + 10 else c.toNat - 'A'.toNat + 10

/-- `strconv.ParseUint(s, 16, 32)`, of at most eight digits. -/
def parseHex (s : Name) : Option ℕ :=
  if s ≠ [] ∧ s.all isHexDigit then some (s.foldl (fun n c => 16 * n + hexValue c) 0) else none

/-- `%08X` -/
def formatHex (n : ℕ) : Name :=
  let digits := (Nat.toDigits 16 n).map Char.toUpper
  List.replicate (8 - digits.length) '0' ++ digits

/-- `nextWALNameLocked`; without a name, its caller stops. -/
def nextWALName (segmentsPerLog : UInt64) (walName : Name) : Option Name :=
  if byteLen walName ≠ 24 then none
  else do
    let timeline ← parseHex (walName.take 8)
    let logNum ← parseHex ((walName.drop 8).take 8)
    let segNum ← parseHex ((walName.drop 16).take 8)
    if segmentsPerLog.toNat ≤ segNum + 1 then
      some (formatHex timeline ++ formatHex (logNum + 1) ++ formatHex 0)
    else some (formatHex timeline ++ formatHex logNum ++ formatHex (segNum + 1))

def maxWALBytesPerLog : UInt64 := 0x100000000

/-! ## Entries -/

/-- The errors of a request. -/
inductive WalErr where
  /-- `errWALNotFound` -/
  | notFound
  /-- `ctx.Err()` -/
  | cancelled
  /-- "opening file %q: %w" -/
  | opening (path : Path) (e : FsErr)
  | downloading (walName : Name) (e : ClientErr)
  /-- "closing file %q: %w" -/
  | closing (path : Path) (e : FsErr)
  | other (e : Err)
  deriving DecidableEq

inductive WalState where
  | downloading
  | ready
  | failed
  deriving DecidableEq

structure WalEntry where
  state : WalState := .downloading
  spoolPath : Path
  err : Option WalErr := none
  /-- Whether the channel `done` is closed. -/
  done : Bool := false
  isPrefetch : Bool
  deriving DecidableEq

def WalEntry.isReadyPrefetch (e : WalEntry) : Bool := e.isPrefetch && decide (e.state = .ready)

structure PrefetcherConfig where
  spoolDir : Path
  prefetchCount : ℕ
  maxConcurrentDownloads : ℕ

def newWALPrefetcher (spoolDir : Path) (prefetchCount maxConcurrentDownloads : ℤ) : PrefetcherConfig where
  spoolDir := spoolDir
  prefetchCount := if prefetchCount ≤ 0 then 2 else prefetchCount.toNat
  maxConcurrentDownloads := if maxConcurrentDownloads ≤ 0 then 4 else maxConcurrentDownloads.toNat

/-- `filepath.Join(p.spoolDir, walName)`, of a name without slashes. -/
def PrefetcherConfig.spoolPath (cfg : PrefetcherConfig) (walName : Name) : Path := cfg.spoolDir ++ [walName]

/-! ## Operations -/

/-- A goroutine: a call of `Request`, or the worker that downloads an entry. -/
inductive Goroutine where
  | request (i : ℕ)
  | worker (e : ℕ)
  deriving DecidableEq

/-- What a goroutine does in one step. -/
inductive PfOp where
  | lock
  | unlock
  /-- `p.entries[walName]` -/
  | entryOf (walName : Name)
  /-- The fields of an entry, as they are now. -/
  | readEntry (e : ℕ)
  /-- `delete(p.entries, walName)` -/
  | deleteEntry (walName : Name)
  | newEntry (walName : Name) (isPrefetch : Bool)
  /-- `p.downloadPool.Go` -/
  | go (e : ℕ) (walName : Name)
  /-- Wait until the download has ended, or the context is done. -/
  | await (e : ℕ)
  /-- `entry.err`, once the download has ended. -/
  | entryErr (e : ℕ)
  | setErr (e : ℕ) (err : WalErr)
  | setState (e : ℕ) (state : WalState)
  /-- `close(entry.done)` -/
  | closeDone (e : ℕ)
  | segmentSize
  | segmentsPerLog
  /-- The assignments of `learnSegmentSize`. -/
  | learn (size : UInt64)
  | file (o : FsOp Name UInt8 Empty)
  /-- The call that `GetWALStreaming` makes. -/
  | get (walName : Name)
  /-- A worker of the pool takes the download of an entry. -/
  | job (e : ℕ)
  /-- The worker is free again. -/
  | finish

/-- What an operation answers. -/
def PfOp.Res : PfOp → Type
  | .entryOf _ => Option ℕ
  | .readEntry _ => WalEntry
  | .newEntry _ _ => ℕ
  | .await _ => Bool
  | .entryErr _ => Option WalErr
  | .segmentSize | .segmentsPerLog => UInt64
  | .file o => o.Res
  | .get _ => GetCall
  | .job _ => Name
  | _ => Unit

/-- A program of a goroutine. -/
abbrev PfProg (α : Type) := Prog PfOp PfOp.Res WalErr α

/-- `walPrefetcher`, with its pool and the file system. `jobs` is what the pool was given, `busy` how
many of its workers are at work. -/
structure PfState where
  mu : Option Goroutine := none
  entries : Name → Option ℕ := fun _ => none
  cells : ℕ → WalEntry := fun _ => { spoolPath := [], isPrefetch := false }
  allocated : ℕ := 0
  jobs : ℕ → Option Name := fun _ => none
  busy : ℕ := 0
  segmentSize : UInt64 := 0
  segmentsPerLog : UInt64 := 0
  fs : Fs Name UInt8

/-- **What the client may see of a call** for a file of which the server holds these bytes, or which it
does not have: only then is the answer that it was not found. -/
def Serves : Option (List UInt8) → GetCall → Prop
  | some content, .opened results none => results.flatMap GetResult.walBlock = content
  | some _, .opened _ (some e) => e.isNotFound = false
  | some _, .refused e => e.isNotFound = false
  | none, .opened results last => results = [] ∧ last ≠ none
  | none, .refused _ => True

instance : ∀ (held : Option (List UInt8)) (call : GetCall), Decidable (Serves held call)
  | some _, .opened _ none => inferInstanceAs (Decidable (_ = _))
  | some _, .opened _ (some _) => inferInstanceAs (Decidable (_ = _))
  | some _, .refused _ => inferInstanceAs (Decidable (_ = _))
  | none, .opened _ _ => inferInstanceAs (Decidable (_ ∧ _))
  | none, .refused _ => inferInstanceAs (Decidable True)

/-- What a step leaves open. -/
inductive PfChoice where
  | none
  /-- A file operation fails. -/
  | fault (k : ℕ)
  /-- The context is done. -/
  | cancel
  | reply (call : GetCall)

/-- The fault of a file operation. -/
def PfChoice.toFault : PfChoice → Option ℕ
  | .fault k => some k
  | _ => Option.none

namespace PfState

def setCell (s : PfState) (e : ℕ) (f : WalEntry → WalEntry) : PfState :=
  { s with cells := Function.update s.cells e (f (s.cells e)) }

/-- **What an operation answers and does**, or nothing as long as it has to wait. -/
def exec (cfg : PrefetcherConfig) (held : Name → Option (List UInt8)) (i : Goroutine) :
    (o : PfOp) → PfChoice → PfState → Option (o.Res × PfState)
  | .lock, _, s => if s.mu = none then some ((), { s with mu := some i }) else none
  | .unlock, _, s => some ((), { s with mu := none })
  | .entryOf walName, _, s => some (s.entries walName, s)
  | .readEntry e, _, s => some (s.cells e, s)
  | .deleteEntry walName, _, s => some ((), { s with entries := Function.update s.entries walName none })
  | .newEntry walName isPrefetch, _, s =>
    some (s.allocated,
      { s with
        entries := Function.update s.entries walName (some s.allocated)
        cells := Function.update s.cells s.allocated { spoolPath := cfg.spoolPath walName, isPrefetch := isPrefetch }
        allocated := s.allocated + 1 })
  | .go e walName, _, s =>
    if s.busy < cfg.maxConcurrentDownloads then
      some ((), { s with jobs := Function.update s.jobs e (some walName), busy := s.busy + 1 })
    else none
  | .await e, c, s => match c with
    | .cancel => some (false, s)
    | _ => if (s.cells e).done then some (true, s) else none
  | .entryErr e, _, s => some ((s.cells e).err, s)
  | .setErr e err, _, s => some ((), s.setCell e fun x => { x with err := some err })
  | .setState e state, _, s => some ((), s.setCell e fun x => { x with state := state })
  | .closeDone e, _, s => some ((), s.setCell e fun x => { x with done := true })
  | .segmentSize, _, s => some (s.segmentSize, s)
  | .segmentsPerLog, _, s => some (s.segmentsPerLog, s)
  | .learn size, _, s =>
    some ((), if s.segmentSize = 0 then { s with segmentSize := size, segmentsPerLog := maxWALBytesPerLog / size } else s)
  | .file o, c, s => some ((Fs.exec o c.toFault s.fs).1, { s with fs := (Fs.exec o c.toFault s.fs).2 })
  | .get walName, c, s => match c with
    | .reply call => if Serves (held walName) call then some (call, s) else none
    | _ => none
  | .job e, _, s => match s.jobs e with
    | some walName => some (walName, s)
    | none => none
  | .finish, _, s => some ((), { s with busy := s.busy - 1 })

end PfState

def pfSem (cfg : PrefetcherConfig) (held : Name → Option (List UInt8)) : WaitSem Goroutine PfOp PfOp.Res PfState PfChoice where
  exec := PfState.exec cfg held

/-! ## Downloads -/

/-- Issue an operation that answers nothing. -/
def PfOp.run (o : PfOp) (h : o.Res = Unit) : PfProg Unit := .call o fun r => .ret (cast h r)

def fileWrite (fd : ℕ) (text : String) (bs : List UInt8) : Prog PfOp PfOp.Res ClientErr Unit :=
  .call (.file (.write fd bs)) fun (r : Except FsErr Unit) => match r with
    | .ok _ => .ret ()
    | .error e => .err (.other (.wrap text [] (.fs e)))

/-- `downloadWALToFile`. What is left of a failed download is removed, if that works. -/
def downloadWALToFile (walName : Name) (destPath : Path) : PfProg Unit :=
  .call (.file (.openTrunc destPath)) fun (r : Except FsErr ℕ) => match r with
  | .error e => .err (.opening destPath e)
  | .ok output =>
    .call (.get walName) fun (call : GetCall) =>
    (getWALStreaming (fileWrite output) walName call).outcome.bind fun res =>
    .call (.file (.close output)) fun (closeErr : Except FsErr Unit) => match res, closeErr with
    | .error e, _ => .call (.file (.remove destPath)) fun _ =>
      if e = .missingWALFile then .err .notFound else .err (.downloading walName e)
    | .ok _, .error e => .call (.file (.remove destPath)) fun _ => .err (.closing destPath e)
    | .ok _, .ok _ => .ret ()

/-- `learnSegmentSize`; the size of a file is the length of its content. -/
def learnSegmentSize (spoolPath : Path) : PfProg Unit :=
  .call (.file (.readFile spoolPath)) fun (r : Except FsErr (List UInt8)) => match r with
  | .error _ => .ret ()
  | .ok content =>
    if content.length = 0 then .ret ()
    else
      (PfOp.run .lock rfl).bind fun _ =>
      (PfOp.run (.learn (UInt64.ofNat content.length)) rfl).bind fun _ =>
      PfOp.run .unlock rfl

def downloadToSpool (cfg : PrefetcherConfig) (walName : Name) (e : ℕ) : PfProg Unit :=
  (downloadWALToFile walName (cfg.spoolPath walName)).outcome.bind fun res =>
  (match res with
    | .error err => (PfOp.run (.setErr e err) rfl).bind fun _ => PfOp.run (.setState e .failed) rfl
    | .ok _ =>
      (if isCompleteWALName walName then learnSegmentSize (cfg.spoolPath walName) else .ret ()).bind fun _ =>
      PfOp.run (.setState e .ready) rfl).bind fun _ =>
  PfOp.run (.closeDone e) rfl

/-- The worker that downloads an entry, once it was given to the pool. -/
def worker (cfg : PrefetcherConfig) (e : ℕ) : PfProg Unit :=
  .call (.job e) fun (walName : Name) => (downloadToSpool cfg walName e).bind fun _ => PfOp.run .finish rfl

/-- `startDirectDownloadLocked` and `startPrefetchDownloadLocked` -/
def startDownloadLocked (walName : Name) (isPrefetch : Bool) : PfProg ℕ :=
  .call (.newEntry walName isPrefetch) fun (e : ℕ) => (PfOp.run (.go e walName) rfl).bind fun _ => .ret e

def startDirectDownloadLocked (walName : Name) : PfProg ℕ := startDownloadLocked walName false

def startPrefetchDownloadLocked (walName : Name) : PfProg ℕ := startDownloadLocked walName true

/-! ## Requests -/

def cleanupEntry (walName : Name) : PfProg Unit :=
  (PfOp.run .lock rfl).bind fun _ => (PfOp.run (.deleteEntry walName) rfl).bind fun _ => PfOp.run .unlock rfl

def usableEntry (walName : Name) : PfProg (Option ℕ) :=
  .call (.entryOf walName) fun (entry : Option ℕ) => match entry with
  | none => .ret none
  | some e => .call (.readEntry e) fun (x : WalEntry) =>
    if x.state = .failed then (PfOp.run (.deleteEntry walName) rfl).bind fun _ => .ret none else .ret (some e)

/-- The critical section of `getCompleteWAL`: an entry, and whether it is a hit. -/
def takeEntry (walName : Name) : PfProg (ℕ × Bool) :=
  (PfOp.run .lock rfl).bind fun _ =>
  (usableEntry walName).bind fun entry =>
  (match entry with
    | some e => .call (.readEntry e) fun (x : WalEntry) => .ret (e, x.isReadyPrefetch)
    | none => (startDirectDownloadLocked walName).bind fun e => .ret (e, false) : PfProg (ℕ × Bool)).bind fun taken =>
  (PfOp.run .unlock rfl).bind fun _ => .ret taken

def getCompleteWAL (cfg : PrefetcherConfig) (walName : Name) (targetPath : Path) : PfProg Bool :=
  (takeEntry walName).bind fun (e, prefetchHit) =>
  .call (.await e) fun (done : Bool) =>
  if !done then .err .cancelled
  else .call (.entryErr e) fun (err : Option WalErr) => match err with
  | some err => .err err
  | none => .call (.file (.rename (cfg.spoolPath walName) targetPath)) fun (r : Except FsErr Unit) => match r with
    | .ok _ => (cleanupEntry walName).bind fun _ => .ret prefetchHit
    | .error _ =>
      -- the state of the spool is uncertain: download to the target instead
      (cleanupEntry walName).bind fun _ =>
      .call (.file (.remove (cfg.spoolPath walName))) fun _ =>
      (downloadWALToFile walName targetPath).bind fun _ => .ret false

def getPartialWAL (walName : Name) (targetPath : Path) : PfProg Unit :=
  downloadWALToFile (walName ++ partialSuffix) targetPath

/-- The loop of `triggerPrefetch`. -/
def prefetchNext (segmentsPerLog : UInt64) : ℕ → Name → PfProg Unit
  | 0, _ => .ret ()
  | n + 1, walName => match nextWALName segmentsPerLog walName with
    | none => .ret ()
    | some walName => .call (.entryOf walName) fun (entry : Option ℕ) => match entry with
      | some _ => prefetchNext segmentsPerLog n walName
      | none => (startPrefetchDownloadLocked walName).bind fun _ => prefetchNext segmentsPerLog n walName

def triggerPrefetch (cfg : PrefetcherConfig) (currentWAL : Name) : PfProg Unit :=
  (PfOp.run .lock rfl).bind fun _ =>
  .call .segmentsPerLog fun (segmentsPerLog : UInt64) =>
  (if segmentsPerLog = 0 then .ret () else prefetchNext segmentsPerLog cfg.prefetchCount currentWAL).bind fun _ =>
  PfOp.run .unlock rfl

/-- What `Request` does after a complete file was served. -/
def afterServed (cfg : PrefetcherConfig) (walName : Name) : PfProg Unit :=
  (PfOp.run .lock rfl).bind fun _ =>
  .call .segmentSize fun (segmentSize : UInt64) =>
  (PfOp.run .unlock rfl).bind fun _ =>
  if 0 < segmentSize then triggerPrefetch cfg walName else .ret ()

/-- `Request`, over what it calls: a partial file is asked for when the complete one was not found. -/
def requestWith {O : Type} {R : O → Type} (getComplete : Prog O R WalErr Bool) (served : Prog O R WalErr Unit)
    (getPartial : Prog O R WalErr Unit) (walName : Name) : Prog O R WalErr Bool :=
  getComplete.attempt.bind fun
    | .ok cacheHit => served.bind fun _ => .ret cacheHit
    | .error e =>
      if e ≠ .notFound then .err e
      else if !canHavePartial walName then .err e
      else getPartial.bind fun _ => .ret false

def request (cfg : PrefetcherConfig) (walName : Name) (targetPath : Path) : PfProg Bool :=
  requestWith (getCompleteWAL cfg walName targetPath) (afterServed cfg walName) (getPartialWAL walName targetPath) walName

structure Wanted where
  walName : Name
  targetPath : Path

/-- **A prefetcher** with its requests and workers. -/
def prefetcher (cfg : PrefetcherConfig) (wanted : ℕ → Wanted) (fs : Fs Name UInt8) : Sys Goroutine PfOp PfOp.Res WalErr PfState :=
  .init { fs := fs } fun
    | .request i => (request cfg (wanted i).walName (wanted i).targetPath).bind fun _ => .ret ()
    | .worker e => worker cfg e

end Klio

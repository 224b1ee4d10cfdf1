import Klio.Model.Prefetcher

/-!
# How the goroutines of a prefetcher proceed

A request and a worker each go through phases: where they are in a section under the mutex, how far
they are with their file, and with the entry they have taken or were given.

* `PfPhase`, `pfNext`: the phases, and how answers lead on.
* `requestAllowed`, `workerAllowed`: what is done in a phase.
* `getWALStreaming_writes`, `downloadWALToFile_sat`: downloads, to whichever file.
* `request_sat`, `worker_sat`: the goroutines proceed so.
-/

namespace Klio

open Lib
open Prog (sat_attempt sat_bind sat_call sat_err sat_mono sat_outcome sat_ret)

/-! ## Phases -/

/-- Where a goroutine is under the mutex, and what it knows of the map. -/
inductive Sect where
  | out
  | inside
  | found (walName : Name) (e : ℕ)
  /-- The entry has failed. -/
  | stale (walName : Name) (e : ℕ)
  | absent (walName : Name)
  /-- A new entry, not yet given to the pool. -/
  | created (walName : Name) (e : ℕ)
  deriving DecidableEq

/-- How far a request is with its entry, or a worker with its download. -/
inductive Stage where
  | start
  | holds (e : ℕ)
  /-- The download has ended. -/
  | settled (e : ℕ)
  /-- It has succeeded. -/
  | ready (e : ℕ)
  | moved (e : ℕ)
  /-- The file could not be moved. -/
  | stuck (e : ℕ)
  | clean (e : ℕ)
  /-- A download to the target itself. -/
  | direct
  | served
  | gone (notFound : Bool)
  | fetching (walName : Name)
  | erred (walName : Name)
  | ended
  deriving DecidableEq

/-- The call says that there is no such file. -/
def GetCall.isNotFound : GetCall → Bool
  | .refused e => e.isNotFound
  | .opened _ (some e) => e.isNotFound
  | .opened _ none => false

/-- What a call brings that ends without an error. -/
def GetCall.content : GetCall → Option (List UInt8)
  | .opened results none => some (results.flatMap GetResult.walBlock)
  | _ => none

/-- How far a download is. -/
inductive FilePh where
  | idle
  | opened (fd : ℕ)
  | streaming (walName : Name) (fd : ℕ) (written : List UInt8) (call : GetCall)
  /-- A write has failed. -/
  | torn (walName : Name) (call : GetCall)
  /-- Closed; `whole` if all that the call brings was written. -/
  | shut (walName : Name) (call : GetCall) (whole : Bool)

/-- The call of a download said that there is no such file. -/
def FilePh.isNotFound : FilePh → Bool
  | .shut _ call _ => call.isNotFound
  | _ => false

/-- A download of `x` has ended without an error: the file is whole, unless the name is that of a partial
one. -/
def FilePh.Done (x : Name) (ph : FilePh) : Prop :=
  ∃ call whole, ph = .shut x call whole ∧ (hasSuffix x partialSuffix = false → whole = true)

/-- **The phase of a goroutine.** -/
structure PfPhase where
  sect : Sect := .out
  stage : Stage := .start
  file : FilePh := .idle

namespace PfPhase

def removed (ph : PfPhase) : PfPhase := match ph.stage with
  | .clean _ => { ph with stage := .direct }
  | .direct => { ph with stage := .gone ph.file.isNotFound, file := .idle }
  | .gone _ => { ph with stage := .gone false, file := .idle }
  | _ => match ph.file with
    | .shut walName call _ => { ph with file := .shut walName call false }
    | _ => ph

/-- The mutex is given back; a request has its entry then. -/
def unlocked (ph : PfPhase) : PfPhase := match ph.stage, ph.sect with
  | .start, .found _ e | .start, .stale _ e => { ph with sect := .out, stage := .holds e }
  | _, _ => { ph with sect := .out }

/-- The entry is out of the map. -/
def deleted (ph : PfPhase) (walName : Name) : PfPhase := match ph.stage with
  | .moved _ => { ph with sect := .absent walName, stage := .served }
  | .stuck e => { ph with sect := .absent walName, stage := .clean e }
  | _ => { ph with sect := .absent walName }

end PfPhase

/-- The phase of a file after an answer. -/
def fileNext (ph : FilePh) : (o : FsOp Name UInt8 Empty) → o.Res → FilePh
  | .openTrunc _, r => match (r : Except FsErr ℕ) with
    | .ok fd => .opened fd
    | .error _ => ph
  | .write _ bs, r => match (r : Except FsErr Unit), ph with
    | .ok _, .streaming walName fd w call => .streaming walName fd (w ++ bs) call
    | .error _, .streaming walName _ _ call => .torn walName call
    | _, ph => ph
  | .close _, r => match (r : Except FsErr Unit), ph with
    | .ok _, .streaming walName _ w call => .shut walName call (decide (call.content = some w))
    | .error _, .streaming walName _ _ call => .shut walName call false
    | _, .torn walName call => .shut walName call false
    | _, ph => ph
  | _, _ => ph

/-- **The phase after an answer.** -/
def pfNext (ph : PfPhase) : (o : PfOp) → o.Res → PfPhase
  | .lock, _ => { ph with sect := .inside }
  | .unlock, _ => ph.unlocked
  | .entryOf walName, r => { ph with sect := match (r : Option ℕ) with
      | some e => .found walName e
      | none => .absent walName }
  | .readEntry e, r => match ph.sect with
    | .found walName _ => if (r : WalEntry).state = .failed then { ph with sect := .stale walName e } else ph
    | _ => ph
  | .deleteEntry walName, _ => ph.deleted walName
  | .newEntry walName _, r => { ph with sect := .created walName (r : ℕ) }
  | .go e walName, _ => { ph with sect := .found walName e }
  | .await e, r => { ph with stage := match (r : Bool) with
      | true => .settled e
      | false => .gone false }
  | .entryErr e, r => { ph with stage := match (r : Option WalErr) with
      | none => .ready e
      | some err => .gone (decide (err = .notFound)) }
  | .setErr _ _, _ => match ph.stage with
    | .fetching walName => { ph with stage := .erred walName }
    | _ => ph
  | .setState _ _, _ => { ph with stage := .ended }
  | .job _, r => { ph with stage := .fetching (r : Name) }
  | .get walName, r => match ph.file with
    | .opened fd => { ph with file := .streaming walName fd [] (r : GetCall) }
    | _ => ph
  | .file (.rename _ _), r => match ph.stage, (r : Except FsErr Unit) with
    | .ready e, .ok _ => { ph with stage := .moved e }
    | .ready e, .error _ => { ph with stage := .stuck e }
    | _, _ => ph
  | .file (.remove _), _ => ph.removed
  | .file o, r => { ph with file := fileNext ph.file o r }
  | _, _ => ph

/-- Writing to and closing a file that is open. -/
def fileAllowed (ph : FilePh) : FsOp Name UInt8 Empty → Prop
  | .write fd _ => ∃ walName w call, ph = .streaming walName fd w call
  | .close _ => (∃ walName fd w call, ph = .streaming walName fd w call) ∨ ∃ walName call, ph = .torn walName call
  | _ => False

/-- What a request for `x` does in a phase. -/
def requestAllowed (cfg : PrefetcherConfig) (x : Name) (target : Path) (ph : PfPhase) : PfOp → Prop
  | .lock => ph.sect = .out
  | .unlock => ph.sect ≠ .out ∧ (ph.stage = .start → ∃ e, ph.sect = .found x e ∨ ph.sect = .stale x e)
  | .entryOf walName => ph.sect ≠ .out ∧ (ph.stage = .start → walName = x)
  | .readEntry e => ∃ walName, ph.sect = .found walName e
  | .deleteEntry walName => (∃ e, ph.sect = .stale walName e ∧ ph.stage = .start) ∨
      (ph.sect = .inside ∧ walName = x ∧ ∃ e, ph.stage = .moved e ∨ ph.stage = .stuck e)
  | .newEntry walName _ => ph.sect = .absent walName ∧ (ph.stage = .start ∨ ph.stage = .served ∨ ph.stage = .direct)
  | .go e walName => ph.sect = .created walName e
  | .await e => ph.sect = .out ∧ ph.stage = .holds e
  | .entryErr e => ph.stage = .settled e
  | .segmentSize | .segmentsPerLog => True
  | .get walName => (∃ fd, ph.file = .opened fd) ∧
      (ph.stage = .direct ∧ walName = x ∨ ph.stage = .gone true ∧ walName = x ++ partialSuffix)
  | .file (.rename p q) => (∃ e, ph.stage = .ready e) ∧ p = cfg.spoolPath x ∧ q = target
  | .file (.openTrunc p) => ph.file = .idle ∧ p = target ∧ (ph.stage = .direct ∨ ph.stage = .gone true)
  | .file (.remove p) => ((∃ e, ph.stage = .clean e) ∧ p = cfg.spoolPath x) ∨
      ((∃ walName call whole, ph.file = .shut walName call whole) ∧ p = target ∧ (ph.stage = .direct ∨ ph.stage = .gone true))
  | .file o => (ph.stage = .direct ∨ ph.stage = .gone true) ∧ fileAllowed ph.file o
  | _ => False

/-- What the worker of the entry `e` does in a phase. -/
def workerAllowed (cfg : PrefetcherConfig) (e : ℕ) (ph : PfPhase) : PfOp → Prop
  | .job e' => e' = e ∧ ph.stage = .start
  | .lock => ph.sect = .out ∧ ∃ walName, ph.stage = .fetching walName
  | .unlock => ph.sect ≠ .out ∧ ∃ walName, ph.stage = .fetching walName
  | .learn _ => True
  | .setErr e' err => e' = e ∧ ∃ walName, ph.stage = .fetching walName ∧
      (err = .notFound → ∃ call whole, ph.file = .shut walName call whole ∧ call.isNotFound = true)
  | .setState e' state => e' = e ∧ ∃ walName, (state = .failed ∧ ph.stage = .erred walName) ∨
      (state = .ready ∧ ph.stage = .fetching walName ∧ ph.file.Done walName)
  | .closeDone e' => e' = e ∧ ph.stage = .ended
  | .finish => ph.stage = .ended
  | .get walName => (∃ fd, ph.file = .opened fd) ∧ ph.stage = .fetching walName
  | .file (.openTrunc p) => ph.file = .idle ∧ ∃ walName, ph.stage = .fetching walName ∧ p = cfg.spoolPath walName
  | .file (.remove p) => (∃ walName call whole, ph.file = .shut walName call whole) ∧
      ∃ walName, ph.stage = .fetching walName ∧ p = cfg.spoolPath walName
  | .file (.readFile _) => True
  | .file o => (∃ walName, ph.stage = .fetching walName) ∧ fileAllowed ph.file o
  | _ => False

/-- **The protocol of a goroutine.** -/
def pfProto (cfg : PrefetcherConfig) (wanted : ℕ → Wanted) : Goroutine → Proto PfOp PfOp.Res PfPhase
  | .request i => ⟨requestAllowed cfg (wanted i).walName (wanted i).targetPath, pfNext⟩
  | .worker e => ⟨workerAllowed cfg e, pfNext⟩

/-- A request for `x` may return in this phase: the file was moved or downloaded to the target, or
there is only a partial one. -/
def requestReturns (x : Name) (ph : PfPhase) : Prop :=
  ph.sect = .out ∧ (ph.stage = .served ∨ (ph.stage = .direct ∧ ph.file.Done x) ∨ ph.stage = .gone true)

def requestFails (ph : PfPhase) : Prop := ph.sect = .out ∧ (ph.stage = .direct ∨ ∃ b, ph.stage = .gone b)

/-! ## Downloads -/

section Streaming

variable {O : Type} {R : O → Type} {Ph : Type} {write : String → List UInt8 → Prog O R ClientErr Unit} {T : Proto O R Ph}
  {W : List UInt8 → Ph} {B : Ph → Prop}

/-- Writing leads from one phase to the next, and does not fail for a missing file. -/
def Writes (write : String → List UInt8 → Prog O R ClientErr Unit) (T : Proto O R Ph) (W : List UInt8 → Ph) (B : Ph → Prop) : Prop :=
  ∀ text bs w, (write text bs).Sat T (fun _ ph => ph = W (w ++ bs)) (fun e ph => B ph ∧ e ≠ .missingWALFile) (W w)

theorem padLoop_writes (hw : Writes write T W B) : ∀ (fuel : ℕ) (n k : ℤ) (w : List UInt8),
    (padLoop write fuel n k).Sat T (fun _ ph => ∃ pad, ph = W (w ++ pad)) (fun e ph => B ph ∧ e ≠ .missingWALFile) (W w) := by
  intro fuel
  induction fuel with
  | zero => intro n k w; exact sat_ret ⟨[], by rw [List.append_nil]⟩
  | succ fuel ih =>
    intro n k w
    unfold padLoop
    split
    · refine sat_bind (hw _ _ w) ?_
      rintro - ph rfl
      refine sat_mono (ih _ _ _) ?_ fun _ _ h => h
      rintro - ph ⟨pad, rfl⟩
      exact ⟨_, congrArg W (List.append_assoc _ _ _)⟩
    · exact sat_ret ⟨[], by rw [List.append_nil]⟩

theorem receiveBlocks_writes (hw : Writes write T W B) (last : Option Err) : ∀ (gs : List GetResult) (size n : ℤ) (w : List UInt8),
    (receiveBlocks write last gs size n).Sat T
      (fun _ ph => last = none ∧ ph = W (w ++ gs.flatMap GetResult.walBlock))
      (fun e ph => ((∃ w, ph = W w) ∨ B ph) ∧ (e = .missingWALFile → ∃ e', last = some e' ∧ e'.isNotFound = true)) (W w) := by
  intro gs
  induction gs with
  | nil =>
    intro size n w
    unfold receiveBlocks
    rcases last with _ | e
    · exact sat_ret ⟨rfl, by rw [List.flatMap_nil, List.append_nil]⟩
    simp only
    split
    · rename_i hnf
      exact sat_err ⟨.inl ⟨w, rfl⟩, fun _ => ⟨e, rfl, hnf⟩⟩
    split
    · exact sat_err ⟨.inl ⟨w, rfl⟩, nofun⟩
    · exact sat_err ⟨.inl ⟨w, rfl⟩, nofun⟩
  | cons g gs ih =>
    intro size n w
    unfold receiveBlocks
    split
    · exact sat_err ⟨.inl ⟨w, rfl⟩, nofun⟩
    refine sat_bind (sat_mono (hw _ _ w) (fun _ _ h => h) ?_) ?_
    · intro e ph h
      exact ⟨.inr h.1, fun hmissing => absurd hmissing h.2⟩
    · rintro - ph rfl
      rw [List.flatMap_cons, ← List.append_assoc]
      exact ih _ _ _

/-- **Streaming a file**: if it succeeds, all that the call brings was written, and zeros behind it for
a partial file only. -/
theorem getWALStreaming_writes (hw : Writes write T W B) (x : Name) (call : GetCall) :
    (getWALStreaming write x call).Sat T
      (fun _ ph => ∃ content pad, call.content = some content ∧ ph = W (content ++ pad) ∧
        (hasSuffix x partialSuffix = false → pad = []))
      (fun e ph => ((∃ w, ph = W w) ∨ B ph) ∧ (e = .missingWALFile → call.isNotFound = true)) (W []) := by
  cases call with
  | refused e =>
    simp only [getWALStreaming]
    split
    · rename_i hnf
      exact sat_err ⟨.inl ⟨[], rfl⟩, fun _ => hnf⟩
    · exact sat_err ⟨.inl ⟨[], rfl⟩, nofun⟩
  | opened gs last =>
    refine sat_bind (sat_mono (receiveBlocks_writes hw last gs 0 0 []) (fun _ _ h => h) ?_) ?_
    · rintro e ph ⟨hph, hmissing⟩
      refine ⟨hph, fun he => ?_⟩
      obtain ⟨e', rfl, hnf⟩ := hmissing he
      exact hnf
    · rintro ⟨size, n⟩ ph ⟨rfl, rfl⟩
      rw [List.nil_append]
      simp only
      split
      · rename_i hsuffix
        refine sat_mono (padLoop_writes hw _ _ _ _) ?_ ?_
        · rintro - ph ⟨pad, rfl⟩
          refine ⟨_, pad, rfl, rfl, fun hno => ?_⟩
          rw [hno] at hsuffix
          cases hsuffix.1
        · intro e ph h
          exact ⟨.inr h.1, fun hmissing => absurd hmissing h.2⟩
      · exact sat_ret ⟨_, [], rfl, by rw [List.append_nil], fun _ => rfl⟩

end Streaming

/-- The protocol lets a goroutine download `z` to `p` from the phase `ph` on. -/
structure MayDownload (T : Proto PfOp PfOp.Res PfPhase) (ph : PfPhase) (z : Name) (p : Path) : Prop where
  next : T.next = pfNext
  openTrunc : T.allowed ph (.file (.openTrunc p))
  get : ∀ fd, T.allowed { ph with file := .opened fd } (.get z)
  write : ∀ fd w call bs, T.allowed { ph with file := .streaming z fd w call } (.file (.write fd bs))
  close : ∀ fd w call, T.allowed { ph with file := .streaming z fd w call } (.file (.close fd))
  close_torn : ∀ fd call, T.allowed { ph with file := .torn z call } (.file (.close fd))
  remove : ∀ call whole, T.allowed { ph with file := .shut z call whole } (.file (.remove p))

section Download

variable {T : Proto PfOp PfOp.Res PfPhase} {ph : PfPhase} {z : Name} {p : Path}

theorem fileWrite_writes (h : MayDownload T ph z p) (fd : ℕ) (call : GetCall) :
    Writes (fileWrite fd) T (fun w => { ph with file := .streaming z fd w call })
      (fun ph' => ph' = { ph with file := .torn z call }) := by
  intro text bs w
  refine sat_call (h.write fd w call bs) fun (r : Except FsErr Unit) => ?_
  rw [h.next]
  cases r with
  | ok _ => exact sat_ret rfl
  | error e => exact sat_err ⟨rfl, nofun⟩

/-- How a download that fails leaves its phase: nothing was opened, or what was left is removed. -/
def DownloadFails (ph : PfPhase) (z : Name) (err : WalErr) (ph' : PfPhase) : Prop :=
  (ph' = ph ∧ err ≠ .notFound) ∨
    ∃ call whole, ph' = PfPhase.removed { ph with file := .shut z call whole } ∧ (err = .notFound → call.isNotFound = true)

/-- **A download.** If it succeeds, the file is whole; that of a partial file may have zeros behind. -/
theorem downloadWALToFile_sat (h : MayDownload T ph z p) :
    (downloadWALToFile z p).Sat T
      (fun _ ph' => ∃ file, ph' = { ph with file := file } ∧ file.Done z) (DownloadFails ph z) ph := by
  refine sat_call h.openTrunc fun (r : Except FsErr ℕ) => ?_
  rw [h.next]
  rcases r with e | fd
  · exact sat_err (.inl ⟨rfl, nofun⟩)
  refine sat_call (h.get fd) fun (call : GetCall) => ?_
  rw [h.next]
  -- the outcome of streaming decides what is done with the file
  refine sat_bind (Q := fun res ph' => match res with
    | .ok _ => ∃ content pad, call.content = some content ∧ ph' = { ph with file := .streaming z fd (content ++ pad) call } ∧
        (hasSuffix z partialSuffix = false → pad = [])
    | .error e => ((∃ w, ph' = { ph with file := .streaming z fd w call }) ∨ ph' = { ph with file := .torn z call }) ∧
        (e = .missingWALFile → call.isNotFound = true))
    (sat_outcome (getWALStreaming_writes (fileWrite_writes h fd call) z call)) ?_
  intro res ph' hres
  cases res with
  | ok _ =>
    obtain ⟨content, pad, hcontent, rfl, hpad⟩ := hres
    refine sat_call (h.close fd _ call) fun (r : Except FsErr Unit) => ?_
    rw [h.next]
    cases r with
    | ok _ =>
      refine sat_ret ⟨_, rfl, call, _, rfl, fun hno => ?_⟩
      rw [hpad hno, List.append_nil]
      exact decide_eq_true hcontent
    | error e =>
      refine sat_call (h.remove call false) fun _ => ?_
      rw [h.next]
      exact sat_err (.inr ⟨call, false, rfl, nofun⟩)
  | error e =>
    obtain ⟨hph, hmissing⟩ := hres
    have hclose : T.allowed ph' (.file (.close fd)) ∧ ∀ r : Except FsErr Unit,
        ∃ whole, pfNext ph' (.file (.close fd)) r = { ph with file := .shut z call whole } := by
      rcases hph with ⟨w, rfl⟩ | rfl
      · refine ⟨h.close fd w call, fun r => ?_⟩
        cases r with
        | ok _ => exact ⟨_, rfl⟩
        | error e => exact ⟨false, rfl⟩
      · refine ⟨h.close_torn fd call, fun r => ?_⟩
        cases r with
        | ok _ => exact ⟨false, rfl⟩
        | error e => exact ⟨false, rfl⟩
    obtain ⟨hallowed, hnext⟩ := hclose
    refine sat_call hallowed fun (r : Except FsErr Unit) => ?_
    obtain ⟨whole, hwhole⟩ := hnext r
    rw [h.next, hwhole]
    refine sat_call (h.remove call whole) fun _ => ?_
    rw [h.next]
    split
    · rename_i he
      exact sat_err (.inr ⟨call, whole, rfl, fun _ => hmissing he⟩)
    · exact sat_err (.inr ⟨call, whole, rfl, nofun⟩)

end Download

/-! ## The goroutines -/

variable {X : WalErr → PfPhase → Prop}

theorem sat_run {T : Proto PfOp PfOp.Res PfPhase} {Q : Unit → PfPhase → Prop} {o : PfOp}
    {h : o.Res = Unit} {ph : PfPhase} (ha : T.allowed ph o) (hq : ∀ r, Q () (T.next ph o r)) : (PfOp.run o h).Sat T Q X ph :=
  ⟨ha, hq⟩

theorem sat_run_bind {α : Type} {T : Proto PfOp PfOp.Res PfPhase} {Q : α → PfPhase → Prop} {o : PfOp}
    {h : o.Res = Unit} {k : Unit → PfProg α} {ph : PfPhase} (ha : T.allowed ph o) (hk : ∀ r, (k ()).Sat T Q X (T.next ph o r)) :
    ((PfOp.run o h).bind k).Sat T Q X ph :=
  ⟨ha, hk⟩

section Worker

variable {cfg : PrefetcherConfig} {e : ℕ}

theorem mayDownload_worker (y : Name) :
    MayDownload ⟨workerAllowed cfg e, pfNext⟩ { stage := .fetching y } y (cfg.spoolPath y) where
  next := rfl
  openTrunc := ⟨rfl, y, rfl, rfl⟩
  get fd := ⟨⟨fd, rfl⟩, rfl⟩
  write _ w call _ := ⟨⟨y, rfl⟩, y, w, call, rfl⟩
  close fd w call := ⟨⟨y, rfl⟩, .inl ⟨y, fd, w, call, rfl⟩⟩
  close_torn _ call := ⟨⟨y, rfl⟩, .inr ⟨y, call, rfl⟩⟩
  remove call whole := ⟨⟨y, call, whole, rfl⟩, y, rfl, rfl⟩

theorem learnSegmentSize_sat (y : Name) (p : Path) (file : FilePh) :
    (learnSegmentSize p).Sat ⟨workerAllowed cfg e, pfNext⟩ (fun _ ph => ph = { stage := .fetching y, file := file }) X
      { stage := .fetching y, file := file } := by
  refine sat_call trivial fun (r : Except FsErr (List UInt8)) => ?_
  rcases r with err | content
  · exact sat_ret rfl
  simp only
  split
  · exact sat_ret rfl
  refine sat_run_bind ⟨rfl, y, rfl⟩ fun _ => sat_run_bind trivial fun _ => ?_
  exact sat_run ⟨nofun, y, rfl⟩ fun _ => rfl

theorem downloadToSpool_sat (y : Name) :
    (downloadToSpool cfg y e).Sat ⟨workerAllowed cfg e, pfNext⟩ (fun _ ph => ph.sect = .out ∧ ph.stage = .ended) X
      { stage := .fetching y } := by
  refine sat_bind (Q := fun res ph => match res with
    | .ok _ => ∃ file, ph = { stage := .fetching y, file := file } ∧ file.Done y
    | .error err => DownloadFails { stage := .fetching y } y err ph)
    (sat_outcome (downloadWALToFile_sat (mayDownload_worker y))) ?_
  intro res ph hres
  -- the channel is closed at the end, in both cases
  refine sat_bind (Q := fun _ ph => ph.sect = .out ∧ ph.stage = .ended) ?_
    fun _ ph hph => sat_run ⟨rfl, hph.2⟩ fun _ => hph
  cases res with
  | error err =>
    have hfetching : ph.sect = .out ∧ ph.stage = .fetching y ∧
        (err = .notFound → ∃ call whole, ph.file = .shut y call whole ∧ call.isNotFound = true) := by
      rcases hres with ⟨rfl, hne⟩ | ⟨call, whole, rfl, hnf⟩
      · exact ⟨rfl, rfl, fun he => absurd he hne⟩
      · exact ⟨rfl, rfl, fun he => ⟨call, false, rfl, hnf he⟩⟩
    obtain ⟨hsect, hstage, hnf⟩ := hfetching
    have hnext : ∀ r, pfNext ph (.setErr e err) r = { ph with stage := .erred y } := by
      intro r
      simp only [pfNext, hstage]
    refine sat_run_bind ⟨rfl, y, hstage, hnf⟩ fun r => sat_run ⟨rfl, y, .inl ⟨rfl, congrArg PfPhase.stage (hnext r)⟩⟩ fun _ => ?_
    exact ⟨(congrArg PfPhase.sect (hnext r)).trans hsect, rfl⟩
  | ok _ =>
    obtain ⟨file, rfl, hdone⟩ := hres
    refine sat_bind (Q := fun _ ph => ph = { stage := .fetching y, file := file }) ?_ ?_
    · split
      · exact learnSegmentSize_sat y _ file
      · exact sat_ret rfl
    · rintro - ph rfl
      exact sat_run ⟨rfl, y, .inr ⟨rfl, rfl, hdone⟩⟩ fun _ => ⟨rfl, rfl⟩

/-- **A worker** proceeds so, and does not fail. -/
theorem worker_sat (cfg : PrefetcherConfig) (e : ℕ) :
    (worker cfg e).Sat ⟨workerAllowed cfg e, pfNext⟩ (fun _ ph => ph.sect = .out ∧ ph.stage = .ended) (fun _ _ => False) {} := by
  refine sat_call ⟨rfl, rfl⟩ fun (y : Name) => ?_
  exact sat_bind (downloadToSpool_sat y) fun _ ph hph => sat_run hph.2 fun _ => hph

end Worker

section Request

variable {cfg : PrefetcherConfig} {x : Name} {target : Path}

theorem mayDownload_direct :
    MayDownload ⟨requestAllowed cfg x target, pfNext⟩ { stage := .direct } x target where
  next := rfl
  openTrunc := ⟨rfl, rfl, .inl rfl⟩
  get fd := ⟨⟨fd, rfl⟩, .inl ⟨rfl, rfl⟩⟩
  write _ w call _ := ⟨.inl rfl, x, w, call, rfl⟩
  close fd w call := ⟨.inl rfl, .inl ⟨x, fd, w, call, rfl⟩⟩
  close_torn _ call := ⟨.inl rfl, .inr ⟨x, call, rfl⟩⟩
  remove call whole := .inr ⟨⟨x, call, whole, rfl⟩, rfl, .inl rfl⟩

theorem mayDownload_padded :
    MayDownload ⟨requestAllowed cfg x target, pfNext⟩ { stage := .gone true } (x ++ partialSuffix) target where
  next := rfl
  openTrunc := ⟨rfl, rfl, .inr rfl⟩
  get fd := ⟨⟨fd, rfl⟩, .inr ⟨rfl, rfl⟩⟩
  write _ w call _ := ⟨.inr rfl, _, w, call, rfl⟩
  close fd w call := ⟨.inr rfl, .inl ⟨_, fd, w, call, rfl⟩⟩
  close_torn _ call := ⟨.inr rfl, .inr ⟨_, call, rfl⟩⟩
  remove call whole := .inr ⟨⟨_, call, whole, rfl⟩, rfl, .inr rfl⟩

variable {X : WalErr → PfPhase → Prop}

theorem usableEntry_sat :
    (usableEntry x).Sat ⟨requestAllowed cfg x target, pfNext⟩
      (fun entry ph => match entry with
        | some e => ph = { sect := .found x e }
        | none => ph = { sect := .absent x }) X { sect := .inside } := by
  refine sat_call ⟨nofun, fun _ => rfl⟩ fun (entry : Option ℕ) => ?_
  rcases entry with _ | e
  · exact sat_ret rfl
  refine sat_call ⟨x, rfl⟩ fun (cell : WalEntry) => ?_
  by_cases hfailed : cell.state = .failed
  · have hnext : pfNext { sect := .found x e } (.readEntry e) cell = { sect := .stale x e } := if_pos hfailed
    rw [if_pos hfailed]
    show Prog.Sat _ _ _ _ (pfNext { sect := .found x e } (.readEntry e) cell)
    rw [hnext]
    exact sat_run_bind (.inl ⟨e, rfl, rfl⟩) fun _ => sat_ret rfl
  · have hnext : pfNext { sect := .found x e } (.readEntry e) cell = { sect := .found x e } := if_neg hfailed
    rw [if_neg hfailed]
    show Prog.Sat _ _ _ _ (pfNext { sect := .found x e } (.readEntry e) cell)
    rw [hnext]
    exact sat_ret rfl

theorem startDownloadLocked_sat {ph : PfPhase} {y : Name} (isPrefetch : Bool) (hsect : ph.sect = .absent y)
    (hstage : ph.stage = .start ∨ ph.stage = .served ∨ ph.stage = .direct) :
    (startDownloadLocked y isPrefetch).Sat ⟨requestAllowed cfg x target, pfNext⟩
      (fun e ph' => ph' = { ph with sect := .found y e }) X ph := by
  refine sat_call ⟨hsect, hstage⟩ fun (e : ℕ) => ?_
  exact sat_run_bind rfl fun _ => sat_ret rfl

theorem takeEntry_sat :
    (takeEntry x).Sat ⟨requestAllowed cfg x target, pfNext⟩ (fun p ph => ph = { stage := .holds p.1 }) X {} := by
  refine sat_run_bind rfl fun _ => sat_bind usableEntry_sat ?_
  intro entry ph hph
  refine sat_bind (Q := fun p ph => ph = { sect := .found x p.1 } ∨ ph = { sect := .stale x p.1 }) ?_ ?_
  · cases entry with
    | some e =>
      obtain rfl : ph = { sect := .found x e } := hph
      refine sat_call ⟨x, rfl⟩ fun (cell : WalEntry) => sat_ret ?_
      by_cases hfailed : cell.state = .failed
      · exact .inr (if_pos hfailed)
      · exact .inl (if_neg hfailed)
    | none =>
      obtain rfl : ph = { sect := .absent x } := hph
      refine sat_bind (startDownloadLocked_sat false rfl (.inl rfl)) ?_
      rintro e ph rfl
      exact sat_ret (.inl rfl)
  · intro p ph hph
    rcases hph with rfl | rfl
    · exact sat_run_bind ⟨nofun, fun _ => ⟨_, .inl rfl⟩⟩ fun _ => sat_ret rfl
    · exact sat_run_bind ⟨nofun, fun _ => ⟨_, .inr rfl⟩⟩ fun _ => sat_ret rfl

theorem cleanupEntry_sat {st st' : Stage}
    (hst : (∃ e, st = .moved e ∧ st' = .served) ∨ ∃ e, st = .stuck e ∧ st' = .clean e) :
    (cleanupEntry x).Sat ⟨requestAllowed cfg x target, pfNext⟩ (fun _ ph => ph = { stage := st' }) X { stage := st } := by
  refine sat_run_bind rfl fun _ => ?_
  rcases hst with ⟨e, rfl, rfl⟩ | ⟨e, rfl, rfl⟩
  · refine sat_run_bind (.inr ⟨rfl, rfl, e, .inl rfl⟩) fun _ => ?_
    exact sat_run ⟨nofun, nofun⟩ fun _ => rfl
  · refine sat_run_bind (.inr ⟨rfl, rfl, e, .inr rfl⟩) fun _ => ?_
    exact sat_run ⟨nofun, nofun⟩ fun _ => rfl

/-- The complete file is at the target. -/
def ServedAt (x : Name) (ph : PfPhase) : Prop :=
  ph.sect = .out ∧ (ph.stage = .served ∨ (ph.stage = .direct ∧ ph.file.Done x))

/-- There is no complete file, or something has failed. -/
def NotServed (err : WalErr) (ph : PfPhase) : Prop :=
  requestFails ph ∧ (err = .notFound → ph = { stage := .gone true })

theorem getCompleteWAL_sat :
    (getCompleteWAL cfg x target).Sat ⟨requestAllowed cfg x target, pfNext⟩ (fun _ => ServedAt x) NotServed {} := by
  refine sat_bind takeEntry_sat ?_
  rintro ⟨e, hit⟩ ph rfl
  refine sat_call ⟨rfl, rfl⟩ fun (done : Bool) => ?_
  rcases done with _ | _
  · exact sat_err ⟨⟨rfl, .inr ⟨false, rfl⟩⟩, nofun⟩
  refine sat_call rfl fun (err : Option WalErr) => ?_
  cases err with
  | some err =>
    refine sat_err ⟨⟨rfl, .inr ⟨_, rfl⟩⟩, ?_⟩
    rintro rfl
    rfl
  | none =>
    refine sat_call ⟨⟨e, rfl⟩, rfl, rfl⟩ fun (r : Except FsErr Unit) => ?_
    cases r with
    | ok _ =>
      refine sat_bind (cleanupEntry_sat (.inl ⟨e, rfl, rfl⟩)) ?_
      rintro - ph rfl
      exact sat_ret ⟨rfl, .inl rfl⟩
    | error _ =>
      refine sat_bind (cleanupEntry_sat (.inr ⟨e, rfl, rfl⟩)) ?_
      rintro - ph rfl
      refine sat_call (.inl ⟨⟨e, rfl⟩, rfl⟩) fun _ => ?_
      refine sat_bind (sat_mono (downloadWALToFile_sat mayDownload_direct) (fun _ _ h => h) ?_) ?_
      · rintro err ph (⟨rfl, hne⟩ | ⟨call, whole, rfl, hnf⟩)
        · exact ⟨⟨rfl, .inl rfl⟩, fun h => absurd h hne⟩
        · refine ⟨⟨rfl, .inr ⟨call.isNotFound, rfl⟩⟩, fun h => ?_⟩
          show ({ stage := .gone call.isNotFound } : PfPhase) = _
          rw [hnf h]
      · rintro - ph ⟨file, rfl, hdone⟩
        exact sat_ret ⟨rfl, .inr ⟨rfl, hdone⟩⟩

theorem prefetchNext_sat (segmentsPerLog : UInt64) : ∀ (n : ℕ) (y : Name) (ph : PfPhase),
    ph.sect ≠ .out → (ph.stage = .served ∨ ph.stage = .direct) →
    (prefetchNext segmentsPerLog n y).Sat ⟨requestAllowed cfg x target, pfNext⟩
      (fun _ ph' => ∃ sect, ph' = { ph with sect := sect } ∧ sect ≠ .out) X ph := by
  intro n
  induction n with
  | zero => intro y ph hsect _; exact sat_ret ⟨ph.sect, rfl, hsect⟩
  | succ n ih =>
    intro y ph hsect hstage
    unfold prefetchNext
    split
    · exact sat_ret ⟨ph.sect, rfl, hsect⟩
    rename_i z _
    have hstart : ph.stage ≠ .start := by
      rcases hstage with h | h
      · rw [h]; exact nofun
      · rw [h]; exact nofun
    refine sat_call ⟨hsect, fun h => absurd h hstart⟩ fun (entry : Option ℕ) => ?_
    cases entry with
    | some e => exact ih z { ph with sect := .found z e } nofun hstage
    | none =>
      refine sat_bind (startDownloadLocked_sat true rfl (.inr hstage)) ?_
      rintro e ph' rfl
      exact ih z { ph with sect := .found z e } nofun hstage

/-- Prefetching leaves a request where it was. -/
theorem afterServed_sat {ph : PfPhase} (hph : ServedAt x ph) :
    (afterServed cfg x).Sat ⟨requestAllowed cfg x target, pfNext⟩ (fun _ ph' => ph' = ph) X ph := by
  obtain ⟨hsect, hserved⟩ := hph
  have hstage : ph.stage = .served ∨ ph.stage = .direct := hserved.imp id And.left
  have hstart : ph.stage ≠ .start := by
    rcases hstage with h | h
    · rw [h]; exact nofun
    · rw [h]; exact nofun
  have hunlock : ∀ sect, PfPhase.unlocked { ph with sect := sect } = ph := by
    intro sect
    unfold PfPhase.unlocked
    split
    · rename_i h _
      exact absurd h hstart
    · rename_i h _
      exact absurd h hstart
    · rw [← hsect]
  refine sat_run_bind hsect fun _ => ?_
  refine sat_call trivial fun (segmentSize : UInt64) => ?_
  refine sat_bind (Q := fun _ ph' => ph' = ph)
    (sat_run ⟨nofun, fun h => absurd h hstart⟩ fun _ => hunlock _) ?_
  rintro - ph' rfl
  split
  · refine sat_run_bind hsect fun _ => ?_
    refine sat_call trivial fun (segmentsPerLog : UInt64) => ?_
    refine sat_bind (Q := fun _ ph'' => ∃ sect, ph'' = { ph' with sect := sect } ∧ sect ≠ .out) ?_ ?_
    · simp only
      split
      · exact sat_ret ⟨.inside, rfl, nofun⟩
      · exact prefetchNext_sat _ _ _ { ph' with sect := .inside } nofun hstage
    · rintro - ph'' ⟨sect, rfl, hne⟩
      exact sat_run ⟨hne, fun h => absurd h hstart⟩ fun _ => hunlock _
  · exact sat_ret rfl

/-- **A request** proceeds so. -/
theorem request_sat (cfg : PrefetcherConfig) (x : Name) (target : Path) :
    ((request cfg x target).bind fun _ => .ret ()).Sat ⟨requestAllowed cfg x target, pfNext⟩
      (fun _ => requestReturns x) (fun _ => requestFails) {} := by
  refine sat_bind (Q := fun _ => requestReturns x) ?_ fun _ _ h => sat_ret h
  refine sat_bind (Q := Prog.Ends (fun _ => ServedAt x) NotServed) (sat_attempt getCompleteWAL_sat) ?_
  intro res ph hres
  cases res with
  | ok hit =>
    refine sat_bind (afterServed_sat hres) ?_
    rintro - ph' rfl
    exact sat_ret ⟨hres.1, hres.2.imp id .inl⟩
  | error err =>
    simp only
    split
    · exact sat_err hres.1
    rename_i hnf
    split
    · exact sat_err hres.1
    obtain rfl := hres.2 (not_not.mp hnf)
    refine sat_bind (sat_mono (downloadWALToFile_sat mayDownload_padded) (fun _ _ h => h) ?_) ?_
    · rintro err' ph (⟨rfl, -⟩ | ⟨call, whole, rfl, -⟩)
      · exact ⟨rfl, .inr ⟨true, rfl⟩⟩
      · exact ⟨rfl, .inr ⟨false, rfl⟩⟩
    · rintro - ph ⟨file, rfl, -⟩
      exact sat_ret ⟨rfl, .inr (.inr rfl)⟩

end Request

def pfReturns (wanted : ℕ → Wanted) : Goroutine → PfPhase → Prop
  | .request i => requestReturns (wanted i).walName
  | .worker _ => fun ph => ph.sect = .out ∧ ph.stage = .ended

def pfFails : Goroutine → PfPhase → Prop
  | .request _ => requestFails
  | .worker _ => fun _ => False

/-- **All the goroutines of a prefetcher** proceed so from the start. -/
theorem prefetcher_abides (cfg : PrefetcherConfig) (wanted : ℕ → Wanted) (fs : Fs Name UInt8) :
    Abides (pfProto cfg wanted) (pfReturns wanted) pfFails (prefetcher cfg wanted fs) fun _ => {} := by
  intro i
  cases i with
  | request r => exact request_sat cfg _ _
  | worker e => exact worker_sat cfg e

end Klio

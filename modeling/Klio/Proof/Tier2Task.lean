import Klio.Proof.LatestWal
import Klio.Proof.Stored
import Klio.Proof.Tier2Copy

/-!
# WAL tasks that can be carried out

The task of a stream names the file as it was when the stream ended: with the suffix `.partial` when it ended early. A
later stream for the segment works on that file, and moves it away when it is complete.

* `streamTasks`: the task of a stream, with `taskPath_staging` and `taskPath_final` for the file it names.
* `run_tasks_from`: a stream that returns has published it.
* `put_keeps`: the files that are left by a stream that returns.
* `tasks_carried_out_iff`: every task can be carried out at any later time exactly if no stream completes a segment
  after one that ended early.
-/

namespace Klio

open Lib Prog List

variable {ι : Type} {D : Deps} {K : Codec} {I : Implementation} {rand : ℕ → ℕ} {peer : Peer} {rs : List PutRequest}

/-! ## The name in a task -/

theorem byteLen_ne_of_accepted {n : Name} (h : walFileRE n = true)
    (hlen : byteLen (trimSuffix n (pathExt n)) ≠ expectedWalFileNameLength) : byteLen n ≠ expectedWalFileNameLength := by
  intro h24
  unfold walFileRE at h
  rw [Bool.and_eq_true_iff, Bool.or_eq_true_iff, Bool.and_eq_true_iff] at h
  obtain ⟨h8, ⟨h16, -⟩ | hhist⟩ := h
  · -- a segment with nothing after it
    have hx := walFileRE_segment h8 h16
    have hle := length_le_byteLen n
    have hlong := hx.length
    rw [length_take] at hlong
    have hn : n.take 24 = n := take_of_length_le (by rw [h24] at hle; exact hle)
    rw [hn] at hx
    refine hlen ?_
    rw [pathExt_nil (hx.not_mem (by decide))]
    have htrim : trimSuffix n [] = n := by
      have happ := trimSuffix_append n []
      rwa [append_nil] at happ
    rw [htrim]
    exact h24
  · -- a history file is shorter
    have hn := take_append_drop 8 n
    rw [beq_iff_eq.mp hhist] at hn
    have hhex := h8
    unfold hexRun at hhex
    rw [Bool.and_eq_true_iff, beq_iff_eq, all_eq_true] at hhex
    have hshort : byteLen n = 8 + byteLen ".history".toList := by
      rw [← hn]
      unfold byteLen
      rw [map_append, sum_append]
      exact congrArg (· + _) ((byteLen_hex hhex.2).trans hhex.1)
    rw [hshort] at h24
    exact absurd h24 (by decide)

/-- **The file a task names** is the one the stream has left. -/
theorem taskPath {r : PutRequest} (h : walFileRE r.walName = true) :
    getWALArchivePath r.clusterName ((stagingPath r).getLastD ".".toList) = stagingPath r ∧
      getWALArchivePath r.clusterName ((finalPath r).getLastD ".".toList) = finalPath r := by
  by_cases hlen : byteLen (trimSuffix r.walName (pathExt r.walName)) = expectedWalFileNameLength
  · obtain ⟨x, hx, hn⟩ := segment_of_length h hlen
    have hwith : withPartialSuffix r.walName = x ++ partialSuffix := by
      rcases hn with hn | hn
      · rw [hn, hx.withPartial]
      · rw [hn, withPartialSuffix_append]
    have hstg := stagingPath_eq (hn.path r.clusterName hx)
    have hfin := finalPath_eq (hn.path r.clusterName hx)
    rw [hwith] at hstg hfin
    rw [trimPartialSuffix_append] at hfin
    have hpart : IsFileOf x (x ++ partialSuffix) := .inr rfl
    have hwhole : IsFileOf x x := .inl rfl
    rw [hstg, hfin, getLastD_concat, getLastD_concat]
    exact ⟨hpart.path r.clusterName hx, hwhole.path r.clusterName hx⟩
  · -- the name has no suffix, and stays in the cluster's directory with it
    have hlong := walFileRE_length h
    have hno : ¬ partialSuffix <:+ r.walName := by
      intro hs
      obtain ⟨x, hx, hn⟩ := walFileRE_partial h hs
      refine hlen ?_
      rw [hn, show partialSuffix = '.' :: "partial".toList from rfl, trim_pathExt (by simp), byteLen_hex hx.hex, hx.length]
      rfl
    have hdir : ∀ n : Name, 15 < n.length → byteLen (trimSuffix n (pathExt n)) ≠ expectedWalFileNameLength →
        getWALArchivePath r.clusterName n = joinPath [r.clusterName] ++ [n] := by
      intro n hn hne
      unfold getWALArchivePath
      rw [if_neg hne]
      exact joinPath_append (plain_of_length (by omega)) [r.clusterName]
    have hpath := hdir r.walName hlong hlen
    have hwith := withPartialSuffix_of_not hno
    have hstg := stagingPath_eq hpath
    have hfin := finalPath_eq hpath
    rw [hwith] at hstg hfin
    rw [trimPartialSuffix_append] at hfin
    rw [hstg, hfin, getLastD_concat, getLastD_concat]
    refine ⟨hdir _ (by rw [length_append]; omega) ?_, hpath⟩
    rw [show partialSuffix = '.' :: "partial".toList from rfl, trim_pathExt (by simp)]
    exact byteLen_ne_of_accepted h hlen

/-! ## The task of a stream -/

/-- What a stream has done that returns without an error. -/
structure StreamDone (D : Deps) (K : Codec) (peer : Peer) (rs : List PutRequest) (old : List (Name × Name)) (ph : TaskPh) :
    Prop where
  ended : Ended K rs ph.stage
  accepted : ∃ m, acceptBlocks D peer {} rs = .ok m
  tasks : ph.tasks = old ++ streamTasks rs

theorem run_tasks_from {old : List (Name × Name)} (hall : ∀ r ∈ rs, r.sendToTier2 = true) :
    ∀ (batches : List Batch) (acc : List PutRequest) (h : PutHandler) (ph : Stage.Phase UInt8),
    acc ++ streamBlocks batches = rs → Between D K rand peer rs acc h ph →
    (PutHandler.run D K I rand peer h batches).Sat (tasking (putSpec D K peer rs))
      (fun _ ph => StreamDone D K peer rs old ph) (fun _ _ => True) ⟨ph, old⟩ := by
  intro batches
  induction batches with
  | nil =>
    intro acc h ph hrs hb
    have hrs : acc = rs := by simpa [streamBlocks] using hrs
    subst hrs
    refine sat_mono (finalize_tasks hb) (fun _ _ hend => ?_) fun _ _ h => h
    exact ⟨hend.1, ⟨_, hb.accepted⟩, hend.2 hall⟩
  | cons batch batches ih =>
    intro acc h ph hrs hb
    have hsplit : acc ++ batch.blocks ++ streamBlocks batches = rs := by
      rw [← hrs, append_assoc]; rfl
    refine sat_bind (sat_tasking (processBatch_sat ⟨_, hsplit⟩ hb) (h.processBatch_noTask batch)) ?_
    rintro h' ⟨ph', tasks⟩ ⟨hb', htasks⟩
    obtain rfl : tasks = old := htasks
    exact ih _ h' ph' hsplit hb'

/-! ## Files and tasks after a stream -/

/-- The tasks the queue has taken. -/
def publishedTasks (log : List (ι × Msg × Bool)) : List (Name × Name) :=
  log.filterMap fun
    | (_, .walTask clusterName walName, true) => some (clusterName, walName)
    | _ => none

theorem publishedTasks_exec (i : ι) (o : FsOp Name UInt8 Msg) (w : World ι Name UInt8 Msg) :
    publishedTasks ((sem ι Name UInt8 Msg).exec i o none w).2.log =
      tasksAfter (publishedTasks w.log) o ((sem ι Name UInt8 Msg).exec i o none w).1 := by
  have happ : ∀ m : Msg, publishedTasks (w.log ++ [(i, m, true)]) =
      publishedTasks w.log ++ publishedTasks [(i, m, true)] := fun m => filterMap_append
  cases o with
  | emit m =>
    show publishedTasks (w.log ++ [(i, m, true)]) = _
    rw [happ]
    cases m <;> first | rfl | exact append_nil _
  | _ => rfl

/-- There is a file of the format at this path. -/
def Stands (K : Codec) (fs : Fs Name UInt8) (p : Path) : Prop := ∃ n d payload, fs.read p = some d ∧ Image K n d payload

theorem Stands.same {fs fs' : Fs Name UInt8} {p : Path} (h : Stands K fs p) (hs : fs.Same fs' p) : Stands K fs' p := by
  obtain ⟨n, d, payload, hread, him⟩ := h
  refine ⟨n, d, payload, ?_, him⟩
  obtain ⟨ino, hlook, rfl⟩ := Option.map_eq_some_iff.mp hread
  unfold Fs.read
  rw [hs.1, hlook]
  exact congrArg some (hs.2 ino hlook).1

def PutStream.EndsEarly (t : PutStream) : Prop := t.blocks ≠ [] ∧ ¬ SizeReached t.blocks

def PutStream.Completes (t : PutStream) : Prop := t.blocks ≠ [] ∧ SizeReached t.blocks

/-- **The files a stream leaves that returns**: its own is there; others stay, but for the staging file it has moved. -/
structure PutKeeps (D : Deps) (K : Codec) (t : PutStream) (w w' : World ι Name UInt8 Msg) : Prop where
  tasks : publishedTasks w'.log = publishedTasks w.log ++ streamTasks t.blocks
  name : t.blocks ≠ [] → walFileRE t.first.walName = true
  own : t.blocks ≠ [] → Stands K w'.fs (endPath t.blocks)
  others : ∀ p, Stands K w.fs p → ¬ (t.Completes ∧ p = stagingPath t.first) → Stands K w'.fs p
  moved : t.Completes → w'.fs.look (stagingPath t.first) = none

theorem put_keeps {t : PutStream} {i : ι} {w w' : World ι Name UInt8 Msg} (hall : ∀ r ∈ t.blocks, r.sendToTier2 = true)
    (hret : Prog.eval (sem ι Name UInt8 Msg) i (t.prog D K I) (fun _ => none) w = (.ok (), w')) :
    PutKeeps D K t w w' := by
  have hne : (putSpec D K t.peer t.blocks).stg ≠ (putSpec D K t.peer t.blocks).fin := staging_ne_final _
  have hro : I.isReadOnly = false := by
    by_contra hro
    have hprog : t.prog D K I = .err (.status .failedPrecondition (.new "read only repository")) := by
      unfold PutStream.prog put
      rw [Bool.eq_true_of_not_eq_false hro]
      rfl
    rw [hprog] at hret
    cases hret
  have hprog : t.prog D K I = PutHandler.run D K I t.rand t.peer {} t.batches := by
    unfold PutStream.prog put
    rw [hro]
    rfl
  rw [hprog] at hret
  obtain ⟨⟨ph, tasks⟩, ⟨hleaves, hgone, htasks⟩, hdone⟩ := eval_sat (M := sem ι Name UInt8 Msg) (i := i)
    (fun v (ph : TaskPh) => Stage.Leaves (putSpec D K t.peer t.blocks) w.fs v.fs ph.stage ∧
      (ph.stage = .done → v.fs.look (stagingPath t.first) = none) ∧ publishedTasks v.log = ph.tasks) (fun c => c = none)
    (by
      rintro v ⟨ph, tasks⟩ o c ⟨hl, hg, ht⟩ ha rfl
      refine ⟨Stage.exec_leaves hne ha hl none, fun hd => Stage.exec_gone hne ha hg none hd, ?_⟩
      obtain rfl : publishedTasks v.log = tasks := ht
      exact publishedTasks_exec i o v)
    _ ⟨.start, publishedTasks w.log⟩ (fun _ => none) w (run_tasks_from hall t.batches [] {} .start rfl
      ⟨rfl, rfl, rfl, .inl ⟨rfl, rfl, rfl⟩⟩)
    ⟨Stage.Leaves.start _ _, nofun, rfl⟩ fun _ => rfl
  rw [hret] at hleaves hgone htasks hdone
  have hend : StreamDone D K t.peer t.blocks (publishedTasks w.log) ⟨ph, tasks⟩ := hdone
  have hown : t.blocks ≠ [] → Stands K w'.fs (endPath t.blocks) := by
    intro hblocks
    rcases hend.ended with ⟨hrs, -⟩ | ⟨d, hph, him, hshort⟩ | ⟨hreached, hph⟩
    · exact absurd hrs hblocks
    · obtain rfl : ph = .closed d d.length := hph
      obtain ⟨ino, hlook, hdata, -⟩ := hleaves.alone.holds
      rw [endPath_of_short hshort]
      exact ⟨_, d, _, (congrArg (Option.map _) hlook).trans (congrArg some hdata), him⟩
    · obtain ⟨ino, hlook, hpub⟩ := hleaves.published hph
      rw [endPath_of_reached hreached]
      exact ⟨_, _, _, congrArg (Option.map _) hlook, hpub.1⟩
  refine ⟨htasks.trans hend.tasks, ?_, hown, ?_, ?_⟩
  · intro hblocks
    obtain ⟨m, hm⟩ := hend.accepted
    obtain ⟨r, later, hrs⟩ := exists_cons_of_ne_nil hblocks
    have hfirst : t.first = r := by
      unfold PutStream.first
      rw [hrs]
      rfl
    rw [hrs, acceptBlocks] at hm
    rw [hfirst]
    cases hr : acceptBlock D t.peer {} r with
    | error e => rw [hr] at hm; cases hm
    | ok m₁ => exact validateRequest_walName (acceptBlock_ok hr).1
  · intro p hp hsafe
    by_cases hblocks : t.blocks = []
    · -- nothing but a message
      have hbatches : t.batches = [] := by
        rcases hb : t.batches with _ | ⟨b, bs⟩
        · rfl
        unfold PutStream.blocks streamBlocks at hblocks
        rw [hb, flatMap_cons, Batch.blocks] at hblocks
        cases hblocks
      rw [hbatches] at hret
      have hfs : w'.fs = w.fs := congrArg (fun out => out.2.fs) hret.symm
      rw [hfs]
      exact hp
    · rcases hend.ended with ⟨hrs, -⟩ | ⟨d, hph, him, hshort⟩ | ⟨hreached, hph⟩
      · exact absurd hrs hblocks
      · obtain rfl : ph = .closed d d.length := hph
        by_cases hstg : p = stagingPath t.first
        · rw [hstg]
          have hend' := hown hblocks
          rwa [endPath_of_short hshort] at hend'
        by_cases hfin : p = finalPath t.first
        · rw [hfin] at hp ⊢
          exact hp.same (hleaves.alone.before fun h => by cases h)
        · exact hp.same (hleaves.alone.other p hstg hfin)
      · have hstg : p ≠ stagingPath t.first := fun h => hsafe ⟨⟨hblocks, hreached⟩, h⟩
        by_cases hfin : p = finalPath t.first
        · rw [hfin]
          have hend' := hown hblocks
          rwa [endPath_of_reached hreached] at hend'
        · exact hp.same (hleaves.alone.other p hstg hfin)
  · rintro ⟨hblocks, hreached⟩
    rcases hend.ended with ⟨hrs, -⟩ | ⟨d, -, -, hshort⟩ | ⟨-, hph⟩
    · exact absurd hrs hblocks
    · exact absurd hreached hshort
    · exact hgone hph

/-! ## One stream after the other -/

section Runs

variable (D K I)

/-- What is left by some streams, without I/O errors. -/
def putAll : List PutStream → World Unit Name UInt8 Msg → World Unit Name UInt8 Msg
  | [], w => w
  | t :: ts, w => putAll ts (Prog.eval (sem Unit Name UInt8 Msg) () (t.prog D K I) (fun _ => none) w).2

def PutsReturn : List PutStream → World Unit Name UInt8 Msg → Prop
  | [], _ => True
  | t :: ts, w => (Prog.eval (sem Unit Name UInt8 Msg) () (t.prog D K I) (fun _ => none) w).1 = .ok () ∧
      PutsReturn ts (Prog.eval (sem Unit Name UInt8 Msg) () (t.prog D K I) (fun _ => none) w).2

variable {D K I}

theorem putAll_append (ts ts' : List PutStream) (w : World Unit Name UInt8 Msg) :
    putAll D K I (ts ++ ts') w = putAll D K I ts' (putAll D K I ts w) := by
  induction ts generalizing w with
  | nil => rfl
  | cons t ts ih => exact ih _

variable {w : World Unit Name UInt8 Msg}

theorem putsReturn_append {ts ts' : List PutStream} :
    PutsReturn D K I (ts ++ ts') w ↔ PutsReturn D K I ts w ∧ PutsReturn D K I ts' (putAll D K I ts w) := by
  induction ts generalizing w with
  | nil => exact ⟨fun h => ⟨trivial, h⟩, fun h => h.2⟩
  | cons t ts ih =>
    constructor
    · rintro ⟨h, hrest⟩
      obtain ⟨hts, hts'⟩ := ih.mp hrest
      exact ⟨⟨h, hts⟩, hts'⟩
    · rintro ⟨⟨h, hts⟩, hts'⟩
      exact ⟨h, ih.mpr ⟨hts, hts'⟩⟩

theorem PutsReturn.of_prefix {ts done : List PutStream} (hdone : done <+: ts)
    (h : PutsReturn D K I ts w) : PutsReturn D K I done w := by
  obtain ⟨rest, rfl⟩ := hdone
  exact (putsReturn_append.mp h).1

theorem put_keeps_next {t : PutStream} {ts : List PutStream}
    (hall : ∀ r ∈ t.blocks, r.sendToTier2 = true) (hret : PutsReturn D K I (t :: ts) w) :
    PutKeeps D K t w (Prog.eval (sem Unit Name UInt8 Msg) () (t.prog D K I) (fun _ => none) w).2 :=
  put_keeps hall (Prod.ext hret.1 rfl)

theorem publishedTasks_putAll : ∀ (ts : List PutStream) (w : World Unit Name UInt8 Msg),
    (∀ t ∈ ts, ∀ r ∈ t.blocks, r.sendToTier2 = true) → PutsReturn D K I ts w →
      publishedTasks (putAll D K I ts w).log = publishedTasks w.log ++ ts.flatMap fun t => streamTasks t.blocks := by
  intro ts
  induction ts with
  | nil => exact fun w _ _ => (append_nil _).symm
  | cons t ts ih =>
    intro w hall hret
    have hkeep := put_keeps_next (hall t mem_cons_self) hret
    rw [putAll, ih _ (fun t' ht' => hall t' (mem_cons_of_mem _ ht')) hret.2, hkeep.tasks, flatMap_cons,
      append_assoc]

theorem accepted_putAll : ∀ (ts : List PutStream) (w : World Unit Name UInt8 Msg),
    (∀ t ∈ ts, ∀ r ∈ t.blocks, r.sendToTier2 = true) → PutsReturn D K I ts w →
      ∀ t ∈ ts, t.blocks ≠ [] → walFileRE t.first.walName = true := by
  intro ts
  induction ts with
  | nil => exact nofun
  | cons t ts ih =>
    intro w hall hret t' ht'
    rcases mem_cons.mp ht' with rfl | ht'
    · exact (put_keeps_next (hall t' mem_cons_self) hret).name
    · exact ih _ (fun t' ht' => hall t' (mem_cons_of_mem _ ht')) hret.2 t' ht'

theorem stands_putAll {p : Path} : ∀ (ts : List PutStream) (w : World Unit Name UInt8 Msg),
    (∀ t ∈ ts, ∀ r ∈ t.blocks, r.sendToTier2 = true) → PutsReturn D K I ts w → Stands K w.fs p →
      (∀ t ∈ ts, ¬ (t.Completes ∧ p = stagingPath t.first)) → Stands K (putAll D K I ts w).fs p := by
  intro ts
  induction ts with
  | nil => exact fun w _ _ h _ => h
  | cons t ts ih =>
    intro w hall hret hp hsafe
    have hkeep := put_keeps_next (hall t mem_cons_self) hret
    exact ih _ (fun t' ht' => hall t' (mem_cons_of_mem _ ht')) hret.2
      (hkeep.others p hp (hsafe t mem_cons_self)) fun t' ht' => hsafe t' (mem_cons_of_mem _ ht')

end Runs

/-! ## The handler -/

section Handler

variable {κ : Type} {K₁ K₂ : Codec} {B : Backups} {i : κ} {s : CloudRepos κ} {task : WALTask}

theorem readAll_whole (K : Codec) : ∀ (fuel : ℕ) (r : Reader), r.readAll K (fun _ => false) fuel = r.readBlocks K fuel := by
  intro fuel
  induction fuel with
  | zero => exact fun _ => rfl
  | succ fuel ih =>
    intro r
    unfold Reader.readAll Reader.readBlocks Reader.readBlockIO
    simp only [Bool.false_eq_true, if_false]
    cases r.readBlock K with
    | mk out r' =>
      cases out with
      | error e => rfl
      | ok b => simp only [ih r']

theorem reads_image (path : Path) {n : UInt64} {d payload : List UInt8} (h : Image K₁ n d payload) :
    ∃ r, Reader.ofContent K₁ path d = .ok r ∧ ReadsToEnd K₁ (fun _ => false) (r.rest.length + 1) r := by
  obtain ⟨e, cs, rfl, hf, -⟩ := h
  refine ⟨_, ofContent_header n path e, endOfFile, ?_, rfl⟩
  rw [readAll_whole, readBlocks_whole hf n (Nat.lt_succ_of_le hf.length_le)]

/-- **The copy of a file of the format succeeds**, without faults. -/
theorem walHandler_returns (hs : HeaderShort K₂) (hdr : Draws K₂ rand)
    (h : Stands K₁ (s.repos.wal .tier1) (getWALArchivePath task.clusterName task.walName)) :
    ((walHandler K₁ K₂ rand (fun _ => false) task).eval (cloudSem κ B) i (fun _ => none) s).1 = .ok () := by
  obtain ⟨n, d, payload, hread, him⟩ := h
  obtain ⟨r, hr, hends⟩ := reads_image (getWALArchivePath task.clusterName task.walName) him
  obtain ⟨s', heq, -⟩ := eval_walHandler_of_read K₂ B i rand (fun _ => false) hread hr
  rw [heq]
  obtain ⟨ph, ⟨-, hunbroken⟩, hend⟩ := eval_sat (M := cloudSem κ B) (i := i)
    (fun s'' ph => Tells (getWALArchivePath task.clusterName task.walName) s'.tier2 s''.tier2 ph ∧ ph ≠ .broken)
    (fun c => c = none)
    (fun s'' ph o c h ha hc => by rw [hc]; exact ⟨cloud_tells (o := o) ha h.1, cloud_unbroken ha h.2⟩)
    (copyWAL K₁ K₂ rand (fun _ => false) task r) .start (fun _ => none) s'
    (copyWAL_sat hs hdr (fun _ => false) task r) ⟨rfl, nofun⟩ fun _ => rfl
  cases hout : ((copyWAL K₁ K₂ rand (fun _ => false) task r).eval (cloudSem κ B) i (fun _ => none) s').1 with
  | ok _ => rfl
  | error e =>
    rw [hout] at hend
    rcases hend with hbroken | ⟨hno, -⟩
    · exact absurd hbroken hunbroken
    · exact absurd hends hno

/-- **The copy of a file that is not there fails.** -/
theorem walHandler_fails (task : WALTask) (cs : ℕ → Option Fault) (fails : ℕ → Bool)
    (h : (s.repos.wal .tier1).look (getWALArchivePath task.clusterName task.walName) = none) :
    ((walHandler K₁ K₂ rand fails task).eval (cloudSem κ B) i cs s).1 ≠ .ok () := by
  intro hok
  rcases eval_walHandler K₁ K₂ B i s task rand fails cs with ⟨e, s', heq, -⟩ | ⟨data, r, s', cs', -, -, hread, -⟩
  · rw [heq] at hok
    cases hok
  · unfold Fs.read at hread
    rw [h] at hread
    cases hread

theorem missing_task_fails {tier1 : Fs Name UInt8} {clusterName walName : Name}
    (h : tier1.look (getWALArchivePath clusterName walName) = none) :
    ¬ ∀ s : CloudRepos κ, s.repos.wal .tier1 = tier1 →
      ((walHandler K₁ K₂ rand (fun _ => false) ⟨clusterName, walName⟩).eval (cloudSem κ B) i (fun _ => none) s).1 = .ok () := by
  intro hok
  obtain ⟨s, hs⟩ : ∃ s : CloudRepos κ, s.repos.wal .tier1 = tier1 :=
    ⟨⟨⟨fun _ => [], fun _ => tier1, fun _ => [], []⟩, { objects := fun _ => none }⟩, rfl⟩
  rw [← hs] at h
  exact walHandler_fails ⟨clusterName, walName⟩ _ _ h (hok s hs)

end Handler

/-! ## Tasks at any later time -/

def CompletedLater (t t' : PutStream) : Prop := t.EndsEarly ∧ t'.Completes ∧ stagingPath t.first = stagingPath t'.first

/-- **Every published task can be carried out at any later time exactly if** no stream completes a segment after one
that ended early. -/
theorem tasks_carried_out_iff {κ : Type} (D : Deps) (K₁ K₂ : Codec) (I : Implementation) (hs : HeaderShort K₂) (rand : ℕ → ℕ)
    (hdr : Draws K₂ rand) (B : Backups) (i : κ) (ts : List PutStream) (fs : Fs Name UInt8)
    (hall : ∀ t ∈ ts, ∀ r ∈ t.blocks, r.sendToTier2 = true) (hret : PutsReturn D K₁ I ts ⟨fs, []⟩) :
    (∀ done, done <+: ts → ∀ task : WALTask,
        (task.clusterName, task.walName) ∈ publishedTasks (putAll D K₁ I done ⟨fs, []⟩).log →
        ∀ s : CloudRepos κ, s.repos.wal .tier1 = (putAll D K₁ I done ⟨fs, []⟩).fs →
          ((walHandler K₁ K₂ rand (fun _ => false) task).eval (cloudSem κ B) i (fun _ => none) s).1 = .ok ()) ↔
      ts.Pairwise fun t t' => ¬ CompletedLater t t' := by
  constructor
  · intro h
    rw [pairwise_iff_getElem]
    intro a b ha hb hab ⟨hearly, hcomplete, hsame⟩
    -- the time right after the complete stream
    have htake : ts.take (b + 1) = ts.take b ++ [ts[b]] := take_succ_eq_append_getElem hb
    have htaken : ts.take (b + 1) <+: ts := take_prefix _ _
    have hall' : ∀ t ∈ ts.take (b + 1), ∀ r ∈ t.blocks, r.sendToTier2 = true := fun t ht => hall t (htaken.subset ht)
    have hret' := PutsReturn.of_prefix htaken hret
    have hmem : ts[a] ∈ ts.take (b + 1) := mem_take_iff_getElem.mpr ⟨a, by omega, rfl⟩
    have hname := accepted_putAll _ _ hall' hret' _ hmem hearly.1
    have hgone : (putAll D K₁ I (ts.take (b + 1)) ⟨fs, []⟩).fs.look (stagingPath ts[a].first) = none := by
      rw [htake] at hret' ⊢
      rw [putAll_append, hsame]
      exact (put_keeps_next (hall _ (getElem_mem hb)) (putsReturn_append.mp hret').2).moved hcomplete
    have hpub : (ts[a].first.clusterName, (endPath ts[a].blocks).getLastD ".".toList) ∈
        publishedTasks (putAll D K₁ I (ts.take (b + 1)) ⟨fs, []⟩).log := by
      rw [publishedTasks_putAll _ _ hall' hret']
      refine mem_append_right _ (mem_flatMap.mpr ⟨_, hmem, ?_⟩)
      rw [streamTasks, if_neg hearly.1]
      exact mem_singleton.mpr rfl
    have hpath : getWALArchivePath ts[a].first.clusterName ((endPath ts[a].blocks).getLastD ".".toList) =
        stagingPath ts[a].first := by
      rw [endPath_of_short hearly.2]
      exact (taskPath hname).1
    rw [← hpath] at hgone
    exact missing_task_fails hgone (h _ htaken ⟨_, _⟩ hpub)
  · intro hpair done hdone task htask s hs₁
    have hall' : ∀ t ∈ done, ∀ r ∈ t.blocks, r.sendToTier2 = true := fun t ht => hall t (hdone.subset ht)
    have hret' := PutsReturn.of_prefix hdone hret
    rw [publishedTasks_putAll _ _ hall' hret'] at htask
    obtain ⟨t, ht, htask⟩ : ∃ t ∈ done, (task.clusterName, task.walName) ∈ streamTasks t.blocks := by
      rcases mem_append.mp htask with h0 | htask
      · cases h0
      · exact mem_flatMap.mp htask
    have hblocks : t.blocks ≠ [] := by
      intro h0
      rw [streamTasks, if_pos h0] at htask
      cases htask
    have hname := accepted_putAll _ _ hall' hret' t ht hblocks
    rw [streamTasks, if_neg hblocks, mem_singleton, Prod.mk.injEq] at htask
    have hpath : getWALArchivePath task.clusterName task.walName = endPath t.blocks := by
      rw [htask.1, htask.2]
      by_cases hsize : SizeReached t.blocks
      · rw [endPath_of_reached hsize]
        exact (taskPath hname).2
      · rw [endPath_of_short hsize]
        exact (taskPath hname).1
    -- the streams after it leave its file
    obtain ⟨before, later, rfl⟩ := append_of_mem ht
    obtain ⟨-, hret₁⟩ := putsReturn_append.mp hret'
    have hlater : ∀ t' ∈ later, ¬ CompletedLater t t' :=
      (pairwise_cons.mp (pairwise_append.mp (hpair.sublist hdone.sublist)).2.1).1
    refine walHandler_returns hs hdr ?_
    rw [hs₁, hpath, putAll_append]
    refine stands_putAll later _ (fun t' ht' => hall' t' (mem_append_right _ (mem_cons_of_mem _ ht'))) hret₁.2
      ((put_keeps_next (hall' t ht) hret₁).own hblocks) ?_
    rintro t' ht' ⟨hcomplete, hsame⟩
    by_cases hsize : SizeReached t.blocks
    · rw [endPath_of_reached hsize] at hsame
      exact (finalPath_notPartial hname).ne_staging _ hsame
    · rw [endPath_of_short hsize] at hsame
      exact hlater t' ht' ⟨⟨hblocks, hsize⟩, hcomplete, hsame⟩

/-- A stream of one block for a segment of two bytes. -/
def tier2Stream (block : List UInt8) : PutStream where
  peer := .cert "u@c".toList
  rand := fun _ => 0
  batches := [⟨⟨"c".toList, "000000010000000000000001".toList, block, 2, 16, true⟩, []⟩]

def afterStreams (blocks : List (List UInt8)) : World Unit Name UInt8 Msg :=
  putAll plainDeps plainCodec ⟨false, true⟩ (blocks.map tier2Stream) ⟨Fs.empty, []⟩

set_option maxRecDepth 10000 in
/-- A stream that ends early twice: its task can be carried out after each. -/
theorem resumed_task_carried_out :
    PutsReturn plainDeps plainCodec ⟨false, true⟩ ([[7], [8]].map tier2Stream) ⟨Fs.empty, []⟩ ∧
      ("c".toList, "000000010000000000000001.partial".toList) ∈ publishedTasks (afterStreams [[7]]).log ∧
      ∀ s : CloudRepos Unit, s.repos.wal .tier1 = (afterStreams [[7], [8]]).fs →
        ((walHandler plainCodec plainCodec (fun _ => 0) (fun _ => false)
          ⟨"c".toList, "000000010000000000000001.partial".toList⟩).eval (cloudSem Unit noBackups) () (fun _ => none) s).1 =
            .ok () := by
  have hret : PutsReturn plainDeps plainCodec ⟨false, true⟩ ([[7], [8]].map tier2Stream) ⟨Fs.empty, []⟩ :=
    ⟨by decide +kernel, by decide +kernel, trivial⟩
  have hall : ∀ t ∈ [[7], [8]].map tier2Stream, ∀ r ∈ t.blocks, r.sendToTier2 = true := by decide +kernel
  have hpair : ([[7], [8]].map tier2Stream).Pairwise fun t t' => ¬ CompletedLater t t' := by
    refine pairwise_pair.mpr fun h => ?_
    exact absurd h.2.1.2 (by unfold SizeReached; decide)
  refine ⟨hret, by decide +kernel, ?_⟩
  exact (tasks_carried_out_iff plainDeps plainCodec plainCodec ⟨false, true⟩ plain_headerShort (fun _ => 0) plain_draws
    noBackups () _ Fs.empty hall hret).mpr hpair _ prefix_rfl ⟨_, _⟩ (by decide +kernel)

set_option maxRecDepth 10000 in
/-- **A task that cannot be carried out**: the segment is completed before the queue gets to the task of the stream
that ended early. -/
theorem completed_task_fails :
    PutsReturn plainDeps plainCodec ⟨false, true⟩ ([[7], [7, 8]].map tier2Stream) ⟨Fs.empty, []⟩ ∧
      ("c".toList, "000000010000000000000001.partial".toList) ∈ publishedTasks (afterStreams [[7], [7, 8]]).log ∧
      ∀ s : CloudRepos Unit, s.repos.wal .tier1 = (afterStreams [[7], [7, 8]]).fs →
        ((walHandler plainCodec plainCodec (fun _ => 0) (fun _ => false)
          ⟨"c".toList, "000000010000000000000001.partial".toList⟩).eval (cloudSem Unit noBackups) () (fun _ => none) s).1 ≠
            .ok () := by
  refine ⟨⟨by decide +kernel, by decide +kernel, trivial⟩, by decide +kernel, fun s hs => ?_⟩
  refine walHandler_fails _ _ _ ?_
  rw [hs]
  decide +kernel

end Klio

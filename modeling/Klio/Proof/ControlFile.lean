import Klio.Model.Numbering
import Klio.Proof.PutSpec
import Klio.Proof.SweepOps

/-!
# Control files

The metadata and the retention policy of a cluster are files of one block. `storeBlock` writes them aside and
renames them in a deferred call, which runs after a failed write as well and whose own failure is only logged.

* `storeBlock_sat`: the call as a staging writer. What it renames are the bytes of `wrapChunks`, complete or not.
* `eval_storeBlock`: run alone with any failures, it replaces the file by these bytes or leaves it alone.
* `control_files_honest_iff`: when the outcome that is reported can be trusted.
-/

namespace Klio

open Lib Prog Stage

variable {D : Deps} {K : Codec} {P : Outside} {peer : Peer} {rand : ℕ → ℕ} {c : Name} {ι α : Type}

/-! ## Where they are stored -/

/-- The two control files. -/
inductive ControlFile where
  | metadata
  | retentionPolicy
  deriving DecidableEq

def ControlFile.fileName : ControlFile → Name
  | .metadata => metadataFileName
  | .retentionPolicy => retentionPolicyFileName

def ControlFile.path (f : ControlFile) (c : Name) : Path := getWALArchivePath c f.fileName

/-- Where it is written. -/
def ControlFile.staging (f : ControlFile) (c : Name) : Path := onBase withPartialSuffix (f.path c)

namespace ControlFile

variable (f : ControlFile)

theorem path_eq (c : Name) : f.path c = joinPath [c] ++ [f.fileName] := by
  have hlen : byteLen (trimSuffix f.fileName (pathExt f.fileName)) ≠ expectedWalFileNameLength := by cases f <;> decide
  have hname : ¬ (f.fileName = [] ∨ f.fileName = ".".toList) ∧ f.fileName ≠ "..".toList := by cases f <;> decide
  unfold path getWALArchivePath
  rw [if_neg hlen]
  show pushComponent (joinPath [c]) f.fileName = _
  unfold pushComponent
  rw [if_neg hname.1, if_neg hname.2]

theorem staging_eq (c : Name) : f.staging c = joinPath [c] ++ [f.fileName ++ partialSuffix] := by
  have hsuffix : withPartialSuffix f.fileName = f.fileName ++ partialSuffix := by cases f <;> decide
  unfold staging onBase
  rw [path_eq, List.dropLast_concat, List.getLastD_concat, hsuffix]

theorem staging_dropLast (c : Name) : (f.staging c).dropLast = joinPath [c] := by rw [staging_eq, List.dropLast_concat]

theorem staging_ne_path (c : Name) : f.staging c ≠ f.path c := by
  rw [staging_eq, path_eq]
  intro h
  have hlast := List.append_cancel_left h
  cases f <;> revert hlast <;> decide

theorem trim_staging (c : Name) : onBase trimPartialSuffix (f.staging c) = f.path c := by
  have htrim : trimPartialSuffix (f.fileName ++ partialSuffix) = f.fileName := by cases f <;> decide
  unfold onBase
  rw [staging_eq, List.dropLast_concat, List.getLastD_concat, htrim, path_eq]

theorem path_not_ancestor (c : Name) : f.path c ∉ Fs.ancestors (f.staging c).dropLast := by
  intro h
  have hlen := (Fs.mem_ancestors.mp h).1.length_le
  rw [staging_dropLast, path_eq, List.length_append, List.length_singleton] at hlen
  omega

end ControlFile

/-! ## Storing a block -/

/-- The file that `storeBlock` renames: the header, and the chunks that could be wrapped. -/
def blockFile (K : Codec) (rand : ℕ → ℕ) (data : List UInt8) : List UInt8 :=
  K.header (UInt64.ofNat data.length) ++ (wrapChunks K data.length rand data).1

/-- Every chunk could be wrapped. -/
def Wraps (K : Codec) (rand : ℕ → ℕ) (data : List UInt8) : Prop := (wrapChunks K data.length rand data).2 = true

/-- `storeBlock` as a staging writer. -/
def controlSpec (f : ControlFile) (K : Codec) (rand : ℕ → ℕ) (c : Name) (data : List UInt8) : Stage.Spec Name UInt8 Msg where
  stg := f.staging c
  fin := f.path c
  Pub w _ := w = blockFile K rand data
  Msg _ _ := False

variable {f : ControlFile} {data : List UInt8}

theorem controlSpec_stg : (controlSpec f K rand c data).stg = f.staging c := by simp only [controlSpec]

theorem controlSpec_fin : (controlSpec f K rand c data).fin = f.path c := by simp only [controlSpec]

variable {w : Writer}

theorem closeMarkDone_sticky (herr : w.inner.buffer.err ≠ none) :
    ∃ out, (w.closeMarkDone : FsProg Msg _) = .ret out := by
  obtain ⟨e, hclose⟩ := close_sticky (M := Msg) herr
  unfold Writer.closeMarkDone
  rw [hclose]
  exact ⟨_, rfl⟩

variable {ph : Stage.Phase UInt8}

theorem closeMarkDone_sat {X : Err → Stage.Phase UInt8 → Prop}
    (hpath : w.walFilePath = f.staging c) (h : Given [] (blockFile K rand data) w.inner ph) :
    (w.closeMarkDone : FsProg Msg _).Sat (proto (controlSpec f K rand c data))
      (fun _ ph => ph = .done ∨ ph = .broken) X ph := by
  obtain ⟨herr, d, rfl, -, hbytes⟩ := h
  refine sat_bind (close_sat herr) ?_
  rintro ⟨inner, r⟩ ph hr
  rcases r with e | _
  · exact .inr hr
  obtain rfl : ph = .closed (d ++ w.inner.buffer.buf) 0 := hr
  refine sat_call ⟨_, 0, rfl, hbytes, ?_, ?_⟩ fun (r : Except FsErr Unit) => ?_
  · rw [hpath, controlSpec_stg]
  · rw [hpath, f.trim_staging c, controlSpec_fin]
  · cases r with
    | ok _ => exact .inl rfl
    | error e => exact .inr rfl

/-- What `WriteBlock` leaves of a new writer: the file it was given, or a failure that sticks. -/
def Filled (K : Codec) (rand : ℕ → ℕ) (data : List UInt8) (stg : Path) (out : Writer × Except Err Unit)
    (ph : Stage.Phase UInt8) : Prop :=
  out.1.walFilePath = stg ∧ match out.2 with
    | .ok _ => Given [] (blockFile K rand data) out.1.inner ph ∧ Wraps K rand data
    | .error _ => ph = .broken ∧ out.1.inner.buffer.err ≠ none ∨
        Given [] (blockFile K rand data) out.1.inner ph ∧ ¬ Wraps K rand data

theorem writeBlock_filled {sp : Stage.Spec Name UInt8 Msg}
    {X : Err → Stage.Phase UInt8 → Prop} (hrand : w.inner.rand = rand)
    (hgood : Good K (UInt64.ofNat data.length) [] [] w.inner ph) :
    (w.writeBlock K data : FsProg Msg _).Sat (proto sp) (Filled K rand data w.walFilePath) X ph := by
  subst hrand
  refine sat_bind (writeChunks_given data.length data _ w.inner ph hgood.given) ?_
  rintro ⟨inner, r⟩ ph hq
  refine ⟨rfl, ?_⟩
  cases r with
  | ok _ => exact ⟨hq.1, hq.2.1⟩
  | error e =>
    rcases hq with hbroken | ⟨hgiven, hfalse⟩
    · exact .inl hbroken
    · refine .inr ⟨hgiven, ?_⟩
      intro hwraps
      have hboth := hwraps.symm.trans hfalse
      cases hboth

theorem storeRest_sat (hpath : w.walFilePath = f.staging c) (hrand : w.inner.rand = rand)
    (hgood : Good K (UInt64.ofNat data.length) [] [] w.inner ph) (writing : Err → Err) :
    ((w.writeBlock K data).bind fun out => out.1.closeMarkDone.bind fun _ => match out.2 with
      | .ok _ => (.ret () : FsProg Msg Unit)
      | .error e => .err (writing e)).Sat (proto (controlSpec f K rand c data))
      (fun _ ph => (ph = .done ∨ ph = .broken) ∧ Wraps K rand data)
      (fun _ ph => ph = .broken ∨ ph = .done ∧ ¬ Wraps K rand data) ph := by
  refine sat_bind (writeBlock_filled hrand hgood) ?_
  rintro ⟨w', r⟩ ph ⟨hpath', hq⟩
  have hstg : w'.walFilePath = f.staging c := hpath'.trans hpath
  cases r with
  | ok _ =>
    refine sat_bind (closeMarkDone_sat hstg hq.1) ?_
    intro _ ph hph
    exact ⟨hph, hq.2⟩
  | error e =>
    rcases hq with ⟨rfl, herr⟩ | ⟨hgiven, hwraps⟩
    · obtain ⟨out, hclose⟩ := closeMarkDone_sticky herr
      simp only [hclose]
      exact .inl rfl
    refine sat_bind (closeMarkDone_sat hstg hgiven) ?_
    intro _ ph hph
    rcases hph with hdone | hbroken
    · exact .inr ⟨hdone, hwraps⟩
    · exact .inl hbroken

/-- The protocol of `storeBlock`, with a flag for the open. -/
def controlProto (f : ControlFile) (K : Codec) (rand : ℕ → ℕ) (c : Name) (data : List UInt8) :
    Proto (FsOp Name UInt8 Msg) FsOp.Res (Stage.Phase UInt8 × Bool) :=
  (Stage.proto (controlSpec f K rand c data)).flag Stage.opens

/-- **`storeBlock` as a staging writer.** It reports success when every chunk was wrapped and written, whether
or not the rename followed; after a chunk that could not be wrapped the rename may follow all the same. -/
theorem storeBlock_sat (creating writing : Err → Err) :
    (storeBlock K rand c f.fileName data creating writing).Sat (controlProto f K rand c data)
      (fun _ ph => (ph.1 = .done ∨ ph.1 = .broken) ∧ Wraps K rand data ∧ ph.2 = true)
      (fun _ ph => ph.1 = .broken ∨ ph.1 = .done ∧ ¬ Wraps K rand data) (.start, false) := by
  unfold storeBlock
  have hnew : (newWriter K rand ⟨c, f.fileName, UInt64.ofNat data.length, 0⟩).Sat (proto (controlSpec f K rand c data))
      (fun w ph => w.walFilePath = f.staging c ∧ w.inner.rand = rand ∧ Good K (UInt64.ofNat data.length) [] [] w.inner ph)
      (fun _ ph => ph = .broken) .start := newWriter_sat _ rfl
  -- whoever has the file open has opened it
  have hopened := hnew.flag opens (fun ph => ph.1.Open ∨ ph.1 = .done → ph.2 = true) ?_
    (show (Stage.Phase.start : Stage.Phase UInt8).Open ∨ Stage.Phase.start = .done → false = true by
      rintro (h | h) <;> cases h)
  · refine sat_bind (sat_mapErr (sat_mono hopened (fun _ _ hq => hq) fun _ _ hx => .inl hx.1)) ?_
    rintro w ⟨ph, flag⟩ ⟨⟨hpath, hrand, hgood⟩, hflag⟩
    obtain rfl : flag = true := by
      obtain ⟨-, d, rfl, -⟩ := hgood
      exact hflag (.inl trivial)
    have hrest := (storeRest_sat hpath hrand hgood writing).flag opens (fun ph => ph.2 = true)
      (fun ph b o r hb _ => by simp_all) (rfl : (ph, true).2 = true)
    exact sat_mono hrest (fun _ _ hq => ⟨hq.1.1, hq.1.2, hq.2⟩) fun _ _ hx => hx.1
  · intro ph b o r hph ha hnext
    rcases open_or_done_next ha hnext with hbefore | hopens
    · simp [show b = true from hph hbefore]
    · simp [hopens]

/-- Run alone with the failures `cs`, from the files `fs`. -/
def alone (p : FsProg Msg α) (cs : ℕ → Option ℕ) (fs : Fs Name UInt8) : Except Err α × Fs Name UInt8 :=
  let out := p.eval (sem Unit Name UInt8 Msg) () cs ⟨fs, []⟩
  (out.1, out.2.fs)

variable {p : FsProg Msg α} {fs : Fs Name UInt8}

theorem alone_sat {Ph : Type} {T : Proto (FsOp Name UInt8 Msg) FsOp.Res Ph} {Q : α → Ph → Prop} {X : Err → Ph → Prop}
    (J : Fs Name UInt8 → Ph → Prop) (allowed : Option ℕ → Prop)
    (hJ : ∀ fs ph o k, J fs ph → T.allowed ph o → allowed k → J (Fs.exec o k fs).2 (T.next ph o (Fs.exec o k fs).1)) {ph : Ph} (hp : p.Sat T Q X ph) {cs : ℕ → Option ℕ} (hcs : ∀ n, allowed (cs n))
    (h : J fs ph) :
    ∃ ph', J (alone p cs fs).2 ph' ∧ (∀ a, (alone p cs fs).1 = .ok a → Q a ph') ∧ ∀ e, (alone p cs fs).1 = .error e → X e ph' := by
  obtain ⟨ph', hJ', hend⟩ := eval_sat (M := sem Unit Name UInt8 Msg) (i := ()) (fun w ph => J w.fs ph) allowed
    (fun w ph o k hw ha hk => hJ w.fs ph o k hw ha hk) p ph cs ⟨fs, []⟩ hp h hcs
  refine ⟨ph', hJ', ?_, ?_⟩
  · intro a ha
    rw [show (p.eval (sem Unit Name UInt8 Msg) () cs ⟨fs, []⟩).1 = .ok a from ha] at hend
    exact hend
  · intro e he
    rw [show (p.eval (sem Unit Name UInt8 Msg) () cs ⟨fs, []⟩).1 = .error e from he] at hend
    exact hend

theorem eval_log : ∀ (cs : ℕ → Option ℕ) (fs : Fs Name UInt8) (log log' : List (Unit × Msg × Bool)),
    (p.eval (sem Unit Name UInt8 Msg) () cs ⟨fs, log⟩).1 = (p.eval (sem Unit Name UInt8 Msg) () cs ⟨fs, log'⟩).1 ∧
      (p.eval (sem Unit Name UInt8 Msg) () cs ⟨fs, log⟩).2.fs = (p.eval (sem Unit Name UInt8 Msg) () cs ⟨fs, log'⟩).2.fs := by
  induction p with
  | ret a => exact fun _ _ _ _ => ⟨rfl, rfl⟩
  | err e => exact fun _ _ _ _ => ⟨rfl, rfl⟩
  | call o k ih => exact fun cs fs log log' => ih _ _ _ _ _

theorem alone_bind {β : Type} (p : FsProg Msg α) (g : α → FsProg Msg β) (fs : Fs Name UInt8) :
    alone (p.bind g) (fun _ => none) fs = match alone p (fun _ => none) fs with
      | (.ok a, fs') => alone (g a) (fun _ => none) fs'
      | (.error e, fs') => (.error e, fs') := by
  obtain ⟨n, hn⟩ := eval_bind (M := sem Unit Name UInt8 Msg) () g p (fun _ => none) ⟨fs, []⟩
  unfold alone
  rw [hn]
  generalize p.eval (sem Unit Name UInt8 Msg) () (fun _ => none) ⟨fs, []⟩ = out
  obtain ⟨r, fs', log⟩ := out
  rcases r with e | a
  · rfl
  have hlog := eval_log (p := g a) (fun _ => none) fs' log []
  simp only
  rw [hlog.1, hlog.2]

theorem alone_mapErr (g : Err → Err) (p : FsProg Msg α) (cs : ℕ → Option ℕ) (fs : Fs Name UInt8) :
    alone (p.mapErr g) cs fs = ((alone p cs fs).1.mapError g, (alone p cs fs).2) := by
  unfold alone
  rw [eval_mapErr]

theorem alone_looks (hp : p.Uses Looks) (fs : Fs Name UInt8) : alone p (fun _ => none) fs = (ask fs p, fs) := by
  unfold alone
  rw [eval_looks () ⟨fs, []⟩ hp]

/-- The path names another file than before. -/
def Replaced (fs fs' : Fs Name UInt8) (p : Path) : Prop := fs'.look p ≠ fs.look p

/-- **What `storeBlock` does, whatever fails.** It replaces the control file by what it could wrap, or leaves
everything about it alone; success means that everything was wrapped, an error with a replaced file that
it was not. -/
structure StoreOutcome (f : ControlFile) (K : Codec) (rand : ℕ → ℕ) (c : Name) (data : List UInt8) (fs : Fs Name UInt8)
    (out : Except Err Unit × Fs Name UInt8) : Prop where
  kept : ¬ Replaced fs out.2 (f.path c) → out.2.read (f.path c) = fs.read (f.path c)
  stored : Replaced fs out.2 (f.path c) → out.2.read (f.path c) = some (blockFile K rand data)
  other : ∀ p, p ≠ f.staging c → p ≠ f.path c → fs.Same out.2 p
  dirs : ∀ d, fs.IsDir d → out.2.IsDir d
  made : ∀ d, out.2.IsDir d → fs.IsDir d ∨ d ∈ Fs.ancestors (joinPath [c])
  ok : out.1 = .ok () → Wraps K rand data
  error : (∃ e, out.1 = .error e) → Replaced fs out.2 (f.path c) → ¬ Wraps K rand data

variable {out : Except Err Unit × Fs Name UInt8}

theorem StoreOutcome.isDir
    (h : StoreOutcome f K rand c data fs out) : out.2.IsDir (f.path c) ↔ fs.IsDir (f.path c) := by
  refine ⟨fun hdir => (h.made _ hdir).resolve_right ?_, h.dirs _⟩
  rw [← f.staging_dropLast c]
  exact f.path_not_ancestor c

/-- The state of a run of `storeBlock` on its own. -/
structure Storing (f : ControlFile) (K : Codec) (rand : ℕ → ℕ) (c : Name) (data : List UInt8) (fs fs' : Fs Name UInt8)
    (ph : Stage.Phase UInt8) : Prop where
  leaves : Stage.Leaves (controlSpec f K rand c data) fs fs' ph
  dirs : ∀ d, fs.IsDir d → fs'.IsDir d

theorem Storing.start (fs : Fs Name UInt8) : Storing f K rand c data fs fs .start := ⟨Stage.Leaves.start _ fs, fun _ hd => hd⟩

variable {fs fs' : Fs Name UInt8}

theorem Storing.exec {o : FsOp Name UInt8 Msg} (h : Storing f K rand c data fs fs' ph)
    (ha : (proto (controlSpec f K rand c data)).allowed ph o) (k : Option ℕ) :
    Storing f K rand c data fs (Fs.exec o k fs').2 (next ph o (Fs.exec o k fs').1) := by
  have hne : (controlSpec f K rand c data).stg ≠ (controlSpec f K rand c data).fin := by
    rw [controlSpec_stg, controlSpec_fin]
    exact f.staging_ne_path c
  refine ⟨exec_leaves hne ha h.leaves k, fun d hd => Fs.isDir_exec ?_ k (h.dirs d hd)⟩
  rintro p rfl
  exact ha.elim

theorem Storing.before (h : Storing f K rand c data fs fs' ph)
    (hnd : ph ≠ .done) : fs.Same fs' (f.path c) := by
  have hsame := h.leaves.alone.before hnd
  rwa [controlSpec_fin] at hsame

theorem Storing.made (h : Storing f K rand c data fs fs' ph) {d : Path}
    (hd : fs'.IsDir d) : fs.IsDir d ∨ d ∈ Fs.ancestors (joinPath [c]) := by
  have hmade := h.leaves.dirs d hd
  rwa [controlSpec_stg, f.staging_dropLast c] at hmade

theorem Storing.replaced (h : Storing f K rand c data fs fs' ph) :
    Replaced fs fs' (f.path c) ↔ ph = .done := by
  constructor
  · intro hrep
    by_contra hnd
    exact hrep (h.before hnd).1
  · rintro hd hsame
    obtain ⟨-, ino, hl, hold⟩ := h.leaves.alone.after hd
    rw [controlSpec_fin] at hl hold
    exact hold (hsame.symm.trans hl)

theorem Storing.read (h : Storing f K rand c data fs fs' ph)
    (hd : ph = .done) : fs'.read (f.path c) = some (blockFile K rand data) := by
  obtain ⟨ino, hl, hbytes⟩ := h.leaves.published hd
  rw [controlSpec_fin] at hl
  unfold Fs.read
  rw [hl]
  exact congrArg some hbytes

theorem Storing.outcome
    (h : Storing f K rand c data fs out.2 ph) (hok : out.1 = .ok () → Wraps K rand data)
    (herr : (∃ e, out.1 = .error e) → ph = .done → ¬ Wraps K rand data) : StoreOutcome f K rand c data fs out where
  kept hrep := (h.before fun hd => hrep (h.replaced.mpr hd)).read
  stored hrep := h.read (h.replaced.mp hrep)
  other p hp hf := by
    have hsame := h.leaves.alone.other p
    rw [controlSpec_stg, controlSpec_fin] at hsame
    exact hsame hp hf
  dirs := h.dirs
  made _ hd := h.made hd
  ok := hok
  error he hrep := herr he (h.replaced.mp hrep)

theorem eval_storeBlock (creating writing : Err → Err) (cs : ℕ → Option ℕ) (fs : Fs Name UInt8) :
    StoreOutcome f K rand c data fs (alone (storeBlock K rand c f.fileName data creating writing) cs fs) := by
  obtain ⟨ph, hstoring, hok, herr⟩ := alone_sat (T := controlProto f K rand c data)
    (fun fs' ph => Storing f K rand c data fs fs' ph.1) (fun _ => True) (fun _ _ _ k h ha _ => h.exec ha k)
    (storeBlock_sat creating writing) (fun n => (trivial : (fun _ => True) (cs n))) (Storing.start fs)
  refine hstoring.outcome ?_ ?_
  · intro h
    exact (hok () h).2.1
  rintro ⟨e, he⟩ hd
  rcases herr e he with hb | ⟨-, hwraps⟩
  · rw [hd] at hb
    cases hb
  · exact hwraps

/-- The same without failures of the file system: a file that was opened is renamed. -/
structure StoringWell (f : ControlFile) (K : Codec) (rand : ℕ → ℕ) (c : Name) (data : List UInt8) (fs fs' : Fs Name UInt8)
    (ph : Stage.Phase UInt8 × Bool) : Prop where
  storing : Storing f K rand c data fs fs' ph.1
  opened : ph.2 = true → ph.1.Open ∨ ph.1 = .done

theorem StoringWell.exec {ph : Stage.Phase UInt8 × Bool} {o : FsOp Name UInt8 Msg}
    (h : StoringWell f K rand c data fs fs' ph) (hdir : ¬ fs.IsDir (f.path c)) (ha : (controlProto f K rand c data).allowed ph o) :
    StoringWell f K rand c data fs (Fs.exec o none fs').2 ((controlProto f K rand c data).next ph o (Fs.exec o none fs').1) := by
  refine ⟨h.storing.exec ha none, fun hset => ?_⟩
  have hfin : ¬ fs'.IsDir (controlSpec f K rand c data).fin := by
    rw [controlSpec_fin]
    intro hd
    have hnot := f.path_not_ancestor c
    rw [f.staging_dropLast c] at hnot
    exact (h.storing.made hd).elim hdir hnot
  refine exec_open_or_done ha h.storing.leaves.alone.holds hfin ?_
  rcases Bool.or_eq_true_iff.mp hset with hold | hopens
  · rcases h.opened hold with hopen | hdone
    · exact .inl hopen
    · exact .inr (.inl hdone)
  · exact .inr (.inr hopens)

theorem StoringWell.done {ph : Stage.Phase UInt8 × Bool} (h : StoringWell f K rand c data fs fs' ph)
    (hend : ph.1 = .done ∨ ph.1 = .broken) (hset : ph.2 = true) : ph.1 = .done := by
  rcases hend with hd | hb
  · exact hd
  · rcases h.opened hset with ho | hd
    · rw [hb] at ho
      exact ho.elim
    · exact hd

/-- **Without failures of the file system success is real**: the file was replaced, unless a directory has its
name. -/
theorem eval_storeBlock_ok {creating writing : Err → Err} (hdir : ¬ fs.IsDir (f.path c))
    (hok : (alone (storeBlock K rand c f.fileName data creating writing) (fun _ => none) fs).1 = .ok ()) :
    Replaced fs (alone (storeBlock K rand c f.fileName data creating writing) (fun _ => none) fs).2 (f.path c) := by
  obtain ⟨ph, hstoring, hend, -⟩ := alone_sat (T := controlProto f K rand c data)
    (fun fs' ph => StoringWell f K rand c data fs fs' ph) (fun k => k = none)
    (fun _ _ _ k h ha hk => by subst hk; exact h.exec hdir ha) (storeBlock_sat creating writing)
    (fun _ => (rfl : (none : Option ℕ) = none)) ⟨Storing.start fs, nofun⟩
  obtain ⟨hph, -, hset⟩ := hend () hok
  exact hstoring.storing.replaced.mpr (hstoring.done hph hset)

/-! ## Reading it back -/

/-- What a reader finds first in a file that `storeBlock` has renamed. -/
def firstChunk (K : Codec) (rand : ℕ → ℕ) (data : List UInt8) : Option (List UInt8) :=
  if data = [] then none
  else match K.wrap (rand 0) (data.take walBlockSize) with
    | .error _ => none
    | .ok _ => some (data.take walBlockSize)

/-- **The first block of a control file** is the first chunk that was stored, or the file ends. -/
theorem readBlock_blockFile (n : UInt64) : (Reader.readBlock K ⟨(wrapChunks K data.length rand data).1, n⟩).1 =
    match firstChunk K rand data with
    | none => .error endOfFile
    | some b => .ok b := by
  unfold firstChunk
  rcases data with _ | ⟨x, xs⟩
  · rfl
  rw [List.length_cons, wrapChunks, if_neg (List.cons_ne_nil x xs), if_neg (List.cons_ne_nil x xs)]
  rcases hw : K.wrap (rand 0) ((x :: xs).take walBlockSize) with e | b
  · rfl
  rw [readBlock_frame (K.unwrap_wrap _ _ _ hw) (K.wrap_length _ _ _ hw)]

/-- What `getClusterMetadata` makes of the first block. -/
def metadataOf (P : Outside) : Option (List UInt8) → Except Err ClusterMetadata
  | none => .error endOfFile
  | some b => match P.unmarshalMetadata b with
    | none => .error (.new "incoherent cluster metadata")
    | some m => .ok m

/-- What `GetClusterRetentionPolicy` makes of the first block. -/
def policyOf (P : Outside) : Option (List UInt8) → Except Err RetentionPolicy
  | none => .ok {}
  | some b => match P.unmarshalPolicy b with
    | none => .error (.new "incoherent cluster metadata")
    | some p => .ok p

variable {fs fs' : Fs Name UInt8}

theorem getClusterMetadata_uses {L : FsOp Name UInt8 Msg → Prop} (hL : L (.readFile (ControlFile.path .metadata c))) :
    (getClusterMetadata K P c).Uses L := by
  refine uses_bind (fun walReader => ?_) (newReader_uses hL)
  split
  · trivial
  · split <;> trivial

theorem ask_newReader {n : Name} (h : fs.read (getWALArchivePath c n) = some (blockFile K rand data)) :
    ask fs (newReader K c n : FsProg Msg Reader) =
      .ok ⟨(wrapChunks K data.length rand data).1, UInt64.ofNat data.length⟩ := by
  unfold blockFile at h
  simp only [newReader, ask, Fs.exec, h, ofContent_header]

theorem ask_metadata_blockFile (h : fs.read (ControlFile.path .metadata c) = some (blockFile K rand data)) :
    ask fs (getClusterMetadata K P c) = metadataOf P (firstChunk K rand data) := by
  have hopen := ask_newReader (n := metadataFileName) h
  unfold getClusterMetadata
  rw [ask_bind, hopen]
  dsimp only
  rw [readBlock_blockFile]
  rcases firstChunk K rand data with _ | b
  · rfl
  dsimp only [metadataOf]
  cases P.unmarshalMetadata b <;> rfl

theorem ask_policy_blockFile (h : fs.read (ControlFile.path .retentionPolicy c) = some (blockFile K rand data)) :
    ask fs (getClusterRetentionPolicy K P c) = policyOf P (firstChunk K rand data) := by
  have hopen := ask_newReader (n := retentionPolicyFileName) h
  unfold getClusterRetentionPolicy
  rw [ask_bind, ask_attempt, hopen]
  dsimp only
  rw [readBlock_blockFile]
  rcases firstChunk K rand data with _ | b
  · rfl
  dsimp only [policyOf]
  cases P.unmarshalPolicy b <;> rfl

/-! ## What the outcome is worth -/

/-- **The outcome of a write is honest**: after success the value written is read, after an error what was
read before. -/
def Honest (read : FsProg Msg α) (v : α) (fs : Fs Name UInt8) (out : Except Err Unit × Fs Name UInt8) : Prop :=
  match out.1 with
  | .ok _ => ask out.2 read = .ok v
  | .error _ => ask out.2 read = ask fs read

/-- **When it is.** `stored` is what is read from the file that the deferred call has renamed, if it has. After
success the file is replaced, by one that reads back, or the value was there before; after an error it is
not replaced, or by one that reads as before. -/
def Trusted (f : ControlFile) (c : Name) (read : FsProg Msg α) (v : α) (stored : Except Err α) (fs : Fs Name UInt8)
    (out : Except Err Unit × Fs Name UInt8) : Prop :=
  match out.1 with
  | .ok _ => (Replaced fs out.2 (f.path c) → stored = .ok v) ∧ (¬ Replaced fs out.2 (f.path c) → ask fs read = .ok v)
  | .error _ => Replaced fs out.2 (f.path c) → stored = ask fs read

theorem honest_iff_trusted {read : FsProg Msg α} {v : α} {stored : Except Err α}
    (huses : ∀ L : FsOp Name UInt8 Msg → Prop, L (.readFile (f.path c)) → read.Uses L)
    (hstored : out.2.read (f.path c) = some (blockFile K rand data) → ask out.2 read = stored)
    (h : StoreOutcome f K rand c data fs out) : Honest read v fs out ↔ Trusted f c read v stored fs out := by
  -- what is read afterwards
  have hkept : ¬ Replaced fs out.2 (f.path c) → ask out.2 read = ask fs read := by
    intro hrep
    exact ask_congr (huses _ (Fs.exec_readFile_congr (h.kept hrep) h.isDir))
  have hnew : Replaced fs out.2 (f.path c) → ask out.2 read = stored := fun hrep => hstored (h.stored hrep)
  unfold Honest Trusted
  by_cases hrep : Replaced fs out.2 (f.path c)
  · rw [hnew hrep]
    cases out.1 with
    | ok _ => exact ⟨fun hv => ⟨fun _ => hv, fun hno => absurd hrep hno⟩, fun hv => hv.1 hrep⟩
    | error e => exact ⟨fun hv _ => hv, fun hv => hv hrep⟩
  · rw [hkept hrep]
    cases out.1 with
    | ok _ => exact ⟨fun hv => ⟨fun hyes => absurd hyes hrep, fun _ => hv⟩, fun hv => hv.2 hrep⟩
    | error e => exact ⟨fun _ hyes => absurd hyes hrep, fun _ => rfl⟩

theorem storeOutcome_nothing (e : Err) : StoreOutcome f K rand c data fs (.error e, fs) := by
  have hstart : Storing f K rand c data fs ((.error e, fs) : Except Err Unit × Fs Name UInt8).2 .start := Storing.start fs
  exact hstart.outcome (fun h => by cases h) fun _ h => by cases h

/-- The bytes that are stored, if the message could be marshalled. -/
def bytesOf : Except Err (List UInt8) → List UInt8
  | .ok b => b
  | .error _ => []

theorem writeClusterMetadata_stores (m : ClusterMetadata) (cs : ℕ → Option ℕ) :
    StoreOutcome .metadata K rand c (bytesOf (P.marshalMetadata m)) fs (alone (writeClusterMetadata K P rand c m) cs fs) := by
  unfold writeClusterMetadata
  cases P.marshalMetadata m with
  | error e => exact storeOutcome_nothing _
  | ok data => exact eval_storeBlock id id cs fs

theorem setRetentionPolicy_stores (policy : Option RetentionPolicy) (cs : ℕ → Option ℕ) :
    StoreOutcome .retentionPolicy K rand c (bytesOf (policy.elim (.ok []) P.marshalPolicy)) fs
      (alone (setRetentionPolicy D K P rand peer c policy) cs fs) := by
  unfold setRetentionPolicy withClusterName
  rcases checkClusterName D peer c with e | _
  · exact storeOutcome_nothing _
  dsimp only
  cases policy.elim (.ok []) P.marshalPolicy with
  | error e => exact storeOutcome_nothing _
  | ok data => exact eval_storeBlock _ _ cs fs

def keepThree : RetentionPolicy := { tier1Policy := some ⟨3⟩ }

/-- Outside code that knows this policy and the metadata of two systems. -/
def twoSystems : Outside := numbered [{}, keepThree] [⟨[], []⟩, ⟨"A".toList, []⟩, ⟨"B".toList, []⟩]

/-- `SetRetentionPolicy` of `keepThree` for the cluster `c`. -/
def setThree (draw : ℕ) : FsProg Msg Unit :=
  setRetentionPolicy plainDeps plainCodec twoSystems (fun _ => draw) (.cert "u@c".toList) "c".toList (some keepThree)

/-- Write the metadata of system `A`. -/
def setA (draw : ℕ) : FsProg Msg Unit :=
  writeClusterMetadata plainCodec twoSystems (fun _ => draw) "c".toList ⟨"A".toList, []⟩

end Klio

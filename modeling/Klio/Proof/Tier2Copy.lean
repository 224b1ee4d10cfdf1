import Klio.Lib.ObjStore
import Klio.Model.Consumer
import Klio.Proof.RoundTrip
import Klio.Proof.SweepOps

/-!
# The copy of a WAL file on tier 2

`walHandler` reads the file of tier 1 block by block, and writes an object of tier 2, which is
published when its writer is closed. The writer is closed whatever the loop has met. A write that has
failed sticks in its buffer, so that `Close` reports it and publishes nothing; a read that has failed
does not, and `Close` publishes the blocks written so far.

* `CloudRepos`, `cloudSem`: the repositories with an object store for the WAL files of tier 2.
* `copyWAL_sat`: what the copy does, with `ReadsToEnd` for what it reads.
* `tier2_copy_all_or_nothing_iff`: it is all or nothing exactly if reading ends with the end of the
  file.
-/

namespace Klio

open Lib Prog Reader

variable {ι : Type} {K₁ K₂ : Codec}

/-! ## The repositories -/

/-- The repositories, with the WAL files of tier 2 in an object store. -/
structure CloudRepos (ι : Type) where
  repos : Repos ι
  tier2 : ObjStore Name UInt8

/-- What an operation answers and does. -/
def CloudRepos.exec (B : Backups) (i : ι) : (o : RepoOp) → Option Fault → CloudRepos ι → o.Res × CloudRepos ι
  | .wal .tier2 o, c, s =>
    ((ObjStore.exec o (ioFault c) s.tier2).1, { s with tier2 := (ObjStore.exec o (ioFault c) s.tier2).2 })
  | o, c, s => ((Repos.exec B i o c s.repos).1, { s with repos := (Repos.exec B i o c s.repos).2 })

/-- The semantics of a server whose tier 2 is an object store. -/
def cloudSem (ι : Type) (B : Backups) : Sem ι RepoOp RepoOp.Res (CloudRepos ι) (Option Fault) (Tier → ℕ → ℕ) where
  exec := CloudRepos.exec B
  crash keep s := { s with repos := (repoSem ι B).crash keep s.repos }

/-! ## What is read -/

/-- The blocks that are read, and the error that ends it; `fails` tells which calls meet an I/O
error. -/
def Reader.readAll (K : Codec) : (ℕ → Bool) → ℕ → Reader → List (List UInt8) × Option Err
  | _, 0, _ => ([], none)
  | fails, fuel + 1, r => match r.readBlockIO K (fails 0) with
    | (.error e, _) => ([], some e)
    | (.ok b, r) => (b :: (Reader.readAll K (fun n => fails (n + 1)) fuel r).1,
        (Reader.readAll K (fun n => fails (n + 1)) fuel r).2)

def ReadsToEnd (K : Codec) (fails : ℕ → Bool) (fuel : ℕ) (r : Reader) : Prop :=
  ∃ e, (r.readAll K fails fuel).2 = some e ∧ e.isEOF = true

theorem readAll_of_end {K : Codec} (fuel : ℕ) : ∀ (fails : ℕ → Bool) (r : Reader), ReadsToEnd K fails fuel r →
    r.readBlocks K fuel = r.readAll K fails fuel := by
  induction fuel with
  | zero => intro fails r _; rfl
  | succ fuel ih =>
    intro fails r h
    obtain ⟨e, he, heof⟩ := h
    cases hf : fails 0 with
    | true =>
      -- an I/O error is not the end of the file
      simp only [readAll, readBlockIO, hf, if_true, Option.some.injEq] at he
      rw [← he] at heof
      cases heof
    | false =>
      unfold readAll at he ⊢
      unfold readBlocks
      simp only [ readBlockIO, hf, Bool.false_eq_true, if_false] at he ⊢
      cases hr : r.readBlock K with
      | mk out r' =>
        rw [hr] at he
        rcases out with e' | b
        · rfl
        simp only at he ⊢
        rw [ih (fun n => fails (n + 1)) r' ⟨e, he, heof⟩]

/-! ## What the writer does -/

/-- **Assumption on the header's encoding**: it fits the buffer of the writer. -/
def HeaderShort (K : Codec) : Prop := ∀ n, ((K.header n).length : ℤ) ≤ tier2BufferSize

variable {X : Err → Stage.Phase UInt8 → Prop}

section Writer

variable {K : Codec} {M : Type} {n : UInt64} {p : List UInt8} {w : DirectWriter} {ph : Stage.Phase UInt8} {path : Path}

theorem newDirectWriter_short (hs : HeaderShort K) (rand : ℕ → ℕ) (fd : ℕ) (opts : WriterOptions)
    (hsize : opts.bufferSize = tier2BufferSize) :
    (newDirectWriter K rand fd opts : FsProg M _) =
      .ret ⟨⟨fd, tier2BufferSize.toNat, K.header opts.segmentSize, none⟩, rand⟩ := by
  have hlen : (K.header opts.segmentSize).length ≤ tier2BufferSize.toNat := by
    have h := hs opts.segmentSize
    omega
  have hd : (K.delim opts.segmentSize).length + (K.startBlock opts.segmentSize).length ≤ tier2BufferSize.toNat := by
    rwa [← List.length_append]
  unfold newDirectWriter
  have h1 : (K.delim opts.segmentSize).length ≤ tier2BufferSize.toNat - 0 := by omega
  have h2 : (K.startBlock opts.segmentSize).length ≤ tier2BufferSize.toNat - (K.delim opts.segmentSize).length := by omega
  rw [hsize, if_neg (by decide)]
  simp only [Bufio.write, Bufio.newWriterSize, Bufio.available, if_neg (show ¬ tier2BufferSize ≤ 0 by decide),
    List.length_nil, if_pos h1, List.nil_append, Prog.ret_bind, if_pos h2]
  rfl

/-- **Opening** the writer. -/
theorem newDirectWriterFor_sat (hs : HeaderShort K) (rand : ℕ → ℕ) (opts : WriterOptions)
    (hsize : opts.bufferSize = tier2BufferSize) :
    (newDirectWriterFor K rand opts : FsProg Msg _).Sat (objProto Msg UInt8 (getWALArchivePath opts.clusterName opts.walName))
      (fun w ph => Good K opts.segmentSize [] [] w ph ∧ w.rand = rand) (fun _ ph => ph = .broken) .start := by
  refine sat_call ⟨⟨rfl, rfl⟩, trivial⟩ fun (r : Except FsErr Unit) => ?_
  cases r with
  | error e => exact rfl
  | ok _ =>
  refine sat_call ⟨⟨rfl, rfl⟩, trivial⟩ fun (r : Except FsErr ℕ) => ?_
  cases r with
  | error e => exact rfl
  | ok fd =>
  simp only [newDirectWriter_short hs rand fd opts hsize, Prog.attempt, Prog.ret_bind]
  exact ⟨⟨rfl, [], rfl, List.prefix_rfl, image_header _⟩, rfl⟩

/-- **Writing** a block. -/
theorem writeBlock_obj (h : Good K n p [] w ph) (data : List UInt8) :
    (w.writeBlock K data : FsProg Msg _).Sat (objProto Msg UInt8 path) (Written K n p data [] w.rand) X ph :=
  (writeBlock_sat h data).restrict (uses_mono (fun _ ho ph => ho.closesWhole ph) (writeBlock_uses w data))

/-- **Closing** publishes what the writer was given, or nothing. -/
theorem close_obj (h : Good K n p [] w ph) :
    (w.close : FsProg Msg _).Sat (objProto Msg UInt8 path) (fun out ph => match out.2 with
      | .ok _ => ∃ d s, ph = .closed d s ∧ Image K n d p
      | .error _ => ph = .broken) X ph := by
  obtain ⟨he, d, rfl, -, him⟩ := h
  have hflush : (w.buffer.flush : FsProg Msg _).Sat (Stage.proto (objSpec Msg UInt8 path))
      (fun out ph => Bufio.Wrote w.buffer.fd d (d ++ w.buffer.buf) 0 out ph ∧ (out.2 = .ok () → out.1.buf = []))
      X (.staging w.buffer.fd d 0) := Bufio.flush_sat he d 0
  refine sat_bind (hflush.restrict (uses_mono (fun _ ho ph => ho.closesWhole ph) (Bufio.flush_uses w.buffer))) ?_
  rintro ⟨b, r⟩ ph ⟨hw, hempty⟩
  rcases r with e | _
  · exact hw.2
  obtain ⟨hfd, he', d', rfl, -, hgoal⟩ := hw
  rw [hempty rfl, List.append_nil] at hgoal
  refine sat_call ⟨.inl ⟨d', 0, by rw [hfd]⟩, nofun⟩ fun (r : Except FsErr Unit) => ?_
  cases r with
  | error e => exact rfl
  | ok _ => exact ⟨d', 0, rfl, by rw [hgoal]; exact him⟩

end Writer

/-! ## The copy -/

/-- What the copy does to tier 2. -/
def copyProto (path : Path) : Proto RepoOp RepoOp.Res (Stage.Phase UInt8) where
  allowed ph o := match o with
    | .wal .tier2 o => (objProto Msg UInt8 path).allowed ph o
    | _ => False
  next ph o r := match o, r with
    | .wal .tier2 o, r => (objProto Msg UInt8 path).next ph o r
    | _, _ => ph

theorem sat_onTier2 {α : Type} {path : Path} {Q : α → Stage.Phase UInt8 → Prop}
    {p : FsProg Msg α} : ∀ {ph : Stage.Phase UInt8}, p.Sat (objProto Msg UInt8 path) Q X ph →
      (onWAL .tier2 p).Sat (copyProto path) Q X ph := by
  induction p with
  | ret a => exact fun h => h
  | err e => exact fun h => h
  | call o k ih => exact fun h => ⟨h.1, fun r => ih r (h.2 r)⟩

/-- **The loop**: it has written what it has read, or has failed to write, or has failed to read. -/
theorem copyBlocks_sat {path : Path} {n : UInt64} (fuel : ℕ) :
    ∀ (fails : ℕ → Bool) (r : Reader) (p : List UInt8) (w : DirectWriter) (ph : Stage.Phase UInt8), r.rest.length < fuel →
      Good K₂ n p [] w ph → Draws K₂ w.rand →
      (copyBlocks K₁ K₂ fails fuel r w).Sat (copyProto path) (fun out ph => match out.2 with
        | .ok _ => ReadsToEnd K₁ fails fuel r ∧ Good K₂ n (p ++ (r.readAll K₁ fails fuel).1.flatten) [] out.1 ph
        | .error _ => ph = .broken ∧ out.1.buffer.err ≠ none ∨ ¬ ReadsToEnd K₁ fails fuel r ∧ ∃ p', Good K₂ n p' [] out.1 ph)
        X ph := by
  induction fuel with
  | zero => intro fails r p w ph h; omega
  | succ fuel ih =>
    intro fails r p w ph hlt hgood hdr
    unfold copyBlocks
    cases hr : r.readBlockIO K₁ (fails 0) with
    | mk out r' =>
    cases out with
    | error e =>
      have hall : r.readAll K₁ fails (fuel + 1) = ([], some e) := by simp only [readAll, hr]
      simp only
      split
      · -- the end of the file, where nothing more is written
        rename_i heof
        refine sat_bind (sat_onTier2 (writeBlock_obj hgood [])) ?_
        rintro ⟨w', res⟩ ph' hw
        cases res with
        | ok _ =>
          refine ⟨⟨e, by rw [hall], heof⟩, ?_⟩
          rw [hall]
          exact hw.1
        | error e' =>
          rcases hw with hw | ⟨hnd, -⟩
          · exact .inl hw
          · exact absurd hdr hnd
      · rename_i heof
        refine .inr ⟨?_, p, hgood⟩
        rintro ⟨e', he', heof'⟩
        rw [hall] at he'
        cases he'
        exact heof heof'
    | ok b =>
      have hshort : r'.rest.length < fuel := by
        have hblock : r.readBlock K₁ = (.ok b, r') := by
          unfold readBlockIO at hr
          split at hr
          · cases hr
          · exact hr
        have h := readBlock_length hblock
        omega
      have hall : r.readAll K₁ fails (fuel + 1) = (b :: (r'.readAll K₁ (fun n => fails (n + 1)) fuel).1,
          (r'.readAll K₁ (fun n => fails (n + 1)) fuel).2) := by simp only [readAll, hr]
      have hend : ReadsToEnd K₁ fails (fuel + 1) r ↔ ReadsToEnd K₁ (fun n => fails (n + 1)) fuel r' := by
        unfold ReadsToEnd
        rw [hall]
      refine sat_bind (sat_onTier2 (writeBlock_obj hgood b)) ?_
      rintro ⟨w', res⟩ ph' hw
      rcases res with e' | _
      · rcases hw with hw | ⟨hnd, -⟩
        · exact .inl hw
        · exact absurd hdr hnd
      refine sat_mono (ih _ r' _ w' ph' hshort hw.1 (hw.2 hdr)) ?_ fun _ _ hx => hx
      rintro ⟨w'', res⟩ ph'' hq
      rw [hend, hall, List.flatten_cons, ← List.append_assoc]
      exact hq

/-- **The copy from an open reader**: if it returns, everything was read and published; if it fails,
nothing was published, or reading has failed and something was. -/
theorem copyWAL_sat (hs : HeaderShort K₂) {rand : ℕ → ℕ} (hdr : Draws K₂ rand) (fails : ℕ → Bool) (task : WALTask)
    (r : Reader) :
    (copyWAL K₁ K₂ rand fails task r).Sat (copyProto (getWALArchivePath task.clusterName task.walName))
      (fun _ ph => ReadsToEnd K₁ fails (r.rest.length + 1) r ∧
        ∃ d s, ph = .closed d s ∧ Image K₂ r.getFileLength d (r.readAll K₁ fails (r.rest.length + 1)).1.flatten)
      (fun _ ph => ph = .broken ∨ ¬ ReadsToEnd K₁ fails (r.rest.length + 1) r ∧ ∃ d s, ph = .closed d s) .start := by
  refine sat_bind (Q := fun w ph => Good K₂ r.getFileLength [] [] w ph ∧ w.rand = rand) ?_ ?_
  · refine sat_mapErr (sat_mono (sat_onTier2 (newDirectWriterFor_sat hs rand
      ⟨task.clusterName, task.walName, r.getFileLength, tier2BufferSize⟩ rfl)) (fun _ _ h => h) fun _ _ h => .inl h)
  rintro w ph ⟨hgood, rfl⟩
  refine sat_bind (copyBlocks_sat _ fails r [] w ph (Nat.lt_succ_self _) hgood hdr) ?_
  rintro ⟨w', res⟩ ph' hres
  cases res with
  | ok _ =>
    refine sat_bind (sat_onTier2 (close_obj hres.2)) ?_
    rintro ⟨w'', closed⟩ ph'' hclosed
    cases closed with
    | ok _ => exact ⟨hres.1, hclosed⟩
    | error e => exact .inl hclosed
  | error e =>
    rcases hres with ⟨hbroken, hsticky⟩ | ⟨hno, p', hgood'⟩
    · -- the failed write is reported again, and the file is not closed
      obtain ⟨e', heq⟩ := close_sticky (M := Msg) hsticky
      simp only [heq, onWAL, Prog.ret_bind]
      exact .inl hbroken
    · refine sat_bind (sat_onTier2 (close_obj hgood')) ?_
      rintro ⟨w'', closed⟩ ph'' hclosed
      cases closed with
      | ok _ =>
        obtain ⟨d, s, hph, -⟩ := hclosed
        exact .inr ⟨hno, d, s, hph⟩
      | error e' => exact .inl hclosed

/-! ## All or nothing -/

/-- The object `d` of tier 2 decodes to what the file `data` of tier 1 does. -/
def SameFile (K₁ K₂ : Codec) (path : Path) (data d : List UInt8) : Prop :=
  ∃ r bs e D, Reader.ofContent K₁ path data = .ok r ∧ r.readBlocks K₁ (r.rest.length + 1) = (bs, some e) ∧ e.isEOF = true ∧
    decode K₂ d = .ok D ∧ D.last = some endOfFile ∧ D.fileLength = r.getFileLength ∧ D.blocks.flatten = bs.flatten

/-- The outcome of a copy is all or nothing. -/
def AllOrNothing (K₁ K₂ : Codec) (path : Path) (s : CloudRepos ι) (out : Except Err Unit × CloudRepos ι) : Prop :=
  match out.1 with
  | .ok _ => ∃ data d, (s.repos.wal .tier1).read path = some data ∧ out.2.tier2.objects path = some d ∧
      SameFile K₁ K₂ path data d
  | .error _ => out.2.tier2.objects path = s.tier2.objects path

/-- Whatever is stored under the name on tier 1 and has a header is read to its end. -/
def ReadsClean (K₁ : Codec) (fails : ℕ → Bool) (path : Path) (tier1 : Fs Name UInt8) : Prop :=
  ∀ data r, tier1.read path = some data → Reader.ofContent K₁ path data = .ok r →
    ReadsToEnd K₁ fails (r.rest.length + 1) r

section Run

variable {B : Backups} {i : ι} {s : CloudRepos ι} {task : WALTask}

/-- Opening the reader: it fails, or has the stored content. -/
theorem eval_newReader (K₁ : Codec) (B : Backups) (i : ι) (s : CloudRepos ι) (task : WALTask) (cs : ℕ → Option Fault) :
    (∃ e s', (onWAL .tier1 (newReader K₁ task.clusterName task.walName)).eval (cloudSem ι B) i cs s = (.error e, s') ∧
        s'.tier2 = s.tier2) ∨
      ∃ data r s', (onWAL .tier1 (newReader K₁ task.clusterName task.walName)).eval (cloudSem ι B) i cs s = (.ok r, s') ∧
        s'.tier2 = s.tier2 ∧
        (s.repos.wal .tier1).read (getWALArchivePath task.clusterName task.walName) = some data ∧
        ofContent K₁ (getWALArchivePath task.clusterName task.walName) data = .ok r := by
  have hread : ∀ data, (Fs.exec (M := Msg) (.readFile (getWALArchivePath task.clusterName task.walName)) (ioFault (cs 0))
      (s.repos.wal .tier1)).1 = (.ok data : Except FsErr (List UInt8)) →
      (s.repos.wal .tier1).read (getWALArchivePath task.clusterName task.walName) = some data :=
    fun data h => Fs.read_of_readFile h
  obtain ⟨s', hans, hs'⟩ : ∃ s' : CloudRepos ι,
      (cloudSem ι B).exec i (.wal .tier1 (.readFile (getWALArchivePath task.clusterName task.walName))) (cs 0) s =
        ((Fs.exec (M := Msg) (.readFile (getWALArchivePath task.clusterName task.walName)) (ioFault (cs 0))
          (s.repos.wal .tier1)).1, s') ∧ s'.tier2 = s.tier2 := ⟨_, rfl, rfl⟩
  simp only [newReader, onWAL, Prog.eval, hans]
  generalize (Fs.exec (M := Msg) (.readFile (getWALArchivePath task.clusterName task.walName)) (ioFault (cs 0))
    (s.repos.wal .tier1)).1 = ans at hread
  rcases ans with e | data
  · -- a directory is reported in another way, but it is an error too
    cases e <;> exact .inl ⟨_, s', rfl, hs'⟩
  cases hr : ofContent K₁ (getWALArchivePath task.clusterName task.walName) data with
  | error e => exact .inl ⟨e, s', by simp only [hr, onWAL, Prog.eval], hs'⟩
  | ok r => exact .inr ⟨data, r, s', by simp only [hr, onWAL, Prog.eval], hs', hread data rfl, hr⟩

theorem cloud_tells {path : Path} {old s : CloudRepos ι} {ph : Stage.Phase UInt8} {o : RepoOp} {c : Option Fault}
    (ha : (copyProto path).allowed ph o) (h : Tells path old.tier2 s.tier2 ph) :
    Tells path old.tier2 ((cloudSem ι B).exec i o c s).2.tier2 ((copyProto path).next ph o ((cloudSem ι B).exec i o c s).1) := by
  cases o with
  | wal tier o =>
    cases tier with
    | tier1 => exact ha.elim
    | tier2 => exact exec_tells ha h (ioFault c)
  | _ => exact ha.elim

theorem cloud_unbroken {path : Path} {s : CloudRepos ι} {ph : Stage.Phase UInt8} {o : RepoOp}
    (ha : (copyProto path).allowed ph o) (h : ph ≠ .broken) :
    (copyProto path).next ph o ((cloudSem ι B).exec i o none s).1 ≠ .broken := by
  cases o with
  | wal tier o =>
    cases tier with
    | tier1 => exact ha.elim
    | tier2 => exact exec_unbroken ha h
  | _ => exact ha.elim

/-- **The copy from an open reader, run.** -/
theorem eval_copyWAL (K₁ : Codec) (B : Backups) (i : ι) (s : CloudRepos ι) (task : WALTask) (hs : HeaderShort K₂)
    {rand : ℕ → ℕ} (hdr : Draws K₂ rand) (fails : ℕ → Bool) (r : Reader)
    (cs : ℕ → Option Fault) :
    match ((copyWAL K₁ K₂ rand fails task r).eval (cloudSem ι B) i cs s).1 with
    | .ok _ => ReadsToEnd K₁ fails (r.rest.length + 1) r ∧
        ∃ d, ((copyWAL K₁ K₂ rand fails task r).eval (cloudSem ι B) i cs s).2.tier2.objects
            (getWALArchivePath task.clusterName task.walName) = some d ∧
          Image K₂ r.getFileLength d (r.readAll K₁ fails (r.rest.length + 1)).1.flatten
    | .error _ => ReadsToEnd K₁ fails (r.rest.length + 1) r →
        ((copyWAL K₁ K₂ rand fails task r).eval (cloudSem ι B) i cs s).2.tier2.objects = s.tier2.objects := by
  obtain ⟨ph, htells, hend⟩ := eval_sat (M := cloudSem ι B) (i := i)
    (fun s' ph => Tells (getWALArchivePath task.clusterName task.walName) s.tier2 s'.tier2 ph) (fun _ => True)
    (fun s' ph o c h ha _ => cloud_tells (o := o) ha h) (copyWAL K₁ K₂ rand fails task r) .start cs s
    (copyWAL_sat hs hdr fails task r) rfl fun _ => trivial
  generalize (copyWAL K₁ K₂ rand fails task r).eval (cloudSem ι B) i cs s = out at htells hend ⊢
  obtain ⟨res, s'⟩ := out
  cases res with
  | ok _ =>
    obtain ⟨hends, d, n, rfl, him⟩ := hend
    refine ⟨hends, d, ?_, him⟩
    have hobj : s'.tier2.objects = Function.update s.tier2.objects _ (some d) := htells
    rw [hobj, Function.update_self]
  | error e =>
    intro hends
    rcases hend with rfl | ⟨hno, -⟩
    · exact htells
    · exact absurd hends hno

/-- **Reading has failed**: without other faults the copy fails and has published something. -/
theorem eval_copyWAL_unread (B : Backups) (i : ι) (s : CloudRepos ι) (task : WALTask) (hs : HeaderShort K₂)
    {rand : ℕ → ℕ} (hdr : Draws K₂ rand) {fails : ℕ → Bool} {r : Reader}
    (hno : ¬ ReadsToEnd K₁ fails (r.rest.length + 1) r) :
    ∃ e s' d, (copyWAL K₁ K₂ rand fails task r).eval (cloudSem ι B) i (fun _ => none) s = (.error e, s') ∧
      s'.tier2.objects (getWALArchivePath task.clusterName task.walName) = some d := by
  obtain ⟨ph, ⟨htells, hunbroken⟩, hend⟩ := eval_sat (M := cloudSem ι B) (i := i)
    (fun s' ph => Tells (getWALArchivePath task.clusterName task.walName) s.tier2 s'.tier2 ph ∧ ph ≠ .broken)
    (fun c => c = none)
    (fun s' ph o c h ha hc => by rw [hc]; exact ⟨cloud_tells (o := o) ha h.1, cloud_unbroken ha h.2⟩)
    (copyWAL K₁ K₂ rand fails task r) .start (fun _ => none) s
    (copyWAL_sat hs hdr fails task r) ⟨rfl, nofun⟩ fun _ => rfl
  generalize (copyWAL K₁ K₂ rand fails task r).eval (cloudSem ι B) i (fun _ => none) s = out at htells hend ⊢
  obtain ⟨res, s'⟩ := out
  cases res with
  | ok _ => exact absurd hend.1 hno
  | error e =>
    rcases hend with hbroken | ⟨-, d, n, rfl⟩
    · exact absurd hbroken hunbroken
    · have hobj : s'.tier2.objects = Function.update s.tier2.objects _ (some d) := htells
      exact ⟨e, s', d, rfl, by rw [hobj, Function.update_self]⟩

theorem eval_walHandler (K₁ K₂ : Codec) (B : Backups) (i : ι) (s : CloudRepos ι) (task : WALTask) (rand : ℕ → ℕ)
    (fails : ℕ → Bool) (cs : ℕ → Option Fault) :
    (∃ e s', (walHandler K₁ K₂ rand fails task).eval (cloudSem ι B) i cs s = (.error e, s') ∧ s'.tier2 = s.tier2) ∨
      ∃ data r s' cs', (walHandler K₁ K₂ rand fails task).eval (cloudSem ι B) i cs s =
          (copyWAL K₁ K₂ rand fails task r).eval (cloudSem ι B) i cs' s' ∧ s'.tier2 = s.tier2 ∧
        (s.repos.wal .tier1).read (getWALArchivePath task.clusterName task.walName) = some data ∧
        ofContent K₁ (getWALArchivePath task.clusterName task.walName) data = .ok r := by
  obtain ⟨n, hn⟩ := eval_bind (M := cloudSem ι B) i (copyWAL K₁ K₂ rand fails task)
    ((onWAL .tier1 (newReader K₁ task.clusterName task.walName)).mapErr
      (.wrap "while creating a new WAL reader: %w" [])) cs s
  rw [eval_mapErr] at hn
  unfold walHandler
  rw [hn]
  rcases eval_newReader K₁ B i s task cs with
    ⟨e, s', heq, hs'⟩ | ⟨data, r, s', heq, hs', hread, hr⟩
  · rw [heq]
    exact .inl ⟨_, s', rfl, hs'⟩
  · rw [heq]
    exact .inr ⟨data, r, s', _, rfl, hs', hread, hr⟩

/-- A file with a header that is there is opened, without faults. -/
theorem eval_walHandler_of_read (K₂ : Codec) (B : Backups) (i : ι) (rand : ℕ → ℕ) (fails : ℕ → Bool) {data : List UInt8}
    {r : Reader}
    (hread : (s.repos.wal .tier1).read (getWALArchivePath task.clusterName task.walName) = some data)
    (hr : ofContent K₁ (getWALArchivePath task.clusterName task.walName) data = .ok r) :
    ∃ s', (walHandler K₁ K₂ rand fails task).eval (cloudSem ι B) i (fun _ => none) s =
        (copyWAL K₁ K₂ rand fails task r).eval (cloudSem ι B) i (fun _ => none) s' ∧ s'.tier2 = s.tier2 := by
  obtain ⟨n, hn⟩ := eval_bind (M := cloudSem ι B) i (copyWAL K₁ K₂ rand fails task)
    ((onWAL .tier1 (newReader K₁ task.clusterName task.walName)).mapErr
      (.wrap "while creating a new WAL reader: %w" [])) (fun _ => none) s
  have hfile : (Fs.exec (M := Msg) (.readFile (getWALArchivePath task.clusterName task.walName)) none
      (s.repos.wal .tier1)).1 = (.ok data : Except FsErr (List UInt8)) := by
    simp only [Fs.exec, hread]
    rfl
  obtain ⟨s', hans, hs'⟩ : ∃ s' : CloudRepos ι,
      (cloudSem ι B).exec i (.wal .tier1 (.readFile (getWALArchivePath task.clusterName task.walName))) none s =
        ((.ok data : Except FsErr (List UInt8)), s') ∧ s'.tier2 = s.tier2 := ⟨_, Prod.ext hfile rfl, rfl⟩
  have hopen : (onWAL .tier1 (newReader K₁ task.clusterName task.walName)).eval (cloudSem ι B) i (fun _ => none) s =
      (.ok r, s') := by
    simp only [newReader, onWAL, Prog.eval, hans, hr]
  refine ⟨s', ?_, hs'⟩
  unfold walHandler
  rw [hn, eval_mapErr, hopen]
  rfl

end Run

/-- **The copy on tier 2 is all or nothing** exactly if reading the file of tier 1 ends with the end of
the file. For every content of tier 2 and all faults of its operations. -/
theorem tier2_copy_all_or_nothing_iff (K₁ K₂ : Codec) (hs : HeaderShort K₂) (rand : ℕ → ℕ) (hdr : Draws K₂ rand)
    (fails : ℕ → Bool) (task : WALTask) (B : Backups) (i : ι) (tier1 : Fs Name UInt8) :
    (∀ (s : CloudRepos ι) (cs : ℕ → Option Fault), s.repos.wal .tier1 = tier1 →
      AllOrNothing K₁ K₂ (getWALArchivePath task.clusterName task.walName) s
        ((walHandler K₁ K₂ rand fails task).eval (cloudSem ι B) i cs s)) ↔
      ReadsClean K₁ fails (getWALArchivePath task.clusterName task.walName) tier1 := by
  constructor
  · intro h data r hread hr
    by_contra hno
    -- with nothing on tier 2 and no fault there, the blocks read so far are published
    obtain ⟨s', heq, hs'⟩ := eval_walHandler_of_read K₂ B i rand fails
      (s := ⟨⟨fun _ => [], fun _ => tier1, fun _ => [], []⟩, { objects := fun _ => none }⟩) hread hr
    obtain ⟨e, s'', d, hcopy, hd⟩ := eval_copyWAL_unread B i s' task hs hdr hno
    have hall := h ⟨⟨fun _ => [], fun _ => tier1, fun _ => [], []⟩, { objects := fun _ => none }⟩ (fun _ => none) rfl
    rw [heq, hcopy] at hall
    have hnone : s''.tier2.objects (getWALArchivePath task.clusterName task.walName) = none := hall
    rw [hnone] at hd
    cases hd
  · rintro hclean s cs rfl
    rcases eval_walHandler K₁ K₂ B i s task rand fails cs
      with ⟨e, s', heq, hs'⟩ | ⟨data, r, s', cs', heq, hs', hread, hr⟩
    · rw [heq]
      show s'.tier2.objects _ = s.tier2.objects _
      rw [hs']
    have hends := hclean data r hread hr
    have hcopy := eval_copyWAL K₁ B i s' task hs hdr fails r cs'
    rw [heq]
    generalize (copyWAL K₁ K₂ rand fails task r).eval (cloudSem ι B) i cs' s' = out at hcopy ⊢
    obtain ⟨res, s''⟩ := out
    rcases res with e | _
    · have hobj : s''.tier2.objects = s'.tier2.objects := hcopy hends
      show s''.tier2.objects _ = s.tier2.objects _
      rw [hobj, hs']
    obtain ⟨-, d, hd, him⟩ := hcopy
    obtain ⟨blocks, hdec, hflat⟩ := decode_image him
    have hblocks := readAll_of_end _ fails r hends
    obtain ⟨e, he, heof⟩ := hends
    exact ⟨data, d, hread, hd, r, _, e, _, hr, hblocks.trans (Prod.ext rfl he), heof, hdec, rfl, rfl, hflat⟩

def twoBlocksOnTier1 : Fs Name UInt8 :=
  Fs.single (getWALArchivePath "c".toList "000000010000000000000001".toList)
    (plainCodec.header 2 ++ appendFixed64 1 ++ [7] ++ appendFixed64 1 ++ [8])

/-- No snapshot has metadata of note. -/
def noBackups : Backups := ⟨fun _ => ⟨[], [], 0⟩, fun _ _ => false⟩

def twoBlocksTask : WALTask := ⟨"c".toList, "000000010000000000000001".toList⟩

/-- No file of tier 2, and no backups. -/
def onlyTwoBlocks : CloudRepos Unit :=
  ⟨⟨fun _ => [], fun _ => twoBlocksOnTier1, fun _ => [], []⟩, { objects := fun _ => none }⟩

theorem plain_headerShort : HeaderShort plainCodec := by
  intro n
  have hlen := plainStartBlock_length_le n
  have hheader : (plainCodec.header n).length = (plainStartBlock n).length + 1 := by
    rfl
  rw [hheader, tier2BufferSize]
  omega

theorem twoBlocks_readsClean :
    ReadsClean plainCodec (fun _ => false) (getWALArchivePath "c".toList "000000010000000000000001".toList)
      twoBlocksOnTier1 := by
  intro data r hread hr
  obtain rfl : plainCodec.header 2 ++ appendFixed64 1 ++ [7] ++ appendFixed64 1 ++ [8] = data := Option.some.inj hread
  obtain rfl := Except.ok.inj hr
  exact ⟨endOfFile, by decide +kernel, rfl⟩

theorem two_blocks_all_or_nothing : HeaderShort plainCodec ∧ (Draws plainCodec fun _ => 0) ∧
    ∀ (s : CloudRepos Unit) (cs : ℕ → Option Fault), s.repos.wal .tier1 = twoBlocksOnTier1 →
      AllOrNothing plainCodec plainCodec (getWALArchivePath "c".toList "000000010000000000000001".toList) s
        ((walHandler plainCodec plainCodec (fun _ => 0) (fun _ => false) twoBlocksTask).eval
          (cloudSem Unit noBackups) () cs s) :=
  ⟨plain_headerShort, plain_draws,
    (tier2_copy_all_or_nothing_iff plainCodec plainCodec plain_headerShort (fun _ => 0) plain_draws (fun _ => false)
      twoBlocksTask _ () twoBlocksOnTier1).mpr twoBlocks_readsClean⟩

/-- The outcome of the copy of `twoBlocksOnTier1`, and the object. -/
def twoBlocksCopied (fails : ℕ → Bool) : Except Err Unit × CloudRepos Unit :=
  (walHandler plainCodec plainCodec (fun _ => 0) fails twoBlocksTask).eval
    (cloudSem Unit noBackups) () (fun _ => none) onlyTwoBlocks

set_option maxRecDepth 20000 in
/-- The second block cannot be read: the handler fails, and has published the first one. -/
theorem tier2_copy_of_failed_read :
    (twoBlocksCopied fun n => n == 1).1.isOk = false ∧
      onlyTwoBlocks.tier2.objects (getWALArchivePath "c".toList "000000010000000000000001".toList) = none ∧
      (twoBlocksCopied fun n => n == 1).2.tier2.objects
        (getWALArchivePath "c".toList "000000010000000000000001".toList) =
          some (plainCodec.header 2 ++ appendFixed64 1 ++ [7]) ∧
      ¬ AllOrNothing plainCodec plainCodec (getWALArchivePath "c".toList "000000010000000000000001".toList) onlyTwoBlocks
        (twoBlocksCopied fun n => n == 1) := by
  have herr : (twoBlocksCopied fun n => n == 1).1.isOk = false := by decide +kernel
  have hobj : (twoBlocksCopied fun n => n == 1).2.tier2.objects
      (getWALArchivePath "c".toList "000000010000000000000001".toList) =
        some (plainCodec.header 2 ++ appendFixed64 1 ++ [7]) := by decide +kernel
  refine ⟨herr, rfl, hobj, fun hall => ?_⟩
  unfold AllOrNothing at hall
  split at hall
  · rename_i hres
    rw [hres] at herr
    cases herr
  · rw [hobj] at hall
    cases hall

end Klio

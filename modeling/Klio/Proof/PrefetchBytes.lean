import Klio.Proof.PrefetchOwner

/-!
# What a prefetcher serves

A download writes a file that nobody else uses meanwhile, so once it is ready the spool file is what
the server holds, and a request moves it to its target as it is.

* `Files`: what the files hold, by the phases.
* `files_step`: one step keeps it, for whoever owns the spool files.
* `served_is_held`: a request that returns has what the server holds at its target, if downloads are
  started only while no other request for the name is under way.
* `served_torn`: a run where another request is, and the target stays empty.
-/

namespace Klio

open Lib List Function PfState

variable {cfg : PrefetcherConfig} {held : Name → Option (List UInt8)} {wanted : ℕ → Wanted} {s s' : PfState}
  {φ : Goroutine → PfPhase} {i j : Goroutine} {o : PfOp} {c : PfChoice} {r : o.Res} {y z : Name} {e : ℕ} {p : Path}

/-! ## Calls -/

variable {call : GetCall}

theorem Serves.content {content got : List UInt8} (h : Serves (some content) call) (hgot : call.content = some got) :
    got = content := by
  cases call with
  | refused e => cases hgot
  | opened results last =>
    cases last with
    | some e => cases hgot
    | none =>
      cases hgot
      exact h

theorem Serves.notFound {file : Option (List UInt8)} (h : Serves file call) (hnf : call.isNotFound = true) :
    file = none := by
  rcases file with _ | content
  · rfl
  cases call with
  | refused e => exact absurd hnf (Bool.eq_false_iff.mp h)
  | opened results last =>
    cases last with
    | none => cases hnf
    | some e => exact absurd hnf (Bool.eq_false_iff.mp h)

/-! ## The invariant -/

def downloads (cfg : PrefetcherConfig) (wanted : ℕ → Wanted) : Goroutine → Stage → Option (Name × Path)
  | .request q, .direct => some ((wanted q).walName, (wanted q).targetPath)
  | .request q, .gone true => some ((wanted q).walName ++ partialSuffix, (wanted q).targetPath)
  | .worker _, .fetching y => some (y, cfg.spoolPath y)
  | _, _ => none

variable {q : ℕ} {st : Stage}

theorem downloads_request (h : downloads cfg wanted (.request q) st = some (z, p)) :
    p = (wanted q).targetPath ∧
      ((st = .direct ∧ z = (wanted q).walName) ∨ (st = .gone true ∧ z = (wanted q).walName ++ partialSuffix)) := by
  cases st <;> try cases h
  case direct => exact ⟨rfl, .inl ⟨rfl, rfl⟩⟩
  case gone b =>
    rcases b with _ | _
    · cases h
    cases h
    exact ⟨rfl, .inr ⟨rfl, rfl⟩⟩

theorem downloads_worker (h : downloads cfg wanted (.worker e) st = some (z, p)) :
    st = .fetching z ∧ p = cfg.spoolPath z := by
  cases st <;> cases h
  exact ⟨rfl, rfl⟩

/-- How far the download of `z` to `p` is. -/
def FileOk (held : Name → Option (List UInt8)) (fs : Fs Name UInt8) (z : Name) (p : Path) : FilePh → Prop
  | .idle => True
  | .opened fd => fs.Written p fd []
  | .streaming z' fd w call => z' = z ∧ fs.Written p fd w ∧ Serves (held z) call
  | .torn z' call => z' = z ∧ Serves (held z) call
  | .shut z' call whole => z' = z ∧ Serves (held z) call ∧ (whole = true → ∃ got, call.content = some got ∧ fs.read p = some got)

/-- At `p` is what the server holds of `y`. -/
def Right (held : Name → Option (List UInt8)) (fs : Fs Name UInt8) (y : Name) (p : Path) : Prop :=
  hasSuffix y partialSuffix = false → ∀ content, held y = some content → fs.read p = some content

/-- Before a goroutine downloads anything. -/
def Stage.Early : Stage → Prop
  | .start | .holds _ | .settled _ | .ready _ | .stuck _ | .clean _ => True
  | _ => False

/-- A request has its file, or knows that there is none. -/
def Obtained (held : Name → Option (List UInt8)) (fs : Fs Name UInt8) (x : Name) (target : Path) : Stage → Prop
  | .moved _ | .served => Right held fs x target
  | .gone true => held x = none
  | _ => True

/-- A goroutine has no file before it downloads, and then one that is as far as its phase says. -/
structure InOrder (cfg : PrefetcherConfig) (held : Name → Option (List UInt8)) (wanted : ℕ → Wanted) (fs : Fs Name UInt8) (i : Goroutine)
    (ph : PfPhase) : Prop where
  idle : ph.stage.Early → ph.file = .idle
  file : ∀ z p, downloads cfg wanted i ph.stage = some (z, p) → FileOk held fs z p ph.file

/-- **What the files hold.** -/
structure Files (cfg : PrefetcherConfig) (held : Name → Option (List UInt8)) (wanted : ℕ → Wanted) (s : PfState)
    (φ : Goroutine → PfPhase) : Prop where
  /-- A spool file that is ready is right, as long as it is there. -/
  spool : ∀ y e, Latest cfg s y e → (s.cells e).state = .ready →
    s.fs.read (cfg.spoolPath y) = none ∨ Right held s.fs y (cfg.spoolPath y)
  errs : ∀ y e, e < s.allocated → (s.cells e).spoolPath = cfg.spoolPath y → (s.cells e).err = some .notFound → held y = none
  tidy : ∀ i, InOrder cfg held wanted s.fs i (φ i)
  obtained : ∀ q, Obtained held s.fs (wanted q).walName (wanted q).targetPath (φ (.request q)).stage

theorem Files.init (cfg : PrefetcherConfig) (held : Name → Option (List UInt8)) (wanted : ℕ → Wanted) (fs : Fs Name UInt8) :
    Files cfg held wanted { fs := fs } fun _ => {} where
  spool _ e h := absurd h.allocated (Nat.not_lt_zero e)
  errs _ e h := absurd h (Nat.not_lt_zero e)
  tidy _ := ⟨fun _ => rfl, fun _ _ _ => trivial⟩
  obtained _ := trivial

/-- Each request has its own target, outside of the spool. -/
structure Separate (cfg : PrefetcherConfig) (wanted : ℕ → Wanted) : Prop where
  targets : ∀ q q', (wanted q).targetPath = (wanted q').targetPath → q = q'
  spool : ∀ q y, (wanted q).targetPath ≠ cfg.spoolPath y

/-! ## Who changes which file -/

def Uses (cfg : PrefetcherConfig) (wanted : ℕ → Wanted) : Goroutine → PfPhase → Path → Prop
  | .request q, ph, p => p = (wanted q).targetPath ∨
      (p = cfg.spoolPath (wanted q).walName ∧ ∃ e, ph.stage = .ready e ∨ ph.stage = .clean e)
  | .worker _, ph, p => ∃ y, ph.stage = .fetching y ∧ p = cfg.spoolPath y

theorem write_path (hfiles : Files cfg held wanted s φ) {fd : ℕ} {z' : Name} {w : List UInt8}
    (hd : downloads cfg wanted i (φ i).stage = some (z, p)) (hst : (φ i).file = .streaming z' fd w call) {p' : Path}
    (hp' : s.fs.look p' = some (s.fs.handle fd).1) : p' = p := by
  have hok := (hfiles.tidy i).file z p hd
  rw [hst] at hok
  exact Fs.look_inj hp' hok.2.1.look

variable {f : FsOp Name UInt8 Empty}

/-- A file is opened, written and closed by a download; a worker reads its file as well. -/
theorem downloads_file {ph : PfPhase} (ha : (pfProto cfg wanted i).allowed ph (.file f)) (hmoves : ¬ (PfOp.file f).Moves) :
    (∃ z p, downloads cfg wanted i ph.stage = some (z, p) ∧ ¬ ph.stage.Early ∧ ((f = .openTrunc p ∧ ph.file = .idle) ∨ fileAllowed ph.file f)) ∨
      ∃ p, f = .readFile p := by
  cases i with
  | request q =>
    have hd : ph.stage = .direct ∨ ph.stage = .gone true →
        ∃ z, downloads cfg wanted (.request q) ph.stage = some (z, (wanted q).targetPath) ∧ ¬ ph.stage.Early := by
      rintro (hst | hst) <;> rw [hst] <;> exact ⟨_, rfl, id⟩
    cases f <;> first | exact (hmoves trivial).elim | skip
    case openTrunc p =>
      obtain ⟨hidle, rfl, hst⟩ := ha
      obtain ⟨z, hz, hlate⟩ := hd hst
      exact .inl ⟨z, _, hz, hlate, .inl ⟨rfl, hidle⟩⟩
    all_goals
      obtain ⟨z, hz, hlate⟩ := hd ha.1
      exact .inl ⟨z, _, hz, hlate, .inr ha.2⟩
  | worker e =>
    cases f <;> first | exact (hmoves trivial).elim | exact .inr ⟨_, rfl⟩ | skip
    case openTrunc p =>
      obtain ⟨hidle, y, hst, rfl⟩ := ha
      exact .inl ⟨y, _, by rw [hst]; rfl, by rw [hst]; exact id, .inl ⟨rfl, hidle⟩⟩
    all_goals
      obtain ⟨⟨y, hst⟩, hopen⟩ := ha
      exact .inl ⟨y, _, by rw [hst]; rfl, by rw [hst]; exact id, .inr hopen⟩

theorem uses_download {ph : PfPhase} (hd : downloads cfg wanted i ph.stage = some (z, p)) : Uses cfg wanted i ph p := by
  cases i with
  | request q => exact .inl (downloads_request hd).1
  | worker e => exact ⟨z, downloads_worker hd⟩

theorem touches_uses (hfiles : Files cfg held wanted s φ)
    (ha : (pfProto cfg wanted i).allowed (φ i) (.file f)) (ht : s.fs.Touches f p) : Uses cfg wanted i (φ i) p := by
  by_cases hmoves : (PfOp.file f).Moves
  · cases f <;> first | exact hmoves.elim | skip
    case rename p' t =>
      cases i with
      | worker e => exact ha.2.elim
      | request q =>
        obtain ⟨⟨e, he⟩, rfl, rfl⟩ := ha
        rcases ht with rfl | rfl
        · exact .inr ⟨rfl, e, .inl he⟩
        · exact .inl rfl
    case remove p' =>
      obtain rfl : p = p' := ht
      cases i with
      | worker e => exact ha.2
      | request q =>
        rcases ha with ⟨⟨e, he⟩, rfl⟩ | ⟨-, rfl, -⟩
        · exact .inr ⟨rfl, e, .inr he⟩
        · exact .inl rfl
  · rcases downloads_file ha hmoves with ⟨z, p', hd, -, ⟨rfl, -⟩ | hopen⟩ | ⟨p', rfl⟩
    · exact ht ▸ uses_download hd
    · cases f <;> first | exact hopen.elim | exact ht.elim | skip
      obtain ⟨z', w, call, hfile⟩ := hopen
      exact write_path hfiles hd hfile ht ▸ uses_download hd
    · exact ht.elim

theorem exec_fs (h : exec cfg held i o c s = some (r, s')) : s'.fs = s.fs ∨ ∃ f, o = .file f := by
  cases o
  case file f => exact .inr ⟨f, rfl⟩
  case learn =>
    cases h
    left
    split <;> rfl
  all_goals
    left
    simp only [exec] at h
    try split at h
    all_goals try split at h
    all_goals first | (cases h; rfl) | cases h

/-- **A step leaves alone** what the goroutine does not use. -/
theorem kept_step (hfiles : Files cfg held wanted s φ) (ha : (pfProto cfg wanted i).allowed (φ i) o)
    (h : exec cfg held i o c s = some (r, s')) (hp : ¬ Uses cfg wanted i (φ i) p) : s.fs.Kept s'.fs p := by
  rcases exec_fs h with hsame | ⟨f, rfl⟩
  · rw [hsame]
    exact Fs.Kept.refl _ _
  · cases h
    exact Fs.exec_kept (fun ht => hp (touches_uses hfiles ha ht)) _

variable {ph : PfPhase}

theorem uses_target (hsep : Separate cfg wanted) (h : Uses cfg wanted i ph (wanted q).targetPath) :
    i = .request q := by
  cases i with
  | request q' =>
    rcases h with ht | ⟨hp, -⟩
    · rw [hsep.targets q q' ht]
    · exact absurd hp (hsep.spool q _)
  | worker e =>
    obtain ⟨y, -, hp⟩ := h
    exact absurd hp (hsep.spool q y)

theorem uses_spool (hsep : Separate cfg wanted) (hown : Owned cfg wanted s φ) (h : Uses cfg wanted i (φ i) (cfg.spoolPath y)) :
    ∃ e, Latest cfg s y e ∧ ((i = .worker e ∧ (φ i).stage = .fetching y ∧ (s.cells e).state = .downloading) ∨
      ∃ q, i = .request q ∧ (wanted q).walName = y ∧ ((φ i).stage = .ready e ∨ (φ i).stage = .clean e) ∧ (s.cells e).state = .ready) := by
  cases i with
  | request q =>
    rcases h with ht | ⟨hp, e, hst⟩
    · exact absurd ht.symm (hsep.spool q y)
    obtain rfl := spoolPath_inj hp
    have hok := hown.stage (.request q)
    have hready : Latest cfg s (wanted q).walName e ∧ (s.cells e).state = .ready := by
      rcases hst with hst | hst
      · rw [hst] at hok
        exact hok
      · rw [hst] at hok
        exact hok
    exact ⟨e, hready.1, .inr ⟨q, rfl, rfl, hst, hready.2⟩⟩
  | worker e =>
    obtain ⟨y', hst, hp⟩ := h
    obtain rfl := spoolPath_inj hp
    obtain ⟨hlatest, hdown⟩ := hown.fetching hst
    exact ⟨e, hlatest, .inl ⟨rfl, hst, hdown⟩⟩

/-- **Nobody else uses the file of a download.** -/
theorem downloads_alone (hsep : Separate cfg wanted) (hown : Owned cfg wanted s φ) (hji : j ≠ i)
    (hd : downloads cfg wanted j (φ j).stage = some (z, p)) : ¬ Uses cfg wanted i (φ i) p := by
  intro huse
  cases j with
  | request q =>
    obtain ⟨rfl, -⟩ := downloads_request hd
    exact hji (uses_target hsep huse).symm
  | worker e =>
    obtain ⟨hst, rfl⟩ := downloads_worker hd
    obtain ⟨hlatest, hdown⟩ := hown.fetching hst
    obtain ⟨e', hlatest', ⟨rfl, -⟩ | ⟨q, -, -, -, hready⟩⟩ := uses_spool hsep hown huse
    · exact hji (congrArg _ (hlatest.unique hlatest'))
    · rw [← hlatest.unique hlatest', hdown] at hready
      cases hready

variable {fs fs' : Fs Name UInt8}

theorem FileOk.kept {ph : FilePh} (h : FileOk held fs z p ph) (hk : fs.Kept fs' p) :
    FileOk held fs' z p ph := by
  cases ph with
  | idle => trivial
  | opened fd => exact Fs.Written.kept h hk
  | streaming z' fd w call => exact ⟨h.1, h.2.1.kept hk, h.2.2⟩
  | torn z' call => exact h
  | shut z' call whole =>
    refine ⟨h.1, h.2.1, fun hwhole => ?_⟩
    obtain ⟨got, hgot, hread⟩ := h.2.2 hwhole
    exact ⟨got, hgot, hk.same.read.trans hread⟩

theorem Right.kept (h : Right held fs y p) (hk : fs.Kept fs' p) : Right held fs' y p :=
  fun hy content hc => hk.same.read.trans (h hy content hc)

/-! ## The spool -/

theorem latest_before (hown : Owned cfg wanted s φ) (ha : (pfProto cfg wanted i).allowed (φ i) o)
    (h : exec cfg held i o c s = some (r, s')) (hl : Latest cfg s' y e) (hs : (s'.cells e).state = .ready) :
    Latest cfg s y e := by
  have hlater := later_step hown ha h
  have hlt : e < s.allocated := by
    by_contra hno
    rcases exec_allocated h with hsame | ⟨z, isPrefetch, rfl, hsucc, hcell⟩
    · exact hno (hsame ▸ hl.allocated)
    · have he := hl.allocated
      obtain rfl : e = s.allocated := by omega
      rw [hcell] at hs
      cases hs
  refine ⟨hlt, (hlater.path e hlt).symm.trans hl.path, fun e' he' hpath => ?_⟩
  exact hl.newest e' (Nat.lt_of_lt_of_le he' hlater.allocated) ((hlater.path e' he').trans hpath)

theorem ready_step (ha : (pfProto cfg wanted i).allowed (φ i) o) (h : exec cfg held i o c s = some (r, s'))
    (he : e < s.allocated) (hs : (s.cells e).state ≠ .ready) (hs' : (s'.cells e).state = .ready) :
    i = .worker e ∧ o = .setState e .ready := by
  rcases exec_cell ha h he with hsame | ⟨rfl, ⟨err, rfl, hnew⟩ | ⟨state, rfl, hnew⟩ | ⟨rfl, hnew⟩⟩
  · exact absurd (hsame ▸ hs') hs
  · rw [hnew] at hs'
    exact absurd hs' hs
  · rw [hnew] at hs'
    exact ⟨rfl, congrArg _ hs'⟩
  · rw [hnew] at hs'
    exact absurd hs' hs

theorem moved_away (fs : Fs Name UInt8) {t : Path} (ht : p ≠ t) (k : Option ℕ) :
    (Fs.exec (M := Empty) (.rename p t) k fs).2.read p = none ∨ (Fs.exec (M := Empty) (.rename p t) k fs).2 = fs := by
  cases k with
  | some n => exact .inr rfl
  | none =>
    rcases Fs.rename_cases fs p t with ⟨err, herr⟩ | ⟨ino, hlt, hlook, hok⟩
    · exact .inr (congrArg Prod.snd herr)
    left
    show (fs.rename p t).2.read p = none
    rw [hok]
    unfold Fs.read
    rw [Fs.look_link, if_neg ht, if_pos hlook]
    rfl

theorem removed_away (fs : Fs Name UInt8) (p : Path) (k : Option ℕ) :
    (Fs.exec (M := Empty) (.remove p) k fs).2.read p = none ∨ (Fs.exec (M := Empty) (.remove p) k fs).2 = fs := by
  cases k with
  | some n => exact .inr rfl
  | none =>
    left
    show (fs.remove p).2.read p = none
    unfold Fs.read
    rw [Fs.look_remove, if_pos rfl]
    rfl

theorem spool_step (hsep : Separate cfg wanted) (hown : Owned cfg wanted s φ) (hfiles : Files cfg held wanted s φ)
    (ha : (pfProto cfg wanted i).allowed (φ i) o) (h : exec cfg held i o c s = some (r, s')) (hl : Latest cfg s' y e)
    (hs : (s'.cells e).state = .ready) : s'.fs.read (cfg.spoolPath y) = none ∨ Right held s'.fs y (cfg.spoolPath y) := by
  have hl' := latest_before hown ha h hl hs
  by_cases hready : (s.cells e).state = .ready
  · have hold := hfiles.spool y e hl' hready
    by_cases huse : Uses cfg wanted i (φ i) (cfg.spoolPath y)
    · obtain ⟨e', hlatest', ⟨-, -, hdown⟩ | ⟨q, rfl, rfl, hst, -⟩⟩ := uses_spool hsep hown huse
      · rw [← hl'.unique hlatest', hready] at hdown
        cases hdown
      -- the request moves the file to its target, or removes it
      rcases exec_fs h with hsame | ⟨f, rfl⟩
      · rw [hsame]
        exact hold
      have hno : (φ (.request q)).stage ≠ .direct ∧ (φ (.request q)).stage ≠ .gone true := by
        rcases hst with hst | hst <;> rw [hst] <;> exact ⟨nofun, nofun⟩
      cases h
      cases f <;> first | exact (ha.1.elim hno.1 hno.2).elim | skip
      case openTrunc p' => exact (ha.2.2.elim hno.1 hno.2).elim
      case rename p' t =>
        obtain ⟨-, rfl, rfl⟩ := ha
        rcases moved_away s.fs (hsep.spool q _).symm c.toFault with hgone | hsame
        · exact .inl hgone
        · simp only [hsame]
          exact hold
      case remove p' =>
        rcases ha with ⟨-, rfl⟩ | ⟨-, -, hd⟩
        · rcases removed_away s.fs _ c.toFault with hgone | hsame
          · exact .inl hgone
          · simp only [hsame]
            exact hold
        · exact (hd.elim hno.1 hno.2).elim
    · have hkept := kept_step hfiles ha h huse
      rcases hold with hnone | hright
      · exact .inl (hkept.same.read.trans hnone)
      · exact .inr (hright.kept hkept)
  · -- the worker has the whole file
    obtain ⟨rfl, rfl⟩ := ready_step ha h hl'.allocated hready hs
    obtain ⟨-, y', ⟨hfailed, -⟩ | ⟨-, hst, call, whole, hfile, hwhole⟩⟩ := ha
    · cases hfailed
    obtain ⟨hlatest', -⟩ := hown.fetching hst
    obtain rfl := spoolPath_inj (hl'.path.symm.trans hlatest'.path)
    have hok := (hfiles.tidy (.worker e)).file y (cfg.spoolPath y) (by rw [hst]; rfl)
    rw [hfile] at hok
    cases h
    refine .inr fun hy content hc => ?_
    obtain ⟨got, hgot, hread⟩ := hok.2.2 (hwhole hy)
    have hserves := hok.2.1
    rw [hc] at hserves
    rw [← hserves.content hgot]
    exact hread

/-! ## Errors -/

theorem errs_step (hown : Owned cfg wanted s φ) (hfiles : Files cfg held wanted s φ) (ha : (pfProto cfg wanted i).allowed (φ i) o)
    (h : exec cfg held i o c s = some (r, s')) (he : e < s'.allocated) (hpath : (s'.cells e).spoolPath = cfg.spoolPath y)
    (herr : (s'.cells e).err = some .notFound) : held y = none := by
  have hlater := later_step hown ha h
  by_cases hold : e < s.allocated
  · have hpath' := (hlater.path e hold).symm.trans hpath
    rcases exec_cell ha h hold with hsame | ⟨rfl, ⟨err, rfl, hnew⟩ | ⟨state, rfl, hnew⟩ | ⟨rfl, hnew⟩⟩
    · exact hfiles.errs y e hold hpath' (hsame ▸ herr)
    · obtain ⟨-, y', hst, hnf⟩ := ha
      rw [hnew] at herr
      obtain ⟨call, whole, hfile, hcall⟩ := hnf (Option.some.inj herr)
      obtain rfl := spoolPath_inj (hpath'.symm.trans (hown.fetching hst).1.path)
      have hok := (hfiles.tidy (.worker e)).file y (cfg.spoolPath y) (by rw [hst]; rfl)
      rw [hfile] at hok
      exact hok.2.1.notFound hcall
    · rw [hnew] at herr
      exact hfiles.errs y e hold hpath' herr
    · rw [hnew] at herr
      exact hfiles.errs y e hold hpath' herr
  · rcases exec_allocated h with hsame | ⟨z, isPrefetch, rfl, hsucc, hcell⟩
    · exact absurd (hsame ▸ he) hold
    · obtain rfl : e = s.allocated := by omega
      rw [hcell] at herr
      cases herr

/-! ## Downloads -/

theorem fileOk_next {fs : Fs Name UInt8} {ph : FilePh}
    (hf : (f = .openTrunc p ∧ ph = .idle) ∨ fileAllowed ph f) (hok : FileOk held fs z p ph) (k : Option ℕ) :
    FileOk held (Fs.exec f k fs).2 z p (fileNext ph f (Fs.exec f k fs).1) := by
  rcases hf with ⟨rfl, rfl⟩ | hf
  · cases k with
    | some n => trivial
    | none =>
      show FileOk held (fs.openTrunc p).2 z p (fileNext .idle (.openTrunc p) (fs.openTrunc p).1)
      cases hopen : fs.openTrunc p with
      | mk res fs' =>
        cases res with
        | error err => trivial
        | ok fd => exact Fs.written_openTrunc hopen
  · cases f <;> try exact hf.elim
    case write fd bs =>
      obtain ⟨z', w, call, rfl⟩ := hf
      cases k with
      | none => exact ⟨hok.1, hok.2.1.write bs, hok.2.2⟩
      | some n => exact ⟨hok.1, hok.2.2⟩
    case close fd =>
      rcases hf with ⟨z', fd', w, call, rfl⟩ | ⟨z', call, rfl⟩
      · cases k with
        | none =>
          refine ⟨hok.1, hok.2.2, fun hwhole => ?_⟩
          exact ⟨w, of_decide_eq_true hwhole, hok.2.1.read⟩
        | some n => exact ⟨hok.1, hok.2.2, nofun⟩
      · cases k with
        | none => exact ⟨hok.1, hok.2, nofun⟩
        | some n => exact ⟨hok.1, hok.2, nofun⟩

theorem file_same (hget : ∀ y, o ≠ .get y) (hfile : ∀ f, o ≠ .file f) : (pfNext ph o r).file = ph.file := by
  cases o <;> first | exact (hget _ rfl).elim | exact (hfile _ rfl).elim | rfl | skip
  case unlock =>
    simp only [pfNext, PfPhase.unlocked]
    split <;> rfl
  case readEntry =>
    simp only [pfNext]
    split
    · split <;> rfl
    · rfl
  case deleteEntry =>
    simp only [pfNext, PfPhase.deleted]
    split <;> rfl
  case setErr =>
    simp only [pfNext]
    split <;> rfl

/-- **Where other operations lead**: nowhere, or away from a stage before the download, or behind it. -/
theorem stage_leads (ha : (pfProto cfg wanted i).allowed ph o) (hfile : ∀ f, o ≠ .file f) :
    (pfNext ph o r).stage = ph.stage ∨ ph.stage.Early ∨
      (¬ (pfNext ph o r).stage.Early ∧ downloads cfg wanted i (pfNext ph o r).stage = none) := by
  by_cases ho : o.Moves
  · cases o <;> first | exact ho.elim | exact (hfile _ rfl).elim | skip
    case unlock =>
      simp only [pfNext, PfPhase.unlocked]
      split
      · rename_i hst _
        exact .inr (.inl (by rw [hst]; trivial))
      · rename_i hst _
        exact .inr (.inl (by rw [hst]; trivial))
      · exact .inl rfl
    case deleteEntry y =>
      simp only [pfNext, PfPhase.deleted]
      split
      · exact .inr (.inr ⟨id, by cases i <;> rfl⟩)
      · rename_i e hst
        exact .inr (.inl (by rw [hst]; trivial))
      · exact .inl rfl
    case await e =>
      cases i with
      | worker q => exact ha.elim
      | request q => exact .inr (.inl (by rw [ha.2]; trivial))
    case entryErr e =>
      cases i with
      | worker q => exact ha.elim
      | request q =>
        have hst : ph.stage = .settled e := ha
        exact .inr (.inl (by rw [hst]; trivial))
    case setErr e err =>
      simp only [pfNext]
      split
      · exact .inr (.inr ⟨id, by cases i <;> rfl⟩)
      · exact .inl rfl
    case setState e state => exact .inr (.inr ⟨id, by cases i <;> rfl⟩)
    case job e =>
      cases i with
      | request q => exact ha.elim
      | worker q => exact .inr (.inl (by rw [ha.2]; trivial))
  · exact .inl (stage_same ho)

theorem InOrder.of_idle (h : ph.file = .idle) : InOrder cfg held wanted fs i ph := ⟨fun _ => h, fun _ _ _ => by rw [h]; trivial⟩

theorem tidy_removed {p' : Path} (ha : (pfProto cfg wanted i).allowed ph (.file (.remove p')))
    (h : InOrder cfg held wanted fs i ph) : InOrder cfg held wanted fs' i ph.removed := by
  cases i with
  | request q =>
    rcases ha with ⟨⟨e, hst⟩, -⟩ | ⟨-, -, hst | hst⟩
    · have hidle := h.idle (by rw [hst]; trivial)
      exact .of_idle (by simp only [PfPhase.removed, hst, hidle])
    · exact .of_idle (by simp only [PfPhase.removed, hst])
    · exact .of_idle (by simp only [PfPhase.removed, hst])
  | worker e =>
    obtain ⟨⟨z', call, whole, hfile⟩, y, hst, -⟩ := ha
    have hok := h.file y (cfg.spoolPath y) (by rw [hst]; rfl)
    rw [hfile] at hok
    simp only [PfPhase.removed, hst, hfile]
    refine ⟨False.elim, fun z p hd => ?_⟩
    cases hd
    exact ⟨hok.1, hok.2.1, by simp⟩

/-- A call is made for the file of the download. -/
theorem downloads_get (ha : (pfProto cfg wanted i).allowed ph (.get y)) : (∃ fd, ph.file = .opened fd) ∧ ¬ ph.stage.Early ∧
    ∀ z p, downloads cfg wanted i ph.stage = some (z, p) → y = z := by
  cases i with
  | request q =>
    refine ⟨ha.1, ?_⟩
    rcases ha.2 with ⟨hst, rfl⟩ | ⟨hst, rfl⟩
    all_goals
      rw [hst]
      refine ⟨id, fun z p hd => ?_⟩
      cases hd
      rfl
  | worker e =>
    rw [ha.2]
    refine ⟨ha.1, id, fun z p hd => ?_⟩
    cases hd
    rfl

/-- **The own file**, over one step. -/
theorem tidy_next (hfiles : Files cfg held wanted s φ) (ha : (pfProto cfg wanted i).allowed (φ i) o)
    (h : exec cfg held i o c s = some (r, s')) : InOrder cfg held wanted s'.fs i (pfNext (φ i) o r) := by
  have hold := hfiles.tidy i
  by_cases hfile : ∃ f, o = .file f
  · obtain ⟨f, rfl⟩ := hfile
    by_cases hmoves : (PfOp.file f).Moves
    · cases f <;> first | exact hmoves.elim | skip
      case remove p' => exact tidy_removed ha hold
      case rename p' t =>
        cases i with
        | worker e => exact ha.2.elim
        | request q =>
          obtain ⟨⟨e, hst⟩, -⟩ := ha
          have hidle := hold.idle (by rw [hst]; trivial)
          refine .of_idle (Eq.trans ?_ hidle)
          simp only [pfNext]
          split <;> rfl
    · have hnext : (pfNext (φ i) (.file f) r).file = fileNext (φ i).file f r := by
        cases f <;> first | exact (hmoves trivial).elim | rfl
      have hstage : (pfNext (φ i) (.file f) r).stage = (φ i).stage := stage_same hmoves
      cases h
      rcases downloads_file ha hmoves with ⟨z', p', hd', hlate, hopen⟩ | ⟨p', rfl⟩
      · refine ⟨fun hearly => absurd (hstage ▸ hearly) hlate, fun z p hd => ?_⟩
        rw [hstage, hd'] at hd
        cases hd
        rw [hnext]
        exact fileOk_next hopen (hold.file _ _ hd') _
      · rw [Fs.exec_readOnly (o := .readFile p') trivial]
        exact hold
  · rw [(exec_fs h).resolve_right hfile]
    by_cases hget : ∃ y, o = .get y
    · obtain ⟨y, rfl⟩ := hget
      obtain ⟨⟨fd, hfd⟩, hlate, hy⟩ := downloads_get ha
      have hstage : (pfNext (φ i) (.get y) r).stage = (φ i).stage := stage_same id
      refine ⟨fun hearly => absurd (hstage ▸ hearly) hlate, fun z p hd => ?_⟩
      rw [hstage] at hd
      obtain rfl := hy z p hd
      have hok := hold.file y p hd
      rw [hfd] at hok
      simp only [exec] at h
      split at h
      · split at h
        · rename_i hserves
          cases h
          simp only [pfNext, hfd]
          exact ⟨rfl, hok, hserves⟩
        · cases h
      · cases h
    · have hsame : (pfNext (φ i) o r).file = (φ i).file := file_same (fun y hy => hget ⟨y, hy⟩) fun f hf => hfile ⟨f, hf⟩
      rcases stage_leads (r := r) ha fun f hf => hfile ⟨f, hf⟩ with hstage | hearly | ⟨hlate, hno⟩
      · exact ⟨fun he => hsame.trans (hold.idle (hstage ▸ he)), fun z p hd => hsame ▸ hold.file z p (hstage ▸ hd)⟩
      · exact .of_idle (hsame.trans (hold.idle hearly))
      · exact ⟨fun he => absurd he hlate, fun z p hd => by rw [hno] at hd; cases hd⟩

/-! ## Requests -/

theorem read_renamed {fs : Fs Name UInt8} {t : Path} {k : Option ℕ}
    (h : (Fs.exec (M := Empty) (.rename p t) k fs).1 = (.ok () : Except FsErr Unit)) :
    (Fs.exec (M := Empty) (.rename p t) k fs).2.read t = fs.read p ∧ fs.read p ≠ none := by
  cases k with
  | some n => cases h
  | none =>
    rcases Fs.rename_cases fs p t with ⟨err, herr⟩ | ⟨ino, hlt, hlook, hok⟩
    · have hno : (fs.rename p t).1 = (.ok () : Except FsErr Unit) := h
      rw [herr] at hno
      cases hno
    have hread : fs.read p = some (fs.data ino) := by
      unfold Fs.read
      rw [hlook]
      rfl
    have hread' : (fs.rename p t).2.read t = some (fs.data ino) := by
      rw [hok]
      unfold Fs.read
      rw [Fs.look_link, if_pos rfl]
      rfl
    exact ⟨hread'.trans hread.symm, by rw [hread]; exact nofun⟩

/-- **What a request has obtained**, after its own step. -/
theorem obtained_next (hown : Owned cfg wanted s φ) (hfiles : Files cfg held wanted s φ)
    (ha : (pfProto cfg wanted (.request q)).allowed (φ (.request q)) o)
    (h : exec cfg held (.request q) o c s = some (r, s')) :
    Obtained held s'.fs (wanted q).walName (wanted q).targetPath (pfNext (φ (.request q)) o r).stage := by
  have hok := hfiles.obtained q
  have hstage := hown.stage (.request q)
  by_cases hfile : ∃ f, o = .file f
  · obtain ⟨f, rfl⟩ := hfile
    by_cases hmoves : (PfOp.file f).Moves
    · cases f <;> first | exact hmoves.elim | skip
      case rename p t =>
        obtain ⟨⟨e, hst⟩, rfl, rfl⟩ := ha
        rw [hst] at hstage
        have hres : ∀ res : Except FsErr Unit, (Fs.exec (M := Empty) (.rename (cfg.spoolPath (wanted q).walName) (wanted q).targetPath)
            c.toFault s.fs).1 = res → Obtained held (Fs.exec (M := Empty) (.rename (cfg.spoolPath (wanted q).walName)
              (wanted q).targetPath) c.toFault s.fs).2 (wanted q).walName (wanted q).targetPath
            (pfNext (φ (.request q)) (.file (.rename (cfg.spoolPath (wanted q).walName) (wanted q).targetPath)) res).stage := by
          intro res hr
          simp only [pfNext, hst]
          rcases res with err | _
          · trivial
          obtain ⟨hread, hsome⟩ := read_renamed hr
          intro hy content hc
          rcases hfiles.spool _ e hstage.1 hstage.2 with hnone | hright
          · exact absurd hnone hsome
          · exact hread.trans (hright hy content hc)
        cases h
        exact hres _ rfl
      case remove p =>
        rcases ha with ⟨⟨e, hst⟩, -⟩ | ⟨⟨z, call, whole, hshut⟩, -, hst | hst⟩
        · simp only [pfNext, PfPhase.removed, hst]
          trivial
        · simp only [pfNext, PfPhase.removed, hst, hshut, FilePh.isNotFound]
          have hdown := (hfiles.tidy (.request q)).file _ _ (by rw [hst]; rfl)
          rw [hshut] at hdown
          cases hnf : call.isNotFound with
          | false => trivial
          | true => exact hdown.2.1.notFound hnf
        · simp only [pfNext, PfPhase.removed, hst]
          trivial
    · rw [stage_same hmoves]
      have hst : (φ (.request q)).stage = .direct ∨ (φ (.request q)).stage = .gone true := by
        cases f <;> first | exact (hmoves trivial).elim | exact ha.1 | exact ha.2.2
      rcases hst with hst | hst
      · rw [hst]
        trivial
      · rw [hst] at hok ⊢
        exact hok
  · rw [(exec_fs h).resolve_right hfile]
    by_cases ho : o.Moves
    · cases o <;> first | exact ho.elim | exact (hfile ⟨_, rfl⟩).elim | exact ha.elim | skip
      case unlock =>
        simp only [pfNext, PfPhase.unlocked]
        split
        · trivial
        · trivial
        · exact hok
      case deleteEntry y =>
        simp only [pfNext, PfPhase.deleted]
        split
        · rename_i e hst
          rw [hst] at hok
          exact hok
        · trivial
        · exact hok
      case await e =>
        simp only [pfNext]
        split <;> trivial
      case entryErr e =>
        have hst : (φ (.request q)).stage = .settled e := ha
        rw [hst] at hstage
        cases h
        simp only [pfNext]
        split
        · trivial
        rename_i err herr
        by_cases hnf : err = .notFound
        · subst hnf
          exact hfiles.errs _ e hstage.1.allocated hstage.1.path herr
        · rw [decide_eq_false hnf]
          trivial
    · rw [stage_same ho]
      exact hok

theorem Obtained.kept (h : Obtained held fs y p st) (hk : fs.Kept fs' p) :
    Obtained held fs' y p st := by
  cases st <;> try trivial
  case moved e => exact Right.kept h hk
  case served => exact Right.kept h hk
  case gone b =>
    cases b with
    | false => trivial
    | true => exact h

/-- **What the files hold, over one step.** -/
theorem files_step (hsep : Separate cfg wanted) (hown : Owned cfg wanted s φ) (hfiles : Files cfg held wanted s φ)
    (ha : (pfProto cfg wanted i).allowed (φ i) o) (h : exec cfg held i o c s = some (r, s')) :
    Files cfg held wanted s' (update φ i (pfNext (φ i) o r)) where
  spool _ _ hl hs := spool_step hsep hown hfiles ha h hl hs
  errs _ _ he hpath herr := errs_step hown hfiles ha h he hpath herr
  tidy j := by
    by_cases hji : j = i
    · subst hji
      rw [update_self]
      exact tidy_next hfiles ha h
    · rw [update_of_ne hji]
      refine ⟨(hfiles.tidy j).idle, fun z p hd => ?_⟩
      exact ((hfiles.tidy j).file z p hd).kept (kept_step hfiles ha h (downloads_alone hsep hown hji hd))
  obtained q := by
    by_cases hqi : Goroutine.request q = i
    · subst hqi
      rw [update_self]
      exact obtained_next hown hfiles ha h
    · rw [update_of_ne hqi]
      exact (hfiles.obtained q).kept (kept_step hfiles ha h fun huse => hqi (uses_target hsep huse).symm)

/-! ## Whole runs -/

theorem returned_right (hfiles : Files cfg held wanted s φ)
    (hret : requestReturns (wanted q).walName (φ (.request q))) : Right held s.fs (wanted q).walName (wanted q).targetPath := by
  have hok := hfiles.obtained q
  obtain ⟨-, hst | ⟨hst, call, whole, hshut, hwhole⟩ | hst⟩ := hret
  · rw [hst] at hok
    exact hok
  · have hdown := (hfiles.tidy (.request q)).file _ _ (by rw [hst]; rfl)
    rw [hshut] at hdown
    intro hy content hc
    obtain ⟨got, hgot, hread⟩ := hdown.2.2 (hwhole hy)
    have hserves := hdown.2.1
    rw [hc] at hserves
    rw [← hserves.content hgot]
    exact hread
  · rw [hst] at hok
    intro hy content hc
    rw [show held (wanted q).walName = none from hok] at hc
    cases hc

/-- **A prefetcher serves what the server holds**: in every schedule in which a download is started only
while no other request for its name is under way, a request that has returned has the file of the
server at its target. -/
theorem served_is_held (cfg : PrefetcherConfig) (held : Name → Option (List UInt8)) (wanted : ℕ → Wanted) (fs : Fs Name UInt8)
    (hsep : Separate cfg wanted) (es : List (Goroutine × PfChoice))
    (hes : Heeds (pfSem cfg held) (Unrivalled wanted) (prefetcher cfg wanted fs) es) (q : ℕ)
    (hcomplete : hasSuffix (wanted q).walName partialSuffix = false) (content : List UInt8)
    (hheld : held (wanted q).walName = some content)
    (hret : ((prefetcher cfg wanted fs).schedule (pfSem cfg held) es).procs (.request q) = .ret ()) :
    ((prefetcher cfg wanted fs).schedule (pfSem cfg held) es).st.fs.read (wanted q).targetPath = some content := by
  obtain ⟨φ, hk, -, hinv⟩ := schedule_proto (M := pfSem cfg held) (T := pfProto cfg wanted) (Q := pfReturns wanted) (X := pfFails)
    (fun _ => {}) (fun s φ => Owned cfg wanted s φ ∧ Files cfg held wanted s φ)
    (by
      intro s φ i c o k r st hk h0 hi hg hp ha he
      have hnext : ((pfProto cfg wanted) i).next = pfNext := by cases i <;> rfl
      rw [hnext]
      refine ⟨owned_step hi.1 ha ?_ he, files_step hsep hi.1 hi.2 ha he⟩
      -- whoever holds an entry of the name would be another request under way
      rintro y isPrefetch rfl q' hq' hy
      by_contra hentry
      obtain ⟨e, he'⟩ := Option.ne_none_iff_exists'.mp hentry
      cases i with
      | worker e => exact ha.elim
      | request p => exact hg p rfl y isPrefetch k hp q' (fun hqp => hq' (congrArg _ hqp)) hy (running_of_entry hk h0 he'))
    es (prefetcher cfg wanted fs) (fun _ => {}) (prefetcher_abides cfg wanted fs) (fun _ _ => rfl)
    ⟨Owned.init cfg wanted fs, Files.init cfg held wanted fs⟩ hes
  have hq := hk (.request q)
  rw [hret] at hq
  exact returned_right hinv.2 hq hcomplete content hheld

theorem unrivalled_single {M : WaitSem Goroutine PfOp PfOp.Res PfState PfChoice} {p : ℕ} :
    ∀ (es : List (Goroutine × PfChoice)) (sys : Sys Goroutine PfOp PfOp.Res WalErr PfState),
      (∀ q, q ≠ p → sys.started (.request q) = false) → (∀ ev ∈ es, ∀ q, ev.1 = .request q → q = p) →
      Heeds M (Unrivalled wanted) sys es := by
  intro es
  induction es with
  | nil => intro sys _ _; trivial
  | cons ev es ih =>
    intro sys hidle honly
    refine ⟨?_, ih _ ?_ fun ev' hev' => honly ev' (mem_cons_of_mem _ hev')⟩
    · intro p' hp' y isPrefetch k _ q hq _ hrun
      obtain rfl := honly ev mem_cons_self p' hp'
      rw [Sys.Running, hidle q hq] at hrun
      cases hrun.1
    · intro q hq
      rcases Sys.advance_cases M sys ev.1 ev.2 with hsame | ⟨o, k, r, st, -, -, hnext⟩
      · rw [hsame]
        exact hidle q hq
      · have hne : Goroutine.request q ≠ ev.1 := fun heq => hq (honly ev mem_cons_self q heq.symm)
        rw [hnext]
        simp only [update_of_ne hne]
        exact hidle q hq

def twoWorkers : PrefetcherConfig := newWALPrefetcher ["spool".toList] 1 2

/-- One segment, asked for again and again. -/
def sameSegment (q : ℕ) : Wanted := ⟨"000000010000000000000001".toList, [List.replicate (q + 1) 't']⟩

def emptySpool : Fs Name UInt8 := { Fs.empty with dirs := [["spool".toList]] }

theorem sameSegment_separate : Separate twoWorkers sameSegment where
  targets q q' h := by
    have hlen : (replicate (q + 1) 't').length = (replicate (q' + 1) 't').length :=
      congrArg length (head_eq_of_cons_eq h)
    rw [length_replicate, length_replicate] at hlen
    exact Nat.succ.inj hlen
  spool q y h := by cases congrArg length h

/-- A worker that downloads the segment, up to its end. -/
def workerSteps (e : ℕ) : List (Goroutine × PfChoice) :=
  [(.worker e, .none), (.worker e, .none), (.worker e, wholeFile)] ++ List.replicate 9 (.worker e, .none)

/-- One request alone, and its worker. -/
def oneRequest : List (Goroutine × PfChoice) :=
  List.replicate 5 (.request 0, .none) ++ workerSteps 0 ++ List.replicate 15 (.request 0, .none)

/-- The request for the segment returns, and the segment is at its target. -/
theorem segment_served :
    Heeds (pfSem twoWorkers bothHeld) (Unrivalled sameSegment) (prefetcher twoWorkers sameSegment emptySpool) oneRequest ∧
      ((prefetcher twoWorkers sameSegment emptySpool).schedule (pfSem twoWorkers bothHeld) oneRequest).st.fs.read
        (sameSegment 0).targetPath = some [7] := by
  have hheeds : Heeds (pfSem twoWorkers bothHeld) (Unrivalled sameSegment) (prefetcher twoWorkers sameSegment emptySpool)
      oneRequest := by
    refine unrivalled_single (p := 0) _ _ (fun _ _ => rfl) fun ev hev q hq => ?_
    have hwho : ev.1 = .request 0 ∨ ev.1 = .worker 0 := by
      have hall : ∀ ev ∈ oneRequest.map Prod.fst, ev = Goroutine.request 0 ∨ ev = .worker 0 := by decide +kernel
      exact hall _ (mem_map_of_mem hev)
    rcases hwho with hwho | hwho
    · rw [hwho] at hq
      cases hq
      rfl
    · rw [hwho] at hq
      cases hq
  refine ⟨hheeds, served_is_held twoWorkers bothHeld sameSegment emptySpool sameSegment_separate oneRequest hheeds 0 ?_ [7] rfl ?_⟩
  · decide +kernel
  · rfl

/-- Requests 0 and 1 share a download. Request 0 takes the file, request 2 starts the next download, and
request 1 still has the entry of the first one. -/
def sharedDownload : List (Goroutine × PfChoice) :=
  List.replicate 5 (.request 0, .none) ++ List.replicate 5 (.request 1, .none) ++ workerSteps 0 ++
    List.replicate 6 (.request 0, .none) ++ List.replicate 5 (.request 2, .none) ++ List.replicate 2 (.worker 1, .none) ++
    List.replicate 15 (.request 1, .none)

/-- Request 1 returns with an empty file at its target. -/
theorem served_torn :
    Separate twoWorkers sameSegment ∧ hasSuffix (sameSegment 1).walName partialSuffix = false ∧
      bothHeld (sameSegment 1).walName = some [7] ∧
      ((prefetcher twoWorkers sameSegment emptySpool).schedule (pfSem twoWorkers bothHeld) sharedDownload).procs (.request 1) = .ret () ∧
      ((prefetcher twoWorkers sameSegment emptySpool).schedule (pfSem twoWorkers bothHeld) sharedDownload).st.fs.read
        (sameSegment 1).targetPath = some [] := by
  refine ⟨sameSegment_separate, ?_, rfl, ?_, ?_⟩
  · decide +kernel
  · rfl
  · decide +kernel

end Klio

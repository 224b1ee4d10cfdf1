import Klio.Lib.Fs

/-!
# Publishing a file by writing it aside and renaming it

A writer fills a staging file and renames it to its final name when it is complete.
What such a writer may do is a protocol over `Phase`; whoever keeps it gets, on a
file system shared with other writers and subject to faults and crashes:

* `exec_frame`: an operation changes no path but the staging one and, for the rename,
  the final one;
* `exec_holds`: the staging file of a writer holds exactly what its phase says;
* `exec_smooth`: without faults, a writer whose paths are clear meets no error;
* `exec_alone`, `exec_blocked`: what a writer alone has changed, and when it cannot finish;
* `run_inv`: as long as nobody opens a staging file that another running writer uses,
  every file under a final name was published, complete, by one writer.
-/

namespace Klio.Lib.Stage

open Function Fs

variable {ι N B M E : Type}

/-- How far a writer is: `ready` once the directory exists; then `w` is what it has written to its staging file, the first `s`
bytes of it are synced. `broken` means that a file operation has failed: the writer may
close its file, but changes nothing any more. -/
inductive Phase (B : Type) where
  | start
  | ready
  | staging (fd : ℕ) (w : List B) (s : ℕ)
  | broken
  | closed (w : List B) (s : ℕ)
  | done

namespace Phase

def Open : Phase B → Prop
  | .staging _ _ _ | .closed _ _ => True
  | _ => False

end Phase

/-- A writer's paths, what it may publish, and which messages it may emit when. -/
structure Spec (N B M : Type) where
  stg : List N
  fin : List N
  Pub : List B → ℕ → Prop
  Msg : M → Phase B → Prop

def allowed (sp : Spec N B M) (ph : Phase B) : FsOp N B M → Prop
  | .mkdirAll p => ph = .start ∧ p = sp.stg.dropLast
  | .openTrunc p => ph = .ready ∧ p = sp.stg
  | .write fd _ => ∃ w s, ph = .staging fd w s
  | .sync fd => ∃ w s, ph = .staging fd w s
  | .close fd => (∃ w s, ph = .staging fd w s) ∨ ph = .broken
  | .rename p q => ∃ w s, ph = .closed w s ∧ sp.Pub w s ∧ p = sp.stg ∧ q = sp.fin
  | .remove _ => False
  | .emit m => sp.Msg m ph
  | _ => True

def next (ph : Phase B) : (o : FsOp N B M) → o.Res → Phase B
  | .mkdirAll _, r => match (r : Except FsErr Unit) with
    | .ok _ => .ready
    | .error _ => .broken
  | .openTrunc _, r => match (r : Except FsErr ℕ) with
    | .ok fd => .staging fd [] 0
    | .error _ => .broken
  | .write _ bs, r => match (r : Except FsErr Unit), ph with
    | .ok _, .staging fd w s => .staging fd (w ++ bs) s
    | _, _ => .broken
  | .sync _, r => match (r : Except FsErr Unit), ph with
    | .ok _, .staging fd w _ => .staging fd w w.length
    | _, _ => .broken
  | .close _, r => match (r : Except FsErr Unit), ph with
    | .ok _, .staging _ w s => .closed w s
    | _, _ => .broken
  | .rename _ _, r => match (r : Except FsErr Unit) with
    | .ok _ => .done
    | .error _ => .broken
  | _, _ => ph

/-- **The protocol of a staging writer.** -/
def proto (sp : Spec N B M) : Proto (FsOp N B M) FsOp.Res (Phase B) where
  allowed := allowed sp
  next := next

/-- What a writer does next, by its phase. -/
inductive Does (sp : Spec N B M) : Phase B → FsOp N B M → Prop
  | look {ph : Phase B} {o : FsOp N B M} (ho : Fs.ReadOnly o) : Does sp ph o
  | mkdirAll : Does sp .start (.mkdirAll sp.stg.dropLast)
  | openTrunc : Does sp .ready (.openTrunc sp.stg)
  | write (fd : ℕ) (w : List B) (s : ℕ) (bs : List B) : Does sp (.staging fd w s) (.write fd bs)
  | sync (fd : ℕ) (w : List B) (s : ℕ) : Does sp (.staging fd w s) (.sync fd)
  | close (fd : ℕ) (w : List B) (s : ℕ) : Does sp (.staging fd w s) (.close fd)
  | abandon (fd : ℕ) : Does sp .broken (.close fd)
  | rename (w : List B) (s : ℕ) (hpub : sp.Pub w s) : Does sp (.closed w s) (.rename sp.stg sp.fin)

theorem does_of_allowed {sp : Spec N B M} {ph : Phase B} {o : FsOp N B M} (ha : allowed sp ph o) : Does sp ph o := by
  cases o with
  | mkdirAll p => obtain ⟨rfl, rfl⟩ := ha; exact .mkdirAll
  | openTrunc p => obtain ⟨rfl, rfl⟩ := ha; exact .openTrunc
  | write fd bs => obtain ⟨w, s, rfl⟩ := ha; exact .write fd w s bs
  | sync fd => obtain ⟨w, s, rfl⟩ := ha; exact .sync fd w s
  | close fd =>
    rcases ha with ⟨w, s, rfl⟩ | rfl
    · exact .close fd w s
    · exact .abandon fd
  | rename p q => obtain ⟨w, s, rfl, hpub, rfl, rfl⟩ := ha; exact .rename w s hpub
  | remove p => exact ha.elim
  | _ => exact .look trivial

theorem next_readOnly {o : FsOp N B M} (ho : Fs.ReadOnly o) (ph : Phase B) (r : o.Res) : next ph o r = ph := by
  cases o <;> first | exact ho.elim | rfl

variable [DecidableEq N]

/-- The staging file is what the phase says. -/
def Holds (fs : Fs N B) (stg : List N) : Phase B → Prop
  | .staging fd w s => fd < fs.nextFd ∧
      ∃ ino, fs.handle fd = (ino, w.length) ∧ fs.look stg = some ino ∧ fs.data ino = w ∧ fs.synced ino = s
  | .closed w s => ∃ ino, fs.look stg = some ino ∧ fs.data ino = w ∧ fs.synced ino = s
  | _ => True

theorem holds_congr {fs fs' : Fs N B} {stg : List N} {ph : Phase B} (h : Holds fs stg ph)
    (hs : fs.Same fs' stg) (hn : fs.nextFd ≤ fs'.nextFd)
    (hf : ∀ fd w s, ph = .staging fd w s → fs'.handle fd = fs.handle fd) : Holds fs' stg ph := by
  cases ph with
  | staging fd w s =>
    obtain ⟨hfd, ino, hh, hl, hd, hy⟩ := h
    have := hs.2 ino hl
    exact ⟨by omega, ino, (hf fd w s rfl).trans hh, hs.1.trans hl, this.1.trans hd, this.2.trans hy⟩
  | closed w s =>
    obtain ⟨ino, hl, hd, hy⟩ := h
    have := hs.2 ino hl
    exact ⟨ino, hs.1.trans hl, this.1.trans hd, this.2.trans hy⟩
  | _ => trivial

variable [Inhabited B] {sp : Spec N B M} {ph : Phase B} {fs : Fs N B} {o : FsOp N B M}

variable {p : List N}

/-- **An operation of a writer changes no path but its staging path and, when it
renames, its final path.** -/
theorem exec_frame (ha : allowed sp ph o) (hh : Holds fs sp.stg ph) (c : Option ℕ)
    (hp : p ≠ sp.stg) (hr : p = sp.fin → ∀ x y, o ≠ .rename x y) : fs.Same (exec o c fs).2 p := by
  -- a handle of this writer points to the inode of its staging file
  have hino : ∀ fd w s, ph = .staging fd w s → fs.look p ≠ some (fs.handle fd).1 := by
    rintro fd w s rfl hl
    obtain ⟨-, ino, hfd, hstg, -⟩ := hh
    rw [hfd] at hl
    exact hp (look_inj hl hstg)
  cases does_of_allowed ha with
  | look ho => rw [exec_readOnly ho]; exact Fs.Same.refl fs p
  | mkdirAll =>
    obtain ⟨ds, he⟩ := exec_quiet (o := (.mkdirAll sp.stg.dropLast : FsOp N B M)) trivial c fs
    rw [he]; exact ⟨rfl, fun _ _ => ⟨rfl, rfl⟩⟩
  | openTrunc => cases c with
    | none => exact same_openTrunc hp
    | some k => exact Fs.Same.refl fs p
  | write fd w s bs => cases c with
    | none => exact same_write (hino fd w s rfl) bs
    | some k => exact same_write (hino fd w s rfl) (bs.take k)
  | sync fd w s => cases c with
    | none => exact same_sync (hino fd w s rfl)
    | some k => exact Fs.Same.refl fs p
  | close | abandon => cases c <;> exact Fs.Same.refl fs p
  | rename w s hpub => cases c with
    | none => exact same_rename hp fun h => hr h _ _ rfl
    | some k => exact Fs.Same.refl fs p

theorem exec_handle (ha : allowed sp ph o) (c : Option ℕ) {fd : ℕ} (hlt : fd < fs.nextFd)
    (hne : ∀ w s, ph ≠ .staging fd w s) :
    (exec o c fs).2.handle fd = fs.handle fd ∧ fs.nextFd ≤ (exec o c fs).2.nextFd := by
  cases does_of_allowed ha with
  | look ho => rw [exec_readOnly ho]; exact ⟨rfl, Nat.le_refl _⟩
  | mkdirAll =>
    obtain ⟨ds, he⟩ := exec_quiet (o := (.mkdirAll sp.stg.dropLast : FsOp N B M)) trivial c fs
    rw [he]; exact ⟨rfl, Nat.le_refl _⟩
  | openTrunc => cases c with
    | none =>
      rcases openTrunc_cases fs sp.stg with ⟨e, he⟩ | ⟨i, fs', he, -, -, -, hh, hn⟩
      · simp only [exec, he]; exact ⟨trivial, Nat.le_refl _⟩
      · simp only [exec, he, hh, hn]
        exact ⟨update_of_ne (by omega) _ _, by omega⟩
    | some k => exact ⟨rfl, Nat.le_refl _⟩
  | write fd' w s bs =>
    have hfd : fd ≠ fd' := by
      rintro rfl; exact hne w s rfl
    cases c <;> exact ⟨update_of_ne hfd _ _, Nat.le_refl _⟩
  | sync | close | abandon => cases c <;> exact ⟨rfl, Nat.le_refl _⟩
  | rename w s hpub => cases c with
    | none =>
      rcases rename_cases fs sp.stg sp.fin with ⟨e, he⟩ | ⟨i, hi, -, he⟩
      · simp only [exec, he]; exact ⟨trivial, Nat.le_refl _⟩
      · simp only [exec, he]; exact ⟨rfl, Nat.le_refl _⟩
    | some k => exact ⟨rfl, Nat.le_refl _⟩

/-- **The staging file of a writer stays what its phase says.** -/
theorem exec_holds (ha : allowed sp ph o) (hh : Holds fs sp.stg ph) (c : Option ℕ) :
    Holds (exec o c fs).2 sp.stg (next ph o (exec o c fs).1) := by
  cases does_of_allowed ha with
  | look ho => rw [exec_readOnly ho, next_readOnly ho]; exact hh
  | mkdirAll =>
    simp only [next]
    split <;> trivial
  | openTrunc => cases c with
    | none =>
      rcases openTrunc_cases fs sp.stg with ⟨e, he⟩ | ⟨i, fs', he, hl, hd, hs, hf, hn⟩
      · simp only [exec, he, next]; trivial
      · simp only [exec, he, next]
        exact ⟨by omega, i, by rw [hf, update_self]; rfl, hl, hd, hs⟩
    | some k => trivial
  | write fd w s bs =>
    obtain ⟨hlt, ino, hf, hl, hd, hs⟩ := hh
    cases c with
    | none =>
      refine ⟨hlt, ino, ?_, hl, ?_, hs⟩
      · simp [exec, write, hf]
      · simp [exec, write, hf, hd, patch_append]
    | some k => trivial
  | sync fd w s =>
    obtain ⟨hlt, ino, hf, hl, hd, hs⟩ := hh
    cases c with
    | none => exact ⟨hlt, ino, hf, hl, hd, by simp [exec, sync, hf, hd]⟩
    | some k => trivial
  | close fd w s =>
    obtain ⟨-, ino, -, hl, hd, hs⟩ := hh
    cases c with
    | none => exact ⟨ino, hl, hd, hs⟩
    | some k => trivial
  | abandon => cases c <;> trivial
  | rename w s hpub => cases c with
    | none =>
      rcases rename_cases fs sp.stg sp.fin with ⟨e, he⟩ | ⟨i, hi, -, he⟩ <;> simp only [exec, he, next] <;> trivial
    | some k => trivial

omit [DecidableEq N] [Inhabited B] in
/-- A writer gets hold of its staging file only by opening it. -/
theorem open_next (ha : allowed sp ph o) {r : o.Res} (h : (next ph o r).Open) :
    ph.Open ∨ ∃ p, o = .openTrunc p := by
  cases does_of_allowed ha with
  | look ho => rw [next_readOnly ho] at h; exact .inl h
  | openTrunc => exact .inr ⟨_, rfl⟩
  | mkdirAll => cases (r : Except FsErr Unit) <;> exact h.elim
  | abandon => cases (r : Except FsErr Unit) <;> exact h.elim
  | _ => exact .inl trivial

omit [DecidableEq N] [Inhabited B] in
/-- Whoever changes a file has its staging file open, or is opening it. -/
theorem open_of_not_quiet (ha : allowed sp ph o) (hq : ¬ Fs.Quiet o) : ph.Open ∨ ∃ p, o = .openTrunc p := by
  cases does_of_allowed ha with
  | look ho => exact absurd (quiet_of_readOnly ho) hq
  | openTrunc => exact .inr ⟨_, rfl⟩
  | mkdirAll | abandon => exact absurd trivial hq
  | _ => exact .inl trivial

theorem exec_rename {x y : List N} (ha : allowed sp ph (.rename x y : FsOp N B M)) (c : Option ℕ) :
    ((exec (.rename x y : FsOp N B M) c fs).2 = fs ∧
        next ph (.rename x y : FsOp N B M) (exec (.rename x y : FsOp N B M) c fs).1 = .broken) ∨
      ∃ w s, ph = .closed w s ∧ sp.Pub w s ∧ ∃ ino, ∃ hi : ino < fs.nextIno, fs.look sp.stg = some ino ∧
        (exec (.rename x y : FsOp N B M) c fs).2 = fs.link sp.fin ino hi ∧
        next ph (.rename x y : FsOp N B M) (exec (.rename x y : FsOp N B M) c fs).1 = .done := by
  obtain ⟨w, s, hph, hpub, rfl, rfl⟩ := ha
  cases c with
  | some k => exact .inl ⟨rfl, rfl⟩
  | none =>
    rcases rename_cases fs sp.stg sp.fin with ⟨e, he⟩ | ⟨i, hi, hs, he⟩
    · left
      simp only [exec, he, next]
      exact ⟨trivial, trivial⟩
    · right
      refine ⟨w, s, hph, hpub, i, hi, hs, ?_⟩
      simp only [exec, he, next]
      exact ⟨trivial, trivial⟩

omit [Inhabited B] in
theorem look_link_self {i : ℕ} (hi : i < fs.nextIno) : (fs.link p i hi).look p = some i := by
  rw [look_link, if_pos rfl]

/-- Where the final name points after an operation: to a file that was there before, or to
what the writer has published. -/
theorem exec_final (ha : allowed sp ph o) (hh : Holds fs sp.stg ph) (c : Option ℕ) {ino : ℕ}
    (hp : p ≠ sp.stg) (hl : (exec o c fs).2.look p = some ino) :
    fs.Same (exec o c fs).2 p ∨
      p = sp.fin ∧ sp.Pub ((exec o c fs).2.data ino) ((exec o c fs).2.synced ino) := by
  by_cases hr : p = sp.fin → ∀ x y, o ≠ .rename x y
  · exact .inl (exec_frame ha hh c hp hr)
  push Not at hr
  obtain ⟨rfl, x, y, rfl⟩ := hr
  rcases exec_rename ha c with ⟨he, -⟩ | ⟨w, s, rfl, hpub, i, hi, hs, he, -⟩
  · left
    rw [he]
    exact Fs.Same.refl fs _
  right
  obtain ⟨ino', hl', hd, hy⟩ := hh
  obtain rfl : i = ino' := Option.some.inj (hs.symm.trans hl')
  rw [he, look_link_self] at hl
  obtain rfl := Option.some.inj hl
  refine ⟨rfl, ?_⟩
  rw [he]
  show sp.Pub (fs.data i) (fs.synced i)
  rw [hd, hy]; exact hpub

/-! ## Without faults -/

/-- Nothing at the writer's paths is in its way. -/
def Clear (sp : Spec N B M) (fs : Fs N B) : Prop :=
  ¬ fs.IsDir sp.stg ∧ ((∃ w s, sp.Pub w s) → ¬ fs.IsDir sp.fin ∧ sp.fin ∉ Fs.ancestors sp.stg.dropLast)

/-- A writer that has met no error and will meet none. -/
def Smooth (sp : Spec N B M) (fs : Fs N B) (ph : Phase B) : Prop :=
  Holds fs sp.stg ph ∧ Clear sp fs ∧ match ph with
    | .start => ∀ d ∈ Fs.ancestors sp.stg.dropLast, fs.look d = none
    | .ready => fs.IsDir sp.stg.dropLast
    | .broken => False
    | .done => ∃ ino, fs.look sp.fin = some ino ∧ sp.Pub (fs.data ino) (fs.synced ino)
    | _ => True

omit [Inhabited B] in
theorem Clear.mkdirs (h : Clear sp fs) : Clear sp (fs.mkdirs (ancestors sp.stg.dropLast)) := by
  obtain ⟨h1, h2⟩ := h
  refine ⟨fun hd => ?_, fun hp => ⟨fun hd => ?_, (h2 hp).2⟩⟩
  · rcases isDir_mkdirs.1 hd with hd | hd
    · exact h1 hd
    -- a proper prefix is shorter
    have hlen := (mem_ancestors.1 hd).1.length_le
    have hne : sp.stg ≠ [] := fun h0 => h1 (.inl h0)
    have := List.length_pos_iff.2 hne
    rw [List.length_dropLast] at hlen
    omega
  · rcases isDir_mkdirs.1 hd with hd | hd
    · exact (h2 hp).1 hd
    · exact (h2 hp).2 hd

theorem exec_dirs (ha : allowed sp ph o) (hph : ph ≠ .start) (c : Option ℕ) : (exec o c fs).2.dirs = fs.dirs := by
  cases does_of_allowed ha with
  | look ho => rw [exec_readOnly ho]
  | mkdirAll => exact absurd rfl hph
  | openTrunc => cases c with
    | none =>
      simp only [exec, openTrunc]
      split
      · rfl
      split
      · rfl
      split <;> rfl
    | some k => rfl
  | rename => cases c with
    | none =>
      rcases rename_cases fs sp.stg sp.fin with ⟨e, he⟩ | ⟨i, hi, -, he⟩
      · simp only [exec, he]
      · simp only [exec, he]; rfl
    | some k => rfl
  | _ => cases c <;> rfl

/-- **Without faults a writer whose paths are clear meets no error.** -/
theorem exec_smooth (ha : allowed sp ph o) (h : Smooth sp fs ph) :
    Smooth sp (exec o none fs).2 (next ph o (exec o none fs).1) := by
  obtain ⟨hh, hc, hph⟩ := h
  have hc' : ph ≠ .start → Clear sp (exec o none fs).2 := by
    intro hst
    unfold Clear Fs.IsDir at hc ⊢; rwa [exec_dirs ha hst none]
  have hh' := exec_holds ha hh none
  cases does_of_allowed ha with
  | look ho => rw [exec_readOnly ho, next_readOnly ho]; exact ⟨hh, hc, hph⟩
  | mkdirAll =>
    have hnone : ((ancestors sp.stg.dropLast).any fun d => (fs.look d).isSome) = false := by
      rw [List.any_eq_false]
      intro d hd
      rw [hph d hd]; decide
    simp only [exec, hnone, Bool.false_eq_true, if_false, next]
    refine ⟨trivial, hc.mkdirs, ?_⟩
    rw [isDir_mkdirs]
    by_cases h0 : sp.stg.dropLast = []
    · exact .inl (.inl h0)
    · exact .inr (mem_ancestors.2 ⟨List.prefix_rfl, h0⟩)
  | openTrunc =>
    refine ⟨hh', hc' (by simp), ?_⟩
    simp only [exec, next, openTrunc_ok hc.1 hph]
  | write | sync | close => exact ⟨hh', hc' (by simp), trivial⟩
  | abandon => exact hph.elim
  | rename w s hpub =>
    refine ⟨hh', hc' (by simp), ?_⟩
    obtain ⟨ino, hl, hd, hy⟩ := hh
    have hok := rename_ok hl (hc.2 ⟨w, s, hpub⟩).1
    rcases rename_cases fs sp.stg sp.fin with ⟨e, he⟩ | ⟨i, hi, hs, he⟩
    · rw [he] at hok; cases hok
    simp only [exec, he, next]
    obtain rfl : i = ino := by rw [hs] at hl; exact Option.some.inj hl
    refine ⟨i, by rw [look_link, if_pos rfl], ?_⟩
    show sp.Pub (fs.data i) (fs.synced i)
    rw [hd, hy]; exact hpub

/-! ## A writer alone -/

omit [DecidableEq N] [Inhabited B] in
/-- Once it is done a writer changes nothing. -/
theorem readOnly_of_done (ha : allowed sp .done o) : Fs.ReadOnly o := by
  cases does_of_allowed ha with
  | look ho => exact ho

omit [DecidableEq N] [Inhabited B] in
theorem next_eq_done (ha : allowed sp ph o) {r : o.Res} (h : next ph o r = .done) :
    (ph = .done ∧ Fs.ReadOnly o) ∨ ∃ x y, o = .rename x y := by
  cases does_of_allowed ha with
  | look ho => rw [next_readOnly ho] at h; exact .inl ⟨h, ho⟩
  | rename => exact .inr ⟨_, _, rfl⟩
  | openTrunc => cases (r : Except FsErr ℕ) <;> cases h
  | _ => cases (r : Except FsErr Unit) <;> cases h

/-- A writer is done after an operation that changes nothing, or after it has renamed its file. -/
theorem exec_done (ha : allowed sp ph o) (c : Option ℕ) (hd : next ph o (exec o c fs).1 = .done) :
    (ph = .done ∧ (exec o c fs).2 = fs) ∨ ∃ w s, ph = .closed w s ∧ sp.Pub w s ∧
      ∃ ino, ∃ hi : ino < fs.nextIno, fs.look sp.stg = some ino ∧ (exec o c fs).2 = fs.link sp.fin ino hi := by
  rcases next_eq_done ha hd with ⟨rfl, ho⟩ | ⟨x, y, rfl⟩
  · exact .inl ⟨rfl, exec_readOnly ho c fs⟩
  rcases exec_rename ha c with ⟨-, hb⟩ | ⟨w, s, rfl, hpub, i, hi, hs, he, -⟩
  · rw [hb] at hd; cases hd
  · exact .inr ⟨w, s, rfl, hpub, i, hi, hs, he⟩

/-- The staging file was opened. -/
def opens : (o : FsOp N B M) → o.Res → Bool
  | .openTrunc _, r => match (r : Except FsErr ℕ) with
    | .ok _ => true
    | .error _ => false
  | _, _ => false

omit [DecidableEq N] [Inhabited B] in
/-- Nobody holds a staging file without having opened it. -/
theorem open_or_done_next (ha : allowed sp ph o) {r : o.Res} (h : (next ph o r).Open ∨ next ph o r = .done) :
    (ph.Open ∨ ph = .done) ∨ opens o r = true := by
  cases does_of_allowed ha with
  | look ho => rw [next_readOnly ho] at h; exact .inl h
  | openTrunc =>
    right
    cases (r : Except FsErr ℕ) with
    | ok fd => rfl
    | error e => rcases h with h | h <;> cases h
  | mkdirAll => cases (r : Except FsErr Unit) <;> rcases h with h | h <;> cases h
  | abandon => cases (r : Except FsErr Unit) <;> rcases h with h | h <;> cases h
  | _ => exact .inl (.inl trivial)

/-- **Without faults an open staging file is published**, unless a directory has its final name. -/
theorem exec_open_or_done (ha : allowed sp ph o) (hh : Holds fs sp.stg ph) (hd : ¬ fs.IsDir sp.fin)
    (h : ph.Open ∨ ph = .done ∨ opens o (exec o none fs).1 = true) :
    (next ph o (exec o none fs).1).Open ∨ next ph o (exec o none fs).1 = .done := by
  cases does_of_allowed ha with
  | look ho =>
    rw [next_readOnly ho]
    refine h.imp_right fun h => h.resolve_right fun hopens => ?_
    cases o <;> first | cases hopens | exact ho
  | mkdirAll | abandon => rcases h with h | h | h <;> cases h
  | write | sync | close => exact .inl trivial
  | openTrunc =>
    left
    have hopens := h.elim False.elim fun h => h.elim nofun id
    cases hr : ((exec (.openTrunc sp.stg : FsOp N B M) none fs).1 : Except FsErr ℕ) with
    | ok fd => exact trivial
    | error e => rw [hr] at hopens; cases hopens
  | rename w s hpub =>
    obtain ⟨ino, hl, -⟩ := hh
    right
    have hok := rename_ok hl hd
    simp only [exec, next]
    cases hr : fs.rename sp.stg sp.fin with
    | mk r fs' =>
      rw [hr] at hok
      obtain rfl : r = .ok () := hok
      rfl

/-- **What a writer alone has changed since `fs₀`**: its staging path and, once it is done,
its final path, which then names another file. -/
structure Alone (sp : Spec N B M) (fs₀ fs : Fs N B) (ph : Phase B) : Prop where
  holds : Holds fs sp.stg ph
  other : ∀ p, p ≠ sp.stg → p ≠ sp.fin → fs₀.Same fs p
  before : ph ≠ .done → fs₀.Same fs sp.fin
  after : ph = .done → (∃ w s, sp.Pub w s) ∧ ∃ ino, fs.look sp.fin = some ino ∧ fs₀.look sp.fin ≠ some ino

theorem exec_alone {fs₀ : Fs N B} (hne : sp.stg ≠ sp.fin) (ha : allowed sp ph o) (h : Alone sp fs₀ fs ph)
    (c : Option ℕ) : Alone sp fs₀ (exec o c fs).2 (next ph o (exec o c fs).1) := by
  refine ⟨exec_holds ha h.holds c, ?_, ?_, ?_⟩
  · intro p hp hf
    exact (h.other p hp hf).trans (exec_frame ha h.holds c hp fun hpf => absurd hpf hf)
  · intro hnd
    have hph : ph ≠ .done := by
      rintro rfl; exact hnd (next_readOnly (readOnly_of_done ha) _ _)
    refine (h.before hph).trans ?_
    by_cases hr : ∃ x y, o = .rename x y
    · -- a rename that does not end the writer has failed
      obtain ⟨x, y, rfl⟩ := hr
      rcases exec_rename ha c with ⟨he, -⟩ | ⟨w, s, -, -, i, hi, -, -, hd⟩
      · rw [he]; exact Fs.Same.refl fs _
      · exact absurd hd hnd
    · push Not at hr
      exact exec_frame ha h.holds c hne.symm fun _ => hr
  · intro hd
    rcases exec_done ha c hd with ⟨rfl, he⟩ | ⟨w, s, rfl, hpub, i, hi, hs, he⟩
    · rw [he]
      exact h.after rfl
    have hfin := (h.before (by intro hx; cases hx)).1
    rw [he]
    refine ⟨⟨w, s, hpub⟩, i, look_link_self hi, ?_⟩
    intro hl
    exact hne (look_inj hs (hfin.trans hl))

theorem exec_isDir {d : List N} (ha : allowed sp ph o) (c : Option ℕ) (h : (exec o c fs).2.IsDir d) :
    fs.IsDir d ∨ d ∈ ancestors sp.stg.dropLast := by
  by_cases hph : ph = .start
  · subst hph
    cases does_of_allowed ha with
    | look ho => rw [exec_readOnly ho] at h; exact .inl h
    | mkdirAll => cases c with
      | none =>
        simp only [exec] at h
        split at h
        · exact .inl h
        · exact isDir_mkdirs.mp h
      | some k =>
        -- a failing call has made the first of them
        rcases isDir_mkdirs.mp h with h | h
        · exact .inl h
        · exact .inr (List.mem_of_mem_take h)
  · unfold Fs.IsDir at h ⊢
    rw [exec_dirs ha hph c] at h
    exact .inl h

/-- **What a writer alone leaves behind**: besides what it has changed, what it has published and the
directories it has made. -/
structure Leaves (sp : Spec N B M) (fs₀ fs : Fs N B) (ph : Phase B) : Prop where
  alone : Alone sp fs₀ fs ph
  published : ph = .done → ∃ ino, fs.look sp.fin = some ino ∧ sp.Pub (fs.data ino) (fs.synced ino)
  dirs : ∀ d, fs.IsDir d → fs₀.IsDir d ∨ d ∈ Fs.ancestors sp.stg.dropLast

omit [Inhabited B] in
theorem Leaves.start (sp : Spec N B M) (fs : Fs N B) : Leaves sp fs fs .start :=
  ⟨⟨trivial, fun p _ _ => Fs.Same.refl fs p, fun _ => Fs.Same.refl fs _, nofun⟩,
    nofun, fun _ h => .inl h⟩

theorem exec_leaves {fs₀ : Fs N B} (hne : sp.stg ≠ sp.fin) (ha : allowed sp ph o) (h : Leaves sp fs₀ fs ph)
    (c : Option ℕ) : Leaves sp fs₀ (exec o c fs).2 (next ph o (exec o c fs).1) := by
  refine ⟨exec_alone hne ha h.alone c, ?_, ?_⟩
  · intro hd
    rcases exec_done ha c hd with ⟨rfl, he⟩ | ⟨w, s, rfl, hpub, i, hi, hs, he⟩
    · rw [he]
      exact h.published rfl
    obtain ⟨ino, hl, hdata, hsynced⟩ := h.alone.holds
    obtain rfl : i = ino := Option.some.inj (hs.symm.trans hl)
    rw [he]
    refine ⟨i, look_link_self hi, ?_⟩
    show sp.Pub (fs.data i) (fs.synced i)
    rw [hdata, hsynced]
    exact hpub
  · intro d hd
    rcases exec_isDir ha c hd with hd | hd
    · exact h.dirs d hd
    · exact .inr hd

theorem exec_gone (hne : sp.stg ≠ sp.fin) (ha : allowed sp ph o) (h : ph = .done → fs.look sp.stg = none) (c : Option ℕ)
    (hd : next ph o (exec o c fs).1 = .done) : (exec o c fs).2.look sp.stg = none := by
  rcases exec_done ha c hd with ⟨rfl, he⟩ | ⟨w, s, -, -, i, hi, hs, he⟩
  · rw [he]
    exact h rfl
  · rw [he, look_link, if_neg hne, if_pos hs]

/-- A writer that cannot finish: a directory has the name of one of its files, or a file that of
a directory on the way. -/
def Blocked (sp : Spec N B M) (fs : Fs N B) : Phase B → Prop
  | .start => fs.IsDir sp.stg ∨ fs.IsDir sp.fin ∨ ∃ d ∈ Fs.ancestors sp.stg.dropLast, fs.look d ≠ none
  | .ready => fs.IsDir sp.stg ∨ fs.IsDir sp.fin
  | .staging _ _ _ | .closed _ _ => fs.IsDir sp.fin
  | .broken => True
  | .done => False

theorem exec_blocked (ha : allowed sp ph o) (h : Blocked sp fs ph) (c : Option ℕ) :
    Blocked sp (exec o c fs).2 (next ph o (exec o c fs).1) := by
  -- after the first step the directories do not change
  have hdir : ph ≠ .start → ∀ p, fs.IsDir p → (exec o c fs).2.IsDir p := by
    intro hst p hp
    unfold Fs.IsDir at hp ⊢
    rwa [exec_dirs ha hst c]
  cases does_of_allowed ha with
  | look ho => rw [exec_readOnly ho, next_readOnly ho]; exact h
  | mkdirAll => cases c with
    | some k => trivial
    | none =>
      simp only [exec]
      split
      · trivial
      rename_i hany
      have hmk : ∀ p, fs.IsDir p → (fs.mkdirs (ancestors sp.stg.dropLast)).IsDir p :=
        fun p hp => isDir_mkdirs.2 (.inl hp)
      rcases h with h | h | ⟨d, hd, hl⟩
      · exact .inl (hmk _ h)
      · exact .inr (hmk _ h)
      · exact absurd (List.any_eq_true.2 ⟨d, hd, Option.isSome_iff_ne_none.2 hl⟩) hany
  | openTrunc => cases c with
    | some k => trivial
    | none =>
      by_cases hd : fs.IsDir sp.stg
      · have herr : fs.openTrunc sp.stg = (.error .isDir, fs) := by unfold openTrunc; rw [if_pos hd]
        simp only [exec, herr, next]; trivial
      have hfin := hdir (by simp) sp.fin (h.resolve_left hd)
      simp only [next]
      split
      · exact hfin
      · trivial
  | write | sync | close => cases c with
    | none => exact hdir (by simp) _ h
    | some k => trivial
  | abandon => cases c <;> trivial
  | rename w s hpub => cases c with
    | some k => trivial
    | none =>
      have herr : ∃ e, fs.rename sp.stg sp.fin = (.error e, fs) := by
        unfold rename
        split
        · exact ⟨_, rfl⟩
        · rw [if_pos (show fs.IsDir sp.fin from h)]; exact ⟨_, rfl⟩
      obtain ⟨e, he⟩ := herr
      simp only [exec, he, next]
      trivial

/-! ## What is on disk -/

/-- The synced part of the file at `p` starts with `b`. -/
def OnDisk (fs : Fs N B) (p : List N) (b : List B) : Prop :=
  ∃ ino, fs.look p = some ino ∧ b <+: (fs.data ino).take (fs.synced ino)

omit [Inhabited B] in
theorem onDisk_same {fs fs' : Fs N B} {b : List B} (hs : fs.Same fs' p) (h : OnDisk fs p b) :
    OnDisk fs' p b := by
  obtain ⟨ino, hl, hb⟩ := h
  have hdy := hs.2 ino hl
  exact ⟨ino, hs.1.trans hl, by rw [hdy.1, hdy.2]; exact hb⟩

omit [Inhabited B] in
/-- **What is on disk survives a crash.** -/
theorem onDisk_crash {b : List B} (h : OnDisk fs p b) (keep : ℕ → ℕ) : OnDisk (fs.crash keep) p b := by
  obtain ⟨ino, hl, hb⟩ := h
  refine ⟨ino, hl, ?_⟩
  show b <+: ((fs.data ino).take (max (fs.synced ino) (keep ino))).take (fs.synced ino)
  rw [List.take_take, Nat.min_eq_left (Nat.le_max_left _ _)]
  exact hb

omit [DecidableEq N] [Inhabited B] in
theorem take_prefix_take_append (w bs : List B) (s : ℕ) : w.take s <+: (w ++ bs).take s := by
  rw [List.take_append]; exact List.prefix_append _ _

/-- Nothing on disk is lost but by opening a file or renaming one. -/
theorem exec_onDisk (ha : allowed sp ph o) (hh : Holds fs sp.stg ph) (c : Option ℕ) {b : List B}
    (ho : ∀ q, o ≠ .openTrunc q) (hr : ∀ x y, o ≠ .rename x y) (h : OnDisk fs p b) : OnDisk (exec o c fs).2 p b := by
  by_cases hp : p = sp.stg
  swap
  · exact onDisk_same (exec_frame ha hh c hp fun _ => hr) h
  subst hp
  have hquiet : Fs.Quiet o → OnDisk (exec o c fs).2 sp.stg b := by
    intro hq
    obtain ⟨ds, he⟩ := exec_quiet hq c fs
    rw [he]; exact h
  obtain ⟨ino, hl, hb⟩ := id h
  cases does_of_allowed ha with
  | look ho => exact hquiet (quiet_of_readOnly ho)
  | mkdirAll | close | abandon => exact hquiet trivial
  | openTrunc => exact absurd rfl (ho _)
  | rename => exact absurd rfl (hr _ _)
  | write fd w s bs =>
    obtain ⟨-, ino', hf, hl', hd, hs⟩ := hh
    obtain rfl : ino = ino' := Option.some.inj (hl.symm.trans hl')
    rw [hd, hs] at hb
    have happ : ∀ bs, OnDisk (fs.write fd bs) sp.stg b := by
      intro bs
      refine ⟨ino, hl, hb.trans ?_⟩
      show w.take s <+: (update fs.data (fs.handle fd).1 _ ino).take (fs.synced ino)
      rw [hf, hs, hd, patch_append, update_self]
      exact take_prefix_take_append w bs s
    cases c with
    | none => exact happ bs
    | some k => exact happ (bs.take k)
  | sync fd w s =>
    obtain ⟨-, ino', hf, hl', hd, hs⟩ := hh
    obtain rfl : ino = ino' := Option.some.inj (hl.symm.trans hl')
    cases c with
    | some k => exact ⟨ino, hl, hb⟩
    | none =>
      refine ⟨ino, hl, hb.trans ?_⟩
      show _ <+: (fs.data ino).take (update fs.synced (fs.handle fd).1 _ ino)
      rw [hf, update_self, List.take_length]
      exact List.take_prefix _ _

omit [Inhabited B] in
/-- The staging file of a writer is on disk as far as it is synced. -/
theorem Holds.onDisk {w : List B} {s : ℕ} (hh : Holds fs sp.stg ph) (hph : (∃ fd, ph = .staging fd w s) ∨ ph = .closed w s) :
    OnDisk fs sp.stg (w.take s) := by
  rcases hph with ⟨fd, rfl⟩ | rfl
  · obtain ⟨-, ino, -, hl, hd, hs⟩ := hh
    exact ⟨ino, hl, by simp only [hd, hs, List.prefix_rfl]⟩
  · obtain ⟨ino, hl, hd, hs⟩ := hh
    exact ⟨ino, hl, by simp only [hd, hs, List.prefix_rfl]⟩

/-! ## Several writers -/

variable [DecidableEq ι]

/-- A system of writers on one file system. -/
abbrev Sys' (ι N B M E : Type) := Sys ι (FsOp N B M) FsOp.Res E (World ι N B M)

/-- Nobody opens a staging file that another running writer uses. -/
def Exclusive (sp : ι → Spec N B M) (s : Sys' ι N B M E) (i : ι) : Prop :=
  ∀ p k, s.procs i = .call (.openTrunc p) k → ∀ j, j ≠ i → (sp j).stg = (sp i).stg → ¬ s.Running j

/-- **The invariant of exclusive writers.** `Old` describes the files that were there
under final names before. -/
structure Inv (sp : ι → Spec N B M) (Final : List N → Prop) (Old : List N → List B → ℕ → Prop)
    (s : Sys' ι N B M E) (φ : ι → Phase B) : Prop where
  fresh : ∀ i, s.started i = false → φ i = .start
  holds : ∀ i, ¬ (s.procs i).Finished → Holds s.st.fs (sp i).stg (φ i)
  excl : ∀ i j, i ≠ j → (φ i).Open → ¬ (s.procs i).Finished → (φ j).Open → ¬ (s.procs j).Finished →
    (sp i).stg ≠ (sp j).stg
  final : ∀ p ino, Final p → s.st.fs.look p = some ino →
    Old p (s.st.fs.data ino) (s.st.fs.synced ino) ∨
      ∃ i, p = (sp i).fin ∧ (sp i).Pub (s.st.fs.data ino) (s.st.fs.synced ino)

/-- A crash leaves files under final names as good as they were. -/
def Stable (sp : ι → Spec N B M) (Old : List N → List B → ℕ → Prop) : Prop :=
  (∀ p d s k, Old p d s → Old p (d.take (max s k)) s) ∧
    ∀ i d s k, (sp i).Pub d s → (sp i).Pub (d.take (max s k)) s

variable {sp : ι → Spec N B M} {Final : List N → Prop} {Old : List N → List B → ℕ → Prop}
  {s : Sys' ι N B M E} {φ : ι → Phase B}

omit [Inhabited B] [DecidableEq ι] in
theorem Inv.running (h : Inv sp Final Old s φ) {j : ι} (ho : (φ j).Open) (hf : ¬ (s.procs j).Finished) :
    s.Running j := by
  refine ⟨?_, hf⟩
  cases hs : s.started j with
  | true => rfl
  | false => rw [h.fresh j hs] at ho; exact ho.elim

variable {k : o.Res → Prog (FsOp N B M) FsOp.Res E Unit}

omit [Inhabited B] [DecidableEq ι] in
/-- Under the guard, a writer with its staging file open has it for itself. -/
theorem Inv.apart (h : Inv sp Final Old s φ) {i : ι}
    (hex : Exclusive sp s i) (hp : s.procs i = .call o k) (ho : (φ i).Open ∨ ∃ p, o = .openTrunc p)
    {j : ι} (hj : j ≠ i) (hoj : (φ j).Open) (hfj : ¬ (s.procs j).Finished) : (sp j).stg ≠ (sp i).stg := by
  rcases ho with ho | ⟨p, rfl⟩
  · exact h.excl j i hj hoj hfj ho (by rw [hp]; exact id)
  · exact fun he => hex p k hp j hj he (h.running hoj hfj)

omit [DecidableEq ι] in
/-- What another writer holds survives an operation of writer `i`. -/
theorem Inv.holds_other (h : Inv sp Final Old s φ) {i : ι}
    (hfin : ∀ i j, (sp j).stg ≠ (sp i).fin)
    (hex : Exclusive sp s i) (hp : s.procs i = .call o k) (ha : allowed (sp i) (φ i) o) (c : Option ℕ)
    {j : ι} (hj : j ≠ i) (hfj : ¬ (s.procs j).Finished) :
    Holds (exec o c s.st.fs).2 (sp j).stg (φ j) := by
  have hhj := h.holds j hfj
  by_cases hq : Fs.Quiet o
  · obtain ⟨ds, he⟩ := exec_quiet hq c s.st.fs
    rw [he]
    exact holds_congr hhj ⟨rfl, fun _ _ => ⟨rfl, rfl⟩⟩ (Nat.le_refl _) fun _ _ _ _ => rfl
  by_cases hoj : (φ j).Open
  swap
  · cases hph : φ j with
    | staging fd w s => rw [hph] at hoj; exact (hoj trivial).elim
    | closed w s => rw [hph] at hoj; exact (hoj trivial).elim
    | _ => trivial
  have hhi := h.holds i (by rw [hp]; exact id)
  have hne := h.apart hex hp (open_of_not_quiet ha hq) hj hoj hfj
  have hsame := exec_frame ha hhi c hne fun he => absurd he (hfin i j)
  cases hph : φ j with
  | staging fd w sy =>
    rw [hph] at hhj
    obtain ⟨hlt, ino, hf, hl, -⟩ := id hhj
    -- a shared handle would make the two staging paths name one inode
    have hfd : ∀ w' s', φ i ≠ .staging fd w' s' := by
      intro w' s' hi
      rw [hi] at hhi
      obtain ⟨-, ino', hf', hl', -⟩ := hhi
      rw [hf] at hf'
      obtain rfl : ino = ino' := congrArg Prod.fst hf'
      exact hne (look_inj hl hl')
    obtain ⟨h1, h2⟩ := exec_handle ha c hlt hfd
    refine holds_congr hhj hsame h2 fun fd' w' s' he => ?_
    cases he; exact h1
  | closed w sy =>
    rw [hph] at hhj
    obtain ⟨ino, hl, hd, hy⟩ := hhj
    have := hsame.2 ino hl
    exact ⟨ino, hsame.1.trans hl, this.1.trans hd, this.2.trans hy⟩
  | _ => trivial

/-- **One operation of one writer keeps the invariant.** -/
theorem Inv.call (h : Inv sp Final Old s φ) (hfinal : ∀ p, Final p → ∀ i, p ≠ (sp i).stg)
    (hfin : ∀ i j, (sp j).stg ≠ (sp i).fin) {i : ι} {c : Option ℕ}
    (hex : Exclusive sp s i)
    (hp : s.procs i = .call o k) (ha : allowed (sp i) (φ i) o) :
    Inv sp Final Old (s.stepProc (sem ι N B M) i c)
      (update φ i (next (φ i) o ((sem ι N B M).exec i o c s.st).1)) := by
  have hfi : ¬ (s.procs i).Finished := by rw [hp]; exact id
  have hhi := h.holds i hfi
  rw [Sys.stepProc_call hp]
  refine ⟨?_, ?_, ?_, ?_⟩
  · intro j hj
    by_cases hji : j = i
    · subst hji; simp at hj
    · simp only [update_of_ne hji] at hj ⊢; exact h.fresh j hj
  · intro j hj
    by_cases hji : j = i
    · subst hji; simp only [update_self]; exact exec_holds ha hhi c
    · simp only [update_of_ne hji] at hj ⊢
      exact h.holds_other hfin hex hp ha c hji hj
  · intro j l hjl hoj hfj hol hfl
    by_cases hji : j = i
    · subst hji
      have hl : l ≠ j := Ne.symm hjl
      simp only [update_self] at hoj
      simp only [update_of_ne hl] at hol hfl
      exact (h.apart hex hp (open_next ha hoj) hl hol hfl).symm
    · simp only [update_of_ne hji] at hoj hfj
      by_cases hli : l = i
      · subst hli
        simp only [update_self] at hol
        exact h.apart hex hp (open_next ha hol) hji hoj hfj
      · simp only [update_of_ne hli] at hol hfl
        exact h.excl j l hjl hoj hfj hol hfl
  · intro p ino hF hl
    have hl : (exec o c s.st.fs).2.look p = some ino := hl
    rcases exec_final ha hhi c (hfinal p hF i) hl with hs | ⟨rfl, hpub⟩
    · have hl0 : s.st.fs.look p = some ino := hs.1.symm.trans hl
      have hdy := hs.2 ino hl0
      show Old p ((exec o c s.st.fs).2.data ino) ((exec o c s.st.fs).2.synced ino) ∨ ∃ i, p = (sp i).fin ∧
        (sp i).Pub ((exec o c s.st.fs).2.data ino) ((exec o c s.st.fs).2.synced ino)
      rw [hdy.1, hdy.2]
      exact h.final p ino hF hl0
    · exact .inr ⟨i, rfl, hpub⟩

/-- **A crash keeps the invariant.** -/
theorem Inv.crash (h : Inv sp Final Old s φ) (hst : Stable sp Old) (keep : ℕ → ℕ) :
    Inv sp Final Old (s.step (sem ι N B M) (.crash keep)) φ := by
  -- whoever is still to run has not started, so nothing is known about it yet
  have hstart : ∀ i, ¬ ((s.step (sem ι N B M) (.crash keep)).procs i).Finished → φ i = .start := by
    intro i hi
    apply h.fresh
    cases hs : s.started i with
    | false => rfl
    | true => simp [Sys.step, hs, Prog.Finished] at hi
  refine ⟨h.fresh, ?_, ?_, ?_⟩
  · intro i hi; rw [hstart i hi]; trivial
  · intro i j _ hoi hfi; rw [hstart i hfi] at hoi; exact hoi.elim
  · intro p ino hF hl
    rcases h.final p ino hF hl with ho | ⟨i, hp, hpub⟩
    · exact .inl (hst.1 p _ _ (keep ino) ho)
    · exact .inr ⟨i, hp, hst.2 i _ _ (keep ino) hpub⟩

omit [Inhabited B] [DecidableEq ι] in
theorem Inv.init {fs : Fs N B} {procs : ι → Prog (FsOp N B M) FsOp.Res E Unit}
    (h : ∀ p ino, Final p → fs.look p = some ino → Old p (fs.data ino) (fs.synced ino)) :
    Inv sp Final Old (Sys.init ⟨fs, []⟩ procs) fun _ => .start := by
  refine ⟨fun _ _ => rfl, fun _ _ => trivial, fun _ _ _ ho => ho.elim, fun p ino hF hl => .inl (h p ino hF hl)⟩

/-- **Every run of exclusive writers keeps the invariant.** -/
theorem run_inv {G : Sys' ι N B M E → Ev ι (Option ℕ) (ℕ → ℕ) → Prop}
    (hfinal : ∀ p, Final p → ∀ i, p ≠ (sp i).stg) (hfin : ∀ i j, (sp j).stg ≠ (sp i).fin)
    (hex : ∀ s i c, G s (.step i c) → Exclusive sp s i) (hst : ∀ s x, G s (.crash x) → Stable sp Old)
    (ht : Tracks (fun i => proto (sp i)) s φ) (h : Inv sp Final Old s φ)
    {es : List (Ev ι (Option ℕ) (ℕ → ℕ))} (hg : Guarded (sem ι N B M) G s es) :
    ∃ φ', Tracks (fun i => proto (sp i)) (s.run (sem ι N B M) es) φ' ∧
      Inv sp Final Old (s.run (sem ι N B M) es) φ' :=
  run_proto (G := G) (Inv sp Final Old)
    (fun s _ i c _ _ hi hg hp ha => hi.call hfinal hfin (hex s i c hg) hp ha)
    (fun s _ x hi hg => hi.crash (hst s x hg) x) es s φ ht h hg

end Klio.Lib.Stage

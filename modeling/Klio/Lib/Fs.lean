import Klio.Lib.Interleave

/-!
# A file system with inodes, faults and crashes

Paths are lists of names. A directory entry points to an inode; an open file has its
own offset, so a write goes where its handle stands, whatever happened to the file
in the meantime. Two paths never share an inode (no hard links), and this is a field
of the structure.

* `FsOp`, `FsOp.Res`: the operations, with an `emit` for messages that leave the
  program by other ways.
* `Fs.exec`: what an operation answers and does, with the fault `some k` making it
  fail (a write after its first `k` bytes).
* `sem`: the semantics for interleaved processes, with crashes that keep at least
  what was synced.
* `Written`: a handle at the end of its file; `exec_kept`: what an operation leaves alone.
* `pruning`: programs that only look and remove, with `eval_pruning`.
* `Observes`: programs that only look, with rules and `run_observes`; `ask` is what they answer.
-/

namespace Klio.Lib

open List Function

/-- Errors of file operations. `io` is the injected fault. -/
inductive FsErr where
  | notExist
  | isDir
  | notDir
  | notEmpty
  | io
  deriving DecidableEq, Repr

/-- A directory entry as a listing shows it. -/
structure DirEntry (N : Type) where
  name : N
  isDir : Bool
  deriving DecidableEq, Repr

/-- The operations a program may issue. -/
inductive FsOp (N B M : Type) where
  | mkdirAll (p : List N)
  | openTrunc (p : List N)
  | write (fd : ℕ) (bs : List B)
  | sync (fd : ℕ)
  | close (fd : ℕ)
  | rename (p q : List N)
  | remove (p : List N)
  | readDir (p : List N)
  | readFile (p : List N)
  | stat (p : List N)
  | emit (m : M)

/-- What an operation answers. -/
def FsOp.Res {N B M : Type} : FsOp N B M → Type
  | .openTrunc _ => Except FsErr ℕ
  | .readDir _ => Except FsErr (List (DirEntry N))
  | .readFile _ => Except FsErr (List B)
  | _ => Except FsErr Unit

/-- **A file system.** `handle` gives the inode and the offset of an open file,
`synced` how many bytes of an inode a crash is known to keep. -/
structure Fs (N B : Type) where
  files : List (List N × ℕ)
  dirs : List (List N)
  data : ℕ → List B
  synced : ℕ → ℕ
  handle : ℕ → ℕ × ℕ
  nextIno : ℕ
  nextFd : ℕ
  names_nodup : (files.map Prod.fst).Nodup
  inos_nodup : (files.map Prod.snd).Nodup
  inos_lt : ∀ x ∈ files, x.2 < nextIno

variable {fd : ℕ}

namespace Fs

variable {N B : Type} [DecidableEq N]

/-- Nothing but the root. -/
def empty : Fs N B :=
  { files := [], dirs := [], data := fun _ => [], synced := fun _ => 0, handle := fun _ => (0, 0), nextIno := 0,
    nextFd := 0, names_nodup := List.nodup_nil, inos_nodup := List.nodup_nil, inos_lt := fun _ h => by cases h }

/-- Nothing but one file. -/
def single (p : List N) (d : List B) : Fs N B :=
  { files := [(p, 0)], dirs := [], data := fun _ => d, synced := fun _ => 0, handle := fun _ => (0, 0), nextIno := 1,
    nextFd := 0, names_nodup := List.nodup_singleton _, inos_nodup := List.nodup_singleton _,
    inos_lt := fun x h => by rw [List.mem_singleton.mp h]; exact Nat.one_pos }

/-- The inode at a path. -/
def look (fs : Fs N B) (p : List N) : Option ℕ := (fs.files.find? fun x => x.1 = p).map Prod.snd

/-- The content at a path. -/
def read (fs : Fs N B) (p : List N) : Option (List B) := (fs.look p).map fs.data

/-- The root and the created directories. -/
def IsDir (fs : Fs N B) (p : List N) : Prop := p = [] ∨ p ∈ fs.dirs

instance (fs : Fs N B) (p : List N) : Decidable (fs.IsDir p) := inferInstanceAs (Decidable (_ ∨ _))

variable {fs : Fs N B} {p : List N} {i : ℕ}

theorem look_eq_some : fs.look p = some i ↔ (p, i) ∈ fs.files := by
  unfold look
  rw [Option.map_eq_some_iff]
  constructor
  · rintro ⟨⟨q, j⟩, hf, rfl⟩
    have hq : q = p := by simpa using find?_some hf
    subst hq
    exact mem_of_find?_eq_some hf
  · intro hm
    cases hf : fs.files.find? fun x => decide (x.1 = p) with
    | none => simpa using (find?_eq_none.1 hf) _ hm
    | some y =>
      obtain ⟨q, j⟩ := y
      have hq : q = p := by simpa using find?_some hf
      subst hq
      have hm' := mem_of_find?_eq_some hf
      have := inj_on_of_nodup_map fs.names_nodup hm' hm rfl
      exact ⟨_, rfl, by rw [this]⟩

theorem look_eq_none : fs.look p = none ↔ ∀ i, (p, i) ∉ fs.files := by
  rw [Option.eq_none_iff_forall_ne_some]
  exact forall_congr' fun i => not_congr look_eq_some

/-- **No hard links.** -/
theorem look_inj {p q : List N} (hp : fs.look p = some i) (hq : fs.look q = some i) :
    p = q := by
  have := inj_on_of_nodup_map fs.inos_nodup (look_eq_some.1 hp) (look_eq_some.1 hq) rfl
  exact congrArg Prod.fst this

theorem look_lt (hp : fs.look p = some i) : i < fs.nextIno :=
  fs.inos_lt _ (look_eq_some.1 hp)

/-- Let `p` name the inode `i`, and nothing else name it. -/
def link (fs : Fs N B) (p : List N) (i : ℕ) (hi : i < fs.nextIno) : Fs N B :=
  { fs with
    files := (p, i) :: fs.files.filter fun x => x.1 ≠ p ∧ x.2 ≠ i
    names_nodup := by
      rw [List.map_cons, List.nodup_cons]
      refine ⟨?_, fs.names_nodup.sublist (List.filter_sublist.map _)⟩
      simp only [List.mem_map, List.mem_filter, not_exists, not_and]
      rintro x ⟨-, hx⟩ rfl
      simp at hx
    inos_nodup := by
      rw [List.map_cons, List.nodup_cons]
      refine ⟨?_, fs.inos_nodup.sublist (List.filter_sublist.map _)⟩
      simp only [List.mem_map, List.mem_filter, not_exists, not_and]
      rintro x ⟨-, hx⟩ rfl
      simp at hx
    inos_lt := by
      intro x hx
      rcases List.mem_cons.1 hx with rfl | hx
      · exact hi
      · exact fs.inos_lt x (List.mem_filter.1 hx).1 }

/-- Let `p` name nothing. -/
def unlink (fs : Fs N B) (p : List N) : Fs N B :=
  { fs with
    files := fs.files.filter fun x => x.1 ≠ p
    names_nodup := fs.names_nodup.sublist (List.filter_sublist.map _)
    inos_nodup := fs.inos_nodup.sublist (List.filter_sublist.map _)
    inos_lt := fun x hx => fs.inos_lt x (List.mem_filter.1 hx).1 }

/-- Reserve an inode number. -/
def fresh (fs : Fs N B) : Fs N B :=
  { fs with nextIno := fs.nextIno + 1, inos_lt := fun x hx => Nat.lt_succ_of_lt (fs.inos_lt x hx) }

theorem look_link {p q : List N} (hi : i < fs.nextIno) :
    (fs.link p i hi).look q = if q = p then some i else if fs.look q = some i then none else fs.look q := by
  by_cases hq : q = p
  · subst hq; rw [if_pos rfl, look_eq_some]; simp [link]
  rw [if_neg hq]
  split
  · rename_i hl
    rw [look_eq_none]
    intro j hj
    simp only [link, mem_cons, Prod.mk.injEq, hq, false_and, false_or, mem_filter,
      ne_eq, decide_eq_true_eq] at hj
    have := look_eq_some.2 hj.1
    rw [hl] at this
    exact hj.2.2 (by simpa using this.symm)
  · rename_i hl
    rcases hj : fs.look q with _ | j
    · rw [look_eq_none] at hj ⊢
      intro j hm
      simp only [link, mem_cons, Prod.mk.injEq, hq, false_and, false_or, mem_filter] at hm
      exact hj j hm.1
    rw [look_eq_some]
    have hne : j ≠ i := by rintro rfl; exact hl hj
    simp only [link, mem_cons, mem_filter]
    exact .inr ⟨look_eq_some.1 hj, by simp [hq, hne]⟩

theorem look_unlink {p q : List N} :
    (fs.unlink p).look q = if q = p then none else fs.look q := by
  by_cases hq : q = p
  · subst hq; rw [if_pos rfl, look_eq_none]; intro j hj; simp [unlink] at hj
  rw [if_neg hq]
  cases hj : fs.look q with
  | none =>
    rw [look_eq_none] at hj ⊢
    intro j hm
    exact hj j (mem_filter.1 hm).1
  | some j => rw [look_eq_some]; exact mem_filter.2 ⟨look_eq_some.1 hj, by simp [hq]⟩

/-- Write at an offset. A gap between the end of the file and the offset reads as
default bytes. -/
def patch [Inhabited B] (d : List B) (off : ℕ) (bs : List B) : List B :=
  d.take off ++ List.replicate (off - d.length) default ++ bs ++ d.drop (off + bs.length)

omit [DecidableEq N] in
theorem patch_append [Inhabited B] (d bs : List B) : patch d d.length bs = d ++ bs := by
  simp [patch]

/-- Empty the inode `i` and open it. -/
def openAt (fs : Fs N B) (i : ℕ) : Fs N B :=
  { fs with
    data := Function.update fs.data i []
    synced := Function.update fs.synced i 0
    handle := Function.update fs.handle fs.nextFd (i, 0)
    nextFd := fs.nextFd + 1 }

/-- Open for writing, creating or truncating the file. -/
def openTrunc (fs : Fs N B) (p : List N) : Except FsErr ℕ × Fs N B :=
  if fs.IsDir p then (.error .isDir, fs)
  else if ¬ fs.IsDir p.dropLast then (.error .notExist, fs)
  else match fs.look p with
    | some i => (.ok fs.nextFd, fs.openAt i)
    | none => (.ok fs.nextFd, (fs.fresh.link p fs.nextIno (Nat.lt_succ_self _)).openAt fs.nextIno)

/-- Write through a handle and move it on. -/
def write [Inhabited B] (fs : Fs N B) (fd : ℕ) (bs : List B) : Fs N B :=
  { fs with
    data := Function.update fs.data (fs.handle fd).1 (patch (fs.data (fs.handle fd).1) (fs.handle fd).2 bs)
    handle := Function.update fs.handle fd ((fs.handle fd).1, (fs.handle fd).2 + bs.length) }

/-- Everything written to the file of this handle is on disk. -/
def sync (fs : Fs N B) (fd : ℕ) : Fs N B :=
  { fs with synced := Function.update fs.synced (fs.handle fd).1 (fs.data (fs.handle fd).1).length }

/-- Rename a file, replacing what was at the target. -/
def rename (fs : Fs N B) (p q : List N) : Except FsErr Unit × Fs N B :=
  match h : fs.look p with
  | none => (.error .notExist, fs)
  | some i => if fs.IsDir q then (.error .isDir, fs) else (.ok (), fs.link q i (look_lt h))

/-- The directories on the way to `p`, itself included. -/
def ancestors (p : List N) : List (List N) := (List.range p.length).map fun n => p.take (n + 1)

/-- Create those of the directories that do not exist. -/
def mkdirs (fs : Fs N B) (ds : List (List N)) : Fs N B :=
  { fs with dirs := fs.dirs ++ ds.filter fun d => d ∉ fs.dirs }

def entries (fs : Fs N B) (p : List N) : List (DirEntry N) :=
  fs.dirs.filterMap (fun d => if d.dropLast = p then d.getLast?.map (⟨·, true⟩) else none) ++
    fs.files.filterMap (fun x => if x.1.dropLast = p then x.1.getLast?.map (⟨·, false⟩) else none)

private theorem mem_entriesOf {α : Type} (path : α → List N) {l : List α} {b : Bool} {e : DirEntry N} :
    e ∈ l.filterMap (fun x => if (path x).dropLast = p then (path x).getLast?.map (⟨·, b⟩) else none) ↔
      e.isDir = b ∧ ∃ x ∈ l, path x = p ++ [e.name] := by
  rw [mem_filterMap]
  constructor
  · rintro ⟨x, hx, he⟩
    split at he
    · rename_i hp
      obtain ⟨m, hm, rfl⟩ := Option.map_eq_some_iff.mp he
      exact ⟨rfl, x, hx, by rw [← hp, dropLast_append_getLast? _ hm]⟩
    · cases he
  · rintro ⟨rfl, x, hx, hpath⟩
    refine ⟨x, hx, ?_⟩
    rw [hpath, dropLast_concat, if_pos rfl, getLast?_concat]
    rfl

private theorem mem_entries {e : DirEntry N} : e ∈ fs.entries p ↔
    (e.isDir = true ∧ ∃ d ∈ fs.dirs, d = p ++ [e.name]) ∨ (e.isDir = false ∧ ∃ x ∈ fs.files, x.1 = p ++ [e.name]) :=
  mem_append.trans (or_congr (mem_entriesOf id) (mem_entriesOf Prod.fst))

theorem mem_entries_dir {n : N} : (⟨n, true⟩ : DirEntry N) ∈ fs.entries p ↔ p ++ [n] ∈ fs.dirs := by
  simp [mem_entries]

theorem mem_entries_file {n : N} :
    (⟨n, false⟩ : DirEntry N) ∈ fs.entries p ↔ fs.look (p ++ [n]) ≠ none := by
  simp [mem_entries, look_eq_none]

/-- Remove a file or an empty directory. -/
def remove (fs : Fs N B) (p : List N) : Except FsErr Unit × Fs N B :=
  if (fs.look p).isSome then (.ok (), fs.unlink p)
  else if p ∈ fs.dirs then
    if fs.entries p = [] then (.ok (), { fs with dirs := fs.dirs.filter (· ≠ p) }) else (.error .notEmpty, fs)
  else (.error .notExist, fs)

/-- A crash keeps at least the synced bytes of every file. -/
def crash (fs : Fs N B) (keep : ℕ → ℕ) : Fs N B :=
  { fs with data := fun i => (fs.data i).take (max (fs.synced i) (keep i)) }

variable {M : Type} [Inhabited B]

/-- **What an operation answers and does.** A fault `some k` makes it fail; a write
has then written its first `k` bytes, a `mkdirAll` created the first `k` directories,
and the other operations have done nothing. -/
def exec : (o : FsOp N B M) → Option ℕ → Fs N B → o.Res × Fs N B
  | .mkdirAll p, none, fs =>
    if (ancestors p).any fun d => (fs.look d).isSome then ((.error .notDir : Except FsErr Unit), fs)
    else ((.ok () : Except FsErr Unit), fs.mkdirs (ancestors p))
  | .mkdirAll p, some k, fs => ((.error .io : Except FsErr Unit), fs.mkdirs ((ancestors p).take k))
  | .openTrunc p, none, fs => fs.openTrunc p
  | .openTrunc _, some _, fs => ((.error .io : Except FsErr ℕ), fs)
  | .write fd bs, none, fs => ((.ok () : Except FsErr Unit), fs.write fd bs)
  | .write fd bs, some k, fs => ((.error .io : Except FsErr Unit), fs.write fd (bs.take k))
  | .sync fd, none, fs => ((.ok () : Except FsErr Unit), fs.sync fd)
  | .sync _, some _, fs => ((.error .io : Except FsErr Unit), fs)
  | .close _, none, fs => ((.ok () : Except FsErr Unit), fs)
  | .close _, some _, fs => ((.error .io : Except FsErr Unit), fs)
  | .rename p q, none, fs => fs.rename p q
  | .rename _ _, some _, fs => ((.error .io : Except FsErr Unit), fs)
  | .remove p, none, fs => fs.remove p
  | .remove _, some _, fs => ((.error .io : Except FsErr Unit), fs)
  | .readDir p, none, fs =>
    if fs.IsDir p then ((.ok (fs.entries p) : Except FsErr (List (DirEntry N))), fs)
    else ((.error .notExist : Except FsErr (List (DirEntry N))), fs)
  | .readDir _, some _, fs => ((.error .io : Except FsErr (List (DirEntry N))), fs)
  | .readFile p, none, fs =>
    match fs.read p with
    | some d => ((.ok d : Except FsErr (List B)), fs)
    | none => ((.error (if fs.IsDir p then .isDir else .notExist) : Except FsErr (List B)), fs)
  | .readFile _, some _, fs => ((.error .io : Except FsErr (List B)), fs)
  | .stat p, none, fs =>
    if (fs.look p).isSome ∨ fs.IsDir p then ((.ok () : Except FsErr Unit), fs)
    else ((.error .notExist : Except FsErr Unit), fs)
  | .stat _, some _, fs => ((.error .io : Except FsErr Unit), fs)
  | .emit _, none, fs => ((.ok () : Except FsErr Unit), fs)
  | .emit _, some _, fs => ((.error .io : Except FsErr Unit), fs)

theorem read_of_readFile {c : Option ℕ} {data : List B}
    (h : (exec (M := M) (.readFile p) c fs).1 = (.ok data : Except FsErr (List B))) : fs.read p = some data := by
  cases c with
  | some k => cases h
  | none =>
    simp only [exec] at h
    cases hd : fs.read p with
    | none => rw [hd] at h; cases h
    | some d => rw [hd] at h; cases h; rfl

/-- A path names the same file with the same content. -/
def Same (fs fs' : Fs N B) (p : List N) : Prop :=
  fs'.look p = fs.look p ∧
    ∀ i, fs.look p = some i → fs'.data i = fs.data i ∧ fs'.synced i = fs.synced i

omit [Inhabited B] in
theorem Same.refl (fs : Fs N B) (p : List N) : fs.Same fs p := ⟨rfl, fun _ _ => ⟨rfl, rfl⟩⟩

omit [Inhabited B] in
theorem Same.trans {fs fs' fs'' : Fs N B} {p : List N} (h : fs.Same fs' p) (h' : fs'.Same fs'' p) :
    fs.Same fs'' p := by
  refine ⟨h'.1.trans h.1, fun i hi => ?_⟩
  have h1 := h.2 i hi
  have h2 := h'.2 i (h.1.trans hi)
  exact ⟨h2.1.trans h1.1, h2.2.trans h1.2⟩

omit [Inhabited B] in
theorem Same.read {fs fs' : Fs N B} {p : List N} (h : fs.Same fs' p) : fs'.read p = fs.read p := by
  unfold Fs.read
  rw [h.1]
  cases hl : fs.look p with
  | none => rfl
  | some i => simp only [Option.map_some, (h.2 i hl).1]

omit [Inhabited B] in
theorem same_openAt {fs : Fs N B} {p : List N} {i : ℕ} (hi : fs.look p ≠ some i) : fs.Same (fs.openAt i) p := by
  refine ⟨rfl, fun j hj => ?_⟩
  have hne : j ≠ i := by rintro rfl; exact hi hj
  simp [openAt, update_of_ne hne]

omit [Inhabited B] in
theorem same_link {fs : Fs N B} {p q : List N} {i : ℕ} (hi : i < fs.nextIno) (hp : p ≠ q)
    (hl : fs.look p ≠ some i) : fs.Same (fs.link q i hi) p := by
  refine ⟨?_, fun _ _ => ⟨rfl, rfl⟩⟩
  rw [look_link, if_neg hp, if_neg hl]

omit [Inhabited B] in
/-- Opening a file leaves every other path alone. -/
theorem same_openTrunc {fs : Fs N B} {p q : List N} (hp : p ≠ q) : fs.Same (fs.openTrunc q).2 p := by
  unfold openTrunc
  split
  · exact Same.refl fs p
  split
  · exact Same.refl fs p
  cases hq : fs.look q with
  | some i => exact same_openAt fun hl => hp (look_inj hl hq)
  | none =>
    have hl : fs.fresh.look p ≠ some fs.nextIno := fun h =>
      Nat.lt_irrefl _ (look_lt (show fs.look p = some fs.nextIno from h))
    have h1 : fs.fresh.Same (fs.fresh.link q fs.nextIno (Nat.lt_succ_self _)) p := same_link _ hp hl
    have h2 : (fs.fresh.link q fs.nextIno (Nat.lt_succ_self _)).Same _ p :=
      same_openAt fun h => hl (h1.1.symm.trans h)
    exact Same.trans h1 h2

theorem same_write (hl : fs.look p ≠ some (fs.handle fd).1) (bs : List B) :
    fs.Same (fs.write fd bs) p := by
  refine ⟨rfl, fun j hj => ?_⟩
  have hne : j ≠ (fs.handle fd).1 := by rintro rfl; exact hl hj
  simp [write, update_of_ne hne]

omit [Inhabited B] in
theorem same_sync {fs : Fs N B} {p : List N} (hl : fs.look p ≠ some (fs.handle fd).1) :
    fs.Same (fs.sync fd) p := by
  refine ⟨rfl, fun j hj => ?_⟩
  have hne : j ≠ (fs.handle fd).1 := by rintro rfl; exact hl hj
  simp [sync, update_of_ne hne]

omit [Inhabited B] in
/-- A rename leaves every path but its two alone. -/
theorem same_rename {fs : Fs N B} {p q r : List N} (hp : p ≠ q) (hr : p ≠ r) : fs.Same (fs.rename q r).2 p := by
  unfold rename
  split
  · exact Same.refl fs p
  · rename_i i hi
    split
    · exact Same.refl fs p
    · exact same_link (look_lt hi) hr fun hl => hp (look_inj hl hi)

omit [Inhabited B] in
/-- A rename fails and does nothing, or moves the inode. -/
theorem rename_cases (fs : Fs N B) (p q : List N) :
    (∃ e, fs.rename p q = (.error e, fs)) ∨
      ∃ i, ∃ hi : i < fs.nextIno, fs.look p = some i ∧ fs.rename p q = (.ok (), fs.link q i hi) := by
  unfold rename
  split
  · exact .inl ⟨_, rfl⟩
  · rename_i i hi
    split
    · exact .inl ⟨_, rfl⟩
    · exact .inr ⟨i, look_lt hi, hi, rfl⟩

omit [Inhabited B] in
/-- Opening fails and does nothing, or gives a new handle at the start of an empty file. -/
theorem openTrunc_cases (fs : Fs N B) (p : List N) :
    (∃ e, fs.openTrunc p = (.error e, fs)) ∨
      ∃ i fs', fs.openTrunc p = (.ok fs.nextFd, fs') ∧ fs'.look p = some i ∧ fs'.data i = [] ∧
        fs'.synced i = 0 ∧ fs'.handle = update fs.handle fs.nextFd (i, 0) ∧
        fs'.nextFd = fs.nextFd + 1 := by
  unfold openTrunc
  split
  · exact .inl ⟨_, rfl⟩
  split
  · exact .inl ⟨_, rfl⟩
  cases hp : fs.look p with
  | some i => exact .inr ⟨i, _, rfl, hp, by simp [openAt], by simp [openAt], rfl, rfl⟩
  | none =>
    refine .inr ⟨fs.nextIno, _, rfl, ?_, by simp [openAt], by simp [openAt], rfl, rfl⟩
    have h := look_link (p := p) (q := p) (show fs.nextIno < fs.fresh.nextIno from Nat.lt_succ_self _)
    rw [if_pos rfl] at h
    exact h

omit [Inhabited B] in
theorem openTrunc_ok {fs : Fs N B} {p : List N} (hp : ¬ fs.IsDir p) (hd : fs.IsDir p.dropLast) :
    (fs.openTrunc p).1 = .ok fs.nextFd := by
  unfold openTrunc
  rw [if_neg hp, if_neg (not_not.2 hd)]
  cases fs.look p <;> rfl

omit [Inhabited B] in
theorem rename_ok {fs : Fs N B} {p q : List N} {i : ℕ} (hp : fs.look p = some i) (hq : ¬ fs.IsDir q) :
    (fs.rename p q).1 = .ok () := by
  unfold rename
  split
  · rename_i hl; rw [hp] at hl; cases hl
  · rw [if_neg hq]

/-- Operations that change no file and no handle. -/
def Quiet : FsOp N B M → Prop
  | .openTrunc _ | .write _ _ | .sync _ | .rename _ _ | .remove _ => False
  | _ => True

variable {o : FsOp N B M}

theorem exec_quiet (ho : Quiet o) (c : Option ℕ) (fs : Fs N B) :
    ∃ ds, (exec o c fs).2 = { fs with dirs := ds } := by
  cases o <;> first | exact ho.elim | skip
  all_goals cases c <;> simp only [exec] <;> first | exact ⟨_, rfl⟩ | (split <;> exact ⟨_, rfl⟩)

/-- Operations that only look, or send. -/
def ReadOnly : FsOp N B M → Prop
  | .readDir _ | .readFile _ | .stat _ | .emit _ => True
  | _ => False

omit [DecidableEq N] [Inhabited B] in
theorem quiet_of_readOnly (ho : ReadOnly o) : Quiet o := by
  cases o <;> first | exact ho.elim | trivial

theorem exec_readOnly (ho : ReadOnly o) (c : Option ℕ) (fs : Fs N B) : (exec o c fs).2 = fs := by
  cases o <;> first | exact ho.elim | skip
  all_goals cases c <;> simp only [exec]
  all_goals split <;> rfl

omit [Inhabited B] [DecidableEq N] in
theorem mem_ancestors {p q : List N} : q ∈ ancestors p ↔ q <+: p ∧ q ≠ [] := by
  unfold ancestors
  rw [mem_map]
  constructor
  · rintro ⟨n, hn, rfl⟩
    refine ⟨List.take_prefix _ _, ?_⟩
    have := mem_range.1 hn
    cases p with
    | nil => simp at this
    | cons x xs => simp
  · rintro ⟨hq, hne⟩
    have hpos := length_pos_iff.2 hne
    refine ⟨q.length - 1, mem_range.2 ?_, ?_⟩
    · have := hq.length_le; omega
    · rw [Nat.sub_add_cancel hpos]; exact (prefix_iff_eq_take.1 hq).symm

omit [Inhabited B] in
theorem isDir_mkdirs {fs : Fs N B} {ds : List (List N)} {p : List N} :
    (fs.mkdirs ds).IsDir p ↔ fs.IsDir p ∨ p ∈ ds := by
  unfold IsDir mkdirs
  simp only [mem_append, mem_filter, decide_eq_true_eq]
  tauto

theorem isDir_exec (ho : ∀ p, o ≠ .remove p) (c : Option ℕ) {d : List N} (h : fs.IsDir d) :
    (exec o c fs).2.IsDir d := by
  cases o with
  | mkdirAll p =>
    cases c with
    | some k => exact isDir_mkdirs.mpr (.inl h)
    | none =>
      simp only [exec]
      split
      · exact h
      · exact isDir_mkdirs.mpr (.inl h)
  | openTrunc p =>
    cases c with
    | some k => exact h
    | none =>
      have hdirs : (fs.openTrunc p).2.dirs = fs.dirs := by
        unfold openTrunc
        split
        · rfl
        split
        · rfl
        cases fs.look p <;> rfl
      unfold IsDir
      rwa [show (exec (M := M) (.openTrunc p) none fs).2.dirs = fs.dirs from hdirs]
  | rename p q =>
    cases c with
    | some k => exact h
    | none =>
      rcases rename_cases fs p q with ⟨e, he⟩ | ⟨i, hi, -, he⟩
      · simp only [exec, he]; exact h
      · simp only [exec, he]; exact h
  | remove p => exact absurd rfl (ho p)
  | readDir p => rw [exec_readOnly (o := .readDir p) trivial]; exact h
  | readFile p => rw [exec_readOnly (o := .readFile p) trivial]; exact h
  | stat p => rw [exec_readOnly (o := .stat p) trivial]; exact h
  | emit m => rw [exec_readOnly (o := .emit m) trivial]; exact h
  | write fd bs => cases c <;> exact h
  | sync fd => cases c <;> exact h
  | close fd => cases c <;> exact h

theorem exec_readFile_congr {fs fs' : Fs N B} (hread : fs'.read p = fs.read p)
    (hdir : fs'.IsDir p ↔ fs.IsDir p) : (exec (M := M) (.readFile p) none fs').1 = (exec (M := M) (.readFile p) none fs).1 := by
  simp only [exec, hread]
  cases fs.read p with
  | some d => rfl
  | none =>
    by_cases h : fs.IsDir p
    · rw [if_pos h, if_pos (hdir.mpr h)]
    · rw [if_neg h, if_neg fun h' => h (hdir.mp h')]

end Fs

/-- The shared state of interleaved processes: the file system and the messages
emitted so far, each with its sender and whether sending it succeeded. -/
structure World (ι N B M : Type) where
  fs : Fs N B
  log : List (ι × M × Bool)

def logOp {ι N B M : Type} (i : ι) (c : Option ℕ) (log : List (ι × M × Bool)) :
    FsOp N B M → List (ι × M × Bool)
  | .emit m => log ++ [(i, m, c.isNone)]
  | _ => log

/-- **The semantics of interleaved processes on one file system.** -/
def sem (ι N B M : Type) [DecidableEq N] [Inhabited B] :
    Sem ι (FsOp N B M) FsOp.Res (World ι N B M) (Option ℕ) (ℕ → ℕ) where
  exec i o c w := ((Fs.exec o c w.fs).1, { fs := (Fs.exec o c w.fs).2, log := logOp i c w.log o })
  crash keep w := { w with fs := w.fs.crash keep }

/-! ## Programs that only prune -/

section Pruning

variable {ι N B M E Ph α : Type} [DecidableEq N] [Inhabited B] {Z : List N → Prop}

/-- Look around, and remove nothing but paths of `Z`. -/
def pruning (Ph : Type) (Z : List N → Prop) : Proto (FsOp N B M) FsOp.Res Ph where
  allowed _ o := match o with
    | .remove p => Z p
    | .readDir _ | .readFile _ | .stat _ => True
    | _ => False
  next ph _ _ := ph

namespace Fs

omit [Inhabited B] in
theorem look_remove (fs : Fs N B) (p q : List N) :
    (fs.remove p).2.look q = if q = p then none else fs.look q := by
  unfold remove
  split
  · exact look_unlink
  rename_i hp
  have hnone : fs.look p = none := Option.not_isSome_iff_eq_none.1 hp
  have hite : (if q = p then none else fs.look q) = fs.look q := by
    split
    · rename_i h; rw [h, hnone]
    · rfl
  rw [hite]
  split
  · split <;> rfl
  · rfl

omit [Inhabited B] in
theorem data_remove (fs : Fs N B) (p : List N) : (fs.remove p).2.data = fs.data ∧ (fs.remove p).2.synced = fs.synced := by
  unfold remove
  split
  · exact ⟨rfl, rfl⟩
  split
  · split <;> exact ⟨rfl, rfl⟩
  · exact ⟨rfl, rfl⟩

omit [Inhabited B] in
theorem dirs_remove {fs : Fs N B} {p q : List N} (hq : q ∈ fs.dirs) (hp : q ≠ p) : q ∈ (fs.remove p).2.dirs := by
  unfold remove
  split
  · exact hq
  split
  · split
    · exact mem_filter.2 ⟨hq, by simpa using hp⟩
    · exact hq
  · exact hq

/-! ### Paths and handles that an operation leaves alone -/

/-- A path and the handles to its file are left alone. -/
structure Kept (fs fs' : Fs N B) (p : List N) : Prop where
  same : fs.Same fs' p
  handles : ∀ fd < fs.nextFd, fs.look p = some (fs.handle fd).1 → fs'.handle fd = fs.handle fd
  nextFd : fs.nextFd ≤ fs'.nextFd

omit [Inhabited B] in
theorem Kept.refl (fs : Fs N B) (p : List N) : fs.Kept fs p := ⟨.refl fs p, fun _ _ _ => rfl, Nat.le_refl _⟩

/-- The handle `fd` stands at the end of the file at `p`, which holds `w`. -/
structure Written (fs : Fs N B) (p : List N) (fd : ℕ) (w : List B) : Prop where
  lt : fd < fs.nextFd
  look : fs.look p = some (fs.handle fd).1
  offset : (fs.handle fd).2 = w.length
  data : fs.data (fs.handle fd).1 = w

omit [Inhabited B] in
theorem Written.read {fs : Fs N B} {p : List N} {w : List B} (h : fs.Written p fd w) : fs.read p = some w := by
  unfold Fs.read
  rw [h.look, Option.map_some, h.data]

omit [Inhabited B] in
theorem Written.kept {fs fs' : Fs N B} {p : List N} {w : List B} (h : fs.Written p fd w) (hk : fs.Kept fs' p) :
    fs'.Written p fd w := by
  have hfd := hk.handles fd h.lt h.look
  refine ⟨Nat.lt_of_lt_of_le h.lt hk.nextFd, ?_, ?_, ?_⟩
  · rw [hfd, hk.same.1]
    exact h.look
  · rw [hfd]
    exact h.offset
  · rw [hfd, (hk.same.2 _ h.look).1]
    exact h.data

omit [Inhabited B] in
theorem written_openTrunc {fs fs' : Fs N B} {p : List N} (h : fs.openTrunc p = (.ok fd, fs')) : fs'.Written p fd [] := by
  rcases openTrunc_cases fs p with ⟨e, he⟩ | ⟨i, fs'', hok, hlook, hdata, -, hhandle, hnext⟩
  · rw [he] at h
    cases h
  rw [hok] at h
  cases h
  have hfd : fs'.handle fs.nextFd = (i, 0) := by rw [hhandle, update_self]
  refine ⟨by omega, ?_, ?_, ?_⟩
  · rw [hfd]
    exact hlook
  · rw [hfd]
    rfl
  · rw [hfd]
    exact hdata

variable {fs : Fs N B} {p : List N}

theorem Written.write {w : List B} (h : fs.Written p fd w) (bs : List B) :
    (fs.write fd bs).Written p fd (w ++ bs) := by
  have hfd : (fs.write fd bs).handle fd = ((fs.handle fd).1, (fs.handle fd).2 + bs.length) := update_self _ _ _
  refine ⟨h.lt, ?_, ?_, ?_⟩
  · rw [hfd]
    exact h.look
  · rw [hfd, length_append, ← h.offset]
  · rw [hfd]
    simp only [Fs.write, update_self]
    rw [h.data, h.offset, patch_append]

/-- The paths whose file an operation may change. -/
def Touches (fs : Fs N B) : FsOp N B M → List N → Prop
  | .openTrunc q, p | .remove q, p => p = q
  | .write fd _, p | .sync fd, p => fs.look p = some (fs.handle fd).1
  | .rename q t, p => p = q ∨ p = t
  | _, _ => False

theorem kept_write (hl : fs.look p ≠ some (fs.handle fd).1) (bs : List B) :
    fs.Kept (fs.write fd bs) p := by
  refine ⟨same_write hl bs, fun fd' _ hfd' => update_of_ne ?_ _ _, Nat.le_refl _⟩
  rintro rfl
  exact hl hfd'

omit [Inhabited B] in
theorem kept_openTrunc {fs : Fs N B} {p q : List N} (hp : p ≠ q) : fs.Kept (fs.openTrunc q).2 p := by
  have hsame : fs.Same (fs.openTrunc q).2 p := same_openTrunc hp
  rcases openTrunc_cases fs q with ⟨e, he⟩ | ⟨i, fs', hok, -, -, -, hhandle, hnext⟩
  · rw [he]
    exact Kept.refl fs p
  · rw [hok] at hsame ⊢
    refine ⟨hsame, fun fd hlt _ => ?_, hnext ▸ Nat.le_succ _⟩
    rw [hhandle, update_of_ne (Nat.ne_of_lt hlt)]

omit [Inhabited B] in
theorem kept_rename {fs : Fs N B} {p q t : List N} (hp : p ≠ q) (ht : p ≠ t) : fs.Kept (fs.rename q t).2 p := by
  have hsame : fs.Same (fs.rename q t).2 p := same_rename hp ht
  rcases rename_cases fs q t with ⟨e, he⟩ | ⟨i, hi, -, hok⟩
  · rw [he]
    exact Kept.refl fs p
  · rw [hok] at hsame ⊢
    exact ⟨hsame, fun _ _ _ => rfl, Nat.le_refl _⟩

omit [Inhabited B] in
theorem kept_remove {fs : Fs N B} {p q : List N} (hp : p ≠ q) : fs.Kept (fs.remove q).2 p := by
  have hhandle : (fs.remove q).2.handle = fs.handle ∧ (fs.remove q).2.nextFd = fs.nextFd := by
    unfold remove
    split
    · exact ⟨rfl, rfl⟩
    split
    · split <;> exact ⟨rfl, rfl⟩
    · exact ⟨rfl, rfl⟩
  refine ⟨⟨?_, fun i _ => ?_⟩, fun fd _ _ => congrFun hhandle.1 fd, Nat.le_of_eq hhandle.2.symm⟩
  · rw [look_remove, if_neg hp]
  · exact ⟨congrFun (data_remove fs q).1 i, congrFun (data_remove fs q).2 i⟩

/-- **An operation leaves alone** what it does not touch. -/
theorem exec_kept {o : FsOp N B M} (h : ¬ fs.Touches o p) (c : Option ℕ) : fs.Kept (exec o c fs).2 p := by
  by_cases hq : Quiet o
  · obtain ⟨ds, hds⟩ := exec_quiet hq c fs
    rw [hds]
    exact ⟨⟨rfl, fun _ _ => ⟨rfl, rfl⟩⟩, fun _ _ _ => rfl, Nat.le_refl _⟩
  cases o <;> first | exact (hq trivial).elim | skip
  case write fd bs => cases c <;> exact kept_write h _
  all_goals cases c <;> first | exact Kept.refl fs p | skip
  case openTrunc.none q => exact kept_openTrunc h
  case sync.none fd => exact ⟨same_sync h, fun _ _ _ => rfl, Nat.le_refl _⟩
  case rename.none q t => exact kept_rename (fun hp => h (.inl hp)) fun hp => h (.inr hp)
  case remove.none q => exact kept_remove h

/-- Some paths of `Z` may be gone, and nothing else has changed. -/
structure Pruned (Z : List N → Prop) (fs fs' : Fs N B) : Prop where
  same : ∀ q, ¬ Z q → fs.Same fs' q
  dirs : ∀ q ∈ fs.dirs, ¬ Z q → q ∈ fs'.dirs
  gone : ∀ q, fs.look q = none → fs'.look q = none

omit [Inhabited B] in
theorem Pruned.refl (fs : Fs N B) : Pruned Z fs fs := ⟨fun q _ => Same.refl fs q, fun _ hq _ => hq, fun _ hq => hq⟩

omit [Inhabited B] in
theorem Pruned.remove {fs fs' : Fs N B} (h : Pruned Z fs fs') {p : List N} (hp : Z p) :
    Pruned Z fs (fs'.remove p).2 := by
  refine ⟨?_, ?_, ?_⟩
  · intro q hq
    have hne : q ≠ p := fun heq => hq (heq ▸ hp)
    refine (h.same q hq).trans ⟨?_, fun j _ => ?_⟩
    · rw [look_remove, if_neg hne]
    · rw [(data_remove fs' p).1, (data_remove fs' p).2]
      exact ⟨rfl, rfl⟩
  · intro q hq hz
    exact dirs_remove (h.dirs q hq hz) fun heq => hz (heq ▸ hp)
  · intro q hq
    rw [look_remove, h.gone q hq]
    exact ite_self none

theorem Pruned.exec {fs fs' : Fs N B} (h : Pruned Z fs fs') {o : FsOp N B M} {ph : Ph}
    (ho : (pruning Ph Z).allowed ph o) (c : Option ℕ) : Pruned Z fs (Fs.exec o c fs').2 := by
  cases o with
  | remove p =>
    cases c with
    | none => exact h.remove ho
    | some k => exact h
  | readDir p => rw [exec_readOnly (o := .readDir p) trivial]; exact h
  | readFile p => rw [exec_readOnly (o := .readFile p) trivial]; exact h
  | stat p => rw [exec_readOnly (o := .stat p) trivial]; exact h
  | _ => exact ho.elim

end Fs

/-- **A program that prunes `Z` leaves every other path alone**, whatever fails. -/
theorem eval_pruning {Q : α → Ph → Prop} {X : E → Ph → Prop} {p : Prog (FsOp N B M) FsOp.Res E α} {ph : Ph} (i : ι)
    (hp : p.Sat (pruning Ph Z) Q X ph) (cs : ℕ → Option ℕ) (w : World ι N B M) :
    Fs.Pruned Z w.fs (p.eval (sem ι N B M) i cs w).2.fs := by
  have h := Prog.eval_sat (M := sem ι N B M) (i := i) (fun w' _ => Fs.Pruned Z w.fs w'.fs) (fun _ => True)
    (fun w' ph' o c hw ho _ => hw.exec ho c) p ph cs w hp (Fs.Pruned.refl w.fs) fun _ => trivial
  obtain ⟨ph', hw, -⟩ := h
  exact hw

end Pruning

/-! ## Programs that only look -/

section Observes

variable {ι N B M E α β : Type} [DecidableEq N] [Inhabited B]

/-- What a program that only looks answers on `fs`, nothing failing. -/
def ask (fs : Fs N B) : Prog (FsOp N B M) FsOp.Res E α → Except E α
  | .ret a => .ok a
  | .err e => .error e
  | .call o k => ask fs (k (Fs.exec o none fs).1)

/-- On the file system `fs` the program only looks, whatever fails, and ends in `Q` or `X`. -/
def Observes (fs : Fs N B) (Q : α → Prop) (X : E → Prop) : Prog (FsOp N B M) FsOp.Res E α → Prop
  | .ret a => Q a
  | .err e => X e
  | .call o k => Fs.ReadOnly o ∧ ∀ c, Observes fs Q X (k (Fs.exec o c fs).1)

variable {fs : Fs N B} {Q : α → Prop} {X : E → Prop}

theorem observes_mono {Q' : α → Prop} {X' : E → Prop} (hQ : ∀ a, Q a → Q' a) (hX : ∀ e, X e → X' e) :
    ∀ {p : Prog (FsOp N B M) FsOp.Res E α}, Observes fs Q X p → Observes fs Q' X' p := by
  intro p
  induction p with
  | ret a => exact hQ a
  | err e => exact hX e
  | call o k ih => exact fun h => ⟨h.1, fun c => ih _ (h.2 c)⟩

theorem observes_call {o : FsOp N B M} {k : o.Res → Prog (FsOp N B M) FsOp.Res E α} (ho : Fs.ReadOnly o)
    (hok : Observes fs Q X (k (Fs.exec o none fs).1)) (hfault : ∀ n, Observes fs Q X (k (Fs.exec o (some n) fs).1)) :
    Observes fs Q X (.call o k) := by
  refine ⟨ho, fun c => ?_⟩
  cases c with
  | none => exact hok
  | some n => exact hfault n

variable {f : α → Prog (FsOp N B M) FsOp.Res E β}

theorem observes_bind {Q' : β → Prop}
    (hf : ∀ a, Q a → Observes fs Q' X (f a)) :
    ∀ {p : Prog (FsOp N B M) FsOp.Res E α}, Observes fs Q X p → Observes fs Q' X (p.bind f) := by
  intro p
  induction p with
  | ret a => exact hf a
  | err e => exact fun h => h
  | call o k ih => exact fun h => ⟨h.1, fun c => ih _ (h.2 c)⟩

variable {p : Prog (FsOp N B M) FsOp.Res E α}

theorem observes_map {g : α → β} (h : Observes fs Q X p) :
    Observes fs (fun _ => True) X (p.bind fun a => .ret (g a)) := by
  refine observes_bind ?_ h
  intro a _
  trivial

theorem observes_attempt {X' : E → Prop} :
    ∀ {p : Prog (FsOp N B M) FsOp.Res E α}, Observes fs Q X p →
      Observes fs (fun out => match out with
        | .ok a => Q a
        | .error e => X e) X' p.attempt := by
  intro p
  induction p with
  | ret a => exact fun h => h
  | err e => exact fun h => h
  | call o k ih => exact fun h => ⟨h.1, fun c => ih _ (h.2 c)⟩

theorem observes_mapErr {f : E → E}
    (h : Observes fs Q (fun _ => True) p) : Observes fs Q (fun _ => True) (p.mapErr f) := by
  refine observes_bind ?_ (observes_attempt h)
  intro out hout
  cases out with
  | ok a => exact hout
  | error e => trivial

theorem ask_bind : ∀ {p : Prog (FsOp N B M) FsOp.Res E α},
    ask fs (p.bind f) = match ask fs p with
      | .ok a => ask fs (f a)
      | .error e => .error e := by
  intro p
  induction p with
  | ret a => rfl
  | err e => rfl
  | call o k ih => exact ih _

theorem ask_attempt : ∀ {p : Prog (FsOp N B M) FsOp.Res E α}, ask fs p.attempt = (.ok (ask fs p) : Except E (Except E α)) := by
  intro p
  induction p with
  | ret a => rfl
  | err e => rfl
  | call o k ih => exact ih _

theorem ask_mapErr {g : E → E} : ask fs (p.mapErr g) = (ask fs p).mapError g := by
  unfold Prog.mapErr
  rw [ask_bind, ask_attempt]
  cases ask fs p <;> rfl

theorem ask_congr {fs' : Fs N B} : ∀ {p : Prog (FsOp N B M) FsOp.Res E α},
    p.Uses (fun o => (Fs.exec o none fs').1 = (Fs.exec o none fs).1) → ask fs' p = ask fs p := by
  intro p
  induction p with
  | ret a => exact fun _ => rfl
  | err e => exact fun _ => rfl
  | call o k ih =>
    intro hp
    have hsame : ask fs' (.call o k) = ask fs' (k (Fs.exec o none fs).1) := by rw [← hp.1]; rfl
    rw [hsame]
    exact ih _ (hp.2 _)

/-- Operations that look at the file system, and send nothing. -/
def Looks : FsOp N B M → Prop
  | .readDir _ | .readFile _ | .stat _ => True
  | _ => False

/-- **A program that only looks**, run alone without faults. -/
theorem eval_looks (i : ι) (w : World ι N B M) : ∀ {p : Prog (FsOp N B M) FsOp.Res E α}, p.Uses Looks →
    p.eval (sem ι N B M) i (fun _ => none) w = (ask w.fs p, w) := by
  intro p
  induction p with
  | ret a => exact fun _ => rfl
  | err e => exact fun _ => rfl
  | call o k ih =>
    intro hp
    have hread : Fs.ReadOnly o := by cases o <;> first | exact hp.1.elim | trivial
    have hlog : logOp i none w.log o = w.log := by cases o <;> first | exact hp.1.elim | rfl
    have hstep : (sem ι N B M).exec i o none w = ((Fs.exec o none w.fs).1, w) := by
      show ((Fs.exec o none w.fs).1, (⟨(Fs.exec o none w.fs).2, logOp i none w.log o⟩ : World ι N B M)) = _
      rw [Fs.exec_readOnly hread, hlog]
    rw [Prog.eval_call hstep]
    exact ih _ (hp.2 _)

theorem eval_looks_observes (i : ι) : ∀ {p : Prog (FsOp N B M) FsOp.Res E α} (cs : ℕ → Option ℕ) (w : World ι N B M), p.Uses Looks →
    Observes w.fs Q X p → ∃ r, p.eval (sem ι N B M) i cs w = (r, w) ∧ ∀ a, r = .ok a → Q a := by
  intro p
  induction p with
  | ret a =>
    refine fun _ _ _ h => ⟨.ok a, rfl, fun a' ha => ?_⟩
    cases ha
    exact h
  | err e => exact fun _ _ _ _ => ⟨.error e, rfl, nofun⟩
  | call o k ih =>
    intro cs w hp hobs
    have hlog : logOp i (cs 0) w.log o = w.log := by cases o <;> first | exact hp.1.elim | rfl
    have hstep : (sem ι N B M).exec i o (cs 0) w = ((Fs.exec o (cs 0) w.fs).1, w) := by
      show ((Fs.exec o (cs 0) w.fs).1, (⟨(Fs.exec o (cs 0) w.fs).2, logOp i (cs 0) w.log o⟩ : World ι N B M)) = _
      rw [Fs.exec_readOnly hobs.1, hlog]
    rw [Prog.eval_call hstep]
    exact ih _ _ _ (hp.2 _) (hobs.2 (cs 0))

/-- A program that only looks and answers as if nothing failed, or fails with `Z`. -/
def Answers (fs : Fs N B) (Z : E → Prop) (p : Prog (FsOp N B M) FsOp.Res E α) : Prop :=
  Observes fs (fun a => ask fs p = .ok a) (fun e => ask fs p = .error e ∨ Z e) p

variable {Z : E → Prop}

theorem answers_observes (h : Answers fs Z p) :
    Observes fs (fun a => ask fs p = .ok a) (fun _ => True) p :=
  observes_mono (fun _ ha => ha) (fun _ _ => trivial) h

theorem observes_true (h : Observes fs Q X p) :
    Observes fs (fun _ => True) (fun _ => True) p :=
  observes_mono (fun _ _ => trivial) (fun _ _ => trivial) h

theorem answers_finished (h : p.Finished) : Answers fs Z p := by
  cases p with
  | ret a => exact rfl
  | err e => exact .inl rfl
  | call o k => exact h.elim

theorem answers_call {o : FsOp N B M} {k : o.Res → Prog (FsOp N B M) FsOp.Res E α} (ho : Fs.ReadOnly o)
    (hok : Answers fs Z (k (Fs.exec o none fs).1))
    (hfault : ∀ n, ∃ e, k (Fs.exec o (some n) fs).1 = .err e ∧ Z e) : Answers fs Z (.call o k) := by
  refine observes_call ho hok ?_
  intro n
  obtain ⟨e, he, hz⟩ := hfault n
  rw [he]
  exact .inr hz

theorem answers_bind
    (hp : Answers fs Z p) (hf : ∀ a, Answers fs Z (f a)) : Answers fs Z (p.bind f) := by
  unfold Answers
  rw [ask_bind]
  refine observes_bind (Q := fun a => ask fs p = .ok a) ?_ (observes_mono (fun _ h => h) ?_ hp)
  · intro a ha
    rw [ha]
    exact hf a
  · intro e he
    rcases he with he | he
    · rw [he]; exact .inl rfl
    · exact .inr he

theorem answers_mapErr {f : E → E} (hp : Answers fs (fun _ => True) p) :
    Answers fs (fun _ => True) (p.mapErr f) := by
  have hobs := observes_mapErr (f := f) (answers_observes hp)
  refine observes_mono (fun a ha => ?_) (fun _ _ => .inr trivial) hobs
  rw [ask_mapErr, ha]
  rfl

variable [DecidableEq ι]

/-- **Processes that only look change nothing**, in any interleaving and with any faults. -/
theorem run_observes {s : Sys ι (FsOp N B M) FsOp.Res E (World ι N B M)}
    (h : ∀ i, Observes s.st.fs (fun _ => True) (fun _ => True) (s.procs i)) (cs : List (ι × Option ℕ)) :
    (s.run (sem ι N B M) (cs.map fun x => .step x.1 x.2)).st.fs = s.st.fs := by
  have hinv := run_inv (M := sem ι N B M) (G := fun _ e => ∃ i c, e = .step i c)
    (fun s' => s'.st.fs = s.st.fs ∧ ∀ i, Observes s.st.fs (fun _ => True) (fun _ => True) (s'.procs i)) ?_
    (cs.map fun x => .step x.1 x.2) s ⟨rfl, h⟩ ?_
  · exact hinv.1
  · rintro s' e ⟨hfs, hobs⟩ ⟨i, c, rfl⟩
    show (s'.stepProc (sem ι N B M) i c).st.fs = s.st.fs ∧ ∀ j, Observes s.st.fs _ _ ((s'.stepProc (sem ι N B M) i c).procs j)
    cases hp : s'.procs i with
    | ret a => rw [Sys.stepProc_finished (by rw [hp]; trivial)]; exact ⟨hfs, hobs⟩
    | err e => rw [Sys.stepProc_finished (by rw [hp]; trivial)]; exact ⟨hfs, hobs⟩
    | call o k =>
      have hi := hobs i
      rw [hp] at hi
      rw [Sys.stepProc_call hp]
      refine ⟨?_, ?_⟩
      · show (Fs.exec o c s'.st.fs).2 = s.st.fs
        rw [Fs.exec_readOnly hi.1, hfs]
      intro j
      by_cases hj : j = i
      · subst hj
        simp only [update_self]
        have hk := hi.2 c
        exact hfs ▸ hk
      · simp only [update_of_ne hj]
        exact hobs j
  · refine guarded_of_forall ?_
    intro e he _
    obtain ⟨x, -, rfl⟩ := mem_map.1 he
    exact ⟨x.1, x.2, rfl⟩

end Observes

end Klio.Lib

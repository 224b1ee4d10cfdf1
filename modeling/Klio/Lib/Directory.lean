import Klio.Lib.Fs

/-!
# What is in one directory

A directory of the root as programs see it that only look and remove: what each listing shows, in order, and
what each file holds.

* `SameDir`: the directory is the same in two file systems.
* `SameDir.exec`: an operation inside it answers the same in both, and keeps them the same.
* `sameDir_exec`: an operation outside leaves it.
-/

namespace Klio.Lib

open List

variable {N B M : Type} [DecidableEq N]

/-! ## Listings after a removal -/

/-- The entries of `q` among these paths. -/
def listed (isDir : Bool) (q : List N) (paths : List (List N)) : List (DirEntry N) :=
  paths.filterMap fun p => if p.dropLast = q then p.getLast?.map (⟨·, isDir⟩) else none

theorem mem_listed {isDir : Bool} {q : List N} {paths : List (List N)} {e : DirEntry N} (h : e ∈ listed isDir q paths) : e.isDir = isDir := by
  obtain ⟨p, -, hp⟩ := mem_filterMap.mp h
  split at hp
  · obtain ⟨m, -, rfl⟩ := Option.map_eq_some_iff.mp hp
    rfl
  · cases hp

theorem listed_filter (isDir : Bool) (p q : List N) : ∀ paths : List (List N),
    listed isDir q (paths.filter (· ≠ p)) = (listed isDir q paths).filter fun e => q ++ [e.name] ≠ p := by
  intro paths
  induction paths with
  | nil => rfl
  | cons x paths ih =>
    -- an entry of `q` for `x` has the path of `x`
    have hentry : ∀ e, (if x.dropLast = q then x.getLast?.map (⟨·, isDir⟩ : N → DirEntry N) else none) = some e → q ++ [e.name] = x := by
      intro e he
      split at he
      · rename_i hq
        obtain ⟨m, hm, rfl⟩ := Option.map_eq_some_iff.mp he
        rw [← hq]
        exact dropLast_append_getLast? _ hm
      · cases he
    have hcons : ∀ l, listed isDir q (x :: l) =
        ((if x.dropLast = q then x.getLast?.map (⟨·, isDir⟩ : N → DirEntry N) else none).toList ++ listed isDir q l) := by
      intro l
      unfold listed
      rw [filterMap_cons]
      cases (if x.dropLast = q then x.getLast?.map (⟨·, isDir⟩ : N → DirEntry N) else none) <;> rfl
    rw [hcons, filter_append, ← ih]
    by_cases hp : x = p
    · rw [filter_cons_of_neg (by simp [hp])]
      cases hx : (if x.dropLast = q then x.getLast?.map (⟨·, isDir⟩ : N → DirEntry N) else none) with
      | none => rfl
      | some e => simp [hentry e hx, hp]
    · rw [filter_cons_of_pos (by simp [hp]), hcons]
      cases hx : (if x.dropLast = q then x.getLast?.map (⟨·, isDir⟩ : N → DirEntry N) else none) with
      | none => rfl
      | some e => simp [hentry e hx, hp]

namespace Fs

theorem entries_eq (fs : Fs N B) (q : List N) : fs.entries q = listed true q fs.dirs ++ listed false q (fs.files.map Prod.fst) := by
  unfold entries listed
  rw [filterMap_map]
  rfl

theorem entries_unlink (fs : Fs N B) (p q : List N) :
    (fs.unlink p).entries q = (fs.entries q).filter fun e => e.isDir || decide (q ++ [e.name] ≠ p) := by
  have hfiles : (fs.unlink p).files.map Prod.fst = (fs.files.map Prod.fst).filter (· ≠ p) := by
    rw [filter_map]
    rfl
  rw [entries_eq, entries_eq, filter_append, hfiles, listed_filter]
  refine congrArg₂ (· ++ ·) (filter_eq_self.mpr fun e he => ?_).symm (filter_congr fun e he => ?_)
  · rw [mem_listed he]
    rfl
  · rw [mem_listed he]
    rfl

theorem entries_rmdir (fs : Fs N B) (p q : List N) :
    ({ fs with dirs := fs.dirs.filter (· ≠ p) } : Fs N B).entries q =
      (fs.entries q).filter fun e => !e.isDir || decide (q ++ [e.name] ≠ p) := by
  rw [entries_eq, entries_eq, filter_append, listed_filter]
  refine congrArg₂ (· ++ ·) (filter_congr fun e he => ?_) (filter_eq_self.mpr fun e he => ?_).symm
  · rw [mem_listed he]
    rfl
  · rw [mem_listed he]
    rfl

end Fs

/-! ## One directory -/

/-- **The directory `d` of the root is the same in both**: every listing, and the content of every file. -/
structure SameDir (d : N) (fs fs' : Fs N B) : Prop where
  entries : ∀ rest, fs.entries (d :: rest) = fs'.entries (d :: rest)
  read : ∀ rest, fs.read (d :: rest) = fs'.read (d :: rest)
  root : [d] ∈ fs.dirs ↔ [d] ∈ fs'.dirs

namespace SameDir

variable {d : N} {fs fs' fs'' : Fs N B}

theorem refl (d : N) (fs : Fs N B) : SameDir d fs fs := ⟨fun _ => rfl, fun _ => rfl, Iff.rfl⟩

theorem symm (h : SameDir d fs fs') : SameDir d fs' fs :=
  ⟨fun rest => (h.entries rest).symm, fun rest => (h.read rest).symm, h.root.symm⟩

theorem trans (h : SameDir d fs fs') (h' : SameDir d fs' fs'') : SameDir d fs fs'' :=
  ⟨fun rest => (h.entries rest).trans (h'.entries rest), fun rest => (h.read rest).trans (h'.read rest), h.root.trans h'.root⟩

theorem dirs (h : SameDir d fs fs') (rest : List N) : d :: rest ∈ fs.dirs ↔ d :: rest ∈ fs'.dirs := by
  rcases eq_nil_or_concat rest with rfl | ⟨init, n, rfl⟩
  · exact h.root
  · rw [concat_eq_append, ← cons_append, ← Fs.mem_entries_dir, ← Fs.mem_entries_dir, h.entries]

theorem isDir (h : SameDir d fs fs') (rest : List N) : fs.IsDir (d :: rest) ↔ fs'.IsDir (d :: rest) := by
  unfold Fs.IsDir
  rw [h.dirs rest]

theorem isSome_look (h : SameDir d fs fs') (rest : List N) : (fs.look (d :: rest)).isSome = (fs'.look (d :: rest)).isSome := by
  have hread := h.read rest
  unfold Fs.read at hread
  have hsome := congrArg Option.isSome hread
  simpa only [Option.isSome_map] using hsome

theorem unlink (h : SameDir d fs fs') (p : List N) : SameDir d (fs.unlink p) (fs'.unlink p) := by
  refine ⟨?_, ?_, h.root⟩
  · intro rest
    rw [Fs.entries_unlink, Fs.entries_unlink, h.entries]
  intro rest
  have hread : ∀ fs : Fs N B, (fs.unlink p).read (d :: rest) = if d :: rest = p then none else fs.read (d :: rest) := by
    intro fs
    unfold Fs.read
    rw [Fs.look_unlink]
    split <;> rfl
  rw [hread, hread, h.read]

theorem rmdir (h : SameDir d fs fs') (p : List N) :
    SameDir d { fs with dirs := fs.dirs.filter (· ≠ p) } { fs' with dirs := fs'.dirs.filter (· ≠ p) } := by
  refine ⟨?_, h.read, ?_⟩
  · intro rest
    rw [Fs.entries_rmdir, Fs.entries_rmdir, h.entries]
  · simp only [mem_filter, h.root]

/-- **A removal inside the directory**: the same answer, and the same directory after it. -/
theorem remove (h : SameDir d fs fs') (rest : List N) :
    (fs.remove (d :: rest)).1 = (fs'.remove (d :: rest)).1 ∧ SameDir d (fs.remove (d :: rest)).2 (fs'.remove (d :: rest)).2 := by
  unfold Fs.remove
  simp only [h.isSome_look rest, h.dirs rest, h.entries rest]
  split
  · exact ⟨rfl, h.unlink _⟩
  split
  · split
    · exact ⟨rfl, h.rmdir _⟩
    · exact ⟨rfl, h⟩
  · exact ⟨rfl, h⟩

end SameDir

/-- **A removal outside the directory** leaves it. -/
theorem sameDir_remove (fs : Fs N B) {d : N} {p : List N} (hp : ¬ [d] <+: p) : SameDir d fs (fs.remove p).2 := by
  have hne : ∀ rest : List N, d :: rest ≠ p := by
    rintro rest rfl
    exact hp (prefix_append [d] rest)
  have hall : ∀ (rest : List N) (e : DirEntry N), decide ((d :: rest) ++ [e.name] ≠ p) = true :=
    fun rest e => decide_eq_true (by rw [cons_append]; exact hne _)
  have hunlink : SameDir d fs (fs.unlink p) := by
    refine ⟨?_, ?_, Iff.rfl⟩
    · intro rest
      rw [Fs.entries_unlink]
      exact (filter_eq_self.mpr fun e _ => by rw [hall, Bool.or_true]).symm
    · intro rest
      unfold Fs.read
      rw [Fs.look_unlink, if_neg (hne rest)]
      rfl
  have hrmdir : SameDir d fs { fs with dirs := fs.dirs.filter (· ≠ p) } := by
    refine ⟨?_, fun _ => rfl, ?_⟩
    · intro rest
      rw [Fs.entries_rmdir]
      exact (filter_eq_self.mpr fun e _ => by rw [hall, Bool.or_true]).symm
    · simp [hne []]
  unfold Fs.remove
  split
  · exact hunlink
  split
  · split
    · exact hrmdir
    · exact .refl d fs
  · exact .refl d fs

/-! ## Operations that look and remove -/

/-- Look at the directory `d`, or remove something there, or send a message. -/
def FsOp.PrunesIn (d : N) : FsOp N B M → Prop
  | .readDir p | .readFile p | .stat p | .remove p => [d] <+: p
  | .emit _ => True
  | _ => False

/-- Look anywhere, and remove nothing of the directory `d`. -/
def FsOp.PrunesOutside (d : N) : FsOp N B M → Prop
  | .remove p => ¬ [d] <+: p
  | .readDir _ | .readFile _ | .stat _ | .emit _ => True
  | _ => False

variable [Inhabited B] {d : N} {fs fs' : Fs N B}

/-- **An operation inside the directory** answers the same in both, and keeps them the same. -/
theorem SameDir.exec (h : SameDir d fs fs') {o : FsOp N B M} (ho : o.PrunesIn d) (c : Option ℕ) :
    (Fs.exec o c fs).1 = (Fs.exec o c fs').1 ∧ SameDir d (Fs.exec o c fs).2 (Fs.exec o c fs').2 := by
  cases o with
  | remove p =>
    obtain ⟨rest, rfl⟩ := ho
    cases c with
    | some k => exact ⟨rfl, h⟩
    | none => exact h.remove rest
  | readDir p =>
    obtain ⟨rest, rfl⟩ := ho
    cases c with
    | some k => exact ⟨rfl, h⟩
    | none =>
      simp only [Fs.exec, singleton_append, h.isDir rest, h.entries rest]
      split <;> exact ⟨rfl, h⟩
  | readFile p =>
    obtain ⟨rest, rfl⟩ := ho
    have hkeep : ∀ c fs, (Fs.exec (.readFile ([d] ++ rest) : FsOp N B M) c fs).2 = fs :=
      fun c fs => Fs.exec_readOnly (o := .readFile ([d] ++ rest)) trivial c fs
    rw [hkeep, hkeep]
    cases c with
    | some k => exact ⟨rfl, h⟩
    | none => exact ⟨Fs.exec_readFile_congr (h.read rest) (h.isDir rest), h⟩
  | stat p =>
    obtain ⟨rest, rfl⟩ := ho
    cases c with
    | some k => exact ⟨rfl, h⟩
    | none =>
      simp only [Fs.exec, singleton_append, h.isSome_look rest, h.isDir rest]
      split <;> exact ⟨rfl, h⟩
  | emit m => cases c <;> exact ⟨rfl, h⟩
  | mkdirAll | openTrunc | write | sync | close | rename => exact ho.elim

/-- **An operation outside** leaves the directory. -/
theorem sameDir_exec (fs : Fs N B) {o : FsOp N B M} (ho : o.PrunesOutside d) (c : Option ℕ) : SameDir d fs (Fs.exec o c fs).2 := by
  cases o with
  | remove p =>
    cases c with
    | some k => exact .refl d fs
    | none => exact sameDir_remove fs ho
  | readDir p => rw [Fs.exec_readOnly (o := .readDir p) trivial]; exact .refl d fs
  | readFile p => rw [Fs.exec_readOnly (o := .readFile p) trivial]; exact .refl d fs
  | stat p => rw [Fs.exec_readOnly (o := .stat p) trivial]; exact .refl d fs
  | emit m => rw [Fs.exec_readOnly (o := .emit m) trivial]; exact .refl d fs
  | mkdirAll | openTrunc | write | sync | close | rename => exact ho.elim

end Klio.Lib

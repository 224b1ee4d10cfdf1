import Klio.Lib.Handles
import Klio.Lib.Trace

/-!
# Two runs of a program that keeps to one directory

A program that only names paths of one directory of the root, and only writes to files that it has opened
there, cannot tell two file systems apart that agree on this directory. Listings are compared as sets: the
program must not depend on their order.

* `Prog.ops`: the operations of a run.
* `confined`: the protocol of such programs, with the answers of `RealAnswer`: a listing shows real names.
* `Prog.OrderBlind`: the order of a listing does not matter.
* `Agree`, `InStep`: file systems that agree on a directory, with the file that is held open.
* `eval_confined`: both runs answer and send the same, and agree on the directory in the end.
-/

namespace Klio.Lib

open List Fs

variable {ι N B M E α β : Type}

/-- The operations that a program issues when it runs alone. -/
def Prog.ops {O : Type} {R : O → Type} {S C K : Type} (X : Sem ι O R S C K) (i : ι) : Prog O R E α → (ℕ → C) → S → List O
  | .call o k, cs, s => o :: (k (X.exec i o (cs 0) s).1).ops X i (fun n => cs (n + 1)) (X.exec i o (cs 0) s).2
  | _, _, _ => []

/-! ## Keeping to a directory -/

/-- A path of the directory `d` of the root, by real names. -/
def Below (real : N → Prop) (d : N) (p : List N) : Prop := ∃ rest, p = d :: rest ∧ ∀ n ∈ rest, real n

/-- The paths where an operation creates something are below `d`. -/
def FsOp.StoresBelow (real : N → Prop) (d : N) : FsOp N B M → Prop
  | .mkdirAll p | .openTrunc p => Below real d p
  | .rename p q => Below real d p ∧ Below real d q
  | _ => True

/-- The operation looks at a path below `d`, or sends a message. -/
def FsOp.LooksBelow (real : N → Prop) (d : N) : FsOp N B M → Prop
  | .readDir p | .readFile p | .stat p => Below real d p
  | .emit _ => True
  | _ => False

/-- A listing shows real names. -/
def RealAnswer (real : N → Prop) : (o : FsOp N B M) → o.Res → Prop
  | .readDir _, r => ∀ l, (r : Except FsErr (List (DirEntry N))) = .ok l → ∀ e ∈ l, real e.name
  | _, _ => True

/-- What may be done in the directory `d` by a program that holds this file. Nothing is removed. -/
def confinedAllowed (real : N → Prop) (d : N) (h : Option Handle) : FsOp N B M → Prop
  | .mkdirAll p | .readDir p | .readFile p | .stat p => Below real d p
  | .openTrunc p => h = none ∧ Below real d p
  | .rename p q => h = none ∧ Below real d p ∧ Below real d q
  | .write fd _ | .sync fd | .close fd => h = some (.writing fd)
  | .remove _ => False
  | .emit _ => True

/-- **Keeping to a directory**, with at most one file open. -/
def confined (real : N → Prop) (d : N) : Proto (FsOp N B M) FsOp.Res (Option Handle) where
  allowed := confinedAllowed real d
  next := holdingFiles.next

/-- The program keeps to the directory as long as listings show real names. -/
abbrev Prog.Confined (real : N → Prop) (d : N) (Q : α → Option Handle → Prop) (X : E → Option Handle → Prop)
    (p : Prog (FsOp N B M) FsOp.Res E α) (h : Option Handle) : Prop :=
  p.SatIf (confined real d) (fun _ => RealAnswer real) Q X h

section Confined

variable {real : N → Prop} {d : N} {Q : α → Option Handle → Prop} {X : E → Option Handle → Prop}

theorem Prog.Sat.confined : ∀ {p : Prog (FsOp N B M) FsOp.Res E α} {h : Option Handle}, p.Sat holdingFiles Q X h →
    p.Uses (FsOp.StoresBelow real d) → p.Confined real d Q X h := by
  intro p
  induction p with
  | ret a => exact fun h _ => h
  | err e => exact fun h _ => h
  | call o k ih =>
    intro h hp hu
    refine ⟨?_, fun r _ => ih r (hp.2 r) (hu.2 r)⟩
    have ha : holdingAllowed h (.files o) := hp.1
    cases o with
    | mkdirAll p => exact hu.1
    | openTrunc p => exact ⟨ha, hu.1⟩
    | rename p q => exact ⟨ha, hu.1⟩
    | write fd | sync fd | close fd => exact ha
    | emit m => trivial
    | remove | readDir | readFile | stat => exact ha.elim

theorem Prog.Uses.confined {p : Prog (FsOp N B M) FsOp.Res E α} (hp : p.Uses (FsOp.LooksBelow real d)) (h : Option Handle) :
    p.Confined real d (fun _ h' => h' = h) (fun _ h' => h' = h) h := by
  induction p with
  | ret a => rfl
  | err e => rfl
  | call o k ih =>
    have ho := hp.1
    cases o with
    | readDir | readFile | stat => exact ⟨ho, fun r _ => ih r (hp.2 r)⟩
    | emit m => exact ⟨trivial, fun r _ => ih r (hp.2 r)⟩
    | mkdirAll | openTrunc | write | sync | close | rename | remove => exact ho.elim

end Confined

/-- Answers that differ at most in the order of a listing. -/
def Alike : (o : FsOp N B M) → o.Res → o.Res → Prop
  | .readDir _, r, r' => match (r : Except FsErr (List (DirEntry N))), (r' : Except FsErr (List (DirEntry N))) with
    | .ok l, .ok l' => ∀ e, e ∈ l ↔ e ∈ l'
    | .error e, .error e' => e = e'
    | _, _ => False
  | _, r, r' => r = r'

/-- **The order of a listing does not matter** to the program. -/
def Prog.OrderBlind : Prog (FsOp N B M) FsOp.Res E α → Prop
  | .call o k => (∀ r r', Alike o r r' → k r = k r') ∧ ∀ r, (k r).OrderBlind
  | _ => True

/-- Operations that list nothing. -/
def FsOp.NoListing : FsOp N B M → Prop
  | .readDir _ => False
  | _ => True

theorem FsOp.NoListing.eq {o : FsOp N B M} (ho : o.NoListing) {r r' : o.Res} (h : Alike o r r') : r = r' := by
  cases o with
  | readDir p => exact ho.elim
  | mkdirAll | openTrunc | write | sync | close | rename | remove | readFile | stat | emit => exact h

namespace Prog

theorem Uses.orderBlind : ∀ {p : Prog (FsOp N B M) FsOp.Res E α}, p.Uses FsOp.NoListing → p.OrderBlind := by
  intro p
  induction p with
  | ret a => exact fun _ => trivial
  | err e => exact fun _ => trivial
  | call o k ih => exact fun h => ⟨fun r r' hr => congrArg k (h.1.eq hr), fun r => ih r (h.2 r)⟩

theorem orderBlind_bind {f : α → Prog (FsOp N B M) FsOp.Res E β} (hf : ∀ a, (f a).OrderBlind) :
    ∀ {p : Prog (FsOp N B M) FsOp.Res E α}, p.OrderBlind → (p.bind f).OrderBlind := by
  intro p
  induction p with
  | ret a => exact fun _ => hf a
  | err e => exact fun _ => trivial
  | call o k ih => exact fun h => ⟨fun r r' hr => congrArg (fun p => p.bind f) (h.1 r r' hr), fun r => ih r (h.2 r)⟩

theorem orderBlind_attempt : ∀ {p : Prog (FsOp N B M) FsOp.Res E α}, p.OrderBlind → p.attempt.OrderBlind := by
  intro p
  induction p with
  | ret a => exact fun _ => trivial
  | err e => exact fun _ => trivial
  | call o k ih => exact fun h => ⟨fun r r' hr => congrArg attempt (h.1 r r' hr), fun r => ih r (h.2 r)⟩

theorem orderBlind_mapErr {f : E → E} {p : Prog (FsOp N B M) FsOp.Res E α} (h : p.OrderBlind) : (p.mapErr f).OrderBlind := by
  refine orderBlind_bind ?_ (orderBlind_attempt h)
  intro x
  cases x <;> trivial

end Prog

/-! ## File systems that agree on a directory -/

variable [DecidableEq N]

/-- **Two file systems agree on the directory `d`**: its files have the same content, and it has the same
directories. The next handle, which is the process's, has the same number. -/
structure Agree (d : N) (fs fs' : Fs N B) : Prop where
  read : ∀ rest, fs.read (d :: rest) = fs'.read (d :: rest)
  dirs : ∀ rest, d :: rest ∈ fs.dirs ↔ d :: rest ∈ fs'.dirs
  nextFd : fs.nextFd = fs'.nextFd

/-- What is in the directory `d` has real names. -/
def Fs.RealNames (real : N → Prop) (d : N) (fs : Fs N B) : Prop :=
  ∀ rest, (fs.look (d :: rest) ≠ none ∨ d :: rest ∈ fs.dirs) → ∀ n ∈ rest, real n

namespace Agree

variable {d : N} {fs fs' : Fs N B} {rest : List N}

theorem look (h : Agree d fs fs') (rest : List N) : fs.look (d :: rest) = none ↔ fs'.look (d :: rest) = none := by
  have hread := h.read rest
  unfold Fs.read at hread
  cases hl : fs.look (d :: rest) <;> cases hl' : fs'.look (d :: rest) <;> rw [hl, hl'] at hread <;> simp_all

theorem isDir (h : Agree d fs fs') (rest : List N) : fs.IsDir (d :: rest) ↔ fs'.IsDir (d :: rest) := by
  unfold Fs.IsDir
  rw [h.dirs rest]

theorem isDir_dropLast (h : Agree d fs fs') (rest : List N) : fs.IsDir (d :: rest).dropLast ↔ fs'.IsDir (d :: rest).dropLast := by
  rcases rest with _ | ⟨n, rest⟩
  · exact iff_of_true (.inl rfl) (.inl rfl)
  exact h.isDir _

theorem isSome_look (h : Agree d fs fs') (rest : List N) : (fs.look (d :: rest)).isSome = (fs'.look (d :: rest)).isSome := by
  have hnone := h.look rest
  cases hl : fs.look (d :: rest) <;> cases hl' : fs'.look (d :: rest) <;> simp_all

end Agree

/-! ## One operation on both -/

/-- **Two runs in step**: the file systems agree, and the file that is held is the same one, opened by this
call. -/
structure InStep (real : N → Prop) (d : N) (n : ℕ) (h : Option Handle) (fs fs' : Fs N B) : Prop where
  agree : Agree d fs fs'
  names : fs.RealNames real d
  next : n ≤ fs.nextFd
  held : ∀ fd, h = some (.writing fd) → n ≤ fd ∧ ∃ rest w, (∀ m ∈ rest, real m) ∧ fs.Written (d :: rest) fd w ∧ fs'.Written (d :: rest) fd w

section Step

variable {real : N → Prop} {d : N} {n : ℕ} {h : Option Handle} {fs fs' : Fs N B}

theorem InStep.mkdirs (hs : InStep real d n h fs fs') {ds : List (List N)} (hds : ∀ p ∈ ds, Below real d p) :
    InStep real d n h (fs.mkdirs ds) (fs'.mkdirs ds) := by
  have hmem : ∀ (fs : Fs N B) p, p ∈ (fs.mkdirs ds).dirs ↔ p ∈ fs.dirs ∨ p ∈ ds := by
    intro fs p
    unfold Fs.mkdirs
    simp only [mem_append, mem_filter, decide_eq_true_eq]
    tauto
  refine ⟨⟨hs.agree.read, ?_, hs.agree.nextFd⟩, ?_, hs.next, ?_⟩
  · intro rest
    rw [hmem, hmem, hs.agree.dirs]
  · rintro rest (hl | hd)
    · exact hs.names rest (.inl hl)
    rcases (hmem fs _).mp hd with hd | hd
    · exact hs.names rest (.inr hd)
    · obtain ⟨rest', heq, hreal⟩ := hds _ hd
      cases heq
      exact hreal
  · intro fd hfd
    obtain ⟨hn, rest, w, hreal, hw, hw'⟩ := hs.held fd hfd
    exact ⟨hn, rest, w, hreal, ⟨hw.lt, hw.look, hw.offset, hw.data⟩, ⟨hw'.lt, hw'.look, hw'.offset, hw'.data⟩⟩

omit [DecidableEq N] in
theorem below_ancestors {p : List N} (hp : Below real d p) {q : List N} (hq : q ∈ ancestors p) : Below real d q := by
  obtain ⟨rest, rfl, hreal⟩ := hp
  obtain ⟨hpre, hne⟩ := mem_ancestors.mp hq
  rcases q with _ | ⟨a, q⟩
  · exact absurd rfl hne
  obtain ⟨rfl, htail⟩ := cons_prefix_cons.mp hpre
  exact ⟨q, rfl, fun m hm => hreal m (htail.subset hm)⟩

variable (M) in
/-- The file of a path is opened and emptied in both. -/
theorem InStep.openTrunc (hs : InStep real d n none fs fs') {p : List N} (hp : Below real d p) :
    (fs.openTrunc p).1 = (fs'.openTrunc p).1 ∧
      InStep real d n (holdingNext none (.files (.openTrunc p : FsOp N B M)) (fs.openTrunc p).1) (fs.openTrunc p).2
        (fs'.openTrunc p).2 := by
  obtain ⟨rest, rfl, hreal⟩ := hp
  have hdirs : ∀ fs : Fs N B, (fs.openTrunc (d :: rest)).2.dirs = fs.dirs := by
    intro fs
    unfold Fs.openTrunc
    split
    · rfl
    split
    · rfl
    cases fs.look (d :: rest) <;> rfl
  by_cases hdir : fs.IsDir (d :: rest)
  · have hdir' := (hs.agree.isDir rest).mp hdir
    have heq : fs.openTrunc (d :: rest) = (.error .isDir, fs) := if_pos hdir
    have heq' : fs'.openTrunc (d :: rest) = (.error .isDir, fs') := if_pos hdir'
    rw [heq, heq']
    exact ⟨rfl, hs⟩
  by_cases hpar : fs.IsDir (d :: rest).dropLast
  · have hdir' : ¬ fs'.IsDir (d :: rest) := fun hd => hdir ((hs.agree.isDir rest).mpr hd)
    have hok := openTrunc_ok hdir hpar
    have hok' := openTrunc_ok hdir' ((hs.agree.isDir_dropLast rest).mp hpar)
    have hw := written_openTrunc (Prod.ext hok rfl)
    have hw' := written_openTrunc (Prod.ext hok' rfl)
    rw [hok, hok', hs.agree.nextFd]
    rw [hs.agree.nextFd] at hw
    have hcount : ∀ (fs : Fs N B), (fs.openTrunc (d :: rest)).1 = .ok fs.nextFd → (fs.openTrunc (d :: rest)).2.nextFd = fs.nextFd + 1 := by
      intro fs hfs
      rcases openTrunc_cases fs (d :: rest) with ⟨e, he⟩ | ⟨i, fs₁, heq, -, -, -, -, hnext⟩
      · rw [he] at hfs
        cases hfs
      · rw [heq]
        exact hnext
    refine ⟨rfl, ⟨?_, ?_, ?_⟩, ?_, ?_, ?_⟩
    · intro rest'
      by_cases hr : rest' = rest
      · rw [hr, hw.read, hw'.read]
      · have hne : d :: rest' ≠ d :: rest := fun heq => hr (cons.inj heq).2
        rw [(same_openTrunc hne).read, (same_openTrunc hne).read, hs.agree.read]
    · intro rest'
      rw [hdirs, hdirs, hs.agree.dirs]
    · rw [hcount fs hok, hcount fs' hok', hs.agree.nextFd]
    · rintro rest' (hl | hd)
      · by_cases hr : rest' = rest
        · rw [hr]
          exact hreal
        · have hne : d :: rest' ≠ d :: rest := fun heq => hr (cons.inj heq).2
          rw [(same_openTrunc hne).1] at hl
          exact hs.names rest' (.inl hl)
      · rw [hdirs] at hd
        exact hs.names rest' (.inr hd)
    · rw [hcount fs hok]
      have hn := hs.next
      omega
    · rintro fd ⟨⟩
      refine ⟨?_, rest, [], hreal, hw, hw'⟩
      have hn := hs.next
      have heq := hs.agree.nextFd
      omega
  · have hpar' : ¬ fs'.IsDir (d :: rest).dropLast := fun hd => hpar ((hs.agree.isDir_dropLast rest).mpr hd)
    have hdir' : ¬ fs'.IsDir (d :: rest) := fun hd => hdir ((hs.agree.isDir rest).mpr hd)
    have heq : fs.openTrunc (d :: rest) = (.error .notExist, fs) := by
      unfold Fs.openTrunc
      rw [if_neg hdir, if_pos hpar]
    have heq' : fs'.openTrunc (d :: rest) = (.error .notExist, fs') := by
      unfold Fs.openTrunc
      rw [if_neg hdir', if_pos hpar']
    rw [heq, heq']
    exact ⟨rfl, hs⟩

theorem InStep.write [Inhabited B] {fd : ℕ} (hs : InStep real d n (some (.writing fd)) fs fs') (bs : List B) :
    InStep real d n (some (.writing fd)) (fs.write fd bs) (fs'.write fd bs) := by
  obtain ⟨hn, rest, w, hreal, hw, hw'⟩ := hs.held fd rfl
  have hw₁ := hw.write bs
  have hw₁' := hw'.write bs
  have hother : ∀ {fs : Fs N B}, fs.Written (d :: rest) fd w → ∀ rest', rest' ≠ rest → (fs.write fd bs).read (d :: rest') = fs.read (d :: rest') := by
    intro fs hw rest' hne
    refine (same_write ?_ bs).read
    intro hl
    exact hne (cons.inj (look_inj hl hw.look)).2
  refine ⟨⟨?_, hs.agree.dirs, hs.agree.nextFd⟩, hs.names, hs.next, ?_⟩
  · intro rest'
    by_cases hr : rest' = rest
    · rw [hr, hw₁.read, hw₁'.read]
    · rw [hother hw rest' hr, hother hw' rest' hr, hs.agree.read]
  · rintro fd' ⟨⟩
    exact ⟨hn, rest, w ++ bs, hreal, hw₁, hw₁'⟩

theorem InStep.sync {fd : ℕ} (hs : InStep real d n h fs fs') : InStep real d n h (fs.sync fd) (fs'.sync fd) := by
  refine ⟨⟨hs.agree.read, hs.agree.dirs, hs.agree.nextFd⟩, hs.names, hs.next, ?_⟩
  intro fd' hfd
  obtain ⟨hn, rest, w, hreal, hw, hw'⟩ := hs.held fd' hfd
  exact ⟨hn, rest, w, hreal, ⟨hw.lt, hw.look, hw.offset, hw.data⟩, ⟨hw'.lt, hw'.look, hw'.offset, hw'.data⟩⟩

theorem read_link {p q : List N} {i : ℕ} (hi : i < fs.nextIno) (hp : fs.look p = some i) (r : List N) :
    (fs.link q i hi).read r = if r = q then fs.read p else if r = p then none else fs.read r := by
  unfold Fs.read
  rw [look_link]
  by_cases hq : r = q
  · rw [if_pos hq, if_pos hq, hp]
    rfl
  rw [if_neg hq, if_neg hq]
  by_cases hrp : r = p
  · rw [if_pos hrp, hrp, if_pos hp]
    rfl
  · rw [if_neg hrp, if_neg fun hl => hrp (look_inj hl hp)]
    rfl

/-- A file is renamed in both. -/
theorem InStep.rename (hs : InStep real d n none fs fs') {p q : List N} (hp : Below real d p) (hq : Below real d q) :
    (fs.rename p q).1 = (fs'.rename p q).1 ∧ InStep real d n none (fs.rename p q).2 (fs'.rename p q).2 := by
  obtain ⟨pr, rfl, -⟩ := hp
  obtain ⟨qr, rfl, hreal⟩ := hq
  have hmissing : ∀ {fs : Fs N B} {p q : List N}, fs.look p = none → fs.rename p q = (.error .notExist, fs) := by
    intro fs p q hl
    unfold Fs.rename
    split
    · rfl
    · rename_i i hi
      rw [hl] at hi
      cases hi
  have hisDir : ∀ {fs : Fs N B} {p q : List N} {i}, fs.look p = some i → fs.IsDir q → fs.rename p q = (.error .isDir, fs) := by
    intro fs p q i hl hdir
    unfold Fs.rename
    split
    · rename_i hi
      rw [hl] at hi
      cases hi
    · rw [if_pos hdir]
  rcases hl : fs.look (d :: pr) with _ | i
  · rw [hmissing hl, hmissing ((hs.agree.look pr).mp hl)]
    exact ⟨rfl, hs⟩
  have hl' : fs'.look (d :: pr) ≠ none := fun hno => by rw [(hs.agree.look pr).mpr hno] at hl; cases hl
  obtain ⟨i', hi'⟩ := Option.ne_none_iff_exists'.mp hl'
  by_cases hdir : fs.IsDir (d :: qr)
  · rw [hisDir hl hdir, hisDir hi' ((hs.agree.isDir qr).mp hdir)]
    exact ⟨rfl, hs⟩
  have hdir' : ¬ fs'.IsDir (d :: qr) := fun hd => hdir ((hs.agree.isDir qr).mpr hd)
  have hok := rename_ok hl hdir
  have hok' := rename_ok hi' hdir'
  rcases rename_cases fs (d :: pr) (d :: qr) with ⟨e, he⟩ | ⟨j, hj, hlj, heq⟩
  · rw [he] at hok
    cases hok
  rcases rename_cases fs' (d :: pr) (d :: qr) with ⟨e, he⟩ | ⟨j', hj', hlj', heq'⟩
  · rw [he] at hok'
    cases hok'
  rw [heq, heq']
  refine ⟨rfl, ⟨?_, hs.agree.dirs, hs.agree.nextFd⟩, ?_, hs.next, nofun⟩
  · intro rest
    rw [read_link hj hlj, read_link hj' hlj', hs.agree.read, hs.agree.read]
  rintro rest (hlook | hd)
  · by_cases hr : rest = qr
    · rw [hr]
      exact hreal
    · have hne : d :: rest ≠ d :: qr := fun heq => hr (cons.inj heq).2
      rw [look_link, if_neg hne] at hlook
      refine hs.names rest (.inl fun hno => hlook ?_)
      rw [hno, ite_self]
  · exact hs.names rest (.inr hd)

theorem Agree.entries (ha : Agree d fs fs') (rest : List N) (e : DirEntry N) : e ∈ fs.entries (d :: rest) ↔ e ∈ fs'.entries (d :: rest) := by
  obtain ⟨m, isDir⟩ := e
  cases isDir with
  | true => rw [mem_entries_dir, mem_entries_dir, cons_append, ha.dirs]
  | false => rw [mem_entries_file, mem_entries_file, cons_append, ne_eq, ne_eq, ha.look]

theorem Fs.RealNames.entries (hn : fs.RealNames real d) {rest : List N} {e : DirEntry N} (he : e ∈ fs.entries (d :: rest)) :
    real e.name := by
  obtain ⟨m, isDir⟩ := e
  have hmem : m ∈ rest ++ [m] := by simp
  cases isDir with
  | true => exact hn (rest ++ [m]) (.inr (mem_entries_dir.mp he)) m hmem
  | false => exact hn (rest ++ [m]) (.inl (mem_entries_file.mp he)) m hmem

variable [Inhabited B]

/-- **One operation on both**: the answers are alike, and the runs stay in step. -/
theorem InStep.exec (hs : InStep real d n h fs fs') {o : FsOp N B M} (ha : (confined real d).allowed h o) (c : Option ℕ) :
    Alike o (Fs.exec o c fs).1 (Fs.exec o c fs').1 ∧ RealAnswer real o (Fs.exec o c fs).1 ∧
      InStep real d n (holdingNext h (.files o) (Fs.exec o c fs).1) (Fs.exec o c fs).2 (Fs.exec o c fs').2 := by
  cases o with
  | mkdirAll p =>
    have hin : Below real d p := ha
    cases c with
    | some k => exact ⟨rfl, trivial, hs.mkdirs fun q hq => below_ancestors hin (mem_of_mem_take hq)⟩
    | none =>
      have hany : ((ancestors p).any fun q => (fs.look q).isSome) = (ancestors p).any fun q => (fs'.look q).isSome := by
        rw [Bool.eq_iff_iff, any_eq_true, any_eq_true]
        refine exists_congr fun q => and_congr_right fun hq => ?_
        obtain ⟨rest, rfl, -⟩ := below_ancestors hin hq
        rw [hs.agree.isSome_look rest]
      simp only [Fs.exec, hany]
      split
      · exact ⟨rfl, trivial, hs⟩
      · exact ⟨rfl, trivial, hs.mkdirs fun q hq => below_ancestors hin hq⟩
  | openTrunc p =>
    obtain ⟨rfl, hin⟩ : h = none ∧ Below real d p := ha
    cases c with
    | some k => exact ⟨rfl, trivial, hs⟩
    | none =>
      obtain ⟨hanswer, hstep⟩ := hs.openTrunc M hin
      exact ⟨hanswer, trivial, hstep⟩
  | write fd bs =>
    obtain rfl : h = some (.writing fd) := ha
    cases c with
    | some k => exact ⟨rfl, trivial, hs.write _⟩
    | none => exact ⟨rfl, trivial, hs.write _⟩
  | sync fd =>
    cases c with
    | some k => exact ⟨rfl, trivial, hs⟩
    | none => exact ⟨rfl, trivial, hs.sync⟩
  | close fd =>
    have hclosed : InStep real d n none fs fs' := ⟨hs.agree, hs.names, hs.next, by simp⟩
    cases c <;> exact ⟨rfl, trivial, hclosed⟩
  | rename p q =>
    obtain ⟨rfl, hp, hq⟩ : h = none ∧ Below real d p ∧ Below real d q := ha
    cases c with
    | some k => exact ⟨rfl, trivial, hs⟩
    | none =>
      obtain ⟨hanswer, hstep⟩ := hs.rename hp hq
      exact ⟨hanswer, trivial, hstep⟩
  | remove p => exact ha.elim
  | readDir p =>
    cases c with
    | some k => exact ⟨rfl, by rintro _ ⟨⟩, hs⟩
    | none =>
      obtain ⟨rest, rfl, -⟩ : Below real d p := ha
      by_cases hdir : fs.IsDir (d :: rest)
      · simp only [Fs.exec, if_pos hdir, if_pos ((hs.agree.isDir rest).mp hdir)]
        refine ⟨hs.agree.entries rest, ?_, hs⟩
        rintro l ⟨⟩ e he
        exact hs.names.entries he
      · simp only [Fs.exec, if_neg hdir, if_neg fun hd => hdir ((hs.agree.isDir rest).mpr hd)]
        exact ⟨rfl, by rintro _ ⟨⟩, hs⟩
  | readFile p =>
    have hkeep : ∀ c fs, (Fs.exec (.readFile p : FsOp N B M) c fs).2 = fs := fun c fs => Fs.exec_readOnly (o := .readFile p) trivial c fs
    rw [hkeep, hkeep]
    cases c with
    | some k => exact ⟨rfl, trivial, hs⟩
    | none =>
      obtain ⟨rest, rfl, -⟩ : Below real d p := ha
      exact ⟨exec_readFile_congr (hs.agree.read rest) (hs.agree.isDir rest), trivial, hs⟩
  | stat p =>
    cases c with
    | some k => exact ⟨rfl, trivial, hs⟩
    | none =>
      obtain ⟨rest, rfl, -⟩ : Below real d p := ha
      simp only [Fs.exec, hs.agree.isSome_look rest, hs.agree.isDir rest]
      split <;> exact ⟨rfl, trivial, hs⟩
  | emit m => cases c <;> exact ⟨rfl, trivial, hs⟩

end Step

/-! ## Whole runs -/

/-- An operation inside the directory `d`: on its paths, or on a handle from `n` on. -/
def FsOp.Inside (d : N) (n : ℕ) : FsOp N B M → Prop
  | .mkdirAll p | .openTrunc p | .remove p | .readDir p | .readFile p | .stat p => [d] <+: p
  | .rename p q => [d] <+: p ∧ [d] <+: q
  | .write fd _ | .sync fd | .close fd => n ≤ fd
  | .emit _ => True

omit [DecidableEq N] in
theorem Below.inside {real : N → Prop} {d : N} {p : List N} (h : Below real d p) : [d] <+: p := by
  obtain ⟨rest, rfl, -⟩ := h
  exact prefix_append [d] rest

theorem InStep.inside {real : N → Prop} {d : N} {n : ℕ} {h : Option Handle} {fs fs' : Fs N B} (hs : InStep real d n h fs fs')
    {o : FsOp N B M} (ha : (confined real d).allowed h o) : o.Inside d n := by
  cases o with
  | mkdirAll | readDir | readFile | stat => exact Below.inside ha
  | openTrunc p => exact ha.2.inside
  | rename p q => exact ⟨ha.2.1.inside, ha.2.2.inside⟩
  | remove p => exact ha.elim
  | write fd | sync fd | close fd => exact (hs.held fd ha).1
  | emit m => trivial

variable [Inhabited B]

/-- **Two runs of a program that keeps to a directory.** Its operations are inside the directory, both runs
answer and send the same, and the file systems agree in the end. -/
theorem eval_confined {real : N → Prop} {d : N} {n : ℕ} {Q : α → Option Handle → Prop} {X : E → Option Handle → Prop} (i : ι) :
    ∀ {p : Prog (FsOp N B M) FsOp.Res E α} {h : Option Handle}, p.Confined real d Q X h → p.OrderBlind →
    ∀ (cs : ℕ → Option ℕ) (w w' : World ι N B M), InStep real d n h w.fs w'.fs → w.log = w'.log →
      (∀ o ∈ p.ops (sem ι N B M) i cs w, o.Inside d n) ∧
      (p.eval (sem ι N B M) i cs w).1 = (p.eval (sem ι N B M) i cs w').1 ∧
      (p.eval (sem ι N B M) i cs w).2.log = (p.eval (sem ι N B M) i cs w').2.log ∧
      Agree d (p.eval (sem ι N B M) i cs w).2.fs (p.eval (sem ι N B M) i cs w').2.fs := by
  intro p
  induction p with
  | ret a => exact fun _ _ cs w w' hs hlog => ⟨nofun, rfl, hlog, hs.agree⟩
  | err e => exact fun _ _ cs w w' hs hlog => ⟨nofun, rfl, hlog, hs.agree⟩
  | call o k ih =>
    intro h hp hb cs w w' hs hlog
    obtain ⟨halike, hreal, hstep⟩ := hs.exec hp.1 (cs 0)
    have hlogs : logOp i (cs 0) w.log o = logOp i (cs 0) w'.log o := by rw [hlog]
    have hrest := ih _ (hp.2 _ hreal) (hb.2 _) (fun m => cs (m + 1)) ((sem ι N B M).exec i o (cs 0) w).2
      ((sem ι N B M).exec i o (cs 0) w').2 hstep hlogs
    have hsame : (Prog.call o k).eval (sem ι N B M) i cs w' =
        (k ((sem ι N B M).exec i o (cs 0) w).1).eval (sem ι N B M) i (fun m => cs (m + 1)) ((sem ι N B M).exec i o (cs 0) w').2 :=
      congrArg (fun p => p.eval (sem ι N B M) i (fun m => cs (m + 1)) ((sem ι N B M).exec i o (cs 0) w').2) (hb.1 _ _ halike).symm
    rw [hsame]
    refine ⟨?_, hrest.2⟩
    intro x hx
    rcases mem_cons.mp hx with rfl | hx
    · exact hs.inside hp.1
    · exact hrest.1 x hx

end Klio.Lib

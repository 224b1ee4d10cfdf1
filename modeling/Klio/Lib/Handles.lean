import Klio.Lib.Fs

/-!
# Open files

A file system with the table of the files that are open. Files are opened for writing by the
operations of `FsOp`, and for reading by operations of their own; closing takes a file out of the table,
whatever it answers.

* `HandleOp`, `Table`, `handleSem`: the operations and what they do.
* `Prog.onFiles`: a program that only uses the operations of `FsOp`.
* `holding`: the protocol of programs that hold at most one file open, and which one.
* `eval_holding`: the table after such a program.
-/

namespace Klio.Lib

/-- File operations, and reading through a handle. -/
inductive HandleOp (N B M : Type) where
  | files (o : FsOp N B M)
  | openRead (p : List N)
  /-- What is left of the file. -/
  | readAll (fd : ℕ)
  | closeRead (fd : ℕ)

/-- What an operation answers. -/
def HandleOp.Res {N B M : Type} : HandleOp N B M → Type
  | .files o => o.Res
  | .openRead _ => Except FsErr ℕ
  | .readAll _ => Except FsErr (List B)
  | .closeRead _ => Except FsErr Unit

/-- An open file. -/
inductive Handle where
  | writing (fd : ℕ)
  | reading (fd : ℕ)
  deriving DecidableEq, Repr

/-- **The table of open files** of a file system. A handle for reading has the inode it reads, or none
for a directory. -/
structure Table (ι N B M : Type) where
  world : World ι N B M
  reads : ℕ → Option ℕ := fun _ => none
  nextRead : ℕ := 0
  opened : List Handle := []

variable {ι N B M E α β : Type}

/-- The open files after an operation. -/
def openedAfter : (o : FsOp N B M) → o.Res → List Handle → List Handle
  | .openTrunc _, r, l => match (r : Except FsErr ℕ) with
    | .ok fd => .writing fd :: l
    | .error _ => l
  | .close fd, _, l => l.erase (.writing fd)
  | _, _, l => l

namespace Table

variable [DecidableEq N] [Inhabited B]

/-- Open a file for reading. A directory can be opened as well. -/
def openRead (s : Table ι N B M) (p : List N) : Except FsErr ℕ × Table ι N B M :=
  if (s.world.fs.look p).isSome ∨ s.world.fs.IsDir p then
    (.ok s.nextRead,
      { s with
        reads := Function.update s.reads s.nextRead (s.world.fs.look p)
        nextRead := s.nextRead + 1
        opened := .reading s.nextRead :: s.opened })
  else (.error .notExist, s)

/-- What is read through a handle. -/
def readAll (s : Table ι N B M) (fd : ℕ) : Except FsErr (List B) := match s.reads fd with
  | some ino => .ok (s.world.fs.data ino)
  | none => .error .isDir

/-- **What an operation answers and does.** A fault makes it fail; a file is closed nevertheless. -/
def exec (i : ι) : (o : HandleOp N B M) → Option ℕ → Table ι N B M → o.Res × Table ι N B M
  | .files o, c, s =>
    (((sem ι N B M).exec i o c s.world).1,
      { s with
        world := ((sem ι N B M).exec i o c s.world).2
        opened := openedAfter o ((sem ι N B M).exec i o c s.world).1 s.opened })
  | .openRead p, none, s => s.openRead p
  | .openRead _, some _, s => ((.error .io : Except FsErr ℕ), s)
  | .readAll fd, none, s => (s.readAll fd, s)
  | .readAll _, some _, s => ((.error .io : Except FsErr (List B)), s)
  | .closeRead fd, none, s => ((.ok () : Except FsErr Unit), { s with opened := s.opened.erase (.reading fd) })
  | .closeRead fd, some _, s => ((.error .io : Except FsErr Unit), { s with opened := s.opened.erase (.reading fd) })

end Table

/-- The semantics of programs that open files. -/
def handleSem (ι N B M : Type) [DecidableEq N] [Inhabited B] :
    Sem ι (HandleOp N B M) HandleOp.Res (Table ι N B M) (Option ℕ) (ℕ → ℕ) where
  exec := Table.exec
  crash keep s := { s with world := (sem ι N B M).crash keep s.world, opened := [] }

/-- A program that only uses the operations of `FsOp`. -/
def Prog.onFiles : Prog (FsOp N B M) FsOp.Res E α → Prog (HandleOp N B M) HandleOp.Res E α
  | .ret a => .ret a
  | .err e => .err e
  | .call o k => .call (.files o) fun r => (k r).onFiles

theorem Prog.onFiles_bind (f : α → Prog (FsOp N B M) FsOp.Res E β) : ∀ p : Prog (FsOp N B M) FsOp.Res E α,
    (p.bind f).onFiles = p.onFiles.bind fun a => (f a).onFiles := by
  intro p
  induction p with
  | ret a => rfl
  | err e => rfl
  | call o k ih => exact congrArg (Prog.call (HandleOp.files o)) (funext fun r => ih r)

/-! ## Programs that hold at most one file open -/

/-- What may be done by a program that holds this file: it writes to no other, opens and renames files only
while it holds none, and neither removes a file nor looks at one by its path. -/
def holdingAllowed (h : Option Handle) : HandleOp N B M → Prop
  | .files (.openTrunc _) | .files (.rename _ _) | .openRead _ => h = none
  | .files (.write fd _) | .files (.sync fd) | .files (.close fd) => h = some (.writing fd)
  | .files (.remove _) | .files (.readDir _) | .files (.readFile _) | .files (.stat _) => False
  | .closeRead fd => h = some (.reading fd)
  | .files (.mkdirAll _) | .files (.emit _) | .readAll _ => True

/-- The file that is held after an answer. -/
def holdingNext (h : Option Handle) : (o : HandleOp N B M) → o.Res → Option Handle
  | .files (.openTrunc _), r => match (r : Except FsErr ℕ) with
    | .ok fd => some (.writing fd)
    | .error _ => h
  | .openRead _, r => match (r : Except FsErr ℕ) with
    | .ok fd => some (.reading fd)
    | .error _ => h
  | .files (.close _), _ | .closeRead _, _ => none
  | _, _ => h

/-- **The protocol of holding at most one file.** -/
def holding : Proto (HandleOp N B M) HandleOp.Res (Option Handle) := ⟨holdingAllowed, holdingNext⟩

/-- The same, for programs on files. -/
def holdingFiles : Proto (FsOp N B M) FsOp.Res (Option Handle) where
  allowed h o := holdingAllowed h (.files o)
  next h o r := holdingNext h (.files o) r

theorem Prog.Sat.onFiles {Q : α → Option Handle → Prop} {X : E → Option Handle → Prop} :
    ∀ {p : Prog (FsOp N B M) FsOp.Res E α} {h : Option Handle}, p.Sat holdingFiles Q X h → p.onFiles.Sat holding Q X h := by
  intro p
  induction p with
  | ret a => exact fun hp => hp
  | err e => exact fun hp => hp
  | call o k ih => exact fun hp => ⟨hp.1, fun r => ih r (hp.2 r)⟩

/-- Operations that touch no file. -/
def FsOp.Neutral : FsOp N B M → Prop
  | .mkdirAll _ | .emit _ => True
  | _ => False

theorem Prog.Uses.held {p : Prog (FsOp N B M) FsOp.Res E α} (hp : p.Uses FsOp.Neutral) (h : Option Handle) :
    p.Sat holdingFiles (fun _ h' => h' = h) (fun _ h' => h' = h) h := by
  refine hp.sat_same ?_ ?_
  · intro o ho
    cases o with
    | mkdirAll | emit => trivial
    | openTrunc | write | sync | close | rename | remove | readDir | readFile | stat => exact ho.elim
  · intro o r ho
    cases o with
    | mkdirAll | emit => rfl
    | openTrunc | write | sync | close | rename | remove | readDir | readFile | stat => exact ho.elim

variable [DecidableEq N] [Inhabited B]

theorem Table.exec_holding {i : ι} {o : HandleOp N B M} {c : Option ℕ} {s : Table ι N B M} {h : Option Handle} {others : List Handle}
    (hs : s.opened = h.toList ++ others) (ha : holdingAllowed h o) :
    (Table.exec i o c s).2.opened = (holdingNext h o (Table.exec i o c s).1).toList ++ others := by
  cases o with
  | files o =>
    show openedAfter o ((sem ι N B M).exec i o c s.world).1 s.opened = _
    change _ = (holdingNext h (.files o) ((sem ι N B M).exec i o c s.world).1).toList ++ others
    generalize ((sem ι N B M).exec i o c s.world).1 = r
    cases o with
    | openTrunc p =>
      obtain rfl : h = none := ha
      cases r with
      | ok fd => simp only [openedAfter, holdingNext, hs, Option.toList_none, List.nil_append, Option.toList_some, List.cons_append]
      | error e => exact hs
    | close fd =>
      obtain rfl : h = some (.writing fd) := ha
      simp only [openedAfter, holdingNext, hs, Option.toList_some, List.cons_append, List.nil_append, List.erase_cons_head,
        Option.toList_none]
    | mkdirAll | write | sync | rename | remove | readDir | readFile | stat | emit => exact hs
  | openRead p =>
    obtain rfl : h = none := ha
    cases c with
    | some k => exact hs
    | none =>
      show (s.openRead p).2.opened = (holdingNext none (.openRead p : HandleOp N B M) (s.openRead p).1).toList ++ others
      unfold Table.openRead
      split
      · simp only [holdingNext, hs, Option.toList_none, List.nil_append, Option.toList_some, List.cons_append]
      · exact hs
  | readAll fd => cases c <;> exact hs
  | closeRead fd =>
    obtain rfl : h = some (.reading fd) := ha
    have herase : s.opened.erase (.reading fd) = others := by
      rw [hs, Option.toList_some, List.singleton_append, List.erase_cons_head]
    cases c <;> exact herase

/-- **The table after a program** that holds at most one file: the files of others, and the one it holds at
its end. -/
theorem eval_holding {Q : α → Option Handle → Prop} {X : E → Option Handle → Prop} {p : Prog (HandleOp N B M) HandleOp.Res E α}
    {h : Option Handle} (hp : p.Sat holding Q X h) (i : ι) (cs : ℕ → Option ℕ) (s : Table ι N B M) {others : List Handle}
    (hs : s.opened = h.toList ++ others) :
    ∃ h', (p.eval (handleSem ι N B M) i cs s).2.opened = h'.toList ++ others ∧
      match (p.eval (handleSem ι N B M) i cs s).1 with
      | .ok a => Q a h'
      | .error e => X e h' :=
  Prog.eval_sat (fun s h => s.opened = h.toList ++ others) (fun _ => True) (fun _ _ _ _ hs ha _ => Table.exec_holding hs ha) p h cs s
    hp hs fun _ => trivial

end Klio.Lib

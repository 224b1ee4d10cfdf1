import Klio.Lib.Bufio

/-!
# An object store behind a file interface

An object appears as a whole when its writer is closed. Until then nobody sees what was written, and
the object that was there before stays.

* `ObjStore.exec`: the operations of a file system, on such a store.
* `objProto`: the protocol of a writer that closes its file only if nothing has failed. `exec_tells`:
  the store is as the phase of such a writer says.
-/

namespace Klio.Lib

variable {N B M E : Type}

/-- **An object store.** `pending` has the path of an open writer and what was written through it. -/
structure ObjStore (N B : Type) where
  objects : List N → Option (List B)
  pending : ℕ → List N × List B := fun _ => ([], [])
  nextFd : ℕ := 0

section Store

variable [DecidableEq N]

namespace ObjStore

def openTrunc (s : ObjStore N B) (p : List N) : ObjStore N B :=
  { s with pending := Function.update s.pending s.nextFd (p, []), nextFd := s.nextFd + 1 }

def write (s : ObjStore N B) (fd : ℕ) (bs : List B) : ObjStore N B :=
  { s with pending := Function.update s.pending fd ((s.pending fd).1, (s.pending fd).2 ++ bs) }

/-- Let a path have another object, or none. -/
def set (s : ObjStore N B) (p : List N) (d : Option (List B)) : ObjStore N B :=
  { s with objects := Function.update s.objects p d }

/-- **What an operation answers and does.** A fault makes it fail; a write has then handed on its first
bytes, and the other operations have done nothing. There are no directories. -/
def exec : (o : FsOp N B M) → Option ℕ → ObjStore N B → o.Res × ObjStore N B
  | .mkdirAll _, none, s => ((.ok () : Except FsErr Unit), s)
  | .mkdirAll _, some _, s => ((.error .io : Except FsErr Unit), s)
  | .openTrunc p, none, s => ((.ok s.nextFd : Except FsErr ℕ), s.openTrunc p)
  | .openTrunc _, some _, s => ((.error .io : Except FsErr ℕ), s)
  | .write fd bs, none, s => ((.ok () : Except FsErr Unit), s.write fd bs)
  | .write fd bs, some k, s => ((.error .io : Except FsErr Unit), s.write fd (bs.take k))
  | .sync _, none, s => ((.ok () : Except FsErr Unit), s)
  | .sync _, some _, s => ((.error .io : Except FsErr Unit), s)
  | .close fd, none, s => ((.ok () : Except FsErr Unit), s.set (s.pending fd).1 (some (s.pending fd).2))
  | .close _, some _, s => ((.error .io : Except FsErr Unit), s)
  | .rename p q, none, s => match s.objects p with
    | none => ((.error .notExist : Except FsErr Unit), s)
    | some d => ((.ok () : Except FsErr Unit), (s.set p none).set q (some d))
  | .rename _ _, some _, s => ((.error .io : Except FsErr Unit), s)
  | .remove p, none, s => ((.ok () : Except FsErr Unit), s.set p none)
  | .remove _, some _, s => ((.error .io : Except FsErr Unit), s)
  | .readDir _, _, s => ((.error .io : Except FsErr (List (DirEntry N))), s)
  | .readFile p, none, s => match s.objects p with
    | none => ((.error .notExist : Except FsErr (List B)), s)
    | some d => ((.ok d : Except FsErr (List B)), s)
  | .readFile _, some _, s => ((.error .io : Except FsErr (List B)), s)
  | .stat p, none, s => match s.objects p with
    | none => ((.error .notExist : Except FsErr Unit), s)
    | some _ => ((.ok () : Except FsErr Unit), s)
  | .stat _, some _, s => ((.error .io : Except FsErr Unit), s)
  | .emit _, none, s => ((.ok () : Except FsErr Unit), s)
  | .emit _, some _, s => ((.error .io : Except FsErr Unit), s)

end ObjStore

/-! ## Writers that close what they have written -/

/-- The path a writer publishes at, which it never renames. -/
def objSpec (M : Type) (B : Type) (p : List N) : Stage.Spec N B M where
  stg := p
  fin := p
  Pub _ _ := False
  Msg _ _ := False

/-- A writer that has failed does not close its file. -/
def ClosesWhole (ph : Stage.Phase B) : FsOp N B M → Prop
  | .close _ => ph ≠ .broken
  | _ => True

/-- **The protocol of a writer on an object store.** -/
def objProto (M B : Type) (p : List N) : Proto (FsOp N B M) FsOp.Res (Stage.Phase B) :=
  ⟨fun ph o => (Stage.proto (objSpec M B p)).allowed ph o ∧ ClosesWhole ph o, Stage.next⟩

/-- What the phase of a writer at `p` says about the store: it is the old one until the writer is
closed. -/
def Tells (p : List N) (old s : ObjStore N B) : Stage.Phase B → Prop
  | .staging fd w _ => s.objects = old.objects ∧ s.pending fd = (p, w)
  | .closed w _ => s.objects = Function.update old.objects p (some w)
  | _ => s.objects = old.objects

/-- **Operations of such a writer keep it.** -/
theorem exec_tells {p : List N} {old s : ObjStore N B} {ph : Stage.Phase B} {o : FsOp N B M}
    (ha : (objProto M B p).allowed ph o) (h : Tells p old s ph) (c : Option ℕ) :
    Tells p old (ObjStore.exec o c s).2 ((objProto M B p).next ph o (ObjStore.exec o c s).1) := by
  obtain ⟨ha, hw⟩ := ha
  cases o with
  | mkdirAll q =>
    obtain ⟨rfl, -⟩ := ha
    cases c <;> exact h
  | openTrunc q =>
    obtain ⟨rfl, rfl⟩ := ha
    cases c with
    | none => exact ⟨h, Function.update_self _ _ _⟩
    | some k => exact h
  | write fd bs =>
    obtain ⟨w, n, rfl⟩ := ha
    obtain ⟨hobj, hp⟩ := h
    cases c with
    | none =>
      refine ⟨hobj, ?_⟩
      show Function.update s.pending fd ((s.pending fd).1, (s.pending fd).2 ++ bs) fd = _
      rw [Function.update_self, hp]
    | some k => exact hobj
  | sync fd =>
    obtain ⟨w, n, rfl⟩ := ha
    cases c with
    | none => exact h
    | some k => exact h.1
  | close fd =>
    rcases ha with ⟨w, n, rfl⟩ | rfl
    · obtain ⟨hobj, hp⟩ := h
      cases c with
      | none =>
        show Function.update s.objects (s.pending fd).1 (some (s.pending fd).2) = _
        rw [hp, hobj]
      | some k => exact hobj
    · exact absurd rfl hw
  | rename q q' =>
    obtain ⟨w, n, -, hpub, -⟩ := ha
    exact hpub.elim
  | remove q => exact ha.elim
  | emit m => exact ha.elim
  | readDir q => exact h
  | readFile q =>
    cases c with
    | none =>
      simp only [ObjStore.exec]
      split <;> exact h
    | some k => exact h
  | stat q =>
    cases c with
    | none =>
      simp only [ObjStore.exec]
      split <;> exact h
    | some k => exact h

theorem exec_unbroken {p : List N} {s : ObjStore N B} {ph : Stage.Phase B} {o : FsOp N B M}
    (ha : (objProto M B p).allowed ph o) (h : ph ≠ .broken) :
    (objProto M B p).next ph o (ObjStore.exec o none s).1 ≠ .broken := by
  obtain ⟨ha, -⟩ := ha
  cases o with
  | mkdirAll q => exact nofun
  | openTrunc q => exact nofun
  | write fd bs =>
    obtain ⟨w, n, rfl⟩ := ha
    exact nofun
  | sync fd =>
    obtain ⟨w, n, rfl⟩ := ha
    exact nofun
  | close fd =>
    rcases ha with ⟨w, n, rfl⟩ | rfl
    · exact nofun
    · exact absurd rfl h
  | rename q q' =>
    obtain ⟨w, n, -, hpub, -⟩ := ha
    exact hpub.elim
  | _ => exact h

end Store

/-! ## Buffered writers only write -/

def IsWrite : FsOp N B M → Prop
  | .write _ _ => True
  | _ => False

theorem IsWrite.closesWhole {o : FsOp N B M} (h : IsWrite o) (ph : Stage.Phase B) : ClosesWhole ph o := by
  cases o <;> first | exact h.elim | trivial

namespace Bufio

theorem direct_uses (b : Bufio B) (p : List B) : (b.direct p : Prog (FsOp N B M) FsOp.Res E (Out B)).Uses IsWrite := by
  refine ⟨trivial, fun (r : Except FsErr Unit) => ?_⟩
  cases r <;> trivial

theorem flush_uses (b : Bufio B) : (b.flush : Prog (FsOp N B M) FsOp.Res E (Out B)).Uses IsWrite := by
  unfold flush
  split
  · trivial
  · trivial
  · refine ⟨trivial, fun (r : Except FsErr Unit) => ?_⟩
    cases r <;> trivial

theorem write_uses (b : Bufio B) (p : List B) : (b.write p : Prog (FsOp N B M) FsOp.Res E (Out B)).Uses IsWrite := by
  unfold write
  split
  · trivial
  split
  · trivial
  split
  · exact direct_uses b p
  refine Prog.uses_bind (fun out => ?_) (flush_uses _)
  obtain ⟨b', r⟩ := out
  rcases r with e | _
  · trivial
  unfold writeRest
  dsimp only
  split
  · trivial
  · exact direct_uses b' _

end Bufio

end Klio.Lib

import Klio.Lib.Stage

/-!
# A buffered writer

`Bufio` collects what is written to a file and hands it on when its buffer is full or
flushed. A failed write sticks: from then on every call fails without touching the
file. What the writer was given is always the file followed by the buffer
(`write_sat`, `flush_sat`, both for a writer of a staging file).
-/

namespace Klio.Lib

open List

/-- A buffered writer on an open file. -/
structure Bufio (B : Type) where
  fd : ℕ
  size : ℕ
  buf : List B
  err : Option FsErr

namespace Bufio

variable {N B M E : Type}

/-- The size taken when none, or a negative one, is asked for. -/
def defaultBufSize : ℕ := 4096

def newWriterSize (fd : ℕ) (size : ℤ) : Bufio B :=
  ⟨fd, if size ≤ 0 then defaultBufSize else size.toNat, [], none⟩

/-- Room left in the buffer. -/
def available (b : Bufio B) : ℕ := b.size - b.buf.length

/-- What a call leaves behind and whether it failed. -/
abbrev Out (B : Type) := Bufio B × Except FsErr Unit

/-- Write past the buffer. -/
def direct (b : Bufio B) (p : List B) : Prog (FsOp N B M) FsOp.Res E (Out B) :=
  .call (.write b.fd p) fun (r : Except FsErr Unit) => match r with
    | .ok _ => .ret (b, .ok ())
    | .error e => .ret ({ b with err := some e }, .error e)

/-- Hand the buffer on. -/
def flush (b : Bufio B) : Prog (FsOp N B M) FsOp.Res E (Out B) :=
  match b.err, b.buf with
  | some e, _ => .ret (b, .error e)
  | none, [] => .ret (b, .ok ())
  | none, _ :: _ => .call (.write b.fd b.buf) fun (r : Except FsErr Unit) => match r with
    | .ok _ => .ret ({ b with buf := [] }, .ok ())
    -- what is left in the buffer does not matter: the error sticks
    | .error e => .ret ({ b with err := some e }, .error e)

/-- Write what is left of a slice after the buffer was filled up and flushed. -/
def writeRest (q : List B) : Out B → Prog (FsOp N B M) FsOp.Res E (Out B)
  | (b, .error e) => .ret (b, .error e)
  | (b, .ok _) => if q.length ≤ b.available then .ret ({ b with buf := b.buf ++ q }, .ok ()) else b.direct q

def write (b : Bufio B) (p : List B) : Prog (FsOp N B M) FsOp.Res E (Out B) :=
  match b.err with
  | some e => .ret (b, .error e)
  | none =>
    if p.length ≤ b.available then .ret ({ b with buf := b.buf ++ p }, .ok ())
    else if b.buf.isEmpty then b.direct p
    else ({ b with buf := b.buf ++ p.take b.available } : Bufio B).flush.bind (writeRest (p.drop b.available))

/-- A call has succeeded, the file has only grown since `w₀`, and followed by the buffer it is
`goal`; or the call has failed. -/
def Wrote (fd : ℕ) (w₀ goal : List B) (s : ℕ) : Out B → Stage.Phase B → Prop
  | (b, .ok _), ph => b.fd = fd ∧ b.err = none ∧ ∃ w, ph = .staging fd w s ∧ w₀ <+: w ∧ w ++ b.buf = goal
  | (b, .error e), ph => b.err = some e ∧ ph = .broken

variable {sp : Stage.Spec N B M} {X : E → Stage.Phase B → Prop}

theorem direct_sat {b : Bufio B} (he : b.err = none) (hb : b.buf = []) (p w : List B) (s : ℕ) :
    (b.direct p : Prog (FsOp N B M) FsOp.Res E (Out B)).Sat (Stage.proto sp)
      (Wrote b.fd w (w ++ p) s) X (.staging b.fd w s) := by
  refine Prog.sat_call ⟨w, s, rfl⟩ fun (r : Except FsErr Unit) => ?_
  cases r with
  | ok _ => exact ⟨rfl, he, w ++ p, rfl, prefix_append _ _, by rw [hb, append_nil]⟩
  | error e => exact ⟨rfl, rfl⟩

/-- **Flushing** leaves an empty buffer. -/
theorem flush_sat {b : Bufio B} (he : b.err = none) (w : List B) (s : ℕ) :
    (b.flush : Prog (FsOp N B M) FsOp.Res E (Out B)).Sat (Stage.proto sp)
      (fun out ph => Wrote b.fd w (w ++ b.buf) s out ph ∧ (out.2 = .ok () → out.1.buf = []))
      X (.staging b.fd w s) := by
  obtain ⟨fd, size, buf, err⟩ := b
  obtain rfl : err = none := he
  rcases buf with _ | ⟨x, xs⟩
  · exact ⟨⟨rfl, rfl, w, rfl, prefix_rfl, rfl⟩, fun _ => rfl⟩
  refine Prog.sat_call ⟨w, s, rfl⟩ fun (r : Except FsErr Unit) => ?_
  cases r with
  | ok _ => exact ⟨⟨rfl, rfl, w ++ (x :: xs), rfl, prefix_append _ _, append_nil _⟩, fun _ => rfl⟩
  | error e => exact ⟨⟨rfl, rfl⟩, nofun⟩

/-- **Writing** appends to what the writer was given. -/
theorem write_sat {b : Bufio B} (he : b.err = none) (p w : List B) (s : ℕ) :
    (b.write p : Prog (FsOp N B M) FsOp.Res E (Out B)).Sat (Stage.proto sp)
      (Wrote b.fd w (w ++ b.buf ++ p) s) X (.staging b.fd w s) := by
  unfold write
  simp only [he]
  by_cases hfit : p.length ≤ b.available
  · rw [if_pos hfit]
    exact ⟨rfl, rfl, w, rfl, prefix_rfl, (append_assoc _ _ _).symm⟩
  rw [if_neg hfit]
  by_cases hb : b.buf.isEmpty = true
  · rw [if_pos hb]
    rw [List.isEmpty_iff] at hb
    rw [hb, append_nil]
    exact direct_sat he hb p w s
  rw [if_neg hb]
  refine Prog.sat_bind (flush_sat (b := ⟨b.fd, b.size, b.buf ++ p.take b.available, none⟩) rfl w s) ?_
  rintro ⟨b', r⟩ ph ⟨hw, hempty⟩
  rcases r with e | _
  · exact hw
  obtain ⟨hfd, he', w', rfl, hpre, hgoal⟩ := hw
  have hbuf : b'.buf = [] := hempty rfl
  rw [hbuf, append_nil] at hgoal
  -- the filled buffer is in the file now, the rest of the slice is still to be written
  have hrest : w' ++ p.drop b.available = w ++ b.buf ++ p := by
    rw [hgoal, append_assoc, append_assoc, append_assoc, take_append_drop]
  unfold writeRest
  dsimp only
  split
  · exact ⟨hfd, he', w', rfl, hpre, by rw [hbuf, nil_append]; exact hrest⟩
  rw [← hrest, ← hfd]
  refine Prog.sat_mono (direct_sat he' hbuf _ w' s) ?_ fun _ _ hx => hx
  rintro ⟨b'', r⟩ ph hw
  rcases r with e | _
  · exact hw
  obtain ⟨h1, h2, w'', h3, h4, h5⟩ := hw
  exact ⟨h1, h2, w'', h3, hpre.trans h4, h5⟩

end Bufio

end Klio.Lib

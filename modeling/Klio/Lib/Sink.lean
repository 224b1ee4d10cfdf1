import Klio.Lib.Fs

/-!
# A stream that is only written to

What Go calls an `io.Writer`: bytes are appended, and a write that fails may have appended some.

* `Sink.exec`, `sinkSem`: the state is what was written.
* `Sink.proto`: the protocol of a program that stops at the first failed write. Its phase tells what
  was written, as long as nothing has failed.
* `eval_sink`, `eval_sink_clean`: what such a program has written when it returns, and that it returns
  if no write fails.
-/

namespace Klio.Lib

variable {B E α : Type}

/-- `Write` -/
inductive SinkOp (B : Type) where
  | write (bs : List B)

/-- A write succeeds or fails. -/
abbrev SinkOp.Res : SinkOp B → Type
  | .write _ => Except FsErr Unit

/-- Programs that write. -/
abbrev SinkProg (B E α : Type) := Prog (SinkOp B) SinkOp.Res E α

namespace Sink

/-- A write that fails appends the first `k` bytes. -/
def exec : (o : SinkOp B) → Option ℕ → List B → o.Res × List B
  | .write bs, none, out => (.ok (), out ++ bs)
  | .write bs, some k, out => (.error .io, out ++ bs.take k)

/-- One process with a sink of its own. A crash keeps what was written. -/
def sinkSem (B : Type) : Sem Unit (SinkOp B) SinkOp.Res (List B) (Option ℕ) Unit where
  exec _ := exec
  crash _ out := out

/-- Write while nothing has failed. The phase is what was written, or `none` after a failure. -/
def proto (B : Type) : Proto (SinkOp B) SinkOp.Res (Option (List B)) where
  allowed ph _ := ph ≠ none
  next
    | some out, .write bs, .ok _ => some (out ++ bs)
    | _, .write _, _ => none

theorem exec_proto {ph : Option (List B)} {o : SinkOp B} {out : List B} (ha : (proto B).allowed ph o)
    (h : ∀ w, ph = some w → out = w) (c : Option ℕ) :
    ∀ w, (proto B).next ph o (exec o c out).1 = some w → (exec o c out).2 = w := by
  obtain ⟨bs⟩ := o
  obtain ⟨w₀, rfl⟩ := Option.ne_none_iff_exists'.mp ha
  intro w hw
  cases c with
  | none =>
    rw [h w₀ rfl]
    exact Option.some.inj hw
  | some k => cases hw

/-- **What a program has written when it returns.** -/
theorem eval_sink {p : SinkProg B E α} {Q : α → Option (List B) → Prop} {X : E → Option (List B) → Prop}
    (hp : p.Sat (proto B) Q X (some [])) (cs : ℕ → Option ℕ) :
    match (p.eval (sinkSem B) () cs []).1 with
    | .ok a => ∃ ph, (∀ w, ph = some w → (p.eval (sinkSem B) () cs []).2 = w) ∧ Q a ph
    | .error e => ∃ ph, X e ph := by
  obtain ⟨ph, hph, hend⟩ := Prog.eval_sat (M := sinkSem B) (i := ()) (fun out ph => ∀ w, ph = some w → out = w)
    (fun _ => True) (fun out ph o c h ha _ => exec_proto ha h c) p (some []) cs [] hp
    (fun w hw => Option.some.inj hw) fun _ => trivial
  cases hres : (p.eval (sinkSem B) () cs []).1 with
  | ok a => rw [hres] at hend; exact ⟨ph, hph, hend⟩
  | error e => rw [hres] at hend; exact ⟨ph, hend⟩

/-- **Without failing writes** the phase tells everything, whether the program returns or not. -/
theorem eval_sink_clean {p : SinkProg B E α} {Q : α → Option (List B) → Prop} {X : E → Option (List B) → Prop}
    (hp : p.Sat (proto B) Q X (some [])) :
    match (p.eval (sinkSem B) () (fun _ => none) []).1 with
    | .ok a => Q a (some (p.eval (sinkSem B) () (fun _ => none) []).2)
    | .error e => X e (some (p.eval (sinkSem B) () (fun _ => none) []).2) := by
  obtain ⟨ph, rfl, hend⟩ := Prog.eval_sat (M := sinkSem B) (i := ()) (fun out ph => ph = some out)
    (fun c => c = none) (fun out ph o c h ha hc => by obtain ⟨bs⟩ := o; rw [h, hc]; rfl) p (some []) (fun _ => none) []
    hp rfl fun _ => rfl
  exact hend

end Sink

end Klio.Lib

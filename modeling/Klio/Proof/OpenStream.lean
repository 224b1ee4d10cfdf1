import Klio.Model.Buffer
import Klio.Model.Numbering

/-!
# Whether a segment is open

`HasWALFileOpened` looks at the name of the current file, `Write` and `CloseWAL` use the stream.
`OpenWAL` sets the name, asks for the stream, and returns if there is none.

* `Believes`: what the handler believes, by whether a stream was refused.
* `calls_believes`: every call keeps it, whatever the connection answers.
* `opened_iff_stream`: the two agree as long as no stream was refused, and never after that.
* `gap_rejected_iff`: which gaps in the data are rejected while a segment is open.
-/

namespace Klio

open Lib Prog

variable {P : Outside} {tl : Timeline}

def UpOp.refusal : (o : UpOp) → o.Res → Bool
  | .storeWALStreaming _ _, r => match (r : Except Err ℕ) with
    | .error _ => true
    | .ok _ => false
  | _, _ => false

def refusals : Proto UpOp UpOp.Res Bool where
  allowed _ _ := True
  next refused o r := o.refusal r || refused

/-- What the handler believes: the truth, or, once a stream was refused, that there is one. -/
def Believes (h : TimelineHandler) : Bool → Prop
  | false => h.hasWALFileOpened = h.stream.isSome
  | true => h.hasWALFileOpened = true ∧ h.stream = none

/-- A nil stream is used only after a stream was refused. -/
def Panics (e : Err) (refused : Bool) : Prop := refused = false → e ≠ nilDereference

/-- Every outcome of a call leaves the handler so. -/
abbrev KeepsBelief (p : UpProg (Data × Except Err Unit)) (refused : Bool) : Prop :=
  p.Sat refusals (fun out refused => Believes out.1.walHandler refused) Panics refused

variable {refused : Bool} {h : TimelineHandler}

theorem Believes.closed (hb : Believes h refused) (hno : h.hasWALFileOpened = false) :
    refused = false ∧ h.stream = none := by
  cases refused with
  | true => rw [hb.1] at hno; cases hno
  | false =>
    have hstream : h.stream.isSome = false := hb.symm.trans hno
    exact ⟨rfl, by simpa using hstream⟩

theorem Believes.opened (hb : Believes h false) (hyes : h.hasWALFileOpened = true) :
    ∃ stream, h.stream = some stream := Option.isSome_iff_exists.mp (hb.symm.trans hyes)

theorem panics_of_none (hb : Believes h refused) (hopen : h.hasWALFileOpened = true)
    (hnone : h.stream = none) : Panics nilDereference refused := by
  intro hr
  subst hr
  obtain ⟨stream, hs⟩ := hb.opened hopen
  rw [hnone] at hs
  cases hs

/-! ## The handler -/

theorem openWAL_believes (hname : ∀ pos name, P.walFileName pos tl.tli tl.segmentSize = .ok name → name ≠ []) (hb : Believes h refused) (hno : h.hasWALFileOpened = false) (pos : UInt64) :
    (h.openWAL P tl pos).Sat refusals (fun out refused => Believes out.1 refused) Panics refused := by
  obtain ⟨rfl, hstream⟩ := hb.closed hno
  unfold TimelineHandler.openWAL
  rcases hn : P.walFileName pos tl.tli tl.segmentSize with e | name
  · exact hb
  have hopen : (name != []) = true := bne_iff_ne.mpr (hname pos name hn)
  refine sat_call trivial fun _ => sat_call trivial fun (r : Except Err ℕ) => ?_
  cases r with
  -- the name is set already, the stream is not
  | error e => exact ⟨hopen, hstream⟩
  | ok stream => exact hopen

theorem closeWAL_believes (hb : Believes h refused) (hopen : h.hasWALFileOpened = true) :
    h.closeWAL.Sat refusals (fun out refused => Believes out.1 refused) Panics refused := by
  unfold TimelineHandler.closeWAL
  rcases hs : h.stream with _ | stream
  · exact panics_of_none hb hopen hs
  refine sat_call trivial fun (r : Except Err Unit) => ?_
  rcases r with e | _
  · exact hb
  cases refused with
  | false => exact rfl
  | true => rw [hb.2] at hs; cases hs

theorem write_believes (hb : Believes h refused) (hopen : h.hasWALFileOpened = true) :
    ∀ (n : ℕ) (block : List UInt8), (h.writeChunks n block).Sat refusals (fun _ refused' => refused' = refused) Panics refused := by
  intro n
  induction n with
  | zero => intro block; exact rfl
  | succ n ih =>
    intro block
    unfold TimelineHandler.writeChunks
    split
    · exact rfl
    rcases hs : h.stream with _ | stream
    · exact panics_of_none hb hopen hs
    refine sat_call trivial fun (r : Except Err Unit) => ?_
    cases r with
    | error e => exact rfl
    | ok _ => exact ih _

/-! ## The buffer -/

variable {wal : Data}

theorem flush_believes (hb : Believes wal.walHandler refused) :
    wal.flush.Sat refusals (fun out refused => out.1.walHandler = wal.walHandler ∧ Believes out.1.walHandler refused) Panics refused := by
  unfold Data.flush
  split
  · exact ⟨rfl, hb⟩
  rename_i hflush
  have hopen : wal.walHandler.hasWALFileOpened = true := by
    by_contra hno
    exact hflush (.inl (by simpa using hno))
  refine sat_bind (write_believes hb hopen _ _) ?_
  rintro r refused' rfl
  cases r with
  | error e => exact ⟨rfl, hb⟩
  | ok _ => exact ⟨rfl, hb⟩

theorem closeCurrentWAL_believes (hb : Believes wal.walHandler refused) :
    KeepsBelief wal.closeCurrentWAL refused := by
  unfold Data.closeCurrentWAL
  split
  · exact hb
  rename_i hopen
  have hopen : wal.walHandler.hasWALFileOpened = true := by simpa using hopen
  refine sat_bind (flush_believes hb) ?_
  rintro ⟨wal', r⟩ refused' ⟨hsame, hb'⟩
  rcases r with e | _
  · exact hb'
  refine sat_bind (closeWAL_believes hb' (by rw [hsame]; exact hopen)) ?_
  rintro ⟨h, r⟩ refused'' hb''
  cases r with
  | error e => exact hb''
  | ok _ => exact hb''

variable (hname : ∀ pos name, P.walFileName pos tl.tli tl.segmentSize = .ok name → name ≠ [])

include hname

theorem ensureOpen_believes (hb : Believes wal.walHandler refused) (pos : UInt64) :
    KeepsBelief (wal.ensureOpen P tl pos) refused := by
  unfold Data.ensureOpen
  split
  · rename_i hno
    refine sat_bind (openWAL_believes hname hb hno pos) ?_
    rintro ⟨h, r⟩ refused' hb'
    cases r with
    | error e => exact hb'
    | ok _ => exact hb'
  · exact hb

theorem processLoop_believes : ∀ (n : ℕ) (wal : Data) (data : List UInt8) (pos off : UInt64) (refused : Bool),
    Believes wal.walHandler refused → KeepsBelief (Data.processLoop P tl n wal data pos off) refused := by
  intro n
  induction n with
  | zero =>
    intro wal data pos off refused hb
    unfold Data.processLoop
    split
    · exact hb
    · intro _ hno
      simp [nilDereference] at hno
  | succ n ih =>
    intro wal data pos off refused hb
    unfold Data.processLoop
    split
    · exact hb
    refine sat_bind (ensureOpen_believes hname hb pos) ?_
    rintro ⟨wal', r⟩ refused' hb'
    rcases r with e | _
    · exact hb'
    dsimp only
    split
    · refine sat_bind (closeCurrentWAL_believes ?_) ?_
      · exact hb'
      rintro ⟨wal'', r⟩ refused'' hb''
      cases r with
      | error e => exact hb''
      | ok _ => exact ih wal'' _ _ _ refused'' hb''
    · exact ih _ _ _ _ refused' hb'

theorem processWALData_believes (hb : Believes wal.walHandler refused) (data : List UInt8) (pos : UInt64) :
    KeepsBelief (wal.processWALData P tl data pos) refused := by
  unfold Data.processWALData
  split
  · intro _ hno
    simp [nilDereference] at hno
  dsimp only
  split
  · split
    · exact hb
    · exact processLoop_believes hname _ _ _ _ _ _ hb
  · split
    · exact hb
    · exact processLoop_believes hname _ _ _ _ _ _ hb

/-- **Every history of calls** leaves the handler with its belief. -/
theorem calls_believes : ∀ (cs : List WalCall) (wal : Data) (refused : Bool), Believes wal.walHandler refused →
    (Data.calls P tl wal cs).Sat refusals (fun wal refused => Believes wal.walHandler refused) Panics refused := by
  intro cs
  induction cs with
  | nil => intro wal refused hb; exact hb
  | cons c cs ih =>
    intro wal refused hb
    refine sat_bind (Q := fun out refused => Believes out.1.walHandler refused) ?_ fun out refused' hb' => ih out.1 refused' hb'
    cases c with
    | data bytes pos => exact processWALData_believes hname hb bytes pos
    | flush => exact sat_mono (flush_believes hb) (fun _ _ h => h.2) fun _ _ h => h
    | close => exact closeCurrentWAL_believes hb

omit hname

/-! ## Histories -/

def Refused (tr : List (Σ o, UpOp.Res o)) : Prop := ∃ e ∈ tr, e.1.refusal e.2 = true

theorem through_refusals (tr : List (Σ o, UpOp.Res o)) (refused : Bool) :
    refusals.through refused tr = true ↔ refused = true ∨ Refused tr := by
  induction tr generalizing refused with
  | nil => simp [Refused]
  | cons ev tr ih =>
    rw [Proto.through_cons, ih]
    simp [refusals, Refused, or_assoc, or_left_comm]

theorem sat_runs {T : Proto UpOp UpOp.Res Bool} {α : Type} {Q : α → Bool → Prop} {X : Err → Bool → Prop} {p p' : UpProg α} {ph : Bool}
    {tr : List (Σ o, UpOp.Res o)} (h : p.Sat T Q X ph) (hr : p.Runs tr p') : p'.Sat T Q X (T.through ph tr) := by
  induction hr generalizing ph with
  | nil p => exact h
  | cons r _ ih => exact ih (h.2 r)

/-- **The name and the stream agree exactly as long as no stream was refused.** For every history of
calls, and whatever streams, blocks and ends of streams the connection refuses: the handler that is left
knows whether it has a stream if and only if none was refused, and only then may a nil stream be used. -/
theorem opened_iff_stream (P : Outside) (tl : Timeline)
    (hname : ∀ pos name, P.walFileName pos tl.tli tl.segmentSize = .ok name → name ≠ []) (cs : List WalCall)
    (tr : List (Σ o, UpOp.Res o)) (left : UpProg Data) (hrun : (Data.calls P tl {} cs).Runs tr left) :
    (∀ wal, left = .ret wal →
      ((wal.walHandler.hasWALFileOpened = true ↔ wal.walHandler.stream ≠ none) ↔ ¬ Refused tr)) ∧
    (left = .err nilDereference → Refused tr) := by
  have hsat := sat_runs (calls_believes hname cs {} false rfl) hrun
  have hthrough := through_refusals tr false
  constructor
  · rintro wal rfl
    have hb : Believes wal.walHandler (refusals.through false tr) := hsat
    cases hr : refusals.through false tr with
    | true =>
      rw [hr] at hb hthrough
      have href : Refused tr := by simpa using hthrough
      simp [hb.1, hb.2, href]
    | false =>
      rw [hr] at hb hthrough
      have href : ¬ Refused tr := by simpa using hthrough
      have hb : wal.walHandler.hasWALFileOpened = wal.walHandler.stream.isSome := hb
      simp [hb, href, Option.isSome_iff_ne_none]
  · rintro rfl
    have hx : Panics nilDereference (refusals.through false tr) := hsat
    by_contra hno
    refine hx ?_ rfl
    cases hr : refusals.through false tr with
    | false => rfl
    | true => exact absurd (by simpa using hthrough.mp hr) hno

theorem formatHex_ne_nil (n : ℕ) : formatHex n ≠ [] := by
  intro h
  have hdigits := Nat.toDigits_ne_nil (n := n) (b := 16)
  have hmap := (List.append_eq_nil_iff.mp h).2
  exact hdigits (List.map_eq_nil_iff.mp hmap)

theorem numbered_names (policies : List RetentionPolicy) (metadata : List ClusterMetadata) (tl : Timeline) (pos : UInt64) (name : Name)
    (h : (numbered policies metadata).walFileName pos tl.tli tl.segmentSize = .ok name) : name ≠ [] := by
  cases h
  intro hnil
  exact formatHex_ne_nil _ (List.append_eq_nil_iff.mp (List.append_eq_nil_iff.mp hnil).1).1

def fourBytes : Timeline := ⟨1, 4⟩

def connection (stream : Except Err ℕ) : (o : UpOp) → o.Res
  | .place _ => ()
  | .storeWALStreaming _ _ => stream
  | .sendBlock _ _ => (.ok () : Except Err Unit)
  | .close _ => (.ok () : Except Err Unit)

def refusedStream : List (Σ o, UpOp.Res o) :=
  [⟨.place ⟨0, 0, 0⟩, ()⟩, ⟨.storeWALStreaming (segmentName 1 4 0) 0, .error (.new "unavailable")⟩]

/-- A byte is received and sent. -/
def acceptedStream : List (Σ o, UpOp.Res o) :=
  [⟨.place ⟨0, 0, 0⟩, ()⟩, ⟨.storeWALStreaming (segmentName 1 4 0) 0, .ok 0⟩, ⟨.sendBlock 0 [7], .ok ()⟩]

/-- The handler has a stream and knows it. -/
theorem open_with_stream :
    (Data.calls (numbered [] []) fourBytes {} [.data [7] 0, .flush]).Runs acceptedStream
        (.ret ⟨⟨some 0, segmentName 1 4 0⟩, 1, []⟩) ∧
      (((TimelineHandler.hasWALFileOpened ⟨some 0, segmentName 1 4 0⟩ = true) ↔ some 0 ≠ none) ↔ ¬ Refused acceptedStream) := by
  have hrun : (Data.calls (numbered [] []) fourBytes {} [.data [7] 0, .flush]).Runs acceptedStream
      (.ret ⟨⟨some 0, segmentName 1 4 0⟩, 1, []⟩) :=
    Prog.runs_answered (connection (.ok 0)) 3 (Data.calls (numbered [] []) fourBytes {} [.data [7] 0, .flush])
  exact ⟨hrun, (opened_iff_stream (numbered [] []) fourBytes (numbered_names [] [] fourBytes) _ _ _ hrun).1 _ rfl⟩

/-- The stream is refused, and the handler believes it has one; the end of the streaming loop then uses
it. -/
theorem refused_stream_used :
    (Data.calls (numbered [] []) fourBytes {} [.data [7] 0]).Runs refusedStream (.ret ⟨⟨none, segmentName 1 4 0⟩, 0, []⟩) ∧
      TimelineHandler.hasWALFileOpened ⟨none, segmentName 1 4 0⟩ = true ∧
      (manageWALStream (numbered [] []) fourBytes {} [.data [7] 0]).Runs refusedStream (.err nilDereference) := by
  refine ⟨?_, by decide +kernel, ?_⟩
  · exact Prog.runs_answered (connection (.error (.new "unavailable"))) 2 (Data.calls (numbered [] []) fourBytes {} [.data [7] 0])
  · exact Prog.runs_answered (connection (.error (.new "unavailable"))) 2 (manageWALStream (numbered [] []) fourBytes {} [.data [7] 0])

/-! ## Gaps -/

section Gaps

variable {P : Outside} {tl : Timeline} {wal : Data}

theorem bind_ne_ret {α β : Type} {p : UpProg α} {f : α → UpProg β} (h : ∀ a, p ≠ .ret a) (b : β) : p.bind f ≠ .ret b := by
  cases p with
  | ret a => exact absurd rfl (h a)
  | err e => exact nofun
  | call o k => exact nofun

theorem closeCurrentWAL_asks (hopen : wal.walHandler.hasWALFileOpened = true) (out : Data × Except Err Unit) :
    wal.closeCurrentWAL ≠ .ret out := by
  have hclose : ∀ (h : TimelineHandler) x, h.closeWAL ≠ .ret x := by
    intro h x
    unfold TimelineHandler.closeWAL
    split <;> exact nofun
  unfold Data.closeCurrentWAL Data.flush
  by_cases hb : wal.buffer = []
  · simp only [hopen, hb, Bool.true_eq_false, or_true, if_true, if_false]
    exact bind_ne_ret (hclose _) _
  simp only [hopen, hb, Bool.true_eq_false, or_false, if_false]
  refine bind_ne_ret (bind_ne_ret fun x => ?_) _
  obtain ⟨b, rest, hrest⟩ := List.exists_cons_of_ne_nil hb
  rw [hrest, TimelineHandler.write, List.length_cons, TimelineHandler.writeChunks]
  cases wal.walHandler.stream <;> exact nofun

/-- The loop of `ProcessWALData` never returns an error before it has asked the connection for something. -/
theorem processLoop_accepts (n : ℕ) {wal : Data} (hopen : wal.walHandler.hasWALFileOpened = true) (data : List UInt8) (pos off : UInt64)
    (w : Data) (e : Err) : wal.processLoop P tl n data pos off ≠ .ret (w, .error e) := by
  induction n generalizing wal data pos off with
  | zero =>
    unfold Data.processLoop
    split <;> simp
  | succ n ih =>
    unfold Data.processLoop
    split
    · simp
    simp only [Data.ensureOpen, hopen, Bool.true_eq_false, if_false, ret_bind]
    split
    · refine bind_ne_ret (fun x => closeCurrentWAL_asks ?_ x) _
      exact hopen
    · refine ih ?_ _ _ _
      exact hopen

/-- A gap is rejected: the data starts where the last byte ended, or an error is returned and nothing is sent or kept. -/
def GapRejected (P : Outside) (tl : Timeline) (wal : Data) (data : List UInt8) (blockpos : UInt64) : Prop :=
  blockpos = wal.localWriteLSN ∨ ∃ e, wal.processWALData P tl data blockpos = .ret (wal, .error e)

/-- **A gap is rejected exactly if it changes the offset in the segment**: one of a whole number of segments is
not seen. -/
theorem gap_rejected_iff (P : Outside) (tl : Timeline) (hseg : tl.segmentSize ≠ 0) (wal : Data)
    (hopen : wal.walHandler.hasWALFileOpened = true) (data : List UInt8) (blockpos : UInt64) :
    GapRejected P tl wal data blockpos ↔
      (blockpos % tl.segmentSize = wal.localWriteLSN % tl.segmentSize → blockpos = wal.localWriteLSN) := by
  unfold GapRejected Data.processWALData
  simp only [hseg, if_false, hopen, Bool.true_eq_false]
  by_cases hoff : wal.localWriteLSN % tl.segmentSize = blockpos % tl.segmentSize
  · have hno : ∀ e, wal.processLoop P tl data.length data blockpos (blockpos % tl.segmentSize) ≠ .ret (wal, .error e) :=
      processLoop_accepts data.length hopen data blockpos _ wal
    simp [hoff, hno]
  · simp [hoff, Ne.symm hoff]

theorem gap_in_segment_rejected : TimelineHandler.hasWALFileOpened ⟨some 0, segmentName 1 4 0⟩ = true ∧
    GapRejected (numbered [] []) fourBytes ⟨⟨some 0, segmentName 1 4 0⟩, 1, []⟩ [8] 2 :=
  have hopen : TimelineHandler.hasWALFileOpened ⟨some 0, segmentName 1 4 0⟩ = true := by decide +kernel
  ⟨hopen, (gap_rejected_iff _ fourBytes (by decide) _ hopen _ _).2 fun h => absurd h (by decide)⟩

/-- The byte at position 5 is taken for the one at position 1. -/
theorem gap_of_segment_accepted :
    (Data.calls (numbered [] []) fourBytes {} [.data [7] 0, .data [8] 5]).Runs (acceptedStream.take 2)
      (.ret ⟨⟨some 0, segmentName 1 4 0⟩, 2, [7, 8]⟩) :=
  Prog.runs_answered (connection (.ok 0)) 2 (Data.calls (numbered [] []) fourBytes {} [.data [7] 0, .data [8] 5])

end Gaps

end Klio

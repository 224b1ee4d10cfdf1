import Klio.Proof.ServeProto

/-!
# What the server acknowledges

The handler stores a position after the bytes below it were flushed; the sender loads it some time
later and sends it, and may be overtaken in between by the next one. The handler sends the last result
itself, after the sender has ended.

* `SrvInv`: what the goroutines of a call and the state they share have to do with each other.
* `SrvInv.handler_step`, `SrvInv.sender_step`: every step of either keeps it.
* `acks_durable_monotone`: no position is acknowledged before it is durable, and none after a greater one.
* `feedback_well_formed`: when the positions that the sender sends are in order.
-/

namespace Klio

open Lib List UInt64

variable {D : Deps} {K : Codec} {I : Implementation} {rand : ℕ → ℕ} {peer : Peer} {start : UInt64} {all : List UInt8}

/-! ## The invariant -/

/-- **A call in progress.** `all` is the payload that was handed to the stream so far. -/
structure SrvInv (start : UInt64) (all : List UInt8) (st : SrvState) (h : HandlerPh) (s : SenderPh) : Prop where
  own : h.foreign = false
  wire : ∀ b ∈ st.wire, b.walStartLsn = start
  flushed : st.flushed = h.flushed
  account : h.flushed ++ h.pending ++ blocksPayload st.wire = all
  stored : st.flushLSN.toNat ≤ start.toNat + h.flushed.length ∧ (h.stored = false → st.flushLSN = 0)
  durable : ∀ x ∈ st.sent, x.flushLsn.toNat ≤ start.toNat + x.covered ∧ x.covered ≤ st.flushed.length
  ordered : st.sent.Pairwise fun x y => x.flushLsn ≤ y.flushLsn
  current : h.final = false → ∀ x ∈ st.sent, x.flushLsn ≤ st.flushLSN
  loaded : ∀ v, s.loaded = some v → v ≤ st.flushLSN ∧ ∀ x ∈ st.sent, x.flushLsn ≤ v
  exited : s.exited = true → s.loaded = none
  done : st.done = true → s.exited = true
  stopped : h.stopped = true → s.exited = true
  final : h.final = true → h.stopped = true
  ended : h.ended = true → st.recvFailed = true ∨ (st.wire = [] ∧ st.halfClosed = true)
  returned : st.returned = some true → h.ended = true ∧ h.pending = []

theorem srvInv_init {blocks : List PutRequest} (hb : ∀ b ∈ blocks, b.walStartLsn = start) (halfClosed : Bool) :
    SrvInv start (blocksPayload blocks) { wire := blocks, halfClosed := halfClosed } {} {} where
  own := rfl
  wire := hb
  flushed := rfl
  account := rfl
  stored := ⟨Nat.zero_le _, fun _ => rfl⟩
  durable x hx := by simp at hx
  ordered := List.Pairwise.nil
  current _ x hx := by simp at hx
  loaded v hv := by simp at hv
  exited h := by simp at h
  done h := by simp at h
  stopped h := by simp at h
  final h := by simp at h
  ended h := by simp at h
  returned h := by simp at h

variable {st st' : SrvState} {fs fs' : Fs Name UInt8} {hp : HandlerPh} {sp : SenderPh} {c : SrvChoice}

section

variable (h : SrvInv start all st hp sp)
include h

theorem SrvInv.flushed_le : hp.flushed.length ≤ all.length := by
  have hlen := congrArg length h.account
  simp only [length_append] at hlen
  omega

theorem SrvInv.position_toNat (hfit : start.toNat + all.length < size) :
    (hp.position start).toNat = start.toNat + hp.flushed.length := by
  have hle := h.flushed_le
  have hlen : hp.flushed.length < size := by omega
  have hsum : start.toNat + hp.flushed.length < 2 ^ 64 := by
    have : size = 2 ^ 64 := rfl
    omega
  rw [HandlerPh.position, UInt64.toNat_add, UInt64.toNat_ofNat_of_lt' hlen, Nat.mod_eq_of_lt hsum]

theorem SrvInv.flushLSN_le (hfit : start.toNat + all.length < size) :
    st.flushLSN ≤ hp.position start := by
  rw [le_iff_toNat_le, h.position_toNat hfit]
  exact h.stored.1

/-! ## Sending a result -/

omit h in
theorem SrvInv.emitted {st : SrvState} {w f : UInt64} (h : SrvInv start all st hp sp)
    (hd : f.toNat ≤ start.toNat + hp.flushed.length) (hle : ∀ x ∈ st.sent, x.flushLsn ≤ f) :
    let sent := (st.emitted c (.emit (.putResult w f))).sent
    (∀ x ∈ sent, x.flushLsn.toNat ≤ start.toNat + x.covered ∧ x.covered ≤ st.flushed.length) ∧
      (sent.Pairwise fun x y => x.flushLsn ≤ y.flushLsn) ∧ ∀ x ∈ sent, x.flushLsn ≤ f := by
  refine ⟨?_, ?_, ?_⟩
  · intro x hx
    rcases mem_append.mp hx with hx | hx
    · exact h.durable x hx
    · obtain rfl := mem_singleton.mp hx
      have hlen : st.flushed.length = hp.flushed.length := by rw [h.flushed]
      exact ⟨hlen ▸ hd, Nat.le_refl _⟩
  · refine pairwise_append.mpr ⟨h.ordered, pairwise_singleton _ _, ?_⟩
    intro x hx y hy
    obtain rfl := mem_singleton.mp hy
    exact hle x hx
  · intro x hx
    rcases mem_append.mp hx with hx | hx
    · exact hle x hx
    · obtain rfl := mem_singleton.mp hx
      exact UInt64.le_refl _

theorem SrvInv.handler_emit {w f : UInt64} (hfit : start.toNat + all.length < size)
    (ha : handlerAllowed start hp (.files (.emit (.putResult w f)))) :
    SrvInv start all (st.emitted c (.emit (.putResult w f))) { hp with final := true } sp := by
  obtain ⟨hstop, hfinal, hf⟩ := ha
  have hexit : sp.exited = true := h.stopped hstop
  have hcur := h.current hfinal
  have hpos := h.position_toNat hfit
  -- it is what is flushed, or zero when nothing was stored
  have hbound : f.toNat ≤ start.toNat + hp.flushed.length ∧ ∀ x ∈ st.sent, x.flushLsn ≤ f := by
    rcases hf with hforeign | rfl | ⟨rfl, hnone⟩
    · rw [h.own] at hforeign
      cases hforeign
    · exact ⟨Nat.le_of_eq hpos, fun x hx => UInt64.le_trans (hcur x hx) (h.flushLSN_le hfit)⟩
    · refine ⟨Nat.zero_le _, fun x hx => ?_⟩
      have hx := hcur x hx
      rwa [h.stored.2 hnone] at hx
  obtain ⟨hdur, hord, -⟩ := h.emitted (w := w) hbound.1 hbound.2
  refine { h with durable := hdur, ordered := hord, current := nofun, loaded := ?_, final := fun _ => hstop }
  intro v hv
  rw [h.exited hexit] at hv
  cases hv

theorem SrvInv.sender_emit {w f : UInt64} (ha : senderAllowed sp (.files (.emit (.putResult w f)))) :
    SrvInv start all (st.emitted c (.emit (.putResult w f))) hp { sp with loaded := none } := by
  obtain ⟨hload, hexit⟩ := ha
  obtain ⟨hle, hsent⟩ := h.loaded f hload
  have hd : f.toNat ≤ start.toNat + hp.flushed.length :=
    Nat.le_trans (le_iff_toNat_le.mp hle) h.stored.1
  obtain ⟨hdur, hord, hmax⟩ := h.emitted (w := w) hd hsent
  exact { h with
    durable := hdur, ordered := hord
    current := fun _ x hx => UInt64.le_trans (hmax x hx) hle
    loaded := nofun
    exited := fun _ => rfl }

/-! ## Steps -/

/-- The handler takes the next blocks, or sees the end of them. -/
theorem SrvInv.drain {d : Drained} (ha : handlerAllowed start hp .drain)
    (he : SrvState.exec .drain c (st, fs) = some (d, (st', fs'))) : SrvInv start all st' (handlerNext start hp .drain d) sp := by
  obtain ⟨hpend, hend⟩ := ha
  have hret : st.returned = some true → False := fun hr => by
    have := (h.returned hr).1
    rw [hend] at this
    cases this
  have hendOf : ∀ {st'' : SrvState}, c ≠ .ended → st.wire.isEmpty = true ∧ st.halfClosed = true ∧ st.broken = false →
      some (Drained.eof, (st, fs)) = some (d, (st'', fs')) → SrvInv start all st'' (handlerNext start hp .drain d) sp := by
    rintro st'' - ⟨hwire, hhalf, -⟩ heq
    cases heq
    exact { h with
      ended := fun _ => .inr ⟨isEmpty_iff.mp hwire, hhalf⟩
      returned := fun hr => (hret hr).elim }
  cases c with
  | none =>
    simp only [SrvState.exec] at he
    split at he
    · exact hendOf (by simp) ‹_› he
    · cases he
  | fault k =>
    simp only [SrvState.exec] at he
    split at he
    · exact hendOf (by simp) ‹_› he
    · cases he
  | ended =>
    cases he
    exact { h with
      ended := fun _ => .inl rfl
      returned := fun hr => (hret hr).elim }
  | take n =>
    rcases hw : st.wire with _ | ⟨first, rest⟩
    · simp only [SrvState.exec, hw] at he; cases he
    simp only [SrvState.exec, hw] at he
    cases he
    have hall := h.account
    have hsplit : blocksPayload (first :: rest) = blocksPayload (first :: rest.take n) ++ blocksPayload (rest.drop n) := by
      rw [← blocksPayload_append, cons_append, take_append_drop]
    -- no block of the batch is foreign
    have hown : (first :: rest.take n).any (fun r => r.walStartLsn != start) = false := by
      rw [any_eq_false]
      intro r hr hne
      have hmem : r ∈ st.wire := by
        rw [hw]
        rcases mem_cons.mp hr with rfl | hr
        · exact mem_cons_self
        · exact mem_cons_of_mem _ (mem_of_mem_take hr)
      exact bne_iff_ne.mp hne (h.wire r hmem)
    refine { h with own := ?_, wire := ?_, account := ?_, ended := ?_, returned := fun hr => (hret hr).elim }
    · show (hp.foreign || (first :: rest.take n).any (fun r => r.walStartLsn != start)) = false
      rw [hown, h.own]
      rfl
    · intro b hb
      refine h.wire b ?_
      rw [hw]
      exact mem_cons_of_mem _ (mem_of_mem_drop hb)
    · rw [hpend, hw, hsplit, append_nil] at hall
      rw [← hall, ← append_assoc]
      rfl
    · intro (hno : hp.ended = true)
      rw [hend] at hno
      cases hno

/-- **A step of the handler.** -/
theorem SrvInv.handler_step {o : SrvOp} {r : o.Res} (hfit : start.toNat + all.length < size)
    (ha : handlerAllowed start hp o) (he : SrvState.exec o c (st, fs) = some (r, (st', fs'))) :
    SrvInv start all st' (handlerNext start hp o r) sp := by
  cases o with
  | drain => exact h.drain ha he
  | files o =>
    cases he
    cases o with
    | emit m =>
      cases m with
      | putResult w f => exact h.handler_emit hfit ha
      | walTask clusterName walName =>
        show SrvInv start all (if c.toFault = none then _ else st) hp sp
        split
        · exact { h with }
        · exact h
      | _ => exact h
    | _ => exact h
  | flushed payload =>
    cases he
    have hpay : payload = hp.pending := ha
    subst hpay
    have hall := h.account
    refine { h with flushed := ?_, account := ?_, stored := ⟨?_, h.stored.2⟩, durable := ?_, returned := fun hr => ⟨(h.returned hr).1, rfl⟩ }
    · show st.flushed ++ hp.pending = hp.flushed ++ hp.pending
      rw [h.flushed]
    · show hp.flushed ++ hp.pending ++ [] ++ blocksPayload st.wire = all
      rw [append_nil]
      exact hall
    · have := h.stored.1
      show st.flushLSN.toNat ≤ start.toNat + (hp.flushed ++ hp.pending).length
      rw [length_append]
      omega
    · intro x hx
      have := h.durable x hx
      rw [length_append]
      omega
  | storeFlush v =>
    cases he
    obtain ⟨hstop, hv⟩ := ha
    have hvpos : v = hp.position start := hv.resolve_left fun hno => by rw [h.own] at hno; cases hno
    have hge : st.flushLSN ≤ v := hvpos ▸ h.flushLSN_le hfit
    have hnat : v.toNat = start.toNat + hp.flushed.length := by rw [hvpos, h.position_toNat hfit]
    exact { h with
      stored := ⟨Nat.le_of_eq hnat, nofun⟩
      current := fun hf x hx => UInt64.le_trans (h.current hf x hx) hge
      loaded := fun u hu => ⟨UInt64.le_trans (h.loaded u hu).1 hge, (h.loaded u hu).2⟩ }
  | storeWrite v => cases he; exact { h with }
  | wake => cases he; exact { h with }
  | cancel => cases he; exact { h with }
  | awaitDone =>
    simp only [SrvState.exec] at he
    split at he
    · rename_i hdone
      cases he
      exact { h with stopped := fun _ => h.done hdone, final := fun _ => rfl }
    · cases he
  | returned ok => cases he; exact { h with returned := fun hr => ha (Option.some.inj hr) }
  | loadWrite => exact ha.elim
  | loadFlush => exact ha.elim
  | next => exact ha.elim
  | closeDone => exact ha.elim

/-- **A step of the sender.** -/
theorem SrvInv.sender_step {o : SrvOp} {r : o.Res} (ha : senderAllowed sp o)
    (he : SrvState.exec o c (st, fs) = some (r, (st', fs'))) : SrvInv start all st' hp (senderNext sp o r) := by
  cases o with
  | next =>
    have hsame : ∃ b, st' = { st with wake := b } := by
      cases c <;> simp only [SrvState.exec] at he <;> (try split at he) <;> (try split at he) <;> cases he <;> exact ⟨_, rfl⟩
    obtain ⟨b, rfl⟩ := hsame
    exact { h with }
  | loadWrite => cases he; exact h
  | loadFlush =>
    cases he
    have hnot : hp.final = false := by
      have hexit : sp.exited = false := ha
      cases hf : hp.final with
      | false => rfl
      | true => rw [h.stopped (h.final hf)] at hexit; cases hexit
    refine { h with loaded := ?_, exited := ?_ }
    · rintro v ⟨⟩
      exact ⟨UInt64.le_refl _, h.current hnot⟩
    · intro (hno : sp.exited = true)
      have hexit : sp.exited = false := ha
      rw [hexit] at hno
      cases hno
  | files o =>
    cases o with
    | emit m =>
      cases m with
      | putResult w f => cases he; exact h.sender_emit ha
      | _ => exact ha.elim
    | _ => exact ha.elim
  | closeDone =>
    cases he
    exact { h with exited := fun _ => ha.1, done := fun _ => rfl, stopped := fun _ => rfl }
  | _ => exact ha.elim

end

/-! ## Every run -/

/-- The phases of a call: a goroutine uses its own. -/
structure CallPh where
  handler : HandlerPh := {}
  sender : SenderPh := {}

/-- What the goroutines of a call do. -/
def callProto (start : UInt64) : SrvThread → Proto SrvOp SrvOp.Res CallPh
  | .handler => (handlerProto start).part CallPh.handler fun h ph => { ph with handler := h }
  | .sender => senderProto.part CallPh.sender fun s ph => { ph with sender := s }

theorem putServer_abides (n : ℕ) (blocks : List PutRequest) (fs : Fs Name UInt8) :
    Abides (callProto start) (fun _ _ => True) (fun _ _ => False) (putServer D K I rand peer n blocks fs) fun _ => {} := by
  intro i
  cases i with
  | handler =>
    have hput : (servePut D K I rand peer n).Sat (handlerProto start) (fun _ _ => True) (fun _ _ => False) (CallPh.handler {}) :=
      servePut_sat n
    exact hput.part (fun h ph => { ph with handler := h }) fun _ _ => rfl
  | sender =>
    have hsend : (if I.isReadOnly then .ret () else sendLoop n : SrvProg Unit).Sat senderProto (fun _ _ => True)
        (fun _ _ => False) (CallPh.sender {}) := by
      split
      · trivial
      · exact sendLoop_sat n
    exact hsend.part (fun s ph => { ph with sender := s }) fun _ _ => rfl

/-- **In every run of a call**, the invariant holds. -/
theorem putServer_inv (D : Deps) (K : Codec) (I : Implementation) (rand : ℕ → ℕ) (peer : Peer) (n : ℕ) (blocks : List PutRequest) (fs : Fs Name UInt8) (hstart : ∀ b ∈ blocks, b.walStartLsn = start)
    (hfit : start.toNat + (blocksPayload blocks).length < size) (es : List (SrvThread × SrvChoice)) :
    ∃ h s, SrvInv start (blocksPayload blocks) ((putServer D K I rand peer n blocks fs).schedule srvSem es).st.1 h s := by
  obtain ⟨φ, -, -, hinv⟩ := schedule_proto (M := srvSem) (T := callProto start) (G := fun _ _ _ => True) (fun _ => {})
    (fun st φ => SrvInv start (blocksPayload blocks) st.1 (φ .handler).handler (φ .sender).sender)
    (by
      intro s φ i c o k r st _ _ hi _ _ ha he
      cases i with
      | handler =>
        have hnext := hi.handler_step hfit ha he
        exact hnext
      | sender =>
        have hnext := hi.sender_step ha he
        exact hnext)
    es (putServer D K I rand peer n blocks fs) (fun _ => {}) (putServer_abides n blocks fs) (fun _ _ => rfl)
    (srvInv_init hstart true) (heeds_of_forall (fun _ _ _ => trivial) es _)
  exact ⟨_, _, hinv⟩

/-- **Acknowledgements are durable and monotone.** In every run of a call whose blocks all start at
`start`, whatever the batches are and whenever the sender is scheduled, a result that was sent does not
exceed what completed flushes covered then, and the results are in order. -/
theorem acks_durable_monotone (D : Deps) (K : Codec) (I : Implementation) (rand : ℕ → ℕ) (peer : Peer) (n : ℕ)
    (blocks : List PutRequest) (fs : Fs Name UInt8) (start : UInt64) (hstart : ∀ b ∈ blocks, b.walStartLsn = start)
    (hfit : start.toNat + (blocksPayload blocks).length < UInt64.size) (es : List (SrvThread × SrvChoice)) :
    let sent := ((putServer D K I rand peer n blocks fs).schedule srvSem es).st.1.sent
    (∀ x ∈ sent, x.flushLsn.toNat ≤ start.toNat + x.covered) ∧ sent.Pairwise fun x y => x.flushLsn ≤ y.flushLsn := by
  obtain ⟨h, s, hinv⟩ := putServer_inv D K I rand peer n blocks fs hstart hfit es
  exact ⟨fun x hx => (hinv.durable x hx).1, hinv.ordered⟩

def twoBlocks : List PutRequest :=
  [⟨"c".toList, "000000010000000000000001".toList, [7], 2, 16777216, false⟩,
    ⟨"c".toList, "000000010000000000000001".toList, [8], 2, 16777216, false⟩]

/-- The sender sends after the first block, loads one position before the second is flushed and the
other after that, and once more when it is stopped. -/
def overtaken : List (SrvThread × SrvChoice) :=
  (.handler, .take 0) :: List.replicate 12 (.handler, .none) ++ List.replicate 6 (.sender, .none) ++
    (.handler, .take 0) :: List.replicate 12 (.handler, .none) ++ List.replicate 20 (.sender, .none) ++
    List.replicate 20 (.handler, .none)

set_option maxRecDepth 10000 in
/-- Such a run, and what it has sent. -/
theorem two_blocks_acked :
    let sent := ((putServer plainDeps plainCodec ⟨false, true⟩ (fun _ => 0) (.cert "u@c".toList) 9 twoBlocks Fs.empty).schedule
      srvSem overtaken).st.1.sent
    sent.map SentResult.flushLsn = [16777217, 16777218, 16777218, 16777218] ∧
      (∀ x ∈ sent, x.flushLsn.toNat ≤ (16777216 : UInt64).toNat + x.covered) ∧ sent.Pairwise fun x y => x.flushLsn ≤ y.flushLsn := by
  refine ⟨by decide +kernel, acks_durable_monotone plainDeps plainCodec ⟨false, true⟩ (fun _ => 0) (.cert "u@c".toList) 9 twoBlocks
    Fs.empty 16777216 ?_ ?_ overtaken⟩
  · intro b hb
    simp only [twoBlocks, mem_cons, not_mem_nil, or_false] at hb
    rcases hb with rfl | rfl <;> rfl
  · decide +kernel

/-! ## What the background sender sends -/

/-- A call with its goroutines. -/
abbrev SrvSys := Sys SrvThread SrvOp SrvOp.Res Err (SrvState × Fs Name UInt8)

/-- The result that the sender is about to send. -/
def SrvSys.sends (s : SrvSys) : Option (UInt64 × UInt64) := match (s.procs .sender).nextOp with
  | some (.files (.emit (.putResult w f))) => some (w, f)
  | _ => none

/-- The sender is between its two loads. -/
def SrvSys.loading (s : SrvSys) : Bool := match (s.procs .sender).nextOp with
  | some .loadFlush => true
  | _ => false

/-- The sender loads only when something was stored, nothing is stored between its two loads, and the positions that
are stored do not wrap around: none is stored that would put the flush position above the write position. -/
def SrvSys.calm (s : SrvSys) (t : SrvThread) (_ : SrvChoice) : Bool := match (s.procs t).nextOp with
  | some .loadWrite => s.st.1.flushLSN ≠ 0
  | some (.storeWrite v) => s.st.1.flushLSN ≤ v && !s.loading
  | some (.storeFlush v) => v ≤ s.st.1.writeLSN && !s.loading
  | _ => true

/-- What the sender has loaded: nothing, the write position, or both. -/
abbrev Loads := Option (UInt64 × Option UInt64)

/-- Where a goroutine may end. -/
abbrev Unloaded (t : SrvThread) (ph : Loads) : Prop := t = .sender → ph = none

variable {s : SrvSys} {φ : SrvThread → Loads} {t : SrvThread} {o : SrvOp} {r : o.Res} {c : SrvChoice} {st st' : SrvState × Fs Name UInt8}

def loadProto : SrvThread → Proto SrvOp SrvOp.Res Loads
  | .handler => ⟨fun _ _ => True, fun ph _ _ => ph⟩
  | .sender => {
      allowed := fun ph o => match o with
        | .next | .closeDone | .loadWrite => ph = none
        | .loadFlush => ∃ w, ph = some (w, none)
        | .files (.emit (.putResult w f)) => ph = some (w, some f)
        | _ => False
      next := fun ph o r => match o, ph, r with
        | .loadWrite, _, (w : UInt64) => some (w, none)
        | .loadFlush, some (w, _), (f : UInt64) => some (w, some f)
        | _, _, _ => none }

theorem sendLoop_loads (n : ℕ) : (sendLoop n).Sat (loadProto .sender) (fun _ => Unloaded .sender) (fun _ => Unloaded .sender) none := by
  induction n with
  | zero => exact fun _ => rfl
  | succ n ih =>
    refine ⟨rfl, fun (woken : Bool) => ?_⟩
    -- it loads both positions and sends them
    cases woken with
    | true => exact ⟨rfl, fun (w : UInt64) => ⟨⟨w, rfl⟩, fun (f : UInt64) => ⟨rfl, fun _ => ih⟩⟩⟩
    | false => exact ⟨rfl, fun (w : UInt64) => ⟨⟨w, rfl⟩, fun (f : UInt64) => ⟨rfl, fun _ => ⟨rfl, fun _ _ => rfl⟩⟩⟩⟩

/-- The positions are in order, and so is what the sender has loaded. -/
structure LoadInv (st : SrvState × Fs Name UInt8) (φ : SrvThread → Loads) : Prop where
  stored : st.1.flushLSN ≤ st.1.writeLSN
  one : ∀ w, φ .sender = some (w, none) → 0 < st.1.flushLSN ∧ st.1.flushLSN ≤ w
  both : ∀ w f, φ .sender = some (w, some f) → 0 < f ∧ f ≤ w

theorem exec_positions (he : SrvState.exec o c st = some (r, st')) : st'.1.writeLSN = (match o with | .storeWrite v => v | _ => st.1.writeLSN) ∧
      st'.1.flushLSN = match o with | .storeFlush v => v | _ => st.1.flushLSN := by
  obtain ⟨x, fs⟩ := st
  cases o with
  | files o =>
    cases he
    unfold SrvState.emitted
    split
    · exact ⟨rfl, rfl⟩
    · split <;> exact ⟨rfl, rfl⟩
    · exact ⟨rfl, rfl⟩
  | drain => cases c <;> simp only [SrvState.exec] at he <;> (try split at he) <;> cases he <;> exact ⟨rfl, rfl⟩
  | awaitDone => simp only [SrvState.exec] at he; split at he <;> cases he; exact ⟨rfl, rfl⟩
  | next => cases c <;> simp only [SrvState.exec] at he <;> (try split at he) <;> (try split at he) <;> cases he <;> exact ⟨rfl, rfl⟩
  | _ => cases he; exact ⟨rfl, rfl⟩

/-- Only the two stores change the positions, and the sender stores nothing. -/
theorem calm_step {k : o.Res → SrvProg Unit} (hab : Abides loadProto Unloaded Unloaded s φ) (h : LoadInv s.st φ) (hg : s.calm t c = true) (hp : s.procs t = .call o k) (ha : (loadProto t).allowed (φ t) o)
    (he : SrvState.exec o c s.st = some (r, st)) : LoadInv st (Function.update φ t ((loadProto t).next (φ t) o r)) := by
  obtain ⟨hw, hf⟩ := exec_positions he
  unfold SrvSys.calm at hg
  rw [hp] at hg
  cases t with
  | handler =>
    have hφ : Function.update φ .handler ((loadProto .handler).next (φ .handler) o r) .sender = φ .sender :=
      Function.update_of_ne (by decide) _ _
    have hload : ∀ w, φ .sender = some (w, none) → s.loading = true := by
      intro w hw
      have hsend := hab .sender
      unfold SrvSys.loading
      rw [hw] at hsend
      cases hq : s.procs .sender with
      | ret | err => rw [hq] at hsend; cases hsend rfl
      | call o' k' =>
        rw [hq] at hsend
        have hal := hsend.1
        cases o' with
        | loadFlush => rfl
        | files o' => cases o' with
          | emit m => cases m <;> cases hal
          | _ => cases hal
        | _ => cases hal
    refine ⟨?_, fun w hl => ?_, fun w f hl => h.both w f (hφ ▸ hl)⟩
    · rw [hw, hf]
      split <;> split <;> simp_all [Prog.nextOp]
      all_goals exact h.stored
    · have hone := h.one w (hφ ▸ hl)
      have hloading := hload w (hφ ▸ hl)
      rw [hf]
      split
      · simp_all [Prog.nextOp]
      · exact hone
  | sender =>
    have hst : st.1.flushLSN = s.st.1.flushLSN ∧ st.1.writeLSN = s.st.1.writeLSN := by
      cases o <;> first | exact ⟨hf, hw⟩ | cases ha
    refine ⟨by rw [hst.1, hst.2]; exact h.stored, fun w hl => ?_, fun w f hl => ?_⟩ <;> rw [Function.update_self] at hl
    · rw [hst.1]
      cases o with
      | loadWrite =>
        cases he
        cases hl
        exact ⟨UInt64.pos_iff_ne_zero.2 (of_decide_eq_true hg), h.stored⟩
      | loadFlush =>
        obtain ⟨w', hw'⟩ := ha
        rw [hw'] at hl
        cases hl
      | _ => cases hl
    · cases o with
      | loadFlush =>
        obtain ⟨w', hw'⟩ := ha
        rw [hw'] at hl
        cases he
        cases hl
        exact h.one w hw'
      | _ => cases hl

end Klio

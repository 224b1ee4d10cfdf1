import Klio.Model.Session
import Klio.Proof.Acks
import Klio.Proof.Segments

/-!
# What the client reports to PostgreSQL

The client reports the start of a segment when it opens it, before the server has said anything about it,
and everything a server acknowledges. Both are durable: a segment is opened when the one before it was
closed, and it was closed when its call had seen the end of the blocks and flushed them all.

* `manageWALStream_sat`: the streaming loop and its end, whatever fails.
* `SesPh`, `sessionProto`: what the goroutines do; `clientServer_abides`: that they do.
* `StreamInv`, `SesInv`: what both ends of a stream, and of all streams, have to do with each other.
* `reported_is_durable`: nothing is reported as flushed that is not.
-/

namespace Klio

open Lib Prog List Function UInt64

variable {P : Outside} {tl : Timeline} {s₀ : UInt64} {wal rcv : List UInt8} {S : Server} {tier2 : Bool}

/-! ## The streaming loop -/

theorem closing_ready (P : Outside) {d : Data} {u : Uplink} (h : Ready tl s₀ rcv d u) (hpre : rcv <+: wal) :
    d.closeCurrentWAL.SatIf (uploads false tl s₀ wal) Reliable (fun _ _ => True) (fun _ _ => True) u := by
  rcases h with hrest | ⟨past, c, hfill, -⟩
  · unfold Data.closeCurrentWAL
    rw [if_pos (by rw [hrest.handler]; rfl)]
    trivial
  · exact satIf_mono (fun _ _ ha => ha) rfl (closeCurrentWAL_filling (P := P) hfill hpre fun hno => by cases hno)
      (fun _ _ _ => trivial) fun _ _ _ => trivial

theorem closing_broken {d : Data} {u : Uplink} (h : Broken P tl d u) :
    d.closeCurrentWAL.SatIf (uploads false tl s₀ wal) Reliable (fun _ _ => True) (fun _ _ => True) u := by
  cases h with
  | block past c hstuck =>
    exact satIf_mono (fun _ _ ha => ha) rfl (closeCurrentWAL_stuck hstuck) (fun _ _ _ => trivial) fun _ _ _ => trivial
  | stream hr hs hn hb =>
    -- the stream that is not there is used
    unfold Data.closeCurrentWAL Data.flush TimelineHandler.closeWAL
    rw [if_neg (by simp [hn]), if_pos (.inr hb)]
    simp only [Prog.ret_bind, hs]
    trivial
  | unclosed hr past c hu hs hn hc hb =>
    unfold Data.closeCurrentWAL Data.flush TimelineHandler.closeWAL
    rw [if_neg (by simp [hn]), if_pos (.inr hb)]
    simp only [Prog.ret_bind, hs]
    refine satIf_call ⟨past, c, hu, rfl, hc.1, hc.2, nofun⟩ fun (r : Except Err Unit) _ => ?_
    cases r <;> trivial
  | name hp hd =>
    unfold Data.closeCurrentWAL
    rw [if_pos (by rw [hd]; rfl)]
    trivial

/-- **The streaming loop**, whatever fails. -/
theorem manageWALStream_sat (hname : ∀ pos name, P.walFileName pos tl.tli tl.segmentSize = .ok name → name ≠ [])
    (hseg : 0 < tl.segmentSize.toNat) (hs₀ : s₀.toNat % tl.segmentSize.toNat = 0) :
    ∀ (cs : List WalCall) (d : Data) (u : Uplink) (rcv : List UInt8) (p : UInt64), Ready tl s₀ rcv d u →
      p.toNat = s₀.toNat + rcv.length → Contiguous p cs → rcv ++ received cs <+: wal →
      s₀.toNat + (rcv ++ received cs).length < size →
      (manageWALStream P tl d cs).SatIf (uploads false tl s₀ wal) Reliable (fun _ _ => True) (fun _ _ => True) u := by
  intro cs
  induction cs with
  | nil =>
    intro d u rcv p hready _ _ hpre _
    have hnil : rcv ++ received [] = rcv := append_nil rcv
    rw [hnil] at hpre
    exact satIf_bind (closing_ready P hready hpre) fun _ _ _ => trivial
  | cons c cs ih =>
    intro d u rcv p hready hp hcont hpre hfit
    have hsplit : rcv ++ received (c :: cs) = rcv ++ c.bytes ++ received cs := by
      rw [received, flatMap_cons, ← append_assoc]
      rfl
    rw [hsplit] at hpre hfit
    have hlen : (rcv ++ c.bytes ++ received cs).length = (rcv ++ c.bytes).length + (received cs).length := length_append
    have hfit' : s₀.toNat + (rcv ++ c.bytes).length < size := by omega
    have hpre' : rcv ++ c.bytes <+: wal := (prefix_append _ _).trans hpre
    have hcall : (c.run P tl d).SatIf (uploads false tl s₀ wal) Reliable (Outcome P tl s₀ (rcv ++ c.bytes)) (fun _ _ => True) u := by
      cases c with
      | close => exact hcont.elim
      | data bytes pos =>
        obtain ⟨rfl, -⟩ := hcont
        exact satIf_mono (fun _ _ ha => ha) rfl (processWALData_sat hname hseg hs₀ hready hp hpre' hfit') (fun _ _ hq => hq)
          fun _ _ _ => trivial
      | flush =>
        have hnil : rcv ++ WalCall.flush.bytes = rcv := append_nil rcv
        rw [hnil] at hpre' ⊢
        exact satIf_mono (fun _ _ ha => ha) rfl (flush_ready hready hpre') (fun _ _ hq => hq.1) fun _ _ _ => trivial
    refine satIf_bind hcall ?_
    rintro ⟨d', r⟩ u' hout
    rcases r with e | _
    · exact satIf_bind (closing_broken hout) fun _ _ _ => trivial
    obtain ⟨p', hp', hcont'⟩ := contiguous_next hcont hp hfit'
    exact ih d' u' (rcv ++ c.bytes) p' hout hp' hcont' hpre hfit

theorem manageWALStream_zero (hzero : tl.segmentSize = 0) : ∀ (cs : List WalCall) (d : Data) (u : Uplink), d.walHandler = {} →
    d.buffer = [] → (manageWALStream P tl d cs).SatIf (uploads false tl s₀ wal) Reliable (fun _ _ => True) (fun _ _ => True) u := by
  intro cs
  induction cs with
  | nil =>
    intro d u hd _
    have hclose : d.closeCurrentWAL = .ret (d, .ok ()) := by
      unfold Data.closeCurrentWAL
      rw [if_pos (by rw [hd]; rfl)]
    show (d.closeCurrentWAL.bind _).SatIf _ _ _ _ _
    rw [hclose]
    trivial
  | cons c cs ih =>
    intro d u hd hb
    cases c with
    | data bytes pos =>
      have hpanic : d.processWALData P tl bytes pos = .err (.panics "integer divide by zero") := by
        unfold Data.processWALData
        rw [if_pos hzero]
      show ((d.processWALData P tl bytes pos).bind _).SatIf _ _ _ _ _
      rw [hpanic]
      trivial
    | flush =>
      have hflush : d.flush = .ret (d, .ok ()) := by
        unfold Data.flush
        rw [if_pos (.inr hb)]
      show (d.flush.bind _).SatIf _ _ _ _ _
      rw [hflush]
      exact ih d u hd hb
    | close =>
      have hclose : d.closeCurrentWAL = .ret (d, .ok ()) := by
        unfold Data.closeCurrentWAL
        rw [if_pos (by rw [hd]; rfl)]
      show (d.closeCurrentWAL.bind _).SatIf _ _ _ _ _
      rw [hclose]
      exact ih d u hd hb

/-! ## What the goroutines do -/

structure ReaderPh where
  /-- The position it is about to report. -/
  pending : Option UInt64 := none
  /-- It has seen the end of the stream, `true` standing for an error. -/
  ended : Option Bool := none

/-- What the reader of stream `k` does in a phase. -/
def readerAllowed (k : ℕ) (ph : ReaderPh) : SesOp → Prop
  | .recv j => j = k ∧ ph.pending = none ∧ ph.ended = none
  | .place f => ph.pending = some f.flushLSN
  | .closeAck j failed => j = k ∧ ph.ended = some failed
  | _ => False

/-- The phase of the reader after an answer. -/
def readerNext (ph : ReaderPh) : (o : SesOp) → o.Res → ReaderPh
  | .recv _, r => match (r : Recvd) with
    | .result _ f => { ph with pending := some f }
    | .eof => { ph with ended := some false }
    | .failed => { ph with ended := some true }
  | .place _, _ => { ph with pending := none }
  | _, _ => ph

/-- Where the client is: what its streams took, as long as the connection is reliable. -/
abbrev ClientPh := Option Uplink

/-- The link after an operation of the connection. -/
noncomputable def linkAfter (tl : Timeline) (s₀ : UInt64) (wal : List UInt8) : ClientPh → (o : UpOp) → o.Res → ClientPh :=
  ((uploads false tl s₀ wal).assuming Reliable).next

/-- What the client does in a phase. -/
def clientAllowed (tl : Timeline) (s₀ : UInt64) (wal : List UInt8) (ph : ClientPh) : SesOp → Prop
  | .place f => ∀ u, ph = some u → (uploads false tl s₀ wal).allowed u (.place f)
  | .put g => ∀ u, ph = some u → (uploads false tl s₀ wal).allowed u (.storeWALStreaming g.walName g.walStartLSN)
  | .ackedErr k => ∀ u, ph = some u → ∃ block, (uploads false tl s₀ wal).allowed u (.sendBlock k block)
  | .send k block => ∀ u, ph = some u → (uploads false tl s₀ wal).allowed u (.sendBlock k block)
  | .closeSend k | .awaitAck k => ∀ u, ph = some u → (uploads false tl s₀ wal).allowed u (.close k)
  | _ => False

/-- The phase of the client after an answer. -/
noncomputable def clientNext (tl : Timeline) (s₀ : UInt64) (wal : List UInt8) (ph : ClientPh) : (o : SesOp) → o.Res → ClientPh
  | .put g, r => linkAfter tl s₀ wal ph (.storeWALStreaming g.walName g.walStartLSN) r
  | .ackedErr k, failed => match (failed : Bool) with
    | true => linkAfter tl s₀ wal ph (.sendBlock k []) (Except.error ackErr : Except Err Unit)
    | false => ph
  | .send k block, r => linkAfter tl s₀ wal ph (.sendBlock k block) r
  | .closeSend k, r => match (r : Except Err Unit) with
    | .ok _ => ph
    | .error e => linkAfter tl s₀ wal ph (.close k) (Except.error e : Except Err Unit)
  | .awaitAck k, failed => match (failed : Bool) with
    | true => linkAfter tl s₀ wal ph (.close k) (Except.error ackErr : Except Err Unit)
    | false => linkAfter tl s₀ wal ph (.close k) (Except.ok () : Except Err Unit)
  | _, _ => ph

def onCall {Ph : Type} (k : ℕ) (T : Proto SrvOp SrvOp.Res Ph) : Proto SesOp SesOp.Res Ph where
  allowed ph o := match o with
    | .srv j o => j = k ∧ T.allowed ph o
    | _ => False
  next ph o r := match o, r with
    | .srv _ o, r => T.next ph o r
    | _, _ => ph

/-- The phases: a goroutine uses its own. -/
structure SesPh where
  client : ClientPh := some {}
  reader : ReaderPh := {}
  handler : HandlerPh := {}
  sender : SenderPh := {}

/-- Where segment `k` of a session starts. -/
def segmentStart (tl : Timeline) (s₀ : UInt64) (k : ℕ) : UInt64 := s₀ + UInt64.ofNat k * tl.segmentSize

/-- What the goroutines do. -/
noncomputable def sessionProto (tl : Timeline) (s₀ : UInt64) (wal : List UInt8) : SesThread → Proto SesOp SesOp.Res SesPh
  | .client => Proto.part SesPh.client (fun c ph => { ph with client := c }) ⟨clientAllowed tl s₀ wal, clientNext tl s₀ wal⟩
  | .reader k => Proto.part SesPh.reader (fun r ph => { ph with reader := r }) ⟨readerAllowed k, readerNext⟩
  | .handler k => Proto.part SesPh.handler (fun h ph => { ph with handler := h }) (onCall k (handlerProto (segmentStart tl s₀ k)))
  | .sender k => Proto.part SesPh.sender (fun s ph => { ph with sender := s }) (onCall k senderProto)

theorem linkAfter_some {u : Uplink} {o : UpOp} {r : o.Res} (h : Reliable u o r) :
    linkAfter tl s₀ wal (some u) o r = some (u.after o r) := if_pos h

variable (ph : ClientPh)

theorem linkAfter_refused (k : ℕ) (b b' : List UInt8) (e e' : Err) :
    linkAfter tl s₀ wal ph (.sendBlock k b) (Except.error e : Except Err Unit) =
      linkAfter tl s₀ wal ph (.sendBlock k b') (Except.error e' : Except Err Unit) := by
  have hgood : ∀ (u : Uplink) (b : List UInt8) (e : Err), Reliable u (.sendBlock k b) (Except.error e : Except Err Unit) :=
    nofun
  rcases ph with _ | u
  · rfl
  rw [linkAfter_some (hgood u b e), linkAfter_some (hgood u b' e')]
  rfl

theorem linkAfter_unopened (name : Name) (start : UInt64) (e e' : Err) :
    linkAfter tl s₀ wal ph (.storeWALStreaming name start) (Except.error e : Except Err ℕ) =
      linkAfter tl s₀ wal ph (.storeWALStreaming name start) (Except.error e' : Except Err ℕ) := by
  have hgood : ∀ (u : Uplink) (e : Err), Reliable u (.storeWALStreaming name start) (Except.error e : Except Err ℕ) :=
    nofun
  rcases ph with _ | u
  · rfl
  rw [linkAfter_some (hgood u e), linkAfter_some (hgood u e')]
  rfl

/-- **The connection**: every operation of the client as the connection carries it out. -/
theorem connectionOps_sat (o : UpOp) (ha : ((uploads false tl s₀ wal).assuming Reliable).allowed ph o) :
    (connectionOps tl tier2 o).Sat ⟨clientAllowed tl s₀ wal, clientNext tl s₀ wal⟩
      (fun r ph' => ph' = ((uploads false tl s₀ wal).assuming Reliable).next ph o r) (fun _ _ => False) ph := by
  cases o with
  | place f =>
    refine sat_call ha fun _ => ?_
    cases ph with
    | none => rfl
    | some u => exact (if_pos (show Reliable u (.place f) () from trivial)).symm
  | storeWALStreaming name start =>
    refine sat_call ha fun (r : Except Err ℕ) => ?_
    cases r with
    | ok k => exact rfl
    | error e => exact linkAfter_unopened ph name start _ _
  | sendBlock k block =>
    refine sat_call (fun u hu => ⟨block, ha u hu⟩) fun (failed : Bool) => ?_
    cases failed with
    | true => exact linkAfter_refused ph k _ _ _ _
    | false =>
      refine sat_call ha fun (r : Except Err Unit) => ?_
      cases r with
      | ok _ => exact rfl
      | error e => exact linkAfter_refused ph k _ _ _ _
  | close k =>
    refine sat_call ha fun (r : Except Err Unit) => ?_
    rcases r with e | _
    · exact rfl
    refine sat_call ha fun (failed : Bool) => ?_
    cases failed <;> exact rfl

theorem feedbackReader_sat (k : ℕ) : ∀ n : ℕ,
    (feedbackReader k n).Sat ⟨readerAllowed k, readerNext⟩ (fun _ _ => True) (fun _ _ => False) {} := by
  intro n
  induction n with
  | zero => trivial
  | succ n ih =>
    refine sat_call ⟨rfl, rfl, rfl⟩ fun (r : Recvd) => ?_
    cases r with
    | eof => exact sat_call ⟨rfl, rfl⟩ fun _ => trivial
    | failed => exact sat_call ⟨rfl, rfl⟩ fun _ => trivial
    | result w f => exact sat_call rfl fun _ => ih

theorem onStream_sat {Ph α : Type} {T : Proto SrvOp SrvOp.Res Ph} {k : ℕ} {Q : α → Ph → Prop} {X : Err → Ph → Prop} {p : SrvProg α}
    {ph : Ph} (h : p.Sat T Q X ph) : (onStream k p).Sat (onCall k T) (fun _ _ => True) (fun _ _ => True) ph := by
  refine h.refine id fun ph o ha => ?_
  exact sat_call ⟨rfl, ha⟩ fun _ => rfl

/-- **All goroutines of a session** do what they may. -/
theorem clientServer_abides (hname : ∀ pos name, P.walFileName pos tl.tli tl.segmentSize = .ok name → name ≠ [])
    (hs₀ : s₀ % tl.segmentSize = 0) {cs : List WalCall} (hcont : Contiguous s₀ cs)
    (hfit : s₀.toNat + (received cs).length < size) (fs : Fs Name UInt8) :
    Abides (sessionProto tl s₀ (received cs)) (fun _ _ => True) (fun _ _ => True)
      (clientServer S (streamingClient P tl tier2 cs) fs) fun _ => {} := by
  intro i
  cases i with
  | client =>
    have hloop : (manageWALStream P tl {} cs).SatIf (uploads false tl s₀ (received cs)) Reliable (fun _ _ => True) (fun _ _ => True) {} := by
      by_cases hzero : tl.segmentSize = 0
      · exact manageWALStream_zero hzero cs {} {} rfl rfl
      have hseg : 0 < tl.segmentSize.toNat := Nat.pos_of_ne_zero fun hz => hzero (UInt64.toNat_inj.mp hz)
      have hs₀' : s₀.toNat % tl.segmentSize.toNat = 0 := by
        rw [← UInt64.toNat_mod, hs₀]
        rfl
      have hstart : Ready tl s₀ [] {} {} := .inl ⟨rfl, rfl, nofun, rfl⟩
      exact manageWALStream_sat hname hseg hs₀' cs {} {} [] s₀ hstart rfl hcont (prefix_refl _) hfit
    have hclient : (streamingClient P tl tier2 cs).Sat ⟨clientAllowed tl s₀ (received cs), clientNext tl s₀ (received cs)⟩
        (fun _ _ => True) (fun _ _ => True) (SesPh.client {}) :=
      sat_bind (hloop.sat.refine id fun ph o ha => connectionOps_sat ph o ha) fun _ _ _ => trivial
    exact hclient.part (fun c ph => { ph with client := c }) fun _ _ => rfl
  | reader k =>
    have hreader : (feedbackReader k S.rounds).Sat ⟨readerAllowed k, readerNext⟩ (fun _ _ => True) (fun _ _ => True) (SesPh.reader {}) :=
      sat_mono (feedbackReader_sat k S.rounds) (fun _ _ hq => hq) fun _ _ hx => hx.elim
    exact hreader.part (fun r ph => { ph with reader := r }) fun _ _ => rfl
  | handler k =>
    have hput : (onStream k (servePut S.deps S.codec S.impl (S.rand k) S.peer S.rounds)).Sat
        (onCall k (handlerProto (segmentStart tl s₀ k))) (fun _ _ => True) (fun _ _ => True) (SesPh.handler {}) :=
      onStream_sat (servePut_sat S.rounds)
    exact hput.part (fun h ph => { ph with handler := h }) fun _ _ => rfl
  | sender k =>
    have hsend : (onStream k (if S.impl.isReadOnly then .ret () else sendLoop S.rounds)).Sat (onCall k senderProto) (fun _ _ => True)
        (fun _ _ => True) (SesPh.sender {}) := by
      split
      · trivial
      · exact onStream_sat (sendLoop_sat S.rounds)
    exact hsend.part (fun s ph => { ph with sender := s }) fun _ _ => rfl

/-! ## The invariant -/

/-- Every byte from `s₀` up to a position was flushed, in the call for a stream. -/
def FlushedUpTo (s₀ : UInt64) (wal : List UInt8) (st : SesState) (v : UInt64) : Prop :=
  ∀ a, s₀.toNat ≤ a → a < v.toNat → ∃ k < st.opened, (st.streams k).info.walStartLSN.toNat ≤ a ∧
    ∃ b, (st.streams k).srv.flushed[a - (st.streams k).info.walStartLSN.toNat]? = some b ∧ wal[a - s₀.toNat]? = some b

/-- **Both ends of a stream**: what it took, and what has become of it. -/
structure StreamInv (tl : Timeline) (s₀ : UInt64) (k : ℕ) (c : UpStream) (t : StreamState) (r : ReaderPh) (h : HandlerPh) (s : SenderPh) :
    Prop where
  start : c.start = segmentStart tl s₀ k
  info : t.info.walStartLSN = segmentStart tl s₀ k
  srv : SrvInv (segmentStart tl s₀ k) c.accepted t.srv h s
  failed : c.failed = true → t.srv.broken = true ∨ t.srv.halfClosed = true ∨ t.ackDone = some true
  acked : ∀ b, t.ackDone = some b → r.ended = some b
  ended : r.ended = some false ∨ c.closed = true → t.srv.flushed = c.accepted ∧ t.srv.halfClosed = true
  pending : ∀ v, r.pending = some v → v.toNat ≤ (segmentStart tl s₀ k).toNat + t.srv.flushed.length

/-- **A session**: its streams are the segments of the WAL, and what is reported is durable. -/
structure SesInv (tl : Timeline) (s₀ : UInt64) (wal : List UInt8) (st : SesState) (u : Uplink) (r : ℕ → ReaderPh) (h : ℕ → HandlerPh)
    (s : ℕ → SenderPh) : Prop where
  opened : u.streams.length = st.opened
  cut : Cut false tl s₀ wal u.streams
  stream : ∀ k c, u.streams[k]? = some c → StreamInv tl s₀ k c (st.streams k) (r k) (h k) (s k)
  fresh : ∀ k, st.opened ≤ k → r k = {} ∧ h k = {} ∧ s k = {}
  feedback : ∀ f ∈ st.feedback, FlushedUpTo s₀ wal st f.flushLSN

theorem FlushedUpTo.mono {st st' : SesState} {v : UInt64} (h : FlushedUpTo s₀ wal st v) (hopened : st.opened ≤ st'.opened)
    (hstream : ∀ k < st.opened, (st'.streams k).info = (st.streams k).info ∧
      (st.streams k).srv.flushed <+: (st'.streams k).srv.flushed) : FlushedUpTo s₀ wal st' v := by
  intro a ha hav
  obtain ⟨k, hk, hle, b, hb, hw⟩ := h a ha hav
  obtain ⟨hinfo, t, ht⟩ := hstream k hk
  refine ⟨k, Nat.lt_of_lt_of_le hk hopened, by rw [hinfo]; exact hle, b, ?_, hw⟩
  rw [hinfo, ← ht, List.getElem?_append_left (List.getElem?_eq_some_iff.mp hb).1]
  exact hb

variable {start : UInt64}

theorem SrvInv.flushed_prefix {all : List UInt8} {st : SrvState} {h : HandlerPh} {s : SenderPh}
    (hi : SrvInv start all st h s) : st.flushed <+: all := by
  rw [hi.flushed, ← hi.account, append_assoc]
  exact prefix_append _ _

theorem SrvInv.all_flushed {all : List UInt8} {st : SrvState} {h : HandlerPh} {s : SenderPh}
    (hi : SrvInv start all st h s) (hret : st.returned = some true) (hrecv : st.recvFailed = false) :
    st.flushed = all ∧ st.halfClosed = true := by
  obtain ⟨hend, hpend⟩ := hi.returned hret
  obtain ⟨hwire, hhalf⟩ := (hi.ended hend).resolve_left (by simp [hrecv])
  have hall := hi.account
  rw [hpend, hwire] at hall
  refine ⟨?_, hhalf⟩
  rw [hi.flushed, ← hall]
  simp [blocksPayload]

section Invariant

variable {st st' : SesState} {u u' : Uplink} {r : ℕ → ReaderPh} {h : ℕ → HandlerPh} {s : ℕ → SenderPh} {k : ℕ} {c c' : UpStream}

section

variable (hi : SesInv tl s₀ wal st u r h s)
include hi

theorem SesInv.start_toNat (hk : u.streams[k]? = some c) :
    (st.streams k).info.walStartLSN.toNat = s₀.toNat + k * tl.segmentSize.toNat := by
  rw [(hi.stream k c hk).info, ← (hi.stream k c hk).start]
  exact (hi.cut.laid k c hk).1

theorem SesInv.byte (hk : u.streams[k]? = some c) {a : ℕ}
    (hge : s₀.toNat + k * tl.segmentSize.toNat ≤ a)
    (hlt : a < s₀.toNat + k * tl.segmentSize.toNat + (st.streams k).srv.flushed.length) :
    ∃ b, (st.streams k).srv.flushed[a - (st.streams k).info.walStartLSN.toNat]? = some b ∧ wal[a - s₀.toNat]? = some b := by
  rw [hi.start_toNat hk]
  have hpre : (st.streams k).srv.flushed <+: wal.drop (k * tl.segmentSize.toNat) :=
    (hi.stream k c hk).srv.flushed_prefix.trans (hi.cut.laid k c hk).2.1
  obtain ⟨t, ht⟩ := hpre
  have hin : a - (s₀.toNat + k * tl.segmentSize.toNat) < (st.streams k).srv.flushed.length := by omega
  refine ⟨_, List.getElem?_eq_getElem hin, ?_⟩
  have hget : (wal.drop (k * tl.segmentSize.toNat))[a - (s₀.toNat + k * tl.segmentSize.toNat)]? =
      (st.streams k).srv.flushed[a - (s₀.toNat + k * tl.segmentSize.toNat)]? := by
    rw [← ht, List.getElem?_append_left hin]
  rw [List.getElem?_drop, List.getElem?_eq_getElem hin] at hget
  rw [← hget]
  congr 1
  omega

/-- Full segments are durable, and so is a position in the next one that its call has flushed. -/
theorem SesInv.flushedUpTo {n : ℕ} (hfull : ∀ j < n, ∃ c, u.streams[j]? = some c ∧ c.Complete tl.segmentSize)
    {v : UInt64} (hv : v.toNat ≤ s₀.toNat + n * tl.segmentSize.toNat ∨ ∃ c, u.streams[n]? = some c ∧
      v.toNat ≤ s₀.toNat + n * tl.segmentSize.toNat + (st.streams n).srv.flushed.length) : FlushedUpTo s₀ wal st v := by
  have hlt : ∀ {j c}, u.streams[j]? = some c → j < st.opened := fun hj => hi.opened ▸ (List.getElem?_eq_some_iff.mp hj).1
  intro a ha hav
  by_cases hin : s₀.toNat + n * tl.segmentSize.toNat ≤ a
  · -- in the last of them
    obtain ⟨c, hc, hv⟩ := hv.resolve_left (by omega)
    refine ⟨n, hlt hc, ?_, hi.byte hc hin (by omega)⟩
    rw [hi.start_toNat hc]
    exact hin
  · -- in a full one
    have hseg : 0 < tl.segmentSize.toNat := by
      by_contra hz
      have : n * tl.segmentSize.toNat = 0 := by rw [Nat.le_zero.mp (Nat.le_of_not_lt hz), Nat.mul_zero]
      omega
    set j := (a - s₀.toNat) / tl.segmentSize.toNat with hj
    have hdiv := Nat.div_add_mod (a - s₀.toNat) tl.segmentSize.toNat
    have hmod := Nat.mod_lt (a - s₀.toNat) hseg
    rw [← hj, Nat.mul_comm] at hdiv
    have hjn : j < n := by
      rw [hj, Nat.div_lt_iff_lt_mul hseg]
      omega
    obtain ⟨c, hc, hcomplete⟩ := hfull j hjn
    have hflushed := ((hi.stream j c hc).ended (.inr hcomplete.1)).1
    have hlen : (st.streams j).srv.flushed.length = tl.segmentSize.toNat := by rw [hflushed]; exact hcomplete.2.2
    refine ⟨j, hlt hc, ?_, hi.byte hc (by omega) (by omega)⟩
    rw [hi.start_toNat hc]
    omega

theorem SesInv.before (hk : k < u.streams.length) :
    ∀ j < k, ∃ c, u.streams[j]? = some c ∧ c.Complete tl.segmentSize := by
  intro j hj
  have hget : u.streams[j]? = some u.streams[j] := List.getElem?_eq_getElem (by omega)
  exact ⟨_, hget, hi.cut.complete j _ hget (by omega)⟩

theorem SesInv.fits (hfit : s₀.toNat + wal.length < size) (hk : u.streams[k]? = some c) :
    (segmentStart tl s₀ k).toNat + c.accepted.length < size := by
  obtain ⟨hstart, hpre, -, -⟩ := hi.cut.laid k c hk
  rw [← (hi.stream k c hk).start, hstart]
  have hlen := hpre.length_le
  rw [length_drop] at hlen
  have hlt := c.start.toNat_lt_size
  omega

/-- **One stream changes**, at one of its ends. -/
theorem SesInv.set (hk : k < st.opened) (hlen : u'.streams.length = u.streams.length)
    (hother : ∀ j, j ≠ k → u'.streams[j]? = u.streams[j]?) (hself : u'.streams[k]? = some c') (hcut : Cut false tl s₀ wal u'.streams)
    (t' : StreamState) (hinfo : t'.info = (st.streams k).info) (hflushed : (st.streams k).srv.flushed <+: t'.srv.flushed)
    {r' : ReaderPh} {h' : HandlerPh} {s' : SenderPh} (hs : StreamInv tl s₀ k c' t' r' h' s') (files : Fs Name UInt8) :
    SesInv tl s₀ wal { st.set k t' with files := files } u' (update r k r') (update h k h') (update s k s') where
  opened := hlen.trans hi.opened
  cut := hcut
  stream j c hj := by
    by_cases hjk : j = k
    · subst hjk
      rw [hself] at hj
      cases hj
      simpa only [SesState.set_streams_self, update_self] using hs
    · rw [hother j hjk] at hj
      simpa only [SesState.set, update_of_ne hjk] using hi.stream j c hj
  fresh j hj := by
    have hjk : j ≠ k := fun heq => by
      subst heq
      exact absurd hk (Nat.not_lt.mpr hj)
    simpa only [update_of_ne hjk] using hi.fresh j hj
  feedback f hf := by
    refine (hi.feedback f hf).mono (Nat.le_refl _) fun j _ => ?_
    by_cases hjk : j = k
    · subst hjk
      simpa only [SesState.set, update_self] using ⟨hinfo, hflushed⟩
    · simp only [SesState.set, update_of_ne hjk, true_and]
      exact prefix_refl _

end

/-! ## Steps of the server -/

theorem srvExec_frame {o : SrvOp} {a : o.Res} {c : SrvChoice} {x x' : SrvState} {fs fs' : Fs Name UInt8}
    (he : SrvState.exec o c (x, fs) = some (a, (x', fs'))) :
    x.flushed <+: x'.flushed ∧ x'.halfClosed = x.halfClosed ∧ x'.broken = x.broken := by
  have hsame : ∀ {y : SrvState}, y.flushed = x.flushed → y.halfClosed = x.halfClosed → y.broken = x.broken →
      x.flushed <+: y.flushed ∧ y.halfClosed = x.halfClosed ∧ y.broken = x.broken := by
    intro y hf hh hb
    exact ⟨hf ▸ prefix_refl _, hh, hb⟩
  cases o with
  | flushed payload => cases he; exact ⟨prefix_append _ _, rfl, rfl⟩
  | files o =>
    cases he
    unfold SrvState.emitted
    split
    · exact hsame rfl rfl rfl
    · split <;> exact hsame rfl rfl rfl
    · exact hsame rfl rfl rfl
  | drain =>
    cases c <;> simp only [SrvState.exec] at he <;> (try split at he) <;> cases he <;> exact hsame rfl rfl rfl
  | awaitDone =>
    simp only [SrvState.exec] at he
    split at he <;> cases he
    exact hsame rfl rfl rfl
  | next =>
    cases c <;> simp only [SrvState.exec] at he <;> (try split at he) <;> (try split at he) <;> cases he <;> exact hsame rfl rfl rfl
  | _ => cases he; exact hsame rfl rfl rfl

theorem StreamInv.server {t : StreamState} {rp : ReaderPh} {hp hp' : HandlerPh} {sp sp' : SenderPh} {x : SrvState}
    (hi : StreamInv tl s₀ k c t rp hp sp) (hf : t.srv.flushed <+: x.flushed) (hh : x.halfClosed = t.srv.halfClosed)
    (hb : x.broken = t.srv.broken) (hx : SrvInv (segmentStart tl s₀ k) c.accepted x hp' sp') :
    StreamInv tl s₀ k c { t with srv := x } rp hp' sp' where
  start := hi.start
  info := hi.info
  srv := hx
  failed := hb ▸ hh ▸ hi.failed
  acked := hi.acked
  ended hend := by
    obtain ⟨hall, hhalf⟩ := hi.ended hend
    -- everything was flushed already
    have hlen : x.flushed.length ≤ t.srv.flushed.length := hall ▸ hx.flushed_prefix.length_le
    exact ⟨(hf.eq_of_length_le hlen).symm.trans hall, hh.trans hhalf⟩
  pending v hv := Nat.le_trans (hi.pending v hv) (Nat.add_le_add_left hf.length_le _)

variable {clusterName : Name} {sees : SeesEOF} {ch : SrvChoice}

section

variable (hi : SesInv tl s₀ wal st u r h s)
include hi

theorem SesInv.server_step {o : SrvOp} {a : o.Res}
    (he : SesState.exec clusterName sees (.srv k o) ch st = some (a, st')) (hp : HandlerPh) (sp : SenderPh)
    (hx : ∀ c x fs fs', StreamInv tl s₀ k c (st.streams k) (r k) (h k) (s k) → u.streams[k]? = some c →
      SrvState.exec o ch ((st.streams k).srv, fs) = some (a, (x, fs')) → SrvInv (segmentStart tl s₀ k) c.accepted x hp sp) :
    SesInv tl s₀ wal st' u r (update h k hp) (update s k sp) := by
  simp only [SesState.exec] at he
  split at he
  · cases he
  rename_i hopen
  split at he
  · cases he
  rename_i a' x files hexec
  cases he
  have hk : k < u.streams.length := by
    rw [hi.opened]
    exact Nat.lt_of_not_le hopen
  have hc : u.streams[k]? = some u.streams[k] := List.getElem?_eq_getElem hk
  obtain ⟨hf, hh, hb⟩ := srvExec_frame hexec
  have hs := (hi.stream k _ hc).server hf hh hb (hx _ x _ files (hi.stream k _ hc) hc hexec)
  have hset := hi.set (Nat.lt_of_not_le hopen) rfl (fun _ _ => rfl) hc hi.cut { st.streams k with srv := x } rfl hf hs files
  rwa [update_eq_self] at hset

/-! ## Steps of the reader -/

theorem SesInv.place {f : Feedback} (hf : FlushedUpTo s₀ wal st f.flushLSN) :
    SesInv tl s₀ wal { st with feedback := st.feedback ++ [f] } u r h s :=
  { hi with
    feedback := by
      intro g hg
      rcases mem_append.mp hg with hg | hg
      · exact hi.feedback g hg
      · obtain rfl := mem_singleton.mp hg
        exact hf }

theorem SesInv.reading (hr : r k ≠ {}) : k < st.opened := by
  by_contra hno
  exact hr (hi.fresh k (Nat.le_of_not_lt hno)).1

theorem SesInv.set_reader (hk : k < st.opened) (t' : StreamState) (rp : ReaderPh)
    (hinfo : t'.info = (st.streams k).info) (hsrv : t'.srv = (st.streams k).srv)
    (hs : ∀ c, u.streams[k]? = some c → StreamInv tl s₀ k c (st.streams k) (r k) (h k) (s k) → StreamInv tl s₀ k c t' rp (h k) (s k)) :
    SesInv tl s₀ wal (st.set k t') u (update r k rp) h s := by
  have hc : u.streams[k]? = some (u.streams.get ⟨k, hi.opened ▸ hk⟩) := List.getElem?_eq_getElem _
  have hset := hi.set hk rfl (fun _ _ => rfl) hc hi.cut t' hinfo (hsrv ▸ prefix_refl _) (hs _ hc (hi.stream k _ hc)) st.files
  rwa [update_eq_self, update_eq_self] at hset

omit hi in
theorem SesState.set_self (st : SesState) (k : ℕ) : st.set k (st.streams k) = st := by
  rw [SesState.set, update_eq_self]

/-- **A step of the reader.** The end of the stream is the end of all blocks. -/
theorem SesInv.reader_step
    (hsees : ∀ x, sees x = true → x.returned = some true ∧ x.recvFailed = false) {o : SesOp} {a : o.Res}
    (ha : readerAllowed k (r k) o) (he : SesState.exec clusterName sees o ch st = some (a, st')) :
    SesInv tl s₀ wal st' u (update r k (readerNext (r k) o a)) h s := by
  cases o with
  | place f =>
    cases he
    have hpend : (r k).pending = some f.flushLSN := ha
    have hk : k < st.opened := hi.reading fun hno => by rw [hno] at hpend; cases hpend
    have hk' : k < u.streams.length := hi.opened ▸ hk
    have hc : u.streams[k]? = some u.streams[k] := List.getElem?_eq_getElem hk'
    have hs := hi.stream k _ hc
    -- what it reports lies in what the call has flushed, and the segments before it are full
    have hle := hs.pending _ hpend
    rw [← hs.info, hi.start_toNat hc] at hle
    have hset := hi.set_reader hk (st.streams k) { r k with pending := none } rfl rfl fun c _ hs =>
      { hs with pending := fun v hv => by cases hv }
    rw [SesState.set_self] at hset
    exact hset.place (hi.flushedUpTo (hi.before hk') (.inr ⟨_, hc, hle⟩))
  | closeAck j failed =>
    cases he
    obtain ⟨rfl, hend⟩ := ha
    have hk : j < st.opened := hi.reading fun hno => by rw [hno] at hend; cases hend
    refine hi.set_reader hk _ _ rfl rfl fun c _ hs => { hs with failed := fun hf => ?_, acked := fun b hb => ?_ }
    · rcases hs.failed hf with hbroken | hhalf | hack
      · exact .inl hbroken
      · exact .inr (.inl hhalf)
      · exact .inr (.inr (hend ▸ hs.acked true hack))
    · exact hend.trans hb
  | recv j =>
    obtain ⟨rfl, hpend, hend⟩ := ha
    have hack : ∀ {c : UpStream}, StreamInv tl s₀ j c (st.streams j) (r j) (h j) (s j) → (st.streams j).ackDone = none := by
      intro c hs
      cases hack : (st.streams j).ackDone with
      | none => rfl
      | some b => rw [hs.acked b hack] at hend; cases hend
    simp only [SesState.exec] at he
    split at he
    · cases he
    rename_i hopen
    have hk : j < st.opened := Nat.lt_of_not_le hopen
    -- the stream fails for the client
    have hfailed : SesInv tl s₀ wal st u (update r j { r j with ended := some true }) h s := by
      have hset := hi.set_reader hk (st.streams j) { r j with ended := some true } rfl rfl fun c _ hs =>
        { hs with
          acked := fun b hb => by rw [hack hs] at hb; cases hb
          ended := fun hor => hs.ended (.inr (hor.resolve_left fun hno => by cases hno)) }
      rwa [SesState.set_self] at hset
    split at he
    · cases he
      exact hfailed
    split at he
    · rename_i x hx
      cases he
      refine hi.set_reader hk _ _ rfl rfl fun c _ hs => { hs with pending := fun v hv => ?_ }
      cases hv
      have hd := hs.srv.durable x (mem_of_getElem? hx)
      show x.flushLsn.toNat ≤ (segmentStart tl s₀ j).toNat + (st.streams j).srv.flushed.length
      omega
    split at he
    · cases he
    cases hsee : sees (st.streams j).srv with
    | true =>
      rw [hsee] at he
      cases he
      obtain ⟨hret, hrecv⟩ := hsees _ hsee
      have hset := hi.set_reader hk (st.streams j) { r j with ended := some false } rfl rfl fun c _ hs =>
        { hs with
          acked := fun b hb => by rw [hack hs] at hb; cases hb
          ended := fun _ => hs.srv.all_flushed hret hrecv }
      rwa [SesState.set_self] at hset
    | false =>
      rw [hsee] at he
      cases he
      exact hfailed
  | _ => exact ha.elim

/-! ## Steps of the client -/

omit hi in
theorem SrvInv.sendBlock {all : List UInt8} {x : SrvState} {hp : HandlerPh} {sp : SenderPh}
    (hi : SrvInv start all x hp sp) (req : PutRequest) (hreq : req.walStartLsn = start) (hopen : x.halfClosed = false) :
    SrvInv start (all ++ req.walBlock) { x with wire := x.wire ++ [req] } hp sp where
  own := hi.own
  wire b hb := by
    rcases mem_append.mp hb with hb | hb
    · exact hi.wire b hb
    · obtain rfl := mem_singleton.mp hb
      exact hreq
  flushed := hi.flushed
  account := by
    have hone : blocksPayload [req] = req.walBlock := by simp [blocksPayload]
    rw [blocksPayload_append, ← append_assoc, hi.account, hone]
  stored := hi.stored
  durable := hi.durable
  ordered := hi.ordered
  current := hi.current
  loaded := hi.loaded
  exited := hi.exited
  done := hi.done
  stopped := hi.stopped
  final := hi.final
  ended hend := by
    -- the end of the blocks was not seen before there was one
    refine (hi.ended hend).imp_right fun hno => ?_
    rw [hopen] at hno
    cases hno.2
  returned := hi.returned

theorem SesInv.set_client {past : List UpStream} (hu : u.streams = past ++ [c])
    (hu' : u'.streams = past ++ [c']) (hcut : Cut false tl s₀ wal u'.streams) (t' : StreamState)
    (hinfo : t'.info = (st.streams past.length).info) (hflushed : t'.srv.flushed = (st.streams past.length).srv.flushed)
    (hs : StreamInv tl s₀ past.length c (st.streams past.length) (r past.length) (h past.length) (s past.length) →
      StreamInv tl s₀ past.length c' t' (r past.length) (h past.length) (s past.length)) :
    SesInv tl s₀ wal (st.set past.length t') u' r h s := by
  have hlen : u.streams.length = past.length + 1 := by simp [hu]
  have hk : past.length < st.opened := by
    rw [← hi.opened, hlen]
    exact Nat.lt_succ_self _
  have hc : u.streams[past.length]? = some c := by simp [hu]
  have hc' : u'.streams[past.length]? = some c' := by simp [hu']
  have hother : ∀ j, j ≠ past.length → u'.streams[j]? = u.streams[j]? := by
    intro j hj
    ext x
    rw [hu, hu', getElem?_snoc, getElem?_snoc]
    simp [hj]
  have hset := hi.set hk (by simp [hu, hu']) hother hc' hcut t' hinfo (hflushed ▸ prefix_refl _) (hs (hi.stream _ c hc)) st.files
  rwa [update_eq_self, update_eq_self, update_eq_self] at hset

omit hi in
theorem segmentStart_eq {n : ℕ} (hstart : start.toNat = s₀.toNat + n * tl.segmentSize.toNat) :
    start = segmentStart tl s₀ n := by
  apply UInt64.toNat_inj.mp
  have hlt := start.toNat_lt_size
  have hsize : size = 2 ^ 64 := rfl
  rw [segmentStart, UInt64.toNat_add, UInt64.toNat_mul, UInt64.toNat_ofNat', hstart, Nat.mod_mul_mod, Nat.add_mod_mod]
  exact (Nat.mod_eq_of_lt (by omega)).symm

theorem SesInv.open {g : GrpcWALStream}
    (ha : (uploads false tl s₀ wal).allowed u (.storeWALStreaming g.walName g.walStartLSN)) :
    SesInv tl s₀ wal { st.set st.opened { info := g } with opened := st.opened + 1 }
      { u with streams := u.streams ++ [{ start := g.walStartLSN }] } r h s := by
  have hstart : g.walStartLSN = segmentStart tl s₀ st.opened := by
    apply segmentStart_eq
    rw [ha.2, complete_bytes ha.1, hi.opened]
  have hold : ∀ j < st.opened, update st.streams st.opened { info := g } j = st.streams j :=
    fun j hj => update_of_ne (Nat.ne_of_lt hj) _ _
  refine ⟨?_, ?_, ?_, ?_, ?_⟩
  · simp [hi.opened]
  · exact cut_step hi.cut (o := .storeWALStreaming g.walName g.walStartLSN) (r := (.ok st.opened : Except Err ℕ)) ha
      fun k hk => (Except.ok.inj hk).symm.trans hi.opened.symm
  · intro k c hc
    rcases getElem?_snoc.mp hc with hc | ⟨rfl, rfl⟩
    · have hk : k < st.opened := hi.opened ▸ (List.getElem?_eq_some_iff.mp hc).1
      have hs := hi.stream k c hc
      rw [← hold k hk] at hs
      exact hs
    · rw [hi.opened]
      obtain ⟨hr, hh, hs⟩ := hi.fresh st.opened (Nat.le_refl _)
      rw [hr, hh, hs]
      simp only [SesState.set, update_self]
      have hnone : ∀ b ∈ ([] : List PutRequest), b.walStartLsn = segmentStart tl s₀ st.opened := nofun
      exact {
        start := hstart
        info := hstart
        srv := srvInv_init hnone false
        failed := nofun
        acked := nofun
        ended := fun hno => by rcases hno with hno | hno <;> cases hno
        pending := fun v hno => by cases hno }
  · intro k hk
    exact hi.fresh k (Nat.le_of_succ_le hk)
  · intro f hf
    refine (hi.feedback f hf).mono (Nat.le_succ _) fun k hk => ?_
    show (update st.streams st.opened { info := g } k).info = _ ∧ _ <+: (update st.streams st.opened { info := g } k).srv.flushed
    rw [hold k hk]
    exact ⟨rfl, prefix_refl _⟩

theorem SesInv.refuse {block : List UInt8} (ha : (uploads false tl s₀ wal).allowed u (.sendBlock k block))
    {e : Err} (t' : StreamState) (hinfo : t'.info = (st.streams k).info) (hflushed : t'.srv.flushed = (st.streams k).srv.flushed)
    (hs : ∀ c, StreamInv tl s₀ k c (st.streams k) (r k) (h k) (s k) → StreamInv tl s₀ k { c with failed := true } t' (r k) (h k) (s k)) :
    ∃ u', linkAfter tl s₀ wal (some u) (.sendBlock k block) (.error e : Except Err Unit) = some u' ∧ SesInv tl s₀ wal (st.set k t') u' r h s := by
  have hgood : Reliable u (.sendBlock k block) (.error e : Except Err Unit) := nofun
  refine ⟨_, linkAfter_some hgood, ?_⟩
  have hcut := cut_step hi.cut ha hgood
  obtain ⟨past, c, hu, rfl, -⟩ := ha
  refine hi.set_client hu ?_ hcut t' hinfo hflushed (hs c)
  show u.streams.modify past.length _ = past ++ [{ c with failed := true }]
  rw [hu, modify_last]

/-- **A step of the client**, which keeps the connection reliable. -/
theorem SesInv.client_step {o : SesOp} {a : o.Res}
    (ha : clientAllowed tl s₀ wal (some u) o) (he : SesState.exec clusterName sees o ch st = some (a, st')) :
    ∃ u', clientNext tl s₀ wal (some u) o a = some u' ∧ SesInv tl s₀ wal st' u' r h s := by
  cases o with
  | place f =>
    cases he
    obtain ⟨hfull, hf⟩ := ha u rfl
    rw [complete_bytes hfull] at hf
    refine ⟨u, rfl, hi.place (hi.flushedUpTo (fun j hj => ?_) (.inl (Nat.le_of_eq hf)))⟩
    exact ⟨_, List.getElem?_eq_getElem hj, hfull _ (getElem_mem hj)⟩
  | put g =>
    have hopen := hi.open (ha u rfl)
    have hok : Reliable u (.storeWALStreaming g.walName g.walStartLSN) (.ok st.opened : Except Err ℕ) :=
      fun k hk => (Except.ok.inj hk).symm.trans hi.opened.symm
    cases ch with
    | fault n =>
      cases he
      have hgood : Reliable u (.storeWALStreaming g.walName g.walStartLSN) (.error (.new "unavailable") : Except Err ℕ) :=
        nofun
      exact ⟨_, linkAfter_some hgood, { hi with }⟩
    | _ => cases he; exact ⟨_, linkAfter_some hok, hopen⟩
  | ackedErr k =>
    cases he
    rcases hack : (st.streams k).ackDone == some true with _ | _
    · exact ⟨u, rfl, hi⟩
    obtain ⟨block, hsend⟩ := ha u rfl
    have href := hi.refuse (e := ackErr) hsend (st.streams k) rfl rfl fun c hs =>
      { hs with failed := fun _ => .inr (.inr (beq_iff_eq.mp hack)) }
    rw [SesState.set_self, linkAfter_refused (some u) k block [] ackErr ackErr] at href
    exact href
  | send k block =>
    have hsend := ha u rfl
    simp only [SesState.exec] at he
    split at he
    · rename_i hdown
      cases he
      have href := hi.refuse (e := .eof) hsend (st.streams k) rfl rfl fun c hs => { hs with failed := fun _ => hdown }
      rwa [SesState.set_self] at href
    · rename_i hup
      simp only [not_or, Bool.not_eq_true] at hup
      obtain ⟨hbroken, hhalf, hack⟩ := hup
      obtain ⟨past, c, hu, rfl, -⟩ := id hsend
      have hc : u.streams[past.length]? = some c := by simp [hu]
      have hlive : c.failed = false := by
        rcases hf : c.failed with _ | _
        · rfl
        rcases (hi.stream _ c hc).failed hf with hno | hno | hno
        · rw [hbroken] at hno; cases hno
        · rw [hhalf] at hno; cases hno
        · exact (hack hno).elim
      have hgood : Reliable u (.sendBlock past.length block) (.ok () : Except Err Unit) := by
        intro _ x hx
        rw [hc] at hx
        cases hx
        exact hlive
      have hcut := cut_step hi.cut hsend hgood
      have hsent : SesInv tl s₀ wal (st.set past.length { st.streams past.length with
          srv := { (st.streams past.length).srv with wire := (st.streams past.length).srv.wire ++
            [(st.streams past.length).info.request clusterName block] } }) (u.after (.sendBlock past.length block) (.ok () : Except Err Unit)) r h s := by
        have hafter : (u.after (.sendBlock past.length block) (.ok () : Except Err Unit)).streams =
            past ++ [{ c with accepted := c.accepted ++ block }] := by
          show u.streams.modify past.length _ = _
          rw [hu, modify_last]
        refine hi.set_client hu hafter hcut _ rfl rfl fun hs => ?_
        have hnot : ¬ ((r past.length).ended = some false ∨ c.closed = true) := fun hend => by
          have hno := (hs.ended hend).2
          rw [hhalf] at hno
          cases hno
        exact { hs with
          srv := hs.srv.sendBlock ((st.streams past.length).info.request clusterName block) hs.info hhalf
          failed := fun hno => by rw [hlive] at hno; cases hno
          ended := fun hend => (hnot hend).elim }
      cases ch with
      | fault n =>
        cases he
        exact hi.refuse hsend _ rfl rfl fun c hs => { hs with srv := { hs.srv with }, failed := fun _ => .inl rfl }
      | _ => cases he; exact ⟨_, linkAfter_some hgood, hsent⟩
  | closeSend k =>
    have hclose := ha u rfl
    obtain ⟨past, c, hu, rfl, -⟩ := id hclose
    have hhalf : SesInv tl s₀ wal (st.set past.length { st.streams past.length with
        srv := { (st.streams past.length).srv with halfClosed := true } }) u r h s :=
      hi.set_client hu hu hi.cut _ rfl rfl fun hs => { hs with
        srv := { hs.srv with ended := fun hend => (hs.srv.ended hend).imp_right fun hw => ⟨hw.1, rfl⟩ }
        failed := fun _ => .inr (.inl rfl)
        ended := fun hend => ⟨(hs.ended hend).1, rfl⟩ }
    cases ch with
    | fault n => cases he; exact ⟨_, linkAfter_some trivial, { hi with }⟩
    | _ => cases he; exact ⟨u, rfl, hhalf⟩
  | awaitAck k =>
    have hclose := ha u rfl
    simp only [SesState.exec] at he
    split at he
    · rename_i hack
      cases he
      cases (a : Bool) with
      | true => exact ⟨_, linkAfter_some trivial, { hi with }⟩
      | false =>
        -- the reader has seen the end of the stream
        have hcut := cut_step (o := .close k) (r := (.ok () : Except Err Unit)) hi.cut hclose trivial
        obtain ⟨past, c, hu, rfl, -⟩ := hclose
        have hset : SesInv tl s₀ wal (st.set past.length (st.streams past.length))
            (u.after (.close past.length) (.ok () : Except Err Unit)) r h s := by
          have hafter : (u.after (.close past.length) (.ok () : Except Err Unit)).streams = past ++ [{ c with closed := true }] := by
            show u.streams.modify past.length _ = _
            rw [hu, modify_last]
          exact hi.set_client hu hafter hcut _ rfl rfl fun hs => { hs with ended := fun _ => hs.ended (.inl (hs.acked false hack)) }
        rw [SesState.set_self] at hset
        exact ⟨_, linkAfter_some trivial, hset⟩
    · cases he
  | _ => exact ha.elim

end

end Invariant

/-! ## Every run -/

theorem update_own {α : Type} {φ : SesThread → SesPh} {x : SesPh} {of : ℕ → SesThread} (hinj : ∀ i j, of i = of j → i = j)
    (get : SesPh → α) (i : ℕ) :
    (fun j => get (update φ (of i) x (of j))) = update (fun j => get (φ (of j))) i (get x) := by
  funext j
  by_cases hj : j = i
  · subst hj
    simp only [update_self]
  · rw [update_of_ne hj, update_of_ne fun heq => hj (hinj j i heq)]

/-- The invariant of a session, over the phases of all its goroutines. -/
def SesPhInv (tl : Timeline) (s₀ : UInt64) (wal : List UInt8) (st : SesState) (φ : SesThread → SesPh) : Prop :=
  ∃ u, (φ .client).client = some u ∧ SesInv tl s₀ wal st u (fun k => (φ (.reader k)).reader) (fun k => (φ (.handler k)).handler)
    fun k => (φ (.sender k)).sender

/-- **Every step of every goroutine** keeps the invariant. -/
theorem sesPhInv_step (hfit : s₀.toNat + wal.length < size) {clusterName : Name} {sees : SeesEOF}
    (hsees : ∀ x, sees x = true → x.returned = some true ∧ x.recvFailed = false) {st st' : SesState} {φ : SesThread → SesPh}
    {i : SesThread} {ch : SrvChoice} {o : SesOp} {a : o.Res} (hi : SesPhInv tl s₀ wal st φ) (ha : (sessionProto tl s₀ wal i).allowed (φ i) o)
    (he : SesState.exec clusterName sees o ch st = some (a, st')) :
    SesPhInv tl s₀ wal st' (update φ i ((sessionProto tl s₀ wal i).next (φ i) o a)) := by
  obtain ⟨u, hu, hi⟩ := hi
  cases i with
  | client =>
    have ha : clientAllowed tl s₀ wal (φ .client).client o := ha
    rw [hu] at ha
    obtain ⟨u', hu', hi'⟩ := hi.client_step ha he
    refine ⟨u', ?_, ?_⟩
    · rw [update_self]
      show clientNext tl s₀ wal (φ .client).client o a = some u'
      rw [hu]
      exact hu'
    · simpa only [update_of_ne, ne_eq, reduceCtorEq, not_false_eq_true] using hi'
  | reader k =>
    refine ⟨u, by simpa only [update_of_ne, ne_eq, reduceCtorEq, not_false_eq_true] using hu, ?_⟩
    rw [update_own fun _ _ => SesThread.reader.inj]
    exact hi.reader_step hsees ha he
  | handler k =>
    refine ⟨u, by simpa only [update_of_ne, ne_eq, reduceCtorEq, not_false_eq_true] using hu, ?_⟩
    rw [update_own fun _ _ => SesThread.handler.inj]
    cases o with
    | srv j o =>
      obtain ⟨rfl, ha⟩ := ha
      have hstep := hi.server_step he (handlerNext (segmentStart tl s₀ j) (φ (.handler j)).handler o a)
        (φ (.sender j)).sender fun c x fs fs' hs hc hx => hs.srv.handler_step (hi.fits hfit hc) ha hx
      rw [update_eq_self] at hstep
      exact hstep
    | _ => exact ha.elim
  | sender k =>
    refine ⟨u, by simpa only [update_of_ne, ne_eq, reduceCtorEq, not_false_eq_true] using hu, ?_⟩
    rw [update_own fun _ _ => SesThread.sender.inj]
    cases o with
    | srv j o =>
      obtain ⟨rfl, ha⟩ := ha
      have hstep := hi.server_step he (φ (.handler j)).handler
        (senderNext (φ (.sender j)).sender o a) fun c x fs fs' hs hc hx => hs.srv.sender_step ha hx
      rw [update_eq_self] at hstep
      exact hstep
    | _ => exact ha.elim

/-- **WAL is reported as flushed only when it is.** For every contiguous sequence of messages from a segment
boundary on, with calls of `Flush` anywhere between them, in every run of the client and of the calls it
starts: whatever the batches are, whenever the goroutines are scheduled and whichever stream operations
fail, all bytes from the start up to a reported position were covered by completed flushes. A call that
has returned an error, or whose `Recv` has failed, does not look like the end of the stream. -/
theorem reported_is_durable (S : Server) (P : Outside) (tl : Timeline) (tier2 : Bool) (clusterName : Name) (fs : Fs Name UInt8)
    (sees : SeesEOF) (hsees : ∀ x, sees x = true → x.returned = some true ∧ x.recvFailed = false)
    (hname : ∀ pos name, P.walFileName pos tl.tli tl.segmentSize = .ok name → name ≠ []) (s₀ : UInt64)
    (hs₀ : s₀ % tl.segmentSize = 0) (cs : List WalCall) (hcont : Contiguous s₀ cs)
    (hfit : s₀.toNat + (received cs).length < UInt64.size) (es : List (SesThread × SrvChoice)) :
    let st := ((clientServer S (streamingClient P tl tier2 cs) fs).schedule (sesSem clusterName sees) es).st
    ∀ f ∈ st.feedback, FlushedUpTo s₀ (received cs) st f.flushLSN := by
  have hinit : SesPhInv tl s₀ (received cs) { files := fs } fun _ => {} :=
    ⟨{}, rfl, rfl, cut_nil, nofun, fun _ _ => ⟨rfl, rfl, rfl⟩, nofun⟩
  obtain ⟨φ, -, -, u, -, hinv⟩ := schedule_proto (M := sesSem clusterName sees) (T := sessionProto tl s₀ (received cs))
    (G := fun _ _ _ => True) (fun _ => {}) (SesPhInv tl s₀ (received cs))
    (fun s φ i c o k a st _ _ hi _ _ ha he => sesPhInv_step hfit hsees hi ha he) es
    (clientServer S (streamingClient P tl tier2 cs) fs) (fun _ => {}) (clientServer_abides hname hs₀ hcont hfit fs)
    (fun _ _ => rfl) hinit (heeds_of_forall (fun _ _ _ => trivial) es _)
  exact hinv.feedback

/-- Only a call that has seen the end of its blocks looks like the end of the stream. -/
def seesEnd : SeesEOF := fun x => x.returned == some true && !x.recvFailed

def plainServer : Server := ⟨plainDeps, plainCodec, ⟨false, true⟩, fun _ _ => 0, .cert "u@c".toList, 5⟩

/-- A segment, and the first byte of the next one. -/
def fiveBytes : List WalCall := [.data [1, 2, 3, 4] 8, .data [5] 12, .flush]

/-- The segment is sent, flushed, acknowledged and closed, and the next one is opened. -/
def nextSegment : List (SesThread × SrvChoice) :=
  List.replicate 6 (.client, .none) ++ (.handler 0, .take 0) :: List.replicate 14 (.handler 0, .none) ++
    List.replicate 6 (.sender 0, .none) ++ List.replicate 3 (.reader 0, .none) ++ List.replicate 9 (.handler 0, .none) ++
    List.replicate 20 (.sender 0, .none) ++ List.replicate 15 (.handler 0, .none) ++ List.replicate 7 (.reader 0, .none) ++
    List.replicate 9 (.client, .none)

set_option maxRecDepth 10000 in
/-- What is reported in such a run: the start of the segment, its end as it is acknowledged, and the start
of the next one. -/
theorem next_segment_reported :
    let st := ((clientServer plainServer (streamingClient (numbered [] []) fourBytes false fiveBytes) Fs.empty).schedule
      (sesSem "c".toList seesEnd) nextSegment).st
    st.feedback.map Feedback.flushLSN = [8, 12, 12, 12, 12] ∧ ∀ f ∈ st.feedback, FlushedUpTo 8 (received fiveBytes) st f.flushLSN := by
  refine ⟨by decide +kernel, ?_⟩
  refine reported_is_durable plainServer (numbered [] []) fourBytes false "c".toList Fs.empty seesEnd ?_ (numbered_names [] [] fourBytes) 8
    (by decide) fiveBytes ⟨rfl, rfl, trivial⟩ (by decide) nextSegment
  intro x hx
  simpa [seesEnd] using hx

end Klio

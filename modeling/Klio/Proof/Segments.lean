import Klio.Proof.OpenStream

/-!
# How the client cuts WAL into segments

The positions of the client (the offset in a message, the local write position, what is in the buffer)
have to agree over messages that end anywhere, and after a failure nothing may be sent twice.

* `Uplink`: the streams that were opened and what they took; `uploads`: how the client uses them, a
  protocol that lays the bytes of the streams end to end (`Laid`).
* `Resting`, `Filling`: the client between two calls; `Broken`: after a call that failed.
* `processWALData_sat`, `flushData_sat`, `closeCurrentWAL_sat`: the calls.
* `segments_cut`: what was sent on which stream, at every moment of every history.
-/

namespace Klio

open Lib Prog List UInt64

/-! ## Streams -/

/-- A stream, with what `SendBlock` took. -/
structure UpStream where
  start : UInt64
  accepted : List UInt8 := []
  /-- A block was refused. -/
  failed : Bool := false
  closed : Bool := false

/-- The streams, in the order in which they were opened, and whether one could not be opened or closed. -/
structure Uplink where
  streams : List UpStream := []
  refused : Bool := false

/-- What an operation and its answer change. -/
def Uplink.after (u : Uplink) : (o : UpOp) → o.Res → Uplink
  | .place _, _ => u
  | .storeWALStreaming _ start, r => match (r : Except Err ℕ) with
    | .ok _ => { u with streams := u.streams ++ [{ start := start }] }
    | .error _ => { u with refused := true }
  | .sendBlock k block, r => match (r : Except Err Unit) with
    | .ok _ => { u with streams := u.streams.modify k fun c => { c with accepted := c.accepted ++ block } }
    | .error _ => { u with streams := u.streams.modify k fun c => { c with failed := true } }
  | .close k, r => match (r : Except Err Unit) with
    | .ok _ => { u with streams := u.streams.modify k fun c => { c with closed := true } }
    | .error _ => { u with refused := true }

/-- A connection gives out new streams, and a stream that has refused a block refuses the next ones. -/
def Reliable (u : Uplink) : (o : UpOp) → o.Res → Prop
  | .storeWALStreaming _ _, r => ∀ k, (r : Except Err ℕ) = .ok k → k = u.streams.length
  | .sendBlock k _, r => (r : Except Err Unit) = .ok () → ∀ c, u.streams[k]? = some c → c.failed = false
  | _, _ => True

/-- Moreover, streams can be opened and closed. -/
def Steady (u : Uplink) : (o : UpOp) → o.Res → Prop
  | .storeWALStreaming name start, r => Reliable u (.storeWALStreaming name start) r ∧ ∃ k, (r : Except Err ℕ) = .ok k
  | .close _, r => (r : Except Err Unit) = .ok ()
  | o, r => Reliable u o r

/-- What the streams took, one after the other. -/
def upBytes (streams : List UpStream) : List UInt8 := streams.flatMap UpStream.accepted

/-- Full, and closed. -/
def UpStream.Complete (segmentSize : UInt64) (c : UpStream) : Prop :=
  c.closed = true ∧ c.failed = false ∧ c.accepted.length = segmentSize.toNat

/-- How the client uses its streams. `strict` is about streaming itself; when it is over, a segment is
closed that is not full. -/
def uploads (strict : Bool) (tl : Timeline) (s₀ : UInt64) (wal : List UInt8) : Proto UpOp UpOp.Res Uplink where
  allowed u o := match o with
    | .place f => (∀ c ∈ u.streams, c.Complete tl.segmentSize) ∧ f.flushLSN.toNat = s₀.toNat + (upBytes u.streams).length
    | .storeWALStreaming _ start =>
        (∀ c ∈ u.streams, c.Complete tl.segmentSize) ∧ start.toNat = s₀.toNat + (upBytes u.streams).length
    | .sendBlock k block => ∃ past c, u.streams = past ++ [c] ∧ k = past.length ∧ c.closed = false ∧
        (c.failed = false → c.accepted ++ block <+: wal.drop (upBytes past).length ∧
          (c.accepted ++ block).length ≤ tl.segmentSize.toNat)
    | .close k => ∃ past c, u.streams = past ++ [c] ∧ k = past.length ∧ c.closed = false ∧ c.failed = false ∧
        (strict = true → c.accepted.length = tl.segmentSize.toNat)
  next := Uplink.after

@[simp] theorem upBytes_nil : upBytes [] = [] := rfl

@[simp] theorem upBytes_append (a b : List UpStream) : upBytes (a ++ b) = upBytes a ++ upBytes b := flatMap_append

@[simp] theorem upBytes_cons (c : UpStream) (cs : List UpStream) : upBytes (c :: cs) = c.accepted ++ upBytes cs := rfl

theorem modify_last {α : Type} (past : List α) (c : α) (f : α → α) : (past ++ [c]).modify past.length f = past ++ [f c] := by
  induction past with
  | nil => rfl
  | cons x past ih => simp only [cons_append, length_cons, modify_succ_cons, ih]

variable {past : List UpStream}

theorem complete_bytes {segmentSize : UInt64} (h : ∀ c ∈ past, c.Complete segmentSize) :
    (upBytes past).length = past.length * segmentSize.toNat := by
  induction past with
  | nil => simp
  | cons c past ih =>
    have hc := (h c mem_cons_self).2.2
    have hrest := ih fun x hx => h x (mem_cons_of_mem _ hx)
    simp only [upBytes_cons, length_append, length_cons, hc, hrest, Nat.add_mul, Nat.one_mul, Nat.add_comm]

variable {P : Outside} {tl : Timeline} {s₀ : UInt64} {wal rcv : List UInt8} {strict : Bool}

/-! ## The client between two calls -/

/-- No segment is open. -/
structure Resting (tl : Timeline) (rcv : List UInt8) (d : Data) (u : Uplink) : Prop where
  handler : d.walHandler = {}
  buffer : d.buffer = []
  complete : ∀ c ∈ u.streams, c.Complete tl.segmentSize
  bytes : upBytes u.streams = rcv

/-- A segment is open, and `c` its stream. -/
structure Filling (tl : Timeline) (s₀ : UInt64) (rcv : List UInt8) (d : Data) (u : Uplink) (past : List UpStream) (c : UpStream) :
    Prop where
  streams : u.streams = past ++ [c]
  complete : ∀ x ∈ past, x.Complete tl.segmentSize
  handle : d.walHandler.stream = some past.length
  named : d.walHandler.hasWALFileOpened = true
  live : c.closed = false ∧ c.failed = false
  bytes : upBytes past ++ c.accepted ++ d.buffer = rcv
  room : c.accepted.length + d.buffer.length ≤ tl.segmentSize.toNat
  position : d.localWriteLSN.toNat = s₀.toNat + rcv.length

/-- **The client between two calls**, having received `rcv`. -/
def Ready (tl : Timeline) (s₀ : UInt64) (rcv : List UInt8) (d : Data) (u : Uplink) : Prop :=
  Resting tl rcv d u ∨ ∃ past c, Filling tl s₀ rcv d u past c ∧ c.accepted.length + d.buffer.length < tl.segmentSize.toNat

/-- A block was refused; the buffer still has it. -/
structure Stuck (d : Data) (u : Uplink) (past : List UpStream) (c : UpStream) : Prop where
  streams : u.streams = past ++ [c]
  handle : d.walHandler.stream = some past.length
  named : d.walHandler.hasWALFileOpened = true
  failed : c.closed = false ∧ c.failed = true
  buffer : d.buffer ≠ []

/-- **The client after a call that failed**: a block, a stream, the end of a stream or a name was refused. -/
inductive Broken (P : Outside) (tl : Timeline) (d : Data) (u : Uplink) : Prop
  | block (past : List UpStream) (c : UpStream) (h : Stuck d u past c)
  | stream (hr : u.refused = true) (hs : d.walHandler.stream = none) (hn : d.walHandler.hasWALFileOpened = true) (hb : d.buffer = [])
  | unclosed (hr : u.refused = true) (past : List UpStream) (c : UpStream) (hu : u.streams = past ++ [c])
      (hs : d.walHandler.stream = some past.length) (hn : d.walHandler.hasWALFileOpened = true)
      (hc : c.closed = false ∧ c.failed = false) (hb : d.buffer = [])
  | name (hp : ∃ pos e, P.walFileName pos tl.tli tl.segmentSize = .error e) (hd : d.walHandler = {})

/-- What a call leaves. -/
def Outcome (P : Outside) (tl : Timeline) (s₀ : UInt64) (rcv : List UInt8) (out : Data × Except Err Unit) (u : Uplink) : Prop :=
  match out.2 with
  | .ok _ => Ready tl s₀ rcv out.1 u
  | .error _ => Broken P tl out.1 u

/-- A call panics only when segments have no size, or after a failure. -/
def Excused (tl : Timeline) (u : Uplink) : Prop := tl.segmentSize = 0 ∨ u.refused = true ∨ ∃ c ∈ u.streams, c.failed = true

/-! ## Sending what is in the buffer -/

/-- The chunks of a block are sent in order; after a refused one, none. -/
theorem sendChunks_sat {h : TimelineHandler} (hh : h.stream = some past.length) :
    ∀ (n : ℕ) (block : List UInt8) (c : UpStream) (u : Uplink), block.length ≤ n → u.streams = past ++ [c] →
      c.closed = false → c.failed = false → c.accepted ++ block <+: wal.drop (upBytes past).length →
      (c.accepted ++ block).length ≤ tl.segmentSize.toNat →
      (h.writeChunks n block).SatIf (uploads strict tl s₀ wal) Reliable (fun r u' => match r with
        | .ok _ => u' = { u with streams := past ++ [{ c with accepted := c.accepted ++ block }] }
        | .error _ => ∃ x, u' = { u with streams := past ++ [{ c with accepted := c.accepted ++ x, failed := true }] })
        (fun _ u => Excused tl u) u := by
  intro n
  induction n with
  | zero =>
    intro block c u hn hu _ _ _ _
    have hnil : block = [] := eq_nil_of_length_eq_zero (Nat.le_zero.mp hn)
    subst hnil
    show u = _
    rw [append_nil, ← hu]
  | succ n ih =>
    intro block c u hn hu hopen hlive hpre hroom
    unfold TimelineHandler.writeChunks
    split
    · rename_i hempty
      rw [isEmpty_iff.mp hempty, append_nil, ← hu]
      exact rfl
    rename_i hne
    have hne : block ≠ [] := fun hnil => hne (isEmpty_iff.mpr hnil)
    have hpos : 0 < block.length := length_pos_iff.mpr hne
    have hsplit : block.take maxWriteChunkBytes ++ block.drop maxWriteChunkBytes = block := take_append_drop _ _
    have hchunk : c.accepted ++ block.take maxWriteChunkBytes <+: c.accepted ++ block :=
      (prefix_append_right_inj _).mpr (List.take_prefix _ _)
    rw [hh]
    refine satIf_call ⟨past, c, hu, rfl, hopen, fun _ => ⟨hchunk.trans hpre, ?_⟩⟩ fun (r : Except Err Unit) _ => ?_
    · exact Nat.le_trans hchunk.length_le hroom
    rcases r with e | _
    · refine ⟨[], ?_⟩
      simp only [uploads, Uplink.after, hu, modify_last, append_nil]
    have hlen : (block.drop maxWriteChunkBytes).length ≤ n := by
      have hmax : 0 < maxWriteChunkBytes := by decide
      rw [length_drop]
      omega
    have hrest := ih (block.drop maxWriteChunkBytes) { c with accepted := c.accepted ++ block.take maxWriteChunkBytes }
      { u with streams := past ++ [{ c with accepted := c.accepted ++ block.take maxWriteChunkBytes }] } hlen rfl hopen hlive
      (by simpa only [append_assoc, hsplit] using hpre) (by simpa only [append_assoc, hsplit] using hroom)
    have hnext : (uploads strict tl s₀ wal).next u (.sendBlock past.length (block.take maxWriteChunkBytes)) (Except.ok ()) =
        { u with streams := past ++ [{ c with accepted := c.accepted ++ block.take maxWriteChunkBytes }] } := by
      simp only [uploads, Uplink.after, hu, modify_last]
    rw [hnext]
    refine satIf_mono (fun _ _ ha => ha) rfl hrest ?_ fun _ _ hx => hx
    intro r u' hr
    cases r with
    | ok _ => simpa only [append_assoc, hsplit] using hr
    | error e =>
      obtain ⟨x, hx⟩ := hr
      exact ⟨block.take maxWriteChunkBytes ++ x, by simpa only [append_assoc] using hx⟩

theorem prefix_drop {α : Type} {a b w : List α} (h : a ++ b <+: w) : b <+: w.drop a.length := by
  obtain ⟨t, rfl⟩ := h
  rw [append_assoc, drop_left]
  exact prefix_append b t

variable {u : Uplink} {c : UpStream} {d : Data}

/-- **`Flush`** sends what is in the buffer. -/
theorem flushData_sat (h : Filling tl s₀ rcv d u past c) (hpre : rcv <+: wal) :
    d.flush.SatIf (uploads strict tl s₀ wal) Reliable (fun out u' => match out.2 with
      | .ok _ => out.1 = { d with buffer := [] } ∧ u'.refused = u.refused ∧
          Filling tl s₀ rcv out.1 u' past { c with accepted := c.accepted ++ d.buffer }
      | .error _ => ∃ c', Stuck out.1 u' past c') (fun _ u => Excused tl u) u := by
  unfold Data.flush
  split
  · rename_i hskip
    have hnil : d.buffer = [] := hskip.resolve_left fun hno => by rw [h.named] at hno; cases hno
    have hd : d = { d with buffer := [] } := by rw [← hnil]
    refine ⟨hd, rfl, ?_⟩
    rw [hnil, append_nil]
    exact h
  · rename_i hflush
    have hne : d.buffer ≠ [] := fun hnil => hflush (.inr hnil)
    have hbytes : upBytes past ++ (c.accepted ++ d.buffer) = rcv := by rw [← append_assoc]; exact h.bytes
    have hroom : (c.accepted ++ d.buffer).length ≤ tl.segmentSize.toNat := by rw [length_append]; exact h.room
    refine satIf_bind (sendChunks_sat h.handle d.buffer.length d.buffer c u (Nat.le_refl _) h.streams h.live.1 h.live.2
      (prefix_drop (hbytes ▸ hpre)) hroom) ?_
    intro r u' hr
    rcases r with e | _
    · obtain ⟨x, rfl⟩ := hr
      exact ⟨_, rfl, h.handle, h.named, ⟨h.live.1, rfl⟩, hne⟩
    have hr : u' = _ := hr
    subst hr
    refine ⟨rfl, rfl, ?_⟩
    exact {
      streams := rfl
      complete := h.complete
      handle := h.handle
      named := h.named
      live := h.live
      bytes := by simpa only [append_nil] using hbytes
      room := by simpa only [length_nil, Nat.add_zero] using hroom
      position := h.position }

theorem flush_stuck (h : Stuck d u past c) :
    d.flush.SatIf (uploads strict tl s₀ wal) Reliable (fun out u' => out.1 = d ∧ u' = u ∧ ∃ e, out.2 = .error e)
      (fun _ u => Excused tl u) u := by
  have hget : u.streams[past.length]? = some c := by rw [h.streams]; simp
  have hsame : (uploads strict tl s₀ wal).next u (.sendBlock past.length (d.buffer.take maxWriteChunkBytes))
      (Except.error (Err.new "") : Except Err Unit) = u := by
    have hc : ({ c with failed := true } : UpStream) = c := by rw [← h.failed.2]
    simp only [uploads, Uplink.after, h.streams, modify_last, hc]
    rw [← h.streams]
  unfold Data.flush
  rw [if_neg (by simp [h.named, h.buffer])]
  refine satIf_bind (Q := fun r u' => u' = u ∧ ∃ e, r = .error e) ?_ ?_
  · unfold TimelineHandler.write
    obtain ⟨n, hn⟩ : ∃ n, d.buffer.length = n + 1 := Nat.exists_eq_succ_of_ne_zero (by simpa using h.buffer)
    rw [hn]
    unfold TimelineHandler.writeChunks
    rw [if_neg (by simpa using h.buffer), h.handle]
    refine satIf_call ⟨past, c, h.streams, rfl, h.failed.1, fun hno => ?_⟩ fun (r : Except Err Unit) hr => ?_
    · rw [h.failed.2] at hno
      cases hno
    cases r with
    | ok _ =>
      have hno : c.failed = false := hr rfl c hget
      rw [h.failed.2] at hno
      cases hno
    | error e => exact ⟨hsame, e, rfl⟩
  · rintro r u' ⟨rfl, e, rfl⟩
    exact ⟨rfl, rfl, _, rfl⟩

/-! ## Closing and opening a segment -/

/-- **`CloseCurrentWAL`** of a segment: all of it is sent, and the stream is closed. -/
theorem closeCurrentWAL_filling (h : Filling tl s₀ rcv d u past c)
    (hpre : rcv <+: wal) (hfull : strict = true → c.accepted.length + d.buffer.length = tl.segmentSize.toNat) :
    d.closeCurrentWAL.SatIf (uploads strict tl s₀ wal) Reliable (fun out u' => match out.2 with
      | .ok _ => out.1.walHandler = {} ∧ out.1.buffer = [] ∧ u'.refused = u.refused ∧
          u'.streams = past ++ [{ c with accepted := c.accepted ++ d.buffer, closed := true }]
      | .error _ => Broken P tl out.1 u') (fun _ u => Excused tl u) u := by
  unfold Data.closeCurrentWAL
  rw [if_neg (by simp [h.named])]
  refine satIf_bind (flushData_sat h hpre) ?_
  rintro ⟨d', r⟩ u' hflush
  rcases r with e | _
  · obtain ⟨c', hstuck⟩ := hflush
    exact Broken.block past c' hstuck
  obtain ⟨rfl, hrefused, hfill⟩ := hflush
  unfold TimelineHandler.closeWAL
  simp only [h.handle]
  refine satIf_call ⟨past, _, hfill.streams, rfl, hfill.live.1, hfill.live.2, fun hs => ?_⟩ fun (r : Except Err Unit) _ => ?_
  · simpa only [length_append] using hfull hs
  rcases r with e | _
  · exact Broken.unclosed rfl past _ hfill.streams h.handle h.named hfill.live rfl
  refine ⟨rfl, rfl, hrefused, ?_⟩
  simp only [uploads, Uplink.after, hfill.streams, modify_last]

theorem closeCurrentWAL_full (h : Filling tl s₀ rcv d u past c)
    (hpre : rcv <+: wal) (hfull : c.accepted.length + d.buffer.length = tl.segmentSize.toNat) :
    d.closeCurrentWAL.SatIf (uploads strict tl s₀ wal) Reliable (fun out u' => match out.2 with
      | .ok _ => Resting tl rcv out.1 u'
      | .error _ => Broken P tl out.1 u') (fun _ u => Excused tl u) u := by
  refine satIf_mono (fun _ _ ha => ha) rfl (closeCurrentWAL_filling (P := P) h hpre fun _ => hfull) ?_ fun _ _ hx => hx
  rintro ⟨d', r⟩ u' hout
  rcases r with e | _
  · exact hout
  obtain ⟨hhandler, hbuffer, -, hstreams⟩ := hout
  refine ⟨hhandler, hbuffer, ?_, ?_⟩
  · intro x hx
    rw [hstreams] at hx
    rcases mem_append.mp hx with hx | hx
    · exact h.complete x hx
    · obtain rfl := mem_singleton.mp hx
      exact ⟨rfl, h.live.2, by rw [length_append]; exact hfull⟩
  · rw [hstreams, upBytes_append, upBytes_cons, upBytes_nil, append_nil, ← append_assoc]
    exact h.bytes

theorem closeCurrentWAL_stuck (h : Stuck d u past c) :
    d.closeCurrentWAL.SatIf (uploads strict tl s₀ wal) Reliable (fun out u' => out.1 = d ∧ u' = u ∧ ∃ e, out.2 = .error e)
      (fun _ u => Excused tl u) u := by
  unfold Data.closeCurrentWAL
  rw [if_neg (by simp [h.named])]
  refine satIf_bind (flush_stuck h) ?_
  rintro ⟨d', r⟩ u' ⟨rfl, rfl, e, rfl⟩
  exact ⟨rfl, rfl, _, rfl⟩

theorem ensureOpen_sat (hname : ∀ pos name, P.walFileName pos tl.tli tl.segmentSize = .ok name → name ≠ []) (hseg : 0 < tl.segmentSize.toNat) (h : Ready tl s₀ rcv d u) {pos : UInt64} (hpos : pos.toNat = s₀.toNat + rcv.length) :
    (d.ensureOpen P tl pos).SatIf (uploads strict tl s₀ wal) Reliable (fun out u' => match out.2 with
      | .ok _ => ∃ past c, Filling tl s₀ rcv out.1 u' past c ∧ c.accepted.length + out.1.buffer.length < tl.segmentSize.toNat
      | .error _ => Broken P tl out.1 u') (fun _ u => Excused tl u) u := by
  unfold Data.ensureOpen
  rcases h with hrest | ⟨past, c, hfill, hroom⟩
  · have hclosed : d.walHandler.hasWALFileOpened = false := by rw [hrest.handler]; rfl
    rw [if_pos hclosed]
    unfold Data.openWALPos TimelineHandler.openWAL
    rcases hn : P.walFileName pos tl.tli tl.segmentSize with e | name
    · exact Broken.name ⟨pos, e, hn⟩ hrest.handler
    have hstart : pos.toNat = s₀.toNat + (upBytes u.streams).length := by rw [hrest.bytes]; exact hpos
    have hopened : (name != []) = true := bne_iff_ne.mpr (hname pos name hn)
    refine satIf_call ⟨hrest.complete, hstart⟩ fun _ _ => satIf_call ⟨hrest.complete, hstart⟩ fun (r : Except Err ℕ) hr => ?_
    rcases r with e | k
    · exact Broken.stream rfl (by rw [hrest.handler]) hopened hrest.buffer
    have hk : k = u.streams.length := hr k rfl
    subst hk
    refine ⟨u.streams, { start := pos }, ?_, by simpa [hrest.buffer] using hseg⟩
    exact {
      streams := rfl
      complete := hrest.complete
      handle := rfl
      named := hopened
      live := ⟨rfl, rfl⟩
      bytes := by simp [hrest.bytes, hrest.buffer]
      room := by simp [hrest.buffer]
      position := hpos }
  · rw [if_neg (by simp [hfill.named])]
    exact ⟨past, c, hfill, hroom⟩

/-! ## Data -/

theorem bytesToWrite_toNat {off : UInt64} {len : ℕ} (hoff : off.toNat < tl.segmentSize.toNat) (hfit : off.toNat + len < size) :
    (Data.bytesToWrite tl off (ofNat len)).toNat = min len (tl.segmentSize.toNat - off.toNat) := by
  have hsize : size = 2 ^ 64 := rfl
  have hlen : (ofNat len).toNat = len := UInt64.toNat_ofNat_of_lt' (by omega)
  have hsum : (off + ofNat len).toNat = off.toNat + len := by
    rw [UInt64.toNat_add, hlen, Nat.mod_eq_of_lt (by omega)]
  unfold Data.bytesToWrite
  split
  · rename_i hgt
    have hgt : tl.segmentSize.toNat < off.toNat + len := by rw [← hsum]; exact lt_iff_toNat_lt.mp hgt
    rw [UInt64.toNat_sub_of_le _ _ (UInt64.le_iff_toNat_le.mpr (by omega))]
    omega
  · rename_i hle
    have hle : off.toNat + len ≤ tl.segmentSize.toNat := by
      rw [← hsum]
      exact Nat.le_of_not_lt fun hlt => hle (lt_iff_toNat_lt.mpr hlt)
    omega

theorem Filling.offset (h : Filling tl s₀ rcv d u past c)
    (hroom : c.accepted.length + d.buffer.length < tl.segmentSize.toNat) (hs₀ : s₀.toNat % tl.segmentSize.toNat = 0) :
    (s₀.toNat + rcv.length) % tl.segmentSize.toNat = c.accepted.length + d.buffer.length := by
  have hlen : rcv.length = past.length * tl.segmentSize.toNat + (c.accepted.length + d.buffer.length) := by
    rw [← h.bytes, length_append, length_append, complete_bytes h.complete, Nat.add_assoc]
  rw [hlen, Nat.add_mod, hs₀, Nat.zero_add, Nat.mod_mod, Nat.add_comm, Nat.add_mul_mod_self_right, Nat.mod_eq_of_lt hroom]

theorem Filling.write (h : Filling tl s₀ rcv d u past c) {bs : List UInt8}
    (hroom : c.accepted.length + d.buffer.length + bs.length ≤ tl.segmentSize.toNat)
    (hfit : s₀.toNat + (rcv ++ bs).length < size) : Filling tl s₀ (rcv ++ bs) (d.writeToWALFile bs) u past c := by
  have hsize : size = 2 ^ 64 := rfl
  have hlen : (ofNat bs.length).toNat = bs.length := by
    rw [length_append] at hfit
    exact UInt64.toNat_ofNat_of_lt' (by omega)
  refine { h with bytes := ?_, room := ?_, position := ?_ }
  · show upBytes past ++ c.accepted ++ (d.buffer ++ bs) = rcv ++ bs
    rw [← h.bytes]
    simp only [append_assoc]
  · show c.accepted.length + (d.buffer ++ bs).length ≤ _
    rw [length_append]
    omega
  · show (d.localWriteLSN + ofNat bs.length).toNat = _
    rw [length_append] at hfit ⊢
    rw [UInt64.toNat_add, h.position, hlen, Nat.mod_eq_of_lt (by omega)]
    omega

section Message

variable (hname : ∀ pos name, P.walFileName pos tl.tli tl.segmentSize = .ok name → name ≠ []) (hseg : 0 < tl.segmentSize.toNat)
  (hs₀ : s₀.toNat % tl.segmentSize.toNat = 0)

include hname hseg hs₀

/-- **The loop of `ProcessWALData`**, with what was received and what is left of the message. -/
theorem processLoop_sat : ∀ (n : ℕ) (d : Data) (data rcv : List UInt8) (pos off : UInt64) (u : Uplink), data.length ≤ n →
    Ready tl s₀ rcv d u → pos.toNat = s₀.toNat + rcv.length → off.toNat = pos.toNat % tl.segmentSize.toNat → rcv ++ data <+: wal →
    s₀.toNat + (rcv ++ data).length < size →
    (Data.processLoop P tl n d data pos off).SatIf (uploads strict tl s₀ wal) Reliable (Outcome P tl s₀ (rcv ++ data))
      (fun _ u => Excused tl u) u := by
  intro n
  induction n with
  | zero =>
    intro d data rcv pos off u hn hready _ _ _ _
    have hnil : data = [] := eq_nil_of_length_eq_zero (Nat.le_zero.mp hn)
    subst hnil
    rw [append_nil]
    exact hready
  | succ n ih =>
    intro d data rcv pos off u hn hready hpos hoff hpre hfit
    unfold Data.processLoop
    split
    · rename_i hnil
      subst hnil
      rw [append_nil]
      exact hready
    rename_i hne
    have hlen : 0 < data.length := length_pos_iff.mpr hne
    have hsize : size = 2 ^ 64 := rfl
    have hofflt : off.toNat < tl.segmentSize.toNat := by rw [hoff]; exact Nat.mod_lt _ hseg
    have hoffle : off.toNat ≤ pos.toNat := by rw [hoff]; exact Nat.mod_le _ _
    have hfit' : s₀.toNat + (rcv.length + data.length) < size := by rw [← length_append]; exact hfit
    -- what goes to the segment that is open, and what is left after it
    set size : UInt64 := Data.bytesToWrite tl off (ofNat data.length) with hdef
    have hsz : size.toNat = min data.length (tl.segmentSize.toNat - off.toNat) := bytesToWrite_toNat hofflt (by omega)
    have htake : (data.take size.toNat).length = size.toNat := by rw [length_take]; omega
    have hsplit : rcv ++ data.take size.toNat ++ data.drop size.toNat = rcv ++ data := by
      rw [append_assoc, take_append_drop]
    have hrcv : (rcv ++ data.take size.toNat).length = rcv.length + size.toNat := by rw [length_append, htake]
    have hpos' : (pos + size).toNat = s₀.toNat + (rcv ++ data.take size.toNat).length := by
      rw [UInt64.toNat_add, Nat.mod_eq_of_lt (by omega), hrcv]
      omega
    have hleft : (data.drop size.toNat).length ≤ n := by rw [length_drop]; omega
    refine satIf_bind (ensureOpen_sat hname hseg hready hpos) ?_
    rintro ⟨d₁, r⟩ u₁ hopen
    rcases r with e | _
    · exact hopen
    obtain ⟨past, c, hfill, hroom⟩ := hopen
    dsimp only at hfill hroom
    have hused : c.accepted.length + d₁.buffer.length = off.toNat := by rw [hoff, hpos, hfill.offset hroom hs₀]
    have hfill' : Filling tl s₀ (rcv ++ data.take size.toNat) (d₁.writeToWALFile (data.take size.toNat)) u₁ past c :=
      hfill.write (by omega) (by omega)
    have hfilled : c.accepted.length + (d₁.writeToWALFile (data.take size.toNat)).buffer.length = off.toNat + size.toNat := by
      show c.accepted.length + (d₁.buffer ++ data.take size.toNat).length = _
      rw [length_append]
      omega
    have hpre' : rcv ++ data.take size.toNat <+: wal := by
      rw [← hsplit] at hpre
      exact (prefix_append _ _).trans hpre
    have hmod : (s₀.toNat + (rcv ++ data.take size.toNat).length) % tl.segmentSize.toNat =
        (off.toNat + size.toNat) % tl.segmentSize.toNat := by
      rw [hrcv, ← Nat.add_assoc, ← hpos, ← Nat.mod_add_mod, ← hoff]
    have hend : (d₁.writeToWALFile (data.take size.toNat)).localWriteLSN % tl.segmentSize = 0 ↔
        off.toNat + size.toNat = tl.segmentSize.toNat := by
      rw [← UInt64.toNat_inj, UInt64.toNat_mod, hfill'.position, hmod]
      show (off.toNat + size.toNat) % tl.segmentSize.toNat = 0 ↔ _
      constructor
      · intro hz
        by_contra hne
        rw [Nat.mod_eq_of_lt (by omega)] at hz
        omega
      · intro heq
        rw [heq, Nat.mod_self]
    dsimp only
    split
    · rename_i hz
      have hfull := hend.mp hz
      refine satIf_bind (closeCurrentWAL_full (P := P) hfill' hpre' (by omega)) ?_
      rintro ⟨d₂, r⟩ u₂ hclose
      rcases r with e | _
      · exact hclose
      have hnext := ih d₂ (data.drop size.toNat) (rcv ++ data.take size.toNat) (pos + size) 0 u₂ hleft (.inl hclose) hpos'
        (by rw [hpos', hmod, hfull, Nat.mod_self]; rfl) (by rw [hsplit]; exact hpre) (by rw [hsplit]; exact hfit)
      rwa [hsplit] at hnext
    · rename_i hz
      have hlt : off.toNat + size.toNat < tl.segmentSize.toNat := by
        have := hend.not.mp hz
        omega
      have hoff' : (off + size).toNat = (pos + size).toNat % tl.segmentSize.toNat := by
        rw [hpos', hmod, UInt64.toNat_add, Nat.mod_eq_of_lt (by omega), Nat.mod_eq_of_lt hlt]
      have hnext := ih (d₁.writeToWALFile (data.take size.toNat)) (data.drop size.toNat) (rcv ++ data.take size.toNat) (pos + size)
        (off + size) u₁ hleft (.inr ⟨past, c, hfill', by omega⟩) hpos' hoff' (by rw [hsplit]; exact hpre)
        (by rw [hsplit]; exact hfit)
      rwa [hsplit] at hnext

/-- **`ProcessWALData`** for the data that comes next. -/
theorem processWALData_sat {d : Data} {u : Uplink} (h : Ready tl s₀ rcv d u) {data : List UInt8} {pos : UInt64}
    (hpos : pos.toNat = s₀.toNat + rcv.length) (hpre : rcv ++ data <+: wal) (hfit : s₀.toNat + (rcv ++ data).length < size) :
    (d.processWALData P tl data pos).SatIf (uploads strict tl s₀ wal) Reliable (Outcome P tl s₀ (rcv ++ data))
      (fun _ u => Excused tl u) u := by
  have hloop : (Data.processLoop P tl data.length d data pos (pos % tl.segmentSize)).SatIf (uploads strict tl s₀ wal) Reliable
      (Outcome P tl s₀ (rcv ++ data)) (fun _ u => Excused tl u) u :=
    processLoop_sat hname hseg hs₀ data.length d data rcv pos (pos % tl.segmentSize) u (Nat.le_refl _) h hpos (UInt64.toNat_mod _ _) hpre hfit
  have hne : tl.segmentSize ≠ 0 := fun hz => by rw [hz] at hseg; exact Nat.lt_irrefl 0 hseg
  unfold Data.processWALData
  rw [if_neg hne]
  rcases h with hrest | ⟨past, c, hfill, hroom⟩
  · -- the next position is the start of a segment
    have hzero : pos % tl.segmentSize = 0 := by
      rw [← UInt64.toNat_inj, UInt64.toNat_mod, hpos, ← hrest.bytes, complete_bytes hrest.complete, Nat.add_mul_mod_self_right]
      exact hs₀
    rw [if_pos (by rw [hrest.handler]; rfl), if_neg (fun hno => hno hzero)]
    exact hloop
  · have hsame : d.localWriteLSN % tl.segmentSize = pos % tl.segmentSize := by
      rw [← UInt64.toNat_inj, UInt64.toNat_mod, UInt64.toNat_mod, hfill.position, hpos]
    rw [if_neg (by simp [hfill.named]), if_neg (fun hno => hno hsame)]
    exact hloop

end Message

theorem flush_ready (h : Ready tl s₀ rcv d u) (hpre : rcv <+: wal) :
    d.flush.SatIf (uploads strict tl s₀ wal) Reliable
      (fun out u' => Outcome P tl s₀ rcv out u' ∧ (Ready tl s₀ rcv out.1 u' ∧ out.1.buffer = [] ∨ ∃ past c, Stuck out.1 u' past c))
      (fun _ u => Excused tl u) u := by
  rcases h with hrest | ⟨past, c, hfill, hroom⟩
  · unfold Data.flush
    rw [if_pos (.inr hrest.buffer)]
    exact ⟨.inl hrest, .inl ⟨.inl hrest, hrest.buffer⟩⟩
  refine satIf_mono (fun _ _ ha => ha) rfl (flushData_sat hfill hpre) ?_ fun _ _ hx => hx
  rintro ⟨d', r⟩ u' hout
  rcases r with e | _
  · obtain ⟨c', hstuck⟩ := hout
    exact ⟨Broken.block past c' hstuck, .inr ⟨past, c', hstuck⟩⟩
  obtain ⟨rfl, -, hfill'⟩ := hout
  have hready : Ready tl s₀ rcv { d with buffer := [] } u' := by
    refine .inr ⟨past, _, hfill', ?_⟩
    simpa only [length_append, length_nil, Nat.add_zero] using hroom
  exact ⟨hready, .inl ⟨hready, rfl⟩⟩

/-! ## After a failure -/

theorem processLoop_stuck :
    ∀ (n : ℕ) (d : Data) (data : List UInt8) (pos off : UInt64), Stuck d u past c →
      (Data.processLoop P tl n d data pos off).SatIf (uploads strict tl s₀ wal) Reliable (fun out u' => u' = u ∧ Stuck out.1 u past c)
        (fun _ u => Excused tl u) u := by
  intro n
  induction n with
  | zero =>
    intro d data pos off h
    unfold Data.processLoop
    split
    · exact ⟨rfl, h⟩
    · exact .inr (.inr ⟨c, by rw [h.streams]; simp, h.failed.2⟩)
  | succ n ih =>
    intro d data pos off h
    unfold Data.processLoop
    split
    · exact ⟨rfl, h⟩
    unfold Data.ensureOpen
    rw [if_neg (by simp [h.named])]
    simp only [Prog.ret_bind]
    have hwrite : ∀ bs, Stuck (d.writeToWALFile bs) u past c := fun bs =>
      { h with buffer := fun hnil => h.buffer (append_eq_nil_iff.mp hnil).1 }
    split
    · refine satIf_bind (closeCurrentWAL_stuck (hwrite _)) ?_
      rintro ⟨d', r⟩ u' ⟨rfl, rfl, e, rfl⟩
      exact ⟨rfl, hwrite _⟩
    · exact ih _ _ _ _ (hwrite _)

theorem processWALData_stuck (h : Stuck d u past c) (data : List UInt8)
    (pos : UInt64) : (d.processWALData P tl data pos).SatIf (uploads strict tl s₀ wal) Reliable
      (fun out u' => u' = u ∧ Stuck out.1 u past c) (fun _ u => Excused tl u) u := by
  unfold Data.processWALData
  split
  · rename_i hz
    exact .inl hz
  rw [if_neg (by simp [h.named])]
  split
  · exact ⟨rfl, h⟩
  · exact processLoop_stuck _ _ _ _ _ h

/-! ## Histories -/

def WalCall.bytes : WalCall → List UInt8
  | .data bytes _ => bytes
  | _ => []

def received (cs : List WalCall) : List UInt8 := cs.flatMap WalCall.bytes

/-- Messages that follow each other from a position on, with calls of `Flush` between them. -/
def Contiguous : UInt64 → List WalCall → Prop
  | _, [] => True
  | p, .data bytes blockpos :: cs => blockpos = p ∧ Contiguous (p + UInt64.ofNat bytes.length) cs
  | p, .flush :: cs => Contiguous p cs
  | _, .close :: _ => False

/-- The client between two calls, whatever they returned; `flushed` after one of `Flush`. -/
def Paused (tl : Timeline) (s₀ : UInt64) (rcv : List UInt8) (flushed : Prop) (d : Data) (u : Uplink) : Prop :=
  (Ready tl s₀ rcv d u ∧ (flushed → d.buffer = [])) ∨ ∃ past c, Stuck d u past c

theorem steady_reliable (u : Uplink) (o : UpOp) (r : o.Res) (hu : u.refused = false) (h : Steady u o r) :
    Reliable u o r ∧ (u.after o r).refused = false := by
  cases o with
  | place f => exact ⟨trivial, hu⟩
  | storeWALStreaming name start =>
    obtain ⟨hr, k, hk⟩ := h
    have hk : r = (Except.ok k : Except Err ℕ) := hk
    subst hk
    exact ⟨hr, hu⟩
  | sendBlock k block =>
    refine ⟨h, ?_⟩
    cases (r : Except Err Unit) with
    | ok _ => exact hu
    | error e => exact hu
  | close k =>
    have h : r = (Except.ok () : Except Err Unit) := h
    subst h
    exact ⟨trivial, hu⟩

theorem contiguous_next {p : UInt64} {c : WalCall} {cs : List WalCall} (hcont : Contiguous p (c :: cs))
    (hp : p.toNat = s₀.toNat + rcv.length) (hfit : s₀.toNat + (rcv ++ c.bytes).length < size) :
    ∃ p', p'.toNat = s₀.toNat + (rcv ++ c.bytes).length ∧ Contiguous p' cs := by
  cases c with
  | close => exact hcont.elim
  | flush => exact ⟨p, hp.trans (by rw [show rcv ++ WalCall.flush.bytes = rcv from append_nil rcv]), hcont⟩
  | data bytes pos =>
    refine ⟨p + ofNat bytes.length, ?_, hcont.2⟩
    have hsize : size = 2 ^ 64 := rfl
    have hlen : (rcv ++ bytes).length = rcv.length + bytes.length := length_append
    have hfit : s₀.toNat + (rcv ++ bytes).length < size := hfit
    show _ = s₀.toNat + (rcv ++ bytes).length
    rw [UInt64.toNat_add, UInt64.toNat_ofNat_of_lt' (by omega), hp, Nat.mod_eq_of_lt (by omega)]
    omega

section Calls

variable (hname : ∀ pos, ∃ name, P.walFileName pos tl.tli tl.segmentSize = .ok name ∧ name ≠ [])

include hname

theorem names_ne_nil (pos : UInt64) (name : Name) (h : P.walFileName pos tl.tli tl.segmentSize = .ok name) : name ≠ [] := by
  obtain ⟨name', hn, hne⟩ := hname pos
  cases hn.symm.trans h
  exact hne

theorem broken_steady {d : Data} {u : Uplink} (h : Broken P tl d u) (hu : u.refused = false) : ∃ past c, Stuck d u past c := by
  cases h with
  | block past c h => exact ⟨past, c, h⟩
  | stream hr => rw [hu] at hr; cases hr
  | unclosed hr => rw [hu] at hr; cases hr
  | name hp =>
    obtain ⟨pos, e, hp⟩ := hp
    obtain ⟨name, hn, -⟩ := hname pos
    cases hn.symm.trans hp

variable (hseg : 0 < tl.segmentSize.toNat) (hs₀ : s₀.toNat % tl.segmentSize.toNat = 0)

include hseg hs₀

/-- **A call** of a history, after others. -/
theorem call_sat {d : Data} {u : Uplink} {flushed : Prop} (hu : u.refused = false) (h : Paused tl s₀ rcv flushed d u) {p : UInt64}
    (hp : p.toNat = s₀.toNat + rcv.length) {c : WalCall} {cs : List WalCall} (hcont : Contiguous p (c :: cs))
    (hpre : rcv ++ c.bytes <+: wal) (hfit : s₀.toNat + (rcv ++ c.bytes).length < size) :
    (c.run P tl d).SatIf (uploads strict tl s₀ wal) Steady
      (fun out u' => Paused tl s₀ (rcv ++ c.bytes) (c = .flush) out.1 u' ∧ u'.refused = false) (fun _ u => Excused tl u) u := by
  have hcall : (c.run P tl d).SatIf (uploads strict tl s₀ wal) Reliable
      (fun out u' => Paused tl s₀ (rcv ++ c.bytes) (c = .flush) out.1 u' ∨ Broken P tl out.1 u') (fun _ u => Excused tl u) u := by
    cases c with
    | close => exact hcont.elim
    | data bytes pos =>
      obtain ⟨rfl, -⟩ := hcont
      rcases h with ⟨hready, -⟩ | ⟨past, c, hstuck⟩
      · refine satIf_mono (fun _ _ ha => ha) rfl (processWALData_sat (names_ne_nil hname) hseg hs₀ hready hp hpre hfit) ?_
          fun _ _ hx => hx
        rintro ⟨d', r⟩ u' hout
        cases r with
        | ok _ => exact .inl (.inl ⟨hout, nofun⟩)
        | error e => exact .inr hout
      · refine satIf_mono (fun _ _ ha => ha) rfl (processWALData_stuck hstuck bytes pos) ?_ fun _ _ hx => hx
        rintro out u' ⟨rfl, hstuck'⟩
        exact .inl (.inr ⟨past, c, hstuck'⟩)
    | flush =>
      have hnil : rcv ++ WalCall.flush.bytes = rcv := append_nil rcv
      rw [hnil] at hpre ⊢
      rcases h with ⟨hready, -⟩ | ⟨past, c, hstuck⟩
      · refine satIf_mono (fun _ _ ha => ha) rfl (flush_ready (P := P) hready hpre) ?_ fun _ _ hx => hx
        rintro out u' ⟨-, ⟨hready', hbuf⟩ | hstuck⟩
        · exact .inl (.inl ⟨hready', fun _ => hbuf⟩)
        · exact .inl (.inr hstuck)
      · refine satIf_mono (fun _ _ ha => ha) rfl (flush_stuck hstuck) ?_ fun _ _ hx => hx
        rintro out u' ⟨heq, rfl, -⟩
        exact .inl (.inr ⟨past, c, heq ▸ hstuck⟩)
  refine satIf_mono (fun _ _ ha => ha) rfl (hcall.restrict (fun ph o r hi hr => steady_reliable ph o r hi hr) hu) ?_
    fun _ _ hx => hx
  rintro out u' ⟨hpaused | hbroken, hu'⟩
  · exact ⟨hpaused, hu'⟩
  · exact ⟨.inr (broken_steady hname hbroken hu'), hu'⟩

/-- **Every history**: what was received is in the streams and the buffer, or a block was refused. -/
theorem calls_sat : ∀ (cs : List WalCall) (d : Data) (u : Uplink) (rcv : List UInt8) (flushed : Prop) (p : UInt64), u.refused = false →
    Paused tl s₀ rcv flushed d u → p.toNat = s₀.toNat + rcv.length → Contiguous p cs → rcv ++ received cs <+: wal →
    s₀.toNat + (rcv ++ received cs).length < size →
    (Data.calls P tl d cs).SatIf (uploads strict tl s₀ wal) Steady
      (fun d' u' => Paused tl s₀ (rcv ++ received cs) (cs.getLast? = some .flush ∨ (cs = [] ∧ flushed)) d' u')
      (fun _ u => Excused tl u) u := by
  intro cs
  induction cs with
  | nil =>
    intro d u rcv flushed p _ hpaused _ _ _ _
    have hnil : rcv ++ received [] = rcv := append_nil rcv
    rw [hnil]
    exact hpaused.imp (fun hr => ⟨hr.1, fun hf => hr.2 (by simpa using hf)⟩) id
  | cons c cs ih =>
    intro d u rcv flushed p hu hpaused hp hcont hpre hfit
    have hsplit : rcv ++ received (c :: cs) = rcv ++ c.bytes ++ received cs := by
      rw [received, flatMap_cons, ← append_assoc]
      rfl
    rw [hsplit] at hpre hfit ⊢
    have hlen : (rcv ++ c.bytes ++ received cs).length = (rcv ++ c.bytes).length + (received cs).length := length_append
    have hfit' : s₀.toNat + (rcv ++ c.bytes).length < size := by omega
    refine satIf_bind (call_sat hname hseg hs₀ hu hpaused hp hcont ((prefix_append _ _).trans hpre) hfit') ?_
    rintro out u' ⟨hpaused', hu'⟩
    -- the next call is for the position after this one
    obtain ⟨p', hp', hcont'⟩ := contiguous_next hcont hp hfit'
    refine satIf_mono (fun _ _ ha => ha) rfl (ih out.1 u' (rcv ++ c.bytes) (c = .flush) p' hu' hpaused' hp' hcont' hpre hfit) ?_
      fun _ _ hx => hx
    intro d' u'' hpaused''
    refine hpaused''.imp (fun hr => ⟨hr.1, fun hf => hr.2 ?_⟩) id
    cases cs with
    | nil => exact .inr ⟨rfl, by simpa using hf⟩
    | cons c' cs => exact .inl (by simpa using hf)

end Calls

/-! ## What the streams took -/

/-- **WAL cut into segments**: the streams start one after the other at the ends of segments, and take
the bytes from there on, up to a segment. -/
structure Cut (strict : Bool) (tl : Timeline) (s₀ : UInt64) (wal : List UInt8) (streams : List UpStream) : Prop where
  laid : ∀ i c, streams[i]? = some c → c.start.toNat = s₀.toNat + i * tl.segmentSize.toNat ∧
    c.accepted <+: wal.drop (i * tl.segmentSize.toNat) ∧ c.accepted.length ≤ tl.segmentSize.toNat ∧
    (strict = true → c.closed = true → c.accepted.length = tl.segmentSize.toNat)
  complete : ∀ i c, streams[i]? = some c → i + 1 < streams.length → c.Complete tl.segmentSize

theorem cut_nil : Cut strict tl s₀ wal [] := ⟨fun i c h => by simp at h, fun i c h => by simp at h⟩

theorem getElem?_snoc {α : Type} {past : List α} {c x : α} {i : ℕ} :
    (past ++ [c])[i]? = some x ↔ past[i]? = some x ∨ (i = past.length ∧ c = x) := by
  rcases Nat.lt_trichotomy i past.length with hlt | rfl | hgt
  · simp [getElem?_append_left hlt, Nat.ne_of_lt hlt]
  · simp
  · have hnone : past[i]? = none := getElem?_eq_none (Nat.le_of_lt hgt)
    have hnone' : (past ++ [c])[i]? = none := getElem?_eq_none (by simp; omega)
    simp [hnone, hnone', Nat.ne_of_gt hgt]

theorem Cut.earlier {past : List UpStream} {c : UpStream} (h : Cut strict tl s₀ wal (past ++ [c])) : ∀ x ∈ past, x.Complete tl.segmentSize := by
  intro x hx
  obtain ⟨i, hi, hx⟩ := mem_iff_getElem.mp hx
  have hget : past[i]? = some x := by rw [getElem?_eq_getElem hi, hx]
  exact h.complete i x (getElem?_snoc.mpr (.inl hget)) (by simpa using hi)

theorem Cut.set_last {c c' : UpStream} (h : Cut strict tl s₀ wal (past ++ [c])) (hstart : c'.start = c.start)
    (hpre : c'.accepted <+: wal.drop (past.length * tl.segmentSize.toNat)) (hlen : c'.accepted.length ≤ tl.segmentSize.toNat)
    (hclosed : strict = true → c'.closed = true → c'.accepted.length = tl.segmentSize.toNat) : Cut strict tl s₀ wal (past ++ [c']) where
  laid i x hx := by
    rcases getElem?_snoc.mp hx with hx | ⟨rfl, rfl⟩
    · exact h.laid i x (getElem?_snoc.mpr (.inl hx))
    · rw [hstart]
      exact ⟨(h.laid past.length c (getElem?_snoc.mpr (.inr ⟨rfl, rfl⟩))).1, hpre, hlen, hclosed⟩
  complete i x hx hi := by
    rcases getElem?_snoc.mp hx with hx | ⟨rfl, rfl⟩
    · exact h.complete i x (getElem?_snoc.mpr (.inl hx)) (by simpa using hi)
    · simp at hi

/-- **Every operation the client issues keeps the segments**, whatever a reliable connection answers. -/
theorem cut_step {u : Uplink} {o : UpOp} {r : o.Res} (h : Cut strict tl s₀ wal u.streams) (ha : (uploads strict tl s₀ wal).allowed u o)
    (hr : Reliable u o r) : Cut strict tl s₀ wal (u.after o r).streams := by
  cases o with
  | place f => exact h
  | storeWALStreaming name start =>
    obtain ⟨hall, hstart⟩ := ha
    rcases (r : Except Err ℕ) with e | k
    · exact h
    rw [complete_bytes hall] at hstart
    refine ⟨fun i c hc => ?_, fun i c hc hi => ?_⟩
    · rcases getElem?_snoc.mp hc with hc | ⟨rfl, rfl⟩
      · exact h.laid i c hc
      · exact ⟨hstart, nil_prefix, Nat.zero_le _, nofun⟩
    · rcases getElem?_snoc.mp hc with hc | ⟨rfl, rfl⟩
      · exact hall c (mem_of_getElem? hc)
      · simp [Uplink.after] at hi
  | sendBlock k block =>
    obtain ⟨past, c, hu, rfl, hopen, hfits⟩ := ha
    have hlast : u.streams[past.length]? = some c := by rw [hu]; exact getElem?_snoc.mpr (.inr ⟨rfl, rfl⟩)
    have hc := h.laid past.length c hlast
    rw [hu] at h
    have hbytes := complete_bytes h.earlier
    rcases (r : Except Err Unit) with e | _
    · simp only [Uplink.after, hu, modify_last]
      exact h.set_last rfl hc.2.1 hc.2.2.1 hc.2.2.2
    have hlive : c.failed = false := hr rfl c hlast
    obtain ⟨hpre, hlen⟩ := hfits hlive
    rw [hbytes] at hpre
    simp only [Uplink.after, hu, modify_last]
    refine h.set_last rfl hpre hlen fun _ hno => ?_
    rw [show c.closed = true from hno] at hopen
    cases hopen
  | close k =>
    obtain ⟨past, c, hu, rfl, -, -, hfull⟩ := ha
    have hlast : u.streams[past.length]? = some c := by rw [hu]; exact getElem?_snoc.mpr (.inr ⟨rfl, rfl⟩)
    have hc := h.laid past.length c hlast
    rw [hu] at h
    rcases (r : Except Err Unit) with e | _
    · exact hu ▸ h
    simp only [Uplink.after, hu, modify_last]
    exact h.set_last rfl hc.2.1 hc.2.2.1 fun hs _ => hfull hs

theorem calls_zero (hzero : tl.segmentSize = 0) : ∀ (cs : List WalCall) (d : Data) (p : UInt64), d.walHandler = {} → d.buffer = [] →
    Contiguous p cs → (Data.calls P tl d cs).SatIf (uploads strict tl s₀ wal) Steady
      (fun d' u => Paused tl s₀ (received cs) True d' u ∧ u.streams = []) (fun _ u => Excused tl u) {} := by
  intro cs
  induction cs with
  | nil =>
    intro d p hd hb _
    refine ⟨.inl ⟨.inl ⟨hd, hb, fun c hc => ?_, rfl⟩, fun _ => hb⟩, rfl⟩
    cases hc
  | cons c cs ih =>
    intro d p hd hb hcont
    cases c with
    | close => exact hcont.elim
    | flush =>
      have hflush : d.flush = .ret (d, .ok ()) := by
        unfold Data.flush
        rw [if_pos (.inr hb)]
      show ((d.flush).bind _).SatIf _ _ _ _ _
      rw [hflush]
      exact ih d p hd hb hcont
    | data bytes pos =>
      have hpanic : d.processWALData P tl bytes pos = .err (.panics "integer divide by zero") := by
        unfold Data.processWALData
        rw [if_pos hzero]
      show ((d.processWALData P tl bytes pos).bind _).SatIf _ _ _ _ _
      rw [hpanic]
      exact .inl hzero

/-! ## The result -/

theorem Ready.sent (h : Ready tl s₀ rcv d u) (hbuf : d.buffer = []) : upBytes u.streams = rcv := by
  rcases h with hrest | ⟨past, c, hfill, -⟩
  · exact hrest.bytes
  · have hb := hfill.bytes
    rw [hbuf, append_nil] at hb
    rw [hfill.streams, upBytes_append, upBytes_cons, upBytes_nil, append_nil]
    exact hb

theorem Ready.closed (h : Ready tl s₀ rcv d u) (hc : c ∈ u.streams)
    (hfull : c.accepted.length = tl.segmentSize.toNat) : c.closed = true := by
  rcases h with hrest | ⟨past, c', hfill, hroom⟩
  · exact (hrest.complete c hc).1
  rw [hfill.streams] at hc
  rcases mem_append.mp hc with hc | hc
  · exact (hfill.complete c hc).1
  · obtain rfl := mem_singleton.mp hc
    omega

/-- **Replication data is cut into segments without loss, duplication or reordering.** For every segment
size, every contiguous sequence of messages from a segment boundary on, with calls of `Flush` anywhere
between them, and a connection that opens and closes streams and on which a stream that has refused a
block refuses the next ones. At every moment, the streams that were opened start one after the other at
the ends of segments, and each has taken a prefix of the WAL from its start on, exactly a segment when it
is closed; all but the last are. After a history without a refused block, a stream with a segment is
closed, and after `Flush` all that was received is sent. Nothing panics but for a refused block. -/
theorem segments_cut (P : Outside) (tl : Timeline) (s₀ : UInt64) (cs : List WalCall)
    (hname : ∀ pos, ∃ name, P.walFileName pos tl.tli tl.segmentSize = .ok name ∧ name ≠ [])
    (hs₀ : s₀ % tl.segmentSize = 0) (hcont : Contiguous s₀ cs) (hfit : s₀.toNat + (received cs).length < UInt64.size)
    (tr : List (Σ o, UpOp.Res o)) (left : UpProg Data) (hrun : (Data.calls P tl {} cs).Runs tr left)
    (hfair : (uploads true tl s₀ (received cs)).Fair Steady {} tr) :
    let streams := ((uploads true tl s₀ (received cs)).through {} tr).streams
    Cut true tl s₀ (received cs) streams ∧
    (∀ wal, left = .ret wal → (∀ c ∈ streams, c.failed = false) →
      (∀ c ∈ streams, c.accepted.length = tl.segmentSize.toNat → c.closed = true) ∧
      (cs.getLast? = some .flush → upBytes streams = received cs)) ∧
    (∀ e, left = .err e → tl.segmentSize = 0 ∨ ∃ c ∈ streams, c.failed = true) := by
  -- what the calls lead to, for segments with a size or without
  have hsat : (Data.calls P tl {} cs).SatIf (uploads true tl s₀ (received cs)) Steady
      (fun d u => Paused tl s₀ (received cs) (cs.getLast? = some .flush) d u) (fun _ u => Excused tl u) {} := by
    by_cases hzero : tl.segmentSize = 0
    · refine satIf_mono (fun _ _ ha => ha) rfl (calls_zero hzero cs {} s₀ rfl rfl hcont) ?_ fun _ _ hx => hx
      rintro d u ⟨hpaused, -⟩
      exact hpaused.imp (fun hr => ⟨hr.1, fun _ => hr.2 trivial⟩) id
    have hseg : 0 < tl.segmentSize.toNat := Nat.pos_of_ne_zero fun hz => hzero (UInt64.toNat_inj.mp hz)
    have hs₀' : s₀.toNat % tl.segmentSize.toNat = 0 := by
      rw [← UInt64.toNat_mod, hs₀]
      rfl
    have hstart : Paused tl s₀ [] True {} {} :=
      .inl ⟨.inl ⟨rfl, rfl, nofun, rfl⟩, fun _ => rfl⟩
    refine satIf_mono (fun _ _ ha => ha) rfl
      (calls_sat hname hseg hs₀' cs {} {} [] True s₀ rfl hstart rfl hcont (prefix_refl _) hfit) ?_ fun _ _ hx => hx
    intro d u hpaused
    exact hpaused.imp (fun hr => ⟨hr.1, fun hf => hr.2 (.inl hf)⟩) id
  have hinv : Cut true tl s₀ (received cs) ((uploads true tl s₀ (received cs)).through {} tr).streams ∧
      ((uploads true tl s₀ (received cs)).through {} tr).refused = false := by
    refine hsat.inv (I := fun u => Cut true tl s₀ (received cs) u.streams ∧ u.refused = false) ?_ hrun hfair ⟨cut_nil, rfl⟩
    rintro u o r ⟨hcut, hu⟩ ha hr
    have hrel := steady_reliable u o r hu hr
    exact ⟨cut_step hcut ha hrel.1, hrel.2⟩
  have hleft := hsat.runs hrun hfair
  refine ⟨hinv.1, ?_, ?_⟩
  · rintro wal rfl hok
    rcases (hleft : Paused tl s₀ (received cs) (cs.getLast? = some .flush) wal _) with ⟨hready, hflushed⟩ | ⟨past, c, hstuck⟩
    · exact ⟨fun c hc hfull => hready.closed hc hfull, fun hf => hready.sent (hflushed hf)⟩
    · have hno := hok c (by rw [hstuck.streams]; simp)
      rw [hstuck.failed.2] at hno
      cases hno
  · rintro e rfl
    rcases (hleft : Excused tl _) with hz | hr | hf
    · exact .inl hz
    · rw [hinv.2] at hr
      cases hr
    · exact .inr hf

def twoMessages : List WalCall := [.data [1, 2] 8, .flush, .data [3, 4] 10, .flush]

/-- The segment is opened, sent in two blocks, and closed. -/
def segmentSent : List (Σ o, UpOp.Res o) :=
  [⟨.place ⟨8, 8, 8⟩, ()⟩, ⟨.storeWALStreaming (segmentName 1 4 2) 8, .ok 0⟩, ⟨.sendBlock 0 [1, 2], .ok ()⟩,
    ⟨.sendBlock 0 [3, 4], .ok ()⟩, ⟨.close 0, .ok ()⟩]

/-- What is left, and the stream. -/
theorem two_messages_cut :
    (Data.calls (numbered [] []) fourBytes {} twoMessages).Runs segmentSent (.ret ⟨{}, 12, []⟩) ∧
      ((uploads true fourBytes 8 (received twoMessages)).through {} segmentSent).streams = [⟨8, [1, 2, 3, 4], false, true⟩] ∧
      Cut true fourBytes 8 (received twoMessages) ((uploads true fourBytes 8 (received twoMessages)).through {} segmentSent).streams := by
  have hrun : (Data.calls (numbered [] []) fourBytes {} twoMessages).Runs segmentSent (.ret ⟨{}, 12, []⟩) :=
    Prog.runs_answered (connection (.ok 0)) 5 (Data.calls (numbered [] []) fourBytes {} twoMessages)
  have hnames : ∀ pos, ∃ name, (numbered [] []).walFileName pos fourBytes.tli fourBytes.segmentSize = .ok name ∧ name ≠ [] :=
    fun pos => ⟨_, rfl, numbered_names [] [] fourBytes pos _ rfl⟩
  have hfair : (uploads true fourBytes 8 (received twoMessages)).Fair Steady {} segmentSent := by
    refine ⟨trivial, ⟨⟨?_, 0, rfl⟩, ?_, ?_, rfl, trivial⟩⟩
    · rintro k ⟨⟩
      rfl
    · rintro - c ⟨⟩
      rfl
    · rintro - c ⟨⟩
      rfl
  exact ⟨hrun, rfl, (segments_cut (numbered [] []) fourBytes 8 twoMessages hnames (by decide) ⟨rfl, rfl, trivial⟩ (by decide) _ _ hrun hfair).1⟩

end Klio

import Klio.Lib.Interleave

/-!
# Message streams

A broker keeps named streams of messages. A message that is stored gets the next number of its stream, and keeps it:
numbers are never used again.

* `MsgStream`: a stream, with its messages in the order of their numbers.
* `StreamOp`, `Broker.exec`: what clients ask of a broker, and what it answers.
* `Broker.keep`: the messages that deletions leave, with `keep_inj` and `exec_delete`.
* `exec_effect`: what a request can do to the streams.
-/

namespace Klio.Lib

open List

/-- A message with its number in its stream. -/
structure Stored (M : Type) where
  seq : ℕ
  msg : M
  deriving DecidableEq

/-- **A stream**: its messages by increasing numbers, from one on, and the last number that was used. -/
structure MsgStream (M : Type) where
  msgs : List (Stored M)
  lastSeq : ℕ
  increasing : msgs.Pairwise fun a b => a.seq < b.seq
  bounded : ∀ m ∈ msgs, m.seq ≤ lastSeq
  positive : ∀ m ∈ msgs, 0 < m.seq

namespace MsgStream

variable {M : Type} {s : MsgStream M} {n : ℕ} {m : Stored M}

@[ext] theorem ext {s t : MsgStream M} (hm : s.msgs = t.msgs) (hl : s.lastSeq = t.lastSeq) : s = t := by
  cases s
  cases t
  cases hm
  cases hl
  rfl

def empty : MsgStream M := ⟨[], 0, List.Pairwise.nil, nofun, nofun⟩

/-- The message with this number. -/
def find (s : MsgStream M) (n : ℕ) : Option (Stored M) := s.msgs.find? fun m => m.seq = n

/-- The first message after this number. -/
def next (s : MsgStream M) (n : ℕ) : Option (Stored M) := s.msgs.find? fun m => n < m.seq

def keep (s : MsgStream M) (p : Stored M → Bool) : MsgStream M where
  msgs := s.msgs.filter p
  lastSeq := s.lastSeq
  increasing := s.increasing.filter _
  bounded _ hm := s.bounded _ (List.mem_of_mem_filter hm)
  positive _ hm := s.positive _ (List.mem_of_mem_filter hm)

/-- Remove the message with this number. -/
def delete (s : MsgStream M) (n : ℕ) : MsgStream M := s.keep fun m => m.seq ≠ n

/-- Store a message. -/
def append (s : MsgStream M) (m : M) : MsgStream M where
  msgs := s.msgs ++ [⟨s.lastSeq + 1, m⟩]
  lastSeq := s.lastSeq + 1
  increasing := by
    refine List.pairwise_append.mpr ⟨s.increasing, List.pairwise_singleton _ _, fun a ha b hb => ?_⟩
    rw [List.mem_singleton.mp hb]
    exact Nat.lt_succ_of_le (s.bounded a ha)
  bounded := by
    intro x hx
    rcases List.mem_append.mp hx with hx | hx
    · exact Nat.le_succ_of_le (s.bounded x hx)
    · obtain rfl := List.mem_singleton.mp hx
      exact Nat.le_refl _
  positive := by
    intro x hx
    rcases List.mem_append.mp hx with hx | hx
    · exact s.positive x hx
    · rw [List.mem_singleton.mp hx]
      exact Nat.succ_pos _

theorem find_eq_some : s.find n = some m ↔ m ∈ s.msgs ∧ m.seq = n := by
  unfold find
  constructor
  · intro h
    exact ⟨mem_of_find?_eq_some h, by simpa using find?_some h⟩
  rintro ⟨hm, rfl⟩
  cases hf : s.msgs.find? fun x => x.seq = m.seq with
  | none =>
    have hnot := find?_eq_none.mp hf m hm
    simp at hnot
  | some x =>
    -- two messages with one number are one
    have hx := mem_of_find?_eq_some hf
    have hseq : x.seq = m.seq := by simpa using find?_some hf
    have heq : x = m := by
      by_contra hne
      have hpair := s.increasing
      have hlt := List.Pairwise.forall_of_forall_of_flip (R := fun a b : Stored M => a.seq = b.seq → a = b) (l := s.msgs)
        (fun _ _ _ => rfl) (hpair.imp fun hab he => absurd he (Nat.ne_of_lt hab))
        (hpair.imp fun hab he => absurd he.symm (Nat.ne_of_lt hab)) hx hm hseq
      exact hne hlt
    rw [heq]

theorem find_eq_none : s.find n = none ↔ ∀ m ∈ s.msgs, m.seq ≠ n := by
  unfold find
  simp

theorem mem_keep {p : Stored M → Bool} : m ∈ (s.keep p).msgs ↔ m ∈ s.msgs ∧ p m = true := mem_filter

theorem keep_keep (p q : Stored M → Bool) : (s.keep p).keep q = s.keep fun m => p m && q m := by
  refine ext ?_ rfl
  simp only [keep, filter_filter]
  refine filter_congr fun m _ => ?_
  exact Bool.and_comm _ _

theorem keep_congr {p q : Stored M → Bool} (h : ∀ m ∈ s.msgs, p m = q m) : s.keep p = s.keep q :=
  ext (filter_congr h) rfl

theorem keep_true : (s.keep fun _ => true) = s := ext (filter_eq_self.mpr fun _ _ => rfl) rfl

theorem keep_inj {p q : Stored M → Bool} (h : s.keep p = s.keep q) (hm : m ∈ s.msgs) : p m = q m := by
  have hmem : m ∈ (s.keep p).msgs ↔ m ∈ (s.keep q).msgs := by rw [h]
  rw [mem_keep, mem_keep] at hmem
  have hiff : p m = true ↔ q m = true := ⟨fun hp => (hmem.mp ⟨hm, hp⟩).2, fun hq => (hmem.mpr ⟨hm, hq⟩).2⟩
  exact Bool.eq_iff_iff.mpr hiff

theorem find_keep {p : Stored M → Bool} : (s.keep p).find n = some m ↔ s.find n = some m ∧ p m = true := by
  rw [find_eq_some, find_eq_some, mem_keep]
  exact and_right_comm

theorem next_of_append {pre rest : List (Stored M)} (hs : s.msgs = pre ++ rest) (hpre : ∀ x ∈ pre, x.seq ≤ n)
    (hrest : ∀ x ∈ rest, n < x.seq) : s.next n = rest.head? := by
  unfold next
  rw [hs, find?_append]
  have hnone : pre.find? (fun x => decide (n < x.seq)) = none := by
    rw [find?_eq_none]
    intro x hx
    have hle := hpre x hx
    simp only [decide_eq_true_eq]
    omega
  rw [hnone, Option.none_or]
  rcases rest with _ | ⟨x, rest⟩
  · rfl
  have hlt := hrest x mem_cons_self
  simp [hlt]

end MsgStream

/-! ## A broker -/

/-- The errors of a broker that clients tell apart. -/
inductive NatsErr where
  | noMessageFound
  | streamNotFound
  | failed
  deriving DecidableEq

/-- What clients ask of a broker with streams `N`. -/
inductive StreamOp (N M : Type) where
  | load (name : N)
  | count (name : N)
  /-- The next message of a pager that has come to `after`. -/
  | next (name : N) (after : ℕ)
  | read (name : N) (seq : ℕ)
  | delete (name : N) (seq : ℕ)
  | publish (msg : M)
  /-- At most `n` messages, from the first on. -/
  | fetch (name : N) (n : ℕ)
  | createStream (name : N)
  | deleteStream (name : N)
  | createConsumer (name : N)

/-- What the broker answers. -/
def StreamOp.Res {N M : Type} : StreamOp N M → Type
  | .count _ => Except NatsErr ℕ
  | .next _ _ | .read _ _ => Except NatsErr (Option (Stored M))
  | .fetch _ _ => Except NatsErr (List (Stored M))
  | _ => Except NatsErr Unit

/-- **A broker**: the streams that exist. -/
abbrev Broker (N M : Type) := N → Option (MsgStream M)

/-- What may go wrong: an operation fails, perhaps when it is done; or the answer stops short: a read returns
nothing, a fetch only the first messages. -/
inductive NatsFault where
  | fails (done : Bool)
  | short (n : ℕ)
  deriving DecidableEq

namespace Broker

variable {N M : Type} [DecidableEq N]

/-- Let a stream be another one. -/
def set (b : Broker N M) (name : N) (s : Option (MsgStream M)) : Broker N M := Function.update b name s

/-- An answer that changes the streams to `b'` if all goes well. -/
def change (b b' : Broker N M) : Option NatsFault → Except NatsErr Unit × Broker N M
  | some (.fails done) => (.error .failed, if done then b' else b)
  | some (.short _) => (.error .failed, b)
  | none => (.ok (), b')

/-- What a read finds. -/
def found : Option (Stored M) → Except NatsErr (Option (Stored M))
  | some m => .ok (some m)
  | none => .error .noMessageFound

/-- A read of one message. -/
def answer (r : Except NatsErr (Option (Stored M))) : Option NatsFault → Except NatsErr (Option (Stored M))
  | some (.fails _) => .error .failed
  | some (.short _) => .ok none
  | none => r

/-- **What an operation answers and does.** A message goes to the stream that its subject belongs to. -/
def exec (route : M → Option N) : (o : StreamOp N M) → Option NatsFault → Broker N M → o.Res × Broker N M
  | .load name, c, b =>
    ((if c.isSome then .error .failed else if (b name).isSome then .ok () else .error .streamNotFound : Except NatsErr Unit), b)
  | .count name, c, b =>
    ((match c, b name with
      | none, some s => .ok s.msgs.length
      | _, _ => .error .failed : Except NatsErr ℕ), b)
  | .next name after, c, b =>
    (answer (match b name with
      | some s => .ok (s.next after)
      | none => .error .failed) c, b)
  | .read name seq, c, b =>
    (answer (match b name with
      | none => .error .streamNotFound
      | some s => found (s.find seq)) c, b)
  | .delete name seq, c, b => match b name with
    | none => ((.error .failed : Except NatsErr Unit), b)
    | some s =>
      if (s.find seq).isSome then b.change (b.set name (some (s.delete seq))) c
      else ((.error .failed : Except NatsErr Unit), b)
  | .publish m, c, b => match (route m).bind fun name => (b name).map fun s => (name, s) with
    | none => ((.error .failed : Except NatsErr Unit), b)
    | some (name, s) => b.change (b.set name (some (s.append m))) c
  | .fetch name n, c, b =>
    ((match c, b name with
      | none, some s => .ok (s.msgs.take n)
      | some (.short k), some s => .ok (s.msgs.take (min k n))
      | _, _ => .error .failed : Except NatsErr (List (Stored M))), b)
  | .createStream name, c, b =>
    b.change (if (b name).isSome then b else b.set name (some MsgStream.empty)) c
  | .deleteStream name, c, b => match b name with
    | none => ((.error .streamNotFound : Except NatsErr Unit), b)
    | some _ => b.change (b.set name none) c
  | .createConsumer _, c, b => b.change b c

variable {route : M → Option N} {c : Option NatsFault} {b : Broker N M}

theorem exec_next {name : N} {after : ℕ} {s : MsgStream M}
    (hs : b name = some s) : exec route (.next name after) c b = (answer (.ok (s.next after)) c, b) := by
  simp only [exec, hs]
  rfl

theorem exec_read {name : N} {seq : ℕ} {s : MsgStream M}
    (hs : b name = some s) : exec route (.read name seq) c b = (answer (found (s.find seq)) c, b) := by
  simp only [exec, hs]
  rfl

theorem exec_read_missing {name : N} {seq : ℕ}
    (hs : b name = none) : exec route (.read name seq) c b = (answer (.error .streamNotFound) c, b) := by
  simp only [exec, hs]
  rfl

/-- Keep some of the messages of every stream. -/
def keep (b : Broker N M) (p : N → Stored M → Bool) : Broker N M := fun name => (b name).map fun s => s.keep (p name)

omit [DecidableEq N] in
theorem keep_congr {b : Broker N M} {p q : N → Stored M → Bool}
    (h : ∀ name s m, b name = some s → m ∈ s.msgs → p name m = q name m) : b.keep p = b.keep q := by
  funext name
  unfold keep
  cases hs : b name with
  | none => rfl
  | some s => exact congrArg some (MsgStream.keep_congr fun m hm => h name s m hs hm)

omit [DecidableEq N] in
theorem keep_inj {b : Broker N M} {p q : N → Stored M → Bool} (h : b.keep p = b.keep q) {name : N} {s : MsgStream M}
    {m : Stored M} (hs : b name = some s) (hm : m ∈ s.msgs) : p name m = q name m := by
  have hname := congrFun h name
  simp only [keep, hs, Option.map_some, Option.some.injEq] at hname
  exact MsgStream.keep_inj hname hm

omit [DecidableEq N] in
theorem keep_true (b : Broker N M) : (b.keep fun _ _ => true) = b := by
  funext name
  unfold keep
  cases b name with
  | none => rfl
  | some s => exact congrArg some MsgStream.keep_true

omit [DecidableEq N] in
theorem keep_keep (b : Broker N M) (p q : N → Stored M → Bool) :
    (b.keep p).keep q = b.keep fun name m => p name m && q name m := by
  funext name
  unfold keep
  cases b name with
  | none => rfl
  | some s => exact congrArg some (MsgStream.keep_keep _ _)

/-- **A deletion** removes the message or leaves everything as it is; without a fault it does what it answers. -/
theorem exec_delete (route : M → Option N) (name : N) (seq : ℕ) (c : Option NatsFault) (b : Broker N M) :
    ((exec route (.delete name seq) c b).2 = b ∨
      (exec route (.delete name seq) c b).2 = b.keep fun n m => !(n = name && m.seq = seq)) ∧
    (∀ u, (exec route (.delete name seq) c b).1 = (.ok u : Except NatsErr Unit) →
      (exec route (.delete name seq) c b).2 = b.keep fun n m => !(n = name && m.seq = seq)) ∧
    ∀ s m, c = none → b name = some s → s.find seq = some m →
      (exec route (.delete name seq) c b).1 = (.ok () : Except NatsErr Unit) := by
  have hkeep : ∀ s, b name = some s → b.set name (some (s.delete seq)) = b.keep fun n m => !(n = name && m.seq = seq) := by
    intro s hs
    funext n
    unfold set keep
    by_cases hn : n = name
    · subst hn
      rw [Function.update_self, hs]
      refine congrArg some (MsgStream.keep_congr fun m _ => ?_)
      simp
    · rw [Function.update_of_ne hn]
      rcases b n with _ | s'
      · rfl
      refine congrArg some (Eq.trans MsgStream.keep_true.symm (MsgStream.keep_congr fun m _ => ?_))
      simp [hn]
  rcases hs : b name with _ | s
  · have heq : exec route (.delete name seq) c b = ((.error .failed : Except NatsErr Unit), b) := by
      simp only [exec, hs]
      rfl
    rw [heq]
    exact ⟨.inl rfl, nofun, nofun⟩
  by_cases hf : (s.find seq).isSome = true
  · have heq : exec route (.delete name seq) c b = b.change (b.keep fun n m => !(n = name && m.seq = seq)) c := by
      simp only [exec, hs, hkeep s hs]
      exact if_pos hf
    rw [heq]
    rcases c with _ | ⟨_ | _⟩ | n
    · exact ⟨.inr rfl, fun _ _ => rfl, fun _ _ _ _ _ => rfl⟩
    · exact ⟨.inl rfl, nofun, nofun⟩
    · exact ⟨.inr rfl, nofun, nofun⟩
    · exact ⟨.inl rfl, nofun, nofun⟩
  · have heq : exec route (.delete name seq) c b = ((.error .failed : Except NatsErr Unit), b) := by
      simp only [exec, hs]
      exact if_neg hf
    rw [heq]
    refine ⟨.inl rfl, nofun, fun s' m _ hs' hm => ?_⟩
    cases hs'
    rw [hm] at hf
    exact absurd rfl hf

/-- What a request can do to the streams. -/
inductive Effect (route : M → Option N) (o : StreamOp N M) (b : Broker N M) : Broker N M → Prop
  | same : Effect route o b b
  | removed (name : N) (seq : ℕ) (ho : o = .delete name seq) : Effect route o b (b.keep fun n m => !(n = name && m.seq = seq))
  | stored (name : N) (s : MsgStream M) (m : M) (ho : o = .publish m) (hm : route m = some name) (hs : b name = some s) :
      Effect route o b (b.set name (some (s.append m)))
  | created (name : N) (ho : o = .createStream name) (hs : b name = none) : Effect route o b (b.set name (some MsgStream.empty))
  | dropped (name : N) (ho : o = .deleteStream name) : Effect route o b (b.set name none)

theorem change_effect {o : StreamOp N M} {b b' : Broker N M}
    (h : Effect route o b b') : Effect route o b (b.change b' c).2 := by
  rcases c with _ | ⟨_ | _⟩ | n
  · exact h
  · exact .same
  · exact h
  · exact .same

/-- **What a request does**, whatever goes wrong. -/
theorem exec_effect (route : M → Option N) (o : StreamOp N M) (c : Option NatsFault) (b : Broker N M) :
    Effect route o b (exec route o c b).2 := by
  cases o with
  | load name => exact .same
  | count name => exact .same
  | next name after => exact .same
  | read name seq => exact .same
  | fetch name n => exact .same
  | createConsumer name => exact change_effect .same
  | delete name seq =>
    rcases (exec_delete route name seq c b).1 with h | h
    · rw [h]
      exact .same
    · rw [h]
      exact .removed name seq rfl
  | publish m =>
    rcases hroute : route m with _ | name
    · simp only [exec, hroute, Option.bind_none]
      exact .same
    rcases hname : b name with _ | s
    · simp only [exec, hroute, Option.bind_some, hname, Option.map_none]
      exact .same
    simp only [exec, hroute, Option.bind_some, hname, Option.map_some]
    exact change_effect (.stored name s m rfl hroute hname)
  | createStream name =>
    refine change_effect ?_
    cases hname : b name with
    | none => exact .created name rfl hname
    | some s => exact .same
  | deleteStream name =>
    rcases hname : b name with _ | s
    · simp only [exec, hname]
      exact .same
    simp only [exec, hname]
    exact change_effect (.dropped name rfl)

end Broker

/-- The semantics of clients of one broker. A client that crashes leaves the streams alone. -/
def brokerSem (ι : Type) {N M : Type} [DecidableEq N] (route : M → Option N) :
    Sem ι (StreamOp N M) StreamOp.Res (Broker N M) (Option NatsFault) Unit where
  exec _ := Broker.exec route
  crash _ b := b

end Klio.Lib

import Klio.Lib.Wp
import Klio.Model.Queue

/-!
# Discarding dead letters again

`DiscardFailedWALTasks` and `DiscardFailedBackupTasks` list the dead letters that are selected, and then delete each
with its original, the original first. Either call may be cut after any of its requests.

* `discarded`: what a call that meets no failure leaves.
* `PartlyDiscarded`: what any other call leaves, at any time: some of it is done, and an advisory is gone only when its
  original is.
* `discarded_again_iff`: when the same call, made again, leaves what one call would have.
-/

namespace Klio

open Lib Prog List

abbrev queueSem : Sem Unit (StreamOp StreamName QueueMsg) StreamOp.Res (Broker StreamName QueueMsg) (Option NatsFault) Unit :=
  brokerSem Unit route

/-- No request meets a fault. -/
def Faultless (ok : Option NatsFault → Prop) : Prop := ∀ c, ok c → c = none

/-! ## What a call is about -/

section Selection

variable {T : Type} (Z : QueueDeps) (kind : TaskKind T) (accepts : T → Bool) (b : Broker StreamName QueueMsg)

/-- The dead letters. -/
def advisories : List (Stored QueueMsg) := ((b kind.dlq).map MsgStream.msgs).getD []

/-- The message that a dead letter names, if it is still there. -/
def originalOf (a : Stored QueueMsg) : Option (Stored QueueMsg) :=
  (Z.unmarshalAdvisory a.msg.data).bind fun n => (b kind.source).bind fun s => s.find n

def failedTask (a : Stored QueueMsg) : Option T := (originalOf Z kind b a).bind fun m => kind.unmarshal m.msg.data

/-- A dead letter that a listing gets past. -/
def legible (a : Stored QueueMsg) : Bool :=
  (Z.unmarshalAdvisory a.msg.data).isSome && (originalOf Z kind b a).all fun m => (kind.unmarshal m.msg.data).isSome

/-- Both streams are there, and a listing gets past every dead letter. -/
def readable : Bool := (b kind.source).isSome && (b kind.dlq).isSome && (advisories kind b).all (legible Z kind b)

/-- A dead letter that is selected. -/
def picks (a : Stored QueueMsg) : Bool := readable Z kind b && (failedTask Z kind b a).any accepts

/-- What is removed: the dead letters that are selected, and their originals. -/
def removable (name : StreamName) (m : Stored QueueMsg) : Bool :=
  (name = kind.dlq && picks Z kind accepts b m) ||
    (name = kind.source && (advisories kind b).any fun a =>
      picks Z kind accepts b a && Z.unmarshalAdvisory a.msg.data = some m.seq)

/-- **What a call leaves that meets no failure**: everything else. -/
def discarded : Broker StreamName QueueMsg := b.keep fun name m => !removable Z kind accepts b name m

/-- **What a call may leave**: only selected messages are missing, and a selected dead letter is missing only if its
original is. -/
def PartlyDiscarded (s : Broker StreamName QueueMsg) : Prop := ∃ p : StreamName → Stored QueueMsg → Bool, s = b.keep p ∧
  (∀ name strm m, b name = some strm → m ∈ strm.msgs → removable Z kind accepts b name m = false → p name m = true) ∧
  ∀ a m, a ∈ advisories kind b → picks Z kind accepts b a = true → p kind.dlq a = false → originalOf Z kind b a = some m →
    p kind.source m = false

end Selection

section Lemmas

variable {T : Type} {Z : QueueDeps} {kind : TaskKind T} {accepts : T → Bool} {b : Broker StreamName QueueMsg}
  {p : StreamName → Stored QueueMsg → Bool} {a m : Stored QueueMsg}

theorem mem_advisories : a ∈ advisories kind b ↔ ∃ s, b kind.dlq = some s ∧ a ∈ s.msgs := by
  unfold advisories
  cases b kind.dlq with
  | none => simp
  | some s => simp

theorem originalOf_eq_some : originalOf Z kind b a = some m ↔
    Z.unmarshalAdvisory a.msg.data = some m.seq ∧ ∃ s, b kind.source = some s ∧ m ∈ s.msgs := by
  unfold originalOf
  simp only [Option.bind_eq_some_iff, MsgStream.find_eq_some]
  constructor
  · rintro ⟨n, hn, s, hs, hm, rfl⟩
    exact ⟨hn, s, hs, hm⟩
  · rintro ⟨hn, s, hs, hm⟩
    exact ⟨m.seq, hn, s, hs, hm, rfl⟩

theorem mem_advisories_keep : a ∈ advisories kind (b.keep p) ↔ a ∈ advisories kind b ∧ p kind.dlq a = true := by
  rw [mem_advisories, mem_advisories]
  unfold Broker.keep
  cases b kind.dlq with
  | none => simp
  | some s => simp [MsgStream.mem_keep]

theorem originalOf_keep : originalOf Z kind (b.keep p) a = some m ↔
    originalOf Z kind b a = some m ∧ p kind.source m = true := by
  rw [originalOf_eq_some, originalOf_eq_some]
  unfold Broker.keep
  cases b kind.source with
  | none => simp
  | some s => simp [MsgStream.mem_keep, and_assoc]

theorem failedTask_eq_some {t : T} : failedTask Z kind b a = some t ↔
    ∃ m, originalOf Z kind b a = some m ∧ kind.unmarshal m.msg.data = some t := by
  unfold failedTask
  rw [Option.bind_eq_some_iff]

theorem picks_iff : picks Z kind accepts b a = true ↔ readable Z kind b = true ∧
    ∃ m t, originalOf Z kind b a = some m ∧ kind.unmarshal m.msg.data = some t ∧ accepts t = true := by
  unfold picks
  rw [Bool.and_eq_true, Option.any_eq_true]
  constructor
  · rintro ⟨hr, t, ht, hacc⟩
    obtain ⟨m, hm, hmt⟩ := failedTask_eq_some.mp ht
    exact ⟨hr, m, t, hm, hmt, hacc⟩
  · rintro ⟨hr, m, t, hm, hmt, hacc⟩
    exact ⟨hr, t, failedTask_eq_some.mpr ⟨m, hm, hmt⟩, hacc⟩

theorem removable_iff {name : StreamName} : removable Z kind accepts b name m = true ↔
    (name = kind.dlq ∧ picks Z kind accepts b m = true) ∨
      (name = kind.source ∧ ∃ a ∈ advisories kind b, picks Z kind accepts b a = true ∧
        Z.unmarshalAdvisory a.msg.data = some m.seq) := by
  unfold removable
  simp only [Bool.or_eq_true, Bool.and_eq_true, decide_eq_true_eq, any_eq_true]

theorem readable_iff : readable Z kind b = true ↔
    (b kind.source).isSome = true ∧ (b kind.dlq).isSome = true ∧ ∀ a ∈ advisories kind b, legible Z kind b a = true := by
  unfold readable
  simp only [Bool.and_eq_true, all_eq_true, and_assoc]

theorem readable_keep (h : readable Z kind b = true) : readable Z kind (b.keep p) = true := by
  rw [readable_iff] at h ⊢
  obtain ⟨hsrc, hdlq, hall⟩ := h
  refine ⟨by simpa [Broker.keep] using hsrc, by simpa [Broker.keep] using hdlq, fun a ha => ?_⟩
  have hleg := hall a (mem_advisories_keep.mp ha).1
  unfold legible at hleg ⊢
  rw [Bool.and_eq_true, Option.all_eq_true] at hleg ⊢
  exact ⟨hleg.1, fun m hm => hleg.2 m (originalOf_keep.mp hm).1⟩

theorem picks_keep (hr : readable Z kind b = true) : picks Z kind accepts (b.keep p) a = true ↔
    picks Z kind accepts b a = true ∧ ∀ m, originalOf Z kind b a = some m → p kind.source m = true := by
  rw [picks_iff, picks_iff]
  constructor
  · rintro ⟨-, m, t, hm, hmt, hacc⟩
    obtain ⟨hmb, hpm⟩ := originalOf_keep.mp hm
    refine ⟨⟨hr, m, t, hmb, hmt, hacc⟩, fun m' hm' => ?_⟩
    rw [hmb] at hm'
    cases hm'
    exact hpm
  · rintro ⟨⟨-, m, t, hm, hmt, hacc⟩, hleft⟩
    exact ⟨readable_keep hr, m, t, originalOf_keep.mpr ⟨hm, hleft m hm⟩, hmt, hacc⟩

theorem picks_unreadable (hr : readable Z kind b = false) (a : Stored QueueMsg) : picks Z kind accepts b a = false := by
  unfold picks
  rw [hr, Bool.false_and]

theorem removable_unreadable (hr : readable Z kind b = false) (name : StreamName) (m : Stored QueueMsg) :
    removable Z kind accepts b name m = false := by
  rw [Bool.eq_false_iff]
  intro h
  rcases removable_iff.mp h with ⟨-, hp⟩ | ⟨-, a, -, hp, -⟩
  · rw [picks_unreadable hr] at hp
    cases hp
  · rw [picks_unreadable hr] at hp
    cases hp

variable {s : Broker StreamName QueueMsg}

theorem PartlyDiscarded.eq_of_unreadable (hr : readable Z kind b = false)
    (h : PartlyDiscarded Z kind accepts b s) : s = b := by
  obtain ⟨p, rfl, hp, -⟩ := h
  refine Eq.trans (Broker.keep_congr fun name strm m hstrm hm => ?_) (Broker.keep_true b)
  exact hp name strm m hstrm hm (removable_unreadable hr name m)

theorem PartlyDiscarded.start : PartlyDiscarded Z kind accepts b b := by
  refine ⟨fun _ _ => true, (Broker.keep_true b).symm, fun _ _ _ _ _ _ => rfl, ?_⟩
  intro a m _ _ hfalse
  cases hfalse

/-- **When a second call completes the first**: a dead letter that was selected and is left has its original. -/
theorem discarded_again_iff (hne : kind.source ≠ kind.dlq)
    (h : PartlyDiscarded Z kind accepts b s) : discarded Z kind accepts s = discarded Z kind accepts b ↔
      ∀ a ∈ advisories kind s, picks Z kind accepts b a = true → (originalOf Z kind s a).isSome = true := by
  rcases hr : readable Z kind b with _ | _
  · rw [h.eq_of_unreadable hr]
    refine ⟨fun _ a _ hp => ?_, fun _ => rfl⟩
    rw [picks_iff, hr] at hp
    cases hp.1
  obtain ⟨p, rfl, hkept, horder⟩ := h
  have hleft : ∀ a, (∀ m, originalOf Z kind b a = some m → p kind.source m = true) → picks Z kind accepts b a = true →
      (originalOf Z kind (b.keep p) a).isSome = true := by
    intro a hall hp
    obtain ⟨-, m, -, hm, -⟩ := picks_iff.mp hp
    rw [originalOf_keep.mpr ⟨hm, hall m hm⟩]
    rfl
  have hcomp : discarded Z kind accepts (b.keep p) =
      b.keep fun name m => p name m && !removable Z kind accepts (b.keep p) name m := Broker.keep_keep _ _ _
  constructor
  · -- a dead letter without its original is not selected any more, so that it stays
    intro heq a ha hp
    obtain ⟨hab, hpa⟩ := mem_advisories_keep.mp ha
    obtain ⟨dlq, hdlq, hmem⟩ := mem_advisories.mp hab
    rw [hcomp] at heq
    have hat := Broker.keep_inj heq hdlq hmem
    have hrem : removable Z kind accepts b kind.dlq a = true := removable_iff.mpr (.inl ⟨rfl, hp⟩)
    rw [hpa, hrem, Bool.true_and, Bool.not_true, Bool.not_eq_false'] at hat
    rcases removable_iff.mp hat with ⟨-, hps⟩ | ⟨hsrc, -⟩
    · exact hleft a ((picks_keep hr).mp hps).2 hp
    · exact absurd hsrc.symm hne
  · intro hall
    rw [hcomp]
    refine Broker.keep_congr fun name strm m hstrm hm => ?_
    rcases hrem : removable Z kind accepts b name m with _ | _
    · -- what was not selected is not selected now
      have hnow : removable Z kind accepts (b.keep p) name m = false := by
        rw [Bool.eq_false_iff]
        intro hnow
        refine Bool.eq_false_iff.mp hrem (removable_iff.mpr ?_)
        rcases removable_iff.mp hnow with ⟨hn, hps⟩ | ⟨hn, a, ha, hps, hseq⟩
        · exact .inl ⟨hn, ((picks_keep hr).mp hps).1⟩
        · exact .inr ⟨hn, a, (mem_advisories_keep.mp ha).1, ((picks_keep hr).mp hps).1, hseq⟩
      rw [hkept name strm m hstrm hm hrem, hnow]
      rfl
    rcases hpm : p name m with _ | _
    · rfl
    have hnow : removable Z kind accepts (b.keep p) name m = true := by
      have hsel : ∀ a ∈ advisories kind b, picks Z kind accepts b a = true → p kind.dlq a = true →
          picks Z kind accepts (b.keep p) a = true := by
        intro a ha hp hpa
        refine (picks_keep hr).mpr ⟨hp, fun m' hm' => ?_⟩
        have hsome := hall a (mem_advisories_keep.mpr ⟨ha, hpa⟩) hp
        obtain ⟨m'', hm''⟩ := Option.isSome_iff_exists.mp hsome
        obtain ⟨hb'', hp''⟩ := originalOf_keep.mp hm''
        rw [hm'] at hb''
        cases hb''
        exact hp''
      rcases removable_iff.mp hrem with ⟨rfl, hp⟩ | ⟨rfl, a, ha, hp, hseq⟩
      · exact removable_iff.mpr (.inl ⟨rfl, hsel m (mem_advisories.mpr ⟨strm, hstrm, hm⟩) hp hpm⟩)
      -- its original is left, so that the dead letter is
      have horig : originalOf Z kind b a = some m := originalOf_eq_some.mpr ⟨hseq, strm, hstrm, hm⟩
      have hpa : p kind.dlq a = true := by
        by_contra hpa
        have hgone := horder a m ha hp (Bool.eq_false_iff.mpr hpa) horig
        rw [hpm] at hgone
        cases hgone
      exact removable_iff.mpr (.inr ⟨rfl, a, mem_advisories_keep.mpr ⟨ha, hpa⟩, hsel a ha hp hpa, hseq⟩)
    rw [hnow]
    rfl

theorem PartlyDiscarded.eq_discarded (h : PartlyDiscarded Z kind accepts b s)
    (hgone : ∀ a ∈ advisories kind s, picks Z kind accepts b a = false) : s = discarded Z kind accepts b := by
  obtain ⟨p, rfl, hkept, horder⟩ := h
  have hdlq : ∀ a ∈ advisories kind b, picks Z kind accepts b a = true → p kind.dlq a = false := by
    intro a ha hp
    rw [Bool.eq_false_iff]
    intro hpa
    rw [hgone a (mem_advisories_keep.mpr ⟨ha, hpa⟩)] at hp
    cases hp
  refine Broker.keep_congr fun name strm m hstrm hm => ?_
  rcases hrem : removable Z kind accepts b name m with _ | _
  · exact hkept name strm m hstrm hm hrem
  rcases removable_iff.mp hrem with ⟨rfl, hp⟩ | ⟨rfl, a, ha, hp, hseq⟩
  · exact hdlq m (mem_advisories.mpr ⟨strm, hstrm, hm⟩) hp
  · exact horder a m ha hp (hdlq a ha hp) (originalOf_eq_some.mpr ⟨hseq, strm, hstrm, hm⟩)

theorem PartlyDiscarded.delete_original (hne : kind.source ≠ kind.dlq) {n : ℕ}
    (h : PartlyDiscarded Z kind accepts b s) (ha : a ∈ advisories kind b) (hp : picks Z kind accepts b a = true)
    (hn : Z.unmarshalAdvisory a.msg.data = some n) :
    PartlyDiscarded Z kind accepts b (s.keep fun name m => !(name = kind.source && m.seq = n)) := by
  obtain ⟨p, rfl, hkept, horder⟩ := h
  refine ⟨_, Broker.keep_keep _ _ _, fun name strm m hstrm hm hrem => ?_, fun a' m ha' hp' hgone horig => ?_⟩
  · rw [hkept name strm m hstrm hm hrem, Bool.true_and, Bool.not_eq_true', Bool.eq_false_iff]
    intro hthis
    simp only [Bool.and_eq_true, decide_eq_true_eq] at hthis
    obtain ⟨rfl, rfl⟩ := hthis
    rw [removable_iff.mpr (.inr ⟨rfl, a, ha, hp, hn⟩)] at hrem
    cases hrem
  · have hdlq : p kind.dlq a' = false := by simpa [Ne.symm hne] using hgone
    rw [horder a' m ha' hp' hdlq horig]
    rfl

/-- Deleting a selected dead letter whose original is gone. -/
theorem PartlyDiscarded.delete_advisory
    (h : PartlyDiscarded Z kind accepts b s) (ha : a ∈ advisories kind b) (hp : picks Z kind accepts b a = true)
    (horig : originalOf Z kind s a = none) :
    PartlyDiscarded Z kind accepts b (s.keep fun name m => !(name = kind.dlq && m.seq = a.seq)) := by
  obtain ⟨p, rfl, hkept, horder⟩ := h
  obtain ⟨dlq, hdlq, hmem⟩ := mem_advisories.mp ha
  have hone : ∀ a', a' ∈ dlq.msgs → a'.seq = a.seq → a' = a := by
    intro a' ha' hseq
    have hfind := MsgStream.find_eq_some.mpr ⟨ha', hseq⟩
    rw [MsgStream.find_eq_some.mpr ⟨hmem, rfl⟩] at hfind
    exact (Option.some.inj hfind).symm
  refine ⟨_, Broker.keep_keep _ _ _, fun name strm m hstrm hm hrem => ?_, fun a' m ha' hp' hgone hm => ?_⟩
  · rw [hkept name strm m hstrm hm hrem, Bool.true_and, Bool.not_eq_true', Bool.eq_false_iff]
    intro hthis
    simp only [Bool.and_eq_true, decide_eq_true_eq] at hthis
    obtain ⟨rfl, hseq⟩ := hthis
    rw [hdlq] at hstrm
    cases hstrm
    rw [hone m hm hseq, removable_iff.mpr (.inl ⟨rfl, hp⟩)] at hrem
    cases hrem
  · have hsrc : p kind.source m = false := by
      rcases hpa : p kind.dlq a' with _ | _
      · exact horder a' m ha' hp' hpa hm
      -- then it is this one that goes
      have hseq : a'.seq = a.seq := by simpa [hpa] using hgone
      obtain ⟨dlq', hdlq', hmem'⟩ := mem_advisories.mp ha'
      rw [hdlq] at hdlq'
      cases hdlq'
      rw [hone a' hmem' hseq] at hm
      rw [Bool.eq_false_iff]
      intro hleft
      rw [originalOf_keep.mpr ⟨hm, hleft⟩] at horig
      cases horig
    rw [hsrc]
    rfl

end Lemmas

/-! ## The listing -/

/-- What the pager reads of a dead letter. -/
def ReadsAs (Z : QueueDeps) (a : Stored QueueMsg) (adv : DlqAdvisory) : Prop :=
  adv.dlqSequence = a.seq ∧ Z.unmarshalAdvisory a.msg.data = some adv.sourceSeq

structure Lists {T : Type} (Z : QueueDeps) (kind : TaskKind T) (b : Broker StreamName QueueMsg) (accepts : T → Bool)
    (l : List (Stored QueueMsg)) (tasks : List (FailedTask T)) : Prop where
  sound : ∀ f ∈ tasks, ∃ a ∈ l, f.sequence = a.seq ∧ failedTask Z kind b a = some f.task ∧ accepts f.task = true
  complete : ∀ a ∈ l, ∀ t, failedTask Z kind b a = some t → accepts t = true → ∃ f ∈ tasks, f.sequence = a.seq ∧ f.task = t

/-- The filter of `listPager`. -/
def inCluster {T : Type} (kind : TaskKind T) (cfg : OptionConfig) (t : T) : Bool :=
  cfg.cluster = [] || kind.cluster t = cfg.cluster

section Listing

variable {T : Type} {Z : QueueDeps} {kind : TaskKind T} {accepts : T → Bool} {b : Broker StreamName QueueMsg}
  {ok : Option NatsFault → Prop}

theorem not_faultless {c : NatsFault} (hc : ok (some c)) : ¬ Faultless ok := by
  intro hf
  cases hf _ hc

/-- Nothing is claimed where a fault was met. -/
theorem unless_fault {c : NatsFault} (hc : ok (some c)) {P : Prop} (hf : Faultless ok) : P := absurd hf (not_faultless hc)

theorem queueSem_exec (o : StreamOp StreamName QueueMsg) (c : Option NatsFault) (b : Broker StreamName QueueMsg) :
    queueSem.exec () o c b = Broker.exec route o c b := rfl

theorem exec_pager {dlq : MsgStream QueueMsg} (hdlq : b kind.dlq = some dlq) {pre rest : List (Stored QueueMsg)} {after : ℕ}
    (hs : dlq.msgs = pre ++ rest) (hpre : ∀ x ∈ pre, x.seq ≤ after) (hrest : ∀ x ∈ rest, after < x.seq)
    {c : Option NatsFault} : queueSem.exec () (.next kind.dlq after) c b = (Broker.answer (.ok rest.head?) c, b) := by
  rw [← MsgStream.next_of_append hs hpre hrest]
  exact (queueSem_exec _ _ _).trans (Broker.exec_next hdlq)

variable (ok) in
theorem drainPager_wp {dlq : MsgStream QueueMsg} (hdlq : b kind.dlq = some dlq) :
    ∀ (rest pre : List (Stored QueueMsg)) (fuel after : ℕ), dlq.msgs = pre ++ rest → (∀ x ∈ pre, x.seq ≤ after) →
      (∀ x ∈ rest, after < x.seq) → rest.length < fuel →
      (drainPager Z kind fuel after).Wp queueSem () ok (fun s => s = b)
        (fun advs _ => ∃ got, got <+: rest ∧ List.Forall₂ (ReadsAs Z) got advs ∧ (Faultless ok → got = rest))
        (fun _ _ => Faultless ok → ∃ a ∈ rest, Z.unmarshalAdvisory a.msg.data = none) b := by
  intro rest
  induction rest with
  | nil =>
    intro pre fuel after hs hpre hrest hfuel
    obtain ⟨fuel, rfl⟩ := Nat.exists_eq_succ_of_ne_zero (Nat.ne_of_gt hfuel)
    refine ⟨rfl, fun c hc => ?_⟩
    rw [exec_pager hdlq hs hpre hrest]
    rcases c with _ | d | k
    · exact ⟨rfl, [], nil_prefix, .nil, fun _ => rfl⟩
    · exact ⟨rfl, unless_fault hc⟩
    · exact ⟨rfl, [], nil_prefix, .nil, fun _ => rfl⟩
  | cons a rest ih =>
    intro pre fuel after hs hpre hrest hfuel
    obtain ⟨fuel, rfl⟩ := Nat.exists_eq_succ_of_ne_zero (Nat.ne_of_gt (Nat.lt_of_le_of_lt (Nat.zero_le _) hfuel))
    refine ⟨rfl, fun c hc => ?_⟩
    rw [exec_pager hdlq hs hpre hrest]
    rcases c with _ | d | k
    · dsimp only [Broker.answer, List.head?_cons]
      rcases hadv : Z.unmarshalAdvisory a.msg.data with _ | sourceSeq
      · exact ⟨rfl, fun _ => ⟨a, mem_cons_self, hadv⟩⟩
      have hpw := dlq.increasing
      rw [hs, pairwise_append] at hpw
      have hlater : ∀ x ∈ rest, a.seq < x.seq := (pairwise_cons.mp hpw.2.1).1
      have hread : ∀ x ∈ pre ++ [a], x.seq ≤ a.seq := by
        intro x hx
        rcases mem_append.mp hx with hx | hx
        · exact Nat.le_of_lt (hpw.2.2 x hx a mem_cons_self)
        · rw [mem_singleton.mp hx]
      have hrec := ih (pre ++ [a]) fuel a.seq (by rw [hs, append_assoc]; rfl) hread hlater
        (Nat.lt_of_succ_lt_succ hfuel)
      refine wp_bind (fun advs s hs' hgot => ?_) (wp_mono (fun _ h => h) (fun _ _ _ h => h) ?_ hrec)
      swap
      · intro _ _ _ hbad hf
        obtain ⟨x, hx, hnone⟩ := hbad hf
        exact ⟨x, mem_cons_of_mem _ hx, hnone⟩
      obtain ⟨got, hprefix, hreads, hall⟩ := hgot
      exact ⟨hs', a :: got, (prefix_cons_inj a).mpr hprefix, .cons ⟨rfl, hadv⟩ hreads,
        fun hf => by rw [hall hf]⟩
    · exact ⟨rfl, unless_fault hc⟩
    · exact ⟨rfl, [], nil_prefix, .nil, unless_fault hc⟩

/-- What the loop of `listPager` has made of these dead letters. -/
def Resolved (Z : QueueDeps) (kind : TaskKind T) (b : Broker StreamName QueueMsg) (cfg : OptionConfig)
    (l : List (Stored QueueMsg)) (tasks : List (FailedTask T)) : Prop :=
  (l ≠ [] → (b kind.source).isSome = true) ∧ (∀ a ∈ l, legible Z kind b a = true) ∧ Lists Z kind b (inCluster kind cfg) l tasks

variable (kind) in
theorem legible_of {a : Stored QueueMsg} {n : ℕ} {src : MsgStream QueueMsg} (hn : Z.unmarshalAdvisory a.msg.data = some n)
    (hsrc : b kind.source = some src) : legible Z kind b a = (src.find n).all fun m => (kind.unmarshal m.msg.data).isSome := by
  unfold legible originalOf
  rw [hn, hsrc]
  rfl

variable (kind) in
theorem failedTask_of {a : Stored QueueMsg} {n : ℕ} {src : MsgStream QueueMsg} (hn : Z.unmarshalAdvisory a.msg.data = some n)
    (hsrc : b kind.source = some src) : failedTask Z kind b a = (src.find n).bind fun m => kind.unmarshal m.msg.data := by
  unfold failedTask originalOf
  rw [hn, hsrc]
  rfl

variable {tasks : List (FailedTask T)} {l : List (Stored QueueMsg)} {cfg : OptionConfig}

theorem Resolved.skip {a : Stored QueueMsg}
    (h : Resolved Z kind b cfg l tasks) (hsrc : (b kind.source).isSome = true) (hleg : legible Z kind b a = true)
    (hskip : ∀ t, failedTask Z kind b a = some t → inCluster kind cfg t = false) : Resolved Z kind b cfg (a :: l) tasks := by
  obtain ⟨-, hall, hlists⟩ := h
  refine ⟨fun _ => hsrc, forall_mem_cons.mpr ⟨hleg, hall⟩, fun f hf => ?_, fun x hx t ht hacc => ?_⟩
  · obtain ⟨x, hx, hrest⟩ := hlists.sound f hf
    exact ⟨x, mem_cons_of_mem _ hx, hrest⟩
  · rcases mem_cons.mp hx with rfl | hx
    · rw [hskip t ht] at hacc
      cases hacc
    · exact hlists.complete x hx t ht hacc

theorem Resolved.take {a : Stored QueueMsg}
    {f : FailedTask T} (h : Resolved Z kind b cfg l tasks) (hsrc : (b kind.source).isSome = true)
    (hleg : legible Z kind b a = true) (hseq : f.sequence = a.seq) (htask : failedTask Z kind b a = some f.task)
    (hin : inCluster kind cfg f.task = true) : Resolved Z kind b cfg (a :: l) (f :: tasks) := by
  obtain ⟨-, hall, hlists⟩ := h
  refine ⟨fun _ => hsrc, forall_mem_cons.mpr ⟨hleg, hall⟩, fun g hg => ?_, fun x hx t ht hacc => ?_⟩
  · rcases mem_cons.mp hg with rfl | hg
    · exact ⟨a, mem_cons_self, hseq, htask, hin⟩
    · obtain ⟨x, hx, hrest⟩ := hlists.sound g hg
      exact ⟨x, mem_cons_of_mem _ hx, hrest⟩
  · rcases mem_cons.mp hx with rfl | hx
    · rw [htask] at ht
      exact ⟨f, mem_cons_self, hseq, Option.some.inj ht⟩
    · obtain ⟨g, hg, hrest⟩ := hlists.complete x hx t ht hacc
      exact ⟨g, mem_cons_of_mem _ hg, hrest⟩

variable (kind b ok) in
theorem resolveAdvisories_wp (cfg : OptionConfig) : ∀ {l : List (Stored QueueMsg)} {advs : List DlqAdvisory},
    List.Forall₂ (ReadsAs Z) l advs → (resolveAdvisories Z kind cfg advs).Wp queueSem () ok (fun s => s = b)
      (fun tasks _ => Resolved Z kind b cfg l tasks)
      (fun _ _ => Faultless ok → (b kind.source).isSome = true → ∃ a ∈ l, legible Z kind b a = false) b := by
  intro l advs h
  induction h with
  | nil =>
    refine ⟨rfl, fun hne => absurd rfl hne, by simp, by simp, by simp⟩
  | @cons a adv l advs hread _ ih =>
    obtain ⟨hseq, hn⟩ := hread
    refine ⟨rfl, fun c hc => ?_⟩
    -- the rest of the loop, with what its failure says
    have hrest := wp_mono (fun _ h => h) (fun _ _ _ h => h) (fun (_ : Err) _ _ hbad hf hsrc =>
      show ∃ x ∈ a :: l, legible Z kind b x = false by
        obtain ⟨x, hx, hill⟩ := hbad hf hsrc
        exact ⟨x, mem_cons_of_mem _ hx, hill⟩) ih
    rcases hsrc : b kind.source with _ | src
    · have hexec : queueSem.exec () (.read kind.source adv.sourceSeq) c b = (Broker.answer (.error .streamNotFound) c, b) :=
        (queueSem_exec _ _ _).trans (Broker.exec_read_missing hsrc)
      rw [hexec]
      rcases c with _ | d | k
      · exact ⟨rfl, by simp⟩
      · exact ⟨rfl, unless_fault hc⟩
      · exact ⟨rfl, unless_fault hc⟩
    have hsome : (b kind.source).isSome = true := by rw [hsrc]; rfl
    have hleg := legible_of kind hn hsrc
    have htask := failedTask_of kind hn hsrc
    rw [hsrc] at hrest
    have hexec : queueSem.exec () (.read kind.source adv.sourceSeq) c b =
        (Broker.answer (Broker.found (src.find adv.sourceSeq)) c, b) := (queueSem_exec _ _ _).trans (Broker.exec_read hsrc)
    rw [hexec]
    rcases c with _ | d | k
    · rcases hfind : src.find adv.sourceSeq with _ | m
      · rw [hfind] at hleg htask
        refine wp_mono (fun _ h => h) (fun tasks _ _ hres => ?_) (fun _ _ _ h => h) hrest
        refine hres.skip hsome hleg fun t ht => ?_
        rw [htask] at ht
        cases ht
      rw [hfind] at hleg htask
      dsimp only [Broker.answer, Broker.found]
      rcases hm : kind.unmarshal m.msg.data with _ | task
      · refine ⟨rfl, fun _ _ => ⟨a, mem_cons_self, ?_⟩⟩
        rw [hleg]
        show (kind.unmarshal m.msg.data).isSome = false
        rw [hm]
        rfl
      have hleg' : legible Z kind b a = true := by
        rw [hleg]
        show (kind.unmarshal m.msg.data).isSome = true
        rw [hm]
        rfl
      have htask' : failedTask Z kind b a = some task := by
        rw [htask]
        exact hm
      by_cases hother : cfg.cluster ≠ [] ∧ kind.cluster task ≠ cfg.cluster
      · simp only [if_pos hother]
        refine wp_mono (fun _ h => h) (fun tasks _ _ hres => ?_) (fun _ _ _ h => h) hrest
        refine hres.skip hsome hleg' fun t ht => ?_
        rw [htask'] at ht
        cases ht
        simp [inCluster, hother.1, hother.2]
      · simp only [if_neg hother]
        refine wp_bind (fun tasks s hs hres => ?_) hrest
        refine ⟨hs, hres.take hsome hleg' hseq htask' ?_⟩
        unfold inCluster
        rw [Bool.or_eq_true, decide_eq_true_eq, decide_eq_true_eq]
        by_contra hnot
        rw [not_or] at hnot
        exact hother hnot
    · exact ⟨rfl, unless_fault hc⟩
    · exact ⟨rfl, unless_fault hc⟩

/-- What a listing returns: the accepted tasks, or nothing where it cannot read. -/
def ListedTasks (Z : QueueDeps) (kind : TaskKind T) (b : Broker StreamName QueueMsg) (accepts : T → Bool)
    (tasks : List (FailedTask T)) : Prop :=
  (readable Z kind b = true ∧ Lists Z kind b accepts (advisories kind b) tasks) ∨ (readable Z kind b = false ∧ tasks = [])

theorem ListedTasks.of_resolved (hdlq : (b kind.dlq).isSome = true)
    (h : Resolved Z kind b cfg (advisories kind b) tasks) : ListedTasks Z kind b (inCluster kind cfg) tasks := by
  obtain ⟨hsrc, hall, hlists⟩ := h
  cases hs : (b kind.source).isSome with
  | true => exact .inl ⟨readable_iff.mpr ⟨hs, hdlq, hall⟩, hlists⟩
  | false =>
    refine .inr ⟨?_, ?_⟩
    · unfold readable
      rw [hs]
      rfl
    -- without originals there can be no dead letter here
    have hnil : advisories kind b = [] := by
      by_contra hne
      rw [hsrc hne] at hs
      cases hs
    rw [hnil] at hlists
    refine eq_nil_iff_forall_not_mem.mpr fun f hf => ?_
    obtain ⟨a, ha, -⟩ := hlists.sound f hf
    cases ha

theorem Lists.perm {tasks tasks' : List (FailedTask T)} (hp : tasks'.Perm tasks)
    (h : Lists Z kind b accepts l tasks) : Lists Z kind b accepts l tasks' :=
  ⟨fun f hf => h.sound f (hp.mem_iff.mp hf), fun a ha t ht hacc => by
    obtain ⟨f, hf, hrest⟩ := h.complete a ha t ht hacc
    exact ⟨f, hp.mem_iff.mpr hf, hrest⟩⟩

theorem ListedTasks.perm {tasks tasks' : List (FailedTask T)} (hp : tasks'.Perm tasks) (h : ListedTasks Z kind b accepts tasks) :
    ListedTasks Z kind b accepts tasks' := by
  rcases h with ⟨hr, hlists⟩ | ⟨hr, rfl⟩
  · exact .inl ⟨hr, hlists.perm hp⟩
  · exact .inr ⟨hr, hp.eq_nil⟩

theorem ListedTasks.filter (wanted : T → Bool) (h : ListedTasks Z kind b accepts tasks) :
    ListedTasks Z kind b (fun t => accepts t && wanted t) (tasks.filter fun f => wanted f.task) := by
  rcases h with ⟨hr, hlists⟩ | ⟨hr, rfl⟩
  · refine .inl ⟨hr, fun f hf => ?_, fun a ha t ht hacc => ?_⟩
    · obtain ⟨hmem, hw⟩ := mem_filter.mp hf
      obtain ⟨a, ha, hseq, htask, hacc⟩ := hlists.sound f hmem
      exact ⟨a, ha, hseq, htask, by rw [hacc, hw]; rfl⟩
    · rw [Bool.and_eq_true] at hacc
      obtain ⟨f, hf, hseq, rfl⟩ := hlists.complete a ha t ht hacc.1
      exact ⟨f, mem_filter.mpr ⟨hf, hacc.2⟩, hseq, rfl⟩
  · exact .inr ⟨hr, rfl⟩

theorem listFailedTasks_wp (cfg : OptionConfig) {fuel : ℕ} (hfuel : (advisories kind b).length < fuel) :
    (listFailedTasks Z kind fuel cfg).Wp queueSem () ok (fun s => s = b)
      (fun tasks _ => ListedTasks Z kind b (inCluster kind cfg) tasks)
      (fun _ _ => Faultless ok → readable Z kind b = false) b := by
  refine ⟨rfl, fun c hc => ?_⟩
  rcases hdlq : b kind.dlq with _ | dlq
  · have hexec : queueSem.exec () (.count kind.dlq) c b = ((.error .failed : Except NatsErr ℕ), b) := by
      show Broker.exec route (.count kind.dlq) c b = _
      simp only [Broker.exec, hdlq]
      cases c <;> rfl
    rw [hexec]
    refine ⟨rfl, fun _ => ?_⟩
    unfold readable
    rw [hdlq, Option.isSome_none, Bool.and_false, Bool.false_and]
  have hmsgs : advisories kind b = dlq.msgs := by
    unfold advisories
    rw [hdlq]
    rfl
  have hsome : (b kind.dlq).isSome = true := by rw [hdlq]; rfl
  have hexec : queueSem.exec () (.count kind.dlq) c b =
      ((c.elim (.ok dlq.msgs.length) fun _ => .error .failed : Except NatsErr ℕ), b) := by
    show Broker.exec route (.count kind.dlq) c b = _
    simp only [Broker.exec, hdlq]
    cases c <;> rfl
  rw [hexec]
  cases c with
  | some d => exact ⟨rfl, unless_fault hc⟩
  | none =>
    refine ⟨rfl, fun c' hc' => ?_⟩
    have hunchanged : (queueSem.exec () (.createConsumer kind.dlq) c' b).2 = b := by
      rcases c' with _ | ⟨_ | _⟩ | k <;> rfl
    rcases c' with _ | ⟨_ | _⟩ | k
    · -- the pager reads all, or fewer than were counted
      rw [hmsgs] at hfuel
      have hpager := drainPager_wp (Z := Z) ok hdlq dlq.msgs [] fuel 0 rfl (by simp)
        dlq.positive hfuel
      have hunread : ∀ a ∈ dlq.msgs, legible Z kind b a = false → readable Z kind b = false := by
        intro a ha hill
        rw [Bool.eq_false_iff]
        intro hr
        rw [(readable_iff.mp hr).2.2 a (by rw [hmsgs]; exact ha)] at hill
        cases hill
      have hdrain : (drainDLQPager Z kind fuel dlq.msgs.length).Wp queueSem () ok (fun s => s = b)
          (fun advs _ => List.Forall₂ (ReadsAs Z) dlq.msgs advs) (fun _ _ => Faultless ok → readable Z kind b = false) b := by
        refine wp_bind (fun advs s hs hgot => ?_) (wp_mono (fun _ h => h) (fun _ _ _ h => h) ?_ hpager)
        · obtain ⟨got, hprefix, hreads, hall⟩ := hgot
          have hlen := hreads.length_eq
          by_cases hshort : advs.length < dlq.msgs.length
          · rw [if_pos hshort]
            refine ⟨hs, fun hf => ?_⟩
            rw [hall hf] at hlen
            omega
          · rw [if_neg hshort]
            have hwhole : got = dlq.msgs := hprefix.eq_of_length_le (by omega)
            rw [hwhole] at hreads
            exact ⟨hs, hreads⟩
        · intro _ _ _ hbad hf
          obtain ⟨a, ha, hnone⟩ := hbad hf
          refine hunread a ha ?_
          unfold legible
          rw [hnone]
          rfl
      refine wp_bind (fun advs s hs hreads => ?_) hdrain
      rw [hs]
      have hres := resolveAdvisories_wp kind b ok cfg hreads
      refine wp_bind (fun tasks s hs htasks => ?_) (wp_mono (fun _ h => h) (fun _ _ _ h => h) ?_ hres)
      · rw [← hmsgs] at htasks
        exact ⟨hs, (ListedTasks.of_resolved hsome htasks).perm (Z.sort_perm tasks)⟩
      intro _ _ _ hbad hf
      cases hsrc : (b kind.source).isSome with
      | true =>
        obtain ⟨a, ha, hill⟩ := hbad hf hsrc
        exact hunread a ha hill
      | false =>
        unfold readable
        rw [hsrc]
        rfl
    · exact ⟨rfl, unless_fault hc'⟩
    · exact ⟨rfl, unless_fault hc'⟩
    · exact ⟨rfl, unless_fault hc'⟩

theorem loadStreamOrNil_wp (streams : Handles) (name : StreamName) :
    (loadStreamOrNil streams name).Wp queueSem () ok (fun s => s = b) (fun out _ => out.1 = false → b name = none)
      (fun _ _ => ¬ Faultless ok) b := by
  unfold loadStreamOrNil
  by_cases hmem : name ∈ streams
  · rw [if_pos hmem]
    exact ⟨rfl, nofun⟩
  rw [if_neg hmem]
  refine ⟨rfl, fun c hc => ?_⟩
  have hexec : queueSem.exec () (.load name) c b = ((if c.isSome then .error .failed
      else if (b name).isSome then .ok () else .error .streamNotFound : Except NatsErr Unit), b) := rfl
  rw [hexec]
  cases c with
  | some d => exact ⟨rfl, not_faultless hc⟩
  | none =>
    cases hname : b name with
    | none => exact ⟨rfl, fun _ => rfl⟩
    | some s => exact ⟨rfl, nofun⟩

/-- **The listing**, by a manager with any handles: it changes nothing, and fails without a fault only if it cannot
read the dead letters. -/
theorem listFailed_wp (cfg : OptionConfig) {fuel : ℕ} (hfuel : (advisories kind b).length < fuel) (streams : Handles) :
    (listFailed Z kind fuel cfg streams).Wp queueSem () ok (fun s => s = b)
      (fun out _ => ListedTasks Z kind b (inCluster kind cfg) out.1)
      (fun _ _ => Faultless ok → readable Z kind b = false) b := by
  have hload : ∀ (streams : Handles) (name : StreamName), (loadStreamOrNil streams name).Wp queueSem () ok (fun s => s = b)
      (fun out _ => out.1 = false → b name = none) (fun _ _ => Faultless ok → readable Z kind b = false) b := by
    intro streams name
    exact wp_mono (fun _ h => h) (fun _ _ _ h => h) (fun _ _ _ hbad hf => absurd hf hbad) (loadStreamOrNil_wp streams name)
  refine wp_bind (fun source s hs hsource => ?_) (hload streams kind.source)
  rw [hs]
  refine wp_bind (fun dlq s hs hdlq => ?_) (hload source.2 kind.dlq)
  rw [hs]
  by_cases hmissing : source.1 = false ∨ dlq.1 = false
  · rw [if_pos hmissing]
    refine ⟨rfl, .inr ⟨?_, rfl⟩⟩
    unfold readable
    rcases hmissing with h | h
    · rw [hsource h]
      rfl
    · rw [hdlq h, Option.isSome_none, Bool.and_false, Bool.false_and]
  · rw [if_neg hmissing]
    refine wp_bind ?_ (listFailedTasks_wp cfg hfuel)
    intro tasks s hs htasks
    exact ⟨hs, htasks⟩

end Listing

/-! ## The deletions -/

section Purge

variable {T : Type} {Z : QueueDeps} {kind : TaskKind T} {accepts : T → Bool} {b : Broker StreamName QueueMsg}
  {ok : Option NatsFault → Prop}

/-- A call under way, with these dead letters gone. -/
def Progress (Z : QueueDeps) (kind : TaskKind T) (accepts : T → Bool) (b : Broker StreamName QueueMsg) (gone : ℕ → Prop)
    (s : Broker StreamName QueueMsg) : Prop :=
  PartlyDiscarded Z kind accepts b s ∧ ∀ a ∈ advisories kind s, ¬ gone a.seq

/-- The number of a dead letter that is selected. -/
def WantedEntry (Z : QueueDeps) (kind : TaskKind T) (accepts : T → Bool) (b : Broker StreamName QueueMsg) (dlqSeq : ℕ) : Prop :=
  ∃ a ∈ advisories kind b, a.seq = dlqSeq ∧ picks Z kind accepts b a = true

variable {s : Broker StreamName QueueMsg} {gone : ℕ → Prop}

theorem Progress.keep {p : StreamName → Stored QueueMsg → Bool}
    (h : Progress Z kind accepts b gone s) (hs : PartlyDiscarded Z kind accepts b (s.keep p)) :
    Progress Z kind accepts b gone (s.keep p) :=
  ⟨hs, fun a ha => h.2 a (mem_advisories_keep.mp ha).1⟩

/-- **A deletion** of a message, which is there unless there may be faults. -/
theorem delete_wp {α : Type} {name : StreamName} {n : ℕ} {k : Except NatsErr Unit → QueueProg α}
    {I : Broker StreamName QueueMsg → Prop} {Q : α → Broker StreamName QueueMsg → Prop} (h : I s)
    (hafter : I (s.keep fun name' m => !(name' = name && m.seq = n)))
    (hthere : Faultless ok → ∃ strm m, s name = some strm ∧ strm.find n = some m) (herr : ∀ e, ∃ e', k (.error e) = .err e')
    (hgo : (k (.ok ())).Wp queueSem () ok I Q (fun _ _ => ¬ Faultless ok) (s.keep fun name' m => !(name' = name && m.seq = n))) :
    (Prog.call (.delete name n) k).Wp queueSem () ok I Q (fun _ _ => ¬ Faultless ok) s := by
  refine ⟨h, fun c hc => ?_⟩
  show (k (Broker.exec route (.delete name n) c s).1).Wp queueSem () ok I Q _ (Broker.exec route (.delete name n) c s).2
  obtain ⟨hstate, hdone, hok⟩ := Broker.exec_delete route name n c s
  cases hres : (Broker.exec route (.delete name n) c s).1 with
  | ok u =>
    rw [hdone u hres]
    exact hgo
  | error e =>
    obtain ⟨e', he'⟩ := herr e
    rw [he']
    refine ⟨?_, fun hf => ?_⟩
    · rcases hstate with hstate | hstate
      · rw [hstate]
        exact h
      · rw [hstate]
        exact hafter
    · obtain ⟨strm, m, hstrm, hfind⟩ := hthere hf
      have hanswer := hok strm m (hf c hc) hstrm hfind
      rw [hres] at hanswer
      cases hanswer

theorem deleteEntry_wp {a : Stored QueueMsg}
    (h : Progress Z kind accepts b gone s) (ha : a ∈ advisories kind s) (hab : a ∈ advisories kind b)
    (hp : picks Z kind accepts b a = true) (horig : originalOf Z kind s a = none) :
    (purgeDLQEntryBySequence.deleteEntry kind a.seq).Wp queueSem () ok (Progress Z kind accepts b gone)
      (fun _ s => ∀ x ∈ advisories kind s, x.seq ≠ a.seq) (fun _ _ => ¬ Faultless ok) s := by
  have hafter := h.keep (h.1.delete_advisory hab hp horig)
  obtain ⟨dlq, hdlq, hmem⟩ := mem_advisories.mp ha
  refine delete_wp h hafter (fun _ => ⟨dlq, a, hdlq, MsgStream.find_eq_some.mpr ⟨hmem, rfl⟩⟩) (fun e => ⟨_, rfl⟩)
    ⟨hafter, fun x hx => ?_⟩
  rw [mem_advisories_keep] at hx
  simpa using hx.2

/-- The deletion of the original, and the end. Without a fault the original was seen. -/
theorem releaseOriginal_wp (hne : kind.source ≠ kind.dlq)
    {a m : Stored QueueMsg} (h : Progress Z kind accepts b gone s) (ha : a ∈ advisories kind s) (hab : a ∈ advisories kind b)
    (hp : picks Z kind accepts b a = true) (hn : Z.unmarshalAdvisory a.msg.data = some m.seq)
    (hseen : Faultless ok → (originalOf Z kind s a).isSome = true) :
    (purgeDLQEntryBySequence.releaseOriginal kind a.seq m.seq).Wp queueSem () ok (Progress Z kind accepts b gone)
      (fun _ s => ∀ x ∈ advisories kind s, x.seq ≠ a.seq) (fun _ _ => ¬ Faultless ok) s := by
  have hafter := h.keep (h.1.delete_original hne hab hp hn)
  refine delete_wp h hafter (fun hf => ?_) (fun e => ⟨_, rfl⟩) ?_
  · obtain ⟨x, hx⟩ := Option.isSome_iff_exists.mp (hseen hf)
    obtain ⟨hseq, src, hsrc, hmem⟩ := originalOf_eq_some.mp hx
    rw [hn] at hseq
    exact ⟨src, x, hsrc, MsgStream.find_eq_some.mpr ⟨hmem, (Option.some.inj hseq).symm⟩⟩
  · refine deleteEntry_wp hafter (mem_advisories_keep.mpr ⟨ha, by simp [Ne.symm hne]⟩) hab hp ?_
    rw [Option.eq_none_iff_forall_not_mem]
    intro x hx
    obtain ⟨hx, hleft⟩ := originalOf_keep.mp hx
    have hseq := (originalOf_eq_some.mp hx).1
    rw [hn] at hseq
    simp [Option.some.inj hseq] at hleft

variable (ok) in
theorem purgeDLQEntryBySequence_wp (hne : kind.source ≠ kind.dlq) {gone : ℕ → Prop} {s : Broker StreamName QueueMsg}
    {dlqSeq : ℕ} (h : Progress Z kind accepts b gone s) (hw : WantedEntry Z kind accepts b dlqSeq) :
    (purgeDLQEntryBySequence Z kind dlqSeq).Wp queueSem () ok (Progress Z kind accepts b gone)
      (fun _ s => ∀ x ∈ advisories kind s, x.seq ≠ dlqSeq) (fun _ _ => ¬ Faultless ok) s := by
  obtain ⟨a, hab, rfl, hp⟩ := hw
  obtain ⟨-, m, t, horig, -, -⟩ := picks_iff.mp hp
  obtain ⟨hn, src, hsrc, -⟩ := originalOf_eq_some.mp horig
  obtain ⟨dlq, hdlq, hmem⟩ := mem_advisories.mp hab
  -- the streams are as the call found them, with fewer messages
  obtain ⟨p, rfl, -⟩ := id h.1
  have hdlq' : b.keep p kind.dlq = some (dlq.keep (p kind.dlq)) := by simp only [Broker.keep, hdlq, Option.map_some]
  have hsrc' : b.keep p kind.source = some (src.keep (p kind.source)) := by simp only [Broker.keep, hsrc, Option.map_some]
  refine ⟨h, fun c hc => ?_⟩
  have hread : queueSem.exec () (.read kind.dlq a.seq) c (b.keep p) =
      (Broker.answer (Broker.found ((dlq.keep (p kind.dlq)).find a.seq)) c, b.keep p) :=
    (queueSem_exec _ _ _).trans (Broker.exec_read hdlq')
  rw [hread]
  rcases c with _ | d | k
  · rcases hfind : (dlq.keep (p kind.dlq)).find a.seq with _ | a'
    · refine ⟨h, fun x hx => ?_⟩
      obtain ⟨strm, hstrm, hx⟩ := mem_advisories.mp (show x ∈ advisories kind (b.keep p) from hx)
      rw [hdlq'] at hstrm
      cases hstrm
      exact MsgStream.find_eq_none.mp hfind x hx
    -- it is the dead letter of the listing
    have hsame : a' = a := by
      have hthis := (MsgStream.find_keep.mp hfind).1
      rw [MsgStream.find_eq_some.mpr ⟨hmem, rfl⟩] at hthis
      exact (Option.some.inj hthis).symm
    subst hsame
    have hleft : a' ∈ advisories kind (b.keep p) :=
      mem_advisories.mpr ⟨_, hdlq', (MsgStream.find_eq_some.mp hfind).1⟩
    have hfound : originalOf Z kind (b.keep p) a' = (src.keep (p kind.source)).find m.seq := by
      unfold originalOf
      rw [hn, hsrc']
      rfl
    dsimp only [Broker.answer, Broker.found]
    rw [hn]
    refine ⟨h, fun c' hc' => ?_⟩
    have hread' : queueSem.exec () (.read kind.source m.seq) c' (b.keep p) =
        (Broker.answer (Broker.found ((src.keep (p kind.source)).find m.seq)) c', b.keep p) :=
      (queueSem_exec _ _ _).trans (Broker.exec_read hsrc')
    rw [hread', ← hfound]
    rcases c' with _ | d | k
    · cases hsfind : originalOf Z kind (b.keep p) a' with
      | none => exact deleteEntry_wp h hleft hab hp hsfind
      | some x => exact releaseOriginal_wp hne h hleft hab hp hn fun _ => by rw [hsfind]; rfl
    · exact ⟨h, not_faultless hc'⟩
    · exact releaseOriginal_wp hne h hleft hab hp hn (unless_fault hc')
  · exact ⟨h, not_faultless hc⟩
  · exact ⟨h, not_faultless hc⟩

variable (ok) in
/-- **The loop of `purgeDLQEntries`** goes on past failures; without one, all of it is gone. -/
theorem purgeEntries_wp (hne : kind.source ≠ kind.dlq) : ∀ (failed : List (FailedTask T)) (gone : ℕ → Prop)
    (s : Broker StreamName QueueMsg), (∀ f ∈ failed, WantedEntry Z kind accepts b f.sequence) → Progress Z kind accepts b gone s →
    (purgeEntries Z kind failed).Wp queueSem () ok (Progress Z kind accepts b gone)
      (fun _ s => Faultless ok → ∀ f ∈ failed, ∀ x ∈ advisories kind s, x.seq ≠ f.sequence) (fun _ _ => False) s := by
  intro failed
  induction failed with
  | nil =>
    intro gone s _ h
    exact ⟨h, nofun⟩
  | cons f failed ih =>
    intro gone s hw h
    have hthis := purgeDLQEntryBySequence_wp ok hne h (hw f mem_cons_self)
    have hrest : ∀ f' ∈ failed, WantedEntry Z kind accepts b f'.sequence := fun f' hf' => hw f' (mem_cons_of_mem _ hf')
    -- what one round leaves
    have hround : (purgeDLQEntryBySequence Z kind f.sequence).attempt.Wp queueSem () ok (Progress Z kind accepts b gone)
        (fun _ s => Faultless ok → ∀ x ∈ advisories kind s, x.seq ≠ f.sequence) (fun _ _ => False) s :=
      wp_attempt (wp_mono (fun _ h => h) (fun _ _ _ h _ => h) (fun _ _ _ h hf => absurd hf h) hthis)
    refine wp_bind (fun out s hs hout => ?_) hround
    -- the rounds that follow keep it so
    have hlater := ih (fun n => gone n ∨ (Faultless ok ∧ n = f.sequence)) s hrest ⟨hs.1, fun a ha hgone => by
      rcases hgone with hgone | ⟨hf, hgone⟩
      · exact hs.2 a ha hgone
      · exact hout hf a ha hgone⟩
    have hall : (purgeEntries Z kind failed).Wp queueSem () ok (Progress Z kind accepts b gone)
        (fun _ s => Faultless ok → ∀ f' ∈ f :: failed, ∀ x ∈ advisories kind s, x.seq ≠ f'.sequence) (fun _ _ => False) s := by
      refine wp_mono (fun s hs => ⟨hs.1, fun a ha hgone => hs.2 a ha (.inl hgone)⟩) ?_ (fun _ _ _ h => h) hlater
      intro _ s hs hall hf
      refine forall_mem_cons.mpr ⟨fun x hx hseq => ?_, hall hf⟩
      exact hs.2 x hx (.inr ⟨hf, hseq⟩)
    refine wp_bind ?_ hall
    intro rest s hs hgone
    exact ⟨hs, hgone⟩

/-- **A call**: it lists the dead letters, and deletes what is listed. -/
theorem discard_wp (hne : kind.source ≠ kind.dlq) {list : QueueProg (List (FailedTask T) × Handles)} {text : Err → Err}
    (hlist : list.Wp queueSem () ok (fun s => s = b) (fun out _ => ListedTasks Z kind b accepts out.1)
      (fun _ _ => Faultless ok → ∀ a ∈ advisories kind b, picks Z kind accepts b a = false) b) :
    ((list.mapErr text).bind fun out => purgeDLQEntries Z kind out.2 out.1).Wp queueSem () ok (PartlyDiscarded Z kind accepts b)
      (fun _ s => Faultless ok → s = discarded Z kind accepts b) (fun _ s => Faultless ok → s = discarded Z kind accepts b) b := by
  have hnothing : (∀ a ∈ advisories kind b, picks Z kind accepts b a = false) → b = discarded Z kind accepts b :=
    fun h => PartlyDiscarded.start.eq_discarded h
  have hlisting : (list.mapErr text).Wp queueSem () ok (PartlyDiscarded Z kind accepts b)
      (fun out s => s = b ∧ ListedTasks Z kind b accepts out.1) (fun _ s => Faultless ok → s = discarded Z kind accepts b) b := by
    refine wp_mapErr (wp_mono ?_ (fun _ _ hs h => ⟨hs, h⟩) ?_ hlist)
    · rintro s rfl
      exact PartlyDiscarded.start
    · rintro e s rfl hbad hf
      exact hnothing (hbad hf)
  refine wp_bind (fun out s _ hout => ?_) hlisting
  obtain ⟨rfl, htasks⟩ := hout
  have hpicked : ∀ a ∈ advisories kind s, picks Z kind accepts s a = true → ∃ f ∈ out.1, f.sequence = a.seq := by
    intro a ha hp
    obtain ⟨hr, m, t, hm, hmt, hacc⟩ := picks_iff.mp hp
    rcases htasks with ⟨-, hlists⟩ | ⟨hr', -⟩
    · obtain ⟨f, hf, hseq, -⟩ := hlists.complete a ha t (failedTask_eq_some.mpr ⟨m, hm, hmt⟩) hacc
      exact ⟨f, hf, hseq⟩
    · rw [hr] at hr'
      cases hr'
  have hempty : out.1 = [] → s = discarded Z kind accepts s := by
    intro hnil
    refine hnothing fun a ha => Bool.eq_false_iff.mpr fun hp => ?_
    obtain ⟨f, hf, -⟩ := hpicked a ha hp
    rw [hnil] at hf
    cases hf
  unfold purgeDLQEntries
  by_cases hlen : out.1.length = 0
  · rw [if_pos hlen]
    exact ⟨PartlyDiscarded.start, fun _ => hempty (length_eq_zero_iff.mp hlen)⟩
  rw [if_neg hlen]
  -- a task was listed, so that both streams are there
  rcases htasks with ⟨hr, hlists⟩ | ⟨-, hnil⟩
  swap
  · rw [hnil] at hlen
    exact absurd rfl hlen
  obtain ⟨hsrc, hdlq, -⟩ := readable_iff.mp hr
  have hload : ∀ (streams : Handles) (name : StreamName), (loadStreamOrNil streams name).Wp queueSem () ok
      (PartlyDiscarded Z kind accepts s) (fun out s' => s' = s ∧ (out.1 = false → s name = none))
      (fun _ s' => Faultless ok → s' = discarded Z kind accepts s) s := by
    intro streams name
    refine wp_mono ?_ (fun _ _ hs h => ⟨hs, h⟩) (fun _ _ _ hbad hf => absurd hf hbad) (loadStreamOrNil_wp streams name)
    rintro s' rfl
    exact PartlyDiscarded.start
  refine wp_bind (fun dlq s' _ hd => ?_) (hload out.2 kind.dlq)
  obtain ⟨rfl, hd⟩ := hd
  refine wp_bind (fun source s' _ hs => ?_) (hload dlq.2 kind.source)
  obtain ⟨rfl, hs⟩ := hs
  have hthere : ¬ (dlq.1 = false ∨ source.1 = false) := by
    rintro (h | h)
    · rw [hd h] at hdlq
      cases hdlq
    · rw [hs h] at hsrc
      cases hsrc
  rw [if_neg hthere]
  have hwanted : ∀ f ∈ out.1, WantedEntry Z kind accepts s' f.sequence := by
    intro f hf
    obtain ⟨a, ha, hseq, htask, hacc⟩ := hlists.sound f hf
    obtain ⟨m, hm, hmt⟩ := failedTask_eq_some.mp htask
    exact ⟨a, ha, hseq.symm, picks_iff.mpr ⟨hr, m, f.task, hm, hmt, hacc⟩⟩
  have hloop := purgeEntries_wp ok hne out.1 (fun _ => False) s' hwanted ⟨PartlyDiscarded.start, fun _ _ h => h⟩
  have hdone : (purgeEntries Z kind out.1).Wp queueSem () ok (PartlyDiscarded Z kind accepts s')
      (fun _ s => Faultless ok → s = discarded Z kind accepts s') (fun _ s => Faultless ok → s = discarded Z kind accepts s') s' := by
    refine wp_mono (fun _ h => h.1) ?_ (fun _ _ _ h => h.elim) hloop
    intro _ s hs hgone hf
    refine hs.1.eq_discarded fun a ha => Bool.eq_false_iff.mpr fun hp => ?_
    obtain ⟨p, rfl, -⟩ := hs.1
    obtain ⟨f, hfm, hseq⟩ := hpicked a (mem_advisories_keep.mp ha).1 hp
    exact hgone hf f hfm a ha hseq.symm
  refine wp_bind (fun purged s hs hall => ?_) hdone
  cases purged.2 with
  | nil => exact ⟨hs, hall⟩
  | cons e es => exact ⟨hs, hall⟩

end Purge

/-! ## The two calls -/

/-- A call of an operator or of a consumer. -/
inductive DiscardCall where
  | wal (cfg : OptionConfig)
  | backup (cfg : OptionConfig)

namespace DiscardCall

variable (Z : QueueDeps)

/-- The code of it. -/
def prog (fuel : ℕ) (streams : Handles) : DiscardCall → QueueProg ℕ
  | wal cfg => discardFailedWALTasks Z fuel cfg streams
  | backup cfg => discardFailedBackupTasks Z fuel cfg streams

/-- The WAL tasks that the options select; names of files need the name of a cluster. -/
def walAccepts (cfg : OptionConfig) (t : WALTask) : Bool :=
  (cfg.wals = [] || cfg.cluster ≠ []) && (inCluster (walTasks Z) cfg t && (cfg.wals = [] || t.walName ∈ cfg.wals))

/-- The backup tasks that the options select; there must be no names of files. -/
def backupAccepts (cfg : OptionConfig) (t : BackupTask) : Bool := cfg.wals = [] && inCluster (backupTasks Z) cfg t

/-- The dead letters of its kind. -/
def letters (b : Broker StreamName QueueMsg) : DiscardCall → List (Stored QueueMsg)
  | wal _ => advisories (walTasks Z) b
  | backup _ => advisories (backupTasks Z) b

/-- The message that a dead letter names, if it is there. -/
def original (b : Broker StreamName QueueMsg) (a : Stored QueueMsg) : DiscardCall → Option (Stored QueueMsg)
  | wal _ => originalOf Z (walTasks Z) b a
  | backup _ => originalOf Z (backupTasks Z) b a

/-- The dead letter is selected. -/
def selects (b : Broker StreamName QueueMsg) (a : Stored QueueMsg) : DiscardCall → Bool
  | wal cfg => picks Z (walTasks Z) (walAccepts Z cfg) b a
  | backup cfg => picks Z (backupTasks Z) (backupAccepts Z cfg) b a

/-- Everything but the dead letters that are selected and their originals. -/
def leaves (b : Broker StreamName QueueMsg) : DiscardCall → Broker StreamName QueueMsg
  | wal cfg => discarded Z (walTasks Z) (walAccepts Z cfg) b
  | backup cfg => discarded Z (backupTasks Z) (backupAccepts Z cfg) b

def MayLeave (b s : Broker StreamName QueueMsg) : DiscardCall → Prop
  | wal cfg => PartlyDiscarded Z (walTasks Z) (walAccepts Z cfg) b s
  | backup cfg => PartlyDiscarded Z (backupTasks Z) (backupAccepts Z cfg) b s

variable {Z} {b : Broker StreamName QueueMsg} {ok : Option NatsFault → Prop}

theorem picks_of_none {T : Type} {kind : TaskKind T} {accepts : T → Bool} (hno : ∀ t, accepts t = false)
    (a : Stored QueueMsg) : picks Z kind accepts b a = false := by
  rw [Bool.eq_false_iff]
  intro hp
  obtain ⟨-, -, t, -, -, hacc⟩ := picks_iff.mp hp
  rw [hno t] at hacc
  cases hacc

variable {fuel : ℕ}

theorem wal_wp (cfg : OptionConfig) (hfuel : (advisories (walTasks Z) b).length < fuel) (streams : Handles) :
    (discardFailedWALTasks Z fuel cfg streams).Wp queueSem () ok (PartlyDiscarded Z (walTasks Z) (walAccepts Z cfg) b)
      (fun _ s => Faultless ok → s = discarded Z (walTasks Z) (walAccepts Z cfg) b)
      (fun _ s => Faultless ok → s = discarded Z (walTasks Z) (walAccepts Z cfg) b) b := by
  refine discard_wp (by intro h; cases h) ?_
  unfold listFailedWALTasks
  by_cases hbad : cfg.wals ≠ [] ∧ cfg.cluster = []
  · rw [if_pos hbad]
    refine ⟨rfl, fun _ a _ => picks_of_none (fun t => ?_) a⟩
    simp [walAccepts, hbad.1, hbad.2]
  rw [if_neg hbad]
  have hvalid : cfg.wals = [] ∨ cfg.cluster ≠ [] := by
    by_contra hnot
    rw [not_or, not_not] at hnot
    exact hbad hnot
  refine wp_bind (fun out s hs htasks => ?_) (wp_mono (fun _ h => h) (fun _ _ _ h => h)
    (fun _ _ _ hill hf a _ => picks_unreadable (hill hf) a) (listFailed_wp cfg hfuel streams))
  refine ⟨hs, ?_⟩
  by_cases hwals : cfg.wals = []
  · have hacc : walAccepts Z cfg = inCluster (walTasks Z) cfg := by
      funext t
      simp [walAccepts, hwals]
    rw [hacc]
    simpa only [if_pos hwals] using htasks
  · have hacc : walAccepts Z cfg = fun t => inCluster (walTasks Z) cfg t && decide (t.walName ∈ cfg.wals) := by
      funext t
      simp [walAccepts, hwals, hvalid.resolve_left hwals]
    rw [hacc]
    simpa only [if_neg hwals] using htasks.filter fun t => decide (t.walName ∈ cfg.wals)

theorem backup_wp (cfg : OptionConfig) (hfuel : (advisories (backupTasks Z) b).length < fuel) (streams : Handles) :
    (discardFailedBackupTasks Z fuel cfg streams).Wp queueSem () ok (PartlyDiscarded Z (backupTasks Z) (backupAccepts Z cfg) b)
      (fun _ s => Faultless ok → s = discarded Z (backupTasks Z) (backupAccepts Z cfg) b)
      (fun _ s => Faultless ok → s = discarded Z (backupTasks Z) (backupAccepts Z cfg) b) b := by
  refine discard_wp (by intro h; cases h) ?_
  unfold listFailedBackupTasks
  by_cases hbad : cfg.wals ≠ []
  · rw [if_pos hbad]
    refine ⟨rfl, fun _ a _ => picks_of_none (fun t => ?_) a⟩
    simp [backupAccepts, hbad]
  rw [if_neg hbad]
  have hacc : backupAccepts Z cfg = inCluster (backupTasks Z) cfg := by
    funext t
    simp [backupAccepts, not_not.mp hbad]
  rw [hacc]
  exact wp_mono (fun _ h => h) (fun _ _ _ h => h) (fun _ _ _ hill hf a _ => picks_unreadable (hill hf) a)
    (listFailed_wp cfg hfuel streams)

variable (ok) in
/-- **What a call leaves**, at any time and whatever fails, and at its end if nothing fails. -/
theorem prog_wp {fuel : ℕ} (call : DiscardCall) (hfuel : (call.letters Z b).length < fuel) (streams : Handles) :
    (call.prog Z fuel streams).Wp queueSem () ok (fun s => call.MayLeave Z b s)
      (fun _ s => Faultless ok → s = call.leaves Z b) (fun _ s => Faultless ok → s = call.leaves Z b) b := by
  cases call with
  | wal cfg => exact wal_wp cfg hfuel streams
  | backup cfg => exact backup_wp cfg hfuel streams

theorem eval_prog (call : DiscardCall) (hfuel : (call.letters Z b).length < fuel) (streams : Handles) :
    ((call.prog Z fuel streams).eval queueSem () (fun _ => none) b).2 = call.leaves Z b := by
  have hwp := prog_wp (fun c => c = none) call hfuel streams
  obtain ⟨-, hret, herr⟩ := hwp.eval (fun _ => none) fun _ => rfl
  cases hout : ((call.prog Z fuel streams).eval queueSem () (fun _ => none) b).1 with
  | ok n => exact hret n hout fun _ h => h
  | error e => exact herr e hout fun _ h => h

theorem letters_length_le {s : Broker StreamName QueueMsg} (call : DiscardCall) (h : call.MayLeave Z b s) :
    (call.letters Z s).length ≤ (call.letters Z b).length := by
  have hkeep : ∀ {T : Type} (kind : TaskKind T) (p : StreamName → Stored QueueMsg → Bool),
      (advisories kind (b.keep p)).length ≤ (advisories kind b).length := by
    intro T kind p
    unfold advisories Broker.keep
    cases b kind.dlq with
    | none => exact Nat.le_refl _
    | some s => exact length_filter_le _ _
  cases call with
  | wal cfg =>
    obtain ⟨p, rfl, -⟩ := h
    exact hkeep _ p
  | backup cfg =>
    obtain ⟨p, rfl, -⟩ := h
    exact hkeep _ p

end DiscardCall

/-- **Discarding again.** A call that meets no failure removes exactly the dead letters that are selected and their
originals. Let a call be cut after any number of its requests, each of which may have failed: the same call, made
again without failures, leaves what the first should have if and only if no dead letter that was selected has been
left without its original. -/
theorem discard_again_iff (Z : QueueDeps) (call : DiscardCall) (b : Broker StreamName QueueMsg) (fuel : ℕ)
    (hfuel : (call.letters Z b).length < fuel) (streams again : Handles) (cs : ℕ → Option NatsFault) (n : ℕ) :
    ((call.prog Z fuel streams).eval queueSem () (fun _ => none) b).2 = call.leaves Z b ∧
      (((call.prog Z fuel again).eval queueSem () (fun _ => none)
          ((call.prog Z fuel streams).cut queueSem () n cs b)).2 = call.leaves Z b ↔
        ∀ a ∈ call.letters Z ((call.prog Z fuel streams).cut queueSem () n cs b), call.selects Z b a = true →
          (call.original Z ((call.prog Z fuel streams).cut queueSem () n cs b) a).isSome = true) := by
  refine ⟨DiscardCall.eval_prog call hfuel streams, ?_⟩
  have hwp := DiscardCall.prog_wp (Z := Z) (b := b) (fun _ => True) call hfuel streams
  have hleft := hwp.cut n cs fun _ => trivial
  rw [DiscardCall.eval_prog call (Nat.lt_of_le_of_lt (call.letters_length_le hleft) hfuel) again]
  cases call with
  | wal cfg => exact discarded_again_iff (by intro h; cases h) hleft
  | backup cfg => exact discarded_again_iff (by intro h; cases h) hleft

/-! ## A queue with one dead letter -/

/-- A plain encoding of two names. -/
def packPair : Name → Name → Name
  | [], y => '0' :: y
  | c :: x, y => '1' :: c :: packPair x y

/-- Its inverse. -/
def unpackPair : Name → Option (Name × Name)
  | '0' :: y => some ([], y)
  | '1' :: c :: z => (unpackPair z).map fun out => (c :: out.1, out.2)
  | _ => none

theorem unpackPair_packPair (x y : Name) : unpackPair (packPair x y) = some (x, y) := by
  induction x with
  | nil => rfl
  | cons c x ih => simp only [packPair, unpackPair, ih, Option.map_some]

/-- The part of a backup task after the name. -/
def packRelay (send : Bool) (policy : Option Name) : Name := (if send then '1' else '0') :: match policy with
  | none => []
  | some p => '1' :: p

/-- Its inverse. -/
def unpackRelay : Name → Option (Bool × Option Name)
  | [] => none
  | c :: rest => some (c == '1', match rest with
    | [] => none
    | _ :: p => some p)

theorem unpackRelay_packRelay (send : Bool) (policy : Option Name) :
    unpackRelay (packRelay send policy) = some (send, policy) := by
  cases send <;> cases policy <;> rfl

theorem pairwise_latestFirst {T : Type} (l : List (FailedTask T)) :
    (l.insertionSort fun a b => b.timestamp ≤ a.timestamp).Pairwise fun a b => b.timestamp ≤ a.timestamp := by
  have htotal : Std.Total fun a b : FailedTask T => b.timestamp ≤ a.timestamp := ⟨fun a b => Int.le_total _ _⟩
  have htrans : IsTrans (FailedTask T) fun a b => b.timestamp ≤ a.timestamp := ⟨fun a b c h h' => Int.le_trans h' h⟩
  exact pairwise_insertionSort _ l

/-- Messages in a plain encoding; a message was stored at the time of its number. -/
def plainQueue : QueueDeps where
  unmarshalAdvisory data := some data.length
  unmarshalWALTask data := (unpackPair data).map fun out => ⟨out.1, out.2⟩
  unmarshalBackupTask data := (unpackPair data).bind fun out => (unpackRelay out.2).map fun relay => ⟨out.1, relay.1, relay.2⟩
  marshalAdvisory n := List.replicate n '*'
  marshalWALTask t := packPair t.clusterName t.walName
  marshalBackupTask t := packPair t.clusterName (packRelay t.sendToTier2 t.tier2CompressionPolicy)
  timestamp _ n := n
  sortByTimestamp l := l.insertionSort fun a b => b.timestamp ≤ a.timestamp
  unmarshal_advisory n := by rw [List.length_replicate]
  unmarshal_wal t := by rw [unpackPair_packPair]; rfl
  unmarshal_backup t := by rw [unpackPair_packPair, Option.bind_some, unpackRelay_packRelay]; rfl
  sort_perm l := List.perm_insertionSort _ l
  sort_sorted l := pairwise_latestFirst l

def streamOf (l : List QueueMsg) : MsgStream QueueMsg := l.foldl MsgStream.append MsgStream.empty

def oneFailed (cluster : Name) (task : BackupTask) : Broker StreamName QueueMsg
  | .backup => some (streamOf [⟨backupSubject cluster, plainQueue.marshalBackupTask task, []⟩])
  | .dlqBackup => some (streamOf [⟨backupAdvisorySubject, plainQueue.marshalAdvisory 1, []⟩])
  | _ => none

/-- An operator discards everything. -/
def discardAll : QueueProg ℕ := (DiscardCall.backup {}).prog plainQueue 2 []

def failedRelay : Broker StreamName QueueMsg := oneFailed "c".toList ⟨"c".toList, true, none⟩

set_option maxRecDepth 10000 in
theorem discard_again_before_deletion : ((DiscardCall.backup {}).letters plainQueue failedRelay).length < 2 ∧
    (discardAll.eval queueSem () (fun _ => none) (discardAll.cut queueSem () 9 (fun _ => none) failedRelay)).2 =
      (DiscardCall.backup {}).leaves plainQueue failedRelay :=
  ⟨by decide +kernel, (discard_again_iff plainQueue (.backup {}) failedRelay 2 (by decide +kernel) [] [] (fun _ => none) 9).2.mpr
    (by decide +kernel)⟩

set_option maxRecDepth 10000 in
/-- **Cut between its two deletions**: the original is gone, and the listing of the second call skips the dead letter,
which stays for good. -/
theorem discard_again_leaves_advisory :
    (((discardAll.cut queueSem () 10 (fun _ => none) failedRelay) .backup).map fun s => s.msgs.length) = some 0 ∧
      (((discardAll.eval queueSem () (fun _ => none) (discardAll.cut queueSem () 10 (fun _ => none) failedRelay)).2
        .dlqBackup).map fun s => s.msgs.length) = some 1 ∧
      (((discardAll.eval queueSem () (fun _ => none) failedRelay).2 .dlqBackup).map fun s => s.msgs.length) = some 0 := by
  decide +kernel

end Klio

import Klio.Model.Recovery
import Klio.Proof.Download

/-!
# Which file a restore places

The tiers are asked in turn, and a tier that does not have the complete file is asked for the partial
one before the next tier is asked at all. So a partial file is placed although a complete one is
available exactly if the tier that comes first has only the partial one.

* `archiveOf_image`, `archiveOf_missing`: what a tier holds, in terms of its files.
* `served`, `gives_restoreFromTier`: what one tier serves.
* `gives_restoreWAL`: what a restore places, unless something fails.
* `restore_complete_iff`: when it is complete.
-/

namespace Klio

open Lib Prog

variable {cfg : RecoveryConfig} {held : Archives} {t : WalTier} {x : Name}

section Files

variable {D : Deps} {K : Codec} {peer : Peer} {c : Name} {fs : Fs Name UInt8}

/-- A file with the payload `p` is held as this payload, padded with zeros if its name says that it is
partial. -/
theorem archiveOf_image (hacc : GetAccepted D peer c x) {n : UInt64} {d p : List UInt8}
    (hread : fs.read (getWALArchivePath c x) = some d) (him : Image K n d p) (hfits : FitsInt n) :
    archiveOf D K peer c fs x = some (p ++ List.replicate (padding x n p.length) 0) := by
  unfold archiveOf
  rw [(restoredAs_of_image hacc hread him hfits).1]

theorem archiveOf_missing (hacc : GetAccepted D peer c x) (hread : fs.read (getWALArchivePath c x) = none)
    (hdir : ¬ fs.IsDir (getWALArchivePath c x)) : archiveOf D K peer c fs x = none := by
  unfold archiveOf
  rw [download_missing hacc hread hdir]

end Files

/-- What a tier serves for a name: the complete file, or else the partial one. -/
def served (held : Archives) (x : Name) (t : WalTier) : Option (WalTier × Name × List UInt8) :=
  match held t x with
  | some content => some (t, x, content)
  | none =>
    if canHavePartial x then (held t (x ++ partialSuffix)).map fun content => (t, x ++ partialSuffix, content) else none

/-- The outcome of a restore that has got this far. -/
def placed {α : Type} (s : Recovery) (a : α) : Option (WalTier × Name × List UInt8) → Except WalErr α × Recovery
  | some d => (.ok a, { s with destination := some d })
  | none => (.error .notFound, s)

/-- Something has failed, and this is not reported as a missing file. -/
def Failed {α : Type} (cs : ℕ → Option Err) (out : Except WalErr α × Recovery) : Prop :=
  (∃ e, out.1 = .error e ∧ e ≠ .notFound) ∧ ∃ n, cs n ≠ none

/-- A program ends with this outcome, unless something fails. -/
def Gives {α : Type} (cfg : RecoveryConfig) (held : Archives) (p : RecoveryProg α) (s : Recovery)
    (out : Except WalErr α × Recovery) : Prop :=
  ∀ cs, Failed cs (p.eval (recoverySem cfg held) () cs s) ∨ p.eval (recoverySem cfg held) () cs s = out

/-- An operation that fails only with an error that is passed on. -/
theorem gives_call {α : Type} {o : RecoveryOp} {k : o.Res → RecoveryProg α} {s : Recovery} {out : Except WalErr α × Recovery}
    (hgo : Gives cfg held (k (Recovery.exec cfg held o none s).1) (Recovery.exec cfg held o none s).2 out)
    (hfault : ∀ err, ∃ e, k (Recovery.exec cfg held o (some err) s).1 = .err e ∧ e ≠ .notFound) :
    Gives cfg held (.call o k) s out := by
  intro cs
  have hcall : (Prog.call o k).eval (recoverySem cfg held) () cs s = (k (Recovery.exec cfg held o (cs 0) s).1).eval
      (recoverySem cfg held) () (fun n => cs (n + 1)) (Recovery.exec cfg held o (cs 0) s).2 := rfl
  rw [hcall]
  cases h0 : cs 0 with
  | some err =>
    obtain ⟨e, hk, hne⟩ := hfault err
    rw [hk]
    refine .inl ⟨⟨e, rfl, hne⟩, 0, ?_⟩
    rw [h0]
    exact Option.some_ne_none err
  | none =>
    rcases hgo (fun n => cs (n + 1)) with ⟨herr, n, hn⟩ | hout
    · exact .inl ⟨herr, n + 1, hn⟩
    · exact .inr hout

/-- `getPartialWAL` on a tier. -/
theorem gives_getPartial (t : WalTier) (x : Name) (s : Recovery) :
    Gives cfg held ((.call (.getPartial t x) fun (r : Except WalErr Unit) => Prog.orErr id r : RecoveryProg Unit).bind fun _ => .ret false)
      s (placed s false ((held t (x ++ partialSuffix)).map fun content => (t, x ++ partialSuffix, content))) := by
  refine gives_call ?_ fun err => ⟨_, rfl, nofun⟩
  simp only [Recovery.exec, Recovery.fetch]
  cases held t (x ++ partialSuffix) <;> exact fun _ => .inr rfl

/-- **What one tier does.** -/
theorem gives_restoreFromTier (t : WalTier) (x : Name) (s : Recovery) :
    Gives cfg held (restoreFromTier t x) s (placed s false (served held x t)) := by
  refine gives_call (gives_call ?_ fun err => ⟨_, rfl, nofun⟩) fun err => ⟨_, rfl, nofun⟩
  simp only [Recovery.exec, Recovery.fetch, served]
  cases held t x with
  | some content => exact fun _ => .inr rfl
  | none =>
    cases canHavePartial x with
    | false => exact fun _ => .inr rfl
    -- the partial file is asked for here, before any other tier
    | true => exact gives_getPartial t x s

/-- The outcome of a restore from these tiers. -/
def placedFirst (held : Archives) (x : Name) (s : Recovery) (tiers : List WalTier) : Except WalErr WalTier × Recovery :=
  match tiers.findSome? (served held x) with
  | some d => (.ok d.1, ⟨d.1, some d⟩)
  | none => (.error .notFound, s)

theorem served_tier {d : WalTier × Name × List UInt8} (h : served held x t = some d) : d.1 = t := by
  unfold served at h
  split at h
  · cases h
    rfl
  · split at h
    · obtain ⟨content, -, rfl⟩ := Option.map_eq_some_iff.mp h
      rfl
    · cases h

/-- **The tiers in turn**: the first that serves the file has placed it. -/
theorem gives_tryTiers (x : Name) (tiers : List WalTier) (s : Recovery) :
    Gives cfg held (tryTiers x tiers) s (placedFirst held x s tiers) := by
  induction tiers with
  | nil => exact fun _ => .inr rfl
  | cons t tiers ih =>
    intro cs
    obtain ⟨n, hn⟩ := show ∃ n, (tryTiers x (t :: tiers)).eval (recoverySem cfg held) () cs s = _ from
      eval_bind () _ (restoreFromTier t x).attempt cs s
    rw [eval_attempt] at hn
    rw [hn, placedFirst, List.findSome?_cons]
    rcases @gives_restoreFromTier cfg held t x s cs with ⟨⟨e, he, hne⟩, hc⟩ | heval
    · rw [he]
      simp only [if_pos hne]
      exact .inl ⟨⟨e, rfl, hne⟩, hc⟩
    rw [heval]
    cases hserved : served held x t with
    | some d =>
      refine .inr ?_
      show (Except.ok t, Recovery.mk t (some d)) = (Except.ok d.1, Recovery.mk d.1 (some d))
      rw [served_tier hserved]
    | none =>
      rcases ih (fun k => cs (k + n)) with ⟨herr, m, hm⟩ | hrest
      · exact .inl ⟨herr, m + n, hm⟩
      · exact .inr hrest

/-- **What a restore places**, unless something fails. -/
theorem gives_restoreWAL (x : Name) (htiers : availableTiers cfg ≠ []) (s : Recovery) :
    Gives cfg held (restoreWAL x) s (placedFirst held x s (preferTier s.currentTier (availableTiers cfg))) := by
  refine gives_call ?_ fun err => ⟨_, rfl, nofun⟩
  change Gives cfg held (if availableTiers cfg = [] then _ else _) s _
  rw [if_neg htiers]
  intro cs
  rcases gives_tryTiers x (preferTier s.currentTier (availableTiers cfg)) s (fun n => cs (n + 1)) with ⟨herr, n, hn⟩ | hplaced
  · exact .inl ⟨herr, n + 1, hn⟩
  · exact .inr hplaced

def WalTier.other : WalTier → WalTier
  | .tier1 => .tier2
  | .tier2 => .tier1

theorem preferTier_both (t : WalTier) : preferTier t [.tier1, .tier2] = [t, t.other] := by
  cases t <;> rfl

/-- A complete file has been placed, as one of the tiers holds it. -/
def PlacedComplete (held : Archives) (x : Name) (s : Recovery) : Prop :=
  ∃ t content, held t x = some content ∧ s.destination = some (t, x, content)

/-- **The first tier has only the partial file**, and the other one has the complete one. -/
def OnlyPartialFirst (held : Archives) (x : Name) (first : WalTier) : Prop :=
  (held first x = none ∧ canHavePartial x = true ∧ held first (x ++ partialSuffix) ≠ none) ∧ held first.other x ≠ none

theorem served_complete {content : List UInt8} (h : held t x = some content) : served held x t = some (t, x, content) := by
  unfold served
  rw [h]

theorem served_padded {content : List UInt8} (h : held t x = none) (hcan : canHavePartial x = true)
    (hpadded : held t (x ++ partialSuffix) = some content) : served held x t = some (t, x ++ partialSuffix, content) := by
  unfold served
  rw [h]
  simp only [hcan, if_true, hpadded, Option.map_some]

theorem append_suffix_ne (x : Name) : x ++ partialSuffix ≠ x := by
  intro h
  have hlen := congrArg List.length h
  have hsuffix : partialSuffix.length = 8 := rfl
  rw [List.length_append] at hlen
  omega

/-- **Recovery and partial files**: with both tiers available and whatever they hold, a restore that
succeeds while a complete file is available has placed a complete one, unless the tier that comes
first has only the partial file. -/
theorem restore_complete_iff (cfg : RecoveryConfig) (held : Archives) (x : Name) (s : Recovery)
    (hboth : availableTiers cfg = [.tier1, .tier2]) :
    (∀ cs, ((restoreWAL x).eval (recoverySem cfg held) () cs s).1.isOk = true → (∃ t, held t x ≠ none) →
        PlacedComplete held x ((restoreWAL x).eval (recoverySem cfg held) () cs s).2) ↔
      ¬ OnlyPartialFirst held x s.currentTier := by
  have htiers : availableTiers cfg ≠ [] := by
    rw [hboth]
    exact List.cons_ne_nil _ _
  have hprefer : preferTier s.currentTier (availableTiers cfg) = [s.currentTier, s.currentTier.other] := by
    rw [hboth]
    exact preferTier_both _
  constructor
  · rintro hall ⟨⟨hno, hcan, hpadded⟩, hother⟩
    obtain ⟨content, hcontent⟩ := Option.ne_none_iff_exists'.mp hpadded
    rcases gives_restoreWAL x htiers s (fun _ => none) with ⟨-, n, hn⟩ | heval
    · exact hn rfl
    have hout : (restoreWAL x).eval (recoverySem cfg held) () (fun _ => none) s =
        (.ok s.currentTier, ⟨s.currentTier, some (s.currentTier, x ++ partialSuffix, content)⟩) := by
      rw [heval, hprefer]
      unfold placedFirst
      rw [List.findSome?_cons, served_padded hno hcan hcontent]
    have hplaced := hall (fun _ => none) (by rw [hout]; rfl) ⟨_, hother⟩
    rw [hout] at hplaced
    obtain ⟨t, content', -, hdest⟩ := hplaced
    have hname : x ++ partialSuffix = x := congrArg (fun d => d.2.1) (Option.some.inj hdest)
    exact append_suffix_ne x hname
  · rintro hnot cs hok ⟨t, ht⟩
    rcases gives_restoreWAL x htiers s cs with ⟨⟨e, he, -⟩, -⟩ | heval
    · rw [he] at hok
      cases hok
    rw [heval, hprefer] at hok ⊢
    cases hfirst : held s.currentTier x with
    | some content =>
      refine ⟨s.currentTier, content, hfirst, ?_⟩
      unfold placedFirst
      rw [List.findSome?_cons, served_complete hfirst]
    | none =>
      -- the complete file is on the other tier, so that the first one has no partial file either
      have hsecond : held s.currentTier.other x ≠ none := by
        by_cases htc : t = s.currentTier
        · rw [htc] at ht
          exact absurd hfirst ht
        have : t = s.currentTier.other := by
          revert htc
          cases t <;> cases s.currentTier <;> decide
        rw [← this]
        exact ht
      obtain ⟨content, hcontent⟩ := Option.ne_none_iff_exists'.mp hsecond
      have hskip : served held x s.currentTier = none := by
        unfold served
        rw [hfirst]
        by_cases hcan : canHavePartial x = true
        · have hnone : held s.currentTier (x ++ partialSuffix) = none := by
            by_contra hsome
            exact hnot ⟨⟨hfirst, hcan, hsome⟩, hsecond⟩
          simp only [hcan, if_true, hnone, Option.map_none]
        · simp only [hcan]
          rfl
      refine ⟨s.currentTier.other, content, hcontent, ?_⟩
      unfold placedFirst
      rw [List.findSome?_cons, hskip, List.findSome?_cons, served_complete hcontent]

def bothTiers : RecoveryConfig := ⟨"tier1:52000".toList, "tier2:52000".toList, true⟩

def lastSegment : Name := "000000010000000000000001".toList

/-- Tier 1 has what it had received of the segment when the primary was lost, and tier 2 the whole of
it. -/
def partialOnTier1 : Archives
  | .tier1, name => if name = lastSegment ++ partialSuffix then some [1, 0] else none
  | .tier2, name => if name = lastSegment then some [1, 2] else none

/-- Where tier 2 was preferred, the complete segment is placed. -/
theorem complete_from_tier2 :
    ((restoreWAL lastSegment).eval (recoverySem bothTiers partialOnTier1) () (fun _ => none) ⟨.tier2, none⟩).1.isOk = true ∧
      PlacedComplete partialOnTier1 lastSegment
        ((restoreWAL lastSegment).eval (recoverySem bothTiers partialOnTier1) () (fun _ => none) ⟨.tier2, none⟩).2 :=
  ⟨rfl, (restore_complete_iff bothTiers partialOnTier1 lastSegment ⟨.tier2, none⟩ (by decide)).mpr
    (fun h => absurd h.1.1 (by decide)) (fun _ => none) rfl ⟨.tier2, by decide⟩⟩

/-- A restore that asks tier 1 first succeeds with the padded partial segment. -/
theorem partial_over_complete :
    partialOnTier1 .tier2 lastSegment = some [1, 2] ∧
      (restoreWAL lastSegment).eval (recoverySem bothTiers partialOnTier1) () (fun _ => none) ⟨.tier1, none⟩ =
        (.ok .tier1, ⟨.tier1, some (.tier1, lastSegment ++ partialSuffix, [1, 0])⟩) ∧
      ¬ PlacedComplete partialOnTier1 lastSegment
        ((restoreWAL lastSegment).eval (recoverySem bothTiers partialOnTier1) () (fun _ => none) ⟨.tier1, none⟩).2 := by
  have hout : (restoreWAL lastSegment).eval (recoverySem bothTiers partialOnTier1) () (fun _ => none) ⟨.tier1, none⟩ =
      (.ok .tier1, ⟨.tier1, some (.tier1, lastSegment ++ partialSuffix, [1, 0])⟩) := by rfl
  refine ⟨by decide, hout, ?_⟩
  rintro ⟨t, content, -, hdest⟩
  have hname : lastSegment ++ partialSuffix = lastSegment := congrArg (fun d => d.2.1) (Option.some.inj hdest)
  exact append_suffix_ne lastSegment hname

end Klio

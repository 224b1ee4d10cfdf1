import Klio.Model.Initialize

/-!
# One master key

`Initialize` looks whether the configuration exists and then writes it, into whatever file is there by then. Calls that
overlap write two configurations to one file, and a call that finds a file does not know whether it is complete.

* `CfgPh`, `cfgProto`: how far a call is; `cfgCall_sat`: the calls keep to it, and write configurations that the password
  opens.
* `KeyInv`: what holds of the file, the calls and their results; `KeyInv.step`: every step keeps it, in runs that are
  `Careful`.
* `one_master_key`: in such runs the configuration stays readable, and every `Open` obtains the same key.
* `open_real_iff`: which configurations are opened with a key from one of their entries, or refused.
-/

namespace Klio

open Lib Prog List Function

variable {ι : Type} [DecidableEq ι] {Z : ConfigDeps} {password : Name}

/-! ## The calls -/

/-- How far a call is: `absent` once it has found no configuration, `found` if there is one. -/
inductive CfgPh where
  | idle
  | absent
  | writing
  | written
  | found
  | opening
  | read (content : List UInt8)
  | failed
  | ended

/-- What a call does in a phase. -/
def cfgAllowed (Z : ConfigDeps) (password : Name) (ph : CfgPh) : CfgOp → Prop
  | .mkdirAll => ph = .idle
  | .stat => ph = .idle
  | .rand _ => ph = .absent
  | .openFile => ph = .absent
  | .write bs => ph = .writing ∧ ∃ k, masterKeyOf Z password bs = .ok k
  | .close => True
  | .openRead => ph = .opening
  | .readAll => ph = .opening
  | .note .opening => ph = .idle
  | .note (.initialized ok) => ok = true → ph = .written ∨ ph = .found
  | .note (.opened (some k)) => ∃ d, ph = .read d ∧ masterKeyOf Z password d = .ok k
  | .note (.opened none) => ph = .failed ∨ ∃ d e, ph = .read d ∧ masterKeyOf Z password d = .error e

/-- The phase after an answer. -/
def cfgNext (ph : CfgPh) : (o : CfgOp) → o.Res → CfgPh
  | .stat, r => match (r : Except FsErr Unit) with
    | .ok _ => .found
    | .error .notExist => .absent
    | .error _ => .failed
  | .openFile, r => match (r : Except FsErr Unit) with
    | .ok _ => .writing
    | .error _ => .failed
  | .write _, r => match (r : Except FsErr Unit) with
    | .ok _ => .written
    | .error _ => .failed
  | .openRead, r => match (r : Except FsErr Unit) with
    | .ok _ => ph
    | .error _ => .failed
  | .readAll, r => match (r : Except FsErr (List UInt8)) with
    | .ok content => .read content
    | .error _ => .failed
  | .note .opening, _ => .opening
  | .note _, _ => .ended
  | _, _ => ph

def cfgProto (Z : ConfigDeps) (password : Name) : Proto CfgOp CfgOp.Res CfgPh := ⟨cfgAllowed Z password, cfgNext⟩

theorem recover_enveloped (masterKey passwordSalt nonce : List UInt8) :
    KlioRepositoryKey.recoverMasterKey Z password ⟨Z.hexEncode nonce,
      Z.hexEncode (Z.gcmSeal (Z.pbkdf2 password passwordSalt) nonce masterKey), Z.hexEncode passwordSalt⟩ = .ok masterKey := by
  simp [KlioRepositoryKey.recoverMasterKey, Z.hexDecode_hexEncode, Z.newCipher_pbkdf2, Z.gcmOpen_gcmSeal]

theorem createNewRepositoryConfiguration_sat :
    (createNewRepositoryConfiguration Z password).Sat (cfgProto Z password)
      (fun config ph => ph = .absent ∧ ∃ k, masterKeyOf Z password (Z.encodeJSON config) = .ok k) (fun _ _ => True) .absent := by
  refine sat_bind (Q := fun _ ph => ph = .absent) (sat_call rfl fun (r : Except Err (List UInt8)) => ?_) ?_
  · cases r with
    | error e => trivial
    | ok salt => exact rfl
  rintro masterKey ph rfl
  refine sat_bind (Q := fun key ph => ph = .absent ∧ key.recoverMasterKey Z password = .ok masterKey) ?_ ?_
  · refine sat_call rfl fun (r : Except Err (List UInt8)) => ?_
    rcases r with e | passwordSalt
    · trivial
    dsimp only
    rw [Z.newCipher_pbkdf2]
    refine sat_call rfl fun (r : Except Err (List UInt8)) => ?_
    cases r with
    | error e => trivial
    | ok nonce => exact ⟨rfl, recover_enveloped masterKey passwordSalt nonce⟩
  · rintro key ph ⟨rfl, hkey⟩
    refine ⟨rfl, masterKey, ?_⟩
    simp [masterKeyOf, Z.decode_encode, recoverMasterKey, hkey, Except.mapError]

/-- **The calls keep to the phases.** -/
theorem cfgCall_sat (call : CfgCall) :
    (call.prog Z password).Sat (cfgProto Z password) (fun _ _ => True) (fun _ _ => True) .idle := by
  cases call with
  | initializes =>
    have hbody : (initializeRepository Z password).Sat (cfgProto Z password)
        (fun _ ph => ph = .written ∨ ph = .found) (fun _ _ => True) .idle := by
      refine sat_call rfl fun (r : Except FsErr Unit) => ?_
      rcases r with e | _
      · trivial
      refine sat_bind (Q := fun existing ph => ph = if existing then CfgPh.found else .absent)
        (sat_mapErr (sat_call rfl fun (r : Except FsErr Unit) => ?_)) ?_
      · cases r with
        | ok _ => exact rfl
        | error e => cases e <;> first | exact rfl | trivial
      intro existing ph hph
      cases existing with
      | true => exact .inr hph
      | false =>
        obtain rfl : ph = .absent := hph
        refine sat_bind (sat_mapErr createNewRepositoryConfiguration_sat) ?_
        rintro config ph ⟨rfl, hkey⟩
        refine sat_call rfl fun (r : Except FsErr Unit) => ?_
        rcases r with e | _
        · trivial
        refine sat_call ⟨rfl, hkey⟩ fun (r : Except FsErr Unit) => sat_call trivial fun _ => ?_
        cases r with
        | error e => trivial
        | ok _ => exact .inl rfl
    have hatt : (initializeRepository Z password).attempt.Sat (cfgProto Z password)
        (fun r ph => r.isOk = true → ph = .written ∨ ph = .found) (fun _ _ => True) .idle :=
      sat_attempt (sat_mono hbody (fun _ _ h _ => h) fun _ _ _ hno => by cases hno)
    refine sat_bind hatt fun r ph hr => sat_call hr fun _ => trivial
  | opens =>
    refine sat_call rfl fun _ => ?_
    have hbody : (openRepository Z password).Sat (cfgProto Z password)
        (fun k ph => ∃ d, ph = .read d ∧ masterKeyOf Z password d = .ok k)
        (fun _ ph => ph = .failed ∨ ∃ d e, ph = .read d ∧ masterKeyOf Z password d = .error e) .opening := by
      refine sat_call rfl fun (r : Except FsErr Unit) => ?_
      rcases r with e | _
      · exact .inl rfl
      refine sat_call rfl fun (r : Except FsErr (List UInt8)) => sat_call trivial fun _ => ?_
      cases r with
      | error e => exact .inl rfl
      | ok d => exact sat_orErr (fun k hk => ⟨d, rfl, hk⟩) fun e he => .inr ⟨d, e, rfl, he⟩
    refine sat_bind (Q := Prog.Ends _ _) (sat_attempt hbody) fun r ph hr => ?_
    cases r with
    | ok k => exact sat_call hr fun _ => trivial
    | error e => exact sat_call hr fun _ => trivial

/-! ## The file and the results -/

/-- A call of `Open` has begun after some `Initialize` had returned without an error. -/
def OpensLater (log : List (ι × CfgNote)) (j : ι) : Prop :=
  ∃ l₁ l₂ i, log = l₁ ++ (j, .opening) :: l₂ ∧ (i, .initialized true) ∈ l₁

/-- The configuration is complete, and nobody is writing it. -/
def ConfigKept (Z : ConfigDeps) (password : Name) (s : CfgState ι) (φ : ι → CfgPh) : Prop :=
  ∃ d, s.content = some d ∧ (masterKeyOf Z password d).isOk = true ∧ ∀ i, φ i ≠ .writing

/-- **What holds of the file, the calls and their results.** -/
structure KeyInv (Z : ConfigDeps) (password : Name) (s : CfgState ι) (φ : ι → CfgPh) : Prop where
  writing : ∀ i, φ i = .writing → s.content = some [] ∧ s.offset i = 0
  single : ∀ i j, φ i = .writing → φ j = .writing → i = j
  created : ∀ i, φ i = .written ∨ φ i = .found → ConfigKept Z password s φ
  read : ∀ i d, φ i = .read d → d = [] ∨ s.content = some d ∧ ∀ j, φ j ≠ .writing
  begun : ∀ i, (i, CfgNote.opening) ∈ s.log → φ i = .opening ∨ (∃ d, φ i = .read d) ∨ φ i = .failed ∨ φ i = .ended
  ended : ∀ i r, (i, CfgNote.opened r) ∈ s.log → φ i = .ended
  initialized : ∀ i, (i, CfgNote.initialized true) ∈ s.log → ConfigKept Z password s φ
  keys : ∀ j k, (j, CfgNote.opened (some k)) ∈ s.log →
    ∃ d, s.content = some d ∧ masterKeyOf Z password d = .ok k ∧ ∀ i, φ i ≠ .writing
  later : ∀ j, OpensLater s.log j → (∀ d, φ j = .read d → (masterKeyOf Z password d).isOk = true) ∧ φ j ≠ .failed
  succeeds : ∀ j, OpensLater s.log j → (j, CfgNote.opened none) ∉ s.log

omit [DecidableEq ι] in
theorem opensLater_append {log : List (ι × CfgNote)} {x : ι × CfgNote} {j : ι} (h : OpensLater (log ++ [x]) j) :
    OpensLater log j ∨ x = (j, .opening) ∧ ∃ i, (i, CfgNote.initialized true) ∈ log := by
  obtain ⟨l₁, l₂, i, heq, hi⟩ := h
  rcases eq_nil_or_concat l₂ with rfl | ⟨l₂, y, rfl⟩
  · obtain ⟨rfl, hx⟩ := append_inj' heq rfl
    exact .inr ⟨singleton_inj.mp hx, i, hi⟩
  · rw [concat_eq_append, ← cons_append, ← append_assoc] at heq
    obtain ⟨rfl, -⟩ := append_inj' heq rfl
    exact .inl ⟨l₁, l₂, i, rfl, hi⟩

omit [DecidableEq ι] in
theorem OpensLater.opening {log : List (ι × CfgNote)} {j : ι} (h : OpensLater log j) : (j, CfgNote.opening) ∈ log := by
  obtain ⟨l₁, l₂, i, rfl, -⟩ := h
  exact mem_append_right _ mem_cons_self

omit [DecidableEq ι] in
theorem KeyInv.kept {s : CfgState ι} {φ : ι → CfgPh} (h : KeyInv Z password s φ) {j : ι} (hj : OpensLater s.log j) :
    ConfigKept Z password s φ := by
  obtain ⟨l₁, l₂, i, heq, hi⟩ := hj
  refine h.initialized i ?_
  rw [heq]
  exact mem_append_left _ hi

/-- **A careful step**: a call that creates the file finds that there still is none; a call that looks for it finds a
complete one, or none; and reading does not fail. -/
def CarefulCfgOp (Z : ConfigDeps) (password : Name) (s : CfgState ι) (c : CfgChoice) : CfgOp → Prop
  | .openFile => s.content = none
  | .stat => ∀ d ∈ s.content, (masterKeyOf Z password d).isOk = true
  | .openRead => c.fault = none
  | .readAll => c.fault = none
  | _ => True

theorem masterKeyOf_nil (Z : ConfigDeps) (password : Name) : (masterKeyOf Z password []).isOk = false := by
  unfold masterKeyOf
  cases h : Z.decodeJSON [] with
  | error e => rfl
  | ok c => exact absurd h (Z.decode_nil c)

section Steps

variable {s : CfgState ι} {φ : ι → CfgPh} {i : ι} {c : CfgChoice}

/-- A call gets into another phase, and nothing else changes. -/
theorem KeyInv.phase (h : KeyInv Z password s φ) {ph : CfgPh} (hnw : ph ≠ .writing)
    (hcreated : ph = .written ∨ ph = .found → ConfigKept Z password s φ)
    (hread : ∀ d, ph = .read d → (d = [] ∨ s.content = some d ∧ ∀ j, φ j ≠ .writing) ∧
      (OpensLater s.log i → (masterKeyOf Z password d).isOk = true))
    (hbegun : (i, CfgNote.opening) ∈ s.log → ph = .opening ∨ (∃ d, ph = .read d) ∨ ph = .failed ∨ ph = .ended)
    (hover : ∀ r, (i, CfgNote.opened r) ∈ s.log → ph = .ended) (hfailed : OpensLater s.log i → ph ≠ .failed) :
    KeyInv Z password s (update φ i ph) := by
  -- nobody starts to write
  have hwriting : ∀ j, update φ i ph j = .writing → φ j = .writing := by
    intro j hj
    rcases eq_or_ne j i with rfl | hji
    · rw [update_self] at hj
      exact absurd hj hnw
    · rwa [update_of_ne hji] at hj
  have hkept : ConfigKept Z password s φ → ConfigKept Z password s (update φ i ph) := by
    rintro ⟨d, hd, hok, hno⟩
    exact ⟨d, hd, hok, fun j hj => hno j (hwriting j hj)⟩
  constructor
  case writing => exact fun j hj => h.writing j (hwriting j hj)
  case single => exact fun j j' hj hj' => h.single j j' (hwriting j hj) (hwriting j' hj')
  case created =>
    intro j hj
    rcases eq_or_ne j i with rfl | hji
    · rw [update_self] at hj
      exact hkept (hcreated hj)
    · rw [update_of_ne hji] at hj
      exact hkept (h.created j hj)
  case read =>
    intro j d hj
    have hold : d = [] ∨ s.content = some d ∧ ∀ j, φ j ≠ .writing := by
      rcases eq_or_ne j i with rfl | hji
      · rw [update_self] at hj
        exact (hread d hj).1
      · rw [update_of_ne hji] at hj
        exact h.read j d hj
    exact hold.imp_right fun hd => ⟨hd.1, fun j' hj' => hd.2 j' (hwriting j' hj')⟩
  case begun =>
    intro j hj
    rcases eq_or_ne j i with rfl | hji
    · rw [update_self]
      exact hbegun hj
    · rw [update_of_ne hji]
      exact h.begun j hj
  case ended =>
    intro j r hj
    rcases eq_or_ne j i with rfl | hji
    · rw [update_self]
      exact hover r hj
    · rw [update_of_ne hji]
      exact h.ended j r hj
  case initialized => exact fun j hj => hkept (h.initialized j hj)
  case keys =>
    intro j k hj
    obtain ⟨d, hd, hk, hno⟩ := h.keys j k hj
    exact ⟨d, hd, hk, fun j' hj' => hno j' (hwriting j' hj')⟩
  case later =>
    intro j hj
    rcases eq_or_ne j i with rfl | hji
    · rw [update_self]
      exact ⟨fun d hd => (hread d hd).2 hj, hfailed hj⟩
    · rw [update_of_ne hji]
      exact h.later j hj
  case succeeds => exact h.succeeds

omit [DecidableEq ι] in
/-- A call that has not begun to open the repository. -/
theorem KeyInv.not_opening (h : KeyInv Z password s φ) (hph : φ i = .idle ∨ φ i = .absent ∨ φ i = .writing) :
    (i, CfgNote.opening) ∉ s.log ∧ (∀ r, (i, CfgNote.opened r) ∉ s.log) ∧ ¬ OpensLater s.log i := by
  have hno : (i, CfgNote.opening) ∉ s.log := by
    intro hi
    rcases h.begun i hi with hb | ⟨d, hb⟩ | hb | hb <;> rw [hb] at hph <;> simp at hph
  refine ⟨hno, fun r hr => ?_, fun hi => hno hi.opening⟩
  rw [h.ended i r hr] at hph
  simp at hph

/-- `Initialize` looks for the file. -/
theorem KeyInv.stat (h : KeyInv Z password s φ) (hg : CarefulCfgOp Z password s c .stat) (ha : cfgAllowed Z password (φ i) .stat) :
    KeyInv Z password (CfgState.exec i .stat c s).2
      (update φ i (cfgNext (φ i) .stat (CfgState.exec i .stat c s).1)) := by
  obtain ⟨hno, hover, hlater⟩ := h.not_opening (.inl ha)
  have hres : cfgNext (φ i) .stat (CfgState.exec i .stat c s).1 = .failed ∨
      cfgNext (φ i) .stat (CfgState.exec i .stat c s).1 = .absent ∨
      cfgNext (φ i) .stat (CfgState.exec i .stat c s).1 = .found ∧ s.content.isSome = true := by
    show cfgNext (φ i) .stat (c.orFail (if s.content.isSome then .ok () else .error .notExist)) = .failed ∨
      cfgNext (φ i) .stat (c.orFail (if s.content.isSome then .ok () else .error .notExist)) = .absent ∨
      cfgNext (φ i) .stat (c.orFail (if s.content.isSome then .ok () else .error .notExist)) = .found ∧ _
    unfold CfgChoice.orFail
    cases c.fault with
    | some k => exact .inl rfl
    | none =>
      cases hs : s.content with
      | none => exact .inr (.inl rfl)
      | some d => exact .inr (.inr ⟨rfl, rfl⟩)
  generalize cfgNext (φ i) .stat (CfgState.exec i .stat c s).1 = ph at hres
  refine h.phase ?_ ?_ ?_ (fun hi => absurd hi hno) (fun r hr => absurd hr (hover r)) fun hi => absurd hi hlater
  · rcases hres with rfl | rfl | ⟨rfl, -⟩ <;> intro hno <;> cases hno
  · intro hfound
    have hsome : s.content.isSome = true := by
      rcases hres with rfl | rfl | ⟨-, hs⟩
      · simp at hfound
      · simp at hfound
      · exact hs
    obtain ⟨d, hd⟩ := Option.isSome_iff_exists.mp hsome
    refine ⟨d, hd, hg d hd, fun j hj => ?_⟩
    -- an empty file is not complete
    have hwhole := hg [] (h.writing j hj).1
    rw [masterKeyOf_nil] at hwhole
    cases hwhole
  · rintro d rfl
    simp at hres

/-- `Initialize` creates the file. -/
theorem KeyInv.openFile (h : KeyInv Z password s φ) (hg : CarefulCfgOp Z password s c .openFile)
    (ha : cfgAllowed Z password (φ i) .openFile) :
    KeyInv Z password (CfgState.exec i .openFile c s).2
      (update φ i (cfgNext (φ i) .openFile (CfgState.exec i .openFile c s).1)) := by
  obtain ⟨hno, hover, hlater⟩ := h.not_opening (.inr (.inl ha))
  cases hc : c.fault with
  | some k =>
    have hexec : CfgState.exec i .openFile c s = ((.error .io : Except FsErr Unit), s) := by
      simp only [CfgState.exec, hc]
      rfl
    rw [hexec]
    refine h.phase (by rintro ⟨⟩) (fun hx => ?_) (fun d hd => ?_) (fun hi => absurd hi hno) (fun r hr => absurd hr (hover r))
      fun hi => absurd hi hlater
    · rcases hx with hx | hx <;> cases hx
    · cases hd
  | none =>
    have hnone : s.content = none := hg
    have hexec : CfgState.exec i .openFile c s =
        ((.ok () : Except FsErr Unit), { s with content := some [], offset := update s.offset i 0 }) := by
      simp only [CfgState.exec, hc, hnone]
      rfl
    rw [hexec]
    -- nobody has found, written or read a file
    have hnokept : ¬ ConfigKept Z password s φ := by
      rintro ⟨d, hd, -⟩
      rw [hnone] at hd
      cases hd
    have hnowriter : ∀ j, φ j ≠ .writing := by
      intro j hj
      have hd := (h.writing j hj).1
      rw [hnone] at hd
      cases hd
    constructor
    case writing =>
      intro j hj
      rcases eq_or_ne j i with rfl | hji
      · exact ⟨rfl, update_self ..⟩
      · rw [update_of_ne hji] at hj
        exact absurd hj (hnowriter j)
    case single =>
      have hall : ∀ j, update φ i CfgPh.writing j = .writing → j = i := by
        intro j hj
        by_contra hji
        rw [update_of_ne hji] at hj
        exact hnowriter j hj
      exact fun j j' hj hj' => (hall j hj).trans (hall j' hj').symm
    case created =>
      intro j hj
      rcases eq_or_ne j i with rfl | hji
      · replace hj : update φ j CfgPh.writing j = .written ∨ update φ j CfgPh.writing j = .found := hj
        rw [update_self] at hj
        rcases hj with hj | hj <;> cases hj
      · rw [update_of_ne hji] at hj
        exact absurd (h.created j hj) hnokept
    case read =>
      intro j d hj
      rcases eq_or_ne j i with rfl | hji
      · replace hj : update φ j CfgPh.writing j = .read d := hj
        rw [update_self] at hj
        cases hj
      rw [update_of_ne hji] at hj
      rcases h.read j d hj with hd | ⟨hd, -⟩
      · exact .inl hd
      · rw [hnone] at hd
        cases hd
    case begun =>
      intro j hj
      rcases eq_or_ne j i with rfl | hji
      · exact absurd hj hno
      · rw [update_of_ne hji]
        exact h.begun j hj
    case ended =>
      intro j r hj
      rcases eq_or_ne j i with rfl | hji
      · exact absurd hj (hover r)
      · rw [update_of_ne hji]
        exact h.ended j r hj
    case initialized => exact fun j hj => absurd (h.initialized j hj) hnokept
    case keys =>
      intro j k hj
      obtain ⟨d, hd, -⟩ := h.keys j k hj
      rw [hnone] at hd
      cases hd
    case later => exact fun j hj => absurd (h.kept hj) hnokept
    case succeeds => exact h.succeeds

/-- `Initialize` writes the configuration, or a part of it. -/
theorem KeyInv.write (h : KeyInv Z password s φ) {bs : List UInt8} (ha : cfgAllowed Z password (φ i) (.write bs)) :
    KeyInv Z password (CfgState.exec i (.write bs) c s).2
      (update φ i (cfgNext (φ i) (.write bs) (CfgState.exec i (.write bs) c s).1)) := by
  obtain ⟨hph, k, hk⟩ := ha
  obtain ⟨hno, hover, hlater⟩ := h.not_opening (.inr (.inr hph))
  obtain ⟨hempty, hzero⟩ := h.writing i hph
  obtain ⟨d, ph, heq, hd, hnext⟩ : ∃ d ph, (CfgState.exec i (.write bs) c s).2 =
      { s with content := some d, offset := (CfgState.exec i (.write bs) c s).2.offset } ∧
      (ph = .written ∧ d = bs ∨ ph = .failed) ∧ cfgNext (φ i) (.write bs) (CfgState.exec i (.write bs) c s).1 = ph := by
    have hpatch : ∀ x : List UInt8, Fs.patch (s.content.getD []) (s.offset i) x = x := by
      intro x
      rw [hempty, hzero]
      exact Fs.patch_append [] x
    cases hc : c.fault with
    | some n =>
      refine ⟨bs.take n, .failed, ?_, .inr rfl, ?_⟩
      · simp only [CfgState.exec, hc, hpatch]
      · simp only [CfgState.exec, CfgChoice.orFail, hc]
        rfl
    | none =>
      refine ⟨bs, .written, ?_, .inl ⟨rfl, rfl⟩, ?_⟩
      · simp only [CfgState.exec, hc, hpatch]
      · simp only [CfgState.exec, CfgChoice.orFail, hc]
        rfl
  rw [heq, hnext]
  -- it was the only writer, and nobody had found or read a complete file
  have hnowriter : ∀ j, update φ i ph j ≠ .writing := by
    intro j hj
    rcases eq_or_ne j i with rfl | hji
    · rw [update_self] at hj
      rcases hd with ⟨rfl, -⟩ | rfl <;> cases hj
    · rw [update_of_ne hji] at hj
      exact hji (h.single j i hj hph)
  have hnokept : ¬ ConfigKept Z password s φ := fun hkept => by
    obtain ⟨-, -, -, hno⟩ := hkept
    exact hno i hph
  constructor
  case writing => exact fun j hj => absurd hj (hnowriter j)
  case single => exact fun j j' hj => absurd hj (hnowriter j)
  case created =>
    intro j hj
    rcases eq_or_ne j i with rfl | hji
    · rw [update_self] at hj
      rcases hd with ⟨-, rfl⟩ | rfl
      · exact ⟨_, rfl, by rw [hk]; rfl, hnowriter⟩
      · rcases hj with hj | hj <;> cases hj
    · rw [update_of_ne hji] at hj
      exact absurd (h.created j hj) hnokept
  case read =>
    intro j d' hj
    rcases eq_or_ne j i with rfl | hji
    · rw [update_self] at hj
      rcases hd with ⟨rfl, -⟩ | rfl <;> cases hj
    · rw [update_of_ne hji] at hj
      rcases h.read j d' hj with hd' | ⟨-, hnone⟩
      · exact .inl hd'
      · exact absurd hph (hnone i)
  case begun =>
    intro j hj
    rcases eq_or_ne j i with rfl | hji
    · exact absurd hj hno
    · rw [update_of_ne hji]
      exact h.begun j hj
  case ended =>
    intro j r hj
    rcases eq_or_ne j i with rfl | hji
    · exact absurd hj (hover r)
    · rw [update_of_ne hji]
      exact h.ended j r hj
  case initialized => exact fun j hj => absurd (h.initialized j hj) hnokept
  case keys =>
    intro j k' hj
    obtain ⟨-, -, -, hnone⟩ := h.keys j k' hj
    exact absurd hph (hnone i)
  case later => exact fun j hj => absurd (h.kept hj) hnokept
  case succeeds => exact h.succeeds

theorem KeyInv.openRead (h : KeyInv Z password s φ) (hg : CarefulCfgOp Z password s c .openRead)
    (ha : cfgAllowed Z password (φ i) .openRead) :
    KeyInv Z password (CfgState.exec i .openRead c s).2
      (update φ i (cfgNext (φ i) .openRead (CfgState.exec i .openRead c s).1)) := by
  have hc : c.fault = none := hg
  have hph : φ i = .opening := ha
  have hover : ∀ r, (i, CfgNote.opened r) ∉ s.log := by
    intro r hr
    have hov := h.ended i r hr
    rw [hph] at hov
    cases hov
  cases hs : s.content with
  | some d =>
    have hnext : cfgNext (φ i) .openRead (CfgState.exec i .openRead c s).1 = φ i := by
      simp only [CfgState.exec, CfgChoice.orFail, hc, hs]
      rfl
    rw [hnext, update_eq_self]
    exact h
  | none =>
    have hnext : cfgNext (φ i) .openRead (CfgState.exec i .openRead c s).1 = .failed := by
      simp only [CfgState.exec, CfgChoice.orFail, hc, hs]
      rfl
    rw [hnext]
    refine h.phase (by rintro ⟨⟩) (fun hx => ?_) (fun d hd => ?_) (fun _ => .inr (.inr (.inl rfl)))
      (fun r hr => absurd hr (hover r)) fun hi => ?_
    · rcases hx with hx | hx <;> cases hx
    · cases hd
    · -- after an `Initialize` has returned there is a file
      obtain ⟨d, hd, -⟩ := h.kept hi
      rw [hs] at hd
      cases hd

theorem KeyInv.readAll (h : KeyInv Z password s φ) (hg : CarefulCfgOp Z password s c .readAll)
    (ha : cfgAllowed Z password (φ i) .readAll) :
    KeyInv Z password (CfgState.exec i .readAll c s).2
      (update φ i (cfgNext (φ i) .readAll (CfgState.exec i .readAll c s).1)) := by
  have hc : c.fault = none := hg
  have hph : φ i = .opening := ha
  have hnext : cfgNext (φ i) .readAll (CfgState.exec i .readAll c s).1 = .read (s.content.getD []) := by
    simp only [CfgState.exec, CfgChoice.orFail, hc]
    rfl
  rw [hnext]
  refine h.phase (by rintro ⟨⟩) (fun hx => ?_) (fun d hd => ?_) (fun _ => .inr (.inl ⟨_, rfl⟩)) (fun r hr => ?_)
    nofun
  · rcases hx with hx | hx <;> cases hx
  · obtain rfl : s.content.getD [] = d := CfgPh.read.inj hd
    constructor
    · by_cases hw : ∃ j, φ j = .writing
      · obtain ⟨j, hj⟩ := hw
        left
        rw [(h.writing j hj).1]
        rfl
      · cases hs : s.content with
        | none => exact .inl rfl
        | some d => exact .inr ⟨rfl, fun j hj => hw ⟨j, hj⟩⟩
    · intro hi
      obtain ⟨d, hd, hok, -⟩ := h.kept hi
      rw [hd]
      exact hok
  · have hov := h.ended i r hr
    rw [hph] at hov
    cases hov

omit [DecidableEq ι] in
/-- A caller sees something. -/
theorem KeyInv.logged (h : KeyInv Z password s φ) {x : CfgNote} (hopening : x = .opening → φ i = .opening ∧ ∀ r, (i, CfgNote.opened r) ∉ s.log)
    (hinit : x = .initialized true → ConfigKept Z password s φ) (hover : ∀ r, x = .opened r → φ i = .ended)
    (hkey : ∀ k, x = .opened (some k) → ∃ d, s.content = some d ∧ masterKeyOf Z password d = .ok k ∧ ∀ j, φ j ≠ .writing)
    (hfail : x = .opened none → ¬ OpensLater s.log i) : KeyInv Z password { s with log := s.log ++ [(i, x)] } φ := by
  have hnew : ∀ {j : ι} {y : CfgNote}, (j, y) ∈ s.log ++ [(i, x)] → (j, y) ∈ s.log ∨ j = i ∧ x = y := by
    intro j y hy
    rcases mem_append.mp hy with hy | hy
    · exact .inl hy
    · obtain ⟨rfl, rfl⟩ := Prod.mk.inj (mem_singleton.mp hy)
      exact .inr ⟨rfl, rfl⟩
  constructor
  case writing => exact h.writing
  case single => exact h.single
  case created => exact h.created
  case read => exact h.read
  case begun =>
    intro j hj
    rcases hnew hj with hj | ⟨rfl, rfl⟩
    · exact h.begun j hj
    · exact .inl (hopening rfl).1
  case ended =>
    intro j r hj
    rcases hnew hj with hj | ⟨rfl, rfl⟩
    · exact h.ended j r hj
    · exact hover r rfl
  case initialized =>
    intro j hj
    rcases hnew hj with hj | ⟨rfl, rfl⟩
    · exact h.initialized j hj
    · exact hinit rfl
  case keys =>
    intro j k hj
    rcases hnew hj with hj | ⟨rfl, rfl⟩
    · exact h.keys j k hj
    · exact hkey k rfl
  case later =>
    intro j hj
    rcases opensLater_append hj with hj | ⟨hx, -⟩
    · exact h.later j hj
    · obtain ⟨rfl, rfl⟩ := Prod.mk.inj hx
      have hph := (hopening rfl).1
      rw [hph]
      exact ⟨nofun, nofun⟩
  case succeeds =>
    intro j hj hopened
    rcases opensLater_append hj with hlater | ⟨hx, -⟩
    · rcases hnew hopened with hopened | ⟨rfl, rfl⟩
      · exact h.succeeds j hlater hopened
      · exact hfail rfl hlater
    · obtain ⟨rfl, rfl⟩ := Prod.mk.inj hx
      rcases hnew hopened with hopened | ⟨-, hno⟩
      · exact (hopening rfl).2 none hopened
      · cases hno

theorem KeyInv.ends (h : KeyInv Z password s φ) : KeyInv Z password s (update φ i .ended) := by
  refine h.phase (by rintro ⟨⟩) (fun hx => ?_) (fun d hd => ?_) (fun _ => .inr (.inr (.inr rfl))) (fun _ _ => rfl)
    nofun
  · rcases hx with hx | hx <;> cases hx
  · cases hd

omit [DecidableEq ι] in
theorem ConfigKept.update [DecidableEq ι] {ph : CfgPh} (h : ConfigKept Z password s φ) (hph : ph ≠ .writing) :
    ConfigKept Z password s (update φ i ph) := by
  obtain ⟨d, hd, hok, hno⟩ := h
  refine ⟨d, hd, hok, fun j hj => ?_⟩
  rcases eq_or_ne j i with rfl | hji
  · rw [update_self] at hj
    exact hph hj
  · rw [update_of_ne hji] at hj
    exact hno j hj

/-- **What a caller sees** fits the file. -/
theorem KeyInv.note (h : KeyInv Z password s φ) {x : CfgNote} (ha : cfgAllowed Z password (φ i) (.note x)) :
    KeyInv Z password (CfgState.exec i (.note x) c s).2
      (update φ i (cfgNext (φ i) (.note x) (CfgState.exec i (.note x) c s).1)) := by
  cases x with
  | opening =>
    obtain ⟨hno, hover, hlater⟩ := h.not_opening (.inl ha)
    have hbegins : KeyInv Z password s (update φ i .opening) := by
      refine h.phase (by rintro ⟨⟩) (fun hx => ?_) (fun d hd => ?_) (fun hi => absurd hi hno) (fun r hr => absurd hr (hover r))
        nofun
      · rcases hx with hx | hx <;> cases hx
      · cases hd
    exact hbegins.logged (fun _ => ⟨update_self .., hover⟩) (fun hx => (by cases hx)) (fun r hx => (by cases hx))
      (fun k hx => (by cases hx)) fun hx => by cases hx
  | initialized ok =>
    refine h.ends.logged nofun (fun hx => ?_) nofun nofun
      nofun
    obtain rfl : ok = true := CfgNote.initialized.inj hx
    exact (h.created i (ha rfl)).update (by rintro ⟨⟩)
  | opened res =>
    cases res with
    | some k =>
      obtain ⟨d, hph, hk⟩ := ha
      refine h.ends.logged nofun nofun (fun _ _ => update_self ..) ?_
        nofun
      intro k' hx
      obtain rfl : k = k' := Option.some.inj (CfgNote.opened.inj hx)
      rcases h.read i d hph with rfl | ⟨hd, hno⟩
      · -- there is no key in an empty file
        have hnil := masterKeyOf_nil Z password
        rw [hk] at hnil
        cases hnil
      · have hkept : ConfigKept Z password s (update φ i .ended) :=
          ConfigKept.update ⟨d, hd, by rw [hk]; rfl, hno⟩ (by rintro ⟨⟩)
        obtain ⟨-, -, -, hno'⟩ := hkept
        exact ⟨d, hd, hk, hno'⟩
    | none =>
      refine h.ends.logged nofun nofun (fun _ _ => update_self ..)
        nofun fun _ hlater => ?_
      obtain ⟨hread, hnf⟩ := h.later i hlater
      rcases ha with hf | ⟨d, e, hph, he⟩
      · exact hnf hf
      · have hok := hread d hph
        rw [he] at hok
        cases hok

/-- **Every careful step keeps the invariant.** -/
theorem KeyInv.step (h : KeyInv Z password s φ) {o : CfgOp} (hg : CarefulCfgOp Z password s c o)
    (ha : cfgAllowed Z password (φ i) o) :
    KeyInv Z password (CfgState.exec i o c s).2 (update φ i (cfgNext (φ i) o (CfgState.exec i o c s).1)) := by
  have hsame : KeyInv Z password s (update φ i (φ i)) := by
    rw [update_eq_self]
    exact h
  cases o with
  | mkdirAll => exact hsame
  | stat => exact h.stat hg ha
  | rand n => exact hsame
  | openFile => exact h.openFile hg ha
  | write bs => exact h.write ha
  | close => exact hsame
  | openRead => exact h.openRead hg ha
  | readAll => exact h.readAll hg ha
  | note x => exact h.note ha

end Steps

/-! ## Runs -/

/-- The calls, before any has begun, on a file system without the configuration. -/
def cfgSys (Z : ConfigDeps) (password : Name) (calls : ι → CfgCall) : Sys ι CfgOp CfgOp.Res Err (CfgState ι) :=
  Sys.init {} fun i => (calls i).prog Z password

def CarefulCall (Z : ConfigDeps) (password : Name) (s : Sys ι CfgOp CfgOp.Res Err (CfgState ι)) :
    Ev ι CfgChoice Unit → Prop
  | .step i c => match s.procs i with
    | .call o _ => CarefulCfgOp Z password s.st c o
    | _ => True
  | .crash _ => True

/-- **One recoverable master key**: for all calls of `Initialize` and `Open` with one password, in every interleaving, with
every failure and crash, if each step is careful: once an `Initialize` has returned without an error, every later `Open`
succeeds, and all that succeed obtain the same key. -/
theorem one_master_key (Z : ConfigDeps) (password : Name) (calls : ι → CfgCall) (es : List (Ev ι CfgChoice Unit))
    (hg : Guarded (cfgSem ι) (CarefulCall Z password) (cfgSys Z password calls) es) :
    (∀ j, OpensLater ((cfgSys Z password calls).run (cfgSem ι) es).st.log j →
        (j, CfgNote.opened none) ∉ ((cfgSys Z password calls).run (cfgSem ι) es).st.log) ∧
      ∀ j j' k k', (j, CfgNote.opened (some k)) ∈ ((cfgSys Z password calls).run (cfgSem ι) es).st.log →
        (j', CfgNote.opened (some k')) ∈ ((cfgSys Z password calls).run (cfgSem ι) es).st.log → k = k' := by
  obtain ⟨φ, -, hinv⟩ := run_proto (M := cfgSem ι) (G := CarefulCall Z password) (T := fun _ => cfgProto Z password)
    (fun s φ => KeyInv Z password s.st φ)
    (by
      intro s φ i c o k h hg hp ha
      rw [Sys.stepProc_call hp]
      simp only [CarefulCall, hp] at hg
      exact h.step hg ha)
    (fun s φ x h _ => h) es (cfgSys Z password calls) (fun _ => .idle) (fun i => cfgCall_sat (calls i))
    (by
      constructor
      case later =>
        rintro j ⟨l₁, l₂, i, heq, -⟩
        exact absurd heq (by simp [cfgSys, Sys.init])
      all_goals intros; simp_all [cfgSys, Sys.init])
    hg
  refine ⟨hinv.succeeds, fun j j' k k' hj hj' => ?_⟩
  obtain ⟨d, hd, hk, -⟩ := hinv.keys j k hj
  obtain ⟨d', hd', hk', -⟩ := hinv.keys j' k' hj'
  obtain rfl : d = d' := Option.some.inj (hd.symm.trans hd')
  exact Except.ok.inj (hk.symm.trans hk')

/-! ## Runs that are not careful -/

instance (s : CfgState ι) (c : CfgChoice) : (o : CfgOp) → Decidable (CarefulCfgOp Z password s c o)
  | .openFile => inferInstanceAs (Decidable (s.content = none))
  | .stat => inferInstanceAs (Decidable (∀ d ∈ s.content, _))
  | .openRead | .readAll => inferInstanceAs (Decidable (c.fault = none))
  | .mkdirAll | .rand _ | .write _ | .close | .note _ => inferInstanceAs (Decidable True)

instance (s : Sys ι CfgOp CfgOp.Res Err (CfgState ι)) : (e : Ev ι CfgChoice Unit) → Decidable (CarefulCall Z password s e)
  | .step i c =>
    match h : s.procs i with
    | .call o _ => decidable_of_iff (CarefulCfgOp Z password s.st c o) (by simp only [CarefulCall, h])
    | .ret _ | .err _ => isTrue (by simp only [CarefulCall, h])
  | .crash _ => isTrue trivial

/-- A text as bytes: a mark and three bytes for each character. -/
def plainChars (n : Name) : List UInt8 :=
  n.flatMap fun ch => [1, UInt8.ofNat ch.toNat, UInt8.ofNat (ch.toNat / 256), UInt8.ofNat (ch.toNat / 65536)]

/-- Some texts as bytes, with an end mark. -/
def plainNames (ns : List Name) : List UInt8 := (ns.flatMap fun n => 2 :: plainChars n) ++ [0]

/-- Read them back; the last text is the one that is being read. -/
def readNames : List UInt8 → List Name → Option (List Name)
  | [0], acc => some acc.reverse
  | 2 :: rest, acc => readNames rest ([] :: acc)
  | 1 :: a :: b :: c :: rest, n :: acc =>
    readNames rest ((n ++ [Char.ofNat (a.toNat + 256 * b.toNat + 65536 * c.toNat)]) :: acc)
  | _, _ => none

theorem readNames_chars (cs : Name) (rest : List UInt8) (n : Name) (acc : List Name) :
    readNames (plainChars cs ++ rest) (n :: acc) = readNames rest ((n ++ cs) :: acc) := by
  induction cs generalizing n with
  | nil => rw [append_nil]; rfl
  | cons ch cs ih =>
    have hlt : ch.toNat < 16777216 := by
      have hvalid : ch.toNat.isValidChar := ch.valid
      omega
    have hch : Char.ofNat ((UInt8.ofNat ch.toNat).toNat + 256 * (UInt8.ofNat (ch.toNat / 256)).toNat +
        65536 * (UInt8.ofNat (ch.toNat / 65536)).toNat) = ch := by
      have hval : (UInt8.ofNat ch.toNat).toNat + 256 * (UInt8.ofNat (ch.toNat / 256)).toNat +
          65536 * (UInt8.ofNat (ch.toNat / 65536)).toNat = ch.toNat := by
        simp only [UInt8.toNat_ofNat']
        omega
      rw [hval, Char.ofNat_toNat]
    have hstep : readNames (plainChars (ch :: cs) ++ rest) (n :: acc) =
        readNames (plainChars cs ++ rest) ((n ++ [Char.ofNat ((UInt8.ofNat ch.toNat).toNat +
          256 * (UInt8.ofNat (ch.toNat / 256)).toNat + 65536 * (UInt8.ofNat (ch.toNat / 65536)).toNat)]) :: acc) := by
      rfl
    rw [hstep, hch, ih, append_assoc, singleton_append]

theorem readNames_names (ns acc : List Name) : readNames (plainNames ns) acc = some (acc.reverse ++ ns) := by
  induction ns generalizing acc with
  | nil => rw [append_nil]; rfl
  | cons n ns ih =>
    have hstep : readNames (plainNames (n :: ns)) acc = readNames (plainChars n ++ plainNames ns) ([] :: acc) := by
      unfold plainNames
      rw [flatMap_cons, cons_append, cons_append, append_assoc]
      rfl
    rw [hstep, readNames_chars, ih, nil_append, reverse_cons, append_assoc, singleton_append]

def keyNames (keys : List KlioRepositoryKey) : List Name := keys.flatMap fun k => [k.nonce, k.cipherText, k.salt]

/-- The configuration with these texts. -/
def keysOfNames : List Name → List KlioRepositoryKey
  | a :: b :: c :: rest => ⟨a, b, c⟩ :: keysOfNames rest
  | _ => []

theorem keysOfNames_keyNames (keys : List KlioRepositoryKey) : keysOfNames (keyNames keys) = keys := by
  induction keys with
  | nil => rfl
  | cons k keys ih =>
    show k :: keysOfNames (keyNames keys) = k :: keys
    rw [ih]

/-- Outside code that hides nothing: the salt starts with the key. -/
def plainConfig : ConfigDeps where
  pbkdf2 _ salt := salt.take 1
  newCipher _ := .ok ()
  gcmSeal _ _ text := text
  gcmOpen _ _ text := some text
  hexEncode bs := bs.map fun b => Char.ofNat b.toNat
  hexDecode n := some (n.map fun ch => UInt8.ofNat ch.toNat)
  encodeJSON c := plainNames (keyNames c.keys)
  decodeJSON bs := match readNames bs [] with
    | some ns => .ok ⟨keysOfNames ns⟩
    | none => .error .unexpectedEOF
  newCipher_pbkdf2 _ _ := rfl
  gcmOpen_gcmSeal _ _ _ := rfl
  hexDecode_hexEncode bs := by
    refine congrArg some ?_
    rw [List.map_map]
    refine (List.map_congr_left fun b _ => ?_).trans (List.map_id bs)
    have hbyte : ∀ n : Fin 256, (Char.ofNat n.val).toNat = n.val := by decide +kernel
    have hnat : (Char.ofNat b.toNat).toNat = b.toNat := hbyte ⟨b.toNat, b.toNat_lt⟩
    show UInt8.ofNat (Char.ofNat b.toNat).toNat = b
    rw [hnat, UInt8.ofNat_toNat]
  decode_encode c := by
    rw [readNames_names, List.reverse_nil, List.nil_append]
    show Except.ok (KlioRepositoryConfig.mk (keysOfNames (keyNames c.keys))) = .ok c
    rw [keysOfNames_keyNames]
  decode_nil c h := by cases h

/-- Two calls of `Initialize` and two of `Open`. -/
def fourCalls (i : Fin 4) : CfgCall := if i.val < 2 then .initializes else .opens

/-- Some steps of a call, with what its random source delivers. -/
def callSteps (i : Fin 4) (n : ℕ) : List (Ev (Fin 4) CfgChoice Unit) :=
  List.replicate n (.step i { bytes := [UInt8.ofNat (i.val + 1)] })

/-- What the callers see. -/
def fourCallsLog (es : List (Ev (Fin 4) CfgChoice Unit)) : List (Fin 4 × CfgNote) :=
  ((cfgSys plainConfig "pw".toList fourCalls).run (cfgSem (Fin 4)) es).st.log

set_option maxRecDepth 100000 in
/-- One call after the other: both `Open` calls obtain the key that the first `Initialize` has created. -/
theorem one_master_key_in_turn :
    Guarded (cfgSem (Fin 4)) (CarefulCall plainConfig "pw".toList) (cfgSys plainConfig "pw".toList fourCalls)
        (callSteps 0 9 ++ callSteps 2 5 ++ callSteps 1 3 ++ callSteps 3 5) ∧
      (fourCallsLog (callSteps 0 9 ++ callSteps 2 5 ++ callSteps 1 3 ++ callSteps 3 5)).length = 6 ∧
      ∀ j j' k k', (j, CfgNote.opened (some k)) ∈ fourCallsLog (callSteps 0 9 ++ callSteps 2 5 ++ callSteps 1 3 ++ callSteps 3 5) →
        (j', CfgNote.opened (some k')) ∈ fourCallsLog (callSteps 0 9 ++ callSteps 2 5 ++ callSteps 1 3 ++ callSteps 3 5) → k = k' := by
  have hg : Guarded (cfgSem (Fin 4)) (CarefulCall plainConfig "pw".toList) (cfgSys plainConfig "pw".toList fourCalls)
      (callSteps 0 9 ++ callSteps 2 5 ++ callSteps 1 3 ++ callSteps 3 5) := by decide +kernel
  exact ⟨hg, by decide +kernel, (one_master_key plainConfig "pw".toList fourCalls _ hg).2⟩

set_option maxRecDepth 100000 in
/-- **An unreadable repository, and two keys.** The first `Initialize` crashes when it has created the file; the second
finds it and returns, and `Open` fails. Or both look for the file before one creates it: the first `Open` obtains the key
of one, the second that of the other. -/
theorem initialize_twice :
    (OpensLater (fourCallsLog (callSteps 0 6 ++ callSteps 1 3 ++ callSteps 2 5)) 2 ∧
      (2, CfgNote.opened none) ∈ fourCallsLog (callSteps 0 6 ++ callSteps 1 3 ++ callSteps 2 5)) ∧
    (2, CfgNote.opened (some [1])) ∈
        fourCallsLog (callSteps 0 2 ++ callSteps 1 2 ++ callSteps 0 7 ++ callSteps 2 5 ++ callSteps 1 7 ++ callSteps 3 5) ∧
      (3, CfgNote.opened (some [2])) ∈
        fourCallsLog (callSteps 0 2 ++ callSteps 1 2 ++ callSteps 0 7 ++ callSteps 2 5 ++ callSteps 1 7 ++ callSteps 3 5) := by
  have hcrash : fourCallsLog (callSteps 0 6 ++ callSteps 1 3 ++ callSteps 2 5) =
      [(1, .initialized true), (2, .opening), (2, .opened none)] := by decide +kernel
  refine ⟨?_, by decide +kernel, by decide +kernel⟩
  exact ⟨⟨[(1, .initialized true)], [(2, .opened none)], 1, rfl, mem_singleton.mpr rfl⟩, by decide⟩

/-! ## What `Open` makes of a configuration -/

theorem recoverMasterKey_iff {Z : ConfigDeps} {password : Name} {keys : List KlioRepositoryKey} (hne : keys ≠ []) {k : List UInt8} :
    recoverMasterKey Z password keys = .ok k ↔ ∃ c ∈ triedKeys Z password keys, c.recoverMasterKey Z password = .ok k := by
  induction keys with
  | nil => exact absurd rfl hne
  | cons key keys ih =>
    unfold recoverMasterKey triedKeys
    cases hkey : key.recoverMasterKey Z password with
    | ok k' => simp [hkey, Except.isOk, Except.toBool]
    | error e =>
      by_cases hnil : keys = []
      · simp [hkey, hnil, triedKeys]
      · have hrest := ih hnil
        cases hr : recoverMasterKey Z password keys with
        | ok k' => simp_all [Except.mapError, Except.isOk, Except.toBool]
        | error e' => simp_all [Except.mapError, Except.isOk, Except.toBool]

/-- **`Open` yields a real key or an error exactly if** the configuration has an entry, and each entry that is tried has
a nonce of twelve bytes and, if the password opens it, holds a key of the right length. -/
theorem open_real_iff (Z : ConfigDeps) (password : Name) (config : KlioRepositoryConfig) :
    (∃ r, openConfig Z password config = some r ∧ ∀ k, r = .ok k →
      k.length = masterKeyLen ∧ ∃ c ∈ config.keys, c.recoverMasterKey Z password = .ok k) ↔
    config.keys ≠ [] ∧ ∀ c ∈ triedKeys Z password config.keys,
      c.panics Z = false ∧ ∀ k, c.recoverMasterKey Z password = .ok k → k.length = masterKeyLen := by
  have hsub : triedKeys Z password config.keys ⊆ config.keys := by
    induction config.keys with
    | nil => simp [triedKeys]
    | cons key keys ih =>
      unfold triedKeys
      split <;> simp_all [subset_cons_of_subset]
  have hopen : ∀ k, masterKeyOf Z password (Z.encodeJSON config) = .ok k ↔ recoverMasterKey Z password config.keys = .ok k := by
    intro k
    unfold masterKeyOf
    rw [Z.decode_encode]
    cases hr : recoverMasterKey Z password config.keys <;> simp [hr, Except.mapError]
  unfold openConfig
  by_cases hne : config.keys = []
  · simp [hne, triedKeys, hopen, recoverMasterKey]
  by_cases hany : (triedKeys Z password config.keys).any (·.panics Z) = true
  · rw [if_pos hany]
    obtain ⟨c, hc, hp⟩ := any_eq_true.1 hany
    refine iff_of_false (by simp) fun h => ?_
    rw [(h.2 c hc).1] at hp
    cases hp
  · rw [if_neg hany]
    simp only [Option.some.injEq, exists_eq_left', hopen, recoverMasterKey_iff hne]
    simp only [any_eq_true, not_exists, not_and, Bool.not_eq_true] at hany
    constructor
    · exact fun h => ⟨hne, fun c hc => ⟨hany c hc, fun k hk => (h k ⟨c, hc, hk⟩).1⟩⟩
    · rintro ⟨-, h⟩ k ⟨c, hc, hk⟩
      exact ⟨(h c hc).2 k hk, c, hsub hc, hk⟩

/-- A configuration without entries is opened with an empty key, and a nonce of one byte is a panic. -/
theorem open_unreal : openConfig plainConfig "pw".toList ⟨[]⟩ = some (.ok []) ∧
    openConfig plainConfig "pw".toList ⟨[⟨['n'], ['k'], ['s']⟩]⟩ = none := by
  decide +kernel

end Klio

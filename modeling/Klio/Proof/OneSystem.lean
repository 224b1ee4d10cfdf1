import Klio.Proof.StreamReset

/-!
# One archive, one system

The first `RequestWALStart` of a cluster records the system it comes from, and later ones are compared with the
record. The handlers read and write the record without a lock.

* `StartCall`: the calls; `StartCall.prog_cases`: what they do first.
* `FirstAlone`: as long as there is no record, a call runs alone.
* `Stand`: where the calls can be: nobody has written the record, one of them is writing it, or it is there.
* `one_system_accepted`: all the calls that succeed are then of one system.
* `two_systems_accepted`: two first calls of different systems at the same time.
-/

namespace Klio

open Lib Prog List Function

variable {D : Deps} {K : Codec} {P : Outside} {I : Implementation} {c : Name} {fs : Fs Name UInt8}

/-! ## The calls -/

/-- A call of `RequestWALStart`. -/
structure StartCall where
  rand : ℕ → ℕ
  peer : Peer
  systemId : Name
  currentWalName : Name

namespace StartCall

variable {a : StartCall}

/-- What serves the call. It has succeeded when it has returned. -/
def prog (D : Deps) (K : Codec) (P : Outside) (I : Implementation) (c : Name) (a : StartCall) : FsProg Msg Unit :=
  (requestWALStart D K P I a.rand a.peer ⟨c, a.systemId, a.currentWalName⟩).bind fun _ => .ret ()

def answer (K : Codec) (P : Outside) (c : Name) (a : StartCall) : Except Err ClusterMetadata → FsProg Msg Name
  | .ok metadata => negotiateWALStart metadata ⟨c, a.systemId, a.currentWalName⟩
  | .error e =>
    if e.isNotExist then
      ((writeClusterMetadata K P a.rand c ⟨a.systemId, []⟩).mapErr fun e =>
        .status .internal (.wrap "error while writing cluster metadata: %v" [] e)).bind fun _ =>
      negotiateWALStart ⟨a.systemId, []⟩ ⟨c, a.systemId, a.currentWalName⟩
    else .err (.status .internal (.wrap "error while reading cluster metadata: %v" [] e))

/-- What is left to do then. -/
def afterRead (K : Codec) (P : Outside) (c : Name) (a : StartCall) (out : Except Err ClusterMetadata) : FsProg Msg Unit :=
  (a.answer K P c out).bind fun _ => .ret ()

def record (P : Outside) (a : StartCall) : List UInt8 := bytesOf (P.marshalMetadata ⟨a.systemId, []⟩)

/-- **A call is refused, or it reads the metadata first.** -/
theorem prog_cases (D : Deps) (K : Codec) (P : Outside) (I : Implementation) (c : Name) (a : StartCall) :
    (∃ e, a.prog D K P I c = .err e) ∨ a.prog D K P I c = (getClusterMetadata K P c).attempt.bind (a.afterRead K P c) := by
  unfold prog requestWALStart unlessReadOnly withClusterName
  split
  · exact .inl ⟨_, rfl⟩
  split
  · exact .inl ⟨_, rfl⟩
  refine .inr ?_
  rw [Prog.bind_assoc]
  rfl

theorem read_step (g : Except Err ClusterMetadata → FsProg Msg Unit) :
    ∃ k, (getClusterMetadata K P c).attempt.bind g = .call (.readFile (ControlFile.path .metadata c)) k ∧
      ∀ fs, k (Fs.exec (.readFile (ControlFile.path .metadata c)) none fs).1 = g (ask fs (getClusterMetadata K P c)) := by
  have hfin : ∀ (p : FsProg Msg ClusterMetadata) (fs : Fs Name UInt8), p.Finished → p.attempt.bind g = g (ask fs p) := by
    intro p fs hp
    cases p with
    | ret m => rfl
    | err e => rfl
    | call o k => exact hp.elim
  have hread : ∃ k₀, getClusterMetadata K P c = .call (.readFile (ControlFile.path .metadata c)) k₀ ∧ ∀ r, (k₀ r).Finished := by
    refine ⟨_, rfl, fun (r : Except FsErr (List UInt8)) => ?_⟩
    rcases r with e | data
    · cases e <;> trivial
    dsimp only
    rcases Reader.ofContent K (getWALArchivePath c metadataFileName) data with e | rd
    · trivial
    dsimp only [Prog.bind]
    split
    · trivial
    · split <;> trivial
  obtain ⟨k₀, hk, hfinished⟩ := hread
  rw [hk]
  exact ⟨_, rfl, fun fs => hfin _ fs (hfinished _)⟩

end StartCall

/-- There is no record. -/
def Missing (K : Codec) (P : Outside) (c : Name) (fs : Fs Name UInt8) : Prop :=
  ∃ e, ask fs (getClusterMetadata K P c) = .error e ∧ e.isNotExist = true

/-- **Once there is a record, calls only look**, and only those of its system succeed. -/
theorem prog_observes {a : StartCall} {x : Name} (hthere : ¬ Missing K P c fs)
    (hid : ∀ m, ask fs (getClusterMetadata K P c) = .ok m → m.systemId = x) :
    Observes fs (fun _ => a.systemId = x) (fun _ => True) (a.prog D K P I c) := by
  rcases a.prog_cases D K P I c with ⟨e, he⟩ | he
  · rw [he]
    trivial
  rw [he]
  refine observes_bind ?_ (observes_attempt (getClusterMetadata_answers c))
  intro out hout
  have hret : ∀ n : Name, a.systemId = x → Observes fs (fun _ => a.systemId = x) (fun _ => True) (.ret () : FsProg Msg Unit) :=
    fun _ h => h
  refine observes_bind hret ?_
  cases out with
  | ok m =>
    have hm : m.systemId = x := hid m hout
    show Observes fs _ _ (negotiateWALStart m _)
    unfold negotiateWALStart
    split
    · trivial
    rename_i heq
    have hsid : a.systemId = x := (not_not.mp heq).symm.trans hm
    refine observes_bind ?_ (observes_mapErr (answers_observes (getLatest_answers _)))
    intro w _
    exact hsid
  | error e =>
    show Observes fs _ _ (if e.isNotExist then _ else _)
    split
    · rename_i hnot
      -- not because of a fault
      rcases hout with hask | hfault
      · exact absurd ⟨e, hask, hnot⟩ hthere
      · rw [hfault] at hnot
        cases hnot
    · trivial

variable {ph : Stage.Phase UInt8 × Bool} {rand : ℕ → ℕ} {data : List UInt8}

theorem looks_sat {α : Type} {f : ControlFile} :
    ∀ {p : FsProg Msg α}, p.Uses Looks → p.Sat (controlProto f K rand c data) (fun _ ph' => ph' = ph) (fun _ ph' => ph' = ph) ph := by
  intro p
  induction p with
  | ret a => exact fun _ => rfl
  | err e => exact fun _ => rfl
  | call o k ih =>
    intro hp
    have hnext : ∀ r, (controlProto f K rand c data).next ph o r = ph := by
      intro r
      cases o <;> first | exact hp.1.elim | exact Prod.ext rfl (Bool.or_false _)
    refine ⟨?_, fun r => ?_⟩
    · cases o <;> first | exact hp.1.elim | trivial
    · rw [hnext r]
      exact ih r (hp.2 r)

/-- **The first call writes the record**, if it can be marshalled: it succeeds only with the file opened and not
lost. -/
theorem afterRead_sat {a : StartCall} {e : Err} (he : e.isNotExist = true) :
    (∃ e', a.afterRead K P c (.error e) = .err e') ∨
      (a.afterRead K P c (.error e)).Sat (controlProto .metadata K a.rand c (a.record P))
        (fun _ ph => (ph.1 = .done ∨ ph.1 = .broken) ∧ ph.2 = true) (fun _ _ => True) (.start, false) := by
  unfold StartCall.afterRead StartCall.answer StartCall.record writeClusterMetadata
  simp only [if_pos he]
  rcases P.marshalMetadata ⟨a.systemId, []⟩ with e | data
  · exact .inl ⟨_, rfl⟩
  refine .inr ?_
  have hstore : (storeBlock K a.rand c (ControlFile.fileName .metadata) data id id).Sat (controlProto .metadata K a.rand c data)
      (fun _ ph => (ph.1 = .done ∨ ph.1 = .broken) ∧ Wraps K a.rand data ∧ ph.2 = true)
      (fun _ ph => ph.1 = .broken ∨ ph.1 = .done ∧ ¬ Wraps K a.rand data) (.start, false) := storeBlock_sat id id
  refine sat_bind (Q := fun _ ph => (ph.1 = .done ∨ ph.1 = .broken) ∧ ph.2 = true) ?_ fun _ _ h => sat_ret h
  refine sat_bind (sat_mapErr (sat_mono hstore (fun _ _ h => h) fun _ _ _ => trivial)) ?_
  intro _ ph hph
  refine sat_mono (looks_sat negotiateWALStart_uses) ?_ fun _ _ _ => trivial
  rintro _ _ rfl
  exact ⟨hph.1, hph.2.2⟩

/-! ## Where the calls can be -/

/-- **A record cut at the end of its first block** has the system of the whole record, if it can be read at all. In
the wire format the system comes first, with its length. -/
def CutSafe (P : Outside) : Prop :=
  ∀ m b m', P.marshalMetadata m = .ok b → P.unmarshalMetadata (b.take walBlockSize) = some m' → m'.systemId = m.systemId

theorem CutSafe.reads (hcut : CutSafe P) {a : StartCall} {m : ClusterMetadata}
    (h : metadataOf P (firstChunk K a.rand (a.record P)) = .ok m) : m.systemId = a.systemId := by
  unfold metadataOf firstChunk at h
  rcases hmar : P.marshalMetadata ⟨a.systemId, []⟩ with e | b
  · rw [show a.record P = [] by unfold StartCall.record; rw [hmar]; rfl] at h
    cases h
  rw [show a.record P = b by unfold StartCall.record; rw [hmar]; rfl] at h
  split at h
  · cases h
  rename_i data hdata
  have hb : data = b.take walBlockSize := by
    split at hdata
    · cases hdata
    · split at hdata
      · cases hdata
      · exact (Option.some.inj hdata).symm
  subst hb
  split at h
  · cases h
  · rename_i m' hm'
    cases h
    exact hcut _ _ _ hmar hm'

variable {ι : Type}

def Rests (D : Deps) (K : Codec) (P : Outside) (I : Implementation) (c : Name) (a : StartCall) (p : FsProg Msg Unit) : Prop :=
  p = a.prog D K P I c ∨ ∃ e, p = .err e

/-- **Where the calls can be**: there is no record and nobody writes one; call `i` is writing it, alone; or it is
there, and only those of its system succeed. -/
inductive Stand (D : Deps) (K : Codec) (P : Outside) (I : Implementation) (c : Name) (calls : ι → StartCall) (s : PutSys ι) : Prop
  | idle (hmiss : Missing K P c s.st.fs) (hdir : ¬ s.st.fs.IsDir (ControlFile.path .metadata c))
      (hrest : ∀ j, Rests D K P I c (calls j) (s.procs j))
  | creating (i : ι) (fs₀ : Fs Name UInt8) (ph : Stage.Phase UInt8 × Bool) (hmiss : Missing K P c fs₀)
      (hdir : ¬ fs₀.IsDir (ControlFile.path .metadata c)) (hstarted : s.started i = true)
      (hstoring : StoringWell .metadata K (calls i).rand c ((calls i).record P) fs₀ s.st.fs ph) (hbefore : ph.1 ≠ .done)
      (hsat : (s.procs i).Sat (controlProto .metadata K (calls i).rand c ((calls i).record P))
        (fun _ ph => (ph.1 = .done ∨ ph.1 = .broken) ∧ ph.2 = true) (fun _ _ => True) ph)
      (hrest : ∀ j, j ≠ i → Rests D K P I c (calls j) (s.procs j))
  | settled (x : Name) (hthere : ¬ Missing K P c s.st.fs)
      (hid : ∀ m, ask s.st.fs (getClusterMetadata K P c) = .ok m → m.systemId = x)
      (hobs : ∀ j, Observes s.st.fs (fun _ => (calls j).systemId = x) (fun _ => True) (s.procs j))

theorem prog_ne_ret (a : StartCall) : a.prog D K P I c ≠ .ret () := by
  rcases a.prog_cases D K P I c with ⟨e, he⟩ | he
  · rw [he]
    exact nofun
  · obtain ⟨k, hk, -⟩ := StartCall.read_step (K := K) (P := P) (c := c) (a.afterRead K P c)
    rw [he, hk]
    exact nofun

theorem Stand.agree {calls : ι → StartCall} {s : PutSys ι} (h : Stand D K P I c calls s) {i j : ι} (hi : s.procs i = .ret ())
    (hj : s.procs j = .ret ()) : (calls i).systemId = (calls j).systemId := by
  -- a call that rests has not succeeded
  have hno : ∀ a : StartCall, ¬ Rests D K P I c a (.ret ()) := by
    rintro a (h | ⟨e, he⟩)
    · exact prog_ne_ret a h.symm
    · cases he
  cases h with
  | idle hmiss hdir hrest =>
    have hr := hrest i
    rw [hi] at hr
    exact absurd hr (hno _)
  | creating i₀ fs₀ ph hmiss hdir hstarted hstoring hbefore hsat hrest =>
    by_cases hii : i = i₀
    · subst hii
      rw [hi] at hsat
      exact absurd (hstoring.done hsat.1 hsat.2) hbefore
    · have hr := hrest i hii
      rw [hi] at hr
      exact absurd hr (hno _)
  | settled x hthere hid hobs =>
    have hoi := hobs i
    have hoj := hobs j
    rw [hi] at hoi
    rw [hj] at hoj
    exact Eq.trans hoi (Eq.symm hoj)

theorem StoringWell.missing {fs₀ : Fs Name UInt8}
    (h : StoringWell .metadata K rand c data fs₀ fs ph) (hbefore : ph.1 ≠ .done) (hmiss : Missing K P c fs₀)
    (hdir : ¬ fs₀.IsDir (ControlFile.path .metadata c)) :
    Missing K P c fs ∧ ¬ fs.IsDir (ControlFile.path .metadata c) := by
  have hdir' : ¬ fs.IsDir (ControlFile.path .metadata c) := by
    intro hd
    have hnot := ControlFile.path_not_ancestor .metadata c
    rw [ControlFile.staging_dropLast .metadata c] at hnot
    exact (h.storing.made hd).elim hdir hnot
  refine ⟨?_, hdir'⟩
  obtain ⟨e, he, hnot⟩ := hmiss
  refine ⟨e, ?_, hnot⟩
  rw [← he]
  exact ask_congr (getClusterMetadata_uses
    (Fs.exec_readFile_congr (h.storing.before hbefore).read ⟨fun hd => absurd hd hdir', fun hd => absurd hd hdir⟩))

theorem Rests.observes {a : StartCall} {p : FsProg Msg Unit} {x : Name} (h : Rests D K P I c a p) (hthere : ¬ Missing K P c fs)
    (hid : ∀ m, ask fs (getClusterMetadata K P c) = .ok m → m.systemId = x) :
    Observes fs (fun _ => a.systemId = x) (fun _ => True) p := by
  rcases h with rfl | ⟨e, rfl⟩
  · exact prog_observes hthere hid
  · trivial

theorem done_observes {α : Type} {f : ControlFile} {Q : α → Stage.Phase UInt8 × Bool → Prop}
    {X : Err → Stage.Phase UInt8 × Bool → Prop} : ∀ {p : FsProg Msg α} {ph : Stage.Phase UInt8 × Bool},
    p.Sat (controlProto f K rand c data) Q X ph → ph.1 = .done → Observes fs (fun _ => True) (fun _ => True) p := by
  intro p
  induction p with
  | ret a => exact fun _ _ => trivial
  | err e => exact fun _ _ => trivial
  | call o k ih =>
    intro ph hp hdone
    have hread : Fs.ReadOnly o := by
      have ha : Stage.allowed (controlSpec f K rand c data) ph.1 o := hp.1
      rw [hdone] at ha
      cases o <;> first | trivial | skip
      case mkdirAll q => cases ha.1
      case openTrunc q => cases ha.1
      case write fd bs => obtain ⟨w, s, h⟩ := ha; cases h
      case sync fd => obtain ⟨w, s, h⟩ := ha; cases h
      case close fd =>
        rcases ha with ⟨w, s, h⟩ | h
        · cases h
        · cases h
      case rename q t => obtain ⟨w, s, h, -⟩ := ha; cases h
    refine ⟨hread, fun ch => ih _ (hp.2 _) ?_⟩
    show Stage.next ph.1 o _ = .done
    rw [hdone]
    cases o <;> first | exact hread.elim | rfl

variable [DecidableEq ι] {calls : ι → StartCall} {s : PutSys ι}

/-- **As long as there is no record, a call runs alone.** No operation fails. -/
def FirstAlone (K : Codec) (P : Outside) (c : Name) (s : PutSys ι) (e : Ev ι (Option ℕ) (ℕ → ℕ)) : Prop :=
  ∃ i, e = .step i none ∧ (¬ Missing K P c s.st.fs ∨ ∀ j, j ≠ i → ¬ s.Running j)

/-- The first step of a call while there is no record. -/
theorem Stand.idle_step (hmiss : Missing K P c s.st.fs) (hdir : ¬ s.st.fs.IsDir (ControlFile.path .metadata c))
    (hrest : ∀ j, Rests D K P I c (calls j) (s.procs j)) (i : ι) :
    Stand D K P I c calls (s.stepProc (sem ι Name UInt8 Msg) i none) := by
  -- a call that has failed, or is refused, does nothing
  have hstill : (s.procs i).Finished → Stand D K P I c calls (s.stepProc (sem ι Name UInt8 Msg) i none) := by
    intro hfin
    rw [Sys.stepProc_finished hfin]
    exact .idle hmiss hdir hrest
  rcases hrest i with hi | ⟨e, he⟩
  · rcases (calls i).prog_cases D K P I c with ⟨e, he⟩ | hprog
    · refine hstill ?_
      rw [hi, he]
      trivial
    obtain ⟨k, hk, hread⟩ := StartCall.read_step (K := K) (P := P) (c := c) ((calls i).afterRead K P c)
    have hcall : s.procs i = .call (.readFile (ControlFile.path .metadata c)) k := by rw [hi, hprog, hk]
    obtain ⟨e, hask, hnot⟩ := hmiss
    have hfs : ((sem ι Name UInt8 Msg).exec i (.readFile (ControlFile.path .metadata c)) none s.st).2.fs = s.st.fs :=
      Fs.exec_readOnly (M := Msg) (o := .readFile (ControlFile.path .metadata c)) trivial none s.st.fs
    have hnew : k ((sem ι Name UInt8 Msg).exec i (.readFile (ControlFile.path .metadata c)) none s.st).1 =
        (calls i).afterRead K P c (.error e) := by
      rw [← hask]
      exact hread s.st.fs
    rw [Sys.stepProc_call hcall]
    have hothers : ∀ j, j ≠ i → Rests D K P I c (calls j)
        (update s.procs i (k ((sem ι Name UInt8 Msg).exec i (.readFile (ControlFile.path .metadata c)) none s.st).1) j) := by
      intro j hj
      rw [update_of_ne hj]
      exact hrest j
    rcases afterRead_sat (K := K) (P := P) (c := c) (a := calls i) hnot with ⟨e', he'⟩ | hsat
    · refine .idle ?_ ?_ ?_
      · show Missing K P c ((sem ι Name UInt8 Msg).exec i _ none s.st).2.fs
        rw [hfs]
        exact ⟨e, hask, hnot⟩
      · show ¬ ((sem ι Name UInt8 Msg).exec i _ none s.st).2.fs.IsDir _
        rw [hfs]
        exact hdir
      · intro j
        by_cases hj : j = i
        · subst hj
          refine .inr ⟨e', ?_⟩
          show update s.procs j _ j = _
          rw [update_self, hnew, he']
        · exact hothers j hj
    · refine .creating i s.st.fs (.start, false) ⟨e, hask, hnot⟩ hdir (update_self _ _ _) ?_ nofun ?_ hothers
      · show StoringWell .metadata K _ c _ s.st.fs ((sem ι Name UInt8 Msg).exec i _ none s.st).2.fs _
        rw [hfs]
        exact ⟨Storing.start _, nofun⟩
      · show (update s.procs i _ i).Sat _ _ _ _
        rw [update_self, hnew]
        exact hsat
  · refine hstill ?_
    rw [he]
    trivial

/-- A step of the call that writes the record. -/
theorem Stand.creating_step (hcut : CutSafe P) {i : ι} {fs₀ : Fs Name UInt8} (hmiss : Missing K P c fs₀)
    (hdir : ¬ fs₀.IsDir (ControlFile.path .metadata c))
    (hstoring : StoringWell .metadata K (calls i).rand c ((calls i).record P) fs₀ s.st.fs ph)
    {o : FsOp Name UInt8 Msg} {k : o.Res → FsProg Msg Unit} (hp : s.procs i = .call o k)
    (hsat : (s.procs i).Sat (controlProto .metadata K (calls i).rand c ((calls i).record P))
      (fun _ ph => (ph.1 = .done ∨ ph.1 = .broken) ∧ ph.2 = true) (fun _ _ => True) ph)
    (hrest : ∀ j, j ≠ i → Rests D K P I c (calls j) (s.procs j)) :
    Stand D K P I c calls (s.stepProc (sem ι Name UInt8 Msg) i none) := by
  rw [hp] at hsat
  obtain ⟨hallowed, hcont⟩ := hsat
  have hstoring' := hstoring.exec hdir hallowed
  have hsat' := hcont (Fs.exec o none s.st.fs).1
  rw [Sys.stepProc_call hp]
  have hothers : ∀ j, j ≠ i → Rests D K P I c (calls j)
      (update s.procs i (k ((sem ι Name UInt8 Msg).exec i o none s.st).1) j) := by
    intro j hj
    rw [update_of_ne hj]
    exact hrest j hj
  by_cases hdone : ((controlProto .metadata K (calls i).rand c ((calls i).record P)).next ph o (Fs.exec o none s.st.fs).1).1 = .done
  · -- the record is there now
    have hread := hstoring'.storing.read hdone
    have hask := ask_metadata_blockFile (P := P) hread
    have hthere : ¬ Missing K P c (Fs.exec o none s.st.fs).2 := by
      rintro ⟨e, he, hnot⟩
      rw [hask] at he
      rw [metadataOf_exists he] at hnot
      cases hnot
    have hid : ∀ m, ask (Fs.exec o none s.st.fs).2 (getClusterMetadata K P c) = .ok m → m.systemId = (calls i).systemId := by
      intro m hm
      rw [hask] at hm
      exact hcut.reads hm
    refine .settled (calls i).systemId hthere hid fun j => ?_
    by_cases hj : j = i
    · subst hj
      show Observes _ _ _ (update s.procs j _ j)
      rw [update_self]
      exact observes_mono (fun _ _ => rfl) (fun _ _ => trivial) (done_observes hsat' hdone)
    · exact (hothers j hj).observes hthere hid
  · refine .creating i fs₀ _ hmiss hdir (update_self _ _ _) hstoring' hdone ?_ hothers
    show (update s.procs i _ i).Sat _ _ _ _
    rw [update_self]
    exact hsat'

theorem stand_step (hcut : CutSafe P) {e : Ev ι (Option ℕ) (ℕ → ℕ)} (h : Stand D K P I c calls s) (hg : FirstAlone K P c s e) :
    Stand D K P I c calls (s.step (sem ι Name UInt8 Msg) e) := by
  obtain ⟨i, rfl, halone⟩ := hg
  show Stand D K P I c calls (s.stepProc (sem ι Name UInt8 Msg) i none)
  cases h with
  | idle hmiss hdir hrest => exact Stand.idle_step hmiss hdir hrest i
  | creating i₀ fs₀ ph hmiss hdir hstarted hstoring hbefore hsat hrest =>
    obtain ⟨hmiss', hdir'⟩ := hstoring.missing (P := P) hbefore hmiss hdir
    cases hp : s.procs i₀ with
    | ret u =>
      rw [hp] at hsat
      exact absurd (hstoring.done hsat.1 hsat.2) hbefore
    | err e =>
      -- it has failed before the rename, and is out of the way
      refine Stand.idle_step hmiss' hdir' (fun j => ?_) i
      by_cases hj : j = i₀
      · subst hj
        exact .inr ⟨e, hp⟩
      · exact hrest j hj
    | call o k =>
      have hrun : s.Running i₀ := ⟨hstarted, by rw [hp]; exact id⟩
      have hi : i = i₀ := by
        by_contra hne
        rcases halone with hthere | hothers
        · exact hthere hmiss'
        · exact hothers i₀ (Ne.symm hne) hrun
      subst hi
      exact Stand.creating_step hcut hmiss hdir hstoring hp hsat hrest
  | settled x hthere hid hobs =>
    cases hp : s.procs i with
    | ret u =>
      rw [Sys.stepProc_finished (by rw [hp]; trivial)]
      exact .settled x hthere hid hobs
    | err e =>
      rw [Sys.stepProc_finished (by rw [hp]; trivial)]
      exact .settled x hthere hid hobs
    | call o k =>
      have hi := hobs i
      rw [hp] at hi
      have hfs : ((sem ι Name UInt8 Msg).exec i o none s.st).2.fs = s.st.fs := Fs.exec_readOnly hi.1 none s.st.fs
      rw [Sys.stepProc_call hp]
      refine .settled x ?_ ?_ fun j => ?_
      · show ¬ Missing K P c ((sem ι Name UInt8 Msg).exec i o none s.st).2.fs
        rw [hfs]
        exact hthere
      · intro m hm
        rw [hfs] at hm
        exact hid m hm
      · show Observes ((sem ι Name UInt8 Msg).exec i o none s.st).2.fs _ _ (update s.procs i _ j)
        rw [hfs]
        by_cases hj : j = i
        · subst hj
          rw [update_self]
          exact hi.2 none
        · rw [update_of_ne hj]
          exact hobs j

omit [DecidableEq ι] in
/-- At first nobody writes. -/
theorem stand_init (hfile : fs.look (ControlFile.path .metadata c) ≠ none → ¬ fs.IsDir (ControlFile.path .metadata c)) :
    Stand D K P I c calls (Sys.init ⟨fs, []⟩ fun i => (calls i).prog D K P I c) := by
  by_cases hmiss : Missing K P c fs
  · refine .idle hmiss ?_ fun j => .inl rfl
    refine metadata_not_isDir (K := K) (P := P) hfile fun e he => ?_
    obtain ⟨e', he', hnot⟩ := hmiss
    cases he'.symm.trans he
    exact hnot
  · cases hask : ask fs (getClusterMetadata K P c) with
    | ok m =>
      have hid : ∀ m', ask fs (getClusterMetadata K P c) = .ok m' → m'.systemId = m.systemId := by
        intro m' hm'
        cases hask.symm.trans hm'
        rfl
      exact .settled m.systemId hmiss hid fun j => prog_observes hmiss hid
    | error e =>
      have hid : ∀ m', ask fs (getClusterMetadata K P c) = .ok m' → m'.systemId = [] := by
        intro m' hm'
        cases hask.symm.trans hm'
      exact .settled [] hmiss hid fun j => prog_observes hmiss hid

/-- Calls of `RequestWALStart` for one cluster, none of them started. -/
def starting (D : Deps) (K : Codec) (P : Outside) (I : Implementation) (c : Name) (calls : ι → StartCall) (fs : Fs Name UInt8) :
    PutSys ι :=
  Sys.init ⟨fs, []⟩ fun i => (calls i).prog D K P I c

/-- **One archive accepts one system** in every interleaving of calls of `RequestWALStart` in which a call runs
alone as long as there is no record: all the calls that succeed carry the same system, with or without a
record before, whatever it is. -/
theorem one_system_accepted (D : Deps) (K : Codec) (P : Outside) (hcut : CutSafe P) (I : Implementation) (c : Name)
    (calls : ι → StartCall) (fs : Fs Name UInt8)
    (hfile : fs.look (ControlFile.path .metadata c) ≠ none → ¬ fs.IsDir (ControlFile.path .metadata c))
    (es : List (Ev ι (Option ℕ) (ℕ → ℕ)))
    (hes : Guarded (sem ι Name UInt8 Msg) (FirstAlone K P c) (starting D K P I c calls fs) es) (i j : ι)
    (hi : ((starting D K P I c calls fs).run (sem ι Name UInt8 Msg) es).procs i = .ret ())
    (hj : ((starting D K P I c calls fs).run (sem ι Name UInt8 Msg) es).procs j = .ret ()) :
    (calls i).systemId = (calls j).systemId := by
  have hstand := run_inv (M := sem ι Name UInt8 Msg) (G := FirstAlone K P c) (Stand D K P I c calls)
    (fun _ _ h hg => stand_step hcut h hg) es (starting D K P I c calls fs) (stand_init hfile) hes
  exact hstand.agree hi hj

theorem numbered_cutSafe {policies : List RetentionPolicy} {metadata : List ClusterMetadata} (hlen : metadata.length ≤ walBlockSize) :
    CutSafe (numbered policies metadata) := by
  intro m b m' hmar hun
  have hb : b.length ≤ walBlockSize := by
    have htable : tableMarshal metadata m = .ok b := hmar
    unfold tableMarshal at htable
    split at htable
    · cases htable
      rw [length_replicate]
      exact idxOf_le_length.trans hlen
    · cases htable
  rw [take_of_length_le hb, (numbered policies metadata).unmarshal_metadata m b hmar] at hun
  rw [Option.some.inj hun]

def twoStarts (systems : Bool → Name) (first : Bool) : StartCall :=
  ⟨fun _ => 0, .cert "u@c".toList, systems first, "000000010000000000000001".toList⟩

/-- The calls on an empty repository. -/
def startBoth (systems : Bool → Name) : PutSys Bool :=
  starting plainDeps plainCodec twoSystems ⟨false, false⟩ "c".toList (twoStarts systems) Fs.empty

set_option maxRecDepth 10000 in
/-- Two calls of system `A`, one after the other: both succeed. -/
theorem one_system_accepted_in_turn :
    ((startBoth fun _ => "A".toList).run (sem Bool Name UInt8 Msg)
      (List.replicate 8 (.step true none) ++ List.replicate 8 (.step false none))).procs true = .ret () ∧
    ((startBoth fun _ => "A".toList).run (sem Bool Name UInt8 Msg)
      (List.replicate 8 (.step true none) ++ List.replicate 8 (.step false none))).procs false = .ret () ∧
    (twoStarts (fun _ => "A".toList) true).systemId = (twoStarts (fun _ => "A".toList) false).systemId := by
  -- whoever steps is alone
  have hguard : ∀ i, ∀ s : PutSys Bool, (∀ j, j ≠ i → ¬ s.Running j) →
      FirstAlone plainCodec twoSystems "c".toList s (.step i none) := fun i s halone => ⟨i, rfl, .inr halone⟩
  have hfirst : ((startBoth fun _ => "A".toList).run (sem Bool Name UInt8 Msg)
      (replicate 8 (.step true none) ++ replicate 8 (.step false none))).procs true = .ret () := rfl
  have hsecond : ((startBoth fun _ => "A".toList).run (sem Bool Name UInt8 Msg)
      (replicate 8 (.step true none) ++ replicate 8 (.step false none))).procs false = .ret () := rfl
  refine ⟨hfirst, hsecond, ?_⟩
  refine one_system_accepted plainDeps plainCodec twoSystems (numbered_cutSafe (by decide)) ⟨false, false⟩ "c".toList
    (twoStarts fun _ => "A".toList) Fs.empty (fun h => absurd rfl h) _ ?_ true false hfirst hsecond
  refine (guarded_append _ _).mpr ⟨guarded_alone (hguard true) 8 _ ?_, guarded_alone (hguard false) 8 _ ?_⟩
  · intro j _ hrun
    cases hrun.1
  · intro j hj hrun
    obtain rfl : j = true := by simpa using hj
    exact hrun.2 trivial

set_option maxRecDepth 10000 in
/-- Calls of systems `A` and `B` at the same time: both find no record, and both succeed. -/
theorem two_systems_accepted :
    ((startBoth fun first => if first then "A".toList else "B".toList).run (sem Bool Name UInt8 Msg)
      ([.step true none, .step false none] ++ List.replicate 7 (.step true none) ++ List.replicate 7 (.step false none))).procs
        true = .ret () ∧
    ((startBoth fun first => if first then "A".toList else "B".toList).run (sem Bool Name UInt8 Msg)
      ([.step true none, .step false none] ++ List.replicate 7 (.step true none) ++ List.replicate 7 (.step false none))).procs
        false = .ret () := by
  refine ⟨?_, ?_⟩
  · rfl
  · rfl

end Klio

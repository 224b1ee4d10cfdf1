import Klio.Model.Backup

/-!
# What a restore takes

The parts of a backup are found again by their tags, the first snapshot that has them counts. So a
restore brings back the parts of a run exactly if nothing that was stored before has the tags of one
of them, and the tag of every tablespace is its name.

* `prog_stores`: what a run leaves in the repository, in which order.
* `Takes`: what a program of a restore takes, with rules.
* `restore_takes_own_iff`: the parts of a run are taken exactly if they are `Unshadowed`.
-/

namespace Klio

open Lib Prog List

variable {D : ClientDeps}

/-! ## What a run stores -/

/-- A protocol for runs that store these snapshots, in this order, and stop at the first failure. -/
def uploadProto : Proto KopiaOp KopiaOp.Res (Option (List Upload)) where
  allowed ph
    | .snapshot u => ∃ rest, ph = some (u :: rest)
    | .writeFile _ _ | .removeFile _ => True
    | _ => False
  next ph
    | .snapshot _, r => match (r : Except Err Unit), ph with
      | .ok _, some (_ :: rest) => some rest
      | _, _ => none
    | _, _ => ph

def tablespaceUpload (conn : Connection) (n : Name) (tbl : TablespaceLayout) : Upload :=
  ⟨⟨conn.hostName, conn.userName, tbl.path⟩, tablespaceTags n (pathBase tbl.name), none⟩

/-- The snapshot of a directory or file that is another part. -/
def partUpload (conn : Connection) (n directory content : Name) : Upload :=
  ⟨⟨conn.hostName, conn.userName, directory⟩, partTags n content, none⟩

def metadataUpload (conn : Connection) (data : ClientMetadata) : Upload :=
  ⟨⟨conn.hostName, conn.userName, trimSuffix data.pgData "/".toList ++ "_meta".toList⟩,
    partTags data.name metadataContent, some data⟩

/-- What `Upload` and `Close` store. -/
def uploadsOf (D : ClientDeps) (run : BackupRun) (b : BackupExecutor) : List Upload :=
  b.tablespaces.map (tablespaceUpload run.conn b.name) ++
    partUpload run.conn b.name b.pgData "pgdata".toList ::
    partUpload run.conn b.name (D.pathJoin b.pgData controlDataPath) "controldata".toList ::
    match run.pg.backupStop with
    | .ok stop => [metadataUpload run.conn (b.metadata D run stop.1 stop.2.1 stop.2.2)]
    | .error _ => []

def BackupRun.uploads (D : ClientDeps) (run : BackupRun) : List Upload :=
  match run.start with
  | .ok b => uploadsOf D run b
  | .error _ => []

theorem snapshotRun_sat {u : Upload} {f : Err → Err} {rest : List Upload} :
    (KopiaOp.run (.snapshot u) rfl f).Sat uploadProto (fun _ ph => ph = some rest) (fun _ _ => True) (some (u :: rest)) := by
  refine sat_call ⟨rest, rfl⟩ fun (r : Except Err Unit) => ?_
  cases r with
  | ok _ => exact sat_ret rfl
  | error e => exact sat_err trivial

theorem uploadTablespaces_sat (conn : Connection) (n : Name) (rest : List Upload) : ∀ (tbls : List TablespaceLayout),
    (BackupExecutor.uploadTablespaces conn n tbls).Sat uploadProto (fun _ ph => ph = some rest) (fun _ _ => True)
      (some (tbls.map (tablespaceUpload conn n) ++ rest)) := by
  intro tbls
  induction tbls with
  | nil => exact sat_ret rfl
  | cons tbl tbls ih =>
    refine sat_bind (sat_mapErr snapshotRun_sat) ?_
    rintro - ph rfl
    exact ih

theorem uploadPgData_sat (conn : Connection) (n pgData : Name) (rest : List Upload) :
    (uploadPgData D conn n pgData).Sat uploadProto (fun _ ph => ph = some rest) (fun _ _ => True)
      (some (partUpload conn n pgData "pgdata".toList :: rest)) := by
  refine sat_bind (Q := fun _ ph => ph = some (partUpload conn n pgData "pgdata".toList :: rest)) ?_ ?_
  · refine sat_call trivial fun (r : Except Err Unit) => ?_
    cases r with
    | ok _ => exact sat_ret rfl
    | error e => exact sat_err trivial
  · rintro - ph rfl
    refine sat_bind snapshotRun_sat ?_
    rintro - ph rfl
    exact sat_call trivial fun _ => sat_ret rfl

def Returns (D : ClientDeps) (run : BackupRun) (md : ClientMetadata) : Prop :=
  ∃ b stop, run.start = .ok b ∧ run.pg.backupStop = .ok stop ∧ md = b.metadata D run stop.1 stop.2.1 stop.2.2

/-- **A run** stores its snapshots in order, and all of them if it completes. -/
theorem prog_sat (D : ClientDeps) (run : BackupRun) :
    (run.prog D).Sat uploadProto (fun md ph => ph = some [] ∧ Returns D run md) (fun _ _ => True)
      (some (run.uploads D)) := by
  unfold BackupRun.prog BackupRun.uploads
  rcases hstart : run.start with e | b
  · exact sat_err trivial
  refine sat_bind (Q := fun _ ph => ph = some (match run.pg.backupStop with
    | .ok stop => [metadataUpload run.conn (b.metadata D run stop.1 stop.2.1 stop.2.2)]
    | .error _ => [])) (sat_mapErr ?_) ?_
  · refine sat_bind (uploadTablespaces_sat _ _ _ _) ?_
    rintro - ph rfl
    refine sat_bind (uploadPgData_sat _ _ _ _) ?_
    rintro - ph rfl
    exact sat_mapErr snapshotRun_sat
  · rintro - ph rfl
    refine sat_mapErr ?_
    unfold BackupExecutor.close
    rcases hstop : run.pg.backupStop with e | stop
    · exact sat_err trivial
    refine sat_bind (sat_mapErr (sat_mapErr snapshotRun_sat)) ?_
    rintro - ph rfl
    exact sat_ret ⟨rfl, b, stop, hstart, hstop, rfl⟩

variable {run : BackupRun}

theorem uploads_of_returns {md : ClientMetadata} (h : Returns D run md) :
    md.name = run.name ∧ run.uploads D = md.tablespaces.map (tablespaceUpload run.conn md.name) ++
      [partUpload run.conn md.name md.pgData "pgdata".toList,
        partUpload run.conn md.name (D.pathJoin md.pgData controlDataPath) "controldata".toList,
        metadataUpload run.conn md] := by
  obtain ⟨b, stop, hstart, hstop, rfl⟩ := h
  refine ⟨?_, ?_⟩
  · show b.name = run.name
    unfold BackupRun.start at hstart
    split at hstart
    · cases hstart
    split at hstart
    · cases hstart
    · cases hstart
    · cases hstart
    split at hstart
    · cases hstart
    · cases hstart
      rfl
  · unfold BackupRun.uploads uploadsOf
    rw [hstart]
    simp only [hstop]
    rfl

/-- **What has been stored since `s₀`** by run `k`, a part of `us`. -/
structure Stores (D : ClientDeps) (k : ℕ) (us : List Upload) (s₀ s : KopiaRepo) (new : List Snapshot) : Prop where
  stored : s.stored = s₀.stored ++ new
  restored : s.restored = s₀.restored
  run : ∀ x ∈ new, x.run = k
  uploads : new.map Snapshot.upload <+: us
  ids : (s₀.stored.map Snapshot.id).Nodup → (s.stored.map Snapshot.id).Nodup

theorem Stores.create {k : ℕ} {us rest : List Upload} {u : Upload} {s₀ s : KopiaRepo} {new : List Snapshot}
    (h : Stores D k us s₀ s new) (hus : new.map Snapshot.upload ++ u :: rest = us) :
    ∃ x, Stores D k us s₀ (s.create D k u) (new ++ [x]) ∧ (new ++ [x]).map Snapshot.upload ++ rest = us := by
  refine ⟨⟨D.newID (s.stored.map Snapshot.id), s.stored.length, k, u⟩, ⟨?_, h.restored, ?_, ?_, ?_⟩, ?_⟩
  · show s.stored ++ _ = _
    rw [h.stored, append_assoc]
  · intro x hx
    rcases mem_append.mp hx with hx | hx
    · exact h.run x hx
    · rw [mem_singleton.mp hx]
  · refine ⟨rest, ?_⟩
    rw [← hus, map_append, append_assoc]
    rfl
  · intro hnodup
    show ((s.stored ++ _).map Snapshot.id).Nodup
    rw [map_append, nodup_append]
    refine ⟨h.ids hnodup, nodup_singleton _, ?_⟩
    rintro a ha b hb rfl
    rw [mem_singleton.mp hb] at ha
    exact D.newID_fresh _ ha
  · rw [← hus, map_append, append_assoc]
    rfl

/-- What a run stores, whatever faults it meets. -/
theorem prog_stores (D : ClientDeps) (run : BackupRun) (k : ℕ) (cs : ℕ → Option Bool) (s : KopiaRepo) :
    ∃ new, Stores D k (run.uploads D) s ((run.prog D).eval (kopiaSem D) k cs s).2 new ∧
      ∀ md, ((run.prog D).eval (kopiaSem D) k cs s).1 = .ok md →
        new.map Snapshot.upload = run.uploads D ∧ Returns D run md := by
  obtain ⟨ph, ⟨new, hnew, hph⟩, hend⟩ := eval_sat (M := kopiaSem D) (i := k)
    (fun s' ph => ∃ new, Stores D k (run.uploads D) s s' new ∧
      ∀ rest, ph = some rest → new.map Snapshot.upload ++ rest = run.uploads D) (fun _ => True)
    (by
      rintro s' ph o c ⟨new, hnew, hph⟩ ha -
      cases o with
      | snapshot u =>
        obtain ⟨rest, rfl⟩ := ha
        obtain ⟨x, hx, hxu⟩ := hnew.create (hph _ rfl)
        rcases c with _ | done
        · refine ⟨new ++ [x], hx, fun rest' hrest => ?_⟩
          obtain rfl : rest = rest' := Option.some.inj hrest
          exact hxu
        cases done with
        | true => exact ⟨new ++ [x], hx, nofun⟩
        | false => exact ⟨new, hnew, nofun⟩
      | writeFile _ _ => exact ⟨new, hnew, hph⟩
      | removeFile _ => exact ⟨new, hnew, hph⟩
      | _ => exact ha.elim)
    (run.prog D) (some (run.uploads D)) cs s (prog_sat D run)
    ⟨[], ⟨(append_nil _).symm, rfl, nofun, nil_prefix, id⟩,
      fun rest hrest => (Option.some.inj hrest).symm⟩ fun _ => trivial
  refine ⟨new, hnew, ?_⟩
  intro md hmd
  rw [hmd] at hend
  have hall := hph [] hend.1
  rw [append_nil] at hall
  exact ⟨hall, hend.2⟩

/-! ## Tags -/

/-- The value of a tag: empty if there is none. -/
def tagOf (tags : List (Name × Name)) (name : Name) : Name := (tags.lookup name).getD []

theorem lookup_marked (p a : Name) (tags : List (Name × Name)) :
    (tags.map fun t => (p ++ t.1, t.2)).lookup (p ++ a) = tags.lookup a := by
  induction tags with
  | nil => rfl
  | cons t tags ih =>
    have hbeq : (p ++ a == p ++ t.1) = (a == t.1) := by
      rw [Bool.eq_iff_iff, beq_iff_eq, beq_iff_eq, append_cancel_left_eq]
    rw [map_cons, lookup_cons, lookup_cons, hbeq, ih]

theorem tag_manifest (x : Snapshot) (name : Name) : x.manifest.tag name = tagOf x.upload.tags name := by
  unfold Manifest.tag Snapshot.manifest tagOf
  rw [lookup_marked]

def IsFor (host : Name) (tags : List (Name × Name)) (x : Snapshot) : Prop :=
  x.manifest.matches tags = true ∧ x.upload.source.host = host

instance (host : Name) (tags : List (Name × Name)) (x : Snapshot) : Decidable (IsFor host tags x) :=
  inferInstanceAs (Decidable (_ ∧ _))

variable {host n c t : Name} {x : Snapshot}

theorem isFor_part : IsFor host (partTags n c) x ↔
    (tagOf x.upload.tags backupNameTagName = n ∧ tagOf x.upload.tags backupContentTagName = c) ∧ x.upload.source.host = host := by
  unfold IsFor Manifest.matches partTags
  simp only [all_cons, all_nil, Bool.and_true, Bool.and_eq_true, beq_iff_eq, tag_manifest]

theorem isFor_tablespace : IsFor host (tablespaceTags n t) x ↔
    (tagOf x.upload.tags backupContentTagName = "tablespace".toList ∧ tagOf x.upload.tags tablespaceNameTagName = t ∧
      tagOf x.upload.tags backupNameTagName = n) ∧ x.upload.source.host = host := by
  unfold IsFor Manifest.matches tablespaceTags
  simp only [all_cons, all_nil, Bool.and_true, Bool.and_eq_true, beq_iff_eq, tag_manifest]

/-! ## Histories -/

/-- Runs on one repository, each with the faults it meets. -/
abbrev History := List (BackupRun × (ℕ → Option Bool))

/-- The repository after these runs, which are numbered from `k` on. -/
def afterRuns (D : ClientDeps) : ℕ → History → KopiaRepo → KopiaRepo
  | _, [], s => s
  | k, (run, cs) :: runs, s => afterRuns D (k + 1) runs ((run.prog D).eval (kopiaSem D) k cs s).2

/-- **What every history keeps**: IDs are unique, what follows `pgdata` comes with it, and metadata is
stored under the name in it. -/
structure Sound (k : ℕ) (s : KopiaRepo) : Prop where
  nodup : (s.stored.map Snapshot.id).Nodup
  restored : s.restored = []
  run : ∀ x ∈ s.stored, x.run < k
  content : ∀ x ∈ s.stored, ∀ md, x.upload.content = some md → tagOf x.upload.tags backupNameTagName = md.name
  pgData : ∀ host n c x, c = "controldata".toList ∨ c = metadataContent → x ∈ s.stored → IsFor host (partTags n c) x →
    ∃ y ∈ s.stored, IsFor host (partTags n "pgdata".toList) y

theorem mem_of_mem_behind {l a b : List Upload} {u v : Upload} (h : l <+: a ++ u :: b) (hv : v ∈ l) (ha : v ∉ a) : u ∈ l := by
  rcases Nat.lt_or_ge a.length l.length with hlen | hlen
  · have hpre : a ++ [u] <+: l := by
      refine prefix_of_prefix_length_le ⟨b, ?_⟩ h ?_
      · rw [append_assoc]
        rfl
      · rw [length_append, length_singleton]
        omega
    exact hpre.subset (mem_append_right _ (mem_singleton_self u))
  · exact absurd ((prefix_of_prefix_length_le h (prefix_append _ _) hlen).subset hv) ha

theorem uploadsOf_named {b : BackupExecutor} {u : Upload} (h : u ∈ uploadsOf D run b) :
    tagOf u.tags backupNameTagName = b.name ∧ u.source.host = run.conn.hostName ∧
      ∀ md, u.content = some md → md.name = b.name := by
  rcases mem_append.mp h with h | h
  · obtain ⟨tbl, -, rfl⟩ := mem_map.mp h
    exact ⟨rfl, rfl, nofun⟩
  rcases mem_cons.mp h with rfl | h
  · exact ⟨rfl, rfl, nofun⟩
  rcases mem_cons.mp h with rfl | h
  · exact ⟨rfl, rfl, nofun⟩
  split at h
  · rw [mem_singleton.mp h]
    exact ⟨rfl, rfl, fun _ hmd => by cases hmd; rfl⟩
  · cases h

theorem Stores.start {k : ℕ} {s s' : KopiaRepo} {new : List Snapshot}
    (h : Stores D k (run.uploads D) s s' new) {x : Snapshot} (hx : x ∈ new) :
    ∃ b, new.map Snapshot.upload <+: uploadsOf D run b ∧ x.upload ∈ uploadsOf D run b := by
  have hu := mem_map_of_mem (f := Snapshot.upload) hx
  have hpre := h.uploads
  unfold BackupRun.uploads at hpre
  rcases hstart : run.start with e | b
  · rw [hstart] at hpre
    rw [prefix_nil.mp hpre] at hu
    cases hu
  rw [hstart] at hpre
  exact ⟨b, hpre, hpre.subset hu⟩

theorem Sound.run_sound {k : ℕ} {s s' : KopiaRepo} {new : List Snapshot} (h : Sound k s)
    (hnew : Stores D k (run.uploads D) s s' new) : Sound (k + 1) s' := by
  refine ⟨hnew.ids h.nodup, hnew.restored.trans h.restored, ?_, ?_, ?_⟩
  · intro x hx
    rw [hnew.stored] at hx
    rcases mem_append.mp hx with hx | hx
    · have := h.run x hx
      omega
    · rw [hnew.run x hx]
      omega
  · intro x hx md hmd
    rw [hnew.stored] at hx
    rcases mem_append.mp hx with hx | hx
    · exact h.content x hx md hmd
    · obtain ⟨b, -, hu⟩ := hnew.start hx
      obtain ⟨hname, -, hcontent⟩ := uploadsOf_named hu
      exact hname.trans (hcontent md hmd).symm
  · intro host n c x hc hx hfor
    rw [hnew.stored] at hx ⊢
    rcases mem_append.mp hx with hx | hx
    · obtain ⟨y, hy, hyfor⟩ := h.pgData host n c x hc hx hfor
      exact ⟨y, mem_append_left _ hy, hyfor⟩
    obtain ⟨b, hpre, hu⟩ := hnew.start hx
    rw [isFor_part] at hfor
    obtain ⟨⟨hname, hcontent⟩, hhost⟩ := hfor
    obtain ⟨hname', hhost', -⟩ := uploadsOf_named hu
    have hnot : x.upload ∉ b.tablespaces.map (tablespaceUpload run.conn b.name) := by
      intro hmem
      obtain ⟨tbl, -, htbl⟩ := mem_map.mp hmem
      rw [← htbl] at hcontent
      have htag : "tablespace".toList = c := hcontent
      rcases hc with rfl | rfl
      · exact absurd htag (by decide)
      · exact absurd htag (by decide)
    obtain ⟨y, hy, hyu⟩ := mem_map.mp (mem_of_mem_behind hpre (mem_map_of_mem hx) hnot)
    refine ⟨y, mem_append_right _ hy, isFor_part.mpr ?_⟩
    rw [hyu]
    exact ⟨⟨hname'.symm.trans hname, rfl⟩, hhost'.symm.trans hhost⟩

theorem afterRuns_sound (D : ClientDeps) : ∀ (runs : History) (k : ℕ) (s : KopiaRepo), Sound k s →
    Sound (k + runs.length) (afterRuns D k runs s) := by
  intro runs
  induction runs with
  | nil => intro k s h; exact h
  | cons run runs ih =>
    intro k s h
    obtain ⟨new, hnew, -⟩ := prog_stores D run.1 k run.2 s
    have hrest := ih (k + 1) _ (h.run_sound hnew)
    rw [length_cons, Nat.add_comm runs.length 1, ← Nat.add_assoc]
    exact hrest

theorem afterRuns_stored (D : ClientDeps) : ∀ (runs : History) (k : ℕ) (s : KopiaRepo),
    ∃ later, (afterRuns D k runs s).stored = s.stored ++ later := by
  intro runs
  induction runs with
  | nil => intro k s; exact ⟨[], (append_nil _).symm⟩
  | cons run runs ih =>
    intro k s
    obtain ⟨new, hnew, -⟩ := prog_stores D run.1 k run.2 s
    obtain ⟨later, hlater⟩ := ih (k + 1) ((run.1.prog D).eval (kopiaSem D) k run.2 s).2
    exact ⟨new ++ later, by rw [← append_assoc, ← hnew.stored]; exact hlater⟩

theorem sound_empty : Sound 0 {} :=
  ⟨nodup_nil, rfl, nofun, nofun, nofun⟩

/-! ## What a search finds -/

def pick (stored : List Snapshot) (host : Name) (tags : List (Name × Name)) : Option Snapshot :=
  stored.find? fun x => IsFor host tags x

theorem find_listed (stored : List Snapshot) (host : Name) (tags : List (Name × Name)) :
    ((stored.map Snapshot.manifest).filter fun m => m.matches tags).find? (fun m => m.source.host = host) =
      (pick stored host tags).map Snapshot.manifest := by
  rw [find?_filter, find?_map]
  refine congrArg (Option.map _) (congrArg (find? · stored) (funext fun x => ?_))
  simp only [Function.comp_apply, decide_eq_true_eq]
  rfl

variable {stored : List Snapshot}

theorem find_id (hnodup : (stored.map Snapshot.id).Nodup) {x : Snapshot} (hx : x ∈ stored) :
    (stored.find? fun y => y.id = x.id) = some x := by
  cases hfind : stored.find? fun y => decide (y.id = x.id) with
  | none =>
    have hno := find?_eq_none.mp hfind x hx
    exact absurd (decide_eq_true rfl) hno
  | some y =>
    have hid := find?_some hfind
    rw [decide_eq_true_eq] at hid
    rw [inj_on_of_nodup_map hnodup (mem_of_find?_eq_some hfind) hx hid]

theorem pick_mem {tags : List (Name × Name)} {x : Snapshot} (h : pick stored host tags = some x) :
    x ∈ stored ∧ IsFor host tags x := by
  have hfor := find?_some h
  rw [decide_eq_true_eq] at hfor
  exact ⟨mem_of_find?_eq_some h, hfor⟩

/-- What was taken: the run that has stored it, what was stored, and where it went. -/
def takenFrom (p : Snapshot × Name) : ℕ × Upload × Name := (p.1.run, p.1.upload, p.2)

def found (stored : List Snapshot) (host : Name) (q : List (Name × Name) × Name) : Option (ℕ × Upload × Name) :=
  (pick stored host q.1).map fun x => takenFrom (x, q.2)

/-- **A program returns `v` and takes these parts**: it changes nothing but what is restored. It takes the parts in
order, all of them if it returns, and returns if nothing fails, there is a `v` and every part is found. -/
def Takes {α : Type} (D : ClientDeps) (stored : List Snapshot) (p : KopiaProg α) (v : Option α)
    (parts : List (Option (ℕ × Upload × Name))) : Prop :=
  ∀ i cs s, s.stored = stored → ∃ taken,
    (p.eval (kopiaSem D) i cs s).2 = { s with restored := s.restored ++ taken } ∧
    (taken.map takenFrom).map some <+: parts ∧
    (∀ a, (p.eval (kopiaSem D) i cs s).1 = .ok a → v = some a ∧ (taken.map takenFrom).map some = parts) ∧
    ((∀ n, cs n = none) → v ≠ none → none ∉ parts → (p.eval (kopiaSem D) i cs s).1.isOk = true)

section Rules

variable {α β : Type} {stored : List Snapshot} {v : Option α} {parts : List (Option (ℕ × Upload × Name))} {p : KopiaProg α}

theorem takes_ret (a : α) : Takes D stored (.ret a) (some a) [] := by
  intro i cs s _
  refine ⟨[], ?_, nil_prefix, fun b hb => ?_, fun _ _ _ => rfl⟩
  · show s = { s with restored := s.restored ++ [] }
    rw [append_nil]
  · cases hb
    exact ⟨rfl, rfl⟩

theorem takes_err (e : Err) : Takes D stored (.err e : KopiaProg α) none [] := by
  intro i cs s _
  refine ⟨[], ?_, nil_prefix, nofun, fun _ hv => absurd rfl hv⟩
  show s = { s with restored := s.restored ++ [] }
  rw [append_nil]

theorem takes_bind {f : α → KopiaProg β} {w : α → Option β} {q : α → List (Option (ℕ × Upload × Name))}
    (hp : Takes D stored p v parts) (hf : ∀ a, v = some a → Takes D stored (f a) (w a) (q a)) :
    Takes D stored (p.bind f) (v.bind w) (parts ++ v.elim [] q) := by
  intro i cs s hs
  obtain ⟨n, hn⟩ := eval_bind (M := kopiaSem D) i f p cs s
  obtain ⟨taken, hstate, hpre, hret, hclean⟩ := hp i cs s hs
  rw [hn]
  cases hres : p.eval (kopiaSem D) i cs s with
  | mk res s' =>
    rw [hres] at hstate hret hclean
    obtain rfl : s' = { s with restored := s.restored ++ taken } := hstate
    rcases res with e | a
    · refine ⟨taken, rfl, hpre.trans (prefix_append _ _), nofun, fun hc hv hfound => ?_⟩
      have := hclean hc (fun h => hv (by rw [h]; rfl)) fun h => hfound (mem_append_left _ h)
      cases this
    obtain ⟨rfl, hall⟩ := hret a rfl
    obtain ⟨taken', hstate', hpre', hret', hclean'⟩ :=
      hf a rfl i (fun k => cs (k + n)) { s with restored := s.restored ++ taken } hs
    refine ⟨taken ++ taken', ?_, ?_, fun b hb => ?_, fun hc hv hfound => ?_⟩
    · show ((f a).eval (kopiaSem D) i (fun k => cs (k + n)) { s with restored := s.restored ++ taken }).2 = _
      rw [hstate', append_assoc]
    · rw [map_append, map_append, hall]
      exact (prefix_append_right_inj _).mpr hpre'
    · rw [map_append, map_append, hall]
      exact ⟨(hret' b hb).1, congrArg (parts ++ ·) (hret' b hb).2⟩
    · exact hclean' (fun k => hc _) hv fun h => hfound (mem_append_right _ h)

theorem takes_seq {f : α → KopiaProg β} {w : Option β} {q : List (Option (ℕ × Upload × Name))} {a : α}
    (hp : Takes D stored p (some a) parts) (hf : Takes D stored (f a) w q) : Takes D stored (p.bind f) w (parts ++ q) := by
  refine takes_bind (w := fun _ => w) (q := fun _ => q) hp fun b hb => ?_
  cases hb
  exact hf

theorem takes_mapErr {f : Err → Err} (hp : Takes D stored p v parts) : Takes D stored (p.mapErr f) v parts := by
  intro i cs s hs
  obtain ⟨taken, hstate, hpre, hret, hclean⟩ := hp i cs s hs
  rw [eval_mapErr]
  refine ⟨taken, hstate, hpre, ?_, ?_⟩ <;> cases hres : (p.eval (kopiaSem D) i cs s).1 <;> rw [hres] at hret hclean
  · exact nofun
  · exact hret
  · exact hclean
  · exact hclean

/-- An operation that only answers. -/
theorem takes_answer {o : KopiaOp} {k : o.Res → KopiaProg α} (answer : Option Bool → Except Err α)
    (hexec : ∀ i c s, s.stored = stored → ∃ r f, KopiaRepo.exec D i o c s = (r, s) ∧ k r = Prog.orErr f (answer c))
    (hv : ∀ c a, answer c = .ok a → v = some a) (hclean : v ≠ none → (answer none).isOk = true) :
    Takes D stored (.call o k) v [] := by
  intro i cs s hs
  obtain ⟨r, f, hr, hk⟩ := hexec i (cs 0) s hs
  rw [eval_call (M := kopiaSem D) hr, hk]
  have hnil : s = { s with restored := s.restored ++ [] } := by rw [append_nil]
  rcases hc : answer (cs 0) with e | a
  · refine ⟨[], hnil, nil_prefix, nofun, fun hcs hv' _ => ?_⟩
    have := hclean hv'
    rw [← hcs 0, hc] at this
    cases this
  · refine ⟨[], hnil, nil_prefix, fun b hb => ?_, fun _ _ _ => rfl⟩
    cases hb
    exact ⟨hv _ _ hc, rfl⟩

theorem takes_local {o : KopiaOp} (h : o.Res = Except Err Unit) (f : Err → Err) (e : Err)
    (hexec : ∀ i c s, KopiaRepo.exec D i o c s = (cast h.symm (if c.isSome then .error e else .ok ()), s)) :
    Takes D stored (KopiaOp.run o h f) (some ()) [] :=
  takes_answer (fun c => if c.isSome then .error e else .ok ()) (fun i c s _ => ⟨_, f, hexec i c s, by rw [cast_cast]; rfl⟩)
    (fun _ _ _ => rfl) fun _ => rfl

theorem listTagged_takes (tags : List (Name × Name)) : Takes D stored (listTagged tags)
    (some ((stored.map Snapshot.manifest).filter fun m => m.matches tags)) [] := by
  refine takes_answer (fun c => if c.isSome then .error kopiaFailed
    else .ok ((stored.map Snapshot.manifest).filter fun m => m.matches tags)) ?_ ?_ fun _ => rfl
  · rintro i c s rfl
    exact ⟨_, _, rfl, rfl⟩
  · intro c a ha
    split at ha <;> cases ha
    rfl

theorem getSnapshotID_takes (conn : Connection) (tags : List (Name × Name)) :
    Takes D stored (getSnapshotID conn tags) ((pick stored conn.hostName tags).map Snapshot.id) [] := by
  have hfind : ∀ entries : List Manifest,
      (entries.find? fun entry => conn.hostName ≠ [] ∧ entry.source.host = conn.hostName) =
        entries.find? fun entry => entry.source.host = conn.hostName := by
    intro entries
    refine congrArg (find? · entries) (funext fun entry => ?_)
    simp [conn.hostName_ne]
  refine takes_seq (listTagged_takes tags) ?_
  simp only [hfind, find_listed]
  cases pick stored conn.hostName tags with
  | none => exact takes_err _
  | some x => exact takes_ret x.id

variable (hnodup : (stored.map Snapshot.id).Nodup)
include hnodup

theorem restoreSnapshot_takes {x : Snapshot} (hx : x ∈ stored) (destination : Name) (f : Err → Err) :
    Takes D stored (KopiaOp.run (.restoreSnapshot x.id destination) rfl f) (some ()) [some (takenFrom (x, destination))] := by
  rintro i cs s rfl
  rcases hc : cs 0 with _ | done
  · have hexec : (kopiaSem D).exec i (.restoreSnapshot x.id destination) (cs 0) s =
        ((.ok () : Except Err Unit), { s with restored := s.restored ++ [(x, destination)] }) := by
      simp only [kopiaSem, KopiaRepo.exec, find_id hnodup hx, hc]
      rfl
    have heval : (KopiaOp.run (.restoreSnapshot x.id destination) rfl f).eval (kopiaSem D) i cs s =
      (.ok (), { s with restored := s.restored ++ [(x, destination)] }) := eval_call hexec
    rw [heval]
    exact ⟨_, rfl, prefix_rfl, fun _ _ => ⟨rfl, rfl⟩, fun _ _ _ => rfl⟩
  -- a fault may come after the files were restored
  have hexec : (kopiaSem D).exec i (.restoreSnapshot x.id destination) (cs 0) s =
      ((.error kopiaFailed : Except Err Unit), if done then { s with restored := s.restored ++ [(x, destination)] } else s) := by
    simp only [kopiaSem, KopiaRepo.exec, find_id hnodup hx, hc]
    rfl
  have heval : (KopiaOp.run (.restoreSnapshot x.id destination) rfl f).eval (kopiaSem D) i cs s =
      (.error (f kopiaFailed), if done then { s with restored := s.restored ++ [(x, destination)] } else s) := eval_call hexec
  have hfault : ¬ ∀ n, cs n = none := fun hall => by rw [hall] at hc; cases hc
  rw [heval]
  cases done with
  | true => exact ⟨_, rfl, prefix_rfl, nofun, fun hall => absurd hall hfault⟩
  | false => exact ⟨[], by rw [append_nil]; rfl, nil_prefix, nofun, fun hall => absurd hall hfault⟩

theorem restoreTagged_takes (conn : Connection) (tags : List (Name × Name)) (destination : Name) :
    Takes D stored (restoreTagged conn tags destination) (some ()) [found stored conn.hostName (tags, destination)] := by
  have hid : Takes D stored (getSnapshotID conn tags) ((pick stored conn.hostName tags).map Snapshot.id) [] := getSnapshotID_takes conn tags
  unfold found
  cases hpick : pick stored conn.hostName tags with
  | none =>
    rw [hpick] at hid
    -- without a snapshot the program cannot return
    intro i cs s hs
    obtain ⟨taken, hstate, hpre, hret, -⟩ := takes_bind (w := fun _ => some ()) (q := fun _ => []) hid nofun i cs s hs
    exact ⟨taken, hstate, hpre.trans nil_prefix, fun a ha => absurd (hret a ha).1 nofun, fun _ _ hno => absurd mem_cons_self hno⟩
  | some x =>
    rw [hpick] at hid
    exact takes_seq hid (restoreSnapshot_takes hnodup (pick_mem hpick).1 _ _)

theorem restoreTablespaces_takes (conn : Connection) (conf : RestoreConfiguration) (md : ClientMetadata) : ∀ tbls : List TablespaceLayout,
    Takes D stored (restoreTablespaces conn conf md tbls) (some ())
      ((tbls.map fun t => (tablespaceTags md.name t.name, conf.destination t)).map (found stored conn.hostName)) := by
  intro tbls
  induction tbls with
  | nil => exact takes_ret ()
  | cons tbl tbls ih =>
    exact takes_seq (takes_mapErr (takes_mapErr (restoreTagged_takes hnodup _ _ _))) ih

/-- The metadata a restore works with. -/
def readFor (stored : List Snapshot) (host name : Name) : Option ClientMetadata :=
  (pick stored host (partTags name metadataContent)).bind fun x => x.upload.content

theorem getMetadataOf_takes (host name : Name) : Takes D stored (getMetadataOf host name) (readFor stored host name) [] := by
  refine takes_seq (listTagged_takes _) ?_
  simp only [find_listed, readFor]
  cases hpick : pick stored host (partTags name metadataContent) with
  | none => exact takes_err _
  | some x =>
    refine takes_answer (fun c => x.upload.content.elim (.error kopiaFailed) fun md =>
      if c.isSome then .error kopiaFailed else .ok md) ?_ ?_ ?_
    · rintro i c s rfl
      refine ⟨_, .wrap "restoring backup metadata: %w" [], rfl, ?_⟩
      rw [show (s.stored.find? fun y => decide (y.id = x.manifest.id)) = some x from find_id hnodup (pick_mem hpick).1, Option.bind_some]
      cases x.upload.content <;> rfl
    · intro c a ha
      show x.upload.content = some a
      cases hcontent : x.upload.content with
      | none => rw [hcontent] at ha; cases ha
      | some md => rw [hcontent, Option.elim_some] at ha; split at ha <;> cases ha; rfl
    · intro hv
      obtain ⟨md, hmd⟩ := Option.ne_none_iff_exists'.mp hv
      rw [show x.upload.content = some md from hmd]
      rfl

/-! ## Restore -/

/-- The parts of a backup, and where they go. -/
def partsOf (D : ClientDeps) (conf : RestoreConfiguration) (destinationPath : Name) (md : ClientMetadata) :
    List (List (Name × Name) × Name) :=
  md.tablespaces.map (fun t => (tablespaceTags md.name t.name, conf.destination t)) ++
    [(partTags md.name "pgdata".toList, destinationPath),
      (partTags md.name "controldata".toList, D.pathJoin destinationPath controlDataPath)]

/-- **What a restore takes**: the parts of the backup whose metadata it reads. -/
theorem restore_takes (conn : Connection) (conf : RestoreConfiguration) (hostname destinationPath : Name) :
    Takes D stored (restore D conn conf hostname destinationPath) ((readFor stored hostname conf.name).bind fun _ => some ())
      ((readFor stored hostname conf.name).elim [] fun md => (partsOf D conf destinationPath md).map (found stored conn.hostName)) := by
  refine takes_bind (takes_mapErr (getMetadataOf_takes hnodup _ _)) fun md _ => ?_
  rw [partsOf, map_append]
  refine takes_seq (restoreTablespaces_takes hnodup conn conf md _) ?_
  refine takes_seq (takes_mapErr (restoreTagged_takes hnodup _ _ _)) ?_
  refine takes_seq (takes_mapErr (restoreTagged_takes hnodup _ _ _)) ?_
  exact takes_seq (takes_local rfl _ (.fs .io) fun _ _ _ => rfl) (takes_local rfl _ (.fs .io) fun _ _ _ => rfl)

end Rules

/-! ## The parts of one run -/

/-- The parts of run `k`, which has returned `md`, and where they go. -/
def ownParts (D : ClientDeps) (conn : Connection) (conf : RestoreConfiguration) (destinationPath : Name) (k : ℕ)
    (md : ClientMetadata) : List (ℕ × Upload × Name) :=
  md.tablespaces.map (fun t => (k, tablespaceUpload conn md.name t, conf.destination t)) ++
    [(k, partUpload conn md.name md.pgData "pgdata".toList, destinationPath),
      (k, partUpload conn md.name (D.pathJoin md.pgData controlDataPath) "controldata".toList,
        D.pathJoin destinationPath controlDataPath)]

/-- **A restore takes these parts**, in order: all of them if it returns, as it does if nothing fails. -/
def TakesOwn (D : ClientDeps) (conn : Connection) (conf : RestoreConfiguration) (hostname destinationPath : Name)
    (s : KopiaRepo) (own : List (ℕ × Upload × Name)) : Prop :=
  ∀ i cs,
    let out := (restore D conn conf hostname destinationPath).eval (kopiaSem D) i cs s
    out.2.restored.map takenFrom <+: own ∧ (out.1.isOk = true → out.2.restored.map takenFrom = own) ∧
      ((∀ n, cs n = none) → out.1.isOk = true)

variable {conf : RestoreConfiguration} {conn : Connection}

theorem Takes.own_iff {S : KopiaRepo} {hostname destinationPath : Name} {v : Option Unit}
    {parts : List (Option (ℕ × Upload × Name))} (h : Takes D S.stored (restore D conn conf hostname destinationPath) v parts)
    (hnone : S.restored = []) (own : List (ℕ × Upload × Name)) :
    TakesOwn D conn conf hostname destinationPath S own ↔ v ≠ none ∧ parts = own.map some := by
  have hok : ∀ {r : Except Err Unit}, r.isOk = true → r = .ok () := fun {r} hr => by cases r <;> cases hr; rfl
  constructor
  · intro howns
    obtain ⟨-, hall, hclean⟩ := howns 0 fun _ => none
    obtain ⟨taken, hstate, -, hret, -⟩ := h 0 (fun _ => none) S rfl
    obtain ⟨rfl, rfl⟩ := hret () (hok (hclean fun _ => rfl))
    refine ⟨nofun, ?_⟩
    rw [← hall (hclean fun _ => rfl), hstate, hnone]
    rfl
  · rintro ⟨hv, rfl⟩ i cs
    obtain ⟨taken, hstate, hpre, hret, hclean⟩ := h i cs S rfl
    intro out
    have hrestored : out.2.restored = taken := by
      rw [hstate, hnone]
      rfl
    rw [hrestored]
    refine ⟨(prefix_map_iff_of_injective (fun _ _ => Option.some.inj)).mp hpre, fun hr => ?_, fun hc => hclean hc hv (by simp)⟩
    exact map_injective_iff.mpr (fun _ _ => Option.some.inj) (hret () (hok hr)).2

/-- **Nothing shadows the parts**: what is stored already has none of their tags, and the tag of a
tablespace is its name. -/
def Unshadowed (s : KopiaRepo) (host : Name) (md : ClientMetadata) : Prop :=
  (∀ y ∈ s.stored, ¬ IsFor host (partTags md.name "pgdata".toList) y) ∧
    ∀ t ∈ md.tablespaces, pathBase t.name = t.name ∧ ∀ y ∈ s.stored, ¬ IsFor host (tablespaceTags md.name t.name) y

section Own

variable {old new later : List Snapshot} {tags : List (Name × Name)} {u : Upload}

theorem pick_old {y : Snapshot} (hy : y ∈ old) (hfor : IsFor host tags y) :
    ∃ x ∈ old, pick (old ++ new ++ later) host tags = some x := by
  unfold pick
  rcases hfind : old.find? fun x => decide (IsFor host tags x) with _ | x
  · exact absurd (decide_eq_true hfor) (find?_eq_none.mp hfind y hy)
  refine ⟨x, mem_of_find?_eq_some hfind, ?_⟩
  rw [append_assoc, find?_append, hfind]
  rfl

theorem pick_own (hold : ∀ y ∈ old, ¬ IsFor host tags y) (hex : ∃ x ∈ new, x.upload = u ∧ IsFor host tags x)
    (honly : ∀ x ∈ new, IsFor host tags x → x.upload = u) :
    ∃ x ∈ new, pick (old ++ new ++ later) host tags = some x ∧ x.upload = u := by
  obtain ⟨y, hy, -, hyfor⟩ := hex
  have hnone : (old.find? fun x => decide (IsFor host tags x)) = none := by
    rw [find?_eq_none]
    intro x hx
    rw [decide_eq_true_eq]
    exact hold x hx
  rcases hfind : new.find? fun x => decide (IsFor host tags x) with _ | x
  · exact absurd (decide_eq_true hyfor) (find?_eq_none.mp hfind y hy)
  have hx := mem_of_find?_eq_some hfind
  have hfor := find?_some hfind
  rw [decide_eq_true_eq] at hfor
  refine ⟨x, hx, ?_, honly x hx hfor⟩
  unfold pick
  rw [find?_append, find?_append, hnone, hfind]
  rfl

/-- **A completed run** in the history of a repository. -/
structure Completed (D : ClientDeps) (k : ℕ) (run : BackupRun) (md : ClientMetadata) (s : KopiaRepo)
    (new : List Snapshot) : Prop where
  sound : Sound k s
  of_run : ∀ x ∈ new, x.run = k
  uploads : new.map Snapshot.upload = run.uploads D
  returns : Returns D run md

variable {k : ℕ} {run : BackupRun} {md : ClientMetadata} {s : KopiaRepo}

section

variable (h : Completed D k run md s new)
include h

theorem Completed.cases (hx : x ∈ new) :
    (∃ t ∈ md.tablespaces, x.upload = tablespaceUpload run.conn md.name t) ∨
      x.upload = partUpload run.conn md.name md.pgData "pgdata".toList ∨
      x.upload = partUpload run.conn md.name (D.pathJoin md.pgData controlDataPath) "controldata".toList ∨
      x.upload = metadataUpload run.conn md := by
  have hu := mem_map_of_mem (f := Snapshot.upload) hx
  rw [h.uploads, (uploads_of_returns h.returns).2] at hu
  rcases mem_append.mp hu with hu | hu
  · obtain ⟨t, ht, hxt⟩ := mem_map.mp hu
    exact .inl ⟨t, ht, hxt.symm⟩
  · simp only [mem_cons, not_mem_nil, or_false] at hu
    exact .inr hu

theorem Completed.exists (hu : u ∈ md.tablespaces.map (tablespaceUpload run.conn md.name) ++
      [partUpload run.conn md.name md.pgData "pgdata".toList,
        partUpload run.conn md.name (D.pathJoin md.pgData controlDataPath) "controldata".toList,
        metadataUpload run.conn md]) : ∃ x ∈ new, x.upload = u := by
  rw [← (uploads_of_returns h.returns).2, ← h.uploads] at hu
  exact mem_map.mp hu

theorem Completed.pick_part (later : List Snapshot) {content : Name}
    (hold : ∀ y ∈ s.stored, ¬ IsFor run.conn.hostName (partTags md.name content) y)
    (hu : u ∈ [partUpload run.conn md.name md.pgData "pgdata".toList,
        partUpload run.conn md.name (D.pathJoin md.pgData controlDataPath) "controldata".toList, metadataUpload run.conn md])
    (htag : tagOf u.tags backupContentTagName = content) :
    ∃ x ∈ new, pick (s.stored ++ new ++ later) run.conn.hostName (partTags md.name content) = some x ∧ x.upload = u := by
  obtain ⟨x, hx, hxu⟩ := h.exists (mem_append_right _ hu)
  have huname : tagOf u.tags backupNameTagName = md.name ∧ u.source.host = run.conn.hostName := by
    simp only [mem_cons, not_mem_nil, or_false] at hu
    rcases hu with rfl | rfl | rfl
    · exact ⟨rfl, rfl⟩
    · exact ⟨rfl, rfl⟩
    · exact ⟨rfl, rfl⟩
  refine pick_own hold ⟨x, hx, hxu, isFor_part.mpr ?_⟩ ?_
  · rw [hxu]
    exact ⟨⟨huname.1, htag⟩, huname.2⟩
  intro y hy hfor
  have hcontent := (isFor_part.mp hfor).1.2
  rw [← htag] at hcontent
  -- the four kinds of parts differ in the content tag
  simp only [mem_cons, not_mem_nil, or_false] at hu
  rcases h.cases hy with ⟨t, -, hyu⟩ | hyu | hyu | hyu <;> rw [hyu] at hcontent <;> rcases hu with rfl | rfl | rfl <;>
    first | exact hyu | cases hcontent

theorem Completed.pick_tablespace (later : List Snapshot)
    (hnames : (md.tablespaces.map TablespaceLayout.name).Nodup) (hbase : ∀ t ∈ md.tablespaces, pathBase t.name = t.name) {t : TablespaceLayout} (ht : t ∈ md.tablespaces)
    (hold : ∀ y ∈ s.stored, ¬ IsFor run.conn.hostName (tablespaceTags md.name t.name) y) :
    ∃ x ∈ new, pick (s.stored ++ new ++ later) run.conn.hostName (tablespaceTags md.name t.name) = some x ∧
      x.upload = tablespaceUpload run.conn md.name t := by
  obtain ⟨x, hx, hxu⟩ := h.exists (mem_append_left _ (mem_map_of_mem ht))
  refine pick_own hold ⟨x, hx, hxu, isFor_tablespace.mpr ?_⟩ ?_
  · rw [hxu]
    exact ⟨⟨rfl, hbase t ht, rfl⟩, rfl⟩
  intro y hy hfor
  obtain ⟨⟨hcontent, htbl, -⟩, -⟩ := isFor_tablespace.mp hfor
  rcases h.cases hy with ⟨t', ht', hyu⟩ | hyu | hyu | hyu
  · rw [hyu] at htbl
    have hname : t'.name = t.name := (hbase t' ht').symm.trans htbl
    rw [hyu, inj_on_of_nodup_map hnames ht' ht hname]
  all_goals
    rw [hyu] at hcontent
    cases hcontent

section

variable (hold : ∀ y ∈ s.stored, ¬ IsFor run.conn.hostName (partTags md.name "pgdata".toList) y)
include hold

theorem Completed.unshadowed_part {content : Name}
    (hc : content = "controldata".toList ∨ content = metadataContent) :
    ∀ y ∈ s.stored, ¬ IsFor run.conn.hostName (partTags md.name content) y := by
  intro y hy hfor
  obtain ⟨z, hz, hzfor⟩ := h.sound.pgData _ _ _ y hc hy hfor
  exact hold z hz hzfor

theorem Completed.reads : readFor (s.stored ++ new ++ later) run.conn.hostName md.name = some md := by
  obtain ⟨x, -, hpick, hxu⟩ := h.pick_part later (h.unshadowed_part hold (.inr rfl))
    (mem_cons_of_mem _ (mem_cons_of_mem _ (mem_singleton_self _))) rfl
  rw [readFor, hpick, Option.bind_some, hxu]
  rfl

end

omit h in
theorem found_own_iff {destinationPath : Name} :
    (partsOf D conf destinationPath md).map (found stored host) = (ownParts D conn conf destinationPath k md).map some ↔
      (∀ t ∈ md.tablespaces, found stored host (tablespaceTags md.name t.name, conf.destination t) =
        some (k, tablespaceUpload conn md.name t, conf.destination t)) ∧
      found stored host (partTags md.name "pgdata".toList, destinationPath) =
        some (k, partUpload conn md.name md.pgData "pgdata".toList, destinationPath) ∧
      found stored host (partTags md.name "controldata".toList, D.pathJoin destinationPath controlDataPath) =
        some (k, partUpload conn md.name (D.pathJoin md.pgData controlDataPath) "controldata".toList,
          D.pathJoin destinationPath controlDataPath) := by
  unfold partsOf ownParts
  rw [map_append, map_append, map_map, map_map]
  constructor
  · intro h
    obtain ⟨htbls, hrest⟩ := append_inj h (by rw [length_map, length_map])
    rw [map_inj_left] at htbls
    simp only [map_cons, map_nil, cons.injEq, and_true] at hrest
    exact ⟨htbls, hrest⟩
  · rintro ⟨htbls, hpg, hcontrol⟩
    refine congrArg₂ (· ++ ·) (map_inj_left.mpr htbls) ?_
    simp only [map_cons, map_nil, hpg, hcontrol]

omit h in
theorem found_eq_some {q : List (Name × Name) × Name} {o : ℕ × Upload × Name} :
    found stored host q = some o ↔ ∃ x, pick stored host q.1 = some x ∧ takenFrom (x, q.2) = o := by
  unfold found
  rw [Option.map_eq_some_iff]

theorem Completed.not_shadowed {destination : Name} {o : ℕ × Upload × Name}
    (hfound : found (s.stored ++ new ++ later) host (tags, destination) = some o) (ho : o.1 = k) :
    ∀ y ∈ s.stored, ¬ IsFor host tags y := by
  intro y hy hfor
  obtain ⟨x, hpick, hxo⟩ := found_eq_some.mp hfound
  obtain ⟨z, hz, hpick'⟩ : ∃ z ∈ s.stored, pick (s.stored ++ new ++ later) host tags = some z := pick_old hy hfor
  have hxz : x = z := Option.some.inj (hpick.symm.trans hpick')
  have hrun : z.run = k := by
    rw [← ho, ← hxo, ← hxz]
    rfl
  have hlt := h.sound.run z hz
  omega

/-- The parts are found exactly if nothing shadows them. -/
theorem Completed.found_own_iff_unshadowed (later : List Snapshot)
    (hnames : (md.tablespaces.map TablespaceLayout.name).Nodup) (conf : RestoreConfiguration) (destinationPath : Name) :
    (partsOf D conf destinationPath md).map (found (s.stored ++ new ++ later) run.conn.hostName) =
        (ownParts D run.conn conf destinationPath k md).map some ↔ Unshadowed s run.conn.hostName md := by
  rw [found_own_iff]
  constructor
  · rintro ⟨htbls, hpg, -⟩
    refine ⟨h.not_shadowed hpg rfl, fun t ht => ⟨?_, h.not_shadowed (htbls t ht) rfl⟩⟩
    -- the snapshot that is found has the name as its tag, and it was stored with the base name
    obtain ⟨x, hpick, hx⟩ := found_eq_some.mp (htbls t ht)
    have htag := (isFor_tablespace.mp (pick_mem hpick).2).1.2.1
    have hupload : x.upload = tablespaceUpload run.conn md.name t := congrArg (fun o => o.2.1) hx
    rw [hupload] at htag
    exact htag
  · rintro ⟨hpg, htbls⟩
    have hown : ∀ {x : Snapshot} {u : Upload} (destination : Name), x ∈ new → x.upload = u →
        takenFrom (x, destination) = (k, u, destination) := by
      rintro x u destination hx rfl
      rw [← h.of_run x hx]
      rfl
    refine ⟨fun t ht => ?_, ?_, ?_⟩
    · obtain ⟨x, hx, hpick, hxu⟩ := h.pick_tablespace later hnames (fun t ht => (htbls t ht).1) ht (htbls t ht).2
      exact found_eq_some.mpr ⟨x, hpick, hown _ hx hxu⟩
    · obtain ⟨x, hx, hpick, hxu⟩ := h.pick_part later hpg (mem_cons_self ..) rfl
      exact found_eq_some.mpr ⟨x, hpick, hown _ hx hxu⟩
    · obtain ⟨x, hx, hpick, hxu⟩ := h.pick_part later (h.unshadowed_part hpg (.inl rfl))
        (mem_cons_of_mem _ (mem_cons_self ..)) rfl
      exact found_eq_some.mpr ⟨x, hpick, hown _ hx hxu⟩

theorem Completed.reads_of_found {S : KopiaRepo} {m : ℕ} (hS : Sound m S)
    (hstored : S.stored = s.stored ++ new ++ later) {md' : ClientMetadata} (hreads : readFor S.stored run.conn.hostName md.name = some md')
    {destinationPath : Name} {own : List (ℕ × Upload × Name)} (hown : ∀ o ∈ own, o.1 = k)
    (hfound : (partsOf D conf destinationPath md').map (found S.stored run.conn.hostName) = own.map some) : md' = md := by
  have hname : md'.name = md.name := by
    obtain ⟨x, hpick, hmd⟩ := Option.bind_eq_some_iff.mp hreads
    obtain ⟨hx, hfor⟩ := pick_mem hpick
    rw [← hS.content x hx md' hmd, (isFor_part.mp hfor).1.1]
  have hmem : found S.stored run.conn.hostName (partTags md'.name "pgdata".toList, destinationPath) ∈ own.map some := by
    rw [← hfound]
    exact mem_map_of_mem (mem_append_right _ (mem_cons_self ..))
  obtain ⟨o, ho, hpg⟩ := mem_map.mp hmem
  rw [hstored, hname] at hpg
  rw [hstored, h.reads (h.not_shadowed hpg.symm (hown o ho))] at hreads
  exact (Option.some.inj hreads).symm

end

end Own

theorem ownParts_run {destinationPath : Name} {k : ℕ} {md : ClientMetadata} :
    ∀ o ∈ ownParts D conn conf destinationPath k md, o.1 = k := by
  intro o ho
  rcases mem_append.mp ho with ho | ho
  · obtain ⟨t, -, rfl⟩ := mem_map.mp ho
    rfl
  · simp only [mem_cons, not_mem_nil, or_false] at ho
    rcases ho with rfl | rfl
    · rfl
    · rfl

/-- **A restore of a completed run** takes its parts exactly if nothing shadows them. -/
theorem Completed.takesOwn_iff {k m : ℕ} {md : ClientMetadata} {s S : KopiaRepo} {new later : List Snapshot}
    (h : Completed D k run md s new) (hS : Sound m S) (hstored : S.stored = s.stored ++ new ++ later)
    (hnames : (md.tablespaces.map TablespaceLayout.name).Nodup)
    (destinationPath : Name) (hconf : conf.name = md.name) (hconn : conn.hostName = run.conn.hostName) :
    TakesOwn D conn conf run.conn.hostName destinationPath S (ownParts D run.conn conf destinationPath k md) ↔
      Unshadowed s run.conn.hostName md := by
  have hfound := h.found_own_iff_unshadowed later hnames conf destinationPath
  rw [(restore_takes hS.nodup conn conf _ destinationPath).own_iff hS.restored, hconf, hconn]
  constructor
  · rintro ⟨hv, hparts⟩
    rcases hreads : readFor S.stored run.conn.hostName md.name with _ | md'
    · exact absurd (by rw [hreads]; rfl) hv
    rw [hreads] at hparts
    obtain rfl : md' = md := h.reads_of_found hS hstored hreads ownParts_run hparts
    rw [hstored] at hparts
    exact hfound.mp hparts
  · intro hun
    rw [hstored, h.reads hun.1]
    exact ⟨nofun, hfound.mpr hun⟩

theorem afterRuns_append (D : ClientDeps) (late : History) : ∀ (runs : History) (k : ℕ) (s : KopiaRepo),
    afterRuns D k (runs ++ late) s = afterRuns D (k + runs.length) late (afterRuns D k runs s) := by
  intro runs
  induction runs with
  | nil => intro k s; rfl
  | cons run runs ih =>
    intro k s
    rw [length_cons, Nat.add_comm runs.length 1, ← Nat.add_assoc]
    exact ih _ _

/-- **Restoring a backup**: after any history, a restore takes the parts of a completed run exactly if
the repository had no leftovers with their tags, and the tags of the tablespaces are their names. -/
theorem restore_takes_own_iff (D : ClientDeps) (before after : History) (run : BackupRun) (cs : ℕ → Option Bool)
    (md : ClientMetadata) (conn : Connection) (conf : RestoreConfiguration) (destinationPath : Name)
    (hdone : ((run.prog D).eval (kopiaSem D) before.length cs (afterRuns D 0 before {})).1 = .ok md)
    (hnames : (md.tablespaces.map TablespaceLayout.name).Nodup) (hname : conf.name = run.name)
    (hconn : conn.hostName = run.conn.hostName) :
    TakesOwn D conn conf run.conn.hostName destinationPath (afterRuns D 0 (before ++ (run, cs) :: after) {})
        (ownParts D run.conn conf destinationPath before.length md) ↔
      Unshadowed (afterRuns D 0 before {}) run.conn.hostName md := by
  have hbefore := afterRuns_sound D before 0 {} sound_empty
  rw [Nat.zero_add] at hbefore
  obtain ⟨new, hnew, hreturned⟩ := prog_stores D run before.length cs (afterRuns D 0 before {})
  obtain ⟨huploads, hreturns⟩ := hreturned md hdone
  obtain ⟨later, hlater⟩ := afterRuns_stored D after (before.length + 1)
    ((run.prog D).eval (kopiaSem D) before.length cs (afterRuns D 0 before {})).2
  rw [hnew.stored] at hlater
  have hS := afterRuns_sound D (before ++ (run, cs) :: after) 0 {} sound_empty
  have happend := afterRuns_append D ((run, cs) :: after) before 0 {}
  rw [Nat.zero_add] at happend
  have hcompleted : Completed D before.length run md (afterRuns D 0 before {}) new :=
    ⟨hbefore, hnew.run, huploads, hreturns⟩
  have hstored : (afterRuns D 0 (before ++ (run, cs) :: after) {}).stored = (afterRuns D 0 before {}).stored ++ new ++ later := by
    rw [happend]
    exact hlater
  exact hcompleted.takesOwn_iff hS hstored hnames destinationPath (hname.trans (uploads_of_returns hreturns).1.symm) hconn

/-- Outside code, for runs on fixed input. -/
def plainClient : ClientDeps where
  newID ids := 'x' :: ids.flatten
  pathJoin a b := a ++ '/' :: b
  walFileName _ _ _ := .ok []
  newID_fresh ids := by
    intro h
    have hle := (List.sublist_flatten_of_mem h).length_le
    rw [List.length_cons] at hle
    omega

def nightly : BackupRun where
  conn := ⟨"pg".toList, "klio".toList, by decide⟩
  optsName := "nightly".toList
  timestamp := "20250101000000".toList
  startedAt := 0
  stoppedAt := 1
  pg := ⟨.ok "/data".toList, .ok [⟨"pg_default".toList, "1663".toList, []⟩, ⟨"archive".toList, "16400".toList, "/ts".toList⟩],
    .ok 0, none, none, .ok (8, [], [])⟩

def nightlyMetadata : ClientMetadata where
  name := "nightly".toList
  startWAL := []
  startedAt := 0
  clusterName := "pg".toList
  startLSN := 0
  endLSN := 8
  endWAL := []
  timeline := 0
  segmentSize := 0
  backupLabel := []
  tablespaceMap := []
  pgData := "/data".toList
  tablespaces := [⟨"archive".toList, "16400".toList, "/ts".toList⟩]
  stoppedAt := 1

/-- It is the first of its name. -/
theorem nightly_restored : TakesOwn plainClient nightly.conn ⟨"nightly".toList, []⟩ "pg".toList "/new".toList
    (afterRuns plainClient 0 [(nightly, fun _ => none)] {})
    (ownParts plainClient nightly.conn ⟨"nightly".toList, []⟩ "/new".toList 0 nightlyMetadata) :=
  (restore_takes_own_iff plainClient [] [] nightly (fun _ => none) nightlyMetadata nightly.conn ⟨"nightly".toList, []⟩ "/new".toList
    (by rfl) (by decide) rfl rfl).mpr
    ⟨nofun, fun t ht => ⟨by rw [mem_singleton.mp ht]; decide, nofun⟩⟩

/-- A run that has stored a tablespace and `pgdata` fails, and the next of its name completes: the
restore takes the tablespace and `pgdata` from the first and the control file from the second. -/
theorem restore_mixes_runs :
    ((nightly.prog plainClient).eval (kopiaSem plainClient) 1 (fun _ => none)
        (afterRuns plainClient 0 [(nightly, fun n => if n = 4 then some false else none)] {})).1 = .ok nightlyMetadata ∧
      (let out := (restore plainClient nightly.conn ⟨"nightly".toList, []⟩ "pg".toList "/new".toList).eval (kopiaSem plainClient) 2
        (fun _ => none) (afterRuns plainClient 0
          [(nightly, fun n => if n = 4 then some false else none), (nightly, fun _ => none)] {})
      out.1.isOk = true ∧ out.2.restored.map (fun p => p.1.run) = [0, 0, 1]) ∧
      ¬ TakesOwn plainClient nightly.conn ⟨"nightly".toList, []⟩ "pg".toList "/new".toList
        (afterRuns plainClient 0 [(nightly, fun n => if n = 4 then some false else none), (nightly, fun _ => none)] {})
        (ownParts plainClient nightly.conn ⟨"nightly".toList, []⟩ "/new".toList 1 nightlyMetadata) := by
  refine ⟨by rfl, ⟨by decide +kernel, by decide +kernel⟩, ?_⟩
  intro htakes
  have hall := (htakes 2 fun _ => none).2.1 (by decide +kernel)
  have hruns := congrArg (map Prod.fst) hall
  exact absurd hruns (by decide +kernel)

end Klio

import Klio.Model.PluginConfig

/-!
# Which plugin configurations are used

A cluster should use exactly its enabled entries: for the archive the first enabled plugin of Klio, and for
each enabled external cluster its own object. But the first plugin of Klio is taken for the archive also if it is
disabled, and the entries share one map, so that external clusters with one name replace each other.

* `externals_eq`, `archive_eq`, `resolve_eq`: what the resolution returns, by the lists of the spec.
* `ResolvesEnabled`: what is wanted of a result. `Clear`: when it is what is returned.
* `enabled_resolved_iff`: exactly then the enabled entries are used.
* `disabled_hides_enabled`: a spec for which they are not.
-/

namespace Klio

section

variable {P : Type} (get : String → Option P)

/-- The object that a plugin refers to. -/
def CnpgPlugin.object (plugin : CnpgPlugin) : Option P :=
  (getKlioConfiguration get (plugin.parameters pluginConfigurationRefParam)).toOption.join

/-- The server names of the external clusters with Klio enabled, each with its plugin. -/
def PgCluster.enabledExternals (cluster : PgCluster) : List (String × CnpgPlugin) :=
  cluster.externalClusters.filterMap fun x =>
    (x.pluginConfiguration.filter fun plugin => decide plugin.EnabledKlio).map (x.serverName, ·)

/-- The first enabled plugin of Klio. -/
def PgCluster.firstEnabled (cluster : PgCluster) : Option CnpgPlugin := cluster.plugins.find? fun plugin => decide plugin.EnabledKlio

/-- The cluster without its disabled plugins of Klio. -/
def PgCluster.enabledOnly (cluster : PgCluster) : PgCluster :=
  { cluster with
    plugins := cluster.plugins.filter fun plugin => plugin.name ≠ pluginName ∨ plugin.isEnabled
    externalClusters := cluster.externalClusters.filter fun x =>
      x.pluginConfiguration.all fun plugin => plugin.name ≠ pluginName ∨ plugin.isEnabled }

/-- The object of the last entry with this key, or else what there was before. -/
def lastObject (xs : List (String × CnpgPlugin)) (before : String → Option P) (key : String) : Option P :=
  match xs.reverse.find? fun x => x.1 = key with
  | some x => x.2.object get
  | none => before key

/-- An entry refers to an object that is not there. -/
def Dangling (xs : List (String × CnpgPlugin)) : Prop :=
  ∃ x ∈ xs, (getKlioConfiguration get (x.2.parameters pluginConfigurationRefParam)).toOption = none

/-- A plugin has no object. -/
def Bare (plugin : Option CnpgPlugin) : Prop := ∃ p, plugin = some p ∧ p.object get = none

/-- What an archive plugin leads to. -/
def archived : Option CnpgPlugin → String → Option P
  | none => fun _ => none
  | some plugin => Function.update (fun _ => none) archiveConfigKey (if plugin.EnabledKlio then plugin.object get else none)

/-- **What is wanted**: for the archive key the object of the first enabled plugin, and for each external cluster that refers to an
object that one. -/
structure ResolvesEnabled (cluster : PgCluster) (plugins : String → Option P) : Prop where
  archive : ¬ Bare get cluster.firstEnabled ∧ plugins archiveConfigKey = cluster.firstEnabled.bind (CnpgPlugin.object get)
  external : ∀ x ∈ cluster.enabledExternals, x.2.parameters pluginConfigurationRefParam ≠ "" →
    x.2.object get ≠ none ∧ plugins x.1 = x.2.object get

variable {get}

theorem lastObject_cons (x : String × CnpgPlugin) (xs : List (String × CnpgPlugin)) (before : String → Option P) :
    lastObject get (x :: xs) before = lastObject get xs (Function.update before x.1 (x.2.object get)) := by
  funext key
  unfold lastObject
  rw [List.reverse_cons, List.find?_append]
  cases xs.reverse.find? fun x => x.1 = key with
  | some y => rfl
  | none =>
    by_cases hkey : x.1 = key
    · subst hkey
      simp
    · simp [hkey, Ne.symm hkey]

theorem enabledPlugins_update (configurations : Configurations P) (name : String) (plugin : CnpgPlugin) (object : Option P) :
    enabledPlugins (Function.update configurations name (some ⟨plugin, object⟩)) =
      Function.update (enabledPlugins configurations) name (if plugin.EnabledKlio then object else none) := by
  funext key
  unfold enabledPlugins
  by_cases hkey : key = name
  · subst hkey
    simp
  · simp [hkey]

open Classical in
/-- **The external clusters**: one that refers to no object fails them all, and of those with one name the last one counts. -/
theorem externals_eq (get : String → Option P) (cluster : PgCluster) (configurations : Configurations P) :
    (cluster.externalClusters.foldlM (addExternalClusterConfiguration get) configurations).toOption.map enabledPlugins =
      if Dangling get cluster.enabledExternals then none
      else some (lastObject get cluster.enabledExternals (enabledPlugins configurations)) := by
  unfold PgCluster.enabledExternals
  generalize cluster.externalClusters = xs
  induction xs generalizing configurations with
  | nil => exact (if_neg fun h => List.not_mem_nil h.choose_spec.1).symm
  | cons x xs ih =>
    rw [List.foldlM_cons, List.filterMap_cons]
    unfold addExternalClusterConfiguration
    cases hx : x.pluginConfiguration.filter fun plugin => decide plugin.EnabledKlio with
    | none => exact ih configurations
    | some plugin =>
      simp only [Option.map_some]
      cases hobject : getKlioConfiguration get (plugin.parameters pluginConfigurationRefParam) with
      | error e => exact (if_pos ⟨_, List.mem_cons_self, by rw [hobject]; rfl⟩).symm
      | ok object =>
        have hon : plugin.EnabledKlio := by simpa using (Option.filter_eq_some_iff.mp hx).2
        have hplugin : plugin.object get = object := by rw [CnpgPlugin.object, hobject]; rfl
        refine (ih (Function.update configurations x.serverName (some ⟨plugin, object⟩))).trans ?_
        rw [lastObject_cons, enabledPlugins_update, if_pos hon, hplugin]
        congr 1
        rw [Dangling, Dangling, List.exists_mem_cons_iff, hobject, eq_iff_iff]
        exact (or_iff_right nofun).symm

open Classical in
/-- **The archive**: the first plugin of Klio is looked up, also if it is disabled. -/
theorem archive_eq (get : String → Option P) (cluster : PgCluster) :
    (getArchivePluginConfigurations get cluster).toOption.map enabledPlugins =
      if Bare get (getArchivePluginConfiguration cluster) then none
      else some (archived get (getArchivePluginConfiguration cluster)) := by
  unfold getArchivePluginConfigurations getParameter
  cases getArchivePluginConfiguration cluster with
  | none => exact (if_neg nofun).symm
  | some a =>
    have hobject : Bare get (some a) ↔ (getKlioConfiguration get (a.parameters pluginConfigurationRefParam)).toOption.join = none := by
      simp [Bare, CnpgPlugin.object]
    by_cases href : a.parameters pluginConfigurationRefParam = ""
    · simp only [if_pos href]
      rw [if_pos (hobject.mpr (by rw [href]; rfl))]
      rfl
    simp only [if_neg href]
    rcases hget : getKlioConfiguration get (a.parameters pluginConfigurationRefParam) with e | _ | object <;> rw [hget] at hobject
    · exact (if_pos (hobject.mpr rfl)).symm
    · exact (if_pos (hobject.mpr rfl)).symm
    · have ha : a.object get = some object := by rw [CnpgPlugin.object, hget]; rfl
      rw [if_neg (mt hobject.mp nofun), archived, ha]
      exact congrArg some (enabledPlugins_update _ _ _ _)

open Classical in
theorem resolve_eq (cluster : PgCluster) : (resolveClusterPlugins get cluster).toOption =
    if Dangling get cluster.enabledExternals ∨ Bare get (getArchivePluginConfiguration cluster) then none
    else some (lastObject get cluster.enabledExternals (archived get (getArchivePluginConfiguration cluster))) := by
  have harchive := archive_eq get cluster
  unfold resolveClusterPlugins getConfigurations
  by_cases ha : Bare get (getArchivePluginConfiguration cluster)
  · rw [if_pos ha] at harchive
    rcases hrun : getArchivePluginConfigurations get cluster with e | configurations <;> rw [hrun] at harchive
    · exact (if_pos (.inr ha)).symm
    · cases harchive
  rw [if_neg ha] at harchive
  rcases hrun : getArchivePluginConfigurations get cluster with e | configurations <;> rw [hrun] at harchive
  · cases harchive
  have hexternals := externals_eq get cluster configurations
  rw [Option.some.inj harchive] at hexternals
  simp only [ha, or_false]
  rw [← hexternals]
  cases cluster.externalClusters.foldlM (addExternalClusterConfiguration get) configurations <;> rfl

theorem getArchive_enabledOnly (cluster : PgCluster) : getArchivePluginConfiguration cluster.enabledOnly = cluster.firstEnabled := by
  unfold getArchivePluginConfiguration PgCluster.firstEnabled PgCluster.enabledOnly
  rw [List.find?_filter]
  congr 1
  funext plugin
  simp only [decide_eq_true_eq]
  refine decide_eq_decide.mpr ?_
  unfold CnpgPlugin.EnabledKlio
  tauto

theorem enabledExternals_enabledOnly (cluster : PgCluster) : cluster.enabledOnly.enabledExternals = cluster.enabledExternals := by
  unfold PgCluster.enabledExternals PgCluster.enabledOnly
  rw [List.filterMap_filter]
  congr 1
  funext ⟨name, plugin⟩
  cases plugin with
  | none => rfl
  | some plugin =>
    by_cases hon : plugin.EnabledKlio
    · simp [hon.2]
    · simp [Option.filter, hon]

theorem archived_firstEnabled (cluster : PgCluster) :
    archived get cluster.firstEnabled archiveConfigKey = cluster.firstEnabled.bind (CnpgPlugin.object get) := by
  cases hfirst : cluster.firstEnabled with
  | none => rfl
  | some plugin =>
    have hon : plugin.EnabledKlio := by simpa using List.find?_some (show cluster.plugins.find? _ = some plugin from hfirst)
    rw [archived, Function.update_self, if_pos hon]
    rfl

theorem archived_of_ne {key : String} (hkey : key ≠ archiveConfigKey) (plugin : Option CnpgPlugin) : archived get plugin key = none := by
  cases plugin with
  | none => rfl
  | some plugin => rw [archived, Function.update_of_ne hkey]

/-- **The condition.** There is an error with the disabled plugins and without them; or there is none, and the last external
cluster with a key, or else for the archive the first plugin of Klio, if it is enabled, has the object that is wanted. -/
def Clear (get : String → Option P) (cluster : PgCluster) : Prop :=
  Dangling get cluster.enabledExternals ∨
  (Bare get (getArchivePluginConfiguration cluster) ∧ Bare get cluster.firstEnabled) ∨
  (¬ Bare get (getArchivePluginConfiguration cluster) ∧
    ResolvesEnabled get cluster (lastObject get cluster.enabledExternals (archived get (getArchivePluginConfiguration cluster))))

/-- **Exactly the enabled entries are used** if and only if the condition holds. -/
theorem enabled_resolved_iff (get : String → Option P) (cluster : PgCluster) :
    ((∀ plugins, (resolveClusterPlugins get cluster).toOption = some plugins → ResolvesEnabled get cluster plugins) ∧
      (resolveClusterPlugins get cluster.enabledOnly).toOption = (resolveClusterPlugins get cluster).toOption) ↔
    Clear get cluster := by
  rw [resolve_eq, resolve_eq, getArchive_enabledOnly, enabledExternals_enabledOnly, Clear]
  by_cases hd : Dangling get cluster.enabledExternals
  · simp [hd]
  by_cases ha : Bare get (getArchivePluginConfiguration cluster) <;> by_cases he : Bare get cluster.firstEnabled
  · simp [ha, he]
  · simp [hd, ha, he]
  · have hno : ∀ plugins, ¬ ResolvesEnabled get cluster plugins := fun _ h => h.archive.1 he
    simp [hd, ha, hno]
  simp only [hd, ha, he, or_self, if_false, Option.some.injEq, forall_eq', false_and, not_false_eq_true, true_and, false_or]
  refine and_iff_left_of_imp fun h => ?_
  -- what the archive key has does not depend on the disabled plugins either
  funext key
  have harchive := h.archive.2
  rw [← archived_firstEnabled] at harchive
  unfold lastObject at harchive ⊢
  split
  · rfl
  · rename_i hnone
    by_cases hkey : key = archiveConfigKey
    · subst hkey
      rw [hnone] at harchive
      exact harchive.symm
    · rw [archived_of_ne hkey, archived_of_ne hkey]

/-- A disabled plugin hides the enabled one behind it. -/
theorem disabled_hides_enabled : ∃ cluster : PgCluster, ∃ plugins, resolveClusterPlugins some cluster = .ok plugins ∧
    plugins archiveConfigKey = none ∧ cluster.firstEnabled.bind (CnpgPlugin.object some) = some "b" ∧
    ∃ plugins', resolveClusterPlugins some cluster.enabledOnly = .ok plugins' ∧ plugins' archiveConfigKey = some "b" :=
  ⟨⟨"c", [⟨pluginName, false, fun _ => "a"⟩, ⟨pluginName, true, fun _ => "b"⟩], []⟩, _, rfl, by decide, by decide, _, rfl, by decide⟩

end

end Klio

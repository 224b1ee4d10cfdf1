import Mathlib

/-!
# The plugin configurations of a cluster

`ResolveClusterPlugins` of the operator (`klioconfig/config.go`): which `PluginConfiguration` objects a cluster
uses, for its own archive and for the external clusters it recovers from.

The API server is outside code: `get` says which objects are in the namespace of the cluster.

* `PgCluster`, `CnpgPlugin`, `ExternalCluster`: what is read of the spec.
* `Configurations`: the map that is filled, keyed by `archiveConfigKey` and by server names.
* `resolveClusterPlugins`: the objects of the enabled entries.
-/

namespace Klio

/-- A plugin of a cluster or of an external one, with what `IsEnabled` says. A parameter that is missing reads as an empty one. -/
structure CnpgPlugin where
  name : String
  isEnabled : Bool
  parameters : String → String

/-- An external cluster, with what `GetServerName` answers. -/
structure ExternalCluster where
  serverName : String
  pluginConfiguration : Option CnpgPlugin

structure PgCluster where
  name : String
  plugins : List CnpgPlugin
  externalClusters : List ExternalCluster

inductive ConfigErr where
  /-- "'ref' parameter is not specified in the '%s' plugin configuration in the cluster: %s" -/
  | refNotSpecified (plugin cluster : String)
  /-- "'ref' parameter is empty in the '%s' plugin configuration in the cluster: %s" -/
  | refEmpty (plugin cluster : String)
  /-- `PluginConfigurationNotFoundError` -/
  | notFound (name : String)
  | wrap (text : String) (e : ConfigErr)

def pluginName : String := "klio.cnpg.io"

def archiveConfigKey : String := "klio-archive"

def pluginConfigurationRefParam : String := "pluginConfigurationRef"

def CnpgPlugin.EnabledKlio (plugin : CnpgPlugin) : Prop := plugin.name = pluginName ∧ plugin.isEnabled = true

instance (plugin : CnpgPlugin) : Decidable plugin.EnabledKlio := inferInstanceAs (Decidable (_ ∧ _))

/-- What a key of the configuration has: the plugin, and the object of Klio that it refers to. -/
structure Configuration (P : Type) where
  cnpgPluginConfiguration : CnpgPlugin
  klioPluginConfiguration : Option P

abbrev Configurations (P : Type) := String → Option (Configuration P)

section

variable {P : Type} (get : String → Option P)

def getArchivePluginConfiguration (cluster : PgCluster) : Option CnpgPlugin :=
  cluster.plugins.find? fun plugin => plugin.name = pluginName

def getParameter (cfg : CnpgPlugin) (name : String) : Option String :=
  if cfg.parameters name = "" then none else some (cfg.parameters name)

/-- The object with this name, if one is asked for, among those in the namespace of the cluster. -/
def getKlioConfiguration (ref : String) : Except ConfigErr (Option P) :=
  if ref = "" then .ok none
  else match get ref with
    | none => .error (.notFound ref)
    | some object => .ok (some object)

def getArchivePluginConfigurations (cluster : PgCluster) : Except ConfigErr (Configurations P) :=
  match getArchivePluginConfiguration cluster with
  | none => .ok fun _ => none
  | some plugin => match getParameter plugin pluginConfigurationRefParam with
    | none => .error (.refNotSpecified pluginName cluster.name)
    | some ref => match getKlioConfiguration get ref with
      | .ok none => .error (.refEmpty pluginName cluster.name)
      | .ok (some object) => .ok (Function.update (fun _ => none) archiveConfigKey (some ⟨plugin, some object⟩))
      | .error e => .error e

def addExternalClusterConfiguration (configurations : Configurations P) (externalCluster : ExternalCluster) :
    Except ConfigErr (Configurations P) :=
  match externalCluster.pluginConfiguration.filter fun plugin => decide plugin.EnabledKlio with
  | none => .ok configurations
  | some plugin => match getKlioConfiguration get (plugin.parameters pluginConfigurationRefParam) with
    | .ok object => .ok (Function.update configurations externalCluster.serverName (some ⟨plugin, object⟩))
    | .error e => .error e

def getConfigurations (cluster : PgCluster) : Except ConfigErr (Configurations P) :=
  match getArchivePluginConfigurations get cluster with
  | .error e => .error (.wrap "failed to get archive plugin configurations: %w" e)
  | .ok configurations => cluster.externalClusters.foldlM (addExternalClusterConfiguration get) configurations

/-- The loop of `ResolveClusterPlugins`: the object of each key, unless it is disabled or there is none. -/
def enabledPlugins (configurations : Configurations P) (key : String) : Option P :=
  (configurations key).bind fun conf =>
    if conf.cnpgPluginConfiguration.EnabledKlio then conf.klioPluginConfiguration else none

def resolveClusterPlugins (cluster : PgCluster) : Except ConfigErr (String → Option P) :=
  match getConfigurations get cluster with
  | .error e => .error (.wrap "failed to get plugin configurations: %w" e)
  | .ok configurations => .ok (enabledPlugins configurations)

end

end Klio

import Klio.Model.Prefetcher

/-!
# Restoring a WAL file from two tiers

`restoreWAL` of `cnpgi/wal.go`: the tiers are asked in turn, the one that served last comes first, and
each has a prefetcher of its own.

* `availableTiers`, `restoreWAL`: the code, over what it asks of a tier.
* `Archives`, `archiveOf`: what the tiers hold; `Recovery`, `recoverySem`: the preferred tier and the
  destination.
-/

namespace Klio

open Lib

/-- `tier` of the plugin -/
inductive WalTier where
  | tier1
  | tier2
  deriving DecidableEq

/-- What `config.Data` says about the tiers. -/
structure RecoveryConfig where
  walAddress : Name
  tier2Address : Name
  tier2RecoveryEnabled : Bool

def availableTiers (cfg : RecoveryConfig) : List WalTier :=
  (if cfg.walAddress ≠ [] then [.tier1] else []) ++
    (if cfg.tier2RecoveryEnabled ∧ cfg.tier2Address ≠ [] then [.tier2] else [])

/-! ## Operations -/

/-- What `restoreWAL` does in one step. -/
inductive RecoveryOp where
  | loadConfig
  | loadCurrentTier
  | storeCurrentTier (t : WalTier)
  /-- `getClient` -/
  | getClient (t : WalTier)
  /-- `getCompleteWAL` of the prefetcher of a tier. -/
  | getComplete (t : WalTier) (walName : Name)
  /-- `getPartialWAL` of the prefetcher of a tier. -/
  | getPartial (t : WalTier) (walName : Name)

/-- What an operation answers. -/
def RecoveryOp.Res : RecoveryOp → Type
  | .loadConfig => Except Err RecoveryConfig
  | .loadCurrentTier => WalTier
  | .storeCurrentTier _ => Unit
  | .getClient _ => Except Err Unit
  | .getComplete _ _ => Except WalErr Bool
  | .getPartial _ _ => Except WalErr Unit

/-- A program of the WAL service. -/
abbrev RecoveryProg (α : Type) := Prog RecoveryOp RecoveryOp.Res WalErr α

/-! ## The code -/

/-- `restoreWAL` of the client manager: `Request`, on the prefetcher of the tier. -/
def restoreFromTier (t : WalTier) (walName : Name) : RecoveryProg Bool :=
  .call (.getClient t) fun (r : Except Err Unit) => match r with
  | .error e => .err (.other e)
  | .ok _ =>
    requestWith (.call (.getComplete t walName) fun (r : Except WalErr Bool) => Prog.orErr id r) (.ret ())
      (.call (.getPartial t walName) fun (r : Except WalErr Unit) => Prog.orErr id r) walName

/-- The loop over the tiers. -/
def tryTiers (walName : Name) : List WalTier → RecoveryProg WalTier
  | [] => .err .notFound
  | t :: tiers => (restoreFromTier t walName).attempt.bind fun
    | .ok _ => .call (.storeCurrentTier t) fun _ => .ret t
    | .error e => if e ≠ .notFound then .err e else tryTiers walName tiers

/-- The tier that served last comes first, when both are available. -/
def preferTier (currentTier : WalTier) : List WalTier → List WalTier
  | first :: second :: tiers => if first ≠ currentTier then second :: first :: tiers else first :: second :: tiers
  | tiers => tiers

/-- `restoreWAL`; it returns the tier that has served the file. -/
def restoreWAL (walName : Name) : RecoveryProg WalTier :=
  .call .loadConfig fun (r : Except Err RecoveryConfig) => match r with
  | .error e => .err (.other (.wrap "while loading configuration from file: %w" [] e))
  | .ok cfg =>
    if availableTiers cfg = [] then .err (.other (.new "no WAL tier configured"))
    else .call .loadCurrentTier fun (currentTier : WalTier) => tryTiers walName (preferTier currentTier (availableTiers cfg))

/-! ## Semantics -/

/-- The preferred tier, and what is at the destination: the tier and the name it was downloaded
from, with its bytes. -/
structure Recovery where
  currentTier : WalTier
  destination : Option (WalTier × Name × List UInt8) := none

/-- What a download of each name from each tier brings: the padded bytes, for a partial file. -/
abbrev Archives := WalTier → Name → Option (List UInt8)

/-- What a tier holds that serves a repository: what a download without faults writes. -/
def archiveOf (D : Deps) (K : Codec) (peer : Peer) (clusterName : Name) (fs : Fs Name UInt8) (name : Name) : Option (List UInt8) :=
  match download D K peer clusterName name fs with
  | (.ok _, written) => some written
  | (.error _, _) => none

/-- A download to the destination. -/
def Recovery.fetch (held : Archives) (t : WalTier) (name : Name) (s : Recovery) : Option Recovery :=
  (held t name).map fun content => { s with destination := some (t, name, content) }

/-- **What an operation answers and does.** A fault is an error other than a missing file. -/
def Recovery.exec (cfg : RecoveryConfig) (held : Archives) :
    (o : RecoveryOp) → Option Err → Recovery → o.Res × Recovery
  | .loadConfig, c, s => ((match c with
      | some e => .error e
      | none => .ok cfg : Except Err RecoveryConfig), s)
  | .loadCurrentTier, _, s => (s.currentTier, s)
  | .storeCurrentTier t, _, s => ((), { s with currentTier := t })
  | .getClient _, c, s => ((match c with
      | some e => .error e
      | none => .ok () : Except Err Unit), s)
  | .getComplete _ _, some e, s => ((.error (.other e) : Except WalErr Bool), s)
  | .getComplete t walName, none, s => match s.fetch held t walName with
    | some s' => ((.ok false : Except WalErr Bool), s')
    | none => ((.error .notFound : Except WalErr Bool), s)
  | .getPartial _ _, some e, s => ((.error (.other e) : Except WalErr Unit), s)
  | .getPartial t walName, none, s => match s.fetch held t (walName ++ partialSuffix) with
    | some s' => ((.ok () : Except WalErr Unit), s')
    | none => ((.error .notFound : Except WalErr Unit), s)

/-- The semantics of a restore. -/
def recoverySem (cfg : RecoveryConfig) (held : Archives) :
    Sem Unit RecoveryOp RecoveryOp.Res Recovery (Option Err) Unit where
  exec _ := Recovery.exec cfg held
  crash _ s := s

end Klio

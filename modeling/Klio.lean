import Klio.Proof.Truncated
import Klio.Proof.Durable
import Klio.Proof.Relay
import Klio.Proof.Restore
import Klio.Proof.Recovery
import Klio.Proof.PrefetchBytes
import Klio.Proof.UploadFile
import Klio.Proof.OneSystem
import Klio.Proof.CloseBackup
import Klio.Proof.Migration
import Klio.Proof.DeadLetter
import Klio.Proof.Tier2Task
import Klio.Proof.Initialize
import Klio.Proof.Supervisor
import Klio.Proof.Isolation
import Klio.Proof.SharedVerify
import Klio.Proof.Retention
import Klio.Proof.Queue
import Klio.Proof.PluginConfig
import Klio.Proof.Catalog

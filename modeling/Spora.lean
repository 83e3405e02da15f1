import Spora.Cell.Sighash.Ids
import Spora.Exec.Molecule.Theorems
import Spora.Cell.Diff.Atomicity
import Spora.Segment.Proof
import Spora.Crypto.MuHash
import Spora.Vm.ScriptGroups.Theorems
import Spora.Mpe.AccessSummary.Layers
import Spora.Store.PointOfView
import Spora.Store.TimeLocks
import Spora.Index.Backfill
import Spora.Index.Following
import Spora.Virtual.Coherence
import Spora.Virtual.Fallback
import Spora.Body.Mass.Units
import Spora.Body.Progress
import Spora.Rpc.Requests
import Spora.Validation.Capacity
import Spora.Ghostdag.PruningPoint
import Spora.Mining.Pool.Capacity
import Spora.Mining.Pool.Indexes
import Spora.Vm.Scheduler.Pipes
import Spora.Wallet.Psst.Signatures
import Spora.Ghostdag.Sync
import Spora.Wallet.Psst.KeySources
import Spora.Rpc.Addresses
import Spora.Crypto.Merkle
import Spora.Math.Compact

import Magicblock.Scheduler.Exclusion
import Magicblock.Scheduler.Failure
import Magicblock.Scheduler.Poison
import Magicblock.Scheduler.Rejection
import Magicblock.Queue.Fifo
import Magicblock.Program.ContextBytes
import Magicblock.Program.RentVault
import Magicblock.Intake.Snapshot
import Magicblock.Settlement.StageAgreement
import Magicblock.Settlement.CallbacksOnce
import Magicblock.Settlement.LegacyFinalize
import Magicblock.Program.OutboxRecord
import Magicblock.Settlement.Plans
import Magicblock.Intake.Recovery
import Magicblock.Buffer.ChunkSet
import Magicblock.Buffer.Reallocs
import Magicblock.Worker.Exclusion
import Magicblock.Tables.Ownership
import Magicblock.Tables.Reserve
import Magicblock.Laser.Coverage
import Magicblock.Provider.Replay
import Magicblock.Provider.Freshness
import Magicblock.Provider.Stale
import Magicblock.Submux.Programs
import Magicblock.Submux.Wakeups
import Magicblock.Pubsub.Reconnect
import Magicblock.Aperture.Signatures
import Magicblock.Chainlink.Companions
import Magicblock.Chainlink.KnownEmpty
import Magicblock.Program.Charges
import Magicblock.Intent.Payers
import Magicblock.Chainlink.Collisions
import Magicblock.Chainlink.ProgramData
import Magicblock.Submux.Answers
import Magicblock.Submux.SameSlot
import Magicblock.Provider.Reconcile
import Magicblock.Rpc.Confirmer
import Magicblock.Ledger.StatusCounts
import Magicblock.Ledger.Columns

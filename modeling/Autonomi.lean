import Autonomi.Client.Archive
import Autonomi.Proofs.BootstrapOrder
import Autonomi.Proofs.CacheFlushes
import Autonomi.Proofs.ChunkCache
import Autonomi.Proofs.DirectoryUploads
import Autonomi.Proofs.DriverTasks
import Autonomi.Proofs.FetchNotices
import Autonomi.Proofs.Forgeries
import Autonomi.Proofs.MerkleDataType
import Autonomi.Proofs.PeerAdmission
import Autonomi.Proofs.PeerSelection
import Autonomi.Proofs.PeerTracking
import Autonomi.Proofs.QuoteDecision
import Autonomi.Proofs.RecordQueries
import Autonomi.Proofs.RecordTypes
import Autonomi.Proofs.RegisterRecovery
import Autonomi.Proofs.ReplicationQueue
import Autonomi.Proofs.ReplicationReports
import Autonomi.Proofs.Retries
import Autonomi.Proofs.SignedBytes
import Autonomi.Proofs.StoreReopening
import Autonomi.Proofs.VaultHistory
import Autonomi.Proofs.VaultPricing
import Autonomi.Proofs.VaultRuns
import Autonomi.Proofs.WideReplication

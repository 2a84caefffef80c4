import Cave.Model.Types
import Cave.Model.Path
import Cave.Model.Bolt
import Cave.Model.Go
import Cave.Model.KV
import Cave.Model.Codec
import Cave.Model.Api
import Cave.Model.Node
import Cave.Model.Batch
import Cave.Model.Bunker
import Cave.Proofs.Bolt
import Cave.Proofs.Path
import Cave.Proofs.Calls
import Cave.Proofs.Store
import Cave.Proofs.Replication
import Cave.Proofs.Loop
import Cave.Proofs.Api
import Cave.Proofs.Runs
import Cave.Proofs.Envelope
import Cave.Proofs.Order
import Cave.Proofs.Reads
import Cave.Proofs.Locks
import Cave.Proofs.Concurrency
import Cave.Proofs.Batch
import Cave.Proofs.Commute
import Cave.Proofs.BatchStore
import Cave.Proofs.Http
import Cave.Proofs.Replay
import Cave.Proofs.Converge
import Cave.Proofs.Deliver
import Cave.Proofs.Bunker
import Cave.Proofs.Utf8

import Ideas.Database.Edit
import Ideas.Main
import Ideas.Proofs.Authoring
import Ideas.Proofs.Backends
import Ideas.Proofs.Codec
import Ideas.Proofs.Database.LastWrite
import Ideas.Proofs.Database.Program
import Ideas.Proofs.Database.Unreadable
import Ideas.Proofs.MergedView
import Ideas.Proofs.Similarity.Laws
import Ideas.Proofs.Similarity.Reach
import Ideas.Proofs.Similarity.Width
import Ideas.Proofs.Unification.Answer
import Ideas.Proofs.Unification.Congruence
import Ideas.Proofs.Unification.Growth
import Ideas.Proofs.Unification.Idempotence
import Ideas.Proofs.Unification.Locality
import Ideas.Proofs.Unification.Necessity
import Ideas.Proofs.Unification.Order
import Ideas.Proofs.Unification.Report
import Ideas.Proofs.Unification.Retention
import Ideas.Proofs.Unification.Success
import Ideas.Proofs.Unification.Termination
import Ideas.Proofs.Unification.Unhindered
import Ideas.Store.Memory
import Ideas.Store.Monitored

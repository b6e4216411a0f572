import Merkle.Batch
import Merkle.Binary
import Merkle.Digest.Hex
import Merkle.Fixture
import Merkle.Json
import Merkle.Proofs.Acceptance
import Merkle.Proofs.Authentication
import Merkle.Proofs.Batches
import Merkle.Proofs.BinaryForm
import Merkle.Proofs.Binding
import Merkle.Proofs.Blocks
import Merkle.Proofs.Combined
import Merkle.Proofs.Commitment
import Merkle.Proofs.Composition
import Merkle.Proofs.Generation
import Merkle.Proofs.Hex.Encoding
import Merkle.Proofs.Hex.Faults
import Merkle.Proofs.Homomorphism
import Merkle.Proofs.InPlace
import Merkle.Proofs.Json.ConfigObject
import Merkle.Proofs.Json.Narrowing
import Merkle.Proofs.Json.RoundTrip
import Merkle.Proofs.Json.Truncation
import Merkle.Proofs.Levels
import Merkle.Proofs.Logarithm
import Merkle.Proofs.Opening
import Merkle.Proofs.PairHashing
import Merkle.Proofs.Path
import Merkle.Proofs.Replacement
import Merkle.Proofs.Safety.Checked
import Merkle.Proofs.Safety.Faultless
import Merkle.Proofs.Sharding
import Merkle.Proofs.Shortest
import Merkle.Proofs.Width
import Merkle.Tree.Root

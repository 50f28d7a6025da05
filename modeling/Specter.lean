import Specter.Lib.Machine
import Specter.Lib.Bytes
import Specter.Lib.Quorum
import Specter.Lib.Sigma
import Specter.Primitives.Suite
import Specter.Primitives.Pedersen
import Specter.Lib.Sharing
import Specter.Primitives.Shamir
import Specter.Primitives.RangeProof
import Specter.BlindSig.SchnorrBlind
import Specter.BlindSig.ClauseBlind
import Specter.BlindSig.Threshold
import Specter.Lib.Keyed
import Specter.BlindSig.Dkg
import Specter.BlindSig.Robust
import Specter.BlindSig.Degenerate
import Specter.Fold.Accumulator
import Specter.Credential.Presentation
import Specter.Offline.Vdf
import Specter.Offline.Bonds
import Specter.Offline.Unlock
import Specter.Offline.Collateral
import Specter.Offline.Lock
import Specter.Core.Mint
import Specter.Core.TimeLock
import Specter.Core.Setup
import Specter.Core.Transfer
import Specter.Core.Lifecycle
import Specter.Core.Renewal
import Specter.Core.Supply
import Specter.Core.Forks
import Specter.Core.Editing
import Specter.Net.Consensus
import Specter.Net.Backing
import Specter.Net.World
import Specter.Net.Agreement
import Specter.Net.Chain
import Specter.Net.Once
import Specter.Net.Equivocation
import Specter.Net.Gossip
import Specter.Net.Node
import Specter.Net.Relay
import Specter.Net.Flood
import Specter.Lib.Fork
import Specter.Net.Attestation
import Specter.Net.Divergence
import Specter.Net.Custody
import Specter.Core.Networked
import Specter.Core.Serde
import Specter.Lib.Codec
import Specter.Core.Decoding
import Specter.Core.Canonical
import Specter.Core.Atomic
import Specter.Core.Public
import Specter.Credential.Disclosure
import Specter.Credential.Repeats
import Specter.Core.Bound
import Specter.Core.Compliance
import Specter.Core.Wallet
import Specter.Core.Panicking
import Specter.Core.SpendFile
import Specter.Core.SpendLog
import Specter.Core.Locking
import Specter.BlindSig.Blindness
import Specter.BlindSig.Reshare
import Specter.Lib.Checks
import Specter.Sbt.Oprf
import Specter.Sbt.Scheme
import Specter.Sbt.Spend
import Specter.Sbt.Consistency
import Specter.Offline.VdfRsa
import Specter.Lib.Bincode
import Specter.Tee.SevSnp
import Specter.Lib.Session
import Specter.Cli.Handshake
import Specter.Cli.Sessions
import Specter.Lib.Numeral
import Specter.Offline.VdfChallenge
import Specter.Sbt.Soundness
import Specter.Lib.Framing
import Specter.Fold.Transcript
import Specter.Sbt.Transcript
import Specter.Lib.Search
import Specter.Offline.PrimeSearch
import Specter.Lib.Guarded
import Specter.Core.SharedSet
import Specter.Core.SharedLog
import Specter.Lib.BestFit
import Specter.Core.Payments
import Specter.Core.Sizes
import Specter.Cli.Commands
import Specter.Lib.Circuit
import Specter.Fold.NovaIvc
import Specter.Cli.Identity
import Specter.Lib.Duplex
import Specter.Cli.HybridHandshake
import Specter.BlindSig.Ros

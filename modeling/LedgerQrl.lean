import LedgerQrl.Foundation.CInt
import LedgerQrl.Foundation.Index
import LedgerQrl.Foundation.Loop
import LedgerQrl.Foundation.LocalStep
import LedgerQrl.Foundation.Program
import LedgerQrl.Foundation.Region
import LedgerQrl.Foundation.Transform
import LedgerQrl.Foundation.Negacyclic
import LedgerQrl.Foundation.Montgomery
import LedgerQrl.Foundation.Packing
import LedgerQrl.Mldsa87.Constant
import LedgerQrl.Mldsa87.Poly
import LedgerQrl.Mldsa87.Sampling
import LedgerQrl.Mldsa87.Storage
import LedgerQrl.Mldsa87.Volatile
import LedgerQrl.Mldsa87.Sign
import LedgerQrl.Mldsa87.Ring
import LedgerQrl.Mldsa87.Reduce
import LedgerQrl.Mldsa87.Ntt
import LedgerQrl.Mldsa87.Product
import LedgerQrl.Mldsa87.Rounding
import LedgerQrl.Mldsa87.SampledRange
import LedgerQrl.Mldsa87.Stages
import LedgerQrl.Mldsa87.Specification
import LedgerQrl.Mldsa87.Represent
import LedgerQrl.Mldsa87.Memory
import LedgerQrl.Mldsa87.Encoding
import LedgerQrl.Mldsa87.HintEncoding
import LedgerQrl.Mldsa87.KeyGeneration
import LedgerQrl.Mldsa87.Frame
import LedgerQrl.Mldsa87.Verification
import LedgerQrl.Mldsa87.Halting
import LedgerQrl.Mldsa87.Signing
import LedgerQrl.Mldsa87.Correctness
import LedgerQrl.Foundation.Positional
import LedgerQrl.Transaction.RlpDecode
import LedgerQrl.Foundation.Rlp
import LedgerQrl.Foundation.Decision
import LedgerQrl.Transaction.RlpItem
import LedgerQrl.Transaction.RlpWalk
import LedgerQrl.Transaction.RlpGrammar
import LedgerQrl.Transaction.Preimage
import LedgerQrl.Transaction.Acceptance
import LedgerQrl.Transaction.PreimageEncoder
import LedgerQrl.Foundation.Text
import LedgerQrl.Foundation.Decimal
import LedgerQrl.Display.TxFormat
import LedgerQrl.Display.TxFormatExact
import LedgerQrl.App.Types
import LedgerQrl.Display.AddressFormat
import LedgerQrl.Display.Review
import LedgerQrl.Display.ReviewMeaning
import LedgerQrl.Mldsa87.InLine
import LedgerQrl.Mldsa87.Transforms
import LedgerQrl.Mldsa87.Keccak256
import LedgerQrl.App.World
import LedgerQrl.App.Handlers
import LedgerQrl.App.System
import LedgerQrl.App.Effects
import LedgerQrl.App.Served
import LedgerQrl.App.Chosen
import LedgerQrl.App.Streaming
import LedgerQrl.App.Session
import LedgerQrl.Foundation.Machine
import LedgerQrl.Foundation.History
import LedgerQrl.App.Journal
import LedgerQrl.App.Parsed
import LedgerQrl.App.Retrieval
import LedgerQrl.App.Paths
import LedgerQrl.Display.TxFormatLaw
import LedgerQrl.Transaction.ParserSafety
import LedgerQrl.Mldsa87.SignatureEncoding
import LedgerQrl.Foundation.Filling
import LedgerQrl.Mldsa87.EtaSampling
import LedgerQrl.Mldsa87.UniformSampling
import LedgerQrl.Mldsa87.PlainMatrix
import LedgerQrl.Mldsa87.ChallengeSampling
import LedgerQrl.Foundation.Sponge
import LedgerQrl.Mldsa87.Sponges
import LedgerQrl.App.KeyChunks
import LedgerQrl.App.Release
import LedgerQrl.App.Approval
import LedgerQrl.App.Binding
import LedgerQrl.Display.AddressLaw
import LedgerQrl.Mldsa87.W1Packing
import LedgerQrl.Mldsa87.PolyPack
import LedgerQrl.Foundation.Lockstep
import LedgerQrl.Mldsa87.Wiping
import LedgerQrl.Mldsa87.Leftover
import LedgerQrl.Mldsa87.Secrecy
import LedgerQrl.Foundation.Guarded
import LedgerQrl.Mldsa87.GuardedPoly
import LedgerQrl.Mldsa87.GuardedNtt
import LedgerQrl.Mldsa87.Streams
import LedgerQrl.Mldsa87.GuardedSign
import LedgerQrl.Mldsa87.GuardedStorage
import LedgerQrl.Mldsa87.InRange
import LedgerQrl.Mldsa87.CutStreams
import LedgerQrl.Mldsa87.RunsInRange
import LedgerQrl.Foundation.Keccak
import LedgerQrl.Mldsa87.Keccakf
import LedgerQrl.Mldsa87.KeccakHashes
import LedgerQrl.App.Client
import LedgerQrl.App.ClientOutcome
import LedgerQrl.App.EndToEnd
import LedgerQrl.App.Steps
import LedgerQrl.App.Policy
import LedgerQrl.App.Discipline
import LedgerQrl.Transaction.Envelope
import LedgerQrl.App.Broadcast
import LedgerQrl.Foundation.Reversal
import LedgerQrl.Mldsa87.Evaluation
import LedgerQrl.Foundation.Unseen
import LedgerQrl.Mldsa87.Scratch
import LedgerQrl.App.Unseen
import LedgerQrl.Foundation.InPlace
import LedgerQrl.Mldsa87.PolyVec
import LedgerQrl.Mldsa87.Unpacking
import LedgerQrl.Mldsa87.FollowedStreams

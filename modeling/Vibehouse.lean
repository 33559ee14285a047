import Vibehouse.Lib.ParentChain
import Vibehouse.Lib.MachineInt
import Vibehouse.Lib.RustIter
import Vibehouse.Lib.StateRun
import Vibehouse.Lib.AssocList
import Vibehouse.ProtoArray.Types
import Vibehouse.ProtoArray.Basic
import Vibehouse.ProtoArray.Execution
import Vibehouse.ProtoArray.Operations
import Vibehouse.ProtoArray.Votes
import Vibehouse.ProtoArray.GloasHead
import Vibehouse.ForkChoice.GloasHandlers
import Vibehouse.ProtoArray.ForkChoice
import Vibehouse.ProtoArray.Bookkeeping
import Vibehouse.ProtoArray.WellFormed
import Vibehouse.ProtoArray.Prune
import Vibehouse.ProtoArray.Reachable
import Vibehouse.ProtoArray.StatusConsistency
import Vibehouse.ProtoArray.StatusRuns
import Vibehouse.ProtoArray.Ancestry
import Vibehouse.ProtoArray.BestChild
import Vibehouse.ProtoArray.GloasBuffers
import Vibehouse.ProtoArray.GloasDescent
import Vibehouse.Lib.Interleaving
import Vibehouse.BeaconChain.ObservedPayloads
import Vibehouse.BeaconChain.GloasGossip
import Vibehouse.Slasher.Array
import Vibehouse.Slasher.Cells
import Vibehouse.Slasher.Walk
import Vibehouse.Slasher.Update
import Vibehouse.Slasher.Batches
import Vibehouse.Lib.FixedCodec
import Vibehouse.Store.HDiff
import Vibehouse.Store.HDiffRoundTrip
import Vibehouse.Electra.ExitChurn
import Vibehouse.Gloas.BuilderPayments
import Vibehouse.Lib.FixedVector
import Vibehouse.Gloas.PtcWindow
import Vibehouse.Shuffle.Index
import Vibehouse.Shuffle.List
import Vibehouse.Lib.Slices
import Vibehouse.BeaconState.Seed
import Vibehouse.Committees.CommitteeCache
import Vibehouse.Electra.AttestingIndices
import Vibehouse.Gloas.PtcSelection
import Vibehouse.Gloas.Withdrawals
import Vibehouse.Lib.ByteBits
import Vibehouse.Ssz.BitList
import Vibehouse.OperationPool.AttestationStorage
import Vibehouse.BeaconProcessor.Workers
import Vibehouse.LruCache.Time
import Vibehouse.BeaconChain.ObservedAggregates
import Vibehouse.Store.Hierarchy
import Vibehouse.Store.Vcdiff
import Vibehouse.MerkleProof.Tree
import Vibehouse.MerkleProof.Finalize
import Vibehouse.OperationPool.MaxCover
import Vibehouse.OperationPool.AttMaxCover
import Vibehouse.ValidatorClient.Doppelganger
import Vibehouse.MerkleProof.DepositDataTree
import Vibehouse.Lib.Covered
import Vibehouse.ValidatorClient.SlashingDatabase
import Vibehouse.ValidatorClient.SlashingSafety
import Vibehouse.Gloas.BuilderPubkeyCache
import Vibehouse.Gloas.PaymentRuns

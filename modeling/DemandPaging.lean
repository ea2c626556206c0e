import DemandPaging.Machine
import DemandPaging.Lock
import DemandPaging.Proofs.Precondition
import DemandPaging.Proofs.Clock
import DemandPaging.Proofs.FramePool
import DemandPaging.Proofs.Loop
import DemandPaging.Proofs.Swap
import DemandPaging.Proofs.PageTable
import DemandPaging.Proofs.View
import DemandPaging.Proofs.Elementary
import DemandPaging.Proofs.File
import DemandPaging.Proofs.Backing
import DemandPaging.Proofs.Ownership
import DemandPaging.Proofs.Transfer
import DemandPaging.Proofs.Upkeep
import DemandPaging.Proofs.Eviction
import DemandPaging.Proofs.Claim
import DemandPaging.Proofs.Removal
import DemandPaging.Proofs.Performance
import DemandPaging.Proofs.Mapping
import DemandPaging.Proofs.Image
import DemandPaging.Proofs.Lifetime
import DemandPaging.Proofs.Memory
import DemandPaging.Proofs.Duplicate
import DemandPaging.Proofs.UserCopy
import DemandPaging.Proofs.Cpu
import DemandPaging.Proofs.Calls
import DemandPaging.Proofs.Reachability
import DemandPaging.Proofs.Consistency
import DemandPaging.Proofs.Balance
import DemandPaging.Proofs.History
import DemandPaging.Proofs.Serving
import DemandPaging.Proofs.Shown
import DemandPaging.Proofs.FileImage
import DemandPaging.Proofs.FileMapping
import DemandPaging.Proofs.FileRun
import DemandPaging.Proofs.MappedFile
import DemandPaging.Proofs.Layout
import DemandPaging.Proofs.DisjointRegions
import DemandPaging.Proofs.ForkedFile
import DemandPaging.Proofs.PrivatePages
import DemandPaging.Proofs.FailedCopy
import DemandPaging.Proofs.ClaimedPages
import DemandPaging.Proofs.CopiedPages
import DemandPaging.Proofs.Exhaustion
import DemandPaging.Proofs.KeyedSequence
import DemandPaging.Proofs.SlotStores
import DemandPaging.Proofs.ExclusiveFrames
import DemandPaging.Proofs.Seeking
import DemandPaging.Proofs.FailedWriteOut
import DemandPaging.Proofs.FixedFaults
import DemandPaging.Proofs.SecondChance
import DemandPaging.Proofs.GivenBack
import DemandPaging.Proofs.FailedClaim
import DemandPaging.Proofs.PageIdentity
import DemandPaging.Proofs.RangeCheck
import DemandPaging.Proofs.LoadedBytes
import DemandPaging.Proofs.FaultResolution
import DemandPaging.Proofs.StackWindow
import DemandPaging.Proofs.ForkedTable
import DemandPaging.Proofs.Registration
import DemandPaging.Proofs.SegmentImage
import DemandPaging.Proofs.Unmapping
import DemandPaging.Proofs.MovedBytes
import DemandPaging.Proofs.SegmentHeader
import DemandPaging.Proofs.FlatFile

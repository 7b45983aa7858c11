import Glm5Next.NeedSampledMask
import Glm5Next.SlotOwners
import Glm5Next.AppliedRows
import Glm5Next.DeferredResults
import Glm5Next.PpBroadcast
import Glm5Next.PipelineModel
import Glm5Next.Fp8Codec
import Glm5Next.IndexerChunks
import Glm5Next.ChunkGroups
import Glm5Next.PrefillWindows
import Glm5Next.DecodeLayout
import Glm5Next.SparseRows
import Glm5Next.KpoolCompress
import Glm5Next.KpoolRing
import Glm5Next.MambaAlign
import Glm5Next.MambaCheckpoints
import Glm5Next.AlignKernels
import Glm5Next.AlignColumns
import Glm5Next.AlignCopies
import Glm5Next.AppliedResults
import Glm5Next.PoolPages
import Glm5Next.TailSlots
import Glm5Next.CacheRegions
import Glm5Next.DecodeUpdate
import Glm5Next.KpoolHandoff
import Glm5Next.KpoolWritePhase
import Glm5Next.DraftPositions
import Glm5Next.ShortPrefill
import Glm5Next.SideStream
import Glm5Next.DraftRelay
import Glm5Next.MqaLogits
import Glm5Next.PagedLogits
import Glm5Next.FusedExpansion
import Glm5Next.WalshHadamard
import Glm5Next.HadamardRotation
import Glm5Next.PrefillLogits
import Glm5Next.OnlineSoftmax
import Glm5Next.SentinelScores
import Glm5Next.SparseMla
import Glm5Next.SparseMlaOutput
import Glm5Next.SparseMlaOffsets
import Glm5Next.Nvfp4Scales
import Glm5Next.PairedHalves
import Glm5Next.TextSearch
import Glm5Next.Fp8Dequant
import Glm5Next.Fp8Projections
import Glm5Next.MtpLoading
import Glm5Next.MtpOrder
import Glm5Next.MtpParameters
import Glm5Next.MtpEmbedding
import Glm5Next.Lockstep
import Glm5Next.ScalarAlign
import Glm5Next.AlignLockstep
import Glm5Next.BufferSlices
import Glm5Next.DecodeExpansion
import Glm5Next.DecodeRows
import Glm5Next.DecodeScatter
import Glm5Next.SplitCounts
import Glm5Next.FindLoop
import Glm5Next.ByteCopies
import Glm5Next.TiledCopy
import Glm5Next.StateBlockCopy
import Glm5Next.StateCopyLaunch
import Glm5Next.DraftInputs
import Glm5Next.DraftRollout
import Glm5Next.PositionsRefine
import Glm5Next.RankAgreement
import Glm5Next.PipelineRanks
import Glm5Next.DcpMerge
import Glm5Next.DcpWindows
import Glm5Next.SparseAttention
import Glm5Next.StageLoading
import Glm5Next.StageRuns
import Glm5Next.StageSplit
import Glm5Next.BestPools
import Glm5Next.KpoolServing
import Glm5Next.ServedAttention

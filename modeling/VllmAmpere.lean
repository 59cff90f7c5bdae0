import VllmAmpere.ARCCacheRuns
import VllmAmpere.AnnouncementBalance
import VllmAmpere.AttributionRuns
import VllmAmpere.BatchPrefillPlans
import VllmAmpere.BudgetOwners
import VllmAmpere.CanonicalPlacement
import VllmAmpere.ClientLookups
import VllmAmpere.ConstraintAgreement
import VllmAmpere.Detokenizer
import VllmAmpere.EagleLookahead
import VllmAmpere.EncoderCoverage
import VllmAmpere.FaithfulTransfers
import VllmAmpere.FreeQueueRun
import VllmAmpere.FullAttentionLongest
import VllmAmpere.GreedySpeculation
import VllmAmpere.KVCacheConfigs
import VllmAmpere.LRUCacheRuns
import VllmAmpere.LosslessSampling
import VllmAmpere.MambaChunks
import VllmAmpere.MaskedHits
import VllmAmpere.MessageQueueDelivery
import VllmAmpere.MmLruCaches
import VllmAmpere.MultiModalSerial
import VllmAmpere.NgramProposerGPU
import VllmAmpere.OffloadHits
import VllmAmpere.OutputRuns
import VllmAmpere.PCPManager
import VllmAmpere.PackedKVCacheGroups
import VllmAmpere.ParsedCalls
import VllmAmpere.PriorityOrder
import VllmAmpere.ReasoningTokens
import VllmAmpere.SessionLedger
import VllmAmpere.ShmCacheServed
import VllmAmpere.ShmRingRuns
import VllmAmpere.SlotBijection
import VllmAmpere.StepBudgets
import VllmAmpere.StoredEvents
import VllmAmpere.StreamDelivery
import VllmAmpere.WaitingOrder

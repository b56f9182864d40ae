import Legba.TriggerKernelRun
import Legba.TriggerFireAnchor
import Legba.JobClaimExclusivity
import Legba.JobPlaneBudget
import Legba.BackfillTiling
import Legba.SubscriptionGrants
import Legba.ReceiptChainLinearity
import Legba.AuditCheckpointer
import Legba.FactCurrentBelief
import Legba.FactSupersession
import Legba.FactAuthority
import Legba.FactConfidence
import Legba.DescriptorHeadMoves
import Legba.DescriptorRowContents
import Legba.SituationChain
import Legba.SituationEvidence
import Legba.PollCursorCoverage
import Legba.BulkTraversal
import Legba.InboundDelivery
import Legba.ProvisionWatches
import Legba.TriggerWiring
import Legba.LeaderSafety
import Legba.LineageSoundness
import Legba.PackGovernorCaps
import Legba.OverrideReceipts
import Legba.JudgeReceipts
import Legba.FaithfulnessTally
import Legba.PartialJudge
import Legba.EnvelopeGates
import Legba.CrossSourceDedupFlat
import Legba.CompositionFoldHeads
import Legba.FindingSupersessionRuns
import Legba.CompactionHomonyms
import Legba.SourcePauseRuns
import Legba.EntityCache
import Legba.VerifiedFindingScan
import Legba.BandCrossingChain
import Legba.MegaFrameConservation
import Legba.EventClusteringRuns
import Legba.EventCursors
import Legba.ContentionSkips
import Legba.ContentionFrontier
import Legba.ContentionMarkers
import Legba.SurfaceHistory
import Legba.EarnedWeights
import Legba.ConversionPaths
import Legba.FactCoexistence
import Legba.ValueClustering
import Legba.TextFold
import Legba.EventLifecycle
import Legba.WindowLedger
import Legba.CitationNormalization
import Legba.BudgetResolution
import Legba.ActorTurnExactness
import Legba.PackToolRun
import Legba.VerdictAlignment
import Legba.TrackerReplies
import Legba.FilterStateStore
import Legba.JudgeReplyFences
import Legba.EntityNameFixpoint
import Legba.LookupKeys
import Legba.DeskCapLaws
import Legba.StructuralClaims
import Legba.ClaimSegmentation
import Legba.EventPrefilter
import Legba.ClusterEvidence
import Legba.TopicBridge
import Legba.WirePairCollapse
import Legba.NexusLandedWrites

import Cove.DataFusion.OverlayCounts
import Cove.DataFusion.CoalescedRead
import Cove.DataFusion.MorselPruningSound
import Cove.DataFusion.ScheduledScan
import Cove.DataFusion.CoverageFormsSound
import Cove.ObjectTemporal.ReplayCuts
import Cove.Map.ReplayAgreement
import Cove.Map.SurvivingValues
import Cove.Core.EqualityPruning
import Cove.Core.CanonicalUnique
import Cove.DataFusion.SegmentMetadataAgree
import Cove.Core.MinimalWriterReadback
import Cove.Core.BloomFilter
import Cove.Covi.LookupCovers
import Cove.Core.DictionaryEncoding
import Cove.DataFusion.CandidateRanges
import Cove.Coverage.Intersection
import Cove.DataFusion.CandidateSetLaws
import Cove.Coverage.PredicateAstGraph
import Cove.Coverage.PredicatePayloadRun
import Cove.Coverage.PredicateForms
import Cove.ObjectTemporal.ProjectedReadback
import Cove.DataFusion.PageKernels
import Cove.Core.DistinctSketch
import Cove.Core.QuantileSketch
import Cove.Core.ExactSet
import Cove.Core.CodebookEncoding
import Cove.Arrow.Utf8Export
import Cove.Core.Decompression
import Cove.Core.IndexWire
import Cove.Core.NestedSchema
import Cove.Layout.Defaults
import Cove.Core.Wire
import Cove.Map.MergedProperties
import Cove.DataFusion.MetadataCountsExact
import Cove.Map.StoredNumCodes
import Cove.Arrow.Clustering
import Cove.Core.DurableReplace
import Cove.ObjectTemporal.Manifests

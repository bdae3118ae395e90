import RecordQuery.Description.Filter
import RecordQuery.Description.Pipeline
import RecordQuery.Description.Settings
import RecordQuery.Filter.Draft
import RecordQuery.Proofs.TallyInv
import RecordQuery.Proofs.TallyMerge
import RecordQuery.Proofs.SortOrder
import RecordQuery.Proofs.Composition
import RecordQuery.Proofs.DraftLayout
import RecordQuery.Proofs.TallyGroups
import RecordQuery.Proofs.MergeLaws
import RecordQuery.Proofs.Compiling
import RecordQuery.Proofs.Selection
import RecordQuery.Proofs.SelectionLaws
import RecordQuery.Proofs.Meaning
import RecordQuery.Proofs.Extraction
import RecordQuery.Proofs.Existential
import RecordQuery.Proofs.KeyOrder
import RecordQuery.Proofs.WellFormed
import RecordQuery.Proofs.AbsentData
import RecordQuery.Proofs.Rank
import RecordQuery.Proofs.ShortestDecimal
import RecordQuery.Proofs.NumberText
import RecordQuery.Proofs.JsonText
import RecordQuery.Proofs.CanonicalKey
import RecordQuery.Proofs.ReadingLaws
import RecordQuery.Proofs.ConditionRoundTrip
import RecordQuery.Proofs.GroupingRoundTrip
import RecordQuery.Proofs.DescriptionRoundTrip
import RecordQuery.Proofs.CalendarDays
import RecordQuery.Proofs.FirstFault
import RecordQuery.Proofs.Leaves
import RecordQuery.Proofs.MalformedLeaves
import RecordQuery.Proofs.PipelineFaults
import RecordQuery.Bucket.Indexed
import RecordQuery.Proofs.Fusion
import RecordQuery.Proofs.IndexedTally
import RecordQuery.Proofs.SettingsCongr
import RecordQuery.Proofs.ValueOrder
import RecordQuery.Proofs.AllowList
import RecordQuery.Proofs.CivilDates
import RecordQuery.Proofs.CountConservation
import RecordQuery.Proofs.Truncation
import RecordQuery.Proofs.TimestampText
import RecordQuery.Proofs.DateKeys
import RecordQuery.Proofs.DatePeriods
import RecordQuery.Proofs.TimestampForms
import RecordQuery.Proofs.RelativeDates
import RecordQuery.Proofs.Rounding
import RecordQuery.Proofs.NumberOrder
import RecordQuery.Proofs.ScalarOrder
import RecordQuery.Proofs.ExactValues
import RecordQuery.Proofs.SortRefinement
import RecordQuery.Proofs.OrderConditions
import RecordQuery.Proofs.Duals
import RecordQuery.Proofs.PathResolution
import RecordQuery.Proofs.IntervalKeys
import RecordQuery.Proofs.BucketRoundTrip

import EquityEval.Discovery.Chains
import EquityEval.Discovery.LastStep
import EquityEval.Discovery.Submissions
import EquityEval.Evidence.Acyclicity
import EquityEval.Filing.Continuations
import EquityEval.Filing.Selection
import EquityEval.Fundamentals.Assessment
import EquityEval.Fundamentals.Bands
import EquityEval.Fundamentals.CanonicalSql
import EquityEval.Fundamentals.Histogram
import EquityEval.Fundamentals.Quantiles
import EquityEval.Fundamentals.Reconciliation
import EquityEval.Fundamentals.Review
import EquityEval.Fundamentals.SectorAccounts
import EquityEval.Fundamentals.SectorEvidence
import EquityEval.Fundamentals.SectorHistory
import EquityEval.Fundamentals.SourceMetrics
import EquityEval.Fundamentals.TrailingYears
import EquityEval.Limiter.Loss
import EquityEval.Market.Grants
import EquityEval.Market.MonthlyWindows
import EquityEval.Market.NewestResponse
import EquityEval.Normalization.Law
import EquityEval.Pagination.Transparent
import EquityEval.PointInTime.AsOf
import EquityEval.Provider.Dispatches
import EquityEval.Publication.ExactlyOnce
import EquityEval.Publication.Relabelling
import EquityEval.Resources.Identity
import EquityEval.Transport.ArchiveLaw
import EquityEval.Transport.ProviderLaw
import EquityEval.Valuation.Cells
import EquityEval.Valuation.Expressions
import EquityEval.Valuation.Monotone
import EquityEval.Valuation.RoundTrip
import EquityEval.Valuation.Totality
import EquityEval.Vintage.Cutoff
import EquityEval.Workflow.Completion
import EquityEval.Workflow.Exclusivity
import EquityEval.Workflow.History
import EquityEval.Workflow.Idempotency

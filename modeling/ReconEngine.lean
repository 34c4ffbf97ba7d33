import ReconEngine.Anomaly.Absence
import ReconEngine.Anomaly.Observations
import ReconEngine.Anomaly.Velocity
import ReconEngine.Api.AccessRuns
import ReconEngine.Api.RateLimit
import ReconEngine.Audit.Anchor
import ReconEngine.Audit.Encoding
import ReconEngine.Audit.Trail
import ReconEngine.Config.Store
import ReconEngine.Config.Validation
import ReconEngine.Domain.Money
import ReconEngine.Exceptions.Leftovers
import ReconEngine.Exceptions.LifeCycle
import ReconEngine.Exceptions.Prefilter
import ReconEngine.Exceptions.RoutingOrder
import ReconEngine.Exceptions.Voiding
import ReconEngine.Fx.UploadRuns
import ReconEngine.Histories.Matches
import ReconEngine.Histories.OpenLeftovers
import ReconEngine.Histories.Originals
import ReconEngine.Ingestion.BadRows
import ReconEngine.Ingestion.BalancePages
import ReconEngine.Ingestion.Field61
import ReconEngine.Ingestion.Pan
import ReconEngine.Ingestion.Tampering
import ReconEngine.Matching.BusinessDays
import ReconEngine.Matching.ExactAgreement
import ReconEngine.Matching.ExactSound
import ReconEngine.Matching.FuzzyChunks
import ReconEngine.Matching.FxBounds
import ReconEngine.Matching.FxChoice
import ReconEngine.Matching.FxConversion
import ReconEngine.Matching.Orchestrator
import ReconEngine.Matching.RulesBlocking
import ReconEngine.Matching.Tolerances
import ReconEngine.Reporting.ClosedDays
import ReconEngine.Reporting.Export
import ReconEngine.Reporting.Page
import ReconEngine.Reporting.Tallies
import ReconEngine.Runs.Configuration
import ReconEngine.Runs.Endings
import ReconEngine.Runs.Execution
import ReconEngine.Runs.Rejections
import ReconEngine.Runs.Repeats
import ReconEngine.Samples.Camt
import ReconEngine.Samples.Mt940
import ReconEngine.Store.Protocol

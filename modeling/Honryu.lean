import Honryu.AdminApp.Abort
import Honryu.Auth.Oidc
import Honryu.Auth.Rbac
import Honryu.Calibration.Await
import Honryu.Calibration.Ceiling
import Honryu.Calibration.Listing
import Honryu.Calibration.Overlap
import Honryu.Calibration.Profile
import Honryu.Calibration.Resume
import Honryu.Campaigns.Verdict
import Honryu.Compile.Requests
import Honryu.Control.Completion
import Honryu.Control.Leaks
import Honryu.Control.Outcomes
import Honryu.Control.Reaping
import Honryu.Control.Release
import Honryu.Control.Rollback
import Honryu.Digests.Claims
import Honryu.Digests.Counting
import Honryu.HttpApi.Ingest
import Honryu.Lifecycle.Finished
import Honryu.Lifecycle.Isolation
import Honryu.Lifecycle.Requested
import Honryu.Lifecycle.ShardCounts
import Honryu.MetricsApp.ClusterSplit
import Honryu.MetricsApp.EventBus
import Honryu.Progress.Collation
import Honryu.Progress.Locks
import Honryu.Progress.Redelivery
import Honryu.Quota.Admission
import Honryu.Quota.ClusterCapacity
import Honryu.Quota.Reclaim
import Honryu.Report.LeakVerdict
import Honryu.Report.Trend
import Honryu.ScenarioApp.Upload
import Honryu.Scenarios.Fingerprint
import Honryu.Scheduler.Redeploy
import Honryu.Schedules.Windows
import Honryu.Sidecar.Delivery
import Honryu.Sidecar.Lines
import Honryu.Sidecar.Run
import Honryu.Slo.Budget
import Honryu.Storage.Migrations
import Honryu.Storage.Setters
import Honryu.Taurus.Duration
import Honryu.Thresholds.Replace
import Honryu.Usage.Summary
import Honryu.Web.Stages
import Honryu.Web.TaurusDoc
import Honryu.Webhooks.Delivery

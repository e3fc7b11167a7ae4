import DnsMonitor.Monitor.Backoff
import DnsMonitor.Monitor.Config
import DnsMonitor.Monitor.Identity
import DnsMonitor.Monitor.Observation
import DnsMonitor.Monitor.Shutdown
import DnsMonitor.Monitor.Accounting
import DnsMonitor.Monitor.Wakeups
import DnsMonitor.Store.Coverage
import DnsMonitor.Store.Grading
import DnsMonitor.Store.Reset
import DnsMonitor.Store.Aggregates
import DnsMonitor.Store.Snapshots
import DnsMonitor.Store.Retention
import DnsMonitor.Store.Agreement
import DnsMonitor.Store.Auxiliary
import DnsMonitor.Httpapi.RoundTrip
import DnsMonitor.Monitor.Levels
import DnsMonitor.Lib.Leaders
import DnsMonitor.Lib.Logs
import DnsMonitor.Monitor.Collecting
import DnsMonitor.Monitor.Eligibility
import DnsMonitor.Monitor.Freshness
import DnsMonitor.Monitor.Overlap
import DnsMonitor.Monitor.SingleFlight
import DnsMonitor.Store.Statements
import DnsMonitor.Store.SummaryCache
import DnsMonitor.Monitor.Chain
import DnsMonitor.Store.Clients
import DnsMonitor.Store.StatusBuckets
import DnsMonitor.Store.Percentile
import DnsMonitor.Store.Bounds
import DnsMonitor.Monitor.Translation
import DnsMonitor.Monitor.Delay
import DnsMonitor.Monitor.Readers
import DnsMonitor.Web.VisibleServers
import DnsMonitor.Monitor.Caching
import DnsMonitor.Monitor.Starvation
import DnsMonitor.Monitor.Completions
import DnsMonitor.Httpapi.Sessions
import DnsMonitor.Httpapi.Admission
import DnsMonitor.Httpapi.Inputs
import DnsMonitor.Httpapi.Replies
import DnsMonitor.Web.Details

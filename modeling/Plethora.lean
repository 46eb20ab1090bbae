import Plethora.Lib.HttpRequest
import Plethora.Lib.Once
import Plethora.Lib.Jobs
import Plethora.Lib.Additions
import Plethora.Agents.CppInit
import Plethora.Jmx.Connector
import Plethora.Server.Notifying
import Plethora.Channel.Launch
import Plethora.Lib.Effects
import Plethora.Snmp.MibLabels
import Plethora.Snmp.Manager
import Plethora.Snmp.MibFile
import Plethora.Server.Polling
import Plethora.Server.MetricQueries
import Plethora.Data.Retries
import Plethora.Server.Registration
import Plethora.Server.Refreshing
import Plethora.Server.Rediscovery
import Plethora.Snmp.Typing
import Plethora.Config.ProtectedFile
import Plethora.Agents.PythonMetrics
import Plethora.Agents.PythonRequests
import Plethora.Agents.PythonCounting
import Plethora.Agents.Mirror
import Plethora.Jmx.Publishing
import Plethora.Agents.CppReplies
import Plethora.Web.StaticPage
import Plethora.Web.DashboardRuns
import Plethora.Jmx.Writers
import Plethora.Data.Cluster
import Plethora.Web.Console
import Plethora.Agents.Readiness
import Plethora.Agents.CppChannel
import Plethora.Io.CopyingFileWriter
import Plethora.Server.ModuleKeys
import Plethora.Data.SystemModule
import Plethora.Config.ProtectedReading
import Plethora.Data.ClusterMembers
import Plethora.Agents.CppConfig
import Plethora.Channel.Deduction
import Plethora.Agents.CppRequests
import Plethora.Snmp.MibText
import Plethora.Snmp.Sections
import Plethora.Agents.Memo
import Plethora.Server.Ports
import Plethora.Web.MetricPage
import Plethora.Agents.JpropRuns
import Plethora.Agents.JpropAgreement

import RedevPlugin.Scheduler.Fairness
import RedevPlugin.Runtime.Republication
import RedevPlugin.Host.Capacity
import RedevPlugin.Host.ExecutionGates
import RedevPlugin.Host.SurfaceMethods
import RedevPlugin.Exchange.Slots
import RedevPlugin.Exchange.Canceled
import RedevPlugin.Exchange.Activity
import RedevPlugin.Exchange.Flights
import RedevPlugin.Wire.Target
import RedevPlugin.Wire.Params
import RedevPlugin.Lease.Replay
import RedevPlugin.Wire.Conversation
import RedevPlugin.Session.Fences
import RedevPlugin.Session.FenceAgreement
import RedevPlugin.Resource.Safety
import RedevPlugin.Bridge.TokenIsolation
import RedevPlugin.Manager.Compensation
import RedevPlugin.PluginData.Staging
import RedevPlugin.PluginData.Lifecycle
import RedevPlugin.ControlStore.IntervalClaims
import RedevPlugin.ControlStore.EventLog
import RedevPlugin.Authorization.Checks
import RedevPlugin.Package.Identity
import RedevPlugin.Package.ReleaseTags
import RedevPlugin.Process.StreamBuffer
import RedevPlugin.Capability.Addresses
import RedevPlugin.Runtime.IpcWriter
import RedevPlugin.Runtime.RouteTables
import RedevPlugin.Capability.Multiples
import RedevPlugin.Resource.Directories

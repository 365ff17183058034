import KubeEdge.Go.Text
import KubeEdge.Go.Base64
import KubeEdge.Go.Quote
import KubeEdge.Go.Control
import KubeEdge.Go.Indexer
import KubeEdge.Go.Machine
import KubeEdge.Go.Handoff
import KubeEdge.Go.Workqueue
import KubeEdge.Go.Threads
import KubeEdge.Kube.Objects
import KubeEdge.Envoy.Naming
import KubeEdge.Envoy.Xds
import KubeEdge.Envoy.Translate
import KubeEdge.Envoy.Generated
import KubeEdge.Envoy.Clusters
import KubeEdge.Envoy.References
import KubeEdge.Envoy.Location
import KubeEdge.Envoy.Store
import KubeEdge.Envoy.Loops
import KubeEdge.Envoy.Agreement
import KubeEdge.Envoy.Kinds
import KubeEdge.Envoy.Groups
import KubeEdge.Envoy.Handlers
import KubeEdge.Envoy.World
import KubeEdge.Envoy.Isolation
import KubeEdge.Envoy.Edge
import KubeEdge.Envoy.Wire
import KubeEdge.Envoy.Delivery
import KubeEdge.Envoy.Replica
import KubeEdge.Envoy.Sources
import KubeEdge.Envoy.Snapshot
import KubeEdge.Envoy.Reads
import KubeEdge.Envoy.Trigger
import KubeEdge.Envoy.Versions
import KubeEdge.Envoy.Startup
import KubeEdge.Envoy.Nodes
import KubeEdge.CloudHub.Queue
import KubeEdge.CloudHub.Order
import KubeEdge.CloudHub.Retry
import KubeEdge.CloudHub.Newer
import KubeEdge.CloudHub.Routing
import KubeEdge.CloudHub.List
import KubeEdge.CloudHub.Limit
import KubeEdge.CloudHub.Sync
import KubeEdge.CloudHub.Nodes
import KubeEdge.CloudHub.Confinement
import KubeEdge.CloudHub.Tickets
import KubeEdge.DeviceTwin.Types
import KubeEdge.DeviceTwin.Deal
import KubeEdge.DeviceTwin.Entries
import KubeEdge.DeviceTwin.Outcomes
import KubeEdge.DeviceTwin.Endings
import KubeEdge.DeviceTwin.Versions
import KubeEdge.DeviceTwin.Agreement
import KubeEdge.DeviceTwin.Redelivery
import KubeEdge.DeviceTwin.Values
import KubeEdge.DeviceTwin.Cloud
import KubeEdge.DeviceTwin.Locks
import KubeEdge.DeviceTwin.Confirm
import KubeEdge.DeviceTwin.Reporting
import KubeEdge.DeviceController.Upstream
import KubeEdge.DeviceController.Workers
import KubeEdge.DeviceController.Reports
import KubeEdge.DeviceController.Profile
import KubeEdge.DeviceController.Listing
import KubeEdge.EdgeController.Location
import KubeEdge.EdgeController.Locating
import KubeEdge.EdgeController.Told
import KubeEdge.EdgeController.PodManager
import KubeEdge.EdgeController.PodStatus
import KubeEdge.EdgeController.PodUID
import KubeEdge.MetaServer.Keys
import KubeEdge.MetaServer.Watch
import KubeEdge.MetaServer.Imitator
import KubeEdge.MetaServer.ListWatch
import KubeEdge.DynamicController.Selector
import KubeEdge.DynamicController.Listener
import KubeEdge.DynamicController.Convergence
import KubeEdge.Beehive.Bus
import KubeEdge.Beehive.Deadlock
import KubeEdge.Beehive.Requests
import KubeEdge.Go.Stream
import KubeEdge.Viaduct.Keeper
import KubeEdge.Viaduct.Fifo
import KubeEdge.Viaduct.Packer
import KubeEdge.Viaduct.Lanes
import KubeEdge.Envoy.Transport
import KubeEdge.Router.Rules
import KubeEdge.Envoy.Relisting
import KubeEdge.Envoy.Resync
import KubeEdge.Go.Locks
import KubeEdge.Envoy.LockDiscipline
import KubeEdge.Envoy.Retry
import KubeEdge.DeviceTwin.Crashes
import KubeEdge.DeviceController.Crashes
import KubeEdge.Mappers.Modbus

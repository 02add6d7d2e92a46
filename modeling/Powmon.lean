import Powmon.Lib.Counter
import Powmon.Lib.Ieee
import Powmon.Lib.Loop
import Powmon.Lib.Store
import Powmon.Lib.Collective
import Powmon.Lib.Text
import Powmon.Lib.CString
import Powmon.Lib.Scan
import Powmon.Lib.Scanf
import Powmon.Lib.SlotTable
import Powmon.Lib.Resume
import Powmon.Lib.Window
import Powmon.Lib.Forest
import Powmon.Msr.Basic
import Powmon.Monitor.State
import Powmon.Monitor.Sample
import Powmon.Monitor.Footprint
import Powmon.Monitor.Push
import Powmon.Monitor.Run
import Powmon.Monitor.History
import Powmon.Monitor.Detect
import Powmon.Monitor.Determinism
import Powmon.Monitor.Accounting
import Powmon.Monitor.Command
import Powmon.Monitor.Config
import Powmon.Monitor.Buffer
import Powmon.Monitor.Options
import Powmon.Monitor.Precedence
import Powmon.Monitor.Startup
import Powmon.Energy.Sample
import Powmon.Energy.Result
import Powmon.Energy.Units
import Powmon.Energy.Wraps
import Powmon.Coverage
import Powmon.Energy.Agreement
import Powmon.Energy.Affinity
import Powmon.Energy.CommandLine
import Powmon.NodeSmp.Sampler
import Powmon.NodeSmp.Agreement
import Powmon.Topology.Detect
import Powmon.Topology.Placement
import Powmon.Topology.Cpuinfo
import Powmon.Topology.Bounds
import Powmon.Topology.Index
import Powmon.Mpi.Node
import Powmon.Mpi.Collectives
import Powmon.Lifecycle.Protocol
import Powmon.Lifecycle.Exclusion
import Powmon.Lifecycle.Pidfile
import Powmon.Collector.Process
import Powmon.Collector.Wire
import Powmon.System.Attribution
import Powmon.System.Traffic
import Powmon.Iniparser.Dictionary
import Powmon.Iniparser.Line
import Powmon.Iniparser.Load
import Powmon.Iniparser.Document
import Powmon.Iniparser.Dump
import Powmon.Mqtt.Packet
import Powmon.Mqtt.Queue
import Powmon.Mqtt.Delivery
import Powmon.Mqtt.ExactlyOnce
import Powmon.Mqtt.Subscriptions
import Powmon.Mqtt.Routing
import Powmon.Mqtt.Retained
import Powmon.System.Delivery

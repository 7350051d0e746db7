import ConnectionOrder.Machine
import ConnectionOrder.ArrayQueue
import ConnectionOrder.Batches
import ConnectionOrder.Pairing
import ConnectionOrder.Sockets
import ConnectionOrder.ServerEpx3.State
import ConnectionOrder.ServerEpx3.Loop
import ConnectionOrder.ServerEpx3.Runs
import ConnectionOrder.ServerEpx3.OpenClients
import ConnectionOrder.ServerEpx3.ByteTotals
import ConnectionOrder.ServerEpx3.Summaries
import ConnectionOrder.ServerEpx3.Counters
import ConnectionOrder.ServerEpx3.Fairness
import ConnectionOrder.ServerEpx3.Measurement
import ConnectionOrder.ServerExp2.Loop
import ConnectionOrder.ServerExp2.Delivery
import ConnectionOrder.Exp1.ServerFinal
import ConnectionOrder.ServerExp2.Clients
import ConnectionOrder.Exp1.Segmentation
import ConnectionOrder.Monitor
import ConnectionOrder.Rotation
import ConnectionOrder.Exp1.ClientFinal
import ConnectionOrder.Exp1.Codec
import ConnectionOrder.Lockstep
import ConnectionOrder.Exp1.Client8
import ConnectionOrder.Exp1.FailedConnects
import ConnectionOrder.ClientExp2Time
import ConnectionOrder.EdgeTriggered
import ConnectionOrder.Exp1.EventLoop
import ConnectionOrder.Exp1.Edges
import ConnectionOrder.FixedPoint
import ConnectionOrder.Rows
import ConnectionOrder.PyDict
import ConnectionOrder.ServerEpx3.StatsLog
import ConnectionOrder.Resultexp3.Decoders
import ConnectionOrder.Resultexp3.LogLines
import ConnectionOrder.Resultexp3.ParseFile
import ConnectionOrder.Resultexp3.Searches
import ConnectionOrder.Resultexp3.ReadBack
import ConnectionOrder.Resultexp3.Averages
import ConnectionOrder.Exp1.LossLaw
import ConnectionOrder.ServerExp2.Counting
import ConnectionOrder.SharedCounters
import ConnectionOrder.ServerEpx3.Branches
import ConnectionOrder.ServerEpx3.Packets
import ConnectionOrder.ServerEpx3.Derived
import ConnectionOrder.ServerEpx3.Tallies
import ConnectionOrder.ServerEpx3.Receipts
import ConnectionOrder.ServerEpx3.ActiveTime
import ConnectionOrder.ServerEpx3.PairBounds
import ConnectionOrder.ServerEpx3.Inactivity
import ConnectionOrder.Exp1.Server6
import ConnectionOrder.Exp1.TrackerRange
import ConnectionOrder.ServerExp2.Consistency
import ConnectionOrder.Per
import ConnectionOrder.Non
import ConnectionOrder.SendLoops
import ConnectionOrder.ClientExp2Volume
import ConnectionOrder.Resultexp3.GroupMeans
import ConnectionOrder.Resultexp3.GroupSizes
import ConnectionOrder.Patterns
import ConnectionOrder.ServerExp2.Report
import ConnectionOrder.Outputexp2.Params
import ConnectionOrder.Outputexp2.Cdf
import ConnectionOrder.Fifo
import ConnectionOrder.ServerEpx3.WaitingArray
import ConnectionOrder.Outputexp2.Cdf2
import ConnectionOrder.Exp1.Client7
import ConnectionOrder.Exp1.EndToEnd
import ConnectionOrder.Exp1.Numbering
import ConnectionOrder.Occurrences
import ConnectionOrder.ServerEpx3.Ledger
import ConnectionOrder.ServerEpx3.Stopping
import ConnectionOrder.ServerEpx3.Turns
import ConnectionOrder.CStrings
import ConnectionOrder.ClientExp2
import ConnectionOrder.ClientOp
import ConnectionOrder.EmpiricalCdf
import ConnectionOrder.Exp1.Client
import ConnectionOrder.Resultexp3.Scripts
import ConnectionOrder.Outputexp2.Curves
import ConnectionOrder.ServerEpx3.Durations
import ConnectionOrder.Resultexp3.RunLogs
import ConnectionOrder.Links
import ConnectionOrder.ServerEpx3.Meters
import ConnectionOrder.Exp3

import Relos.Async.Machine
import Relos.Async.Component
import Relos.Async.Outline
import Relos.Async.Sequential
import Relos.Async.Clients
import Relos.Core
import Relos.Log.Chain
import Relos.Log.Positions
import Relos.Log.Loglet
import Relos.Log.MemoryLoglet
import Relos.Log.VirtualLog
import Relos.Log.Epochs
import Relos.Log.FlatLog
import Relos.Log.FlatRefinement
import Relos.Log.ClusterInvariant
import Relos.Log.ClusterOutline
import Relos.Log.ClusterSteps
import Relos.Log.LogClients
import Relos.Log.Durability
import Relos.Log.SharedInstance
import Relos.Log.Agreement
import Relos.Log.Freshness
import Relos.Log.NativeLoglet
import Relos.Log.NativeInvariant
import Relos.Log.NativeStages
import Relos.Log.NativeOutline
import Relos.Log.NativeRefinement
import Relos.Log.NativeSteps
import Relos.Log.NativeReads
import Relos.Log.NativeDurability
import Relos.Log.NativeProgress
import Relos.Log.NativeSafety
import Relos.Log.NativeHoles
import Relos.Log.NativeStops
import Relos.Log.NativeTolerance
import Relos.Log.CachedChain
import Relos.Log.SegmentIds
import Relos.Log.SoloAppends
import Relos.Log.Placement
import Relos.Log.AtMostOnce
import Relos.Serial.LittleEndian
import Relos.Replay.StateMachine
import Relos.Store.MemoryStore
import Relos.Store.Transactions
import Relos.Engine.BaseEngine
import Relos.Engine.EngineInvariant
import Relos.Engine.Replication
import Relos.Engine.EngineReplacement
import Relos.Engine.ViewTracking
import Relos.Engine.ApplyLoop
import Relos.Serial.Format
import Relos.Serial.Separator
import Relos.Engine.Batching
import Relos.Table.Bincode
import Relos.Table.DelosTable
import Relos.Table.Integrity
import Relos.Table.Isolation
import Relos.Table.Refinement
import Relos.Engine.BatchResults
import Relos.Engine.BatchedStore
import Relos.Table.ReplicatedTable
import Relos.Table.ReplicaInvariant
import Relos.Table.TableInvariant
import Relos.Table.Linearizability
import Relos.Engine.LoopReplies
import Relos.Engine.ProposeResult
import Relos.Engine.EngineStack
import Relos.Engine.BatchedEntries
import Relos.Engine.ReplicatedViews
import Relos.Log.NativeQueues
import Relos.Log.NativeTails
import Relos.Log.SegmentedLog
import Relos.Log.SegmentCalls
import Relos.Log.SegmentRefinement
import Relos.Log.TrimPermanence
import Relos.Log.TrimmedErrors
import Relos.Log.SealCount
import Relos.Log.Lookups
import Relos.Engine.FlushOrder
import Relos.Log.NativeTrims
import Relos.Log.Ownership
import Relos.Log.SealedErrors
import Relos.Table.Conformance
import Relos.Engine.AdvertisedCursor
import Relos.Async.OneByOne
import Relos.Log.CheckedPositions
import Relos.Log.PositionBounds
import Relos.Log.ResumedReconfiguration
import Relos.Engine.LogServers
import Relos.Engine.ServerReplies
import Relos.Engine.ServerInvariant
import Relos.Engine.ServerSteps
import Relos.Engine.ServerReplication
import Relos.Engine.EngineSeats
import Relos.Engine.ServerAuthors
import Relos.Engine.VirtualLogServers
import Relos.Async.Wrapping
import Relos.Server.Proto
import Relos.Server.ServiceRefinement
import Relos.Table.ServedTables
import Relos.Async.Implementation
import Relos.Log.SingleSegment
import Relos.Engine.SoleEngine
import Relos.Table.TableServers
import Relos.Table.TableSessions
import Relos.Server.Linearization
import Relos.Server.Main
import Relos.Server.Sessions

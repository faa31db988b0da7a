import VmodWasm.Lib.Interaction
import VmodWasm.Lib.Transition
import VmodWasm.Lib.KeyedList
import VmodWasm.ByteStrings
import VmodWasm.GuestMemory
import VmodWasm.HttpText
import VmodWasm.ProxyContext
import VmodWasm.HttpCall
import VmodWasm.HostCalls
import VmodWasm.Execute
import VmodWasm.Verdict
import VmodWasm.FilterChain
import VmodWasm.StorePool
import VmodWasm.VdpStream
import VmodWasm.GuestPaths
import VmodWasm.Allowlist
import VmodWasm.CallBudget
import VmodWasm.ConnectionPool
import VmodWasm.StoreOwnership
import VmodWasm.DeferredCalls
import VmodWasm.CircuitBreaker
import VmodWasm.HeaderFields
import VmodWasm.ResponseReading
import VmodWasm.ReceiveBuffer
import VmodWasm.SafeReuse
import VmodWasm.HttpPool
import VmodWasm.SsrfGuard
import VmodWasm.CasUpdates
import VmodWasm.QueueDelivery
import VmodWasm.MemoryBounds
import VmodWasm.RawAbi
import VmodWasm.RawGuests
import VmodWasm.ContextKinds
import VmodWasm.ResourceLimits
import VmodWasm.TickTimer
import VmodWasm.HeaderRewrites
import VmodWasm.HeaderLookup
import VmodWasm.CalloutFraming
import VmodWasm.HeaderLines
import VmodWasm.Properties
import VmodWasm.MetricStore
import VmodWasm.CalloutDecoding
import VmodWasm.PairDecoding
import VmodWasm.HeaderAtomicity
import VmodWasm.HeaderHandOver
import VmodWasm.HeaderSizes
import VmodWasm.TrailerMaps
import VmodWasm.BodyBuffers
import VmodWasm.BodyIndependence
import VmodWasm.SharedStores
import VmodWasm.PoolTable
import VmodWasm.PoolSockets
import VmodWasm.PoolBooks
import VmodWasm.PoolLife
import VmodWasm.AddressFilter
import VmodWasm.ChainSpec
import VmodWasm.AllowlistText
import VmodWasm.CasCounter
import VmodWasm.DnsCache
import VmodWasm.CalloutTimeouts
import VmodWasm.QueueNames
import VmodWasm.QueueNodes
import VmodWasm.MetricsJson
import VmodWasm.CallStatistics
import VmodWasm.VclRegistry
import VmodWasm.TextScanners
import VmodWasm.Lib.Blocks
import VmodWasm.TrailerBlocks
import VmodWasm.ContextBlocks
import VmodWasm.ContextLife
import VmodWasm.EngineResources
import VmodWasm.EngineSpecs
import VmodWasm.EngineLife
import VmodWasm.Lib.Sections
import VmodWasm.SharedBlocks
import VmodWasm.QueueBlocks
import VmodWasm.StoreSingletons
import VmodWasm.DirectCallout

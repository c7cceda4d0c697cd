import AuthKademlia.Lib.Execution
import AuthKademlia.Lib.BigEndian
import AuthKademlia.Lib.Chunks
import AuthKademlia.Lib.Dyadic
import AuthKademlia.Lib.AssocMap
import AuthKademlia.Lib.Optimistic
import AuthKademlia.Lib.Loop
import AuthKademlia.Lib.Nearest
import AuthKademlia.Lib.Resumption
import AuthKademlia.Lib.Iteration
import AuthKademlia.Lib.TwoSided
import AuthKademlia.Lib.Simulation
import AuthKademlia.Lib.Leading
import AuthKademlia.Lib.Text
import AuthKademlia.Lib.Decimal
import AuthKademlia.Lib.Codec
import AuthKademlia.Lib.KeyOrder
import AuthKademlia.Node
import AuthKademlia.Distance
import AuthKademlia.KBucket
import AuthKademlia.RoutingTable
import AuthKademlia.RoutingInvariant
import AuthKademlia.BucketDepth
import AuthKademlia.RoutingTermination
import AuthKademlia.Neighbors
import AuthKademlia.TraversalOrder
import AuthKademlia.ContactChanges
import AuthKademlia.LonelyBuckets
import AuthKademlia.Fragmentation
import AuthKademlia.Reassembly
import AuthKademlia.ReassemblyInvariant
import AuthKademlia.ReassemblyBound
import AuthKademlia.ReassemblyAge
import AuthKademlia.SignatureVerifier
import AuthKademlia.AuthHandler
import AuthKademlia.RecordEncoding
import AuthKademlia.Signing
import AuthKademlia.CanonicalJson
import AuthKademlia.Publishing
import AuthKademlia.SignatureCache
import AuthKademlia.Storage
import AuthKademlia.LazyExpiry
import AuthKademlia.Protocol
import AuthKademlia.RequestEffects
import AuthKademlia.Welcome
import AuthKademlia.Custody
import AuthKademlia.Newcomers
import AuthKademlia.ReplicationFilter
import AuthKademlia.HeardOrder
import AuthKademlia.ContactFrame
import AuthKademlia.Authorization
import AuthKademlia.Concurrency
import AuthKademlia.Interleaving
import AuthKademlia.Bans
import AuthKademlia.Answers
import AuthKademlia.NodeHeap
import AuthKademlia.Crawl
import AuthKademlia.CrawlInvariant
import AuthKademlia.CrawlAnswers
import AuthKademlia.CrawlNearest
import AuthKademlia.PendingCalls
import AuthKademlia.CallCompletion
import AuthKademlia.WireFormat
import AuthKademlia.Transport
import AuthKademlia.WorkerPool
import AuthKademlia.PeerAddress
import AuthKademlia.Server
import AuthKademlia.CallRules
import AuthKademlia.ServerInvariant
import AuthKademlia.ValueSelection
import AuthKademlia.LookupOrder
import AuthKademlia.RecordRules
import AuthKademlia.LocalCalls
import AuthKademlia.LocalWrites
import AuthKademlia.Agreement
import AuthKademlia.FirstWriter
import AuthKademlia.Membership
import AuthKademlia.Cluster
import AuthKademlia.Correlation
import AuthKademlia.CallOutcomes
import AuthKademlia.Conversations
import AuthKademlia.HostRefinement
import AuthKademlia.HostInvariant
import AuthKademlia.SignedRecords
import AuthKademlia.ContactCauses
import AuthKademlia.LoyalContacts
import AuthKademlia.KeyControl
import AuthKademlia.Listening
import AuthKademlia.Draining

import ClusterMap.Client.Basic
import ClusterMap.Cluster.History
import ClusterMap.Event.Collector
import ClusterMap.Event.History
import ClusterMap.Log
import ClusterMap.Query.Grammar
import ClusterMap.Query.Spelling
import ClusterMap.Proofs.Event.Registrations
import ClusterMap.Proofs.Cluster.Delivery
import ClusterMap.Proofs.Cluster.Listening
import ClusterMap.Proofs.Value.RoundTrip
import ClusterMap.Proofs.Client.Session
import ClusterMap.Proofs.Cluster.Feed
import ClusterMap.Proofs.Query.Numbers
import ClusterMap.Proofs.Query.Parsing
import ClusterMap.Proofs.Value.Truncation
import ClusterMap.Proofs.Event.Isolation
import ClusterMap.Proofs.Client.Failure
import ClusterMap.Proofs.Query.Canonical
import ClusterMap.Proofs.Client.Querying
import ClusterMap.Proofs.Cluster.Independence
import ClusterMap.Proofs.Event.Removal
import ClusterMap.Proofs.Key.Numbers
import ClusterMap.Proofs.Client.Respelling
import ClusterMap.Proofs.Number.Reading
import ClusterMap.Proofs.Query.Fields
import ClusterMap.Proofs.Query.Normal
import ClusterMap.Proofs.Query.Seams
import ClusterMap.Proofs.Query.Composing
import ClusterMap.Proofs.Cluster.Secrecy
import ClusterMap.Proofs.Value.Acceptance
import ClusterMap.Proofs.Query.Slices
import ClusterMap.Proofs.Query.Faults
import ClusterMap.Proofs.Cluster.Entries
import ClusterMap.Proofs.Text.Order
import ClusterMap.Proofs.Value.Reencoding
import ClusterMap.Proofs.Query.Comparisons
import ClusterMap.Proofs.Query.Grouping
import ClusterMap.Proofs.Query.Nesting
import ClusterMap.Proofs.Query.OwnText
import ClusterMap.Proofs.Key.Calendar
import ClusterMap.Proofs.Event.Receipts
import ClusterMap.Proofs.Value.Paths
import ClusterMap.Proofs.Query.Numerals

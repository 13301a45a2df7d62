import Holdall.Attribute.Bag
import Holdall.BoundedMap.Plan
import Holdall.GuardedMap
import Holdall.Item.Transform
import Holdall.Locale.Directory
import Holdall.Locale.Registry
import Holdall.Measured
import Holdall.Proofs.BoundedMap.Refinement
import Holdall.Proofs.OrderedMap.Audit
import Holdall.Sequence.Chunks
import Holdall.Sequence.Distinct
import Holdall.Sequence.Grouping
import Holdall.Sequence.Table
import Holdall.SharedMap.Custody
import Holdall.Proofs.BoundedMap.Overflow
import Holdall.Proofs.BoundedMap.Tally
import Holdall.Proofs.BoundedMap.Inclusion
import Holdall.Proofs.BoundedMap.Conservation
import Holdall.Proofs.BoundedMap.Recency
import Holdall.Proofs.SharedMap.Refinement
import Holdall.Proofs.SharedMap.Tally
import Holdall.Proofs.SharedMap.Reclaim
import Holdall.Proofs.SharedMap.Referenced
import Holdall.Proofs.Slot.RowStep
import Holdall.Proofs.BoundedMap.Mirror
import Holdall.Proofs.BoundedMap.Builds
import Holdall.Proofs.Locale.Grammar
import Holdall.Proofs.Locale.RoundTrip
import Holdall.Proofs.Locale.Known
import Holdall.Proofs.Container.OrderedSet
import Holdall.Proofs.GuardedMap.Once
import Holdall.Proofs.Container.HashedMap
import Holdall.Proofs.Locale.Registry
import Holdall.Proofs.Locale.Directory
import Holdall.Proofs.Container.SnapshotList
import Holdall.Proofs.Sequence.Distinct
import Holdall.Proofs.Container.Navigation
import Holdall.Proofs.Attribute.Merge
import Holdall.Proofs.OrderedMap.Visit
import Holdall.Proofs.OrderedMap.Traversal
import Holdall.Proofs.BoundedMap.Rank
import Holdall.Proofs.Locale.Queries
import Holdall.Proofs.Locale.Lookup
import Holdall.Proofs.Sequence.FirstOccurrence
import Holdall.Proofs.Sequence.Grouping
import Holdall.Proofs.Sequence.Table
import Holdall.Proofs.Sequence.Stability
import Holdall.Proofs.Sequence.ValueOrder
import Holdall.Proofs.Sequence.Chunks
import Holdall.Proofs.Sequence.Membership
import Holdall.Proofs.BoundedMap.Footprint
import Holdall.Proofs.Container.Inverse
import Holdall.Proofs.Attribute.Numeral

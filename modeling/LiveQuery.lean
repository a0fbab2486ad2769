import LiveQuery.Execution.Loader
import LiveQuery.Impact.Subscription
import LiveQuery.Main
import LiveQuery.Proofs.Execution.Invalidation
import LiveQuery.Proofs.Impact.Subscription
import LiveQuery.Proofs.Filter.NormalForm
import LiveQuery.Proofs.Filter.Kept
import LiveQuery.Proofs.Filter.Partial
import LiveQuery.Proofs.Impact.Rekeyed
import LiveQuery.Proofs.Sql.Agreement
import LiveQuery.Proofs.Statement.InstanceKey
import LiveQuery.Proofs.Change.Aggregation
import LiveQuery.Proofs.Change.History
import LiveQuery.Proofs.Change.NetEffect
import LiveQuery.Proofs.Selection.Inclusion
import LiveQuery.Proofs.Execution.Transparency
import LiveQuery.Proofs.Execution.Assembly
import LiveQuery.Proofs.Selection.Readable
import LiveQuery.Proofs.Sql.Columns
import LiveQuery.Proofs.Sql.Containment
import LiveQuery.Proofs.Sql.Scoped
import LiveQuery.Proofs.Execution.Copying
import LiveQuery.Proofs.Execution.Rows
import LiveQuery.Proofs.Execution.Completion
import LiveQuery.Proofs.Execution.Owners
import LiveQuery.Proofs.Execution.Reassembly
import LiveQuery.Proofs.Filter.Footprint
import LiveQuery.Proofs.Impact.Pruning
import LiveQuery.Proofs.Selection.Narrowing
import LiveQuery.Proofs.Selection.Bounds
import LiveQuery.Proofs.Statement.Spelling
import LiveQuery.Proofs.Statement.IdentifierText
import LiveQuery.Proofs.Catalog.Identifying
import LiveQuery.Proofs.Filter.Understood
import LiveQuery.Proofs.Sql.Checked
import LiveQuery.Proofs.Sql.Staging
import LiveQuery.Proofs.Impact.Reordering
import LiveQuery.Proofs.Filter.Complement
import LiveQuery.Proofs.Filter.Composition
import LiveQuery.Proofs.Change.Folding
import LiveQuery.Proofs.Impact.Unread
import LiveQuery.Proofs.Sql.Limits
import LiveQuery.Proofs.Execution.Serving
import LiveQuery.Proofs.SortOrder.Reduction
import LiveQuery.Proofs.Execution.RoundTrips
import LiveQuery.Proofs.Sql.Keys
import LiveQuery.Proofs.Sql.Sharing
import LiveQuery.Proofs.Filter.Shrinking
import LiveQuery.Proofs.Sql.Insertion
import LiveQuery.Proofs.SortOrder.Preorder
import LiveQuery.Proofs.Catalog.Keys
import LiveQuery.Proofs.Value.Written
import LiveQuery.Proofs.Sql.Settled

import PgQueue.Guarantees.Conservation
import PgQueue.Guarantees.AckErrors
import PgQueue.Guarantees.Batches
import PgQueue.Guarantees.Retries
import PgQueue.Guarantees.Inactive
import PgQueue.Guarantees.Equivalence
import PgQueue.Listener.Rejected
import PgQueue.Listener.Waits
import PgQueue.Notifier.Agree
import PgQueue.Notifier.Books
import PgQueue.Notifier.Wakeups
import PgQueue.Consume.Stops
import PgQueue.Consume.Budget
import PgQueue.Config
import PgQueue.Reasons.Kept
import PgQueue.Migrations
import PgQueue.Guarantees.Depth
import PgQueue.Guarantees.Fifo
import PgQueue.Catalogue.Subscribers
import PgQueue.Catalogue.Queues
import PgQueue.Catalogue.Indexes
import PgQueue.Catalogue.Cap
import PgQueue.Cache.Stale
import PgQueue.Cache.Bounded
import PgQueue.Params
import PgQueue.Listener.Statements
import PgQueue.Lifecycle.Final
import PgQueue.Fake.Accounting
import PgQueue.Topic.Inserts
import PgQueue.Listing
import PgQueue.Guarantees.ReplayFrom
import PgQueue.Guarantees.OneCall
import PgQueue.Guarantees.Collection
import PgQueue.Listener.Lost
import PgQueue.Collect.Dispatch
import PgQueue.Consume.Handled
import PgQueue.Catalogue.Repair

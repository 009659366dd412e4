import Rollup.Calendar.Reckoning
import Rollup.Main
import Rollup.Service.Endpoints
import Rollup.Proofs.Aggregation.DateBuckets
import Rollup.Proofs.Aggregation.Evaluated
import Rollup.Proofs.Aggregation.Merging
import Rollup.Proofs.Aggregation.Numbers
import Rollup.Proofs.Calendar.Reckoning
import Rollup.Proofs.Command.ResultText
import Rollup.Proofs.Daemon.Listing
import Rollup.Proofs.Filter.Data
import Rollup.Proofs.Filter.DateBounds
import Rollup.Proofs.Filter.Grammar
import Rollup.Proofs.Filter.Meaning
import Rollup.Proofs.Filter.Reported
import Rollup.Proofs.Forest.Nesting
import Rollup.Proofs.Plan.Closure
import Rollup.Proofs.Plan.Columns
import Rollup.Proofs.Plan.FullText
import Rollup.Proofs.Plan.Ranking
import Rollup.Proofs.Response.Blanked
import Rollup.Proofs.Response.Conserved
import Rollup.Proofs.Response.Contiguous
import Rollup.Proofs.Response.Exact
import Rollup.Proofs.Response.Membership
import Rollup.Proofs.Response.Names
import Rollup.Proofs.Response.Positions
import Rollup.Proofs.Response.Tables
import Rollup.Proofs.Response.Total
import Rollup.Proofs.Response.Unread
import Rollup.Proofs.Response.Values
import Rollup.Proofs.Response.Whole
import Rollup.Proofs.Rows.Comparisons
import Rollup.Proofs.Rows.Filled
import Rollup.Proofs.Rows.Keys
import Rollup.Proofs.Statement.Clauses
import Rollup.Proofs.Statement.Names

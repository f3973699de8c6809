import GridFold.Task.Registry
import GridFold.Proofs.Measure
import GridFold.Proofs.Edits
import GridFold.Proofs.Layout
import GridFold.Proofs.Elementwise
import GridFold.Proofs.Collapse
import GridFold.Proofs.Plans
import GridFold.Proofs.AxisFold
import GridFold.Proofs.Blocks
import GridFold.Proofs.Orders
import GridFold.Proofs.Totals
import GridFold.Proofs.FloatOrder
import GridFold.Proofs.RowMajor
import GridFold.Proofs.Launches
import GridFold.Proofs.Acceptance
import GridFold.Proofs.Calls
import GridFold.Proofs.Checked
import GridFold.Proofs.Frame
import GridFold.Proofs.Endings
import GridFold.Proofs.Safety
import GridFold.Proofs.Contents
import GridFold.Proofs.Stacking
import GridFold.Proofs.Pieces
import GridFold.Proofs.Tree
import GridFold.Proofs.Widening
import GridFold.Proofs.Lockstep
import GridFold.Proofs.Positions
import GridFold.Proofs.RoundTrip
import GridFold.Proofs.Consumption
import GridFold.Proofs.Registration
import GridFold.Proofs.Siblings
import GridFold.Proofs.Discarding
import GridFold.Proofs.StillAxes
import GridFold.Proofs.Grouping
import GridFold.Proofs.Bracketing
import GridFold.Proofs.ExactTotals
import GridFold.Proofs.Pointwise
import GridFold.Proofs.Enumeration
import GridFold.Proofs.Cells
import GridFold.Proofs.ByAxes
import GridFold.Proofs.Combining
import GridFold.Proofs.Counters
import GridFold.Proofs.Requests
import GridFold.Proofs.Partition

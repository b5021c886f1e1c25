import BenchRatio.Main
import BenchRatio.Proofs.Measurements.Reading
import BenchRatio.Proofs.Decimal.Rounding
import BenchRatio.Proofs.Decimal.Shortest
import BenchRatio.Proofs.Decimal.Exact
import BenchRatio.Proofs.Decimal.Bits
import BenchRatio.Proofs.Decimal.Layout
import BenchRatio.Proofs.Output.Delivery
import BenchRatio.Proofs.Output.Table
import BenchRatio.Proofs.Output.Cells
import BenchRatio.Proofs.Ratio
import BenchRatio.Proofs.Measurements.Written
import BenchRatio.Proofs.Measurements.Loading
import BenchRatio.Proofs.Output.File
import BenchRatio.Proofs.Category
import BenchRatio.Proofs.Text.Utf8
import BenchRatio.Proofs.Output.Limited
import BenchRatio.Proofs.Comparison.Columns
import BenchRatio.Proofs.Comparison.Outcome
import BenchRatio.Proofs.Comparison.Independence
import BenchRatio.Proofs.Comparison.Identity
import BenchRatio.Proofs.Comparison.Rearrangement
import BenchRatio.Proofs.Measurements.Forms
import BenchRatio.Proofs.Measurements.Replaced
import BenchRatio.Proofs.Command
import BenchRatio.Proofs.Category.Apart
import BenchRatio.Proofs.Roster
import BenchRatio.Proofs.Comparison.Rows
import BenchRatio.Proofs.Summary.Refused
import BenchRatio.Proofs.Comparison.Finite
import BenchRatio.Proofs.Report
import BenchRatio.Proofs.Roster.Settings

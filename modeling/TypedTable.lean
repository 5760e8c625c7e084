import TypedTable.Catalog
import TypedTable.Proofs.Csv.BlankLines
import TypedTable.Proofs.Csv.CellKinds
import TypedTable.Proofs.Csv.Detected
import TypedTable.Proofs.Csv.EmptyReads
import TypedTable.Proofs.Csv.Entries
import TypedTable.Proofs.Csv.FinalLine
import TypedTable.Proofs.Csv.FloatFields
import TypedTable.Proofs.Csv.FloatScans
import TypedTable.Proofs.Csv.InitialSpaces
import TypedTable.Proofs.Csv.LineEndings
import TypedTable.Proofs.Csv.LineNumbers
import TypedTable.Proofs.Csv.MissingRows
import TypedTable.Proofs.Csv.Options
import TypedTable.Proofs.Csv.Policies
import TypedTable.Proofs.Csv.Projecting
import TypedTable.Proofs.Csv.RoundTrip
import TypedTable.Proofs.Csv.Skipping
import TypedTable.Proofs.Csv.Stepping
import TypedTable.Proofs.Csv.Turns
import TypedTable.Proofs.Csv.Widths
import TypedTable.Proofs.Csv.Words
import TypedTable.Proofs.Csv.WrittenIntegers
import TypedTable.Proofs.Interval.Canonical
import TypedTable.Proofs.Interval.Entries
import TypedTable.Proofs.Selections
import TypedTable.Proofs.Sharing
import TypedTable.Proofs.Sheet.Refinement
import TypedTable.Proofs.Table.Extracting
import TypedTable.Proofs.Table.Labeling

import CellMachine.Debugger.Screen
import CellMachine.Main
import CellMachine.Proofs.Assembly.Jumps
import CellMachine.Proofs.Assembly.Listing
import CellMachine.Proofs.Assembly.Presentation
import CellMachine.Proofs.Cli
import CellMachine.Proofs.Debugger.Window
import CellMachine.Proofs.Decimal.Rebuild
import CellMachine.Proofs.Machine.Boundaries
import CellMachine.Proofs.Machine.Comparison
import CellMachine.Proofs.Machine.DecimalOrder
import CellMachine.Proofs.Machine.DigitRow
import CellMachine.Proofs.Machine.FailedReload
import CellMachine.Proofs.Machine.Frame
import CellMachine.Proofs.Machine.Integers
import CellMachine.Proofs.Machine.Latches
import CellMachine.Proofs.Machine.Policy
import CellMachine.Proofs.Machine.Runs
import CellMachine.Proofs.Machine.Tracing
import CellMachine.Proofs.Records
import CellMachine.Proofs.Restart
import CellMachine.Proofs.Listing.Tiling
import CellMachine.Proofs.Text.Lines
import CellMachine.Proofs.Text.Scan
import CellMachine.Proofs.Image.Grammar
import CellMachine.Decimal.Styles
import CellMachine.Proofs.Assembly.Rejection
import CellMachine.Proofs.Decimal.Significant
import CellMachine.Proofs.Decimal.Places
import CellMachine.Proofs.Decimal.Written
import CellMachine.Proofs.Decimal.General
import CellMachine.Proofs.Decimal.Printed

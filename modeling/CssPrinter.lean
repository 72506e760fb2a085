import CssPrinter.Command.Arguments
import CssPrinter.Command.Comments
import CssPrinter.Command.Config
import CssPrinter.Command.Result
import CssPrinter.Command.Run
import CssPrinter.Disk.Basic
import CssPrinter.Disk.FileTree
import CssPrinter.Disk.Path
import CssPrinter.Json.Outline
import CssPrinter.Json.Record
import CssPrinter.Json.Shape
import CssPrinter.Json.Token
import CssPrinter.Json.Value
import CssPrinter.Layout.Writer
import CssPrinter.Layout.Writer32
import CssPrinter.Main
import CssPrinter.Number.Double
import CssPrinter.Number.Shortest
import CssPrinter.Print.Options
import CssPrinter.Print.Printer
import CssPrinter.Print.Printer32
import CssPrinter.Print.Script
import CssPrinter.SourceMap.Basic
import CssPrinter.SourceMap.Mappings
import CssPrinter.SourceMap.Place
import CssPrinter.SourceMap.Vlq
import CssPrinter.Text.Hidden
import CssPrinter.Text.Measure
import CssPrinter.Text.Quoted
import CssPrinter.Text.Split
import CssPrinter.Tree.Basic
import CssPrinter.Tree.Reading
import CssPrinter.Tree.Written
import CssPrinter.Proofs.Print.Fragment
import CssPrinter.Proofs.Print.Trace
import CssPrinter.Proofs.SourceMap.Entries
import CssPrinter.Proofs.Print.Origins
import CssPrinter.Proofs.Print.Places
import CssPrinter.Proofs.Print.Unambiguous
import CssPrinter.Proofs.Json.Grammar
import CssPrinter.Proofs.Json.RoundTrip
import CssPrinter.Proofs.SourceMap.Mappings
import CssPrinter.Proofs.SourceMap.Reading
import CssPrinter.Proofs.SourceMap.Interning
import CssPrinter.Proofs.Print.Failure
import CssPrinter.Proofs.Print.Ascending
import CssPrinter.Proofs.Print.Siblings
import CssPrinter.Proofs.Json.Records
import CssPrinter.Proofs.Json.AnyOrder
import CssPrinter.Proofs.Tree.RoundTrip
import CssPrinter.Proofs.Tree.Rearranged
import CssPrinter.Proofs.Tree.AnyOrder
import CssPrinter.Proofs.Tree.Comments
import CssPrinter.Proofs.Print.Independence
import CssPrinter.Proofs.Print.LineFeeds
import CssPrinter.Proofs.Print.Indentation
import CssPrinter.Proofs.Print.Whitespace
import CssPrinter.Proofs.Print.Compressed
import CssPrinter.Proofs.Print.Nesting
import CssPrinter.Proofs.Disk.Order
import CssPrinter.Proofs.Disk.Growth
import CssPrinter.Proofs.Command.Batch
import CssPrinter.Proofs.Command.Collecting
import CssPrinter.Proofs.Command.Printing
import CssPrinter.Proofs.Command.Writing
import CssPrinter.Proofs.Command.Confinement
import CssPrinter.Proofs.Command.Failing
import CssPrinter.Proofs.Command.Comments
import CssPrinter.Proofs.Layout.History
import CssPrinter.Proofs.Command.Lines
import CssPrinter.Proofs.Print.Wrapping
import CssPrinter.Proofs.Print.Words

import OpTable.Files.Tree
import OpTable.Json.Document
import OpTable.Main
import OpTable.Proofs.Compiler.Lines
import OpTable.Proofs.Layout.Accepted
import OpTable.Proofs.Record.RoundTrip
import OpTable.Proofs.Table.Conflicts
import OpTable.Proofs.Table.Decoding
import OpTable.Proofs.Table.RoundTrip
import OpTable.Proofs.Token
import OpTable.Table.Decoder
import OpTable.Proofs.Record.Reencoding
import OpTable.Proofs.BitString
import OpTable.Proofs.Expr.Printing
import OpTable.Proofs.SpecLine
import OpTable.Proofs.Text.Lines
import OpTable.Proofs.Table.Source
import OpTable.Proofs.Text.Utf8
import OpTable.Proofs.Compiler.Bytes
import OpTable.Proofs.Checked.Expr
import OpTable.Proofs.Checked.Reading
import OpTable.Proofs.Checked.Layout
import OpTable.Proofs.Checked.Record
import OpTable.Proofs.Word.Signed
import OpTable.Proofs.Record.SignedImmediate
import OpTable.Proofs.CommandLine.Run
import OpTable.Proofs.Table.Written
import OpTable.Proofs.Record.Mask
import OpTable.Proofs.Record.UnsignedImmediate
import OpTable.Proofs.Layout.Outcome
import OpTable.Proofs.Expr.Scatter
import OpTable.Proofs.Schema.Extension
import OpTable.Proofs.Compiler.Extension
import OpTable.Proofs.Render.Constants
import OpTable.Proofs.Expr.Spelling
import OpTable.Proofs.Expr.Syntax
import OpTable.Proofs.Schema.Usable
import OpTable.Proofs.BitString.NormalForm
import OpTable.Proofs.Render.Numbers
import OpTable.Proofs.Render.Renaming

import Avr.Text.Ranges
import Avr.Text.WhiteSpace
import Avr.Text.DecimalDigit
import Avr.Text.WordChar
import Avr.Text.Unprintable
import Avr.Text.Hex
import Avr.Text.Lines
import Avr.Text.Numeral
import Avr.Text.Quoted
import Avr.Text.Utf8
import Avr.Text.Case
import Avr.Hardware
import Avr.Status
import Avr.Pointer
import Avr.Mnemonic
import Avr.Catalog
import Avr.Catalog.Entries
import Avr.Directive
import Avr.PrintTrap
import Avr.Operator
import Avr.Token
import Avr.Symbols
import Avr.Diagnostic
import Avr.Token.Pattern
import Avr.Token.Lexer
import Avr.Expr
import Avr.Resolve
import Avr.Layout.Sections
import Avr.Layout.Program
import Avr.Layout.Data
import Avr.Layout
import Avr.Instruction
import Avr.Encoding
import Avr.Image
import Avr.Listing
import Avr.Alu
import Avr.Memory
import Avr.Fault
import Avr.StepLimit
import Avr.Machine
import Avr.Machine.Access
import Avr.Machine.Execute
import Avr.Machine.Step
import Avr.Snapshot
import Avr.CommandLine.Files
import Avr.CommandLine.Command
import Avr.CommandLine.Outcome
import Avr.CommandLine.Suite
import Avr.CommandLine
import Avr.Main
import Avr.Proofs.Expression.Tree
import Avr.Proofs.Expression.Arithmetic
import Avr.Proofs.Expression.Climbing
import Avr.Proofs.Expression.Grammar
import Avr.Proofs.Results
import Avr.Proofs.Machine.Parts
import Avr.Proofs.Opcode.Template
import Avr.Proofs.Opcode.Operands
import Avr.Proofs.Opcode.Codes
import Avr.Proofs.Opcode.Injective
import Avr.Proofs.Opcode.Synonym
import Avr.Proofs.Opcode.Behaviour
import Avr.Proofs.Opcode.Digits
import Avr.Proofs.Opcode.Lossless
import Avr.Proofs.Layout.Program
import Avr.Proofs.Layout.Data
import Avr.Proofs.Layout.Headers
import Avr.Proofs.Layout.Image
import Avr.Proofs.Layout.Reference
import Avr.Proofs.Token.Spelled
import Avr.Proofs.Layout.Accepted
import Avr.Proofs.Machine.Transfer
import Avr.Proofs.Machine.Label
import Avr.Proofs.Layout.Shape
import Avr.Proofs.Text.Ascii
import Avr.Proofs.Token.Pieces
import Avr.Proofs.Token.Line
import Avr.Proofs.Token.Written
import Avr.Proofs.Token.Source
import Avr.Proofs.Layout.Written
import Avr.Proofs.Layout.Source
import Avr.Proofs.Listing.Rewritten
import Avr.Proofs.Listing.RoundTrip
import Avr.Proofs.Layout.WellFormed
import Avr.Proofs.Machine.Operation
import Avr.Proofs.Machine.Inside
import Avr.Proofs.Machine.Decode
import Avr.Proofs.Machine.Reachable
import Avr.Proofs.Machine.Faults
import Avr.Proofs.Expression.Subtraction
import Avr.Proofs.Alu.Flags
import Avr.Proofs.Alu.Chain
import Avr.Proofs.Machine.Stack
import Avr.Proofs.Machine.Returns
import Avr.Proofs.Token.Names
import Avr.Proofs.Token.Selection
import Avr.Proofs.Token.Joined
import Avr.Proofs.Layout.Appended
import Avr.Proofs.Layout.Mentioned
import Avr.Proofs.Machine.Parallel
import Avr.Proofs.Machine.Twins
import Avr.Proofs.Machine.Bounded
import Avr.Proofs.Machine.Hosted
import Avr.Proofs.Text.Encoded
import Avr.Proofs.CommandLine.Rearranged
import Avr.Proofs.Token.Located
import Avr.Proofs.CommandLine.Suite
import Avr.Proofs.Machine.Counters
import Avr.Proofs.Machine.Limited
import Avr.Proofs.Layout.Tables
import Avr.Proofs.Token.Points
import Avr.Proofs.Layout.Reports
import Avr.Proofs.Token.Literal
import Avr.Proofs.Opcode.Checking
import Avr.Proofs.Machine.Confined
import Avr.Proofs.Machine.Effects
import Avr.Proofs.Layout.Statements
import Avr.Proofs.Layout.Emitted
import Avr.Proofs.Layout.Concatenated
import Avr.Proofs.Alu.Shifts
import Avr.Proofs.Machine.Sequential
import Avr.Proofs.Machine.Printing
import Avr.Proofs.Token.Quoted
import Avr.Proofs.Layout.Texts
import Avr.Proofs.Alu.Words
import Avr.Proofs.Machine.Edits
import Avr.Proofs.Machine.Changes
import Avr.Proofs.Machine.Streams
import Avr.Proofs.Layout.Structure
import Avr.Proofs.Layout.Bounds
import Avr.Proofs.Layout.Breakpoint
import Avr.Proofs.Expression.Selected
import Avr.Proofs.Expression.Runs
import Avr.Proofs.Token.Unmatched
import Avr.Proofs.Opcode.Fields
import Avr.Proofs.Token.Arguments

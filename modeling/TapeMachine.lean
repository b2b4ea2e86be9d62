import TapeMachine.Word
import TapeMachine.Numeral
import TapeMachine.Message
import TapeMachine.Instruction
import TapeMachine.Tape
import TapeMachine.Machine
import TapeMachine.Machine.Run
import TapeMachine.Text
import TapeMachine.Text.Letter
import TapeMachine.Decimal.Binary
import TapeMachine.Decimal.Shortest
import TapeMachine.Expr.Token
import TapeMachine.Expr.Basic
import TapeMachine.Expr.Parser
import TapeMachine.Expr.Value
import TapeMachine.Expr.Operator
import TapeMachine.Expr.Builtin
import TapeMachine.Expr.Eval
import TapeMachine.Script
import TapeMachine.Listing
import TapeMachine.Source
import TapeMachine.Assembler.Error
import TapeMachine.Assembler.Literal
import TapeMachine.Assembler.Operand
import TapeMachine.Assembler
import TapeMachine.Pairs
import TapeMachine.Sink
import TapeMachine.Files
import TapeMachine.Image
import TapeMachine.Channel
import TapeMachine.Emulator
import TapeMachine.Text.Quoted
import TapeMachine.CommandLine.Options
import TapeMachine.CommandLine
import TapeMachine.Main
import TapeMachine.Text.Printable
import TapeMachine.Text.Utf8
import TapeMachine.Proofs.Address
import TapeMachine.Proofs.TapeMemory
import TapeMachine.Proofs.PlainMachine
import TapeMachine.Proofs.Execution
import TapeMachine.Proofs.Simulation
import TapeMachine.Proofs.Assembled
import TapeMachine.Proofs.Course
import TapeMachine.Proofs.Layout
import TapeMachine.Proofs.ReadingLayout
import TapeMachine.Proofs.EmulatorRun
import TapeMachine.Proofs.Numerals
import TapeMachine.Proofs.TextParts
import TapeMachine.Proofs.PlainLines
import TapeMachine.Proofs.WrittenListing
import TapeMachine.Proofs.Linking
import TapeMachine.Proofs.Paths
import TapeMachine.Proofs.SavedImage
import TapeMachine.Proofs.CompiledRun
import TapeMachine.Proofs.QueueOrder
import TapeMachine.Proofs.FreshStart
import TapeMachine.Proofs.AssemblerHistory
import TapeMachine.Proofs.DefinedLabels
import TapeMachine.Proofs.LocalLabels
import TapeMachine.Proofs.PlainFaults
import TapeMachine.Proofs.Faults
import TapeMachine.Proofs.SpareInput
import TapeMachine.Proofs.Suspension
import TapeMachine.Proofs.ReplacedWords
import TapeMachine.Proofs.MacroCalls
import TapeMachine.Proofs.EquateScope
import TapeMachine.Proofs.FirstFailure
import TapeMachine.Proofs.EquatedOperands
import TapeMachine.Proofs.SplicedLines
import TapeMachine.Proofs.ExpressionScript
import TapeMachine.Proofs.ExpressionValues
import TapeMachine.Proofs.ErrorPlace
import TapeMachine.Proofs.Delivery
import TapeMachine.Proofs.SourceLines
import TapeMachine.Proofs.MissingLabels
import TapeMachine.Proofs.CharacterCodes
import TapeMachine.Proofs.Decoding
import TapeMachine.Proofs.ImageGrammar
import TapeMachine.Proofs.TextReplay
import TapeMachine.Proofs.ListedCells
import TapeMachine.Proofs.TapeExtent
import TapeMachine.Proofs.ListingViews
import TapeMachine.Proofs.Links

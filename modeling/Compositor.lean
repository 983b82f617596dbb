import Compositor.Declaration.Basic
import Compositor.Declaration.Builtin
import Compositor.Declaration.Sheet
import Compositor.Diagnostic.Argument
import Compositor.Diagnostic.Basic
import Compositor.Diagnostic.Fault
import Compositor.Diagnostic.German
import Compositor.Diagnostic.Kind
import Compositor.Engine.Arguments
import Compositor.Engine.Box
import Compositor.Engine.Command
import Compositor.Engine.Conditional
import Compositor.Engine.Define
import Compositor.Engine.Execution
import Compositor.Engine.Expansion
import Compositor.Engine.Files
import Compositor.Engine.Group
import Compositor.Engine.Input
import Compositor.Engine.Procedure
import Compositor.Engine.Quantity
import Compositor.Engine.Read
import Compositor.Engine.Register
import Compositor.Engine.Report
import Compositor.Engine.Run
import Compositor.Engine.State
import Compositor.Font.Basic
import Compositor.Font.Face
import Compositor.Font.Name
import Compositor.Font.Registry
import Compositor.Language
import Compositor.Material.Node
import Compositor.Material.Typesetter
import Compositor.Meaning.Basic
import Compositor.Meaning.Definition
import Compositor.Meaning.Primitive
import Compositor.Measure.Dimen
import Compositor.Measure.Glue
import Compositor.Measure.Scaled
import Compositor.Proofs.Engine.Branching
import Compositor.Proofs.Engine.Conduct
import Compositor.Proofs.Engine.Constants
import Compositor.Proofs.Engine.Expanding
import Compositor.Proofs.Engine.Frozen
import Compositor.Proofs.Engine.Parsing
import Compositor.Proofs.Engine.Printed
import Compositor.Proofs.Engine.Proper
import Compositor.Proofs.Engine.Protocol
import Compositor.Proofs.Engine.Reading
import Compositor.Proofs.Engine.Running
import Compositor.Proofs.Engine.Runs
import Compositor.Proofs.Engine.Safety
import Compositor.Proofs.Engine.Scanning
import Compositor.Proofs.Engine.Shelter
import Compositor.Proofs.Engine.Steps
import Compositor.Proofs.Engine.Substitution
import Compositor.Proofs.Engine.Words
import Compositor.Proofs.Engine.Nesting
import Compositor.Proofs.Engine.Working
import Compositor.Proofs.Measure.Decimals
import Compositor.Proofs.Scope.Snapshots
import Compositor.Proofs.Token.Braces
import Compositor.Scope.Bindings
import Compositor.Scope.Calendar
import Compositor.Scope.Conditional
import Compositor.Scope.Context
import Compositor.Scope.Interaction
import Compositor.Scope.Key
import Compositor.Settings
import Compositor.Style
import Compositor.Text.Blank
import Compositor.Text.CaseMap
import Compositor.Text.Decimal
import Compositor.Text.Digit
import Compositor.Text.Letter
import Compositor.Text.Path
import Compositor.Text.Printable
import Compositor.Text.Progression
import Compositor.Text.Quoted
import Compositor.Text.Roman
import Compositor.Token.Basic
import Compositor.Token.Catcode
import Compositor.Token.Locator
import Compositor.Token.Tokenizer
import Compositor.Proofs.Material.Conservation
import Compositor.Proofs.Engine.Refusal
import Compositor.Proofs.Engine.Separation
import Compositor.Proofs.Engine.Transcript
import Compositor.Proofs.Engine.Deeds
import Compositor.Proofs.Engine.Magnification
import Compositor.Proofs.Engine.Observers
import Compositor.Proofs.Engine.Boxes
import Compositor.Proofs.Engine.Pairing
import Compositor.Proofs.Font.Requests
import Compositor.Proofs.Engine.Legality
import Compositor.Proofs.Engine.Records
import Compositor.Proofs.Measure.Units
import Compositor.Proofs.Engine.Noted
import Compositor.Proofs.Measure.Texts
import Compositor.Proofs.Engine.TrueUnits
import Compositor.Proofs.Engine.Multiples
import Compositor.Proofs.Measure.Rounding
import Compositor.Proofs.Engine.Numerals
import Compositor.Proofs.Engine.Arithmetic
import Compositor.Proofs.Engine.Groups
import Compositor.Proofs.Engine.Handling
import Compositor.Proofs.Engine.Sparing
import Compositor.Proofs.Engine.GlueArithmetic
import Compositor.Proofs.Engine.Paragraphs
import Compositor.Proofs.Engine.Meanings
import Compositor.Proofs.Engine.Names
import Compositor.Proofs.Engine.Selectors
import Compositor.Proofs.Engine.Deliveries
import Compositor.Proofs.Scope.Deferred
import Compositor.Proofs.Token.Progress
import Compositor.Proofs.Token.Spacing
import Compositor.Proofs.Token.LineEnds
import Compositor.Proofs.Token.Written
import Compositor.Proofs.Engine.Copies
import Compositor.Proofs.Engine.Skipping
import Compositor.Proofs.Engine.Keywords
import Compositor.Proofs.Engine.Grouping
import Compositor.Proofs.Text.Roman
import Compositor.Proofs.Engine.CaseChange
import Compositor.Proofs.Engine.InputStack
import Compositor.Proofs.Engine.WellFormed
import Compositor.Proofs.Material.Packing
import Compositor.Proofs.Engine.Closing

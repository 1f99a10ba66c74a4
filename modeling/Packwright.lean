import Packwright.Files.Tree
import Packwright.Machine.Run
import Packwright.Main
import Packwright.Tree.Literal
import Packwright.Proofs.Numerals
import Packwright.Proofs.Folding
import Packwright.Proofs.Lines
import Packwright.Proofs.Running
import Packwright.Proofs.Cleanup
import Packwright.Proofs.Growth
import Packwright.Proofs.Parts
import Packwright.Proofs.Walk
import Packwright.Proofs.Generation
import Packwright.Proofs.Guard
import Packwright.Proofs.Once
import Packwright.Proofs.Return
import Packwright.Proofs.Core.Language
import Packwright.Proofs.Core.Variables
import Packwright.Proofs.Core.Computing
import Packwright.Proofs.Core.Trees
import Packwright.Proofs.Core.Numbers
import Packwright.Proofs.Core.Truths
import Packwright.Proofs.Core.Simulation
import Packwright.Proofs.Core.Loops
import Packwright.Proofs.Alternative
import Packwright.Proofs.Loop
import Packwright.Proofs.LoopReturn
import Packwright.Proofs.Core.Statements
import Packwright.Proofs.Core.Finish
import Packwright.Proofs.Parsing.Reading
import Packwright.Proofs.Parsing.Passage
import Packwright.Proofs.Parsing.Logic
import Packwright.Proofs.Parsing.Trees
import Packwright.Proofs.Parsing.Grammar
import Packwright.Proofs.Parsing.Expressions
import Packwright.Proofs.Parsing.Statements
import Packwright.Proofs.Parsing.Built
import Packwright.Proofs.Parsing.Checked
import Packwright.Proofs.Parsing.Identifiers
import Packwright.Proofs.Core.Kinds
import Packwright.Proofs.Core.Sources
import Packwright.Proofs.Fresh
import Packwright.Proofs.Rules
import Packwright.Proofs.Scopes
import Packwright.Proofs.Progress
import Packwright.Proofs.Visible
import Packwright.Proofs.Token.Lossless
import Packwright.Proofs.Parsing.Sourced
import Packwright.Proofs.Places.States
import Packwright.Proofs.Places.Trees
import Packwright.Proofs.Places.Analysis
import Packwright.Proofs.Functions
import Packwright.Proofs.Appending
import Packwright.Proofs.OneLine.Texts
import Packwright.Proofs.OneLine.Generation
import Packwright.Proofs.OneLine.Statements
import Packwright.Proofs.Token.Shapes
import Packwright.Proofs.OneLine.Sources
import Packwright.Proofs.Literal.Lexemes
import Packwright.Proofs.Literal.Spelling
import Packwright.Proofs.Literal.Reading
import Packwright.Proofs.Literal.RoundTrip
import Packwright.Proofs.Comparisons
import Packwright.Proofs.Arithmetic
import Packwright.Proofs.ShortCircuit
import Packwright.Proofs.Braces.Depth
import Packwright.Proofs.Braces.Failures
import Packwright.Proofs.Braces.Recovery
import Packwright.Proofs.Rounds
import Packwright.Proofs.Precedence.Trees
import Packwright.Proofs.Precedence.Reading
import Packwright.Proofs.CleanupFixpoint
import Packwright.Proofs.Transparent
import Packwright.Proofs.Ending
import Packwright.Proofs.Literal.Scalars
import Packwright.Proofs.Token.Newlines
import Packwright.Proofs.Token.Bytes

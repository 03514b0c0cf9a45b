import Jack.CommandLine.FileTree
import Jack.CommandLine.Program
import Jack.Main
import Jack.Proofs.Compiler.SinglePass
import Jack.Proofs.Flow.Compiled
import Jack.Proofs.Machine.Compiled
import Jack.Proofs.Machine.Assignment
import Jack.Proofs.Lockstep.Coupling
import Jack.Proofs.Lockstep.Expression
import Jack.Proofs.Lockstep.Class
import Jack.Proofs.Translation.TailReturn
import Jack.Proofs.Compiler.TailReturn
import Jack.Proofs.Translation.LocalLabels
import Jack.Proofs.Compiler.Labels
import Jack.Proofs.Compiler.Independence
import Jack.Proofs.Stack.Height
import Jack.Proofs.Stack.Parts
import Jack.Proofs.Stack.Region
import Jack.Proofs.Stack.Statement
import Jack.Proofs.Stack.Compiled
import Jack.Proofs.Names.Slots
import Jack.Proofs.Translation.Operands
import Jack.Proofs.Lexer.Gap
import Jack.Proofs.Lexer.Longest
import Jack.Proofs.Lexer.Exact
import Jack.Proofs.Lexer.Successive
import Jack.Proofs.Compiler.Slots
import Jack.Proofs.Compiler.Constants
import Jack.Proofs.Compiler.EarliestError
import Jack.Proofs.Compiler.Layout
import Jack.Proofs.Names.Operations
import Jack.Proofs.Stream.LookAhead
import Jack.Proofs.Redeclaration.Strict
import Jack.Proofs.Redeclaration.Scan
import Jack.Proofs.Redeclaration.Cause
import Jack.Proofs.Redeclaration.Body
import Jack.Proofs.Compiler.Redeclarations
import Jack.Proofs.Compiler.Causes
import Jack.Proofs.Lexer.Printing
import Jack.Proofs.Listing.Reader
import Jack.Proofs.Listing.Names
import Jack.Proofs.Compiler.Decoding
import Jack.Proofs.Names.Written
import Jack.Proofs.Renaming.Tree
import Jack.Proofs.Renaming.Names
import Jack.Proofs.Renaming.Code
import Jack.Proofs.Compiler.Renaming
import Jack.Proofs.CommandLine.AllOrNothing
import Jack.Proofs.Compiler.Termination
import Jack.Proofs.Text.Line
import Jack.Proofs.Listing.Capacity
import Jack.Proofs.Compiler.StringConstants

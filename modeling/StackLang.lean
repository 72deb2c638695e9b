import StackLang.Build.Compile
import StackLang.Build.Error
import StackLang.Build.Run
import StackLang.Build.Toolchain
import StackLang.Command.Arguments
import StackLang.Command.Run
import StackLang.Files.Basic
import StackLang.Files.Edit
import StackLang.Machine.Basic
import StackLang.Machine.Cell
import StackLang.Machine.Primitive
import StackLang.Machine.Run
import StackLang.Machine.Text
import StackLang.Main
import StackLang.Module
import StackLang.Number.Binary
import StackLang.Number.Function
import StackLang.Number.General
import StackLang.Number.Reading
import StackLang.Output.CName
import StackLang.Output.Code
import StackLang.Output.Generate
import StackLang.Output.Layout
import StackLang.Output.Lower
import StackLang.Output.Support
import StackLang.Path
import StackLang.Report.Diagnostic
import StackLang.Report.Json
import StackLang.Settings.Basic
import StackLang.Settings.Load
import StackLang.SourceUnit
import StackLang.Symbol.Analysis
import StackLang.Symbol.Basic
import StackLang.SyntaxError
import StackLang.Text.CharClass
import StackLang.Text.Position
import StackLang.Text.Source
import StackLang.Text.Utf8
import StackLang.Token.Basic
import StackLang.Token.Expansion
import StackLang.Token.Lexeme
import StackLang.Token.Scanner
import StackLang.Token.Stream
import StackLang.Toml.Document
import StackLang.Toml.Scalar
import StackLang.Toml.Value
import StackLang.Tree.Basic
import StackLang.Tree.Body
import StackLang.Tree.Call
import StackLang.Tree.Cursor
import StackLang.Tree.Parse
import StackLang.Proofs.Grammar
import StackLang.Proofs.Parsing
import StackLang.Proofs.CodeErrors
import StackLang.Proofs.References
import StackLang.Proofs.Scanning
import StackLang.Proofs.Resolution
import StackLang.Proofs.Stack
import StackLang.Proofs.WholeNumbers
import StackLang.Proofs.StackText
import StackLang.Proofs.Turns
import StackLang.Proofs.Discovery
import StackLang.Proofs.FileNames
import StackLang.Proofs.Writing
import StackLang.Proofs.Outputs
import StackLang.Proofs.Declarations
import StackLang.Proofs.Collection
import StackLang.Proofs.ReferenceCheck
import StackLang.Proofs.Acceptance
import StackLang.Proofs.EndOfInput
import StackLang.Proofs.CNames
import StackLang.Proofs.CanonicalPaths
import StackLang.Proofs.Searching
import StackLang.Proofs.ImportClosure
import StackLang.Proofs.MachineBounds
import StackLang.Proofs.GeneratedCode
import StackLang.Proofs.SpelledCode
import StackLang.Proofs.Identifiers
import StackLang.Proofs.Referents
import StackLang.Proofs.FunctionScopes
import StackLang.Proofs.SourceLines
import StackLang.Proofs.DefinedNames
import StackLang.Proofs.SameMeaning
import StackLang.Proofs.UnitOrder
import StackLang.Proofs.Braces
import StackLang.Proofs.Slices
import StackLang.Proofs.Lexemes
import StackLang.Proofs.Tiling
import StackLang.Proofs.Relexing
import StackLang.Proofs.Words
import StackLang.Proofs.CleanCode
import StackLang.Proofs.BalancedCode
import StackLang.Proofs.AddedModule
import StackLang.Proofs.ForeignDeclarations
import StackLang.Proofs.ImportHeaders
import StackLang.Proofs.ImportTokens
import StackLang.Proofs.Spellings
import StackLang.Proofs.FileChanges
import StackLang.Proofs.KeptDirectories
import StackLang.Proofs.MadeDirectories
import StackLang.Proofs.ExpandedText
import StackLang.Proofs.DeferredCalls
import StackLang.Proofs.NumberConstants
import StackLang.Proofs.EnteredLoops
import StackLang.Proofs.Separation
import StackLang.Proofs.FileDirective
import StackLang.Proofs.StackLayout
import StackLang.Proofs.Rotations
import StackLang.Proofs.Reductions
import StackLang.Proofs.CodeBlocks
import StackLang.Proofs.Respacing
import StackLang.Proofs.LongestNumerals
import StackLang.Proofs.MissingEnd
import StackLang.Proofs.StatementSpans
import StackLang.Proofs.Substitution
import StackLang.Proofs.ReadPositions
import StackLang.Proofs.MalformedText
import StackLang.Proofs.Preprocessing
import StackLang.Proofs.IncludeGuards

import TagCalls.Attribute
import TagCalls.CommandLine
import TagCalls.Config.Comment
import TagCalls.Config.File
import TagCalls.Config.Load
import TagCalls.Config.Settings
import TagCalls.Diagnostic.Basic
import TagCalls.Diagnostic.Position
import TagCalls.Diagnostic.Report
import TagCalls.Directive
import TagCalls.Glob.Basic
import TagCalls.Glob.Parser
import TagCalls.Json.Basic
import TagCalls.Json.Reader
import TagCalls.Lowering.Nested
import TagCalls.Lowering.Passes
import TagCalls.Main
import TagCalls.Page.Element
import TagCalls.Page.Emitter
import TagCalls.Page.Locate
import TagCalls.Page.Process
import TagCalls.Run.File
import TagCalls.Run.Outcome
import TagCalls.Run.Plan
import TagCalls.Run.Warning
import TagCalls.Script.Expr
import TagCalls.Script.Expression
import TagCalls.Script.Function
import TagCalls.Script.Grammar
import TagCalls.Script.Letter
import TagCalls.Script.Lexer
import TagCalls.Script.Number
import TagCalls.Script.Reader
import TagCalls.Script.Statement
import TagCalls.Script.Token
import TagCalls.Span
import TagCalls.Style.Hash
import TagCalls.Style.Sheet
import TagCalls.Tag.Basic
import TagCalls.Tag.Pattern
import TagCalls.Tag.Scanner
import TagCalls.Text.Basic
import TagCalls.Text.Blank
import TagCalls.Text.Fold
import TagCalls.Text.Hidden
import TagCalls.Text.Pattern
import TagCalls.Text.Quoted
import TagCalls.Text.Units
import TagCalls.Transpile.Check
import TagCalls.Transpile.Error
import TagCalls.Transpile.Session
import TagCalls.Workspace.Path
import TagCalls.Workspace.Source
import TagCalls.Workspace.Tree
import TagCalls.Proofs.Tag.Body
import TagCalls.Proofs.Tag.Reading
import TagCalls.Proofs.Tag.Next
import TagCalls.Proofs.Tag.Loop
import TagCalls.Proofs.Tag.Progress
import TagCalls.Proofs.Tag.Walk
import TagCalls.Proofs.Tag.Slice
import TagCalls.Proofs.Tag.Pieces
import TagCalls.Proofs.Lowering.Balance
import TagCalls.Proofs.Lowering.Problem
import TagCalls.Proofs.Markup.Attribute
import TagCalls.Proofs.Attribute
import TagCalls.Proofs.Markup.Forest
import TagCalls.Proofs.Tag.Pattern
import TagCalls.Proofs.Lowering.Agreement
import TagCalls.Proofs.Page.Document
import TagCalls.Proofs.Page.Emitted
import TagCalls.Proofs.Page.Diagnostic
import TagCalls.Proofs.Page.Process
import TagCalls.Proofs.Run.Result
import TagCalls.Proofs.Run.Course
import TagCalls.Proofs.Run.Account
import TagCalls.Proofs.Workspace.Path
import TagCalls.Proofs.Workspace.Walk
import TagCalls.Proofs.Glob
import TagCalls.Proofs.Run.Target
import TagCalls.Proofs.Workspace.Spread
import TagCalls.Proofs.Run.Workers
import TagCalls.Proofs.Run.Apart
import TagCalls.Proofs.Style.Sheet
import TagCalls.Proofs.Style.Clients
import TagCalls.Proofs.Style.Hash
import TagCalls.Proofs.Style.Numeral
import TagCalls.Proofs.Lowering.Quoting
import TagCalls.Proofs.Page.Fallback
import TagCalls.Proofs.Workspace.Growth
import TagCalls.Proofs.Run.Again
import TagCalls.Proofs.Text.Leftmost
import TagCalls.Proofs.Lowering.Substitution
import TagCalls.Proofs.Lowering.Rematch
import TagCalls.Proofs.Page.Located
import TagCalls.Proofs.Page.Placement
import TagCalls.Proofs.Page.Calls
import TagCalls.Proofs.Text.Blank
import TagCalls.Proofs.Text.Language
import TagCalls.Proofs.Attribute.Spelling
import TagCalls.Proofs.Attribute.Junk
import TagCalls.Proofs.Directive
import TagCalls.Proofs.Transpile.Comment
import TagCalls.Proofs.Config.Part
import TagCalls.Proofs.Config.Comment
import TagCalls.Proofs.Lowering.Slices
import TagCalls.Proofs.Diagnostic.Position

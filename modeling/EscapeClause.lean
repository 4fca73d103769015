import EscapeClause.Text.Blank
import EscapeClause.Text.Line
import EscapeClause.Text.Mark
import EscapeClause.Fault
import EscapeClause.Keyword
import EscapeClause.Literal
import EscapeClause.Clause.Item
import EscapeClause.Cursor
import EscapeClause.Clause.Nesting
import EscapeClause.NativeText
import EscapeClause.Json.Fault
import EscapeClause.Json.Quoted
import EscapeClause.Json.Number
import EscapeClause.Json.Value
import EscapeClause.Config
import EscapeClause.Log
import EscapeClause.Session.Basic
import EscapeClause.Session.Client
import EscapeClause.CommandLine.Options
import EscapeClause.CommandLine.Run
import EscapeClause.Main
import EscapeClause.Proofs.Grammar
import EscapeClause.Proofs.Acceptance
import EscapeClause.Proofs.Blanking
import EscapeClause.Proofs.Idempotence
import EscapeClause.Proofs.Nesting
import EscapeClause.Proofs.Passage
import EscapeClause.Proofs.Composition
import EscapeClause.Proofs.Places
import EscapeClause.Proofs.Stop
import EscapeClause.Proofs.Cause
import EscapeClause.Proofs.Completion
import EscapeClause.Proofs.Decided
import EscapeClause.Proofs.Renaming.Classes
import EscapeClause.Proofs.Renaming
import EscapeClause.Proofs.Rewriter
import EscapeClause.Proofs.Rewriter.Steps
import EscapeClause.Proofs.Rewriter.Safety
import EscapeClause.Proofs.Rewriter.Agreement
import EscapeClause.Proofs.Rewriter.Trail
import EscapeClause.Proofs.Contents
import EscapeClause.Proofs.LexicalView
import EscapeClause.Proofs.Session.Closing
import EscapeClause.Proofs.CommandLine.Printing
import EscapeClause.Proofs.Diagnostic
import EscapeClause.Proofs.Literal.Ends
import EscapeClause.Proofs.Cursor.Steps
import EscapeClause.Proofs.Cursor.Boundary
import EscapeClause.Proofs.Diagnostic.LineEnds
import EscapeClause.Proofs.Json.Quoted
import EscapeClause.Proofs.Json.Number
import EscapeClause.Proofs.Json.Value
import EscapeClause.Proofs.Config
import EscapeClause.Proofs.PassThrough
import EscapeClause.Proofs.Session.ReturnValue
import EscapeClause.Proofs.Session.Logging
import EscapeClause.Proofs.Json.Record

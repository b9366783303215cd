import ScriptFront.Lexeme.Cursor
import ScriptFront.Parse.Session
import ScriptFront.Scope
import ScriptFront.Tree.Dump
import ScriptFront.Tree.Render
import ScriptFront.Value.Dump
import ScriptFront.Value.HashTable
import ScriptFront.Proofs.Reading.Congruence
import ScriptFront.Proofs.Reading.Forward
import ScriptFront.Proofs.Nesting.Watched
import ScriptFront.Proofs.Nesting.Agreement
import ScriptFront.Proofs.Nesting.Transparency
import ScriptFront.Proofs.Reading.Loop
import ScriptFront.Proofs.Reading.Progress
import ScriptFront.Proofs.Spelling.Basic
import ScriptFront.Proofs.Spelling.Taken
import ScriptFront.Proofs.Spelling.Soundness
import ScriptFront.Proofs.Reading.Attempts
import ScriptFront.Proofs.Spelling.Pieces
import ScriptFront.Proofs.Spelling.Completeness
import ScriptFront.Proofs.Spelling.Program
import ScriptFront.Proofs.Spelling.Minimal
import ScriptFront.Proofs.Rendering.Basic
import ScriptFront.Proofs.Rendering.Overflow
import ScriptFront.Proofs.Rendering.RoundTrip
import ScriptFront.Proofs.Reading.Lookahead
import ScriptFront.Proofs.Spelling.Accepted
import ScriptFront.Proofs.Programs.Concatenation
import ScriptFront.Proofs.Programs.Recovery
import ScriptFront.Proofs.Programs.EndOfInput
import ScriptFront.Proofs.Machine.Basic
import ScriptFront.Proofs.Machine.Simulation
import ScriptFront.Proofs.Machine.Invariant
import ScriptFront.Proofs.Lexemes.Language
import ScriptFront.Proofs.Lexemes.First
import ScriptFront.Proofs.Lexemes.Munch
import ScriptFront.Proofs.Lexemes.Lines
import ScriptFront.Proofs.Lexemes.WellFormed
import ScriptFront.Proofs.Reading.Blame
import ScriptFront.Proofs.Termination.Clock
import ScriptFront.Proofs.Termination.Cost
import ScriptFront.Proofs.Termination.Program
import ScriptFront.Proofs.Programs.Positions
import ScriptFront.Proofs.Scopes.History
import ScriptFront.Proofs.Scopes.Lookup
import ScriptFront.Proofs.Sessions.Lookahead
import ScriptFront.Proofs.Branches.Basic
import ScriptFront.Proofs.Branches.Limit
import ScriptFront.Proofs.Branches.Program
import ScriptFront.Proofs.Lexemes.Cursor
import ScriptFront.Proofs.Lexemes.Escapes
import ScriptFront.Proofs.Lexemes.Walk
import ScriptFront.Proofs.Lexemes.Failure
import ScriptFront.Proofs.Tables.Order
import ScriptFront.Proofs.Tables.Pairs
import ScriptFront.Proofs.Tables.ByteOrder
import ScriptFront.Proofs.Tables.Canonical
import ScriptFront.Proofs.Reading.Seen
import ScriptFront.Proofs.Sessions.Registration
import ScriptFront.Proofs.Sessions.Climbing
import ScriptFront.Proofs.Spelling.Closing

import Quill.Bindings
import Quill.Command
import Quill.Diagnostic
import Quill.Evaluation
import Quill.Fault
import Quill.Grammar.Program
import Quill.Json
import Quill.Machine
import Quill.Main
import Quill.Number.Layout
import Quill.Scoping
import Quill.Sink
import Quill.Store
import Quill.Text.Quoted
import Quill.Text.Utf8
import Quill.Token.Lexer
import Quill.Tree.Cpp
import Quill.Tree.Dump
import Quill.Tree.Sexpr
import Quill.Value
import Quill.Proofs.Evaluation.Overflow
import Quill.Proofs.Evaluation.Termination
import Quill.Proofs.Grammar.Completeness
import Quill.Proofs.Grammar.Recovery
import Quill.Proofs.Grammar.Soundness
import Quill.Proofs.Scoping.Guarantees
import Quill.Proofs.Token.Decomposition
import Quill.Proofs.Grammar.Views
import Quill.Proofs.Evaluation.PairedRuns
import Quill.Proofs.Grammar.LexicalFaults
import Quill.Proofs.Lines.Layout
import Quill.Proofs.Evaluation.Extension
import Quill.Proofs.Grammar.Concatenation
import Quill.Proofs.Store.Histories
import Quill.Proofs.Evaluation.Output
import Quill.Proofs.Evaluation.Independence
import Quill.Proofs.Receivers.This
import Quill.Proofs.Scoping.Checking
import Quill.Proofs.Evaluation.Attribution
import Quill.Proofs.Tree.Chunks
import Quill.Proofs.Tree.CppStructure
import Quill.Proofs.Number.ReadBack
import Quill.Proofs.Tree.SexpText
import Quill.Proofs.Tree.SexpReading
import Quill.Proofs.Token.Separation
import Quill.Proofs.Token.Lines
import Quill.Proofs.Number.Canonical
import Quill.Proofs.Tree.Braces
import Quill.Proofs.Evaluation.InnerScopes
import Quill.Proofs.Evaluation.BracedRuns
import Quill.Proofs.Grammar.Boundaries
import Quill.Proofs.Tree.CppLayout
import Quill.Proofs.Token.ByteOffsets

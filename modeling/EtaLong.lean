import EtaLong.Main
import EtaLong.Program.Session
import EtaLong.Proofs.Substitution
import EtaLong.Proofs.Conversion
import EtaLong.Proofs.Value.BigStep
import EtaLong.Proofs.Realizability
import EtaLong.Proofs.Fundamental
import EtaLong.Proofs.Value.Typing
import EtaLong.Proofs.Normalization
import EtaLong.Proofs.Term.Normal
import EtaLong.Proofs.NormalForm
import EtaLong.Proofs.Expr.Shorthand
import EtaLong.Proofs.Elaboration
import EtaLong.Proofs.Program.Evaluation
import EtaLong.Proofs.Program
import EtaLong.Proofs.Program.Coherence
import EtaLong.Proofs.Program.LetExpansion
import EtaLong.Proofs.Elaboration.Renaming
import EtaLong.Proofs.Program.Renaming
import EtaLong.Proofs.Program.Unused
import EtaLong.Proofs.Sexp
import EtaLong.Proofs.Sexp.Locality
import EtaLong.Proofs.Sexp.Grammar
import EtaLong.Proofs.Sexp.Joined
import EtaLong.Proofs.Expr.Parts
import EtaLong.Proofs.Expr.Parser
import EtaLong.Proofs.Elaboration.Places
import EtaLong.Proofs.Program.Growth
import EtaLong.Proofs.Sexp.Layout
import EtaLong.Proofs.Elaboration.Layout
import EtaLong.Proofs.Program.Layout
import EtaLong.Proofs.Program.Reports
import EtaLong.Proofs.Expr.Printed
import EtaLong.Proofs.Term.Printed
import EtaLong.Proofs.Elaboration.Printed
import EtaLong.Proofs.Value.Atoms
import EtaLong.Proofs.Elaboration.Atoms
import EtaLong.Proofs.Program.Printed
import EtaLong.Proofs.Program.Exchange
import EtaLong.Proofs.Extensionality
import EtaLong.Proofs.Canonicity
import EtaLong.Proofs.Command
import EtaLong.Proofs.Elaboration.Modes
import EtaLong.Proofs.Typing.Decision
import EtaLong.Proofs.Value.Rules
import EtaLong.Proofs.Typing.Weakening
import EtaLong.Proofs.Normalization.Weakening
import EtaLong.Proofs.Ty
import EtaLong.Proofs.Typing.Mismatch
import EtaLong.Proofs.Expr.Expansion
import EtaLong.Proofs.Expr.Cells
import EtaLong.Proofs.Report
import EtaLong.Proofs.Token.Delimiting
import EtaLong.Proofs.Value.Naturality
import EtaLong.Proofs.Token.Runs
import EtaLong.Proofs.Value.Reading

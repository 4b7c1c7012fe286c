import Scriptorium.Main
import Scriptorium.Proofs.Backtrace
import Scriptorium.Proofs.JoinedPrograms
import Scriptorium.Proofs.Locations
import Scriptorium.Proofs.SyntaxForest
import Scriptorium.Proofs.Declarations
import Scriptorium.Proofs.FrameGraph
import Scriptorium.Proofs.Returns
import Scriptorium.Proofs.LexicalErrors
import Scriptorium.Proofs.ExpressionTexts
import Scriptorium.Proofs.UnfoldedTexts
import Scriptorium.Proofs.Outlines
import Scriptorium.Proofs.NarrowRuns
import Scriptorium.Proofs.PrintedTexts
import Scriptorium.Proofs.ToldStatements
import Scriptorium.Proofs.StatementSpans
import Scriptorium.Proofs.StatementTexts
import Scriptorium.Proofs.CallScopes
import Scriptorium.Proofs.Literals
import Scriptorium.Proofs.LiteralBodies
import Scriptorium.Proofs.Stepping
import Scriptorium.Proofs.SpacedTexts
import Scriptorium.Proofs.CaretPlacement
import Scriptorium.Proofs.NegationLaws
import Scriptorium.Proofs.ArenaHandles
import Scriptorium.Proofs.NameNumbers
import Scriptorium.Proofs.RunOptions
import Scriptorium.Proofs.ScannerMoves
import Scriptorium.Proofs.SourceLayout

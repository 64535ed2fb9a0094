import Sokoban.Formula.Order
import Sokoban.Host.Memory
import Sokoban.Main
import Sokoban.Proofs.Board.Ahead
import Sokoban.Proofs.Grid.Collections
import Sokoban.Proofs.Model.Firing
import Sokoban.Proofs.Model.LegalRules
import Sokoban.Proofs.Formula.Truth
import Sokoban.Proofs.Model.Formulas
import Sokoban.Proofs.Model.Meaning
import Sokoban.Proofs.Model.Start
import Sokoban.Proofs.Model.Validation
import Sokoban.Proofs.Board.Drawn
import Sokoban.Proofs.Model.Compiled
import Sokoban.Proofs.Model.TransitionRelation
import Sokoban.Proofs.Model.Totality
import Sokoban.Proofs.Play.Basic
import Sokoban.Proofs.Play.SinglePush
import Sokoban.Proofs.Play.WinningBounds
import Sokoban.Proofs.Model.RuleOrder
import Sokoban.Proofs.Model.Winning
import Sokoban.Proofs.Play.Successor
import Sokoban.Proofs.Play.Conservation
import Sokoban.Proofs.Play.Settling
import Sokoban.Proofs.Play.DirectStep
import Sokoban.Proofs.Play.Phases
import Sokoban.Proofs.Play.Deciding
import Sokoban.Proofs.Play.Following
import Sokoban.Proofs.Play.Limits
import Sokoban.Proofs.Play.OneWay
import Sokoban.Proofs.Board.OnlyBox
import Sokoban.Proofs.Play.Restriction
import Sokoban.Proofs.Script.Wording
import Sokoban.Proofs.Text.Delimited
import Sokoban.Proofs.Script.Unambiguous
import Sokoban.Proofs.Model.Moved
import Sokoban.Proofs.Model.Carried
import Sokoban.Proofs.Play.Moved
import Sokoban.Proofs.Play.Symmetry
import Sokoban.Proofs.Board.WalledIn
import Sokoban.Proofs.Play.WalledIn
import Sokoban.Proofs.Host.Ensures
import Sokoban.Proofs.Check.Jobs
import Sokoban.Proofs.Check.Threads
import Sokoban.Proofs.Check.Decomposition
import Sokoban.Proofs.Text.Rows
import Sokoban.Proofs.Board.Reading
import Sokoban.Proofs.Board.RoundTrip
import Sokoban.Proofs.Check.Transcript
import Sokoban.Proofs.Check.InTurn
import Sokoban.Proofs.Check.SinglePair
import Sokoban.Proofs.Formula.WellTyped
import Sokoban.Proofs.Formula.Soundness
import Sokoban.Proofs.Text.Words
import Sokoban.Proofs.Formula.Atoms
import Sokoban.Proofs.Formula.Words
import Sokoban.Proofs.Formula.Outermost
import Sokoban.Proofs.Formula.SameText
import Sokoban.Proofs.Model.Enumeration
import Sokoban.Proofs.Model.Diagnosis
import Sokoban.Proofs.Board.Wrapping
import Sokoban.Proofs.Formula.Operators
import Sokoban.Proofs.Formula.Strictness
import Sokoban.Proofs.Model.Characteristic
import Sokoban.Proofs.Text.Lines
import Sokoban.Proofs.Text.Identifiers
import Sokoban.Proofs.Script.Lines
import Sokoban.Proofs.Script.Names
import Sokoban.Proofs.Script.Shapes
import Sokoban.Proofs.Script.Layout
import Sokoban.Proofs.Host.Alike
import Sokoban.Proofs.Host.Logged
import Sokoban.Proofs.Check.FileNames
import Sokoban.Proofs.Check.Apart
import Sokoban.Proofs.Host.Disk
import Sokoban.Proofs.Check.OnDisk
import Sokoban.Proofs.Check.BothOutputs
import Sokoban.Proofs.Text.Occurrences
import Sokoban.Proofs.Check.Classification
import Sokoban.Proofs.Text.Separators
import Sokoban.Proofs.Formula.Stacked
import Sokoban.Proofs.Script.ReadBack

import ItemScoring.Number.Places
import ItemScoring.Number.Reading
import ItemScoring.Expr.Rendering
import ItemScoring.Dataset
import ItemScoring.Prediction.Session
import ItemScoring.Model.File
import ItemScoring.Tsv.Reading
import ItemScoring.Tsv.Writing
import ItemScoring.DataFile.Loading
import ItemScoring.DataFile.Output
import ItemScoring.Command.Scoring
import ItemScoring.Main
import ItemScoring.Proofs.Model.RoundTrip
import ItemScoring.Proofs.Model.WellFormed
import ItemScoring.Proofs.Tree.Numbered
import ItemScoring.Proofs.Number.Rounding
import ItemScoring.Proofs.Prediction.Locality
import ItemScoring.Proofs.Prediction.Probability
import ItemScoring.Proofs.Prediction.Reachable
import ItemScoring.Proofs.Prediction.Sessions
import ItemScoring.Proofs.Model.RowOrder
import ItemScoring.Proofs.Model.Conservation
import ItemScoring.Proofs.Tree.Selection
import ItemScoring.Proofs.Command.Scoring
import ItemScoring.Proofs.Command.Files
import ItemScoring.Proofs.Command.Shown
import ItemScoring.Proofs.Tree.Visits
import ItemScoring.Proofs.Tree.Refusals
import ItemScoring.Proofs.Model.Refusals
import ItemScoring.Proofs.Tree.Agreement
import ItemScoring.Proofs.Tree.Renumbering
import ItemScoring.Proofs.Expr.Grouping
import ItemScoring.Proofs.Expr.Evaluation
import ItemScoring.Proofs.Prediction.Clashes
import ItemScoring.Proofs.Prediction.Repeating
import ItemScoring.Proofs.Tree.Measures
import ItemScoring.Proofs.Tree.Edges
import ItemScoring.Proofs.DataFile.Output
import ItemScoring.Proofs.DataFile.Equations
import ItemScoring.Proofs.Number.Spelling
import ItemScoring.Proofs.DataFile.Numeric

import Graded.Activity
import Graded.Averaging
import Graded.Clipped
import Graded.ControlSystem
import Graded.Document.Sized
import Graded.Implication
import Graded.Main
import Graded.Nested
import Graded.Proofs.Absence
import Graded.Proofs.Accumulation
import Graded.Proofs.Balance
import Graded.Proofs.Bands
import Graded.Proofs.Confidence
import Graded.Proofs.Defuzzification
import Graded.Proofs.Engine
import Graded.Proofs.Exact
import Graded.Proofs.Failure
import Graded.Proofs.Fallback
import Graded.Proofs.Firing
import Graded.Proofs.Growth
import Graded.Proofs.Inference
import Graded.Proofs.Lifting
import Graded.Proofs.Norm
import Graded.Proofs.Order
import Graded.Proofs.Outcome
import Graded.Proofs.Rearrangement
import Graded.Proofs.Sampling
import Graded.Proofs.Shape
import Graded.Proofs.Stages
import Graded.RuleBase
import Graded.Summary.Quality
import Graded.Wording
import Graded.Proofs.Coverage
import Graded.Proofs.Clipping
import Graded.Proofs.Noninterference
import Graded.Proofs.Mirror
import Graded.Proofs.Editing
import Graded.Proofs.Adding
import Graded.Proofs.Matching
import Graded.Proofs.Duality
import Graded.Proofs.Truth
import Graded.Proofs.Averages
import Graded.Proofs.Fitting
import Graded.Proofs.Leading
import Graded.Proofs.Tiling
import Graded.Proofs.Words
import Graded.Proofs.Grammar
import Graded.Proofs.Reading
import Graded.Proofs.Writing
import Graded.Proofs.Rounding
import Graded.Proofs.Doubles
import Graded.Proofs.Shortest
import Graded.Proofs.Writing.Reals
import Graded.Proofs.Models
import Graded.Proofs.Settling
import Graded.Proofs.Records
import Graded.Proofs.LowerCase
import Graded.Proofs.Similarity
import Graded.Proofs.Finding
import Graded.Proofs.Relevance
import Graded.Proofs.Arranging
import Graded.Proofs.Scores
import Graded.Proofs.Wording
import Graded.Proofs.Trends
import Graded.Proofs.Weighing
import Graded.Proofs.Guidance
import Graded.Proofs.Ratings
import Graded.Proofs.Leanings
import Graded.Proofs.Accuracy
import Graded.Proofs.Comparable
import Graded.Proofs.Ranking
import Graded.Proofs.Means
import Graded.Proofs.Activities
import Graded.Proofs.Strength
import Graded.Proofs.Bisector
import Graded.Proofs.Rescaling
import Graded.Proofs.Outputs
import Graded.Proofs.Compensation
import Graded.Proofs.Drawing
import Graded.Proofs.Cores
import Graded.Proofs.Answers

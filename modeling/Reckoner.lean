import Reckoner.Editor.Session
import Reckoner.Editor.View
import Reckoner.Main
import Reckoner.Proofs.LineMemory
import Reckoner.Proofs.Readers
import Reckoner.Proofs.RegistryRuns
import Reckoner.Proofs.LineEdits
import Reckoner.Proofs.RegistryView
import Reckoner.Proofs.NestingDepth
import Reckoner.Proofs.TallestLines
import Reckoner.Proofs.EvaluationLimits
import Reckoner.Proofs.FreshResults
import Reckoner.Proofs.Grammar
import Reckoner.Proofs.GreedyReading
import Reckoner.Proofs.DefinedDoubles
import Reckoner.Proofs.UnitAlgebra
import Reckoner.Proofs.Preservation
import Reckoner.Proofs.NamedUnits
import Reckoner.Proofs.WellFormedValues
import Reckoner.Proofs.Recency
import Reckoner.Proofs.CacheTraces
import Reckoner.Proofs.SharedReadings
import Reckoner.Proofs.DepthLimits
import Reckoner.Proofs.FlatText
import Reckoner.Proofs.Printing
import Reckoner.Proofs.PrintedText
import Reckoner.Proofs.ExactArithmetic
import Reckoner.Proofs.UnitGroup
import Reckoner.Proofs.UnitText
import Reckoner.Proofs.StandardRules
import Reckoner.Proofs.UnitReadBack
import Reckoner.Proofs.DecodedDoubles
import Reckoner.Proofs.ShownNumbers
import Reckoner.Proofs.NearestDoubles
import Reckoner.Proofs.RoundedDoubles
import Reckoner.Proofs.DoubleArithmetic
import Reckoner.Proofs.InfiniteDoubles
import Reckoner.Proofs.NearEquality
import Reckoner.Proofs.DateComparison
import Reckoner.Proofs.ComparisonOrder
import Reckoner.Proofs.ExponentRange
import Reckoner.Proofs.DateShifts
import Reckoner.Proofs.DateDifferences
import Reckoner.Proofs.DisplayUnits
import Reckoner.Proofs.Commutation
import Reckoner.Proofs.CrossRates
import Reckoner.Proofs.TrailingTokens
import Reckoner.Proofs.DelimitedText
import Reckoner.Proofs.LevelCosts
import Reckoner.Proofs.LineOutcomes
import Reckoner.Proofs.ParameterNames
import Reckoner.Proofs.RepeatedPasses
import Reckoner.Proofs.CursorPlaces
import Reckoner.Proofs.UnsavedChanges
import Reckoner.Proofs.SavedText
import Reckoner.Proofs.NumberText
import Reckoner.Proofs.LatestRates
import Reckoner.Proofs.Comments
import Reckoner.Proofs.RateFreshness
import Reckoner.Proofs.CursorDrawing
import Reckoner.Proofs.Aggregates
import Reckoner.Proofs.AddedRules
import Reckoner.Proofs.KeptRates
import Reckoner.Proofs.FrameStack
import Reckoner.Proofs.BalancedReading
import Reckoner.Proofs.TextCoverage

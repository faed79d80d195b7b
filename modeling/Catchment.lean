import Catchment.Bucket
import Catchment.Cell
import Catchment.Component
import Catchment.DecimalText
import Catchment.Declaration
import Catchment.DependencyOrder
import Catchment.DoubleScalar
import Catchment.Expr
import Catchment.Fault
import Catchment.Fingerprint
import Catchment.FlowGrid
import Catchment.Flux
import Catchment.Forcing
import Catchment.Grid
import Catchment.Hydrograph
import Catchment.Integrator
import Catchment.LawCatalog
import Catchment.Model
import Catchment.Nested
import Catchment.NeuralFlux
import Catchment.NodeValues
import Catchment.Operand
import Catchment.Program
import Catchment.QuotedText
import Catchment.Route
import Catchment.Run
import Catchment.RunData
import Catchment.RungeKutta
import Catchment.SCurve
import Catchment.Scalar
import Catchment.Settings
import Catchment.Signature
import Catchment.StateFlux
import Catchment.Stepper
import Catchment.StrongComponents
import Catchment.Symbolic
import Catchment.Topology
import Catchment.UnitHydrograph
import Catchment.Values
import Catchment.Proofs.Broadcasting
import Catchment.Proofs.Outcomes
import Catchment.Proofs.CellwiseValues
import Catchment.Proofs.FormulaOrder
import Catchment.Proofs.NamedRows
import Catchment.Proofs.CellwisePrograms
import Catchment.Proofs.FixedSteps
import Catchment.Proofs.SampleTimes
import Catchment.Proofs.DoubleOrder
import Catchment.Proofs.ReadGraphs
import Catchment.Proofs.CountedSorts
import Catchment.Proofs.DependencyOrders
import Catchment.Proofs.LeastOrders
import Catchment.Proofs.ExactNumbers
import Catchment.Proofs.FlagFormulas
import Catchment.Proofs.BackendAgreement
import Catchment.Proofs.NameLists
import Catchment.Proofs.ScheduledDeclarations
import Catchment.Proofs.NodeSteps
import Catchment.Proofs.RateFormulas
import Catchment.Proofs.BucketRuns
import Catchment.Proofs.Tributaries
import Catchment.Proofs.DeclaredNames
import Catchment.Proofs.RouteColumns
import Catchment.Proofs.RouteRuns
import Catchment.Proofs.ComposedModels
import Catchment.Proofs.RowCounts
import Catchment.Proofs.WiringByName
import Catchment.Proofs.CellFormats
import Catchment.Proofs.NamedValues
import Catchment.Proofs.NamedRuns
import Catchment.Proofs.MergedBuckets
import Catchment.Proofs.SplitBuckets
import Catchment.Proofs.BucketColumns
import Catchment.Proofs.SymbolicColumns
import Catchment.Proofs.PickedNodes
import Catchment.Proofs.NodewiseRuns
import Catchment.Proofs.NodeArguments
import Catchment.Proofs.IndependentNodes
import Catchment.Proofs.ProgramCaches
import Catchment.Proofs.QuotedTexts
import Catchment.Proofs.FormulaTexts
import Catchment.Proofs.CallTexts
import Catchment.Proofs.CachedRuns
import Catchment.Proofs.NeutralZeros
import Catchment.Proofs.ExactSums
import Catchment.Proofs.PendingShares
import Catchment.Proofs.NodeWeights
import Catchment.Proofs.SpreadMethods
import Catchment.Proofs.SpreadMemory
import Catchment.Proofs.SpreadSettings
import Catchment.Proofs.NodewiseSpreads
import Catchment.Proofs.FlowTotals
import Catchment.Proofs.UpstreamNodes
import Catchment.Proofs.ProgramValues
import Catchment.Proofs.ElementwiseLaws
import Catchment.Proofs.NamedRoutes
import Catchment.Proofs.MassBalance
import Catchment.Proofs.FormattedRuns
import Catchment.Proofs.RouteBuckets
import Catchment.Proofs.RearrangedRates
import Catchment.Proofs.EarlierColumns
import Catchment.Proofs.ProgramStages
import Catchment.Proofs.ForcedPaths
import Catchment.Proofs.AlikeSettings
import Catchment.Proofs.WholeDoubles
import Catchment.Proofs.TimeAxes
import Catchment.Proofs.RestartedRuns
import Catchment.Proofs.NestedModels
import Catchment.Proofs.RefusedRuns
import Catchment.Proofs.ValueFaults
import Catchment.Proofs.LateFaults
import Catchment.Proofs.ExchangedSolvers
import Catchment.Proofs.ReturnedNames
import Catchment.Proofs.InitialColumns
import Catchment.Proofs.ClosedComponents
import Catchment.Proofs.KeptOrders
import Catchment.Proofs.DepthFirstWalks
import Catchment.Proofs.WalkComponents
import Catchment.Proofs.UnboundedWalks
import Catchment.Proofs.AcyclicNetworks
import Catchment.Proofs.RebuiltNetworks
import Catchment.Proofs.ExactArithmetic
import Catchment.Proofs.CurveWeights
import Catchment.Proofs.FlowDirections
import Catchment.Proofs.PolynomialFormulas
import Catchment.Proofs.ParameterSlopes
import Catchment.Proofs.ReportedCycles
import Catchment.Proofs.RoutedVolumes
import Catchment.Proofs.BrokenLines
import Catchment.Proofs.ClassValues
import Catchment.Proofs.InferredRoles
import Catchment.Proofs.TimeSlices
import Catchment.Proofs.EntrywiseLaws
import Catchment.Proofs.ColumnPrograms
import Catchment.Proofs.DecimalTexts
import Catchment.Proofs.DoubleTexts
import Catchment.Proofs.PrintedFormulas
import Catchment.Proofs.AcceptedAxes
import Catchment.Proofs.ExpandedValues
import Catchment.Proofs.RowPlaces

import Pointless.Assertions
import Pointless.CompareOrder
import Pointless.CreateBitvector
import Pointless.EqualHash
import Pointless.ErrorDiscipline
import Pointless.HashCalls
import Pointless.HashTableLookup
import Pointless.Lib.ErrorChannel
import Pointless.Lib.Fuel
import Pointless.Lib.WalkTrace
import Pointless.MarkerExact
import Pointless.Output
import Pointless.PassBounds
import Pointless.PyBitvectorObject
import Pointless.PyLookup
import Pointless.Reporting
import Pointless.TableSound
import Pointless.TreeOrder
import Pointless.VectorCompression
import Pointless.CreateShape
import Pointless.Prepare
import Pointless.TableFill
import Pointless.Lib.Placement
import Pointless.WrittenFile
import Pointless.ObjectBytes
import Pointless.Layout
import Pointless.HeapLayout
import Pointless.NarrowVectors
import Pointless.CustomSort
import Pointless.CustomSortRun
import Pointless.CustomSortPartition
import Pointless.CustomSortSound
import Pointless.CustomSortReports
import Pointless.PySortProj
import Pointless.PySortProjSound
import Pointless.ReaderHelpers
import Pointless.NativeLookup
import Pointless.StringLookup
import Pointless.AcyclicCompare
import Pointless.AcyclicLookup
import Pointless.EvalPath
import Pointless.EvalMap
import Pointless.EvalVector
import Pointless.EvalWalk
import Pointless.IntEval
import Pointless.Lib.Postfix
import Pointless.IntExpr
import Pointless.IntCompile
import Pointless.IntDescent
import Pointless.IntEvalSound
import Pointless.PyFileVectorSlices
import Pointless.PyPrimVectorAssign
import Pointless.PyExtrema
import Pointless.PyPrimVectorList
import Pointless.PyPrimVector
import Pointless.PyPrimVectorItems
import Pointless.PyPrimVectorMethods
import Pointless.PyPrimVectorGrowth
import Pointless.PyPrimVectorSerialize
import Pointless.PyPrimVectorBulk
import Pointless.CustomSortKeeps
import Pointless.PyPrimVectorSystem
import Pointless.PyPrimVectorExports
import Pointless.PyExport
import Pointless.PyExportText
import Pointless.IntCompileExact
import Pointless.Lib.Attempts
import Pointless.Lib.Unfolding
import Pointless.Recreate
import Pointless.RecreateReads
import Pointless.RecreateCalls
import Pointless.CreateGrowth
import Pointless.Lib.Bisection
import Pointless.PyBisect
import Pointless.ContainerIds
import Pointless.ProbeCoverage
import Pointless.Lib.Overflow
import Pointless.SizeChecks
import Pointless.Lib.EventLog
import Pointless.MarkerDiscipline
import Pointless.Lib.RowMemory
import Pointless.DynarrayBytes
import Pointless.DynarraySound
import Pointless.DynarrayRuns
import Pointless.DynarrayHeap
import Pointless.RecreateRuns
import Pointless.PyExportVector
import Pointless.RecreateGraph
import Pointless.RoundTrip
import Pointless.WrittenLookups

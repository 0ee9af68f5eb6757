import Calculator.Main
import Calculator.Proofs.AngleOverride
import Calculator.Proofs.BufferStart
import Calculator.Proofs.CanonicalText
import Calculator.Proofs.CommittedAgain
import Calculator.Proofs.DegreesAsRadians
import Calculator.Proofs.DisplayText
import Calculator.Proofs.DisplayedInput
import Calculator.Proofs.ErrorPosition
import Calculator.Proofs.ExprText
import Calculator.Proofs.Freshness
import Calculator.Proofs.HistoryEntries
import Calculator.Proofs.Incomplete
import Calculator.Proofs.OneExpression
import Calculator.Proofs.OperatorRun
import Calculator.Proofs.Restart
import Calculator.Proofs.StoreCalls
import Calculator.Proofs.TypedConstant
import Calculator.Proofs.TypedFunction
import Calculator.Proofs.TypedNumber
import Calculator.Proofs.TypedOperand
import Calculator.Proofs.HistoryWindow
import Calculator.Proofs.RecalledMemory
import Calculator.Proofs.DisplayOrder
import Calculator.Proofs.DepthLimit
import Calculator.Proofs.ToggledSign
import Calculator.Proofs.PowerDomain
import Calculator.Proofs.TreeHeight
import Calculator.Proofs.FactorialLoop
import Calculator.Proofs.JsonGrammar
import Calculator.Proofs.EditedSettings

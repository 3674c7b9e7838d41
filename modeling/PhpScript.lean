import PhpScript.Files.Tree
import PhpScript.Main
import PhpScript.Proofs.Calendar.Dates
import PhpScript.Proofs.Native.Binding
import PhpScript.Proofs.Native.IntegerBases
import PhpScript.Proofs.Native.Summation
import PhpScript.Proofs.Number.FloatText
import PhpScript.Proofs.Output.Conservation
import PhpScript.Proofs.Request.Cookies
import PhpScript.Proofs.Run.CallChecks
import PhpScript.Proofs.Run.CallNesting
import PhpScript.Proofs.Run.Declarations
import PhpScript.Proofs.Run.Export
import PhpScript.Proofs.Run.Imports
import PhpScript.Proofs.Run.Inclusion
import PhpScript.Proofs.Run.Jumps
import PhpScript.Proofs.Run.LoopTargets
import PhpScript.Proofs.Run.Origin
import PhpScript.Proofs.Run.PushAndPop
import PhpScript.Proofs.Run.Reports
import PhpScript.Proofs.Run.SubscriptReads
import PhpScript.Proofs.Source.Positions
import PhpScript.Proofs.Syntax.BodyForms
import PhpScript.Proofs.Syntax.Places
import PhpScript.Proofs.Syntax.Precedence
import PhpScript.Proofs.Value.Arithmetic
import PhpScript.Proofs.Value.Comparison
import PhpScript.Proofs.Value.TextSuccessor

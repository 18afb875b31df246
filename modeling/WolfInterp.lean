import WolfInterp.Region.Budget
import WolfInterp.Prov.Prune
import WolfInterp.Prov.Angelic
import WolfInterp.Syntax.Precedence
import WolfInterp.Differ.Compare
import WolfInterp.Sched.Seeds
import WolfInterp.Sched.Monitors
import WolfInterp.Sched.Discipline
import WolfInterp.Sched.Delivery
import WolfInterp.Protocol.Bundle
import WolfInterp.Protocol.Compare
import WolfInterp.Protocol.Sha256
import WolfInterp.Fs.Create
import WolfInterp.Layout.Paths
import WolfInterp.Json.Repeats
import WolfInterp.Prov.Address
import WolfInterp.Region.Handles
import WolfInterp.Region.OpenSet
import WolfInterp.Lex.Lines
import WolfInterp.Sched.Par
import WolfInterp.Region.Cells
import WolfInterp.Fmt.Render
import WolfInterp.Syntax.Headers
import WolfInterp.Syntax.Groups
import WolfInterp.Eval.Arith
import WolfInterp.Eval.Literals
import WolfInterp.Eval.Slices
import WolfInterp.Eval.Inout
import WolfInterp.Repl.Render
import WolfInterp.Eval.Roots
import WolfInterp.Eval.Copies
import WolfInterp.Eval.Maps
import WolfInterp.Eval.Growth
import WolfInterp.Eval.Searching
import WolfInterp.Statics.Initializers
import WolfInterp.Statics.Imports
import WolfInterp.Statics.Suppression

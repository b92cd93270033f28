import Ryeos.Core.Progression
import Ryeos.Core.Json
import Ryeos.Core.Hex
import Ryeos.Core.JsonText
import Ryeos.Core.Glob
import Ryeos.Core.Result
import Ryeos.Core.Ensures
import Ryeos.Core.Binary64
import Ryeos.Core.Text
import Ryeos.Core.Linked
import Ryeos.Core.Kahn
import Ryeos.Chain.Objects
import Ryeos.Chain.Closure
import Ryeos.Chain.History
import Ryeos.Scheduler.Planning
import Ryeos.Scheduler.Misfire
import Ryeos.State.Compact
import Ryeos.State.CompactDag
import Ryeos.Resolution.Extends
import Ryeos.Handlers.ExtendsChain
import Ryeos.Lillux.CanonicalJson
import Ryeos.Lillux.Cas
import Ryeos.Expression.Numeric
import Ryeos.Expression.Lexer
import Ryeos.Expression.Syntax
import Ryeos.Expression.Parser
import Ryeos.Expression.StaticTypes
import Ryeos.Expression.Budget
import Ryeos.Expression.Functions
import Ryeos.Expression.Evaluator
import Ryeos.Expression.Compile
import Ryeos.Expression.Soundness
import Ryeos.Expression.NumberStrings
import Ryeos.Expression.Template
import Ryeos.Expression.TemplateScanner
import Ryeos.Expression.TemplateText
import Ryeos.Expression.Delimiters

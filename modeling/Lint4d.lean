import Lint4d.Facts.RoundTrip
import Lint4d.Store.LeaseTimer
import Lint4d.Store.Grace
import Lint4d.Store.Linearizable
import Lint4d.Flow.Query
import Lint4d.Flow.Summaries
import Lint4d.Conditional.Exactness
import Lint4d.Fix.CaseOnly
import Lint4d.Fix.NamingFixes
import Lint4d.Project.OverrideRuns
import Lint4d.Directive.Patches
import Lint4d.Format.RenderFaithful
import Lint4d.Msbuild.ChooseRuns
import Lint4d.Msbuild.Restrictions
import Lint4d.Lsp.OutboundRuns
import Lint4d.Dcu.Ancestry
import Lint4d.ProjectCache.WaitCycles
import Lint4d.Fix.FullFixer
import Lint4d.Lsp.PriorityQueue
import Lint4d.Flow.DiagnosticPositions

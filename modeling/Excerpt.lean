import Excerpt.Main
import Excerpt.Proofs.Assembly.InOrder
import Excerpt.Proofs.Assembly.Mirroring
import Excerpt.Proofs.Assembly.NewFiles
import Excerpt.Proofs.Bridge.Repeating
import Excerpt.Proofs.Canonical
import Excerpt.Proofs.Closure.Independence
import Excerpt.Proofs.Closure.Precedence
import Excerpt.Proofs.Closure.Restoration
import Excerpt.Proofs.Compiler.Calling
import Excerpt.Proofs.Extraction.Confinement
import Excerpt.Proofs.Extraction.Delivery
import Excerpt.Proofs.Extraction.DryRun
import Excerpt.Proofs.Extraction.Failing
import Excerpt.Proofs.Extraction.OwnFiles
import Excerpt.Proofs.Extraction.Preservation
import Excerpt.Proofs.Extraction.Repeating
import Excerpt.Proofs.Package.Declarations
import Excerpt.Proofs.Page
import Excerpt.Proofs.Page.Targets
import Excerpt.Proofs.Path.Trimming
import Excerpt.Proofs.Reproducer.Commands
import Excerpt.Proofs.Request.Decorations
import Excerpt.Proofs.Resolve
import Excerpt.Proofs.Resolve.Meaning
import Excerpt.Proofs.Scan.Selecting
import Excerpt.Proofs.Script
import Excerpt.Proofs.Settings.Loading
import Excerpt.Proofs.Trace.Entries
import Excerpt.Proofs.Trace.Printing
import Excerpt.Proofs.Trace.Report
import Excerpt.Proofs.Trace.Roots
import Excerpt.Proofs.Walk.Entries

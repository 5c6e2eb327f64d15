import Bundler.Main
import Bundler.Proofs.Bundle.ChunkFile
import Bundler.Proofs.Bundle.Closed
import Bundler.Proofs.Bundle.FailedLink
import Bundler.Proofs.Compile.Cache
import Bundler.Proofs.TaskGraph.Drain
import Bundler.Proofs.TaskGraph.Safety
import Bundler.Proofs.Bundle.Links
import Bundler.Proofs.Compile.Agreed
import Bundler.Proofs.Compile.Alone
import Bundler.Proofs.Compile.Incremental
import Bundler.Proofs.Compile.Retargeted
import Bundler.Proofs.Bundle.Unrelated
import Bundler.Proofs.Bundle.AnyOrder
import Bundler.Proofs.Compile.Again
import Bundler.Proofs.TaskGraph.Crew
import Bundler.Proofs.Bundle.Saved
import Bundler.Proofs.Import.Stretches
import Bundler.Proofs.Path.Canonical
import Bundler.Proofs.TaskGraph.Bookkeeping
import Bundler.Proofs.Import.Recognizer
import Bundler.Proofs.Resolve.Relative
import Bundler.Proofs.Bundle.Prune

import PatchReview.Main
import PatchReview.Package
import PatchReview.Syntax.Grammar
import PatchReview.Workbench.Flow
import PatchReview.Workbench.Service
import PatchReview.Proofs.Index.Holding
import PatchReview.Proofs.Index.Reindexing
import PatchReview.Proofs.Graph.Integrity
import PatchReview.Proofs.Inquiry.Naming
import PatchReview.Proofs.Service.Finished
import PatchReview.Proofs.Index.Ranges
import PatchReview.Proofs.Import.Exports
import PatchReview.Proofs.Settings.Bounds
import PatchReview.Proofs.Chunk.Coverage
import PatchReview.Proofs.Inquiry.Budget
import PatchReview.Proofs.Service.Anchoring
import PatchReview.Proofs.Import.Modules
import PatchReview.Proofs.Risk.Choosing
import PatchReview.Proofs.Risk.Nearness
import PatchReview.Proofs.Chunk.Size
import PatchReview.Proofs.Review.Reporting
import PatchReview.Proofs.Expert.Trimming
import PatchReview.Proofs.Expert.Capping
import PatchReview.Proofs.Json.Prose
import PatchReview.Proofs.Repository.Excluding
import PatchReview.Proofs.Tool.Window
import PatchReview.Proofs.Service.Signing
import PatchReview.Proofs.Lint.Vetting
import PatchReview.Proofs.Service.WorkTrees
import PatchReview.Proofs.Diff.Sections
import PatchReview.Proofs.Storage

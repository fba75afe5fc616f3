import LoxTree.CommandLine
import LoxTree.Main
import LoxTree.Tree.Same
import LoxTree.Proofs.Encoding.Trees
import LoxTree.Proofs.Encoding.Rendering
import LoxTree.Proofs.Parsing.Recognition
import LoxTree.Proofs.Parsing.Seam
import LoxTree.Proofs.Parsing.Order
import LoxTree.Proofs.Parsing.Recovery
import LoxTree.Proofs.Parsing.Complaints
import LoxTree.Proofs.Parsing.CursorSafety
import LoxTree.Proofs.Parsing.Numbering
import LoxTree.Proofs.Parsing.FirstLine
import LoxTree.Proofs.Running.Emitted
import LoxTree.Proofs.Running.Incremental
import LoxTree.Proofs.Running.Interaction
import LoxTree.Proofs.Running.Layout
import LoxTree.Proofs.Running.Located
import LoxTree.Proofs.Running.Regrouping
import LoxTree.Proofs.Running.Reporting
import LoxTree.Proofs.Running.Safety
import LoxTree.Proofs.Scanning.Partition
import LoxTree.Proofs.Number.Positional
import LoxTree.Proofs.Scanning.Places
import LoxTree.Proofs.Scanning.Spelling
import LoxTree.Proofs.Running.Numerals
import LoxTree.Proofs.Number.Shortest
import LoxTree.Proofs.Running.Scoping
import LoxTree.Proofs.Running.Footprint

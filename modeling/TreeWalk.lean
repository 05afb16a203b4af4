import TreeWalk.Main
import TreeWalk.Proofs.Children
import TreeWalk.Proofs.Walks
import TreeWalk.Proofs.Depth
import TreeWalk.Proofs.Document.RoundTrip
import TreeWalk.Proofs.Document.Unambiguous
import TreeWalk.Proofs.Views
import TreeWalk.Proofs.Levels
import TreeWalk.Proofs.Nesting
import TreeWalk.Proofs.Subtree
import TreeWalk.Proofs.Listing
import TreeWalk.Proofs.Drawing
import TreeWalk.Proofs.Hints
import TreeWalk.Proofs.Settings.Layers
import TreeWalk.Proofs.Toml.Words
import TreeWalk.Proofs.Settings.RoundTrip
import TreeWalk.Proofs.Indentation
import TreeWalk.Proofs.Command.Endings
import TreeWalk.Proofs.Files.Dotted
import TreeWalk.Proofs.Command.Spelling
import TreeWalk.Proofs.Duplicates
import TreeWalk.Proofs.DepthFirst
import TreeWalk.Proofs.Pairs
import TreeWalk.Proofs.IndentedWalks
import TreeWalk.Proofs.BothEnds
import TreeWalk.Proofs.IndentedUnambiguous
import TreeWalk.Proofs.Labels
import TreeWalk.Proofs.Document.Description
import TreeWalk.Proofs.Document.Variants
import TreeWalk.Proofs.Decimal.Rounding
import TreeWalk.Proofs.Settings.Escapes
import TreeWalk.Proofs.Decimal.Shortest
import TreeWalk.Proofs.Decimal.Spelling
import TreeWalk.Proofs.Settings.Separator
import TreeWalk.Proofs.Arena

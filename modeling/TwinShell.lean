import TwinShell.Completion
import TwinShell.Hierarchy.Store
import TwinShell.Main
import TwinShell.Proofs.Hierarchy.Footprint
import TwinShell.Proofs.Hierarchy.Listing
import TwinShell.Proofs.Hierarchy.Runs
import TwinShell.Proofs.Language.Consumption
import TwinShell.Proofs.Language.RoundTrip
import TwinShell.Proofs.Session.Anchored
import TwinShell.Proofs.Session.Atomic
import TwinShell.Proofs.Session.CallChain
import TwinShell.Proofs.Session.Exit
import TwinShell.Proofs.Session.Grouping
import TwinShell.Proofs.Session.Independence
import TwinShell.Proofs.Session.Interpolation
import TwinShell.Proofs.Session.Replay
import TwinShell.Proofs.Session.Variables
import TwinShell.Proofs.Viewer.Conversation
import TwinShell.Proofs.Viewer.Frames
import TwinShell.Proofs.Hierarchy.Watched
import TwinShell.Proofs.Session.Asking
import TwinShell.Proofs.Session.Discreet
import TwinShell.Proofs.Session.Colors
import TwinShell.Proofs.Language.Progress
import TwinShell.Proofs.Language.Termination
import TwinShell.Proofs.Language.Embedding
import TwinShell.Proofs.Language.Repetition
import TwinShell.Proofs.Language.Separation
import TwinShell.Proofs.Language.Composition
import TwinShell.Proofs.Language.Answers
import TwinShell.Proofs.Language.Colors
import TwinShell.Proofs.Hierarchy.Patching
import TwinShell.Proofs.Path.Resolving
import TwinShell.Proofs.Session.Modifying
import TwinShell.Proofs.Session.Browsing
import TwinShell.Proofs.Session.Domains
import TwinShell.Proofs.Session.Deleting
import TwinShell.Proofs.Session.Trees
import TwinShell.Proofs.Session.Drawing
import TwinShell.Proofs.Viewer.Identity
import TwinShell.Proofs.Text.Wildcard
import TwinShell.Proofs.Hierarchy.Addresses
import TwinShell.Proofs.Value.Arithmetic
import TwinShell.Proofs.Value.Equality
import TwinShell.Proofs.Session.Integers
import TwinShell.Proofs.Completion
import TwinShell.Proofs.Language.NormalForm
import TwinShell.Proofs.Value.Order
import TwinShell.Proofs.Session.Ordering
import TwinShell.Proofs.Session.Marking
import TwinShell.Proofs.Path.Segments
import TwinShell.Proofs.Language.LongestWord
import TwinShell.Proofs.Language.Lexing
import TwinShell.Proofs.Template
import TwinShell.Proofs.Language.Numerals

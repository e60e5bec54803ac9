import Scriptlet.Host
import Scriptlet.Main
import Scriptlet.Proofs.Munch
import Scriptlet.Proofs.Rescan
import Scriptlet.Proofs.Grammar
import Scriptlet.Proofs.Reading
import Scriptlet.Proofs.Progress
import Scriptlet.Proofs.Soundness
import Scriptlet.Proofs.Completeness
import Scriptlet.Proofs.Acceptance
import Scriptlet.Proofs.Actions
import Scriptlet.Proofs.Frame
import Scriptlet.Proofs.Moments
import Scriptlet.Proofs.Resolution
import Scriptlet.Proofs.ForLoop
import Scriptlet.Proofs.Rounds
import Scriptlet.Proofs.FullSink
import Scriptlet.Proofs.Lines
import Scriptlet.Proofs.ParseLines
import Scriptlet.Proofs.Seams
import Scriptlet.Proofs.Positions
import Scriptlet.Proofs.Mending
import Scriptlet.Proofs.Blame
import Scriptlet.Proofs.Sessions
import Scriptlet.Proofs.Layout
import Scriptlet.Proofs.Operators
import Scriptlet.Proofs.Culprits
import Scriptlet.Proofs.ReadBack
import Scriptlet.Proofs.Forms
import Scriptlet.Proofs.Lexemes
import Scriptlet.Proofs.Unambiguous
import Scriptlet.Proofs.Walk
import Scriptlet.Proofs.InBounds
import Scriptlet.Proofs.Lookups
import Scriptlet.Proofs.SharedScopes
import Scriptlet.Proofs.EveryRule
import Scriptlet.Proofs.Recovery
import Scriptlet.Proofs.StackSessions
import Scriptlet.Proofs.FirstEnd
import Scriptlet.Proofs.Composition
import Scriptlet.Proofs.Stumbles
import Scriptlet.Proofs.Unended
import Scriptlet.Proofs.Unmentioned
import Scriptlet.Proofs.FirstKept
import Scriptlet.Proofs.Literals
import Scriptlet.Proofs.PromptSession
import Scriptlet.Proofs.Flushes

import GameScript.Main
import GameScript.Run.Frame
import GameScript.Tree.Compare
import GameScript.Proofs.Command.Groups
import GameScript.Proofs.Diagnostic.Color
import GameScript.Proofs.Diagnostic.Wording
import GameScript.Proofs.Parse.Lookahead
import GameScript.Proofs.Parse.Numbers
import GameScript.Proofs.Parse.RoundTrip
import GameScript.Proofs.Parse.Spans
import GameScript.Proofs.Parse.WalkForms
import GameScript.Proofs.Run.Blame
import GameScript.Proofs.Run.Confined
import GameScript.Proofs.Run.Dangling
import GameScript.Proofs.Run.Defensive
import GameScript.Proofs.Run.Displayed
import GameScript.Proofs.Run.Environments
import GameScript.Proofs.Run.Failures
import GameScript.Proofs.Run.Integers
import GameScript.Proofs.Run.KeyOrder
import GameScript.Proofs.Run.Limits
import GameScript.Proofs.Run.Names
import GameScript.Proofs.Run.Nesting
import GameScript.Proofs.Run.Orders
import GameScript.Proofs.Run.Owned
import GameScript.Proofs.Run.Purity
import GameScript.Proofs.Run.References
import GameScript.Proofs.Run.Renaming
import GameScript.Proofs.Run.Rings
import GameScript.Proofs.Run.Scripts
import GameScript.Proofs.Run.Structure
import GameScript.Proofs.Run.Unfolding
import GameScript.Proofs.Token.Accounted
import GameScript.Proofs.Token.Closers
import GameScript.Proofs.Token.Writes

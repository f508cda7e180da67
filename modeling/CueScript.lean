import CueScript.Main
import CueScript.Proofs.Shape.Location
import CueScript.Proofs.Shape.Parts
import CueScript.Proofs.Run.Builtin
import CueScript.Proofs.Run.Evaluation
import CueScript.Proofs.Reader.Trees
import CueScript.Proofs.Run.Watch
import CueScript.Proofs.Run.Compile
import CueScript.Proofs.Depth.Nesting
import CueScript.Proofs.Depth.Session
import CueScript.Proofs.Shape.Outline
import CueScript.Proofs.Shape.Code
import CueScript.Proofs.Shape.Accepted
import CueScript.Proofs.Shape.Soundness
import CueScript.Proofs.Reader.Printed
import CueScript.Proofs.Reader.Joined
import CueScript.Proofs.Reader.Balance
import CueScript.Proofs.Symbols.Scan
import CueScript.Proofs.Symbols.NullSafe
import CueScript.Proofs.Symbols.Bound
import CueScript.Proofs.Depth.Limit
import CueScript.Proofs.Depth.Derived
import CueScript.Proofs.Depth.Application
import CueScript.Proofs.Frame.Isolation
import CueScript.Proofs.Frame.Calls
import CueScript.Proofs.Extract.Alone
import CueScript.Proofs.Extract.Further
import CueScript.Proofs.Extract.Remains
import CueScript.Proofs.Extract.Snippet
import CueScript.Proofs.Extract.Meaning
import CueScript.Proofs.Catalog.Build
import CueScript.Proofs.Catalog.Flatten
import CueScript.Proofs.Shape.Wording
import CueScript.Proofs.Frame.Compiling
import CueScript.Proofs.Run.Strictness
import CueScript.Proofs.Ending.Body
import CueScript.Proofs.Store.Life
import CueScript.Proofs.Symbols.Nested
import CueScript.Proofs.Reader.Caret
import CueScript.Proofs.Catalog.Ancestry
import CueScript.Proofs.Event.Members
import CueScript.Proofs.Event.Track
import CueScript.Proofs.Parting.Coincidence
import CueScript.Proofs.Collection.Lookup
import CueScript.Proofs.Collection.Path
import CueScript.Proofs.Collection.Equality
import CueScript.Proofs.Collection.Chain
import CueScript.Proofs.Collection.Map
import CueScript.Proofs.Number.Division

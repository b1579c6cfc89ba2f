import TypeStore.Text.Quoted
import TypeStore.Shape.Owned
import TypeStore.Context.Concrete
import TypeStore.Context.Command
import TypeStore.Proofs.WellFormed
import TypeStore.Proofs.Session
import TypeStore.Proofs.Rendering
import TypeStore.Proofs.Resemblance
import TypeStore.Proofs.Copying.Step
import TypeStore.Proofs.Copying.Copied
import TypeStore.Proofs.Copying.Meaning
import TypeStore.Proofs.Copying.Origin
import TypeStore.Proofs.Copying.Rebinding
import TypeStore.Proofs.Copying.Separation
import TypeStore.Proofs.Answer
import TypeStore.Proofs.Persistence
import TypeStore.Proofs.Limit
import TypeStore.Proofs.Growth
import TypeStore.Proofs.Range
import TypeStore.Proofs.Client
import TypeStore.Proofs.Lacking
import TypeStore.Proofs.Queue
import TypeStore.Proofs.History
import TypeStore.Proofs.Builtins
import TypeStore.Proofs.FirstRecords
import TypeStore.Proofs.Copying.Failure
import TypeStore.Proofs.Hops
import TypeStore.Proofs.Ends
import TypeStore.Proofs.Concreteness
import TypeStore.Proofs.FinalParameters
import TypeStore.Proofs.Copying.Success
import TypeStore.Proofs.Copying.Children
import TypeStore.Proofs.RecursiveTypes
import TypeStore.Proofs.Flush
import TypeStore.Proofs.Narrowing
import TypeStore.Proofs.Composition
import TypeStore.Proofs.Readability
import TypeStore.Proofs.Paths
import TypeStore.Proofs.ParameterChains
import TypeStore.Proofs.FirstBounds

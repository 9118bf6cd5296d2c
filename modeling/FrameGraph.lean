import FrameGraph.Compiler.Compile
import FrameGraph.Graph.Source
import FrameGraph.Proofs.Compiler.Emission
import FrameGraph.Proofs.Compiler.Inputs
import FrameGraph.Proofs.Compiler.Layout
import FrameGraph.Proofs.Compiler.Linked
import FrameGraph.Proofs.Evaluation.Dataflow
import FrameGraph.Proofs.Evaluation.Safety
import FrameGraph.Proofs.Evaluation.Simulation
import FrameGraph.Proofs.Graph.Scheduling
import FrameGraph.Proofs.Instance.Reachable
import FrameGraph.Proofs.Machine.Passage
import FrameGraph.Resource.Headless
import FrameGraph.Proofs.Compiler.Ports
import FrameGraph.Proofs.Compiler.Acceptance
import FrameGraph.Proofs.Compiler.EdgeOrder
import FrameGraph.Proofs.Compiler.Equipment
import FrameGraph.Proofs.Evaluation.Confluence
import FrameGraph.Proofs.Instance.Resizing
import FrameGraph.Proofs.Resource.Recording
import FrameGraph.Proofs.Compiler.Lookup
import FrameGraph.Proofs.Instance.Host
import FrameGraph.Proofs.Instance.Targets
import FrameGraph.Proofs.Instance.Lifecycle
import FrameGraph.Proofs.Machine.Listing
import FrameGraph.Proofs.Machine.Isolation
import FrameGraph.Proofs.Instance.Constants
import FrameGraph.Proofs.Machine.Reading
import FrameGraph.Graph.Edit
import FrameGraph.Proofs.Graph.Edits
import FrameGraph.Proofs.Text.Numeral
import FrameGraph.Proofs.Graph.Store
import FrameGraph.Proofs.Graph.History
import FrameGraph.Proofs.Compiler.Failure
import FrameGraph.Proofs.Graph.Loading
import FrameGraph.Proofs.Compiler.Counting
import FrameGraph.Proofs.Graph.Blocking
import FrameGraph.Proofs.Graph.Relevance
import FrameGraph.Proofs.Machine.Forward
import FrameGraph.Proofs.Machine.Parameters
import FrameGraph.Proofs.Machine.Integers
import FrameGraph.Proofs.Resource.Chronicle
import FrameGraph.Proofs.Instance.Output
import FrameGraph.Proofs.Compiler.PortFaults
import FrameGraph.Proofs.Resource.Sizes
import FrameGraph.Proofs.Machine.Disassembly
import FrameGraph.Proofs.Compiler.Literals
import FrameGraph.Proofs.Machine.Lockstep
import FrameGraph.Proofs.Compiler.SingleAssignment

import LionCore.Addresses
import LionCore.Agreement
import LionCore.Base.Bits
import LionCore.Base.Clamp
import LionCore.Base.Countdown
import LionCore.Base.Dense
import LionCore.Base.Footprint
import LionCore.Base.Forest
import LionCore.Base.Graph
import LionCore.Base.Guard
import LionCore.Base.Paged
import LionCore.Base.Phase
import LionCore.Base.Run
import LionCore.Base.Search
import LionCore.Base.Simulation
import LionCore.Base.Table
import LionCore.Base.Text
import LionCore.Base.Total
import LionCore.Base.Worklist
import LionCore.Calls
import LionCore.Delivery
import LionCore.Draining
import LionCore.Interleaving
import LionCore.Kernel
import LionCore.Mailbox
import LionCore.Memory.Flat
import LionCore.Memory.Pages
import LionCore.Memory.Spatial
import LionCore.Monitors
import LionCore.Paths
import LionCore.Revocation.Adequacy
import LionCore.Revocation.Cut
import LionCore.Revocation.Index
import LionCore.Revocation.Representation
import LionCore.Security.Accounting
import LionCore.Security.Attainable
import LionCore.Security.Binding
import LionCore.Security.Bookkeeping
import LionCore.Security.Confinement
import LionCore.Security.Dangling
import LionCore.Security.Delegation
import LionCore.Security.Deputy
import LionCore.Security.Encoding
import LionCore.Security.Forgery
import LionCore.Security.FreshIds
import LionCore.Security.Held
import LionCore.Security.History
import LionCore.Security.Integrity
import LionCore.Security.Mediation
import LionCore.Security.Noninterference
import LionCore.Security.Permanence
import LionCore.Security.PluginStep
import LionCore.Security.Quotas
import LionCore.Security.Rotation
import LionCore.Security.Sealing
import LionCore.Security.SlowRevocation
import LionCore.Security.TargetAddress
import LionCore.Security.TemporalSafety
import LionCore.Security.TokenLife
import LionCore.Security.Validity
import LionCore.Simulation
import LionCore.Spec.Correspondence
import LionCore.Spec.Following
import LionCore.Spec.Footprint
import LionCore.Spec.State
import LionCore.Spec.Step
import LionCore.State.Actor
import LionCore.State.Core
import LionCore.State.Kernel
import LionCore.State.Memory
import LionCore.State.Plugin
import LionCore.State.State
import LionCore.State.Workflow
import LionCore.Step.Authorization
import LionCore.Step.Effect
import LionCore.Step.Error
import LionCore.Step.Footprint
import LionCore.Step.Frame
import LionCore.Step.HostCall
import LionCore.Step.KernelOp
import LionCore.Step.PluginInternal
import LionCore.Step.Sandbox
import LionCore.Step.Step
import LionCore.Step.Verdict
import LionCore.Types.Basic
import LionCore.Types.Capability
import LionCore.Types.Policy
import LionCore.Types.PolicyAlgebra
import LionCore.Types.RightSet
import LionCore.Types.Rights
import LionCore.Types.Text
import LionCore.Workflow.Adjacency
import LionCore.Workflow.Bound
import LionCore.Workflow.Completion
import LionCore.Workflow.Configurations
import LionCore.Workflow.Counters
import LionCore.Workflow.Coverage
import LionCore.Workflow.Definition
import LionCore.Workflow.Measure
import LionCore.Workflow.Ordering
import LionCore.Workflow.Progress
import LionCore.Workflow.Refinement
import LionCore.Workflow.Run
import LionCore.Workflow.Spec
import LionCore.Workflow.Terminal

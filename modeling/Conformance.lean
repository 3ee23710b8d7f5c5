import Conformance.Main
import Conformance.Plugin.Rehearsed
import Conformance.Proofs.Bridge.Lifecycle
import Conformance.Proofs.Scenario.Passing
import Conformance.Proofs.Workspace.Outside
import Conformance.Proofs.Acl.RoundTrip
import Conformance.Proofs.Acl.StoredForm
import Conformance.Proofs.Parcel.Crossing
import Conformance.Proofs.Parcel.Acceptance
import Conformance.Proofs.Channel.Interleaving
import Conformance.Proofs.Scenario.Teardown
import Conformance.Proofs.FileWatch.Stream
import Conformance.Proofs.Scenario.Shape
import Conformance.Proofs.Workspace.Fixtures
import Conformance.Proofs.Bridge.NativeCalls
import Conformance.Proofs.Scenario.Trail
import Conformance.Proofs.Scenario.Deeds
import Conformance.Proofs.Scenario.FirstFailure
import Conformance.Proofs.Scenario.LateEmissions
import Conformance.Proofs.Datum.Mappings
import Conformance.Proofs.Datum.Records
import Conformance.Proofs.Script.Readings
import Conformance.Proofs.Datum.Edits
import Conformance.Proofs.Script.FixedKeys
import Conformance.Proofs.Script.UnknownKeys
import Conformance.Proofs.Datum.Equality
import Conformance.Proofs.Path.Components
import Conformance.Proofs.Script.Containment
import Conformance.Proofs.Channel.Losses
import Conformance.Proofs.Descriptor.Crossing
import Conformance.Proofs.Workspace.Links
import Conformance.Proofs.Workspace.Refusals
import Conformance.Proofs.Stream.Reports
import Conformance.Proofs.Stream.Senders
import Conformance.Proofs.Workspace.Effect
import Conformance.Proofs.Stream.Bookkeeping
import Conformance.Proofs.Expectation.Placeholders
import Conformance.Proofs.Bridge.Routing
import Conformance.Proofs.Scenario.Waiting
import Conformance.Proofs.Script.FileStates
import Conformance.Proofs.Expectation.AclTexts
import Conformance.Proofs.Script.Falsifiable
import Conformance.Proofs.Capture.Faults
import Conformance.Proofs.Capture.Times
import Conformance.Proofs.Expectation.Verification
import Conformance.Proofs.FileWatch.Payloads
import Conformance.Proofs.FileWatch.Notices
import Conformance.Proofs.FileWatch.Interruption
import Conformance.Proofs.FileWatch.Requests
import Conformance.Proofs.Permissions.Listing
import Conformance.Proofs.Permissions.Octal
import Conformance.Proofs.Permissions.Notations
import Conformance.Proofs.Yaml.Mappings
import Conformance.Proofs.Script.WellFormed
import Conformance.Proofs.Script.Outline
import Conformance.Proofs.Host.Lookups
import Conformance.Proofs.Config.Layers
import Conformance.Proofs.Script.ModulePath

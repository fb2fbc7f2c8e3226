import DocRelay.Application.Recipe
import DocRelay.Location.Steps
import DocRelay.Main
import DocRelay.Proofs.Application.Rendering
import DocRelay.Proofs.Document.Enclosed
import DocRelay.Proofs.Message.RoundTrip
import DocRelay.Proofs.Outbox.Shared
import DocRelay.Proofs.Package.Order
import DocRelay.Proofs.Relay.Acknowledged
import DocRelay.Proofs.Relay.Departure
import DocRelay.Proofs.Relay.FedBack
import DocRelay.Proofs.Relay.Inline
import DocRelay.Proofs.Relay.Preview
import DocRelay.Proofs.Relay.Relocation
import DocRelay.Proofs.Source.Selection
import DocRelay.Proofs.Wheel.Building
import DocRelay.Proofs.Worker.Pinned
import DocRelay.Proofs.Worker.Schedule
import DocRelay.Source.Directory
import DocRelay.Wheel.Save
import DocRelay.Proofs.Text.Split
import DocRelay.Proofs.Wheel.FileName
import DocRelay.Proofs.Files.Tree
import DocRelay.Proofs.Source.Confined
import DocRelay.Proofs.Wheel.Identity
import DocRelay.Proofs.Manifest.RoundTrip
import DocRelay.Proofs.Location.Guards
import DocRelay.Proofs.Text.Lowercase
import DocRelay.Proofs.Wheel.Name
import DocRelay.Proofs.Digits.Canonical

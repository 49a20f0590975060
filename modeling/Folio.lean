import Folio.Fixture.Verify
import Folio.Main
import Folio.Proofs.Archive.RoundTrip
import Folio.Proofs.Writer.Limit
import Folio.Proofs.Checksum.Burst
import Folio.Proofs.Archive.Reading
import Folio.Proofs.Archive.Damage
import Folio.Proofs.FileTree.Place
import Folio.Proofs.FileTree.Aside
import Folio.Proofs.Fixture.Delivery
import Folio.Proofs.Fixture.AllOrNothing
import Folio.Proofs.Fixture.Plan
import Folio.Proofs.Fixture.Recognition
import Folio.Proofs.Fixture.Acceptance
import Folio.Proofs.Fixture.Buildable
import Folio.Proofs.Record.Inverse
import Folio.Proofs.Writer.Verdict
import Folio.Proofs.Archive.Containment
import Folio.Proofs.Writer.OnDisk
import Folio.Proofs.Archive.Features
import Folio.Proofs.Record.CutOff
import Folio.Proofs.Archive.Corruption
import Folio.Proofs.Record.Window
import Folio.Proofs.Archive.Bounds
import Folio.Proofs.Archive.Marker
import Folio.Proofs.Stream.Bounded
import Folio.Proofs.Calendar.DayNumber
import Folio.Proofs.Calendar.Packing
import Folio.Proofs.Calendar.Order
import Folio.Proofs.Entry.Confined
import Folio.Proofs.Stream.Sized
import Folio.Proofs.Fixture.Progress
import Folio.Proofs.Archive.LegacyNames
import Folio.Proofs.Fixture.Failures

import Oasi.Broker.Dispatched
import Oasi.Broker.Integrity
import Oasi.Broker.SealRace
import Oasi.Broker.SerialRuns
import Oasi.Broker.Verification
import Oasi.Ledger.Admission
import Oasi.Ledger.ByteChange
import Oasi.Ledger.CanonicalBytes
import Oasi.Ledger.JsonAcceptance
import Oasi.Ledger.EntryRoundTrip
import Oasi.Ledger.Tampering
import Oasi.Ledger.ValidPrefix
import Oasi.Ledger.WriteFaults
import Oasi.Model.AuthorityHistory
import Oasi.Protocol.Parse
import Oasi.Release.ArchiveTiling
import Oasi.Release.BuiltArchives
import Oasi.Release.ClaimSchema
import Oasi.Release.EndRecordSearch
import Oasi.Release.Extraction
import Oasi.Release.PublishedArchives
import Oasi.Runtime.Agreement
import Oasi.Runtime.Provenance
import Oasi.Runtime.Reconciliation
import Oasi.Runtime.Solicited
import Oasi.Runtime.Stream
import Oasi.Runtime.Truth

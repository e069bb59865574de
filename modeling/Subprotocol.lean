import Subprotocol.Blake3
import Subprotocol.Capabilities
import Subprotocol.Capabilities.History
import Subprotocol.Capabilities.Lemmas
import Subprotocol.Compatibility
import Subprotocol.Conformance.Case
import Subprotocol.Conformance.CaseFile
import Subprotocol.Consensus
import Subprotocol.Entry
import Subprotocol.Interchange
import Subprotocol.Json.Reader
import Subprotocol.Json.Token
import Subprotocol.Json.Value
import Subprotocol.Json.Writer
import Subprotocol.Known
import Subprotocol.Listing.Canonical
import Subprotocol.Listing.Fault
import Subprotocol.Listing.Reader
import Subprotocol.Poll
import Subprotocol.Profile
import Subprotocol.Profile.Config
import Subprotocol.Proofs.Capabilities.Canonical
import Subprotocol.Proofs.Capabilities.History
import Subprotocol.Proofs.Capabilities.Lattice
import Subprotocol.Proofs.Capabilities.Reachable
import Subprotocol.Proofs.Capabilities.View
import Subprotocol.Proofs.Conformance.Judging
import Subprotocol.Proofs.Consensus.Bounds
import Subprotocol.Proofs.Consensus.Increment
import Subprotocol.Proofs.Consensus.Loop
import Subprotocol.Proofs.Consensus.Meaning
import Subprotocol.Proofs.Consensus.Outcome
import Subprotocol.Proofs.Consensus.Sweep
import Subprotocol.Proofs.Consensus.Union
import Subprotocol.Proofs.Entry.Counting
import Subprotocol.Proofs.Entry.Insertion
import Subprotocol.Proofs.Entry.Removal
import Subprotocol.Proofs.Listing.Acceptance
import Subprotocol.Proofs.Listing.Faults
import Subprotocol.Proofs.Listing.Grammar
import Subprotocol.Proofs.Listing.Joining
import Subprotocol.Proofs.Listing.RoundTrip
import Subprotocol.Proofs.Listing.Size
import Subprotocol.Proofs.Listing.Strict
import Subprotocol.Proofs.Poll.Minority
import Subprotocol.Proofs.Poll.Staggered
import Subprotocol.Proofs.Profile.Configured
import Subprotocol.Proofs.Profile.Coverage
import Subprotocol.Proofs.Profile.Lacking
import Subprotocol.Proofs.Profile.Verdicts
import Subprotocol.Proofs.Profile.View
import Subprotocol.Proofs.Reading
import Subprotocol.Proofs.Release.Eras
import Subprotocol.Proofs.Release.Naming
import Subprotocol.Proofs.Release.Order
import Subprotocol.Proofs.Release.RoundTrip
import Subprotocol.Proofs.Release.Spoken
import Subprotocol.Proofs.Session.Answers
import Subprotocol.Proofs.Session.Compatible
import Subprotocol.Proofs.Session.Participant
import Subprotocol.Proofs.Spans.Gaps
import Subprotocol.Proofs.Spans.Meeting
import Subprotocol.Proofs.Text.Chunks
import Subprotocol.Release
import Subprotocol.Release.Era
import Subprotocol.Release.Reader
import Subprotocol.Requirements
import Subprotocol.Session
import Subprotocol.Span
import Subprotocol.Spans
import Subprotocol.Spans.Lemmas
import Subprotocol.Text.Blank
import Subprotocol.Text.Decimal
import Subprotocol.Text.Quoted
import Subprotocol.Text.Unprintable

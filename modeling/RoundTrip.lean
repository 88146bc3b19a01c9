import RoundTrip.Main
import RoundTrip.Pending.Run
import RoundTrip.Rest.Call
import RoundTrip.Proofs.Pending.Settlement
import RoundTrip.Proofs.Pending.Isolation
import RoundTrip.Proofs.Prober.Acknowledgement
import RoundTrip.Proofs.Prober.Custody
import RoundTrip.Proofs.Event.Echo
import RoundTrip.Proofs.Event.Displaced
import RoundTrip.Proofs.Event.BinaryTrip
import RoundTrip.Proofs.Event.StructuredTrip
import RoundTrip.Proofs.Event.Reentry
import RoundTrip.Proofs.Probe.Platform
import RoundTrip.Proofs.Probe.KeyText
import RoundTrip.Proofs.Prober.Discipline
import RoundTrip.Proofs.Prober.Shutdown
import RoundTrip.Proofs.Prober.Deadline
import RoundTrip.Proofs.Prober.Freshness
import RoundTrip.Proofs.Prober.Transport
import RoundTrip.Proofs.Prober.Sweeping
import RoundTrip.Proofs.Duration.Range
import RoundTrip.Proofs.Duration.Fraction
import RoundTrip.Proofs.Duration.Addition
import RoundTrip.Proofs.Probe.Granted
import RoundTrip.Proofs.Probe.Timeout
import RoundTrip.Proofs.Pending.Stale
import RoundTrip.Proofs.Pending.Waiting
import RoundTrip.Proofs.Pending.Sweep
import RoundTrip.Proofs.Pending.Refusal
import RoundTrip.Proofs.Event.JsonPayload
import RoundTrip.Proofs.Event.HeaderOrder
import RoundTrip.Proofs.Event.MemberOrder
import RoundTrip.Proofs.Event.Extensions
import RoundTrip.Proofs.Liveness
import RoundTrip.Proofs.Rest.Objects

import PacedStream.Settings.Load
import PacedStream.Settings.Template
import PacedStream.Proofs.Queue.View
import PacedStream.Proofs.Buffer.Lossless
import PacedStream.Proofs.Buffer.Gating
import PacedStream.Proofs.Buffer.Recovery
import PacedStream.Proofs.Buffer.Renewal
import PacedStream.Proofs.Buffer.Differences
import PacedStream.Proofs.Buffer.Asking
import PacedStream.Proofs.Buffer.Guarded
import PacedStream.Proofs.Buffer.Containment
import PacedStream.Proofs.Relay.Drain
import PacedStream.Proofs.Relay.Reframing
import PacedStream.Proofs.Relay.Chunks
import PacedStream.Proofs.Buffer.Timekeeping
import PacedStream.Proofs.Buffer.Jam
import PacedStream.Proofs.Buffer.Bitrate
import PacedStream.Proofs.Clock.Survey
import PacedStream.Proofs.Buffer.Agreement
import PacedStream.Proofs.Buffer.Tally
import PacedStream.Proofs.Buffer.Acceptance
import PacedStream.Proofs.Clock.Distances
import PacedStream.Proofs.Buffer.Relocation
import PacedStream.Proofs.Buffer.Want
import PacedStream.Proofs.Buffer.Emission
import PacedStream.Proofs.Clock.Resumption
import PacedStream.Proofs.Clock.Exhaustion
import PacedStream.Proofs.Queue.Halving
import PacedStream.Proofs.Buffer.Shortfall
import PacedStream.Proofs.Packet.Drafts
import PacedStream.Proofs.Settings.Usable

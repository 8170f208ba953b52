import TraceLog.Channel.Monitor
import TraceLog.Image
import TraceLog.Payload.Schema
import TraceLog.Pipeline.Lobby
import TraceLog.Report
import TraceLog.Session
import TraceLog.Proofs.Entries
import TraceLog.Proofs.Channel.Turns
import TraceLog.Proofs.Channel.Sequential
import TraceLog.Proofs.Channel.Queueing
import TraceLog.Proofs.Channel.Waking
import TraceLog.Proofs.Channel.Fairness
import TraceLog.Proofs.Fields
import TraceLog.Proofs.Lz4.Decoding
import TraceLog.Proofs.Lz4.Matching
import TraceLog.Proofs.Lz4.Growth
import TraceLog.Proofs.Grammar
import TraceLog.Proofs.Framing
import TraceLog.Proofs.Cuts
import TraceLog.Proofs.Batches
import TraceLog.Proofs.Sealing
import TraceLog.Proofs.Records
import TraceLog.Proofs.Bursts
import TraceLog.Proofs.RoundTrip
import TraceLog.Proofs.Counting
import TraceLog.Proofs.Arrivals
import TraceLog.Proofs.Resequencing
import TraceLog.Proofs.Intake
import TraceLog.Proofs.Refusals
import TraceLog.Proofs.Pipeline.Moves
import TraceLog.Proofs.Pipeline.History
import TraceLog.Proofs.Pipeline.Trail
import TraceLog.Proofs.Pipeline.Callers
import TraceLog.Proofs.Pipeline.Custody
import TraceLog.Proofs.Pipeline.Batching
import TraceLog.Proofs.Pipeline.Endings
import TraceLog.Proofs.Pipeline.Stopping
import TraceLog.Proofs.Pipeline.Concluding
import TraceLog.Proofs.Pipeline.Intact
import TraceLog.Proofs.Pipeline.Writing
import TraceLog.Proofs.Pipeline.Smooth
import TraceLog.Proofs.Pipeline.Closing
import TraceLog.Proofs.Pipeline.Flushing
import TraceLog.Proofs.Pipeline.Answering
import TraceLog.Proofs.Pipeline.Failing
import TraceLog.Proofs.Schedule
import TraceLog.Proofs.Overshoot
import TraceLog.Proofs.Pipeline.Securing
import TraceLog.Proofs.Pipeline.Whereabouts
import TraceLog.Proofs.Pipeline.Admitting
import TraceLog.Proofs.Pipeline.Accounting
import TraceLog.Proofs.Pipeline.Ledger
import TraceLog.Proofs.Discards
import TraceLog.Proofs.Liveness
import TraceLog.Proofs.Termination
import TraceLog.Proofs.Driving
import TraceLog.Proofs.Failures
import TraceLog.Proofs.Resuming
import TraceLog.Proofs.Aborting
import TraceLog.Proofs.Appending
import TraceLog.Proofs.Reopening
import TraceLog.Proofs.Serving
import TraceLog.Proofs.Splitting
import TraceLog.Proofs.Durability
import TraceLog.Proofs.Integers
import TraceLog.Proofs.Headers
import TraceLog.Proofs.Payloads

import FazClient.Connection.Scripted
import FazClient.Main
import FazClient.Service.Scripted
import FazClient.Proofs.Slots
import FazClient.Proofs.ReadBack
import FazClient.Proofs.RoundTrip
import FazClient.Proofs.Calls
import FazClient.Proofs.Operations
import FazClient.Proofs.Outgoing
import FazClient.Proofs.Handler
import FazClient.Proofs.Refinement
import FazClient.Proofs.Conversation
import FazClient.Proofs.Correlation
import FazClient.Proofs.Grammar
import FazClient.Proofs.Acceptance
import FazClient.Proofs.Rulings
import FazClient.Proofs.Bindings
import FazClient.Proofs.Replies
import FazClient.Proofs.Tags
import FazClient.Proofs.Locality
import FazClient.Proofs.Agreement
import FazClient.Proofs.Merging
import FazClient.Proofs.Logging
import FazClient.Proofs.Printing
import FazClient.Proofs.Packing
import FazClient.Proofs.Calendar
import FazClient.Proofs.PostingTimes
import FazClient.Proofs.Repacking
import FazClient.Proofs.ShortWrites
import FazClient.Proofs.Reporting
import FazClient.Proofs.Planning
import FazClient.Proofs.JsonReading
import FazClient.Proofs.JsonOutput
import FazClient.Proofs.DisplayedIds
import FazClient.Proofs.CommandLines
import FazClient.Proofs.HookTable
import FazClient.Proofs.Runs

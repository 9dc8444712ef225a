import AudioBroker.Broker.Operation
import AudioBroker.EventLoop
import AudioBroker.Peers.Script
import AudioBroker.Proofs.Run
import AudioBroker.Proofs.Transport.Outcome
import AudioBroker.Proofs.Transport.Start
import AudioBroker.Proofs.Transport.Move
import AudioBroker.Proofs.Broker.Effect
import AudioBroker.Proofs.Broker.Calls
import AudioBroker.Proofs.Sharing
import AudioBroker.Proofs.Account
import AudioBroker.Proofs.Broker.Turn
import AudioBroker.Proofs.Numbers
import AudioBroker.Proofs.StreamLocks
import AudioBroker.Proofs.Replies
import AudioBroker.Proofs.Deferred
import AudioBroker.Proofs.Marks
import AudioBroker.Proofs.Broker.Lineage
import AudioBroker.Proofs.Broker.Report
import AudioBroker.Proofs.Tokens
import AudioBroker.Proofs.EventLoop.Session
import AudioBroker.Proofs.EventLoop.Order
import AudioBroker.Proofs.EventLoop.Restart
import AudioBroker.Proofs.InstalledStream
import AudioBroker.Proofs.Transport.Tally
import AudioBroker.Proofs.Watches
import AudioBroker.Proofs.Transport.Leaving
import AudioBroker.Proofs.Broker.Act
import AudioBroker.Proofs.Broker.Shows
import AudioBroker.Proofs.Paths
import AudioBroker.Proofs.Signals
import AudioBroker.Proofs.Transport.Ledger
import AudioBroker.Proofs.Broker.Books
import AudioBroker.Proofs.Requests
import AudioBroker.Proofs.Transport.Sweep
import AudioBroker.Proofs.Broker.Sweep
import AudioBroker.Proofs.Broker.Deed
import AudioBroker.Proofs.Broker.Visit
import AudioBroker.Proofs.Failures
import AudioBroker.Proofs.Transport.Signalling
import AudioBroker.Proofs.Broker.Life
import AudioBroker.Proofs.Isolation
import AudioBroker.Proofs.Sessions
import AudioBroker.Proofs.Peers.Fixed
import AudioBroker.Proofs.Broker.Apart
import AudioBroker.Proofs.Interleaving
import AudioBroker.Proofs.Transport.Admission
import AudioBroker.Proofs.Guarded.Transport
import AudioBroker.Proofs.Guarded.Broker
import AudioBroker.Proofs.Admission
import AudioBroker.Proofs.Release
import AudioBroker.Proofs.Transport.Sent
import AudioBroker.Proofs.Broker.Onward
import AudioBroker.Proofs.Broker.Advance
import AudioBroker.Proofs.Completion
import AudioBroker.Proofs.Transport.Ending
import AudioBroker.Proofs.Broker.Drain
import AudioBroker.Proofs.Endings
import AudioBroker.Proofs.Removal
import AudioBroker.Proofs.Transport.Undoing
import AudioBroker.Proofs.Fruitless
import AudioBroker.Proofs.Creation
import AudioBroker.Proofs.DevicePaths
import AudioBroker.Proofs.Properties
import AudioBroker.Proofs.Broker.Passage
import AudioBroker.Proofs.Stages

import LineKeeper.Main
import LineKeeper.Message.Stream
import LineKeeper.Scenario
import LineKeeper.Proofs.SignificantBytes
import LineKeeper.Proofs.Retention
import LineKeeper.Proofs.Connections
import LineKeeper.Proofs.SessionTable
import LineKeeper.Proofs.Talk
import LineKeeper.Proofs.Steps
import LineKeeper.Proofs.Draining
import LineKeeper.Proofs.Actions
import LineKeeper.Proofs.Coherence
import LineKeeper.Proofs.Refusals
import LineKeeper.Proofs.Accounts
import LineKeeper.Proofs.Shutdown
import LineKeeper.Proofs.Exchanges
import LineKeeper.Proofs.Chronicle
import LineKeeper.Proofs.Dialogues
import LineKeeper.Proofs.Attention
import LineKeeper.Proofs.OpenLinks
import LineKeeper.Proofs.Calls
import LineKeeper.Proofs.Fairness
import LineKeeper.Proofs.Progress
import LineKeeper.Proofs.Agreement
import LineKeeper.Proofs.RequestHistory
import LineKeeper.Proofs.Announcements
import LineKeeper.Proofs.LateReplies
import LineKeeper.Proofs.IdlePeriods
import LineKeeper.Proofs.IdleStops
import LineKeeper.Proofs.Inventory
import LineKeeper.Proofs.Building
import LineKeeper.Proofs.LineRequests
import LineKeeper.Proofs.Acquisition
import LineKeeper.Proofs.Registrations
import LineKeeper.Proofs.StoredPaths
import LineKeeper.Proofs.StreamBlocks
import LineKeeper.Proofs.LineOrders
import LineKeeper.Proofs.Batches
import LineKeeper.Proofs.WaitingClients
import LineKeeper.Proofs.EarlyFailures
import LineKeeper.Proofs.ErrorNumbers
import LineKeeper.Proofs.Launching
import LineKeeper.Proofs.FullSinks
import LineKeeper.Proofs.ReplyBlocks
import LineKeeper.Proofs.LogPlaces
import LineKeeper.Proofs.TimerHistory
import LineKeeper.Proofs.TwoClients
import LineKeeper.Proofs.Placement
import LineKeeper.Proofs.BrokenRules
import LineKeeper.Proofs.Labels
import LineKeeper.Proofs.BufferBounds
import LineKeeper.Proofs.StopReasons

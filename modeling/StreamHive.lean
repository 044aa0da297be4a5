import StreamHive.Lifecycle.EnvelopeGrammar
import StreamHive.Lifecycle.Convergence
import StreamHive.Lifecycle.AuthorityRun
import StreamHive.Lifecycle.InteriorDamage
import StreamHive.Replication.Network
import StreamHive.Lifecycle.StartupRace
import StreamHive.Lifecycle.RepairTail
import StreamHive.Lifecycle.RawPreflight
import StreamHive.Lifecycle.BatchIteration
import StreamHive.Lifecycle.TornTail
import StreamHive.Transport.PeerAuth
import StreamHive.Lifecycle.Redelivery
import StreamHive.Transport.Sockets
import StreamHive.Transport.Reconnection
import StreamHive.Lifecycle.CompactionStatus
import StreamHive.Lifecycle.SidecarRuns
import StreamHive.Replication.RepairBudget
import StreamHive.Storage.Inventory
import StreamHive.Replication.PutWait
import StreamHive.Replication.RepairScheduler
import StreamHive.Lifecycle.CrashPoints
import StreamHive.Lifecycle.LostAck

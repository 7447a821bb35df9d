import Librespot.Tracks.Pages
import Librespot.Tracks.Resident
import Librespot.Daemon.StatePushOrder
import Librespot.Daemon.LoaderReplies
import Librespot.Daemon.Cluster
import Librespot.Daemon.Position
import Librespot.Daemon.ShuffleOption
import Librespot.Player.PendingError
import Librespot.Player.FailedSeek
import Librespot.Player.Restriction
import Librespot.Player.Format
import Librespot.Daemon.ContextLists
import Librespot.Audio.Completeness
import Librespot.Audio.ContentRange
import Librespot.Ap.Messages
import Librespot.Dealer.Shutdown
import Librespot.Daemon.Session
import Librespot.Player.EndOfTrack
import Librespot.Daemon.Pausing
import Librespot.Daemon.StateSync
import Librespot.Daemon.SessionViews
import Librespot.Daemon.Resume
import Librespot.Playlists.Edit
import Librespot.Daemon.SkipTarget
import Librespot.Daemon.Upcoming
import Librespot.Daemon.StateStore
import Librespot.Daemon.Persist
import Librespot.Daemon.Tenancy
import Librespot.Audio.KeyReplies
import Librespot.Cache.Eviction
import Librespot.Daemon.Stopping
import Librespot.Daemon.QueuedTransfer
import Librespot.Daemon.SleepTimer
import Librespot.Playlists.LastPage
import Librespot.Playlists.Decoded
import Librespot.Daemon.QueueIds
import Librespot.Daemon.Volume
import Librespot.Daemon.MetaSweep
import Librespot.Output.Pipe
import Librespot.Mercury.Results
import Librespot.Ap.Blob
import Librespot.Zeroconf.Pairing
import Librespot.Daemon.LaneRuns
import Librespot.Daemon.UnplayableSkips
import Librespot.Daemon.SkipBurst
import Librespot.Daemon.QueueCarryOver
import Librespot.Daemon.PlayerCommand

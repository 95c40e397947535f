import Peep.Arrivals
import Peep.Assertions
import Peep.Autodiscovery
import Peep.Broadcasts
import Peep.Client.ConfigImports
import Peep.Client.Data
import Peep.Client.Discovery
import Peep.Client.Documents
import Peep.Client.GroupFilter
import Peep.Client.Leases
import Peep.Client.Notice
import Peep.Client.Notifier
import Peep.Client.Numbers
import Peep.Client.Repeats
import Peep.Client.RoundTrip
import Peep.Client.Scheduler
import Peep.Client.SchedulerOrder
import Peep.Client.SectionIsolation
import Peep.Client.ServerCache
import Peep.Client.Servers
import Peep.Client.StateSections
import Peep.Delivery
import Peep.EngineLoop
import Peep.EngineQueue
import Peep.EngineQueue.Concurrent
import Peep.EngineQueue.Representation
import Peep.Event
import Peep.Formats
import Peep.Handoff
import Peep.Handoff.Agreement
import Peep.Handoff.Assertions
import Peep.Handoff.Search
import Peep.Handoff.Waiting
import Peep.Library.Blocks
import Peep.Library.ByteOrder
import Peep.Library.Bytes
import Peep.Library.Chained
import Peep.Library.Decimal
import Peep.Library.Delimited
import Peep.Library.Double
import Peep.Library.Expiring
import Peep.Library.HeapOrder
import Peep.Library.Imports
import Peep.Library.Interleave
import Peep.Library.Layout
import Peep.Library.Linked
import Peep.Library.Matches
import Peep.Library.Pcm
import Peep.Library.Program
import Peep.Library.Ring
import Peep.Library.SinglyLinked
import Peep.Library.Stdio
import Peep.Library.StepSystem
import Peep.Library.Switch
import Peep.Library.Text
import Peep.Library.Xml
import Peep.Mixer
import Peep.Mixer.Budget
import Peep.Mixer.EventSounds
import Peep.Mixer.FadeSides
import Peep.Mixer.Headroom
import Peep.Mixer.Indices
import Peep.Mixer.LoadCalls
import Peep.Mixer.Loop
import Peep.Mixer.Segments
import Peep.Mixer.StateLoop
import Peep.Mixer.Thresholds
import Peep.MixerQueue
import Peep.MixerQueue.Concurrent
import Peep.Playback
import Peep.Playback.Go
import Peep.Playback.Range
import Peep.Server.Alsa
import Peep.Server.Bodies
import Peep.Server.Chunks
import Peep.Server.Classes
import Peep.Server.Cleanup
import Peep.Server.Cmdline
import Peep.Server.Config
import Peep.Server.ConfigEnds
import Peep.Server.ConfigFile
import Peep.Server.ConfigFormat
import Peep.Server.ConfigImports
import Peep.Server.ConfigRun
import Peep.Server.ConfigSections
import Peep.Server.ConfigStates
import Peep.Server.ConfigThresholds
import Peep.Server.Datagram
import Peep.Server.DatagramBodies
import Peep.Server.LeaseRuns
import Peep.Server.Leases
import Peep.Server.Loading
import Peep.Server.LookAhead
import Peep.Server.NoticeMemory
import Peep.Server.NoticeRuns
import Peep.Server.Packet
import Peep.Server.PortLines
import Peep.Server.Servlet
import Peep.Server.Theme
import Peep.Server.ThemeFormat
import Peep.Server.ThemeStates
import Peep.Server.ThemeTable
import Peep.Server.Tokenizer
import Peep.Server.Tokens
import Peep.Server.TransTable
import Peep.Server.Versions
import Peep.Server.XmlNotice
import Peep.SoundTable
import Peep.SoundTable.Hash
import Peep.SoundTable.Lookup

import Libpulp.RevertAll
import Libpulp.Verdict
import Libpulp.Interpret
import Libpulp.MsgQueue
import Libpulp.Interpose
import Libpulp.SymbolLoader
import Libpulp.ProcessList
import Libpulp.HijackThreads
import Libpulp.SetPatchable
import Libpulp.Atomic
import Libpulp.PcQueue
import Libpulp.Asunsafe
import Libpulp.Resolve
import Libpulp.Capacity
import Libpulp.Malformed
import Libpulp.Extract
import Libpulp.Leftover
import Libpulp.Signals
import Libpulp.Post
import Libpulp.Container
import Libpulp.ReadState
import Libpulp.Notes
import Libpulp.BadLine
import Libpulp.PowerPatch
import Libpulp.MsgTotal
import Libpulp.Introspect
import Libpulp.Delivery
import Libpulp.Check
import Libpulp.Listed
import Libpulp.StackCheck
import Libpulp.Messages
import Libpulp.Disabling
import Libpulp.Footprint
import Libpulp.Built
import Libpulp.PowerRounds
import Libpulp.References
import Libpulp.Protect
import Libpulp.MiniElf
import Libpulp.PathInject
import Libpulp.TriggerMany
import Libpulp.CommentText
import Libpulp.SideStackRun
import Libpulp.PokeFootprint
import Libpulp.BuildIdText
import Libpulp.VersionText
import Libpulp.ExternSymbols
import Libpulp.BuildIdNote
import Libpulp.Md4
import Libpulp.CommentLabels
import Libpulp.EhdrAddr
import Libpulp.Transparent
import Libpulp.TmpFile

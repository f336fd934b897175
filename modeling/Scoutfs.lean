import Scoutfs.Basic
import Scoutfs.Server.Commit
import Scoutfs.Server.AllocInodes
import Scoutfs.Server.Volopt
import Scoutfs.Server.TransSeq
import Scoutfs.Server.RemoveTransSeq
import Scoutfs.Server.Dispatch
import Scoutfs.Server.Seqcount
import Scoutfs.BlockCache
import Scoutfs.BlockCache.Write
import Scoutfs.BlockCache.Cow
import Scoutfs.Dir.Model
import Scoutfs.Dir.Invariant
import Scoutfs.Dir.Readdir
import Scoutfs.Dir.AllocIno
import Scoutfs.InodeItem
import Scoutfs.Server.Pools.Model
import Scoutfs.Server.Pools.Overlap
import Scoutfs.Server.Pools.Apart
import Scoutfs.Server.Zones
import Scoutfs.Server.Reclaim
import Scoutfs.Server.Farewell
import Scoutfs.Server.FarewellQueue
import Scoutfs.Server.Greeting
import Scoutfs.Server.Recovery

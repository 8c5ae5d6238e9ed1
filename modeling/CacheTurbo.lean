import CacheTurbo.Shm.Lifetime
import CacheTurbo.Shm.Lease
import CacheTurbo.Shm.BreakerSpec
import CacheTurbo.Shm.Record
import CacheTurbo.Http.KeySpec
import CacheTurbo.Http.ServeSpec
import CacheTurbo.Http.FreshenSpec
import CacheTurbo.Http.StoreTail
import CacheTurbo.Http.Revalidate
import CacheTurbo.Http.RevalidateSpec
import CacheTurbo.Blob.Headers
import CacheTurbo.Http.PurgeKey
import CacheTurbo.Http.Refresh
import CacheTurbo.Http.CaptureBlob
import CacheTurbo.Lib.Incremental
import CacheTurbo.L2.Memcached
import CacheTurbo.L2.MemcachedSpec
import CacheTurbo.L2.Keepalive
import CacheTurbo.L2.RedisOp
import CacheTurbo.L2.Pool
import CacheTurbo.L2.VariantIndex
import CacheTurbo.Lib.LongestSuffix
import CacheTurbo.Match.CookieAc
import CacheTurbo.Match.UriTrie
import CacheTurbo.Match.Cookies
import CacheTurbo.Match.AutoSkip
import CacheTurbo.L2.Replies
import CacheTurbo.L2.TagPurge
import CacheTurbo.L2.TagPurgeInv
import CacheTurbo.L2.TagPurgeSpec
import CacheTurbo.Shm.Markers
import CacheTurbo.Http.MarkerGate
import CacheTurbo.Shm.BreakerLease
import CacheTurbo.Shm.Pins
import CacheTurbo.Http.Restore
import CacheTurbo.Http.ForeignBlob
import CacheTurbo.Http.Outage
import CacheTurbo.Http.StoredVariant
import CacheTurbo.L2.ScanDel
import CacheTurbo.L2.TagUnlinks
import CacheTurbo.Http.Refill
import CacheTurbo.Http.RefillNode
import CacheTurbo.Http.RefillSpec
import CacheTurbo.Lib.Ledger
import CacheTurbo.Http.Park
import CacheTurbo.Http.ParkSpec
import CacheTurbo.Shm.ResolveMiss
import CacheTurbo.Shm.EvictOrder
import CacheTurbo.Shm.Lasting
import CacheTurbo.Shm.SecondChance
import CacheTurbo.Shm.FailedStore
import CacheTurbo.Shm.PurgeSweep
import CacheTurbo.Shm.MissWindow
import CacheTurbo.Shm.BreakerCalls
import CacheTurbo.Shm.BreakerDue
import CacheTurbo.Shm.BreakerBurst
import CacheTurbo.Http.ResponsePolicy
import CacheTurbo.Http.Windows
import CacheTurbo.Http.SieRewrite
import CacheTurbo.Http.SieBody
import CacheTurbo.L2.ScanPage
import CacheTurbo.L2.GetReply
import CacheTurbo.L2.Pipeline
import CacheTurbo.Http.NotModified
import CacheTurbo.Http.TagIndex
import CacheTurbo.Http.RequestCc
import CacheTurbo.Http.NormalizedArgs
import CacheTurbo.Http.ArgOrder
import CacheTurbo.Http.KeyFold
import CacheTurbo.Match.ArgRules
import CacheTurbo.Http.AeClass
import CacheTurbo.Http.ClassifyVary
import CacheTurbo.Http.BlobContract
import CacheTurbo.Http.OneWalk
import CacheTurbo.Http.VettedReplay
import CacheTurbo.Http.MarkerRollback
import CacheTurbo.Http.Promotion
import CacheTurbo.Lib.CountMin
import CacheTurbo.Shm.SketchSpec
import CacheTurbo.Lib.TailList
import CacheTurbo.Http.BodyCapture
import CacheTurbo.Http.BodyCaptureSpec
import CacheTurbo.Lib.SegmentedLru
import CacheTurbo.Shm.SegmentsSpec
import CacheTurbo.Shm.Recycled
import CacheTurbo.Http.AccessRun
import CacheTurbo.Http.AccessLoans
import CacheTurbo.Shm.CoreMove
import CacheTurbo.Shm.Memo
import CacheTurbo.Http.AccessFrame
import CacheTurbo.Http.AccessBudget
import CacheTurbo.Http.AccessLease
import CacheTurbo.Shm.AutotuneSpec
import CacheTurbo.Lib.LockLog

import ModTile.MapNames
import ModTile.Renderd.Connections
import ModTile.Renderd.MetatileFiles
import ModTile.Renderd.ProcessLoop
import ModTile.Renderd.Renderings
import ModTile.RequestQueue.Schedule
import ModTile.StoreFileRuns
import ModTile.StoreMemcached
import ModTile.StoreRados
import ModTile.TileModule.DelayPool
import ModTile.ParameterizeStyle
import ModTile.TileModule.Coordinates
import ModTile.Renderd.ReceivedStrings
import ModTile.RenderedTiles
import ModTile.TileModule.RequestTile
import ModTile.Renderd.SlaveReplies
import ModTile.StoreHttpProxy
import ModTile.SubmitQueueRuns
import ModTile.Linked.Ascend
import ModTile.Quadtree
import ModTile.RenderExpired
import ModTile.TileModule.LocalArrays
import ModTile.Bytes.Strtok
import ModTile.TileModule.ForwardedFor
import ModTile.RenderList
import ModTile.StoreFileFailures
import ModTile.Calendar
import ModTile.MemcachedBounds
import ModTile.StoreFileExpire
import ModTile.DirectoryTree
import ModTile.Mkdirp
import ModTile.TileModule.DelayEvents
import ModTile.TileModule.DelayTopUps
import ModTile.TileModule.DelayCharges
import ModTile.RequestQueue.Removal
import ModTile.Renderd.DirtyRequests
import ModTile.Renderd.ZoomShifts
import ModTile.Loop
import ModTile.Renderd.ConnectionTable
import ModTile.RenderdSections
import ModTile.Bytes.Search
import ModTile.StoreRoComposite
import ModTile.ByteStream
import ModTile.StoreRoCompositeRead
import ModTile.RenderOld
import ModTile.Bytes.Scan
import ModTile.RenderExpiredInput
import ModTile.Guarded
import ModTile.SubmitStatistics
import ModTile.CondVar
import ModTile.SubmitProgram.Progress
import ModTile.SubmitProgram.Termination
import ModTile.SubmitProgram.Answers
import ModTile.RequestQueue.Service
import ModTile.Renderd.Pool
import ModTile.StoreFileMap
import ModTile.Tally
import ModTile.TileModule.Serve
import ModTile.TileModule.Statistics
import ModTile.TileModule.Delivery
import ModTile.Drawing.Bounds
import ModTile.Drawing.MapCache
import ModTile.Drawing.Production
import ModTile.Bytes.Quoted
import ModTile.TileModule.TilePaths
import ModTile.TileModule.TileJson
import ModTile.Htcp
import ModTile.CacheExpire

import FileSync.Lib.Loop
import FileSync.Lib.RedBlack
import FileSync.Lib.Depth
import FileSync.Lib.Checked
import FileSync.Lib.ListAt
import FileSync.Lib.Word
import FileSync.Lib.Packing
import FileSync.Lib.Bytes
import FileSync.Lib.CString
import FileSync.Lib.Recency
import FileSync.Lib.Paging
import FileSync.Lib.Places
import FileSync.Lib.Fallible
import FileSync.Lib.Triple
import FileSync.Lib.Ledger
import FileSync.Lib.Erasure
import FileSync.Error
import FileSync.AlignedMmap
import FileSync.MemoryLayout
import FileSync.MemoryLayout.Regions
import FileSync.FreeList
import FileSync.MemoryBlock
import FileSync.FreeList.Bytes
import FileSync.LruCache.Code
import FileSync.LruCache.Promote
import FileSync.LruCache.Access
import FileSync.LruCache.Runs
import FileSync.LruCache.Paging
import FileSync.LruCache.Capacity
import FileSync.SearchTree.Code
import FileSync.SearchTree.Linked
import FileSync.SearchTree.Rotate
import FileSync.SearchTree.Find
import FileSync.SearchTree.Insert
import FileSync.SearchTree.FixupDelete
import FileSync.SearchTree.Delete
import FileSync.SearchTree.Cache
import FileSync.SearchTree.TreeSteps
import FileSync.SearchTree.WellFormed
import FileSync.SearchTree.Store
import FileSync.SearchTree.Assertions
import FileSync.SearchTree.Init
import FileSync.SearchTree.Geometry
import FileSync.SearchTree.Operations
import FileSync.SearchTree.Runs
import FileSync.SearchTree.Placement
import FileSync.SearchTree.Takes
import FileSync.SearchTree.PriorityQueue
import FileSync.SearchTree.Depth
import FileSync.NetSocket.Code
import FileSync.NetSocket.Exchange
import FileSync.NetSocket.Programs
import FileSync.NetSocket.Resources
import FileSync.NetSocket.Session
import FileSync.NetSocket.Party
import FileSync.NetSocket.Agreement
import FileSync.NetSocket.Completion
import FileSync.FileIo
import FileSync.FileIo.Strings
import FileSync.FileIo.Transfer
import FileSync.FileWalk.Code
import FileSync.FileWalk.Tree
import FileSync.FileWalk.Plan
import FileSync.FileWalk.Effect
import FileSync.FileWalk.Step
import FileSync.FileWalk.Walk
import FileSync.FileWalk.Record
import FileSync.FileWalk.Failure
import FileSync.FileWalk.Paths
import FileSync.FileWalk.Limits
import FileSync.FileWalk.Memory
import FileSync.FileWalk.Ownership
import FileSync.FileWalk.Release
import FileSync.FileWalk.Creation
import FileSync.FileWalk.Erasure
import FileSync.FileWalk.Leak
import FileSync.SlabAllocator.Code
import FileSync.SlabAllocator.Config
import FileSync.ThreadSafeSlab.Code
import FileSync.ThreadSafeSlab.Geometry
import FileSync.ThreadSafeSlab.Batch
import FileSync.ThreadSafeSlab.Loads
import FileSync.ThreadSafeSlab.Pool
import FileSync.ThreadSafeSlab.Acquire
import FileSync.ThreadSafeSlab.FindSlab
import FileSync.ThreadSafeSlab.Release
import FileSync.ThreadSafeSlab.System
import FileSync.ThreadSafeSlab.Ownership
import FileSync.ThreadSafeSlab.Steps
import FileSync.ThreadSafeSlab.Safety
import FileSync.ThreadSafeSlab.Counters
import FileSync.ThreadSafeSlab.Destroy
import FileSync.ThreadSafeSlab.Local
import FileSync.ThreadSafeSlab.Mutex
import FileSync.ThreadSafeSlab.Contents
import FileSync.ThreadSafeSlab.Plain

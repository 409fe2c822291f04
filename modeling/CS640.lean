import CS640.Badger.BTree.Build
import CS640.Badger.BTree.Capacity
import CS640.Badger.BTree.Close
import CS640.Badger.BTree.Descent
import CS640.Badger.BTree.Index
import CS640.Badger.BTree.Insert
import CS640.Badger.BTree.KeyTypes
import CS640.Badger.BTree.Meta
import CS640.Badger.BTree.Node
import CS640.Badger.BTree.Pins
import CS640.Badger.BTree.Scan
import CS640.Badger.BTree.ScanContract
import CS640.Badger.BTree.ScanState
import CS640.Badger.BTree.Split
import CS640.Badger.BTree.Structure
import CS640.Badger.Buffer.Accounting
import CS640.Badger.Buffer.Cache
import CS640.Badger.Buffer.Calls
import CS640.Badger.Buffer.Clients
import CS640.Badger.Buffer.Clock
import CS640.Badger.Buffer.Coherence
import CS640.Badger.Buffer.Dispose
import CS640.Badger.Buffer.Flush
import CS640.Badger.Buffer.HashTable
import CS640.Badger.Buffer.Invariant
import CS640.Badger.Buffer.Lifetime
import CS640.Badger.Buffer.P2
import CS640.Badger.Buffer.P3
import CS640.Badger.Buffer.PinSafety
import CS640.Badger.Buffer.Pool
import CS640.Badger.Buffer.Records
import CS640.Badger.Buffer.Representation
import CS640.Badger.Buffer.Room
import CS640.Badger.Buffer.SecondChance
import CS640.Badger.Buffer.Session
import CS640.Badger.Buffer.SharedFiles
import CS640.Badger.Buffer.Shutdown
import CS640.Badger.Buffer.Stats
import CS640.Badger.Buffer.Transparent
import CS640.Badger.Buffer.Updates
import CS640.Badger.Buffer.Victim
import CS640.Badger.File.BlobFile
import CS640.Badger.File.Calls
import CS640.Badger.File.Handles
import CS640.Badger.File.Keep
import CS640.Badger.File.Object
import CS640.Badger.File.Ops
import CS640.Badger.File.Owned
import CS640.Badger.File.Ownership
import CS640.Badger.File.PageFile
import CS640.Badger.File.Rejected
import CS640.Badger.File.Stream
import CS640.Badger.File.Throws
import CS640.Badger.File.UsedList
import CS640.Badger.Page
import CS640.Badger.Scan.Calls
import CS640.Badger.Scan.Complete
import CS640.Badger.Scan.FileScan
import CS640.Badger.Scan.Files
import CS640.Badger.Scan.Lifetime
import CS640.Badger.Scan.Pool
import CS640.Badger.Scan.Records
import CS640.Badger.Scan.Relations
import CS640.Badger.Scan.Resume
import CS640.Badger.Slotted.Agreement
import CS640.Badger.Slotted.Appended
import CS640.Badger.Slotted.Area
import CS640.Badger.Slotted.Calls
import CS640.Badger.Slotted.Contents
import CS640.Badger.Slotted.Counts
import CS640.Badger.Slotted.Layout
import CS640.Badger.Slotted.Page
import CS640.Badger.Slotted.Records
import CS640.Badger.Slotted.Slots
import CS640.Badger.Slotted.Store
import CS640.Badger.Slotted.Tiled
import CS640.Badger.Slotted.Versions
import CS640.Badger.Types
import CS640.Lib.Chain
import CS640.Lib.ChainedTable
import CS640.Lib.Charges
import CS640.Lib.Like
import CS640.Lib.Listing
import CS640.Lib.Lockstep
import CS640.Lib.Prog
import CS640.Lib.Quoting
import CS640.Lib.Reading
import CS640.Lib.Run
import CS640.Lib.SearchTree
import CS640.Lib.Stages
import CS640.Lib.Tiling
import CS640.Lib.Values
import CS640.Lib.Words
import CS640.P1.Commands
import CS640.P1.Locating
import CS640.P1.SessionEnd
import CS640.P1.WordLocator
import CS640.P4.Inserts
import CS640.P4.Literals
import CS640.P4.Loading
import CS640.P4.Strtok
import CS640.P4.Tokenizer
import CS640.P5.Desks
import CS640.P5.Forms
import CS640.P5.Index
import CS640.P5.Inspect
import CS640.P5.Load
import CS640.P5.RoundTrip
import CS640.P5.Search
import CS640.P5.Site
import CS640.P5.Statements
import CS640.P5.Typed

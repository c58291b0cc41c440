import CodeAtlas.Disk.Tree
import CodeAtlas.Main
import CodeAtlas.Proofs.Chunk.Partition
import CodeAtlas.Proofs.Engine.Answers
import CodeAtlas.Proofs.Graph.Order
import CodeAtlas.Proofs.Index.History
import CodeAtlas.Proofs.Cache.Inclusion
import CodeAtlas.Proofs.Graph.Reachable
import CodeAtlas.Proofs.Graph.RoundTrip
import CodeAtlas.Proofs.Graph.Indexed
import CodeAtlas.Proofs.Graph.Links
import CodeAtlas.Proofs.Graph.Calls
import CodeAtlas.Proofs.Graph.Imports
import CodeAtlas.Proofs.Graph.Cancellation
import CodeAtlas.Proofs.Embedding.Lookup
import CodeAtlas.Proofs.Embedding.Answers
import CodeAtlas.Proofs.Embedding.Transparent
import CodeAtlas.Proofs.Chunk.Ids
import CodeAtlas.Proofs.Engine.Reindexing
import CodeAtlas.Proofs.Engine.Indexing
import CodeAtlas.Proofs.Search.Selection
import CodeAtlas.Proofs.Engine.Dimension
import CodeAtlas.Proofs.Engine.Alone
import CodeAtlas.Proofs.Engine.Again
import CodeAtlas.Proofs.Json.Number
import CodeAtlas.Proofs.Json.Written
import CodeAtlas.Proofs.Embedding.Rounding
import CodeAtlas.Proofs.Embedding.Magnitude
import CodeAtlas.Proofs.Embedding.Finite
import CodeAtlas.Proofs.Json.RoundTrip
import CodeAtlas.Proofs.Embedding.Saved
import CodeAtlas.Proofs.Chunk.Counted
import CodeAtlas.Proofs.Graph.Built
import CodeAtlas.Proofs.Index.RoundTrip
import CodeAtlas.Proofs.Engine.Sound
import CodeAtlas.Proofs.Engine.Session
import CodeAtlas.Proofs.Engine.Alike
import CodeAtlas.Proofs.Engine.Restart
import CodeAtlas.Proofs.Search.Fallback
import CodeAtlas.Proofs.Search.Header
import CodeAtlas.Proofs.Outline.Calls
import CodeAtlas.Proofs.Graph.Ownership
import CodeAtlas.Proofs.Cache.RoundTrip
import CodeAtlas.Proofs.Graph.Connectivity
import CodeAtlas.Proofs.Graph.Callers
import CodeAtlas.Proofs.Json.Legible
import CodeAtlas.Proofs.Decimal.Leading
import CodeAtlas.Proofs.Cache.Shelf
import CodeAtlas.Proofs.Cache.Age
import CodeAtlas.Proofs.Graph.Arena
import CodeAtlas.Proofs.Engine.Counts
import CodeAtlas.Proofs.Embedding.Overflow
import CodeAtlas.Proofs.Json.Finite
import CodeAtlas.Proofs.Index.Reload
import CodeAtlas.Proofs.Engine.Unlisted
import CodeAtlas.Proofs.Cache.Survivors
import CodeAtlas.Proofs.Graph.Neighbours
import CodeAtlas.Proofs.Graph.Distances
import CodeAtlas.Proofs.Index.Query
import CodeAtlas.Proofs.Index.Batch
import CodeAtlas.Proofs.Graph.Quarantine
import CodeAtlas.Proofs.Path.Respelled
import CodeAtlas.Proofs.Path.Imports
import CodeAtlas.Proofs.Path.Rooted
import CodeAtlas.Proofs.Cache.Balance
import CodeAtlas.Proofs.Embedding.Remembered
import CodeAtlas.Proofs.Cache.Questions
import CodeAtlas.Proofs.Chunk.Attribution
import CodeAtlas.Proofs.Outline.Classes
import CodeAtlas.Proofs.Search.Boosts
import CodeAtlas.Proofs.Cache.Types
import CodeAtlas.Proofs.Chunk.Backward
import CodeAtlas.Proofs.Chunk.Overflow
import CodeAtlas.Proofs.Outline.Imports
import CodeAtlas.Proofs.Outline.Sequence
import CodeAtlas.Proofs.Scan.Read
import CodeAtlas.Proofs.Search.Fence
import CodeAtlas.Proofs.Cache.Counters
import CodeAtlas.Proofs.Embedding.Draws

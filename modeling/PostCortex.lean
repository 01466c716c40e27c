import PostCortex.Embeddings.Removals
import PostCortex.Embeddings.SourceSearch
import PostCortex.Graph.Communities
import PostCortex.Graph.GraphRag
import PostCortex.Graph.IndexRebuilding
import PostCortex.JsonPath.Execution
import PostCortex.JsonPath.Recognition
import PostCortex.Memory.AliasCandidates
import PostCortex.Memory.CircuitBreaker
import PostCortex.Memory.GraphCache
import PostCortex.Memory.GraphMerging
import PostCortex.Memory.Invalidation
import PostCortex.Memory.LoadGate
import PostCortex.Memory.MessageStream
import PostCortex.Memory.Pipeline
import PostCortex.Memory.ResultCompletion
import PostCortex.Memory.Timeline
import PostCortex.Memory.TokenBudget
import PostCortex.Memory.UpdateRequests
import PostCortex.Persister.DeleteSafety
import PostCortex.Persister.Exclusive
import PostCortex.Persister.Standing
import PostCortex.Search.CacheAnswers
import PostCortex.Search.Deduplication
import PostCortex.Search.RankFusion
import PostCortex.Session.FileRemoval
import PostCortex.Session.Rebuilding
import PostCortex.Session.Retirement
import PostCortex.Session.Summaries
import PostCortex.Storage.BackendAgreement
import PostCortex.Storage.CardDeletion
import PostCortex.Storage.CardTables
import PostCortex.Storage.FreshnessBackends
import PostCortex.Storage.Listing
import PostCortex.Storage.OverlappingLoads
import PostCortex.Storage.PathDirections
import PostCortex.Storage.PrefixScan
import PostCortex.Storage.Reproduction
import PostCortex.Storage.SkipScan
import PostCortex.Vectors.Chunking
import PostCortex.Vectors.Marks
import PostCortex.Workspaces.Manager

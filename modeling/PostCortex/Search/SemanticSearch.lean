import PostCortex.Core.UuidText
import PostCortex.Embeddings.VectorDb
import PostCortex.Search.QueryCache

/-!
# Semantic search

What a search selects and how it ranks it (`content_vectorizer/search.rs` over
`vector_db/core.rs`).  The embedding model, the rerankers and the arithmetic of
scores make an `Engine`; the graph of the vectors and the text indexes are parts
of a `Store`.  A hash map lists its entries in the order in which they came in.
-/

namespace PostCortex
namespace Search

open PostCortex.Core
open KeyValue

/-!
# Parameters
-/

inductive SearchMode where
  | fast
  | local
  | accurate
  deriving DecidableEq, Repr

inductive Corpus where
  | records
  | messages
  | all
  deriving DecidableEq, Repr

def Corpus.admits (contentType : String) : Corpus -> Bool
  | all => true
  | records => contentType != Embeddings.messageContentType
  | messages => contentType == Embeddings.messageContentType

def seconds (t : Timestamp) : Int :=
  t / 1000000000

/-- `DateTime<Utc>`; its seconds fit into 64 bits. -/
structure DateTime where
  nanos : Timestamp
  fits : -9223372036854775808 ≤ seconds nanos ∧
    seconds nanos < 9223372036854775808

def authorKey : String :=
  "author"

def chunkParentKey : String :=
  "parent"

/-- `VectorMetadata` with the fields a search reads. -/
structure VectorRecord where
  id : String
  text : String
  source : String
  contentType : String
  timestamp : Timestamp
  metadata : Database String String

structure Filter where
  corpus : Corpus
  dateRange : Option (DateTime × DateTime)
  author : Option String

def inRange (dateRange : Option (DateTime × DateTime)) (t : Timestamp) : Bool :=
  match dateRange with
  | none => true
  | some range => decide (range.1.nanos ≤ t) && decide (t ≤ range.2.nanos)

namespace Filter

def admits (filter : Filter) (record : VectorRecord) : Bool :=
  filter.corpus.admits record.contentType &&
    inRange filter.dateRange record.timestamp &&
    (match filter.author with
      | none => true
      | some a => record.metadata[authorKey]? == some a)

end Filter

def CacheScope.tag : CacheScope -> Nat
  | global => 0
  | session _ => 1
  | sessions _ => 2

def CacheScope.ids : CacheScope -> List Uuid
  | global => []
  | session id => [id]
  | sessions ids => ids

/-- The parameters of one search: the mode is resolved, the sessions of a
multi-session search are sorted and free of repeats, and the recency bias is the
bits of an `f32`. -/
structure SearchParams where
  query : String
  limit : BitVec 64
  scope : CacheScope
  scope_fits : scope.ids.length < 18446744073709551616
  recencyBias : BitVec 32
  mode : SearchMode
  filter : Filter
  preferAuthor : Option String

/-- `recency_bias != 0.0` fails for the two zeros. -/
def isZero (bits : BitVec 32) : Bool :=
  bits == 0#32 || bits == 0x80000000#32

/-- The bias after `clamp(0.0, 10.0)`, if it is positive. -/
def positiveBias (bits : BitVec 32) : Option (BitVec 32) :=
  if 0 < bits.toNat ∧ bits.toNat ≤ 0x7f800000 then
    some (if bits.toNat ≤ 0x41200000 then bits else 0x41200000#32)
  else none

/-!
# Stores
-/

structure SearchMatch (score : Type) where
  vectorId : Nat
  similarity : score
  record : VectorRecord

/-- What a search rests on besides the store, at the time of the search. -/
structure Engine (embedding score : Type) where
  enableCrossSessionSearch : Bool
  encodeText : String -> embedding
  similarity : embedding -> embedding -> score
  zero : score
  isNan : score -> Bool
  totalLe : score -> score -> Bool
  lt : score -> score -> Bool
  equal : score -> score -> Bool
  add : score -> score -> score
  /-- `1.0 / (RRF_K + rank + 1.0)`. -/
  reciprocalRank : Nat -> score
  /-- The fused score of so many lists, divided by the best one. -/
  normalised : Nat -> score -> score
  /-- The weighted sum of the relevance and the weight of the content type. -/
  baseScore : score -> String -> score
  decay : BitVec 32 -> score -> VectorRecord -> score
  preferAuthorBoost : score
  reranker : SearchMode -> Option (String -> List String -> Option (List score))

structure Store (embedding score : Type) where
  vectors : Database Nat (embedding × VectorRecord)
  exactSearchThreshold : Nat
  efSearch : Nat
  graphSearch : embedding -> Nat -> Nat -> Option (List (Nat × score))
  queryTerms : String -> List String
  searchText : List String -> Nat -> (Nat -> Bool) -> Option (List Nat)
  storageText : List String -> embedding -> Nat -> List String -> Corpus ->
    Option (List (SearchMatch score))

/-- `is_restrictive`: `needs_corpus_filter` for a search in both corpora is
false, and the count of the messages decides it for the records. -/
def isRestrictive {embedding score : Type} (filter : Filter)
    (store : Store embedding score) : Bool :=
  filter.dateRange.isSome || filter.author.isSome ||
    (match filter.corpus with
      | Corpus.all => false
      | Corpus.messages => true
      | Corpus.records => store.vectors.values.any
          (fun v => v.2.contentType == Embeddings.messageContentType))

section

variable {embedding score : Type} (engine : Engine embedding score)
  (store : Store embedding score)

/-- The order of `SearchResult`, best first. -/
def ranksBefore (a b : Nat × score) : Bool :=
  if engine.totalLe a.2 b.2 && engine.totalLe b.2 a.2 then decide (a.1 ≤ b.1)
  else engine.totalLe b.2 a.2

def topK (k : Nat) (scored : List (Nat × score)) : List (Nat × score) :=
  ((scored.filter (fun x => !engine.isNan x.2)).mergeSort
    (ranksBefore engine)).take k

/-- `scan_all` and `scan_ids`. -/
def scan (query : embedding) (k : Nat) (keep : VectorRecord -> Bool) :
    List (Nat × score) :=
  topK engine k ((store.vectors.toList.filter (fun v => keep v.2.2)).map
    (fun v => (v.1, engine.similarity query v.2.1)))

def toMatches (k : Nat) (keep : VectorRecord -> Bool)
    (ranked : List (Nat × score)) : List (SearchMatch score) :=
  (ranked.filterMap (fun x =>
    match store.vectors[x.1]? with
    | none => none
    | some v => if keep v.2 then some ⟨x.1, x.2, v.2⟩ else none)).take k

def searchAll (query : embedding) (k : Nat) : List (SearchMatch score) :=
  let everything := fun _ => true
  let exact := scan engine store query k everything
  toMatches store k everything
    (if store.vectors.size ≤ store.exactSearchThreshold then exact
    else (store.graphSearch query k 64).getD exact)

def searchWithFilter (query : embedding) (k : Nat)
    (keep : VectorRecord -> Bool) : List (SearchMatch score) :=
  let searchK := min (k * 10) store.vectors.size
  let graph :=
    if store.exactSearchThreshold < store.vectors.size then
      store.graphSearch query searchK (max store.efSearch (searchK * 2))
    else none
  let fromGraph :=
    (graph.map (toMatches store k keep)).filter (fun m => decide (k ≤ m.length))
  fromGraph.getD
    (toMatches store k (fun _ => true) (scan engine store query k keep))

def searchInSources (query : embedding) (k : Nat) (sources : List String)
    (keep : VectorRecord -> Bool) : List (SearchMatch score) :=
  toMatches store k (fun _ => true)
    (scan engine store query k
      (fun record => sources.contains record.source && keep record))

def matchOf (query : embedding) (id : Nat) : Option (SearchMatch score) :=
  (store.vectors[id]?).map (fun v => ⟨id, engine.similarity query v.1, v.2⟩)

/-!
# Candidates
-/

def fusionDepth : Nat :=
  50

def rerankPool : Nat :=
  300

def poolDepth (reranking : Bool) : Nat :=
  if reranking then rerankPool else fusionDepth

def searchDepth (limit : Nat) (lexical : Option (List (SearchMatch score)))
    (reranking : Bool) : Nat :=
  if reranking then max limit rerankPool
  else
    match lexical with
    | some (_ :: _) => max limit fusionDepth
    | _ => limit

/-- `VectorDB::search_text`; no sources are all sources. -/
def searchText (terms : List String) (query : embedding) (k : Nat)
    (sources : List String) (corpus : Corpus) :
    Option (List (SearchMatch score)) :=
  (store.searchText terms k (fun id =>
    match store.vectors[id]? with
    | none => false
    | some v => corpus.admits v.2.contentType &&
        (sources.isEmpty || sources.contains v.2.source))).map
    (fun ids => ids.filterMap (matchOf engine store query))

def lexicalSearch (query : String) (limit : Nat) (sources : List String)
    (corpus : Corpus) (admits : VectorRecord -> Bool) (reranking : Bool) :
    Option (List (SearchMatch score)) :=
  let terms := store.queryTerms query
  if terms.isEmpty then none
  else
    let embedded := engine.encodeText query
    let depth := max limit (poolDepth reranking)
    ((store.storageText terms embedded depth sources corpus).or
      (searchText engine store terms embedded depth sources corpus)).map
      (fun hits => hits.filter (fun m => admits m.record))

def graphMatches (ids : List String) (query : embedding) (source : String)
    (admits : VectorRecord -> Bool) : List (SearchMatch score) :=
  ids.filterMap (fun id =>
    ((store.vectors.toList.find? (fun v => v.2.2.id == id)).bind
      (fun v => matchOf engine store query v.1)).filter
        (fun m => m.record.source == source && admits m.record))

/-!
# Ranking
-/

/-- Where the fusion is in one list, and what it has of all lists. -/
structure Fusing (score : Type) where
  position : Nat
  rank : Nat
  previousText : Option String
  seen : List (String × String)
  fused : List ((String × String) × SearchMatch score × score)

def addScore (key : String × String) (m : SearchMatch score) (s : score) :
    List ((String × String) × SearchMatch score × score) ->
      List ((String × String) × SearchMatch score × score)
  | [] => [(key, m, s)]
  | (k, old, sum) :: rest =>
      if k = key then (k, old, engine.add sum s) :: rest
      else (k, old, sum) :: addScore key m s rest

def fuseMatch (f : Fusing score) (m : SearchMatch score) : Fusing score :=
  let key := (m.record.source, m.record.id)
  if key ∈ f.seen then f
  else
    let rank := if f.previousText = some m.record.text then f.rank else f.position
    { position := f.position + 1
      rank := rank
      previousText := some m.record.text
      seen := key :: f.seen
      fused := addScore engine key m (engine.reciprocalRank rank) f.fused }

def fuse (lists : List (List (SearchMatch score))) :
    List (SearchMatch score × score) :=
  let fused := lists.foldl
    (fun fused list => (list.foldl (fuseMatch engine) ⟨0, 0, none, [], fused⟩).fused)
    []
  (fused.map (fun x => (x.2.1, engine.normalised lists.length x.2.2))).mergeSort
    (fun a b => engine.totalLe b.2 a.2)

def rank (vector : List (SearchMatch score))
    (others : List (Option (List (SearchMatch score)))) :
    List (SearchMatch score × score) :=
  let others := (others.filterMap id).filter (fun list => !list.isEmpty)
  if others.isEmpty then vector.map (fun m => (m, m.similarity))
  else fuse engine (vector :: others)

def rerank (reranker : Option (String -> List String -> Option (List score)))
    (query : String) (ranked : List (SearchMatch score × score)) :
    List (SearchMatch score × score) :=
  match reranker with
  | none => ranked
  | some score =>
      let pool := ranked.take rerankPool
      match score query (pool.map (fun x => x.1.record.text)) with
      | none => pool
      | some scores =>
          if scores.length = pool.length then
            ((pool.zip scores).map (fun x => (x.1.1, x.2))).mergeSort
              (fun a b => engine.totalLe b.2 a.2)
          else pool

structure SearchResult (score : Type) where
  contentId : String
  sessionId : Uuid
  contentType : String
  textContent : String
  similarityScore : score
  timestamp : Timestamp
  combinedScore : score
  author : Option String

/-- The result of a content id that replaces the one there is, or a new one at the
end. -/
def keepBetter (result : SearchResult score) :
    List (SearchResult score) -> List (SearchResult score)
  | [] => [result]
  | old :: rest =>
      if old.contentId = result.contentId then
        if engine.lt old.combinedScore result.combinedScore ||
            engine.equal result.combinedScore old.combinedScore &&
              decide (old.timestamp < result.timestamp) then
          result :: rest
        else old :: rest
      else old :: keepBetter result rest

variable [UuidText]

def resultOf (recencyBias : Option (BitVec 32)) (preferAuthor : Option String)
    (ranked : SearchMatch score × score) : Except String (SearchResult score) :=
  match UuidText.parseStr ranked.1.record.source with
  | Except.error _ => Except.error "Invalid session ID in metadata"
  | Except.ok sessionId =>
      let record := ranked.1.record
      let base := engine.baseScore ranked.2 record.contentType
      let adjusted :=
        match recencyBias with
        | none => base
        | some bias => engine.decay bias base record
      let author := record.metadata[authorKey]?
      Except.ok
        { contentId := (record.metadata[chunkParentKey]?).getD record.id
          sessionId := sessionId
          contentType := record.contentType
          textContent := record.text
          similarityScore := ranked.1.similarity
          timestamp := record.timestamp
          combinedScore :=
            if preferAuthor.isSome && author == preferAuthor then
              engine.add adjusted engine.preferAuthorBoost
            else adjusted
          author := author }

def processSearchResults (ranked : List (SearchMatch score × score))
    (recencyBias : Option (BitVec 32)) (preferAuthor : Option String) :
    Except String (List (SearchResult score)) :=
  (ranked.mapM (resultOf engine recencyBias preferAuthor)).map (fun results =>
    (results.foldl (fun kept result => keepBetter engine result kept) []).mergeSort
      (fun a b => !engine.lt a.combinedScore b.combinedScore))

/-!
# The search
-/

/-- `semantic_search_shared` and `semantic_search_multisession_shared` after a
miss, without a trace; `graphCandidates` is the option of this name. -/
def semanticSearch (graphCandidates : Option (List String)) (p : SearchParams) :
    Except String (List (SearchResult score)) :=
  if p.scope = CacheScope.global ∧ engine.enableCrossSessionSearch = false then
    Except.ok []
  else
    let limit := p.limit.toNat
    let reranker := engine.reranker p.mode
    let admits := p.filter.admits
    let embedded := engine.encodeText p.query
    let sources := p.scope.ids.map UuidText.toText
    let lexical :=
      lexicalSearch engine store p.query limit sources p.filter.corpus admits
        reranker.isSome
    let depth := searchDepth limit lexical reranker.isSome
    let filtered := isRestrictive p.filter store
    let vector :=
      match p.scope with
      | CacheScope.global =>
          if filtered then searchWithFilter engine store embedded depth admits
          else searchAll engine store embedded depth
      | CacheScope.session _ | CacheScope.sessions _ =>
          searchInSources engine store embedded depth sources
            (if filtered then admits else fun _ => true)
    let graph :=
      match reranker, p.scope, graphCandidates with
      | some _, CacheScope.session id, some ids =>
          if p.filter.corpus = Corpus.messages then none
          else some (graphMatches engine store ids embedded (UuidText.toText id)
            admits)
      | _, _, _ => none
    let ranked :=
      rerank engine reranker p.query (rank engine vector [lexical, graph])
    (processSearchResults engine ranked (positiveBias p.recencyBias)
      p.preferAuthor).map (fun results => results.take limit)

end

end Search
end PostCortex

import Mathlib.Data.List.Perm.Subperm
import PostCortex.Embeddings.VectorDb
import PostCortex.Vectors.Erasure

/-!
# What `remove_content` forgets

The vectors of one content of a session, in memory and in storage
(`content_vectorizer/vectorizer.rs` over `vector_db/core.rs`).  Which chunks there
are is read off memory alone, up to the first number that is missing there; a chunk
beyond it stays where it is.
-/

namespace PostCortex
namespace Vectors

open PostCortex.Embeddings
open PostCortex.Graph
open KeyValue

variable {scalar : Type}

/-- Both stores; a persisted vector is known by the session and the content id of its
metadata. -/
structure Stores (scalar : Type) where
  memory : VectorDb scalar
  persisted : Option (List (List scalar × VectorMetadata))

def chunkId (contentId : String) (n : Nat) : String :=
  contentId ++ "#" ++ toString n

def sourceContentIds (db : VectorDb scalar) (contentId source : String) : List Nat :=
  (db.findVectorIdsByContentId contentId).filter
    (fun id => (db.metadata[id]?).any (fun m => m.source == source))

/-- No vector is of two chunks, so the loop ends after as many as there are; they are
fewer than its counter of 32 bits counts. -/
def chunkNumbers (db : VectorDb scalar) (contentId source : String) : List Nat :=
  chunksFrom (fun n => !(sourceContentIds db (chunkId contentId n) source).isEmpty)
    db.records.length 2

def contentIds (db : VectorDb scalar) (contentId source : String) : List String :=
  contentId :: (chunkNumbers db contentId source).map (chunkId contentId)

section

variable [WordTables]

def dropNext (source : String) (s : VectorDb scalar × Nat) (id : String) :
    Option (VectorDb scalar × Nat) :=
  (s.1.removeVectors (sourceContentIds s.1 id source)).map
    (fun r => (r.1, s.2 + r.2))

def removeSessionVector (source contentId : String)
    (rows : List (List scalar × VectorMetadata)) :
    List (List scalar × VectorMetadata) :=
  rows.filter (fun v => !(v.2.source == source && v.2.id == contentId))

def removePersisted (fault : String -> Option String) (source : String) :
    List String -> List (List scalar × VectorMetadata) ->
      List (List scalar × VectorMetadata) × Option String
  | [], rows => (rows, none)
  | id :: rest, rows =>
      match fault id with
      | some _ => (rows, some ("Failed to delete persisted embedding " ++ id))
      | none => removePersisted fault source rest (removeSessionVector source id rows)

def removeContent (fault : String -> Option String) (s : Stores scalar)
    (source contentId : String) : Option (Stores scalar × Except String Nat) :=
  let ids := contentIds s.memory contentId source
  (ids.foldlM (dropNext source) (s.memory, 0)).map (fun r =>
    match s.persisted with
    | none => (⟨r.1, none⟩, Except.ok r.2)
    | some rows =>
        let (rows', error) := removePersisted fault source ids rows
        (⟨r.1, some rows'⟩, error.elim (Except.ok r.2) Except.error))

end

/-!
# Looking up a content
-/

variable {config : VectorDbConfig}

def InMemory (db : VectorDb scalar) (source contentId : String) : Prop :=
  exists (id : Nat) (m : VectorMetadata), db.metadata[id]? = some m ∧
    m.source = source ∧ m.id = contentId

theorem getD_present {item : Type} [DecidableEq item] (xs : List item) :
    (present xs).getD [] = xs := by
  unfold present
  split
  · next hnil =>
      rw [hnil]
      rfl
  · rfl

variable {db : VectorDb scalar} {contentId source : String}

theorem mem_sourceContentIds [WordTables] (h : VectorDb.Indexed config db)
    {id : Nat} :
    id ∈ sourceContentIds db contentId source ↔
      exists m, db.metadata[id]? = some m ∧ m.source = source ∧ m.id = contentId := by
  rw [sourceContentIds, List.mem_filter, VectorDb.findVectorIdsByContentId,
    h.byContentId, VectorDb.contentEntry, getD_present, List.mem_map]
  constructor
  · rintro ⟨⟨r, hr, rfl⟩, hsource⟩
    obtain ⟨hrecord, hcontent⟩ := List.mem_filter.mp hr
    have hget := VectorDb.mem_records.mp (show (r.1, r.2) ∈ db.records from hrecord)
    rw [hget, Option.any_some, beq_iff_eq] at hsource
    exact ⟨r.2, hget, hsource, of_decide_eq_true hcontent⟩
  · rintro ⟨m, hget, hsource, hcontent⟩
    refine ⟨⟨(id, m), List.mem_filter.mpr ⟨VectorDb.mem_records.mpr hget,
      decide_eq_true hcontent⟩, rfl⟩, ?_⟩
    rw [hget, Option.any_some, beq_iff_eq]
    exact hsource

theorem sourceContentIds_isEmpty [WordTables] (h : VectorDb.Indexed config db)
    (contentId source : String) :
    (!(sourceContentIds db contentId source).isEmpty) = true ↔
      InMemory db source contentId := by
  rw [Bool.not_eq_true', List.isEmpty_eq_false_iff_exists_mem]
  constructor
  · rintro ⟨id, hid⟩
    exact ⟨id, (mem_sourceContentIds h).mp hid⟩
  · rintro ⟨id, hid⟩
    exact ⟨id, (mem_sourceContentIds h).mpr hid⟩

variable {n : Nat}

theorem chunkId_inj {m : Nat} (h : chunkId contentId n = chunkId contentId m) :
    n = m := by
  have hlist := congrArg String.toList h
  simp only [chunkId, String.toList_append, List.append_assoc] at hlist
  exact toString_inj (String.toList_inj.mp
    (List.append_cancel_left (List.append_cancel_left hlist)))

theorem chunkId_ne (contentId : String) (n : Nat) :
    chunkId contentId n ≠ contentId := by
  intro h
  have hlength := congrArg String.length h
  simp only [chunkId, String.length_append] at hlength
  have hsharp : "#".length = 1 := by decide
  omega

theorem mem_chunksFrom_iff {present : Nat -> Bool} {fuel m : Nat} :
    m ∈ chunksFrom present fuel n ↔ n ≤ m ∧ m < n + fuel ∧
      forall j, n ≤ j -> j ≤ m -> present j = true := by
  constructor
  · intro h
    induction fuel generalizing n with
    | zero => cases h
    | succ fuel ih =>
        rw [chunksFrom] at h
        split at h
        · next hpresent =>
            rcases List.mem_cons.mp h with rfl | hrest
            · refine ⟨Nat.le_refl m, by omega, ?_⟩
              intro j hle hge
              rw [Nat.le_antisymm hge hle]
              exact hpresent
            · obtain ⟨hle, hlt, hall⟩ := ih hrest
              refine ⟨by omega, by omega, ?_⟩
              intro j hj hjm
              by_cases heq : j = n
              · rw [heq]
                exact hpresent
              · exact hall j (by omega) hjm
        · cases h
  · rintro ⟨hle, hlt, hall⟩
    exact mem_chunksFrom fuel n hle hlt hall

theorem chunks_le_records
    (h : forall j, 2 ≤ j -> j ≤ n -> InMemory db source (chunkId contentId j)) :
    n < 2 + db.records.length := by
  have hnodup : ((List.range' 2 (n - 1)).map (chunkId contentId)).Nodup :=
    (List.nodup_range' 1).map (fun _ _ => chunkId_inj)
  have hsubset : (List.range' 2 (n - 1)).map (chunkId contentId) ⊆
      db.records.map (fun r => r.2.id) := by
    intro id hid
    obtain ⟨j, hj, rfl⟩ := List.mem_map.mp hid
    rw [List.mem_range'_1] at hj
    obtain ⟨x, m, hget, -, hm⟩ := h j hj.1 (by omega)
    exact List.mem_map.mpr ⟨(x, m), VectorDb.mem_records.mpr hget, hm⟩
  have hlength := (List.subperm_of_subset hnodup hsubset).length_le
  rw [List.length_map, List.length_range', List.length_map] at hlength
  omega

theorem mem_chunkNumbers [WordTables] (h : VectorDb.Indexed config db) :
    n ∈ chunkNumbers db contentId source ↔ 2 ≤ n ∧
      forall j, 2 ≤ j -> j ≤ n -> InMemory db source (chunkId contentId j) := by
  simp only [chunkNumbers, mem_chunksFrom_iff, sourceContentIds_isEmpty h]
  constructor
  · rintro ⟨hle, -, hall⟩
    exact ⟨hle, hall⟩
  · rintro ⟨hle, hall⟩
    exact ⟨hle, chunks_le_records hall, hall⟩

theorem mem_contentIds [WordTables] (h : VectorDb.Indexed config db) {id : String} :
    id ∈ contentIds db contentId source ↔ id = contentId ∨
      exists n, 2 ≤ n ∧ id = chunkId contentId n ∧
        forall j, 2 ≤ j -> j ≤ n -> InMemory db source (chunkId contentId j) := by
  rw [contentIds, List.mem_cons, List.mem_map]
  simp only [mem_chunkNumbers h]
  constructor
  · rintro (heq | ⟨n, ⟨hle, hall⟩, rfl⟩)
    · exact Or.inl heq
    · exact Or.inr ⟨n, hle, rfl, hall⟩
  · rintro (heq | ⟨n, hle, rfl, hall⟩)
    · exact Or.inl heq
    · exact Or.inr ⟨n, ⟨hle, hall⟩, rfl⟩

/-!
# Removing from memory
-/

section

variable [WordTables]

variable {db db' : VectorDb scalar}

theorem forget_get {id : Nat} (h : db.forget id = some db') (x : Nat) :
    db'.vectors = db.vectors ∧
      db'.metadata[x]? = if x = id then none else db.metadata[x]? := by
  unfold VectorDb.forget at h
  split at h
  · next hnone =>
      cases h
      refine ⟨rfl, ?_⟩
      split
      · next heq => rw [heq, hnone]
      · rfl
  · next metadata hget =>
      rw [VectorDb.unindexMetadata, Option.bind_eq_some_iff] at h
      obtain ⟨messages, -, hindex⟩ := h
      obtain ⟨index, -, rfl⟩ := Option.map_eq_some_iff.mp hindex
      refine ⟨rfl, ?_⟩
      simp only [Std.ExtTreeMap.getElem?_erase, Std.compare_eq_iff_eq]
      by_cases hx : x = id
      · simp [hx]
      · simp [hx, Ne.symm hx]

theorem removeVectors_get {ids : List Nat} {count : Nat}
    (h : db.removeVectors ids = some (db', count)) (x : Nat) :
    db'.vectors[x]? = (if x ∈ ids then none else db.vectors[x]?) ∧
      db'.metadata[x]? = if x ∈ ids then none else db.metadata[x]? := by
  have hfold : forall (ids : List Nat) (s s' : VectorDb scalar × Finset Nat),
      ids.foldlM VectorDb.removeNext s = some s' ->
      s'.1.vectors[x]? = (if x ∈ ids then none else s.1.vectors[x]?) ∧
        s'.1.metadata[x]? = if x ∈ ids then none else s.1.metadata[x]? := by
    intro ids
    induction ids with
    | nil =>
        intro s s' hs
        cases hs
        exact ⟨rfl, rfl⟩
    | cons id rest ih =>
        intro s s' hs
        rw [List.foldlM_cons] at hs
        obtain ⟨next, hnext, hrest⟩ := Option.bind_eq_some_iff.mp hs
        obtain ⟨db, hforget, rfl⟩ := Option.map_eq_some_iff.mp hnext
        obtain ⟨hvectors, hmetadata⟩ := forget_get hforget x
        obtain ⟨hrestVectors, hrestMetadata⟩ := ih _ _ hrest
        simp only [hvectors, Std.ExtTreeMap.getElem?_erase, Std.compare_eq_iff_eq]
          at hrestVectors
        rw [hrestVectors, hrestMetadata, hmetadata]
        by_cases hx : x = id
        · simp [hx]
        · by_cases hmem : x ∈ rest
          · simp [hmem]
          · simp [hx, hmem, Ne.symm hx]
  rw [VectorDb.removeVectors] at h
  obtain ⟨s', hs', heq⟩ := Option.map_eq_some_iff.mp h
  cases heq
  exact hfold ids (db, ∅) s' hs'

def Holds (source : String) (ids : List String) (m : VectorMetadata) : Prop :=
  m.source = source ∧ m.id ∈ ids

/-- Memory without the vectors of this session under these content ids. -/
structure Without (source : String) (ids : List String) (db db' : VectorDb scalar) :
    Prop where
  kept : forall (id : Nat) m, db.metadata[id]? = some m -> ¬ Holds source ids m ->
    db'.metadata[id]? = some m ∧ db'.vectors[id]? = db.vectors[id]?
  left : forall (id : Nat) m, db'.metadata[id]? = some m ->
    db.metadata[id]? = some m ∧ ¬ Holds source ids m

theorem dropNext_without (h : VectorDb.Coherent config db) (source id : String)
    (count : Nat) :
    exists db' count', dropNext source (db, count) id = some (db', count') ∧
      VectorDb.Coherent config db' ∧ Without source [id] db db' := by
  obtain ⟨db', removed, hremove, hdb'⟩ :=
    h.removeVectors (sourceContentIds db id source)
  refine ⟨db', count + removed, ?_, hdb', ?_, ?_⟩
  · rw [dropNext, hremove]
    rfl
  · intro x m hm hother
    obtain ⟨hvectors, hmetadata⟩ := removeVectors_get hremove x
    have hnot : x ∉ sourceContentIds db id source := by
      intro hx
      obtain ⟨m', hm', hsource, hid⟩ := (mem_sourceContentIds h.toIndexed).mp hx
      rw [hm] at hm'
      cases hm'
      exact hother ⟨hsource, List.mem_singleton.mpr hid⟩
    rw [hvectors, hmetadata, if_neg hnot, if_neg hnot]
    exact ⟨hm, rfl⟩
  · intro x m hm
    rw [(removeVectors_get hremove x).2] at hm
    split at hm
    · cases hm
    · next hnot =>
        refine ⟨hm, ?_⟩
        rintro ⟨hsource, hid⟩
        exact hnot ((mem_sourceContentIds h.toIndexed).mpr
          ⟨m, hm, hsource, List.mem_singleton.mp hid⟩)

theorem foldlM_dropNext (h : VectorDb.Coherent config db) (source : String)
    (ids : List String) (count : Nat) :
    exists db' count', ids.foldlM (dropNext source) (db, count) = some (db', count') ∧
      VectorDb.Coherent config db' ∧ Without source ids db db' := by
  induction ids generalizing db count with
  | nil =>
      refine ⟨db, count, rfl, h, ?_, ?_⟩
      · exact fun id m hm _ => ⟨hm, rfl⟩
      · exact fun id m hm => ⟨hm, fun hin => absurd hin.2 List.not_mem_nil⟩
  | cons id rest ih =>
      obtain ⟨next, count', hnext, hcoherent, hfirst⟩ := dropNext_without h source id count
      obtain ⟨db', count'', hrest, hdb', hothers⟩ := ih hcoherent count'
      refine ⟨db', count'', ?_, hdb', ?_, ?_⟩
      · rw [List.foldlM_cons, hnext]
        exact hrest
      · intro x m hm hother
        obtain ⟨hm', hvector⟩ := hfirst.kept x m hm
          (fun hin => hother ⟨hin.1, List.mem_cons.mpr
            (Or.inl (List.mem_singleton.mp hin.2))⟩)
        obtain ⟨hm'', hvector'⟩ := hothers.kept x m hm'
          (fun hin => hother ⟨hin.1, List.mem_cons_of_mem _ hin.2⟩)
        exact ⟨hm'', hvector'.trans hvector⟩
      · intro x m hm
        obtain ⟨hm', hrest'⟩ := hothers.left x m hm
        obtain ⟨hm'', hnot⟩ := hfirst.left x m hm'
        refine ⟨hm'', ?_⟩
        rintro ⟨hsource, hid⟩
        rcases List.mem_cons.mp hid with heq | hid
        · exact hnot ⟨hsource, List.mem_singleton.mpr heq⟩
        · exact hrest' ⟨hsource, hid⟩

/-!
# Removing from storage
-/

variable {fault : String -> Option String} {source : String}

omit [WordTables] in
theorem removePersisted_ok {ids : List String}
    {rows rows' : List (List scalar × VectorMetadata)}
    (h : removePersisted fault source ids rows = (rows', none)) :
    rows'.Sublist rows ∧ forall v, v ∈ rows' ↔ v ∈ rows ∧ ¬ Holds source ids v.2 := by
  induction ids generalizing rows with
  | nil =>
      cases h
      refine ⟨List.Sublist.refl _, ?_⟩
      intro v
      constructor
      · exact fun hv => ⟨hv, fun hin => absurd hin.2 List.not_mem_nil⟩
      · exact And.left
  | cons id rest ih =>
      rw [removePersisted] at h
      split at h
      · cases h
      · obtain ⟨hsublist, hmem⟩ := ih h
        refine ⟨hsublist.trans List.filter_sublist, ?_⟩
        intro v
        rw [hmem, removeSessionVector, List.mem_filter]
        simp only [Holds, Bool.not_eq_true', Bool.and_eq_false_iff, beq_eq_false_iff_ne,
          List.mem_cons]
        by_cases hsource : v.2.source = source
        · by_cases hid : v.2.id = id
          · simp [hsource, hid]
          · simp [hsource, hid]
        · simp [hsource]

/-!
# What is forgotten
-/

/-- The vector is of this session, under the content id or that of a chunk. -/
def IsOf (source contentId : String) (m : VectorMetadata) : Prop :=
  m.source = source ∧
    (m.id = contentId ∨ exists n, 2 ≤ n ∧ m.id = chunkId contentId n)

/-- No store has a vector of the content any more, and every other vector is where it
was. -/
structure ForgetsContent (source contentId : String) (s s' : Stores scalar) : Prop where
  memory : forall (id : Nat) m, s'.memory.metadata[id]? = some m ->
    ¬ IsOf source contentId m
  persisted : forall v, v ∈ s'.persisted.getD [] -> ¬ IsOf source contentId v.2
  others : forall (id : Nat) m, s.memory.metadata[id]? = some m ->
    ¬ IsOf source contentId m -> s'.memory.metadata[id]? = some m ∧
      s'.memory.vectors[id]? = s.memory.vectors[id]?
  old : forall (id : Nat) m, s'.memory.metadata[id]? = some m ->
    s.memory.metadata[id]? = some m
  rows : (s'.persisted.getD []).Sublist (s.persisted.getD [])
  otherRows : forall v, v ∈ s.persisted.getD [] -> ¬ IsOf source contentId v.2 ->
    v ∈ s'.persisted.getD []

def InStorage (s : Stores scalar) (source contentId : String) : Prop :=
  exists v, v ∈ s.persisted.getD [] ∧ v.2.source = source ∧ v.2.id = contentId

/-- The chunks before one that is in a store are in memory, and so is that one. -/
def Consecutive (s : Stores scalar) (source contentId : String) : Prop :=
  forall n, 2 ≤ n ->
    InMemory s.memory source (chunkId contentId n) ∨
      InStorage s source (chunkId contentId n) ->
    forall m, 2 ≤ m -> m ≤ n -> InMemory s.memory source (chunkId contentId m)

variable {contentId : String}

theorem removeContent_ok {s s' : Stores scalar}
    (h : VectorDb.Coherent config s.memory) {removed : Nat}
    (hresult : removeContent fault s source contentId = some (s', Except.ok removed)) :
    Without source (contentIds s.memory contentId source) s.memory s'.memory ∧
      (s'.persisted.getD []).Sublist (s.persisted.getD []) ∧
      forall v, v ∈ s'.persisted.getD [] ↔ v ∈ s.persisted.getD [] ∧
        ¬ Holds source (contentIds s.memory contentId source) v.2 := by
  obtain ⟨db', count, hfold, -, hwithout⟩ := foldlM_dropNext h source
    (contentIds s.memory contentId source) 0
  rw [removeContent, hfold, Option.map_some, Option.some.injEq] at hresult
  cases hpersisted : s.persisted with
  | none =>
      simp only [hpersisted] at hresult
      cases hresult
      exact ⟨hwithout, List.Sublist.refl _, fun v => by simp⟩
  | some rows =>
      simp only [hpersisted] at hresult
      cases hremove : removePersisted fault source
          (contentIds s.memory contentId source) rows with
      | mk rows' error =>
          rw [hremove] at hresult
          cases error with
          | some e =>
              simp at hresult
          | none =>
              cases hresult
              obtain ⟨hsublist, hmem⟩ := removePersisted_ok hremove
              exact ⟨hwithout, hsublist, hmem⟩

theorem holds_isOf (h : VectorDb.Indexed config db) {m : VectorMetadata}
    (hholds : Holds source (contentIds db contentId source) m) :
    IsOf source contentId m := by
  obtain ⟨hsource, hid⟩ := hholds
  rcases (mem_contentIds h).mp hid with heq | ⟨n, hn, heq, _⟩
  · exact ⟨hsource, Or.inl heq⟩
  · exact ⟨hsource, Or.inr ⟨n, hn, heq⟩⟩

/-- A chunk is among the removed ids exactly when it and those before it are in
memory. -/
theorem chunkId_mem_contentIds (h : VectorDb.Indexed config db) {n : Nat}
    (hn : 2 ≤ n) :
    chunkId contentId n ∈ contentIds db contentId source ↔
      forall m, 2 ≤ m -> m ≤ n -> InMemory db source (chunkId contentId m) := by
  rw [mem_contentIds h]
  constructor
  · rintro (heq | ⟨k, _, heq, hall⟩)
    · exact absurd heq (chunkId_ne contentId n)
    · rw [chunkId_inj heq]
      exact hall
  · exact fun hall => Or.inr ⟨n, hn, rfl, hall⟩

/-- A successful `remove_content` forgets the content in both stores, and nothing
else, exactly when the chunks that a store has are in memory without a gap. -/
theorem remove_content_forgets {s s' : Stores scalar}
    (h : VectorDb.Coherent config s.memory) {fault : String -> Option String}
    {source contentId : String} {removed : Nat}
    (hresult : removeContent fault s source contentId = some (s', Except.ok removed)) :
    ForgetsContent source contentId s s' ↔ Consecutive s source contentId := by
  obtain ⟨hwithout, hsublist, hrows⟩ := removeContent_ok h hresult
  have hindexed := h.toIndexed
  constructor
  · intro hforgets n hn hstored
    refine (chunkId_mem_contentIds hindexed hn).mp ?_
    by_contra hnot
    rcases hstored with ⟨id, m, hm, hsource, hid⟩ | ⟨v, hv, hsource, hid⟩
    · have hkept := (hwithout.kept id m hm (fun hholds => hnot (hid ▸ hholds.2))).1
      exact hforgets.memory id m hkept ⟨hsource, Or.inr ⟨n, hn, hid⟩⟩
    · have hkept := (hrows v).mpr ⟨hv, fun hholds => hnot (hid ▸ hholds.2)⟩
      exact hforgets.persisted v hkept ⟨hsource, Or.inr ⟨n, hn, hid⟩⟩
  · intro hconsecutive
    have hholds : forall m : VectorMetadata,
        (forall n, 2 ≤ n -> m.id = chunkId contentId n ->
          InMemory s.memory source (chunkId contentId n) ∨
            InStorage s source (chunkId contentId n)) ->
        IsOf source contentId m ->
        Holds source (contentIds s.memory contentId source) m := by
      rintro m hstored ⟨hsource, heq | ⟨n, hn, heq⟩⟩
      · exact ⟨hsource, heq ▸ List.mem_cons_self⟩
      · refine ⟨hsource, ?_⟩
        rw [heq, chunkId_mem_contentIds hindexed hn]
        exact hconsecutive n hn (hstored n hn heq)
    constructor
    · intro id m hm hisOf
      obtain ⟨hbefore, hnot⟩ := hwithout.left id m hm
      exact hnot (hholds m
        (fun n _ heq => Or.inl ⟨id, m, hbefore, hisOf.1, heq⟩) hisOf)
    · intro v hv hisOf
      obtain ⟨hbefore, hnot⟩ := (hrows v).mp hv
      exact hnot (hholds v.2
        (fun n _ heq => Or.inr ⟨v, hbefore, hisOf.1, heq⟩) hisOf)
    · exact fun id m hm hother =>
        hwithout.kept id m hm (fun hin => hother (holds_isOf hindexed hin))
    · exact fun id m hm => (hwithout.left id m hm).1
    · exact hsublist
    · exact fun v hv hother =>
        (hrows v).mpr ⟨hv, fun hin => hother (holds_isOf hindexed hin)⟩

end

section

attribute [local instance] Temporal.asciiWords

def twoChunks : List (List Nat × VectorMetadata) :=
  [([7], ⟨"u", "Use Redis", "s", "UpdateContent"⟩),
    ([8], ⟨"u#2", "for sessions", "s", "UpdateContent"⟩)]

def loaded (maxVectors : Nat) : VectorDb Nat :=
  ((VectorDb.empty.addVectorsBulk ⟨1, maxVectors, false⟩ twoChunks).map
    Prod.fst).getD VectorDb.empty

theorem loaded_coherent (maxVectors : Nat) :
    VectorDb.Coherent ⟨1, maxVectors, false⟩ (loaded maxVectors) := by
  have hroom : (VectorDb.empty : VectorDb Nat).Unwrapped ⟨1, maxVectors, false⟩
      (VectorDb.Call.addVectorsBulk twoChunks) := by
    have hfew : (VectorDb.empty : VectorDb Nat).issued ⟨1, maxVectors, false⟩
        twoChunks ≤ 2 :=
      Nat.min_le_left _ _
    show 0 + (VectorDb.empty : VectorDb Nat).issued _ twoChunks < 2 ^ 32
    omega
  obtain ⟨db, hadd, hdb, _⟩ :=
    (VectorDb.coherent_empty ⟨1, maxVectors, false⟩).addVectorsBulk twoChunks hroom
  rw [loaded, hadd]
  exact hdb

theorem second_chunk : chunkId "u" 2 = "u#2" := by
  decide +kernel

theorem loaded_ids : (loaded 2).records.all
    (fun r => decide (r.2.id = "u" ∨ r.2.id = "u#2")) = true := by
  decide +kernel

theorem loaded_consecutive : Consecutive ⟨loaded 2, some twoChunks⟩ "s" "u" := by
  have hchunk : (loaded 2).metadata[1]? =
      some ⟨"u#2", "for sessions", "s", "UpdateContent"⟩ := by
    decide +kernel
  intro n hn hstored m hm hle
  have hid : chunkId "u" n = "u" ∨ chunkId "u" n = "u#2" := by
    rcases hstored with ⟨id, r, hr, _, hid⟩ | ⟨v, hv, _, hid⟩
    · rw [← hid]
      exact of_decide_eq_true
        (List.all_eq_true.mp loaded_ids _ (VectorDb.mem_records.mpr hr))
    · rw [← hid]
      rcases List.mem_cons.mp hv with rfl | hv
      · exact Or.inl rfl
      · rw [List.mem_singleton.mp hv]
        exact Or.inr rfl
  rcases hid with heq | heq
  · exact absurd heq (chunkId_ne "u" n)
  · have htwo : n = 2 := chunkId_inj (heq.trans second_chunk.symm)
    rw [show m = 2 by omega, second_chunk]
    exact ⟨1, _, hchunk, rfl, rfl⟩

/-- Both chunks are in memory and in storage. -/
theorem remove_content_forgets_chunks :
    exists s' removed,
      removeContent (fun _ => none) ⟨loaded 2, some twoChunks⟩ "s" "u" =
        some (s', Except.ok removed) ∧
      ForgetsContent "s" "u" ⟨loaded 2, some twoChunks⟩ s' := by
  have hruns : (removeContent (fun _ => none) ⟨loaded 2, some twoChunks⟩ "s" "u").any
      (fun r => r.2.toOption == some 2) = true := by
    decide +kernel
  obtain ⟨⟨s', result⟩, hresult, hcount⟩ := Option.any_eq_true _ _ |>.mp hruns
  cases result with
  | error e => simp [Except.toOption] at hcount
  | ok removed =>
      exact ⟨s', removed, hresult,
        (remove_content_forgets (loaded_coherent 2) hresult).mpr loaded_consecutive⟩

/-- The second chunk was dropped at the capacity of one vector, and stays in
storage. -/
theorem remove_content_leaves_chunk :
    (removeContent (fun _ => none) ⟨loaded 1, some twoChunks⟩ "s" "u").any
        (fun r => r.1.persisted == some (twoChunks.drop 1) &&
          r.2.toOption == some 1) = true ∧
      ¬ forall (maxVectors : Nat) (s s' : Stores Nat) (source contentId : String)
          (removed : Nat), VectorDb.Coherent ⟨1, maxVectors, false⟩ s.memory ->
        removeContent (fun _ => none) s source contentId =
          some (s', Except.ok removed) ->
        ForgetsContent source contentId s s' := by
  have hruns : (removeContent (fun _ => none) ⟨loaded 1, some twoChunks⟩ "s" "u").any
      (fun r => r.1.persisted == some (twoChunks.drop 1) &&
        r.2.toOption == some 1) = true := by
    decide +kernel
  refine ⟨hruns, ?_⟩
  intro hall
  obtain ⟨⟨s', result⟩, hresult, hleft⟩ := Option.any_eq_true _ _ |>.mp hruns
  obtain ⟨hrows, hcount⟩ := Bool.and_eq_true_iff.mp hleft
  cases result with
  | error e => simp [Except.toOption] at hcount
  | ok removed =>
      have hforgets := hall 1 _ s' "s" "u" removed (loaded_coherent 1) hresult
      refine hforgets.persisted ([8], ⟨"u#2", "for sessions", "s", "UpdateContent"⟩) ?_
        ⟨rfl, Or.inr ⟨2, Nat.le_refl 2, second_chunk.symm⟩⟩
      have hsame : s'.persisted = some (twoChunks.drop 1) := eq_of_beq hrows
      rw [hsame]
      exact List.mem_singleton_self _

end

end Vectors
end PostCortex

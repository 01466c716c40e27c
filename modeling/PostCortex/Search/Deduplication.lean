import PostCortex.KeyValue.Upserts
import PostCortex.Search.KeyCollisions

/-!
# One result for each hit

What `process_search_results` keeps of the ranked matches.  The map that removes
the repeats is keyed by the content id alone, which entities and messages share
across sessions: of two sessions with a hit of one content id only the better hit
is kept.
-/

namespace PostCortex
namespace Search

open PostCortex.Core
open KeyValue

section

variable {embedding score worth : Type} [LinearOrder worth]
variable {engine : Engine embedding score} {value : score -> worth}

/-- The engine compares scores by what they are worth: the two zeros of `f32` are
worth the same, and no score is NaN. -/
structure Numbers (engine : Engine embedding score) (value : score -> worth) :
    Prop where
  lt : forall a b, engine.lt a b = decide (value a < value b)
  equal : forall a b, engine.equal a b = decide (value a = value b)

/-!
# The better of two results
-/

def better (engine : Engine embedding score) (old new : SearchResult score) :
    SearchResult score :=
  if engine.lt old.combinedScore new.combinedScore ||
      engine.equal new.combinedScore old.combinedScore &&
        decide (old.timestamp < new.timestamp) then new
  else old

/-- The second result scores higher, or as high and is at least as new. -/
def NoBetter (value : score -> worth) (a b : SearchResult score) : Prop :=
  value a.combinedScore < value b.combinedScore ∨
    value a.combinedScore = value b.combinedScore ∧ a.timestamp ≤ b.timestamp

omit [LinearOrder worth] in
theorem better_eq (engine : Engine embedding score) (old new : SearchResult score) :
    better engine old new = old ∨ better engine old new = new := by
  unfold better
  split
  · exact Or.inr rfl
  · exact Or.inl rfl

theorem NoBetter.refl (a : SearchResult score) : NoBetter value a a :=
  Or.inr ⟨rfl, Int.le_refl _⟩

theorem NoBetter.trans {a b c : SearchResult score} (hab : NoBetter value a b)
    (hbc : NoBetter value b c) :
    NoBetter value a c := by
  rcases hab with hab | ⟨hab, htab⟩
  · rcases hbc with hbc | ⟨hbc, -⟩
    · exact Or.inl (lt_trans hab hbc)
    · exact Or.inl (hbc ▸ hab)
  · rcases hbc with hbc | ⟨hbc, htbc⟩
    · exact Or.inl (hab ▸ hbc)
    · exact Or.inr ⟨hab.trans hbc, Int.le_trans htab htbc⟩

theorem noBetter_better (h : Numbers engine value) (old new : SearchResult score) :
    NoBetter value old (better engine old new) ∧
      NoBetter value new (better engine old new) := by
  unfold better
  rw [h.lt, h.equal]
  split
  · next hnew =>
      refine ⟨?_, NoBetter.refl new⟩
      rcases Bool.or_eq_true_iff.mp hnew with hlt | hequal
      · exact Or.inl (of_decide_eq_true hlt)
      · obtain ⟨heq, htime⟩ := Bool.and_eq_true_iff.mp hequal
        exact Or.inr ⟨(of_decide_eq_true heq).symm,
          Int.le_of_lt (of_decide_eq_true htime)⟩
  · next hold =>
      refine ⟨NoBetter.refl old, ?_⟩
      simp only [Bool.or_eq_true, Bool.and_eq_true, decide_eq_true_eq, not_or,
        not_and] at hold
      obtain ⟨hle, htime⟩ := hold
      rcases lt_or_eq_of_le (le_of_not_gt hle) with hlt | heq
      · exact Or.inl hlt
      · exact Or.inr ⟨heq, Int.not_lt.mp (htime heq)⟩

theorem keepBetter_eq (engine : Engine embedding score) (result : SearchResult score)
    (kept : List (SearchResult score)) :
    keepBetter engine result kept =
      upsert SearchResult.contentId (better engine) result kept := by
  induction kept with
  | nil => rfl
  | cons old rest ih =>
      rw [keepBetter, upsert, ih]
      unfold better
      split
      · split
        · rfl
        · rfl
      · rfl

/-!
# One result for each key
-/

/-- What is kept of the hits: of those with one key the best, the newest of equally
good ones, in the order of their scores. -/
structure KeepsEach {key : Type} (keyOf : SearchResult score -> key)
    (value : score -> worth) (hits kept : List (SearchResult score)) : Prop where
  hit : forall r, r ∈ kept -> r ∈ hits
  once : (kept.map keyOf).Nodup
  each : forall h, h ∈ hits -> keyOf h ∈ kept.map keyOf
  best : forall r, r ∈ kept -> forall h, h ∈ hits -> keyOf h = keyOf r ->
    NoBetter value h r
  sorted : kept.Pairwise (fun a b => value b.combinedScore ≤ value a.combinedScore)

def hitKey (r : SearchResult score) : Uuid × String :=
  (r.sessionId, r.contentId)

theorem keepsKey_better (engine : Engine embedding score) :
    KeepsKey SearchResult.contentId (better engine) := by
  intro x y h
  rcases better_eq engine x y with hx | hy
  · rw [hx]
  · rw [hy, h]

theorem sorted_mergeSort (h : Numbers engine value)
    (kept : List (SearchResult score)) :
    (kept.mergeSort (fun a b => !engine.lt a.combinedScore b.combinedScore)).Pairwise
      (fun a b => value b.combinedScore ≤ value a.combinedScore) := by
  have hle : forall a b : SearchResult score,
      (!engine.lt a.combinedScore b.combinedScore) = true ↔
        value b.combinedScore ≤ value a.combinedScore := by
    intro a b
    rw [h.lt, Bool.not_eq_true', decide_eq_false_iff_not, not_lt]
  refine List.Pairwise.imp (fun hab => (hle _ _).mp hab)
    (List.pairwise_mergeSort ?_ ?_ kept)
  · intro a b c hab hbc
    exact (hle a c).mpr (le_trans ((hle b c).mp hbc) ((hle a b).mp hab))
  · intro a b
    rw [Bool.or_eq_true_iff, hle, hle]
    exact le_total _ _

def processListed [UuidText] (engine : Engine embedding score)
    (listing : List (SearchResult score) -> List (SearchResult score))
    (ranked : List (SearchMatch score × score)) (recencyBias : Option (BitVec 32))
    (preferAuthor : Option String) : Except String (List (SearchResult score)) :=
  (ranked.mapM (resultOf engine recencyBias preferAuthor)).map (fun results =>
    (listing (results.foldl (fun kept result => keepBetter engine result kept)
      [])).mergeSort (fun a b => !engine.lt a.combinedScore b.combinedScore))

theorem keepsEach_contentId (h : Numbers engine value)
    {listing : List (SearchResult score) -> List (SearchResult score)}
    (hlisting : forall l, (listing l).Perm l) (hits : List (SearchResult score)) :
    KeepsEach SearchResult.contentId value hits
      ((listing (hits.foldl (fun kept result => keepBetter engine result kept)
        [])).mergeSort (fun a b => !engine.lt a.combinedScore b.combinedScore)) := by
  have hkeeps := keepsKey_better engine
  have hfold : hits.foldl (fun kept result => keepBetter engine result kept) [] =
      upsertAll SearchResult.contentId (better engine) hits [] := by
    simp only [keepBetter_eq]
    rfl
  rw [hfold]
  have hperm := (List.mergeSort_perm (listing (upsertAll SearchResult.contentId
    (better engine) hits [])) (fun a b =>
      !engine.lt a.combinedScore b.combinedScore)).trans (hlisting _)
  constructor
  · intro r hr
    have hmerged := (mem_upsertAll hkeeps).mp (hperm.mem_iff.mp hr)
    exact (List.mem_filter.mp (merged_mem (better_eq engine) hmerged)).1
  · exact (hperm.map _).nodup_iff.mpr (nodup_upsertAll hkeeps hits List.nodup_nil)
  · intro hit hmem
    exact (hperm.map _).mem_iff.mpr
      ((mem_keys_upsertAll hkeeps).mpr (List.mem_map_of_mem hmem))
  · intro r hr hit hmem hkey
    have hmerged := (mem_upsertAll hkeeps).mp (hperm.mem_iff.mp hr)
    exact le_merged NoBetter.refl (fun _ _ _ => NoBetter.trans)
      (fun x y => (noBetter_better h x y).1) (fun x y => (noBetter_better h x y).2)
      hmerged hit (List.mem_filter.mpr ⟨hmem, decide_eq_true hkey⟩)
  · exact sorted_mergeSort h _

def SessionsApart (hits : List (SearchResult score)) : Prop :=
  forall x, x ∈ hits -> forall y, y ∈ hits ->
    x.contentId = y.contentId -> x.sessionId = y.sessionId

theorem keepsEach_hitKey_iff {hits kept : List (SearchResult score)}
    (h : KeepsEach SearchResult.contentId value hits kept) :
    KeepsEach hitKey value hits kept ↔ SessionsApart hits := by
  constructor
  · intro hkeeps x hx y hy hcontent
    obtain ⟨r, hr, hrx⟩ := List.mem_map.mp (hkeeps.each x hx)
    obtain ⟨s, hs, hsy⟩ := List.mem_map.mp (hkeeps.each y hy)
    obtain ⟨hrsession, hrcontent⟩ := Prod.mk.inj hrx
    obtain ⟨hssession, hscontent⟩ := Prod.mk.inj hsy
    have hsame : r = s := List.inj_on_of_nodup_map h.once hr hs
      (hrcontent.trans (hcontent.trans hscontent.symm))
    rw [← hrsession, ← hssession, hsame]
  · intro hapart
    have hkey : forall x, x ∈ hits -> forall y, y ∈ hits ->
        x.contentId = y.contentId -> hitKey x = hitKey y := by
      intro x hx y hy hcontent
      exact Prod.ext (hapart x hx y hy hcontent) hcontent
    constructor
    · exact h.hit
    · refine List.Nodup.of_map Prod.snd ?_
      rw [List.map_map]
      exact h.once
    · intro x hx
      obtain ⟨r, hr, hrx⟩ := List.mem_map.mp (h.each x hx)
      exact List.mem_map.mpr ⟨r, hr, hkey r (h.hit r hr) x hx hrx⟩
    · intro r hr x hx hrx
      exact h.best r hr x hx (Prod.mk.inj hrx).2
    · exact h.sorted

/-!
# The hits of the ranked matches
-/

section

variable [UuidText]

def contentIdOf (record : VectorRecord) : String :=
  (record.metadata[chunkParentKey]?).getD record.id

variable {recencyBias : Option (BitVec 32)} {preferAuthor : Option String}

omit [LinearOrder worth] in
theorem resultOf_ok {x : SearchMatch score × score} {r : SearchResult score}
    (h : resultOf engine recencyBias preferAuthor x = Except.ok r) :
    UuidText.parseStr x.1.record.source = Except.ok r.sessionId ∧
      r.contentId = contentIdOf x.1.record := by
  unfold resultOf at h
  split at h
  · cases h
  · next hparse =>
      cases h
      exact ⟨hparse, rfl⟩

/-- No two sessions have a match that stands for one content id. -/
def OneSessionEach (ranked : List (SearchMatch score × score)) : Prop :=
  forall x, x ∈ ranked -> forall y, y ∈ ranked ->
    contentIdOf x.1.record = contentIdOf y.1.record ->
      UuidText.parseStr x.1.record.source = UuidText.parseStr y.1.record.source

variable {ranked : List (SearchMatch score × score)} {hits : List (SearchResult score)}

omit [LinearOrder worth] in
theorem mem_hits_iff
    (h : ranked.mapM (resultOf engine recencyBias preferAuthor) = Except.ok hits) :
    (forall x, x ∈ ranked -> exists r, r ∈ hits ∧
        resultOf engine recencyBias preferAuthor x = Except.ok r) ∧
      forall r, r ∈ hits -> exists x, x ∈ ranked ∧
        resultOf engine recencyBias preferAuthor x = Except.ok r := by
  induction ranked generalizing hits with
  | nil =>
      cases h
      simp
  | cons x rest ih =>
      rw [List.mapM_cons] at h
      cases hx : resultOf engine recencyBias preferAuthor x with
      | error e =>
          rw [hx] at h
          cases h
      | ok r =>
          cases hrest : rest.mapM (resultOf engine recencyBias preferAuthor) with
          | error e =>
              rw [hx, hrest] at h
              cases h
          | ok results =>
              rw [hx, hrest] at h
              cases h
              obtain ⟨hto, hfrom⟩ := ih hrest
              constructor
              · intro y hy
                rcases List.mem_cons.mp hy with rfl | hy
                · exact ⟨r, List.mem_cons_self, hx⟩
                · obtain ⟨s, hs, hys⟩ := hto y hy
                  exact ⟨s, List.mem_cons_of_mem _ hs, hys⟩
              · intro s hs
                rcases List.mem_cons.mp hs with rfl | hs
                · exact ⟨x, List.mem_cons_self, hx⟩
                · obtain ⟨y, hy, hys⟩ := hfrom s hs
                  exact ⟨y, List.mem_cons_of_mem _ hy, hys⟩

omit [LinearOrder worth] in
theorem sessionsApart_iff
    (h : ranked.mapM (resultOf engine recencyBias preferAuthor) = Except.ok hits) :
    SessionsApart hits ↔ OneSessionEach ranked := by
  obtain ⟨hto, hfrom⟩ := mem_hits_iff h
  constructor
  · intro hapart x hx y hy hcontent
    obtain ⟨r, hr, hxr⟩ := hto x hx
    obtain ⟨s, hs, hys⟩ := hto y hy
    obtain ⟨hxsession, hxcontent⟩ := resultOf_ok hxr
    obtain ⟨hysession, hycontent⟩ := resultOf_ok hys
    rw [hxsession, hysession,
      hapart r hr s hs (by rw [hxcontent, hycontent, hcontent])]
  · intro hone r hr s hs hcontent
    obtain ⟨x, hx, hxr⟩ := hfrom r hr
    obtain ⟨y, hy, hys⟩ := hfrom s hs
    obtain ⟨hxsession, hxcontent⟩ := resultOf_ok hxr
    obtain ⟨hysession, hycontent⟩ := resultOf_ok hys
    have hparse := hone x hx y hy (by rw [← hxcontent, ← hycontent, hcontent])
    rw [hxsession, hysession] at hparse
    exact Except.ok.inj hparse

/-- The results are one for each session and content id of the matches, the best of
its hits, exactly when no two sessions have a match of one content id. -/
theorem results_keep_each_hit (hscores : Numbers engine value)
    {listing : List (SearchResult score) -> List (SearchResult score)}
    (hlisting : forall l, (listing l).Perm l)
    {ranked : List (SearchMatch score × score)} {recencyBias : Option (BitVec 32)}
    {preferAuthor : Option String} {hits : List (SearchResult score)}
    (hhits : ranked.mapM (resultOf engine recencyBias preferAuthor) =
      Except.ok hits) :
    exists results,
      processListed engine listing ranked recencyBias preferAuthor =
        Except.ok results ∧
      (KeepsEach hitKey value hits results ↔ OneSessionEach ranked) := by
  refine ⟨_, by rw [processListed, hhits]; rfl, ?_⟩
  rw [keepsEach_hitKey_iff (keepsEach_contentId hscores hlisting hits),
    sessionsApart_iff hhits]

end

end

section

attribute [local instance] hyphenatedText

theorem plainEngine_numbers : Numbers plainEngine id := by
  constructor
  · intro a b
    rfl
  · intro a b
    rfl

def firstMessage (session : Uuid) : VectorRecord where
  id := "message:1"
  text := "Use Redis"
  source := UuidText.toText session
  contentType := Embeddings.messageContentType
  timestamp := 0
  metadata := ∅

def messageHit (session : Uuid) (score : Nat) : SearchResult Nat where
  contentId := "message:1"
  sessionId := session
  contentType := Embeddings.messageContentType
  textContent := "Use Redis"
  similarityScore := score
  timestamp := 0
  combinedScore := score
  author := none

def firstMatch (session : Uuid) (score : Nat) : SearchMatch Nat × Nat :=
  (⟨0, score, firstMessage session⟩, score)

theorem resultOf_firstMatch (session : Uuid) (score : Nat) :
    resultOf plainEngine none none (firstMatch session score) =
      Except.ok (messageHit session score) := by
  have hparse : UuidText.parseStr (firstMatch session score).1.record.source =
      Except.ok session :=
    parse_hyphenated session
  rw [resultOf, hparse]
  simp [firstMatch, firstMessage, messageHit, plainEngine]

/-- Two matches of one session are one result, which has the better score. -/
theorem results_keep_each_hit_once :
    exists results,
      processListed plainEngine List.reverse [firstMatch 1 3, firstMatch 1 7] none
        none = Except.ok results ∧
      KeepsEach hitKey id [messageHit 1 3, messageHit 1 7] results := by
  have hhits : [firstMatch 1 3, firstMatch 1 7].mapM
      (resultOf plainEngine none none) =
        Except.ok [messageHit 1 3, messageHit 1 7] := by
    simp only [List.mapM_cons, List.mapM_nil, resultOf_firstMatch]
    rfl
  obtain ⟨results, hresults, hiff⟩ := results_keep_each_hit plainEngine_numbers
    List.reverse_perm hhits
  refine ⟨results, hresults, hiff.mpr ?_⟩
  intro x hx y hy _
  simp only [List.mem_cons, List.not_mem_nil, or_false] at hx hy
  rcases hx with rfl | rfl
  · rcases hy with rfl | rfl
    · rfl
    · rfl
  · rcases hy with rfl | rfl
    · rfl
    · rfl

/-- The first messages of two sessions match, and one of them is dropped. -/
theorem results_drop_other_session :
    processSearchResults plainEngine [firstMatch 1 7, firstMatch 2 3] none none =
        Except.ok [messageHit 1 7] ∧
      ¬ forall (ranked : List (SearchMatch Nat × Nat)) (hits : List (SearchResult Nat)),
        ranked.mapM (resultOf plainEngine none none) = Except.ok hits ->
          exists results,
            processSearchResults plainEngine ranked none none = Except.ok results ∧
            KeepsEach hitKey id hits results := by
  have hhits : [firstMatch 1 7, firstMatch 2 3].mapM
      (resultOf plainEngine none none) =
        Except.ok [messageHit 1 7, messageHit 2 3] := by
    simp only [List.mapM_cons, List.mapM_nil, resultOf_firstMatch]
    rfl
  have hkept : processSearchResults plainEngine [firstMatch 1 7, firstMatch 2 3] none
      none = Except.ok [messageHit 1 7] := by
    rw [processSearchResults, hhits]
    simp [Except.map, keepBetter, messageHit, plainEngine]
  refine ⟨hkept, ?_⟩
  intro hall
  obtain ⟨results, hresults, hkeeps⟩ := hall _ _ hhits
  rw [hkept] at hresults
  cases hresults
  have hother := hkeeps.each (messageHit 2 3) (by simp)
  simp [hitKey, messageHit] at hother

end

end Search
end PostCortex

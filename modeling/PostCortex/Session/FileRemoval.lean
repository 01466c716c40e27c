import Mathlib.Data.List.Find
import Mathlib.Data.Multiset.AddSub
import PostCortex.Session.HotTier
import PostCortex.Session.Removal

/-!
# Removing the updates of a file

`remove_updates_for_file` of `session/active_session.rs` beside
`remove_update_by_id` for each of the updates.  The first takes the updates out
of the list and drops the references of the file; the other components keep
what they have of them.
-/

namespace PostCortex
namespace Session
namespace ActiveSession

open PostCortex.Core
open PostCortex.Graph

/-!
# One removal
-/

variable {session : ActiveSession} {entryId : Uuid} {removed : ContextUpdate}

def removeOne (session : ActiveSession) (entryId : Uuid) : ActiveSession :=
  (session.removeUpdateById entryId).getD session

theorem removeOne_cases (session : ActiveSession) (entryId : Uuid) :
    (session.findUpdate entryId = none ∧ session.removeOne entryId = session) ∨
      exists removed, session.findUpdate entryId = some removed ∧
        session.removeOne entryId = session.without entryId removed := by
  cases hfind : session.findUpdate entryId with
  | none =>
      refine Or.inl ⟨rfl, ?_⟩
      rw [removeOne, removeUpdateById, hfind]
      rfl
  | some removed =>
      refine Or.inr ⟨removed, rfl, ?_⟩
      rw [removeOne, removeUpdateById_found hfind]
      rfl

def updatesAbout (session : ActiveSession) (filePath : String) :
    List ContextUpdate :=
  session.incrementalUpdates.filter (refersToFile filePath)

/-- The session after `remove_update_by_id` for each update about the file. -/
def removeEach (session : ActiveSession) (filePath : String) : ActiveSession :=
  ((session.updatesAbout filePath).map ContextUpdate.id).foldl removeOne session

theorem incremental_removeOne (session : ActiveSession) (entryId : Uuid) :
    (session.removeOne entryId).incrementalUpdates =
      session.incrementalUpdates.filter (fun u => u.id != entryId) := by
  rcases removeOne_cases session entryId with ⟨hnone, heq⟩ | ⟨removed, -, heq⟩
  · rw [heq]
    symm
    apply List.filter_eq_self.mpr
    intro u hu
    simpa using findUpdate_none hnone u hu
  · rw [heq]
    rfl

theorem incremental_removeAll (session : ActiveSession) (ids : List Uuid) :
    (ids.foldl removeOne session).incrementalUpdates =
      session.incrementalUpdates.filter (fun u => !ids.contains u.id) := by
  induction ids generalizing session with
  | nil => simp
  | cons id rest ih =>
      rw [List.foldl_cons, ih, incremental_removeOne, List.filter_filter]
      apply List.filter_congr
      intro u _
      simp only [List.contains_cons, Bool.not_or]
      rw [Bool.and_comm]
      rfl

/-!
# What a removal leaves of an update
-/

theorem findUpdate_id (h : session.findUpdate entryId = some removed) :
    removed.id = entryId := by
  unfold findUpdate at h
  split at h
  · next w hw =>
    rw [← Option.some.inj h]
    simpa using List.find?_some hw
  · split at h
    · next w hw =>
      rw [← Option.some.inj h]
      simpa using List.find?_some hw
    · obtain ⟨c, hc, rfl⟩ := Option.map_eq_some_iff.mp h
      simpa using List.find?_some hc

variable {w : ContextUpdate}

theorem findUpdate_listed
    (h : session.incrementalUpdates.find? (fun u => u.id == entryId) = some w) :
    session.findUpdate entryId = some w := by
  rw [findUpdate, h]

/-- Nothing but the hot tier and the typed items tells of the update. -/
structure Gone (session : ActiveSession) (id : Uuid) : Prop where
  incremental : forall u, u ∈ session.incrementalUpdates -> u.id ≠ id
  warm : forall c, c ∈ session.warmContext -> c.update.id ≠ id
  history : forall c, c ∈ session.changeHistory -> c.relatedUpdateId ≠ some id
  flow : forall f, f ∈ session.currentState.conversationFlow ->
    id ∉ f.relatedUpdates
  mentions : forall e : String,
    id ∉ session.entityGraph.entityMentions[e]?.getD []

variable {id : Uuid}

theorem mem_removeFlow {flow : List FlowItem} {f : FlowItem}
    (hf : f ∈ removeFlow flow id) :
    id ∉ f.relatedUpdates ∧ exists g, g ∈ flow ∧
      forall x, x ∈ f.relatedUpdates -> x ∈ g.relatedUpdates := by
  unfold removeFlow at hf
  split at hf
  · obtain ⟨g, hg, rfl⟩ := List.mem_map.mp (List.mem_filter.mp hf).1
    exact ⟨by simp, g, hg, fun x hx => (List.mem_filter.mp hx).1⟩
  · next hnone =>
    refine ⟨fun hid => hnone ?_, f, hf, fun _ hx => hx⟩
    exact List.any_eq_true.mpr ⟨f, hf, by simpa using hid⟩

theorem flow_removedState (state : StructuredContext) (removed : ContextUpdate) :
    (removedState state removed).conversationFlow =
      removeFlow state.conversationFlow removed.id :=
  conversationFlow_removeItem _ _

theorem gone_without (h : session.findUpdate entryId = some removed) :
    Gone (session.without entryId removed) entryId where
  incremental := by
    intro u hu
    simpa using (List.mem_filter.mp hu).2
  warm := by
    intro c hc
    simpa using (List.mem_filter.mp hc).2
  history := by
    intro c hc
    simpa using (List.mem_filter.mp hc).2
  flow := by
    intro f hf
    have hremoved : f ∈ removeFlow session.currentState.conversationFlow removed.id :=
      flow_removedState session.currentState removed ▸ hf
    rw [findUpdate_id h] at hremoved
    exact (mem_removeFlow hremoved).1
  mentions := by
    intro e hid
    have hfilter := mentions_removeMentions session.entityGraph entryId e
    have hmem : entryId ∈
        (removeMentions session.entityGraph entryId).entityMentions[e]?.getD [] := hid
    rw [hfilter] at hmem
    simp at hmem

theorem Gone.without (h : Gone session id) (entryId : Uuid)
    (removed : ContextUpdate) :
    Gone (session.without entryId removed) id where
  incremental := fun u hu => h.incremental u (List.mem_filter.mp hu).1
  warm := fun c hc => h.warm c (List.mem_filter.mp hc).1
  history := fun c hc => h.history c (List.mem_filter.mp hc).1
  flow := by
    intro f hf hid
    have hremoved : f ∈ removeFlow session.currentState.conversationFlow removed.id :=
      flow_removedState session.currentState removed ▸ hf
    obtain ⟨-, g, hg, hsub⟩ := mem_removeFlow hremoved
    exact h.flow g hg (hsub id hid)
  mentions := by
    intro e hid
    have hmem : id ∈
        (removeMentions session.entityGraph entryId).entityMentions[e]?.getD [] := hid
    rw [mentions_removeMentions] at hmem
    exact h.mentions e (List.mem_filter.mp hmem).1

theorem Gone.removeOne (h : Gone session id) (entryId : Uuid) :
    Gone (session.removeOne entryId) id := by
  rcases removeOne_cases session entryId with ⟨-, heq⟩ | ⟨removed, -, heq⟩
  · rwa [heq]
  · rw [heq]
    exact h.without entryId removed

theorem gone_removeAll (hw : w ∈ session.incrementalUpdates) {ids : List Uuid}
    (hid : w.id ∈ ids) :
    Gone (ids.foldl removeOne session) w.id := by
  have hkept : forall (ids : List Uuid) (session : ActiveSession),
      Gone session w.id -> Gone (ids.foldl removeOne session) w.id := by
    intro ids
    induction ids with
    | nil => exact fun _ h => h
    | cons id rest ih => exact fun _ h => ih _ (h.removeOne id)
  induction ids generalizing session with
  | nil => cases hid
  | cons id rest ih =>
      rw [List.foldl_cons]
      by_cases hfirst : w.id = id
      · apply hkept
        rcases removeOne_cases session id with ⟨hnone, -⟩ | ⟨removed, hfound, heq⟩
        · exact absurd hfirst (findUpdate_none hnone w hw)
        · rw [heq, hfirst]
          exact gone_without hfound
      · apply ih
        · rw [incremental_removeOne]
          exact List.mem_filter.mpr ⟨hw, by simpa using hfirst⟩
        · exact (List.mem_cons.mp hid).resolve_left hfirst

/-!
# Components that a removal leaves or makes smaller
-/

variable {ι : Type}

/-- A component that every step leaves or makes smaller, and that is in the end
as it was, no step has changed. -/
theorem unchanged_of_foldl {σ α : Type} (get : σ -> α) (size : α -> Nat)
    {step : σ -> ι -> σ} (hstep : forall s i, get (step s i) = get s ∨
      size (get (step s i)) < size (get s)) {before after : List ι} {i : ι} {s : σ}
    (h : get ((before ++ i :: after).foldl step s) = get s) :
    get (before.foldl step s) = get s ∧
      get (step (before.foldl step s) i) = get s := by
  have hfold : forall (is : List ι) (s : σ), get (is.foldl step s) = get s ∨
      size (get (is.foldl step s)) < size (get s) := by
    intro is
    induction is with
    | nil => exact fun _ => Or.inl rfl
    | cons i rest ih =>
        intro s
        rw [List.foldl_cons]
        rcases ih (step s i) with hrest | hrest
        · rw [hrest]
          exact hstep s i
        · rcases hstep s i with hsame | hless
          · rw [hsame] at hrest
            exact Or.inr hrest
          · exact Or.inr (Nat.lt_trans hrest hless)
  rw [List.foldl_append, List.foldl_cons] at h
  have hsize := congrArg size h
  have hbefore := hfold before s
  have hone := hstep (before.foldl step s) i
  have hafter := hfold after (step (before.foldl step s) i)
  rcases hbefore with hbefore | hbefore
  · refine ⟨hbefore, ?_⟩
    rcases hone with hone | hone
    · rw [hone, hbefore]
    · rw [hbefore] at hone
      rcases hafter with hafter | hafter
      · rw [hafter] at h
        rw [h] at hone
        omega
      · omega
  · rcases hone with hone | hone
    · rw [← hone] at hbefore
      rcases hafter with hafter | hafter
      · rw [hafter] at hsize
        omega
      · omega
    · rcases hafter with hafter | hafter
      · rw [hafter] at hsize
        omega
      · omega

theorem size_removeById {hot : HotContext} (h : hot.containsId entryId = true) :
    (hot.removeById entryId).updates.size < hot.updates.size := by
  obtain ⟨x, hx, hid⟩ := List.any_eq_true.mp h
  unfold HotContext.removeById
  cases hfind : hot.updates.toList.find? (fun x => x.2.id == entryId) with
  | none => exact absurd hid (List.find?_eq_none.mp hfind x hx)
  | some y =>
      have hmem := Std.ExtTreeMap.mem_toList_iff_getElem?_eq_some.mp
        (List.mem_of_find?_eq_some hfind)
      have hcontains : y.1 ∈ hot.updates := by
        rw [Std.ExtTreeMap.mem_iff_isSome_getElem?, hmem]
        rfl
      have hpositive : 0 < hot.updates.size := by
        rw [← Std.ExtTreeMap.length_toList]
        exact List.length_pos_of_mem hx
      dsimp only
      rw [Std.ExtTreeMap.size_erase,
        if_pos (Std.ExtTreeMap.mem_iff_contains.mp hcontains)]
      omega

theorem hot_removeOne (session : ActiveSession) (entryId : Uuid) :
    (session.removeOne entryId).hotContext = session.hotContext ∨
      (session.removeOne entryId).hotContext.updates.size <
        session.hotContext.updates.size := by
  rcases removeOne_cases session entryId with ⟨-, heq⟩ | ⟨removed, -, heq⟩
  · rw [heq]
    exact Or.inl rfl
  · rw [heq]
    by_cases hheld : session.hotContext.containsId entryId = true
    · refine Or.inr ?_
      show (if session.hotContext.containsId entryId then
        session.hotContext.removeById entryId else session.hotContext).updates.size < _
      rw [if_pos hheld]
      exact size_removeById hheld
    · refine Or.inl ?_
      show (if session.hotContext.containsId entryId then
        session.hotContext.removeById entryId else session.hotContext) = _
      rw [if_neg hheld]

/-- An update has no item in a list that a removal would take. -/
def ItemList.Unmatched {ι : Type} (l : ItemList ι) (state : StructuredContext)
    (w : ContextUpdate) : Prop :=
  w.updateType = l.updateType -> forall x, x ∈ l.get state -> ¬ l.same w x = true

theorem ItemList.removed_same_iff (l : ItemList ι) (state : StructuredContext)
    (w : ContextUpdate) :
    l.get (removedState state w) = l.get state ↔ l.Unmatched state w := by
  rw [removedState, l.removed]
  by_cases htype : w.updateType = l.updateType
  · rw [if_pos htype]
    constructor
    · intro heq _ x hx hmatch
      have hlength := congrArg List.length heq
      rw [List.length_eraseP_of_mem hx hmatch] at hlength
      have hpositive := List.length_pos_of_mem hx
      omega
    · intro h
      exact List.eraseP_of_forall_not (h htype)
  · rw [if_neg htype]
    exact ⟨fun _ htype' => absurd htype' htype, fun _ => rfl⟩

theorem ItemList.removeOne_smaller (l : ItemList ι) (session : ActiveSession)
    (entryId : Uuid) :
    l.get (session.removeOne entryId).currentState = l.get session.currentState ∨
      (l.get (session.removeOne entryId).currentState).length <
        (l.get session.currentState).length := by
  rcases removeOne_cases session entryId with ⟨-, heq⟩ | ⟨removed, -, heq⟩
  · rw [heq]
    exact Or.inl rfl
  · rw [heq]
    show l.get (removedState session.currentState removed) = _ ∨
      (l.get (removedState session.currentState removed)).length < _
    rw [removedState, l.removed]
    split
    · by_cases hmatch : exists x, x ∈ l.get session.currentState ∧ l.same removed x = true
      · obtain ⟨x, hx, hsame⟩ := hmatch
        have hpositive := List.length_pos_of_mem hx
        rw [List.length_eraseP_of_mem hx hsame]
        exact Or.inr (by omega)
      · refine Or.inl (List.eraseP_of_forall_not ?_)
        exact fun x hx hsame => hmatch ⟨x, hx, hsame⟩
    · exact Or.inl rfl

/-!
# The references of a file
-/

def codeKey (r : CodeReference) :
    Nat × Nat × String × String × Option String × Option String :=
  (r.startLine, r.endLine, r.codeSnippet, r.changeDescription, r.commitHash,
    r.branch)

variable {codeRef r : CodeReference}

theorem sameCode_iff :
    sameCode codeRef r = true ↔ codeKey r = codeKey codeRef := by
  simp [sameCode, codeKey, and_assoc]

theorem map_eraseP_sameCode (stored : List CodeReference) (codeRef : CodeReference) :
    (stored.eraseP (sameCode codeRef)).map codeKey =
      (stored.map codeKey).erase (codeKey codeRef) := by
  induction stored with
  | nil => rfl
  | cons r rest ih =>
      rw [List.eraseP_cons, List.map_cons, List.erase_cons]
      by_cases hsame : sameCode codeRef r = true
      · have hkey := sameCode_iff.mp hsame
        simp [hsame, hkey]
      · have hkey : ¬ codeKey r = codeKey codeRef := fun h => hsame (sameCode_iff.mpr h)
        simp [hsame, hkey, ih]

def taken (stored codes : List CodeReference) : List CodeReference :=
  codes.foldl (fun stored codeRef => stored.eraseP (sameCode codeRef)) stored

def Matched (stored codes : List CodeReference) : Prop :=
  forall r, r ∈ stored -> stored.countP (sameCode r) ≤ codes.countP (sameCode r)

theorem map_taken (stored codes : List CodeReference) :
    (taken stored codes).map codeKey =
      (stored.map codeKey).diff (codes.map codeKey) := by
  induction codes generalizing stored with
  | nil => rfl
  | cons codeRef rest ih =>
      rw [List.map_cons, List.diff_cons, ← map_eraseP_sameCode]
      exact ih _

theorem countP_sameCode (r : CodeReference) (codes : List CodeReference) :
    codes.countP (sameCode r) = (codes.map codeKey).count (codeKey r) := by
  rw [List.count, List.countP_map]
  apply List.countP_congr
  intro r' _
  simp [sameCode_iff]

theorem taken_eq_nil_iff (stored codes : List CodeReference) :
    taken stored codes = [] ↔ Matched stored codes := by
  have hempty : taken stored codes = [] ↔
      forall x, (stored.map codeKey).count x ≤ (codes.map codeKey).count x := by
    rw [← List.map_eq_nil_iff (f := codeKey), map_taken,
      List.eq_nil_iff_forall_not_mem]
    apply forall_congr'
    intro x
    rw [← List.count_eq_zero, List.count_diff, Nat.sub_eq_zero_iff_le]
  rw [hempty]
  constructor
  · intro h r _
    rw [countP_sameCode, countP_sameCode]
    exact h _
  · intro h x
    by_cases hx : x ∈ stored.map codeKey
    · obtain ⟨r, hr, rfl⟩ := List.mem_map.mp hx
      rw [← countP_sameCode, ← countP_sameCode]
      exact h r hr
    · rw [List.count_eq_zero.mpr hx]
      exact Nat.zero_le _

/-- The references after one was dropped for each of `codes`, all of one file. -/
def dropAll (refs : Std.ExtTreeMap String (List CodeReference))
    (codes : List CodeReference) : Std.ExtTreeMap String (List CodeReference) :=
  codes.foldl dropReference refs

variable {refs : Std.ExtTreeMap String (List CodeReference)} {file : String}

variable {codes : List CodeReference}

/-- Nothing is left of a file exactly when its references were some and were all
matched. -/
theorem dropAll_file (hcodes : forall r, r ∈ codes -> r.filePath = file) :
    (dropAll refs codes)[file]? = none ↔
      forall stored, refs[file]? = some stored ->
        stored ≠ [] ∧ Matched stored codes := by
  induction codes generalizing refs with
  | nil =>
      show refs[file]? = none ↔ _
      cases hfile : refs[file]? with
      | none => simp
      | some stored =>
          cases stored with
          | nil => simp
          | cons r rest =>
              have hself : 0 < (r :: rest).countP (sameCode r) :=
                List.countP_pos_iff.mpr ⟨r, List.mem_cons_self, sameCode_iff.mpr rfl⟩
              simp only [reduceCtorEq, Option.some.injEq, forall_eq', false_iff]
              rintro ⟨-, hmatched⟩
              have hnone := hmatched r List.mem_cons_self
              rw [List.countP_nil] at hnone
              omega
  | cons codeRef rest ih =>
      obtain rfl : codeRef.filePath = file := hcodes codeRef List.mem_cons_self
      have hrest := @ih (dropReference refs codeRef)
        (fun r hr => hcodes r (List.mem_cons_of_mem _ hr))
      show (dropAll (dropReference refs codeRef) rest)[codeRef.filePath]? = none ↔ _
      rw [hrest]
      cases hfile : refs[codeRef.filePath]? with
      | none =>
          have hsame : dropReference refs codeRef = refs := by
            rw [dropReference, hfile]
          simp [hsame, hfile]
      | some stored =>
          by_cases hstored : stored = []
          · subst hstored
            have hsame : dropReference refs codeRef = refs := by
              rw [dropReference, hfile]
              rfl
            simp [hsame, hfile]
          · have htaken : taken stored (codeRef :: rest) =
                taken (stored.eraseP (sameCode codeRef)) rest := rfl
            rw [dropReference_file hfile hstored]
            simp only [Option.some.injEq, forall_eq', ne_eq, hstored,
              not_false_eq_true, true_and]
            rw [← taken_eq_nil_iff, htaken]
            split
            · next hempty =>
              have hnone : taken [] rest = [] :=
                (taken_eq_nil_iff [] rest).mpr (fun r hr => absurd hr List.not_mem_nil)
              simp [hempty, hnone]
            · next hleft =>
              simp [hleft, taken_eq_nil_iff]

theorem dropAll_other {other : String}
    (hcodes : forall r, r ∈ codes -> r.filePath = file) (hother : file ≠ other) :
    (dropAll refs codes)[other]? = refs[other]? := by
  induction codes generalizing refs with
  | nil => rfl
  | cons codeRef rest ih =>
      show (dropAll (dropReference refs codeRef) rest)[other]? = _
      rw [ih (fun r hr => hcodes r (List.mem_cons_of_mem _ hr)),
        dropReference_other]
      rw [hcodes codeRef List.mem_cons_self]
      exact hother

theorem dropAll_eq_erase_iff (hcodes : forall r, r ∈ codes -> r.filePath = file) :
    dropAll refs codes = refs.erase file ↔
      forall stored, refs[file]? = some stored ->
        stored ≠ [] ∧ Matched stored codes := by
  rw [← dropAll_file hcodes]
  constructor
  · intro h
    rw [h]
    exact Std.ExtTreeMap.getElem?_erase_self
  · intro h
    apply Std.ExtTreeMap.ext_getElem?
    intro other
    by_cases hother : file = other
    · rw [← hother, h, Std.ExtTreeMap.getElem?_erase_self]
    · rw [dropAll_other hcodes hother, Std.ExtTreeMap.getElem?_erase, if_neg]
      rwa [Std.compare_eq_iff_eq]

/-!
# The updates that are found
-/

def firstsFrom : List Uuid -> List ContextUpdate -> List ContextUpdate
  | _, [] => []
  | seen, w :: rest =>
      if w.id ∈ seen then firstsFrom seen rest
      else w :: firstsFrom (w.id :: seen) rest

/-- What `remove_update_by_id` finds of the updates about a file. -/
def foundAbout (session : ActiveSession) (filePath : String) :
    List ContextUpdate :=
  firstsFrom [] (session.updatesAbout filePath)

theorem mem_firstsFrom {seen : List Uuid} {updates : List ContextUpdate}
    (h : w ∈ firstsFrom seen updates) :
    w.id ∉ seen ∧ updates.find? (fun u => u.id == w.id) = some w := by
  induction updates generalizing seen with
  | nil => cases h
  | cons u rest ih =>
      rw [firstsFrom] at h
      split at h
      · next hseen =>
        obtain ⟨hnew, hfind⟩ := ih h
        have hne : ¬ u.id = w.id := fun heq => hnew (heq ▸ hseen)
        exact ⟨hnew, by rw [List.find?_cons_of_neg (by simpa using hne), hfind]⟩
      · next hseen =>
        rcases List.mem_cons.mp h with rfl | hrest
        · exact ⟨hseen, List.find?_cons_of_pos (by simp)⟩
        · obtain ⟨hnew, hfind⟩ := ih hrest
          have hne : ¬ u.id = w.id := fun heq => hnew (heq ▸ List.mem_cons_self)
          exact ⟨fun hmem => hnew (List.mem_cons_of_mem _ hmem),
            by rw [List.find?_cons_of_neg (by simpa using hne), hfind]⟩

/-!
# Sessions that tell nothing else
-/

/-- The list and the references apart, only the typed items can tell of an update
with the id. -/
structure Untold (session : ActiveSession) (id : Uuid) : Prop where
  hot : session.hotContext.containsId id = false
  warm : forall c, c ∈ session.warmContext -> c.update.id ≠ id
  history : forall c, c ∈ session.changeHistory -> c.relatedUpdateId ≠ some id
  flow : forall f, f ∈ session.currentState.conversationFlow ->
    id ∉ f.relatedUpdates
  mentions : forall e : String,
    id ∉ session.entityGraph.entityMentions[e]?.getD []

/-- A removal of the update finds no item to take. -/
structure NoItem (state : StructuredContext) (w : ContextUpdate) : Prop where
  questions : questions.Unmatched state w
  decisions : decisions.Unmatched state w
  concepts : concepts.Unmatched state w
  specifications : specifications.Unmatched state w

/-- Of the updates about a file only the list tells, and the references of the
file, of which each is that of one of them. -/
structure Untraced (session : ActiveSession) (filePath : String) : Prop where
  ids : forall w, w ∈ session.updatesAbout filePath ->
    forall u, u ∈ session.incrementalUpdates -> u.id = w.id ->
      refersToFile filePath u = true
  untold : forall w, w ∈ session.updatesAbout filePath -> Untold session w.id
  items : forall w, w ∈ session.foundAbout filePath ->
    NoItem session.currentState w
  references : session.updatesAbout filePath ≠ [] ->
    forall stored, session.codeReferences[filePath]? = some stored ->
      stored ≠ [] ∧
        Matched stored
          ((session.foundAbout filePath).filterMap ContextUpdate.relatedCode)

theorem removeMentions_untold {graph : EntityGraph}
    (h : forall e : String, id ∉ graph.entityMentions[e]?.getD []) :
    removeMentions graph id = graph := by
  unfold removeMentions
  rw [if_neg]
  intro hany
  obtain ⟨⟨e, ids⟩, hmem, hid⟩ := List.any_eq_true.mp hany
  apply h e
  rw [Std.ExtTreeMap.mem_toList_iff_getElem?_eq_some.mp hmem]
  simpa using hid

theorem removedState_untold {state : StructuredContext}
    (hflow : forall f, f ∈ state.conversationFlow -> w.id ∉ f.relatedUpdates)
    (hitem : NoItem state w) :
    removedState state w = state := by
  refine state_ext ?_ ?_ ?_ ?_ ?_
  · exact (decisions.removed_same_iff state w).mpr hitem.decisions
  · exact (questions.removed_same_iff state w).mpr hitem.questions
  · exact (concepts.removed_same_iff state w).mpr hitem.concepts
  · exact (specifications.removed_same_iff state w).mpr hitem.specifications
  · rw [flow_removedState, removeFlow, if_neg]
    intro hany
    obtain ⟨f, hf, hid⟩ := List.any_eq_true.mp hany
    exact hflow f hf (by simpa using hid)

theorem without_untold (h : Untold session w.id)
    (hitem : NoItem session.currentState w) :
    session.without w.id w =
      { session with
        incrementalUpdates :=
          session.incrementalUpdates.filter (fun u => u.id != w.id)
        codeReferences :=
          dropAll session.codeReferences w.relatedCode.toList } := by
  have hhot : (session.dropEntries w.id).hotContext = session.hotContext := by
    have hnot : ¬ session.hotContext.containsId w.id = true := by
      rw [h.hot]
      exact Bool.false_ne_true
    exact if_neg hnot
  have hwarm : (session.dropEntries w.id).warmContext = session.warmContext :=
    List.filter_eq_self.mpr (fun c hc => by simpa using h.warm c hc)
  have hhistory : (session.dropEntries w.id).changeHistory = session.changeHistory :=
    List.filter_eq_self.mpr (fun c hc => by simpa using h.history c hc)
  have hcode : w.relatedCode.elim session.codeReferences
      (dropReference session.codeReferences) =
        dropAll session.codeReferences w.relatedCode.toList := by
    cases w.relatedCode with
    | none | some r => rfl
  rw [without, hhot, hwarm, hhistory, hcode, removedState_untold h.flow hitem,
    removeMentions_untold h.mentions]
  rfl

theorem findUpdate_untold (h : Untold session id)
    (hlist : forall u, u ∈ session.incrementalUpdates -> u.id ≠ id) :
    session.findUpdate id = none := by
  have hnone : session.incrementalUpdates.find? (fun u => u.id == id) = none :=
    List.find?_eq_none.mpr (fun u hu => by simpa using hlist u hu)
  have hhot : session.hotContext.find (fun u => u.id == id) = none := by
    refine List.find?_eq_none.mpr (fun u hu heq => ?_)
    obtain ⟨i, -, hi⟩ := List.mem_filterMap.mp hu
    have hheld := HotContext.containsId_iff.mpr ⟨i, u, hi, by simpa using heq⟩
    rw [h.hot] at hheld
    cases hheld
  have hwarm : session.warmContext.find? (fun c => c.update.id == id) = none :=
    List.find?_eq_none.mpr (fun c hc => by simpa using h.warm c hc)
  rw [findUpdate, hnone]
  dsimp only
  rw [hhot]
  dsimp only
  rw [hwarm]
  rfl

theorem removeAll_untold {session : ActiveSession} {updates : List ContextUpdate}
    {seen : List Uuid}
    (hseen : forall id, id ∈ seen ->
      forall u, u ∈ session.incrementalUpdates -> u.id ≠ id)
    (hfound : forall w, w ∈ firstsFrom seen updates ->
      session.incrementalUpdates.find? (fun u => u.id == w.id) = some w)
    (huntold : forall w, w ∈ updates -> Untold session w.id)
    (hitems : forall w, w ∈ firstsFrom seen updates -> NoItem session.currentState w) :
    (updates.map ContextUpdate.id).foldl removeOne session =
      { session with
        incrementalUpdates :=
          ((updates.map ContextUpdate.id).foldl removeOne session).incrementalUpdates
        codeReferences :=
          dropAll session.codeReferences
            ((firstsFrom seen updates).filterMap ContextUpdate.relatedCode) } := by
  induction updates generalizing session seen with
  | nil => rfl
  | cons w rest ih =>
      rw [List.map_cons, List.foldl_cons]
      by_cases hmem : w.id ∈ seen
      · have hsame : session.removeOne w.id = session := by
          have hnone := findUpdate_untold (huntold w List.mem_cons_self) (hseen _ hmem)
          rw [removeOne, removeUpdateById, hnone]
          rfl
        have hfirsts : firstsFrom seen (w :: rest) = firstsFrom seen rest :=
          if_pos hmem
        rw [hsame, hfirsts]
        rw [hfirsts] at hfound hitems
        exact ih hseen hfound (fun u hu => huntold u (List.mem_cons_of_mem _ hu)) hitems
      · have hfirsts : firstsFrom seen (w :: rest) =
            w :: firstsFrom (w.id :: seen) rest :=
          if_neg hmem
        rw [hfirsts] at hfound hitems
        have hone : session.removeOne w.id =
            { session with
              incrementalUpdates :=
                session.incrementalUpdates.filter (fun u => u.id != w.id)
              codeReferences :=
                dropAll session.codeReferences w.relatedCode.toList } := by
          rw [removeOne, removeUpdateById_found
            (findUpdate_listed (hfound w List.mem_cons_self)), Option.getD_some]
          exact without_untold (huntold w List.mem_cons_self)
            (hitems w List.mem_cons_self)
        have hrest := @ih (session.removeOne w.id) (w.id :: seen) ?_ ?_ ?_ ?_
        · rw [hrest, hone, hfirsts]
          cases hcode : w.relatedCode with
          | none | some r => simp [hcode, dropAll]
        · rw [hone]
          intro id hid u hu
          obtain ⟨hold, hne⟩ := List.mem_filter.mp hu
          rcases List.mem_cons.mp hid with rfl | hid
          · simpa using hne
          · exact hseen id hid u hold
        · rw [hone]
          intro w' hw'
          have hne : w'.id ≠ w.id := fun heq =>
            (mem_firstsFrom hw').1 (heq ▸ List.mem_cons_self)
          show (session.incrementalUpdates.filter _).find? _ = _
          rw [List.find?_filter, ← hfound w' (List.mem_cons_of_mem _ hw')]
          apply List.find?_congr
          intro u _
          by_cases heq : u.id = w'.id
          · simp [heq, hne]
          · simp [heq]
        · rw [hone]
          intro u hu
          have h := huntold u (List.mem_cons_of_mem _ hu)
          exact ⟨h.hot, h.warm, h.history, h.flow, h.mentions⟩
        · rw [hone]
          exact fun u hu => hitems u (List.mem_cons_of_mem _ hu)

/-!
# Both ways compared
-/

variable {filePath : String}

theorem mem_updatesAbout :
    w ∈ session.updatesAbout filePath ↔
      w ∈ session.incrementalUpdates ∧ refersToFile filePath w = true :=
  List.mem_filter

theorem foundAbout_files
    (hr : r ∈ (session.foundAbout filePath).filterMap ContextUpdate.relatedCode) :
    r.filePath = filePath := by
  obtain ⟨w, hw, hcode⟩ := List.mem_filterMap.mp hr
  have hmem := List.mem_of_find?_eq_some (mem_firstsFrom hw).2
  have hrefers := (mem_updatesAbout.mp hmem).2
  rw [refersToFile, hcode] at hrefers
  simpa using hrefers

/-- When every update with such an id is about the file, the first of the list is
the first of those. -/
theorem find_foundAbout (hids : forall w, w ∈ session.updatesAbout filePath ->
      forall u, u ∈ session.incrementalUpdates -> u.id = w.id ->
        refersToFile filePath u = true) (hw : w ∈ session.foundAbout filePath) :
    session.incrementalUpdates.find? (fun u => u.id == w.id) = some w := by
  have hfind := (mem_firstsFrom hw).2
  have hmem := List.mem_of_find?_eq_some hfind
  rw [← hfind, updatesAbout, List.find?_filter]
  apply List.find?_congr
  intro u hu
  by_cases hid : u.id = w.id
  · simp [hid, hids w hmem u hu hid]
  · simp [hid]

theorem removeUpdatesForFile_eq (session : ActiveSession) (filePath : String) :
    (session.removeUpdatesForFile filePath).1 =
      { session with
        incrementalUpdates :=
          session.incrementalUpdates.filter (fun u => !refersToFile filePath u)
        codeReferences :=
          if session.updatesAbout filePath = [] then session.codeReferences
          else session.codeReferences.erase filePath } := by
  have hlength := List.length_eq_length_filter_add (l := session.incrementalUpdates)
    (refersToFile filePath)
  have hpositive : (0 < session.incrementalUpdates.length -
      (session.incrementalUpdates.filter (fun u => !refersToFile filePath u)).length) ↔
        ¬ session.updatesAbout filePath = [] := by
    rw [← List.length_eq_zero_iff, updatesAbout]
    omega
  unfold removeUpdatesForFile
  by_cases hnone : session.updatesAbout filePath = []
  · simp [hpositive, hnone]
  · simp [hpositive, hnone]

theorem removeEach_eq (hids : forall w, w ∈ session.updatesAbout filePath ->
      forall u, u ∈ session.incrementalUpdates -> u.id = w.id ->
        refersToFile filePath u = true)
    (huntold : forall w, w ∈ session.updatesAbout filePath -> Untold session w.id)
    (hitems : forall w, w ∈ session.foundAbout filePath ->
      NoItem session.currentState w) :
    session.removeEach filePath =
      { session with
        incrementalUpdates :=
          session.incrementalUpdates.filter (fun u => !refersToFile filePath u)
        codeReferences :=
          dropAll session.codeReferences
            ((session.foundAbout filePath).filterMap ContextUpdate.relatedCode) } := by
  have hall := @removeAll_untold session (session.updatesAbout filePath) []
    (fun _ hid => absurd hid List.not_mem_nil)
    (fun w hw => find_foundAbout hids hw) huntold hitems
  have hlist : (((session.updatesAbout filePath).map ContextUpdate.id).foldl removeOne
      session).incrementalUpdates =
        session.incrementalUpdates.filter (fun u => !refersToFile filePath u) := by
    rw [incremental_removeAll]
    apply List.filter_congr
    intro u hu
    congr 1
    rw [Bool.eq_iff_iff, List.contains_iff_mem, List.mem_map]
    constructor
    · rintro ⟨w, hw, hid⟩
      exact hids w hw u hu hid.symm
    · intro hrefers
      exact ⟨u, mem_updatesAbout.mpr ⟨hu, hrefers⟩, rfl⟩
  rw [removeEach, hall, hlist]
  rfl

/-- The removal of the file does what the removals one by one do, and keeps the
updates about other files. -/
structure RemovesAlike (session : ActiveSession) (filePath : String) : Prop where
  same : (session.removeUpdatesForFile filePath).1 = session.removeEach filePath
  others : forall u, refersToFile filePath u = false ->
    (u ∈ (session.removeUpdatesForFile filePath).1.incrementalUpdates ↔
      u ∈ session.incrementalUpdates)

theorem find_before {before : List Uuid}
    (hfind : session.incrementalUpdates.find? (fun u => u.id == w.id) = some w)
    (hbefore : w.id ∉ before) :
    (before.foldl removeOne session).findUpdate w.id = some w := by
  apply findUpdate_listed
  rw [incremental_removeAll, List.find?_filter, ← hfind]
  apply List.find?_congr
  intro u _
  by_cases hid : u.id = w.id
  · simp [hid, hbefore]
  · simp [hid]

theorem untold_of_same
    (h : (session.removeUpdatesForFile filePath).1 = session.removeEach filePath)
    (hw : w ∈ session.updatesAbout filePath) :
    Untold session w.id := by
  have hlisted := (mem_updatesAbout.mp hw).1
  have hid : w.id ∈ (session.updatesAbout filePath).map ContextUpdate.id :=
    List.mem_map_of_mem hw
  have hgone : Gone (session.removeEach filePath) w.id := gone_removeAll hlisted hid
  rw [← h, removeUpdatesForFile_eq] at hgone
  refine ⟨?_, hgone.warm, hgone.history, hgone.flow, hgone.mentions⟩
  obtain ⟨before, after, hsplit, hfirst⟩ := List.eq_append_cons_of_mem hid
  have hend : ((before ++ w.id :: after).foldl removeOne session).hotContext =
      session.hotContext := by
    rw [← hsplit]
    show (session.removeEach filePath).hotContext = _
    rw [← h, removeUpdatesForFile_eq]
  obtain ⟨hbefore, hone⟩ := unchanged_of_foldl ActiveSession.hotContext
    (fun hot => hot.updates.size) hot_removeOne hend
  rw [Bool.eq_false_iff]
  intro hheld
  rcases removeOne_cases (before.foldl removeOne session) w.id with
    ⟨hnone, -⟩ | ⟨removed, -, heq⟩
  · have hkept : w ∈ (before.foldl removeOne session).incrementalUpdates := by
      rw [incremental_removeAll]
      exact List.mem_filter.mpr ⟨hlisted, by simpa using hfirst⟩
    exact findUpdate_none hnone w hkept rfl
  · have hheld' : (before.foldl removeOne session).hotContext.containsId w.id =
        true := by
      rw [hbefore]
      exact hheld
    have hless := size_removeById hheld'
    have hremoved : (removeOne (before.foldl removeOne session) w.id).hotContext =
        (before.foldl removeOne session).hotContext.removeById w.id := by
      rw [heq]
      exact if_pos hheld'
    rw [← hremoved, hone, hbefore] at hless
    omega

theorem unmatched_of_same (l : ItemList ι)
    (h : (session.removeUpdatesForFile filePath).1 = session.removeEach filePath)
    (hw : w ∈ session.updatesAbout filePath)
    (hfind : session.incrementalUpdates.find? (fun u => u.id == w.id) = some w) :
    l.Unmatched session.currentState w := by
  have hid : w.id ∈ (session.updatesAbout filePath).map ContextUpdate.id :=
    List.mem_map_of_mem hw
  obtain ⟨before, after, hsplit, hfirst⟩ := List.eq_append_cons_of_mem hid
  have hend : l.get ((before ++ w.id :: after).foldl removeOne session).currentState =
      l.get session.currentState := by
    rw [← hsplit]
    show l.get (session.removeEach filePath).currentState = _
    rw [← h, removeUpdatesForFile_eq]
  obtain ⟨hbefore, hone⟩ := unchanged_of_foldl
    (fun s : ActiveSession => l.get s.currentState) List.length
    l.removeOne_smaller hend
  have hremoved : removeOne (before.foldl removeOne session) w.id =
      (before.foldl removeOne session).without w.id w := by
    rw [removeOne, removeUpdateById_found (find_before hfind hfirst)]
    rfl
  have hsame : l.get (removedState (before.foldl removeOne session).currentState w) =
      l.get (before.foldl removeOne session).currentState := by
    rw [hremoved] at hone
    exact hone.trans hbefore.symm
  have hunmatched := (l.removed_same_iff _ w).mp hsame
  intro htype x hx
  exact hunmatched htype x (by rwa [hbefore])

/-- `remove_updates_for_file` does what the removals one by one do exactly when
of the updates about the file only the list and the references of the file
tell. -/
theorem file_removal_alike_iff (session : ActiveSession) (filePath : String) :
    RemovesAlike session filePath ↔ Untraced session filePath := by
  constructor
  · intro halike
    have h := halike.same
    have hids : forall w, w ∈ session.updatesAbout filePath ->
        forall u, u ∈ session.incrementalUpdates -> u.id = w.id ->
          refersToFile filePath u = true := by
      intro w hw u hu hid
      by_contra hrefers
      rw [Bool.not_eq_true] at hrefers
      have hkept := (halike.others u hrefers).mpr hu
      have hgone : Gone (session.removeEach filePath) w.id :=
        gone_removeAll (mem_updatesAbout.mp hw).1 (List.mem_map_of_mem hw)
      rw [h] at hkept
      exact hgone.incremental u hkept hid
    have huntold : forall w, w ∈ session.updatesAbout filePath ->
        Untold session w.id :=
      fun w hw => untold_of_same h hw
    have hitems : forall w, w ∈ session.foundAbout filePath ->
        NoItem session.currentState w := by
      intro w hw
      have hmem := List.mem_of_find?_eq_some (mem_firstsFrom hw).2
      have hfind := find_foundAbout hids hw
      exact ⟨unmatched_of_same questions h hmem hfind,
        unmatched_of_same decisions h hmem hfind,
        unmatched_of_same concepts h hmem hfind,
        unmatched_of_same specifications h hmem hfind⟩
    refine ⟨hids, huntold, hitems, fun hsome => ?_⟩
    rw [removeUpdatesForFile_eq, removeEach_eq hids huntold hitems, if_neg hsome] at h
    have hcodes := congrArg ActiveSession.codeReferences h
    exact (dropAll_eq_erase_iff (fun r hr => foundAbout_files hr)).mp hcodes.symm
  · intro h
    refine ⟨?_, ?_⟩
    · rw [removeUpdatesForFile_eq, removeEach_eq h.ids h.untold h.items]
      by_cases hnone : session.updatesAbout filePath = []
      · rw [if_pos hnone, foundAbout, hnone]
        rfl
      · rw [if_neg hnone, (dropAll_eq_erase_iff
          (fun r hr => foundAbout_files hr)).mpr (h.references hnone)]
    · intro u hu
      rw [removeUpdatesForFile_eq]
      show u ∈ session.incrementalUpdates.filter _ ↔ _
      rw [List.mem_filter, hu]
      simp

def aboutMain : ContextUpdate :=
  { ContextUpdate.plain 1 0 "fixed" with
    relatedCode := some ⟨"main.rs", 1, 2, "fn main() {}", none, none, "fix"⟩ }

/-- The hot tier still has an update that was removed with its file. -/
theorem removed_update_stays_hot :
    ¬ RemovesAlike
      ((ActiveSession.new 0 none none 0).addIncrementalUpdateFast ⟨1, 1, 2, 3⟩
        aboutMain) "main.rs" := by
  intro h
  have hhot := congrArg (fun s => s.hotContext.snapshot.length) h.same
  revert hhot
  decide +kernel

end ActiveSession
end Session
end PostCortex

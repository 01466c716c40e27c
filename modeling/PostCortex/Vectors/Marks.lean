import PostCortex.Vectors.Bookkeeping

/-!
# Marks and stored chunks

The set of vectorized ids and the counts of the last complete run against the
vectors that are stored, over whole runs.  An update is marked as soon as its
first chunk is stored, and a retry adds every chunk again; so the marks are right
as long as each call stores all chunks of an update or none.
-/

namespace PostCortex
namespace Vectors
namespace Bookkeeping

open PostCortex.Core
open PostCortex.Graph
open PostCortex.Session
open Transition

def Content.update : Content -> Option Uuid
  | Content.chunk c => some c.update
  | Content.entity _ => none

def Content.isFirst : Content -> Bool
  | Content.chunk c => c.chunk == 0
  | Content.entity _ => false

def Outcome.stores (setup : Setup) (outcome : Outcome) (i : Nat) : Bool :=
  (match outcome.embedded with
    | Except.error _ => false
    | Except.ok n => decide (i < n)) &&
    (!setup.persistentStorage || outcome.persisted) && outcome.accepts i

def Together (stores : Nat -> Bool) (items : List Item) : Prop :=
  forall i j : Fin items.length,
    (items.get i).content.update = (items.get j).content.update ->
    stores i = true -> stores j = true

/-- With the first chunk of an update, all of its chunks are stored. -/
def Headed (stores : Nat -> Bool) (items : List Item) : Prop :=
  forall i j : Fin items.length,
    (items.get i).content.update = (items.get j).content.update ->
    (items.get i).content.isFirst = true ->
    stores i = true -> stores j = true

instance (stores : Nat -> Bool) (items : List Item) :
    Decidable (Together stores items) :=
  inferInstanceAs (Decidable (forall _ _ : Fin items.length, _ -> _ -> _))

instance (stores : Nat -> Bool) (items : List Item) :
    Decidable (Headed stores items) :=
  inferInstanceAs (Decidable (forall _ _ : Fin items.length, _ -> _ -> _ -> _))

variable {items : List Item}

theorem Together.headed {stores : Nat -> Bool} (h : Together stores items) :
    Headed stores items :=
  fun i j hupdate _ hstores => h i j hupdate hstores

/-!
# Stored items
-/

theorem mem_accepted {accepts : Nat -> Bool} {x : Item} :
    x ∈ accepted accepts items ↔
      exists i : Nat, items[i]? = some x ∧ accepts i = true := by
  unfold accepted
  rw [List.mem_map]
  constructor
  · intro h
    obtain ⟨⟨y, i⟩, hmem, rfl⟩ := h
    obtain ⟨hat, haccepts⟩ := List.mem_filter.mp hmem
    exact ⟨i, List.mem_zipIdx_iff_getElem?.mp hat, haccepts⟩
  · intro h
    obtain ⟨i, hat, haccepts⟩ := h
    exact ⟨(x, i), List.mem_filter.mpr
      ⟨List.mem_zipIdx_iff_getElem?.mpr hat, haccepts⟩, rfl⟩

theorem mem_keptItems {setup : Setup} {outcome : Outcome} {x : Item} :
    x ∈ keptItems setup items outcome ↔
      exists i : Nat, items[i]? = some x ∧ outcome.stores setup i = true := by
  unfold keptItems Outcome.stores stored
  cases outcome.embedded with
  | error e =>
      simp
  | ok n =>
      dsimp only
      split
      · next hlost =>
        rw [Bool.and_eq_true, Bool.not_eq_true'] at hlost
        simp [hlost.1, hlost.2]
      · next hwrites =>
        have hwritten : (!setup.persistentStorage || outcome.persisted) = true := by
          rw [Bool.and_eq_true, Bool.not_eq_true', not_and,
            Bool.not_eq_false] at hwrites
          rw [Bool.or_eq_true, Bool.not_eq_true']
          by_cases hstorage : setup.persistentStorage = true
          · exact Or.inr (hwrites hstorage)
          · exact Or.inl (Bool.eq_false_iff.mpr hstorage)
        rw [mem_accepted, hwritten]
        refine exists_congr ?_
        intro i
        rw [List.getElem?_take]
        by_cases hi : i < n
        · simp [hi]
        · simp [hi]

variable {setup : Setup} {b after : Books} {u : ContextUpdate} {c : ContentId} {id : Uuid}
  {outcome : Outcome}

theorem stored_whole
    (h : forall i, i < items.length -> outcome.stores setup i = true) :
    stored setup items outcome = items := by
  unfold stored
  split
  · next hlost =>
    rw [Bool.and_eq_true, Bool.not_eq_true'] at hlost
    cases items with
    | nil =>
        rfl
    | cons x rest =>
        have hfirst := h 0 (Nat.zero_lt_succ _)
        rw [Outcome.stores, hlost.1, hlost.2, Bool.not_true, Bool.or_self,
          Bool.and_false, Bool.false_and] at hfirst
        cases hfirst
  · unfold accepted
    rw [List.filter_eq_self.mpr, List.zipIdx_map_fst]
    intro x hx
    obtain ⟨hlt, -⟩ := List.getElem?_eq_some_iff.mp
      (List.mem_zipIdx_iff_getElem?.mp hx)
    have hstores := h x.2 hlt
    rw [Outcome.stores, Bool.and_eq_true] at hstores
    exact hstores.2

theorem keptItems_all (setup : Setup)
    (h : outcome.embedded = Except.ok items.length) :
    keptItems setup items outcome = stored setup items outcome := by
  unfold keptItems
  rw [h]
  dsimp only
  rw [List.take_length]

theorem contents_removeContent (hother : c.update ≠ id) :
    Content.chunk c ∈ (removeContent b id).contents ↔
      Content.chunk c ∈ b.contents := by
  unfold removeContent Books.contents
  dsimp only
  rw [List.mem_map, List.mem_map]
  constructor
  · intro h
    obtain ⟨e, he, hcontent⟩ := h
    exact ⟨e, (List.mem_filter.mp he).1, hcontent⟩
  · intro h
    obtain ⟨e, he, hcontent⟩ := h
    refine ⟨e, List.mem_filter.mpr ⟨he, ?_⟩, hcontent⟩
    rw [hcontent]
    refine decide_eq_true ?_
    intro hmem
    obtain ⟨n, -, heq⟩ := List.mem_map.mp hmem
    exact hother (heq ▸ rfl)

theorem mem_parsedIds {contents : List Content} :
    id ∈ parsedIds contents ↔ Content.chunk ⟨id, 0⟩ ∈ contents := by
  unfold parsedIds
  rw [List.mem_filterMap]
  constructor
  · intro h
    obtain ⟨content, hmem, hid⟩ := h
    cases content with
    | chunk c =>
        dsimp only at hid
        split at hid
        · next hfirst =>
          obtain ⟨update, n⟩ := c
          dsimp only at hfirst hid
          cases hfirst
          cases hid
          exact hmem
        · cases hid
    | entity name =>
        cases hid
  · intro h
    exact ⟨_, h, rfl⟩

theorem mem_freshMarks :
    id ∈ freshMarks b ↔ id ∈ b.marks ∧ Content.chunk ⟨id, 0⟩ ∈ b.contents := by
  unfold freshMarks hasUpdateEmbedding Books.contents
  rw [List.mem_filter, List.any_eq_true, List.mem_map]
  simp only [beq_iff_eq]

/-- An update comes with an id that the session has never had. -/
def FreshId (b : Books) (e : SessionEvent) : Prop :=
  (addedUpdate e).all (fun u => decide (u.id ∉ b.known)) = true

theorem FreshId.absent {e : SessionEvent} (h : FreshId b e)
    (hadded : addedUpdate e = some u) :
    u.id ∉ b.known := by
  rw [FreshId, hadded] at h
  exact of_decide_eq_true h

/-- No content is stored twice, and the chunks of an update that is shown are stored
under its mark. -/
structure Balanced (b : Books) : Prop where
  nodup : b.contents.Nodup
  known : forall c, Content.chunk c ∈ b.contents -> c.update ∈ b.known
  marked : forall u, Shown b.session u -> forall c, Content.chunk c ∈ b.contents ->
    c.update = u.id -> u.id ∈ b.marks

theorem Balanced.refreshed (h : Balanced b) (hrefreshed : Refreshed b after) :
    Balanced after where
  nodup := hrefreshed.nodup h.nodup
  known := by
    intro c hc
    rw [hrefreshed.known]
    exact h.known c ((hrefreshed.chunks c).mp hc)
  marked := by
    rw [hrefreshed.session, hrefreshed.marks]
    intro u hu c hc
    exact h.marked u hu c ((hrefreshed.chunks c).mp hc)

section

variable [CharTables]

theorem contents_itemsOf (config : VectorizerConfig) (u : ContextUpdate) :
    (itemsOf config u).map Item.content =
      (contentsOf config u).map Content.chunk := by
  unfold itemsOf contentsOf
  dsimp only
  split
  · rw [List.map_map, List.map_map]
    rfl
  · rfl

variable {config : VectorizerConfig}

theorem mem_itemsOf :
    (exists x, x ∈ itemsOf config u ∧ x.content = Content.chunk c) ↔
      c ∈ contentsOf config u := by
  rw [← List.mem_map, contents_itemsOf, List.mem_map]
  constructor
  · intro h
    obtain ⟨d, hd, heq⟩ := h
    exact Content.chunk.inj heq ▸ hd
  · intro h
    exact ⟨c, h, rfl⟩

variable {x : Item}

theorem itemsOf_chunk (h : x ∈ itemsOf config u) :
    exists c, c ∈ contentsOf config u ∧ x.content = Content.chunk c := by
  have hmem := List.mem_map_of_mem (f := Item.content) h
  rw [contents_itemsOf] at hmem
  obtain ⟨c, hc, heq⟩ := List.mem_map.mp hmem
  exact ⟨c, hc, heq.symm⟩

theorem itemsOf_update (h : x ∈ itemsOf config u) :
    x.content.update = some u.id := by
  obtain ⟨c, hc, heq⟩ := itemsOf_chunk h
  rw [heq]
  exact congrArg some (contentsOf_update hc)

theorem first_mem_contentsOf (h : contentsOf config u ≠ []) :
    ⟨u.id, 0⟩ ∈ contentsOf config u := by
  cases hcontents : contentsOf config u with
  | nil =>
      exact absurd hcontents h
  | cons c rest =>
      have hat : (contentsOf config u)[0]? = some c := by
        rw [hcontents]
        rfl
      rw [← contentsOf_getElem? hat]
      exact List.mem_cons_self

theorem nodup_contentsOf (config : VectorizerConfig) (u : ContextUpdate) :
    (contentsOf config u).Nodup := by
  refine List.nodup_iff_getElem?_ne_getElem?.mpr ?_
  intro i j hij hj heq
  have hc := List.getElem?_eq_getElem hj
  rw [hc] at heq
  have hi := contentsOf_getElem? heq
  rw [contentsOf_getElem? hc] at hi
  have hsame := congrArg ContentId.chunk hi
  dsimp only at hsame
  omega

variable {session : ActiveSession} {marks : List Uuid}

theorem mem_collectUpdates :
    x ∈ collectUpdates setup session marks ↔
      exists u, u ∈ session.incrementalUpdates ∧ u.id ∉ marks ∧
        x ∈ itemsOf setup.config u := by
  unfold collectUpdates
  rw [List.mem_flatMap]
  refine exists_congr ?_
  intro u
  rw [List.mem_filter, decide_eq_true_iff, and_assoc]

theorem nodup_collectUpdates (setup : Setup)
    (hids : (session.incrementalUpdates.map ContextUpdate.id).Nodup)
    (marks : List Uuid) :
    ((collectUpdates setup session marks).map Item.content).Nodup := by
  unfold collectUpdates
  have hkept : ((session.incrementalUpdates.filter (fun u => u.id ∉ marks)).map
      ContextUpdate.id).Nodup :=
    hids.sublist (List.filter_sublist.map ContextUpdate.id)
  generalize session.incrementalUpdates.filter (fun u => u.id ∉ marks) = updates
    at hkept
  induction updates with
  | nil =>
      exact List.nodup_nil
  | cons u rest ih =>
      obtain ⟨hnot, hrest⟩ := List.nodup_cons.mp hkept
      rw [List.flatMap_cons, List.map_append, List.nodup_append]
      refine ⟨?_, ih hrest, ?_⟩
      · rw [contents_itemsOf]
        exact (nodup_contentsOf setup.config u).map
          (fun _ _ heq => Content.chunk.inj heq)
      · intro c hc d hd heq
        obtain ⟨x, hx, rfl⟩ := List.mem_map.mp hc
        obtain ⟨y, hy, rfl⟩ := List.mem_map.mp hd
        obtain ⟨v, hv, hyv⟩ := List.mem_flatMap.mp hy
        have hid := congrArg Content.update heq
        rw [itemsOf_update hx, itemsOf_update hyv] at hid
        exact hnot (Option.some.inj hid ▸ List.mem_map_of_mem hv)

/-!
# Marks of whole updates
-/

structure Sound (setup : Setup) (b : Books) : Prop where
  numbered : Numbered b
  versioned : Versioned b.session b.known
  known : forall id, id ∈ b.marks -> id ∈ b.known
  whole : forall u, Shown b.session u -> u.id ∈ b.marks ->
    contentsOf setup.config u ≠ [] ∧
      forall c, c ∈ contentsOf setup.config u -> Content.chunk c ∈ b.contents

theorem sound_init (setup : Setup) (id : Uuid) (name description : Option String)
    (created : Timestamp) :
    Sound setup (bookkeeping setup id name description created).init where
  numbered := ⟨List.nodup_nil, fun _ he => absurd he List.not_mem_nil⟩
  versioned := versioned_new id name description created
  known := fun _ hid => absurd hid List.not_mem_nil
  whole := fun _ _ hmark => absurd hmark List.not_mem_nil

theorem Sound.refreshed (h : Sound setup b) (hrefreshed : Refreshed b after) :
    Sound setup after where
  numbered := hrefreshed.numbered
  versioned := by
    rw [hrefreshed.session, hrefreshed.known]
    exact h.versioned
  known := by
    rw [hrefreshed.marks, hrefreshed.known]
    exact h.known
  whole := by
    rw [hrefreshed.session, hrefreshed.marks]
    intro u hu hmark
    obtain ⟨hnonempty, hall⟩ := h.whole u hu hmark
    exact ⟨hnonempty, fun c hc => (hrefreshed.chunks c).mpr (hall c hc)⟩

variable {kept : List Item}

/-- What is added and marked: the chunks of updates that are shown, and every chunk
of an update that comes to be marked. -/
theorem Sound.extended (h : Sound setup b) (hextends : Extends b after kept)
    (hmarks : forall id, id ∈ after.marks -> id ∈ b.marks ∨
      exists u, Shown b.session u ∧ u.id = id ∧ contentsOf setup.config u ≠ [] ∧
        forall c, c ∈ contentsOf setup.config u ->
          Content.chunk c ∈ kept.map Item.content) :
    Sound setup after where
  numbered := hextends.numbered h.numbered
  versioned := by
    rw [hextends.session, hextends.known]
    exact h.versioned
  known := by
    intro id hid
    rw [hextends.known]
    rcases hmarks id hid with hold | ⟨u, hu, rfl, -⟩
    · exact h.known id hold
    · exact h.versioned.known u hu
  whole := by
    rw [hextends.session, hextends.contents]
    intro u hu hmark
    rcases hmarks u.id hmark with hold | ⟨v, hv, hid, hnonempty, hall⟩
    · obtain ⟨hnonempty, hall⟩ := h.whole u hu hold
      exact ⟨hnonempty, fun c hc => List.mem_append_left _ (hall c hc)⟩
    · have hsame := (h.versioned.alike u v hu hv hid.symm).contentsOf setup.config
      rw [hsame]
      exact ⟨hnonempty, fun c hc => List.mem_append_right _ (hall c hc)⟩

theorem Sound.event {setup : Setup} {b : Books} (h : Sound setup b)
    {e : SessionEvent} (hfresh : FreshId b e) :
    Sound setup ((Action.event e).apply setup b) := by
  have hfollows := follows_apply b.session e
  refine ⟨⟨h.numbered.ids, h.numbered.below⟩,
    h.versioned.follows hfollows (fun u hu => hfresh.absent hu),
    fun id hid => List.mem_append_left _ (h.known id hid), ?_⟩
  intro u hu hmark
  rcases hfollows.shown u hu with ⟨v, hv, hsame⟩ | hadded
  · have hwhole := h.whole v hv (hsame.id ▸ hmark)
    rw [← hsame.contentsOf setup.config] at hwhole
    exact hwhole
  · exact absurd (h.known u.id hmark) (hfresh.absent hadded)

theorem erase_cases (hversioned : Versioned b.session b.known) (erasure : Erasure)
    (now : Timestamp) (id : Uuid) :
    erase b erasure now id = b ∨
    exists session,
      erase b erasure now id =
        removeContent
          { b with session := session, marks := b.marks.filter (· != id) } id ∧
      Versioned session b.known ∧
      forall u, Shown session u -> u.id ≠ id ∧ Shown b.session u := by
  unfold erase
  split
  · exact Or.inl rfl
  · next session hremoved =>
    obtain ⟨hafter, hshown⟩ := hversioned.removed hremoved
    cases erasure with
    | delete =>
        exact Or.inr ⟨session, rfl, hafter, hshown⟩
    | purge =>
        have hfollows : Follows session (session.rebuildEntityGraphSync now) none :=
          Follows.same rfl rfl
        have hrebuilt := hafter.follows hfollows
          (fun u hu => absurd hu.symm (Option.some_ne_none u))
        rw [Option.map_none, Option.toList_none, List.append_nil] at hrebuilt
        exact Or.inr ⟨session.rebuildEntityGraphSync now, rfl, hrebuilt, hshown⟩

theorem Sound.erase (h : Sound setup b) (erasure : Erasure) (now : Timestamp)
    (id : Uuid) :
    Sound setup (erase b erasure now id) := by
  rcases erase_cases h.versioned erasure now id with
    hsame | ⟨session, herased, hversioned, hshown⟩
  · rw [hsame]
    exact h
  · rw [herased]
    refine ⟨⟨?_, ?_⟩, hversioned, ?_, ?_⟩
    · exact h.numbered.ids.sublist (List.filter_sublist.map Entry.id)
    · intro e he
      exact h.numbered.below e (List.mem_filter.mp he).1
    · intro other hother
      exact h.known other (List.mem_filter.mp hother).1
    · intro u hu hmark
      obtain ⟨hne, hbefore⟩ := hshown u hu
      obtain ⟨hnonempty, hall⟩ := h.whole u hbefore (List.mem_filter.mp hmark).1
      refine ⟨hnonempty, ?_⟩
      intro c hc
      have hother : c.update ≠ id := by
        rw [contentsOf_update hc]
        exact hne
      exact (contents_removeContent hother).mpr (hall c hc)

theorem Sound.vectorizeUpdate (h : Sound setup b) (id : Uuid) (outcome : Outcome) :
    Sound setup (vectorizeUpdate setup b id outcome).1 := by
  rcases vectorizeUpdate_cases setup h.numbered id outcome with
    hsame | ⟨update, hupdate, -, hitems, -, hextends, hmarks⟩
  · rw [hsame]
    exact h
  · refine h.extended hextends ?_
    intro marked hmarked
    rw [hmarks] at hmarked
    split at hmarked
    · next hall =>
      have hkept := (stored_sublist setup (itemsOf setup.config update)
        outcome).eq_of_length hall
      rcases List.mem_append.mp hmarked with hold | hnew
      · exact Or.inl hold
      · obtain ⟨hshown, hid⟩ := lookupUpdate_shown hupdate
        rw [List.mem_singleton] at hnew
        refine Or.inr ⟨update, hshown, hnew.symm, ?_, ?_⟩
        · intro hnone
          have hcontents := contents_itemsOf setup.config update
          rw [hnone, List.map_nil, List.map_eq_nil_iff] at hcontents
          exact hitems hcontents
        · intro c hc
          rw [hkept, contents_itemsOf]
          exact List.mem_map_of_mem hc
    · exact Or.inl hmarked

theorem Sound.fresh (h : Sound setup b) (hu : Shown b.session u)
    (hmark : u.id ∈ b.marks) :
    u.id ∈ freshMarks b := by
  obtain ⟨hnonempty, hall⟩ := h.whole u hu hmark
  exact mem_freshMarks.mpr ⟨hmark, hall _ (first_mem_contentsOf hnonempty)⟩

/-- A chunk that is kept is of an update of the list without a mark, and so are the
others of it that come with it. -/
theorem collected_of_kept
    (hc : Content.chunk c ∈ (keptItems setup (collectUpdates setup session marks)
      outcome).map Item.content) :
    exists u, u ∈ session.incrementalUpdates ∧ u.id = c.update ∧ u.id ∉ marks ∧
      c ∈ contentsOf setup.config u := by
  obtain ⟨x, hx, hcontent⟩ := List.mem_map.mp hc
  obtain ⟨u, hu, hunmarked, hitem⟩ :=
    mem_collectUpdates.mp ((keptItems_sublist _ _ _).subset hx)
  have hmem := mem_itemsOf.mp ⟨x, hitem, hcontent⟩
  exact ⟨u, hu, (contentsOf_update hmem).symm, hunmarked, hmem⟩

theorem kept_of_stores {P : Content -> Prop}
    (htogether : forall i j : Fin (collectUpdates setup session marks).length,
      ((collectUpdates setup session marks).get i).content.update =
        ((collectUpdates setup session marks).get j).content.update ->
      P ((collectUpdates setup session marks).get i).content ->
      outcome.stores setup i = true -> outcome.stores setup j = true)
    (hP : P (Content.chunk c))
    (hc : Content.chunk c ∈ (keptItems setup (collectUpdates setup session marks)
      outcome).map Item.content) (hu : u ∈ session.incrementalUpdates)
    (hid : u.id = c.update) (hunmarked : u.id ∉ marks) {d : ContentId}
    (hd : d ∈ contentsOf setup.config u) :
    Content.chunk d ∈ (keptItems setup (collectUpdates setup session marks)
      outcome).map Item.content := by
  obtain ⟨x, hx, hcontent⟩ := List.mem_map.mp hc
  obtain ⟨y, hy, hcontent'⟩ := mem_itemsOf.mpr hd
  obtain ⟨i, hi, hstores⟩ := mem_keptItems.mp hx
  obtain ⟨j, hj⟩ := List.getElem?_of_mem
    (mem_collectUpdates.mpr ⟨u, hu, hunmarked, hy⟩)
  obtain ⟨hilt, hi⟩ := List.getElem?_eq_some_iff.mp hi
  obtain ⟨hjlt, hjat⟩ := List.getElem?_eq_some_iff.mp hj
  have hsame : x.content.update = y.content.update := by
    rw [itemsOf_update hy, hcontent, hid]
    rfl
  have hkept := htogether ⟨i, hilt⟩ ⟨j, hjlt⟩
    (by rw [List.get_eq_getElem, List.get_eq_getElem, hi, hjat]; exact hsame)
    (by rw [List.get_eq_getElem, hi, hcontent]; exact hP) hstores
  exact hcontent' ▸ List.mem_map_of_mem (mem_keptItems.mpr ⟨j, hj, hkept⟩)

variable {updates : Outcome}

theorem Sound.vectorizeSession (h : Sound setup b) (entities : Outcome)
    (hheaded : Headed (updates.stores setup)
      (collectUpdates setup b.session (freshMarks b))) :
    Sound setup (vectorizeSession setup b updates entities).1 := by
  obtain ⟨middle, hextends, hmarks, hrefreshed, -⟩ :=
    vectorizeSession_refreshes setup h.numbered updates entities rfl
  refine Sound.refreshed ?_ hrefreshed
  refine h.extended hextends ?_
  intro id hid
  rw [hmarks] at hid
  rcases List.mem_append.mp hid with hfresh | hparsed
  · exact Or.inl (mem_freshMarks.mp hfresh).1
  · rw [mem_parsedIds] at hparsed
    obtain ⟨u, hu, hsame, hunmarked, hmem⟩ := collected_of_kept hparsed
    refine Or.inr ⟨u, Or.inr hu, hsame, List.ne_nil_of_mem hmem, ?_⟩
    intro c hc
    exact kept_of_stores (P := fun content => content.isFirst = true) hheaded rfl
      hparsed hu hsame hunmarked hc

/-!
# Chunks stored once
-/

theorem balanced_init (setup : Setup) (id : Uuid) (name description : Option String)
    (created : Timestamp) :
    Balanced (bookkeeping setup id name description created).init where
  nodup := List.nodup_nil
  known := fun _ hc => absurd hc List.not_mem_nil
  marked := fun _ _ _ hc => absurd hc List.not_mem_nil

/-- What is added is of updates that are shown and were not marked, and comes to be
marked. -/
theorem Balanced.extended (h : Balanced b) (hsound : Sound setup b)
    (hextends : Extends b after kept) (hnodup : (kept.map Item.content).Nodup)
    (hkept : forall i, i ∈ kept -> exists u, Shown b.session u ∧ u.id ∉ b.marks ∧
      u.id ∈ after.marks ∧ exists c, c.update = u.id ∧ i.content = Content.chunk c)
    (hmarks : forall u, Shown b.session u -> u.id ∈ b.marks -> u.id ∈ after.marks) :
    Balanced after where
  nodup := by
    rw [hextends.contents, List.nodup_append]
    refine ⟨h.nodup, hnodup, ?_⟩
    intro content hold other hnew heq
    obtain ⟨i, hi, rfl⟩ := List.mem_map.mp hnew
    obtain ⟨u, hu, hunmarked, -, c, hc, hcontent⟩ := hkept i hi
    rw [heq, hcontent] at hold
    exact hunmarked (h.marked u hu c hold hc)
  known := by
    intro c hc
    rw [hextends.contents] at hc
    rw [hextends.known]
    rcases List.mem_append.mp hc with hold | hnew
    · exact h.known c hold
    · obtain ⟨i, hi, heq⟩ := List.mem_map.mp hnew
      obtain ⟨u, hu, -, -, d, hd, hcontent⟩ := hkept i hi
      have hsame := Content.chunk.inj (hcontent.symm.trans heq)
      rw [← hsame, hd]
      exact hsound.versioned.known u hu
  marked := by
    rw [hextends.session, hextends.contents]
    intro u hu c hc hid
    rcases List.mem_append.mp hc with hold | hnew
    · exact hmarks u hu (h.marked u hu c hold hid)
    · obtain ⟨i, hi, heq⟩ := List.mem_map.mp hnew
      obtain ⟨v, -, -, hmarked, d, hd, hcontent⟩ := hkept i hi
      have hsame := Content.chunk.inj (hcontent.symm.trans heq)
      rw [← hid, ← hsame, hd]
      exact hmarked

theorem Balanced.event {setup : Setup} {b : Books} (h : Balanced b)
    {e : SessionEvent} (hfresh : FreshId b e) :
    Balanced ((Action.event e).apply setup b) := by
  have hfollows := follows_apply b.session e
  refine ⟨h.nodup, fun c hc => List.mem_append_left _ (h.known c hc), ?_⟩
  intro u hu c hc hid
  rcases hfollows.shown u hu with ⟨v, hv, hsame⟩ | hadded
  · have hmarked := h.marked v hv c hc (hid.trans hsame.id)
    rw [← hsame.id] at hmarked
    exact hmarked
  · have hknown := h.known c hc
    rw [hid] at hknown
    exact absurd hknown (hfresh.absent hadded)

theorem Balanced.erase (h : Balanced b) (hsound : Sound setup b) (erasure : Erasure)
    (now : Timestamp) (id : Uuid) :
    Balanced (erase b erasure now id) := by
  rcases erase_cases hsound.versioned erasure now id with
    hsame | ⟨session, herased, -, hshown⟩
  · rw [hsame]
    exact h
  · rw [herased]
    have hstays : forall content,
        content ∈ (removeContent { b with
          session := session, marks := b.marks.filter (· != id) } id).contents ->
        content ∈ b.contents := by
      intro content hmem
      obtain ⟨e, he, hcontent⟩ := List.mem_map.mp hmem
      exact List.mem_map.mpr ⟨e, (List.mem_filter.mp he).1, hcontent⟩
    refine ⟨?_, fun c hc => h.known c (hstays _ hc), ?_⟩
    · exact h.nodup.sublist (List.filter_sublist.map Entry.content)
    · intro u hu c hc hid
      obtain ⟨hne, hbefore⟩ := hshown u hu
      exact List.mem_filter.mpr
        ⟨h.marked u hbefore c (hstays _ hc) hid, bne_iff_ne.mpr hne⟩

def attempted (setup : Setup) (b : Books) (id : Uuid) : List Item :=
  if id ∈ b.marks then []
  else
    match lookupUpdate b.session id with
    | none => []
    | some update => itemsOf setup.config update

theorem Balanced.vectorizeUpdate (h : Balanced b) (hsound : Sound setup b)
    (htogether : outcome.embedded = Except.ok (attempted setup b id).length ->
      Together (outcome.stores setup) (attempted setup b id)) :
    Balanced (vectorizeUpdate setup b id outcome).1 := by
  rcases vectorizeUpdate_cases setup hsound.numbered id outcome with
    hsame | ⟨update, hupdate, hunmarked, hitems, hembedded, hextends, hmarks⟩
  · rw [hsame]
    exact h
  · obtain ⟨hshown, hid⟩ := lookupUpdate_shown hupdate
    have hattempted : attempted setup b id = itemsOf setup.config update := by
      rw [attempted, if_neg hunmarked, hupdate]
    rw [hattempted] at htogether
    have hall := htogether hembedded
    rw [← keptItems_all setup hembedded] at hextends hmarks
    have hsub := keptItems_sublist setup (itemsOf setup.config update) outcome
    have hgrows : forall marked, marked ∈ b.marks ->
        marked ∈ (Bookkeeping.vectorizeUpdate setup b id outcome).1.marks := by
      intro marked hmarked
      rw [hmarks]
      split
      · exact List.mem_append_left _ hmarked
      · exact hmarked
    refine h.extended hsound hextends ?_ ?_ (fun u _ hu => hgrows u.id hu)
    · refine List.Nodup.sublist (hsub.map Item.content) ?_
      rw [contents_itemsOf]
      exact (nodup_contentsOf setup.config update).map
        (fun _ _ heq => Content.chunk.inj heq)
    · intro i hi
      obtain ⟨c, hc, hcontent⟩ := itemsOf_chunk (hsub.subset hi)
      refine ⟨update, hshown, ?_, ?_, c, contentsOf_update hc, hcontent⟩
      · rw [hid]
        exact hunmarked
      · have hwhole : keptItems setup (itemsOf setup.config update) outcome =
            itemsOf setup.config update := by
          obtain ⟨n, hn, hstores⟩ := mem_keptItems.mp hi
          obtain ⟨hlt, hat⟩ := List.getElem?_eq_some_iff.mp hn
          rw [keptItems_all setup hembedded]
          refine stored_whole ?_
          intro j hj
          refine hall ⟨n, hlt⟩ ⟨j, hj⟩ ?_ hstores
          rw [itemsOf_update (List.get_mem _ _), itemsOf_update (List.get_mem _ _)]
        rw [hmarks, if_pos (congrArg List.length hwhole)]
        exact List.mem_append_right _ (List.mem_singleton.mpr rfl)

theorem Balanced.vectorizeSession (h : Balanced b) (hsound : Sound setup b)
    (entities : Outcome) (htogether : Together (updates.stores setup)
      (collectUpdates setup b.session (freshMarks b))) :
    Balanced (vectorizeSession setup b updates entities).1 := by
  obtain ⟨middle, hextends, hmarks, hrefreshed, -⟩ :=
    vectorizeSession_refreshes setup hsound.numbered updates entities rfl
  refine Balanced.refreshed ?_ hrefreshed
  have hsub := keptItems_sublist setup
    (collectUpdates setup b.session (freshMarks b)) updates
  have hmarked : forall u, Shown b.session u -> u.id ∈ b.marks ->
      u.id ∈ middle.marks := by
    intro u hu hmark
    rw [hmarks]
    exact List.mem_append_left _ (hsound.fresh hu hmark)
  refine h.extended hsound hextends ?_ ?_ hmarked
  · exact List.Nodup.sublist (hsub.map Item.content)
      (nodup_collectUpdates setup hsound.versioned.ids (freshMarks b))
  · intro i hi
    obtain ⟨u, hu, hunmarked, hitem⟩ := mem_collectUpdates.mp (hsub.subset hi)
    obtain ⟨c, hc, hcontent⟩ := itemsOf_chunk hitem
    have hid := contentsOf_update hc
    refine ⟨u, Or.inr hu, ?_, ?_, c, hid, hcontent⟩
    · exact fun hmark => hunmarked (hsound.fresh (Or.inr hu) hmark)
    · rw [hmarks]
      refine List.mem_append_right _ (mem_parsedIds.mpr ?_)
      have hmem : Content.chunk c ∈ (keptItems setup
          (collectUpdates setup b.session (freshMarks b)) updates).map
            Item.content :=
        hcontent ▸ List.mem_map_of_mem hi
      exact kept_of_stores (P := fun _ => True)
        (fun i j hupdate _ hstores => htogether i j hupdate hstores) trivial hmem hu
        hid.symm hunmarked (first_mem_contentsOf (List.ne_nil_of_mem hc))

/-!
# Marks and retries
-/

/-- Each update comes with a new id, and a call stores all chunks of an update that
it tries to store or none of them. -/
def Unbroken (setup : Setup) (b : Books) : Action -> Prop
  | Action.event e => FreshId b e
  | Action.erase _ _ _ => True
  | Action.vectorizeUpdate id outcome =>
      outcome.embedded = Except.ok (attempted setup b id).length ->
        Together (outcome.stores setup) (attempted setup b id)
  | Action.vectorizeSession updates _ =>
      Together (updates.stores setup)
        (collectUpdates setup b.session (freshMarks b))

instance (setup : Setup) (b : Books) :
    (a : Action) -> Decidable (Unbroken setup b a)
  | Action.event _ => inferInstanceAs (Decidable (_ = true))
  | Action.erase _ _ _ => isTrue True.intro
  | Action.vectorizeUpdate _ _ => inferInstanceAs (Decidable (_ -> _))
  | Action.vectorizeSession _ _ => inferInstanceAs (Decidable (Together _ _))

theorem unbroken_step {a : Action} (hsound : Sound setup b) (h : Balanced b)
    (hallowed : Unbroken setup b a) :
    Sound setup (a.apply setup b) ∧ Balanced (a.apply setup b) := by
  cases a with
  | event e =>
      exact ⟨hsound.event hallowed, h.event hallowed⟩
  | erase erasure now id =>
      exact ⟨hsound.erase erasure now id, h.erase hsound erasure now id⟩
  | vectorizeUpdate id outcome =>
      exact ⟨hsound.vectorizeUpdate id outcome, h.vectorizeUpdate hsound hallowed⟩
  | vectorizeSession updates entities =>
      exact ⟨hsound.vectorizeSession entities hallowed.headed,
        h.vectorizeSession hsound entities hallowed⟩

/-- A marked update has all of its chunks stored, and no content is stored twice, as
long as no call stores a part of an update. -/
theorem marked_updates_stored_once {setup : Setup} {id : Uuid}
    {name description : Option String} {created : Timestamp} {b : Books}
    (h : (bookkeeping setup id name description created).Reachable
      (Unbroken setup) b) :
    (forall u, Shown b.session u -> u.id ∈ b.marks ->
      forall c, c ∈ contentsOf setup.config u -> Content.chunk c ∈ b.contents) ∧
    b.contents.Nodup := by
  have hkept : Sound setup b ∧ Balanced b := by
    refine h.invariant (P := fun b => Sound setup b ∧ Balanced b)
      ⟨sound_init setup id name description created,
        balanced_init setup id name description created⟩ ?_
    intro s a s' hs hallowed hstep
    cases hstep
    exact unbroken_step hs.1 hs.2 hallowed
  exact ⟨fun u hu hmark => (hkept.1.whole u hu hmark).2, hkept.2.nodup⟩

end

section

attribute [local instance] EntityGraph.asciiTables

def windowedSetup : Setup :=
  ⟨windowed, false, true, fun _ _ => ""⟩

def addSome (id : Uuid) : Action :=
  Action.event (SessionEvent.addIncrementalUpdateFast ⟨5, id, 20, 30⟩
    (ContextUpdate.plain id 5 "some text"))

def allOf (n : Nat) : Outcome :=
  ⟨Except.ok n, fun _ => true, true⟩

def firstOf (n : Nat) : Outcome :=
  ⟨Except.ok n, fun i => i == 0, true⟩

/-- One update is vectorized when it comes, the other after a failed write. -/
theorem marked_updates_stored_once_retry :
    exists b, (bookkeeping windowedSetup 0 none none 0).Reachable
        (Unbroken windowedSetup) b ∧
      b.marks = [1, 2] ∧ b.contents.length = 4 ∧
      (forall u, Shown b.session u -> u.id ∈ b.marks ->
        forall c, c ∈ contentsOf windowedSetup.config u ->
          Content.chunk c ∈ b.contents) ∧
      b.contents.Nodup := by
  obtain ⟨b, -, hreach, hmarks, hlength⟩ :=
    (bookkeeping windowedSetup 0 none none 0).replay_reaches (Unbroken windowedSetup)
      [addSome 1, Action.vectorizeUpdate 1 (allOf 2), addSome 2,
        Action.vectorizeSession { allOf 2 with persisted := false } (allOf 0),
        Action.vectorizeSession (allOf 2) (allOf 0)]
      (fun b => b.marks = [1, 2] ∧ b.contents.length = 4) (by decide +kernel)
  exact ⟨b, hreach, hmarks, hlength, marked_updates_stored_once hreach⟩

/-- The second chunk of an update is not added: a run over the session marks the
update all the same, and a retry for the update stores the first chunk again. -/
theorem half_an_update_marked_or_repeated :
    (¬ forall b, (bookkeeping windowedSetup 0 none none 0).Reachable
        System.Anything b ->
      forall u, Shown b.session u -> u.id ∈ b.marks ->
        forall c, c ∈ contentsOf windowedSetup.config u ->
          Content.chunk c ∈ b.contents) ∧
    ¬ forall b, (bookkeeping windowedSetup 0 none none 0).Reachable
        System.Anything b ->
      b.contents.Nodup := by
  constructor
  · intro hall
    obtain ⟨b, -, hreach, u, hu, hmark, c, hc, hlost⟩ :=
      (bookkeeping windowedSetup 0 none none 0).replay_reaches System.Anything
        [addSome 1, Action.vectorizeSession (firstOf 2) (allOf 0)]
        (fun b => exists u, u ∈ b.session.incrementalUpdates ∧ u.id ∈ b.marks ∧
          exists c, c ∈ contentsOf windowedSetup.config u ∧
            Content.chunk c ∉ b.contents) (by decide +kernel)
    exact hlost (hall b hreach u (Or.inr hu) hmark c hc)
  · intro hall
    obtain ⟨b, -, hreach, htwice⟩ :=
      (bookkeeping windowedSetup 0 none none 0).replay_reaches System.Anything
        [addSome 1, Action.vectorizeUpdate 1 (firstOf 2),
          Action.vectorizeUpdate 1 (allOf 2)]
        (fun b => ¬ b.contents.Nodup) (by decide +kernel)
    exact htwice (hall b hreach)

end

/-!
# Skipped sessions
-/

section

/-- The list after an action: what it leaves, up to what a retirement changes, and
what it adds. -/
structure Leaves (before after : ActiveSession) (takes : ContextUpdate -> Bool)
    (adds : Option ContextUpdate) : Prop where
  length : after.incrementalUpdates.length =
    before.incrementalUpdates.countP (fun u => !takes u) + adds.toList.length
  mem : forall u, u ∈ after.incrementalUpdates ->
    (exists v, v ∈ before.incrementalUpdates ∧ takes v = false ∧ SameText u v) ∨
      adds = some u

variable {before later : ActiveSession} {takes : ContextUpdate -> Bool}

theorem Leaves.filtered (h : later.incrementalUpdates =
      before.incrementalUpdates.filter (fun u => !takes u)) :
    Leaves before later takes none where
  length := by
    rw [h, List.countP_eq_length_filter]
    rfl
  mem := by
    intro u hu
    rw [h, List.mem_filter, Bool.not_eq_true'] at hu
    exact Or.inl ⟨u, hu.1, hu.2, SameText.refl u⟩

theorem Leaves.same (h : later.incrementalUpdates = before.incrementalUpdates) :
    Leaves before later (fun _ => false) none := by
  refine Leaves.filtered ?_
  rw [h]
  exact (List.filter_eq_self.mpr fun _ _ => rfl).symm

theorem leaves_remove (session : ActiveSession) (id : Uuid) :
    Leaves session ((session.removeUpdateById id).getD session) (fun u => u.id == id)
      none := by
  refine Leaves.filtered ?_
  cases hafter : session.removeUpdateById id with
  | some later => exact (removeUpdateById_tiers hafter).2.1
  | none =>
      refine (List.filter_eq_self.mpr ?_).symm
      intro u hu
      rw [Bool.not_eq_true', beq_eq_false_iff_ne]
      rintro rfl
      cases hfound : session.findUpdate u.id with
      | some v =>
          rw [ActiveSession.removeUpdateById_found hfound] at hafter
          cases hafter
      | none => exact ActiveSession.findUpdate_none hfound u hu rfl

end

section

variable [CharTables]

def Action.takes : Action -> ContextUpdate -> Bool
  | Action.event (SessionEvent.removeUpdateById id), u => u.id == id
  | Action.event (SessionEvent.removeUpdatesForFile filePath), u =>
      ActiveSession.refersToFile filePath u
  | Action.erase _ _ id, u => u.id == id
  | _, _ => false

def Action.adds : Action -> Option ContextUpdate
  | Action.event e => addedUpdate e
  | _ => none

/-- An update that is long enough to embed and has no mark. -/
def Missing (setup : Setup) (b : Books) (u : ContextUpdate) : Prop :=
  contentsOf setup.config u ≠ [] ∧ u.id ∉ b.marks

/-- Without the updates that the action takes out and with the one it adds there
are as many as at the last complete run. -/
def Recurs (b : Books) (a : Action) : Prop :=
  b.vectorizedMark.map Prod.fst =
    some (b.session.incrementalUpdates.countP (fun u => !a.takes u) +
      a.adds.toList.length)

/-- No update that the action leaves or adds is missing. -/
def NoneMissing (setup : Setup) (b : Books) (a : Action) : Prop :=
  (forall u, u ∈ b.session.incrementalUpdates -> a.takes u = false ->
    ¬ Missing setup b u) ∧
  forall u, u ∈ a.adds -> ¬ Missing setup b u

/-- Each update comes with a new id; a run over the session that stores the first
chunk of an update stores all of them; and no update is added or taken out that
brings the number of updates back to that of the last complete run while one of
them is missing. -/
def Counted (setup : Setup) (b : Books) : Action -> Prop
  | Action.event e =>
      FreshId b e ∧
        (Recurs b (Action.event e) -> NoneMissing setup b (Action.event e))
  | Action.erase erasure now id =>
      Recurs b (Action.erase erasure now id) ->
        NoneMissing setup b (Action.erase erasure now id)
  | Action.vectorizeUpdate _ _ => True
  | Action.vectorizeSession updates _ =>
      Headed (updates.stores setup) (collectUpdates setup b.session (freshMarks b))

instance (setup : Setup) (b : Books) (u : ContextUpdate) :
    Decidable (Missing setup b u) :=
  inferInstanceAs (Decidable (_ ∧ _))

instance (b : Books) (a : Action) : Decidable (Recurs b a) :=
  inferInstanceAs (Decidable (_ = _))

instance (setup : Setup) (b : Books) (a : Action) :
    Decidable (NoneMissing setup b a) :=
  inferInstanceAs (Decidable ((forall u, u ∈ b.session.incrementalUpdates -> _) ∧ _))

instance (setup : Setup) (b : Books) :
    (a : Action) -> Decidable (Counted setup b a)
  | Action.event _ => inferInstanceAs (Decidable (_ = true ∧ (_ -> _)))
  | Action.erase _ _ _ => inferInstanceAs (Decidable (_ -> _))
  | Action.vectorizeUpdate _ _ => isTrue True.intro
  | Action.vectorizeSession _ _ => inferInstanceAs (Decidable (Headed _ _))

/-- While there are as many updates as at the last complete run none is missing. -/
def Covered (setup : Setup) (b : Books) : Prop :=
  b.vectorizedMark.map Prod.fst = some b.session.incrementalUpdates.length ->
    forall u, u ∈ b.session.incrementalUpdates -> ¬ Missing setup b u

theorem leaves_event (session : ActiveSession) (e : SessionEvent) :
    Leaves session (e.apply session) (Action.event e).takes (addedUpdate e) := by
  cases e with
  | addIncrementalUpdateFast draws update =>
      have hupdates := (addIncrementalUpdateFast_tiers session draws update).2
      refine ⟨?_, ?_⟩
      · rw [SessionEvent.apply, hupdates, List.length_append]
        simp [Action.takes, addedUpdate]
      · intro u hu
        rw [SessionEvent.apply, hupdates] at hu
        rcases List.mem_append.mp hu with hold | hnew
        · exact Or.inl ⟨u, hold, rfl, SameText.refl u⟩
        · exact Or.inr (congrArg some (List.mem_singleton.mp hnew).symm)
  | applyEntityGraphUpdate _ _ | rebuildEntityGraphSync _ | mergeEntities _ _ _ =>
      exact Leaves.same rfl
  | removeUpdateById id => exact leaves_remove session id
  | removeUpdatesForFile filePath => exact Leaves.filtered rfl
  | retireUpdate id time =>
      have hlength : ((Action.event (SessionEvent.retireUpdate id time)).takes) =
          fun _ => false := rfl
      rcases retireUpdate_cases session id time with
        ⟨-, hnone⟩ | ⟨pos, update, hfirst, ⟨-, hnone⟩ | ⟨-, hsome⟩⟩
      · exact Leaves.same (by rw [SessionEvent.apply, hnone]; rfl)
      · exact Leaves.same (by rw [SessionEvent.apply, hnone]; rfl)
      · rw [SessionEvent.apply, hsome, hlength]
        refine ⟨?_, ?_⟩
        · show (session.incrementalUpdates.set pos _).length = _
          simp [addedUpdate]
        · intro u hu
          rcases List.mem_or_eq_of_mem_set hu with hold | rfl
          · exact Or.inl ⟨u, hold, rfl, SameText.refl u⟩
          · exact Or.inl ⟨update, List.mem_of_getElem? hfirst.2, rfl, rfl, rfl, rfl⟩

theorem Missing.congr {v : ContextUpdate} (hsame : SameText u v)
    (hmarks : u.id ∈ b.marks -> u.id ∈ after.marks) (h : Missing setup after u) :
    Missing setup b v := by
  refine ⟨?_, ?_⟩
  · rw [← hsame.contentsOf setup.config]
    exact h.1
  · intro hmark
    exact h.2 (hmarks (hsame.id ▸ hmark))

/-- What an action leaves is covered when its count does not come back too early. -/
theorem Covered.leaves {a : Action}
    (hleaves : Leaves b.session after.session a.takes a.adds)
    (hmark : after.vectorizedMark = b.vectorizedMark)
    (hmarks : forall u, u ∈ after.session.incrementalUpdates -> u.id ∈ b.marks ->
      u.id ∈ after.marks)
    (hallowed : Recurs b a -> NoneMissing setup b a) :
    Covered setup after := by
  intro hcount u hu hmissing
  rw [hmark, hleaves.length] at hcount
  obtain ⟨hleft, hadded⟩ := hallowed hcount
  rcases hleaves.mem u hu with ⟨v, hv, htakes, hsame⟩ | hnew
  · exact hleft v hv htakes (hmissing.congr hsame (hmarks u hu))
  · exact hadded u hnew (hmissing.congr (SameText.refl u) (hmarks u hu))

theorem Covered.vectorizeUpdate (h : Covered setup b) (hsound : Sound setup b)
    (id : Uuid) (outcome : Outcome) :
    Covered setup (vectorizeUpdate setup b id outcome).1 := by
  rcases vectorizeUpdate_cases setup hsound.numbered id outcome with
    hsame | ⟨update, -, -, -, -, hextends, hmarks⟩
  · rw [hsame]
    exact h
  · intro hcounts u hu hmissing
    rw [hextends.vectorizedMark, hextends.session] at hcounts
    rw [hextends.session] at hu
    refine h hcounts u hu (hmissing.congr (SameText.refl u) ?_)
    intro hmark
    rw [hmarks]
    split
    · exact List.mem_append_left _ hmark
    · exact hmark

theorem Covered.vectorizeSession (h : Covered setup b) (hsound : Sound setup b)
    (updates entities : Outcome) :
    Covered setup (vectorizeSession setup b updates entities).1 := by
  obtain ⟨middle, hextends, hmarks, hrefreshed, hcomplete⟩ :=
    vectorizeSession_refreshes setup hsound.numbered updates entities rfl
  intro hcounts u hu hmissing
  rw [hrefreshed.session, hextends.session] at hcounts hu
  obtain ⟨hlong, hunmarked⟩ := hmissing
  rw [hrefreshed.marks, hmarks] at hunmarked
  have hstale : u.id ∉ freshMarks b :=
    fun hmark => hunmarked (List.mem_append_left _ hmark)
  rcases hcomplete with hsame | hall
  · rw [hsame] at hcounts
    exact h hcounts u hu ⟨hlong, fun hmark =>
      hstale (hsound.fresh (Or.inr hu) hmark)⟩
  · rw [hall] at hunmarked
    obtain ⟨x, hx, hcontent⟩ := mem_itemsOf.mpr (first_mem_contentsOf hlong)
    have hitem : x ∈ collectUpdates setup b.session (freshMarks b) :=
      mem_collectUpdates.mpr ⟨u, hu, hstale, hx⟩
    refine hunmarked (List.mem_append_right _ (mem_parsedIds.mpr ?_))
    exact hcontent ▸ List.mem_map_of_mem hitem

theorem Covered.erase (h : Covered setup b) (hsound : Sound setup b)
    (erasure : Erasure) (now : Timestamp) (id : Uuid)
    (hallowed : Recurs b (Action.erase erasure now id) ->
      NoneMissing setup b (Action.erase erasure now id)) :
    Covered setup (erase b erasure now id) := by
  have hleaves := leaves_remove b.session id
  unfold Bookkeeping.erase
  cases hremoved : b.session.removeUpdateById id with
  | none => exact h
  | some session =>
      rw [hremoved, Option.getD_some] at hleaves
      have hkept : forall v, v ∈ session.incrementalUpdates -> v.id ∈ b.marks ->
          v.id ∈ b.marks.filter (· != id) := by
        intro v hv hmark
        have hshown := (hsound.versioned.removed hremoved).2 v (Or.inr hv)
        exact List.mem_filter.mpr ⟨hmark, bne_iff_ne.mpr hshown.1⟩
      cases erasure with
      | delete =>
          exact Covered.leaves (b := b) (a := Action.erase Erasure.delete now id) hleaves
            rfl hkept hallowed
      | purge =>
          exact Covered.leaves (b := b) (a := Action.erase Erasure.purge now id)
            ⟨hleaves.length, hleaves.mem⟩ rfl hkept hallowed

theorem counted_step {a : Action} (hsound : Sound setup b) (h : Covered setup b)
    (hallowed : Counted setup b a) :
    Sound setup (a.apply setup b) ∧ Covered setup (a.apply setup b) := by
  cases a with
  | event e =>
      exact ⟨hsound.event hallowed.1, Covered.leaves (leaves_event b.session e) rfl
        (fun _ _ hmark => hmark) hallowed.2⟩
  | erase erasure now id =>
      exact ⟨hsound.erase erasure now id, h.erase hsound erasure now id hallowed⟩
  | vectorizeUpdate id outcome =>
      exact ⟨hsound.vectorizeUpdate id outcome, h.vectorizeUpdate hsound id outcome⟩
  | vectorizeSession updates entities =>
      exact ⟨hsound.vectorizeSession entities hallowed,
        h.vectorizeSession hsound updates entities⟩

/-- A session that needs no vectorization has all vectors of its updates, as long as
its number of updates does not come back while one is missing. -/
theorem skipped_sessions_stored {setup : Setup} {id : Uuid}
    {name description : Option String} {created : Timestamp} {b : Books}
    (h : (bookkeeping setup id name description created).Reachable
      (Counted setup) b)
    (hskipped : needsVectorization b = false) :
    forall u, u ∈ b.session.incrementalUpdates ->
      forall c, c ∈ contentsOf setup.config u -> Content.chunk c ∈ b.contents := by
  have hkept : Sound setup b ∧ Covered setup b := by
    refine h.invariant (P := fun b => Sound setup b ∧ Covered setup b)
      ⟨sound_init setup id name description created, ?_⟩ ?_
    · intro hcounts
      cases hcounts
    · intro s a s' hs hallowed hstep
      cases hstep
      exact counted_step hs.1 hs.2 hallowed
  intro u hu c hc
  have hmark : u.id ∈ b.marks := by
    by_contra hunmarked
    refine hkept.2 ?_ u hu ⟨List.ne_nil_of_mem hc, hunmarked⟩
    rw [needsVectorization, bne_eq_false_iff_eq] at hskipped
    rw [hskipped]
    rfl
  exact (hkept.1.whole u (Or.inr hu) hmark).2 c hc

end

section

attribute [local instance] EntityGraph.asciiTables

/-- A third update is vectorized before the deletion of the first brings the number
of updates back to that of the last run. -/
theorem skipped_sessions_stored_run :
    exists b, (bookkeeping windowedSetup 0 none none 0).Reachable
        (Counted windowedSetup) b ∧
      b.session.incrementalUpdates.map ContextUpdate.id = [2, 3] ∧
      needsVectorization b = false ∧
      forall u, u ∈ b.session.incrementalUpdates ->
        forall c, c ∈ contentsOf windowedSetup.config u ->
          Content.chunk c ∈ b.contents := by
  obtain ⟨b, -, hreach, hids, hskipped⟩ :=
    (bookkeeping windowedSetup 0 none none 0).replay_reaches (Counted windowedSetup)
      [addSome 1, Action.vectorizeUpdate 1 (firstOf 2), addSome 2,
        Action.vectorizeSession (allOf 4) (allOf 0), addSome 3,
        Action.vectorizeUpdate 3 (allOf 2), Action.erase Erasure.delete 7 1]
      (fun b => b.session.incrementalUpdates.map ContextUpdate.id = [2, 3] ∧
        needsVectorization b = false) (by decide +kernel)
  exact ⟨b, hreach, hids, hskipped, skipped_sessions_stored hreach hskipped⟩

/-- One update is vectorized and deleted, and another one takes its place. -/
theorem replaced_update_skipped :
    ¬ forall b, (bookkeeping windowedSetup 0 none none 0).Reachable
        System.Anything b ->
      needsVectorization b = false ->
      forall u, u ∈ b.session.incrementalUpdates ->
        forall c, c ∈ contentsOf windowedSetup.config u ->
          Content.chunk c ∈ b.contents := by
  intro hall
  obtain ⟨b, -, hreach, hskipped, u, hu, c, hc, hlost⟩ :=
    (bookkeeping windowedSetup 0 none none 0).replay_reaches System.Anything
      [addSome 1, Action.vectorizeSession (allOf 2) (allOf 0),
        Action.erase Erasure.delete 7 1, addSome 2]
      (fun b => needsVectorization b = false ∧
        exists u, u ∈ b.session.incrementalUpdates ∧
          exists c, c ∈ contentsOf windowedSetup.config u ∧
            Content.chunk c ∉ b.contents) (by decide +kernel)
  exact hlost (hall b hreach hskipped u hu c hc)

end

end Bookkeeping
end Vectors
end PostCortex

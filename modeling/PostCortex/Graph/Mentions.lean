import PostCortex.Graph.IndexCoherence

/-!
# Mentions

`apply_update` links an update to the entities its names lead to when it
arrives, `relink_mentions` to those they lead to in the end.  A graph that only
grows by `apply_update` never changes where a known name leads, so the two
differ only in names that become entities after an update has mentioned them.
-/

namespace PostCortex
namespace Graph
namespace EntityGraph

open PostCortex.Core
open Naming

section

variable [CharTables]

def addedNames (update : ContextUpdate) : List String :=
  (if update.typedEntities = [] then update.createsEntities
    else update.typedEntities.map TypedEntity.name) ++
    update.createsRelationships.flatMap (fun r => [r.fromEntity, r.toEntity])

def applyAll (updates : List (Timestamp × ContextUpdate)) : EntityGraph :=
  updates.foldl (fun g u => g.applyUpdate u.1 u.2) new

/-!
# Names that become known
-/

/-- The names become known, what is known stays, and the mention lists are left
alone. -/
structure Learns (names : List String) (g g' : EntityGraph) : Prop where
  kept : forall k e, g.aliasIndex k = some e -> g'.aliasIndex k = some e
  unknown : forall k, g'.aliasIndex k = none ↔
    g.aliasIndex k = none ∧ k ∉ names.map entityKey
  own : (forall k e, g.aliasIndex k = some e -> entityKey e = k) ->
    forall k e, g'.aliasIndex k = some e -> entityKey e = k
  mentions : g'.entityMentions = g.entityMentions

theorem Learns.refl (g : EntityGraph) : Learns [] g g where
  kept _ _ h := h
  unknown k := by simp
  own h := h
  mentions := rfl

variable {names : List String} {g g' : EntityGraph}

theorem Learns.trans {more : List String} {g'' : EntityGraph}
    (h : Learns names g g') (h' : Learns more g' g'') :
    Learns (names ++ more) g g'' where
  kept k e hk := h'.kept k e (h.kept k e hk)
  unknown k := by
    rw [h'.unknown, h.unknown, List.map_append, List.mem_append]
    tauto
  own hown := h'.own (h.own hown)
  mentions := h'.mentions.trans h.mentions

theorem Learns.already {name : String} (hindex : g'.aliasIndex = g.aliasIndex)
    (hmentions : g'.entityMentions = g.entityMentions)
    (hknown : g.aliasIndex (entityKey name) ≠ none) :
    Learns [name] g g' where
  kept k e hk := by rw [hindex]; exact hk
  unknown k := by
    rw [hindex]
    simp only [List.map_cons, List.map_nil, List.mem_singleton]
    constructor
    · intro hnone
      exact ⟨hnone, fun heq => hknown (heq ▸ hnone)⟩
    · exact fun hnone => hnone.1
  own hown := by rw [hindex]; exact hown
  mentions := hmentions

theorem addOrUpdateEntity_mentions (g : EntityGraph) (written : String)
    (entityType : EntityType) (timestamp : Timestamp) (description : String) :
    (g.addOrUpdateEntity written entityType timestamp description).entityMentions =
      g.entityMentions := by
  unfold addOrUpdateEntity ensureNode
  simp only
  split
  · split
    · rfl
    · rfl
  · simp [indexNames, addNode]

theorem addOrUpdateEntity_learns (h : Resolving g) (written : String)
    (entityType : EntityType) (timestamp : Timestamp) (description : String) :
    Learns [written] g
      (g.addOrUpdateEntity written entityType timestamp description) := by
  have hindex := (h.addOrUpdateEntity written entityType timestamp description).2
  have hmentions :=
    addOrUpdateEntity_mentions g written entityType timestamp description
  cases hknown : g.aliasIndex (entityKey written) with
  | some o =>
      refine Learns.already ?_ hmentions (by simp [hknown])
      rw [hindex]
      simp [claimKey, hknown]
  | none =>
      rw [h.resolve_eq, hknown] at hindex
      constructor
      · intro k e hk
        rw [hindex, claimKey_apply, hk]
        rfl
      · intro k
        rw [hindex, claimKey_apply]
        cases g.aliasIndex k with
        | some o | none => simp
      · intro hown k e hk
        rw [hindex, claimKey_apply] at hk
        cases hold : g.aliasIndex k with
        | some o =>
            rw [hold] at hk
            cases hk
            exact hown k e hold
        | none =>
            rw [hold] at hk
            by_cases hkey : k = entityKey written
            · have heq : written = e := by simpa [hkey] using hk
              rw [← heq, hkey]
            · simp [hkey] at hk
      · exact hmentions

theorem getOrCreateNode_learns (h : Resolving g) (hnodes : Indexed g)
    (written : String) (entityType : EntityType) (timestamp : Timestamp) :
    Learns [written] g (g.getOrCreateNode written entityType timestamp).1 := by
  unfold getOrCreateNode
  cases hwritten : g.resolve written with
  | some c =>
      obtain ⟨i, hi, -⟩ := hnodes.node (hnodes.resolve hwritten)
      simp only [Option.getD_some, hi]
      refine Learns.already rfl rfl ?_
      rw [← h.resolve_eq, hwritten]
      exact Option.some_ne_none c
  | none =>
      have hfresh : written ∉ g.entities := by
        intro hmem
        simp [resolve, hmem] at hwritten
      have hadded := hnodes.addOrUpdateEntity written entityType timestamp ""
      obtain ⟨i, hi, -⟩ := hadded.node
        (addOrUpdateEntity_node (Or.inr hwritten) entityType timestamp)
      simp only [Option.getD_none, hnodes.unmapped hfresh, hi]
      exact addOrUpdateEntity_learns h written entityType timestamp ""

theorem addRelationship_learns (h : Resolving g) (hnodes : Indexed g)
    (now : Timestamp) (r : EntityRelationship) :
    Learns [r.fromEntity, r.toEntity] g (addRelationship now g r) := by
  have hsource := getOrCreateNode_learns h hnodes r.fromEntity
    EntityType.concept now
  have htarget := getOrCreateNode_learns
    (h.getOrCreateNode r.fromEntity EntityType.concept now)
    (hnodes.getOrCreateNode r.fromEntity EntityType.concept now).1 r.toEntity
    EntityType.concept now
  have hboth := hsource.trans htarget
  unfold addRelationship
  simp only
  split
  · exact hboth
  · exact ⟨hboth.kept, hboth.unknown, hboth.own, hboth.mentions⟩

theorem learns_foldl {α : Type} {f : EntityGraph -> α -> EntityGraph}
    (names : α -> List String) (hstep : forall g x, Resolving g -> Indexed g ->
      Resolving (f g x) ∧ Indexed (f g x) ∧ Learns (names x) g (f g x))
    (xs : List α) (h : Resolving g) (hnodes : Indexed g) :
    Resolving (xs.foldl f g) ∧ Indexed (xs.foldl f g) ∧
      Learns (xs.flatMap names) g (xs.foldl f g) := by
  induction xs generalizing g with
  | nil =>
      exact ⟨h, hnodes, Learns.refl g⟩
  | cons x rest ih =>
      obtain ⟨hx, hxnodes, hlearns⟩ := hstep g x h hnodes
      obtain ⟨hrest, hrestNodes, hmore⟩ := ih hx hxnodes
      exact ⟨hrest, hrestNodes, hlearns.trans hmore⟩

theorem addEntities_learns (h : Resolving g) (hnodes : Indexed g)
    (update : ContextUpdate) :
    Learns (if update.typedEntities = [] then update.createsEntities
      else update.typedEntities.map TypedEntity.name) g
        (g.addEntities update) := by
  unfold addEntities
  split
  · have hlearns := (learns_foldl (fun name : String => [name])
      (fun g name hg hn => ⟨(hg.addOrUpdateEntity name EntityType.concept
          update.timestamp ("From update: " ++ update.content.title)).1,
        hn.addOrUpdateEntity .., addOrUpdateEntity_learns hg ..⟩)
      update.createsEntities h hnodes).2.2
    simpa using hlearns
  · have hlearns := (learns_foldl (fun typed : TypedEntity => [typed.name])
      (fun g typed hg hn => ⟨(hg.addOrUpdateEntity typed.name typed.entityType
          update.timestamp ("Provided by caller: " ++ update.content.title)).1,
        hn.addOrUpdateEntity .., addOrUpdateEntity_learns hg ..⟩)
      update.typedEntities h hnodes).2.2
    rw [List.map_eq_flatMap]
    exact hlearns

theorem addUpdate_learns (h : Resolving g) (hnodes : Indexed g) (now : Timestamp)
    (update : ContextUpdate) :
    Learns (addedNames update) g
      (update.createsRelationships.foldl (addRelationship now)
        (g.addEntities update)) :=
  (addEntities_learns h hnodes update).trans
    (learns_foldl (fun r : EntityRelationship => [r.fromEntity, r.toEntity])
      (fun _ r hg hn => ⟨hg.addRelationship now r,
        hn.addRelationship now r, addRelationship_learns hg hn now r⟩)
      update.createsRelationships (h.addEntities update)
      (hnodes.addEntities update)).2.2

/-!
# Linking
-/

def withId (ids : Option (List Uuid)) (id : Uuid) : Option (List Uuid) :=
  some (if id ∈ ids.getD [] then ids.getD [] else ids.getD [] ++ [id])

omit [CharTables] in
theorem withId_withId (ids : Option (List Uuid)) (id : Uuid) :
    withId (withId ids id) id = withId ids id := by
  unfold withId
  by_cases hid : id ∈ ids.getD []
  · simp [hid]
  · simp [hid]

omit [CharTables] in
theorem mem_withId {ids : Option (List Uuid)} {id x : Uuid} :
    x ∈ (withId ids id).getD [] ↔ x ∈ ids.getD [] ∨ x = id := by
  unfold withId
  simp only [Option.getD_some]
  split
  · next hmem =>
    constructor
    · exact Or.inl
    · rintro (hx | rfl)
      · exact hx
      · exact hmem
  · simp

def Leads (g : EntityGraph) (names : List String) (e : String) : Prop :=
  exists n, n ∈ names ∧ g.resolve n = some e

variable {e : String}

theorem leads_append {n : String} :
    Leads g (names ++ [n]) e ↔ Leads g names e ∨ g.resolve n = some e := by
  unfold Leads
  constructor
  · rintro ⟨m, hm, hlead⟩
    rcases List.mem_append.mp hm with hold | hnew
    · exact Or.inl ⟨m, hold, hlead⟩
    · rw [List.mem_singleton] at hnew
      exact Or.inr (hnew ▸ hlead)
  · rintro (⟨m, hm, hlead⟩ | hlead)
    · exact ⟨m, List.mem_append_left _ hm, hlead⟩
    · exact ⟨n, by simp, hlead⟩

/-- The entities an update leads to have its id; nothing else changes. -/
structure Links (id : Uuid) (names : List String) (g g' : EntityGraph) :
    Prop where
  linked : forall e : String, Leads g names e ->
    g'.entityMentions[e]? = withId g.entityMentions[e]? id
  unlinked : forall e : String, ¬ Leads g names e ->
    g'.entityMentions[e]? = g.entityMentions[e]?
  resolves : forall n, g'.resolve n = g.resolve n
  indexed : g'.aliasIndex = g.aliasIndex

theorem Links.nothing (id : Uuid) (g : EntityGraph) : Links id [] g g where
  linked e h := by
    obtain ⟨n, hn, -⟩ := h
    cases hn
  unlinked _ _ := rfl
  resolves _ := rfl
  indexed := rfl

theorem Links.skip {id : Uuid} (h : Links id names g g') {n : String}
    (hn : g.resolve n = none) :
    Links id (names ++ [n]) g g' := by
  have hleads : forall e, Leads g (names ++ [n]) e ↔ Leads g names e := by
    intro e
    rw [leads_append, hn]
    simp
  exact ⟨fun e he => h.linked e ((hleads e).mp he),
    fun e he => h.unlinked e (fun hold => he ((hleads e).mpr hold)),
    h.resolves, h.indexed⟩

theorem Links.snoc {id : Uuid} {names : List String} {g g' g'' : EntityGraph}
    (h : Links id names g g') {n c : String} (hn : g.resolve n = some c)
    (hlist : g''.entityMentions[c]? = withId g'.entityMentions[c]? id)
    (hother : forall e : String, e ≠ c ->
      g''.entityMentions[e]? = g'.entityMentions[e]?)
    (hresolves : forall m, g''.resolve m = g'.resolve m)
    (hindex : g''.aliasIndex = g'.aliasIndex) :
    Links id (names ++ [n]) g g'' := by
  constructor
  · intro e he
    by_cases hec : e = c
    · subst hec
      rw [hlist]
      by_cases hold : Leads g names e
      · rw [h.linked e hold, withId_withId]
      · rw [h.unlinked e hold]
    · rw [hother e hec]
      rcases leads_append.mp he with hold | hlead
      · exact h.linked e hold
      · rw [hn] at hlead
        exact absurd (Option.some.inj hlead).symm hec
  · intro e he
    have hec : e ≠ c := by
      rintro rfl
      exact he (leads_append.mpr (Or.inr hn))
    rw [hother e hec]
    exact h.unlinked e (fun hold => he (leads_append.mpr (Or.inl hold)))
  · intro m
    rw [hresolves, h.resolves]
  · rw [hindex, h.indexed]

theorem linkMention_foldl (id : Uuid) (names : List String) (g : EntityGraph) :
    Links id names g (names.foldl (linkMention id) (g, [])).1 ∧
      forall e, e ∈ (names.foldl (linkMention id) (g, [])).2 ↔
        Leads g names e := by
  induction names using List.reverseRecOn with
  | nil =>
      refine ⟨Links.nothing id g, ?_⟩
      intro e
      simp [Leads]
  | append_singleton names n ih =>
      rw [List.foldl_append]
      generalize names.foldl (linkMention id) (g, []) = linked at ih
      obtain ⟨hlinks, hseen⟩ := ih
      show Links id _ g (linkMention id linked n).1 ∧
        forall e, e ∈ (linkMention id linked n).2 ↔ _
      unfold linkMention
      rw [hlinks.resolves]
      cases hn : g.resolve n with
      | none =>
          refine ⟨hlinks.skip hn, ?_⟩
          intro e
          rw [hseen, leads_append, hn]
          simp
      | some c =>
          simp only
          by_cases hc : c ∈ linked.2
          · rw [if_pos hc]
            have hlead := (hseen c).mp hc
            refine ⟨hlinks.snoc hn ?_ (fun _ _ => rfl) (fun _ => rfl) rfl, ?_⟩
            · rw [hlinks.linked c hlead, withId_withId]
            · intro e
              rw [hseen, leads_append, hn]
              constructor
              · exact Or.inl
              · rintro (hold | heq)
                · exact hold
                · exact (Option.some.inj heq) ▸ hlead
          · rw [if_neg hc]
            refine ⟨hlinks.snoc hn ?_ ?_ (fun _ => rfl) rfl, ?_⟩
            · simp [withId]
            · intro e he
              have hce : ¬ c = e := fun heq => he heq.symm
              simp [Std.ExtTreeMap.getElem?_insert, hce]
            · intro e
              rw [List.mem_cons, hseen, leads_append, hn]
              constructor
              · rintro (rfl | hold)
                · exact Or.inr rfl
                · exact Or.inl hold
              · rintro (hold | heq)
                · exact Or.inr hold
                · exact Or.inl (Option.some.inj heq).symm

theorem linkMentions_links (g : EntityGraph) (update : ContextUpdate) :
    Links update.id (mentionedNames update) g (g.linkMentions update) :=
  (linkMention_foldl update.id (mentionedNames update) g).1

theorem relinkMention_foldl (id : Uuid) (names : List String)
    (g : EntityGraph) :
    Links id names g (names.foldl (relinkMention id) g) := by
  induction names using List.reverseRecOn with
  | nil =>
      exact Links.nothing id g
  | append_singleton names n ih =>
      rw [List.foldl_append]
      generalize names.foldl (relinkMention id) g = linked at ih
      show Links id _ g (relinkMention id linked n)
      unfold relinkMention
      rw [ih.resolves]
      cases hn : g.resolve n with
      | none =>
          exact ih.skip hn
      | some c =>
          simp only
          refine ih.snoc hn ?_ ?_ (fun _ => rfl) rfl
          · have hlast : forall ids : List Uuid, id ∉ ids ->
                ids.getLast? ≠ some id := by
              intro ids hid heq
              exact hid (List.mem_of_getLast? heq)
            rw [Std.ExtTreeMap.getElem?_insert_self, withId]
            by_cases hid : id ∈ linked.entityMentions[c]?.getD []
            · simp [hid]
            · simp [hid, hlast _ hid]
          · intro e he
            have hce : ¬ c = e := fun heq => he heq.symm
            simp [Std.ExtTreeMap.getElem?_insert, hce]

/-!
# Applying a list of updates
-/

theorem applyUpdate_links (h : Resolving g) (hnodes : Indexed g) (now : Timestamp)
    (update : ContextUpdate) :
    exists added, Learns (addedNames update) g added ∧
      Links update.id (mentionedNames update) added
        (g.applyUpdate now update) :=
  ⟨_, addUpdate_learns h hnodes now update, linkMentions_links _ update⟩

def namesOf (updates : List (Timestamp × ContextUpdate)) : List String :=
  updates.flatMap (fun u => addedNames u.2)

/-- A graph made by updates knows the names they added and no others, under
the keys of its entities. -/
structure Grown (updates : List (Timestamp × ContextUpdate)) : Prop where
  resolving : Resolving (applyAll updates)
  nodes : Indexed (applyAll updates)
  unknown : forall k, (applyAll updates).aliasIndex k = none ↔
    k ∉ (namesOf updates).map entityKey
  own : forall k e, (applyAll updates).aliasIndex k = some e -> entityKey e = k

theorem applyAll_snoc (updates : List (Timestamp × ContextUpdate))
    (u : Timestamp × ContextUpdate) :
    applyAll (updates ++ [u]) = (applyAll updates).applyUpdate u.1 u.2 := by
  simp [applyAll]

theorem grown (updates : List (Timestamp × ContextUpdate)) :
    Grown updates := by
  induction updates using List.reverseRecOn with
  | nil =>
      refine ⟨resolving_new, indexed_new, ?_, ?_⟩
      · intro k
        simp [applyAll, namesOf, new]
      · intro k e hk
        cases hk
  | append_singleton updates u ih =>
      obtain ⟨added, hlearns, hlinks⟩ :=
        applyUpdate_links ih.resolving ih.nodes u.1 u.2
      have hindex : (applyAll (updates ++ [u])).aliasIndex =
          added.aliasIndex := by
        rw [applyAll_snoc, hlinks.indexed]
      refine ⟨?_, ?_, ?_, ?_⟩
      · rw [applyAll_snoc]
        exact ih.resolving.applyUpdate u.1 u.2
      · rw [applyAll_snoc]
        exact ih.nodes.applyUpdate u.1 u.2
      · intro k
        rw [hindex, hlearns.unknown, ih.unknown]
        simp [namesOf, List.flatMap_append]
      · rw [hindex]
        exact hlearns.own ih.own

variable {k : String}

theorem applyAll_kept (updates more : List (Timestamp × ContextUpdate))
    (h : (applyAll updates).aliasIndex k = some e) :
    (applyAll (updates ++ more)).aliasIndex k = some e := by
  induction more using List.reverseRecOn with
  | nil =>
      rwa [List.append_nil]
  | append_singleton more u ih =>
      have hgrown := grown (updates ++ more)
      obtain ⟨added, hlearns, hlinks⟩ :=
        applyUpdate_links hgrown.resolving hgrown.nodes u.1 u.2
      rw [← List.append_assoc, applyAll_snoc, hlinks.indexed]
      exact hlearns.kept k e ih

/-!
# Linking in order
-/

/-- Lists that start empty and get the id of the `i`-th update where `leads i`
holds. -/
structure LinkedInOrder (updates : List (Timestamp × ContextUpdate))
    (leads : Nat -> String -> Prop)
    (lists : Nat -> String -> Option (List Uuid)) : Prop where
  start : forall e, lists 0 e = none
  linked : forall i u, updates[i]? = some u -> forall e, leads i e ->
    lists (i + 1) e = withId (lists i e) u.2.id
  unlinked : forall i u, updates[i]? = some u -> forall e, ¬ leads i e ->
    lists (i + 1) e = lists i e

variable {updates : List (Timestamp × ContextUpdate)} {leads : Nat -> String -> Prop}
  {lists : Nat -> String -> Option (List Uuid)}

omit [CharTables] in
theorem LinkedInOrder.same {leads' : Nat -> String -> Prop}
    {lists' : Nat -> String -> Option (List Uuid)}
    (h : LinkedInOrder updates leads lists)
    (h' : LinkedInOrder updates leads' lists')
    (hleads : forall i u, updates[i]? = some u -> forall e,
      (leads i e ↔ leads' i e)) (i : Nat) (hi : i ≤ updates.length) (e : String) :
    lists i e = lists' i e := by
  induction i with
  | zero =>
      rw [h.start, h'.start]
  | succ i ih =>
      have hlt : i < updates.length := hi
      have hu := List.getElem?_eq_getElem hlt
      have hbegins := ih (Nat.le_of_lt hlt)
      by_cases hl : leads i e
      · rw [h.linked i _ hu e hl,
          h'.linked i _ hu e ((hleads i _ hu e).mp hl), hbegins]
      · have hl' : ¬ leads' i e := fun hl' => hl ((hleads i _ hu e).mpr hl')
        rw [h.unlinked i _ hu e hl, h'.unlinked i _ hu e hl', hbegins]

omit [CharTables] in
theorem LinkedInOrder.mem_iff (h : LinkedInOrder updates leads lists) (id : Uuid)
    (e : String) (i : Nat) (hi : i ≤ updates.length) :
    id ∈ (lists i e).getD [] ↔
      exists j u, j < i ∧ updates[j]? = some u ∧ u.2.id = id ∧ leads j e := by
  induction i with
  | zero =>
      rw [h.start]
      simp
  | succ i ih =>
      have hlt : i < updates.length := hi
      have hu := List.getElem?_eq_getElem hlt
      have hbegins := ih (Nat.le_of_lt hlt)
      have hsplit : (exists j u, j < i + 1 ∧ updates[j]? = some u ∧
          u.2.id = id ∧ leads j e) ↔
          (exists j u, j < i ∧ updates[j]? = some u ∧ u.2.id = id ∧
            leads j e) ∨ updates[i].2.id = id ∧ leads i e := by
        constructor
        · rintro ⟨j, u, hj, hju, hid, hl⟩
          by_cases hji : j = i
          · subst hji
            rw [hu] at hju
            cases hju
            exact Or.inr ⟨hid, hl⟩
          · exact Or.inl ⟨j, u, by omega, hju, hid, hl⟩
        · rintro (⟨j, u, hj, hrest⟩ | ⟨hid, hl⟩)
          · exact ⟨j, u, by omega, hrest⟩
          · exact ⟨i, _, by omega, hu, hid, hl⟩
      rw [hsplit, ← hbegins]
      by_cases hl : leads i e
      · rw [h.linked i _ hu e hl, mem_withId]
        simp [hl, eq_comm]
      · rw [h.unlinked i _ hu e hl]
        simp [hl]

omit [CharTables] in
theorem take_snoc {i : Nat} {u : Timestamp × ContextUpdate}
    (hu : updates[i]? = some u) :
    updates.take (i + 1) = updates.take i ++ [u] := by
  rw [List.take_add_one, hu]
  rfl

theorem applyAll_linked (updates : List (Timestamp × ContextUpdate)) :
    LinkedInOrder updates
      (fun i e => exists u, updates[i]? = some u ∧
        Leads (applyAll (updates.take (i + 1))) (mentionedNames u.2) e)
      (fun i e => (applyAll (updates.take i)).entityMentions[e]?) := by
  have hstep : forall i u, updates[i]? = some u -> exists added,
      added.entityMentions = (applyAll (updates.take i)).entityMentions ∧
      Links u.2.id (mentionedNames u.2) added
        (applyAll (updates.take (i + 1))) := by
    intro i u hu
    have hgrown := grown (updates.take i)
    obtain ⟨added, hlearns, hlinks⟩ :=
      applyUpdate_links hgrown.resolving hgrown.nodes u.1 u.2
    rw [take_snoc hu, applyAll_snoc]
    exact ⟨added, hlearns.mentions, hlinks⟩
  have hleads : forall {i u added}, updates[i]? = some u ->
      Links u.2.id (mentionedNames u.2) added
        (applyAll (updates.take (i + 1))) ->
      forall e, (exists v, updates[i]? = some v ∧
        Leads (applyAll (updates.take (i + 1))) (mentionedNames v.2) e) ↔
          Leads added (mentionedNames u.2) e := by
    intro i u added hu hlinks e
    rw [hu]
    simp [Leads, hlinks.resolves]
  constructor
  · intro e
    simp [applyAll, new]
  · intro i u hu e hl
    obtain ⟨added, hmentions, hlinks⟩ := hstep i u hu
    rw [hlinks.linked e ((hleads hu hlinks e).mp hl), hmentions]
  · intro i u hu e hl
    obtain ⟨added, hmentions, hlinks⟩ := hstep i u hu
    rw [hlinks.unlinked e (fun h => hl ((hleads hu hlinks e).mpr h)), hmentions]

theorem relinkMentions_linked (g : EntityGraph)
    (updates : List (Timestamp × ContextUpdate)) :
    LinkedInOrder updates
      (fun i e => exists u, updates[i]? = some u ∧
        Leads g (mentionedNames u.2) e)
      (fun i e => (g.relinkMentions
        ((updates.take i).map Prod.snd)).entityMentions[e]?) := by
  have hresolves : forall (more : List (Timestamp × ContextUpdate)) n,
      (g.relinkMentions (more.map Prod.snd)).resolve n = g.resolve n := by
    intro more n
    induction more using List.reverseRecOn with
    | nil => rfl
    | append_singleton more u ih =>
        rw [relinkMentions, List.map_append, List.foldl_append]
        exact ((relinkMention_foldl u.2.id (mentionedNames u.2) _).resolves
          n).trans ih
  have hstep : forall i u, updates[i]? = some u ->
      Links u.2.id (mentionedNames u.2)
        (g.relinkMentions ((updates.take i).map Prod.snd))
        (g.relinkMentions ((updates.take (i + 1)).map Prod.snd)) := by
    intro i u hu
    rw [take_snoc hu, List.map_append, relinkMentions, relinkMentions,
      List.foldl_append]
    exact relinkMention_foldl u.2.id (mentionedNames u.2) _
  have hleads : forall {i u}, updates[i]? = some u -> forall e,
      (exists v, updates[i]? = some v ∧ Leads g (mentionedNames v.2) e) ↔
        Leads (g.relinkMentions ((updates.take i).map Prod.snd))
          (mentionedNames u.2) e := by
    intro i u hu e
    rw [hu]
    simp only [Option.some.injEq, exists_eq_left', Leads, hresolves]
  constructor
  · intro e
    simp [relinkMentions]
  · intro i u hu e hl
    exact (hstep i u hu).linked e ((hleads hu e).mp hl)
  · intro i u hu e hl
    exact (hstep i u hu).unlinked e (fun h => hl ((hleads hu e).mpr h))

/-!
# Relinking
-/

/-- The mention lists computed from the updates are those kept while they
arrived. -/
def RelinkKeeps (updates : List (Timestamp × ContextUpdate)) : Prop :=
  forall e : String,
    ((applyAll updates).relinkMentions
        (updates.map Prod.snd)).entityMentions[e]? =
      (applyAll updates).entityMentions[e]?

/-- A name that an update mentions and that any update makes an entity of is
one by the time the update has been applied. -/
def MentionsKnown (updates : List (Timestamp × ContextUpdate)) : Prop :=
  forall i u, updates[i]? = some u -> forall n, n ∈ mentionedNames u.2 ->
    entityKey n ∈ (namesOf updates).map entityKey ->
    entityKey n ∈ (namesOf (updates.take (i + 1))).map entityKey

theorem Grown.some_of_mem (h : Grown updates)
    (hk : k ∈ (namesOf updates).map entityKey) :
    exists e, (applyAll updates).aliasIndex k = some e := by
  cases hcase : (applyAll updates).aliasIndex k with
  | none => exact absurd hk ((h.unknown k).mp hcase)
  | some e => exact ⟨e, rfl⟩

theorem Grown.mem_of_some (h : Grown updates)
    (hk : (applyAll updates).aliasIndex k = some e) :
    k ∈ (namesOf updates).map entityKey := by
  by_contra hnot
  rw [(h.unknown k).mpr hnot] at hk
  cases hk

theorem kept_of_take {i : Nat}
    (h : (applyAll (updates.take i)).aliasIndex k = some e) :
    (applyAll updates).aliasIndex k = some e := by
  have hkept := applyAll_kept (updates.take i) (updates.drop i) h
  rwa [List.take_append_drop] at hkept

theorem relinkKeeps_of_known (h : MentionsKnown updates) :
    RelinkKeeps updates := by
  intro e
  have hgrown := grown updates
  have hlists := (relinkMentions_linked (applyAll updates) updates).same
    (applyAll_linked updates) ?_ updates.length (Nat.le_refl _) e
  · simpa using hlists
  · intro i u hu f
    have hbegins := grown (updates.take (i + 1))
    rw [hu]
    simp only [Option.some.injEq, exists_eq_left']
    constructor
    · rintro ⟨n, hn, hlead⟩
      rw [hgrown.resolving.resolve_eq] at hlead
      obtain ⟨f', hf'⟩ := hbegins.some_of_mem
        (h i u hu n hn (hgrown.mem_of_some hlead))
      have hsame := kept_of_take hf'
      rw [hlead] at hsame
      cases hsame
      exact ⟨n, hn, (hbegins.resolving.resolve_eq n).trans hf'⟩
    · rintro ⟨n, hn, hlead⟩
      rw [hbegins.resolving.resolve_eq] at hlead
      exact ⟨n, hn, (hgrown.resolving.resolve_eq n).trans (kept_of_take hlead)⟩

theorem known_of_relinkKeeps (hids : (updates.map (fun u => u.2.id)).Nodup)
    (h : RelinkKeeps updates) :
    MentionsKnown updates := by
  intro i u hu n hn hadded
  by_contra hunknown
  have hgrown := grown updates
  have hbegins := grown (updates.take (i + 1))
  have hlt := (List.getElem?_eq_some_iff.mp hu).1
  obtain ⟨e, he⟩ := hgrown.some_of_mem hadded
  have hrelinked : u.2.id ∈ (((applyAll updates).relinkMentions
      (updates.map Prod.snd)).entityMentions[e]?).getD [] := by
    have hmem := ((relinkMentions_linked (applyAll updates) updates).mem_iff
      u.2.id e updates.length (Nat.le_refl _)).mpr
        ⟨i, u, hlt, hu, rfl, u, hu, n, hn,
          (hgrown.resolving.resolve_eq n).trans he⟩
    simpa using hmem
  rw [h e] at hrelinked
  have hmem := (applyAll_linked updates).mem_iff u.2.id e
    updates.length (Nat.le_refl _)
  simp only [List.take_length] at hmem
  obtain ⟨j, v, hj, hv, hid, w, hw, m, hm, hlead⟩ := hmem.mp hrelinked
  have hij : i = j := by
    have hidi : (updates.map (fun u => u.2.id))[i]? = some u.2.id := by
      simp [hu]
    have hidj : (updates.map (fun u => u.2.id))[j]? = some u.2.id := by
      simp [hv, hid]
    exact (List.getElem?_inj (by simpa using hlt) hids).mp
      (hidi.trans hidj.symm)
  subst hij
  rw [hu] at hw
  cases hw
  rw [hbegins.resolving.resolve_eq] at hlead
  -- both keys are the key of the entity
  have hkey : entityKey m = entityKey n :=
    (hbegins.own _ _ hlead).symm.trans (hgrown.own _ _ he)
  exact hunknown (hkey ▸ hbegins.mem_of_some hlead)

/-- Relinking leaves the mention lists of a list of updates alone when no
update mentions a name that only a later one makes an entity of, and, when the
ids are distinct, only then. -/
theorem relink_mentions_iff (updates : List (Timestamp × ContextUpdate)) :
    (MentionsKnown updates -> RelinkKeeps updates) ∧
      ((updates.map (fun u => u.2.id)).Nodup ->
        (RelinkKeeps updates ↔ MentionsKnown updates)) :=
  ⟨relinkKeeps_of_known, fun hids =>
    ⟨known_of_relinkKeeps hids, relinkKeeps_of_known⟩⟩

end

section

attribute [local instance] asciiTables

def creates (id : Uuid) (name : String) : ContextUpdate :=
  { ContextUpdate.plain id 0 "" with createsEntities := [name] }

def refersTo (id : Uuid) (name : String) : ContextUpdate :=
  { ContextUpdate.plain id 0 "" with referencesEntities := [name] }

theorem relink_mentions_created_first :
    (applyAll [(0, creates 1 "Redis"), (0, refersTo 2 "redis")]).entityMentions["Redis"]? =
        some [1, 2] ∧
      RelinkKeeps [(0, creates 1 "Redis"), (0, refersTo 2 "redis")] := by
  refine ⟨by decide +kernel, (relink_mentions_iff _).1 ?_⟩
  intro i u hu n hn _
  match i with
  | 0 =>
      cases hu
      have hname : n = "Redis" := by
        simpa [mentionedNames, creates, ContextUpdate.plain] using hn
      subst hname
      decide +kernel
  | 1 =>
      cases hu
      have hname : n = "redis" := by
        simpa [mentionedNames, refersTo, ContextUpdate.plain] using hn
      subst hname
      decide +kernel
  | i + 2 => cases hu

/-- The reference comes before the entity: only relinking finds it. -/
theorem relink_finds_later_entity :
    ¬ forall updates : List (Timestamp × ContextUpdate),
      RelinkKeeps updates := by
  intro h
  have hkeeps := h [(0, refersTo 1 "redis"), (0, creates 2 "Redis")] "Redis"
  revert hkeeps
  decide +kernel

end

end EntityGraph
end Graph
end PostCortex

import PostCortex.Storage.Cards

/-!
# Deleting a workspace and its card

`delete_workspace` (`rocksdb_storage/workspaces.rs`) runs beside any number of
`put_card` calls and takes no lock: it deletes the record of the workspace, lists
the memberships, lists the rows of the card and deletes what it listed, with the
head of the card, in one batch.  Each is a step, and each may fail.
-/

namespace PostCortex
namespace Storage
namespace CardDeletion

open PostCortex.Core
open Cards
open KeyValue
open Transition

inductive DeleteStage where
  | called
  | forgotten
  | listedSessions (sessions : List String)
  | listed (keys : List String)
  | returned (result : Except String Unit)

structure Deletion where
  workspaceId : Uuid
  stage : DeleteStage

/-- Deletions are numbered in the order they arrive. -/
structure State where
  cards : Cards.State
  deletions : List Deletion

def State.db (s : State) : CardDb :=
  s.cards.db

inductive Action where
  | card (a : Cards.Action)
  | deleteWorkspace (workspaceId : Uuid)
  | deleteRecord (d : Nat)
  | listSessions (d : Nat)
  | listCard (d : Nat)
  | write (d : Nat)
  | fail (d : Nat) (error : String)

section

variable [UuidText]

def workspaceKey (workspaceId : Uuid) : String :=
  "workspace:" ++ UuidText.toText workspaceId

def membershipPrefix (workspaceId : Uuid) : String :=
  "ws_session:" ++ UuidText.toText workspaceId ++ ":"

/-- The keys that `delete_card_in` adds to the batch: the head, and the rows
that the scan finds. -/
def deleteCardIn (db : CardDb) (scope : CardScope) : List String :=
  headKey scope :: db.keysWhere (hasPrefix (cardPrefix scope))

def State.setStage (s : State) (d : Nat) (deletion : Deletion)
    (stage : DeleteStage) : State :=
  { s with deletions := s.deletions.set d { deletion with stage := stage } }

def State.setDb (s : State) (db : CardDb) : State :=
  { s with cards := { s.cards with db := db } }

def step (s : State) : Action -> Option State
  | Action.card a =>
      (Cards.step s.cards a).map (fun cards => { s with cards := cards })
  | Action.deleteWorkspace id =>
      some { s with deletions := s.deletions ++ [⟨id, DeleteStage.called⟩] }
  | Action.deleteRecord d =>
      match s.deletions[d]? with
      | some ⟨id, DeleteStage.called⟩ =>
          some ((s.setStage d ⟨id, DeleteStage.called⟩
            DeleteStage.forgotten).setDb
              (s.db.write [Edit.delete (workspaceKey id)]))
      | _ => none
  | Action.listSessions d =>
      match s.deletions[d]? with
      | some ⟨id, DeleteStage.forgotten⟩ =>
          some (s.setStage d ⟨id, DeleteStage.forgotten⟩
            (DeleteStage.listedSessions
              (s.db.keysWhere (hasPrefix (membershipPrefix id)))))
      | _ => none
  | Action.listCard d =>
      match s.deletions[d]? with
      | some ⟨id, DeleteStage.listedSessions sessions⟩ =>
          some (s.setStage d ⟨id, DeleteStage.listedSessions sessions⟩
            (DeleteStage.listed
              (sessions ++ deleteCardIn s.db (CardScope.workspace id))))
      | _ => none
  | Action.write d =>
      match s.deletions[d]? with
      | some ⟨id, DeleteStage.listed keys⟩ =>
          some ((s.setStage d ⟨id, DeleteStage.listed keys⟩
            (DeleteStage.returned (Except.ok ()))).setDb
              (s.db.write (Database.deletes keys)))
      | _ => none
  | Action.fail d e =>
      match s.deletions[d]? with
      | some ⟨_, DeleteStage.returned _⟩ => none
      | some deletion =>
          some (s.setStage d deletion (DeleteStage.returned (Except.error e)))
      | none => none

def workspaceCards (start : CardDb) : System State Action where
  init := ⟨⟨start, []⟩, []⟩
  step := step

/-!
# What a step does
-/

def Action.reader : Action -> Option Nat
  | listSessions d => some d
  | listCard d => some d
  | fail d _ => some d
  | _ => none

/-- The stage a deletion moves to without a change of the store. -/
inductive Moves (db : CardDb) (id : Uuid) : DeleteStage -> DeleteStage -> Prop where
  | listSessions :
      Moves db id DeleteStage.forgotten
        (DeleteStage.listedSessions
          (db.keysWhere (hasPrefix (membershipPrefix id))))
  | listCard {sessions : List String} :
      Moves db id (DeleteStage.listedSessions sessions)
        (DeleteStage.listed
          (sessions ++ deleteCardIn db (CardScope.workspace id)))
  | fail {stage : DeleteStage} {e : String} :
      Moves db id stage (DeleteStage.returned (Except.error e))

inductive Effect (s : State) : Action -> State -> Prop where
  | card {a : Cards.Action} {cards : Cards.State} :
      Cards.step s.cards a = some cards ->
      Effect s (Action.card a) { s with cards := cards }
  | deleteWorkspace {id : Uuid} :
      Effect s (Action.deleteWorkspace id)
        { s with deletions := s.deletions ++ [⟨id, DeleteStage.called⟩] }
  | deleteRecord {d : Nat} {id : Uuid} :
      s.deletions[d]? = some ⟨id, DeleteStage.called⟩ ->
      Effect s (Action.deleteRecord d)
        ((s.setStage d ⟨id, DeleteStage.called⟩ DeleteStage.forgotten).setDb
          (s.db.write [Edit.delete (workspaceKey id)]))
  | move {a : Action} {d : Nat} {deletion : Deletion} {stage : DeleteStage} :
      a.reader = some d ->
      s.deletions[d]? = some deletion ->
      Moves s.db deletion.workspaceId deletion.stage stage ->
      Effect s a (s.setStage d deletion stage)
  | write {d : Nat} {id : Uuid} {keys : List String} :
      s.deletions[d]? = some ⟨id, DeleteStage.listed keys⟩ ->
      Effect s (Action.write d)
        ((s.setStage d ⟨id, DeleteStage.listed keys⟩
          (DeleteStage.returned (Except.ok ()))).setDb
            (s.db.write (Database.deletes keys)))

variable {s : State}

theorem step_cases {s' : State} {a : Action} (h : step s a = some s') :
    Effect s a s' := by
  cases a with
  | card a =>
      obtain ⟨cards, hcards, rfl⟩ := Option.map_eq_some_iff.mp h
      exact Effect.card hcards
  | deleteWorkspace id =>
      cases h
      exact Effect.deleteWorkspace
  | deleteRecord d =>
      rw [step] at h
      split at h
      · next id hd =>
        cases h
        exact Effect.deleteRecord hd
      · cases h
  | listSessions d =>
      rw [step] at h
      split at h
      · next id hd =>
        cases h
        exact Effect.move rfl hd Moves.listSessions
      · cases h
  | listCard d =>
      rw [step] at h
      split at h
      · next id sessions hd =>
        cases h
        exact Effect.move rfl hd Moves.listCard
      · cases h
  | write d =>
      rw [step] at h
      split at h
      · next id keys hd =>
        cases h
        exact Effect.write hd
      · cases h
  | fail d e =>
      rw [step] at h
      split at h
      · cases h
      · next deletion _ hd =>
        cases h
        exact Effect.move rfl hd Moves.fail
      · cases h

/-!
# The condition
-/

/-- The version that the call is about to write follows the head as it is. -/
def followsHead (db : CardDb) : Call -> Bool
  | ⟨request, Stage.checked latest⟩ => latestOf db request.scope == latest
  | _ => true

/-- Each version that is stored is among the rows that the deletion lists. -/
def hasListed (db : CardDb) : Deletion -> Bool
  | ⟨id, DeleteStage.listed keys⟩ =>
      (db.keysWhere (hasPrefix (cardPrefix (CardScope.workspace id)))).all
        (fun k => decide (k ∈ keys))
  | _ => true

def undisturbed (s : State) : Action -> Bool
  | Action.card (Cards.Action.write i _) =>
      s.cards.calls[i]?.all (followsHead s.db)
  | Action.write d => s.deletions[d]?.all (hasListed s.db)
  | _ => true

/-- A version that is written follows the head as it is at the write, and the
versions that are stored when a deletion is written are those it has listed. -/
def Undisturbed (s : State) (a : Action) : Prop :=
  undisturbed s a = true

instance (s : State) (a : Action) : Decidable (Undisturbed s a) :=
  inferInstanceAs (Decidable (_ = true))

theorem undisturbed_card {i latest : Nat} {request : PutCard} {now : Timestamp}
    (hi : s.cards.calls[i]? = some ⟨request, Stage.checked latest⟩) :
    Undisturbed s (Action.card (Cards.Action.write i now)) ↔
      latestOf s.db request.scope = latest := by
  rw [Undisturbed, undisturbed, hi]
  exact beq_iff_eq

theorem undisturbed_write {d : Nat} {id : Uuid} {keys : List String}
    (hd : s.deletions[d]? = some ⟨id, DeleteStage.listed keys⟩) :
    Undisturbed s (Action.write d) ↔
      forall k, k ∈ s.db.keysWhere
        (hasPrefix (cardPrefix (CardScope.workspace id))) -> k ∈ keys := by
  rw [Undisturbed, undisturbed, hd]
  show List.all _ _ = true ↔ _
  rw [List.all_eq_true]
  simp only [decide_eq_true_eq]

/-- The stored versions of each card are those from 1 to its head. -/
def Exact (db : CardDb) : Prop :=
  forall scope n,
    (exists card, Stored db card ∧ card.scope = scope ∧ card.version = n) ↔
      1 ≤ n ∧ n ≤ latestOf db scope

/-!
# Deleting the rows of a card
-/

def Foreign (k : String) : Prop :=
  hasPrefix "card:" k = false ∧ forall scope, headKey scope ≠ k

theorem foreign_of_apart {kind k : String} (hcard : Apart "card:" kind)
    (hhead : Apart "card_head:" kind) (hk : hasPrefix kind k = true) :
    Foreign k := by
  obtain ⟨rest, hrest⟩ := hasPrefix_iff.mp hk
  have hkey : k = kind ++ String.ofList rest := by
    apply String.toList_inj.mp
    rw [String.toList_append, String.toList_ofList, hrest]
  subst hkey
  exact ⟨hcard.not_hasPrefix _, fun scope => hhead.ne _ _⟩

theorem workspaceKey_foreign (id : Uuid) : Foreign (workspaceKey id) := by
  have hcard : Apart "card:" "workspace:" := by
    decide
  have hhead : Apart "card_head:" "workspace:" := by
    decide
  refine foreign_of_apart hcard hhead (hasPrefix_iff.mpr ?_)
  rw [workspaceKey, String.toList_append]
  exact List.prefix_append _ _

theorem membership_foreign {id : Uuid} {k : String}
    (hk : hasPrefix (membershipPrefix id) k = true) :
    Foreign k := by
  have hcard : Apart "card:" "ws_session:" := by
    decide
  have hhead : Apart "card_head:" "ws_session:" := by
    decide
  refine foreign_of_apart hcard hhead ?_
  rw [hasPrefix_iff] at hk ⊢
  unfold membershipPrefix at hk
  rw [String.append_assoc, String.toList_append] at hk
  exact (List.prefix_append _ _).trans hk

/-- The keys are the head of a card, rows of it and foreign keys. -/
structure Lists (scope : CardScope) (keys : List String) : Prop where
  head : headKey scope ∈ keys
  confined : forall k, k ∈ keys -> Foreign k ∨ k = headKey scope ∨
    hasPrefix (cardPrefix scope) k = true

theorem lists_deleteCardIn (db : CardDb) (scope : CardScope)
    {sessions : List String} (hsessions : forall k, k ∈ sessions -> Foreign k) :
    Lists scope (sessions ++ deleteCardIn db scope) where
  head := List.mem_append_right _ List.mem_cons_self
  confined := by
    intro k hk
    rcases List.mem_append.mp hk with hsession | hcard
    · exact Or.inl (hsessions k hsession)
    · rcases List.mem_cons.mp hcard with hhead | hrow
      · exact Or.inr (Or.inl hhead)
      · exact Or.inr (Or.inr (Database.mem_keysWhere.mp hrow).2)

theorem latestOf_congr {db db' : CardDb} {scope : CardScope}
    (h : db'[headKey scope]? = db[headKey scope]?) :
    latestOf db' scope = latestOf db scope := by
  rw [latestOf, latestOf, h]

theorem Versioned.congr {db db' : CardDb} (h : Versioned db)
    (hsame : forall k, ¬ Foreign k -> db'[k]? = db[k]?) :
    Versioned db' := by
  have hhead : forall scope, db'[headKey scope]? = db[headKey scope]? :=
    fun scope => hsame _ (fun hforeign => hforeign.2 scope rfl)
  have hrow : forall k, hasPrefix "card:" k = true -> db'[k]? = db[k]? := by
    intro k hk
    refine hsame k (fun hforeign => ?_)
    rw [hforeign.1] at hk
    cases hk
  have hlatest := fun scope => latestOf_congr (hhead scope)
  constructor
  · intro scope
    rw [hlatest, ← h.head scope, Cards.head, Cards.head, hhead]
  · intro scope n hfrom hto
    rw [hlatest] at hto
    obtain ⟨card, hstored, hrest⟩ := h.stored scope n hfrom hto
    refine ⟨card, ?_, hrest⟩
    rw [Stored, hrow _ (cardPrefix_card (cardKey_hasPrefix _ _))]
    exact hstored
  · intro k v hk hv
    rw [hrow k hk] at hv
    obtain ⟨card, hvalue, hkey, hbounds⟩ := h.only k v hk hv
    exact ⟨card, hvalue, hkey, by rw [hlatest]; exact hbounds⟩
  · intro scope
    rw [hlatest]
    exact h.bound scope

section

variable {scope : CardScope} {keys : List String}

theorem Lists.head_iff [LawfulUuidText] (h : Lists scope keys) (other : CardScope) :
    headKey other ∈ keys ↔ other = scope := by
  constructor
  · intro hmem
    rcases h.confined _ hmem with hforeign | hsame | hrow
    · exact absurd rfl (hforeign.2 other)
    · exact headKey_inj hsame
    · have hcard := cardPrefix_card hrow
      rw [headKey_not_hasPrefix] at hcard
      cases hcard
  · rintro rfl
    exact h.head

theorem Lists.scope_of_card [LawfulUuidText] (h : Lists scope keys) {other : CardScope} {n : Nat}
    (hmem : cardKey other n ∈ keys) :
    other = scope := by
  rcases h.confined _ hmem with hforeign | hhead | hrow
  · have hcard := cardPrefix_card (cardKey_hasPrefix other n)
    rw [hforeign.1] at hcard
    cases hcard
  · exact absurd hhead.symm (headKey_ne_cardKey _ _ _)
  · exact (scope_of_hasPrefix hrow).symm

theorem Lists.latest [LawfulUuidText] (h : Lists scope keys) (db : CardDb) (other : CardScope) :
    latestOf (db.write (Database.deletes keys)) other =
      if other = scope then 0 else latestOf db other := by
  split
  · next hscope =>
    rw [latestOf, Database.get_write_deletes,
      if_pos ((h.head_iff other).mpr hscope)]
  · next hscope =>
    apply latestOf_congr
    rw [Database.get_write_deletes, if_neg]
    exact fun hmem => hscope ((h.head_iff other).mp hmem)

theorem stored_erase {db : CardDb} {card : Card} :
    Stored (db.write (Database.deletes keys)) card ↔
      Stored db card ∧ cardKey card.scope card.version ∉ keys := by
  rw [Stored, Stored, Database.get_write_deletes]
  split
  · next hmem =>
    constructor
    · intro hnone
      cases hnone
    · exact fun hstored => absurd hmem hstored.2
  · next hmem =>
    exact ⟨fun hstored => ⟨hstored, hmem⟩, fun hstored => hstored.1⟩

theorem Versioned.erase [LawfulUuidText] {db : CardDb} (h : Versioned db)
    (hlists : Lists scope keys)
    (hall : forall k, k ∈ db.keysWhere (hasPrefix (cardPrefix scope)) -> k ∈ keys) :
    Versioned (db.write (Database.deletes keys)) := by
  have hlatest := hlists.latest db
  constructor
  · intro other
    rw [hlatest, Cards.head, Database.get_write_deletes]
    by_cases hscope : other = scope
    · rw [if_pos ((hlists.head_iff other).mpr hscope), if_pos hscope]
    · rw [if_neg (fun hmem => hscope ((hlists.head_iff other).mp hmem)),
        if_neg hscope]
      exact h.head other
  · intro other n hfrom hto
    rw [hlatest] at hto
    split at hto
    · omega
    · next hscope =>
      obtain ⟨card, hstored, rfl, rfl⟩ := h.stored other n hfrom hto
      exact ⟨card, stored_erase.mpr
        ⟨hstored, fun hmem => hscope (hlists.scope_of_card hmem)⟩, rfl, rfl⟩
  · intro k v hk hv
    rw [Database.get_write_deletes] at hv
    split at hv
    · cases hv
    · next hkept =>
      obtain ⟨card, hvalue, hkey, hfrom, hto⟩ := h.only k v hk hv
      refine ⟨card, hvalue, hkey, hfrom, ?_⟩
      rw [hlatest, if_neg]
      · exact hto
      · intro hscope
        refine hkept (hall k (Database.mem_keysWhere.mpr ⟨by rw [hv]; rfl, ?_⟩))
        rw [hkey, ← hscope]
        exact cardKey_hasPrefix _ _
  · intro other
    rw [hlatest]
    split
    · decide
    · exact h.bound other

theorem inexact_erase [LawfulUuidText] {db : CardDb} (h : Versioned db) (hlists : Lists scope keys)
    {k : String} (hk : k ∈ db.keysWhere (hasPrefix (cardPrefix scope)))
    (hmissed : k ∉ keys) :
    ¬ Exact (db.write (Database.deletes keys)) := by
  intro hexact
  obtain ⟨hsome, hbegins⟩ := Database.mem_keysWhere.mp hk
  obtain ⟨v, hv⟩ := Option.isSome_iff_exists.mp hsome
  obtain ⟨card, rfl, rfl, _⟩ := h.only k v (cardPrefix_card hbegins) hv
  have hscope := scope_of_hasPrefix hbegins
  have hbounds := (hexact card.scope card.version).mp
    ⟨card, stored_erase.mpr ⟨hv, hmissed⟩, rfl, rfl⟩
  rw [hlists.latest, if_pos hscope.symm] at hbounds
  omega

theorem inexact_write [LawfulUuidText] {db : CardDb} (h : Versioned db) {card : Card}
    (hgap : latestOf db card.scope + 1 < card.version) :
    ¬ Exact (writeCard db card) := by
  intro hexact
  have hlatest := writeCard_latestOf db card card.scope
  rw [if_pos rfl] at hlatest
  obtain ⟨other, hstored, hscope, hversion⟩ :=
    (hexact card.scope (card.version - 1)).mpr (by omega)
  have hkey : cardKey card.scope card.version ≠
      cardKey other.scope other.version := by
    intro hkey
    have hsame := (cardKey_inj hkey).2
    omega
  rw [Stored, writeCard_other db card hkey (headKey_ne_cardKey _ _ _)] at hstored
  have hbounds := h.of_stored hstored
  rw [hscope] at hbounds
  omega

/-!
# Invariants
-/

def Deletion.Confined : Deletion -> Prop
  | ⟨_, DeleteStage.listedSessions sessions⟩ => forall k, k ∈ sessions -> Foreign k
  | ⟨id, DeleteStage.listed keys⟩ => Lists (CardScope.workspace id) keys
  | _ => True

/-- The versions of each card are those from 1 to its head, no call has read a
head below the one that is stored, and a deletion lists its own keys. -/
structure Kept (s : State) : Prop where
  versioned : Versioned s.db
  exclusive : Exclusive s.cards
  checked : forall (i : Nat) (request : PutCard) (latest : Nat),
    s.cards.calls[i]? = some ⟨request, Stage.checked latest⟩ ->
    latestOf s.db request.scope ≤ latest
  confined : forall (d : Nat) (deletion : Deletion),
    s.deletions[d]? = some deletion -> deletion.Confined

variable {start : CardDb}

theorem kept_init (hstart : Versioned start) :
    Kept (workspaceCards start).init where
  versioned := hstart
  exclusive := by
    intro i j c c' _ hi
    cases hi
  checked := by
    intro i request latest hi
    cases hi
  confined := by
    intro d deletion hd
    cases hd

variable {s : State}

theorem Kept.card [LawfulUuidText] (h : Kept s) {a : Cards.Action} {cards : Cards.State}
    (hstep : Cards.step s.cards a = some cards)
    (hallowed : Undisturbed s (Action.card a)) :
    Kept { s with cards := cards } := by
  cases Cards.step_cases hstep with
  | call =>
      refine ⟨h.versioned, exclusive_call h.exclusive _, ?_, h.confined⟩
      intro i request latest hi
      exact h.checked i request latest (getElem?_call hi (by intro h; cases h))
  | @move _ i call stage _ hi hmoves hfree =>
      refine ⟨h.versioned, exclusive_move h.exclusive hi hmoves hfree, ?_,
        h.confined⟩
      intro j request latest hj
      rcases getElem?_setStage hi hj with ⟨rfl, heq⟩ | ⟨_, hold⟩
      · cases heq
        have hread := hmoves.checked
        have hhead := h.versioned.head call.request.scope
        rw [State.db, hread] at hhead
        exact Nat.le_of_eq (Except.ok.inj hhead).symm
      · exact h.checked j request latest hold
  | @write i latest request now hi hexpected hbound =>
      have hlatest : latestOf s.db request.scope = latest :=
        (undisturbed_card hi).mp hallowed
      have hnext : (request.card latest now).version =
          latestOf s.db (request.card latest now).scope + 1 :=
        congrArg (· + 1) hlatest.symm
      refine ⟨h.versioned.write hnext hbound, ?_, ?_, h.confined⟩
      · exact exclusive_setStage (s := s.cards) h.exclusive hi
          (fun j c hji hj hc _ =>
            h.exclusive i j _ c (Ne.symm hji) hi hj rfl hc)
      · intro j request' latest' hj
        rcases getElem?_setStage hi hj with ⟨rfl, heq⟩ | ⟨hji, hold⟩
        · cases heq
        · have hapart := h.exclusive j i _ _ hji hold hi rfl rfl
          have hother : request'.scope ≠ (request.card latest now).scope :=
            fun hscope => hapart (congrArg stripe hscope)
          rw [State.db, writeCard_latestOf, if_neg hother]
          exact h.checked j request' latest' hold

theorem Kept.deleteWorkspace (h : Kept s) (id : Uuid) :
    Kept { s with deletions := s.deletions ++ [⟨id, DeleteStage.called⟩] } where
  versioned := h.versioned
  exclusive := h.exclusive
  checked := h.checked
  confined := forall_getElem?_snoc True.intro h.confined

theorem Kept.deleteRecord (h : Kept s) {d : Nat} {id : Uuid}
    (hd : s.deletions[d]? = some ⟨id, DeleteStage.called⟩) :
    Kept ((s.setStage d ⟨id, DeleteStage.called⟩ DeleteStage.forgotten).setDb
      (s.db.write [Edit.delete (workspaceKey id)])) := by
  have hsame : forall k, ¬ Foreign k ->
      (s.db.write [Edit.delete (workspaceKey id)])[k]? = s.db[k]? := by
    intro k hk
    apply Database.get_write_other
    intro e he htarget
    rw [List.mem_singleton.mp he] at htarget
    exact hk (htarget ▸ workspaceKey_foreign id)
  constructor
  · exact Versioned.congr h.versioned hsame
  · exact h.exclusive
  · intro i request latest hi
    have hlatest : latestOf (s.db.write [Edit.delete (workspaceKey id)])
        request.scope = latestOf s.db request.scope :=
      latestOf_congr (hsame _ (fun hforeign => hforeign.2 _ rfl))
    exact hlatest ▸ h.checked i request latest hi
  · exact forall_getElem?_set hd True.intro
      (fun d' other _ hother => h.confined d' other hother)

theorem Moves.confined {db : CardDb} {deletion : Deletion} {stage : DeleteStage}
    (hmoves : Moves db deletion.workspaceId deletion.stage stage)
    (h : deletion.Confined) :
    { deletion with stage := stage }.Confined := by
  obtain ⟨id, old⟩ := deletion
  cases hmoves with
  | listSessions =>
      intro k hk
      exact membership_foreign (Database.mem_keysWhere.mp hk).2
  | listCard => exact lists_deleteCardIn db (CardScope.workspace id) h
  | fail => exact True.intro

theorem Kept.move {s : State} (h : Kept s) {d : Nat} {deletion : Deletion}
    {stage : DeleteStage} (hd : s.deletions[d]? = some deletion)
    (hmoves : Moves s.db deletion.workspaceId deletion.stage stage) :
    Kept (s.setStage d deletion stage) where
  versioned := h.versioned
  exclusive := h.exclusive
  checked := h.checked
  confined := forall_getElem?_set hd (hmoves.confined (h.confined d _ hd))
    (fun d' other _ hother => h.confined d' other hother)

theorem Kept.write [LawfulUuidText] {s : State} (h : Kept s) {d : Nat} {id : Uuid}
    {keys : List String}
    (hd : s.deletions[d]? = some ⟨id, DeleteStage.listed keys⟩)
    (hallowed : Undisturbed s (Action.write d)) :
    Kept ((s.setStage d ⟨id, DeleteStage.listed keys⟩
      (DeleteStage.returned (Except.ok ()))).setDb
        (s.db.write (Database.deletes keys))) := by
  have hlists : Lists (CardScope.workspace id) keys := h.confined d _ hd
  constructor
  · exact Versioned.erase h.versioned hlists
      ((undisturbed_write hd).mp hallowed)
  · exact h.exclusive
  · intro i request latest hi
    have hbelow := h.checked i request latest hi
    show latestOf (s.db.write (Database.deletes keys)) request.scope ≤ latest
    rw [hlists.latest]
    split
    · exact Nat.zero_le _
    · exact hbelow
  · exact forall_getElem?_set hd True.intro
      (fun d' other _ hother => h.confined d' other hother)

variable {s' : State}

theorem step_kept [LawfulUuidText] {a : Action} (h : Kept s) (hallowed : Undisturbed s a)
    (hstep : step s a = some s') :
    Kept s' := by
  cases step_cases hstep with
  | card hcards => exact h.card hcards hallowed
  | deleteWorkspace => exact h.deleteWorkspace _
  | deleteRecord hd => exact h.deleteRecord hd
  | move _ hd hmoves => exact h.move hd hmoves
  | write hd => exact h.write hd hallowed

theorem reachable_kept [LawfulUuidText] (hstart : Versioned start)
    (h : (workspaceCards start).Reachable Undisturbed s) :
    Kept s :=
  h.invariant (kept_init hstart)
    (fun _ _ _ hold hallowed hstep => step_kept hold hallowed hstep)

theorem Kept.exact (h : Kept s) : Exact s.db :=
  h.versioned.versions

theorem written_db {s s' : Cards.State} {i : Nat} {now : Timestamp}
    (h : Cards.step s (Cards.Action.write i now) = some s') :
    exists request latest,
      s.calls[i]? = some ⟨request, Stage.checked latest⟩ ∧
      s'.db = writeCard s.db (request.card latest now) := by
  rw [Cards.step] at h
  split at h
  · next request latest hi =>
    split at h
    · cases h
      exact ⟨request, latest, hi, rfl⟩
    · cases h
  · cases h

theorem erased_db {d : Nat} (h : step s (Action.write d) = some s') :
    exists id keys, s.deletions[d]? = some ⟨id, DeleteStage.listed keys⟩ ∧
      s'.db = s.db.write (Database.deletes keys) := by
  rw [step] at h
  split at h
  · next id keys hd =>
    cases h
    exact ⟨id, keys, hd, rfl⟩
  · cases h

variable [LawfulUuidText]

theorem step_inexact {a : Action} (h : Kept s) (hstep : step s a = some s')
    (hdisturbed : ¬ Undisturbed s a) :
    ¬ Exact s'.db := by
  cases a with
  | card a =>
      cases a with
      | write i now =>
          obtain ⟨cards, hcards, rfl⟩ := Option.map_eq_some_iff.mp hstep
          obtain ⟨request, latest, hi, hdb⟩ := written_db hcards
          have hbelow := h.checked i request latest hi
          have hne : latestOf s.db request.scope ≠ latest :=
            fun heq => hdisturbed ((undisturbed_card hi).mpr heq)
          show ¬ Exact cards.db
          rw [hdb]
          apply inexact_write h.versioned
          show latestOf s.db request.scope + 1 < latest + 1
          omega
      | _ => exact absurd rfl hdisturbed
  | write d =>
      obtain ⟨id, keys, hd, hdb⟩ := erased_db hstep
      rw [undisturbed_write hd] at hdisturbed
      push Not at hdisturbed
      obtain ⟨k, hk, hmissed⟩ := hdisturbed
      rw [hdb]
      exact inexact_erase h.versioned (h.confined d _ hd) hk hmissed
  | _ => exact absurd rfl hdisturbed

/-!
# Runs
-/

/-- Any number of `put_card` and `delete_workspace` calls in any order of their
steps: while each version that is written follows the head and each deletion
has listed the versions that are stored, the stored versions of a card are those
from 1 to its head and its history lists them, newest first; the first step
that is not so ends this. -/
theorem delete_workspace_versions {start : CardDb} (hstart : Versioned start)
    {s : State} (h : (workspaceCards start).Reachable Undisturbed s) :
    Exact s.db ∧
    (forall scope limit, exists listed,
      cardHistory s.db scope limit = Except.ok listed ∧
      listed.map Card.version =
        (List.range' 1 (latestOf s.db scope)).reverse.take limit ∧
      forall card, card ∈ listed -> Stored s.db card ∧ card.scope = scope) ∧
    (forall a s', step s a = some s' ->
      (Exact s'.db ↔ Undisturbed s a)) := by
  have hkept := reachable_kept hstart h
  refine ⟨hkept.exact, hkept.versioned.history, ?_⟩
  intro a s' hstep
  constructor
  · intro hexact
    by_contra hdisturbed
    exact step_inexact hkept hstep hdisturbed hexact
  · intro hallowed
    exact (step_kept hkept hallowed hstep).exact

end

end

attribute [local instance] hyphenatedText

/-- A card of a workspace is written, the workspace is deleted, and the card
begins again at version 1. -/
theorem delete_workspace_versions_rewritten :
    exists s : State,
      (workspaceCards ∅).Reachable Undisturbed s ∧
      versionsOf (cardHistory s.db (CardScope.workspace 5) 10) =
        Except.ok [1] ∧
      Exact s.db := by
  have := lawful_hyphenatedText
  obtain ⟨s, -, hreach, hversions⟩ := (workspaceCards ∅).replay_reaches Undisturbed
    ([Cards.Action.call ⟨CardScope.workspace 5, "a", none, 0⟩,
        Cards.Action.lock 0, Cards.Action.readHead 0, Cards.Action.write 0 10,
        Cards.Action.unlock 0].map Action.card ++
      [Action.deleteWorkspace 5, Action.deleteRecord 0,
        Action.listSessions 0, Action.listCard 0, Action.write 0] ++
      [Cards.Action.call ⟨CardScope.workspace 5, "b", none, 0⟩,
        Cards.Action.lock 1, Cards.Action.readHead 1,
        Cards.Action.write 1 11].map Action.card)
    (fun s => versionsOf (cardHistory s.db (CardScope.workspace 5) 10) = Except.ok [1])
    (by decide +kernel)
  obtain ⟨hexact, _⟩ :=
    delete_workspace_versions (NoCards.versioned noCards_empty) hreach
  exact ⟨s, hreach, hversions, hexact⟩

/-- A version is written between the scan of a deletion and its batch. -/
theorem delete_workspace_strands_version :
    exists s : State,
      (workspaceCards ∅).Reachable System.Anything s ∧
      latestOf s.db (CardScope.workspace 5) = 0 ∧
      versionsOf (cardHistory s.db (CardScope.workspace 5) 10) =
        Except.ok [1] ∧
      ¬ Exact s.db := by
  obtain ⟨s, -, hreach, hlatest, hversions, hstored⟩ :=
    (workspaceCards ∅).replay_reaches System.Anything
      [Action.card (Cards.Action.call ⟨CardScope.workspace 5, "a", none, 0⟩),
        Action.card (Cards.Action.lock 0), Action.card (Cards.Action.readHead 0),
        Action.deleteWorkspace 5, Action.deleteRecord 0,
        Action.listSessions 0, Action.listCard 0,
        Action.card (Cards.Action.write 0 10), Action.write 0]
      (fun s => latestOf s.db (CardScope.workspace 5) = 0 ∧
        versionsOf (cardHistory s.db (CardScope.workspace 5) 10) = Except.ok [1] ∧
        s.db[cardKey (CardScope.workspace 5) 1]? =
          some (CardRecord.card ⟨CardScope.workspace 5, 1, "a", 10, none⟩))
      (by decide +kernel)
  refine ⟨s, hreach, hlatest, hversions, ?_⟩
  intro hexact
  have hbounds := (hexact (CardScope.workspace 5) 1).mp
    ⟨⟨CardScope.workspace 5, 1, "a", 10, none⟩, hstored, rfl, rfl⟩
  rw [hlatest] at hbounds
  exact absurd hbounds.2 (by decide)

end CardDeletion
end Storage
end PostCortex

import Mathlib.Data.List.Sort
import PostCortex.Core.Message
import PostCortex.KeyValue.Database
import PostCortex.Storage.Keys
import PostCortex.Transition.Calls
import PostCortex.Transition.System

/-!
# Cards

`rocksdb_storage/cards.rs`: one row for each version of a card and the head,
the latest version.  Any number of `put_card` calls run at once.  A call is a
step for each of: taking the stripe of the lock, reading the head, the batch or
the load of the conflicting card, and leaving the lock; reads and the batch may
fail.  A version is a `u64`: a call that would write past the last one is no
step.
-/

namespace PostCortex
namespace Storage
namespace Cards

open PostCortex.Core
open KeyValue
open Transition

inductive CardScope where
  | workspace (id : Uuid)
  | user
  deriving DecidableEq, Repr

structure Card where
  scope : CardScope
  version : Nat
  text : String
  updatedAt : Timestamp
  author : Option String
  deriving DecidableEq, Repr

inductive CardWrite where
  | written (card : Card)
  | conflict (latest : Option Card)
  deriving DecidableEq, Repr

/-- A value of the database; `other` is a record of another module. -/
inductive CardRecord where
  | card (c : Card)
  | version (n : Nat)
  | other (bytes : List UInt8)
  deriving DecidableEq, Repr

abbrev CardDb : Type :=
  Database String CardRecord

/-!
# Keys
-/

section

variable [UuidText]

def CardScope.key : CardScope -> String
  | CardScope.workspace id => "workspace:" ++ UuidText.toText id
  | CardScope.user => "user"

def cardPrefix (scope : CardScope) : String :=
  "card:" ++ scope.key ++ ":"

def cardKey (scope : CardScope) (version : Nat) : String :=
  "card:" ++ scope.key ++ ":" ++ padded 20 version

def headKey (scope : CardScope) : String :=
  "card_head:" ++ scope.key

end

def lockId : CardScope -> Uuid
  | CardScope.workspace id => id
  | CardScope.user => 0

/-- The stripe of `SessionLocks` that owns a scope. -/
def stripe (scope : CardScope) : Nat :=
  (lockId scope).toNat % 64

/-!
# Reading and writing
-/

section

variable [UuidText]

def decodeCard : CardRecord -> Except String Card
  | CardRecord.card c => Except.ok c
  | _ => Except.error "Failed to deserialize card"

def head (db : CardDb) (scope : CardScope) : Except String Nat :=
  match db[headKey scope]? with
  | some (CardRecord.version n) => Except.ok n
  | some _ => Except.error "Malformed card head"
  | none => Except.ok 0

def load (db : CardDb) (scope : CardScope) (version : Nat) :
    Except String (Option Card) :=
  if version = 0 then Except.ok none
  else
    match db[cardKey scope version]? with
    | some record => (decodeCard record).map some
    | none => Except.ok none

def writeCard (db : CardDb) (card : Card) : CardDb :=
  db.write [Edit.put (cardKey card.scope card.version) (CardRecord.card card),
    Edit.put (headKey card.scope) (CardRecord.version card.version)]

def cardHistory (db : CardDb) (scope : CardScope) (limit : Nat) :
    Except String (List Card) :=
  ((db.toList.filter (fun e => hasPrefix (cardPrefix scope) e.1)).reverse.take
    limit).mapM (fun e => decodeCard e.2)

/-!
# Calls
-/

structure PutCard where
  scope : CardScope
  text : String
  author : Option String
  expectedVersion : Nat
  deriving DecidableEq, Repr

/-- Where a call stands; the lock is held from `locked` to `finished`. -/
inductive Stage where
  | waiting
  | locked
  | checked (latest : Nat)
  | finished (result : Except String CardWrite)
  | returned (result : Except String CardWrite)

structure Call where
  request : PutCard
  stage : Stage

structure State where
  db : CardDb
  calls : List Call

/-- Calls are numbered in the order they arrive. -/
inductive Action where
  | call (request : PutCard)
  | lock (i : Nat)
  | readHead (i : Nat)
  | write (i : Nat) (now : Timestamp)
  | loadLatest (i : Nat)
  | fail (i : Nat) (error : String)
  | unlock (i : Nat)

def Action.caller : Action -> Option Nat
  | call _ => none
  | lock i => some i
  | readHead i => some i
  | write i _ => some i
  | loadLatest i => some i
  | fail i _ => some i
  | unlock i => some i

def Stage.holds : Stage -> Bool
  | waiting => false
  | locked => true
  | checked _ => true
  | finished _ => true
  | returned _ => false

def Stage.result : Stage -> Option (Except String CardWrite)
  | finished result => some result
  | returned result => some result
  | _ => none

def holdsStripe (n : Nat) (call : Call) : Bool :=
  call.stage.holds && stripe call.request.scope == n

def State.setStage (s : State) (i : Nat) (call : Call) (stage : Stage) :
    State :=
  { s with calls := s.calls.set i { call with stage := stage } }

def PutCard.card (request : PutCard) (latest : Nat) (now : Timestamp) :
    Card where
  scope := request.scope
  version := latest + 1
  text := request.text
  updatedAt := now
  author := request.author

def step (s : State) : Action -> Option State
  | Action.call request =>
      some { s with calls := s.calls ++ [⟨request, Stage.waiting⟩] }
  | Action.lock i =>
      match s.calls[i]? with
      | some ⟨request, Stage.waiting⟩ =>
          if s.calls.any (holdsStripe (stripe request.scope)) then none
          else some (s.setStage i ⟨request, Stage.waiting⟩ Stage.locked)
      | _ => none
  | Action.readHead i =>
      match s.calls[i]? with
      | some ⟨request, Stage.locked⟩ =>
          match head s.db request.scope with
          | Except.ok latest =>
              some (s.setStage i ⟨request, Stage.locked⟩ (Stage.checked latest))
          | Except.error e =>
              some (s.setStage i ⟨request, Stage.locked⟩
                (Stage.finished (Except.error e)))
      | _ => none
  | Action.write i now =>
      match s.calls[i]? with
      | some ⟨request, Stage.checked latest⟩ =>
          if latest = request.expectedVersion ∧ latest + 1 < 2 ^ 64 then
            let card := request.card latest now
            some { (s.setStage i ⟨request, Stage.checked latest⟩
                (Stage.finished (Except.ok (CardWrite.written card)))) with
              db := writeCard s.db card }
          else none
      | _ => none
  | Action.loadLatest i =>
      match s.calls[i]? with
      | some ⟨request, Stage.checked latest⟩ =>
          if latest = request.expectedVersion then none
          else
            some (s.setStage i ⟨request, Stage.checked latest⟩
              (Stage.finished
                ((load s.db request.scope latest).map CardWrite.conflict)))
      | _ => none
  | Action.fail i e =>
      match s.calls[i]? with
      | some ⟨request, Stage.locked⟩ =>
          some (s.setStage i ⟨request, Stage.locked⟩
            (Stage.finished (Except.error e)))
      | some ⟨request, Stage.checked latest⟩ =>
          some (s.setStage i ⟨request, Stage.checked latest⟩
            (Stage.finished (Except.error e)))
      | _ => none
  | Action.unlock i =>
      match s.calls[i]? with
      | some ⟨request, Stage.finished result⟩ =>
          some (s.setStage i ⟨request, Stage.finished result⟩
            (Stage.returned result))
      | _ => none

def cards (start : CardDb) : System State Action where
  init := ⟨start, []⟩
  step := step

/-!
# What a step does
-/

/-- The stage a call moves to, without a change of the store. -/
inductive Moves (db : CardDb) (request : PutCard) : Stage -> Stage -> Prop where
  | lock : Moves db request Stage.waiting Stage.locked
  | readHead {latest : Nat} :
      head db request.scope = Except.ok latest ->
      Moves db request Stage.locked (Stage.checked latest)
  | malformed {e : String} :
      head db request.scope = Except.error e ->
      Moves db request Stage.locked (Stage.finished (Except.error e))
  | conflict {latest : Nat} :
      latest ≠ request.expectedVersion ->
      Moves db request (Stage.checked latest)
        (Stage.finished
          ((load db request.scope latest).map CardWrite.conflict))
  | failRead {e : String} :
      Moves db request Stage.locked (Stage.finished (Except.error e))
  | failWrite {latest : Nat} {e : String} :
      Moves db request (Stage.checked latest)
        (Stage.finished (Except.error e))
  | unlock {result : Except String CardWrite} :
      Moves db request (Stage.finished result) (Stage.returned result)

inductive Effect (s : State) : Action -> State -> Prop where
  | call {request : PutCard} :
      Effect s (Action.call request)
        { s with calls := s.calls ++ [⟨request, Stage.waiting⟩] }
  | move {a : Action} {i : Nat} {call : Call} {stage : Stage} :
      a.caller = some i ->
      s.calls[i]? = some call ->
      Moves s.db call.request call.stage stage ->
      (call.stage = Stage.waiting ->
        s.calls.any (holdsStripe (stripe call.request.scope)) = false) ->
      Effect s a (s.setStage i call stage)
  | write {i latest : Nat} {request : PutCard} {now : Timestamp} :
      s.calls[i]? = some ⟨request, Stage.checked latest⟩ ->
      latest = request.expectedVersion ->
      latest + 1 < 2 ^ 64 ->
      Effect s (Action.write i now)
        { (s.setStage i ⟨request, Stage.checked latest⟩
            (Stage.finished
              (Except.ok (CardWrite.written (request.card latest now))))) with
          db := writeCard s.db (request.card latest now) }

theorem step_cases {s s' : State} {a : Action} (h : step s a = some s') :
    Effect s a s' := by
  cases a with
  | call request =>
      cases h
      exact Effect.call
  | lock i =>
      rw [step] at h
      split at h
      · next request hi =>
        split at h
        · cases h
        · next hfree =>
          cases h
          exact Effect.move rfl hi Moves.lock
            (fun _ => Bool.eq_false_iff.mpr hfree)
      · cases h
  | readHead i =>
      rw [step] at h
      split at h
      · next request hi =>
        split at h
        · next latest hhead =>
          cases h
          exact Effect.move rfl hi (Moves.readHead hhead) nofun
        · next e hhead =>
          cases h
          exact Effect.move rfl hi (Moves.malformed hhead) nofun
      · cases h
  | write i now =>
      rw [step] at h
      split at h
      · next request latest hi =>
        split at h
        · next hok =>
          cases h
          exact Effect.write hi hok.1 hok.2
        · cases h
      · cases h
  | loadLatest i =>
      rw [step] at h
      split at h
      · next request latest hi =>
        split at h
        · cases h
        · next hne =>
          cases h
          exact Effect.move rfl hi (Moves.conflict hne) nofun
      · cases h
  | fail i e =>
      rw [step] at h
      split at h
      · next request hi =>
        cases h
        exact Effect.move rfl hi Moves.failRead nofun
      · next request latest hi =>
        cases h
        exact Effect.move rfl hi Moves.failWrite nofun
      · cases h
  | unlock i =>
      rw [step] at h
      split at h
      · next request result hi =>
        cases h
        exact Effect.move rfl hi Moves.unlock nofun
      · cases h

variable {request : PutCard} {stage stage' : Stage}

theorem Moves.result {db : CardDb} (h : Moves db request stage stage')
    {r : Except String CardWrite} (hr : stage.result = some r) :
    stage'.result = some r := by
  cases h with
  | unlock => exact hr
  | _ => cases hr

theorem Moves.written {db : CardDb} (h : Moves db request stage stage')
    {card : Card}
    (hcard : stage'.result = some (Except.ok (CardWrite.written card))) :
    stage.result = some (Except.ok (CardWrite.written card)) := by
  cases h with
  | unlock => exact hcard
  | @conflict latest _ =>
      have hload : (load db request.scope latest).map CardWrite.conflict =
          Except.ok (CardWrite.written card) := Option.some.inj hcard
      cases hread : load db request.scope latest with
      | ok latest | error e =>
          rw [hread] at hload
          cases hload
  | _ => cases hcard

end

/-!
# Keys
-/

section

variable [UuidText]

theorem cardKey_hasPrefix (scope : CardScope) (version : Nat) :
    hasPrefix (cardPrefix scope) (cardKey scope version) = true := by
  rw [hasPrefix_iff, cardKey, ← cardPrefix, String.toList_append]
  exact List.prefix_append _ _

theorem cardPrefix_card {scope : CardScope} {k : String}
    (h : hasPrefix (cardPrefix scope) k = true) :
    hasPrefix "card:" k = true := by
  rw [hasPrefix_iff] at h ⊢
  rw [cardPrefix, String.append_assoc, String.toList_append] at h
  exact (List.prefix_append _ _).trans h

theorem headKey_not_hasPrefix (scope : CardScope) :
    hasPrefix "card:" (headKey scope) = false := by
  have hapart : Apart "card:" "card_head:" := by
    decide
  exact hapart.not_hasPrefix _

theorem headKey_ne_cardKey (s t : CardScope) (version : Nat) :
    headKey s ≠ cardKey t version := by
  intro hkey
  have hbegins := cardPrefix_card (cardKey_hasPrefix t version)
  rw [← hkey, headKey_not_hasPrefix] at hbegins
  cases hbegins

variable [LawfulUuidText]

variable {s t : CardScope}

theorem key_append {x y : String} (h : s.key ++ (":" ++ x) = t.key ++ (":" ++ y)) :
    s = t ∧ x = y := by
  have hapart : Apart "workspace:" "user" := by
    decide
  cases s with
  | workspace id =>
      cases t with
      | workspace id' =>
          obtain ⟨rfl, hrest⟩ := id_of_append h
          exact ⟨rfl, (String.append_right_inj ":").mp hrest⟩
      | user =>
          rw [CardScope.key, CardScope.key, String.append_assoc] at h
          exact absurd h (hapart.ne _ _)
  | user =>
      cases t with
      | workspace id' =>
          have hrest := h.symm
          rw [CardScope.key, CardScope.key, String.append_assoc] at hrest
          exact absurd hrest (hapart.ne _ _)
      | user =>
          rw [CardScope.key, ← String.append_assoc, ← String.append_assoc] at h
          exact ⟨rfl, (String.append_right_inj _).mp h⟩

theorem key_inj (h : s.key = t.key) :
    s = t := by
  have heq : s.key ++ (":" ++ "") = t.key ++ (":" ++ "") := by
    rw [h]
  exact (key_append heq).1

theorem headKey_inj (h : headKey s = headKey t) :
    s = t :=
  key_inj ((String.append_right_inj _).mp h)

omit [LawfulUuidText] in
theorem cardKey_eq (scope : CardScope) (version : Nat) :
    cardKey scope version =
      "card:" ++ (scope.key ++ (":" ++ padded 20 version)) := by
  rw [cardKey, String.append_assoc, String.append_assoc]

theorem cardKey_inj {m n : Nat} (h : cardKey s m = cardKey t n) :
    s = t ∧ m = n := by
  rw [cardKey_eq, cardKey_eq] at h
  obtain ⟨hscope, hpadded⟩ := key_append ((String.append_right_inj _).mp h)
  exact ⟨hscope, padded_inj hpadded⟩

theorem scope_of_hasPrefix {version : Nat}
    (h : hasPrefix (cardPrefix s) (cardKey t version) = true) :
    s = t := by
  rw [hasPrefix_iff] at h
  obtain ⟨rest, hrest⟩ := h
  have heq : "card:" ++ (s.key ++ (":" ++ String.ofList rest)) =
      "card:" ++ (t.key ++ (":" ++ padded 20 version)) := by
    apply String.toList_inj.mp
    rw [← cardKey_eq, ← hrest]
    simp [cardPrefix, List.append_assoc]
  exact (key_append ((String.append_right_inj _).mp heq)).1

end

/-!
# The stored versions
-/

section

variable [UuidText]

def Stored (db : CardDb) (card : Card) : Prop :=
  db[cardKey card.scope card.version]? = some (CardRecord.card card)

def latestOf (db : CardDb) (scope : CardScope) : Nat :=
  match db[headKey scope]? with
  | some (CardRecord.version n) => n
  | _ => 0

def NoCards (db : CardDb) : Prop :=
  forall k, hasPrefix "card:" k = true ∨ hasPrefix "card_head:" k = true ->
    db[k]? = none

/-- The versions of each card are those from 1 to its head. -/
structure Versioned (db : CardDb) : Prop where
  head : forall scope, head db scope = Except.ok (latestOf db scope)
  stored : forall scope n, 1 ≤ n -> n ≤ latestOf db scope ->
    exists card, Stored db card ∧ card.scope = scope ∧ card.version = n
  only : forall k v, hasPrefix "card:" k = true -> db[k]? = some v ->
    exists card, v = CardRecord.card card ∧
      k = cardKey card.scope card.version ∧
      1 ≤ card.version ∧ card.version ≤ latestOf db card.scope
  bound : forall scope, latestOf db scope < 2 ^ 64

variable {db : CardDb}

theorem NoCards.head (h : NoCards db) (scope : CardScope) :
    db[headKey scope]? = none := by
  apply h
  right
  rw [headKey, hasPrefix_iff, String.toList_append]
  exact List.prefix_append _ _

theorem NoCards.versioned (h : NoCards db) :
    Versioned db := by
  have hlatest : forall scope, latestOf db scope = 0 := by
    intro scope
    rw [latestOf, h.head scope]
  constructor
  · intro scope
    rw [Cards.head, h.head scope, hlatest]
  · intro scope n hfrom hto
    rw [hlatest] at hto
    omega
  · intro k v hk hv
    rw [h k (Or.inl hk)] at hv
    cases hv
  · intro scope
    rw [hlatest]
    decide

theorem Versioned.of_stored (h : Versioned db) {card : Card}
    (hcard : Stored db card) :
    1 ≤ card.version ∧ card.version ≤ latestOf db card.scope := by
  obtain ⟨card', hvalue, _, hbounds⟩ :=
    h.only _ _ (cardPrefix_card (cardKey_hasPrefix _ _)) hcard
  cases hvalue
  exact hbounds

theorem Versioned.versions (h : Versioned db) (scope : CardScope) (n : Nat) :
    (exists card, Stored db card ∧ card.scope = scope ∧ card.version = n) ↔
      1 ≤ n ∧ n ≤ latestOf db scope := by
  constructor
  · rintro ⟨card, hstored, rfl, rfl⟩
    exact h.of_stored hstored
  · rintro ⟨hfrom, hto⟩
    exact h.stored scope n hfrom hto

end

section

variable {s : State} {i j : Nat} {c : Call} {stage : Stage} {request : PutCard}

def Call.wrote (call : Call) (card : Card) : Prop :=
  call.stage.result = some (Except.ok (CardWrite.written card))

def Exclusive (s : State) : Prop :=
  forall (i j : Nat) (c c' : Call), i ≠ j -> s.calls[i]? = some c ->
    s.calls[j]? = some c' -> c.stage.holds = true -> c'.stage.holds = true ->
    stripe c.request.scope ≠ stripe c'.request.scope

theorem getElem?_setStage {call : Call} (hi : s.calls[i]? = some call)
    (hj : (s.setStage i call stage).calls[j]? = some c) :
    j = i ∧ c = ⟨call.request, stage⟩ ∨ j ≠ i ∧ s.calls[j]? = some c :=
  getElem?_set_cases hi hj

theorem getElem?_setStage_self {call : Call} (stage : Stage)
    (hi : s.calls[i]? = some call) :
    (s.setStage i call stage).calls[i]? = some ⟨call.request, stage⟩ :=
  List.getElem?_set_self (List.getElem?_eq_some_iff.mp hi).1

theorem getElem?_setStage_ne (call : Call) (stage : Stage) (hji : j ≠ i) :
    (s.setStage i call stage).calls[j]? = s.calls[j]? :=
  List.getElem?_set_ne (Ne.symm hji)

theorem getElem?_call (hj : (s.calls ++ [⟨request, Stage.waiting⟩])[j]? = some c)
    (hc : c.stage ≠ Stage.waiting) :
    s.calls[j]? = some c :=
  forall_getElem?_snoc
    (P := fun j c => c.stage ≠ Stage.waiting -> s.calls[j]? = some c)
    (fun hne => absurd rfl hne) (fun _ _ hold _ => hold) j c hj hc

theorem Call.wrote_ne_waiting {card : Card} (h : c.wrote card) :
    c.stage ≠ Stage.waiting := by
  intro hwaiting
  rw [Call.wrote, hwaiting] at h
  cases h

theorem Stage.holds_ne_waiting (h : stage.holds = true) :
    stage ≠ Stage.waiting := by
  rintro rfl
  cases h

theorem getElem?_snoc_old (hi : s.calls[i]? = some c) :
    (s.calls ++ [⟨request, Stage.waiting⟩])[i]? = some c := by
  rw [List.getElem?_append_left (List.getElem?_eq_some_iff.mp hi).1]
  exact hi

theorem exclusive_call (h : Exclusive s) (request : PutCard) :
    Exclusive { s with calls := s.calls ++ [⟨request, Stage.waiting⟩] } := by
  intro i j c c' hij hi hj hc hc'
  exact h i j c c' hij
    (getElem?_call hi (Stage.holds_ne_waiting hc))
    (getElem?_call hj (Stage.holds_ne_waiting hc')) hc hc'

theorem free_stripe {n : Nat} (hfree : s.calls.any (holdsStripe n) = false)
    (hj : s.calls[j]? = some c) (hc : c.stage.holds = true) :
    stripe c.request.scope ≠ n := by
  intro hstripe
  have hother := List.any_eq_false.mp hfree c (List.mem_of_getElem? hj)
  rw [holdsStripe, hc, hstripe] at hother
  simp at hother

theorem exclusive_setStage {call : Call} (h : Exclusive s)
    (hi : s.calls[i]? = some call)
    (hown : forall (j : Nat) (c : Call), j ≠ i -> s.calls[j]? = some c ->
      c.stage.holds = true -> stage.holds = true ->
      stripe call.request.scope ≠ stripe c.request.scope) :
    Exclusive (s.setStage i call stage) := by
  intro j k c c' hjk hj hk hc hc'
  rcases getElem?_setStage hi hj with ⟨rfl, rfl⟩ | ⟨hji, hold⟩
  · rcases getElem?_setStage hi hk with ⟨rfl, rfl⟩ | ⟨hki, hold'⟩
    · exact absurd rfl hjk
    · exact hown k c' hki hold' hc' hc
  · rcases getElem?_setStage hi hk with ⟨rfl, rfl⟩ | ⟨hki, hold'⟩
    · exact (hown j c hji hold hc hc').symm
    · exact h j k c c' hjk hold hold' hc hc'

variable [UuidText]

theorem writeCard_card (db : CardDb) (card : Card) :
    Stored (writeCard db card) card := by
  rw [Stored, writeCard, Database.write_cons, Database.write_cons,
    Database.write_nil, Database.get_apply_other, Database.get_put_self]
  exact headKey_ne_cardKey _ _ _

theorem writeCard_head (db : CardDb) (card : Card) :
    (writeCard db card)[headKey card.scope]? =
      some (CardRecord.version card.version) := by
  rw [writeCard, Database.write_cons, Database.write_cons, Database.write_nil,
    Database.get_put_self]

theorem writeCard_other (db : CardDb) (card : Card) {k : String}
    (hcard : cardKey card.scope card.version ≠ k)
    (hhead : headKey card.scope ≠ k) :
    (writeCard db card)[k]? = db[k]? := by
  apply Database.get_write_other
  intro e he
  simp only [List.mem_cons, List.not_mem_nil, or_false] at he
  rcases he with rfl | rfl
  · exact hcard
  · exact hhead

theorem writeCard_latestOf [LawfulUuidText] (db : CardDb) (card : Card) (scope : CardScope) :
    latestOf (writeCard db card) scope =
      if scope = card.scope then card.version else latestOf db scope := by
  split
  · next heq =>
    rw [latestOf, heq, writeCard_head]
  · next hne =>
    rw [latestOf, writeCard_other, latestOf]
    · exact (headKey_ne_cardKey _ _ _).symm
    · exact fun hkey => hne (headKey_inj hkey).symm

variable {db : CardDb}

theorem writeCard_stored [LawfulUuidText] (h : Versioned db) {card : Card}
    (hnext : card.version = latestOf db card.scope + 1) (other : Card) :
    Stored (writeCard db card) other ↔ other = card ∨ Stored db other := by
  by_cases hkey : cardKey card.scope card.version =
      cardKey other.scope other.version
  · have hnew := writeCard_card db card
    rw [Stored] at hnew ⊢
    rw [← hkey, hnew]
    constructor
    · intro heq
      cases heq
      exact Or.inl rfl
    · rintro (rfl | hold)
      · rfl
      · obtain ⟨hscope, hversion⟩ := cardKey_inj hkey
        have hbound := (h.of_stored hold).2
        rw [← hscope, ← hversion] at hbound
        omega
  · rw [Stored, writeCard_other db card hkey (headKey_ne_cardKey _ _ _)]
    constructor
    · exact Or.inr
    · rintro (rfl | hold)
      · exact absurd rfl hkey
      · exact hold

theorem Versioned.write [LawfulUuidText] {db : CardDb} (h : Versioned db) {card : Card}
    (hnext : card.version = latestOf db card.scope + 1)
    (hbound : card.version < 2 ^ 64) :
    Versioned (writeCard db card) := by
  have hlatest := writeCard_latestOf db card
  constructor
  · intro scope
    by_cases hscope : scope = card.scope
    · rw [hlatest, if_pos hscope, hscope, Cards.head, writeCard_head]
    · rw [hlatest, if_neg hscope, ← h.head scope, Cards.head, writeCard_other,
        Cards.head]
      · exact (headKey_ne_cardKey _ _ _).symm
      · exact fun hkey => hscope (headKey_inj hkey).symm
  · intro scope n hfrom hto
    rw [hlatest] at hto
    by_cases hlast : scope = card.scope ∧ n = card.version
    · exact ⟨card, writeCard_card db card, hlast.1.symm, hlast.2.symm⟩
    · have hold : n ≤ latestOf db scope := by
        split at hto
        · next hscope =>
          have hne : n ≠ card.version := fun heq => hlast ⟨hscope, heq⟩
          rw [hscope]
          omega
        · exact hto
      obtain ⟨other, hother, hrest⟩ := h.stored scope n hfrom hold
      exact ⟨other, (writeCard_stored h hnext other).mpr (Or.inr hother), hrest⟩
  · intro k v hk hv
    have hhead : headKey card.scope ≠ k := by
      rintro rfl
      rw [headKey_not_hasPrefix] at hk
      cases hk
    by_cases hkey : cardKey card.scope card.version = k
    · have hnew : (writeCard db card)[k]? = some (CardRecord.card card) :=
        hkey ▸ writeCard_card db card
      rw [hnew] at hv
      cases hv
      refine ⟨card, rfl, hkey.symm, by omega, ?_⟩
      rw [hlatest, if_pos rfl]
    · rw [writeCard_other db card hkey hhead] at hv
      obtain ⟨other, hvalue, hk', hfrom, hto⟩ := h.only k v hk hv
      refine ⟨other, hvalue, hk', hfrom, ?_⟩
      rw [hlatest]
      split
      · next hscope =>
        rw [hscope] at hto
        omega
      · exact hto
  · intro scope
    rw [hlatest]
    split
    · exact hbound
    · exact h.bound scope

/-!
# Invariants
-/

/-- At most one call holds a stripe, a call that checked the head still knows
it, and the stored versions are those the successful calls wrote, one each. -/
structure Sound (s : State) : Prop where
  versioned : Versioned s.db
  exclusive : forall (i j : Nat) (c c' : Call), i ≠ j -> s.calls[i]? = some c ->
    s.calls[j]? = some c' -> c.stage.holds = true -> c'.stage.holds = true ->
    stripe c.request.scope ≠ stripe c'.request.scope
  checked : forall (i : Nat) (request : PutCard) (latest : Nat),
    s.calls[i]? = some ⟨request, Stage.checked latest⟩ ->
    latestOf s.db request.scope = latest
  written : forall (i : Nat) (c : Call) card, s.calls[i]? = some c ->
    c.wrote card -> Stored s.db card ∧
      exists now, card = c.request.card c.request.expectedVersion now
  once : forall (i j : Nat) (c c' : Call) (card card' : Card), i ≠ j ->
    s.calls[i]? = some c -> s.calls[j]? = some c' -> c.wrote card -> c'.wrote card' ->
    card.scope = card'.scope -> card.version ≠ card'.version
  origin : forall card, Stored s.db card ->
    exists i : Nat, exists c : Call, s.calls[i]? = some c ∧ c.wrote card

variable {start : CardDb}

theorem sound_init (hstart : NoCards start) :
    Sound (cards start).init where
  versioned := hstart.versioned
  exclusive := by
    intro i j c c' _ hi
    cases hi
  checked := by
    intro i request latest hi
    cases hi
  written := by
    intro i c card hi
    cases hi
  once := by
    intro i j c c' card card' _ hi
    cases hi
  origin := by
    intro card hcard
    have hnone := hstart _
      (Or.inl (cardPrefix_card (cardKey_hasPrefix card.scope card.version)))
    have hsome : start[cardKey card.scope card.version]? =
        some (CardRecord.card card) := hcard
    rw [hnone] at hsome
    cases hsome

theorem Sound.call (h : Sound s) (request : PutCard) :
    Sound { s with calls := s.calls ++ [⟨request, Stage.waiting⟩] } where
  versioned := h.versioned
  exclusive := exclusive_call h.exclusive request
  checked := by
    intro i request latest hi
    exact h.checked i request latest (getElem?_call hi (by intro h; cases h))
  written := by
    intro i c card hi hcard
    exact h.written i c card (getElem?_call hi (Call.wrote_ne_waiting hcard)) hcard
  once := by
    intro i j c c' card card' hij hi hj hcard hcard'
    exact h.once i j c c' card card' hij
      (getElem?_call hi (Call.wrote_ne_waiting hcard))
      (getElem?_call hj (Call.wrote_ne_waiting hcard')) hcard hcard'
  origin := by
    intro card hcard
    obtain ⟨i, c, hi, hwrote⟩ := h.origin card hcard
    exact ⟨i, c, getElem?_snoc_old hi, hwrote⟩

theorem Moves.holds {stage' : Stage} (h : Moves db request stage stage')
    (hstage' : stage'.holds = true) :
    stage.holds = true ∨ stage = Stage.waiting := by
  cases h with
  | lock => exact Or.inr rfl
  | unlock => cases hstage'
  | _ => exact Or.inl rfl

theorem Moves.checked {latest : Nat}
    (h : Moves db request stage (Stage.checked latest)) :
    head db request.scope = Except.ok latest := by
  cases h with
  | readHead hhead => exact hhead

theorem exclusive_move {call : Call} (h : Exclusive s)
    (hi : s.calls[i]? = some call)
    (hmoves : Moves s.db call.request call.stage stage)
    (hfree : call.stage = Stage.waiting ->
      s.calls.any (holdsStripe (stripe call.request.scope)) = false) :
    Exclusive (s.setStage i call stage) := by
  refine exclusive_setStage h hi ?_
  intro j c hji hj hc hstage
  rcases hmoves.holds hstage with hholds | hwaiting
  · exact h i j call c (Ne.symm hji) hi hj hholds hc
  · exact (free_stripe (hfree hwaiting) hj hc).symm

theorem Sound.move {s : State} (h : Sound s) {i : Nat} {call : Call}
    {stage : Stage} (hi : s.calls[i]? = some call)
    (hmoves : Moves s.db call.request call.stage stage)
    (hfree : call.stage = Stage.waiting ->
      s.calls.any (holdsStripe (stripe call.request.scope)) = false) :
    Sound (s.setStage i call stage) := by
  have hwrote : forall {j : Nat} {c : Call} {card : Card},
      (s.setStage i call stage).calls[j]? = some c -> c.wrote card ->
      exists c' : Call, s.calls[j]? = some c' ∧ c'.wrote card ∧
        c'.request = c.request := by
    intro j c card hj hcard
    rcases getElem?_setStage hi hj with ⟨rfl, rfl⟩ | ⟨_, hold⟩
    · exact ⟨call, hi, hmoves.written hcard, rfl⟩
    · exact ⟨c, hold, hcard, rfl⟩
  constructor
  · exact h.versioned
  · exact exclusive_move h.exclusive hi hmoves hfree
  · intro j request latest hj
    rcases getElem?_setStage hi hj with ⟨rfl, heq⟩ | ⟨_, hold⟩
    · cases heq
      have hread := hmoves.checked
      have hhead := h.versioned.head call.request.scope
      rw [hread] at hhead
      exact (Except.ok.inj hhead).symm
    · exact h.checked j request latest hold
  · intro j c card hj hcard
    obtain ⟨c', hold, hcard', hrequest⟩ := hwrote hj hcard
    rw [← hrequest]
    exact h.written j c' card hold hcard'
  · intro j k c c' card card' hjk hj hk hcard hcard'
    obtain ⟨d, hold, hd, _⟩ := hwrote hj hcard
    obtain ⟨d', hold', hd', _⟩ := hwrote hk hcard'
    exact h.once j k d d' card card' hjk hold hold' hd hd'
  · intro card hcard
    obtain ⟨j, c, hj, hwrote⟩ := h.origin card hcard
    by_cases hji : j = i
    · subst hji
      rw [hi] at hj
      cases hj
      exact ⟨j, _, getElem?_setStage_self stage hi, hmoves.result hwrote⟩
    · exact ⟨j, c, (getElem?_setStage_ne call stage hji).trans hj, hwrote⟩

theorem Sound.write [LawfulUuidText] {s : State} (h : Sound s) {i latest : Nat}
    {request : PutCard} (now : Timestamp)
    (hi : s.calls[i]? = some ⟨request, Stage.checked latest⟩)
    (hexpected : latest = request.expectedVersion)
    (hbound : latest + 1 < 2 ^ 64) :
    Sound { (s.setStage i ⟨request, Stage.checked latest⟩
        (Stage.finished
          (Except.ok (CardWrite.written (request.card latest now))))) with
      db := writeCard s.db (request.card latest now) } := by
  have hlatest : latestOf s.db request.scope = latest :=
    h.checked i request latest hi
  have hnext : (request.card latest now).version =
      latestOf s.db (request.card latest now).scope + 1 :=
    congrArg (· + 1) hlatest.symm
  have hstored := writeCard_stored h.versioned hnext
  have hcases : forall {j : Nat} {c : Call},
      (s.setStage i ⟨request, Stage.checked latest⟩
        (Stage.finished
          (Except.ok (CardWrite.written (request.card latest now))))).calls[j]? =
        some c ->
      j = i ∧ c = ⟨request, Stage.finished
          (Except.ok (CardWrite.written (request.card latest now)))⟩ ∨
        j ≠ i ∧ s.calls[j]? = some c :=
    fun hj => getElem?_setStage hi hj
  -- the versions written before are at most the head
  have holder : forall {j : Nat} {c : Call} {card : Card}, s.calls[j]? = some c -> c.wrote card ->
      card.scope = request.scope -> card.version ≠ latest + 1 := by
    intro j c card hj hcard hscope
    have hto := (h.versioned.of_stored (h.written j c card hj hcard).1).2
    rw [hscope, hlatest] at hto
    omega
  constructor
  · exact h.versioned.write hnext hbound
  · exact exclusive_setStage (s := s) h.exclusive hi
      (fun j c hji hj hc _ => h.exclusive i j _ c (Ne.symm hji) hi hj rfl hc)
  · intro j request' latest' hj
    rcases hcases hj with ⟨rfl, heq⟩ | ⟨hji, hold⟩
    · cases heq
    · have hapart := h.exclusive j i _ _ hji hold hi rfl rfl
      rw [writeCard_latestOf, if_neg]
      · exact h.checked j request' latest' hold
      · intro hscope
        exact hapart (congrArg stripe hscope)
  · intro j c card hj hcard
    rcases hcases hj with ⟨rfl, rfl⟩ | ⟨_, hold⟩
    · have heq : request.card latest now = card := by
        cases hcard
        rfl
      refine ⟨(hstored card).mpr (Or.inl heq.symm), now, ?_⟩
      rw [← heq, hexpected]
    · obtain ⟨hcard', hmade⟩ := h.written j c card hold hcard
      exact ⟨(hstored card).mpr (Or.inr hcard'), hmade⟩
  · intro j k c c' card card' hjk hj hk hcard hcard' hscope
    rcases hcases hj with ⟨rfl, rfl⟩ | ⟨_, hold⟩
    · rcases hcases hk with ⟨rfl, rfl⟩ | ⟨_, hold'⟩
      · exact absurd rfl hjk
      · cases hcard
        exact (holder hold' hcard' hscope.symm).symm
    · rcases hcases hk with ⟨rfl, rfl⟩ | ⟨_, hold'⟩
      · cases hcard'
        exact holder hold hcard hscope
      · exact h.once j k c c' card card' hjk hold hold' hcard hcard' hscope
  · intro card hcard
    rcases (hstored card).mp hcard with rfl | hold
    · exact ⟨i, _, getElem?_setStage_self _ hi, rfl⟩
    · obtain ⟨j, c, hj, hwrote⟩ := h.origin card hold
      have hji : j ≠ i := by
        rintro rfl
        rw [hi] at hj
        cases hj
        cases hwrote
      exact ⟨j, c, (getElem?_setStage_ne _ _ hji).trans hj, hwrote⟩

variable {s' : State} {a : Action}

theorem step_sound [LawfulUuidText] (h : Sound s) (hstep : step s a = some s') :
    Sound s' := by
  cases step_cases hstep with
  | call => exact h.call _
  | move _ hi hmoves hfree => exact h.move hi hmoves hfree
  | write hi hexpected hbound => exact h.write _ hi hexpected hbound

theorem reachable_sound [LawfulUuidText] (hstart : NoCards start)
    (h : (cards start).Reachable System.Anything s) :
    Sound s :=
  h.invariant (sound_init hstart)
    (fun _ _ _ hold _ hstep => step_sound hold hstep)

/-!
# What stays
-/

variable {r : Except String CardWrite}

theorem step_result (hstep : step s a = some s') (hi : s.calls[i]? = some c)
    (hr : c.stage.result = some r) :
    exists c', s'.calls[i]? = some c' ∧ c'.stage.result = some r := by
  cases step_cases hstep with
  | call => exact ⟨c, getElem?_snoc_old hi, hr⟩
  | @move _ i' call stage _ hi' hmoves _ =>
      by_cases hii : i = i'
      · subst hii
        rw [hi'] at hi
        cases hi
        exact ⟨_, getElem?_setStage_self stage hi', hmoves.result hr⟩
      · exact ⟨c, (getElem?_setStage_ne call stage hii).trans hi, hr⟩
  | @write i' latest request now hi' _ _ =>
      by_cases hii : i = i'
      · subst hii
        rw [hi'] at hi
        cases hi
        cases hr
      · exact ⟨c, (getElem?_setStage_ne _ _ hii).trans hi, hr⟩

variable {t : State}

theorem steps_result (hrun : (cards start).Steps System.Anything s t)
    (hi : s.calls[i]? = some c) (hr : c.stage.result = some r) :
    exists c', t.calls[i]? = some c' ∧ c'.stage.result = some r := by
  refine hrun.invariant (P := fun t : State => exists c' : Call,
    t.calls[i]? = some c' ∧ c'.stage.result = some r) ⟨c, hi, hr⟩ ?_
  rintro t a t' _ ⟨c', hi', hr'⟩ _ hstep
  exact step_result hstep hi' hr'

theorem step_db (hstep : step s a = some s') (ha : a.caller = some i) :
    s'.db = s.db ∨
      exists c card, s'.calls[i]? = some c ∧ c.wrote card ∧
        s'.db = writeCard s.db card := by
  cases step_cases hstep with
  | call | move => exact Or.inl rfl
  | write hi _ _ =>
      cases ha
      exact Or.inr ⟨_, _, getElem?_setStage_self _ hi, rfl, rfl⟩

theorem failing_step (hstep : step s a = some s') (ha : a.caller = some i)
    (hrun : (cards start).Steps System.Anything s' t) (hi : t.calls[i]? = some c)
    (hr : c.stage.result = some r)
    (hfailed : forall card, r ≠ Except.ok (CardWrite.written card)) :
    s'.db = s.db := by
  rcases step_db hstep ha with hsame | ⟨c', card, hi', hwrote, _⟩
  · exact hsame
  · obtain ⟨d, hd, hresult⟩ := steps_result hrun hi' hwrote
    rw [hi] at hd
    cases hd
    rw [hr] at hresult
    exact absurd (Option.some.inj hresult) (hfailed card)

variable [LawfulUuidText]

theorem step_stored (h : Sound s) (hstep : step s a = some s') {card : Card}
    (hcard : Stored s.db card) :
    Stored s'.db card := by
  cases step_cases hstep with
  | call | move => exact hcard
  | @write i latest request now hi _ _ =>
      have hnext : (request.card latest now).version =
          latestOf s.db (request.card latest now).scope + 1 :=
        congrArg (· + 1) (h.checked i request latest hi).symm
      exact (writeCard_stored h.versioned hnext card).mpr (Or.inr hcard)

theorem steps_stored (h : Sound s) (hrun : (cards start).Steps System.Anything s t)
    {card : Card} (hcard : Stored s.db card) :
    Stored t.db card := by
  have hboth : Sound t ∧ Stored t.db card := by
    refine hrun.invariant (P := fun t : State => Sound t ∧ Stored t.db card)
      ⟨h, hcard⟩ ?_
    rintro t a t' _ ⟨hsound, hstored⟩ _ hstep
    exact ⟨step_sound hsound hstep, step_stored hsound hstep hstored⟩
  exact hboth.2

/-!
# History
-/

def cardRow (card : Card) : String × CardRecord :=
  (cardKey card.scope card.version, CardRecord.card card)

omit [LawfulUuidText] in
theorem cardRow_inj {card card' : Card} (h : cardRow card = cardRow card') :
    card = card' :=
  CardRecord.card.inj (Prod.ext_iff.mp h).2

theorem Versioned.row_iff (h : Versioned db) (scope : CardScope)
    {e : String × CardRecord} :
    e ∈ db.toList.filter (fun e => hasPrefix (cardPrefix scope) e.1) ↔
      exists card, e = cardRow card ∧ Stored db card ∧ card.scope = scope := by
  have hmem : e ∈ db.toList ↔ db[e.1]? = some e.2 :=
    Std.ExtTreeMap.mem_toList_iff_getElem?_eq_some
  rw [List.mem_filter, hmem]
  constructor
  · rintro ⟨hrow, hbegins⟩
    obtain ⟨card, hvalue, hkey, _⟩ :=
      h.only e.1 e.2 (cardPrefix_card hbegins) hrow
    have hstored : Stored db card := by
      rw [Stored, ← hkey, ← hvalue]
      exact hrow
    have hbegins' : hasPrefix (cardPrefix scope)
        (cardKey card.scope card.version) = true := by
      rw [← hkey]
      exact hbegins
    exact ⟨card, Prod.ext hkey hvalue, hstored,
      (scope_of_hasPrefix hbegins').symm⟩
  · rintro ⟨card, rfl, hstored, rfl⟩
    exact ⟨hstored, cardKey_hasPrefix _ _⟩

theorem Versioned.rows (h : Versioned db) (scope : CardScope) :
    exists stored : List Card,
      db.toList.filter (fun e => hasPrefix (cardPrefix scope) e.1) =
        stored.map cardRow ∧
      stored.map Card.version = List.range' 1 (latestOf db scope) ∧
      forall card, card ∈ stored -> Stored db card ∧ card.scope = scope := by
  obtain ⟨stored, _, hrows⟩ := Database.mapM_rows
    (fun e : String × CardRecord => decodeCard e.2) cardRow (fun _ => rfl)
    (fun e he => ((h.row_iff scope).mp he).imp fun _ hcard => hcard.1)
  have hmem : forall card, card ∈ stored ↔
      Stored db card ∧ card.scope = scope := by
    intro card
    constructor
    · intro hcard
      have hrow := List.mem_map_of_mem (f := cardRow) hcard
      rw [← hrows, h.row_iff] at hrow
      obtain ⟨card', heq, hcard'⟩ := hrow
      rw [cardRow_inj heq]
      exact hcard'
    · intro hcard
      have hrow := (h.row_iff scope).mpr ⟨card, rfl, hcard⟩
      rw [hrows, List.mem_map] at hrow
      obtain ⟨card', hcard', heq⟩ := hrow
      rw [← cardRow_inj heq]
      exact hcard'
  refine ⟨stored, hrows, ?_, fun card => (hmem card).mp⟩
  have hordered := (Std.ExtTreeMap.ordered_keys_toList (t := db)).filter
    (fun e => hasPrefix (cardPrefix scope) e.1)
  rw [hrows] at hordered
  have hsorted : (stored.map Card.version).Pairwise (· < ·) := by
    refine List.pairwise_map.mpr ?_
    refine (List.pairwise_map.mp hordered).imp_of_mem ?_
    intro card card' hcard hcard' hlt
    obtain ⟨hstored, hscope⟩ := (hmem card).mp hcard
    obtain ⟨hstored', hscope'⟩ := (hmem card').mp hcard'
    have hkeys : compare (cardKey card.scope card.version)
        (cardKey card'.scope card'.version) = Ordering.lt := hlt
    have hto := (h.of_stored hstored).2
    have hto' := (h.of_stored hstored').2
    have hbound := h.bound card.scope
    have hbound' := h.bound card'.scope
    rw [hscope, hscope'] at hkeys
    exact (compare_padded (by omega) (by omega)).mp hkeys
  refine hsorted.eq_of_mem_iff List.pairwise_lt_range' ?_
  intro n
  rw [List.mem_map, List.mem_range'_1]
  constructor
  · rintro ⟨card, hcard, rfl⟩
    obtain ⟨hstored, rfl⟩ := (hmem card).mp hcard
    have hbounds := h.of_stored hstored
    omega
  · rintro ⟨hfrom, hto⟩
    obtain ⟨card, hstored, hscope, hversion⟩ :=
      h.stored scope n hfrom (by omega)
    exact ⟨card, (hmem card).mpr ⟨hstored, hscope⟩, hversion⟩

theorem Versioned.history (h : Versioned db) (scope : CardScope) (limit : Nat) :
    exists listed, cardHistory db scope limit = Except.ok listed ∧
      listed.map Card.version =
        (List.range' 1 (latestOf db scope)).reverse.take limit ∧
      forall card, card ∈ listed -> Stored db card ∧ card.scope = scope := by
  obtain ⟨stored, hrows, hversions, hstored⟩ := h.rows scope
  refine ⟨stored.reverse.take limit, ?_, ?_, ?_⟩
  · rw [cardHistory, hrows, ← List.map_reverse, ← List.map_take]
    generalize stored.reverse.take limit = listed
    induction listed with
    | nil =>
        rfl
    | cons card rest ih =>
        rw [List.map_cons, List.mapM_cons, ih]
        rfl
  · rw [List.map_take, List.map_reverse, hversions]
  · intro card hcard
    exact hstored card (List.mem_reverse.mp (List.mem_of_mem_take hcard))

/-!
# Runs
-/

/-- Any number of `put_card` calls in any order: the stored versions of a card
are those from 1 to its head, none is overwritten, at most one call succeeds
for each expected version, no step of a failing call changes the store, and the
history is the stored versions, newest first. -/
theorem put_card_versions {start : CardDb} (hstart : NoCards start)
    {s : State} (h : (cards start).Reachable System.Anything s) :
    (forall scope, head s.db scope = Except.ok (latestOf s.db scope)) ∧
    (forall scope n,
      (exists card, Stored s.db card ∧ card.scope = scope ∧
          card.version = n) ↔
        1 ≤ n ∧ n ≤ latestOf s.db scope) ∧
    (forall t, (cards start).Steps System.Anything s t ->
      forall card, Stored s.db card -> Stored t.db card) ∧
    (forall (i j : Nat) (c c' : Call) (card card' : Card),
      s.calls[i]? = some c ->
      s.calls[j]? = some c' -> c.wrote card -> c'.wrote card' ->
      c.request.scope = c'.request.scope ->
      c.request.expectedVersion = c'.request.expectedVersion -> i = j) ∧
    (forall a s' (t : State) (i : Nat) (c : Call) r, step s a = some s' -> a.caller = some i ->
      (cards start).Steps System.Anything s' t -> t.calls[i]? = some c ->
      c.stage.result = some r ->
      (forall card, r ≠ Except.ok (CardWrite.written card)) ->
      s'.db = s.db) ∧
    (forall scope limit, exists listed,
      cardHistory s.db scope limit = Except.ok listed ∧
      listed.map Card.version =
        (List.range' 1 (latestOf s.db scope)).reverse.take limit ∧
      forall card, card ∈ listed -> Stored s.db card ∧ card.scope = scope) := by
  have hsound := reachable_sound hstart h
  refine ⟨hsound.versioned.head, hsound.versioned.versions, ?_, ?_, ?_,
    hsound.versioned.history⟩
  · intro t hrun card hcard
    exact steps_stored hsound hrun hcard
  · intro i j c c' card card' hi hj hcard hcard' hscope hversion
    by_contra hij
    obtain ⟨_, now, hmade⟩ := hsound.written i c card hi hcard
    obtain ⟨_, now', hmade'⟩ := hsound.written j c' card' hj hcard'
    have hne := hsound.once i j c c' card card' hij hi hj hcard hcard'
    rw [hmade, hmade', PutCard.card, PutCard.card, hversion] at hne
    exact hne hscope rfl
  · intro a s' t i c r hstep ha hrun hi hr hfailed
    exact failing_step hstep ha hrun hi hr hfailed

end

attribute [local instance] hyphenatedText

theorem noCards_empty : NoCards ∅ := by
  intro k _
  exact Std.ExtTreeMap.getElem?_empty

def versionsOf (history : Except String (List Card)) : Except String (List Nat) :=
  history.map (fun cards => cards.map Card.version)

/-- Two calls expect version 1 and the second to take the lock finds version 2;
a third fails on its batch. -/
theorem put_card_versions_raced :
    exists s : State,
      (cards ∅).Reachable System.Anything s ∧
      versionsOf (cardHistory s.db CardScope.user 10) = Except.ok [2, 1] ∧
      exists listed, cardHistory s.db CardScope.user 10 = Except.ok listed ∧
        listed.map Card.version =
          (List.range' 1 (latestOf s.db CardScope.user)).reverse.take 10 ∧
        forall card, card ∈ listed ->
          Stored s.db card ∧ card.scope = CardScope.user := by
  have := lawful_hyphenatedText
  obtain ⟨s, -, hreach, hversions⟩ := (cards ∅).replay_reaches System.Anything
    [Action.call ⟨CardScope.user, "v1", none, 0⟩,
      Action.lock 0, Action.readHead 0, Action.write 0 10, Action.unlock 0,
      Action.call ⟨CardScope.user, "a", none, 1⟩,
      Action.call ⟨CardScope.user, "b", none, 1⟩,
      Action.lock 2, Action.readHead 2, Action.write 2 11, Action.unlock 2,
      Action.lock 1, Action.readHead 1, Action.loadLatest 1, Action.unlock 1,
      Action.call ⟨CardScope.user, "c", none, 2⟩,
      Action.lock 3, Action.readHead 3, Action.fail 3 "io"]
    (fun s => versionsOf (cardHistory s.db CardScope.user 10) = Except.ok [2, 1])
    (by decide +kernel)
  obtain ⟨_, _, _, _, _, hhistory⟩ := put_card_versions noCards_empty hreach
  exact ⟨s, hreach, hversions, hhistory CardScope.user 10⟩

end Cards
end Storage
end PostCortex

import PostCortex.Storage.Cards
import PostCortex.Storage.MessageTables

/-!
# Cards in a table

`surrealdb_storage/cards.rs`: a row for each version of a card, keyed by scope and
version, which stand in it as what they print.  Any number of `put_card` calls run at
once and no lock is taken: a call reads the latest card, creates the next version,
which fails on a row that exists, and then reads the latest card again.  A query may
fail, and the answer to a create may be lost after the row was stored.  A version is an
`i64` in a row: a call that would write past the last one is no step.
-/

namespace PostCortex
namespace Storage
namespace CardTables

open PostCortex.Core
open KeyValue
open Cards
open Transition

abbrev CardRows : Type :=
  Database String Card

section

variable [UuidText]

def rowId (card : Card) : String :=
  card.scope.key ++ ("_" ++ toString card.version)

def latestCards (rows : CardRows) (scope : CardScope) (limit : Nat) : List Card :=
  (((rows.toList.map Prod.snd).filter (fun card => card.scope = scope)).insertionSort
    (fun c d => d.version ≤ c.version)).take limit

def getCard (rows : CardRows) (scope : CardScope) : Option Card :=
  (latestCards rows scope 1).head?

def latest (rows : CardRows) (scope : CardScope) : Nat :=
  ((getCard rows scope).map Card.version).getD 0

end

/-!
# Calls
-/

inductive Stage where
  | waiting
  | checked
  | refused
  | finished (result : Except String CardWrite)

structure Call where
  request : PutCard
  stage : Stage

/-- `log` lists the rows ever created, with the calls that created them. -/
structure State where
  rows : CardRows
  calls : List Call
  log : List (Nat × Card)

inductive Query where
  | read
  | create (now : Timestamp) (answered : Bool)
  | refuse
  | reread
  | fail (error : String)

/-- Calls are numbered in the order they arrive. -/
inductive Action where
  | call (request : PutCard)
  | query (i : Nat) (q : Query)

section

variable [UuidText]

/-- `put_card`, one query of one call.  A create that is refused has met the row of
another writer or an error that reads like one. -/
def advance (rows : CardRows) (request : PutCard) :
    Stage -> Query -> Option ((CardRows × Option Card) × Stage)
  | Stage.finished _, _ => none
  | _, Query.fail error => some ((rows, none), Stage.finished (Except.error error))
  | Stage.waiting, Query.read =>
      if latest rows request.scope = request.expectedVersion then
        some ((rows, none), Stage.checked)
      else
        some ((rows, none), Stage.finished
          (Except.ok (CardWrite.conflict (getCard rows request.scope))))
  | Stage.checked, Query.create now answered =>
      let card := request.card request.expectedVersion now
      if rows[rowId card]? = none ∧ card.version < i64Values then
        some ((rows.insert (rowId card) card, some card), Stage.finished
          (if answered then Except.ok (CardWrite.written card)
          else Except.error "connection lost"))
      else none
  | Stage.checked, Query.refuse => some ((rows, none), Stage.refused)
  | Stage.refused, Query.reread =>
      some ((rows, none), Stage.finished
        (Except.ok (CardWrite.conflict (getCard rows request.scope))))
  | _, _ => none

def step (s : State) : Action -> Option State
  | Action.call request =>
      some { s with calls := s.calls ++ [⟨request, Stage.waiting⟩] }
  | Action.query i q => do
      let c ← s.calls[i]?
      let moved ← advance s.rows c.request c.stage q
      some ⟨moved.1.1, s.calls.set i ⟨c.request, moved.2⟩,
        s.log ++ moved.1.2.toList.map (fun card => (i, card))⟩

def cards : System State Action where
  init := ⟨∅, [], []⟩
  step := step

def written (request : PutCard) (now : Timestamp) : Card :=
  request.card request.expectedVersion now

/-- A query leaves the rows and succeeds with nothing, or it creates a row that was not
there. -/
theorem advance_cases {rows rows' : CardRows} {request : PutCard} {stage stage' : Stage}
    {q : Query} {created : Option Card}
    (h : advance rows request stage q = some ((rows', created), stage')) :
    (rows' = rows ∧ created = none ∧
        (stage' = Stage.checked -> latest rows request.scope = request.expectedVersion) ∧
        forall card, stage' ≠ Stage.finished (Except.ok (CardWrite.written card))) ∨
      exists now, stage = Stage.checked ∧ stage' ≠ Stage.checked ∧
        rows[rowId (written request now)]? = none ∧
        rows' = rows.insert (rowId (written request now)) (written request now) ∧
        created = some (written request now) ∧
        forall card, stage' = Stage.finished (Except.ok (CardWrite.written card)) ->
          card = written request now := by
  unfold advance at h
  split at h
  · cases h
  · cases h
    exact Or.inl ⟨rfl, rfl, nofun, nofun⟩
  · left
    split at h
    · next hsame =>
      cases h
      exact ⟨rfl, rfl, fun _ => hsame, nofun⟩
    · cases h
      exact ⟨rfl, rfl, nofun, nofun⟩
  · next now answered =>
    refine Or.inr ⟨now, rfl, ?_⟩
    dsimp only at h
    split at h
    · next hfree =>
      cases h
      refine ⟨nofun, hfree.1, rfl, rfl, ?_⟩
      intro card hcard
      cases answered with
      | true =>
          cases hcard
          rfl
      | false => cases hcard
    · cases h
  · cases h
    exact Or.inl ⟨rfl, rfl, nofun, nofun⟩
  · cases h
    exact Or.inl ⟨rfl, rfl, nofun, nofun⟩
  · cases h

/-!
# Rows
-/

def Stored (rows : CardRows) (card : Card) : Prop :=
  rows[rowId card]? = some card

def Holds (rows : CardRows) (scope : CardScope) (version : Nat) : Prop :=
  exists card, Stored rows card ∧ card.scope = scope ∧ card.version = version

/-- The versions of each card start at 1 and leave none out. -/
structure Versioned (rows : CardRows) : Prop where
  keyed : Keyed rowId rows
  heads : forall scope, exists head, forall n, Holds rows scope n ↔ 1 ≤ n ∧ n ≤ head

variable {rows : CardRows}

theorem rowId_congr {c d : Card} (hscope : c.scope = d.scope) (hversion : c.version = d.version) :
    rowId c = rowId d := by
  rw [rowId, rowId, hscope, hversion]

theorem Versioned.sorted (h : Versioned rows) (scope : CardScope) :
    exists head, (forall n, Holds rows scope n ↔ 1 ≤ n ∧ n ≤ head) ∧
      forall limit, (latestCards rows scope limit).map Card.version =
        (List.range' 1 head).reverse.take limit := by
  rcases h.heads scope with ⟨head, hhead⟩
  refine ⟨head, hhead, fun limit => ?_⟩
  have hholds : forall n, Holds rows scope n ↔ n ∈
      ((rows.toList.map Prod.snd).filter (fun card => card.scope = scope)).map Card.version := by
    intro n
    simp only [Holds, Stored, List.mem_map (f := Card.version), List.mem_filter,
      decide_eq_true_eq, h.keyed.mem_rows, and_assoc]
  have hordered := h.keyed.sorted (p := fun card => card.scope = scope)
    (g := fun card => OrderDual.toDual card.version)
    (fun c d hc hd hversion => rowId_congr (hc.trans hd.symm) hversion)
  rw [latestCards, List.map_take]
  refine congrArg (List.take limit) (List.reverse_eq_iff.mp ?_)
  refine (List.pairwise_reverse.mpr (List.pairwise_map.mpr hordered)).eq_of_mem_iff
    List.pairwise_lt_range' ?_
  intro n
  rw [List.mem_reverse, ((List.perm_insertionSort _ _).map Card.version).mem_iff, ← hholds,
    hhead, List.mem_range'_1]
  omega

theorem Versioned.latest_spec (h : Versioned rows) (scope : CardScope) :
    (forall n, Holds rows scope n ↔ 1 ≤ n ∧ n ≤ latest rows scope) ∧
      forall limit, (latestCards rows scope limit).map Card.version =
        (List.range' 1 (latest rows scope)).reverse.take limit := by
  rcases h.sorted scope with ⟨head, hholds, hlisted⟩
  have hlatest : latest rows scope = head := by
    rw [latest, getCard, ← List.head?_map, hlisted]
    cases head with
    | zero => rfl
    | succ head =>
        rw [List.range'_1_concat, List.reverse_append]
        exact Nat.add_comm 1 head
  rw [hlatest]
  exact And.intro hholds hlisted

variable {card : Card}

theorem Versioned.create (h : Versioned rows) (hfree : rows[rowId card]? = none)
    (hversion : 1 ≤ card.version)
    (hbefore : forall n, 1 ≤ n -> n < card.version -> Holds rows card.scope n) :
    Versioned (rows.insert (rowId card) card) := by
  have hholds : forall scope n, Holds (rows.insert (rowId card) card) scope n ↔
      Holds rows scope n ∨ card.scope = scope ∧ card.version = n := by
    intro scope n
    simp only [Holds, Stored, Keyed.get_insert hfree, or_and_right, exists_or,
      exists_eq_left]
  refine ⟨h.keyed.insert card, fun scope => ?_⟩
  rcases h.heads scope with ⟨head, hhead⟩
  by_cases hscope : card.scope = scope
  · cases hscope
    have hnew : ¬ Holds rows card.scope card.version := by
      rintro ⟨c, hc, hends⟩
      rw [Stored, rowId_congr hends.1 hends.2, hfree] at hc
      cases hc
    refine ⟨card.version, fun n => ?_⟩
    have hbelow := hbefore n
    rw [hhead] at hnew hbelow
    rw [hholds, hhead, and_iff_right rfl]
    omega
  · refine ⟨head, fun n => ?_⟩
    rw [hholds, hhead]
    exact or_iff_left (fun hn => hscope hn.1)

/-!
# Runs
-/

def Call.wrote (c : Call) (card : Card) : Prop :=
  c.stage = Stage.finished (Except.ok (CardWrite.written card))

/-- A call about to create a version has seen all versions before it. -/
def Call.Ready (rows : CardRows) (c : Call) : Prop :=
  c.stage = Stage.checked ->
    forall n, 1 ≤ n -> n ≤ c.request.expectedVersion -> Holds rows c.request.scope n

def Call.Logged (log : List (Nat × Card)) (i : Nat) (c : Call) : Prop :=
  forall card, c.wrote card -> (i, card) ∈ log ∧ exists now, card = written c.request now

structure Sound (s : State) : Prop where
  versioned : Versioned s.rows
  ready : forall (i : Nat) (c : Call), s.calls[i]? = some c -> c.Ready s.rows
  wrote : forall (i : Nat) (c : Call), s.calls[i]? = some c -> c.Logged s.log i
  logged : forall e, e ∈ s.log -> Stored s.rows e.2
  once : (s.log.map (fun e => rowId e.2)).Nodup

variable {s s' : State} {a : Action}

theorem Sound.call (h : Sound s) (request : PutCard) :
    Sound { s with calls := s.calls ++ [⟨request, Stage.waiting⟩] } := by
  refine ⟨h.versioned, forall_getElem?_snoc ?_ h.ready, forall_getElem?_snoc ?_ h.wrote,
    h.logged, h.once⟩
  · intro hwaiting
    cases hwaiting
  · intro card hwrote
    cases hwrote

theorem Sound.move (h : Sound s) {i : Nat} {c : Call} {stage : Stage}
    (hi : s.calls[i]? = some c)
    (hchecked : stage = Stage.checked -> latest s.rows c.request.scope = c.request.expectedVersion)
    (hwrote : forall card, stage ≠ Stage.finished (Except.ok (CardWrite.written card))) :
    Sound { s with calls := s.calls.set i ⟨c.request, stage⟩ } := by
  refine ⟨h.versioned, forall_getElem?_set hi ?_ (fun j d _ hj => h.ready j d hj),
    forall_getElem?_set hi ?_ (fun j d _ hj => h.wrote j d hj), h.logged, h.once⟩
  · intro hstage n hfrom hto
    change n ≤ c.request.expectedVersion at hto
    rw [← hchecked hstage] at hto
    exact ((h.versioned.latest_spec _).1 n).mpr ⟨hfrom, hto⟩
  · intro card hcard
    exact absurd hcard (hwrote card)

theorem Sound.create (h : Sound s) {i : Nat} {request : PutCard} {stage : Stage}
    {now : Timestamp} (hi : s.calls[i]? = some ⟨request, Stage.checked⟩)
    (hstage : stage ≠ Stage.checked) (hfree : s.rows[rowId (written request now)]? = none)
    (hwrote : forall card, stage = Stage.finished (Except.ok (CardWrite.written card)) ->
      card = written request now) :
    Sound ⟨s.rows.insert (rowId (written request now)) (written request now),
      s.calls.set i ⟨request, stage⟩, s.log ++ [(i, written request now)]⟩ := by
  have hbefore := h.ready i _ hi rfl
  constructor
  · exact h.versioned.create hfree (Nat.le_add_left 1 _)
      (fun n hfrom hto => hbefore n hfrom (Nat.le_of_lt_succ hto))
  · refine forall_getElem?_set hi (fun heq => absurd heq hstage) ?_
    intro j d _ hj hd n hfrom hto
    rcases h.ready j d hj hd n hfrom hto with ⟨card, hcard, hends⟩
    exact ⟨card, (Keyed.get_insert hfree).mpr (Or.inl hcard), hends⟩
  · refine forall_getElem?_set hi ?_ ?_
    · intro card hcard
      rw [hwrote card hcard]
      exact ⟨List.mem_append_right _ List.mem_cons_self, now, rfl⟩
    · intro j d _ hj card hcard
      exact (h.wrote j d hj card hcard).imp (List.mem_append_left _) id
  · intro e he
    apply (Keyed.get_insert hfree).mpr
    rcases List.mem_append.mp he with hold | hnew
    · exact Or.inl (h.logged e hold)
    · rw [List.mem_singleton.mp hnew]
      exact Or.inr rfl
  · rw [List.map_append, List.nodup_append]
    refine ⟨h.once, List.nodup_singleton _, ?_⟩
    intro k hk k' hk' heq
    rcases List.mem_map.mp hk with ⟨e, he, rfl⟩
    have hrow := h.logged e he
    rw [Stored, heq, List.mem_singleton.mp hk', hfree] at hrow
    cases hrow

theorem step_sound (h : Sound s) (hstep : cards.step s a = some s') :
    Sound s' ∧ forall card, Stored s.rows card -> Stored s'.rows card := by
  cases a with
  | call request =>
      cases hstep
      exact ⟨h.call request, fun _ => id⟩
  | query i q =>
      rcases Option.bind_eq_some_iff.mp hstep with ⟨⟨request, stage⟩, hi, hstep⟩
      rcases Option.bind_eq_some_iff.mp hstep with ⟨⟨⟨rows', created⟩, stage'⟩, hmoved, hstep⟩
      cases hstep
      rcases advance_cases hmoved with ⟨rfl, rfl, hchecked, hwrote⟩ |
        ⟨now, rfl, hstage, hfree, rfl, rfl, hwrote⟩
      · refine ⟨?_, fun _ => id⟩
        have hmove := h.move hi hchecked hwrote
        rwa [← List.append_nil s.log] at hmove
      · exact ⟨h.create hi hstage hfree hwrote,
          fun card hcard => (Keyed.get_insert hfree).mpr (Or.inl hcard)⟩

theorem reachable_sound (h : cards.Reachable System.Anything s) : Sound s := by
  refine h.invariant ?_ (fun _ _ _ hold _ hstep => (step_sound hold hstep).1)
  refine ⟨⟨?_, fun scope => ⟨0, fun n => ?_⟩⟩, nofun, nofun, nofun, List.nodup_nil⟩
  · intro k card hrow
    simp [cards] at hrow
  · simp [cards, Holds, Stored]
    omega

/-- Any number of `put_card` calls without a lock, in any order: the stored versions of a
card are those from 1 to the latest, no row is overwritten, a call that succeeds has
stored the version after the one that it expects, at most one call succeeds for each
expected version, and the history is the stored versions, newest first. -/
theorem put_card_rows (h : cards.Reachable System.Anything s) :
    (forall scope n, Holds s.rows scope n ↔ 1 ≤ n ∧ n ≤ latest s.rows scope) ∧
    (forall t, cards.Steps System.Anything s t ->
      forall card, Stored s.rows card -> Stored t.rows card) ∧
    (forall (i : Nat) c card, s.calls[i]? = some c -> Call.wrote c card ->
      Stored s.rows card ∧ exists now, card = written c.request now) ∧
    (forall (i j : Nat) c d card card', s.calls[i]? = some c -> s.calls[j]? = some d ->
      Call.wrote c card -> Call.wrote d card' -> c.request.scope = d.request.scope ->
      c.request.expectedVersion = d.request.expectedVersion -> i = j) ∧
    forall scope limit, (latestCards s.rows scope limit).map Card.version =
      (List.range' 1 (latest s.rows scope)).reverse.take limit := by
  have hsound := reachable_sound h
  refine ⟨fun scope => (hsound.versioned.latest_spec scope).1, ?_, ?_, ?_,
    fun scope => (hsound.versioned.latest_spec scope).2⟩
  · intro t hrun card hcard
    refine (hrun.invariant (P := fun t => Sound t ∧ Stored t.rows card) ⟨hsound, hcard⟩ ?_).2
    intro t a t' _ hold _ hstep
    exact (step_sound hold.1 hstep).imp id (fun hkept => hkept card hold.2)
  · intro i c card hi hc
    exact (hsound.wrote i c hi card hc).imp (hsound.logged _) id
  · intro i j c d card card' hi hj hc hd hscope hversion
    rcases hsound.wrote i c hi card hc with ⟨hlogged, now, rfl⟩
    rcases hsound.wrote j d hj card' hd with ⟨hlogged', now', rfl⟩
    have hid := rowId_congr (c := written c.request now) (d := written d.request now') hscope
      (congrArg (· + 1) hversion)
    exact congrArg Prod.fst (List.inj_on_of_nodup_map hsound.once hlogged hlogged' hid)

end

attribute [local instance] hyphenatedText

/-- Two calls read version 0; the second is refused and finds the row of the first. -/
theorem put_card_rows_raced :
    exists s, cards.Reachable System.Anything s ∧ s.rows.size = 1 ∧
      (Holds s.rows CardScope.user 1 ↔ 1 ≤ 1 ∧ 1 ≤ latest s.rows CardScope.user) := by
  rcases cards.replay_reaches System.Anything
    [Action.call ⟨CardScope.user, "a", none, 0⟩, Action.call ⟨CardScope.user, "b", none, 0⟩,
      Action.query 0 Query.read, Action.query 1 Query.read,
      Action.query 1 (Query.create 5 true), Action.query 0 Query.refuse,
      Action.query 0 Query.reread]
    (fun s => s.rows.size = 1) (by decide +kernel) with ⟨s, -, hreach, hsize⟩
  exact ⟨s, hreach, hsize, (put_card_rows hreach).1 CardScope.user 1⟩

end CardTables
end Storage
end PostCortex

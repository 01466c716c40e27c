import PostCortex.KeyValue.Keyed
import PostCortex.Storage.MessageLog
import PostCortex.Storage.MessageStreams
import Std.Data.String.ToNat

/-!
# The message stream in tables

`surrealdb_storage/messages.rs` beside `rocksdb_storage/messages.rs`.  A row of `message`
is keyed by session and position and is unique on session and turn; `message_next` has
the next position of a session.  Ids and dates stand in the rows as the values that they
print.  A position is an `i64` in a row: an append that would pass the last one is no
step.
-/

namespace PostCortex
namespace Storage

open PostCortex.Core
open KeyValue
open Transition

structure MessageTables where
  message : Database String Message
  messageNext : Database String Nat

def i64Values : Nat := 2 ^ 63

namespace MessageTables

section

variable [UuidText]

def recordId (m : Message) : String :=
  UuidText.toText m.sessionId ++ ("_" ++ toString m.seq)

def rows (t : MessageTables) : List Message :=
  t.message.toList.map Prod.snd

def next (t : MessageTables) (sessionId : Uuid) : Nat :=
  (t.messageNext[UuidText.toText sessionId]?).getD 0

/-- What an append has made of its batch: the messages appended, the turn ids seen, the
next position. -/
structure Numbering where
  appended : List Message
  seen : List String
  next : Nat

def numberOne (sessionId : Uuid) (state : Numbering) (new : NewMessage) : Numbering :=
  if new.turnId ∈ state.seen then state
  else
    { appended := state.appended ++ [new.intoMessage sessionId state.next]
      seen := new.turnId :: state.seen
      next := state.next + 1 }

def storedTurns (t : MessageTables) (sessionId : Uuid) (turns : List String) : List String :=
  (t.rows.filter (fun m => m.sessionId = sessionId ∧ m.turnId ∈ turns)).map Message.turnId

/-- `CREATE` of a row, which fails on its id and on a unique index. -/
def createMessage (rows : Database String Message) (m : Message) :
    Except String (Database String Message) :=
  if rows[recordId m]?.isSome = true ∨ rows.toList.any (fun e =>
      e.2.sessionId = m.sessionId ∧ (e.2.seq = m.seq ∨ e.2.turnId = m.turnId)) = true then
    Except.error "Database index already contains"
  else Except.ok (rows.insert (recordId m) m)

def appendMessages (t : MessageTables) (sessionId : Uuid) (messages : List NewMessage) :
    Except String (MessageTables × List Message) := do
  if messages = [] then return (t, [])
  let state := messages.foldl (numberOne sessionId)
    ⟨[], t.storedTurns sessionId (messages.map NewMessage.turnId), t.next sessionId⟩
  if state.appended = [] then return (t, [])
  let message ← state.appended.foldlM createMessage t.message
  return (⟨message, t.messageNext.insert (UuidText.toText sessionId) state.next⟩,
    state.appended)

def loadMessages (t : MessageTables) (sessionId : Uuid) (start finish : UInt64) :
    Except String (List Message) :=
  if finish ≤ start then Except.ok []
  else if i64Values ≤ start.toNat then
    Except.error "out of range integral type conversion attempted"
  else
    let last := min finish.toNat (i64Values - 1)
    Except.ok ((t.rows.filter (fun m =>
      m.sessionId = sessionId ∧ start.toNat ≤ m.seq ∧ m.seq < last)).insertionSort
        (fun m n => m.seq ≤ n.seq))

def deleteMessagesBefore (t : MessageTables) (cutoff : Timestamp) :
    MessageTables × List (Uuid × Nat) :=
  ({ t with
      message := t.message.write (Database.deletes
        ((t.message.toList.filter (fun e => e.2.timestamp < cutoff)).map Prod.fst)) },
    (t.rows.filter (fun m => m.timestamp < cutoff)).map (fun m => (m.sessionId, m.seq)))

end

end MessageTables

/-!
# Both stores
-/

structure BothStreams (blob : Type) where
  db : Db blob
  tables : MessageTables

section

variable {blob : Type} [UuidText]

def bothStep (s : BothStreams blob) : StreamOperation -> Option (BothStreams blob)
  | StreamOperation.append sessionId messages =>
      match appendMessages s.db sessionId messages with
      | Except.error _ => some s
      | Except.ok (db, _) =>
          if nextSeq db sessionId < i64Values then
            some
              { db := db
                tables :=
                  match s.tables.appendMessages sessionId messages with
                  | Except.ok result => result.1
                  | Except.error _ => s.tables }
          else none
  | StreamOperation.deleteBefore cutoff =>
      some
        { db := (deleteMessagesBefore s.db cutoff).1
          tables := (s.tables.deleteMessagesBefore cutoff).1 }

def bothStreams (start : Db blob) : System (BothStreams blob) StreamOperation where
  init := ⟨start, ⟨∅, ∅⟩⟩
  step := bothStep

/-- The tables hold the messages and the next positions of the row store. -/
structure Mirrored (db : Db blob) (t : MessageTables) : Prop where
  keyed : Keyed MessageTables.recordId t.message
  stored : forall m, t.message[MessageTables.recordId m]? = some m ↔ Stored db m
  next : forall sessionId, t.next sessionId = nextSeq db sessionId
  bound : forall sessionId, nextSeq db sessionId < i64Values

/-- The row store is the stream of a log, and the tables mirror it. -/
def Agreeing (s : BothStreams blob) : Prop :=
  (exists log, Streamed ⟨s.db, log⟩) ∧ Mirrored s.db s.tables

variable {db : Db blob} {t : MessageTables}

theorem Mirrored.mem_rows (h : Mirrored db t) {m : Message} : m ∈ t.rows ↔ Stored db m :=
  h.keyed.mem_rows.trans (h.stored m)

variable [LawfulUuidText]

theorem recordId_inj {m n : Message}
    (h : MessageTables.recordId m = MessageTables.recordId n) :
    m.sessionId = n.sessionId ∧ m.seq = n.seq := by
  have hlist := congrArg String.toList h
  unfold MessageTables.recordId at hlist
  rw [String.toList_append, String.toList_append, String.toList_append,
    String.toList_append] at hlist
  have hlength : (UuidText.toText m.sessionId).toList.length =
      (UuidText.toText n.sessionId).toList.length := by
    rw [String.length_toList, String.length_toList, LawfulUuidText.length_toText,
      LawfulUuidText.length_toText]
  rcases List.append_inj hlist hlength with ⟨hid, hseq⟩
  exact ⟨toText_inj (String.toList_inj.mp hid),
    Nat.repr_injective (String.toList_inj.mp (List.append_cancel_left hseq))⟩

/-!
# Appends
-/

namespace MessageTables

/-- The loops of both stores number a batch alike. -/
structure Numbered (s : Uuid) (db : Db blob) (turns : List String) (state : Numbering)
    (other : Appending blob) : Prop where
  appended : state.appended = other.appended
  next : state.next = other.next
  seen : forall turnId, turnId ∈ turns -> (turnId ∈ state.seen ↔
    turnId ∈ other.seen ∨ db[messageTurnKey s turnId]?.isSome = true)

omit [LawfulUuidText] in
theorem Numbered.one {s : Uuid} {turns : List String} {state : Numbering}
    {other : Appending blob} (h : Numbered s db turns state other) {new : NewMessage}
    (hnew : new.turnId ∈ turns) :
    Numbered s db turns (numberOne s state new) (appendOne db s other new) := by
  unfold numberOne appendOne
  simp only [← h.seen new.turnId hnew]
  split
  · next hseen =>
    refine ⟨h.appended, h.next, ?_⟩
    intro turnId hturn
    rw [List.mem_cons, or_assoc, ← h.seen turnId hturn]
    constructor
    · exact Or.inr
    · rintro (rfl | hmem)
      · exact hseen
      · exact hmem
  · refine ⟨by rw [h.appended, h.next], by rw [h.next], ?_⟩
    intro turnId hturn
    rw [List.mem_cons, List.mem_cons, or_assoc, ← h.seen turnId hturn]

omit [LawfulUuidText] in
theorem Numbered.foldl {s : Uuid} {turns : List String} {state : Numbering}
    {other : Appending blob} (h : Numbered s db turns state other)
    {messages : List NewMessage}
    (hmessages : forall new, new ∈ messages -> new.turnId ∈ turns) :
    Numbered s db turns (messages.foldl (numberOne s) state)
      (messages.foldl (appendOne db s) other) := by
  induction messages generalizing state other with
  | nil => exact h
  | cons new rest ih =>
      exact ih (h.one (hmessages new List.mem_cons_self))
        (fun m hm => hmessages m (List.mem_cons_of_mem new hm))

theorem foldlM_create {rows : Database String Message} {s : Uuid} {ms : List Message}
    (hkeyed : Keyed recordId rows) (hsession : forall m, m ∈ ms -> m.sessionId = s)
    (hturns : (ms.map Message.turnId).Nodup) (hseqs : (ms.map Message.seq).Nodup)
    (hfresh : forall m, m ∈ ms -> forall n, rows[recordId n]? = some n ->
      n.sessionId = s -> n.seq ≠ m.seq ∧ n.turnId ≠ m.turnId) :
    exists rows', ms.foldlM createMessage rows = Except.ok rows' ∧ Keyed recordId rows' ∧
      forall m, rows'[recordId m]? = some m ↔ rows[recordId m]? = some m ∨ m ∈ ms := by
  induction ms generalizing rows with
  | nil => exact ⟨rows, rfl, hkeyed, by simp⟩
  | cons m ms ih =>
      rw [List.map_cons, List.nodup_cons] at hturns hseqs
      have hm := hsession m List.mem_cons_self
      have hnone : rows[recordId m]? = none := by
        by_contra hsome
        rcases Option.ne_none_iff_exists'.mp hsome with ⟨n, hrow⟩
        have hid := hkeyed _ n hrow
        rcases recordId_inj hid with ⟨hsame, hseq⟩
        rw [hid] at hrow
        exact (hfresh m List.mem_cons_self n hrow (hsame.symm.trans hm)).1 hseq.symm
      have hcreate : createMessage rows m = Except.ok (rows.insert (recordId m) m) := by
        rw [createMessage, if_neg]
        rintro (hsome | hany)
        · rw [hnone] at hsome
          cases hsome
        · rcases List.any_eq_true.mp hany with ⟨e, he, hclash⟩
          have hrow := hkeyed.mem_rows.mp (List.mem_map_of_mem he)
          rcases of_decide_eq_true hclash with ⟨hid, hsame⟩
          rcases hfresh m List.mem_cons_self e.2 hrow (hid.trans hm) with ⟨hseq, hturn⟩
          exact hsame.elim hseq hturn
      rcases ih (hkeyed.insert m) (fun n hn => hsession n (List.mem_cons_of_mem m hn)) hturns.2
        hseqs.2 (fun n hn x hrow hx => by
          rcases (Keyed.get_insert hnone).mp hrow with hold | rfl
          · exact hfresh n (List.mem_cons_of_mem m hn) x hold hx
          · exact ⟨fun heq => hseqs.1 (heq ▸ List.mem_map_of_mem hn),
              fun heq => hturns.1 (heq ▸ List.mem_map_of_mem hn)⟩) with
        ⟨rows', hrows, hkeyed', hstored⟩
      refine ⟨rows', ?_, hkeyed', ?_⟩
      · rw [List.foldlM_cons, hcreate]
        exact hrows
      · intro n
        rw [hstored, Keyed.get_insert hnone, List.mem_cons, or_assoc]

variable {log : List Message}

theorem append_agrees (hold : Streamed ⟨db, log⟩) (h : Mirrored db t) (s : Uuid)
    (messages : List NewMessage)
    (hbound : nextSeq (appendFrom db s messages (nextSeq db s)).1 s < i64Values) :
    exists t', t.appendMessages s messages =
        Except.ok (t', (appendFrom db s messages (nextSeq db s)).2) ∧
      Mirrored (appendFrom db s messages (nextSeq db s)).1 t' := by
  have hwritten := append_written db s messages
  have hloop := foldl_looped db s messages
  unfold appendFrom at hwritten hbound ⊢
  unfold appendMessages
  by_cases hnil : messages = []
  · subst hnil
    exact ⟨t, rfl, h⟩
  have hstart : Numbered s db (messages.map NewMessage.turnId)
      ⟨[], t.storedTurns s (messages.map NewMessage.turnId), t.next s⟩
      ⟨[], [], [], nextSeq db s⟩ := by
    refine ⟨rfl, h.next s, ?_⟩
    intro turnId hturn
    rw [hold.indexed_iff, storedTurns, List.mem_map]
    simp only [List.not_mem_nil, false_or, List.mem_filter, decide_eq_true_eq, h.mem_rows]
    constructor
    · rintro ⟨m, ⟨hm, hs, -⟩, rfl⟩
      exact ⟨m, hm, hs, rfl⟩
    · rintro ⟨m, hm, hs, rfl⟩
      exact ⟨m, ⟨hm, hs, hturn⟩, rfl⟩
  have hnumbered := hstart.foldl
    (fun new (hnew : new ∈ messages) => List.mem_map_of_mem hnew)
  rw [if_neg hnil]
  dsimp only at hwritten hbound ⊢
  rw [hnumbered.appended, hnumbered.next]
  generalize messages.foldl (appendOne db s) ⟨[], [], [], nextSeq db s⟩ = other at *
  by_cases hnone : other.appended = []
  · rw [if_pos hnone, if_pos hnone]
    exact ⟨t, rfl, h⟩
  rw [if_neg hnone] at hwritten hbound ⊢
  rw [if_neg hnone]
  have hseqs : (other.appended.map Message.seq).Nodup := by
    rw [hwritten.seqs]
    exact List.nodup_range'
  have hfresh : forall m, m ∈ other.appended -> forall n,
      t.message[recordId n]? = some n -> n.sessionId = s ->
        n.seq ≠ m.seq ∧ n.turnId ≠ m.turnId := by
    intro m hm n hrow hs
    have hn := (h.stored n).mp hrow
    constructor
    · have hbelow := hold.below n (hold.logged hn)
      have hfrom := (hwritten.between hm).1
      change n.seq < nextSeq db n.sessionId at hbelow
      rw [hs] at hbelow
      omega
    · intro hturn
      have hindexed := hold.indexed n hn
      change db[messageTurnKey n.sessionId n.turnId]? = _ at hindexed
      rw [hs, hturn, hwritten.fresh m hm] at hindexed
      cases hindexed
  rcases foldlM_create h.keyed hwritten.session hwritten.turns hseqs hfresh with
    ⟨rows, hrows, hkeyed, hstored⟩
  refine ⟨_, by rw [hrows]; rfl, hkeyed, ?_, ?_, ?_⟩
  · intro m
    rw [hstored, h.stored, hwritten.stored_iff hold]
  · intro sessionId
    rw [next, Database.get_insert]
    by_cases hs : s = sessionId
    · rw [if_pos (congrArg UuidText.toText hs), ← hs, hwritten.next]
      exact hloop.next
    · rw [if_neg (fun htext => hs (toText_inj htext)), hwritten.nextSeq_of hs]
      exact h.next sessionId
  · intro sessionId
    by_cases hs : s = sessionId
    · rw [← hs]
      exact hbound
    · rw [hwritten.nextSeq_of hs]
      exact h.bound sessionId

/-!
# Retention
-/

theorem delete_mirrored (hold : Streamed ⟨db, log⟩) (h : Mirrored db t) (cutoff : Timestamp) :
    Mirrored (Storage.deleteMessagesBefore db cutoff).1 (t.deleteMessagesBefore cutoff).1 := by
  have hexpired := deleteMessagesBefore_expired db cutoff
  have hnext : forall s, nextSeq (Storage.deleteMessagesBefore db cutoff).1 s =
      nextSeq db s :=
    fun s => nextSeq_congr (hexpired.readNext s)
  have hget : forall (k : String) (m : Message),
      (t.deleteMessagesBefore cutoff).1.message[k]? = some m ↔
        t.message[k]? = some m ∧ ¬ m.timestamp < cutoff := by
    intro k m
    have hgone : k ∈ (t.message.toList.filter (fun e => e.2.timestamp < cutoff)).map Prod.fst ↔
        exists n, t.message[k]? = some n ∧ n.timestamp < cutoff := by
      simp [Std.ExtTreeMap.mem_toList_iff_getElem?_eq_some]
    rw [deleteMessagesBefore, Database.get_write_deletes]
    simp only [hgone]
    cases t.message[k]? with
    | none => simp
    | some n =>
        by_cases hlt : n.timestamp < cutoff
        · simpa [hlt] using fun heq : n = m => heq ▸ hlt
        · simpa [hlt] using fun heq : n = m => heq ▸ not_lt.mp hlt
  refine ⟨fun k m hrow => h.keyed k m ((hget k m).mp hrow).1, ?_, ?_, ?_⟩
  · intro m
    rw [hget, h.stored, hexpired.stored_iff hold]
  · intro s
    rw [hnext]
    exact h.next s
  · intro s
    rw [hnext]
    exact h.bound s

omit [LawfulUuidText] in
theorem nodup_rows (h : Mirrored db t) : t.rows.Nodup :=
  h.keyed.pairwise_rows.imp (fun hne heq => hne (congrArg recordId heq))

omit [LawfulUuidText] in
theorem deleted_agrees (hold : Streamed ⟨db, log⟩) (h : Mirrored db t) (cutoff : Timestamp) :
    (t.deleteMessagesBefore cutoff).2.Perm (Storage.deleteMessagesBefore db cutoff).2 := by
  have hdeleted : (Storage.deleteMessagesBefore db cutoff).2 =
      ((db.keysWhere (hasPrefix "message:")).filterMap (fun k =>
        (expired cutoff db[k]?).map (fun m => (k, m)))).map
          (fun x => (x.2.sessionId, x.2.seq)) := by
    unfold Storage.deleteMessagesBefore
    dsimp only
    split
    · next hnone =>
      rw [hnone]
      rfl
    · rfl
  have hgone : ((t.rows.filter (fun m => m.timestamp < cutoff)).map (fun m =>
      (messageKey m.sessionId m.seq, m))).Perm
        ((db.keysWhere (hasPrefix "message:")).filterMap (fun k =>
          (expired cutoff db[k]?).map (fun m => (k, m)))) := by
    rw [List.perm_ext_iff_of_nodup]
    · rintro ⟨k, m⟩
      rw [List.mem_map, List.mem_filterMap]
      constructor
      · rintro ⟨n, hn, heq⟩
        cases heq
        rcases List.mem_filter.mp hn with ⟨hrow, hlt⟩
        have hstored := h.mem_rows.mp hrow
        refine ⟨messageKey m.sessionId m.seq, Database.mem_keysWhere.mpr
          ⟨?_, messageKey_hasPrefix m.sessionId m.seq⟩, ?_⟩
        · rw [show db[messageKey m.sessionId m.seq]? = _ from hstored]
          rfl
        · rw [expired_eq.mpr ⟨hstored, of_decide_eq_true hlt⟩]
          rfl
      · rintro ⟨x, hx, heq⟩
        rcases Option.map_eq_some_iff.mp heq with ⟨n, hn, hpair⟩
        cases hpair
        rcases expired_eq.mp hn with ⟨hrow, hlt⟩
        rcases hold.row k _ (Database.mem_keysWhere.mp hx).2 hrow with ⟨n, hvalue, hkey, -⟩
        cases hvalue
        refine ⟨m, List.mem_filter.mpr ⟨?_, decide_eq_true hlt⟩, by rw [hkey]⟩
        rw [hkey] at hrow
        exact h.mem_rows.mpr hrow
    · refine ((nodup_rows h).filter _).map ?_
      intro m n heq
      exact (Prod.mk.inj heq).2
    · refine List.Nodup.filterMap ?_ (Std.ExtTreeMap.nodup_keys.filter _)
      intro k k' b hb hb'
      rcases Option.map_eq_some_iff.mp hb with ⟨_, -, rfl⟩
      rcases Option.map_eq_some_iff.mp hb' with ⟨_, -, heq⟩
      exact (Prod.mk.inj heq).1.symm
  rw [hdeleted, deleteMessagesBefore]
  have hmapped := hgone.map (fun x => (x.2.sessionId, x.2.seq))
  rwa [List.map_map] at hmapped

/-!
# Loads
-/

theorem load_agrees (hold : Streamed ⟨db, log⟩) (h : Mirrored db t) (s : Uuid)
    (start finish : UInt64) (hstart : start.toNat < i64Values) :
    t.loadMessages s start finish = Storage.loadMessages db s start finish := by
  rcases hold.loaded s start finish with ⟨loaded, hloaded, hincreasing, hmem⟩
  unfold loadMessages
  by_cases hempty : finish ≤ start
  · rw [if_pos hempty, Storage.loadMessages, if_pos hempty]
  rw [if_neg hempty, if_neg (Nat.not_le.mpr hstart), hloaded]
  refine congrArg Except.ok (eq_of_increasing ?_ (List.pairwise_map.mp hincreasing) ?_)
  · refine h.keyed.sorted ?_
    rintro m n ⟨hm, -⟩ ⟨hn, -⟩ hseq
    rw [recordId, recordId, hm, hn, hseq]
  · intro m
    rw [List.mem_insertionSort, List.mem_filter, h.mem_rows, decide_eq_true_eq, hmem]
    refine and_congr_right fun hm => and_congr_right fun hs => and_congr_right fun _ => ?_
    have hbelow := hold.below m (hold.logged hm)
    have hbound := h.bound m.sessionId
    change m.seq < nextSeq db m.sessionId at hbelow
    unfold i64Values at hbound ⊢
    omega

end MessageTables

/-!
# Runs
-/

theorem bothStep_agrees {s s' : BothStreams blob} {o : StreamOperation} (h : Agreeing s)
    (hstep : bothStep s o = some s') : Agreeing s' := by
  rcases h with ⟨⟨log, hold⟩, hmirrored⟩
  cases o with
  | append sessionId messages =>
      rw [bothStep, (hold.counted sessionId).appendMessages messages] at hstep
      dsimp only at hstep
      split at hstep
      · next hbound =>
        cases hstep
        rcases MessageTables.append_agrees hold hmirrored sessionId messages hbound with
          ⟨t, ht, hmirrored'⟩
        rw [ht]
        refine ⟨⟨_, (append_written s.db sessionId messages).streamed hold ?_⟩, hmirrored'⟩
        rw [(append_written s.db sessionId messages).next] at hbound
        exact lt_trans hbound (by decide)
      · cases hstep
  | deleteBefore cutoff =>
      cases hstep
      exact ⟨⟨log, (deleteMessagesBefore_expired s.db cutoff).streamed hold⟩,
        MessageTables.delete_mirrored hold hmirrored cutoff⟩

omit [LawfulUuidText] in
theorem agreeing_init {start : Db blob} (hstart : Unwritten start) :
    Agreeing (bothStreams start).init := by
  have hstreamed := streamed_init hstart
  refine ⟨⟨[], hstreamed⟩, ?_, ?_, ?_, ?_⟩
  · intro k m hrow
    simp [bothStreams] at hrow
  · intro m
    constructor
    · intro hrow
      simp [bothStreams] at hrow
    · intro hm
      exact absurd (hstreamed.logged hm) List.not_mem_nil
  · intro sessionId
    change (∅ : Database String Nat)[_]?.getD 0 = nextSeq start sessionId
    rw [hstart.nextSeq]
    simp
  · intro sessionId
    change nextSeq start sessionId < i64Values
    rw [hstart.nextSeq]
    decide

/-- After any appends and deletions on both stores, an append gives the same messages, a
load the same stream, and a deletion the same positions. -/
theorem message_stores_agree {start : Db blob} (hstart : Unwritten start)
    {s : BothStreams blob} (h : (bothStreams start).Reachable System.Anything s) :
    (forall sessionId messages, exists db appended,
      appendMessages s.db sessionId messages = Except.ok (db, appended) ∧
      (nextSeq db sessionId < i64Values ->
        (s.tables.appendMessages sessionId messages).map Prod.snd =
          Except.ok appended)) ∧
    (forall sessionId start finish, start.toNat < i64Values ->
      s.tables.loadMessages sessionId start finish =
        loadMessages s.db sessionId start finish) ∧
    forall cutoff, (s.tables.deleteMessagesBefore cutoff).2.Perm
      (deleteMessagesBefore s.db cutoff).2 := by
  rcases h.invariant (agreeing_init hstart)
    (fun _ _ _ hold _ hstep => bothStep_agrees hold hstep) with ⟨⟨log, hold⟩, hmirrored⟩
  refine ⟨?_, MessageTables.load_agrees hold hmirrored,
    MessageTables.deleted_agrees hold hmirrored⟩
  intro sessionId messages
  refine ⟨_, _, (hold.counted sessionId).appendMessages messages, ?_⟩
  intro hbound
  rcases MessageTables.append_agrees hold hmirrored sessionId messages hbound with ⟨t, ht, -⟩
  rw [ht]
  rfl

end

attribute [local instance] hyphenatedText

/-- A batch with a repeated turn, a deletion of everything, and the turn once more. -/
theorem message_stores_agree_emptied :
    exists s : BothStreams Unit,
      (bothStreams ∅).Reachable System.Anything s ∧
      (s.tables.next 1 = 3 ∧ s.tables.rows.map Message.seq = [2]) ∧
      s.tables.loadMessages 1 0 5 = loadMessages s.db 1 0 5 := by
  have := lawful_hyphenatedText
  rcases (bothStreams (∅ : Db Unit)).replay_reaches System.Anything
    [StreamOperation.append 1
      [capturedTurn "a" 10, capturedTurn "b" 11, capturedTurn "a" 12],
      StreamOperation.deleteBefore 20,
      StreamOperation.append 1 [capturedTurn "a" 30]]
    (fun s => s.tables.next 1 = 3 ∧ s.tables.rows.map Message.seq = [2])
    (by decide +kernel) with ⟨s, -, hreach, hrows⟩
  exact ⟨s, hreach, hrows,
    (message_stores_agree unwritten_empty hreach).2.1 1 0 5 (by decide)⟩

end Storage
end PostCortex

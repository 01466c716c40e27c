import PostCortex.Storage.RowCoherence

/-!
# The message stream

`rocksdb_storage/messages.rs`: one row for each turn at the next positions of
the session, the index of the turn ids, and the counter.
-/

namespace PostCortex
namespace Storage

open PostCortex.Core
open KeyValue

section

variable {blob : Type} [UuidText]

def decodeSeq : Record blob -> Except String Nat
  | Record.position n => Except.ok n
  | _ => Except.error "Malformed message seq"

/-- The position that an append starts at. -/
def readNext (db : Db blob) (sessionId : Uuid) : Except String Nat :=
  match db[messageNextKey sessionId]? with
  | some record => decodeSeq record
  | none => Except.ok 0

/-- The state of the loop of `append`: the batch, the messages appended, the
turn ids seen, the next position. -/
structure Appending (blob : Type) where
  batch : List (Edit String (Record blob))
  appended : List Message
  seen : List String
  next : Nat

def appendOne (db : Db blob) (sessionId : Uuid) (state : Appending blob)
    (new : NewMessage) : Appending blob :=
  let turnKey := messageTurnKey sessionId new.turnId
  if new.turnId ∈ state.seen ∨ db[turnKey]?.isSome = true then
    { state with seen := new.turnId :: state.seen }
  else
    let message := new.intoMessage sessionId state.next
    { batch := state.batch ++
        [Edit.put (messageKey sessionId state.next) (Record.message message),
          Edit.put turnKey (Record.position state.next)]
      appended := state.appended ++ [message]
      seen := new.turnId :: state.seen
      next := state.next + 1 }

/-- `append` from the position read on. -/
def appendFrom (db : Db blob) (sessionId : Uuid) (messages : List NewMessage)
    (next : Nat) : Db blob × List Message :=
  let state := messages.foldl (appendOne db sessionId) ⟨[], [], [], next⟩
  if state.appended = [] then (db, [])
  else
    (db.write (state.batch ++
      [Edit.put (messageNextKey sessionId) (Record.position state.next)]),
      state.appended)

def append (db : Db blob) (sessionId : Uuid) (messages : List NewMessage) :
    Except String (Db blob × List Message) :=
  (readNext db sessionId).map (appendFrom db sessionId messages)

def appendMessages (db : Db blob) (sessionId : Uuid)
    (messages : List NewMessage) : Except String (Db blob × List Message) :=
  if messages = [] then Except.ok (db, []) else append db sessionId messages

def decodeMessage : Record blob -> Except String Message
  | Record.message m => Except.ok m
  | _ => Except.error "Failed to deserialize message"

def loadMessages (db : Db blob) (sessionId : Uuid) (start finish : UInt64) :
    Except String (List Message) :=
  if finish ≤ start then Except.ok []
  else
    (db.scan (messageKey sessionId start.toNat)
      (messageKey sessionId finish.toNat)).mapM (fun e => decodeMessage e.2)

def expired (cutoff : Timestamp) : Option (Record blob) -> Option Message
  | some (Record.message m) => if m.timestamp < cutoff then some m else none
  | _ => none

def deleteMessagesBefore (db : Db blob) (cutoff : Timestamp) :
    Db blob × List (Uuid × Nat) :=
  let doomed :=
    (db.keysWhere (hasPrefix "message:")).filterMap (fun k =>
      (expired cutoff db[k]?).map (fun m => (k, m)))
  if doomed = [] then (db, [])
  else
    (db.write (Database.deletes (doomed.flatMap (fun x =>
      [x.1, messageTurnKey x.2.sessionId x.2.turnId]))),
      doomed.map (fun x => (x.2.sessionId, x.2.seq)))

/-!
# The records of a stream
-/

/-- A key of a message, of a turn or of the counter of a session. -/
def IsMessageKey (sessionId : Uuid) (k : String) : Prop :=
  hasPrefix (sessionPrefix "message:" sessionId) k = true ∨
    hasPrefix (sessionPrefix "message_turn:" sessionId) k = true ∨
      k = messageNextKey sessionId

def HasMessages (db : Db blob) (sessionId : Uuid) : Prop :=
  exists k, IsMessageKey sessionId k ∧ db[k]?.isSome = true

theorem delete_messages (db : Db blob) (sessionId : Uuid) :
    ¬ HasMessages (deleteSession db sessionId) sessionId := by
  rintro ⟨k, hmessage | hturn | rfl, hsome⟩
  · rw [get_deleteSession_prefixed db sessionId _ (by simp [sessionPrefixes])
      hmessage] at hsome
    cases hsome
  · rw [get_deleteSession_prefixed db sessionId _ (by simp [sessionPrefixes])
      hturn] at hsome
    cases hsome
  · rw [get_deleteSession, if_pos (by simp [deletedKeys])] at hsome
    cases hsome

theorem messageKey_ne_sessionKey (s t : Uuid) (seq : Nat) :
    messageKey s seq ≠ sessionKey t := by
  have hapart : Apart "message:" "session:" := by
    decide
  unfold messageKey
  rw [String.append_assoc, String.append_assoc]
  exact hapart.ne _ _

theorem messageTurnKey_ne_sessionKey (s t : Uuid) (turnId : String) :
    messageTurnKey s turnId ≠ sessionKey t := by
  have hapart : Apart "message_turn:" "session:" := by
    decide
  unfold messageTurnKey
  rw [String.append_assoc, String.append_assoc]
  exact hapart.ne _ _

theorem appendOne_ne_sessionKey (db : Db blob) (s t : Uuid)
    {state : Appending blob} (new : NewMessage)
    (h : forall e, e ∈ state.batch -> e.target ≠ sessionKey t) :
    forall e, e ∈ (appendOne db s state new).batch ->
      e.target ≠ sessionKey t := by
  unfold appendOne
  dsimp only
  split
  · exact h
  · intro e he
    rcases List.mem_append.mp he with hold | hnew
    · exact h e hold
    · simp only [List.mem_cons, List.not_mem_nil, or_false] at hnew
      rcases hnew with rfl | rfl
      · exact messageKey_ne_sessionKey s t _
      · exact messageTurnKey_ne_sessionKey s t _

theorem appendFrom_blobOf (db : Db blob) (s t : Uuid) (messages : List NewMessage)
    (next : Nat) :
    blobOf (appendFrom db s messages next).1 t = blobOf db t := by
  unfold appendFrom
  dsimp only
  split
  · rfl
  · unfold blobOf
    rw [Database.get_write_other]
    intro e he
    rcases List.mem_append.mp he with hbatch | hnext
    · refine List.foldlRecOn (motive := fun state : Appending blob =>
        forall e, e ∈ state.batch -> e.target ≠ sessionKey t) messages _ ?_ ?_
        e hbatch
      · intro e he
        cases he
      · intro state hstate new _
        exact appendOne_ne_sessionKey db s t new hstate
    · rw [List.mem_singleton.mp hnext]
      exact (nextKey_foreign s t).session

theorem append_blobOf {db db' : Db blob} {s : Uuid} {messages : List NewMessage}
    {appended : List Message}
    (h : appendMessages db s messages = Except.ok (db', appended)) (t : Uuid) :
    blobOf db' t = blobOf db t := by
  unfold appendMessages at h
  split at h
  · cases h
    rfl
  · unfold append at h
    cases hread : readNext db s with
    | error e =>
        rw [hread] at h
        cases h
    | ok next =>
        rw [hread] at h
        have hwritten := appendFrom_blobOf db s t messages next
        rw [Except.ok.inj h] at hwritten
        exact hwritten

end

end Storage
end PostCortex

import PostCortex.Storage.Messages

/-!
# Appends and retention

Any sequence of appends and retention deletions on any sessions, with the log
of all messages ever appended.  A position is a `u64`: an append that would run
past the last one is no step.
-/

namespace PostCortex
namespace Storage

open PostCortex.Core
open KeyValue
open Transition

/-!
# Keys
-/

section

variable [UuidText]

theorem messageKey_eq (s : Uuid) (seq : Nat) :
    messageKey s seq =
      "message:" ++ UuidText.toText s ++ (":" ++ padded 20 seq) :=
  String.append_assoc ..

theorem messageTurnKey_eq (s : Uuid) (turnId : String) :
    messageTurnKey s turnId =
      "message_turn:" ++ UuidText.toText s ++ (":" ++ turnId) :=
  String.append_assoc ..

omit [UuidText] in
theorem hasPrefix_of_append {a b k : String} (h : hasPrefix (a ++ b) k = true) :
    hasPrefix a k = true := by
  rw [hasPrefix_iff] at h ⊢
  rw [String.toList_append] at h
  exact (List.prefix_append _ _).trans h

theorem messageKey_hasPrefix (s : Uuid) (seq : Nat) :
    hasPrefix "message:" (messageKey s seq) = true := by
  rw [messageKey_eq, String.append_assoc]
  exact hasPrefix_append _ _

theorem turnKey_not_hasPrefix (s : Uuid) (turnId : String) :
    hasPrefix "message:" (messageTurnKey s turnId) = false := by
  have hapart : Apart "message:" "message_turn:" := by
    decide
  rw [messageTurnKey_eq, String.append_assoc]
  exact hapart.not_hasPrefix _

theorem nextKey_not_hasPrefix (s : Uuid) :
    hasPrefix "message:" (messageNextKey s) = false := by
  have hapart : Apart "message:" "message_next:" := by
    decide
  exact hapart.not_hasPrefix _

theorem messageKey_ne_turnKey (s t : Uuid) (seq : Nat) (turnId : String) :
    messageKey s seq ≠ messageTurnKey t turnId := by
  intro hkey
  have hbegins := messageKey_hasPrefix s seq
  rw [hkey, turnKey_not_hasPrefix] at hbegins
  cases hbegins

theorem nextKey_ne_messageKey (s t : Uuid) (seq : Nat) :
    messageNextKey s ≠ messageKey t seq := by
  intro hkey
  have hbegins := nextKey_not_hasPrefix s
  rw [hkey, messageKey_hasPrefix] at hbegins
  cases hbegins

theorem nextKey_ne_turnKey (s t : Uuid) (turnId : String) :
    messageNextKey s ≠ messageTurnKey t turnId := by
  have hapart : Apart "message_next:" "message_turn:" := by
    decide
  rw [messageTurnKey_eq, String.append_assoc]
  exact hapart.ne _ _

variable [LawfulUuidText]

variable {s t : Uuid}

theorem messageKey_inj {m n : Nat} (h : messageKey s m = messageKey t n) :
    s = t ∧ m = n := by
  rw [messageKey_eq, messageKey_eq] at h
  obtain ⟨hid, hrest⟩ := id_of_append h
  have hlist := congrArg String.toList hrest
  rw [String.toList_append, String.toList_append] at hlist
  exact ⟨hid, padded_inj (String.toList_inj.mp (List.append_cancel_left hlist))⟩

theorem messageTurnKey_inj {x y : String}
    (h : messageTurnKey s x = messageTurnKey t y) :
    s = t ∧ x = y := by
  rw [messageTurnKey_eq, messageTurnKey_eq] at h
  obtain ⟨hid, hrest⟩ := id_of_append h
  have hlist := congrArg String.toList hrest
  rw [String.toList_append, String.toList_append] at hlist
  exact ⟨hid, String.toList_inj.mp (List.append_cancel_left hlist)⟩

theorem messageNextKey_inj (h : messageNextKey s = messageNextKey t) :
    s = t := by
  have hid : "message_next:" ++ UuidText.toText s ++ "" =
      "message_next:" ++ UuidText.toText t ++ "" := by
    rw [String.append_empty, String.append_empty]
    exact h
  exact (id_of_append hid).1

end

/-!
# What an append writes
-/

section

variable {blob : Type} [UuidText]

def Stored (db : Db blob) (m : Message) : Prop :=
  db[messageKey m.sessionId m.seq]? = some (Record.message m)

def nextSeq (db : Db blob) (s : Uuid) : Nat :=
  (readNext db s).toOption.getD 0

/-- The counter of the session can be read. -/
def Counted (db : Db blob) (s : Uuid) : Prop :=
  readNext db s = Except.ok (nextSeq db s)

def messageRecords (m : Message) : List (String × Record blob) :=
  [(messageKey m.sessionId m.seq, Record.message m),
    (messageTurnKey m.sessionId m.turnId, Record.position m.seq)]

/-- What the loop of `append` has made so far. -/
structure Looped (db : Db blob) (s : Uuid) (state : Appending blob) : Prop where
  batch : state.batch =
    Database.puts Prod.fst Prod.snd (state.appended.flatMap messageRecords)
  session : forall m, m ∈ state.appended -> m.sessionId = s
  fresh : forall m, m ∈ state.appended ->
    db[messageTurnKey s m.turnId]? = none
  seen : forall m, m ∈ state.appended -> m.turnId ∈ state.seen
  turns : (state.appended.map Message.turnId).Nodup
  seqs : state.appended.map Message.seq =
    List.range' (nextSeq db s) state.appended.length
  next : state.next = nextSeq db s + state.appended.length

theorem appendOne_looped {db : Db blob} {s : Uuid} {state : Appending blob}
    (h : Looped db s state) (new : NewMessage) :
    Looped db s (appendOne db s state new) := by
  unfold appendOne
  dsimp only
  split
  · exact ⟨h.batch, h.session, h.fresh,
      fun m hm => List.mem_cons_of_mem _ (h.seen m hm), h.turns, h.seqs, h.next⟩
  · next hnew =>
    rw [not_or, Bool.not_eq_true, Option.isSome_eq_false_iff,
      Option.isNone_iff_eq_none] at hnew
    obtain ⟨hunseen, hfresh⟩ := hnew
    constructor
    · rw [h.batch, List.flatMap_append, Database.puts, Database.puts,
        List.map_append]
      rfl
    · intro m hm
      rcases List.mem_append.mp hm with hold | hlast
      · exact h.session m hold
      · rw [List.mem_singleton.mp hlast]
        rfl
    · intro m hm
      rcases List.mem_append.mp hm with hold | hlast
      · exact h.fresh m hold
      · rw [List.mem_singleton.mp hlast]
        exact hfresh
    · intro m hm
      rcases List.mem_append.mp hm with hold | hlast
      · exact List.mem_cons_of_mem _ (h.seen m hold)
      · rw [List.mem_singleton.mp hlast]
        exact List.mem_cons_self
    · rw [List.map_append]
      refine List.nodup_append.mpr ⟨h.turns, List.nodup_singleton _, ?_⟩
      intro x hx y hy hxy
      obtain ⟨m, hm, rfl⟩ := List.mem_map.mp hx
      rw [List.mem_singleton.mp hy] at hxy
      have hturn : m.turnId = new.turnId := hxy
      exact hunseen (hturn ▸ h.seen m hm)
    · rw [List.map_append, h.seqs, List.length_append, List.length_singleton,
        List.range'_1_concat, h.next]
      rfl
    · rw [h.next, List.length_append, List.length_singleton, Nat.add_assoc]

theorem foldl_looped (db : Db blob) (s : Uuid) (messages : List NewMessage) :
    Looped db s
      (messages.foldl (appendOne db s) ⟨[], [], [], nextSeq db s⟩) := by
  refine List.foldlRecOn (motive := Looped db s) messages _ ?_ ?_
  · constructor <;> simp [Database.puts]
  · intro state h new _
    exact appendOne_looped h new

/-- What an append leaves: the new records, the counter, and all other
records. -/
structure Written (db db' : Db blob) (s : Uuid) (appended : List Message) :
    Prop where
  session : forall m, m ∈ appended -> m.sessionId = s
  fresh : forall m, m ∈ appended -> db[messageTurnKey s m.turnId]? = none
  turns : (appended.map Message.turnId).Nodup
  seqs : appended.map Message.seq =
    List.range' (nextSeq db s) appended.length
  row : forall m, m ∈ appended -> Stored db' m
  turn : forall m, m ∈ appended ->
    db'[messageTurnKey m.sessionId m.turnId]? = some (Record.position m.seq)
  next : nextSeq db' s = nextSeq db s + appended.length
  counted : Counted db s -> Counted db' s
  other : forall k, (forall m, m ∈ appended ->
      messageKey m.sessionId m.seq ≠ k ∧
        messageTurnKey m.sessionId m.turnId ≠ k) ->
    messageNextKey s ≠ k -> db'[k]? = db[k]?

theorem written_nil (db : Db blob) (s : Uuid) : Written db db s [] := by
  constructor <;> simp

end

section

variable {blob : Type} [UuidText]

variable {appended : List Message}

omit [UuidText] in
theorem eq_of_seq {first : Nat}
    (hseqs : appended.map Message.seq = List.range' first appended.length)
    {x y : Message} (hx : x ∈ appended) (hy : y ∈ appended) (h : x.seq = y.seq) :
    x = y := by
  have hnodup : (appended.map Message.seq).Nodup := by
    rw [hseqs]
    exact List.nodup_range'
  exact List.inj_on_of_nodup_map hnodup hx hy h

variable {db : Db blob} {state : Appending blob}

theorem Looped.one [LawfulUuidText] {s : Uuid} (h : Looped db s state) {x y : String × Record blob}
    (hx : x ∈ state.appended.flatMap messageRecords)
    (hy : y ∈ state.appended.flatMap messageRecords) (hkey : x.1 = y.1) :
    x.2 = y.2 := by
  obtain ⟨m, hm, hx⟩ := List.mem_flatMap.mp hx
  obtain ⟨n, hn, hy⟩ := List.mem_flatMap.mp hy
  simp only [messageRecords, List.mem_cons, List.not_mem_nil, or_false] at hx hy
  rcases hx with rfl | rfl
  · rcases hy with rfl | rfl
    · rw [eq_of_seq h.seqs hm hn (messageKey_inj hkey).2]
    · exact absurd hkey (messageKey_ne_turnKey _ _ _ _)
  · rcases hy with rfl | rfl
    · exact absurd hkey.symm (messageKey_ne_turnKey _ _ _ _)
    · rw [List.inj_on_of_nodup_map h.turns hm hn (messageTurnKey_inj hkey).2]

theorem Looped.written [LawfulUuidText] {s : Uuid} (h : Looped db s state) :
    Written db
      (db.write (state.batch ++
        [Edit.put (messageNextKey s) (Record.position state.next)])) s
      state.appended := by
  have hbefore : forall k, messageNextKey s ≠ k ->
      (db.write (state.batch ++
        [Edit.put (messageNextKey s) (Record.position state.next)]))[k]? =
      (db.write state.batch)[k]? := by
    intro k hk
    rw [Database.write_append]
    exact Database.get_write_other _ (fun e he => by
      rw [List.mem_singleton.mp he]
      exact hk)
  have hrecord : forall x, x ∈ state.appended.flatMap messageRecords ->
      messageNextKey s ≠ x.1 ->
      (db.write (state.batch ++
        [Edit.put (messageNextKey s) (Record.position state.next)]))[x.1]? =
      some x.2 := by
    intro x hx hne
    rw [hbefore _ hne, h.batch]
    exact Database.get_write_puts db (fun x hx y hy => h.one hx hy) hx
  have hmember : forall m, m ∈ state.appended -> forall x,
      x ∈ (messageRecords m : List (String × Record blob)) ->
      x ∈ state.appended.flatMap messageRecords :=
    fun m hm x hx => List.mem_flatMap.mpr ⟨m, hm, hx⟩
  have hread : readNext (db.write (state.batch ++
      [Edit.put (messageNextKey s) (Record.position state.next)])) s =
        Except.ok state.next := by
    rw [readNext, Database.write_append, Database.write_cons,
      Database.write_nil, Database.get_put_self]
    rfl
  refine ⟨h.session, h.fresh, h.turns, h.seqs, ?_, ?_, ?_, ?_, ?_⟩
  · intro m hm
    refine hrecord _ (hmember m hm _ List.mem_cons_self) ?_
    exact nextKey_ne_messageKey _ _ _
  · intro m hm
    refine hrecord _
      (hmember m hm _ (List.mem_cons_of_mem _ List.mem_cons_self)) ?_
    exact nextKey_ne_turnKey _ _ _
  · rw [nextSeq, hread]
    exact h.next
  · intro _
    rw [Counted, nextSeq, hread]
    rfl
  · intro k hk hnext
    rw [hbefore k hnext, h.batch]
    apply Database.get_write_puts_other
    intro x hx
    obtain ⟨m, hm, hx⟩ := List.mem_flatMap.mp hx
    simp only [messageRecords, List.mem_cons, List.not_mem_nil, or_false] at hx
    rcases hx with rfl | rfl
    · exact (hk m hm).1
    · exact (hk m hm).2

theorem append_written [LawfulUuidText] (db : Db blob) (s : Uuid) (messages : List NewMessage) :
    Written db (appendFrom db s messages (nextSeq db s)).1 s
      (appendFrom db s messages (nextSeq db s)).2 := by
  unfold appendFrom
  dsimp only
  split
  · exact written_nil db s
  · exact (foldl_looped db s messages).written

theorem Counted.appendMessages {s : Uuid} (h : Counted db s)
    (messages : List NewMessage) :
    appendMessages db s messages =
      Except.ok (appendFrom db s messages (nextSeq db s)) := by
  unfold Storage.appendMessages
  split
  · next hnil =>
    rw [hnil]
    rfl
  · rw [append, h]
    rfl

/-!
# What retention deletes
-/

/-- The messages older than the cutoff go with their turns; all other records
stay. -/
structure Expired (db db' : Db blob) (cutoff : Timestamp) : Prop where
  gone : forall k m, hasPrefix "message:" k = true ->
    db[k]? = some (Record.message m) -> m.timestamp < cutoff ->
    db'[k]? = none ∧ db'[messageTurnKey m.sessionId m.turnId]? = none
  other : forall k, (forall x m, hasPrefix "message:" x = true ->
      db[x]? = some (Record.message m) -> m.timestamp < cutoff ->
      k ≠ x ∧ k ≠ messageTurnKey m.sessionId m.turnId) ->
    db'[k]? = db[k]?

variable {cutoff : Timestamp} {m : Message}

omit [UuidText] in
theorem expired_eq {v : Option (Record blob)} :
    expired cutoff v = some m ↔
      v = some (Record.message m) ∧ m.timestamp < cutoff := by
  unfold expired
  split
  · next n =>
    constructor
    · intro h
      split at h
      · next hlt =>
        cases h
        exact ⟨rfl, hlt⟩
      · cases h
    · rintro ⟨h, hlt⟩
      cases h
      rw [if_pos hlt]
  · next hnone =>
    constructor
    · intro h
      cases h
    · rintro ⟨rfl, _⟩
      exact absurd rfl (hnone m)

theorem deleteMessagesBefore_expired (db : Db blob) (cutoff : Timestamp) :
    Expired db (deleteMessagesBefore db cutoff).1 cutoff := by
  have hdoomed : forall k m,
      (k, m) ∈ (db.keysWhere (hasPrefix "message:")).filterMap (fun k =>
          (expired cutoff db[k]?).map (fun m => (k, m))) ↔
        hasPrefix "message:" k = true ∧
          db[k]? = some (Record.message m) ∧ m.timestamp < cutoff := by
    intro k m
    rw [List.mem_filterMap]
    constructor
    · rintro ⟨x, hx, heq⟩
      obtain ⟨n, hn, hpair⟩ := Option.map_eq_some_iff.mp heq
      cases hpair
      exact ⟨(Database.mem_keysWhere.mp hx).2, expired_eq.mp hn⟩
    · rintro ⟨hbegins, hrow⟩
      refine ⟨k, Database.mem_keysWhere.mpr ⟨by rw [hrow.1]; rfl, hbegins⟩, ?_⟩
      rw [expired_eq.mpr hrow]
      rfl
  unfold deleteMessagesBefore
  dsimp only
  split
  · next hnone =>
    refine ⟨?_, fun _ _ => rfl⟩
    intro k m hbegins hrow hlt
    have hmem := (hdoomed k m).mpr ⟨hbegins, hrow, hlt⟩
    rw [hnone] at hmem
    cases hmem
  · constructor
    · intro k m hbegins hrow hlt
      have hmem := (hdoomed k m).mpr ⟨hbegins, hrow, hlt⟩
      rw [Database.get_write_deletes, Database.get_write_deletes]
      constructor
      · rw [if_pos (List.mem_flatMap.mpr ⟨_, hmem, List.mem_cons_self⟩)]
      · rw [if_pos (List.mem_flatMap.mpr
          ⟨_, hmem, List.mem_cons_of_mem _ List.mem_cons_self⟩)]
    · intro k hk
      rw [Database.get_write_deletes, if_neg]
      intro hmem
      obtain ⟨⟨x, m⟩, hx, hk'⟩ := List.mem_flatMap.mp hmem
      obtain ⟨hbegins, hrow, hlt⟩ := (hdoomed x m).mp hx
      obtain ⟨hne, hne'⟩ := hk x m hbegins hrow hlt
      simp only [List.mem_cons, List.not_mem_nil, or_false] at hk'
      exact hk'.elim hne hne'

/-!
# The stream of a run
-/

/-- `log` lists the messages ever appended, in order. -/
structure Stream (blob : Type) where
  db : Db blob
  log : List Message

inductive StreamOperation where
  | append (sessionId : Uuid) (messages : List NewMessage)
  | deleteBefore (cutoff : Timestamp)

def streamStep (s : Stream blob) : StreamOperation -> Option (Stream blob)
  | StreamOperation.append sessionId messages =>
      match appendMessages s.db sessionId messages with
      | Except.error _ => some s
      | Except.ok (db, appended) =>
          if nextSeq s.db sessionId + appended.length < 2 ^ 64 then
            some ⟨db, s.log ++ appended⟩
          else none
  | StreamOperation.deleteBefore cutoff =>
      some { s with db := (deleteMessagesBefore s.db cutoff).1 }

def messageStream (start : Db blob) : System (Stream blob) StreamOperation where
  init := ⟨start, []⟩
  step := streamStep

def positionsOf (log : List Message) (sessionId : Uuid) : List Nat :=
  (log.filter (fun m => m.sessionId == sessionId)).map Message.seq

structure Streamed (s : Stream blob) : Prop where
  row : forall k v, hasPrefix "message:" k = true -> s.db[k]? = some v ->
    exists m, v = Record.message m ∧ k = messageKey m.sessionId m.seq ∧
      m ∈ s.log
  turn : forall sessionId turnId v,
    s.db[messageTurnKey sessionId turnId]? = some v ->
    exists m, v = Record.position m.seq ∧ Stored s.db m ∧
      m.sessionId = sessionId ∧ m.turnId = turnId
  indexed : forall m, Stored s.db m ->
    s.db[messageTurnKey m.sessionId m.turnId]? = some (Record.position m.seq)
  below : forall m, m ∈ s.log -> m.seq < nextSeq s.db m.sessionId
  counted : forall sessionId, Counted s.db sessionId
  bound : forall sessionId, nextSeq s.db sessionId < 2 ^ 64
  increasing : forall sessionId,
    (positionsOf s.log sessionId).Pairwise (· < ·)

def Unwritten (db : Db blob) : Prop :=
  forall k, hasPrefix "message" k = true -> db[k]? = none

variable {start : Db blob}

theorem Unwritten.readNext (h : Unwritten start) (sessionId : Uuid) :
    readNext start sessionId = Except.ok 0 := by
  have hnone : start[messageNextKey sessionId]? = none :=
    h _ (hasPrefix_append "message" ("_next:" ++ _))
  rw [Storage.readNext, hnone]

theorem Unwritten.nextSeq (h : Unwritten start) (sessionId : Uuid) :
    nextSeq start sessionId = 0 := by
  rw [Storage.nextSeq, h.readNext]
  rfl

theorem streamed_init (hstart : Unwritten start) :
    Streamed (messageStream start).init where
  row := by
    intro k v hbegins hv
    have hnone : start[k]? = none :=
      hstart k (hasPrefix_of_append (b := ":") hbegins)
    have hsome : start[k]? = some v := hv
    rw [hnone] at hsome
    cases hsome
  turn := by
    intro sessionId turnId v hv
    have hnone : start[messageTurnKey sessionId turnId]? = none := by
      apply hstart
      rw [messageTurnKey_eq, String.append_assoc]
      exact hasPrefix_append "message" ("_turn:" ++ _)
    have hsome : start[messageTurnKey sessionId turnId]? = some v := hv
    rw [hnone] at hsome
    cases hsome
  indexed := by
    intro m hm
    have hnone : start[messageKey m.sessionId m.seq]? = none :=
      hstart _ (hasPrefix_of_append (b := ":") (messageKey_hasPrefix _ _))
    have hsome : start[messageKey m.sessionId m.seq]? =
        some (Record.message m) := hm
    rw [hnone] at hsome
    cases hsome
  below := by
    intro m hm
    cases hm
  counted := by
    intro sessionId
    have hzero := hstart.nextSeq sessionId
    exact (hstart.readNext sessionId).trans (congrArg Except.ok hzero.symm)
  bound := by
    intro sessionId
    rw [show nextSeq (messageStream start).init.db sessionId = 0 from
      hstart.nextSeq sessionId]
    decide
  increasing := by
    intro sessionId
    exact List.Pairwise.nil

variable {s : Stream blob}

theorem Streamed.logged (h : Streamed s) (hm : Stored s.db m) :
    m ∈ s.log := by
  obtain ⟨n, hn, _, hlog⟩ := h.row _ _ (messageKey_hasPrefix _ _) hm
  cases hn
  exact hlog

variable {db' : Db blob}

theorem readNext_congr {s : Uuid}
    (h : db'[messageNextKey s]? = db[messageNextKey s]?) :
    readNext db' s = readNext db s := by
  rw [readNext, h, readNext]

theorem nextSeq_congr {s : Uuid} (h : readNext db' s = readNext db s) :
    nextSeq db' s = nextSeq db s := by
  rw [nextSeq, h, nextSeq]

theorem Counted.congr {s : Uuid} (hcounted : Counted db s)
    (h : readNext db' s = readNext db s) :
    Counted db' s := by
  rw [Counted, nextSeq_congr h, h]
  exact hcounted

/-!
# Appends keep the stream
-/

theorem Written.rows {s : Uuid} (h : Written db db' s appended) {k : String}
    (hk : hasPrefix "message:" k = true) :
    (exists m, m ∈ appended ∧ messageKey m.sessionId m.seq = k ∧
        db'[k]? = some (Record.message m)) ∨
      db'[k]? = db[k]? := by
  by_cases hnew : exists m, m ∈ appended ∧ messageKey m.sessionId m.seq = k
  · obtain ⟨m, hm, rfl⟩ := hnew
    exact Or.inl ⟨m, hm, rfl, h.row m hm⟩
  · right
    apply h.other
    · intro m hm
      refine ⟨fun hkey => hnew ⟨m, hm, hkey⟩, ?_⟩
      rintro rfl
      rw [turnKey_not_hasPrefix] at hk
      cases hk
    · rintro rfl
      rw [nextKey_not_hasPrefix] at hk
      cases hk

theorem Written.turns_of [LawfulUuidText] {s : Uuid} (h : Written db db' s appended) (t : Uuid)
    (turnId : String) :
    (exists m, m ∈ appended ∧ m.sessionId = t ∧ m.turnId = turnId ∧
        db'[messageTurnKey t turnId]? = some (Record.position m.seq)) ∨
      db'[messageTurnKey t turnId]? = db[messageTurnKey t turnId]? := by
  by_cases hnew : exists m, m ∈ appended ∧ m.sessionId = t ∧ m.turnId = turnId
  · obtain ⟨m, hm, rfl, rfl⟩ := hnew
    exact Or.inl ⟨m, hm, rfl, rfl, h.turn m hm⟩
  · right
    apply h.other
    · intro m hm
      refine ⟨messageKey_ne_turnKey _ _ _ _, ?_⟩
      intro hkey
      exact hnew ⟨m, hm, (messageTurnKey_inj hkey).1, (messageTurnKey_inj hkey).2⟩
    · exact nextKey_ne_turnKey _ _ _

theorem Written.readNext_of [LawfulUuidText] {s : Uuid} (h : Written db db' s appended) {t : Uuid}
    (ht : s ≠ t) :
    readNext db' t = readNext db t := by
  apply readNext_congr
  apply h.other
  · intro m hm
    exact ⟨(nextKey_ne_messageKey _ _ _).symm, (nextKey_ne_turnKey _ _ _).symm⟩
  · exact fun hkey => ht (messageNextKey_inj hkey)

theorem Written.nextSeq_of [LawfulUuidText] {s : Uuid} (h : Written db db' s appended) {t : Uuid}
    (ht : s ≠ t) :
    nextSeq db' t = nextSeq db t :=
  nextSeq_congr (h.readNext_of ht)

theorem Written.between {s : Uuid} (h : Written db db' s appended)
    (hm : m ∈ appended) :
    nextSeq db s ≤ m.seq ∧ m.seq < nextSeq db s + appended.length := by
  have hseq : m.seq ∈ appended.map Message.seq := List.mem_map_of_mem hm
  rw [h.seqs, List.mem_range'_1] at hseq
  exact hseq

variable {sessionId : Uuid}

theorem Written.kept [LawfulUuidText] (hold : Streamed s) (h : Written s.db db' sessionId appended)
    (hm : Stored s.db m) :
    Stored db' m := by
  rcases h.rows (messageKey_hasPrefix m.sessionId m.seq) with
    ⟨n, hn, hkey, _⟩ | hsame
  · obtain ⟨hsession, hseq⟩ := messageKey_inj hkey
    have hbelow := hold.below m (hold.logged hm)
    rw [← hsession, h.session n hn] at hbelow
    have hfrom := (h.between hn).1
    omega
  · exact hsame.trans hm

theorem Written.stored_iff [LawfulUuidText] (hold : Streamed s)
    (h : Written s.db db' sessionId appended) (m : Message) :
    Stored db' m ↔ Stored s.db m ∨ m ∈ appended := by
  constructor
  · intro hm
    rcases h.rows (messageKey_hasPrefix m.sessionId m.seq) with
      ⟨n, hn, _, hrow⟩ | hsame
    · rw [show _ = _ from hm] at hrow
      cases hrow
      exact Or.inr hn
    · exact Or.inl (hsame.symm.trans hm)
  · rintro (hm | hm)
    · exact h.kept hold hm
    · exact h.row m hm

theorem Written.streamed [LawfulUuidText] (hold : Streamed s)
    (h : Written s.db db' sessionId appended)
    (hbound : nextSeq s.db sessionId + appended.length < 2 ^ 64) :
    Streamed ⟨db', s.log ++ appended⟩ := by
  have hgrown : forall t, nextSeq s.db t ≤ nextSeq db' t := by
    intro t
    by_cases ht : sessionId = t
    · rw [← ht, h.next]
      omega
    · rw [h.nextSeq_of ht]
  constructor
  · intro k v hbegins hv
    rcases h.rows hbegins with ⟨m, hm, hkey, hrow⟩ | hsame
    · rw [hrow] at hv
      cases hv
      exact ⟨m, rfl, hkey.symm, List.mem_append_right _ hm⟩
    · obtain ⟨m, hvalue, hkey, hlog⟩ := hold.row k v hbegins (hsame ▸ hv)
      exact ⟨m, hvalue, hkey, List.mem_append_left _ hlog⟩
  · intro t turnId v hv
    rcases h.turns_of t turnId with ⟨m, hm, hsession, hturn, hnew⟩ | hsame
    · rw [hnew] at hv
      cases hv
      exact ⟨m, rfl, h.row m hm, hsession, hturn⟩
    · obtain ⟨m, hvalue, hstored, hrest⟩ := hold.turn t turnId v (hsame ▸ hv)
      exact ⟨m, hvalue, h.kept hold hstored, hrest⟩
  · intro m hm
    rcases (h.stored_iff hold m).mp hm with hstored | hnew
    · have hindexed := hold.indexed m hstored
      rcases h.turns_of m.sessionId m.turnId with
        ⟨n, hn, hsession, hturn, _⟩ | hturns
      · have hfresh := h.fresh n hn
        rw [← h.session n hn, hsession, hturn, hindexed] at hfresh
        cases hfresh
      · rw [hturns]
        exact hindexed
    · exact h.turn m hnew
  · intro m hm
    rcases List.mem_append.mp hm with hlog | hnew
    · exact Nat.lt_of_lt_of_le (hold.below m hlog) (hgrown _)
    · have hto := (h.between hnew).2
      rw [h.session m hnew, h.next]
      exact hto
  · intro t
    by_cases ht : sessionId = t
    · rw [← ht]
      exact h.counted (hold.counted sessionId)
    · exact (hold.counted t).congr (h.readNext_of ht)
  · intro t
    by_cases ht : sessionId = t
    · rw [← ht, h.next]
      exact hbound
    · rw [h.nextSeq_of ht]
      exact hold.bound t
  · intro t
    rw [positionsOf, List.filter_append, List.map_append]
    refine List.pairwise_append.mpr ⟨hold.increasing t, ?_, ?_⟩
    · have hall : (appended.map Message.seq).Pairwise (· < ·) := by
        rw [h.seqs]
        exact List.pairwise_lt_range'
      exact hall.sublist (List.filter_sublist.map _)
    · intro x hx y hy
      obtain ⟨m, hm, rfl⟩ := List.mem_map.mp hx
      obtain ⟨n, hn, rfl⟩ := List.mem_map.mp hy
      obtain ⟨hlog, hm⟩ := List.mem_filter.mp hm
      obtain ⟨hnew, hn⟩ := List.mem_filter.mp hn
      have hbelow := hold.below m hlog
      have hfrom := (h.between hnew).1
      rw [beq_iff_eq] at hm hn
      rw [hm, ← hn, h.session n hnew] at hbelow
      omega

/-!
# Retention keeps the stream
-/

theorem Expired.rows (h : Expired db db' cutoff) {k : String} {v : Record blob}
    (hbegins : hasPrefix "message:" k = true) (hv : db'[k]? = some v) :
    db[k]? = some v ∧
      forall m, v = Record.message m -> ¬ m.timestamp < cutoff := by
  have hlate : forall m, db[k]? = some (Record.message m) ->
      ¬ m.timestamp < cutoff := by
    intro m hm hlt
    rw [(h.gone k m hbegins hm hlt).1] at hv
    cases hv
  have hsame : db'[k]? = db[k]? := by
    apply h.other
    intro x m hx hm hlt
    refine ⟨?_, ?_⟩
    · rintro rfl
      exact hlate m hm hlt
    · rintro rfl
      rw [turnKey_not_hasPrefix] at hbegins
      cases hbegins
  rw [hsame] at hv
  refine ⟨hv, ?_⟩
  rintro m rfl
  exact hlate m hv

theorem Expired.kept [LawfulUuidText] (hold : Streamed s) (h : Expired s.db db' cutoff)
    (hm : Stored s.db m) (hlate : ¬ m.timestamp < cutoff) :
    Stored db' m ∧ db'[messageTurnKey m.sessionId m.turnId]? =
      s.db[messageTurnKey m.sessionId m.turnId]? := by
  constructor
  · refine (h.other _ ?_).trans hm
    intro x n hx hn hlt
    refine ⟨?_, messageKey_ne_turnKey _ _ _ _⟩
    rintro rfl
    rw [show _ = _ from hm] at hn
    cases hn
    exact hlate hlt
  · apply h.other
    intro x n hx hn hlt
    refine ⟨?_, ?_⟩
    · rintro rfl
      rw [turnKey_not_hasPrefix] at hx
      cases hx
    · intro hkey
      obtain ⟨hsession, hturn⟩ := messageTurnKey_inj hkey
      obtain ⟨n', hn', hx', _⟩ := hold.row x _ hx hn
      cases hn'
      have hstored : Stored s.db n := by
        rw [Stored, ← hx']
        exact hn
      have hindexed := hold.indexed n hstored
      rw [← hkey, hold.indexed m hm] at hindexed
      have hseq : m.seq = n.seq :=
        Record.position.inj (Option.some.inj hindexed)
      have hsame : Stored s.db m := hm
      rw [Stored, hsession, hseq, show _ = _ from hstored] at hsame
      cases hsame
      exact hlate hlt

theorem Expired.stored_iff [LawfulUuidText] (hold : Streamed s) (h : Expired s.db db' cutoff)
    (m : Message) :
    Stored db' m ↔ Stored s.db m ∧ ¬ m.timestamp < cutoff := by
  constructor
  · intro hm
    obtain ⟨hrow, hlate⟩ := h.rows (messageKey_hasPrefix _ _) hm
    exact ⟨hrow, hlate m rfl⟩
  · rintro ⟨hm, hlate⟩
    exact (h.kept hold hm hlate).1

theorem Expired.readNext (h : Expired db db' cutoff) (t : Uuid) :
    readNext db' t = readNext db t := by
  apply readNext_congr
  apply h.other
  intro x m hx _ _
  refine ⟨?_, nextKey_ne_turnKey _ _ _⟩
  rintro rfl
  rw [nextKey_not_hasPrefix] at hx
  cases hx

theorem Expired.streamed [LawfulUuidText] (hold : Streamed s) (h : Expired s.db db' cutoff) :
    Streamed { s with db := db' } := by
  have hnext : forall t, nextSeq db' t = nextSeq s.db t :=
    fun t => nextSeq_congr (h.readNext t)
  constructor
  · intro k v hbegins hv
    exact hold.row k v hbegins (h.rows hbegins hv).1
  · intro t turnId v hv
    have hsame : db'[messageTurnKey t turnId]? =
        s.db[messageTurnKey t turnId]? := by
      apply h.other
      intro x n hx hn hlt
      refine ⟨?_, ?_⟩
      · rintro rfl
        rw [turnKey_not_hasPrefix] at hx
        cases hx
      · intro hkey
        rw [hkey, (h.gone x n hx hn hlt).2] at hv
        cases hv
    obtain ⟨m, hvalue, hm, hsession, hturn⟩ := hold.turn t turnId v (hsame ▸ hv)
    have hlate : ¬ m.timestamp < cutoff := by
      intro hlt
      have hgone := (h.gone _ m (messageKey_hasPrefix _ _) hm hlt).2
      rw [hsession, hturn, hv] at hgone
      cases hgone
    exact ⟨m, hvalue, (h.kept hold hm hlate).1, hsession, hturn⟩
  · intro m hm
    obtain ⟨hm, hlate⟩ := (h.stored_iff hold m).mp hm
    rw [(h.kept hold hm hlate).2]
    exact hold.indexed m hm
  · intro m hm
    rw [hnext]
    exact hold.below m hm
  · exact fun t => (hold.counted t).congr (h.readNext t)
  · intro t
    rw [hnext]
    exact hold.bound t
  · exact hold.increasing

/-!
# Runs
-/

theorem streamStep_streamed [LawfulUuidText] {s' : Stream blob} {o : StreamOperation}
    (hold : Streamed s) (h : streamStep s o = some s') :
    Streamed s' := by
  cases o with
  | append sessionId messages =>
      rw [streamStep, (hold.counted sessionId).appendMessages messages] at h
      dsimp only at h
      split at h
      · next hbound =>
        cases h
        exact (append_written s.db sessionId messages).streamed hold hbound
      · cases h
  | deleteBefore cutoff =>
      cases h
      exact (deleteMessagesBefore_expired s.db cutoff).streamed hold

theorem reachable_streamed [LawfulUuidText] (hstart : Unwritten start)
    (h : (messageStream start).Reachable System.Anything s) :
    Streamed s :=
  h.invariant (streamed_init hstart)
    (fun _ _ _ hold _ hstep => streamStep_streamed hold hstep)

theorem Streamed.indexed_iff (h : Streamed s) (sessionId : Uuid) (turnId : String) :
    s.db[messageTurnKey sessionId turnId]?.isSome = true ↔
      exists m, Stored s.db m ∧ m.sessionId = sessionId ∧
        m.turnId = turnId := by
  rw [Option.isSome_iff_exists]
  constructor
  · rintro ⟨v, hv⟩
    obtain ⟨m, _, hm⟩ := h.turn sessionId turnId v hv
    exact ⟨m, hm⟩
  · rintro ⟨m, hm, rfl, rfl⟩
    exact ⟨_, h.indexed m hm⟩

/-!
# Turns already stored
-/

/-- Two states of the loop that differ only in the indexed turns seen. -/
structure Alike (db : Db blob) (sessionId : Uuid) (state other : Appending blob) :
    Prop where
  batch : state.batch = other.batch
  appended : state.appended = other.appended
  next : state.next = other.next
  seen : forall turnId, db[messageTurnKey sessionId turnId]?.isSome = false ->
    (turnId ∈ state.seen ↔ turnId ∈ other.seen)

variable {other : Appending blob} {new : NewMessage}

theorem Alike.skip (h : Alike db sessionId state other)
    (hnew : db[messageTurnKey sessionId new.turnId]?.isSome = true) :
    Alike db sessionId (appendOne db sessionId state new) other := by
  unfold appendOne
  dsimp only
  rw [if_pos (Or.inr hnew)]
  refine ⟨h.batch, h.appended, h.next, ?_⟩
  intro turnId hturn
  rw [← h.seen turnId hturn, List.mem_cons]
  constructor
  · rintro (rfl | hseen)
    · rw [hnew] at hturn
      cases hturn
    · exact hseen
  · exact Or.inr

theorem Alike.both (h : Alike db sessionId state other)
    (hnew : db[messageTurnKey sessionId new.turnId]?.isSome = false) :
    Alike db sessionId (appendOne db sessionId state new)
      (appendOne db sessionId other new) := by
  have hseen : forall turnId,
      db[messageTurnKey sessionId turnId]?.isSome = false ->
      (turnId ∈ new.turnId :: state.seen ↔ turnId ∈ new.turnId :: other.seen) := by
    intro turnId hturn
    rw [List.mem_cons, List.mem_cons, h.seen turnId hturn]
  unfold appendOne
  simp only [h.seen new.turnId hnew, h.next]
  split
  · exact ⟨h.batch, h.appended, rfl, hseen⟩
  · exact ⟨congrArg (· ++ _) h.batch, congrArg (· ++ _) h.appended, rfl, hseen⟩

theorem foldl_alike (db : Db blob) (sessionId : Uuid) (messages : List NewMessage)
    (h : Alike db sessionId state other) :
    Alike db sessionId (messages.foldl (appendOne db sessionId) state)
      ((messages.filter (fun new =>
        !db[messageTurnKey sessionId new.turnId]?.isSome)).foldl
          (appendOne db sessionId) other) := by
  induction messages generalizing state other with
  | nil =>
      exact h
  | cons new rest ih =>
      cases hnew : db[messageTurnKey sessionId new.turnId]?.isSome with
      | true =>
          rw [List.filter_cons_of_neg (by simp [hnew])]
          exact ih (h.skip hnew)
      | false =>
          rw [List.filter_cons_of_pos (by simp [hnew])]
          exact ih (h.both hnew)

theorem appendFrom_filter (db : Db blob) (sessionId : Uuid)
    (messages : List NewMessage) (next : Nat) :
    appendFrom db sessionId messages next =
      appendFrom db sessionId (messages.filter (fun new =>
        !db[messageTurnKey sessionId new.turnId]?.isSome)) next := by
  have hstart : Alike db sessionId ⟨[], [], [], next⟩ ⟨[], [], [], next⟩ :=
    ⟨rfl, rfl, rfl, fun _ _ => Iff.rfl⟩
  have halike := foldl_alike db sessionId messages hstart
  unfold appendFrom
  dsimp only
  rw [halike.appended, halike.batch, halike.next]

/-!
# Loads
-/

theorem Streamed.seq_lt (h : Streamed s) (hm : Stored s.db m) :
    m.seq < 10 ^ (19 + 1) := by
  have hbelow := h.below m (h.logged hm)
  have hbound := h.bound m.sessionId
  omega

def messageRow (m : Message) : String × Record blob :=
  (messageKey m.sessionId m.seq, Record.message m)

theorem messageRow_inj {n : Message}
    (h : (messageRow m : String × Record blob) = messageRow n) :
    m = n :=
  Record.message.inj (Prod.ext_iff.mp h).2

variable [LawfulUuidText]

theorem Streamed.scanned (h : Streamed s) (sessionId : Uuid) (start finish : UInt64)
    {e : String × Record blob} :
    e ∈ s.db.scan (messageKey sessionId start.toNat)
        (messageKey sessionId finish.toNat) ↔
      exists m, e = messageRow m ∧
        Stored s.db m ∧ m.sessionId = sessionId ∧
          start.toNat ≤ m.seq ∧ m.seq < finish.toNat := by
  have hfits : forall x : UInt64, x.toNat < 10 ^ (19 + 1) := by
    intro x
    have hx := x.toNat_lt
    omega
  rw [Database.mem_scan]
  constructor
  · rintro ⟨hrow, hfrom, hto⟩
    have hbegins := prefix_of_between hfrom hto
    obtain ⟨m, hvalue, hkey, _⟩ := h.row e.1 e.2
      (hasPrefix_of_append (hasPrefix_of_append hbegins)) hrow
    have hsession : sessionId = m.sessionId := by
      have hsame : hasPrefix (sessionPrefix "message:" sessionId)
          ("message:" ++ UuidText.toText m.sessionId ++
            (":" ++ padded 20 m.seq)) = true := by
        rw [← messageKey_eq, ← hkey]
        exact hbegins
      exact hasPrefix_sessionPrefix hsame
    have hstored : Stored s.db m := by
      rw [Stored, ← hkey, ← hvalue]
      exact hrow
    refine ⟨m, Prod.ext hkey hvalue, hstored, hsession.symm, ?_, ?_⟩
    · rw [hkey, ← hsession] at hfrom
      exact (isLE_padded (hfits start) (h.seq_lt hstored)).mp hfrom
    · rw [hkey, ← hsession] at hto
      exact (compare_padded (h.seq_lt hstored) (hfits finish)).mp hto
  · rintro ⟨m, rfl, hstored, rfl, hfrom, hto⟩
    exact ⟨hstored, (isLE_padded (hfits start) (h.seq_lt hstored)).mpr hfrom,
      (compare_padded (h.seq_lt hstored) (hfits finish)).mpr hto⟩

theorem Streamed.loaded (h : Streamed s) (sessionId : Uuid) (start finish : UInt64) :
    exists loaded,
      loadMessages s.db sessionId start finish = Except.ok loaded ∧
      (loaded.map Message.seq).Pairwise (· < ·) ∧
      forall m, m ∈ loaded ↔
        Stored s.db m ∧ m.sessionId = sessionId ∧
          start.toNat ≤ m.seq ∧ m.seq < finish.toNat := by
  unfold loadMessages
  split
  · next hempty =>
    refine ⟨[], rfl, List.Pairwise.nil, ?_⟩
    intro m
    rw [UInt64.le_iff_toNat_le] at hempty
    constructor
    · intro hm
      cases hm
    · rintro ⟨_, _, hfrom, hto⟩
      omega
  · have hordered := Database.pairwise_scan s.db
      (messageKey sessionId start.toNat) (messageKey sessionId finish.toNat)
    have hscanned := fun e =>
      h.scanned sessionId start finish (e := e)
    obtain ⟨loaded, hloaded, hmap⟩ := Database.mapM_rows
      (fun e : String × Record blob => decodeMessage e.2) messageRow
      (fun _ => rfl)
      (fun e he => ((hscanned e).mp he).imp fun _ hm => hm.1)
    have hmem : forall m, m ∈ loaded ↔
        Stored s.db m ∧ m.sessionId = sessionId ∧
          start.toNat ≤ m.seq ∧ m.seq < finish.toNat := by
      intro m
      rw [hmap] at hscanned
      constructor
      · intro hm
        obtain ⟨n, heq, hn⟩ :=
          (hscanned (messageRow m)).mp (List.mem_map_of_mem hm)
        rw [messageRow_inj heq]
        exact hn
      · intro hm
        obtain ⟨n, hn, heq⟩ :=
          List.mem_map.mp ((hscanned (messageRow m)).mpr ⟨m, rfl, hm⟩)
        rw [← messageRow_inj heq]
        exact hn
    refine ⟨loaded, hloaded, ?_, hmem⟩
    rw [hmap] at hordered
    refine List.pairwise_map.mpr ?_
    refine (List.pairwise_map.mp hordered).imp_of_mem ?_
    intro m n hm hn hlt
    obtain ⟨hstored, hsession, _⟩ := (hmem m).mp hm
    obtain ⟨hstored', hsession', _⟩ := (hmem n).mp hn
    have hkeys : compare (messageKey m.sessionId m.seq)
        (messageKey n.sessionId n.seq) = Ordering.lt := hlt
    rw [hsession, hsession'] at hkeys
    exact (compare_padded (h.seq_lt hstored) (h.seq_lt hstored')).mp hkeys

/-- The stream after any appends and deletions: positions only grow, the turn
index is that of the stored messages, appends and deletions change the stored
messages as they say, turns already stored change nothing, and loads are
exact. -/
theorem message_stream_sound {start : Db blob} (hstart : Unwritten start)
    {s : Stream blob}
    (h : (messageStream start).Reachable System.Anything s) :
    (forall sessionId, (positionsOf s.log sessionId).Pairwise (· < ·)) ∧
    (forall m, Stored s.db m -> m ∈ s.log) ∧
    (forall sessionId turnId,
      s.db[messageTurnKey sessionId turnId]?.isSome = true ↔
        exists m, Stored s.db m ∧ m.sessionId = sessionId ∧
          m.turnId = turnId) ∧
    (forall sessionId messages, exists db appended,
      appendMessages s.db sessionId messages = Except.ok (db, appended) ∧
      forall m, Stored db m ↔ Stored s.db m ∨ m ∈ appended) ∧
    (forall cutoff m,
      Stored (deleteMessagesBefore s.db cutoff).1 m ↔
        Stored s.db m ∧ ¬ m.timestamp < cutoff) ∧
    (forall m new before after, Stored s.db m -> m.turnId = new.turnId ->
      appendMessages s.db m.sessionId [new] = Except.ok (s.db, []) ∧
      appendMessages s.db m.sessionId (before ++ new :: after) =
        appendMessages s.db m.sessionId (before ++ after)) ∧
    (forall sessionId start finish, exists loaded,
      loadMessages s.db sessionId start finish = Except.ok loaded ∧
      (loaded.map Message.seq).Pairwise (· < ·) ∧
      forall m, m ∈ loaded ↔
        Stored s.db m ∧ m.sessionId = sessionId ∧
          start.toNat ≤ m.seq ∧ m.seq < finish.toNat) := by
  have hsound := reachable_streamed hstart h
  refine ⟨hsound.increasing, fun _ hm => hsound.logged hm, hsound.indexed_iff,
    ?_, ?_, ?_, hsound.loaded⟩
  · intro sessionId messages
    exact ⟨_, _, (hsound.counted sessionId).appendMessages messages,
      (append_written s.db sessionId messages).stored_iff hsound⟩
  · intro cutoff
    exact (deleteMessagesBefore_expired s.db cutoff).stored_iff hsound
  · intro m new before after hm hturn
    have hindexed :
        s.db[messageTurnKey m.sessionId new.turnId]?.isSome = true :=
      (hsound.indexed_iff _ _).mpr ⟨m, hm, rfl, hturn⟩
    have hcounted := hsound.counted m.sessionId
    rw [hcounted.appendMessages, hcounted.appendMessages, hcounted.appendMessages]
    constructor
    · rw [appendFrom_filter, List.filter_cons_of_neg (by simp [hindexed])]
      rfl
    · rw [appendFrom_filter, appendFrom_filter _ _ (before ++ after),
        List.filter_append, List.filter_append,
        List.filter_cons_of_neg (by simp [hindexed])]

end

attribute [local instance] hyphenatedText

def capturedTurn (turnId : String) (timestamp : Timestamp) : NewMessage where
  turnId := turnId
  role := MessageRole.user
  author := none
  sourceSession := none
  timestamp := timestamp
  text := "text"
  tools := []
  files := []

theorem unwritten_empty : Unwritten (∅ : Db Unit) := by
  intro k _
  exact Std.ExtTreeMap.getElem?_empty

/-- A batch with a repeated turn, a deletion of everything, and the turn once
more: it is stored at the third position. -/
theorem message_stream_sound_emptied :
    exists s : Stream Unit,
      (messageStream ∅).Reachable System.Anything s ∧
      positionsOf s.log 1 = [0, 1, 2] ∧
      (exists loaded,
        loadMessages s.db 1 0 5 = Except.ok loaded ∧
        (loaded.map Message.seq).Pairwise (· < ·) ∧
        forall m, m ∈ loaded ↔
          Stored s.db m ∧ m.sessionId = 1 ∧ 0 ≤ m.seq ∧ m.seq < 5) := by
  have := lawful_hyphenatedText
  obtain ⟨s, -, hreach, hpositions⟩ :=
    (messageStream (∅ : Db Unit)).replay_reaches System.Anything
      [StreamOperation.append 1
        [capturedTurn "a" 10, capturedTurn "b" 11, capturedTurn "a" 12],
        StreamOperation.deleteBefore 20,
        StreamOperation.append 1 [capturedTurn "a" 30]]
      (fun s => positionsOf s.log 1 = [0, 1, 2]) (by decide +kernel)
  obtain ⟨_, _, _, _, _, _, hload⟩ :=
    message_stream_sound unwritten_empty hreach
  exact ⟨s, hreach, hpositions, hload 1 0 5⟩

end Storage
end PostCortex

import PostCortex.KeyValue.ByteKeys
import PostCortex.Storage.Cards
import PostCortex.Storage.Freshness
import PostCortex.Storage.GraphRows
import PostCortex.Storage.Importing

/-!
# Listing the sessions

`list_session_ids` of `rocksdb_storage/sessions.rs`, with its cursor over the
bytes of the keys: after a session it goes to the key `session:{id};`.  Which
keys it meets depends on all that the storage writes, so the kinds of keys of
`rocksdb_storage` are listed here.
-/

namespace PostCortex
namespace Storage
namespace SkipScan

open PostCortex.Core
open KeyValue

/-!
# The keys of the database
-/

/-- One constructor for each kind of record that the storage writes. -/
inductive StoredKey where
  | session (sessionId : Uuid)
  | update (sessionId updateId : Uuid)
  | updateIndex (sessionId : Uuid)
  | summary (sessionId : Uuid)
  | message (sessionId : Uuid) (seq : Nat)
  | messageTurn (sessionId : Uuid) (turnId : String)
  | messageNext (sessionId : Uuid)
  | embedding (sessionId contentId : String)
  | entity (sessionId : Uuid) (entityName : String)
  | relationship (sessionId : Uuid) (fromEntity toEntity : String)
      (relationType : RelationType)
  | sourceRef (entryId : String)
  | fileIndex (filePath entryId : String)
  | sourceIndexMarker
  | symbolDep (fromKey toKey : String)
  | symbolRdep (toKey fromKey : String)
  | card (scope : Cards.CardScope) (version : Nat)
  | cardHead (scope : Cards.CardScope)
  | workspace (workspaceId : Uuid)
  | workspaceSession (workspaceId sessionId : Uuid)
  | checkpoint (checkpointId : Uuid)

section

variable [UuidText]

def StoredKey.text : StoredKey -> String
  | session sessionId => sessionKey sessionId
  | update sessionId updateId => updateKey sessionId updateId
  | updateIndex sessionId => updateIndexKey sessionId
  | summary sessionId => metaKey sessionId
  | message sessionId seq => messageKey sessionId seq
  | messageTurn sessionId turnId => messageTurnKey sessionId turnId
  | messageNext sessionId => messageNextKey sessionId
  | embedding sessionId contentId =>
      "embedding:" ++ sessionId ++ ":" ++ contentId
  | entity sessionId entityName => GraphRows.entityKey sessionId entityName
  | relationship sessionId fromEntity toEntity relationType =>
      GraphRows.relationshipKey sessionId fromEntity toEntity relationType
  | sourceRef entryId => Freshness.sourceRefKey entryId
  | fileIndex filePath entryId => Freshness.fileIndexKey filePath entryId
  | sourceIndexMarker => "index_version:source_by_file"
  | symbolDep fromKey toKey => Freshness.forwardKey fromKey toKey
  | symbolRdep toKey fromKey => Freshness.reverseKey toKey fromKey
  | card scope version => Cards.cardKey scope version
  | cardHead scope => Cards.headKey scope
  | workspace workspaceId => workspaceKey workspaceId
  | workspaceSession workspaceId sessionId =>
      membershipKey workspaceId sessionId
  | checkpoint checkpointId => checkpointKey checkpointId

def StoredKey.bytes (key : StoredKey) : ByteKey :=
  bytesOf key.text

def encode {value : Type} : Edit StoredKey value -> Edit ByteKey value
  | Edit.put key v => Edit.put key.bytes v
  | Edit.delete key => Edit.delete key.bytes

def written {value : Type} (batches : List (List (Edit StoredKey value))) :
    Database ByteKey value :=
  batches.foldl (fun db batch => db.write (batch.map encode)) ∅

/-!
# The scan
-/

def sessionKeyLen : Nat :=
  "session:".utf8ByteSize + 36

def sessionOfBytes (key : ByteKey) : Option Uuid :=
  if key.length = sessionKeyLen then
    (textOf (key.drop "session:".utf8ByteSize)).bind (fun s =>
      (UuidText.parseStr s).toOption)
  else none

/-- The keys that the iterator can meet: `prefix_read_opts` stops it at the
bound of `session:`. -/
def iterated {value : Type} (db : Database ByteKey value) : List ByteKey :=
  db.keysWhere (fun key => decide (Below (upperBound (bytesOf "session:")) key))

/-- The loop, with the keys from the iterator's place on; `none` when it is not
done after `fuel` rounds. -/
def listFrom (keys : List ByteKey) :
    Nat -> List ByteKey -> List Uuid -> Option (List Uuid)
  | 0, _, _ => none
  | _ + 1, [], sessions => some sessions
  | fuel + 1, key :: rest, sessions =>
      if key.length < sessionKeyLen then listFrom keys fuel rest sessions
      else
        listFrom keys fuel (seek keys (key.take sessionKeyLen ++ bytesOf ";"))
          (sessions ++ (sessionOfBytes key).toList)

def listSessionIds {value : Type} (fuel : Nat) (db : Database ByteKey value) :
    Option (List Uuid) :=
  listFrom (iterated db) fuel (seek (iterated db) (bytesOf "session:")) []

end

class AsciiUuidText [UuidText] : Prop where
  utf8ByteSize_toText : forall id, (UuidText.toText id).utf8ByteSize = 36

/-!
# Which keys begin like those of sessions
-/

section

variable {key : ByteKey} {value : Type} {db : Database ByteKey value}

def Split (a b : String) : Prop :=
  ¬ bytesOf a <+: bytesOf b ∧ ¬ bytesOf b <+: bytesOf a

instance (a b : String) : Decidable (Split a b) :=
  inferInstanceAs (Decidable (_ ∧ _))

theorem Split.not_begins {a b : String} (h : Split a b) (hkey : bytesOf b <+: key) :
    ¬ bytesOf a <+: key := by
  intro ha
  rcases List.prefix_or_prefix_of_prefix ha hkey with hab | hba
  · exact h.1 hab
  · exact h.2 hba

theorem begins_append {kind text : String} (rest : String)
    (h : bytesOf kind <+: bytesOf text) :
    bytesOf kind <+: bytesOf (text ++ rest) := by
  rw [bytesOf_append]
  exact h.trans (List.prefix_append _ _)

theorem begins_self (kind rest : String) :
    bytesOf kind <+: bytesOf (kind ++ rest) :=
  begins_append rest (List.prefix_refl _)

theorem mem_iterated :
    key ∈ iterated db ↔
      db[key]?.isSome = true ∧ Below (upperBound (bytesOf "session:")) key := by
  rw [iterated, Database.mem_keysWhere, decide_eq_true_iff]

theorem sorted_iterated (db : Database ByteKey value) :
    (iterated db).Pairwise (fun x y => compare x y = Ordering.lt) :=
  Std.ExtTreeMap.ordered_keys.filter _

theorem mem_start :
    key ∈ seek (iterated db) (bytesOf "session:") ↔
      db[key]?.isSome = true ∧ bytesOf "session:" <+: key := by
  rw [mem_seek (sorted_iterated db), mem_iterated, ← between_iff, and_assoc,
    and_comm (a := Below _ _)]

variable [UuidText]

def SessionRow (s : Uuid) (key : ByteKey) : Prop :=
  key = bytesOf (sessionKey s) ∨ exists u, key = bytesOf (updateKey s u)

/-- Among the keys of the storage only blobs and update rows begin like the key
of a session. -/
theorem StoredKey.sessionRow {key : StoredKey}
    (h : bytesOf "session:" <+: key.bytes) :
    exists s, SessionRow s key.bytes := by
  have other : forall kind : String, Split "session:" kind ->
      bytesOf kind <+: key.bytes -> exists s, SessionRow s key.bytes :=
    fun _ hsplit hkind => absurd h (hsplit.not_begins hkind)
  cases key with
  | session s => exact ⟨s, Or.inl rfl⟩
  | update s u => exact ⟨s, Or.inr ⟨u, rfl⟩⟩
  | updateIndex s =>
      exact other "session_updates:" (by decide) (begins_self _ _)
  | summary s =>
      exact other "session_meta:" (by decide) (begins_self _ _)
  | message s seq =>
      exact other "message:" (by decide)
        (begins_append _ (begins_append _ (begins_self _ _)))
  | messageTurn s turnId =>
      exact other "message_turn:" (by decide)
        (begins_append _ (begins_append _ (begins_self _ _)))
  | messageNext s =>
      exact other "message_next:" (by decide) (begins_self _ _)
  | embedding s contentId =>
      exact other "embedding:" (by decide)
        (begins_append _ (begins_append _ (begins_self _ _)))
  | entity s name =>
      exact other "entity:" (by decide)
        (begins_append _ (begins_append _ (begins_self _ _)))
  | relationship s fromEntity toEntity relationType =>
      exact other "relationship:" (by decide)
        (begins_append _ (begins_append _ (begins_append _ (begins_append _
          (begins_append _ (begins_append _ (begins_self _ _)))))))
  | sourceRef entryId =>
      exact other "source_ref:" (by decide) (begins_self _ _)
  | fileIndex filePath entryId =>
      exact other "source_by_file:" (by decide)
        (begins_append _ (begins_append _ (begins_self _ _)))
  | sourceIndexMarker =>
      exact other "index_version:source_by_file" (by decide)
        (List.prefix_refl _)
  | symbolDep fromKey toKey =>
      exact other "symbol_dep:" (by decide)
        (begins_append _ (begins_append _ (begins_self _ _)))
  | symbolRdep toKey fromKey =>
      exact other "symbol_rdep:" (by decide)
        (begins_append _ (begins_append _ (begins_self _ _)))
  | card scope version =>
      exact other "card:" (by decide)
        (begins_append _ (begins_append _ (begins_self _ _)))
  | cardHead scope =>
      exact other "card_head:" (by decide) (begins_self _ _)
  | workspace id =>
      exact other "workspace:" (by decide) (begins_self _ _)
  | workspaceSession id s =>
      exact other "ws_session:" (by decide)
        (begins_append _ (begins_append _ (begins_self _ _)))
  | checkpoint id =>
      exact other "checkpoint:" (by decide) (begins_self _ _)

theorem stored_write
    (h : forall key v, db[key]? = some v -> exists k : StoredKey, key = k.bytes)
    (batch : List (Edit StoredKey value)) :
    forall key v, (db.write (batch.map encode))[key]? = some v ->
      exists k : StoredKey, key = k.bytes := by
  intro key v hkey
  rcases Database.get_write_some hkey with hold | hput
  · exact h key v hold
  · obtain ⟨edit, -, hedit⟩ := List.mem_map.mp hput
    cases edit with
    | put k v' =>
        cases hedit
        exact ⟨k, rfl⟩
    | delete k => cases hedit

theorem stored_written (batches : List (List (Edit StoredKey value))) :
    forall key v, (written batches)[key]? = some v ->
      exists k : StoredKey, key = k.bytes := by
  have hfold : forall (batches : List (List (Edit StoredKey value)))
      (db : Database ByteKey value),
      (forall key v, db[key]? = some v -> exists k : StoredKey, key = k.bytes) ->
        forall key v, (batches.foldl (fun db batch => db.write (batch.map encode))
          db)[key]? = some v -> exists k : StoredKey, key = k.bytes := by
    intro batches
    induction batches with
    | nil => exact fun _ h => h
    | cons batch rest ih => exact fun db h => ih _ (stored_write h batch)
  refine hfold batches ∅ ?_
  intro key v hkey
  simp at hkey

/-!
# Where the rows of a session lie
-/

variable {s : Uuid}

theorem bytesOf_updateKey (s u : Uuid) :
    bytesOf (updateKey s u) = bytesOf (sessionKey s) ++
      (bytesOf ":update:" ++ bytesOf (UuidText.toText u)) := by
  rw [updateKey_eq, bytesOf_append, bytesOf_append ":update:", sessionKey]

theorem SessionRow.begins (h : SessionRow s key) :
    bytesOf (sessionKey s) <+: key := by
  rcases h with rfl | ⟨u, rfl⟩
  · exact List.prefix_refl _
  · rw [bytesOf_updateKey]
    exact List.prefix_append _ _

theorem SessionRow.before (h : SessionRow s key) :
    compare key (bytesOf (sessionKey s) ++ bytesOf ";") = Ordering.lt := by
  have hend : bytesOf ";" = [59] := by decide
  rcases h with rfl | ⟨u, rfl⟩
  · have hbare := compare_append (bytesOf (sessionKey s)) [] (bytesOf ";")
    rw [List.append_nil] at hbare
    rw [hbare, hend]
    rfl
  · have hmarker : bytesOf ":update:" = 58 :: (bytesOf ":update:").tail := by
      decide
    rw [bytesOf_updateKey, compare_append, hend, hmarker, List.cons_append,
      compare_cons_lt]
    exact Or.inl (by decide)

variable [AsciiUuidText]

theorem length_sessionKey (s : Uuid) :
    (bytesOf (sessionKey s)).length = sessionKeyLen := by
  rw [length_bytesOf, sessionKey, String.utf8ByteSize_append,
    AsciiUuidText.utf8ByteSize_toText]
  rfl

theorem sessionOfBytes_sessionKey [LawfulUuidText] (s : Uuid) :
    sessionOfBytes (bytesOf (sessionKey s)) = some s := by
  have hdrop : (bytesOf (sessionKey s)).drop "session:".utf8ByteSize =
      bytesOf (UuidText.toText s) := by
    rw [sessionKey, bytesOf_append]
    exact List.drop_left' (length_bytesOf _)
  rw [sessionOfBytes, if_pos (length_sessionKey s), hdrop, textOf_bytesOf,
    Option.bind_some, LawfulUuidText.parse_toText]
  rfl

theorem sessionOfBytes_updateKey (s u : Uuid) :
    sessionOfBytes (bytesOf (updateKey s u)) = none := by
  have hlength : ¬ (bytesOf (updateKey s u)).length = sessionKeyLen := by
    have hmarker : (bytesOf ":update:").length = 8 := by decide
    rw [bytesOf_updateKey, List.length_append, List.length_append,
      length_sessionKey, hmarker]
    omega
  rw [sessionOfBytes, if_neg hlength]

theorem SessionRow.take (h : SessionRow s key) :
    key.take sessionKeyLen = bytesOf (sessionKey s) := by
  obtain ⟨rest, rfl⟩ := h.begins
  exact List.take_left' (length_sessionKey s)

theorem SessionRow.long (h : SessionRow s key) :
    ¬ key.length < sessionKeyLen := by
  have hle := h.begins.length_le
  rw [length_sessionKey] at hle
  omega

theorem SessionRow.sessionOfBytes_iff [LawfulUuidText] {t : Uuid} (h : SessionRow t key) :
    sessionOfBytes key = some s ↔ key = bytesOf (sessionKey s) := by
  constructor
  · intro hs
    rcases h with rfl | ⟨u, rfl⟩
    · rw [sessionOfBytes_sessionKey] at hs
      rw [Option.some.inj hs]
    · rw [sessionOfBytes_updateKey] at hs
      cases hs
  · rintro rfl
    exact sessionOfBytes_sessionKey s

theorem skipped_none {t : Uuid} {later : ByteKey} (hkey : SessionRow s key)
    (hlater : SessionRow t later) (hlt : compare key later = Ordering.lt)
    (hskip : compare later (bytesOf (sessionKey s) ++ bytesOf ";") = Ordering.lt) :
    sessionOfBytes later = none := by
  have hnot : forall {k : ByteKey}, bytesOf (sessionKey s) <+: k ->
      ¬ compare k (bytesOf (sessionKey s)) = Ordering.lt := by
    intro k hk hless
    obtain ⟨rest, rfl⟩ := hk
    have happend := compare_append (bytesOf (sessionKey s)) rest []
    rw [List.append_nil, hless] at happend
    cases rest <;> cases happend
  -- it begins like the session's own keys
  have hbegins : bytesOf (sessionKey s) <+: later := by
    refine begins_between (fun hless => ?_) hskip
    exact hnot hkey.begins (Std.TransCmp.lt_trans hlt hless)
  rcases hlater with rfl | ⟨u, rfl⟩
  · have hsame : bytesOf (sessionKey s) = bytesOf (sessionKey t) :=
      hbegins.eq_of_length ((length_sessionKey s).trans (length_sessionKey t).symm)
    rw [← hsame] at hlt
    exact absurd hlt (hnot hkey.begins)
  · exact sessionOfBytes_updateKey t u

/-!
# The scan
-/

/-- From any place of the iterator on, the loop finds the blobs that are left, a
round at most for each key. -/
theorem listFrom_eq {keys place before : List ByteKey} {sessions : List Uuid}
    {fuel : Nat} (hkeys : keys = before ++ place)
    (hsorted : keys.Pairwise (fun x y => compare x y = Ordering.lt))
    (hrows : forall key, key ∈ place -> exists s, SessionRow s key)
    (hfuel : place.length < fuel) :
    listFrom keys fuel place sessions =
      some (sessions ++ place.filterMap sessionOfBytes) := by
  induction fuel generalizing place before sessions with
  | zero => omega
  | succ fuel ih =>
      cases place with
      | nil => simp [listFrom]
      | cons key rest =>
          obtain ⟨s, hs⟩ := hrows key List.mem_cons_self
          have hforward : seek keys (bytesOf (sessionKey s) ++ bytesOf ";") =
              seek rest (bytesOf (sessionKey s) ++ bytesOf ";") := by
            rw [hkeys]
            exact seek_forward (hkeys ▸ hsorted) hs.before
          obtain ⟨skipped, hrest, hskipped⟩ :=
            seek_suffix rest (bytesOf (sessionKey s) ++ bytesOf ";")
          have hnone : skipped.filterMap sessionOfBytes = [] := by
            rw [List.filterMap_eq_nil_iff]
            intro later hlater
            have hmem : later ∈ rest := hrest ▸ List.mem_append_left _ hlater
            obtain ⟨t, ht⟩ := hrows later (List.mem_cons_of_mem _ hmem)
            have horder := (List.pairwise_append.mp (hkeys ▸ hsorted)).2.1
            exact skipped_none hs ht
              ((List.pairwise_cons.mp horder).1 later hmem) (hskipped later hlater)
          generalize hplace : seek rest (bytesOf (sessionKey s) ++ bytesOf ";") =
            place at hforward hrest
          have hlength := congrArg List.length hrest
          rw [List.length_append] at hlength
          rw [List.length_cons] at hfuel
          have hsplit : keys = (before ++ key :: skipped) ++ place := by
            rw [hkeys, hrest, List.append_assoc, List.cons_append]
          have hleft : forall key, key ∈ place -> exists s, SessionRow s key := by
            intro k hk
            exact hrows k (List.mem_cons_of_mem _ (hrest ▸ List.mem_append_right _ hk))
          rw [listFrom, if_neg hs.long, hs.take, hforward,
            ih hsplit hleft (by omega),
            hrest, List.filterMap_cons, List.filterMap_append, hnone]
          cases sessionOfBytes key with
          | none | some id => simp

end

section

variable [UuidText] [LawfulUuidText] [AsciiUuidText]

/-- The ids of the sessions with a blob, each once, whatever else the storage
has written; the scan takes a round at most for each key. -/
theorem sessions_listed_once {value : Type}
    (batches : List (List (Edit StoredKey value))) :
    exists ids : List Uuid,
      (forall fuel, (written batches).keys.length < fuel ->
        listSessionIds fuel (written batches) = some ids) ∧
      ids.Nodup ∧
      forall s, s ∈ ids ↔ bytesOf (sessionKey s) ∈ written batches := by
  let db := written batches
  let place := seek (iterated db) (bytesOf "session:")
  obtain ⟨before, hplace, -⟩ := seek_suffix (iterated db) (bytesOf "session:")
  have hsorted := sorted_iterated db
  have hrows : forall key, key ∈ place -> exists s, SessionRow s key := by
    intro key hkey
    obtain ⟨hsome, hbegins⟩ := mem_start.mp hkey
    obtain ⟨v, hv⟩ := Option.isSome_iff_exists.mp hsome
    obtain ⟨k, rfl⟩ := stored_written batches key v hv
    exact k.sessionRow hbegins
  refine ⟨place.filterMap sessionOfBytes, ?_, ?_, ?_⟩
  · intro fuel hfuel
    have hlength : place.length < fuel := by
      have htotal : (iterated db).length ≤ db.keys.length :=
        List.length_filter_le _ _
      have hsplit : (iterated db).length = before.length + place.length := by
        rw [← List.length_append]
        exact congrArg List.length hplace
      exact Nat.lt_of_le_of_lt (Nat.le_trans (by omega) htotal) hfuel
    exact listFrom_eq hplace hsorted hrows hlength
  · rw [List.Nodup, List.pairwise_filterMap]
    have horder := (List.pairwise_append.mp (hplace ▸ hsorted)).2.1
    refine horder.imp_of_mem ?_
    intro x y hx hy hlt s hs t ht heq
    obtain ⟨s', hs'⟩ := hrows x hx
    obtain ⟨t', ht'⟩ := hrows y hy
    rw [hs'.sessionOfBytes_iff.mp hs, ht'.sessionOfBytes_iff.mp ht, heq,
      Std.ReflOrd.compare_self] at hlt
    cases hlt
  · intro s
    rw [List.mem_filterMap, Std.ExtTreeMap.mem_iff_isSome_getElem?]
    constructor
    · rintro ⟨key, hkey, hs⟩
      obtain ⟨t, ht⟩ := hrows key hkey
      rw [← ht.sessionOfBytes_iff.mp hs]
      exact (mem_start.mp hkey).1
    · intro hsome
      exact ⟨_, mem_start.mpr ⟨hsome, begins_self _ _⟩, sessionOfBytes_sessionKey s⟩

end

/-!
# The hyphenated form
-/

theorem utf8ByteSize_ascii {cs : List Char}
    (h : forall c, c ∈ cs -> c.utf8Size = 1) :
    (String.ofList cs).utf8ByteSize = cs.length := by
  induction cs with
  | nil => rfl
  | cons c rest ih =>
      rw [String.ofList_cons, String.utf8ByteSize_append,
        String.utf8ByteSize_singleton, h c List.mem_cons_self,
        ih (fun c hc => h c (List.mem_cons_of_mem _ hc)), List.length_cons]
      omega

theorem digitChar_ascii : forall n, n < 16 -> (Nat.digitChar n).utf8Size = 1 := by
  decide

theorem hexDigits_ascii (k n : Nat) {c : Char} (hc : c ∈ hexDigits k n) :
    c.utf8Size = 1 := by
  induction k generalizing n with
  | zero => cases hc
  | succ k ih =>
      rcases List.mem_append.mp hc with hrest | hlast
      · exact ih (n / 16) hrest
      · rw [List.mem_singleton.mp hlast]
        exact digitChar_ascii _ (Nat.mod_lt n (by omega))

theorem ascii_hyphenatedText : @AsciiUuidText hyphenatedText := by
  let _ := hyphenatedText
  refine ⟨fun id => ?_⟩
  have hascii : forall c, c ∈ hyphenate (hexDigits 32 id.toNat) ->
      c.utf8Size = 1 := by
    intro c hc
    by_cases hdash : c = '-'
    · rw [hdash]
      decide
    · have hdigit : c ∈ (hyphenate (hexDigits 32 id.toNat)).filter (· != '-') :=
        List.mem_filter.mpr ⟨hc, by simpa using hdash⟩
      rw [hyphenate_filter] at hdigit
      exact hexDigits_ascii 32 id.toNat (List.mem_filter.mp hdigit).1
  have hsize : (hyphenated id).utf8ByteSize =
      (hyphenate (hexDigits 32 id.toNat)).length :=
    utf8ByteSize_ascii hascii
  have hlength := length_hyphenate (length_hexDigits 32 id.toNat)
  exact hsize.trans hlength

attribute [local instance] hyphenatedText lawful_hyphenatedText
  ascii_hyphenatedText

def twoSessions : List (List (Edit StoredKey Nat)) :=
  [[Edit.put (StoredKey.session 1) 0, Edit.put (StoredKey.update 1 2) 1,
      Edit.put (StoredKey.summary 1) 2],
    [Edit.put (StoredKey.update 3 4) 3, Edit.put (StoredKey.session 5) 4,
      Edit.put (StoredKey.symbolDep "a" "b") 5]]

theorem sessions_listed_once_pair :
    exists ids : List Uuid,
      (forall fuel, (written twoSessions).keys.length < fuel ->
        listSessionIds fuel (written twoSessions) = some ids) ∧
      ids.Nodup ∧
      forall s, s ∈ ids ↔ bytesOf (sessionKey s) ∈ written twoSessions :=
  sessions_listed_once twoSessions

example : listSessionIds 7 (written twoSessions) = some [1, 5] := by
  decide +kernel

end SkipScan
end Storage
end PostCortex

import PostCortex.Core.UuidText
import PostCortex.KeyValue.KeyOrder

/-!
# Keys of the stored records

The keys of `rocksdb_storage/sessions.rs` and `rocksdb_storage/messages.rs`.
An id has one length in every key, so the keys of two kinds or of two sessions
are never equal, and the prefix of one session's keys starts no other key.
-/

namespace PostCortex
namespace Storage

open PostCortex.Core
open KeyValue

section

variable [UuidText]

def sessionKey (sessionId : Uuid) : String :=
  "session:" ++ UuidText.toText sessionId

def updateKey (sessionId updateId : Uuid) : String :=
  "session:" ++ UuidText.toText sessionId ++ ":update:" ++
    UuidText.toText updateId

theorem updateKey_eq (s u : Uuid) :
    updateKey s u =
      "session:" ++ UuidText.toText s ++ (":update:" ++ UuidText.toText u) :=
  String.append_assoc ..

def updateIndexKey (sessionId : Uuid) : String :=
  "session_updates:" ++ UuidText.toText sessionId

def metaKey (sessionId : Uuid) : String :=
  "session_meta:" ++ UuidText.toText sessionId

def padded (width n : Nat) : String :=
  let digits := toString n
  String.ofList (List.replicate (width - digits.length) '0') ++ digits

def messageKey (sessionId : Uuid) (seq : Nat) : String :=
  "message:" ++ UuidText.toText sessionId ++ ":" ++ padded 20 seq

def messageTurnKey (sessionId : Uuid) (turnId : String) : String :=
  "message_turn:" ++ UuidText.toText sessionId ++ ":" ++ turnId

def messageNextKey (sessionId : Uuid) : String :=
  "message_next:" ++ UuidText.toText sessionId

def sessionPrefix (kind : String) (sessionId : Uuid) : String :=
  kind ++ UuidText.toText sessionId ++ ":"

end

def hasPrefix (p key : String) : Bool :=
  p.toList.isPrefixOf key.toList

theorem hasPrefix_iff {p key : String} :
    hasPrefix p key = true ↔ p.toList <+: key.toList :=
  List.isPrefixOf_iff_prefix

theorem hasPrefix_append (p rest : String) : hasPrefix p (p ++ rest) = true := by
  rw [hasPrefix_iff, String.toList_append]
  exact List.prefix_append _ _

theorem toList_padded (width n : Nat) :
    (padded width n).toList = paddedDigits width n := by
  rw [padded, paddedDigits, String.toList_append, String.toList_ofList,
    Nat.toString_eq_repr, Nat.toList_repr, ← String.length_toList,
    Nat.toList_repr]

variable {width m n : Nat}

theorem padded_inj (h : padded width m = padded width n) :
    m = n := by
  have hlist := congrArg String.toList h
  rw [toList_padded, toList_padded] at hlist
  exact paddedDigits_inj hlist

theorem padded_lt_iff (hm : m < 10 ^ (width + 1)) (hn : n < 10 ^ (width + 1)) :
    (padded (width + 1) m).toList < (padded (width + 1) n).toList ↔ m < n := by
  rw [toList_padded, toList_padded, paddedDigits_lt_iff hm hn]

variable {common : String}

theorem prefix_of_between {key x y : String}
    (hfrom : (compare (common ++ x) key).isLE = true)
    (hto : compare key (common ++ y) = Ordering.lt) :
    hasPrefix common key = true := by
  rw [compare_isLE, String.toList_append] at hfrom
  rw [compare_eq_lt, String.toList_append] at hto
  exact hasPrefix_iff.mpr (prefix_between hfrom hto)

theorem compare_padded (hm : m < 10 ^ (width + 1)) (hn : n < 10 ^ (width + 1)) :
    compare (common ++ padded (width + 1) m) (common ++ padded (width + 1) n) =
      Ordering.lt ↔ m < n := by
  rw [compare_eq_lt, String.toList_append, String.toList_append,
    append_left_lt_iff, padded_lt_iff hm hn]

theorem isLE_padded (hm : m < 10 ^ (width + 1)) (hn : n < 10 ^ (width + 1)) :
    (compare (common ++ padded (width + 1) m)
      (common ++ padded (width + 1) n)).isLE = true ↔ m ≤ n := by
  rw [compare_isLE, String.toList_append, String.toList_append,
    append_left_lt_iff, padded_lt_iff hn hm, Nat.not_lt]

def Apart (a b : String) : Prop :=
  ¬ a.toList <+: b.toList ∧ ¬ b.toList <+: a.toList

instance (a b : String) : Decidable (Apart a b) :=
  inferInstanceAs (Decidable (_ ∧ _))

variable {a b : String}

theorem Apart.ne (h : Apart a b) (x y : String) :
    a ++ x ≠ b ++ y := by
  intro heq
  have hlist := congrArg String.toList heq
  rw [String.toList_append, String.toList_append] at hlist
  rcases List.prefix_or_prefix_of_prefix (List.prefix_append a.toList x.toList)
      (hlist ▸ List.prefix_append b.toList y.toList) with hab | hba
  · exact h.1 hab
  · exact h.2 hba

theorem Apart.hasPrefix (h : Apart a b) (x y : String) :
    hasPrefix (a ++ x) (b ++ y) = false := by
  rw [Bool.eq_false_iff, ne_eq, hasPrefix_iff, String.toList_append,
    String.toList_append]
  rintro ⟨rest, hrest⟩
  rw [List.append_assoc] at hrest
  rcases List.prefix_or_prefix_of_prefix
      (List.prefix_append a.toList (x.toList ++ rest))
      (hrest ▸ List.prefix_append b.toList y.toList) with hab | hba
  · exact h.1 hab
  · exact h.2 hba

theorem Apart.not_hasPrefix (h : Apart a b) (x : String) :
    Storage.hasPrefix a (b ++ x) = false := by
  have hkey := h.hasPrefix "" x
  rw [String.append_empty] at hkey
  exact hkey

section

variable [UuidText] [LawfulUuidText]

variable {kind : String} {s t : Uuid}

theorem id_of_append {x y : String}
    (h : kind ++ UuidText.toText s ++ x = kind ++ UuidText.toText t ++ y) :
    s = t ∧ x = y := by
  have hlist := congrArg String.toList h
  simp only [String.toList_append, List.append_assoc] at hlist
  have hrest := List.append_cancel_left hlist
  have hlength : (UuidText.toText s).toList.length =
      (UuidText.toText t).toList.length := by
    rw [String.length_toList, String.length_toList,
      LawfulUuidText.length_toText, LawfulUuidText.length_toText]
  obtain ⟨hid, hxy⟩ := List.append_inj hrest hlength
  exact ⟨toText_inj (String.toList_inj.mp hid), String.toList_inj.mp hxy⟩

theorem hasPrefix_sessionPrefix {y : String}
    (h : hasPrefix (sessionPrefix kind s) (kind ++ UuidText.toText t ++ y) =
      true) :
    s = t := by
  rw [hasPrefix_iff] at h
  obtain ⟨rest, hrest⟩ := h
  have heq : kind ++ UuidText.toText s ++ (":" ++ String.ofList rest) =
      kind ++ UuidText.toText t ++ y := by
    apply String.toList_inj.mp
    rw [← hrest]
    simp [sessionPrefix, List.append_assoc]
  exact (id_of_append heq).1

theorem updateKey_inj {u v : Uuid} (h : updateKey s u = updateKey t v) :
    s = t ∧ u = v := by
  rw [updateKey_eq, updateKey_eq] at h
  obtain ⟨hs, hrest⟩ := id_of_append h
  refine ⟨hs, ?_⟩
  have hlist := congrArg String.toList hrest
  simp only [String.toList_append] at hlist
  exact toText_inj (String.toList_inj.mp (List.append_cancel_left hlist))

end

end Storage
end PostCortex

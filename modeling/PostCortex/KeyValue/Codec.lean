import Mathlib.Algebra.Group.Nat.Defs
import Mathlib.Data.List.Basic

/-!
# Self-delimiting codecs

A codec writes a value as bytes and reads one value from the front of a byte
string.  Reading stops where the value ends, whatever follows.  Pairs, lists and
options of values are written one after the other and are self-delimiting again.
-/

namespace PostCortex
namespace KeyValue

abbrev Bytes : Type :=
  List UInt8

structure Codec (value : Type) where
  encode : value -> Bytes
  decode : Bytes -> Option (value × Bytes)
  decode_encode : forall x rest, decode (encode x ++ rest) = some (x, rest)

namespace Codec

variable {value other : Type}

def pair (c : Codec value) (d : Codec other) : Codec (value × other) where
  encode x := c.encode x.1 ++ d.encode x.2
  decode bytes :=
    (c.decode bytes).bind (fun x =>
      (d.decode x.2).map (fun y => ((x.1, y.1), y.2)))
  decode_encode := by
    intro x rest
    rw [List.append_assoc, c.decode_encode, Option.bind_some, d.decode_encode,
      Option.map_some]

def iso (c : Codec value) (parts : other -> value)
    (make : value -> Option other)
    (hmake : forall x, make (parts x) = some x) : Codec other where
  encode x := c.encode (parts x)
  decode bytes :=
    (c.decode bytes).bind (fun x => (make x.1).map (fun y => (y, x.2)))
  decode_encode := by
    intro x rest
    rw [c.decode_encode, Option.bind_some, hmake, Option.map_some]

def bool : Codec Bool where
  encode b := if b = true then [1] else [0]
  decode bytes :=
    match bytes with
    | 0 :: rest => some (false, rest)
    | 1 :: rest => some (true, rest)
    | _ => none
  decode_encode := by
    intro b rest
    cases b with
    | false | true => rfl

def option (c : Codec value) : Codec (Option value) where
  encode x :=
    match x with
    | none => [0]
    | some x => 1 :: c.encode x
  decode bytes :=
    match bytes with
    | 0 :: rest => some (none, rest)
    | 1 :: rest => (c.decode rest).map (fun x => (some x.1, x.2))
    | _ => none
  decode_encode := by
    intro x rest
    cases x with
    | none =>
        rfl
    | some x =>
        exact congrArg (Option.map _) (c.decode_encode x rest)

def decodeItems (c : Codec value) : Nat -> Bytes -> Option (List value × Bytes)
  | 0, bytes => some ([], bytes)
  | n + 1, bytes =>
      (c.decode bytes).bind (fun x =>
        (c.decodeItems n x.2).map (fun xs => (x.1 :: xs.1, xs.2)))

theorem decodeItems_flatMap (c : Codec value) (xs : List value) (rest : Bytes) :
    c.decodeItems xs.length (xs.flatMap c.encode ++ rest) = some (xs, rest) := by
  induction xs with
  | nil =>
      rfl
  | cons x xs ih =>
      rw [List.flatMap_cons, List.append_assoc, List.length_cons, decodeItems,
        c.decode_encode, Option.bind_some, ih, Option.map_some]

def list (count : Codec Nat) (c : Codec value) : Codec (List value) where
  encode xs := count.encode xs.length ++ xs.flatMap c.encode
  decode bytes := (count.decode bytes).bind (fun n => c.decodeItems n.1 n.2)
  decode_encode := by
    intro xs rest
    rw [List.append_assoc, count.decode_encode, Option.bind_some,
      decodeItems_flatMap]

theorem decode_pair (c : Codec value) (d : Codec other) (bytes : Bytes) :
    (c.pair d).decode bytes =
      (c.decode bytes).bind (fun x =>
        (d.decode x.2).map (fun y => ((x.1, y.1), y.2))) :=
  rfl

theorem decode_iso (c : Codec value) (parts : other -> value)
    (make : value -> Option other)
    (hmake : forall x, make (parts x) = some x) (bytes : Bytes) :
    (c.iso parts make hmake).decode bytes =
      (c.decode bytes).bind (fun x => (make x.1).map (fun y => (y, x.2))) :=
  rfl

theorem decode_list (count : Codec Nat) (c : Codec value) (bytes : Bytes) :
    (list count c).decode bytes =
      (count.decode bytes).bind (fun n => c.decodeItems n.1 n.2) :=
  rfl

/-!
# Missing bytes

A codec that finds no bytes fails, and so does one whose first or whose next
part finds none.
-/

def FailsOnEmpty (c : Codec value) : Prop :=
  c.decode [] = none

theorem failsOnEmpty_option (c : Codec value) : c.option.FailsOnEmpty :=
  rfl

theorem FailsOnEmpty.list {count : Codec Nat} (h : count.FailsOnEmpty)
    (c : Codec value) :
    (Codec.list count c).FailsOnEmpty := by
  rw [FailsOnEmpty, decode_list, h, Option.bind_none]

theorem FailsOnEmpty.pair {c : Codec value} (h : c.FailsOnEmpty)
    (d : Codec other) :
    (c.pair d).FailsOnEmpty := by
  rw [FailsOnEmpty, decode_pair, h, Option.bind_none]

theorem FailsOnEmpty.iso {c : Codec value} (h : c.FailsOnEmpty)
    (parts : other -> value) (make : value -> Option other)
    (hmake : forall x, make (parts x) = some x) :
    (c.iso parts make hmake).FailsOnEmpty := by
  rw [FailsOnEmpty, decode_iso, h, Option.bind_none]

theorem decode_pair_append (c : Codec value) {d : Codec other} (x : value)
    {bytes : Bytes} (h : d.decode bytes = none) :
    (c.pair d).decode (c.encode x ++ bytes) = none := by
  rw [decode_pair, c.decode_encode, Option.bind_some, h, Option.map_none]

theorem decode_pair_first (c : Codec value) {d : Codec other} (x : value)
    (h : d.FailsOnEmpty) :
    (c.pair d).decode (c.encode x) = none := by
  have hnone := c.decode_pair_append x h
  rwa [List.append_nil] at hnone

theorem decode_encode_nil (c : Codec value) (x : value) :
    c.decode (c.encode x) = some (x, []) := by
  have h := c.decode_encode x []
  rwa [List.append_nil] at h

/-!
# Numbers

A number of a fixed width, its last byte first, and numbers that take one byte
when they are small.
-/

def littleEndian : Nat -> Nat -> Bytes
  | 0, _ => []
  | width + 1, n => (n % 256).toUInt8 :: littleEndian width (n / 256)

def ofLittleEndian : Bytes -> Nat
  | [] => 0
  | b :: bytes => b.toNat + 256 * ofLittleEndian bytes

theorem length_littleEndian (width n : Nat) :
    (littleEndian width n).length = width := by
  induction width generalizing n with
  | zero =>
      rfl
  | succ width ih =>
      rw [littleEndian, List.length_cons, ih]

theorem toNat_toUInt8 {n : Nat} (h : n < 256) : n.toUInt8.toNat = n := by
  simp only [Nat.toUInt8, UInt8.toNat_ofNat']
  exact Nat.mod_eq_of_lt h

theorem ofLittleEndian_littleEndian {width n : Nat} (h : n < 256 ^ width) :
    ofLittleEndian (littleEndian width n) = n := by
  induction width generalizing n with
  | zero =>
      rw [Nat.pow_zero] at h
      rw [Nat.lt_one_iff.mp h]
      rfl
  | succ width ih =>
      rw [Nat.pow_succ] at h
      rw [littleEndian, ofLittleEndian, ih (by omega),
        toNat_toUInt8 (Nat.mod_lt _ (by omega))]
      omega

def decodeFixed (width : Nat) (bytes : Bytes) : Option (Nat × Bytes) :=
  if width ≤ bytes.length then
    some (ofLittleEndian (bytes.take width), bytes.drop width)
  else none

theorem decodeFixed_append {width n : Nat} (h : n < 256 ^ width) (rest : Bytes) :
    decodeFixed width (littleEndian width n ++ rest) = some (n, rest) := by
  have hlength := length_littleEndian width n
  have hshort : width ≤ (littleEndian width n ++ rest).length := by
    rw [List.length_append]
    omega
  rw [decodeFixed, if_pos hshort, List.take_left' hlength,
    List.drop_left' hlength, ofLittleEndian_littleEndian h]

def decodeUnary : Bytes -> Option (Nat × Bytes)
  | 0 :: rest => some (0, rest)
  | 1 :: rest => (decodeUnary rest).map (fun n => (n.1 + 1, n.2))
  | _ => none

theorem decodeUnary_append (n : Nat) (rest : Bytes) :
    decodeUnary (List.replicate n 1 ++ 0 :: rest) = some (n, rest) := by
  induction n with
  | zero =>
      rfl
  | succ n ih =>
      rw [List.replicate_succ, List.cons_append, decodeUnary, ih, Option.map_some]

/-- Numbers below `2^64` as bincode writes them; past these, where it writes
none, the number of ones. -/
def varint : Codec Nat where
  encode n :=
    if n < 251 then [n.toUInt8]
    else if n < 256 ^ 2 then 251 :: littleEndian 2 n
    else if n < 256 ^ 4 then 252 :: littleEndian 4 n
    else if n < 256 ^ 8 then 253 :: littleEndian 8 n
    else 255 :: (List.replicate n 1 ++ [0])
  decode bytes :=
    match bytes with
    | [] => none
    | b :: rest =>
        if b.toNat < 251 then some (b.toNat, rest)
        else if b = 251 then decodeFixed 2 rest
        else if b = 252 then decodeFixed 4 rest
        else if b = 253 then decodeFixed 8 rest
        else if b = 255 then decodeUnary rest
        else none
  decode_encode := by
    intro n rest
    by_cases hbyte : n < 251
    · have hn : n.toUInt8.toNat = n := toNat_toUInt8 (by omega)
      simp [hbyte, hn]
    · by_cases htwo : n < 256 ^ 2
      · rw [if_neg hbyte, if_pos htwo]
        exact decodeFixed_append htwo rest
      · by_cases hfour : n < 256 ^ 4
        · rw [if_neg hbyte, if_neg htwo, if_pos hfour]
          exact decodeFixed_append hfour rest
        · by_cases hwide : n < 256 ^ 8
          · rw [if_neg hbyte, if_neg htwo, if_neg hfour, if_pos hwide]
            exact decodeFixed_append hwide rest
          · rw [if_neg hbyte, if_neg htwo, if_neg hfour, if_neg hwide,
              List.cons_append, List.append_assoc]
            exact decodeUnary_append n rest

def byte : Codec UInt8 where
  encode b := [b]
  decode bytes :=
    match bytes with
    | [] => none
    | b :: rest => some (b, rest)
  decode_encode _ _ := rfl

def utf8 : Codec String :=
  (list varint byte).iso (fun s => s.toByteArray.data.toList)
    (fun bytes => String.fromUTF8? ⟨bytes.toArray⟩) (by
      intro s
      have hvalid : s.toByteArray.IsValidUTF8 := s.isValidUTF8
      rw [Array.toArray_toList]
      exact dif_pos hvalid)

end Codec
end KeyValue
end PostCortex

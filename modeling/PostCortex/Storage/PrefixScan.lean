import PostCortex.KeyValue.ByteKeys
import PostCortex.Storage.Keys

/-!
# Scans of the keys with a prefix

`prefix_upper_bound`, `scan_prefix` and `keys_with_prefix` of
`rocksdb_storage/core.rs`.  The iterator of the database is a parameter, of
which only its order and its bounds in total order mode are known.
-/

namespace PostCortex
namespace Storage
namespace PrefixScan

open KeyValue

/-!
# The bound
-/

/-- The loop over the bytes that `bound` has left, the last one first. -/
def popLoop : List UInt8 -> Option ByteKey
  | [] => none
  | last :: bound =>
      if last < 255 then some (bound.reverse ++ [last + 1]) else popLoop bound

def prefixUpperBound (start : ByteKey) : Option ByteKey :=
  popLoop start.reverse

theorem popLoop_eq (bytes : List UInt8) :
    popLoop bytes = (raiseLast bytes).map List.reverse := by
  induction bytes with
  | nil => rfl
  | cons last bound ih =>
      rw [popLoop, raiseLast]
      split
      · rw [Option.map_some, List.reverse_cons]
      · exact ih

theorem prefixUpperBound_eq (start : ByteKey) :
    prefixUpperBound start = upperBound start :=
  popLoop_eq _

theorem popLoop_eq_none {bytes : List UInt8} :
    popLoop bytes = none ↔ forall b, b ∈ bytes -> b = 255 := by
  induction bytes with
  | nil => simp [popLoop]
  | cons last bound ih =>
      rw [popLoop, List.forall_mem_cons]
      split
      · next hroom =>
        have hne : last ≠ 255 := by
          rintro rfl
          exact absurd hroom (UInt8.lt_irrefl 255)
        simp [hne]
      · next hroom =>
        have hmax : last = 255 := by
          have hlast := last.toNat_lt
          have h255 : (255 : UInt8).toNat = 255 := rfl
          rw [UInt8.lt_iff_toNat_lt] at hroom
          rw [← UInt8.toNat_inj]
          omega
        rw [ih]
        simp [hmax]

theorem begins_iff (start key : ByteKey) :
    start <+: key ↔
      (compare start key).isLE = true ∧ Below (prefixUpperBound start) key := by
  have hfrom : ¬ compare key start = Ordering.lt ↔ (compare start key).isLE = true := by
    constructor
    · intro hnot
      by_contra hle
      exact hnot (Std.OrientedCmp.lt_of_not_isLE hle)
    · exact Std.OrientedCmp.not_lt_of_isLE
  rw [prefixUpperBound_eq, ← between_iff, hfrom]

/-!
# The scan
-/

structure ReadOptions where
  totalOrderSeek : Bool
  iterateUpperBound : Option ByteKey

def ReadOptions.default : ReadOptions where
  totalOrderSeek := false
  iterateUpperBound := none

def prefixReadOpts (start : ByteKey) : ReadOptions :=
  let opts := { ReadOptions.default with totalOrderSeek := true }
  match prefixUpperBound start with
  | some upper => { opts with iterateUpperBound := some upper }
  | none => opts

section

variable {value : Type}

abbrev IteratorOpt (value : Type) : Type :=
  Database ByteKey value -> ByteKey -> ReadOptions -> List (ByteKey × value)

/-- In total order mode an iterator goes over the records from its first key on
and below its bound, in the order of the keys. -/
structure TotalOrder (iteratorOpt : IteratorOpt value) : Prop where
  ordered : forall db first opts, opts.totalOrderSeek = true ->
    (iteratorOpt db first opts).Pairwise
      (fun x y => compare x.1 y.1 = Ordering.lt)
  mem : forall db first opts, opts.totalOrderSeek = true -> forall key v,
    (key, v) ∈ iteratorOpt db first opts ↔
      db[key]? = some v ∧ (compare first key).isLE = true ∧
        Below opts.iterateUpperBound key

def scanPrefix (iteratorOpt : IteratorOpt value) (db : Database ByteKey value)
    (start : ByteKey) : List (ByteKey × value) :=
  iteratorOpt db start (prefixReadOpts start)

def keysWithPrefix (iteratorOpt : IteratorOpt value) (db : Database ByteKey value)
    (start : ByteKey) : List ByteKey :=
  (scanPrefix iteratorOpt db start).map Prod.fst

variable {iteratorOpt : IteratorOpt value}

theorem prefixReadOpts_eq (start : ByteKey) :
    prefixReadOpts start = ⟨true, prefixUpperBound start⟩ := by
  unfold prefixReadOpts
  cases prefixUpperBound start with
  | none | some upper => rfl

theorem mem_scanPrefix (h : TotalOrder iteratorOpt) {db : Database ByteKey value}
    {start key : ByteKey} {v : value} :
    (key, v) ∈ scanPrefix iteratorOpt db start ↔
      db[key]? = some v ∧ start <+: key := by
  rw [scanPrefix, prefixReadOpts_eq, h.mem db start _ rfl, begins_iff]

theorem ordered_scanPrefix (h : TotalOrder iteratorOpt) (db : Database ByteKey value)
    (start : ByteKey) :
    (scanPrefix iteratorOpt db start).Pairwise
      (fun x y => compare x.1 y.1 = Ordering.lt) := by
  rw [scanPrefix, prefixReadOpts_eq]
  exact h.ordered db start _ rfl

/-- A key begins with a prefix exactly when it is not before the prefix and
before its bound, which only a prefix without a byte below 255 does not have; so
a scan goes over the records with the prefix, in the order of their keys. -/
theorem prefix_scan_exact {value : Type} {iteratorOpt : IteratorOpt value}
    (h : TotalOrder iteratorOpt) :
    (forall start key : ByteKey, start <+: key ↔
      (compare start key).isLE = true ∧
        forall upper, prefixUpperBound start = some upper ->
          compare key upper = Ordering.lt) ∧
    (forall start : ByteKey, prefixUpperBound start = none ↔
      forall b, b ∈ start -> b = 255) ∧
    forall (db : Database ByteKey value) (start : ByteKey),
      (scanPrefix iteratorOpt db start).Pairwise
        (fun x y => compare x.1 y.1 = Ordering.lt) ∧
      forall key v, (key, v) ∈ scanPrefix iteratorOpt db start ↔
        db[key]? = some v ∧ start <+: key := by
  refine ⟨?_, ?_, ?_⟩
  · exact begins_iff
  · intro start
    rw [prefixUpperBound, popLoop_eq_none]
    simp only [List.mem_reverse]
  · exact fun db start =>
      ⟨ordered_scanPrefix h db start, fun key v => mem_scanPrefix h⟩

def iterate (db : Database ByteKey value) (first : ByteKey) (opts : ReadOptions) :
    List (ByteKey × value) :=
  db.toList.filter (fun e =>
    decide ((compare first e.1).isLE = true ∧ Below opts.iterateUpperBound e.1))

theorem totalOrder_iterate : TotalOrder (@iterate value) where
  ordered db first opts _ :=
    Std.ExtTreeMap.ordered_keys_toList.filter _
  mem db first opts _ key v := by
    rw [iterate, List.mem_filter, decide_eq_true_iff,
      Std.ExtTreeMap.mem_toList_iff_getElem?_eq_some]

end

/-- Keys around those with the prefix `[1, 255]`, whose bound is `[2]`. -/
def carried : Database ByteKey Nat :=
  Database.write ∅
    [Edit.put [2] 0, Edit.put [1, 255, 255] 1, Edit.put [1, 254, 255] 2,
      Edit.put [1, 255] 3, Edit.put [1] 4, Edit.put [1, 255, 0] 5]

theorem carried_scanned :
    (keysWithPrefix iterate carried [1, 255] =
      [[1, 255], [1, 255, 0], [1, 255, 255]]) ∧
    forall key v, (key, v) ∈ scanPrefix iterate carried [1, 255] ↔
      carried[key]? = some v ∧ [1, 255] <+: key :=
  ⟨by decide +kernel, ((prefix_scan_exact totalOrder_iterate).2.2 carried [1, 255]).2⟩

end PrefixScan
end Storage
end PostCortex

import Std.Data.ExtTreeMap
import Mathlib.Data.List.Find
import Mathlib.Data.List.Induction

/-!
# Ordered key-value databases

A database maps keys to values and lists its keys in order.  A batch of edits
is written as a whole, its edits one after the other.  The lemmas say what a
key holds after a batch, for the batches a program writes: puts for a list of
items, and deletions of a list of keys.
-/

namespace PostCortex
namespace KeyValue

variable {key value item : Type}

namespace Database

section

variable [DecidableEq key] {f : item -> key} {k : key} {items : List item} {x : item}
  {p : item -> Bool}

def lastWith (f : item -> key) (k : key) (items : List item) :
    Option item :=
  items.reverse.find? (fun x => f x = k)

theorem lastWith_snoc (f : item -> key) (k : key) (items : List item) (x : item) :
    lastWith f k (items ++ [x]) = if f x = k then some x else lastWith f k items := by
  rw [lastWith, List.reverse_append, List.reverse_singleton, List.singleton_append,
    List.find?_cons]
  by_cases hx : f x = k
  · simp [hx]
  · simp [hx, lastWith]

theorem lastWith_eq_none :
    lastWith f k items = none ↔ forall x, x ∈ items -> f x ≠ k := by
  simp [lastWith]

theorem lastWith_some (h : lastWith f k items = some x) : x ∈ items ∧ f x = k := by
  have hkey := List.find?_some h
  exact ⟨List.mem_reverse.mp (List.mem_of_find?_eq_some h), by simpa using hkey⟩

theorem lastWith_append (f : item -> key) (k : key) (items more : List item) :
    lastWith f k (items ++ more) = (lastWith f k more).or (lastWith f k items) := by
  rw [lastWith, List.reverse_append, List.find?_append]
  rfl

theorem lastWith_filter {q : Prop} [Decidable q]
    (items : List item) (hp : forall x, x ∈ items -> f x = k -> (p x = true ↔ q)) :
    lastWith f k (items.filter p) = if q then lastWith f k items else none := by
  induction items using List.reverseRecOn with
  | nil =>
      simp [lastWith]
  | append_singleton xs x ih =>
      have hbefore := ih (fun y hy => hp y (List.mem_append_left _ hy))
      rw [List.filter_append, lastWith_append, hbefore, lastWith_snoc]
      by_cases hx : f x = k
      · have hq := hp x (by simp) hx
        by_cases hpx : p x = true
        · rw [List.filter_cons_of_pos hpx, if_pos (hq.mp hpx), if_pos hx]
          simp [lastWith, hx, hq.mp hpx]
        · rw [List.filter_cons_of_neg hpx, if_neg (fun h => hpx (hq.mpr h)),
            if_neg (fun h => hpx (hq.mpr h))]
          rfl
      · rw [if_neg hx]
        have hnone : lastWith f k ([x].filter p) = none := by
          rw [lastWith_eq_none]
          intro y hy
          rw [List.mem_singleton.mp (List.mem_filter.mp hy).1]
          exact hx
        rw [hnone, Option.none_or]

theorem lastWith_map {source : Type} (f : item -> key)
    (g : source -> item) (k : key) (items : List source) :
    lastWith f k (items.map g) = (lastWith (fun x => f (g x)) k items).map g := by
  rw [lastWith, lastWith, ← List.map_reverse, List.find?_map]
  rfl

theorem lastWith_congr {other : Type} [DecidableEq other]
    {f' : item -> other} {k' : other}
    (h : forall x, x ∈ items -> (f x = k ↔ f' x = k')) :
    lastWith f k items = lastWith f' k' items := by
  rw [lastWith, lastWith]
  apply List.find?_congr
  intro x hx
  simp [h x (List.mem_reverse.mp hx)]

end

theorem mapM_rows {row error : Type} (read : row -> Except error item)
    (write : item -> row) (hread : forall x, read (write x) = Except.ok x)
    {rows : List row} (hrows : forall r, r ∈ rows -> exists x, r = write x) :
    exists items, rows.mapM read = Except.ok items ∧
      rows = items.map write := by
  induction rows with
  | nil =>
      exact ⟨[], rfl, rfl⟩
  | cons r rest ih =>
      obtain ⟨x, rfl⟩ := hrows r List.mem_cons_self
      obtain ⟨items, hitems, hmap⟩ :=
        ih (fun r hr => hrows r (List.mem_cons_of_mem _ hr))
      refine ⟨x :: items, ?_, ?_⟩
      · rw [List.mapM_cons, hread, hitems]
        rfl
      · rw [List.map_cons, hmap]

end Database

variable [Ord key] [Std.TransOrd key]

abbrev Database (key value : Type) [Ord key] : Type :=
  Std.ExtTreeMap key value

inductive Edit (key value : Type) where
  | put (k : key) (v : value)
  | delete (k : key)
  deriving DecidableEq, Repr

def Edit.target : Edit key value -> key
  | Edit.put k _ => k
  | Edit.delete k => k

namespace Database

def apply (db : Database key value) : Edit key value -> Database key value
  | Edit.put k v => db.insert k v
  | Edit.delete k => db.erase k

def write (db : Database key value) (batch : List (Edit key value)) :
    Database key value :=
  batch.foldl apply db

def keysWhere (db : Database key value) (p : key -> Bool) : List key :=
  db.keys.filter p

@[simp] theorem write_nil (db : Database key value) :
    db.write [] = db :=
  rfl

theorem write_cons (db : Database key value) (e : Edit key value)
    (batch : List (Edit key value)) :
    db.write (e :: batch) = (db.apply e).write batch :=
  rfl

theorem write_append (db : Database key value)
    (batch more : List (Edit key value)) :
    db.write (batch ++ more) = (db.write batch).write more := by
  simp [write]

variable [Std.LawfulEqOrd key]

theorem get_insert (db : Database key value) (k k' : key) (v : value)
    [Decidable (k = k')] :
    (db.insert k v)[k']? = if k = k' then some v else db[k']? := by
  rw [Std.ExtTreeMap.getElem?_insert]
  exact if_congr Std.LawfulEqCmp.compare_eq_iff_eq rfl rfl

variable {k : key}

omit [Std.LawfulEqOrd key] in
theorem size_insert_fresh (db : Database key value) (hfresh : k ∉ db) (v : value) :
    (db.insert k v).size = db.size + 1 := by
  have habsent : ¬ db.contains k = true :=
    fun h => hfresh (Std.ExtTreeMap.mem_iff_contains.mpr h)
  exact Std.ExtTreeMap.size_insert.trans (if_neg habsent)

theorem get_put_self (db : Database key value) (k : key) (v : value) :
    (db.apply (Edit.put k v))[k]? = some v := by
  simp [apply]

theorem get_delete_self (db : Database key value) (k : key) :
    (db.apply (Edit.delete k))[k]? = none := by
  simp [apply]

theorem get_apply_other (db : Database key value) {e : Edit key value}
    (hk : e.target ≠ k) :
    (db.apply e)[k]? = db[k]? := by
  cases e with
  | put k' v =>
      have hne : k' ≠ k := hk
      simp [apply, Std.ExtTreeMap.getElem?_insert, hne]
  | delete k' =>
      have hne : k' ≠ k := hk
      simp [apply, Std.ExtTreeMap.getElem?_erase, hne]

variable {batch : List (Edit key value)}

theorem get_write_other (db : Database key value)
    (hk : forall e, e ∈ batch -> e.target ≠ k) :
    (db.write batch)[k]? = db[k]? := by
  induction batch generalizing db with
  | nil =>
      rfl
  | cons e rest ih =>
      rw [write_cons, ih _ (fun e' he' => hk e' (List.mem_cons_of_mem _ he')),
        get_apply_other db (hk e (List.mem_cons_self ..))]

variable {db : Database key value}

theorem get_write_some {v : value} (h : (db.write batch)[k]? = some v) :
    db[k]? = some v ∨ Edit.put k v ∈ batch := by
  induction batch generalizing db with
  | nil =>
      exact Or.inl h
  | cons e rest ih =>
      rw [write_cons] at h
      rcases ih h with hfirst | hrest
      · by_cases hk : e.target = k
        · cases e with
          | put k' v' =>
              have hk' : k' = k := hk
              subst hk'
              rw [get_put_self] at hfirst
              cases hfirst
              exact Or.inr List.mem_cons_self
          | delete k' =>
              have hk' : k' = k := hk
              subst hk'
              rw [get_delete_self] at hfirst
              cases hfirst
        · rw [get_apply_other db hk] at hfirst
          exact Or.inl hfirst
      · exact Or.inr (List.mem_cons_of_mem _ hrest)

theorem mem_keysWhere {p : key -> Bool} :
    k ∈ db.keysWhere p ↔ db[k]?.isSome = true ∧ p k = true := by
  rw [keysWhere, List.mem_filter, Std.ExtTreeMap.mem_keys,
    Std.ExtTreeMap.mem_iff_isSome_getElem?]

def deletes (ks : List key) : List (Edit key value) :=
  ks.map Edit.delete

omit [Ord key] [Std.TransOrd key] [Std.LawfulEqOrd key] in
theorem not_mem_deletes {ks : List key} {v : value} :
    Edit.put k v ∉ deletes ks := by
  intro h
  obtain ⟨k', _, heq⟩ := List.mem_map.mp h
  cases heq

theorem get_write_deletes (db : Database key value) (ks : List key)
    (k : key) [Decidable (k ∈ ks)] :
    (db.write (deletes ks))[k]? = if k ∈ ks then none else db[k]? := by
  have hmem : forall (ks : List key) (db : Database key value),
      k ∈ ks -> (db.write (deletes ks))[k]? = none := by
    intro ks
    induction ks with
    | nil =>
        intro db hk
        cases hk
    | cons k' rest ih =>
        intro db hk
        by_cases hrest : k ∈ rest
        · exact ih _ hrest
        · have hself : k = k' := (List.mem_cons.mp hk).resolve_right hrest
          subst hself
          rw [deletes, List.map_cons, write_cons, get_write_other,
            get_delete_self]
          intro e he
          obtain ⟨k', hk', rfl⟩ := List.mem_map.mp he
          intro heq
          exact hrest (heq ▸ hk')
  split
  · next hk => exact hmem ks db hk
  · next hk =>
    apply get_write_other
    intro e he
    obtain ⟨k', hk', rfl⟩ := List.mem_map.mp he
    intro heq
    exact hk (heq ▸ hk')

theorem isSome_write_puts (db : Database key value)
    (hputs : forall e, e ∈ batch -> exists k v, e = Edit.put k v) (k : key) :
    (db.write batch)[k]?.isSome = true ↔
      (exists e, e ∈ batch ∧ e.target = k) ∨ db[k]?.isSome = true := by
  induction batch generalizing db with
  | nil =>
      simp
  | cons e rest ih =>
      obtain ⟨k', v, rfl⟩ := hputs e List.mem_cons_self
      rw [write_cons, ih _ (fun e he => hputs e (List.mem_cons_of_mem _ he))]
      by_cases hk : k' = k
      · subst hk
        rw [get_put_self]
        simp [Edit.target]
      · have hother : (Edit.put k' v).target ≠ k := hk
        rw [get_apply_other db hother]
        simp [hother]

def puts (f : item -> key) (g : item -> value) (items : List item) :
    List (Edit key value) :=
  items.map (fun x => Edit.put (f x) (g x))

omit [Std.LawfulEqOrd key] in
theorem write_puts_snoc (db : Database key value) (f : item -> key)
    (g : item -> value) (items : List item) (x : item) :
    db.write (puts f g (items ++ [x])) =
      (db.write (puts f g items)).apply (Edit.put (f x) (g x)) := by
  rw [puts, List.map_append, write_append]
  rfl

variable {f : item -> key} {items : List item}

theorem get_write_puts_other (db : Database key value) (g : item -> value)
    (hk : forall x, x ∈ items -> f x ≠ k) :
    (db.write (puts f g items))[k]? = db[k]? := by
  apply get_write_other
  intro e he
  obtain ⟨x, hx, rfl⟩ := List.mem_map.mp he
  exact hk x hx

variable {x : item}

theorem get_write_puts_mem (db : Database key value) (g : item -> value)
    (hx : x ∈ items) :
    exists y, y ∈ items ∧ f y = f x ∧
      (db.write (puts f g items))[f x]? = some (g y) := by
  induction items using List.reverseRecOn with
  | nil =>
      cases hx
  | append_singleton xs z ih =>
      rw [write_puts_snoc]
      by_cases hkey : f z = f x
      · refine ⟨z, by simp, hkey, ?_⟩
        rw [← hkey, get_put_self]
      · have hold : x ∈ xs := by
          rcases List.mem_append.mp hx with hxs | hz
          · exact hxs
          · exact absurd (congrArg f (List.mem_singleton.mp hz).symm) hkey
        obtain ⟨y, hy, hfy, hget⟩ := ih hold
        refine ⟨y, List.mem_append_left _ hy, hfy, ?_⟩
        have hother : (Edit.put (f z) (g z)).target ≠ f x := hkey
        rw [get_apply_other _ hother, hget]

variable {g : item -> value} {p : item -> Bool}

theorem get_write_puts (db : Database key value)
    (hone : forall x, x ∈ items -> forall y, y ∈ items -> f x = f y ->
      g x = g y) (hx : x ∈ items) :
    (db.write (puts f g items))[f x]? = some (g x) := by
  obtain ⟨y, hy, hkey, hget⟩ := get_write_puts_mem db (f := f) g hx
  rw [hget, hone y hy x hx hkey]

theorem get_write_puts_last [DecidableEq key] (db : Database key value)
    (f : item -> key) (g : item -> value) (items : List item) (k : key) :
    (db.write (puts f g items))[k]? = ((lastWith f k items).map g).or db[k]? := by
  induction items using List.reverseRecOn with
  | nil =>
      rfl
  | append_singleton xs z ih =>
      rw [write_puts_snoc, lastWith_snoc]
      by_cases hz : f z = k
      · rw [if_pos hz, ← hz, get_put_self]
        rfl
      · have hother : (Edit.put (f z) (g z)).target ≠ k := hz
        rw [if_neg hz, get_apply_other _ hother, ih]

theorem write_puts_filter (hheld : forall x, x ∈ items -> p x = false ->
      db[f x]? = some (g x) ∧ forall y, y ∈ items -> f y = f x -> g y = g x) :
    db.write (puts f g (items.filter p)) = db.write (puts f g items) := by
  induction items using List.reverseRecOn with
  | nil =>
      rfl
  | append_singleton xs z ih =>
      have hbefore := ih (fun x hx hpx =>
        ⟨(hheld x (List.mem_append_left _ hx) hpx).1, fun y hy =>
          (hheld x (List.mem_append_left _ hx) hpx).2 y (List.mem_append_left _ hy)⟩)
      rw [List.filter_append, write_puts_snoc, ← hbefore]
      cases hz : p z with
      | true =>
          rw [List.filter_cons_of_pos hz, List.filter_nil, write_puts_snoc]
      | false =>
          have hnot : ¬ p z = true := by
            rw [hz]
            exact Bool.false_ne_true
          rw [List.filter_cons_of_neg hnot, List.filter_nil, List.append_nil]
          have hself := hheld z (by simp) hz
          have hget : (db.write (puts f g xs))[f z]? = some (g z) := by
            by_cases hx : exists x, x ∈ xs ∧ f x = f z
            · obtain ⟨x, hmem, hkey⟩ := hx
              obtain ⟨y, hy, hfy, hput⟩ := get_write_puts_mem db (f := f) g hmem
              rw [← hkey, hput, hself.2 y (List.mem_append_left _ hy) (hfy.trans hkey)]
            · rw [get_write_puts_other db g (fun x hmem hkey => hx ⟨x, hmem, hkey⟩)]
              exact hself.1
          rw [hbefore]
          apply Std.ExtTreeMap.ext_getElem?
          intro k
          by_cases hk : f z = k
          · rw [← hk, get_put_self, hget]
          · have hother : (Edit.put (f z) (g z)).target ≠ k := hk
            rw [get_apply_other _ hother]

/-!
# Scans
-/

/-- The records with keys from `first` up to `last`, in the order of the
keys. -/
def scan (db : Database key value) (first last : key) : List (key × value) :=
  db.toList.filter (fun e =>
    (compare first e.1).isLE && compare e.1 last == Ordering.lt)

theorem mem_scan {first last : key} {e : key × value} :
    e ∈ db.scan first last ↔
      db[e.1]? = some e.2 ∧ (compare first e.1).isLE = true ∧
        compare e.1 last = Ordering.lt := by
  rw [scan, List.mem_filter, Bool.and_eq_true, beq_iff_eq]
  rw [show e = (e.1, e.2) from rfl,
    Std.ExtTreeMap.mem_toList_iff_getElem?_eq_some]

omit [Std.LawfulEqOrd key] in
theorem pairwise_scan (db : Database key value) (first last : key) :
    (db.scan first last).Pairwise (fun x y => compare x.1 y.1 = Ordering.lt) :=
  (Std.ExtTreeMap.ordered_keys_toList (t := db)).filter _

theorem mem_values {db : Database key value} {v : value} :
    v ∈ db.toList.map Prod.snd ↔ exists k : key, db[k]? = some v := by
  simp only [List.mem_map, Prod.exists, Std.ExtTreeMap.mem_toList_iff_getElem?_eq_some,
    exists_eq_right]

theorem mem_read {db : Database key value} {read : key × value -> Option item}
    {p : key -> Prop} {g : item -> value} {x : item}
    (h : forall k v, read (k, v) = some x ↔ v = g x ∧ p k) :
    x ∈ db.toList.filterMap read ↔ exists k, p k ∧ db[k]? = some (g x) := by
  rw [List.mem_filterMap]
  constructor
  · rintro ⟨⟨k, v⟩, hmem, hread⟩
    obtain ⟨rfl, hk⟩ := (h k v).mp hread
    exact ⟨k, hk, Std.ExtTreeMap.mem_toList_iff_getElem?_eq_some.mp hmem⟩
  · rintro ⟨k, hk, hdb⟩
    exact ⟨(k, _), Std.ExtTreeMap.mem_toList_iff_getElem?_eq_some.mpr hdb,
      (h k _).mpr ⟨rfl, hk⟩⟩

omit [Std.LawfulEqOrd key] in
theorem pairwise_read (db : Database key value) {read : key × value -> Option item}
    (h : forall e x, e ∈ db.toList -> read e = some x -> e.1 = f x) :
    (db.toList.filterMap read).Pairwise (fun x y => f x ≠ f y) := by
  rw [List.pairwise_filterMap]
  refine (Std.ExtTreeMap.ordered_keys_toList (t := db)).imp_of_mem ?_
  intro e e' he he' hlt x hx y hy heq
  rw [h e x he hx, h e' y he' hy, heq, Std.ReflOrd.compare_self] at hlt
  cases hlt

end Database
end KeyValue
end PostCortex

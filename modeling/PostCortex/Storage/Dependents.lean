import PostCortex.Storage.FileIndex

/-!
# Dependent symbols

A cascade in terms of the symbols and dependencies registered, for symbols
whose keys tell their file from their name.
-/

namespace PostCortex
namespace Storage
namespace Freshness

open KeyValue
open Search
open Transition

structure Symbol where
  filePath : String
  symbolName : String
  deriving DecidableEq, Repr

def SymbolId.symbol (s : SymbolId) : Symbol where
  filePath := s.filePath
  symbolName := s.symbolName

def Symbol.key (s : Symbol) : String :=
  symbolKey s.filePath s.symbolName

/-- The first `::` of a key with this path is the one after the path. -/
def PlainPath (filePath : String) : Prop :=
  splitOnceFrom [] (filePath.toList ++ [':', ':']) = some (filePath.toList, [])

instance (filePath : String) : Decidable (PlainPath filePath) :=
  inferInstanceAs (Decidable (_ = _))

def Symbol.Plain (s : Symbol) : Prop :=
  PlainPath s.filePath ∧ '|' ∉ s.key.toList

instance (s : Symbol) : Decidable s.Plain :=
  inferInstanceAs (Decidable (_ ∧ _))

/-- A dependency on `target` is one on `s`: it names `s` itself, or its name
without a file. -/
def Matches (target s : Symbol) : Prop :=
  target = s ∨ target.filePath = "" ∧ target.symbolName = s.symbolName

/-- A dependency on `target` is stored under one of the two keys that a cascade
looks up for `s`, its own and that of the last segment of its name. -/
def Found (target s : Symbol) : Prop :=
  target = s ∨ target.symbolName = lastSegment s.symbolName ∨
    s.filePath = "" ∧ target.symbolName = s.symbolName

/-- Symbols that depend on the changed one in `n` steps. -/
inductive Depends (edges : List (SymbolId × SymbolId)) (changed : Symbol) :
    Nat -> Symbol -> Prop where
  | self : Depends edges changed 0 changed
  | step {n : Nat} {s : Symbol} {e : SymbolId × SymbolId} :
      Depends edges changed n s ->
      e ∈ edges ->
      Matches e.2.symbol s ->
      Depends edges changed (n + 1) e.1.symbol

/-- The dependencies on other symbols that share the name or its last segment
name no file, and the name is one segment. -/
def NameTells (edges : List (SymbolId × SymbolId)) (s : Symbol) : Prop :=
  forall e, e ∈ edges -> e.2.symbol ≠ s ->
    e.2.symbolName = lastSegment s.symbolName ∨
      e.2.symbolName = s.symbolName ∧ (e.2.filePath = "" ∨ s.filePath = "") ->
    e.2.filePath = "" ∧ lastSegment s.symbolName = s.symbolName

instance (edges : List (SymbolId × SymbolId)) (s : Symbol) :
    Decidable (NameTells edges s) :=
  inferInstanceAs (Decidable (forall e, e ∈ edges -> _ -> _ -> _))

theorem nameTells_iff {edges : List (SymbolId × SymbolId)} {s : Symbol} :
    NameTells edges s ↔
      forall e, e ∈ edges -> (Found e.2.symbol s ↔ Matches e.2.symbol s) := by
  have hsame : forall e : SymbolId × SymbolId, e.2.filePath = "" ->
      s.filePath = "" -> e.2.symbolName = s.symbolName -> e.2.symbol = s := by
    intro e hfile hpath hname
    rw [SymbolId.symbol, hfile, hname, ← hpath]
  constructor
  · intro h e he
    by_cases hself : e.2.symbol = s
    · exact ⟨fun _ => Or.inl hself, fun _ => Or.inl hself⟩
    constructor
    · rintro (heq | hsegment | ⟨hpath, hname⟩)
      · exact absurd heq hself
      · obtain ⟨hfile, hone⟩ := h e he hself (Or.inl hsegment)
        exact Or.inr ⟨hfile, hsegment.trans hone⟩
      · obtain ⟨hfile, _⟩ := h e he hself (Or.inr ⟨hname, Or.inr hpath⟩)
        exact Or.inr ⟨hfile, hname⟩
    · rintro (heq | ⟨hfile, hname⟩)
      · exact absurd heq hself
      · obtain ⟨_, hone⟩ := h e he hself (Or.inr ⟨hname, Or.inl hfile⟩)
        have hsegment : e.2.symbolName = lastSegment s.symbolName :=
          hname.trans hone.symm
        exact Or.inr (Or.inl hsegment)
  · rintro h e he hself (hsegment | ⟨hname, hfile | hpath⟩)
    · rcases (h e he).mp (Or.inr (Or.inl hsegment)) with heq | ⟨hfile, hname⟩
      · exact absurd heq hself
      · exact ⟨hfile, hsegment.symm.trans hname⟩
    · rcases (h e he).mpr (Or.inr ⟨hfile, hname⟩) with heq | hsegment | ⟨hpath, _⟩
      · exact absurd heq hself
      · have hone : lastSegment s.symbolName = s.symbolName :=
          hsegment.symm.trans hname
        exact ⟨hfile, hone⟩
      · exact absurd (hsame e hfile hpath hname) hself
    · rcases (h e he).mp (Or.inr (Or.inr ⟨hpath, hname⟩)) with heq | ⟨hfile, _⟩
      · exact absurd heq hself
      · exact absurd (hsame e hfile hpath hname) hself

/-!
# Splitting keys
-/

variable {before rest : List Char} {c : Char}

theorem splitOnceFrom_cons
    (hne : forall rest', c = ':' -> rest = ':' :: rest' -> False) :
    splitOnceFrom before (c :: rest) = splitOnceFrom (c :: before) rest :=
  splitOnceFrom.eq_2 before c rest hne

theorem lastSegmentFrom_cons {segment : List Char}
    (hne : forall rest', c = ':' -> rest = ':' :: rest' -> False) :
    lastSegmentFrom segment (c :: rest) = lastSegmentFrom (c :: segment) rest :=
  lastSegmentFrom.eq_2 segment c rest hne

theorem no_separator_append {d : Char} {zs : List Char}
    (hne : forall rest', c = ':' -> d :: rest = ':' :: rest' -> False) :
    forall rest', c = ':' -> d :: rest ++ zs = ':' :: rest' -> False := by
  rintro rest' rfl hrest
  obtain ⟨rfl, _⟩ := List.cons.inj hrest
  exact hne rest rfl rfl

variable {cs x y : List Char}

theorem splitOnceFrom_append (h : splitOnceFrom before cs = some (x, y))
    (zs : List Char) :
    splitOnceFrom before (cs ++ zs) = some (x, y ++ zs) := by
  induction before, cs using splitOnceFrom.induct with
  | case1 before rest =>
      cases h
      rfl
  | case2 before c rest hne ih =>
      rw [splitOnceFrom_cons hne] at h
      cases rest with
      | nil => cases h
      | cons d rest =>
          rw [List.cons_append, splitOnceFrom_cons (no_separator_append hne)]
          exact ih h
  | case3 before =>
      cases h

theorem lastSegmentFrom_append (h : splitOnceFrom before cs = some (x, y))
    (zs : List Char) :
    lastSegmentFrom before (cs ++ zs) = lastSegmentFrom [] (y ++ zs) := by
  induction before, cs using splitOnceFrom.induct with
  | case1 before rest =>
      cases h
      rfl
  | case2 before c rest hne ih =>
      rw [splitOnceFrom_cons hne] at h
      cases rest with
      | nil => cases h
      | cons d rest =>
          rw [List.cons_append, lastSegmentFrom_cons (no_separator_append hne)]
          exact ih h
  | case3 before =>
      cases h

theorem mem_lastSegmentFrom {segment : List Char}
    (h : c ∈ lastSegmentFrom segment cs) :
    c ∈ segment ∨ c ∈ cs := by
  induction segment, cs using lastSegmentFrom.induct with
  | case1 segment rest ih =>
      rcases ih h with hnil | hrest
      · cases hnil
      · exact Or.inr (List.mem_cons_of_mem _ (List.mem_cons_of_mem _ hrest))
  | case2 segment d rest hne ih =>
      rw [lastSegmentFrom_cons hne] at h
      rcases ih h with hsegment | hrest
      · rcases List.mem_cons.mp hsegment with rfl | hold
        · exact Or.inr List.mem_cons_self
        · exact Or.inl hold
      · exact Or.inr (List.mem_cons_of_mem _ hrest)
  | case3 segment =>
      exact Or.inl (List.mem_reverse.mp h)

theorem Symbol.toList_key (s : Symbol) :
    s.key.toList = s.filePath.toList ++ [':', ':'] ++ s.symbolName.toList := by
  rw [Symbol.key, symbolKey, String.toList_append, String.toList_append]
  rfl

variable {s : Symbol}

theorem PlainPath.split (h : PlainPath s.filePath) :
    splitOnceFrom [] s.key.toList =
      some (s.filePath.toList, s.symbolName.toList) := by
  rw [s.toList_key, splitOnceFrom_append h, List.nil_append]

theorem PlainPath.fileOf (h : PlainPath s.filePath) :
    fileOf s.key = some s.filePath := by
  rw [Freshness.fileOf, h.split, Option.map_some, String.ofList_toList]

theorem PlainPath.lastSegment (h : PlainPath s.filePath) :
    lastSegment s.key = lastSegment s.symbolName := by
  rw [Freshness.lastSegment, s.toList_key, lastSegmentFrom_append h,
    List.nil_append, Freshness.lastSegment]

theorem PlainPath.key_inj {t : Symbol} (hs : PlainPath s.filePath)
    (ht : PlainPath t.filePath) (h : s.key = t.key) :
    s = t := by
  have hsplit := hs.split
  rw [h, ht.split] at hsplit
  obtain ⟨hpath, hname⟩ := Prod.mk.inj (Option.some.inj hsplit)
  cases s
  cases t
  rw [String.toList_inj] at hpath hname
  cases hpath
  cases hname
  rfl

theorem plainPath_empty : PlainPath "" := by
  decide

theorem nameKey_eq (name : String) :
    "::" ++ name = Symbol.key ⟨"", name⟩ := by
  rw [Symbol.key, symbolKey, String.empty_append]

/-!
# Stored dependencies
-/

def ReverseKeyOf (e : SymbolId × SymbolId) (k : String) : Prop :=
  k = reverseKey e.2.symbol.key e.1.symbol.key ∨
    k = reverseKey ("::" ++ e.2.symbolName) e.1.symbol.key

/-- The reverse keys stored are those of the dependencies registered. -/
def Edged (s : Tracking) : Prop :=
  forall x y, s.db[reverseKey x y]?.isSome = true ↔
    exists e, e ∈ s.edges ∧ ReverseKeyOf e (reverseKey x y)

theorem forwardKey_ne_reverseKey (x y u v : String) :
    forwardKey x y ≠ reverseKey u v := by
  have hapart : Apart "symbol_dep:" "symbol_rdep:" := by
    decide
  rw [reverseKey_kind, forwardKey_kind]
  exact hapart.ne _ _

theorem dependencyEdits_put {source target : SymbolId}
    {e : Edit String FreshnessRecord} (he : e ∈ dependencyEdits source target) :
    exists k v, e = Edit.put k v := by
  unfold dependencyEdits at he
  dsimp only at he
  rcases List.mem_append.mp he with hboth | hname
  · simp only [List.mem_cons, List.not_mem_nil, or_false] at hboth
    rcases hboth with rfl | rfl
    · exact ⟨_, _, rfl⟩
    · exact ⟨_, _, rfl⟩
  · split at hname
    · cases hname
    · exact ⟨_, _, List.mem_singleton.mp hname⟩

theorem dependencyEdits_reverse (source target : SymbolId) (x y : String) :
    (exists e, e ∈ dependencyEdits source target ∧
      e.target = reverseKey x y) ↔
      ReverseKeyOf (source, target) (reverseKey x y) := by
  have hforward : forall u v, reverseKey x y ≠ forwardKey u v :=
    fun u v => (forwardKey_ne_reverseKey u v x y).symm
  unfold dependencyEdits ReverseKeyOf
  dsimp only
  by_cases hname : target.filePath = ""
  · have hkey : target.symbol.key = "::" ++ target.symbolName := by
      rw [nameKey_eq, SymbolId.symbol, hname]
    rw [if_pos hname, if_pos hname, hkey, or_self]
    simp [Edit.target, hforward, eq_comm, SymbolId.symbol, Symbol.key]
  · rw [if_neg hname, if_neg hname]
    simp [Edit.target, hforward, eq_comm, SymbolId.symbol, Symbol.key]

theorem depend_edged {s : Tracking} (h : Edged s) (source : SymbolId)
    (targets : List SymbolId) :
    Edged {
      db := (registerSymbolDependencies s.db source targets).1
      edges := s.edges ++ targets.map (fun target => (source, target)) } := by
  intro x y
  have hputs : forall e, e ∈ targets.flatMap (dependencyEdits source) ->
      exists k v, e = Edit.put k v := by
    intro e he
    obtain ⟨target, _, he⟩ := List.mem_flatMap.mp he
    exact dependencyEdits_put he
  rw [registerSymbolDependencies, Database.isSome_write_puts _ hputs, h x y]
  constructor
  · rintro (⟨e, he, htarget⟩ | ⟨e, he, hkey⟩)
    · obtain ⟨target, htarget', he⟩ := List.mem_flatMap.mp he
      refine ⟨(source, target), List.mem_append_right _
        (List.mem_map_of_mem htarget'), ?_⟩
      exact (dependencyEdits_reverse source target x y).mp ⟨e, he, htarget⟩
    · exact ⟨e, List.mem_append_left _ he, hkey⟩
  · rintro ⟨e, he, hkey⟩
    rcases List.mem_append.mp he with hold | hnew
    · exact Or.inr ⟨e, hold, hkey⟩
    · obtain ⟨target, htarget, rfl⟩ := List.mem_map.mp hnew
      obtain ⟨e, he, hk⟩ := (dependencyEdits_reverse source target x y).mpr hkey
      exact Or.inl ⟨e, List.mem_flatMap.mpr ⟨target, htarget, he⟩, hk⟩

theorem reverseKey_ne_source (x y : String) (r : SourceReference) :
    reverseKey x y ≠ sourceRefKey r.entryId ∧
      forall f z, reverseKey x y ≠ fileIndexKey f z := by
  have href : Apart "symbol_rdep:" "source_ref:" := by
    decide
  have hindex : Apart "symbol_rdep:" "source_by_file:" := by
    decide
  rw [reverseKey_kind]
  refine ⟨href.ne _ _, ?_⟩
  intro f z
  rw [fileIndexKey_kind]
  exact hindex.ne _ _

theorem step_edged {s s' : Tracking} {o : Operation} (hkeyed : Keyed s.db)
    (hedged : Edged s) (h : step s o = some s') :
    Edged s' := by
  have hremove : forall removed : List SourceReference,
      Edged { s with db := deleteReferences s.db removed } := by
    intro removed x y
    rw [deleteReferences_other]
    · exact hedged x y
    · intro r _
      exact ⟨(reverseKey_ne_source x y r).1, (reverseKey_ne_source x y r).2 _ _⟩
  cases step_cases hkeyed h with
  | @register r db' hdb' =>
      intro x y
      obtain ⟨hrow, hindex⟩ := reverseKey_ne_source x y r
      rw [hdb'.other _ hrow (hindex _ _) (fun _ _ _ _ => hindex _ _)]
      exact hedged x y
  | invalidate | cascade => exact hremove _
  | depend => exact depend_edged hedged _ _

theorem reachable_edged {start : FreshnessDb} (hstart : Untracked start)
    {s : Tracking} (h : (tracking start).Reachable System.Anything s) :
    Edged s := by
  refine h.invariant_of (Q := fun s => Keyed s.db) (P := Edged)
    (fun _ => reachable_keyed hstart) ?_
    (fun _ _ _ hkeyed hold _ hstep => step_edged hkeyed hold hstep)
  intro x y
  have hnone : start[reverseKey x y]? = none := by
    apply hstart
    rw [reverseKey_kind]
    exact Or.inr (Or.inr (hasPrefix_append _ _))
  have hinit : (tracking start).init.db[reverseKey x y]? = none := hnone
  rw [hinit]
  constructor
  · intro hsome
    cases hsome
  · rintro ⟨e, he, _⟩
    cases he

/-!
# Walks along keys and along symbols
-/

theorem reverseKey_inj {x y u v : String} (hx : '|' ∉ x.toList)
    (hu : '|' ∉ u.toList) (h : reverseKey x y = reverseKey u v) :
    x = u ∧ y = v := by
  rw [reverseKey_kind, reverseKey_kind] at h
  have hlist := congrArg String.toList ((String.append_right_inj _).mp h)
  simp only [String.toList_append] at hlist
  obtain ⟨hkey, hrest⟩ := split_at_mark hx hu hlist
  exact ⟨String.toList_inj.mp hkey, String.toList_inj.mp hrest⟩

def PlainEdges (edges : List (SymbolId × SymbolId)) : Prop :=
  forall e, e ∈ edges -> e.1.symbol.Plain ∧ e.2.symbol.Plain

instance (edges : List (SymbolId × SymbolId)) : Decidable (PlainEdges edges) :=
  inferInstanceAs (Decidable (forall e, e ∈ edges -> _ ∧ _))

theorem colons_no_bar : '|' ∉ "::".toList := by
  decide +kernel

theorem Symbol.Plain.name (h : s.Plain) :
    '|' ∉ ("::" ++ s.symbolName).toList := by
  have hbar := h.2
  rw [s.toList_key] at hbar
  rw [String.toList_append]
  simp only [List.mem_append, not_or] at hbar ⊢
  exact ⟨colons_no_bar, hbar.2⟩

theorem Symbol.Plain.segment (h : s.Plain) :
    '|' ∉ ("::" ++ lastSegment s.key).toList := by
  have hsegment : '|' ∉ lastSegmentFrom [] s.key.toList := by
    intro hmem
    rcases mem_lastSegmentFrom hmem with hnil | hkey
    · cases hnil
    · exact h.2 hkey
  rw [String.toList_append]
  simp only [List.mem_append, not_or]
  refine ⟨colons_no_bar, ?_⟩
  rw [lastSegment, String.toList_ofList]
  exact hsegment

theorem mem_dependentsOf_key {s : Tracking} (hedged : Edged s)
    (hplain : PlainEdges s.edges) {x : Symbol} (hx : x.Plain) {k : String} :
    k ∈ dependentsOf s.db x.key ↔
      exists e, e ∈ s.edges ∧ k = e.1.symbol.key ∧ Found e.2.symbol x := by
  rw [mem_dependentsOf, hedged, hedged]
  constructor
  · rintro (⟨e, he, hown | hname⟩ | ⟨e, he, hown | hname⟩)
    · obtain ⟨hkey, rfl⟩ := reverseKey_inj hx.2 (hplain e he).2.2 hown
      exact ⟨e, he, rfl, Or.inl ((hplain e he).2.1.key_inj hx.1 hkey.symm)⟩
    · obtain ⟨hkey, rfl⟩ := reverseKey_inj hx.2 (hplain e he).2.name hname
      rw [nameKey_eq] at hkey
      have heq := hx.1.key_inj plainPath_empty hkey
      refine ⟨e, he, rfl, Or.inr (Or.inr ?_)⟩
      rw [heq]
      exact ⟨rfl, rfl⟩
    · obtain ⟨hkey, rfl⟩ :=
        reverseKey_inj hx.segment (hplain e he).2.2 hown
      rw [nameKey_eq] at hkey
      have heq := plainPath_empty.key_inj (hplain e he).2.1 hkey
      refine ⟨e, he, rfl, Or.inr (Or.inl ?_)⟩
      rw [← heq, hx.1.lastSegment]
    · obtain ⟨hkey, rfl⟩ :=
        reverseKey_inj hx.segment (hplain e he).2.name hname
      refine ⟨e, he, rfl, Or.inr (Or.inl ?_)⟩
      rw [← hx.1.lastSegment]
      exact ((String.append_right_inj _).mp hkey).symm
  · rintro ⟨e, he, rfl, heq | hname | ⟨hpath, hname⟩⟩
    · rw [← heq]
      exact Or.inl ⟨e, he, Or.inl rfl⟩
    · refine Or.inr ⟨e, he, Or.inr ?_⟩
      rw [hx.1.lastSegment, ← hname]
      rfl
    · refine Or.inl ⟨e, he, Or.inr ?_⟩
      have hsymbol : x.key = "::" ++ e.2.symbolName := by
        have hname' : e.2.symbolName = x.symbolName := hname
        rw [nameKey_eq, hname', ← hpath]
      rw [hsymbol]

variable {edges : List (SymbolId × SymbolId)} {changed : Symbol} {maxDepth : Nat}

theorem Depends.plain {n : Nat} (h : Depends edges changed n s)
    (hchanged : changed.Plain) (hplain : PlainEdges edges) :
    s.Plain := by
  cases h with
  | self => exact hchanged
  | step _ he _ => exact (hplain _ he).1

/-- The keys split at the path, and the names of the symbols whose dependents a
cascade looks up tell them from others. -/
structure Telling (edges : List (SymbolId × SymbolId)) (changed : Symbol)
    (maxDepth : Nat) : Prop where
  plainChanged : changed.Plain
  plainEdges : PlainEdges edges
  expanded : forall n x, n < maxDepth -> Depends edges changed n x ->
    NameTells edges x

def AllTell (edges : List (SymbolId × SymbolId)) (changed : Symbol) : Prop :=
  changed.Plain ∧ PlainEdges edges ∧ NameTells edges changed ∧
    forall e, e ∈ edges -> NameTells edges e.1.symbol

instance (edges : List (SymbolId × SymbolId)) (changed : Symbol) :
    Decidable (AllTell edges changed) :=
  inferInstanceAs (Decidable (_ ∧ _ ∧ _ ∧ forall e, e ∈ edges -> _))

theorem AllTell.telling (h : AllTell edges changed) (maxDepth : Nat) :
    Telling edges changed maxDepth where
  plainChanged := h.1
  plainEdges := h.2.1
  expanded := by
    rintro n x - hdepends
    cases hdepends with
    | self => exact h.2.2.1
    | step _ he _ => exact h.2.2.2 _ he

theorem Telling.plain (h : Telling edges changed maxDepth) {n : Nat}
    (hdepends : Depends edges changed n s) :
    s.Plain :=
  hdepends.plain h.plainChanged h.plainEdges

/-- The keys that depend on the key of a symbol are those of the symbols with a
dependency on it. -/
theorem Telling.mem_dependentsOf {s : Tracking} (hedged : Edged s)
    (h : Telling s.edges changed maxDepth) {n : Nat} (hn : n < maxDepth) {x : Symbol}
    (hx : Depends s.edges changed n x) {k : String} :
    k ∈ dependentsOf s.db x.key ↔
      exists e, e ∈ s.edges ∧ k = e.1.symbol.key ∧ Matches e.2.symbol x := by
  have hfound := nameTells_iff.mp (h.expanded n x hn hx)
  rw [mem_dependentsOf_key hedged h.plainEdges (h.plain hx)]
  constructor
  · rintro ⟨e, he, hk, hmatch⟩
    exact ⟨e, he, hk, (hfound e he).mp hmatch⟩
  · rintro ⟨e, he, hk, hmatch⟩
    exact ⟨e, he, hk, (hfound e he).mpr hmatch⟩

theorem Telling.path_iff {s : Tracking} (hedged : Edged s)
    (h : Telling s.edges changed maxDepth) {n : Nat} (hn : n ≤ maxDepth)
    (k : String) :
    Path (dependentsOf s.db) changed.key n k ↔
      exists x, k = x.key ∧ Depends s.edges changed n x := by
  constructor
  · intro hpath
    induction hpath with
    | nil => exact ⟨changed, rfl, Depends.self⟩
    | snoc _ hy ih =>
        obtain ⟨x, rfl, hdepends⟩ := ih (Nat.le_of_lt hn)
        obtain ⟨e, he, rfl, hmatches⟩ :=
          (h.mem_dependentsOf hedged hn hdepends).mp hy
        exact ⟨_, rfl, hdepends.step he hmatches⟩
  · rintro ⟨x, rfl, hdepends⟩
    induction hdepends with
    | self => exact Path.nil
    | step hdepends he hmatches ih =>
        exact (ih (Nat.le_of_lt hn)).snoc
          ((h.mem_dependentsOf hedged hn hdepends).mpr ⟨_, he, rfl, hmatches⟩)

/-!
# Cascades along symbols
-/

/-- The references doomed are those of a function that depends on the changed
one, or is it. -/
theorem Telling.doomed_iff {s : Tracking} {changed : SymbolId}
    (h : Telling s.edges changed.symbol maxDepth) (hedged : Edged s)
    (r : SourceReference) :
    Doomed s.db changed maxDepth r ↔
      exists name, functionName r = some name ∧
        exists n, n ≤ maxDepth ∧
          Depends s.edges changed.symbol n ⟨r.filePath, name⟩ := by
  constructor
  · rintro ⟨name, hname, ⟨n, hn, hreached⟩, hfile⟩
    obtain ⟨x, hkey, hdepends⟩ := (h.path_iff hedged hn _).mp hreached
    have hr : PlainPath r.filePath := by
      rcases hfile with hown | ⟨key, _, ⟨m, hm, hreached'⟩, hof⟩
      · rw [hown]
        exact h.plainChanged.1
      · obtain ⟨y, rfl, hdepends'⟩ := (h.path_iff hedged hm key).mp hreached'
        have hy := h.plain hdepends'
        rw [hy.1.fileOf] at hof
        rw [← Option.some.inj hof]
        exact hy.1
    have hsymbol : (⟨r.filePath, name⟩ : Symbol) = x :=
      PlainPath.key_inj hr (h.plain hdepends).1 hkey
    exact ⟨name, hname, n, hn, hsymbol ▸ hdepends⟩
  · rintro ⟨name, hname, n, hn, hdepends⟩
    have hplain := h.plain hdepends
    have hreached : Reached s.db changed maxDepth
        (symbolKey r.filePath name) :=
      ⟨n, hn, (h.path_iff hedged hn _).mpr ⟨⟨r.filePath, name⟩, rfl, hdepends⟩⟩
    refine ⟨name, hname, hreached, ?_⟩
    by_cases hself : symbolKey r.filePath name =
        symbolKey changed.filePath changed.symbolName
    · have heq : (⟨r.filePath, name⟩ : Symbol) = changed.symbol :=
        PlainPath.key_inj hplain.1 h.plainChanged.1 hself
      exact Or.inl (congrArg Symbol.filePath heq)
    · have hof : fileOf (Symbol.key ⟨r.filePath, name⟩) = some r.filePath :=
        PlainPath.fileOf (s := ⟨r.filePath, name⟩) hplain.1
      exact Or.inr ⟨_, hself, hreached, hof⟩

theorem Telling.reached_iff {s : Tracking} {changed : SymbolId}
    (h : Telling s.edges changed.symbol maxDepth) (hedged : Edged s)
    (key : String) :
    key ≠ symbolKey changed.filePath changed.symbolName ∧
        Reached s.db changed maxDepth key ↔
      exists x : Symbol, key = x.key ∧ x ≠ changed.symbol ∧
        exists n, n ≤ maxDepth ∧ Depends s.edges changed.symbol n x := by
  constructor
  · rintro ⟨hne, n, hn, hpath⟩
    obtain ⟨x, rfl, hdepends⟩ := (h.path_iff hedged hn key).mp hpath
    refine ⟨x, rfl, ?_, n, hn, hdepends⟩
    rintro rfl
    exact hne rfl
  · rintro ⟨x, rfl, hne, n, hn, hdepends⟩
    refine ⟨?_, n, hn, (h.path_iff hedged hn _).mpr ⟨x, rfl, hdepends⟩⟩
    intro hkey
    exact hne ((h.plain hdepends).1.key_inj h.plainChanged.1 hkey)

/-- A cascade over symbols that the keys tell apart reports the other symbols
that depend on the changed one within the depth, each once, and deletes their
function references and its own, as the index lists them. -/
theorem cascade_reports_dependents {start : FreshnessDb}
    (hstart : Untracked start) {s : Tracking}
    (h : (tracking start).Reachable System.Anything s)
    (changed : SymbolId) (maxDepth : Nat)
    (htelling : Telling s.edges changed.symbol maxDepth) :
    exists db' report,
      cascadeInvalidate s.db changed maxDepth = some (db', report) ∧
      report.invalidatedSymbols.Nodup ∧
      (forall key, key ∈ report.invalidatedSymbols ↔
        exists x : Symbol, key = x.key ∧ x ≠ changed.symbol ∧
          exists n, n ≤ maxDepth ∧ Depends s.edges changed.symbol n x) ∧
      forall r, Stored db' r ↔
        Stored s.db r ∧ ¬ (Indexed s.db r ∧
          exists name, functionName r = some name ∧
            exists n, n ≤ maxDepth ∧
              Depends s.edges changed.symbol n ⟨r.filePath, name⟩) := by
  have hedged := reachable_edged hstart h
  obtain ⟨removed, report, hcascade, hnodup, hreport, hremoved⟩ :=
    (reachable_keyed hstart h).cascadeInvalidate changed maxDepth
  refine ⟨_, report, hcascade, hnodup, fun key => (hreport key).trans
    (htelling.reached_iff hedged key), ?_⟩
  intro r
  rw [stored_deleteReferences (fun r hr => ((hremoved r).mp hr).1), hremoved,
    htelling.doomed_iff hedged]
  constructor
  · rintro ⟨hstored, hkept⟩
    exact ⟨hstored, fun hdoomed => hkept ⟨hstored, hdoomed⟩⟩
  · rintro ⟨hstored, hkept⟩
    exact ⟨hstored, fun hdoomed => hkept hdoomed.2⟩

def functionSymbol (filePath symbolName : String) : SymbolId where
  filePath := filePath
  symbolName := symbolName
  symbolType := "fn"

def functionReference (entryId filePath name : String) : SourceReference where
  filePath := filePath
  contentHash := []
  capturedAtUnix := 0
  entryId := entryId
  scope := some ⟨some (Scope.function ⟨name, [], "fn", []⟩)⟩

/-- Three functions in a cycle, one dependency known by name only, and one on a
method. -/
theorem cascade_reports_dependents_cycle :
    exists s : Tracking, exists db' report,
      (tracking ∅).Reachable System.Anything s ∧
      cascadeInvalidate s.db (functionSymbol "lib.rs" "core") 5 =
        some (db', report) ∧
      report.invalidatedSymbols = ["app.rs::user", "main.rs::main"] ∧
      report.invalidatedSymbols.Nodup := by
  obtain ⟨s, -, hreach, htell, hreported⟩ :=
    (tracking ∅).replay_reaches System.Anything
      [Operation.registerSource (functionReference "core" "lib.rs" "core"),
        Operation.registerSource (functionReference "user" "app.rs" "user"),
        Operation.registerSymbolDependencies (functionSymbol "app.rs" "user")
          [functionSymbol "lib.rs" "core"],
        Operation.registerSymbolDependencies (functionSymbol "main.rs" "main")
          [functionSymbol "" "user"],
        Operation.registerSymbolDependencies (functionSymbol "lib.rs" "core")
          [functionSymbol "main.rs" "main"],
        Operation.registerSymbolDependencies (functionSymbol "app.rs" "user")
          [functionSymbol "x.rs" "Shape::area"]]
      (fun s => AllTell s.edges (functionSymbol "lib.rs" "core").symbol ∧
        (cascadeInvalidate s.db (functionSymbol "lib.rs" "core") 5).map
          (fun result => result.2.invalidatedSymbols) =
            some ["app.rs::user", "main.rs::main"]) (by decide +kernel)
  obtain ⟨db', report, hcascade, hnodup, _⟩ := cascade_reports_dependents
    untracked_empty hreach (functionSymbol "lib.rs" "core") 5 (htell.telling 5)
  rw [hcascade] at hreported
  exact ⟨s, db', report, hreach, hcascade, Option.some.inj hreported, hnodup⟩

/-- The references deleted are not only those of the symbols reported. -/
theorem cascade_exceeds_dependents :
    ¬ forall s : Tracking, (tracking ∅).Reachable System.Anything s ->
      forall changed maxDepth db' report,
        cascadeInvalidate s.db changed maxDepth = some (db', report) ->
      forall r, Stored s.db r -> ¬ Stored db' r ->
        exists name, functionName r = some name ∧
          symbolKey r.filePath name ∈ report.invalidatedSymbols := by
  intro honly
  obtain ⟨s, -, hreach, hstored, hcascade⟩ :=
    (tracking ∅).replay_reaches System.Anything
      [Operation.registerSource (functionReference "core" "lib.rs" "core")]
      (fun s => s.db[sourceRefKey "core"]? =
          some (FreshnessRecord.reference
            (functionReference "core" "lib.rs" "core")) ∧
        (cascadeInvalidate s.db (functionSymbol "lib.rs" "core") 3).map
          (fun result => (result.1[sourceRefKey "core"]?,
            result.2.invalidatedSymbols)) = some (none, [])) (by decide +kernel)
  obtain ⟨⟨db', report⟩, hresult, hpair⟩ := Option.map_eq_some_iff.mp hcascade
  obtain ⟨hgone, hreported⟩ := Prod.mk.inj hpair
  have hdeleted : ¬ Stored db' (functionReference "core" "lib.rs" "core") := by
    intro hkept
    have hrow : db'[sourceRefKey "core"]? =
        some (FreshnessRecord.reference
          (functionReference "core" "lib.rs" "core")) := hkept
    rw [show db'[sourceRefKey "core"]? = none from hgone] at hrow
    cases hrow
  obtain ⟨name, _, hname⟩ := honly s hreach _ _ _ _ hresult
    (functionReference "core" "lib.rs" "core") hstored hdeleted
  rw [show report.invalidatedSymbols = [] from hreported] at hname
  cases hname

end Freshness
end Storage
end PostCortex

import PostCortex.Search.BreadthFirst

/-!
# Depth-first search to a depth

A search with one visited set for all branches: a node is entered where it is met
first and never again, so the depth it is entered at depends on the order of the
neighbours.  The trail of the search is a tree without cross edges.  It has the
nodes within the depth at their distances exactly when the nodes above the
greatest depth form a tree themselves.
-/

namespace PostCortex
namespace Search

variable {node : Type}

def nodes (trail : List (node × Nat)) : List node :=
  trail.map Prod.fst

def below (depth : Nat) (trail : List (node × Nat)) : List (node × Nat) :=
  trail.takeWhile (fun e => depth < e.2)

/-- The trail has the nodes from the node entered, with their depths, in the order
they are met; `left` is how many levels remain. -/
def descend [DecidableEq node] (next : node -> List node) :
    Nat -> node -> Nat -> List (node × Nat) -> List (node × Nat)
  | 0, _, _, trail => trail
  | left + 1, x, depth, trail =>
      (next x).foldl
        (fun trail y =>
          if y ∈ nodes trail then trail
          else descend next left y (depth + 1) (trail ++ [(y, depth + 1)]))
        trail

/-!
# Trails
-/

/-- The continuations of a trail: an entry is a new neighbour of an earlier one,
one deeper, and above the greatest depth all its neighbours are entered before
the search leaves it. -/
inductive Trace (next : node -> List node) (deepest : Nat) :
    List (node × Nat) -> List (node × Nat) -> Prop where
  | nil {before : List (node × Nat)} : Trace next deepest before []
  | cons {before after : List (node × Nat)} {x y : node} {depth : Nat} :
      (x, depth) ∈ before ->
      y ∈ next x ->
      depth < deepest ->
      y ∉ nodes before ->
      (depth + 1 < deepest -> forall z, z ∈ next y ->
        z ∈ nodes before ∨ z = y ∨ z ∈ nodes (below (depth + 1) after)) ->
      Trace next deepest (before ++ [(y, depth + 1)]) after ->
      Trace next deepest before ((y, depth + 1) :: after)

theorem nodes_append (xs ys : List (node × Nat)) :
    nodes (xs ++ ys) = nodes xs ++ nodes ys :=
  List.map_append

theorem mem_nodes {x : node} {trail : List (node × Nat)} :
    x ∈ nodes trail ↔ exists depth, (x, depth) ∈ trail := by
  unfold nodes
  rw [List.mem_map]
  constructor
  · rintro ⟨⟨y, depth⟩, hmem, rfl⟩
    exact ⟨depth, hmem⟩
  · rintro ⟨depth, hmem⟩
    exact ⟨(x, depth), hmem, rfl⟩

variable {depth : Nat} {xs : List (node × Nat)}

theorem below_append (hdeep : forall e, e ∈ xs -> depth < e.2)
    (ys : List (node × Nat)) :
    below depth (xs ++ ys) = xs ++ below depth ys :=
  List.takeWhile_append_of_pos (by simpa using hdeep)

theorem nodes_below_append (xs ys : List (node × Nat)) {z : node}
    (hz : z ∈ nodes (below depth xs)) :
    z ∈ nodes (below depth (xs ++ ys)) := by
  induction xs with
  | nil =>
      cases hz
  | cons e rest ih =>
      unfold below at hz ih ⊢
      rw [List.cons_append, List.takeWhile_cons]
      rw [List.takeWhile_cons] at hz
      split at hz
      · next hdeep =>
        rw [if_pos hdeep]
        rcases List.mem_cons.mp hz with rfl | hrest
        · exact List.mem_cons_self
        · exact List.mem_cons_of_mem _ (ih hrest)
      · cases hz

variable {next : node -> List node} {deepest : Nat} {before : List (node × Nat)}

theorem Trace.append {ys : List (node × Nat)} (hx : Trace next deepest before xs)
    (hy : Trace next deepest (before ++ xs) ys) :
    Trace next deepest before (xs ++ ys) := by
  induction hx with
  | nil =>
      rw [List.append_nil] at hy
      exact hy
  | cons hparent hnext hdepth hnew hall _ ih =>
      refine Trace.cons hparent hnext hdepth hnew ?_ (ih ?_)
      · intro hlt z hz
        rcases hall hlt z hz with hold | hself | hbelow
        · exact Or.inl hold
        · exact Or.inr (Or.inl hself)
        · exact Or.inr (Or.inr (nodes_below_append _ _ hbelow))
      · rw [List.append_assoc]
        exact hy

structure Adds (next : node -> List node) (deepest depth : Nat)
    (targets : List node) (before added : List (node × Nat)) : Prop where
  trace : Trace next deepest before added
  deeper : forall e, e ∈ added -> depth < e.2
  all : forall y, y ∈ targets -> y ∈ nodes (before ++ added)

theorem foldl_descend [DecidableEq node] {left : Nat} {x : node}
    (hdescend : forall y trail, (y, depth + 1) ∈ trail ->
      exists added, descend next left y (depth + 1) trail = trail ++ added ∧
        Adds next (depth + 1 + left) (depth + 1) (if left = 0 then [] else next y)
          trail added) (ys : List node) (hys : ys ⊆ next x)
    (trail : List (node × Nat)) (hx : (x, depth) ∈ trail) :
    exists added,
      ys.foldl
        (fun trail y =>
          if y ∈ nodes trail then trail
          else descend next left y (depth + 1) (trail ++ [(y, depth + 1)]))
        trail = trail ++ added ∧
      Adds next (depth + 1 + left) depth ys trail added := by
  induction ys generalizing trail with
  | nil =>
      refine ⟨[], (List.append_nil _).symm, Trace.nil, ?_, ?_⟩
      · intro e he
        cases he
      · intro y hy
        cases hy
  | cons y rest ih =>
      obtain ⟨hynext, hrest⟩ := List.cons_subset.mp hys
      rw [List.foldl_cons]
      split
      · next hseen =>
        obtain ⟨added, heq, hadds⟩ := ih hrest trail hx
        refine ⟨added, heq, hadds.trace, hadds.deeper, ?_⟩
        intro z hz
        rcases List.mem_cons.mp hz with rfl | hz
        · rw [nodes_append]
          exact List.mem_append_left _ hseen
        · exact hadds.all z hz
      · next hnew =>
        obtain ⟨inner, hinner, hin⟩ :=
          hdescend y (trail ++ [(y, depth + 1)]) (by simp)
        obtain ⟨outer, houter, hout⟩ :=
          ih hrest (trail ++ [(y, depth + 1)] ++ inner) (by simp [hx])
        rw [hinner, houter]
        refine ⟨(y, depth + 1) :: (inner ++ outer), by simp, ?_, ?_, ?_⟩
        · refine Trace.cons hx hynext (by omega) hnew ?_ (hin.trace.append hout.trace)
          intro hlt z hz
          rw [below_append hin.deeper, nodes_append]
          have hleft : ¬ left = 0 := by omega
          have hall := hin.all z (by rw [if_neg hleft]; exact hz)
          simp only [nodes, List.map_append, List.map_cons, List.map_nil,
            List.mem_append, List.mem_singleton] at hall ⊢
          tauto
        · intro e he
          rcases List.mem_cons.mp he with rfl | he
          · exact Nat.lt_succ_self depth
          · rcases List.mem_append.mp he with he | he
            · exact Nat.lt_of_succ_lt (hin.deeper e he)
            · exact hout.deeper e he
        · intro z hz
          rcases List.mem_cons.mp hz with rfl | hz
          · simp [nodes]
          · have hall := hout.all z hz
            simp only [nodes, List.append_assoc, List.cons_append,
              List.nil_append] at hall ⊢
            exact hall

theorem descend_adds [DecidableEq node] (next : node -> List node) (left : Nat)
    (x : node) (depth : Nat) (trail : List (node × Nat))
    (hx : (x, depth) ∈ trail) :
    exists added, descend next left x depth trail = trail ++ added ∧
      Adds next (depth + left) depth (if left = 0 then [] else next x) trail
        added := by
  induction left generalizing x depth trail with
  | zero =>
      refine ⟨[], (List.append_nil _).symm, Trace.nil, ?_, ?_⟩
      · intro e he
        cases he
      · intro y hy
        cases hy
  | succ left ih =>
      rw [descend, if_neg (Nat.succ_ne_zero left),
        show depth + (left + 1) = depth + 1 + left by omega]
      exact foldl_descend (fun y trail hy => ih y (depth + 1) trail hy) (next x)
        (List.Subset.refl _) trail hx

/-!
# The tree of a search
-/

variable {after : List (node × Nat)}

theorem Trace.nodup (h : Trace next deepest before after)
    (hbefore : (nodes before).Nodup) :
    (nodes (before ++ after)).Nodup := by
  induction h with
  | nil =>
      rw [List.append_nil]
      exact hbefore
  | @cons before after x y depth _ _ _ hnew _ _ ih =>
      rw [← List.append_cons] at ih
      refine ih ?_
      rw [nodes_append]
      refine List.nodup_append.mpr ⟨hbefore, List.nodup_singleton _, ?_⟩
      intro z hz w hw heq
      have hzy : z = y := heq.trans (List.mem_singleton.mp hw)
      exact hnew (hzy ▸ hz)

/-- Above the greatest depth the neighbours of an entry stand before it or in what
is directly below it. -/
def Explored (next : node -> List node) (deepest : Nat)
    (before trail : List (node × Nat)) : Prop :=
  forall xs y depth ys, trail = xs ++ (y, depth) :: ys -> depth < deepest ->
    forall z, z ∈ next y ->
      z ∈ nodes (before ++ xs) ∨ z = y ∨ z ∈ nodes (below depth ys)

theorem Explored.cons {next : node -> List node} {deepest : Nat}
    {before after : List (node × Nat)} {x : node} {depth : Nat}
    (hfirst : depth < deepest -> forall z, z ∈ next x ->
      z ∈ nodes before ∨ z = x ∨ z ∈ nodes (below depth after))
    (h : Explored next deepest (before ++ [(x, depth)]) after) :
    Explored next deepest before ((x, depth) :: after) := by
  intro xs y k ys heq hlt z hz
  cases xs with
  | nil =>
      cases heq
      rw [List.append_nil]
      exact hfirst hlt z hz
  | cons e xs =>
      injection heq with he heq
      have hall := h xs y k ys heq hlt z hz
      rw [he, ← List.append_cons] at hall
      exact hall

theorem Trace.explored (h : Trace next deepest before after) :
    Explored next deepest before after := by
  induction h with
  | nil =>
      intro xs y depth ys heq
      cases xs <;> cases heq
  | cons _ _ _ _ hall _ ih =>
      exact ih.cons hall

structure Searched (next : node -> List node) (deepest : Nat) (a : node)
    (found : List (node × Nat)) : Prop where
  trace : Trace next deepest [(a, 0)] found
  deeper : forall e, e ∈ found -> 0 < e.2
  all : 0 < deepest -> forall y, y ∈ next a -> y ∈ nodes ((a, 0) :: found)

theorem descend_searched [DecidableEq node] (next : node -> List node)
    (deepest : Nat) (a : node) :
    exists found, descend next deepest a 0 [(a, 0)] = (a, 0) :: found ∧
      Searched next deepest a found := by
  obtain ⟨found, heq, hadds⟩ := descend_adds next deepest a 0 [(a, 0)] (by simp)
  rw [Nat.zero_add] at hadds
  refine ⟨found, heq, hadds.trace, hadds.deeper, ?_⟩
  intro hpos y hy
  exact hadds.all y (by rw [if_neg (Nat.ne_of_gt hpos)]; exact hy)

section

variable {next : node -> List node} {deepest : Nat} {a : node}
  {found : List (node × Nat)}

theorem Searched.nodup (h : Searched next deepest a found) :
    (nodes ((a, 0) :: found)).Nodup :=
  h.trace.nodup (List.nodup_singleton a)

theorem Searched.explored (h : Searched next deepest a found) :
    Explored next deepest [] ((a, 0) :: found) := by
  refine h.trace.explored.cons ?_
  intro hlt z hz
  have hbelow : below 0 found = found := by
    have happend := below_append h.deeper []
    rw [List.append_nil] at happend
    rw [happend]
    exact List.append_nil found
  rw [hbelow]
  exact Or.inr (List.mem_cons.mp (h.all hlt z hz))

variable {x : node} {n : Nat}

theorem Searched.depth_eq (h : Searched next deepest a found) {m : Nat}
    (hn : (x, n) ∈ (a, 0) :: found) (hm : (x, m) ∈ (a, 0) :: found) :
    n = m :=
  congrArg Prod.snd (List.inj_on_of_nodup_map h.nodup hn hm rfl)

/-!
# Exact searches
-/

/-- The entries are the other nodes within the depth, each once, with their
distances. -/
def ExactlyWithin (next : node -> List node) (deepest : Nat) (a : node)
    (found : List (node × Nat)) : Prop :=
  (nodes found).Nodup ∧
    forall x n, (x, n) ∈ found ↔ x ≠ a ∧ n ≤ deepest ∧ Distance next a n x

def Nearby (next : node -> List node) (a : node) (n : Nat) (v u : node) : Prop :=
  u ≠ v ∧ u ∈ next v ∧ exists m, m ≤ n ∧ Distance next a m u

/-- Above the greatest depth every node but the start is joined by one edge only
to the nodes that are not further away. -/
def Treelike (next : node -> List node) (deepest : Nat) (a : node) : Prop :=
  forall v n, 0 < n -> n < deepest -> Distance next a n v ->
    forall u w, Nearby next a n v u -> Nearby next a n v w -> u = w

theorem Searched.distances (h : Searched next deepest a found)
    (hsymm : forall x y, y ∈ next x -> x ∈ next y) (htree : Treelike next deepest a)
    (hx : (x, n) ∈ (a, 0) :: found) :
    Distance next a n x ∧ n ≤ deepest := by
  have hrun : forall before after, Trace next deepest before after ->
      a ∈ nodes before ->
      (forall y k, (y, k) ∈ before -> Distance next a k y ∧ k ≤ deepest) ->
      (forall y k, (y, k + 1) ∈ before ->
        exists z, (z, k) ∈ before ∧ y ∈ next z) ->
      forall y k, (y, k) ∈ before ++ after ->
        Distance next a k y ∧ k ≤ deepest := by
    intro before after htrace
    induction htrace with
    | nil =>
        intro _ hlabels _ y k hy
        rw [List.append_nil] at hy
        exact hlabels y k hy
    | @cons before after z y j hparent hnext hdepth hnew _ _ ih =>
        intro hroot hlabels hparents
        obtain ⟨m, hm, hdist⟩ := (hlabels z j hparent).1.neighbour hnext
        -- the parent has no second neighbour as near as its own parent
        have hlabel : m = j + 1 := by
          by_contra hne
          have hfar : m ≤ j := by omega
          have hyz : y ≠ z := by
            intro heq
            exact hnew (heq ▸ mem_nodes.mpr ⟨j, hparent⟩)
          cases j with
          | zero =>
              have hzero : m = 0 := Nat.le_zero.mp hfar
              rw [hzero] at hdist
              exact hnew (hdist.1.eq_start ▸ hroot)
          | succ j =>
              obtain ⟨q, hq, hzq⟩ := hparents z j hparent
              have hqz : q ≠ z := by
                intro heq
                have hqdist := (hlabels q j hq).1
                rw [heq] at hqdist
                exact absurd (hqdist.unique (hlabels z _ hparent).1) (by omega)
              have hsame := htree z (j + 1) (Nat.succ_pos j) hdepth
                (hlabels z _ hparent).1 y q ⟨hyz, hnext, m, hfar, hdist⟩
                ⟨hqz, hsymm q z hzq, j, Nat.le_succ j, (hlabels q j hq).1⟩
              exact hnew (hsame ▸ mem_nodes.mpr ⟨j, hq⟩)
        rw [hlabel] at hdist
        rw [List.append_cons]
        refine ih ?_ ?_ ?_
        · rw [nodes_append]
          exact List.mem_append_left _ hroot
        · intro w k hw
          rcases List.mem_append.mp hw with hold | hlast
          · exact hlabels w k hold
          · cases List.mem_singleton.mp hlast
            exact ⟨hdist, hdepth⟩
        · intro w k hw
          rcases List.mem_append.mp hw with hold | hlast
          · obtain ⟨q, hq, hwq⟩ := hparents w k hold
            exact ⟨q, List.mem_append_left _ hq, hwq⟩
          · cases List.mem_singleton.mp hlast
            exact ⟨z, List.mem_append_left _ hparent, hnext⟩
  refine hrun [(a, 0)] found h.trace (by simp [nodes]) ?_ ?_ x n hx
  · intro y k hy
    cases List.mem_singleton.mp hy
    exact ⟨distance_zero next a, Nat.zero_le _⟩
  · intro y k hy
    cases List.mem_singleton.mp hy

theorem Searched.complete (h : Searched next deepest a found)
    (hlabels : forall x n, (x, n) ∈ (a, 0) :: found -> Distance next a n x)
    (hx : Distance next a n x) (hn : n ≤ deepest) :
    x ∈ nodes ((a, 0) :: found) := by
  induction n generalizing x with
  | zero =>
      rw [hx.1.eq_start]
      exact List.mem_cons_self
  | succ n ih =>
      obtain ⟨y, hy, hxy⟩ := hx.nearer
      obtain ⟨k, hk⟩ := mem_nodes.mp (ih hy (by omega))
      rw [(hlabels y k hk).unique hy] at hk
      obtain ⟨xs, ys, heq⟩ := List.append_of_mem hk
      have hall := h.explored xs y n ys heq (by omega) x hxy
      rw [heq, nodes_append]
      rcases hall with hold | hself | hbelow
      · exact List.mem_append_left _ hold
      · rw [hself]
        exact List.mem_append_right _ List.mem_cons_self
      · refine List.mem_append_right _ (List.mem_cons_of_mem _ ?_)
        exact (List.takeWhile_sublist _).map Prod.fst |>.subset hbelow

theorem Searched.exact_of_treelike (h : Searched next deepest a found)
    (hsymm : forall x y, y ∈ next x -> x ∈ next y)
    (htree : Treelike next deepest a) :
    ExactlyWithin next deepest a found := by
  have hnodup := List.nodup_cons.mp h.nodup
  have hlabels := fun x n => h.distances hsymm htree (x := x) (n := n)
  refine ⟨hnodup.2, ?_⟩
  intro x n
  constructor
  · intro hx
    obtain ⟨hdist, hn⟩ := hlabels x n (List.mem_cons_of_mem _ hx)
    refine ⟨?_, hn, hdist⟩
    intro heq
    exact hnodup.1 (heq ▸ mem_nodes.mpr ⟨n, hx⟩)
  · rintro ⟨hne, hn, hdist⟩
    have hmem := h.complete (fun y k hy => (hlabels y k hy).1) hdist hn
    obtain ⟨k, hk⟩ := mem_nodes.mp hmem
    rw [(hlabels x k hk).1.unique hdist] at hk
    rcases List.mem_cons.mp hk with heq | hk
    · exact absurd (congrArg Prod.fst heq) hne
    · exact hk

/-!
# Two neighbours of a node
-/

variable {xs ys : List (node × Nat)}

theorem below_past {depth k : Nat} {v : node} (hxs : v ∉ nodes xs)
    (hv : v ∈ nodes (below depth (xs ++ (v, k) :: ys))) :
    (forall e, e ∈ xs -> depth < e.2) ∧ depth < k := by
  induction xs with
  | nil =>
      refine ⟨fun e he => (List.not_mem_nil he).elim, ?_⟩
      by_contra hle
      rw [List.nil_append, below, List.takeWhile_cons, if_neg (by simpa using hle)] at hv
      cases hv
  | cons e rest ih =>
      rw [List.cons_append, below, List.takeWhile_cons] at hv
      split at hv
      · next hdeep =>
        have hrest : v ∉ nodes rest :=
          fun hmem => hxs (List.mem_cons_of_mem _ hmem)
        rcases List.mem_cons.mp hv with heq | hv
        · exact absurd (heq ▸ List.mem_cons_self) hxs
        · obtain ⟨hall, hk⟩ := ih hrest hv
          refine ⟨?_, hk⟩
          intro f hf
          rcases List.mem_cons.mp hf with rfl | hf
          · simpa using hdeep
          · exact hall f hf
      · cases hv

theorem last_shallow {depth : Nat} {e : node × Nat} (he : e.2 ≤ depth)
    (hdeep : forall f, f ∈ ys -> depth < f.2) :
    (xs ++ e :: ys).reverse.find? (fun f => f.2 ≤ depth) = some e := by
  have hnone : ys.reverse.find? (fun f => f.2 ≤ depth) = none := by
    rw [List.find?_eq_none]
    intro f hf
    have hlt := hdeep f (List.mem_reverse.mp hf)
    simpa using hlt
  rw [List.reverse_append, List.reverse_cons, List.append_assoc,
    List.find?_append, hnone]
  simp [he]

/-- A neighbour that is not deeper stands earlier, and only deeper entries stand
between. -/
theorem Searched.neighbour_before (h : Searched next deepest a found)
    (hsymm : forall x y, y ∈ next x -> x ∈ next y) {u v : node} {k : Nat}
    (heq : (a, 0) :: found = xs ++ (v, n) :: ys) (hn : n < deepest) (huv : u ≠ v)
    (hnext : u ∈ next v) (hu : (u, k) ∈ (a, 0) :: found) (hk : k ≤ n) :
    k < n ∧ xs.reverse.find? (fun e => e.2 ≤ k) = some (u, k) := by
  have hnodup := h.nodup
  have hbefore : u ∈ nodes xs := by
    rcases h.explored xs v n ys heq hn u hnext with hold | hself | hbelow
    · exact hold
    · exact absurd hself huv
    · obtain ⟨m, hm⟩ := mem_nodes.mp hbelow
      have hdeep : n < m := by
        simpa using List.all_eq_true.mp List.all_takeWhile _ hm
      have hmem : (u, m) ∈ (a, 0) :: found := by
        rw [heq]
        exact List.mem_append_right _
          (List.mem_cons_of_mem _ ((List.takeWhile_sublist _).subset hm))
      exact absurd (h.depth_eq hu hmem) (by omega)
  obtain ⟨m, hm⟩ := mem_nodes.mp hbefore
  have hmk : m = k :=
    h.depth_eq (by rw [heq]; exact List.mem_append_left _ hm) hu
  rw [hmk] at hm
  obtain ⟨ws, zs, hsplit⟩ := List.append_of_mem hm
  have hvx : v ∉ nodes xs := by
    rw [heq, nodes_append] at hnodup
    intro hmem
    exact (List.nodup_append.mp hnodup).2.2 v hmem v List.mem_cons_self rfl
  rw [hsplit, nodes_append] at hvx
  have hws : v ∉ nodes ws := fun hmem => hvx (List.mem_append_left _ hmem)
  have hzs : v ∉ nodes zs :=
    fun hmem => hvx (List.mem_append_right _ (List.mem_cons_of_mem _ hmem))
  have heq' : (a, 0) :: found = ws ++ (u, k) :: (zs ++ (v, n) :: ys) := by
    rw [heq, hsplit, List.append_assoc, List.cons_append]
  rcases h.explored ws u k _ heq' (by omega) v (hsymm v u hnext) with
    hold | hself | hbelow
  · exact absurd hold hws
  · exact absurd hself.symm huv
  · obtain ⟨hdeep, hlt⟩ := below_past hzs hbelow
    refine ⟨hlt, ?_⟩
    rw [hsplit]
    exact last_shallow (Nat.le_refl k) hdeep

theorem Searched.treelike_of_exact (h : Searched next deepest a found)
    (hsymm : forall x y, y ∈ next x -> x ∈ next y)
    (hexact : ExactlyWithin next deepest a found) :
    Treelike next deepest a := by
  have hlisted : forall x n, n ≤ deepest -> Distance next a n x ->
      (x, n) ∈ (a, 0) :: found := by
    intro x n hn hdist
    by_cases hx : x = a
    · rw [hx] at hdist ⊢
      rw [hdist.unique (distance_zero next a)]
      exact List.mem_cons_self
    · exact List.mem_cons_of_mem _ ((hexact.2 x n).mpr ⟨hx, hn, hdist⟩)
  intro v n hpos hn hdist
  obtain ⟨xs, ys, heq⟩ := List.append_of_mem (hlisted v n (by omega) hdist)
  -- a neighbour that is not further away is one nearer
  have hone : forall u, Nearby next a n v u ->
      xs.reverse.find? (fun e => e.2 ≤ n - 1) = some (u, n - 1) := by
    rintro u ⟨hne, hnext, m, hm, hu⟩
    obtain ⟨hlt, hfind⟩ := h.neighbour_before hsymm heq hn hne hnext
      (hlisted u m (by omega) hu) hm
    obtain ⟨k, hk, hdist'⟩ := hu.neighbour (hsymm v u hnext)
    have hkn := hdist'.unique hdist
    have hmn : m = n - 1 := by omega
    rw [hmn] at hfind
    exact hfind
  intro u w hu hw
  have hsame := (hone u hu).symm.trans (hone w hw)
  injection hsame with hsame
  exact congrArg Prod.fst hsame

/-- With symmetric neighbours the search is exact for the graphs whose nodes above
the greatest depth form a tree. -/
theorem Searched.exact_iff (h : Searched next deepest a found)
    (hsymm : forall x y, y ∈ next x -> x ∈ next y) :
    ExactlyWithin next deepest a found ↔ Treelike next deepest a :=
  ⟨h.treelike_of_exact hsymm, h.exact_of_treelike hsymm⟩

end

end Search
end PostCortex

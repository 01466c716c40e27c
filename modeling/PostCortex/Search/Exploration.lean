import Mathlib.Data.List.Nodup
import Mathlib.Data.List.Perm.Subperm
import PostCortex.Search.BreadthFirst

/-!
# Breadth-first exploration under limits

A breadth-first walk that includes the nodes it meets and takes the edges between
included nodes, each kind up to a limit of its own: it goes on for the one when the
other is full.  The nodes included are the nearest, and without a limit in the way
they are all nodes within the depth, with all edges at the nodes above it.
-/

namespace PostCortex
namespace Search

/-- The edges around each node; an edge has two ends and a key. -/
structure Wiring (node edge key : Type) where
  incident : node -> List edge
  source : edge -> node
  target : edge -> node
  key : edge -> key

structure Exploration (node edge : Type) where
  included : List node
  queue : List (node × Nat)
  taken : List edge

def room (limit : Option Nat) (count : Nat) : Prop :=
  match limit with
  | none => True
  | some most => count < most

instance (limit : Option Nat) (count : Nat) : Decidable (room limit count) :=
  match limit with
  | none => inferInstanceAs (Decidable True)
  | some most => inferInstanceAs (Decidable (count < most))

theorem room_of_le {limit : Option Nat} {n m : Nat} (h : room limit m) (hle : n ≤ m) :
    room limit n := by
  cases limit with
  | none => trivial
  | some most => exact Nat.lt_of_le_of_lt hle h

variable {node edge key : Type} [DecidableEq node]

namespace Wiring

variable [DecidableEq key]

def other (W : Wiring node edge key) (x : node) (e : edge) : node :=
  if W.source e = x then W.target e else W.source e

def neighbours (W : Wiring node edge key) (x : node) : List node :=
  (W.incident x).map (W.other x)

def keys (W : Wiring node edge key) (es : List edge) : List key :=
  es.map W.key

def includeEnd (W : Wiring node edge key) (maxNodes : Option Nat) (x : node)
    (depth : Nat) (w : Exploration node edge) (e : edge) : Exploration node edge :=
  if room maxNodes w.included.length ∧ W.other x e ∉ w.included then
    { w with
      included := w.included ++ [W.other x e]
      queue := w.queue ++ [(W.other x e, depth + 1)] }
  else w

def takeEdge (W : Wiring node edge key) (maxEdges : Option Nat)
    (w : Exploration node edge) (e : edge) : Exploration node edge :=
  if room maxEdges w.taken.length ∧ W.source e ∈ w.included ∧
      W.target e ∈ w.included ∧ W.key e ∉ W.keys w.taken then
    { w with taken := w.taken ++ [e] }
  else w

def meet (W : Wiring node edge key) (maxNodes maxEdges : Option Nat) (x : node)
    (depth : Nat) (w : Exploration node edge) (e : edge) : Exploration node edge :=
  W.takeEdge maxEdges (W.includeEnd maxNodes x depth w e) e

def explore (W : Wiring node edge key) (maxNodes maxEdges : Option Nat)
    (maxDepth : Nat) : Nat -> Exploration node edge -> Option (Exploration node edge)
  | 0, w => if w.queue = [] then some w else none
  | fuel + 1, w =>
      match w.queue with
      | [] => some w
      | (x, depth) :: rest =>
          if maxDepth ≤ depth then
            explore W maxNodes maxEdges maxDepth fuel { w with queue := rest }
          else if ¬ room maxNodes w.included.length ∧
              ¬ room maxEdges w.taken.length then some w
          else
            explore W maxNodes maxEdges maxDepth fuel
              ((W.incident x).foldl (W.meet maxNodes maxEdges x depth)
                { w with queue := rest })

end Wiring

def Exploration.start (a : node) : Exploration node edge :=
  ⟨[a], [(a, 0)], []⟩

/-!
# The edges of one node
-/

section

variable {W : Wiring node edge key} {maxNodes maxEdges : Option Nat}

structure Meets (W : Wiring node edge key) (maxNodes maxEdges : Option Nat)
    (x : node) (depth : Nat) (es : List edge) (w w' : Exploration node edge)
    (new : List node) (more : List edge) : Prop where
  included : w'.included = w.included ++ new
  queue : w'.queue = w.queue ++ new.map (fun y => (y, depth + 1))
  taken : w'.taken = w.taken ++ more
  nodup : new.Nodup
  fresh : forall y, y ∈ new -> y ∈ es.map (W.other x) ∧ y ∉ w.included
  fits : new ≠ [] -> room maxNodes (w'.included.length - 1)
  all : room maxNodes w'.included.length ->
    forall y, y ∈ es.map (W.other x) -> y ∈ w'.included
  edges : more ⊆ es
  ends : forall e, e ∈ more -> W.source e ∈ w'.included ∧ W.target e ∈ w'.included
  keys : (W.keys w.taken).Nodup -> (W.keys w'.taken).Nodup
  fitsEdges : more ≠ [] -> room maxEdges (w'.taken.length - 1)

theorem Meets.refl (x : node) (depth : Nat) (w : Exploration node edge) :
    Meets W maxNodes maxEdges x depth [] w w [] [] := by
  constructor <;> simp

theorem includeEnd_cases (W : Wiring node edge key) (maxNodes : Option Nat) (x : node)
    (depth : Nat) (w : Exploration node edge) (e : edge) :
    exists new : List node,
      W.includeEnd maxNodes x depth w e =
        { w with
          included := w.included ++ new
          queue := w.queue ++ new.map (fun y => (y, depth + 1)) } ∧
      (new = [] ∨ new = [W.other x e] ∧ W.other x e ∉ w.included ∧
        room maxNodes w.included.length) ∧
      (room maxNodes w.included.length -> W.other x e ∈ w.included ++ new) := by
  unfold Wiring.includeEnd
  by_cases hroom : room maxNodes w.included.length
  · by_cases hmem : W.other x e ∈ w.included
    · exact ⟨[], by simp [hmem], Or.inl rfl, fun _ => by simp [hmem]⟩
    · exact ⟨[W.other x e], by simp [hmem, hroom], Or.inr ⟨rfl, hmem, hroom⟩,
        fun _ => by simp⟩
  · exact ⟨[], by simp [hroom], Or.inl rfl, fun h => absurd h hroom⟩

theorem takeEdge_cases [DecidableEq key] (W : Wiring node edge key) (maxEdges : Option Nat)
    (w : Exploration node edge) (e : edge) :
    exists more : List edge,
      W.takeEdge maxEdges w e = { w with taken := w.taken ++ more } ∧
      (more = [] ∨ more = [e] ∧ W.source e ∈ w.included ∧ W.target e ∈ w.included ∧
        W.key e ∉ W.keys w.taken ∧ room maxEdges w.taken.length) ∧
      (room maxEdges w.taken.length -> W.source e ∈ w.included ->
        W.target e ∈ w.included -> W.key e ∈ W.keys (w.taken ++ more)) := by
  unfold Wiring.takeEdge
  split
  · next h =>
    exact ⟨[e], rfl, Or.inr ⟨rfl, h.2.1, h.2.2.1, h.2.2.2, h.1⟩,
      fun _ _ _ => by simp [Wiring.keys]⟩
  · next h =>
    refine ⟨[], by simp, Or.inl rfl, ?_⟩
    intro hroom hsource htarget
    rw [List.append_nil]
    by_contra hkey
    exact h ⟨hroom, hsource, htarget, hkey⟩

theorem meet_meets [DecidableEq key] (W : Wiring node edge key) (maxNodes maxEdges : Option Nat)
    (x : node) (depth : Nat) (w : Exploration node edge) (e : edge) :
    exists new more, Meets W maxNodes maxEdges x depth [e] w
      (W.meet maxNodes maxEdges x depth w e) new more := by
  obtain ⟨new, hinclude, hnew, hall⟩ := includeEnd_cases W maxNodes x depth w e
  obtain ⟨more, htake, hmore, -⟩ :=
    takeEdge_cases W maxEdges (W.includeEnd maxNodes x depth w e) e
  refine ⟨new, more, ?_⟩
  have heq : W.meet maxNodes maxEdges x depth w e =
      ⟨w.included ++ new, w.queue ++ new.map (fun y => (y, depth + 1)),
        w.taken ++ more⟩ := by
    rw [Wiring.meet, htake, hinclude]
  rw [heq]
  rw [hinclude] at hmore
  constructor
  · rfl
  · rfl
  · rfl
  · rcases hnew with rfl | ⟨rfl, -, -⟩
    · exact List.nodup_nil
    · exact List.nodup_singleton _
  · intro y hy
    rcases hnew with rfl | ⟨rfl, hfresh, -⟩
    · cases hy
    · rw [List.mem_singleton.mp hy]
      exact ⟨List.mem_singleton.mpr rfl, hfresh⟩
  · intro hne
    rcases hnew with rfl | ⟨rfl, -, hroom⟩
    · exact absurd rfl hne
    · exact room_of_le hroom (by simp)
  · intro hroom y hy
    rw [List.mem_singleton.mp hy]
    exact hall (room_of_le hroom (by simp))
  · rcases hmore with rfl | ⟨rfl, -⟩
    · exact List.nil_subset _
    · exact List.Subset.refl _
  · intro f hf
    rcases hmore with rfl | ⟨rfl, hsource, htarget, -⟩
    · cases hf
    · rw [List.mem_singleton.mp hf]
      exact ⟨hsource, htarget⟩
  · intro hnodup
    rcases hmore with rfl | ⟨rfl, -, -, hkey, -⟩
    · simpa using hnodup
    · unfold Wiring.keys at hkey hnodup ⊢
      rw [List.map_append]
      exact List.nodup_append.mpr ⟨hnodup, List.nodup_singleton _,
        fun k hk l hl heq => hkey (List.mem_singleton.mp hl ▸ heq ▸ hk)⟩
  · intro hne
    rcases hmore with rfl | ⟨rfl, -, -, -, hroom⟩
    · exact absurd rfl hne
    · exact room_of_le hroom (by simp)

theorem Meets.cons {x : node} {depth : Nat} {e : edge} {es : List edge}
    {w w' w'' : Exploration node edge} {new new' : List node} {more more' : List edge}
    (h : Meets W maxNodes maxEdges x depth [e] w w' new more)
    (h' : Meets W maxNodes maxEdges x depth es w' w'' new' more') :
    Meets W maxNodes maxEdges x depth (e :: es) w w'' (new ++ new') (more ++ more') := by
  have hlength : w'.included.length ≤ w''.included.length := by
    rw [h'.included, List.length_append]
    exact Nat.le_add_right _ _
  constructor
  · rw [h'.included, h.included, List.append_assoc]
  · rw [h'.queue, h.queue, List.map_append, List.append_assoc]
  · rw [h'.taken, h.taken, List.append_assoc]
  · refine List.nodup_append.mpr ⟨h.nodup, h'.nodup, ?_⟩
    intro y hy z hz heq
    refine (h'.fresh z hz).2 ?_
    rw [h.included, ← heq]
    exact List.mem_append_right _ hy
  · intro y hy
    rcases List.mem_append.mp hy with hy | hy
    · obtain ⟨hmem, hfresh⟩ := h.fresh y hy
      rw [List.map_cons]
      exact ⟨List.mem_cons.mpr (Or.inl (List.mem_singleton.mp hmem)), hfresh⟩
    · obtain ⟨hmem, hfresh⟩ := h'.fresh y hy
      refine ⟨List.mem_cons_of_mem _ hmem, ?_⟩
      intro hold
      rw [h.included] at hfresh
      exact hfresh (List.mem_append_left _ hold)
  · intro hne
    by_cases hnew' : new' = []
    · have heq : w''.included.length = w'.included.length := by
        rw [h'.included, hnew', List.append_nil]
      rw [heq]
      refine h.fits ?_
      intro hnew
      exact hne (by rw [hnew, hnew', List.append_nil])
    · exact h'.fits hnew'
  · intro hroom y hy
    rcases List.mem_cons.mp hy with rfl | hy
    · rw [h'.included]
      exact List.mem_append_left _
        (h.all (room_of_le hroom hlength) _ (List.mem_singleton.mpr rfl))
    · exact h'.all hroom y hy
  · intro f hf
    rcases List.mem_append.mp hf with hf | hf
    · exact List.mem_cons.mpr (Or.inl (List.mem_singleton.mp (h.edges hf)))
    · exact List.mem_cons_of_mem _ (h'.edges hf)
  · intro f hf
    rcases List.mem_append.mp hf with hf | hf
    · obtain ⟨hsource, htarget⟩ := h.ends f hf
      rw [h'.included]
      exact ⟨List.mem_append_left _ hsource, List.mem_append_left _ htarget⟩
    · exact h'.ends f hf
  · exact fun hnodup => h'.keys (h.keys hnodup)
  · intro hne
    by_cases hmore' : more' = []
    · have heq : w''.taken.length = w'.taken.length := by
        rw [h'.taken, hmore', List.append_nil]
      rw [heq]
      refine h.fitsEdges ?_
      intro hmore
      exact hne (by rw [hmore, hmore', List.append_nil])
    · exact h'.fitsEdges hmore'

variable {x : node} {depth : Nat} {w' : Exploration node edge} {new : List node}
  {more : List edge}

theorem Meets.nodup_included {es : List edge} {w : Exploration node edge}
    (h : Meets W maxNodes maxEdges x depth es w w' new more) (hw : w.included.Nodup) :
    w'.included.Nodup := by
  rw [h.included]
  exact List.nodup_append.mpr ⟨hw, h.nodup,
    fun y hy z hz heq => (h.fresh z hz).2 (heq ▸ hy)⟩

theorem foldl_meets [DecidableEq key] (W : Wiring node edge key) (maxNodes maxEdges : Option Nat)
    (x : node) (depth : Nat) (es : List edge) (w : Exploration node edge) :
    exists new more, Meets W maxNodes maxEdges x depth es w
      (es.foldl (W.meet maxNodes maxEdges x depth) w) new more := by
  induction es generalizing w with
  | nil =>
      exact ⟨[], [], Meets.refl x depth w⟩
  | cons e rest ih =>
      obtain ⟨new, more, h⟩ := meet_meets W maxNodes maxEdges x depth w e
      obtain ⟨new', more', h'⟩ := ih (W.meet maxNodes maxEdges x depth w e)
      exact ⟨new ++ new', more ++ more', h.cons h'⟩

/-!
# Distances under limits

`done` lists the nodes taken from the queue, with their depths.
-/

structure Charted (W : Wiring node edge key) (maxNodes maxEdges : Option Nat)
    (maxDepth : Nat) (a : node) (w : Exploration node edge)
    (done : List (node × Nat)) : Prop where
  included : w.included = (done ++ w.queue).map Prod.fst
  nodup : w.included.Nodup
  distance : forall p, p ∈ done ++ w.queue ->
    Distance W.neighbours a p.2 p.1 ∧ p.2 ≤ maxDepth
  sorted : (done ++ w.queue).Pairwise (fun p q => p.2 ≤ q.2)
  span : forall p, w.queue.head? = some p ->
    forall q, q ∈ done ++ w.queue -> q.2 ≤ p.2 + 1
  closed : room maxNodes w.included.length ->
    forall p, p ∈ done -> p.2 < maxDepth ->
      forall y, y ∈ W.neighbours p.1 -> y ∈ w.included
  nearer : forall p, p ∈ done ++ w.queue ->
    forall n x, Distance W.neighbours a n x -> n < p.2 -> x ∈ w.included
  first : (a, 0) ∈ done ++ w.queue
  edges : forall e, e ∈ w.taken ->
    (exists p, p ∈ done ∧ p.2 < maxDepth ∧ e ∈ W.incident p.1) ∧
      W.source e ∈ w.included ∧ W.target e ∈ w.included
  keys : (W.keys w.taken).Nodup
  fewNodes : forall most, maxNodes = some most -> w.included.length ≤ most
  fewEdges : forall most, maxEdges = some most -> w.taken.length ≤ most

theorem charted_start {a : node} (hroom : room maxNodes 0) (maxDepth : Nat) :
    Charted W maxNodes maxEdges maxDepth a (Exploration.start a) [] where
  included := rfl
  nodup := List.nodup_singleton a
  distance := by
    intro p hp
    rw [List.mem_singleton.mp hp]
    exact ⟨distance_zero _ a, Nat.zero_le _⟩
  sorted := List.pairwise_singleton ..
  span := by
    intro p _ q hq
    rw [List.mem_singleton.mp hq]
    exact Nat.zero_le _
  closed := by
    intro _ p hp
    cases hp
  nearer := by
    intro p hp n x _ hlt
    rw [List.mem_singleton.mp hp] at hlt
    exact absurd hlt (Nat.not_lt_zero n)
  first := List.mem_singleton.mpr rfl
  edges := by
    intro e he
    cases he
  keys := List.nodup_nil
  fewNodes := by
    rintro most rfl
    exact hroom
  fewEdges := fun _ _ => Nat.zero_le _

variable {maxDepth : Nat} {a : node} {w : Exploration node edge}
  {done : List (node × Nat)}

theorem Charted.mem_included (h : Charted W maxNodes maxEdges maxDepth a w done) :
    x ∈ w.included ↔ exists n, (x, n) ∈ done ++ w.queue := by
  rw [h.included, List.mem_map]
  constructor
  · rintro ⟨⟨y, n⟩, hmem, rfl⟩
    exact ⟨n, hmem⟩
  · rintro ⟨n, hmem⟩
    exact ⟨(x, n), hmem, rfl⟩

theorem Charted.depth_eq (h : Charted W maxNodes maxEdges maxDepth a w done)
    {n : Nat} (hx : x ∈ w.included) (hdist : Distance W.neighbours a n x) :
    (x, n) ∈ done ++ w.queue := by
  obtain ⟨m, hm⟩ := h.mem_included.mp hx
  rw [hdist.unique (h.distance _ hm).1]
  exact hm

variable {rest : List (node × Nat)}

theorem Charted.layered (h : Charted W maxNodes maxEdges maxDepth a w done)
    (hqueue : w.queue = (x, depth) :: rest) :
    Layered done ((x, depth) :: rest) :=
  ⟨hqueue ▸ h.sorted, hqueue ▸ h.span⟩

theorem Charted.level (h : Charted W maxNodes maxEdges maxDepth a w done)
    (hroom : room maxNodes w.included.length)
    (hqueue : w.queue = (x, depth) :: rest) {n : Nat} {y : node}
    (hy : Distance W.neighbours a n y) (hn : n ≤ depth) :
    y ∈ w.included := by
  have hhere : (x, depth) ∈ done ++ w.queue := by
    rw [hqueue]
    exact List.mem_append_right _ List.mem_cons_self
  induction n generalizing y with
  | zero =>
      rw [hy.1.eq_start]
      exact h.mem_included.mpr ⟨0, h.first⟩
  | succ n ih =>
      obtain ⟨z, hz, hyz⟩ := hy.nearer
      have hlabel := h.depth_eq (ih hz (by omega)) hz
      have hdone : (z, n) ∈ done := by
        rcases List.mem_append.mp hlabel with hdone | hqueued
        · exact hdone
        · rw [hqueue] at hqueued
          rcases List.mem_cons.mp hqueued with heq | hmem
          · cases heq
            omega
          · have hle := (h.layered hqueue).later hmem
            dsimp only at hle
            omega
      have hwithin := (h.distance _ hhere).2
      dsimp only at hwithin
      exact h.closed hroom _ hdone (by dsimp only; omega) y hyz

theorem Charted.skip (h : Charted W maxNodes maxEdges maxDepth a w done)
    (hqueue : w.queue = (x, depth) :: rest) (hdeep : maxDepth ≤ depth) :
    Charted W maxNodes maxEdges maxDepth a { w with queue := rest }
      (done ++ [(x, depth)]) := by
  have hsplit : done ++ [(x, depth)] ++ rest = done ++ w.queue := by
    rw [hqueue, List.append_assoc]
    rfl
  have hlayered := (h.layered hqueue).expand []
  rw [deeper, List.map_nil, List.append_nil] at hlayered
  constructor
  · rw [hsplit]
    exact h.included
  · exact h.nodup
  · rw [hsplit]
    exact h.distance
  · exact hlayered.sorted
  · exact hlayered.span
  · intro hroom p hp hlt
    rcases List.mem_append.mp hp with hp | hp
    · exact h.closed hroom p hp hlt
    · rw [List.mem_singleton.mp hp] at hlt
      exact absurd hlt (Nat.not_lt.mpr hdeep)
  · rw [hsplit]
    exact h.nearer
  · rw [hsplit]
    exact h.first
  · intro e he
    obtain ⟨⟨p, hp, hrest⟩, hends⟩ := h.edges e he
    exact ⟨⟨p, List.mem_append_left _ hp, hrest⟩, hends⟩
  · exact h.keys
  · exact h.fewNodes
  · exact h.fewEdges

theorem Charted.expand (h : Charted W maxNodes maxEdges maxDepth a w done)
    (hqueue : w.queue = (x, depth) :: rest) (hshallow : depth < maxDepth)
    (hmeets : Meets W maxNodes maxEdges x depth (W.incident x) { w with queue := rest }
      w' new more) :
    Charted W maxNodes maxEdges maxDepth a w' (done ++ [(x, depth)]) := by
  have hqueue' : w'.queue = rest ++ deeper depth new := hmeets.queue
  have hsplit : done ++ [(x, depth)] ++ w'.queue =
      (done ++ w.queue) ++ deeper depth new := by
    rw [hqueue', hqueue]
    exact append_taken done rest x depth new
  have hincluded : w'.included = w.included ++ new := hmeets.included
  have hgrows : w.included.length ≤ w'.included.length := by
    rw [hincluded, List.length_append]
    exact Nat.le_add_right _ _
  have hkept : forall {y}, y ∈ w.included -> y ∈ w'.included := by
    intro y hy
    rw [hincluded]
    exact List.mem_append_left _ hy
  have hhere : (x, depth) ∈ done ++ w.queue := by
    rw [hqueue]
    exact List.mem_append_right _ List.mem_cons_self
  have hhad : forall y, y ∈ new -> room maxNodes w.included.length := by
    intro y hy
    have hpos := List.length_pos_of_mem hy
    refine room_of_le (hmeets.fits (List.ne_nil_of_mem hy)) ?_
    rw [hincluded, List.length_append]
    omega
  have hlevel : forall y, y ∈ new -> forall n z, Distance W.neighbours a n z ->
      n ≤ depth -> z ∈ w.included :=
    fun y hy n z hz hn => h.level (hhad y hy) hqueue hz hn
  constructor
  · rw [hsplit, List.map_append, deeper_fst, ← h.included, hincluded]
  · exact hmeets.nodup_included h.nodup
  · intro p hp
    rw [hsplit] at hp
    rcases mem_append_deeper hp with hold | ⟨hmem, hlabel⟩
    · exact h.distance p hold
    · rw [hlabel]
      obtain ⟨hnext, hfresh⟩ := hmeets.fresh p.1 hmem
      refine ⟨⟨Path.snoc (h.distance _ hhere).1.1 hnext, ?_⟩, hshallow⟩
      intro m hm
      by_contra hlt
      obtain ⟨k, hk, hdist⟩ := hm.distance
      exact hfresh (hlevel p.1 hmem k p.1 hdist (by omega))
  · rw [hqueue']
    exact ((h.layered hqueue).expand new).sorted
  · rw [hqueue']
    exact ((h.layered hqueue).expand new).span
  · intro hroom p hp hlt y hy
    rcases List.mem_append.mp hp with hdone | hlast
    · exact hkept (h.closed (room_of_le hroom hgrows) p hdone hlt y hy)
    · rw [List.mem_singleton.mp hlast] at hy
      exact hmeets.all hroom y hy
  · intro p hp n y hy hlt
    rw [hsplit] at hp
    rcases mem_append_deeper hp with hold | ⟨hmem, hlabel⟩
    · exact hkept (h.nearer p hold n y hy hlt)
    · exact hkept (hlevel p.1 hmem n y hy (by omega))
  · rw [hsplit]
    exact List.mem_append_left _ h.first
  · intro e he
    rw [hmeets.taken] at he
    rcases List.mem_append.mp he with hold | hnew
    · obtain ⟨⟨p, hp, hrest⟩, hsource, htarget⟩ := h.edges e hold
      exact ⟨⟨p, List.mem_append_left _ hp, hrest⟩, hkept hsource, hkept htarget⟩
    · exact ⟨⟨(x, depth), by simp, hshallow, hmeets.edges hnew⟩, hmeets.ends e hnew⟩
  · exact hmeets.keys h.keys
  · intro most hmost
    by_cases hnew : new = []
    · rw [hincluded, hnew, List.append_nil]
      exact h.fewNodes most hmost
    · have hfits := hmeets.fits hnew
      rw [hmost] at hfits
      exact Nat.le_of_pred_lt hfits
  · intro most hmost
    by_cases hmore : more = []
    · rw [hmeets.taken, hmore, List.append_nil]
      exact h.fewEdges most hmost
    · have hfits := hmeets.fitsEdges hmore
      rw [hmost] at hfits
      exact Nat.le_of_pred_lt hfits

variable [DecidableEq key]

/-!
# Whole explorations
-/

def Exploration.Full (w : Exploration node edge) (maxNodes maxEdges : Option Nat) :
    Prop :=
  ¬ room maxNodes w.included.length ∧ ¬ room maxEdges w.taken.length

/-- What every round keeps holds at the end, and the end comes when no more nodes
than there are can be taken from the queue. -/
theorem explore_run {I : Exploration node edge -> List (node × Nat) -> Prop}
    (hskip : forall w done x depth rest, I w done -> w.queue = (x, depth) :: rest ->
      maxDepth ≤ depth -> I { w with queue := rest } (done ++ [(x, depth)]))
    (hexpand : forall w done x depth rest, I w done -> w.queue = (x, depth) :: rest ->
      depth < maxDepth ->
      I ((W.incident x).foldl (W.meet maxNodes maxEdges x depth)
        { w with queue := rest }) (done ++ [(x, depth)])) {count : Nat}
    (hcount : forall w done, I w done -> (done ++ w.queue).length ≤ count)
    {fuel : Nat} (h : I w done) (hfuel : count ≤ done.length + fuel) :
    exists w' done', W.explore maxNodes maxEdges maxDepth fuel w = some w' ∧
      I w' done' ∧ (w'.queue = [] ∨ w'.Full maxNodes maxEdges) := by
  induction fuel generalizing w done with
  | zero =>
      have hlength := hcount w done h
      rw [List.length_append] at hlength
      have hempty : w.queue = [] := List.eq_nil_of_length_eq_zero (by omega)
      refine ⟨w, done, ?_, h, Or.inl hempty⟩
      rw [Wiring.explore, if_pos hempty]
  | succ fuel ih =>
      rw [Wiring.explore]
      cases hqueue : w.queue with
      | nil =>
          exact ⟨w, done, rfl, h, Or.inl hqueue⟩
      | cons p rest =>
          have hfuel' : count ≤ (done ++ [p]).length + fuel := by
            rw [List.length_append, List.length_singleton]
            omega
          by_cases hdeep : maxDepth ≤ p.2
          · simp only [if_pos hdeep]
            exact ih (hskip w done p.1 p.2 rest h hqueue hdeep) hfuel'
          · by_cases hfull : w.Full maxNodes maxEdges
            · have hfull' := hfull
              unfold Exploration.Full at hfull'
              simp only [if_neg hdeep, if_pos hfull']
              exact ⟨w, done, rfl, h, Or.inr hfull⟩
            · have hfull' := hfull
              unfold Exploration.Full at hfull'
              simp only [if_neg hdeep, if_neg hfull']
              exact ih (hexpand w done p.1 p.2 rest h hqueue (by omega)) hfuel'

theorem Charted.meets (h : Charted W maxNodes maxEdges maxDepth a w done)
    (hqueue : w.queue = (x, depth) :: rest) (hshallow : depth < maxDepth) :
    Charted W maxNodes maxEdges maxDepth a
      ((W.incident x).foldl (W.meet maxNodes maxEdges x depth)
        { w with queue := rest }) (done ++ [(x, depth)]) := by
  obtain ⟨new, more, hmeets⟩ := foldl_meets W maxNodes maxEdges x depth (W.incident x)
    { w with queue := rest }
  exact h.expand hqueue hshallow hmeets

omit [DecidableEq key] in
theorem Charted.count (h : Charted W maxNodes maxEdges maxDepth a w done)
    {nodes : List node} (hnodes : forall n x, Path W.neighbours a n x -> x ∈ nodes) :
    (done ++ w.queue).length ≤ nodes.length := by
  have hsub : w.included ⊆ nodes := by
    intro x hx
    obtain ⟨n, hn⟩ := h.mem_included.mp hx
    exact hnodes n x (h.distance _ hn).1.1
  have hlength := (List.subperm_of_subset h.nodup hsub).length_le
  rw [h.included, List.length_map] at hlength
  exact hlength

theorem explore_charted (hroom : room maxNodes 0) {nodes : List node}
    (hnodes : forall n x, Path W.neighbours a n x -> x ∈ nodes) (maxDepth : Nat) :
    exists w done,
      W.explore maxNodes maxEdges maxDepth nodes.length (Exploration.start a) = some w ∧
      Charted W maxNodes maxEdges maxDepth a w done := by
  have hfuel : nodes.length ≤ ([] : List (node × Nat)).length + nodes.length := by simp
  obtain ⟨w, done, hw, hcharted, -⟩ :=
    explore_run (I := Charted W maxNodes maxEdges maxDepth a)
      (fun _ _ _ _ _ h hqueue hdeep => h.skip hqueue hdeep)
      (fun _ _ _ _ _ h hqueue hshallow => h.meets hqueue hshallow)
      (fun _ _ h => h.count hnodes) (charted_start hroom maxDepth) hfuel
  exact ⟨w, done, hw, hcharted⟩

/-!
# Limits that are not in the way
-/

def Wiring.Canonical (W : Wiring node edge key) (e : edge) : Prop :=
  exists x, (W.incident x).find? (fun f => W.key f = W.key e) = some e

/-- The nodes and the keys of the edges, with limits that leave room for all. -/
structure Roomy (W : Wiring node edge key) (maxNodes maxEdges : Option Nat) (a : node)
    (nodes : List node) (keys : List key) : Prop where
  reached : forall n x, Path W.neighbours a n x -> x ∈ nodes
  keyed : forall x e, e ∈ W.incident x -> W.key e ∈ keys
  ends : forall x e, e ∈ W.incident x -> W.source e = x ∨ W.target e = x
  agree : forall e f, W.Canonical e -> W.Canonical f -> W.key e = W.key f -> e = f
  roomNodes : forall n, n < nodes.length -> room maxNodes n
  roomEdges : forall n, n < keys.length -> room maxEdges n

theorem room_of_fresh {item : Type} {limit : Option Nat} {xs all : List item} {y : item}
    (hroom : forall n, n < all.length -> room limit n) (hnodup : xs.Nodup)
    (hsub : xs ⊆ all) (hy : y ∈ all) (hfresh : y ∉ xs) :
    room limit xs.length := by
  have hperm := List.subperm_of_subset (List.nodup_cons.mpr ⟨hfresh, hnodup⟩)
    (List.cons_subset.mpr ⟨hy, hsub⟩)
  have hlength := hperm.length_le
  rw [List.length_cons] at hlength
  exact hroom _ hlength

/-- A walk whose nodes and edges are among those given. -/
structure Among (W : Wiring node edge key) (x : node) (nodes : List node)
    (keys : List key) (w : Exploration node edge) : Prop where
  here : x ∈ w.included
  nodupNodes : w.included.Nodup
  subNodes : w.included ⊆ nodes
  nodupKeys : (W.keys w.taken).Nodup
  subKeys : W.keys w.taken ⊆ keys

section

variable {nodes : List node} {keys : List key} {x : node}

/-- With room an edge of the node brings in its other end and is taken, unless an
edge with its key was. -/
theorem Among.meet (h : Among W x nodes keys w) (depth : Nat)
    (hroomNodes : forall n, n < nodes.length -> room maxNodes n)
    (hroomEdges : forall n, n < keys.length -> room maxEdges n) {e : edge}
    (hends : W.source e = x ∨ W.target e = x) (hother : W.other x e ∈ nodes)
    (hkey : W.key e ∈ keys) :
    Among W x nodes keys (W.meet maxNodes maxEdges x depth w e) ∧
      W.key e ∈ W.keys (W.meet maxNodes maxEdges x depth w e).taken ∧
      forall f, f ∈ (W.meet maxNodes maxEdges x depth w e).taken ->
        f ∈ w.taken ∨ f = e ∧ W.key e ∉ W.keys w.taken := by
  obtain ⟨new, more, hmeets⟩ := meet_meets W maxNodes maxEdges x depth w e
  obtain ⟨_, hinclude, -, hall⟩ := includeEnd_cases W maxNodes x depth w e
  obtain ⟨_, htake, -, htaken⟩ :=
    takeEdge_cases W maxEdges (W.includeEnd maxNodes x depth w e) e
  have hincluded : (W.meet maxNodes maxEdges x depth w e).included =
      (W.includeEnd maxNodes x depth w e).included := by
    rw [Wiring.meet, htake]
  have hkept : (W.includeEnd maxNodes x depth w e).taken = w.taken := by
    rw [hinclude]
  have hboth : W.other x e ∈ (W.includeEnd maxNodes x depth w e).included := by
    rw [hinclude]
    by_cases hold : W.other x e ∈ w.included
    · exact List.mem_append_left _ hold
    · exact hall (room_of_fresh hroomNodes h.nodupNodes h.subNodes hother hold)
  have hhere : x ∈ (W.includeEnd maxNodes x depth w e).included := by
    rw [hinclude]
    exact List.mem_append_left _ h.here
  have hsource : W.source e ∈ (W.includeEnd maxNodes x depth w e).included := by
    unfold Wiring.other at hboth
    split at hboth
    · next hx => exact hx ▸ hhere
    · exact hboth
  have htarget : W.target e ∈ (W.includeEnd maxNodes x depth w e).included := by
    unfold Wiring.other at hboth
    split at hboth
    · exact hboth
    · next hx => exact (hends.resolve_left hx) ▸ hhere
  have hnodup := hmeets.keys h.nodupKeys
  refine ⟨⟨hincluded ▸ hhere, hmeets.nodup_included h.nodupNodes, ?_, hnodup, ?_⟩, ?_, ?_⟩
  · intro y hy
    rw [hmeets.included] at hy
    rcases List.mem_append.mp hy with hold | hnew
    · exact h.subNodes hold
    · exact List.mem_singleton.mp (hmeets.fresh y hnew).1 ▸ hother
  · intro k hk
    obtain ⟨f, hf, rfl⟩ := List.mem_map.mp hk
    rw [hmeets.taken] at hf
    rcases List.mem_append.mp hf with hold | hmore
    · exact h.subKeys (List.mem_map_of_mem hold)
    · exact List.mem_singleton.mp (hmeets.edges hmore) ▸ hkey
  · by_cases hold : W.key e ∈ W.keys w.taken
    · unfold Wiring.keys at hold ⊢
      rw [hmeets.taken, List.map_append]
      exact List.mem_append_left _ hold
    · have hroom := room_of_fresh hroomEdges h.nodupKeys h.subKeys hkey hold
      rw [Wiring.keys, List.length_map, ← hkept] at hroom
      rw [Wiring.meet, htake]
      exact htaken hroom hsource htarget
  · intro f hf
    rw [hmeets.taken] at hf
    rcases List.mem_append.mp hf with hold | hmore
    · exact Or.inl hold
    · have hfe : f = e := List.mem_singleton.mp (hmeets.edges hmore)
      refine Or.inr ⟨hfe, ?_⟩
      rw [Wiring.keys, hmeets.taken, List.map_append] at hnodup
      intro hold
      exact (List.nodup_append.mp hnodup).2.2 _ hold _
        (List.mem_map_of_mem (hfe ▸ hmore)) rfl

theorem Among.foldl_meet (hroomNodes : forall n, n < nodes.length -> room maxNodes n)
    (hroomEdges : forall n, n < keys.length -> room maxEdges n) {es : List edge}
    (hends : forall e, e ∈ es -> W.source e = x ∨ W.target e = x)
    (hothers : forall e, e ∈ es -> W.other x e ∈ nodes)
    (hkeys : forall e, e ∈ es -> W.key e ∈ keys) (h : Among W x nodes keys w)
    (depth : Nat) :
    (forall e, e ∈ es ->
      W.key e ∈ W.keys (es.foldl (W.meet maxNodes maxEdges x depth) w).taken) ∧
    forall f, f ∈ (es.foldl (W.meet maxNodes maxEdges x depth) w).taken ->
      f ∈ w.taken ∨ W.key f ∉ W.keys w.taken ∧
        es.find? (fun e => W.key e = W.key f) = some f := by
  induction es generalizing w with
  | nil =>
      exact ⟨fun e he => absurd he List.not_mem_nil, fun f hf => Or.inl hf⟩
  | cons e rest ih =>
      obtain ⟨hamong, hkey, htaken⟩ := h.meet depth hroomNodes hroomEdges
        (hends e List.mem_cons_self) (hothers e List.mem_cons_self)
        (hkeys e List.mem_cons_self)
      obtain ⟨hall, hfirst⟩ := ih (fun f hf => hends f (List.mem_cons_of_mem _ hf))
        (fun f hf => hothers f (List.mem_cons_of_mem _ hf))
        (fun f hf => hkeys f (List.mem_cons_of_mem _ hf)) hamong
      rw [List.foldl_cons]
      have hkept : forall f, f ∈ (W.meet maxNodes maxEdges x depth w e).taken ->
          W.key f ∈ W.keys
            (rest.foldl (W.meet maxNodes maxEdges x depth)
              (W.meet maxNodes maxEdges x depth w e)).taken := by
        intro f hf
        obtain ⟨new, more, hmeets⟩ := foldl_meets W maxNodes maxEdges x depth rest
          (W.meet maxNodes maxEdges x depth w e)
        rw [hmeets.taken]
        exact List.mem_map_of_mem (List.mem_append_left _ hf)
      constructor
      · intro f hf
        rcases List.mem_cons.mp hf with rfl | hf
        · obtain ⟨e', he', heq⟩ := List.mem_map.mp hkey
          rw [← heq]
          exact hkept e' he'
        · exact hall f hf
      · intro f hf
        rcases hfirst f hf with hf | ⟨hfresh, hfind⟩
        · rcases htaken f hf with hold | ⟨rfl, hfresh⟩
          · exact Or.inl hold
          · exact Or.inr ⟨hfresh, List.find?_cons_of_pos (by simp)⟩
        · have hne : ¬ W.key e = W.key f := fun heq => hfresh (heq ▸ hkey)
          have hwas : W.key f ∉ W.keys w.taken := by
            intro hold
            obtain ⟨new, more, hmeets⟩ := meet_meets W maxNodes maxEdges x depth w e
            refine hfresh ?_
            unfold Wiring.keys at hold ⊢
            rw [hmeets.taken, List.map_append]
            exact List.mem_append_left _ hold
          refine Or.inr ⟨hwas, ?_⟩
          rw [List.find?_cons_of_neg (by simpa using hne)]
          exact hfind

end

/-- A charted walk that has the edges of all nodes it went on from. -/
structure Traced (W : Wiring node edge key) (maxNodes maxEdges : Option Nat)
    (maxDepth : Nat) (a : node) (w : Exploration node edge)
    (done : List (node × Nat)) : Prop where
  charted : Charted W maxNodes maxEdges maxDepth a w done
  all : forall p, p ∈ done -> p.2 < maxDepth ->
    forall e, e ∈ W.incident p.1 -> W.key e ∈ W.keys w.taken
  canonical : forall e, e ∈ w.taken -> W.Canonical e

variable {nodes : List node} {keys : List key}

theorem Roomy.included_sub (hroomy : Roomy W maxNodes maxEdges a nodes keys)
    (h : Charted W maxNodes maxEdges maxDepth a w done) :
    w.included ⊆ nodes := by
  intro x hx
  obtain ⟨n, hn⟩ := h.mem_included.mp hx
  exact hroomy.reached n x (h.distance _ hn).1.1

theorem Roomy.keys_sub (hroomy : Roomy W maxNodes maxEdges a nodes keys)
    (h : Charted W maxNodes maxEdges maxDepth a w done) :
    W.keys w.taken ⊆ keys := by
  intro k hk
  obtain ⟨e, he, rfl⟩ := List.mem_map.mp hk
  obtain ⟨⟨p, _, _, hincident⟩, _⟩ := h.edges e he
  exact hroomy.keyed p.1 e hincident

theorem Traced.expand (h : Traced W maxNodes maxEdges maxDepth a w done)
    (hroomy : Roomy W maxNodes maxEdges a nodes keys)
    (hqueue : w.queue = (x, depth) :: rest) (hshallow : depth < maxDepth) :
    Traced W maxNodes maxEdges maxDepth a
      ((W.incident x).foldl (W.meet maxNodes maxEdges x depth)
        { w with queue := rest }) (done ++ [(x, depth)]) := by
  have hhere : (x, depth) ∈ done ++ w.queue := by
    rw [hqueue]
    exact List.mem_append_right _ List.mem_cons_self
  have hsubKeys := hroomy.keys_sub h.charted
  have hsubNodes := hroomy.included_sub h.charted
  have hamong : Among W x nodes keys { w with queue := rest } :=
    ⟨h.charted.mem_included.mpr ⟨depth, hhere⟩, h.charted.nodup,
      hsubNodes, h.charted.keys, hsubKeys⟩
  have hothers : forall e, e ∈ W.incident x -> W.other x e ∈ nodes :=
    fun e he => hroomy.reached _ _ (Path.snoc (h.charted.distance _ hhere).1.1
      (List.mem_map_of_mem he))
  obtain ⟨hall, hfirst⟩ := hamong.foldl_meet hroomy.roomNodes hroomy.roomEdges
    (hroomy.ends x) hothers (hroomy.keyed x) depth
  obtain ⟨new, more, hmeets⟩ := foldl_meets W maxNodes maxEdges x depth (W.incident x)
    { w with queue := rest }
  refine ⟨h.charted.expand hqueue hshallow hmeets, ?_, ?_⟩
  · intro p hp hlt e he
    rcases List.mem_append.mp hp with hdone | hlast
    · unfold Wiring.keys
      rw [hmeets.taken, List.map_append]
      exact List.mem_append_left _ (h.all p hdone hlt e he)
    · rw [List.mem_singleton.mp hlast] at he
      exact hall e he
  · intro e he
    rcases hfirst e he with hold | ⟨_, hfind⟩
    · exact h.canonical e hold
    · exact ⟨x, hfind⟩

theorem explore_traced (hroomy : Roomy W maxNodes maxEdges a nodes keys)
    (maxDepth : Nat) :
    exists w done,
      W.explore maxNodes maxEdges maxDepth nodes.length (Exploration.start a) = some w ∧
      Traced W maxNodes maxEdges maxDepth a w done ∧
      (w.queue = [] ∨ w.Full maxNodes maxEdges) := by
  have hpos : 0 < nodes.length := List.length_pos_of_mem (hroomy.reached 0 a Path.nil)
  have hstart : Traced W maxNodes maxEdges maxDepth a (Exploration.start a) [] := by
    refine ⟨charted_start (hroomy.roomNodes 0 hpos) maxDepth, ?_, ?_⟩
    · intro p hp
      cases hp
    · intro e he
      cases he
  have hfuel : nodes.length ≤ ([] : List (node × Nat)).length + nodes.length := by simp
  have hskip : forall (w : Exploration node edge) (done : List (node × Nat)) (x : node)
      (depth : Nat) (rest : List (node × Nat)),
      Traced W maxNodes maxEdges maxDepth a w done -> w.queue = (x, depth) :: rest ->
      maxDepth ≤ depth ->
      Traced W maxNodes maxEdges maxDepth a { w with queue := rest }
        (done ++ [(x, depth)]) := by
    intro w done x depth rest h hqueue hdeep
    refine ⟨h.charted.skip hqueue hdeep, ?_, h.canonical⟩
    intro p hp hlt
    rcases List.mem_append.mp hp with hdone | hlast
    · exact h.all p hdone hlt
    · rw [List.mem_singleton.mp hlast] at hlt
      exact absurd hlt (Nat.not_lt.mpr hdeep)
  exact explore_run hskip
    (fun _ _ _ _ _ h hqueue hshallow => h.expand hroomy hqueue hshallow)
    (fun _ _ h => h.charted.count hroomy.reached) hstart hfuel

/-- With room for everything the exploration includes the nodes within the depth and
takes the first edge of each key at the nodes above it. -/
theorem explore_roomy (hroomy : Roomy W maxNodes maxEdges a nodes keys)
    (maxDepth : Nat) :
    exists w,
      W.explore maxNodes maxEdges maxDepth nodes.length (Exploration.start a) = some w ∧
      (forall x, x ∈ w.included ↔ exists n, n ≤ maxDepth ∧ Distance W.neighbours a n x) ∧
      (W.keys w.taken).Nodup ∧
      forall e, e ∈ w.taken ↔ W.Canonical e ∧
        exists x n, n < maxDepth ∧ Distance W.neighbours a n x ∧ e ∈ W.incident x := by
  obtain ⟨w, done, hw, htraced, hend⟩ := explore_traced hroomy maxDepth
  have hcharted := htraced.charted
  -- a full walk has everything
  have hnodes : forall n x, n ≤ maxDepth -> Distance W.neighbours a n x ->
      x ∈ w.included := by
    intro n
    induction n with
    | zero =>
        intro x _ hx
        rw [hx.1.eq_start]
        exact hcharted.mem_included.mpr ⟨0, hcharted.first⟩
    | succ n ih =>
        intro y hn hy
        by_contra hfresh
        have hroom := room_of_fresh hroomy.roomNodes hcharted.nodup
          (hroomy.included_sub hcharted) (hroomy.reached _ y hy.1) hfresh
        obtain ⟨x, hx, hyx⟩ := hy.nearer
        have hlabel := hcharted.depth_eq (ih x (by omega) hx) hx
        rcases hend with hempty | hfull
        · rw [hempty, List.append_nil] at hlabel
          exact hfresh (hcharted.closed hroom _ hlabel hn y hyx)
        · exact hfull.1 hroom
  have hkeys : forall x n, n < maxDepth -> Distance W.neighbours a n x ->
      forall e, e ∈ W.incident x -> W.key e ∈ W.keys w.taken := by
    intro x n hn hx e he
    by_contra hfresh
    have hroom := room_of_fresh hroomy.roomEdges hcharted.keys
      (hroomy.keys_sub hcharted) (hroomy.keyed x e he) hfresh
    rw [Wiring.keys, List.length_map] at hroom
    have hlabel := hcharted.depth_eq (hnodes n x (by omega) hx) hx
    rcases hend with hempty | hfull
    · rw [hempty, List.append_nil] at hlabel
      exact hfresh (htraced.all _ hlabel hn e he)
    · exact hfull.2 hroom
  refine ⟨w, hw, ?_, hcharted.keys, ?_⟩
  · intro x
    constructor
    · intro hx
      obtain ⟨n, hn⟩ := hcharted.mem_included.mp hx
      exact ⟨n, (hcharted.distance _ hn).2, (hcharted.distance _ hn).1⟩
    · rintro ⟨n, hn, hx⟩
      exact hnodes n x hn hx
  · intro e
    constructor
    · intro he
      obtain ⟨⟨p, hp, hlt, hincident⟩, _⟩ := hcharted.edges e he
      exact ⟨htraced.canonical e he, p.1, p.2, hlt,
        (hcharted.distance p (List.mem_append_left _ hp)).1, hincident⟩
    · rintro ⟨hcanonical, x, n, hn, hx, he⟩
      obtain ⟨f, hf, hkey⟩ := List.mem_map.mp (hkeys x n hn hx e he)
      rw [← hroomy.agree f e (htraced.canonical f hf) hcanonical hkey]
      exact hf

end

end Search
end PostCortex

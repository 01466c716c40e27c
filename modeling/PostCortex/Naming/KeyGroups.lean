import Mathlib.Data.List.Pairwise
import Mathlib.Logic.Relation
import PostCortex.Naming.AliasIndex

/-!
# Groups of things that share keys

Things, each with a list of keys, and the groups they make when two of them that share
a key belong together.  Rebuilding an index claims the keys in the order of the things
and asks for a merge with the first owner of every key that is taken.
-/

namespace PostCortex
namespace Naming

/-!
# Groups
-/

section

variable {Name Key : Type}

def ShareKey (keysOf : Name -> List Key) (x y : Name) : Prop :=
  exists k, k ∈ keysOf x ∧ k ∈ keysOf y

structure Neighbours (keysOf : Name -> List Key) (things : List Name) (x y : Name) :
    Prop where
  left : x ∈ things
  right : y ∈ things
  shared : ShareKey keysOf x y

def Linked (keysOf : Name -> List Key) (things : List Name) : Name -> Name -> Prop :=
  Relation.ReflTransGen (Neighbours keysOf things)

/-- The thing belongs to a group that shares a key with the new one. -/
def Touches (keysOf : Name -> List Key) (things : List Name) (new x : Name) : Prop :=
  exists y, y ∈ things ∧ Linked keysOf things x y ∧ ShareKey keysOf y new

structure Leader (le : Name -> Name -> Prop) (keysOf : Name -> List Key)
    (things : List Name) (x e : Name) : Prop where
  mem : e ∈ things
  linked : Linked keysOf things x e
  first : forall y, y ∈ things -> Linked keysOf things x y -> le e y

variable {keysOf : Name -> List Key} {things : List Name} {x y z e : Name}

theorem ShareKey.symm (h : ShareKey keysOf x y) : ShareKey keysOf y x := by
  obtain ⟨k, hx, hy⟩ := h
  exact ⟨k, hy, hx⟩

theorem Neighbours.symm (h : Neighbours keysOf things x y) :
    Neighbours keysOf things y x where
  left := h.right
  right := h.left
  shared := h.shared.symm

theorem Linked.refl (x : Name) : Linked keysOf things x x :=
  Relation.ReflTransGen.refl

theorem Linked.trans (h : Linked keysOf things x y) (h' : Linked keysOf things y z) :
    Linked keysOf things x z :=
  Relation.ReflTransGen.trans h h'

theorem Linked.symm (h : Linked keysOf things x y) : Linked keysOf things y x := by
  induction h with
  | refl =>
      exact Linked.refl x
  | tail _ hstep ih => exact Linked.trans (Relation.ReflTransGen.single hstep.symm) ih

theorem Linked.of_share (hx : x ∈ things) (hy : y ∈ things)
    (h : ShareKey keysOf x y) :
    Linked keysOf things x y :=
  Relation.ReflTransGen.single ⟨hx, hy, h⟩

theorem Linked.mem (h : Linked keysOf things x y) (hx : x ∈ things) : y ∈ things := by
  induction h with
  | refl =>
      exact hx
  | tail _ hstep _ => exact hstep.right

theorem Linked.mono {more : List Name} (hsub : forall x, x ∈ things -> x ∈ more)
    (h : Linked keysOf things x y) :
    Linked keysOf more x y := by
  refine Relation.ReflTransGen.mono ?_ x y h
  intro v w hvw
  exact ⟨hsub v hvw.left, hsub w hvw.right, hvw.shared⟩

theorem Linked.congr {keysOf' : Name -> List Key}
    (hkeys : forall x, x ∈ things -> keysOf x = keysOf' x)
    (h : Linked keysOf things x y) :
    Linked keysOf' things x y := by
  refine Relation.ReflTransGen.mono ?_ x y h
  intro v w hvw
  obtain ⟨k, hv, hw⟩ := hvw.shared
  exact ⟨hvw.left, hvw.right, k, hkeys v hvw.left ▸ hv, hkeys w hvw.right ▸ hw⟩

variable {new : Name}

theorem Touches.mem (h : Touches keysOf things new x) : x ∈ things := by
  obtain ⟨y, hy, hxy, -⟩ := h
  exact hxy.symm.mem hy

theorem Touches.linked (h : Touches keysOf things new x)
    (hlinked : Linked keysOf things x y) :
    Touches keysOf things new y := by
  obtain ⟨z, hz, hxz, hshare⟩ := h
  exact ⟨z, hz, hlinked.symm.trans hxz, hshare⟩

theorem linked_snoc (hx : x ∈ things) (hnew : new ∉ things) :
    (forall y, y ∈ things -> (Linked keysOf (things ++ [new]) x y ↔
      Linked keysOf things x y ∨
        Touches keysOf things new x ∧ Touches keysOf things new y)) ∧
      (Linked keysOf (things ++ [new]) x new ↔ Touches keysOf things new x) := by
  have hold : forall z, z ∈ things -> z ∈ things ++ [new] :=
    fun _ hz => List.mem_append_left _ hz
  have hreach : forall z, z ∈ things -> Touches keysOf things new z ->
      Linked keysOf (things ++ [new]) z new := by
    intro z hz htouch
    obtain ⟨v, hv, hzv, hshare⟩ := htouch
    exact (hzv.mono hold).trans
      (Linked.of_share (hold v hv) (List.mem_append_right _ List.mem_cons_self) hshare)
  have hforth : forall z, Linked keysOf (things ++ [new]) x z ->
      (z ∈ things -> Linked keysOf things x z ∨
        Touches keysOf things new x ∧ Touches keysOf things new z) ∧
      (z = new -> Touches keysOf things new x) := by
    intro z hz
    induction hz with
    | refl =>
        refine ⟨fun _ => Or.inl (Linked.refl x), ?_⟩
        rintro rfl
        exact absurd hx hnew
    | tail _ hstep ih =>
        next v w _ =>
        obtain ⟨hv, hw, hshare⟩ := hstep
        rcases List.mem_append.mp hv with hvOld | hvNew
        · have hchain := ih.1 hvOld
          constructor
          · intro hwOld
            have hvw := Linked.of_share hvOld hwOld hshare
            rcases hchain with hxv | ⟨htouch, htouchV⟩
            · exact Or.inl (hxv.trans hvw)
            · exact Or.inr ⟨htouch, htouchV.linked hvw⟩
          · rintro rfl
            rcases hchain with hxv | ⟨htouch, -⟩
            · exact ⟨v, hvOld, hxv, hshare⟩
            · exact htouch
        · have hvEq := List.mem_singleton.mp hvNew
          have htouch := ih.2 hvEq
          refine ⟨fun hwOld => Or.inr ⟨htouch, w, hwOld, Linked.refl w, ?_⟩,
            fun _ => htouch⟩
          rw [← hvEq]
          exact hshare.symm
  refine ⟨fun y hy => ⟨fun h => (hforth y h).1 hy, ?_⟩,
    fun h => (hforth new h).2 rfl, hreach x hx⟩
  rintro (h | ⟨htouch, htouchY⟩)
  · exact h.mono hold
  · exact (hreach x hx htouch).trans (hreach y hy htouchY).symm

section

variable {le : Name -> Name -> Prop}

theorem Leader.congr {le' : Name -> Name -> Prop} {keysOf' : Name -> List Key}
    (hle : forall x y, x ∈ things -> y ∈ things -> le x y -> le' x y)
    (hkeys : forall x, x ∈ things -> keysOf x = keysOf' x)
    (h : Leader le keysOf things x e) :
    Leader le' keysOf' things x e where
  mem := h.mem
  linked := h.linked.congr hkeys
  first y hy hxy :=
    hle e y h.mem hy (h.first y hy (hxy.congr (fun z hz => (hkeys z hz).symm)))

theorem Leader.of_linked (h : Leader le keysOf things x e)
    (hlinked : Linked keysOf things x y) :
    Leader le keysOf things y e where
  mem := h.mem
  linked := hlinked.symm.trans h.linked
  first z hz hyz := h.first z hz (hlinked.trans hyz)

theorem Leader.self (h : Leader le keysOf things x e) :
    Leader le keysOf things e e :=
  h.of_linked h.linked

theorem Leader.unique [Std.Antisymm le] {e' : Name}
    (h : Leader le keysOf things x e) (h' : Leader le keysOf things x e') :
    e = e' :=
  Std.Antisymm.antisymm e e' (h.first e' h'.mem h'.linked)
    (h'.first e h.mem h.linked)

theorem exists_first [Std.Total le] [IsTrans Name le] {ys : List Name} (h : ys ≠ []) :
    exists e, e ∈ ys ∧ forall y, y ∈ ys -> le e y := by
  induction ys with
  | nil =>
      exact absurd rfl h
  | cons y rest ih =>
      have hself : le y y := (Std.Total.total (r := le) y y).elim id id
      by_cases hrest : rest = []
      · subst hrest
        exact ⟨y, List.mem_cons_self, fun z hz => List.mem_singleton.mp hz ▸ hself⟩
      · obtain ⟨e, he, hfirst⟩ := ih hrest
        rcases Std.Total.total (r := le) y e with hle | hle
        · refine ⟨y, List.mem_cons_self, ?_⟩
          intro z hz
          rcases List.mem_cons.mp hz with rfl | hz
          · exact hself
          · exact IsTrans.trans y e z hle (hfirst z hz)
        · refine ⟨e, List.mem_cons_of_mem _ he, ?_⟩
          intro z hz
          rcases List.mem_cons.mp hz with rfl | hz
          · exact hle
          · exact hfirst z hz

theorem exists_leader [Std.Total le] [IsTrans Name le] (hx : x ∈ things) :
    exists e, Leader le keysOf things x e := by
  classical
  have hmem : forall y, y ∈ things.filter (fun y => decide (Linked keysOf things x y)) ↔
      y ∈ things ∧ Linked keysOf things x y := by
    intro y
    rw [List.mem_filter, decide_eq_true_iff]
  have hsome : things.filter (fun y => decide (Linked keysOf things x y)) ≠ [] :=
    List.ne_nil_of_mem ((hmem x).mpr ⟨hx, Linked.refl x⟩)
  obtain ⟨e, he, hfirst⟩ : exists e,
      e ∈ things.filter (fun y => decide (Linked keysOf things x y)) ∧
        forall y, y ∈ things.filter (fun y => decide (Linked keysOf things x y)) ->
          le e y :=
    exists_first hsome
  obtain ⟨hthing, hlinked⟩ := (hmem e).mp he
  exact ⟨e, hthing, hlinked, fun y hy hxy => hfirst y ((hmem y).mpr ⟨hy, hxy⟩)⟩

end

end
/-!
# What rebuilding collects
-/

section

variable {Name Key : Type} [DecidableEq Key]

def firstOwner (keysOf : Name -> List Key) (things : List Name) (k : Key) :
    Option Name :=
  things.find? (fun x => decide (k ∈ keysOf x))

def owners (keysOf : Name -> List Key) (things : List Name) (new : Name) : List Name :=
  (keysOf new).filterMap (firstOwner keysOf things)

variable {keysOf : Name -> List Key} {things : List Name} {new : Name}

variable {x : Name}

theorem firstOwner_some {k : Key} (h : firstOwner keysOf things k = some x) :
    x ∈ things ∧ k ∈ keysOf x :=
  ⟨List.mem_of_find?_eq_some h, of_decide_eq_true
    (List.find?_some (p := fun x => decide (k ∈ keysOf x)) h)⟩

theorem firstOwner_none {k : Key} :
    firstOwner keysOf things k = none ↔ forall x, x ∈ things -> k ∉ keysOf x := by
  simp [firstOwner]

theorem firstOwner_append (more : List Name) (k : Key) :
    firstOwner keysOf (things ++ more) k =
      (firstOwner keysOf things k).or (firstOwner keysOf more k) :=
  List.find?_append

theorem mem_owners (h : x ∈ owners keysOf things new) :
    x ∈ things ∧ ShareKey keysOf x new := by
  obtain ⟨k, hk, hx⟩ := List.mem_filterMap.mp h
  obtain ⟨hmem, hkey⟩ := firstOwner_some hx
  exact ⟨hmem, k, hkey, hk⟩

theorem touches_iff_owner :
    Touches keysOf things new x ↔
      exists y, y ∈ owners keysOf things new ∧ Linked keysOf things x y := by
  constructor
  · rintro ⟨y, hy, hxy, k, hyk, hk⟩
    cases hfirst : firstOwner keysOf things k with
    | none => exact absurd hyk (firstOwner_none.mp hfirst y hy)
    | some z =>
        obtain ⟨hz, hzk⟩ := firstOwner_some hfirst
        exact ⟨z, List.mem_filterMap.mpr ⟨k, hk, hfirst⟩,
          hxy.trans (Linked.of_share hy hz ⟨k, hyk, hzk⟩)⟩
  · rintro ⟨y, hy, hxy⟩
    obtain ⟨hmem, hshare⟩ := mem_owners hy
    exact ⟨y, hmem, hxy, hshare⟩

variable [DecidableEq Name]

theorem rebuild_snoc (keysOf : Name -> List Key) (things : List Name) (new : Name) :
    rebuild keysOf (things ++ [new]) =
      (keysOf new).foldl (indexName new) (rebuild keysOf things) := by
  unfold rebuild
  rw [List.foldl_append]
  rfl

theorem rebuild_index (keysOf : Name -> List Key) (things : List Name) :
    (rebuild keysOf things).1 = firstOwner keysOf things := by
  induction things using List.reverseRecOn with
  | nil =>
      rfl
  | append_singleton things new ih =>
      rw [rebuild_snoc, foldl_indexName_eq, ih]
      funext k
      dsimp only
      rw [claimKeys_apply, firstOwner_append]
      congr 1
      by_cases hk : k ∈ keysOf new
      · simp [firstOwner, hk]
      · simp [firstOwner, hk]

theorem rebuild_merges_snoc (hnew : new ∉ things) :
    (rebuild keysOf (things ++ [new])).2 =
      (rebuild keysOf things).2 ++ (owners keysOf things new).map (fun o => (new, o)) := by
  rw [rebuild_snoc, foldl_indexName_eq, rebuild_index, owners, List.map_filterMap]
  dsimp only
  congr 1
  refine List.filterMap_congr ?_
  intro k _
  cases hfirst : firstOwner keysOf things k with
  | none =>
      rfl
  | some o =>
      have hne : o ≠ new := by
        rintro rfl
        exact hnew (firstOwner_some hfirst).1
      simp [hne]

theorem rebuild_congr {keysOf' : Name -> List Key}
    (hkeys : forall x, x ∈ things -> keysOf x = keysOf' x) :
    rebuild keysOf things = rebuild keysOf' things := by
  unfold rebuild
  refine List.foldl_ext _ _ _ ?_
  intro built x hx
  rw [hkeys x hx]

end

end Naming
end PostCortex

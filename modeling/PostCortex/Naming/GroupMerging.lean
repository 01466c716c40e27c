import Mathlib.Data.Set.Basic
import PostCortex.Naming.KeyGroups

/-!
# Merging groups one thing after the other

The merges that rebuilding an index asks for, worked off in their order.  A thing is
folded into the group of its first owner, and with it into that of the next one, so the
groups it joins end in the leader of the one met last; an owner that is not stored is
looked up by its own key, which may lead to the thing itself by then.  The module says
when the groups come out right.
-/

namespace PostCortex
namespace Naming

/-!
# Working the merges off
-/

/-- The keys of the stored things, none for the others, and where the keys lead. -/
@[ext]
structure Holdings (Name Key : Type) where
  keys : Name -> Set Key
  index : Key -> Option Name

namespace Holdings

section

variable {Name Key : Type}

noncomputable def find (s : Holdings Name Key) (key : Name -> Key) (n : Name) :
    Option Name := by
  classical
  exact if (s.keys n).Nonempty then some n else s.index (key n)

noncomputable def fold (s : Holdings Name Key) (gone into : Name) :
    Holdings Name Key := by
  classical
  exact
    { keys := fun e =>
        if e = into then s.keys into ∪ s.keys gone
        else if e = gone then ∅ else s.keys e
      index := fun k =>
        if k ∈ s.keys into ∪ s.keys gone then some into
        else if s.index k = some gone then none else s.index k }

noncomputable def merge (s : Holdings Name Key) (key : Name -> Key)
    (written target : Name) : Holdings Name Key := by
  classical
  exact ((s.find key written).bind fun gone =>
    (s.find key target).bind fun into =>
      if gone = into then none else some (s.fold gone into)).getD s

noncomputable def mergeEach (s : Holdings Name Key) (key : Name -> Key)
    (merges : List (Name × Name)) : Holdings Name Key :=
  merges.foldl (fun s merge => s.merge key merge.1 merge.2) s

variable {s : Holdings Name Key} {key : Name -> Key} {n gone into : Name}

theorem find_stored (h : (s.keys n).Nonempty) : s.find key n = some n :=
  if_pos h

theorem find_other (h : s.keys n = ∅) : s.find key n = s.index (key n) := by
  refine if_neg ?_
  rw [h]
  exact Set.not_nonempty_empty

variable {written target : Name}

theorem merge_fold (hgone : s.find key written = some gone)
    (hinto : s.find key target = some into) (hne : gone ≠ into) :
    s.merge key written target = s.fold gone into := by
  unfold merge
  rw [hgone, hinto, Option.bind_some, Option.bind_some, if_neg hne, Option.getD_some]

theorem merge_same (hgone : s.find key written = some gone)
    (hinto : s.find key target = some gone) :
    s.merge key written target = s := by
  unfold merge
  rw [hgone, hinto, Option.bind_some, Option.bind_some, if_pos rfl, Option.getD_none]

theorem fold_keys_into : (s.fold gone into).keys into = s.keys into ∪ s.keys gone :=
  if_pos rfl

theorem fold_keys_gone (hne : gone ≠ into) : (s.fold gone into).keys gone = ∅ :=
  (if_neg hne).trans (if_pos rfl)

theorem fold_keys_other {e : Name} (hinto : e ≠ into) (hgone : e ≠ gone) :
    (s.fold gone into).keys e = s.keys e :=
  (if_neg hinto).trans (if_neg hgone)

variable {k : Key}

theorem fold_index_taken (h : k ∈ s.keys into ∪ s.keys gone) :
    (s.fold gone into).index k = some into :=
  if_pos h

theorem fold_index_released (h : k ∉ s.keys into ∪ s.keys gone)
    (hgone : s.index k = some gone) :
    (s.fold gone into).index k = none :=
  (if_neg h).trans (if_pos hgone)

theorem fold_index_other (h : k ∉ s.keys into ∪ s.keys gone)
    (hgone : s.index k ≠ some gone) :
    (s.fold gone into).index k = s.index k :=
  (if_neg h).trans (if_neg hgone)

end

end Holdings
/-!
# Grouped holdings
-/

section

variable {Name Key : Type}

def groupKeys (keysOf : Name -> List Key) (things : List Name) (e : Name) : Set Key :=
  { k | exists x, x ∈ things ∧ Linked keysOf things x e ∧ k ∈ keysOf x }

variable {le : Name -> Name -> Prop} {key : Name -> Key} {keysOf keysOf' : Name -> List Key}
  {things waiting : List Name} {new current x e : Name} {joined : Name -> Prop}
  {s : Holdings Name Key}

theorem Leader.snoc (h : Leader le keysOf things x e) (hx : x ∈ things)
    (hnew : new ∉ things) (hapart : ¬ Touches keysOf things new x) :
    Leader le keysOf (things ++ [new]) x e where
  mem := List.mem_append_left _ h.mem
  linked := h.linked.mono (fun _ hy => List.mem_append_left _ hy)
  first y hy hxy := by
    rcases List.mem_append.mp hy with hold | hlast
    · rcases ((linked_snoc hx hnew).1 y hold).mp hxy with hlinked | ⟨htouch, -⟩
      · exact h.first y hold hlinked
      · exact absurd htouch hapart
    · rw [List.mem_singleton.mp hlast] at hxy
      exact absurd ((linked_snoc hx hnew).2.mp hxy) hapart

theorem leader_snoc_iff [Std.Antisymm le] (hx : x ∈ things) (hnew : new ∉ things)
    (hexists : exists r, Leader le keysOf things x r)
    (hapart : ¬ Touches keysOf things new x) :
    Leader le keysOf (things ++ [new]) x e ↔ Leader le keysOf things x e := by
  obtain ⟨r, hr⟩ := hexists
  constructor
  · intro he
    rw [he.unique (hr.snoc hx hnew hapart)]
    exact hr
  · exact fun he => he.snoc hx hnew hapart

theorem Touches.leader (hnew : new ∉ things)
    (hlater : forall x, x ∈ things -> le x new) (hcurrent : current ∈ things)
    (htouch : Touches keysOf things new current)
    (hfirst : forall x, x ∈ things -> Touches keysOf things new x -> le current x)
    (hx : x = new ∨ x ∈ things ∧ Touches keysOf things new x) :
    Leader le keysOf (things ++ [new]) x current := by
  have hreach : Linked keysOf (things ++ [new]) current new :=
    (linked_snoc hcurrent hnew).2.mpr htouch
  have hlinked : Linked keysOf (things ++ [new]) x current := by
    rcases hx with rfl | ⟨hmem, hxTouch⟩
    · exact hreach.symm
    · exact ((linked_snoc hmem hnew).2.mpr hxTouch).trans hreach.symm
  refine ⟨List.mem_append_left _ hcurrent, hlinked, fun y hy hxy => ?_⟩
  rcases List.mem_append.mp hy with hold | hlast
  · have hyNew : Linked keysOf (things ++ [new]) y new :=
      hxy.symm.trans (hlinked.trans hreach)
    exact hfirst y hold ((linked_snoc hold hnew).2.mp hyNew)
  · rw [List.mem_singleton.mp hlast]
    exact hlater current hcurrent

theorem groupKeys_snoc (he : e ∈ things) (hnew : new ∉ things)
    (hapart : ¬ Touches keysOf things new e) :
    groupKeys keysOf (things ++ [new]) e = groupKeys keysOf things e := by
  ext k
  constructor
  · rintro ⟨x, hx, hxe, hk⟩
    rcases List.mem_append.mp hx with hold | hlast
    · rcases ((linked_snoc he hnew).1 x hold).mp hxe.symm with hlinked | ⟨htouch, -⟩
      · exact ⟨x, hold, hlinked.symm, hk⟩
      · exact absurd htouch hapart
    · rw [List.mem_singleton.mp hlast] at hxe
      exact absurd ((linked_snoc he hnew).2.mp hxe.symm) hapart
  · rintro ⟨x, hx, hxe, hk⟩
    exact ⟨x, List.mem_append_left _ hx,
      hxe.mono (fun _ hy => List.mem_append_left _ hy), hk⟩

/-!
# The merges of one thing
-/

/-- Of the listed things that are found, this one is the last whose group was not met
before. -/
structure MeetsLast (linked : Name -> Name -> Prop) (found : Name -> Prop)
    (xs before : List Name) (o : Name) : Prop where
  split : exists after, xs = before ++ o :: after
  finds : found o
  fresh : forall y, y ∈ before -> found y -> ¬ linked y o
  rest : forall y, y ∈ xs -> found y ->
    exists z, z ∈ before ++ [o] ∧ found z ∧ linked y z

section

variable {finds : Name -> Prop} {xs before before' : List Name} {o o' : Name}

theorem MeetsLast.earlier (h : MeetsLast (Linked keysOf things) finds xs before o)
    (h' : MeetsLast (Linked keysOf things) finds xs before' o') {more : List Name}
    (hmore : before' = before ++ o :: more) :
    False := by
  obtain ⟨after, hafter⟩ := h'.split
  have hmem : o' ∈ xs := by
    rw [hafter]
    exact List.mem_append_right _ List.mem_cons_self
  obtain ⟨z, hz, hfinds, hlinked⟩ := h.rest o' hmem h'.finds
  refine h'.fresh z ?_ hfinds hlinked.symm
  rw [hmore]
  rcases List.mem_append.mp hz with hbefore | hlast
  · exact List.mem_append_left _ hbefore
  · rw [List.mem_singleton.mp hlast]
    exact List.mem_append_right _ List.mem_cons_self

theorem MeetsLast.unique (h : MeetsLast (Linked keysOf things) finds xs before o)
    (h' : MeetsLast (Linked keysOf things) finds xs before' o') :
    o = o' := by
  obtain ⟨after, hafter⟩ := h.split
  obtain ⟨after', hafter'⟩ := h'.split
  rw [hafter] at hafter'
  rcases List.append_eq_append_iff.mp hafter' with ⟨c, hc, htail⟩ | ⟨c, hc, htail⟩
  · cases c with
    | nil =>
        exact (List.cons.inj htail).1
    | cons x c =>
        rw [(List.cons.inj htail).1] at h
        exact (h.earlier h' hc).elim
  · cases c with
    | nil =>
        exact (List.cons.inj htail).1.symm
    | cons x c =>
        rw [(List.cons.inj htail).1] at h'
        exact (h'.earlier h hc).elim

theorem MeetsLast.skip (h : MeetsLast (Linked keysOf things) finds xs before o)
    {y : Name} (hy : finds y -> exists z, z ∈ xs ∧ finds z ∧ Linked keysOf things y z) :
    MeetsLast (Linked keysOf things) finds (xs ++ [y]) before o where
  split := by
    obtain ⟨after, hafter⟩ := h.split
    exact ⟨after ++ [y], by rw [hafter, List.append_assoc, List.cons_append]⟩
  finds := h.finds
  fresh := h.fresh
  rest x hx hfinds := by
    rcases List.mem_append.mp hx with hold | hlast
    · exact h.rest x hold hfinds
    · have hxy := List.mem_singleton.mp hlast
      obtain ⟨z, hz, hzFinds, hyz⟩ := hy (hxy ▸ hfinds)
      obtain ⟨v, hv, hvFinds, hzv⟩ := h.rest z hz hzFinds
      exact ⟨v, hv, hvFinds, hxy ▸ hyz.trans hzv⟩

theorem meetsLast_snoc {y : Name} (hfinds : finds y)
    (hfresh : forall z, z ∈ xs -> finds z -> ¬ Linked keysOf things z y) :
    MeetsLast (Linked keysOf things) finds (xs ++ [y]) xs y where
  split := ⟨[], rfl⟩
  finds := hfinds
  fresh := hfresh
  rest x hx hxFinds := ⟨x, hx, hxFinds, Linked.refl x⟩

end

/-- The leaders of the groups are stored, and every key of a group leads to its leader. -/
structure Regrouped (le : Name -> Name -> Prop) (keysOf : Name -> List Key)
    (things : List Name) (s : Holdings Name Key) : Prop where
  stored : forall e, (s.keys e).Nonempty ↔ Leader le keysOf things e e
  index : forall x k e, x ∈ things -> k ∈ keysOf x -> Leader le keysOf things x e ->
    s.index k = some e

theorem Regrouped.congr {le' : Name -> Name -> Prop}
    (hle : forall x y, x ∈ things -> y ∈ things -> (le x y ↔ le' x y))
    (hkeys : forall x, x ∈ things -> keysOf x = keysOf' x)
    (h : Regrouped le keysOf things s) :
    Regrouped le' keysOf' things s := by
  have hleader : forall x e, Leader le' keysOf' things x e ->
      Leader le keysOf things x e :=
    fun x e he => he.congr (fun a b ha hb => (hle a b ha hb).mpr)
      (fun z hz => (hkeys z hz).symm)
  refine ⟨fun e => (h.stored e).trans ⟨?_, hleader e e⟩, ?_⟩
  · exact fun he => he.congr (fun a b ha hb => (hle a b ha hb).mp) hkeys
  · intro x k e hx hk he
    exact h.index x k e hx ((hkeys x hx).symm ▸ hk) (hleader x e he)

/-!
# Groups so far
-/

variable [DecidableEq Key]

/-- The groups of the earlier things are folded into their leaders, and the later
things wait. -/
structure Grouped (le : Name -> Name -> Prop) (keysOf : Name -> List Key)
    (things waiting : List Name) (s : Holdings Name Key) : Prop where
  led : forall e, Leader le keysOf things e e -> s.keys e = groupKeys keysOf things e
  waits : forall e, e ∈ waiting -> s.keys e = { k | k ∈ keysOf e }
  absent : forall e, e ∉ waiting -> ¬ Leader le keysOf things e e -> s.keys e = ∅
  indexed : forall x k e, x ∈ things -> k ∈ keysOf x -> Leader le keysOf things x e ->
    s.index k = some e
  free : forall k, (forall x, x ∈ things -> k ∉ keysOf x) ->
    s.index k = firstOwner keysOf waiting k

def joinedKeys (keysOf : Name -> List Key) (new : Name) (joined : Name -> Prop) :
    Set Key :=
  { k | k ∈ keysOf new ∨ exists x, joined x ∧ k ∈ keysOf x }

/-- The new thing and some of the groups that it touches are folded into the leader of
one of them. -/
structure Joined (le : Name -> Name -> Prop) (keysOf : Name -> List Key)
    (things waiting : List Name) (new : Name) (joined : Name -> Prop) (current : Name)
    (s : Holdings Name Key) : Prop where
  leads : Leader le keysOf things current current
  member : joined current
  touching : forall x, joined x -> Touches keysOf things new x
  closed : forall x y, joined x -> Linked keysOf things x y -> joined y
  taken : s.keys current = joinedKeys keysOf new joined
  led : forall e, Leader le keysOf things e e -> ¬ joined e ->
    s.keys e = groupKeys keysOf things e
  waits : forall e, e ∈ waiting -> s.keys e = { k | k ∈ keysOf e }
  absent : forall e, e ∉ waiting -> e ≠ current ->
    (Leader le keysOf things e e -> joined e) -> s.keys e = ∅
  found : forall k, k ∈ joinedKeys keysOf new joined -> s.index k = some current
  indexed : forall x k e, x ∈ things -> k ∈ keysOf x -> Leader le keysOf things x e ->
    k ∉ joinedKeys keysOf new joined -> s.index k = some e
  free : forall k, (forall x, x ∈ things -> k ∉ keysOf x) ->
    k ∉ joinedKeys keysOf new joined -> s.index k = firstOwner keysOf waiting k

/-- The merge with an owner finds the owner's group: the owner is its leader, or its
own key is not one of those that the new thing takes over. -/
def Reaches (le : Name -> Name -> Prop) (key : Name -> Key)
    (keysOf : Name -> List Key) (things : List Name) (new o : Name) : Prop :=
  Leader le keysOf things o o ∨ key o ∉ keysOf new

theorem Grouped.find [Std.Antisymm le] (h : Grouped le keysOf things waiting s)
    (hown : key x ∈ keysOf x) (hx : x ∈ things) (hwaits : x ∉ waiting)
    (he : Leader le keysOf things x e) :
    s.find key x = some e := by
  by_cases hleads : Leader le keysOf things x x
  · have hsome : (s.keys x).Nonempty := by
      rw [h.led x hleads]
      exact ⟨key x, x, hx, Linked.refl x, hown⟩
    rw [Holdings.find_stored hsome, hleads.unique he]
  · rw [Holdings.find_other (h.absent x hwaits hleads)]
    exact h.indexed x (key x) e hx hown he

theorem Grouped.join [Std.Antisymm le] (h : Grouped le keysOf things (new :: waiting) s)
    (hnew : new ∉ things) (hwaits : forall x, x ∈ things -> x ∉ waiting)
    (hself : new ∉ waiting)
    (hown : forall x, x ∈ new :: things -> key x ∈ keysOf x) {o r : Name}
    (ho : o ∈ owners keysOf things new) (hr : Leader le keysOf things o r) :
    Joined le keysOf things waiting new (fun x => Linked keysOf things x o) r
      (s.merge key new o) := by
  obtain ⟨hmem, hshare⟩ := mem_owners ho
  have hnot : forall x, x ∈ things -> x ∉ new :: waiting := by
    intro x hx hcons
    rcases List.mem_cons.mp hcons with rfl | hlater
    · exact hnew hx
    · exact hwaits x hx hlater
  have hkeys : s.keys new = { k | k ∈ keysOf new } := h.waits new List.mem_cons_self
  have hfindNew : s.find key new = some new := by
    refine Holdings.find_stored ?_
    rw [hkeys]
    exact ⟨key new, hown new List.mem_cons_self⟩
  have hne : new ≠ r := by
    rintro rfl
    exact hnew hr.mem
  have hmerge := Holdings.merge_fold hfindNew
    (h.find (hown o (List.mem_cons_of_mem _ hmem)) hmem (hnot o hmem) hr) hne
  have htaken : s.keys r ∪ s.keys new =
      joinedKeys keysOf new (fun x => Linked keysOf things x o) := by
    rw [h.led r hr.self, hkeys]
    ext k
    constructor
    · rintro (⟨x, hx, hxr, hk⟩ | hk)
      · exact Or.inr ⟨x, hxr.trans hr.linked.symm, hk⟩
      · exact Or.inl hk
    · rintro (hk | ⟨x, hxo, hk⟩)
      · exact Or.inr hk
      · exact Or.inl ⟨x, hxo.symm.mem hmem, hxo.trans hr.linked, hk⟩
  have hsame : forall e, Leader le keysOf things e e -> Linked keysOf things e o ->
      e = r := fun e he heo => (he.of_linked heo).unique hr
  rw [hmerge]
  refine ⟨hr.self, hr.linked.symm, ?_, ?_, ?_, ?_, ?_, ?_, ?_, ?_, ?_⟩
  · exact fun x hx => ⟨o, hmem, hx, hshare⟩
  · exact fun x y hx hxy => hxy.symm.trans hx
  · rw [Holdings.fold_keys_into, htaken]
  · intro e he hapart
    have her : e ≠ r := by
      rintro rfl
      exact hapart hr.linked.symm
    have henew : e ≠ new := by
      rintro rfl
      exact hnew he.mem
    rw [Holdings.fold_keys_other her henew]
    exact h.led e he
  · intro e he
    have her : e ≠ r := by
      rintro rfl
      exact hwaits e hr.mem he
    have henew : e ≠ new := by
      rintro rfl
      exact hself he
    rw [Holdings.fold_keys_other her henew]
    exact h.waits e (List.mem_cons_of_mem _ he)
  · intro e he her hleads
    by_cases henew : e = new
    · rw [henew]
      exact Holdings.fold_keys_gone hne
    · rw [Holdings.fold_keys_other her henew]
      refine h.absent e ?_ (fun hlead => her (hsame e hlead (hleads hlead)))
      intro hcons
      rcases List.mem_cons.mp hcons with heq | hlater
      · exact henew heq
      · exact he hlater
  · intro k hk
    rw [← htaken] at hk
    exact Holdings.fold_index_taken hk
  · intro x k e hx hk he hapart
    rw [← htaken] at hapart
    have hold := h.indexed x k e hx hk he
    rw [Holdings.fold_index_other hapart ?_]
    · exact hold
    · rw [hold]
      rintro heq
      cases heq
      exact hnew he.mem
  · intro k hfree hapart
    have hknew : k ∉ keysOf new := fun hk => hapart (Or.inl hk)
    have hold := h.free k hfree
    have hskip : firstOwner keysOf (new :: waiting) k = firstOwner keysOf waiting k := by
      simp [firstOwner, hknew]
    rw [hskip] at hold
    rw [← htaken] at hapart
    rw [Holdings.fold_index_other hapart ?_]
    · exact hold
    · rw [hold]
      intro heq
      exact hself (firstOwner_some heq).1

theorem Joined.congr {joined' : Name -> Prop}
    (h : Joined le keysOf things waiting new joined current s)
    (hsame : forall x, joined' x ↔ joined x) :
    Joined le keysOf things waiting new joined' current s := by
  rw [funext fun x => propext (hsame x)]
  exact h

theorem Joined.find_new (h : Joined le keysOf things waiting new joined current s)
    (hnew : new ∉ things) (hself : new ∉ waiting) (hown : key new ∈ keysOf new) :
    s.find key new = some current := by
  have hne : new ≠ current := by
    rintro rfl
    exact hnew h.leads.mem
  have hnone : s.keys new = ∅ :=
    h.absent new hself hne (fun hlead => absurd hlead.mem hnew)
  rw [Holdings.find_other hnone]
  exact h.found _ (Or.inl hown)

variable {o : Name}

/-- A thing whose group has joined is found where the new thing is, and so is one whose
key the new thing has taken over. -/
theorem Joined.find_taken (h : Joined le keysOf things waiting new joined current s)
    (hwaits : o ∉ waiting) (hown : key o ∈ keysOf o)
    (ho : joined o ∨ ¬ Reaches le key keysOf things new o) :
    s.find key o = some current := by
  by_cases hcurrent : o = current
  · rw [hcurrent] at hown ⊢
    refine Holdings.find_stored ?_
    rw [h.taken]
    exact ⟨key current, Or.inr ⟨current, h.member, hown⟩⟩
  · have hnone : s.keys o = ∅ := by
      refine h.absent o hwaits hcurrent (fun hlead => ?_)
      exact ho.resolve_right (fun hmiss => hmiss (Or.inl hlead))
    rw [Holdings.find_other hnone]
    refine h.found _ ?_
    by_cases hjoined : joined o
    · exact Or.inr ⟨o, hjoined, hown⟩
    · have hmiss := ho.resolve_left hjoined
      rw [Reaches, not_or, not_not] at hmiss
      exact Or.inl hmiss.2

theorem Joined.find_apart [Std.Antisymm le] (h : Joined le keysOf things waiting new joined current s)
    {r : Name} (hmem : o ∈ things) (hwaits : o ∉ waiting) (hown : key o ∈ keysOf o)
    (hapart : ¬ joined o) (hreach : Reaches le key keysOf things new o)
    (hr : Leader le keysOf things o r) :
    s.find key o = some r := by
  by_cases hleads : Leader le keysOf things o o
  · have hsome : (s.keys o).Nonempty := by
      rw [h.led o hleads hapart]
      exact ⟨key o, o, hmem, Linked.refl o, hown⟩
    rw [Holdings.find_stored hsome, hleads.unique hr]
  · have hcurrent : o ≠ current := by
      rintro rfl
      exact hapart h.member
    have hnone : s.keys o = ∅ :=
      h.absent o hwaits hcurrent (fun hlead => absurd hlead hleads)
    rw [Holdings.find_other hnone]
    refine h.indexed o (key o) r hmem hown hr ?_
    rintro (htaken | ⟨x, hx, htaken⟩)
    · exact hreach.resolve_left hleads htaken
    · obtain ⟨y, hy, hxy, -⟩ := h.touching x hx
      have hxmem := hxy.symm.mem hy
      exact hapart (h.closed x o hx (Linked.of_share hxmem hmem ⟨key o, htaken, hown⟩))

theorem Joined.skip (h : Joined le keysOf things waiting new joined current s)
    (hnew : new ∉ things) (hself : new ∉ waiting)
    (hown : forall x, x ∈ new :: things -> key x ∈ keysOf x) (hmem : o ∈ things)
    (hwaits : forall x, x ∈ things -> x ∉ waiting)
    (ho : joined o ∨ ¬ Reaches le key keysOf things new o) :
    s.merge key new o = s :=
  Holdings.merge_same (h.find_new hnew hself (hown new List.mem_cons_self))
    (h.find_taken (hwaits o hmem) (hown o (List.mem_cons_of_mem _ hmem)) ho)

/-- A merge with an owner of another group moves everything to the leader of that
group. -/
theorem Joined.join [Std.Antisymm le] (h : Joined le keysOf things waiting new joined current s)
    (hnew : new ∉ things) (hwaits : forall x, x ∈ things -> x ∉ waiting)
    (hself : new ∉ waiting)
    (hown : forall x, x ∈ new :: things -> key x ∈ keysOf x) {o r : Name}
    (ho : o ∈ owners keysOf things new) (hapart : ¬ joined o)
    (hreach : Reaches le key keysOf things new o) (hr : Leader le keysOf things o r) :
    Joined le keysOf things waiting new
      (fun x => joined x ∨ Linked keysOf things x o) r (s.merge key new o) := by
  obtain ⟨hmem, hshare⟩ := mem_owners ho
  have hrApart : ¬ joined r := fun hjoined =>
    hapart (h.closed r o hjoined hr.linked.symm)
  have hne : current ≠ r := by
    rintro rfl
    exact hrApart h.member
  have hmerge := Holdings.merge_fold (h.find_new hnew hself (hown new List.mem_cons_self))
    (h.find_apart hmem (hwaits o hmem) (hown o (List.mem_cons_of_mem _ hmem)) hapart hreach hr) hne
  have htaken : s.keys r ∪ s.keys current =
      joinedKeys keysOf new (fun x => joined x ∨ Linked keysOf things x o) := by
    rw [h.led r hr.self hrApart, h.taken]
    ext k
    constructor
    · rintro (⟨x, hx, hxr, hk⟩ | hk | ⟨x, hx, hk⟩)
      · exact Or.inr ⟨x, Or.inr (hxr.trans hr.linked.symm), hk⟩
      · exact Or.inl hk
      · exact Or.inr ⟨x, Or.inl hx, hk⟩
    · rintro (hk | ⟨x, hx | hxo, hk⟩)
      · exact Or.inr (Or.inl hk)
      · exact Or.inr (Or.inr ⟨x, hx, hk⟩)
      · exact Or.inl ⟨x, hxo.symm.mem hmem, hxo.trans hr.linked, hk⟩
  have hsame : forall e, Leader le keysOf things e e -> Linked keysOf things e o ->
      e = r := fun e he heo => (he.of_linked heo).unique hr
  rw [hmerge]
  refine ⟨hr.self, Or.inr hr.linked.symm, ?_, ?_, ?_, ?_, ?_, ?_, ?_, ?_, ?_⟩
  · rintro x (hx | hxo)
    · exact h.touching x hx
    · exact ⟨o, hmem, hxo, hshare⟩
  · rintro x y (hx | hxo) hxy
    · exact Or.inl (h.closed x y hx hxy)
    · exact Or.inr (hxy.symm.trans hxo)
  · rw [Holdings.fold_keys_into, htaken]
  · intro e he hout
    rw [not_or] at hout
    have her : e ≠ r := by
      rintro rfl
      exact hout.2 hr.linked.symm
    have hecurrent : e ≠ current := by
      rintro rfl
      exact hout.1 h.member
    rw [Holdings.fold_keys_other her hecurrent]
    exact h.led e he hout.1
  · intro e he
    have her : e ≠ r := by
      rintro rfl
      exact hwaits e hr.mem he
    have hecurrent : e ≠ current := by
      rintro rfl
      exact hwaits e h.leads.mem he
    rw [Holdings.fold_keys_other her hecurrent]
    exact h.waits e he
  · intro e he her hleads
    by_cases hecurrent : e = current
    · rw [hecurrent]
      exact Holdings.fold_keys_gone hne
    · rw [Holdings.fold_keys_other her hecurrent]
      refine h.absent e he hecurrent (fun hlead => ?_)
      exact (hleads hlead).resolve_right (fun heo => her (hsame e hlead heo))
  · intro k hk
    rw [← htaken] at hk
    exact Holdings.fold_index_taken hk
  · intro x k e hx hk he hout
    have hbefore : k ∉ joinedKeys keysOf new joined := by
      rintro (hknew | ⟨y, hy, hky⟩)
      · exact hout (Or.inl hknew)
      · exact hout (Or.inr ⟨y, Or.inl hy, hky⟩)
    have hold := h.indexed x k e hx hk he hbefore
    rw [← htaken] at hout
    rw [Holdings.fold_index_other hout ?_]
    · exact hold
    · rw [hold]
      intro heq
      cases heq
      exact hbefore (Or.inr ⟨x, h.closed _ x h.member he.linked.symm, hk⟩)
  · intro k hfree hout
    have hbefore : k ∉ joinedKeys keysOf new joined := by
      rintro (hknew | ⟨y, hy, hky⟩)
      · exact hout (Or.inl hknew)
      · exact hout (Or.inr ⟨y, Or.inl hy, hky⟩)
    have hold := h.free k hfree hbefore
    rw [← htaken] at hout
    rw [Holdings.fold_index_other hout ?_]
    · exact hold
    · rw [hold]
      intro heq
      exact hwaits current h.leads.mem (firstOwner_some heq).1

def Finds (le : Name -> Name -> Prop) (key : Name -> Key)
    (keysOf : Name -> List Key) (things : List Name) (new first o : Name) : Prop :=
  o = first ∨ Reaches le key keysOf things new o

noncomputable def mergeOwners (key : Name -> Key) (new : Name)
    (s : Holdings Name Key) (os : List Name) : Holdings Name Key :=
  os.foldl (fun s o => s.merge key new o) s

/-- Worked off one after the other, the merges join the groups of the owners that are
found, in the leader of the group met last. -/
theorem Grouped.run [Std.Antisymm le] [Std.Total le] [IsTrans Name le]
    (h : Grouped le keysOf things (new :: waiting) s)
    (hnew : new ∉ things) (hwaits : forall x, x ∈ things -> x ∉ waiting)
    (hself : new ∉ waiting)
    (hown : forall x, x ∈ new :: things -> key x ∈ keysOf x) {first : Name}
    {rest : List Name} (hos : forall o, o ∈ first :: rest -> o ∈ owners keysOf things new) :
    exists current before o,
      Joined le keysOf things waiting new
        (fun x => exists y, y ∈ first :: rest ∧
          Finds le key keysOf things new first y ∧ Linked keysOf things x y) current
        (mergeOwners key new s (first :: rest)) ∧
      MeetsLast (Linked keysOf things) (Finds le key keysOf things new first)
        (first :: rest) before o ∧
      Leader le keysOf things o current := by
  induction rest using List.reverseRecOn with
  | nil =>
      have hfirst := hos first List.mem_cons_self
      obtain ⟨r, hr⟩ : exists r, Leader le keysOf things first r :=
        exists_leader (mem_owners hfirst).1
      refine ⟨r, [], first, (h.join hnew hwaits hself hown hfirst hr).congr ?_, ?_, hr⟩
      · intro x
        constructor
        · rintro ⟨y, hy, -, hxy⟩
          rw [List.mem_singleton.mp hy] at hxy
          exact hxy
        · exact fun hx => ⟨first, List.mem_cons_self, Or.inl rfl, hx⟩
      · refine ⟨⟨[], rfl⟩, Or.inl rfl, fun y hy => ?_, fun y hy _ => ?_⟩
        · cases hy
        · rw [List.mem_singleton.mp hy]
          exact ⟨first, List.mem_cons_self, Or.inl rfl, Linked.refl first⟩
  | append_singleton rest o ih =>
      have hold : forall y, y ∈ first :: rest -> y ∈ first :: (rest ++ [o]) :=
        fun y hy => List.mem_append_left [o] hy
      have ho := hos o (List.mem_append_right (first :: rest) List.mem_cons_self)
      obtain ⟨current, before, last, hjoined, hlast, hleads⟩ :=
        ih (fun y hy => hos y (hold y hy))
      have hmerge : mergeOwners key new s (first :: (rest ++ [o])) =
          (mergeOwners key new s (first :: rest)).merge key new o :=
        List.foldl_append
      have hmem : forall y, y ∈ first :: (rest ++ [o]) ↔ y ∈ first :: rest ∨ y = o := by
        intro y
        rw [← List.cons_append, List.mem_append, List.mem_singleton]
      have hofirst : o = first -> exists y, y ∈ first :: rest ∧
          Finds le key keysOf things new first y ∧ Linked keysOf things o y :=
        fun heq => ⟨first, List.mem_cons_self, Or.inl rfl, heq ▸ Linked.refl o⟩
      by_cases hskip : (exists y, y ∈ first :: rest ∧
          Finds le key keysOf things new first y ∧ Linked keysOf things o y) ∨
          ¬ Reaches le key keysOf things new o
      · have hfound : Finds le key keysOf things new first o ->
            exists y, y ∈ first :: rest ∧
              Finds le key keysOf things new first y ∧ Linked keysOf things o y := by
          rintro (heq | hreach)
          · exact hofirst heq
          · exact hskip.resolve_right (fun hmiss => hmiss hreach)
        refine ⟨current, before, last, ?_, hlast.skip hfound, hleads⟩
        rw [hmerge, hjoined.skip hnew hself hown (mem_owners ho).1 hwaits hskip]
        refine hjoined.congr ?_
        intro x
        constructor
        · rintro ⟨y, hy, hfinds, hxy⟩
          rcases (hmem y).mp hy with hbefore | rfl
          · exact ⟨y, hbefore, hfinds, hxy⟩
          · obtain ⟨z, hz, hzFinds, hyz⟩ := hfound hfinds
            exact ⟨z, hz, hzFinds, hxy.trans hyz⟩
        · rintro ⟨y, hy, hfinds, hxy⟩
          exact ⟨y, hold y hy, hfinds, hxy⟩
      · rw [not_or, not_not] at hskip
        obtain ⟨hapart, hreach⟩ := hskip
        obtain ⟨r, hr⟩ : exists r, Leader le keysOf things o r :=
          exists_leader (mem_owners ho).1
        refine ⟨r, first :: rest, o, ?_, ?_, hr⟩
        · rw [hmerge]
          refine (hjoined.join hnew hwaits hself hown ho hapart hreach hr).congr ?_
          intro x
          constructor
          · rintro ⟨y, hy, hfinds, hxy⟩
            rcases (hmem y).mp hy with hbefore | rfl
            · exact Or.inl ⟨y, hbefore, hfinds, hxy⟩
            · exact Or.inr hxy
          · rintro (⟨y, hy, hfinds, hxy⟩ | hxo)
            · exact ⟨y, hold y hy, hfinds, hxy⟩
            · exact ⟨o, (hmem o).mpr (Or.inr rfl), Or.inr hreach, hxo⟩
        · have hfinds : Finds le key keysOf things new first o := Or.inr hreach
          exact meetsLast_snoc hfinds
            (fun z hz hzFinds hzo => hapart ⟨z, hz, hzFinds, hzo.symm⟩)

/-!
# One more thing
-/

theorem Grouped.alone [Std.Antisymm le] [Std.Total le] [IsTrans Name le]
    (h : Grouped le keysOf things (new :: waiting) s) (hnew : new ∉ things)
    (hself : new ∉ waiting) (hnone : forall x, ¬ Touches keysOf things new x) :
    Grouped le keysOf (things ++ [new]) waiting s := by
  have hold : forall x e, x ∈ things ->
      (Leader le keysOf (things ++ [new]) x e ↔ Leader le keysOf things x e) :=
    fun x e hx => leader_snoc_iff hx hnew (exists_leader hx) (hnone x)
  have hapart : forall x, x ∈ things -> ¬ Linked keysOf (things ++ [new]) x new :=
    fun x hx hlinked => hnone x ((linked_snoc hx hnew).2.mp hlinked)
  have hnewLeads : Leader le keysOf (things ++ [new]) new new := by
    refine ⟨List.mem_append_right _ List.mem_cons_self, Linked.refl new, ?_⟩
    intro y hy hlinked
    rcases List.mem_append.mp hy with hmem | hlast
    · exact absurd hlinked.symm (hapart y hmem)
    · rw [List.mem_singleton.mp hlast]
      exact (Std.Total.total (r := le) new new).elim id id
  have hfresh : forall k, k ∈ keysOf new -> forall x, x ∈ things -> k ∉ keysOf x :=
    fun k hk x hx hkx => hnone x ⟨x, hx, Linked.refl x, k, hkx, hk⟩
  refine ⟨?_, ?_, ?_, ?_, ?_⟩
  · intro e he
    rcases List.mem_append.mp he.mem with hmem | hlast
    · rw [h.led e ((hold e e hmem).mp he), groupKeys_snoc hmem hnew (hnone e)]
    · rw [List.mem_singleton.mp hlast, h.waits new List.mem_cons_self]
      ext k
      constructor
      · exact fun hk => ⟨new, List.mem_append_right _ List.mem_cons_self,
          Linked.refl new, hk⟩
      · rintro ⟨x, hx, hxnew, hk⟩
        rcases List.mem_append.mp hx with hmem | hlast
        · exact absurd hxnew (hapart x hmem)
        · exact List.mem_singleton.mp hlast ▸ hk
  · exact fun e he => h.waits e (List.mem_cons_of_mem _ he)
  · intro e he hleads
    refine h.absent e ?_ (fun hlead => hleads ((hold e e hlead.mem).mpr hlead))
    intro hcons
    rcases List.mem_cons.mp hcons with rfl | hlater
    · exact hleads hnewLeads
    · exact he hlater
  · intro x k e hx hk he
    rcases List.mem_append.mp hx with hmem | hlast
    · exact h.indexed x k e hmem hk ((hold x e hmem).mp he)
    · rw [List.mem_singleton.mp hlast] at he hk
      rw [h.free k (hfresh k hk), he.unique hnewLeads]
      simp [firstOwner, hk]
  · intro k hk
    have hknew := hk new (List.mem_append_right _ List.mem_cons_self)
    rw [h.free k (fun x hx => hk x (List.mem_append_left _ hx))]
    simp [firstOwner, hknew]

theorem Joined.together (h : Joined le keysOf things waiting new joined current s)
    (hnew : new ∉ things) (hx : Touches keysOf things new x) :
    Linked keysOf (things ++ [new]) x current :=
  ((linked_snoc hx.mem hnew).2.mpr hx).trans
    ((linked_snoc h.leads.mem hnew).2.mpr (h.touching current h.member)).symm

/-- When only leaders are stored after the merges of a thing, every group it touches has
joined and the leader they are folded into is the first of them. -/
theorem Joined.joins_all [Std.Antisymm le] [Std.Total le] [IsTrans Name le]
    (h : Joined le keysOf things waiting new joined current s) (hnew : new ∉ things)
    (hown : forall x, x ∈ new :: things -> key x ∈ keysOf x)
    (hstored : forall e, e ∈ things -> (s.keys e).Nonempty ->
      Leader le keysOf (things ++ [new]) e e) :
    (forall x, Touches keysOf things new x -> joined x) ∧
      forall x, joined x -> le current x := by
  have hcurrent := h.leads.mem
  have hleads : Leader le keysOf (things ++ [new]) current current := by
    refine hstored current hcurrent ?_
    rw [h.taken]
    exact ⟨key current, Or.inr ⟨current, h.member,
      hown current (List.mem_cons_of_mem _ hcurrent)⟩⟩
  have hfirst : forall x, Touches keysOf things new x -> le current x :=
    fun x hx => hleads.first x (List.mem_append_left _ hx.mem)
      (h.together hnew hx).symm
  refine ⟨fun x hx => ?_, fun x hx => hfirst x (h.touching x hx)⟩
  by_contra hout
  obtain ⟨r, hr⟩ : exists r, Leader le keysOf things x r := exists_leader hx.mem
  have hrOut : ¬ joined r := fun hjoined =>
    hout (h.closed r x hjoined hr.linked.symm)
  have hrLeads : Leader le keysOf (things ++ [new]) r r := by
    refine hstored r hr.mem ?_
    rw [h.led r hr.self hrOut]
    exact ⟨key r, r, hr.mem, Linked.refl r, hown r (List.mem_cons_of_mem _ hr.mem)⟩
  have hsame : r = current :=
    hrLeads.unique (hleads.of_linked (h.together hnew (hx.linked hr.linked)).symm)
  exact hrOut (hsame ▸ h.member)

/-- The groups are right after the merges of a thing when every group it touches has
joined and the leader they are folded into is the first of them. -/
theorem Joined.grouped [Std.Antisymm le] [Std.Total le] [IsTrans Name le]
    (h : Joined le keysOf things waiting new joined current s) (hnew : new ∉ things)
    (hlater : forall x, x ∈ things -> le x new)
    (hall : forall x, Touches keysOf things new x -> joined x)
    (hfirst : forall x, joined x -> le current x) :
    Grouped le keysOf (things ++ [new]) waiting s := by
  have hcurrent := h.leads.mem
  have hleader : forall x, x = new ∨ x ∈ things ∧ Touches keysOf things new x ->
      Leader le keysOf (things ++ [new]) x current :=
    fun x hx => Touches.leader hnew hlater hcurrent (h.touching current h.member)
      (fun y _ hy => hfirst y (hall y hy)) hx
  have hold : forall x e, x ∈ things -> ¬ Touches keysOf things new x ->
      (Leader le keysOf (things ++ [new]) x e ↔ Leader le keysOf things x e) :=
    fun x e hx hout => leader_snoc_iff hx hnew (exists_leader hx) hout
  have htaken : groupKeys keysOf (things ++ [new]) current =
      joinedKeys keysOf new joined := by
    ext k
    constructor
    · rintro ⟨x, hx, hlinked, hk⟩
      rcases List.mem_append.mp hx with hmem | hlast
      · refine Or.inr ⟨x, hall x ((linked_snoc hmem hnew).2.mp ?_), hk⟩
        exact hlinked.trans
          ((linked_snoc hcurrent hnew).2.mpr (h.touching current h.member))
      · exact Or.inl (List.mem_singleton.mp hlast ▸ hk)
    · rintro (hk | ⟨x, hx, hk⟩)
      · exact ⟨new, List.mem_append_right _ List.mem_cons_self,
          (hleader new (Or.inl rfl)).linked, hk⟩
      · have hxTouch := h.touching x hx
        exact ⟨x, List.mem_append_left _ (hxTouch.mem), h.together hnew hxTouch, hk⟩
  have hcases : forall x, x ∈ things ++ [new] ->
      (x = new ∨ x ∈ things ∧ Touches keysOf things new x) ∨
        x ∈ things ∧ ¬ Touches keysOf things new x := by
    intro x hx
    rcases List.mem_append.mp hx with hmem | hlast
    · by_cases htouch : Touches keysOf things new x
      · exact Or.inl (Or.inr ⟨hmem, htouch⟩)
      · exact Or.inr ⟨hmem, htouch⟩
    · exact Or.inl (Or.inl (List.mem_singleton.mp hlast))
  refine ⟨?_, h.waits, ?_, ?_, ?_⟩
  · intro e he
    rcases hcases e he.mem with htouch | ⟨hmem, hout⟩
    · rw [he.unique (hleader e htouch), h.taken, htaken]
    · rw [h.led e ((hold e e hmem hout).mp he)
        (fun hjoined => hout (h.touching e hjoined)), groupKeys_snoc hmem hnew hout]
  · intro e he hleads
    have hne : e ≠ current := by
      rintro rfl
      exact hleads (hleader e (Or.inr ⟨hcurrent, h.touching e h.member⟩))
    refine h.absent e he hne (fun hlead => ?_)
    by_contra hout
    have hapart : ¬ Touches keysOf things new e := fun htouch => hout (hall e htouch)
    exact hleads ((hold e e hlead.mem hapart).mpr hlead)
  · intro x k e hx hk he
    rcases hcases x hx with htouch | ⟨hmem, hout⟩
    · rw [he.unique (hleader x htouch)]
      refine h.found k ?_
      rcases htouch with rfl | ⟨-, htouch⟩
      · exact Or.inl hk
      · exact Or.inr ⟨x, hall x htouch, hk⟩
    · refine h.indexed x k e hmem hk ((hold x e hmem hout).mp he) ?_
      rintro (hknew | ⟨z, hz, hkz⟩)
      · exact hout ⟨x, hmem, Linked.refl x, k, hk, hknew⟩
      · have hzTouch := h.touching z hz
        exact hout (hzTouch.linked (Linked.of_share (hzTouch.mem) hmem ⟨k, hkz, hk⟩))
  · intro k hk
    refine h.free k (fun x hx => hk x (List.mem_append_left _ hx)) ?_
    rintro (hknew | ⟨x, hx, hkx⟩)
    · exact hk new (List.mem_append_right _ List.mem_cons_self) hknew
    · exact hk x (List.mem_append_left _ ((h.touching x hx).mem)) hkx

/-- The merges of a new thing find every group that it shares a key with, and the group
that they meet last has the first thing of all these groups. -/
def JoinsWell (le : Name -> Name -> Prop) (key : Name -> Key)
    (keysOf : Name -> List Key) (things : List Name) (new : Name) : Prop :=
  forall first rest, owners keysOf things new = first :: rest ->
    (forall x, x ∈ first :: rest -> exists y, y ∈ first :: rest ∧
      Finds le key keysOf things new first y ∧ Linked keysOf things x y) ∧
    exists before o e, MeetsLast (Linked keysOf things)
        (Finds le key keysOf things new first) (first :: rest) before o ∧
      Linked keysOf things o e ∧
      forall x y, x ∈ first :: rest -> Linked keysOf things x y -> le e y

theorem joinsWell_of_one_group [Std.Total le] [IsTrans Name le]
    (hone : forall o o', o ∈ owners keysOf things new -> o' ∈ owners keysOf things new ->
      Linked keysOf things o o') :
    JoinsWell le key keysOf things new := by
  intro first rest howners
  rw [howners] at hone
  have hfirst : forall o, o ∈ first :: rest -> Linked keysOf things o first :=
    fun o ho => hone o first ho List.mem_cons_self
  have howner : first ∈ owners keysOf things new := by
    rw [howners]
    exact List.mem_cons_self
  have hmem : first ∈ things := (mem_owners howner).1
  obtain ⟨e, he⟩ : exists e, Leader le keysOf things first e := exists_leader hmem
  refine ⟨fun x hx => ⟨first, List.mem_cons_self, Or.inl rfl, hfirst x hx⟩, [], first, e,
    ⟨⟨rest, rfl⟩, Or.inl rfl, ?_, ?_⟩, he.linked, ?_⟩
  · intro y hy
    cases hy
  · exact fun y hy _ => ⟨first, List.mem_cons_self, Or.inl rfl, hfirst y hy⟩
  · intro x y hx hxy
    have hlinked := (hfirst x hx).symm.trans hxy
    exact he.first y (hlinked.mem hmem) hlinked

theorem Grouped.step [Std.Antisymm le] [Std.Total le] [IsTrans Name le]
    (h : Grouped le keysOf things (new :: waiting) s)
    (hnew : new ∉ things) (hwaits : forall x, x ∈ things -> x ∉ waiting)
    (hself : new ∉ waiting)
    (hown : forall x, x ∈ new :: things -> key x ∈ keysOf x)
    (hlater : forall x, x ∈ things -> le x new)
    (hwell : JoinsWell le key keysOf things new) :
    Grouped le keysOf (things ++ [new]) waiting
      (mergeOwners key new s (owners keysOf things new)) := by
  cases howners : owners keysOf things new with
  | nil =>
      refine h.alone hnew hself (fun x hx => ?_)
      obtain ⟨y, hy, -⟩ := touches_iff_owner.mp hx
      rw [howners] at hy
      cases hy
  | cons first rest =>
      obtain ⟨current, before, o, hjoined, hlast, hleads⟩ :=
        h.run hnew hwaits hself hown (fun y hy => howners ▸ hy)
      obtain ⟨hfound, before', o', e, hlast', hlinked, hfirst⟩ := hwell first rest howners
      rw [← hlast.unique hlast'] at hlinked
      have homem : o ∈ things := hleads.linked.symm.mem hleads.mem
      refine hjoined.grouped hnew hlater ?_ ?_
      · intro x hx
        obtain ⟨y, hy, hxy⟩ := touches_iff_owner.mp hx
        obtain ⟨z, hz, hfinds, hyz⟩ := hfound y (howners ▸ hy)
        exact ⟨z, hz, hfinds, hxy.trans hyz⟩
      · rintro x ⟨y, hy, -, hxy⟩
        exact IsTrans.trans current e x (hleads.first e (hlinked.mem homem) hlinked)
          (hfirst y x hy hxy.symm)

/-- When only leaders are stored after the merges of a new thing, it has joined well. -/
theorem Grouped.joinsWell [Std.Antisymm le] [Std.Total le] [IsTrans Name le]
    (h : Grouped le keysOf things (new :: waiting) s)
    (hnew : new ∉ things) (hwaits : forall x, x ∈ things -> x ∉ waiting)
    (hself : new ∉ waiting)
    (hown : forall x, x ∈ new :: things -> key x ∈ keysOf x)
    (hstored : forall e, ((mergeOwners key new s (owners keysOf things new)).keys
      e).Nonempty -> Leader le keysOf (things ++ [new]) e e) :
    JoinsWell le key keysOf things new := by
  intro first rest howners
  obtain ⟨current, before, o, hjoined, hlast, hleads⟩ :=
    h.run hnew hwaits hself hown (fun y hy => howners ▸ hy)
  rw [howners] at hstored
  obtain ⟨hall, hfirst⟩ := hjoined.joins_all hnew hown (fun e _ => hstored e)
  have hfound : forall x, x ∈ first :: rest -> exists y, y ∈ first :: rest ∧
      Finds le key keysOf things new first y ∧ Linked keysOf things x y :=
    fun x hx => hall x (touches_iff_owner.mpr ⟨x, howners ▸ hx, Linked.refl x⟩)
  refine ⟨hfound, before, o, current, hlast, hleads.linked, ?_⟩
  intro x y hx hxy
  obtain ⟨z, hz, hfinds, hxz⟩ := hfound x hx
  exact hfirst y ⟨z, hz, hfinds, hxy.symm.trans hxz⟩

/-!
# All things in their order
-/

def begun [DecidableEq Name] (keysOf : Name -> List Key) (things : List Name) :
    Holdings Name Key where
  keys x := { k | x ∈ things ∧ k ∈ keysOf x }
  index := (rebuild keysOf things).1

noncomputable def rebuilt [DecidableEq Name] (key : Name -> Key)
    (keysOf : Name -> List Key) (things : List Name) : Holdings Name Key :=
  (begun keysOf things).mergeEach key (rebuild keysOf things).2

theorem grouped_begun [DecidableEq Name] :
    Grouped le keysOf [] things (begun keysOf things) where
  led e he := by
    cases he.mem
  waits e he := by
    ext k
    exact and_iff_right he
  absent e he _ := by
    ext k
    exact iff_of_false (fun hboth => he hboth.1) (Set.notMem_empty k)
  indexed x k e hx := by
    cases hx
  free k _ := congrFun (rebuild_index keysOf things) k

theorem mergeEach_snoc [DecidableEq Name] (hnew : new ∉ things) :
    s.mergeEach key (rebuild keysOf (things ++ [new])).2 =
      mergeOwners key new (s.mergeEach key (rebuild keysOf things).2)
        (owners keysOf things new) := by
  rw [rebuild_merges_snoc hnew, Holdings.mergeEach, List.foldl_append, List.foldl_map]
  rfl

/-- While the things join well, the earlier ones are grouped and the later ones wait. -/
theorem grouped_of_joinsWell [Std.Antisymm le] [Std.Total le] [IsTrans Name le] [DecidableEq Name]
    (hown : forall x, x ∈ things ++ waiting -> key x ∈ keysOf x)
    (hnodup : (things ++ waiting).Nodup)
    (horder : (things ++ waiting).Pairwise le)
    (hwell : forall earlier x later, things = earlier ++ x :: later ->
      JoinsWell le key keysOf earlier x) :
    Grouped le keysOf things waiting
      ((begun keysOf (things ++ waiting)).mergeEach key (rebuild keysOf things).2) := by
  induction things using List.reverseRecOn generalizing waiting with
  | nil =>
      exact grouped_begun
  | append_singleton things new ih =>
      rw [List.append_assoc, List.singleton_append] at hown hnodup horder ⊢
      have hbefore := ih hown hnodup horder (fun earlier x later heq =>
        hwell earlier x (later ++ [new]) (by rw [heq, List.append_assoc, List.cons_append]))
      obtain ⟨-, hlate, hapart⟩ := List.nodup_append.mp hnodup
      have hnew : new ∉ things := fun hmem =>
        hapart new hmem new List.mem_cons_self rfl
      have hwaits : forall x, x ∈ things -> x ∉ waiting := fun x hx hmem =>
        hapart x hx x (List.mem_cons_of_mem _ hmem) rfl
      have hself : new ∉ waiting := (List.nodup_cons.mp hlate).1
      have hlater : forall x, x ∈ things -> le x new := fun x hx =>
        (List.pairwise_append.mp horder).2.2 x hx new List.mem_cons_self
      have hownNew : forall y, y ∈ new :: things -> key y ∈ keysOf y := by
        intro y hy
        refine hown y ?_
        rcases List.mem_cons.mp hy with rfl | hold
        · exact List.mem_append_right _ List.mem_cons_self
        · exact List.mem_append_left _ hold
      rw [mergeEach_snoc hnew]
      exact hbefore.step hnew hwaits hself hownNew hlater (hwell things new [] rfl)

theorem Grouped.regrouped (h : Grouped le keysOf things [] s)
    (hown : forall x, x ∈ things -> key x ∈ keysOf x) :
    Regrouped le keysOf things s where
  stored e := by
    constructor
    · intro hsome
      by_contra hleads
      rw [h.absent e List.not_mem_nil hleads] at hsome
      exact Set.not_nonempty_empty hsome
    · intro hleads
      rw [h.led e hleads]
      exact ⟨key e, e, hleads.mem, Linked.refl e, hown e hleads.mem⟩
  index := h.indexed

theorem rebuilt_congr [DecidableEq Name]
    (hkeys : forall x, x ∈ things -> keysOf x = keysOf' x) :
    rebuilt key keysOf things = rebuilt key keysOf' things := by
  have hbegun : begun keysOf things = begun keysOf' things := by
    refine Holdings.ext ?_ ?_
    · funext x
      ext k
      refine and_congr_right fun hx => ?_
      rw [hkeys x hx]
    · exact congrArg Prod.fst (rebuild_congr hkeys)
  rw [rebuilt, rebuilt, hbegun, rebuild_congr hkeys]

/-- Of every initial part of the order the rebuilt things are regrouped exactly when
every thing joins the earlier ones well. -/
theorem rebuilt_regrouped_iff [Std.Antisymm le] [Std.Total le] [IsTrans Name le] [DecidableEq Name]
    (hown : forall x, x ∈ things -> key x ∈ keysOf x) (hnodup : things.Nodup)
    (horder : things.Pairwise le) :
    (forall part, part <+: things ->
      Regrouped le keysOf part (rebuilt key keysOf part)) ↔
      forall earlier x, earlier ++ [x] <+: things -> JoinsWell le key keysOf earlier x := by
  constructor
  · intro hparts earlier
    induction hlength : earlier.length using Nat.strong_induction_on generalizing earlier with
    | _ n ih =>
        intro x hprefix
        have hsublist := hprefix.sublist
        have hnodup' := hnodup.sublist hsublist
        have hbefore : Grouped le keysOf earlier [x]
            ((begun keysOf (earlier ++ [x])).mergeEach key (rebuild keysOf earlier).2) := by
          refine grouped_of_joinsWell (fun y hy => hown y (hsublist.subset hy)) hnodup'
            (horder.sublist hsublist) ?_
          intro first y later heq
          refine ih first.length ?_ first rfl y ?_
          · rw [← hlength, heq, List.length_append, List.length_cons]
            omega
          · refine List.IsPrefix.trans ⟨later ++ [x], ?_⟩ hprefix
            rw [heq]
            simp
        obtain ⟨-, -, hapart⟩ := List.nodup_append.mp hnodup'
        have hnew : x ∉ earlier := fun hmem => hapart x hmem x List.mem_cons_self rfl
        have hownNew : forall y, y ∈ x :: earlier -> key y ∈ keysOf y := by
          intro y hy
          refine hown y (hsublist.subset ?_)
          rcases List.mem_cons.mp hy with rfl | hold
          · exact List.mem_append_right _ List.mem_cons_self
          · exact List.mem_append_left _ hold
        refine hbefore.joinsWell hnew (fun _ _ hmem => by cases hmem)
          (fun hmem => by cases hmem) hownNew ?_
        rw [← mergeEach_snoc hnew]
        exact fun e => ((hparts (earlier ++ [x]) hprefix).stored e).mp
  · intro hwell part hprefix
    have hsublist := hprefix.sublist
    have hpart : forall x, x ∈ part -> key x ∈ keysOf x :=
      fun x hx => hown x (hsublist.subset hx)
    have hgrouped : Grouped le keysOf part [] ((begun keysOf (part ++ [])).mergeEach key
        (rebuild keysOf part).2) := by
      refine grouped_of_joinsWell ?_ ?_ ?_ ?_
      · rw [List.append_nil]
        exact hpart
      · rw [List.append_nil]
        exact hnodup.sublist hsublist
      · rw [List.append_nil]
        exact horder.sublist hsublist
      · intro earlier x later heq
        refine hwell earlier x (List.IsPrefix.trans ⟨later, ?_⟩ hprefix)
        rw [heq, List.append_assoc, List.singleton_append]
    rw [List.append_nil] at hgrouped
    exact hgrouped.regrouped hpart

end

end Naming
end PostCortex

import PostCortex.Core.MessageIds
import PostCortex.Storage.MessageLog

/-!
# What a load of messages returns

The stored turns of every session, each stream in the order of its positions or not
readable at all.  A load of a half-open range returns the turns of the range, and
this is what `load_messages` of the row store does after any appends and expiries.
-/

namespace PostCortex
namespace Storage

open PostCortex.Core
open KeyValue

structure MessageStreams where
  turns : Uuid -> Except String (List Message)
  own : forall s list, turns s = Except.ok list ->
    forall m, m ∈ list -> m.sessionId = s
  ordered : forall s list, turns s = Except.ok list ->
    list.Pairwise (fun a b => a.seq < b.seq)
  fits : forall s list, turns s = Except.ok list ->
    forall m, m ∈ list -> m.seq < u64Values

namespace MessageStreams

def load (streams : MessageStreams) (s : Uuid) (start finish : Nat) :
    Except String (List Message) :=
  (streams.turns s).map
    (fun list => list.filter (fun m => decide (start ≤ m.seq ∧ m.seq < finish)))

def Stores (streams : MessageStreams) (s : Uuid) (m : Message) : Prop :=
  exists list, streams.turns s = Except.ok list ∧ m ∈ list

theorem mem_load {streams : MessageStreams} {s : Uuid} {start finish : Nat}
    {loaded : List Message} (h : streams.load s start finish = Except.ok loaded)
    {m : Message} :
    m ∈ loaded ↔ streams.Stores s m ∧ start ≤ m.seq ∧ m.seq < finish := by
  unfold load at h
  cases hturns : streams.turns s with
  | error e =>
      rw [hturns] at h
      cases h
  | ok list =>
      rw [hturns] at h
      cases h
      rw [List.mem_filter, decide_eq_true_iff]
      constructor
      · exact fun hm => ⟨⟨list, hturns, hm.1⟩, hm.2⟩
      · rintro ⟨⟨other, hother, hm⟩, hrange⟩
        rw [hturns] at hother
        cases hother
        exact ⟨hm, hrange⟩

variable {streams : MessageStreams} {s : Uuid} {m : Message}

theorem Stores.load (h : streams.Stores s m) (start finish : Nat) :
    exists loaded, streams.load s start finish = Except.ok loaded := by
  obtain ⟨list, hturns, _⟩ := h
  rw [MessageStreams.load, hturns]
  exact ⟨_, rfl⟩

theorem load_of_read (streams : MessageStreams) (h : (streams.turns s).isOk = true)
    (start finish : Nat) :
    exists loaded, streams.load s start finish = Except.ok loaded := by
  rw [MessageStreams.load]
  cases hturns : streams.turns s with
  | error e =>
      rw [hturns] at h
      cases h
  | ok list => exact ⟨_, rfl⟩

theorem Stores.own (h : streams.Stores s m) : m.sessionId = s := by
  obtain ⟨list, hturns, hm⟩ := h
  exact streams.own s list hturns m hm

theorem Stores.fits (h : streams.Stores s m) : m.seq < u64Values := by
  obtain ⟨list, hturns, hm⟩ := h
  exact streams.fits s list hturns m hm

theorem Stores.unique {n : Message} (hm : streams.Stores s m)
    (hn : streams.Stores s n) (hseq : m.seq = n.seq) :
    m = n := by
  obtain ⟨list, hlist, hmem⟩ := hm
  obtain ⟨other, hother, hmem'⟩ := hn
  rw [hlist] at hother
  cases hother
  have hinjective : (list.map Message.seq).Nodup :=
    List.pairwise_map.mpr ((streams.ordered s list hlist).imp (fun hlt => ne_of_lt hlt))
  exact List.inj_on_of_nodup_map hinjective hmem hmem' hseq

end MessageStreams

/-!
# The streams of the row store
-/

theorem eq_of_increasing {l₁ l₂ : List Message}
    (h₁ : l₁.Pairwise (fun a b => a.seq < b.seq))
    (h₂ : l₂.Pairwise (fun a b => a.seq < b.seq))
    (hmem : forall m, m ∈ l₁ ↔ m ∈ l₂) :
    l₁ = l₂ := by
  have hnodup : forall l : List Message,
      l.Pairwise (fun a b => a.seq < b.seq) -> l.Nodup := by
    intro l hl
    refine hl.imp ?_
    intro a b hlt heq
    rw [heq] at hlt
    exact lt_irrefl _ hlt
  have hperm : l₁.Perm l₂ :=
    (List.perm_ext_iff_of_nodup (hnodup l₁ h₁) (hnodup l₂ h₂)).mpr hmem
  refine hperm.eq_of_pairwise ?_ h₁ h₂
  intro a b _ _ hab hba
  exact absurd (lt_trans hab hba) (lt_irrefl _)

section

variable {blob : Type} [UuidText] [LawfulUuidText]

variable {s : Stream blob}

omit [LawfulUuidText] in
theorem Streamed.seq_fits (h : Streamed s) {m : Message} (hm : Stored s.db m) :
    m.seq < 2 ^ 64 - 1 := by
  have hbelow := h.below m (h.logged hm)
  have hbound := h.bound m.sessionId
  omega

theorem Streamed.turns (h : Streamed s) {sessionId : Uuid} {list : List Message}
    (hlist : loadMessages s.db sessionId 0 18446744073709551615 = Except.ok list) :
    list.Pairwise (fun a b => a.seq < b.seq) ∧
      forall m, m ∈ list ↔ Stored s.db m ∧ m.sessionId = sessionId := by
  obtain ⟨loaded, hloaded, hordered, hmem⟩ := h.loaded sessionId 0 18446744073709551615
  rw [hloaded] at hlist
  cases hlist
  refine ⟨List.pairwise_map.mp hordered, fun m => ?_⟩
  rw [hmem, and_congr_right_iff]
  intro hm
  have hseq := h.seq_fits hm
  exact and_iff_left ⟨Nat.zero_le _, hseq⟩

def streamsOf {s : Stream blob} (h : Streamed s) : MessageStreams where
  turns := fun sessionId => loadMessages s.db sessionId 0 18446744073709551615
  own := fun _ _ hlist m hm => (((h.turns hlist).2 m).mp hm).2
  ordered := fun _ _ hlist => (h.turns hlist).1
  fits := fun _ _ hlist m hm =>
    lt_trans (h.seq_fits (((h.turns hlist).2 m).mp hm).1) (by decide)

theorem stores_streamsOf (h : Streamed s) {sessionId : Uuid} {m : Message} :
    (streamsOf h).Stores sessionId m ↔ Stored s.db m ∧ m.sessionId = sessionId := by
  constructor
  · rintro ⟨list, hlist, hm⟩
    exact ((h.turns hlist).2 m).mp hm
  · intro hm
    obtain ⟨loaded, hloaded, _⟩ := h.loaded sessionId 0 18446744073709551615
    exact ⟨loaded, hloaded, ((h.turns hloaded).2 m).mpr hm⟩

theorem load_streamsOf (h : Streamed s) (sessionId : Uuid) (start finish : UInt64) :
    (streamsOf h).load sessionId start.toNat finish.toNat =
      loadMessages s.db sessionId start finish := by
  obtain ⟨loaded, hloaded, hordered, hmem⟩ := h.loaded sessionId start finish
  obtain ⟨all, hall, hallOrdered, _⟩ := h.loaded sessionId 0 18446744073709551615
  have hturns : (streamsOf h).turns sessionId = Except.ok all := hall
  have hload : (streamsOf h).load sessionId start.toNat finish.toNat =
      Except.ok (all.filter
        (fun m => decide (start.toNat ≤ m.seq ∧ m.seq < finish.toNat))) := by
    rw [MessageStreams.load, hturns]
    rfl
  rw [hload, hloaded]
  refine congrArg Except.ok (eq_of_increasing
    ((List.pairwise_map.mp hallOrdered).filter _) (List.pairwise_map.mp hordered) ?_)
  intro m
  rw [MessageStreams.mem_load hload, stores_streamsOf h, hmem m, and_assoc]

end

end Storage
end PostCortex

import PostCortex.KeyValue.Upserts

/-!
# The first item of each key

A loop that keeps the keys it has seen and lets an item through only if its key is
new.  What it lets through is what a list of entries keeps of the items when an entry
that is there is never replaced.
-/

namespace PostCortex
namespace KeyValue

variable {item key : Type} [DecidableEq key]

structure Emitted (item key : Type) where
  seen : List key
  out : List item

def emit (keyOf : item -> key) (e : Emitted item key) (x : item) :
    Emitted item key :=
  if keyOf x ∈ e.seen then e
  else ⟨keyOf x :: e.seen, e.out ++ [x]⟩

def emitAll (keyOf : item -> key) (xs : List item) (e : Emitted item key) :
    Emitted item key :=
  xs.foldl (emit keyOf) e

def firsts (keyOf : item -> key) (xs : List item) : List item :=
  (emitAll keyOf xs ⟨[], []⟩).out

def Emitted.Tracks (keyOf : item -> key) (e : Emitted item key) : Prop :=
  forall k, k ∈ e.seen ↔ k ∈ e.out.map keyOf

variable {keyOf : item -> key}

theorem emitAll_append (xs ys : List item) (e : Emitted item key) :
    emitAll keyOf (xs ++ ys) e = emitAll keyOf ys (emitAll keyOf xs e) :=
  List.foldl_append

theorem foldl_emitAll {source : Type} (offered : source -> List item)
    (sources : List source) (e : Emitted item key) :
    sources.foldl (fun e s => emitAll keyOf (offered s) e) e =
      emitAll keyOf (sources.flatMap offered) e := by
  induction sources generalizing e with
  | nil => rfl
  | cons s rest ih =>
      rw [List.foldl_cons, ih, List.flatMap_cons, emitAll_append]

theorem upsert_keep (x : item) (entries : List item) :
    upsert keyOf (fun old _ => old) x entries =
      if keyOf x ∈ entries.map keyOf then entries else entries ++ [x] := by
  induction entries with
  | nil => rfl
  | cons y rest ih =>
      rw [upsert]
      by_cases hkey : keyOf y = keyOf x
      · rw [if_pos hkey, if_pos]
        rw [List.map_cons, hkey]
        exact List.mem_cons_self
      · rw [if_neg hkey, ih, List.map_cons]
        by_cases hmem : keyOf x ∈ rest.map keyOf
        · rw [if_pos hmem, if_pos (List.mem_cons_of_mem _ hmem)]
        · have hnew : keyOf x ∉ keyOf y :: rest.map keyOf := fun hx =>
            (List.mem_cons.mp hx).elim (fun heq => hkey heq.symm) hmem
          rw [if_neg hmem, if_neg hnew]
          rfl

variable {e : Emitted item key}

theorem Emitted.Tracks.emit (h : e.Tracks keyOf) (x : item) :
    (emit keyOf e x).Tracks keyOf ∧
      (KeyValue.emit keyOf e x).out = upsert keyOf (fun old _ => old) x e.out := by
  rw [upsert_keep, KeyValue.emit]
  by_cases hseen : keyOf x ∈ e.seen
  · rw [if_pos hseen, if_pos ((h _).mp hseen)]
    exact ⟨h, rfl⟩
  · rw [if_neg hseen, if_neg (mt (h _).mpr hseen)]
    refine ⟨?_, rfl⟩
    intro k
    rw [List.mem_cons, h k, List.map_append, List.mem_append, List.map_singleton,
      List.mem_singleton, or_comm]

theorem Emitted.Tracks.emitAll (h : e.Tracks keyOf) (xs : List item) :
    (emitAll keyOf xs e).out = upsertAll keyOf (fun old _ => old) xs e.out := by
  induction xs generalizing e with
  | nil => rfl
  | cons x rest ih =>
      obtain ⟨htracks, hout⟩ := h.emit x
      have hrest := ih htracks
      rw [hout] at hrest
      exact hrest

theorem firsts_eq (xs : List item) :
    firsts keyOf xs = upsertAll keyOf (fun old _ => old) xs [] := by
  have htracks : (⟨[], []⟩ : Emitted item key).Tracks keyOf := fun _ => Iff.rfl
  exact htracks.emitAll xs

omit [DecidableEq key] in
theorem keepsKey_keep : KeepsKey keyOf (fun old _ => old) :=
  fun _ _ _ => rfl

omit [DecidableEq key] in
theorem merged_keep (xs : List item) :
    merged (fun old _ => old) xs = xs.head? := by
  cases xs with
  | nil => rfl
  | cons x rest =>
      have hkeep : rest.foldl (fun old _ => old) x = x := by
        induction rest with
        | nil => rfl
        | cons y rest ih => exact ih
      rw [merged, hkeep, List.head?_cons]

theorem nodup_firsts (xs : List item) : ((firsts keyOf xs).map keyOf).Nodup := by
  rw [firsts_eq]
  exact nodup_upsertAll keepsKey_keep xs List.nodup_nil

theorem mem_keys_firsts {xs : List item} {k : key} :
    k ∈ (firsts keyOf xs).map keyOf ↔ k ∈ xs.map keyOf := by
  rw [firsts_eq]
  exact mem_keys_upsertAll keepsKey_keep

variable {xs : List item} {x : item}

theorem mem_firsts :
    x ∈ firsts keyOf xs ↔ xs.find? (fun y => keyOf y = keyOf x) = some x := by
  rw [firsts_eq, mem_upsertAll keepsKey_keep, merged_keep, List.head?_filter]

theorem of_mem_firsts (h : x ∈ firsts keyOf xs) :
    x ∈ xs :=
  List.mem_of_find?_eq_some (mem_firsts.mp h)

theorem mem_firsts_of_unique (hx : x ∈ xs)
    (hunique : forall y, y ∈ xs -> keyOf y = keyOf x -> y = x) :
    x ∈ firsts keyOf xs := by
  have hkey : keyOf x ∈ (firsts keyOf xs).map keyOf :=
    mem_keys_firsts.mpr (List.mem_map_of_mem hx)
  obtain ⟨y, hy, heq⟩ := List.mem_map.mp hkey
  rw [← hunique y (of_mem_firsts hy) heq]
  exact hy

end KeyValue
end PostCortex

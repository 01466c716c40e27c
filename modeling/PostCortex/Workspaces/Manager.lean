import PostCortex.Core.UuidText
import PostCortex.KeyValue.Database
import PostCortex.Transition.System

/-!
# Workspaces

`workspace/mod.rs`: the manager keeps the workspaces by id, an index from names to
ids and a counter, and each operation writes the three one after the other.  Names
need not be unique.
-/

namespace PostCortex
namespace Workspaces

open PostCortex.Core
open KeyValue
open Transition

theorem transOrd_uuid : Std.TransOrd Uuid :=
  inferInstance

attribute [local instance] transOrd_uuid

inductive SessionRole where
  | primary
  | related
  | dependency
  | shared
  deriving DecidableEq, Repr

structure Workspace where
  id : Uuid
  name : String
  description : String
  createdAt : Timestamp
  sessionIds : Database Uuid SessionRole

namespace Workspace

def new (now : Timestamp) (id : Uuid) (name description : String) : Workspace where
  id := id
  name := name
  description := description
  createdAt := now
  sessionIds := ∅

def addSession (w : Workspace) (sessionId : Uuid) (role : SessionRole) : Workspace :=
  { w with sessionIds := w.sessionIds.insert sessionId role }

def removeSession (w : Workspace) (sessionId : Uuid) :
    Workspace × Option SessionRole :=
  ({ w with sessionIds := w.sessionIds.erase sessionId }, w.sessionIds[sessionId]?)

end Workspace

structure WorkspaceManager where
  workspaces : Database Uuid Workspace
  nameIndex : Database String Uuid
  totalWorkspaces : UInt64

namespace WorkspaceManager

def new : WorkspaceManager where
  workspaces := ∅
  nameIndex := ∅
  totalWorkspaces := 0

def put (m : WorkspaceManager) (id : Uuid) (name : String) (w : Workspace) :
    WorkspaceManager where
  workspaces := m.workspaces.insert id w
  nameIndex := m.nameIndex.insert name id
  totalWorkspaces := m.totalWorkspaces + 1

def createWorkspace (now : Timestamp) (id : Uuid) (m : WorkspaceManager)
    (name description : String) : WorkspaceManager × Uuid :=
  (m.put id name (Workspace.new now id name description), id)

def restoreWorkspace (now : Timestamp) (m : WorkspaceManager) (id : Uuid)
    (name description : String) (sessions : List (Uuid × SessionRole)) :
    WorkspaceManager :=
  m.put id name
    (sessions.foldl (fun w s => w.addSession s.1 s.2)
      (Workspace.new now id name description))

def getWorkspace (m : WorkspaceManager) (id : Uuid) : Option Workspace :=
  m.workspaces[id]?

def getWorkspaceByName (m : WorkspaceManager) (name : String) : Option Workspace :=
  (m.nameIndex[name]?).bind m.getWorkspace

def deleteWorkspace (m : WorkspaceManager) (id : Uuid) :
    WorkspaceManager × Option Workspace :=
  match m.workspaces[id]? with
  | none => (m, none)
  | some w =>
      ({ workspaces := m.workspaces.erase id
         nameIndex := m.nameIndex.erase w.name
         totalWorkspaces := m.totalWorkspaces - 1 }, some w)

section

variable [UuidText]

def addSessionToWorkspace (m : WorkspaceManager) (id sessionId : Uuid)
    (role : SessionRole) : WorkspaceManager × Except String Unit :=
  match m.getWorkspace id with
  | none =>
      (m, Except.error ("Workspace " ++ UuidText.toText id ++ " not found"))
  | some w =>
      ({ m with workspaces := m.workspaces.insert id (w.addSession sessionId role) },
        Except.ok ())

def removeSessionFromWorkspace (m : WorkspaceManager) (id sessionId : Uuid) :
    WorkspaceManager × Except String (Option SessionRole) :=
  match m.getWorkspace id with
  | none =>
      (m, Except.error ("Workspace " ++ UuidText.toText id ++ " not found"))
  | some w =>
      ({ m with workspaces := m.workspaces.insert id (w.removeSession sessionId).1 },
        match (w.removeSession sessionId).2 with
        | none =>
            Except.error ("Session " ++ UuidText.toText sessionId ++
              " not in workspace")
        | some role => Except.ok (some role))

end

end WorkspaceManager

/-!
# Runs
-/

inductive Operation where
  | createWorkspace (now : Timestamp) (id : Uuid) (name description : String)
  | restoreWorkspace (now : Timestamp) (id : Uuid) (name description : String)
      (sessions : List (Uuid × SessionRole))
  | deleteWorkspace (id : Uuid)
  | addSession (id sessionId : Uuid) (role : SessionRole)
  | removeSession (id sessionId : Uuid)

section

variable [UuidText]

def Operation.apply (m : WorkspaceManager) : Operation -> WorkspaceManager
  | createWorkspace now id name description =>
      (m.createWorkspace now id name description).1
  | restoreWorkspace now id name description sessions =>
      m.restoreWorkspace now id name description sessions
  | deleteWorkspace id => (m.deleteWorkspace id).1
  | addSession id sessionId role => (m.addSessionToWorkspace id sessionId role).1
  | removeSession id sessionId => (m.removeSessionFromWorkspace id sessionId).1

def manager : System WorkspaceManager Operation where
  init := WorkspaceManager.new
  step := fun m op => some (op.apply m)

end

/-- The counter counts the workspaces, a name finds a workspace of that name, and
the name of every workspace finds one. -/
structure Coherent (m : WorkspaceManager) : Prop where
  total : m.totalWorkspaces = UInt64.ofNat m.workspaces.size
  found : forall name w, m.getWorkspaceByName name = some w -> w.name = name
  listed : forall id w, m.getWorkspace id = some w ->
    (m.getWorkspaceByName w.name).isSome = true

/-- The id of a new workspace is not stored, and a workspace that is deleted is the
only one of its name. -/
def Careful (m : WorkspaceManager) : Operation -> Prop
  | Operation.createWorkspace _ id _ _ => m.getWorkspace id = none
  | Operation.restoreWorkspace _ id _ _ _ => m.getWorkspace id = none
  | Operation.deleteWorkspace id =>
      forall w, m.getWorkspace id = some w ->
        forall id' w', m.getWorkspace id' = some w' -> w'.name = w.name -> id' = id
  | _ => True

/-!
# One step
-/

/-- The counter counts the workspaces, and the index has the name of each of them
and nothing else. -/
structure Indexed (m : WorkspaceManager) : Prop where
  total : m.totalWorkspaces = UInt64.ofNat m.workspaces.size
  stored : forall (name : String) (id : Uuid), m.nameIndex[name]? = some id ->
    exists w, m.workspaces[id]? = some w ∧ w.name = name
  named : forall (id : Uuid) (w : Workspace), m.workspaces[id]? = some w ->
    (m.nameIndex[w.name]?).isSome = true

variable {m : WorkspaceManager}

theorem Indexed.coherent (h : Indexed m) : Coherent m where
  total := h.total
  found := by
    intro name w hfound
    obtain ⟨id, hid, hw⟩ := Option.bind_eq_some_iff.mp hfound
    obtain ⟨w', hw', hname⟩ := h.stored name id hid
    have hsame : some w = some w' := hw.symm.trans hw'
    cases hsame
    exact hname
  listed := by
    intro id w hw
    obtain ⟨id', hid'⟩ := Option.isSome_iff_exists.mp (h.named id w hw)
    obtain ⟨w', hw', _⟩ := h.stored _ _ hid'
    unfold WorkspaceManager.getWorkspaceByName WorkspaceManager.getWorkspace
    rw [hid']
    exact Option.isSome_iff_exists.mpr ⟨w', hw'⟩

theorem indexed_new : Indexed WorkspaceManager.new where
  total := rfl
  stored := by
    intro name id hid
    have hempty : (∅ : Database String Uuid)[name]? = some id := hid
    rw [Std.ExtTreeMap.getElem?_empty] at hempty
    cases hempty
  named := by
    intro id w hw
    have hempty : (∅ : Database Uuid Workspace)[id]? = some w := hw
    rw [Std.ExtTreeMap.getElem?_empty] at hempty
    cases hempty

variable {db : Database Uuid Workspace} {id : Uuid} {w : Workspace}

theorem contains_stored (hw : db[id]? = some w) :
    db.contains id = true := by
  rw [Std.ExtTreeMap.contains_iff_mem, ← Std.ExtTreeMap.isSome_getElem?_iff_mem, hw]
  rfl

theorem size_erase_stored (hw : db[id]? = some w) :
    (db.erase id).size + 1 = db.size := by
  have hpos : db.size ≠ 0 := by
    intro hzero
    rw [Std.ExtTreeMap.eq_empty_iff_size_eq_zero.mpr hzero,
      Std.ExtTreeMap.getElem?_empty] at hw
    cases hw
  rw [Std.ExtTreeMap.size_erase, if_pos (contains_stored hw)]
  omega

theorem Indexed.put (h : Indexed m) (hnew : m.getWorkspace id = none)
    (w : Workspace) :
    Indexed (m.put id w.name w) where
  total := by
    unfold WorkspaceManager.put
    dsimp only
    have hfresh : id ∉ m.workspaces := by
      intro hmem
      have hnone : m.workspaces[id]? = none := hnew
      rw [← Std.ExtTreeMap.isSome_getElem?_iff_mem, hnone] at hmem
      cases hmem
    rw [Database.size_insert_fresh m.workspaces hfresh, h.total]
    simp
  stored := by
    intro name id' hid'
    have hget : (m.nameIndex.insert w.name id)[name]? = some id' := hid'
    show exists w', (m.workspaces.insert id w)[id']? = some w' ∧ w'.name = name
    rw [Database.get_insert] at hget ⊢
    by_cases hname : w.name = name
    · rw [if_pos hname] at hget
      cases hget
      exact ⟨w, if_pos rfl, hname⟩
    · rw [if_neg hname] at hget
      obtain ⟨w', hw', hname'⟩ := h.stored name id' hget
      refine ⟨w', ?_, hname'⟩
      rw [if_neg]
      · exact hw'
      · intro heq
        have hnone : m.workspaces[id]? = none := hnew
        rw [heq, hw'] at hnone
        cases hnone
  named := by
    intro id' w' hw'
    have hget : (m.workspaces.insert id w)[id']? = some w' := hw'
    show ((m.nameIndex.insert w.name id)[w'.name]?).isSome = true
    rw [Database.get_insert] at hget
    rw [Std.ExtTreeMap.getElem?_insert]
    by_cases hname : w.name = w'.name
    · rw [if_pos (Std.compare_eq_iff_eq.mpr hname)]
      rfl
    · rw [if_neg (fun heq => hname (Std.LawfulEqOrd.eq_of_compare heq))]
      by_cases hid : id = id'
      · rw [if_pos hid] at hget
        cases hget
        exact absurd rfl hname
      · rw [if_neg hid] at hget
        exact h.named id' w' hget

variable {w' : Workspace}

theorem Indexed.replace (h : Indexed m) (hw : m.workspaces[id]? = some w)
    (hname : w'.name = w.name) :
    Indexed { m with workspaces := m.workspaces.insert id w' } where
  total := by
    dsimp only
    rw [Std.ExtTreeMap.size_insert, if_pos (contains_stored hw)]
    exact h.total
  stored := by
    intro name id' hid'
    obtain ⟨v, hv, hvname⟩ := h.stored name id' hid'
    show exists v, (m.workspaces.insert id w')[id']? = some v ∧ v.name = name
    rw [Database.get_insert]
    by_cases hid : id = id'
    · subst hid
      rw [hw] at hv
      cases hv
      exact ⟨w', if_pos rfl, hname.trans hvname⟩
    · rw [if_neg hid]
      exact ⟨v, hv, hvname⟩
  named := by
    intro id' v hv
    have hget : (m.workspaces.insert id w')[id']? = some v := hv
    rw [Database.get_insert] at hget
    by_cases hid : id = id'
    · rw [if_pos hid] at hget
      cases hget
      rw [hname]
      exact h.named id w hw
    · rw [if_neg hid] at hget
      exact h.named id' v hget

theorem Indexed.delete (h : Indexed m)
    (honly : forall w, m.getWorkspace id = some w ->
      forall id' w', m.getWorkspace id' = some w' -> w'.name = w.name -> id' = id) :
    Indexed (m.deleteWorkspace id).1 := by
  unfold WorkspaceManager.deleteWorkspace
  cases hw : m.workspaces[id]? with
  | none =>
      exact h
  | some w =>
      have hother : forall id' w', (m.workspaces.erase id)[id']? = some w' ->
          id ≠ id' ∧ m.workspaces[id']? = some w' := by
        intro id' w' hget
        rw [Std.ExtTreeMap.getElem?_erase] at hget
        split at hget
        · cases hget
        · next hne => exact ⟨fun heq => hne (Std.compare_eq_iff_eq.mpr heq), hget⟩
      constructor
      · dsimp only
        rw [h.total, ← size_erase_stored hw]
        simp
      · intro name id' hid'
        have hget : (m.nameIndex.erase w.name)[name]? = some id' := hid'
        show exists v, (m.workspaces.erase id)[id']? = some v ∧ v.name = name
        rw [Std.ExtTreeMap.getElem?_erase] at hget
        split at hget
        · cases hget
        · next hname =>
          obtain ⟨v, hv, hvname⟩ := h.stored name id' hget
          refine ⟨v, ?_, hvname⟩
          rw [Std.ExtTreeMap.getElem?_erase, if_neg]
          · exact hv
          · intro heq
            rw [← Std.LawfulEqOrd.eq_of_compare heq, hw] at hv
            cases hv
            exact hname (Std.compare_eq_iff_eq.mpr hvname)
      · intro id' w' hw'
        obtain ⟨hne, hstored⟩ := hother id' w' hw'
        show ((m.nameIndex.erase w.name)[w'.name]?).isSome = true
        rw [Std.ExtTreeMap.getElem?_erase, if_neg]
        · exact h.named id' w' hstored
        · intro heq
          exact hne (honly w hw id' w' hstored
            (Std.LawfulEqOrd.eq_of_compare heq).symm).symm

theorem addSessions_name (sessions : List (Uuid × SessionRole)) (w : Workspace) :
    (sessions.foldl (fun w s => w.addSession s.1 s.2) w).name = w.name := by
  induction sessions generalizing w with
  | nil =>
      rfl
  | cons s rest ih =>
      rw [List.foldl_cons, ih]
      rfl

section

variable [UuidText]

variable {m : WorkspaceManager}

theorem Indexed.addSession (h : Indexed m) (id sessionId : Uuid)
    (role : SessionRole) :
    Indexed (m.addSessionToWorkspace id sessionId role).1 := by
  unfold WorkspaceManager.addSessionToWorkspace
  cases hw : m.getWorkspace id with
  | none => exact h
  | some w =>
      refine h.replace hw ?_
      rfl

theorem Indexed.removeSession (h : Indexed m) (id sessionId : Uuid) :
    Indexed (m.removeSessionFromWorkspace id sessionId).1 := by
  unfold WorkspaceManager.removeSessionFromWorkspace
  cases hw : m.getWorkspace id with
  | none => exact h
  | some w =>
      refine h.replace hw ?_
      rfl

theorem Indexed.apply (h : Indexed m) {op : Operation} (hcareful : Careful m op) :
    Indexed (op.apply m) := by
  cases op with
  | createWorkspace now id name description =>
      exact h.put hcareful (Workspace.new now id name description)
  | restoreWorkspace now id name description sessions =>
      have hname := addSessions_name sessions (Workspace.new now id name description)
      have hput := h.put hcareful (sessions.foldl (fun w s => w.addSession s.1 s.2)
        (Workspace.new now id name description))
      rw [hname] at hput
      exact hput
  | deleteWorkspace id =>
      exact h.delete hcareful
  | addSession id sessionId role =>
      exact h.addSession id sessionId role
  | removeSession id sessionId =>
      exact h.removeSession id sessionId

end

/-!
# Steps that lose a workspace
-/

theorem Indexed.put_stored (h : Indexed m) {old : Workspace}
    (hold : m.getWorkspace id = some old) (name : String) (w : Workspace) :
    ¬ Coherent (m.put id name w) := by
  intro hcoherent
  have htotal := hcoherent.total
  unfold WorkspaceManager.put at htotal
  dsimp only at htotal
  rw [Std.ExtTreeMap.size_insert, if_pos (contains_stored hold), h.total] at htotal
  simp at htotal

theorem not_coherent_delete {id' : Uuid} (hw : m.getWorkspace id = some w)
    (hw' : m.getWorkspace id' = some w') (hname : w'.name = w.name) (hne : id' ≠ id) :
    ¬ Coherent (m.deleteWorkspace id).1 := by
  intro hcoherent
  have hstored : m.workspaces[id]? = some w := hw
  unfold WorkspaceManager.deleteWorkspace at hcoherent
  rw [hstored] at hcoherent
  have hkept : (m.workspaces.erase id)[id']? = some w' := by
    rw [Std.ExtTreeMap.getElem?_erase, if_neg]
    · exact hw'
    · exact fun heq => hne (Std.LawfulEqOrd.eq_of_compare heq).symm
  have hlisted := hcoherent.listed id' w' hkept
  have hnone : (m.nameIndex.erase w.name)[w'.name]? = none := by
    rw [hname, Std.ExtTreeMap.getElem?_erase_self]
  unfold WorkspaceManager.getWorkspaceByName at hlisted
  dsimp only at hlisted
  rw [hnone] at hlisted
  cases hlisted

section

variable [UuidText]

variable {m : WorkspaceManager}

theorem Indexed.careful (h : Indexed m) {op : Operation}
    (hcoherent : Coherent (op.apply m)) :
    Careful m op := by
  cases op with
  | createWorkspace now id name description
  | restoreWorkspace now id name description sessions =>
      show m.getWorkspace id = none
      cases hw : m.getWorkspace id with
      | none => rfl
      | some old => exact absurd hcoherent (h.put_stored hw name _)
  | deleteWorkspace id =>
      intro w hw id' w' hw' hname
      by_contra hne
      exact not_coherent_delete hw hw' hname hne hcoherent
  | addSession id sessionId role | removeSession id sessionId => exact True.intro

/-!
# All runs
-/

theorem indexed_of_reachable (h : manager.Reachable Careful m) :
    Indexed m :=
  h.invariant indexed_new (fun _ _ _ hindexed hcareful hstep => by
    cases hstep
    exact hindexed.apply hcareful)

/-- Careful runs keep the manager coherent, and after one every other step ends
that. -/
theorem manager_coherent {m : WorkspaceManager} (h : manager.Reachable Careful m) :
    Coherent m ∧ forall op : Operation, Coherent (op.apply m) ↔ Careful m op := by
  have hindexed := indexed_of_reachable h
  refine ⟨hindexed.coherent, fun op => ⟨hindexed.careful, fun hcareful => ?_⟩⟩
  exact (hindexed.apply hcareful).coherent

end

section

attribute [local instance] hyphenatedText

def namesakes : WorkspaceManager :=
  (Operation.createWorkspace 0 2 "api" "").apply
    ((Operation.createWorkspace 0 1 "api" "").apply WorkspaceManager.new)

theorem namesakes_reachable : manager.Reachable Careful namesakes := by
  have hfirst : Careful WorkspaceManager.new
      (Operation.createWorkspace 0 1 "api" "") := by
    rfl
  have hsecond : Careful ((Operation.createWorkspace 0 1 "api" "").apply
      WorkspaceManager.new) (Operation.createWorkspace 0 2 "api" "") := by
    show WorkspaceManager.getWorkspace _ 2 = none
    rw [← Option.isNone_iff_eq_none]
    decide +kernel
  exact System.Reachable.step
    (System.Reachable.step System.Reachable.init hfirst rfl) hsecond rfl

theorem manager_coherent_namesakes :
    Coherent namesakes ∧
      Coherent ((Operation.addSession 1 7 SessionRole.primary).apply namesakes) := by
  obtain ⟨hcoherent, hsteps⟩ := manager_coherent namesakes_reachable
  exact ⟨hcoherent, (hsteps (Operation.addSession 1 7 SessionRole.primary)).mpr
    True.intro⟩

/-- The second of two namesakes takes the name from the first when it is deleted. -/
theorem deleted_namesake_unlisted :
    ¬ forall m, manager.Reachable System.Anything m -> Coherent m := by
  intro hall
  have hcoherent := hall ((Operation.deleteWorkspace 2).apply namesakes)
    (System.Reachable.step namesakes_reachable.anything True.intro rfl)
  have hstored : (((Operation.deleteWorkspace 2).apply namesakes).getWorkspace 1).map
      Workspace.name = some "api" := by
    decide +kernel
  obtain ⟨w, hw, hname⟩ := Option.map_eq_some_iff.mp hstored
  have hlisted := hcoherent.listed 1 w hw
  rw [hname] at hlisted
  revert hlisted
  decide +kernel

end

end Workspaces
end PostCortex

import PostCortex.Core.UuidText
import PostCortex.Storage.MessageStreams

/-!
# The messages a record is drawn from

`check_derived_from` of `services.rs`: every entry names a stored message of the
session.  Adding one to the greatest `u64` overflows.
-/

namespace PostCortex
namespace Memory
namespace DerivedFrom

open PostCortex.Core
open PostCortex.Numeric
open PostCortex.Storage

/-- The errors of the check among those of `SystemError`. -/
inductive SystemError where
  | internal (text : String)
  | invalidArgument (text : String)
  deriving DecidableEq, Repr

def namedSeq (entry : String) : Option Nat :=
  match seqOfContentId entry with
  | some seq => if entry.toList.contains '#' then none else some seq
  | none => none

def collectSeqs : List String -> Except SystemError (List Nat)
  | [] => Except.ok []
  | entry :: rest =>
      match namedSeq entry with
      | some seq => (collectSeqs rest).map (fun seqs => seq :: seqs)
      | none =>
          Except.error (SystemError.invalidArgument ("derived_from: '" ++ entry ++
            "' is not a message content id (message:<n>)"))

section

variable [UuidText]

def findMissing (sessionId : Uuid) (seqs : List Nat) (stored : List Message) :
    Except SystemError Unit :=
  match seqs.find? (fun seq => !(stored.map Message.seq).contains seq) with
  | some missing =>
      Except.error (SystemError.invalidArgument ("derived_from: message:" ++
        toString missing ++ " is not in session " ++ UuidText.toText sessionId))
  | none => Except.ok ()

def checkDerivedFrom (streams : MessageStreams) (sessionId : Uuid)
    (derivedFrom : List String) : Except Panic (Except SystemError Unit) :=
  if derivedFrom = [] then Except.ok (Except.ok ())
  else
    match collectSeqs derivedFrom with
    | Except.error e => Except.ok (Except.error e)
    | Except.ok seqs =>
        let first := seqs.min?.getD 0
        let last := seqs.max?.getD 0
        if last + 1 < u64Values then
          match streams.load sessionId first (last + 1) with
          | Except.error e => Except.ok (Except.error (SystemError.internal e))
          | Except.ok stored => Except.ok (findMissing sessionId seqs stored)
        else Except.error Panic.overflow

end

/-!
# What an entry names
-/

variable {seq : Nat}

theorem namedSeq_lt {entry : String} (h : namedSeq entry = some seq) :
    seq < u64Values := by
  unfold namedSeq at h
  split at h
  · next found hfound =>
    split at h
    · cases h
    · cases h
      exact seqOfContentId_lt hfound
  · cases h

theorem namedSeq_messageContentId (h : seq < u64Values) :
    namedSeq (messageContentId seq) = some seq := by
  have hhash : (messageContentId seq).toList.contains '#' = false := by
    rw [Bool.eq_false_iff, ne_eq, List.contains_iff_mem]
    exact hash_not_mem_messageContentId seq
  rw [namedSeq, seqOf_messageContentId h]
  dsimp only
  rw [hhash]
  rfl

theorem collectSeqs_spec (entries : List String) :
    (exists seqs, collectSeqs entries = Except.ok seqs ∧
      entries.map namedSeq = seqs.map some) ∨
    exists entry text, entry ∈ entries ∧ namedSeq entry = none ∧
      collectSeqs entries = Except.error (SystemError.invalidArgument text) := by
  induction entries with
  | nil => exact Or.inl ⟨[], rfl, rfl⟩
  | cons entry rest ih =>
      cases hnamed : namedSeq entry with
      | none =>
          right
          refine ⟨entry, "derived_from: '" ++ entry ++
            "' is not a message content id (message:<n>)", List.mem_cons_self, hnamed, ?_⟩
          rw [collectSeqs, hnamed]
      | some seq =>
          rcases ih with ⟨seqs, hok, hmap⟩ | ⟨bad, text, hmem, hnone, herror⟩
          · left
            refine ⟨seq :: seqs, ?_, ?_⟩
            · rw [collectSeqs, hnamed, hok]
              rfl
            · rw [List.map_cons, List.map_cons, hnamed, hmap]
          · right
            refine ⟨bad, text, List.mem_cons_of_mem _ hmem, hnone, ?_⟩
            rw [collectSeqs, hnamed, herror]
            rfl

variable {seqs : List Nat}

theorem seqs_between (h : seq ∈ seqs) :
    seqs.min?.getD 0 ≤ seq ∧ seq ≤ seqs.max?.getD 0 := by
  constructor
  · cases hmin : seqs.min? with
    | none =>
        rw [List.min?_eq_none_iff.mp hmin] at h
        cases h
    | some least => exact (List.min?_eq_some_iff.mp hmin).2 seq h
  · cases hmax : seqs.max? with
    | none =>
        rw [List.max?_eq_none_iff.mp hmax] at h
        cases h
    | some greatest => exact (List.max?_eq_some_iff.mp hmax).2 seq h

theorem greatest_mem (h : seqs ≠ []) : seqs.max?.getD 0 ∈ seqs := by
  cases hmax : seqs.max? with
  | none => exact absurd (List.max?_eq_none_iff.mp hmax) h
  | some greatest => exact (List.max?_eq_some_iff.mp hmax).1

/-!
# What the check accepts
-/

section

variable [UuidText] {streams : MessageStreams} {sessionId : Uuid}

def NamesStored (streams : MessageStreams) (sessionId : Uuid) (entry : String) : Prop :=
  exists m, streams.Stores sessionId m ∧ entry = messageContentId m.seq

/-- The check returns, with success or the refusal of an argument, and accepts exactly
the content ids of stored messages. -/
def Exact (streams : MessageStreams) (sessionId : Uuid) (derivedFrom : List String) :
    Prop :=
  exists result, checkDerivedFrom streams sessionId derivedFrom = Except.ok result ∧
    (result = Except.ok () ↔
      forall entry, entry ∈ derivedFrom -> NamesStored streams sessionId entry) ∧
    (result = Except.ok () ∨
      exists text, result = Except.error (SystemError.invalidArgument text))

theorem findMissing_spec (sessionId : Uuid) (seqs : List Nat) (stored : List Message) :
    (findMissing sessionId seqs stored = Except.ok () ↔
      forall seq, seq ∈ seqs -> exists m, m ∈ stored ∧ m.seq = seq) ∧
    (findMissing sessionId seqs stored = Except.ok () ∨
      exists text, findMissing sessionId seqs stored =
        Except.error (SystemError.invalidArgument text)) := by
  unfold findMissing
  cases hfind : seqs.find? (fun seq => !(stored.map Message.seq).contains seq) with
  | none =>
      refine ⟨⟨fun _ => ?_, fun _ => rfl⟩, Or.inl rfl⟩
      intro seq hseq
      have hcontains := List.find?_eq_none.mp hfind seq hseq
      rw [Bool.not_eq_true', Bool.not_eq_false, List.contains_iff_mem] at hcontains
      exact List.mem_map.mp hcontains
  | some missing =>
      refine ⟨⟨(fun h => by cases h), (fun hall => ?_)⟩, Or.inr ⟨_, rfl⟩⟩
      obtain ⟨m, hm, hseq⟩ := hall missing (List.mem_of_find?_eq_some hfind)
      have hmissing := List.find?_some hfind
      rw [Bool.not_eq_true', Bool.eq_false_iff, ne_eq, List.contains_iff_mem] at hmissing
      exact absurd (List.mem_map.mpr ⟨m, hm, hseq⟩) hmissing

variable {derivedFrom : List String}

theorem check_collected (hread : (streams.turns sessionId).isOk = true)
    (hempty : derivedFrom ≠ []) {seqs : List Nat}
    (hok : collectSeqs derivedFrom = Except.ok seqs) :
    (¬ seqs.max?.getD 0 + 1 < u64Values ∧
      checkDerivedFrom streams sessionId derivedFrom = Except.error Panic.overflow) ∨
    (seqs.max?.getD 0 + 1 < u64Values ∧
      exists result, checkDerivedFrom streams sessionId derivedFrom = Except.ok result ∧
        (result = Except.ok () ↔
          forall seq, seq ∈ seqs -> exists m, streams.Stores sessionId m ∧ m.seq = seq) ∧
        (result = Except.ok () ∨
          exists text, result = Except.error (SystemError.invalidArgument text))) := by
  by_cases hfits : seqs.max?.getD 0 + 1 < u64Values
  · right
    refine ⟨hfits, ?_⟩
    obtain ⟨stored, hload⟩ := streams.load_of_read hread (seqs.min?.getD 0)
      (seqs.max?.getD 0 + 1)
    have hspec := findMissing_spec sessionId seqs stored
    refine ⟨findMissing sessionId seqs stored, ?_, ?_, hspec.2⟩
    · rw [checkDerivedFrom, if_neg hempty, hok]
      dsimp only
      rw [if_pos hfits, hload]
    · rw [hspec.1]
      refine forall_congr' (fun seq => forall_congr' (fun hseq => exists_congr (fun m => ?_)))
      rw [MessageStreams.mem_load hload]
      have hbetween := seqs_between hseq
      constructor
      · exact fun h => ⟨h.1.1, h.2⟩
      · rintro ⟨hm, rfl⟩
        exact ⟨⟨hm, hbetween.1, Nat.lt_succ_of_le hbetween.2⟩, rfl⟩
  · left
    refine ⟨hfits, ?_⟩
    rw [checkDerivedFrom, if_neg hempty, hok]
    dsimp only
    rw [if_neg hfits]

omit [UuidText] in
theorem namesStored_iff {entry : String} :
    NamesStored streams sessionId entry ↔
      exists seq, namedSeq entry = some seq ∧ entry = messageContentId seq ∧
        exists m, streams.Stores sessionId m ∧ m.seq = seq := by
  constructor
  · rintro ⟨m, hm, rfl⟩
    exact ⟨m.seq, namedSeq_messageContentId hm.fits, rfl, m, hm, rfl⟩
  · rintro ⟨seq, _, hentry, m, hm, rfl⟩
    exact ⟨m, hm, hentry⟩

theorem exact_nil : Exact streams sessionId [] := by
  refine ⟨Except.ok (), rfl, ⟨fun _ => ?_, fun _ => rfl⟩, Or.inl rfl⟩
  intro entry hentry
  cases hentry

theorem exact_refused {bad text : String} (hmem : bad ∈ derivedFrom)
    (hnone : namedSeq bad = none) (herror : collectSeqs derivedFrom =
      Except.error (SystemError.invalidArgument text)) :
    Exact streams sessionId derivedFrom := by
  have hcheck : checkDerivedFrom streams sessionId derivedFrom =
      Except.ok (Except.error (SystemError.invalidArgument text)) := by
    rw [checkDerivedFrom, if_neg (List.ne_nil_of_mem hmem), herror]
  refine ⟨_, hcheck, ⟨(fun h => by cases h), (fun hall => ?_)⟩, Or.inr ⟨text, rfl⟩⟩
  obtain ⟨seq, hseq, _⟩ := namesStored_iff.mp (hall bad hmem)
  rw [hnone] at hseq
  cases hseq

/-- The check is exact unless all entries name positions and one is the greatest
`u64`, or all name stored messages and one is not written as its content id. -/
theorem check_exact_iff (hread : (streams.turns sessionId).isOk = true)
    (derivedFrom : List String) :
    Exact streams sessionId derivedFrom ↔
      ((forall entry, entry ∈ derivedFrom -> (namedSeq entry).isSome = true) ->
        (forall entry, entry ∈ derivedFrom -> namedSeq entry ≠ some (u64Values - 1)) ∧
        ((forall entry, entry ∈ derivedFrom -> forall seq, namedSeq entry = some seq ->
            exists m, streams.Stores sessionId m ∧ m.seq = seq) ->
          forall entry, entry ∈ derivedFrom -> forall seq, namedSeq entry = some seq ->
            entry = messageContentId seq)) := by
  by_cases hempty : derivedFrom = []
  · refine iff_of_true (hempty ▸ exact_nil) (fun _ => ⟨?_, ?_⟩)
    · intro entry hentry
      exact absurd hempty (List.ne_nil_of_mem hentry)
    · intro _ entry hentry
      exact absurd hempty (List.ne_nil_of_mem hentry)
  rcases collectSeqs_spec derivedFrom with
    ⟨seqs, hok, hmap⟩ | ⟨bad, text, hmem, hnone, herror⟩
  · have hseqs : forall seq, seq ∈ seqs ↔
        exists entry, entry ∈ derivedFrom ∧ namedSeq entry = some seq := by
      intro seq
      have hmem : some seq ∈ seqs.map some ↔ some seq ∈ derivedFrom.map namedSeq := by
        rw [hmap]
      rwa [List.mem_map_of_injective (Option.some_injective Nat), List.mem_map] at hmem
    have hall : forall entry, entry ∈ derivedFrom ->
        exists seq, namedSeq entry = some seq ∧ seq ∈ seqs := by
      intro entry hentry
      have hsome : namedSeq entry ∈ seqs.map some := by
        rw [← hmap]
        exact List.mem_map_of_mem hentry
      obtain ⟨seq, hseq, heq⟩ := List.mem_map.mp hsome
      exact ⟨seq, heq.symm, hseq⟩
    have hnamed : forall entry, entry ∈ derivedFrom ->
        (namedSeq entry).isSome = true := by
      intro entry hentry
      obtain ⟨seq, hseq, _⟩ := hall entry hentry
      rw [hseq]
      rfl
    have hnonempty : seqs ≠ [] := by
      rintro rfl
      exact hempty (List.map_eq_nil_iff.mp hmap)
    rcases check_collected hread hempty hok with
      ⟨hfits, hcheck⟩ | ⟨hfits, result, hcheck, hresult, hshape⟩
    · -- The greatest position is the greatest `u64`.
      refine iff_of_false ?_ ?_
      · rintro ⟨other, hother, _⟩
        rw [hcheck] at hother
        cases hother
      · intro hcondition
        obtain ⟨entry, hentry, hgreatest⟩ := (hseqs _).mp (greatest_mem hnonempty)
        refine (hcondition hnamed).1 entry hentry ?_
        have hlt := namedSeq_lt hgreatest
        rw [hgreatest]
        exact congrArg some (by omega)
    · have hexact : Exact streams sessionId derivedFrom ↔
          ((forall seq, seq ∈ seqs ->
              exists m, streams.Stores sessionId m ∧ m.seq = seq) ↔
            forall entry, entry ∈ derivedFrom ->
              NamesStored streams sessionId entry) := by
        rw [← hresult]
        constructor
        · rintro ⟨other, hother, hiff, _⟩
          rw [hcheck] at hother
          cases hother
          exact hiff
        · exact fun hiff => ⟨result, hcheck, hiff, hshape⟩
      rw [hexact]
      constructor
      · intro hiff _
        refine ⟨?_, ?_⟩
        · intro entry hentry htop
          have hbetween := seqs_between ((hseqs _).mpr ⟨entry, hentry, htop⟩)
          omega
        · intro hstored entry hentry seq hseq
          have hnames := hiff.mp (fun seq' hseq' => ?_) entry hentry
          · obtain ⟨other, hother, htext, _⟩ := namesStored_iff.mp hnames
            rw [hseq] at hother
            cases hother
            exact htext
          · obtain ⟨entry', hentry', hnamed'⟩ := (hseqs seq').mp hseq'
            exact hstored entry' hentry' seq' hnamed'
      · intro hcondition
        constructor
        · intro hstored entry hentry
          obtain ⟨seq, hseq, hmem⟩ := hall entry hentry
          refine namesStored_iff.mpr ⟨seq, hseq, ?_, hstored seq hmem⟩
          refine (hcondition hnamed).2 ?_ entry hentry seq hseq
          intro entry' hentry' seq' hseq'
          exact hstored seq' ((hseqs seq').mpr ⟨entry', hentry', hseq'⟩)
        · intro hnames seq hmem
          obtain ⟨entry, hentry, hseq⟩ := (hseqs seq).mp hmem
          obtain ⟨other, hother, _, hstored⟩ := namesStored_iff.mp (hnames entry hentry)
          rw [hseq] at hother
          cases hother
          exact hstored
  · refine iff_of_true (exact_refused hmem hnone herror) (fun hnamed => ?_)
    have hbad := hnamed bad hmem
    rw [hnone] at hbad
    cases hbad

end

section

attribute [local instance] hyphenatedText

def turnSeven : Message where
  sessionId := 1
  seq := 7
  turnId := "turn"
  role := MessageRole.user
  author := none
  sourceSession := none
  timestamp := 0
  text := "text"
  tools := []
  files := []

def oneTurn : MessageStreams where
  turns := fun id => Except.ok (if id = 1 then [turnSeven] else [])
  own := by
    intro s list hlist m hm
    cases hlist
    split at hm
    · next hs =>
      rw [List.mem_singleton.mp hm, hs]
      rfl
    · cases hm
  ordered := by
    intro s list hlist
    cases hlist
    split
    · exact List.pairwise_singleton _ _
    · exact List.Pairwise.nil
  fits := by
    intro s list hlist m hm
    cases hlist
    split at hm
    · rw [List.mem_singleton.mp hm]
      decide
    · cases hm

theorem one_turn_checked : Exact oneTurn 1 ["message:7"] := by
  refine (check_exact_iff rfl ["message:7"]).mpr (fun _ => ⟨?_, fun _ => ?_⟩)
  · intro entry hentry
    rw [List.mem_singleton.mp hentry]
    decide +kernel
  · intro entry hentry seq hseq
    rw [List.mem_singleton.mp hentry] at hseq ⊢
    have hseven : namedSeq "message:7" = some 7 := by decide +kernel
    rw [hseven] at hseq
    cases hseq
    rfl

/-- A position with a leading zero is accepted, and the greatest `u64` is not refused. -/
theorem padded_entry_accepted :
    (checkDerivedFrom oneTurn 1 ["message:007"] = Except.ok (Except.ok ()) ∧
      ¬ NamesStored oneTurn 1 "message:007" ∧ ¬ Exact oneTurn 1 ["message:007"]) ∧
    checkDerivedFrom oneTurn 1 ["message:18446744073709551615"] =
      Except.error Panic.overflow ∧
    ¬ Exact oneTurn 1 ["message:18446744073709551615"] := by
  have hok : checkDerivedFrom oneTurn 1 ["message:007"] = Except.ok (Except.ok ()) := by
    rfl
  have hpanic : checkDerivedFrom oneTurn 1 ["message:18446744073709551615"] =
      Except.error Panic.overflow := by
    rfl
  have hnames : ¬ NamesStored oneTurn 1 "message:007" := by
    intro h
    obtain ⟨seq, hseq, htext, _⟩ := namesStored_iff.mp h
    have hseven : namedSeq "message:007" = some 7 := by decide +kernel
    rw [hseven] at hseq
    cases hseq
    exact absurd htext (by decide +kernel)
  refine ⟨⟨hok, hnames, ?_⟩, hpanic, ?_⟩
  · rintro ⟨result, hresult, hiff, _⟩
    rw [hok] at hresult
    cases hresult
    exact hnames (hiff.mp rfl "message:007" List.mem_cons_self)
  · rintro ⟨result, hresult, _⟩
    rw [hpanic] at hresult
    cases hresult

end

end DerivedFrom
end Memory
end PostCortex

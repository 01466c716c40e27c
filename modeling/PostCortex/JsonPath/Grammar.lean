import PostCortex.JsonPath.Syntax
import PostCortex.Parsing.Numerals

/-!
# Grammar of paths

The allowed syntax, over the numbers it is written with and what may stand for a bound
that is left out, and the texts of paths.
-/

namespace PostCortex
namespace JsonPath

open PostCortex.Numeric
open PostCortex.Parsing

def isNameChar (c : Char) : Bool :=
  c.isAlphanum || c == '_'

section

variable (number : List Char -> Isize -> Prop) (blank : List Char -> Prop)

inductive BoundText : List Char -> Option Isize -> Prop where
  | absent {cs : List Char} : blank cs -> BoundText cs none
  | present {cs : List Char} {i : Isize} : number cs i -> BoundText cs (some i)

/-- What stands between brackets, the wildcard apart. -/
inductive ContentText : List Char -> PathSegment -> Prop where
  | index {cs : List Char} {i : Isize} : number cs i -> ContentText cs (PathSegment.index i)
  | slice {first last : List Char} {start stop : Option Isize} :
      BoundText number blank first start -> BoundText number blank last stop ->
        ContentText (first ++ ':' :: last) (PathSegment.slice start stop)
  | union {first rest : List Char} {i : Isize} {indices : List Isize} :
      number first i -> ItemsText ',' number rest indices ->
        ContentText (first ++ ',' :: rest) (PathSegment.union (i :: indices))

inductive SegmentText : List Char -> PathSegment -> Prop where
  | field {name : List Char} :
      name ≠ [] -> (forall c, c ∈ name -> isNameChar c = true) ->
        SegmentText ('.' :: name) (PathSegment.field (String.ofList name))
  | wildcard : SegmentText ['.', '*'] PathSegment.wildcard
  | brackets : SegmentText ['[', '*', ']'] PathSegment.wildcard
  | content {cs : List Char} {segment : PathSegment} :
      ContentText number blank cs segment -> SegmentText ('[' :: (cs ++ [']'])) segment

inductive SegmentsText : List Char -> List PathSegment -> Prop where
  | none : SegmentsText [] []
  | more {piece rest : List Char} {segment : PathSegment} {segments : List PathSegment} :
      SegmentText number blank piece segment -> SegmentsText rest segments ->
        SegmentsText (piece ++ rest) (segment :: segments)

def PathText (text : String) (path : Path) : Prop :=
  exists rest, text.toList = '$' :: rest ∧ SegmentsText number blank rest path.segments

end

abbrev Documented (text : String) (path : Path) : Prop :=
  PathText NumberText (fun cs => cs = []) text path

def isWhitespace (c : Char) : Bool :=
  (9 ≤ c.toNat && c.toNat ≤ 13) || c.toNat == 32 || c.toNat == 0x85 ||
    c.toNat == 0xa0 || c.toNat == 0x1680 ||
    (0x2000 ≤ c.toNat && c.toNat ≤ 0x200a) || c.toNat == 0x2028 ||
    c.toNat == 0x2029 || c.toNat == 0x202f || c.toNat == 0x205f || c.toNat == 0x3000

abbrev Extended (text : String) (path : Path) : Prop :=
  PathText (Padded isWhitespace SignedText) (Blank isWhitespace) text path

section

variable {number number' : List Char -> Isize -> Prop} {blank blank' : List Char -> Prop}

variable {cs : List Char}

theorem BoundText.mono (hnumber : forall cs i, number cs i -> number' cs i)
    (hblank : forall cs, blank cs -> blank' cs) {bound : Option Isize}
    (h : BoundText number blank cs bound) : BoundText number' blank' cs bound := by
  cases h with
  | absent h => exact BoundText.absent (hblank _ h)
  | present h => exact BoundText.present (hnumber _ _ h)

theorem itemsText_mono (hnumber : forall cs i, number cs i -> number' cs i)
    {indices : List Isize} (h : ItemsText ',' number cs indices) :
    ItemsText ',' number' cs indices := by
  induction h with
  | last h => exact ItemsText.last (hnumber _ _ h)
  | more h _ ih => exact ItemsText.more (hnumber _ _ h) ih

theorem SegmentText.mono (hnumber : forall cs i, number cs i -> number' cs i)
    (hblank : forall cs, blank cs -> blank' cs) {segment : PathSegment}
    (h : SegmentText number blank cs segment) :
    SegmentText number' blank' cs segment := by
  cases h with
  | field hname hchars => exact SegmentText.field hname hchars
  | wildcard => exact SegmentText.wildcard
  | brackets => exact SegmentText.brackets
  | content h =>
      apply SegmentText.content
      cases h with
      | index h => exact ContentText.index (hnumber _ _ h)
      | slice hfirst hlast =>
          exact ContentText.slice (hfirst.mono hnumber hblank) (hlast.mono hnumber hblank)
      | union hfirst hrest =>
          exact ContentText.union (hnumber _ _ hfirst) (itemsText_mono hnumber hrest)

theorem PathText.mono (hnumber : forall cs i, number cs i -> number' cs i)
    (hblank : forall cs, blank cs -> blank' cs) {text : String} {path : Path}
    (h : PathText number blank text path) : PathText number' blank' text path := by
  obtain ⟨rest, htext, hrest⟩ := h
  refine ⟨rest, htext, ?_⟩
  generalize path.segments = segments at hrest
  clear htext
  induction hrest with
  | none => exact SegmentsText.none
  | more h _ ih => exact SegmentsText.more (h.mono hnumber hblank) ih

end

theorem Documented.extended {text : String} {path : Path} (h : Documented text path) :
    Extended text path := by
  apply PathText.mono _ _ h
  · intro cs i hnumber
    exact ⟨[], cs, [], by simp, fun c hc => absurd hc List.not_mem_nil,
      fun c hc => absurd hc List.not_mem_nil, SignedText.number hnumber⟩
  · rintro _ rfl c hc
    exact absurd hc List.not_mem_nil

/-!
# Texts of paths
-/

def PathSegment.WellFormed : PathSegment -> Prop
  | PathSegment.field name =>
      name.toList ≠ [] ∧ forall c, c ∈ name.toList -> isNameChar c = true
  | PathSegment.union indices => 2 ≤ indices.length
  | _ => True

/-- A path with the names and the unions that the syntax can express. -/
structure WellFormedPath where
  path : Path
  wellFormed : forall segment, segment ∈ path.segments -> segment.WellFormed

def boundText : Option Isize -> List Char
  | none => []
  | some i => numberText i

def indicesText : List Isize -> List Char
  | [] => []
  | [i] => numberText i
  | i :: indices => numberText i ++ ',' :: indicesText indices

def PathSegment.text : PathSegment -> List Char
  | PathSegment.field name => '.' :: name.toList
  | PathSegment.index i => '[' :: (numberText i ++ [']'])
  | PathSegment.slice start stop => '[' :: (boundText start ++ ':' :: boundText stop ++ [']'])
  | PathSegment.wildcard => ['[', '*', ']']
  | PathSegment.union indices => '[' :: (indicesText indices ++ [']'])

def WellFormedPath.text (p : WellFormedPath) : String :=
  String.ofList ('$' :: p.path.segments.flatMap PathSegment.text)

theorem boundText_spec (bound : Option Isize) :
    BoundText NumberText (fun cs => cs = []) (boundText bound) bound := by
  cases bound with
  | none => exact BoundText.absent rfl
  | some i => exact BoundText.present (numberText_spec i)

theorem indicesText_spec (i : Isize) (indices : List Isize) :
    ItemsText ',' NumberText (indicesText (i :: indices)) (i :: indices) := by
  induction indices generalizing i with
  | nil => exact ItemsText.last (numberText_spec i)
  | cons j indices ih => exact ItemsText.more (numberText_spec i) (ih j)

theorem PathSegment.text_spec {segment : PathSegment} (h : segment.WellFormed) :
    SegmentText NumberText (fun cs => cs = []) segment.text segment := by
  cases segment with
  | field name =>
      have hfield := @SegmentText.field NumberText (fun cs => cs = []) _ h.1 h.2
      rwa [String.ofList_toList] at hfield
  | index i => exact SegmentText.content (ContentText.index (numberText_spec i))
  | slice start stop =>
      exact SegmentText.content
        (ContentText.slice (boundText_spec start) (boundText_spec stop))
  | wildcard => exact SegmentText.brackets
  | union indices =>
      have hlength : 2 ≤ indices.length := h
      cases indices with
      | nil => exact absurd hlength (Nat.not_succ_le_zero 1)
      | cons i indices =>
          cases indices with
          | nil => exact absurd hlength (Nat.not_succ_le_self 1)
          | cons j indices =>
              exact SegmentText.content
                (ContentText.union (numberText_spec i) (indicesText_spec j indices))

theorem WellFormedPath.documented (p : WellFormedPath) : Documented p.text p.path := by
  refine ⟨p.path.segments.flatMap PathSegment.text, String.toList_ofList, ?_⟩
  have hsegments := p.wellFormed
  generalize p.path.segments = segments at hsegments
  induction segments with
  | nil => exact SegmentsText.none
  | cons segment segments ih =>
      rw [List.flatMap_cons]
      apply SegmentsText.more
      · exact PathSegment.text_spec (hsegments segment List.mem_cons_self)
      · exact ih (fun s hs => hsegments s (List.mem_cons_of_mem segment hs))

end JsonPath
end PostCortex

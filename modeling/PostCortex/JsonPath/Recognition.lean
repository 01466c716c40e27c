import PostCortex.JsonPath.Parsing

/-!
# What the parser accepts

The parser reads its input byte by byte, and never stops inside a character.  It
accepts the texts of the extended syntax, and gives back the paths they are written
for.
-/

namespace PostCortex
namespace JsonPath

open PostCortex.KeyValue
open PostCortex.Numeric
open PostCortex.Parsing

abbrev LooseNumber : List Char -> Isize -> Prop :=
  Padded isWhitespace SignedText

abbrev LooseContent : List Char -> PathSegment -> Prop :=
  ContentText LooseNumber (Blank isWhitespace)

abbrev LooseSegment : List Char -> PathSegment -> Prop :=
  SegmentText LooseNumber (Blank isWhitespace)

/-!
# Characters between brackets
-/

def isNumberChar (c : Char) : Bool :=
  c.isDigit || c == '-' || c == '+' || isWhitespace c

def isContentChar (c : Char) : Bool :=
  isNumberChar c || c == ':' || c == ','

variable {c : Char}

theorem isWhitespace_eq_false (hlow : 32 < c.toNat) (hhigh : c.toNat < 127) :
    isWhitespace c = false := by
  simp only [isWhitespace, Bool.or_eq_false_iff, Bool.and_eq_false_iff,
    decide_eq_false_iff_not, beq_eq_false_iff_ne]
  omega

variable {i : Isize}

theorem signedText_chars {text : List Char} (h : SignedText text i) :
    forall c, c ∈ text -> isWhitespace c = false := by
  intro c hc
  rcases h.chars.2 c hc with hdigit | rfl | rfl
  · have hbounds : 48 ≤ c.toNat ∧ c.toNat ≤ 57 := Char.isDigit_iff_toNat.mp hdigit
    exact isWhitespace_eq_false (by omega) (by omega)
  · rfl
  · rfl

variable {cs : List Char}

theorem looseNumber_iff :
    LooseNumber cs i ↔ SignedText (trimBy isWhitespace cs) i :=
  padded_iff (fun _ _ h => signedText_chars h)

theorem looseNumber_chars (h : LooseNumber cs i) :
    forall c, c ∈ cs -> isNumberChar c = true := by
  obtain ⟨before, text, after, rfl, hbefore, hafter, htext⟩ := h
  intro c hc
  rw [List.mem_append, List.mem_append] at hc
  rcases hc with (hc | hc) | hc
  · simp [isNumberChar, hbefore c hc]
  · rcases htext.chars.2 c hc with hdigit | hsign | hsign
    · simp [isNumberChar, hdigit]
    · simp [isNumberChar, hsign]
    · simp [isNumberChar, hsign]
  · simp [isNumberChar, hafter c hc]

variable {bound : Option Isize}

theorem boundText_chars (h : BoundText LooseNumber (Blank isWhitespace) cs bound) :
    forall c, c ∈ cs -> isNumberChar c = true := by
  intro c hc
  cases h with
  | absent h => simp [isNumberChar, h c hc]
  | present h => exact looseNumber_chars h c hc

variable {d : Char}

theorem notMem_number (h : forall c, c ∈ cs -> isNumberChar c = true)
    (hd : isNumberChar d = false) :
    d ∉ cs := by
  intro hmem
  rw [h d hmem] at hd
  cases hd

variable {indices : List Isize}

theorem itemsText_chars (h : ItemsText ',' LooseNumber cs indices) :
    forall c, c ∈ cs -> isNumberChar c = true ∨ c = ',' := by
  induction h with
  | last h => exact fun c hc => Or.inl (looseNumber_chars h c hc)
  | more h _ ih =>
      intro c hc
      rcases List.mem_append.mp hc with hc | hc
      · exact Or.inl (looseNumber_chars h c hc)
      · rcases List.mem_cons.mp hc with rfl | hc
        · exact Or.inr rfl
        · exact ih c hc

variable {segment : PathSegment}

theorem contentText_chars (h : LooseContent cs segment) :
    forall c, c ∈ cs -> isContentChar c = true := by
  intro c hc
  cases h with
  | index h => simp [isContentChar, looseNumber_chars h c hc]
  | slice hfirst hlast =>
      rcases List.mem_append.mp hc with hc | hc
      · simp [isContentChar, boundText_chars hfirst c hc]
      · rcases List.mem_cons.mp hc with rfl | hc
        · rfl
        · simp [isContentChar, boundText_chars hlast c hc]
  | union hfirst hrest =>
      rcases itemsText_chars (ItemsText.more hfirst hrest) c hc with hnumber | rfl
      · simp [isContentChar, hnumber]
      · rfl

theorem contentText_notMem (h : LooseContent cs segment)
    (hd : isContentChar d = false) : d ∉ cs := by
  intro hmem
  rw [contentText_chars h d hmem] at hd
  cases hd

/-!
# Brackets
-/

variable {offset : Nat}

theorem parseInt_eq_ok :
    parseInt offset cs = Except.ok i ↔ SignedText cs i := by
  rw [← parseIsize_eq_some, parseInt]
  cases parseIsize cs with
  | none | some j => simp

theorem parseBound_eq_ok :
    parseBound offset cs = Except.ok bound ↔
      BoundText LooseNumber (Blank isWhitespace) cs bound := by
  unfold parseBound
  constructor
  · intro h
    split at h
    · next hblank =>
      cases h
      exact BoundText.absent (trimBy_eq_nil.mp hblank)
    · cases hint : parseInt offset (trimBy isWhitespace cs) with
      | error e =>
          rw [hint] at h
          cases h
      | ok i =>
          rw [hint] at h
          cases h
          exact BoundText.present (looseNumber_iff.mpr (parseInt_eq_ok.mp hint))
  · intro h
    cases h with
    | absent hblank => rw [if_pos (trimBy_eq_nil.mpr hblank)]
    | present hnumber =>
        have hsigned := looseNumber_iff.mp hnumber
        rw [if_neg hsigned.chars.1, parseInt_eq_ok.mpr hsigned]
        rfl

theorem mapM_eq_ok {item result error : Type} {f : item -> Except error result}
    {xs : List item} {ys : List result} :
    xs.mapM f = Except.ok ys ↔ List.Forall₂ (fun x y => f x = Except.ok y) xs ys := by
  induction xs generalizing ys with
  | nil =>
      rw [List.forall₂_nil_left_iff]
      constructor
      · intro h
        cases h
        rfl
      · rintro rfl
        rfl
  | cons x xs ih =>
      rw [List.mapM_cons, List.forall₂_cons_left_iff]
      constructor
      · intro h
        cases hx : f x with
        | error e =>
            rw [hx] at h
            cases h
        | ok y =>
            cases hxs : xs.mapM f with
            | error e =>
                rw [hx, hxs] at h
                cases h
            | ok rest =>
                rw [hx, hxs] at h
                cases h
                exact ⟨y, rest, rfl, ih.mp hxs, rfl⟩
      · rintro ⟨y, rest, hx, hrest, rfl⟩
        rw [hx, ih.mpr hrest]
        rfl

theorem indices_eq_ok :
    ((trimBy isWhitespace cs).splitOn ',').mapM
        (fun p => parseInt offset (trimBy isWhitespace p)) = Except.ok indices ↔
      ItemsText ',' LooseNumber cs indices := by
  have hcomma : forall cs i, LooseNumber cs i -> ',' ∉ cs :=
    fun cs i h => notMem_number (looseNumber_chars h) rfl
  have hparsed : forall parts : List (List Char),
      List.Forall₂ (fun p i => parseInt offset (trimBy isWhitespace p) = Except.ok i)
          parts indices ↔
        List.Forall₂ SignedText (parts.map (trimBy isWhitespace)) indices := by
    intro parts
    rw [List.forall₂_map_left_iff]
    simp only [parseInt_eq_ok]
  have hloose : forall parts : List (List Char),
      List.Forall₂ LooseNumber parts indices ↔
        List.Forall₂ SignedText (parts.map (trimBy isWhitespace)) indices := by
    intro parts
    rw [List.forall₂_map_left_iff]
    exact ⟨fun h => h.imp (fun _ _ => looseNumber_iff.mp),
      fun h => h.imp (fun _ _ => looseNumber_iff.mpr)⟩
  rw [mapM_eq_ok, hparsed, splitOn_trimBy (by rfl), itemsText_iff hcomma, hloose]

variable {first last : List Char}

theorem bounds_split (h : (trimBy isWhitespace cs).splitOn ':' = [first, last]) :
    exists first' last', cs = first' ++ ':' :: last' ∧
      trimBy isWhitespace first' = trimBy isWhitespace first ∧
      trimBy isWhitespace last' = trimBy isWhitespace last := by
  have hparts := @splitOn_trimBy isWhitespace ':' rfl cs
  have hwhole : [':'].intercalate (cs.splitOn ':') = cs := List.intercalate_splitOn ':'
  rw [h] at hparts
  have hlength : (cs.splitOn ':').length = 2 := by
    simpa using (congrArg List.length hparts).symm
  obtain ⟨first', last', hsplit⟩ := List.length_eq_two.mp hlength
  rw [hsplit] at hparts hwhole
  simp only [List.map_cons, List.map_nil, List.cons.injEq, and_true] at hparts
  refine ⟨first', last', ?_, hparts.1.symm, hparts.2.symm⟩
  rw [← hwhole, List.intercalate_cons_cons, List.intercalate_singleton]
  simp

theorem parseBound_congr {cs' : List Char}
    (h : trimBy isWhitespace cs = trimBy isWhitespace cs') :
    parseBound offset cs = parseBound offset cs' := by
  rw [parseBound, parseBound, h]

theorem not_call {cs : List Char} (h : ')' ∉ cs) : ¬ ['(', ')'] <:+ cs := by
  intro hsuffix
  exact h (hsuffix.subset (List.mem_cons_of_mem _ List.mem_cons_self))

theorem parseBracketContent_sound
    (h : parseBracketContent offset (String.ofList (trimBy isWhitespace cs)) =
      Except.ok segment) : LooseContent cs segment := by
  unfold parseBracketContent at h
  rw [String.toList_ofList, trimBy_twice] at h
  dsimp only at h
  split at h
  · cases h
  · split at h
    · split at h
      · next first last hsplit =>
        obtain ⟨first', last', rfl, hfirst, hlast⟩ := bounds_split hsplit
        cases hstart : parseBound offset first with
        | error e =>
            rw [hstart] at h
            cases h
        | ok start =>
            cases hstop : parseBound offset last with
            | error e =>
                rw [hstart, hstop] at h
                cases h
            | ok stop =>
                rw [hstart, hstop] at h
                cases h
                rw [← parseBound_congr hfirst] at hstart
                rw [← parseBound_congr hlast] at hstop
                exact ContentText.slice (parseBound_eq_ok.mp hstart)
                  (parseBound_eq_ok.mp hstop)
      · cases h
    · split at h
      · next hcomma =>
        cases hindices : ((trimBy isWhitespace cs).splitOn ',').mapM
            (fun p => parseInt offset (trimBy isWhitespace p)) with
        | error e =>
            rw [hindices] at h
            cases h
        | ok indices =>
            rw [hindices] at h
            cases h
            have hmem : ',' ∈ cs := (mem_trimBy rfl).mp hcomma
            cases indices_eq_ok.mp hindices with
            | last hnumber =>
                exact absurd hmem (notMem_number (looseNumber_chars hnumber) rfl)
            | more hfirst hrest => exact ContentText.union hfirst hrest
      · cases hint : parseInt offset (trimBy isWhitespace cs) with
        | error e =>
            rw [hint] at h
            cases h
        | ok i =>
            rw [hint] at h
            cases h
            exact ContentText.index (looseNumber_iff.mpr (parseInt_eq_ok.mp hint))

theorem bounds_join (hfirst : ':' ∉ first) (hlast : ':' ∉ last) :
    exists first' last',
      (trimBy isWhitespace (first ++ ':' :: last)).splitOn ':' = [first', last'] ∧
        trimBy isWhitespace first' = trimBy isWhitespace first ∧
        trimBy isWhitespace last' = trimBy isWhitespace last := by
  have hparts := @splitOn_trimBy isWhitespace ':' rfl (first ++ ':' :: last)
  rw [List.splitOn_append_cons_self_of_not_mem hfirst,
    List.splitOn_eq_singleton hlast] at hparts
  have hlength : ((trimBy isWhitespace (first ++ ':' :: last)).splitOn ':').length = 2 := by
    simpa using congrArg List.length hparts
  obtain ⟨first', last', hsplit⟩ := List.length_eq_two.mp hlength
  rw [hsplit] at hparts
  simp only [List.map_cons, List.map_nil, List.cons.injEq, and_true] at hparts
  exact ⟨first', last', hsplit, hparts.1, hparts.2⟩

theorem parseBracketContent_complete (offset : Nat) (h : LooseContent cs segment) :
    parseBracketContent offset (String.ofList (trimBy isWhitespace cs)) =
      Except.ok segment := by
  have hclosing : ')' ∉ trimBy isWhitespace cs :=
    fun hmem => contentText_notMem h rfl ((mem_trimBy rfl).mp hmem)
  unfold parseBracketContent
  rw [String.toList_ofList, trimBy_twice]
  dsimp only
  rw [if_neg (not_call hclosing)]
  cases h with
  | index hnumber =>
      have hnot : forall d, isNumberChar d = false -> isWhitespace d = false ->
          d ∉ trimBy isWhitespace cs := by
        intro d hd hspace hmem
        exact notMem_number (looseNumber_chars hnumber) hd ((mem_trimBy hspace).mp hmem)
      rw [if_neg (hnot ':' rfl rfl), if_neg (hnot ',' rfl rfl),
        parseInt_eq_ok.mpr (looseNumber_iff.mp hnumber)]
      rfl
  | slice hfirst hlast =>
      obtain ⟨first', last', hsplit, hfirst', hlast'⟩ :=
        bounds_join (notMem_number (boundText_chars hfirst) rfl)
          (notMem_number (boundText_chars hlast) rfl)
      have hcolon : forall first last : List Char,
          ':' ∈ trimBy isWhitespace (first ++ ':' :: last) :=
        fun first last => (mem_trimBy rfl).mpr (by simp)
      rw [if_pos (hcolon _ _), hsplit]
      dsimp only
      rw [parseBound_congr hfirst', parseBound_congr hlast', parseBound_eq_ok.mpr hfirst,
        parseBound_eq_ok.mpr hlast]
      rfl
  | union hfirst hrest =>
      have hitems := ItemsText.more hfirst hrest
      have hcolon : forall {cs : List Char} {indices : List Isize},
          ItemsText ',' LooseNumber cs indices -> ':' ∉ trimBy isWhitespace cs := by
        intro cs indices h hmem
        rcases itemsText_chars h ':' ((mem_trimBy rfl).mp hmem) with hchar | hchar
        · cases hchar
        · cases hchar
      have hcomma : forall first rest : List Char,
          ',' ∈ trimBy isWhitespace (first ++ ',' :: rest) :=
        fun first rest => (mem_trimBy rfl).mpr (by simp)
      rw [if_neg (hcolon hitems), if_pos (hcomma _ _), indices_eq_ok.mpr hitems]
      rfl

/-!
# Cursors
-/

theorem unwrapUtf8_encode (cs : List Char) :
    unwrapUtf8 (encode cs) = Except.ok (String.ofList cs) := by
  rw [unwrapUtf8, textOf_encode]

theorem sees_encode (hd : Ascii d) (pos : Nat) (cs : List Char) :
    (Cursor.mk pos (encode cs)).sees d = true ↔ cs.head? = some d := by
  rw [Cursor.sees, beq_iff_eq]
  exact head_encode hd cs

theorem advance_encode (pos : Nat) (as bs : List Char) :
    (Cursor.mk pos (encode (as ++ bs))).advance (encode as).length =
      ⟨pos + (encode as).length, encode bs⟩ := by
  rw [Cursor.advance, encode_append, List.drop_left]

theorem advance_one (hc : Ascii c) (pos : Nat) (cs : List Char) :
    (Cursor.mk pos (encode (c :: cs))).advance 1 = ⟨pos + 1, encode cs⟩ := by
  rw [Cursor.advance, encode_cons_ascii hc]
  rfl

theorem eq_cons_of_head (h : cs.head? = some d) :
    exists rest, cs = d :: rest :=
  ⟨cs.tail, (List.cons_head?_tail h).symm⟩

theorem expectByte_encode (hd : Ascii d) (pos : Nat) (cs : List Char)
    (context : String) :
    expectByte ⟨pos, encode (d :: cs)⟩ d context = Except.ok ⟨pos + 1, encode cs⟩ := by
  rw [expectByte, if_pos ((sees_encode hd pos _).mpr rfl), advance_one hd]

theorem expectByte_cases {d : Char} (hd : Ascii d) (pos : Nat) (cs : List Char)
    (context : String) :
    (exists rest, cs = d :: rest ∧
      expectByte ⟨pos, encode cs⟩ d context = Except.ok ⟨pos + 1, encode rest⟩) ∨
    exists e, expectByte ⟨pos, encode cs⟩ d context = Except.error (Stop.error e) := by
  by_cases hhead : cs.head? = some d
  · obtain ⟨rest, rfl⟩ := eq_cons_of_head hhead
    exact Or.inl ⟨rest, rfl, expectByte_encode hd pos rest context⟩
  · right
    rw [expectByte, if_neg (mt (sees_encode hd pos cs).mp hhead)]
    exact ⟨_, rfl⟩

/-!
# Scanning for the closing bracket
-/

theorem scanBrackets_append (checks : Bool) (depth : Nat) {bytes : List UInt8}
    (h : forall b, b ∈ bytes -> b ≠ ']'.toUInt8 ∧ b ≠ '['.toUInt8) (rest : List UInt8) :
    scanBrackets checks (depth + 1) (bytes ++ rest) =
      (scanBrackets checks (depth + 1) rest).map (fun r => (bytes ++ r.1, r.2)) := by
  induction bytes with
  | nil =>
      rw [List.nil_append]
      cases scanBrackets checks (depth + 1) rest <;> rfl
  | cons b bytes ih =>
      obtain ⟨hclose, hopen⟩ := h b List.mem_cons_self
      rw [List.cons_append, scanBrackets, if_neg hclose, if_neg hopen,
        ih (fun x hx => h x (List.mem_cons_of_mem b hx))]
      cases scanBrackets checks (depth + 1) rest <;> rfl

theorem scanBrackets_other (checks : Bool) (depth : Nat) {c : Char} (hclose : c ≠ ']')
    (hopen : c ≠ '[') (cs : List Char) :
    scanBrackets checks (depth + 1) (encode (c :: cs)) =
      (scanBrackets checks (depth + 1) (encode cs)).map
        (fun r => (String.utf8EncodeChar c ++ r.1, r.2)) := by
  rw [encode_cons]
  apply scanBrackets_append
  intro b hb
  exact ⟨encodeChar_ne (by decide) hclose hb, encodeChar_ne (by decide) hopen hb⟩

theorem scanBrackets_content (checks : Bool) {cs : List Char} (hclose : ']' ∉ cs)
    (hopen : '[' ∉ cs) (rest : List Char) :
    scanBrackets checks 1 (encode (cs ++ ']' :: rest)) =
      Except.ok (encode cs, encode (']' :: rest)) := by
  induction cs with
  | nil =>
      rw [List.nil_append, encode_cons_ascii (by decide), scanBrackets, if_pos rfl,
        if_pos rfl]
      rfl
  | cons c cs ih =>
      rw [List.mem_cons, not_or] at hclose hopen
      rw [List.cons_append, scanBrackets_other checks 0 (Ne.symm hclose.1)
        (Ne.symm hopen.1), ih hclose.2 hopen.2]
      exact congrArg Except.ok (Prod.ext (encode_cons c cs).symm rfl)

/-- What a scan of a text comes to: the text is cut between two characters. -/
inductive Scanned (checks : Bool) (depth : Nat) (cs : List Char) :
    Except Stop (List UInt8 × List UInt8) -> Prop where
  | overflowed : checks = true -> 4294967296 ≤ depth + cs.count '[' ->
      Scanned checks depth cs (Except.error Stop.overflow)
  | cut {as bs : List Char} : cs = as ++ bs ->
      Scanned checks depth cs (Except.ok (encode as, encode bs))

theorem Scanned.cons {checks : Bool} {depth depth' : Nat} {cs : List Char}
    {result : Except Stop (List UInt8 × List UInt8)} (h : Scanned checks depth cs result)
    (c : Char) (hcount : depth + cs.count '[' ≤ depth' + (c :: cs).count '[') :
    Scanned checks depth' (c :: cs)
      (result.map (fun r => (String.utf8EncodeChar c ++ r.1, r.2))) := by
  cases h with
  | overflowed hchecks hover =>
      exact Scanned.overflowed hchecks (Nat.le_trans hover hcount)
  | cut hcs =>
      rename_i as bs
      have hcut := @Scanned.cut checks depth' (c :: cs) (c :: as) bs (by rw [hcs]; rfl)
      rw [encode_cons] at hcut
      exact hcut

theorem scanBrackets_scanned (checks : Bool) (depth : Nat) (cs : List Char) :
    Scanned checks depth cs (scanBrackets checks depth (encode cs)) := by
  induction cs generalizing depth with
  | nil =>
      unfold scanBrackets
      exact @Scanned.cut checks depth [] [] [] rfl
  | cons c cs ih =>
      cases depth with
      | zero =>
          obtain ⟨b, rest, hbytes, -⟩ := encode_head c cs
          rw [hbytes, scanBrackets, ← hbytes]
          exact @Scanned.cut checks 0 (c :: cs) [] (c :: cs) rfl
      | succ depth =>
          by_cases hclose : c = ']'
          · rw [hclose, encode_cons_ascii (by decide), scanBrackets, if_pos rfl]
            split
            · rw [← encode_cons_ascii (by decide)]
              exact @Scanned.cut checks _ (']' :: cs) [] (']' :: cs) rfl
            · exact (ih depth).cons ']' (by simp)
          · by_cases hopen : c = '['
            · rw [hopen, encode_cons_ascii (by decide), scanBrackets,
                if_neg (by decide), if_pos rfl, deeper]
              split
              · exact (ih (depth + 1 + 1)).cons '[' (by simp; omega)
              · next hfull =>
                cases checks with
                | true =>
                    apply Scanned.overflowed rfl
                    rw [List.count_cons_self]
                    omega
                | false => exact (ih 0).cons '[' (by simp; omega)
            · rw [scanBrackets_other checks depth hclose hopen]
              apply (ih (depth + 1)).cons c
              rw [List.count_cons_of_ne hopen]

/-!
# Segments
-/

def NameCode (n : Nat) : Prop :=
  48 ≤ n ∧ n ≤ 57 ∨ 65 ≤ n ∧ n ≤ 90 ∨ 97 ≤ n ∧ n ≤ 122 ∨ n = 95

theorem isFieldChar_iff {b : UInt8} : isFieldChar b = true ↔ NameCode b.toNat := by
  have hdigits : '0'.toUInt8.toNat = 48 ∧ '9'.toUInt8.toNat = 57 := ⟨rfl, rfl⟩
  have hupper : 'A'.toUInt8.toNat = 65 ∧ 'Z'.toUInt8.toNat = 90 := ⟨rfl, rfl⟩
  have hlower : 'a'.toUInt8.toNat = 97 ∧ 'z'.toUInt8.toNat = 122 := ⟨rfl, rfl⟩
  have hunderscore : '_'.toUInt8.toNat = 95 := rfl
  simp only [isFieldChar, Bool.or_eq_true, Bool.and_eq_true, decide_eq_true_eq, beq_iff_eq,
    UInt8.le_iff_toNat_le, ← UInt8.toNat_inj, NameCode]
  omega

theorem isNameChar_iff : isNameChar c = true ↔ NameCode c.toNat := by
  have hchar : isNameChar c =
      (decide (c.val ≥ 65 ∧ c.val ≤ 90) ||
        (decide (c.val ≥ 97) && decide (c.val ≤ 122)) ||
        (decide (c.val ≥ 48) && decide (c.val ≤ 57)) || c == '_') := rfl
  have hunderscore : '_'.toNat = 95 := rfl
  simp only [hchar, Bool.or_eq_true, Bool.and_eq_true, decide_eq_true_eq, beq_iff_eq,
    UInt32.le_iff_toNat_le, ge_iff_le, ← Char.toNat_inj, Char.toNat_val, NameCode]
  have hcodes : (65 : UInt32).toNat = 65 ∧ (90 : UInt32).toNat = 90 ∧
      (97 : UInt32).toNat = 97 ∧ (122 : UInt32).toNat = 122 ∧
      (48 : UInt32).toNat = 48 ∧ (57 : UInt32).toNat = 57 := by decide
  omega

theorem takeWhile_field (cs : List Char) :
    (encode cs).takeWhile isFieldChar = encode (cs.takeWhile isNameChar) := by
  apply takeWhile_encode
  · intro b h
    have hcode := isFieldChar_iff.mp h
    unfold NameCode at hcode
    omega
  · intro c hc
    rw [Bool.eq_iff_iff, isNameChar_iff, isFieldChar_iff, toUInt8_toNat hc]
  · intro c hc
    rw [Bool.eq_false_iff]
    intro h
    have hcode := isNameChar_iff.mp h
    unfold NameCode at hcode
    exact hc (Nat.lt_of_le_of_lt (by omega : c.toNat ≤ 122) (by decide))

/-- What reading a segment of a text comes to: an error, a piece of the text that is
the segment, or too many brackets for the depth. -/
inductive Reads (checks : Bool) (cs : List Char) :
    Except Stop (PathSegment × Cursor) -> Prop where
  | refused (e : ParseError) : Reads checks cs (Except.error (Stop.error e))
  | overflowed : checks = true -> 4294967296 ≤ cs.count '[' ->
      Reads checks cs (Except.error Stop.overflow)
  | read {piece rest : List Char} {segment : PathSegment} {pos : Nat} :
      cs = piece ++ rest -> LooseSegment piece segment ->
        Reads checks cs (Except.ok (segment, ⟨pos, encode rest⟩))

theorem dotSegment_name (pos : Nat) {name rest : List Char} (hne : name ≠ [])
    (hname : forall c, c ∈ name -> isNameChar c = true)
    (hrest : forall c, rest.head? = some c -> isNameChar c = false) :
    dotSegment ⟨pos, encode (name ++ rest)⟩ =
      if rest.head? = some '(' then
        fail pos ("function calls (" ++ String.ofList name ++ "()) are not allowed")
      else
        Except.ok (PathSegment.field (String.ofList name),
          ⟨pos + (encode name).length, encode rest⟩) := by
  have hhead : forall d, isNameChar d = false -> (name ++ rest).head? ≠ some d := by
    intro d hd h
    cases name with
    | nil => exact hne rfl
    | cons c name =>
        cases h
        rw [hname d List.mem_cons_self] at hd
        cases hd
  have htake : (name ++ rest).takeWhile isNameChar = name := by
    rw [List.takeWhile_append_of_pos hname]
    cases rest with
    | nil => simp
    | cons c rest =>
        rw [List.takeWhile_cons_of_neg (by rw [hrest c rfl]; decide), List.append_nil]
  have hbytes : encode name ≠ [] := by
    cases name with
    | nil => exact absurd rfl hne
    | cons c name =>
        obtain ⟨b, bytes, hb, -⟩ := encode_head c name
        rw [hb]
        exact List.cons_ne_nil b bytes
  unfold dotSegment
  rw [if_neg (mt (sees_encode (by decide) pos _).mp (hhead '.' rfl)),
    if_neg (mt (sees_encode (by decide) pos _).mp (hhead '*' rfl))]
  dsimp only
  rw [takeWhile_field, htake, if_neg hbytes, advance_encode, unwrapUtf8_encode]
  exact if_congr (sees_encode (by decide) _ rest) rfl rfl

theorem dotSegment_reads (checks : Bool) (pos : Nat) (cs : List Char) :
    Reads checks ('.' :: cs) (dotSegment ⟨pos, encode cs⟩) := by
  by_cases hdot : cs.head? = some '.'
  · rw [dotSegment, if_pos ((sees_encode (by decide) pos cs).mpr hdot)]
    exact Reads.refused _
  · by_cases hstar : cs.head? = some '*'
    · obtain ⟨rest, rfl⟩ := eq_cons_of_head hstar
      rw [dotSegment, if_neg (mt (sees_encode (by decide) pos _).mp hdot),
        if_pos ((sees_encode (by decide) pos _).mpr hstar), advance_one (by decide)]
      exact @Reads.read checks _ ['.', '*'] rest _ _ rfl SegmentText.wildcard
    · have hsplit := @List.takeWhile_append_dropWhile _ isNameChar cs
      have hname : forall c, c ∈ cs.takeWhile isNameChar -> isNameChar c = true :=
        fun c hc => List.mem_takeWhile_imp hc
      have hrest : forall c, (cs.dropWhile isNameChar).head? = some c ->
          isNameChar c = false := by
        intro c hc
        have hnot := List.head?_dropWhile_not isNameChar cs
        rw [hc] at hnot
        exact hnot
      by_cases hempty : cs.takeWhile isNameChar = []
      · rw [dotSegment, if_neg (mt (sees_encode (by decide) pos _).mp hdot),
          if_neg (mt (sees_encode (by decide) pos _).mp hstar)]
        dsimp only
        rw [takeWhile_field, hempty, encode_nil, if_pos rfl]
        exact Reads.refused _
      · have hread := dotSegment_name pos hempty hname hrest
        rw [hsplit] at hread
        rw [hread]
        split
        · exact Reads.refused _
        · apply Reads.read _ (SegmentText.field hempty hname)
          rw [List.cons_append, hsplit]

theorem bracketSegment_content {checks : Bool} (pos : Nat) {as bs : List Char}
    (hfilter : (as ++ bs).head? ≠ some '?') (hstar : (as ++ bs).head? ≠ some '*')
    (hscan : scanBrackets checks 1 (encode (as ++ bs)) = Except.ok (encode as, encode bs)) :
    bracketSegment checks ⟨pos, encode (as ++ bs)⟩ =
      (expectByte ⟨pos + (encode as).length, encode bs⟩ ']'
          (String.ofList (trimBy isWhitespace as))).bind
        (fun stop =>
          ((parseBracketContent pos (String.ofList (trimBy isWhitespace as))).mapError
            Stop.error).bind (fun segment => Except.ok (segment, stop))) := by
  unfold bracketSegment
  rw [if_neg (mt (sees_encode (by decide) pos _).mp hfilter),
    if_neg (mt (sees_encode (by decide) pos _).mp hstar)]
  have hread : readBracketContent checks ⟨pos, encode (as ++ bs)⟩ =
      Except.ok (String.ofList (trimBy isWhitespace as),
        ⟨pos + (encode as).length, encode bs⟩) := by
    rw [readBracketContent, hscan]
    change (unwrapUtf8 (encode as)).bind _ = _
    rw [unwrapUtf8_encode, advance_encode]
    change Except.ok _ = _
    rw [String.toList_ofList]
  rw [hread]
  rfl

theorem bracketSegment_reads (checks : Bool) (pos : Nat) (cs : List Char) :
    Reads checks ('[' :: cs) (bracketSegment checks ⟨pos, encode cs⟩) := by
  by_cases hfilter : cs.head? = some '?'
  · rw [bracketSegment, if_pos ((sees_encode (by decide) pos cs).mpr hfilter)]
    exact Reads.refused _
  · by_cases hstar : cs.head? = some '*'
    · obtain ⟨rest, rfl⟩ := eq_cons_of_head hstar
      rw [bracketSegment, if_neg (mt (sees_encode (by decide) pos _).mp hfilter),
        if_pos ((sees_encode (by decide) pos _).mpr hstar), advance_one (by decide)]
      rcases @expectByte_cases ']' (by decide) (pos + 1) rest "*" with
        ⟨after, rfl, hread⟩ | ⟨e, he⟩
      · rw [hread]
        exact @Reads.read checks _ ['[', '*', ']'] after _ _ rfl SegmentText.brackets
      · rw [he]
        exact Reads.refused e
    · have hscanned := scanBrackets_scanned checks 1 cs
      generalize hscan : scanBrackets checks 1 (encode cs) = scanned at hscanned
      cases hscanned with
      | overflowed hchecks hover =>
          rw [bracketSegment, if_neg (mt (sees_encode (by decide) pos _).mp hfilter),
            if_neg (mt (sees_encode (by decide) pos _).mp hstar), readBracketContent, hscan]
          apply Reads.overflowed hchecks
          rw [List.count_cons_self]
          omega
      | cut hcs =>
          subst hcs
          rename_i as bs
          rw [bracketSegment_content pos hfilter hstar hscan]
          rcases @expectByte_cases ']' (by decide) (pos + (encode as).length) bs
              (String.ofList (trimBy isWhitespace as)) with ⟨rest, rfl, hread⟩ | ⟨e, he⟩
          · rw [hread]
            cases hcontent : parseBracketContent pos
                (String.ofList (trimBy isWhitespace as)) with
            | error e => exact Reads.refused e
            | ok segment =>
                apply Reads.read _ (SegmentText.content (parseBracketContent_sound hcontent))
                simp
          · rw [he]
            exact Reads.refused e

theorem parseSegment_reads (checks : Bool) (pos : Nat) (c : Char) (cs : List Char)
    {b : UInt8} {rest : List UInt8} (hbytes : encode (c :: cs) = b :: rest) :
    Reads checks (c :: cs) (parseSegment checks b ⟨pos, encode (c :: cs)⟩) := by
  have hhead : forall {d : Char}, Ascii d -> (b = d.toUInt8 ↔ c = d) := by
    intro d hd
    have h := head_encode hd (c :: cs)
    rw [hbytes] at h
    simpa using h
  unfold parseSegment
  by_cases hdot : c = '.'
  · rw [if_pos ((hhead (by decide)).mpr hdot), hdot, advance_one (by decide)]
    exact dotSegment_reads checks (pos + 1) cs
  · rw [if_neg (mt (hhead (by decide)).mp hdot)]
    by_cases hopen : c = '['
    · rw [if_pos ((hhead (by decide)).mpr hopen), hopen, advance_one (by decide)]
      exact bracketSegment_reads checks (pos + 1) cs
    · rw [if_neg (mt (hhead (by decide)).mp hopen)]
      exact Reads.refused _

theorem content_head {cs rest : List Char} {segment : PathSegment} {d : Char}
    (h : LooseContent cs segment) (hd : isContentChar d = false) (hclose : d ≠ ']') :
    (cs ++ ']' :: rest).head? ≠ some d := by
  intro hhead
  cases cs with
  | nil =>
      cases hhead
      exact hclose rfl
  | cons c cs =>
      cases hhead
      exact contentText_notMem h hd List.mem_cons_self

theorem parseSegment_complete (checks : Bool) (pos : Nat) {piece rest : List Char}
    {segment : PathSegment} (h : LooseSegment piece segment)
    (hrest : forall c, rest.head? = some c -> c = '.' ∨ c = '[') :
    exists b bytes pos', encode (piece ++ rest) = b :: bytes ∧
      parseSegment checks b ⟨pos, encode (piece ++ rest)⟩ =
        Except.ok (segment, ⟨pos', encode rest⟩) := by
  have hname : forall c, rest.head? = some c -> isNameChar c = false ∧ c ≠ '(' := by
    intro c hc
    rcases hrest c hc with rfl | rfl
    · exact ⟨rfl, by decide⟩
    · exact ⟨rfl, by decide⟩
  cases h with
  | field hne hchars =>
      rename_i name
      have hcall : rest.head? ≠ some '(' := fun h => (hname _ h).2 rfl
      refine ⟨_, _, pos + 1 + (encode name).length, encode_cons_ascii (by decide) _, ?_⟩
      rw [parseSegment, if_pos rfl, List.cons_append, advance_one (by decide),
        dotSegment_name (pos + 1) hne hchars (fun c hc => (hname c hc).1), if_neg hcall]
  | wildcard =>
      refine ⟨_, _, pos + 1 + 1, encode_cons_ascii (by decide) _, ?_⟩
      rw [parseSegment, if_pos rfl, List.cons_append, advance_one (by decide),
        List.cons_append, List.nil_append, dotSegment,
        if_neg (mt (sees_encode (by decide) _ _).mp (by simp)),
        if_pos ((sees_encode (by decide) _ _).mpr rfl), advance_one (by decide)]
  | brackets =>
      refine ⟨_, _, pos + 1 + 1 + 1, encode_cons_ascii (by decide) _, ?_⟩
      rw [parseSegment, if_neg (by decide), if_pos rfl, List.cons_append,
        advance_one (by decide), List.cons_append, List.cons_append, List.nil_append,
        bracketSegment, if_neg (mt (sees_encode (by decide) _ _).mp (by simp)),
        if_pos ((sees_encode (by decide) _ _).mpr rfl), advance_one (by decide),
        expectByte_encode (by decide)]
      rfl
  | content hcontent =>
      rename_i cs
      have hscan := scanBrackets_content checks (contentText_notMem hcontent rfl)
        (contentText_notMem hcontent rfl) rest
      refine ⟨_, _, pos + 1 + (encode cs).length + 1, encode_cons_ascii (by decide) _, ?_⟩
      rw [parseSegment, if_neg (by decide), if_pos rfl, List.cons_append,
        advance_one (by decide), List.append_assoc, List.singleton_append,
        bracketSegment_content (pos + 1) (content_head hcontent rfl (by decide))
          (content_head hcontent rfl (by decide)) hscan,
        expectByte_encode (by decide), parseBracketContent_complete (pos + 1) hcontent]
      rfl

/-!
# Paths
-/

theorem looseSegment_head {piece : List Char} (h : LooseSegment piece segment) :
    exists c rest, piece = c :: rest ∧ (c = '.' ∨ c = '[') := by
  cases h with
  | field hne hchars | wildcard => exact ⟨_, _, rfl, Or.inl rfl⟩
  | brackets | content hcontent => exact ⟨_, _, rfl, Or.inr rfl⟩

theorem length_encode_pos (h : cs ≠ []) : 0 < (encode cs).length := by
  cases cs with
  | nil => exact absurd rfl h
  | cons c cs =>
      obtain ⟨b, bytes, hbytes, -⟩ := encode_head c cs
      rw [hbytes]
      exact Nat.succ_pos _

/-- What parsing the segments of a text comes to. -/
inductive Parsed (checks : Bool) (cs : List Char) : Except Stop (List PathSegment) -> Prop where
  | refused (e : ParseError) : Parsed checks cs (Except.error (Stop.error e))
  | overflowed : checks = true -> 4294967296 ≤ cs.count '[' ->
      Parsed checks cs (Except.error Stop.overflow)
  | parsed {segments : List PathSegment} :
      SegmentsText LooseNumber (Blank isWhitespace) cs segments ->
        Parsed checks cs (Except.ok segments)

theorem parseSegments_parsed (checks : Bool) {fuel : Nat} (pos : Nat) {cs : List Char}
    (hfuel : (encode cs).length ≤ fuel) :
    Parsed checks cs (parseSegments checks fuel ⟨pos, encode cs⟩) := by
  induction fuel generalizing pos cs with
  | zero =>
      cases cs with
      | nil => exact Parsed.parsed SegmentsText.none
      | cons c cs =>
          have hpos := length_encode_pos (List.cons_ne_nil c cs)
          omega
  | succ fuel ih =>
      cases cs with
      | nil => exact Parsed.parsed SegmentsText.none
      | cons c cs =>
          obtain ⟨b, bytes, hbytes, -⟩ := encode_head c cs
          have hreads := parseSegment_reads checks pos c cs hbytes
          rw [hbytes] at hreads ⊢
          rw [parseSegments]
          generalize parseSegment checks b ⟨pos, b :: bytes⟩ = result at hreads
          cases hreads with
          | refused e => exact Parsed.refused e
          | overflowed hchecks hover => exact Parsed.overflowed hchecks hover
          | read hcs hsegment =>
              rename_i piece rest segment pos'
              obtain ⟨d, piece', rfl, -⟩ := looseSegment_head hsegment
              have hpos := length_encode_pos (List.cons_ne_nil d piece')
              rw [hcs, encode_append, List.length_append] at hfuel
              have hrest := @ih pos' rest (by omega)
              change Parsed checks (c :: cs)
                ((parseSegments checks fuel ⟨pos', encode rest⟩).bind
                  (fun segments => Except.ok (segment :: segments)))
              rw [hcs]
              generalize parseSegments checks fuel ⟨pos', encode rest⟩ = result at hrest
              cases hrest with
              | refused e => exact Parsed.refused e
              | overflowed hchecks hover =>
                  apply Parsed.overflowed hchecks
                  rw [List.count_append]
                  omega
              | parsed hsegments =>
                  exact Parsed.parsed (SegmentsText.more hsegment hsegments)

theorem parseSegments_complete (checks : Bool) {fuel : Nat} (pos : Nat)
    {segments : List PathSegment}
    (h : SegmentsText LooseNumber (Blank isWhitespace) cs segments)
    (hfuel : (encode cs).length ≤ fuel) :
    parseSegments checks fuel ⟨pos, encode cs⟩ = Except.ok segments := by
  induction h generalizing fuel pos with
  | none =>
      cases fuel <;> rfl
  | more hsegment hrest ih =>
      rename_i piece rest segment segments
      have hhead : forall c, rest.head? = some c -> c = '.' ∨ c = '[' := by
        intro c hc
        cases hrest with
        | none => cases hc
        | more hnext _ =>
            obtain ⟨d, piece', rfl, hd⟩ := looseSegment_head hnext
            cases hc
            exact hd
      obtain ⟨b, bytes, pos', hbytes, hread⟩ :=
        parseSegment_complete checks pos hsegment hhead
      obtain ⟨d, piece', rfl, -⟩ := looseSegment_head hsegment
      have hpos := length_encode_pos (List.cons_ne_nil d piece')
      rw [encode_append, List.length_append] at hfuel
      cases fuel with
      | zero => omega
      | succ fuel =>
          rw [hbytes] at hread ⊢
          rw [parseSegments, hread]
          change (parseSegments checks fuel ⟨pos', encode rest⟩).bind _ = _
          rw [ih pos' (by omega)]
          rfl

theorem length_encode_tail (c : Char) (cs : List Char) :
    (encode cs).length ≤ (encode (c :: cs)).length := by
  rw [encode_cons, List.length_append]
  exact Nat.le_add_left _ _

variable {text : String}

theorem parse_complete (checks : Bool) {path : Path} (h : Extended text path) :
    parse checks text = Except.ok path := by
  obtain ⟨rest, htext, hrest⟩ := h
  unfold parse
  dsimp only
  rw [bytesOf_eq, htext, if_pos ((sees_encode (by decide) 0 _).mpr rfl),
    advance_one (by decide),
    parseSegments_complete checks 1 hrest (length_encode_tail '$' rest)]
  rfl

theorem parse_cases (checks : Bool) (text : String) :
    (exists path, parse checks text = Except.ok path ∧ Extended text path) ∨
      (exists e, parse checks text = Except.error (Stop.error e)) ∨
        parse checks text = Except.error Stop.overflow ∧ checks = true ∧
          4294967296 ≤ text.toList.count '[' := by
  unfold parse
  dsimp only
  rw [bytesOf_eq]
  by_cases hhead : text.toList.head? = some '$'
  · obtain ⟨rest, htext⟩ := eq_cons_of_head hhead
    rw [htext, if_pos ((sees_encode (by decide) 0 _).mpr rfl), advance_one (by decide)]
    have hparsed := parseSegments_parsed checks 1 (length_encode_tail '$' rest)
    generalize parseSegments checks (encode ('$' :: rest)).length ⟨0 + 1, encode rest⟩ =
      result at *
    cases hparsed with
    | refused e => exact Or.inr (Or.inl ⟨e, rfl⟩)
    | overflowed hchecks hover =>
        refine Or.inr (Or.inr ⟨rfl, hchecks, ?_⟩)
        rwa [List.count_cons_of_ne (by decide)]
    | parsed hsegments => exact Or.inl ⟨⟨_⟩, rfl, rest, htext, hsegments⟩
  · rw [if_neg (mt (sees_encode (by decide) 0 _).mp hhead)]
    exact Or.inr (Or.inl ⟨_, rfl⟩)

/-- A text of the documented syntax and the path it is written for. -/
structure DocumentedText where
  text : String
  path : Path
  written : Documented text path

/-- Every path comes back from its text and every documented text is accepted.  The texts
that are accepted are those of the extended syntax; any other text is refused with an
error, unless overflow is checked and it has more than 32 bits of opening brackets. -/
theorem parse_extended (checks : Bool) :
    (forall p : WellFormedPath, parse checks p.text = Except.ok p.path) ∧
      (forall t : DocumentedText, parse checks t.text = Except.ok t.path) ∧
      (forall (text : String) (path : Path),
        parse checks text = Except.ok path ↔ Extended text path) ∧
      forall text : String,
        (exists path, parse checks text = Except.ok path) ∨
          (exists e, parse checks text = Except.error (Stop.error e)) ∨
            checks = true ∧ 4294967296 ≤ text.toList.count '[' := by
  refine ⟨fun p => parse_complete checks p.documented.extended,
    fun t => parse_complete checks t.written.extended, fun text path => ⟨?_, ?_⟩, ?_⟩
  · intro h
    rcases parse_cases checks text with ⟨path', hpath, hextended⟩ | ⟨e, he⟩ | ⟨hover, -⟩
    · rw [hpath] at h
      cases h
      exact hextended
    · rw [he] at h
      cases h
    · rw [hover] at h
      cases h
  · exact parse_complete checks
  · intro text
    rcases parse_cases checks text with ⟨path, hpath, -⟩ | hrefused | ⟨-, hover⟩
    · exact Or.inl ⟨path, hpath⟩
    · exact Or.inr (Or.inl hrefused)
    · exact Or.inr (Or.inr hover)

theorem numberText_notMem_space (h : NumberText cs i) :
    ' ' ∉ cs := by
  intro hmem
  rcases (SignedText.number h).chars.2 ' ' hmem with hchar | hchar | hchar
  · exact absurd hchar (by decide)
  · exact absurd hchar (by decide)
  · exact absurd hchar (by decide)

theorem documented_notMem_space {path : Path} (h : Documented text path) :
    ' ' ∉ text.toList := by
  have hbound : forall {cs : List Char} {bound : Option Isize},
      BoundText NumberText (fun cs => cs = []) cs bound -> ' ' ∉ cs := by
    intro cs bound h
    cases h with
    | absent h => exact h ▸ List.not_mem_nil
    | present h => exact numberText_notMem_space h
  have hitems : forall {cs : List Char} {indices : List Isize},
      ItemsText ',' NumberText cs indices -> ' ' ∉ cs := by
    intro cs indices h
    induction h with
    | last h => exact numberText_notMem_space h
    | more h _ ih => simp [numberText_notMem_space h, ih]
  obtain ⟨rest, htext, hrest⟩ := h
  rw [htext]
  generalize path.segments = segments at hrest
  clear htext
  induction hrest with
  | none => decide
  | more hpiece _ ih =>
      rw [List.mem_cons, not_or] at ih
      rw [List.mem_cons, List.mem_append, not_or, not_or]
      refine ⟨ih.1, ?_, ih.2⟩
      cases hpiece with
      | field _ hchars =>
          intro hmem
          rcases List.mem_cons.mp hmem with hdot | hmem
          · exact absurd hdot (by decide)
          · exact absurd (hchars ' ' hmem) (by decide)
      | wildcard | brackets => decide
      | content hcontent =>
          cases hcontent with
          | index h => simp [numberText_notMem_space h]
          | slice hfirst hlast => simp [hbound hfirst, hbound hlast]
          | union hfirst hrest => simp [numberText_notMem_space hfirst, hitems hrest]

/-- A blank beside an index is accepted, though no documented text has one. -/
theorem undocumented_text_accepted :
    parse true "$[ 0 ]" = Except.ok ⟨[PathSegment.index Isize.zero]⟩ ∧
      forall path, ¬ Documented "$[ 0 ]" path :=
  ⟨by decide +kernel, fun _ h => documented_notMem_space h (by decide +kernel)⟩

end JsonPath
end PostCortex

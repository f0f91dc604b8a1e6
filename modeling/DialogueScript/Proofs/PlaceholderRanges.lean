import DialogueScript.Proofs.LineLocality
import DialogueScript.Proofs.ProgramParsing

namespace DialogueScript

/-- The bytes of `text` from `start` up to `stop`. There are none if one of the two is inside a character or
behind the text, or if `stop` comes first. -/
def slice? (text : String) (start stop : Nat) : Option String :=
  if h : String.Pos.Raw.IsValid text ⟨start⟩ ∧ String.Pos.Raw.IsValid text ⟨stop⟩ then
    (text.slice? (text.pos ⟨start⟩ h.1) (text.pos ⟨stop⟩ h.2)).map String.Slice.copy
  else none

theorem slice?_eq_some {text r : String} {start stop : Nat} :
    slice? text start stop = some r ↔ ∃ before after, text = before ++ r ++ after ∧
      start = before.utf8ByteSize ∧ stop = (before ++ r).utf8ByteSize := by
  unfold slice?
  constructor
  · intro h
    split at h
    · rename_i hvalid
      obtain ⟨slice, hslice, rfl⟩ := Option.map_eq_some_iff.1 h
      unfold String.slice? at hslice
      split at hslice
      · rename_i hle
        obtain rfl := Option.some.inj hslice
        obtain ⟨before, after, hstart, hstop⟩ := String.copy_slice_eq_iff_splits.1 ⟨hle, rfl⟩
        refine ⟨before, after, hstop.eq_append, ?_, ?_⟩
        · exact congrArg String.Pos.Raw.byteIdx hstart.offset_eq_rawEndPos
        · exact congrArg String.Pos.Raw.byteIdx hstop.offset_eq_rawEndPos
      · cases hslice
    · cases h
  · rintro ⟨before, after, rfl, rfl, rfl⟩
    have hassoc : before ++ r ++ after = before ++ (r ++ after) := String.append_assoc
    have hvalid : String.Pos.Raw.IsValid (before ++ r ++ after) ⟨before.utf8ByteSize⟩ ∧
        String.Pos.Raw.IsValid (before ++ r ++ after) ⟨(before ++ r).utf8ByteSize⟩ :=
      ⟨String.Pos.Raw.isValid_iff_exists_append.2 ⟨before, r ++ after, hassoc, rfl⟩,
        String.Pos.Raw.isValid_iff_exists_append.2 ⟨before ++ r, after, rfl, rfl⟩⟩
    obtain ⟨hle, hcopy⟩ := String.copy_slice_eq_iff_splits.2 ⟨before, after,
      (⟨hassoc, rfl⟩ : (String.pos _ _ hvalid.1).Splits before (r ++ after)),
      (⟨rfl, rfl⟩ : (String.pos _ _ hvalid.2).Splits (before ++ r) after)⟩
    rw [dif_pos hvalid, String.slice?, dif_pos hle, Option.map_some, hcopy]

theorem slice?_append (before r after : String) :
    slice? (before ++ r ++ after) before.utf8ByteSize (before ++ r).utf8ByteSize = some r :=
  slice?_eq_some.2 ⟨before, after, rfl, rfl, rfl⟩

/-- The range is not empty, its ends lie between characters of the text, and in it stands the placeholder. -/
structure Interpolation.IsExact (text : String) (i : Interpolation) : Prop where
  start_lt_stop : i.start < i.stop
  stop_le : i.stop ≤ text.utf8ByteSize
  isValid_start : String.Pos.Raw.IsValid text ⟨i.start⟩
  isValid_stop : String.Pos.Raw.IsValid text ⟨i.stop⟩
  slice : slice? text i.start i.stop = some ("#\x7b" ++ i.expression.render ++ "\x7d")

theorem Interpolation.isExact_append (before : String) (e : Expression) (after : String) :
    IsExact (before ++ e.renderPlaceholder ++ after)
      ⟨e, before.utf8ByteSize, (before ++ e.renderPlaceholder).utf8ByteSize⟩ where
  start_lt_stop := by
    have hopening : "#\x7b".utf8ByteSize = 2 := rfl
    simp only [Expression.renderPlaceholder, String.utf8ByteSize_append, hopening]
    omega
  stop_le := by
    simp only [String.utf8ByteSize_append]
    omega
  isValid_start := String.Pos.Raw.isValid_iff_exists_append.2
    ⟨before, e.renderPlaceholder ++ after, String.append_assoc, rfl⟩
  isValid_stop := String.Pos.Raw.isValid_iff_exists_append.2
    ⟨before ++ e.renderPlaceholder, after, rfl, rfl⟩
  slice := slice?_append before e.renderPlaceholder after

namespace Speech

variable {start : Nat} {placeholders : List (Expression × String)}

def written (placeholders : List (Expression × String)) : String :=
  String.join (placeholders.map fun p => p.1.renderPlaceholder ++ p.2)

theorem written_cons (e : Expression) (text : String) :
    written ((e, text) :: placeholders) = e.renderPlaceholder ++ (text ++ written placeholders) := by
  rw [written, List.map_cons, String.join_cons, String.append_assoc, ← written]

theorem interpolationsFrom_cons (pre : String) (e : Expression) (text : String) :
    interpolationsFrom pre.utf8ByteSize ((e, text) :: placeholders) =
      ⟨e, pre.utf8ByteSize, (pre ++ e.renderPlaceholder).utf8ByteSize⟩ ::
        interpolationsFrom (pre ++ e.renderPlaceholder ++ text).utf8ByteSize placeholders := by
  simp only [interpolationsFrom, String.utf8ByteSize_append]

theorem start_le_of_mem : ∀ i ∈ interpolationsFrom start placeholders, start ≤ i.start := by
  induction placeholders generalizing start with
  | nil => exact List.forall_mem_nil _
  | cons p placeholders ih =>
    refine List.forall_mem_cons.2 ⟨Nat.le_refl _, fun i hi => ?_⟩
    have hle := ih i hi
    omega

theorem pairwise_interpolationsFrom (start : Nat) (placeholders : List (Expression × String)) :
    (interpolationsFrom start placeholders).Pairwise fun i j => i.stop ≤ j.start := by
  induction placeholders generalizing start with
  | nil => exact .nil
  | cons p placeholders ih =>
    refine .cons (fun i hi => ?_) (ih _)
    have hle := start_le_of_mem i hi
    dsimp only
    omega

theorem isExact_of_mem (pre : String) :
    ∀ i ∈ interpolationsFrom pre.utf8ByteSize placeholders, i.IsExact (pre ++ written placeholders) := by
  -- each placeholder passes from the text behind to the text in front of the others
  induction placeholders generalizing pre with
  | nil => exact List.forall_mem_nil _
  | cons p placeholders ih =>
    obtain ⟨e, text⟩ := p
    rw [interpolationsFrom_cons, written_cons, ← String.append_assoc]
    refine List.forall_mem_cons.2 ⟨Interpolation.isExact_append pre e _, ?_⟩
    rw [← String.append_assoc]
    exact ih (pre ++ e.renderPlaceholder ++ text)

theorem pairwise_interpolations (s : Speech) : s.interpolations.Pairwise fun i j => i.stop ≤ j.start :=
  pairwise_interpolationsFrom _ _

theorem isExact_of_mem_interpolations (s : Speech) : ∀ i ∈ s.interpolations, i.IsExact s.text :=
  isExact_of_mem s.opening

/-- The text from byte `cursor` on, cut at the ranges of the placeholders and put together again: what is outside
of them is changed by `literal`, and what is in them by `placeholder`. There is nothing if a cut is impossible. -/
def recut? (literal placeholder : String → String) (text : String) (cursor : Nat) :
    List Interpolation → Option String
  | [] => (slice? text cursor text.utf8ByteSize).map literal
  | i :: is => do
    let outside ← slice? text cursor i.start
    let inside ← slice? text i.start i.stop
    let rest ← recut? literal placeholder text i.stop is
    return literal outside ++ placeholder inside ++ rest

theorem recut?_cons (literal placeholder : String → String) (pre opening : String) (e : Expression)
    (after : String) (is : List Interpolation) :
    recut? literal placeholder (pre ++ opening ++ e.renderPlaceholder ++ after) pre.utf8ByteSize
        (⟨e, (pre ++ opening).utf8ByteSize, (pre ++ opening ++ e.renderPlaceholder).utf8ByteSize⟩ :: is) =
      (recut? literal placeholder (pre ++ opening ++ e.renderPlaceholder ++ after)
        (pre ++ opening ++ e.renderPlaceholder).utf8ByteSize is).map
          (literal opening ++ placeholder e.renderPlaceholder ++ ·) := by
  have houtside : slice? (pre ++ opening ++ e.renderPlaceholder ++ after) pre.utf8ByteSize
      (pre ++ opening).utf8ByteSize = some opening :=
    slice?_eq_some.2 ⟨pre, e.renderPlaceholder ++ after, String.append_assoc, rfl, rfl⟩
  have hinside := slice?_append (pre ++ opening) e.renderPlaceholder after
  rw [recut?, houtside, hinside]
  cases recut? literal placeholder _ _ is <;> rfl

theorem recut?_eq (literal placeholder : String → String) (pre opening : String)
    (placeholders : List (Expression × String)) :
    recut? literal placeholder (pre ++ opening ++ written placeholders) pre.utf8ByteSize
        (interpolationsFrom (pre ++ opening).utf8ByteSize placeholders) =
      some (literal opening ++
        String.join (placeholders.map fun p => placeholder p.1.renderPlaceholder ++ literal p.2)) := by
  induction placeholders generalizing pre opening with
  | nil =>
    have hslice := slice?_append pre opening ""
    rw [String.append_empty] at hslice
    rw [written, List.map_nil, String.join_nil, String.append_empty, interpolationsFrom, recut?, hslice]
    rw [Option.map_some, List.map_nil, String.join_nil, String.append_empty]
  | cons p placeholders ih =>
    obtain ⟨e, text⟩ := p
    have hrest := ih (pre ++ opening ++ e.renderPlaceholder) text
    rw [String.append_assoc] at hrest
    rw [written_cons, interpolationsFrom_cons, ← String.append_assoc, recut?_cons, hrest]
    simp only [Option.map_some, List.map_cons, String.join_cons, String.append_assoc]

def withoutPlaceholders? (text : String) (is : List Interpolation) : Option String :=
  recut? id (fun _ => "") text 0 is

/-- A `say` in its canonical form, made of its text: what is outside of the placeholders has to be escaped. -/
def renderText? (text : String) (is : List Interpolation) : Option String :=
  (recut? escape id text 0 is).map fun inside => "say \"" ++ inside ++ "\""

theorem recut?_text (literal placeholder : String → String) (s : Speech) :
    recut? literal placeholder s.text 0 s.interpolations = some (literal s.opening ++
      String.join (s.placeholders.map fun p => placeholder p.1.renderPlaceholder ++ literal p.2)) := by
  have hrecut := recut?_eq literal placeholder "" s.opening s.placeholders
  rwa [String.empty_append] at hrecut

theorem withoutPlaceholders?_text (s : Speech) :
    withoutPlaceholders? s.text s.interpolations =
      some (s.opening ++ String.join (s.placeholders.map (·.2))) := by
  simp only [withoutPlaceholders?, recut?_text, id_eq, String.empty_append]

theorem renderText?_text (s : Speech) (span : Span) :
    renderText? s.text s.interpolations = some (Statement.say s span).render := by
  have hopening : "say " ++ "\"" = "say \"" := rfl
  simp only [renderText?, recut?_text, id_eq, Option.map_some, Statement.render, render, ← hopening,
    String.append_assoc]

end Speech

/-- The values of the strings that are not inside of a placeholder, if `depth` of them are open. -/
def outerStrings (depth : Nat) : List Token → List String
  | [] => []
  | t :: ts =>
    match t.kind with
    | .placeholderStart => outerStrings (depth + 1) ts
    | .placeholderEnd => outerStrings (depth - 1) ts
    | .string => if depth = 0 then t.value :: outerStrings depth ts else outerStrings depth ts
    | _ => outerStrings depth ts

theorem outerStrings_inner {inner : List Token} (h : ∀ t ∈ inner, t.kind.isInner = true) (depth : Nat)
    (ts : List Token) : outerStrings (depth + 1) (inner ++ ts) = outerStrings (depth + 1) ts := by
  induction inner with
  | nil => rfl
  | cons t inner ih =>
    obtain ⟨ht, hinner⟩ := List.forall_mem_cons.1 h
    rw [List.cons_append, outerStrings]
    split
    case h_1 hkind | h_2 hkind => rw [hkind] at ht; cases ht
    case h_3 => rw [if_neg (Nat.succ_ne_zero depth), ih hinner]
    case h_4 => exact ih hinner

namespace Grammar

variable {ts rest : List Token}

/-- The text between the placeholders is what the strings outside of them say. -/
theorem Parts.outerStrings {stop stop' : Position} {speech : Speech} (h : Parts stop speech stop' ts rest) :
    ∃ body, ts = body ++ rest ∧ String.join (outerStrings 0 body) =
      speech.opening ++ String.join (speech.placeholders.map (·.2)) := by
  induction h with
  | nil => exact ⟨[], rfl, rfl⟩
  | @text _ _ t speech _ _ hkind _ ih =>
    obtain ⟨body, rfl, hbody⟩ := ih
    refine ⟨t :: body, rfl, ?_⟩
    rw [DialogueScript.outerStrings, hkind]
    dsimp only
    rw [if_pos rfl, String.join_cons, hbody, Speech.prependText, String.append_assoc]
  | @placeholder _ _ opening close e speech _ _ _ hopening hclose he _ ih =>
    obtain ⟨body, rfl, hbody⟩ := ih
    obtain ⟨inner, rfl, hinner⟩ := he.inner
    refine ⟨opening :: (inner ++ close :: body), by simp, ?_⟩
    have hskip : DialogueScript.outerStrings 0 (opening :: (inner ++ close :: body)) =
        DialogueScript.outerStrings 0 body := by
      rw [DialogueScript.outerStrings, hopening]
      dsimp only
      rw [outerStrings_inner hinner, DialogueScript.outerStrings, hclose]
    rw [hskip, hbody, Speech.prependPlaceholder, List.map_cons, String.join_cons, String.empty_append]

end Grammar

structure Draft where
  text : String
  interpolations : List Interpolation

namespace Draft

def addText (text : String) (d : Draft) : Draft := { d with text := d.text ++ text }

def addPlaceholder (e : Expression) (d : Draft) : Draft where
  text := d.text ++ e.renderPlaceholder
  interpolations :=
    d.interpolations ++ [⟨e, d.text.utf8ByteSize, (d.text ++ e.renderPlaceholder).utf8ByteSize⟩]

def add (s : Speech) (d : Draft) : Draft where
  text := d.text ++ s.text
  interpolations := d.interpolations ++
    Speech.interpolationsFrom (d.text ++ s.opening).utf8ByteSize s.placeholders

theorem add_ofString_empty (d : Draft) : d.add (.ofString "") = d := by
  obtain ⟨text, interpolations⟩ := d
  simp [add, Speech.ofString, Speech.text, Speech.interpolationsFrom]

theorem add_prependText (s : Speech) (text : String) (d : Draft) :
    d.add (s.prependText text) = (d.addText text).add s := by
  simp only [add, addText, Speech.prependText, Speech.text, String.append_assoc]

theorem add_prependPlaceholder (s : Speech) (e : Expression) (d : Draft) :
    d.add (s.prependPlaceholder e) = (d.addPlaceholder e).add s := by
  have htext : (s.prependPlaceholder e).text = e.renderPlaceholder ++ s.text := by
    rw [Speech.text, Speech.prependPlaceholder, List.map_cons, String.join_cons, String.empty_append,
      String.append_assoc, ← Speech.text]
  rw [add, htext]
  simp only [add, addPlaceholder, Speech.prependPlaceholder, Speech.interpolationsFrom_cons, String.append_empty,
    String.append_assoc, List.append_assoc, List.singleton_append]

end Draft

namespace Parse

variable {α β γ : Type} {s : TokenStream}

theorem bind_bind_apply (p : Parse α) (f : α → Parse β) (g : β → Parse γ) :
    ((p >>= f) >>= g) s = (p >>= fun a => f a >>= g) s := by
  rcases hread : p s with ⟨e | a, mid⟩
  · rw [bind_of_error (bind_of_error hread), bind_of_error hread]
  · rw [bind_of_ok hread]
    exact bind_congr (bind_of_ok hread)

theorem bind_apply_congr {p : Parse α} {f g : α → Parse β} (h : ∀ a mid, f a mid = g a mid) :
    (p >>= f) s = (p >>= g) s := by
  rcases hread : p s with ⟨e | a, mid⟩
  · rw [bind_of_error hread, bind_of_error hread]
  · rw [bind_of_ok hread, bind_of_ok hread, h]

/-- The text of a `say` as it grows, part by part. -/
def draft (limit : Nat) (stop : Position) (d : Draft) : Parse (Draft × Position) :=
  match limit with
  | 0 => return (d, stop)
  | limit + 1 => do
    match (← current).kind with
    | .string =>
      let token ← advance
      draft limit token.span.stop (d.addText token.value)
    | .placeholderStart =>
      let _ ← advance
      let e ← expression .lowest
      let close ← expect .placeholderEnd
      draft limit close.span.stop (d.addPlaceholder e)
    | _ => return (d, stop)

/-- Written from left to right the text and the ranges are those of the parts that are read. -/
theorem draft_eq (limit : Nat) (stop : Position) (d : Draft) (s : TokenStream) :
    draft limit stop d s = (speech limit stop >>= fun part => pure (d.add part.1, part.2)) s := by
  induction limit generalizing stop d s with
  | zero =>
    rw [draft, speech, pure_bind_apply, Draft.add_ofString_empty]
  | succ limit ih =>
    rw [draft, speech, current_bind_apply, bind_bind_apply, current_bind_apply]
    by_cases hstring : s.current.kind = .string
    · rw [hstring]
      dsimp only
      rw [advance_bind_apply, bind_bind_apply, advance_bind_apply, ih, bind_bind_apply]
      refine bind_apply_congr fun part mid => ?_
      rw [pure_bind_apply, Draft.add_prependText]
    by_cases hopening : s.current.kind = .placeholderStart
    · rw [hopening]
      dsimp only
      rw [advance_bind_apply, bind_bind_apply, advance_bind_apply, bind_bind_apply]
      refine bind_apply_congr fun e mid => ?_
      rw [bind_bind_apply]
      refine bind_apply_congr fun close mid => ?_
      rw [ih, bind_bind_apply]
      refine bind_apply_congr fun part mid => ?_
      rw [pure_bind_apply, Draft.add_prependPlaceholder]
    -- nothing is added where the text ends
    have hsame : (pure (d, stop) : Parse (Draft × Position)) = pure (d.add (.ofString ""), stop) := by
      rw [Draft.add_ofString_empty]
    generalize s.current.kind = kind at *
    cases kind <;> first | contradiction | exact congrFun hsame s

theorem draft_of_speech {limit : Nat} {stop stop' : Position} {part : Speech} {rest : TokenStream}
    (h : speech limit stop s = (.ok (part, stop'), rest)) :
    draft limit stop ⟨"", []⟩ s = (.ok (⟨part.text, part.interpolations⟩, stop'), rest) := by
  rw [draft_eq, bind_of_ok h, Draft.add, String.empty_append, String.empty_append, List.nil_append]
  rfl

open Grammar

variable {rest : TokenStream} {st : Statement}

/-- What is read as a `say`: any token, then strings and placeholders up to the end of the line. -/
theorem say_eq_ok (h : say s = (.ok st, rest)) :
    ∃ part word stop lineEnd ts, st = .say part ⟨word.span.start, stop⟩ ∧ s.tokens = word :: ts ∧
      lineEnd.kind = .newline ∧ Parts word.span.stop part stop ts (lineEnd :: rest.tokens) ∧
      speech s.tokens.length word.span.stop s.advance =
        (.ok (part, stop), ⟨lineEnd :: rest.tokens, s.finish⟩) := by
  obtain ⟨ts, finish⟩ := s
  unfold say at h
  dsimp only at h
  rw [advance_bind_apply] at h
  obtain ⟨⟨part, stop⟩, mid, hread, h⟩ := bind_eq_ok.1 h
  obtain ⟨lineEnd, _, hlineEnd, h⟩ := bind_eq_ok.1 h
  obtain ⟨rfl, rfl⟩ := pure_eq_ok.1 h
  by_cases hend : TokenStream.kind ⟨ts, finish⟩ = .endOfFile
  -- at the end of the file there is no line to be ended
  · rw [TokenStream.advance, if_pos hend, speech_stop (congrArg TokenKind.isContent hend)] at hread
    obtain rfl := (Prod.mk.inj hread).2
    obtain ⟨rest, rfl, hnewline, -⟩ := (expect_eq_ok (by decide)).1 hlineEnd
    rw [TokenStream.kind_cons, hnewline] at hend
    cases hend
  · obtain ⟨word, ts, rfl, hword⟩ := TokenStream.eq_cons_of_kind rfl hend
    rw [TokenStream.current_cons] at hread
    have hadvance : TokenStream.advance ⟨word :: ts, finish⟩ = ⟨ts, finish⟩ :=
      TokenStream.advance_cons (hword ▸ hend)
    obtain ⟨mid, rfl, hparts⟩ := speech_sound (hadvance ▸ hread)
    obtain ⟨rest, rfl, hnewline, rfl⟩ := (expect_eq_ok (by decide)).1 hlineEnd
    exact ⟨part, word, stop, lineEnd, ts, rfl, rfl, hnewline, hparts, hread⟩

/-- The placeholders of every `say` that is read are where its text says so. The text and the ranges are what is
written from left to right; the ranges are in order and exact, what is left without them is what the strings
outside of them say, and the text can be cut at them into the canonical form of the statement. -/
theorem say_placeholders_exact (h : say s = (.ok st, rest)) :
    ∃ part span word body lineEnd, st = .say part span ∧
      s.tokens = word :: body ++ lineEnd :: rest.tokens ∧ lineEnd.kind = .newline ∧
      draft s.tokens.length word.span.stop ⟨"", []⟩ s.advance =
        (.ok (⟨part.text, part.interpolations⟩, span.stop), ⟨lineEnd :: rest.tokens, s.finish⟩) ∧
      part.interpolations.Pairwise (fun i j => i.stop ≤ j.start) ∧
      (∀ i ∈ part.interpolations, i.IsExact part.text) ∧
      Speech.withoutPlaceholders? part.text part.interpolations = some (String.join (outerStrings 0 body)) ∧
      Speech.renderText? part.text part.interpolations = some st.render := by
  obtain ⟨part, word, stop, lineEnd, ts, rfl, htokens, hnewline, hparts, hread⟩ := say_eq_ok h
  obtain ⟨body, rfl, hbody⟩ := hparts.outerStrings
  refine ⟨part, _, word, body, lineEnd, rfl, htokens, hnewline, draft_of_speech hread,
    part.pairwise_interpolations, part.isExact_of_mem_interpolations, ?_, part.renderText?_text _⟩
  rw [hbody]
  exact part.withoutPlaceholders?_text

/-- Two placeholders; in the string inside the first one are a quote, a brace and a letter of two bytes. -/
def mixedTokens : List Token :=
  [⟨.sayWord, "say", ⟨⟨1, 1⟩, ⟨1, 4⟩⟩⟩, ⟨.string, "é", ⟨⟨1, 5⟩, ⟨1, 7⟩⟩⟩,
    ⟨.placeholderStart, "#\x7b", ⟨⟨1, 7⟩, ⟨1, 9⟩⟩⟩, ⟨.string, "\x7d\"ß", ⟨⟨1, 9⟩, ⟨1, 15⟩⟩⟩,
    ⟨.plus, "+", ⟨⟨1, 16⟩, ⟨1, 17⟩⟩⟩, ⟨.atSign, "@", ⟨⟨1, 18⟩, ⟨1, 19⟩⟩⟩,
    ⟨.identifier, "x", ⟨⟨1, 19⟩, ⟨1, 20⟩⟩⟩, ⟨.placeholderEnd, "\x7d", ⟨⟨1, 20⟩, ⟨1, 21⟩⟩⟩,
    ⟨.string, "ö", ⟨⟨1, 21⟩, ⟨1, 23⟩⟩⟩, ⟨.string, "!", ⟨⟨1, 24⟩, ⟨1, 26⟩⟩⟩,
    ⟨.placeholderStart, "#\x7b", ⟨⟨1, 26⟩, ⟨1, 28⟩⟩⟩, ⟨.trueWord, "true", ⟨⟨1, 28⟩, ⟨1, 32⟩⟩⟩,
    ⟨.placeholderEnd, "\x7d", ⟨⟨1, 32⟩, ⟨1, 33⟩⟩⟩, ⟨.newline, "\n", .point ⟨1, 34⟩⟩]

def mixedSpeech : Speech :=
  ⟨"é", [(.binary .add (.literal (.text "\x7d\"ß") ⟨⟨1, 9⟩, ⟨1, 15⟩⟩) (.var "x" ⟨⟨1, 18⟩, ⟨1, 20⟩⟩)
      ⟨⟨1, 9⟩, ⟨1, 20⟩⟩, "ö!"), (.literal (.boolean true) ⟨⟨1, 28⟩, ⟨1, 32⟩⟩, "")]⟩

/-- The tokens without an end of the file, and what is left of them: nothing. -/
theorem say_placeholders_exact_mixed :
    say (.ofTokens mixedTokens) = (.ok (.say mixedSpeech ⟨⟨1, 1⟩, ⟨1, 33⟩⟩), ⟨[], ⟨1, 34⟩⟩) ∧
      ∃ part span word body lineEnd, Statement.say mixedSpeech ⟨⟨1, 1⟩, ⟨1, 33⟩⟩ = .say part span ∧
        mixedTokens = word :: body ++ lineEnd :: [] ∧ lineEnd.kind = .newline ∧
        draft mixedTokens.length word.span.stop ⟨"", []⟩ (TokenStream.ofTokens mixedTokens).advance =
          (.ok (⟨part.text, part.interpolations⟩, span.stop), ⟨[lineEnd], ⟨1, 34⟩⟩) ∧
        part.interpolations.Pairwise (fun i j => i.stop ≤ j.start) ∧
        (∀ i ∈ part.interpolations, i.IsExact part.text) ∧
        Speech.withoutPlaceholders? part.text part.interpolations =
          some (String.join (outerStrings 0 body)) ∧
        Speech.renderText? part.text part.interpolations =
          some (Statement.say mixedSpeech ⟨⟨1, 1⟩, ⟨1, 33⟩⟩).render := by
  have hread : say (.ofTokens mixedTokens) =
      (.ok (.say mixedSpeech ⟨⟨1, 1⟩, ⟨1, 33⟩⟩), ⟨[], ⟨1, 34⟩⟩) := by decide +kernel
  exact ⟨hread, say_placeholders_exact hread⟩

end Parse

end DialogueScript

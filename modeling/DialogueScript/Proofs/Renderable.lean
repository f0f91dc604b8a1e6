import Mathlib
import DialogueScript.Reading
import DialogueScript.Proofs.Numerals
import DialogueScript.Proofs.ProgramParsing

namespace DialogueScript

namespace Expression

def number? : Expression → Option Double
  | literal (.number x) _ => some x
  | _ => none

def numbers (e : Expression) : List Double := e.parts.filterMap number?

end Expression

def Statement.numbers (s : Statement) : List Double := s.expressions.flatMap Expression.numbers

def Speech.runs (s : Speech) : List String := s.opening :: s.placeholders.map (·.2)

theorem Speech.exists_run (s : Speech) {p : String → Prop} :
    (∃ run ∈ s.runs, p run) ↔ p s.opening ∨ ∃ placeholder ∈ s.placeholders, p placeholder.2 := by
  unfold runs
  rw [List.exists_mem_cons_iff]
  apply or_congr_right
  constructor
  · rintro ⟨run, hrun, hp⟩
    obtain ⟨placeholder, hmem, rfl⟩ := List.mem_map.1 hrun
    exact ⟨placeholder, hmem, hp⟩
  · rintro ⟨placeholder, hmem, hp⟩
    exact ⟨_, List.mem_map_of_mem hmem, hp⟩

def Statement.runs : Statement → List String
  | say speech _ => speech.runs
  | assign .. | choice .. | goto .. => []

/-- What the canonical text of a program can express. -/
structure Program.Renderable (program : Program) : Prop where
  finite : ∀ node ∈ program, ∀ s ∈ node.statements, ∀ x ∈ s.numbers, x.isFinite = true
  plain : ∀ node ∈ program, ∀ s ∈ node.statements, ∀ run ∈ s.runs, IsPlain run.toList

/-- The number that a token denotes, if it is a numeral. -/
def Token.reading? (t : Token) : Option Double :=
  if t.kind = .number then Double.parse? t.value.toList else none

def readings (ts : List Token) : List Double := ts.filterMap Token.reading?

/-- Whether a numeral stays below half a step above the greatest double. -/
def Token.InRange (t : Token) : Prop :=
  ∀ d ∈ Decimal.parse? t.value.toList, d.mantissa < (2 ^ 54 - 1) * 2 ^ 970 * 10 ^ (-d.exponent).toNat

/-- Whether a string that ends in `#` and one that begins with an opening brace meet, with nothing
but empty strings between them. `pending` tells whether the strings right before end in `#`. -/
def meets (pending : Bool) : List Token → Bool
  | [] => false
  | t :: ts =>
    if t.kind = .string then
      let text := t.value.toList
      (pending && text.head? = some '{') ||
        meets (if text = [] then pending else text.getLast? = some '#') ts
    else meets false ts

theorem isPlain_append {a b : List Char} :
    IsPlain (a ++ b) ↔ IsPlain a ∧ IsPlain b ∧ ¬ (a.getLast? = some '#' ∧ b.head? = some '{') := by
  induction a with
  | nil => simp [IsPlain]
  | cons c a ih =>
    rw [List.cons_append, isPlain_cons, isPlain_cons, ih]
    cases a with
    | nil =>
      simp only [List.nil_append, List.getLast?_singleton, Option.some.injEq]
      tauto
    | cons d a =>
      rw [List.getLast?_cons_cons]
      simp only [List.cons_append, List.head?_cons]
      tauto

theorem readings_cons {t : Token} (h : t.kind ≠ .number) (ts : List Token) :
    readings (t :: ts) = readings ts :=
  List.filterMap_cons_none (if_neg h)

theorem meets_cons {t : Token} (h : t.kind ≠ .string) (pending : Bool) (ts : List Token) :
    meets pending (t :: ts) = meets false ts := by
  rw [meets, if_neg h]

theorem meets_string {t : Token} (h : t.kind = .string) (pending : Bool) (ts : List Token) :
    meets pending (t :: ts) = ((pending && t.value.toList.head? = some '{') ||
      meets (if t.value.toList = [] then pending else t.value.toList.getLast? = some '#') ts) := by
  rw [meets, if_pos h]

theorem getLast?_append_eq_hash (a b : List Char) :
    (if b = [] then decide (a.getLast? = some '#') else decide (b.getLast? = some '#')) =
      decide ((a ++ b).getLast? = some '#') := by
  cases b with
  | nil => rw [if_pos rfl, List.append_nil]
  | cons c b =>
    rw [if_neg (by simp), List.getLast?_append, List.getLast?_cons]
    rfl

namespace Grammar

def Phrase.numbers : Phrase → List Double
  | expression _ e => e.numbers
  | arguments es => (Expression.partsOfAll es).filterMap Expression.number?

section Numbers

open Expression

variable {ts rest : List Token}

theorem numbers_binary (operator : BinaryOperator) (left right : Expression) (span : Span) :
    (binary operator left right span).numbers = left.numbers ++ right.numbers :=
  (List.filterMap_cons_none rfl).trans List.filterMap_append

theorem numbers_unary (operator : UnaryOperator) (e : Expression) (span : Span) :
    (Expression.unary operator e span).numbers = e.numbers :=
  List.filterMap_cons_none rfl

theorem numbers_call (name : String) (args : List Expression) (span : Span) :
    (call name args span).numbers = (partsOfAll args).filterMap number? :=
  List.filterMap_cons_none rfl

theorem Derives.readings {phrase : Phrase} (h : Derives phrase ts rest) :
    readings ts = phrase.numbers ++ readings rest := by
  induction h with
  | @number t x ts hkind hx =>
    have hreading : t.reading? = some x := by rw [Token.reading?, if_pos hkind, hx]
    exact List.filterMap_cons_some hreading
  | text hkind | yes hkind | no hkind =>
    rw [readings_cons (by simp [hkind])]
    rfl
  | «variable» hsign hname =>
    rw [readings_cons (by simp [hsign]),
      readings_cons (by simp [hname])]
    rfl
  | emptyCall hname hopening hclose =>
    rw [readings_cons (by simp [hname]),
      readings_cons (by simp [hopening]),
      readings_cons (by simp [hclose])]
    rfl
  | call hname hopening hclose _ ih =>
    rw [readings_cons (by simp [hname]),
      readings_cons (by simp [hopening]), ih,
      readings_cons (by simp [hclose])]
    exact congrArg (· ++ _) (numbers_call ..).symm
  | parenthesized hopening hclose _ ih =>
    rw [readings_cons (by simp [hopening]), ih,
      readings_cons (by simp [hclose])]
    rfl
  | unary hsign _ ih =>
    rw [readings_cons _, ih]
    · exact congrArg (· ++ _) (numbers_unary ..).symm
    · intro hkind
      simp [hkind, signs_lookup, UnaryOperator.ofToken?] at hsign
  | binary hsign _ _ ihl ihr =>
    rw [ihl, readings_cons _, ihr, ← List.append_assoc]
    · exact congrArg (· ++ _) (numbers_binary ..).symm
    · intro hkind
      rw [Tier.operator?_eq_some, hkind] at hsign
      exact absurd hsign.1 (by simp [BinaryOperator.ofToken?])
  | operand _ _ ih => exact ih
  | lastArgument _ ih =>
    rw [ih]
    simp [Phrase.numbers, Expression.numbers, partsOfAll]
  | argument hcomma _ _ ihe ihes =>
    rw [ihe, readings_cons (by simp [hcomma]), ihes]
    simp [Phrase.numbers, Expression.numbers, partsOfAll]

end Numbers

variable {ts rest : List Token}

theorem Derives.meets {phrase : Phrase} (h : Derives phrase ts rest) :
    ∃ pending, meets false ts = DialogueScript.meets pending rest := by
  induction h with
  | number hkind | yes hkind | no hkind => exact ⟨false, meets_cons (by simp [hkind]) _ _⟩
  | text hkind => exact ⟨_, (meets_string hkind false _).trans (Bool.false_or _)⟩
  | «variable» hsign hname =>
    refine ⟨false, ?_⟩
    rw [meets_cons (by simp [hsign]), meets_cons (by simp [hname])]
  | emptyCall hname hopening hclose =>
    refine ⟨false, ?_⟩
    rw [meets_cons (by simp [hname]), meets_cons (by simp [hopening]),
      meets_cons (by simp [hclose])]
  | call hname hopening hclose _ ih =>
    obtain ⟨pending, ih⟩ := ih
    refine ⟨false, ?_⟩
    rw [meets_cons (by simp [hname]), meets_cons (by simp [hopening]), ih,
      meets_cons (by simp [hclose])]
  | parenthesized hopening hclose _ ih =>
    obtain ⟨pending, ih⟩ := ih
    refine ⟨false, ?_⟩
    rw [meets_cons (by simp [hopening]), ih, meets_cons (by simp [hclose])]
  | unary hsign _ ih =>
    rw [meets_cons]
    · exact ih
    · intro hkind
      simp [hkind, signs_lookup, UnaryOperator.ofToken?] at hsign
  | binary hsign _ _ ihl ihr =>
    obtain ⟨pending, ihl⟩ := ihl
    rw [ihl, meets_cons]
    · exact ihr
    · intro hkind
      rw [Tier.operator?_eq_some, hkind] at hsign
      exact absurd hsign.1 (by simp [BinaryOperator.ofToken?])
  | operand _ _ ih | lastArgument _ ih => exact ih
  | argument hcomma _ _ ihe ihes =>
    obtain ⟨pending, ihe⟩ := ihe
    rw [ihe, meets_cons (by simp [hcomma])]
    exact ihes

theorem Derives.meets_eq {phrase : Phrase} {t : Token} (h : Derives phrase ts (t :: rest))
    (ht : t.kind ≠ .string) : DialogueScript.meets false ts = DialogueScript.meets false rest := by
  obtain ⟨pending, hmeets⟩ := h.meets
  rw [hmeets, meets_cons ht]

theorem Parts.readings {stop stop' : Position} {speech : Speech}
    (h : Parts stop speech stop' ts rest) :
    readings ts = speech.placeholders.flatMap (·.1.numbers) ++ DialogueScript.readings rest := by
  induction h with
  | nil => rfl
  | text hkind _ ih =>
    rw [readings_cons (by simp [hkind]), ih]
    rfl
  | placeholder hopening hclose he _ ih =>
    rw [readings_cons (by simp [hopening]), he.readings, readings_cons (by simp [hclose]), ih,
      ← List.append_assoc]
    rfl

/-- The strings of a `say` behind the text `pre`. They meet where a run of its text is not plain. -/
theorem Parts.meets {stop stop' : Position} {speech : Speech} {lineEnd : Token}
    (h : Parts stop speech stop' ts (lineEnd :: rest)) (hend : lineEnd.kind = .newline)
    (hplain : ∀ t ∈ ts, t.kind = .string → IsPlain t.value.toList) {pre : List Char}
    (hpre : IsPlain pre) :
    meets (pre.getLast? = some '#') ts = true ↔
      (¬ IsPlain (pre ++ speech.opening.toList) ∨
        ∃ p ∈ speech.placeholders, ¬ IsPlain p.2.toList) ∨ DialogueScript.meets false rest = true := by
  generalize hall : lineEnd :: rest = all at h
  induction h generalizing pre with
  | nil =>
    subst hall
    rw [meets_cons (by simp [hend])]
    simp [Speech.ofString, hpre]
  | @text stop stop' t speech ts all hkind hparts ih =>
    have ht : IsPlain t.value.toList := hplain t (by simp) hkind
    have hopening : (speech.prependText t.value).opening.toList = t.value.toList ++ speech.opening.toList :=
      String.toList_append
    rw [meets_string hkind, Bool.or_eq_true, Bool.and_eq_true, decide_eq_true_iff, decide_eq_true_iff,
      hopening, ← List.append_assoc]
    -- either the placeholder opens right here, or the string belongs to the text before what follows
    by_cases hjoin : pre.getLast? = some '#' ∧ t.value.toList.head? = some '{'
    · have hbroken : ¬ IsPlain (pre ++ t.value.toList ++ speech.opening.toList) := by
        rw [isPlain_append, isPlain_append]
        exact fun h => h.1.2.2 hjoin
      exact iff_of_true (.inl hjoin) (.inl (.inl hbroken))
    · have hjoined : IsPlain (pre ++ t.value.toList) := isPlain_append.2 ⟨hpre, ht, hjoin⟩
      apply Iff.trans _ (ih (fun u hu => hplain u (List.mem_cons_of_mem _ hu)) hjoined hall)
      simp only [hjoin, false_or]
      rw [getLast?_append_eq_hash]
  | @placeholder stop stop' opening close e speech ts mid all hopening hclose he hparts ih =>
    have hnil : IsPlain [] := by simp [IsPlain]
    -- a placeholder begins a new run
    have hmid : ∀ t ∈ mid, t.kind = .string → IsPlain t.value.toList := by
      intro t ht
      obtain ⟨passed, hpassed, -⟩ := he.passes
      exact hplain t (by simp [hpassed, ht])
    rw [meets_cons (by simp [hopening]), he.meets_eq (by simp [hclose])]
    have := ih hmid hnil hall
    simp only [List.getLast?_nil, reduceCtorEq, decide_false, List.nil_append] at this
    rw [this]
    simp [Speech.prependPlaceholder, hpre]

/-- The statements read between `ts` and `rest` have the numbers of the numerals there, and a run of
theirs is not plain exactly if strings meet there. -/
structure Accounts (ss : List Statement) (ts rest : List Token) : Prop where
  readings : readings ts = ss.flatMap Statement.numbers ++ DialogueScript.readings rest
  meets : meets false ts = true ↔
    (∃ s ∈ ss, ∃ run ∈ s.runs, ¬ IsPlain run.toList) ∨ DialogueScript.meets false rest = true

namespace Accounts

variable {ss : List Statement}

theorem refl (ts : List Token) : Accounts [] ts ts := ⟨rfl, by simp⟩

theorem cons {t : Token} (hnumber : t.kind ≠ .number) (hstring : t.kind ≠ .string)
    (h : Accounts ss ts rest) : Accounts ss (t :: ts) rest :=
  ⟨(readings_cons hnumber ts).trans h.readings, by rw [meets_cons hstring]; exact h.meets⟩

theorem tail {t : Token} (h : Accounts ss ts (t :: rest)) (hnumber : t.kind ≠ .number)
    (hstring : t.kind ≠ .string) : Accounts ss ts rest :=
  ⟨by rw [h.readings, readings_cons hnumber], by rw [h.meets, meets_cons hstring]⟩

theorem append {more : List Statement} {mid : List Token} (h : Accounts ss ts mid)
    (h' : Accounts more mid rest) : Accounts (ss ++ more) ts rest := by
  constructor
  · rw [h.readings, h'.readings, List.flatMap_append, List.append_assoc]
  · rw [h.meets, h'.meets, ← or_assoc]
    simp only [List.mem_append, or_and_right, exists_or]

end Accounts

theorem Guard.readings {guard? : Option Expression} (h : Guard guard? ts rest) :
    readings ts = guard?.toList.flatMap Expression.numbers ++ DialogueScript.readings rest := by
  cases h with
  | absent => rfl
  | present hcomma hword hcolon he =>
    rw [readings_cons (by simp [hcomma]), readings_cons (by simp [hword]),
      readings_cons (by simp [hcolon]), he.readings]
    simp [Phrase.numbers]

theorem Guard.meets_eq {guard? : Option Expression} {t : Token} (h : Guard guard? ts (t :: rest))
    (ht : t.kind ≠ .string) : DialogueScript.meets false ts = DialogueScript.meets false rest := by
  cases h with
  | absent => exact meets_cons ht _ _
  | present hcomma hword hcolon he =>
    rw [meets_cons (by simp [hcomma]), meets_cons (by simp [hword]), meets_cons (by simp [hcolon]),
      he.meets_eq ht]

theorem Line.accounts {s : Statement} (h : Line s ts rest)
    (hplain : ∀ t ∈ ts, t.kind = .string → IsPlain t.value.toList) : Accounts [s] ts rest := by
  cases h with
  | @assign sign name mark operator value lineEnd ts rest hsign hname hmark hend hvalue =>
    have hkind : mark.kind ≠ .number ∧ mark.kind ≠ .string := by
      constructor <;> intro hkind <;>
        simp [hkind, assignments_lookup, AssignOperator.ofToken?] at hmark
    constructor
    · rw [readings_cons (by simp [hsign]), readings_cons (by simp [hname]), readings_cons hkind.1,
        hvalue.readings, readings_cons (by simp [hend])]
      simp [Statement.numbers, Statement.expressions, Phrase.numbers]
    · rw [meets_cons (by simp [hsign]), meets_cons (by simp [hname]), meets_cons hkind.2,
        hvalue.meets_eq (by simp [hend])]
      simp [Statement.runs]
  | @say word speech stop lineEnd ts rest hword hend hspeech =>
    have hnil : IsPlain [] := by simp [IsPlain]
    constructor
    · rw [readings_cons (by simp [hword]), hspeech.readings, readings_cons (by simp [hend])]
      simp [Statement.numbers, Statement.expressions, List.flatMap_map]
    · have hmeets := hspeech.meets hend (fun t ht => hplain t (List.mem_cons_of_mem _ ht)) hnil
      simp only [List.getLast?_nil, reduceCtorEq, decide_false, List.nil_append] at hmeets
      have hruns := speech.exists_run (p := fun run => ¬ IsPlain run.toList)
      rw [meets_cons (by simp [hword]), hmeets, ← hruns]
      simp only [List.mem_singleton, exists_eq_left, Statement.runs]
  | @choice word text comma colon name guard? lineEnd ts rest hword htext hcomma hcolon hname hend hguard =>
    constructor
    · rw [readings_cons (by simp [hword]), readings_cons (by simp [htext]),
        readings_cons (by simp [hcomma]), readings_cons (by simp [hcolon]),
        readings_cons (by simp [hname]), hguard.readings, readings_cons (by simp [hend])]
      simp [Statement.numbers, Statement.expressions]
    · rw [meets_cons (by simp [hword]), meets_string htext, Bool.false_and, Bool.false_or,
        meets_cons (by simp [hcomma]), meets_cons (by simp [hcolon]), meets_cons (by simp [hname]),
        hguard.meets_eq (by simp [hend])]
      simp [Statement.runs]
  | @goto word colon name lineEnd rest hword hcolon hname hend =>
    constructor
    · rw [readings_cons (by simp [hword]), readings_cons (by simp [hcolon]),
        readings_cons (by simp [hname]), readings_cons (by simp [hend])]
      rfl
    · rw [meets_cons (by simp [hword]), meets_cons (by simp [hcolon]), meets_cons (by simp [hname]),
        meets_cons (by simp [hend])]
      simp [Statement.runs]

theorem Body.accounts {ss : List Statement} (h : Body ss ts rest)
    (hplain : ∀ t ∈ ts, t.kind = .string → IsPlain t.value.toList) : Accounts ss ts rest := by
  induction h with
  | nil => exact .refl _
  | newline hend _ ih =>
    exact (ih fun t ht => hplain t (List.mem_cons_of_mem _ ht)).cons (by simp [hend]) (by simp [hend])
  | line hline _ ih =>
    obtain ⟨passed, rfl, -⟩ := hline.passes
    exact (hline.accounts hplain).append (ih fun t ht => hplain t (List.mem_append_right _ ht))

theorem NodeText.accounts {node : Node} (h : NodeText node ts rest)
    (hplain : ∀ t ∈ ts, t.kind = .string → IsPlain t.value.toList) :
    Accounts node.statements ts rest := by
  obtain ⟨hword, hname, hend, hfinal, hblock⟩ := h
  apply Accounts.cons (by simp [hword]) (by simp [hword])
  apply Accounts.cons (by simp [hname]) (by simp [hname])
  apply Accounts.cons (by simp [hend]) (by simp [hend])
  cases hblock with
  | absent => exact (Accounts.refl _).cons (by simp [hfinal]) (by simp [hfinal])
  | present hindent hdedent hbody =>
    have hss := hbody.accounts fun t ht => hplain t (by simp [ht])
    have hss := (hss.tail (by simp [hdedent]) (by simp [hdedent])).tail (by simp [hfinal])
      (by simp [hfinal])
    exact hss.cons (by simp [hindent]) (by simp [hindent])

theorem Script.accounts {program : Program} (h : Script program ts)
    (hplain : ∀ t ∈ ts, t.kind = .string → IsPlain t.value.toList) :
    Accounts (program.flatMap (·.statements)) ts [] := by
  induction h with
  | done hkind => exact (Accounts.refl []).cons (by simp [hkind]) (by simp [hkind])
  | newline hend _ ih =>
    exact (ih fun t ht => hplain t (List.mem_cons_of_mem _ ht)).cons (by simp [hend]) (by simp [hend])
  | node hnode _ ih =>
    obtain ⟨passed, rfl, -⟩ := hnode.passes
    exact (hnode.accounts hplain).append (ih fun t ht => hplain t (List.mem_append_right _ ht))

end Grammar

theorem Token.isFinite_reading {t : Token} (h : t.Formed) (hkind : t.kind = .number) :
    (∀ x ∈ t.reading?, x.isFinite = true) ↔ t.InRange := by
  unfold Token.Formed at h
  rw [hkind] at h
  obtain ⟨whole, fraction, htext, hwhole, hdigits⟩ := h
  unfold Token.reading? Token.InRange
  rw [if_pos hkind, htext, Double.parse?_decimalText hwhole hdigits,
    Decimal.parse?_decimalText hwhole hdigits]
  simp only [Option.mem_def, Option.some.injEq, forall_eq']
  rw [Double.isFinite_ofRatio (Nat.pow_pos (by decide)), Int.neg_neg, Int.toNat_natCast]

/-- The program of a script is one that its canonical text can express exactly if no numeral of the
script is too large and no two strings of it join to the beginning of a placeholder. -/
theorem renderable_iff {source : String} {tokens : List Token} {program : Program}
    (h : tokenize source = .ok tokens) (hparse : parse tokens = .ok program) :
    program.Renderable ↔
      (∀ t ∈ tokens, t.kind = .number → t.InRange) ∧ meets false tokens = false := by
  have hlex := tokenize_eq_ok_iff_lex.1 h
  have hformed := formed_of_lex hlex
  -- tokens and program are compared along the derivation, not along the parser
  have hscript := (parse_eq_ok (terminated_of_lex hlex)).1 hparse
  have hplain : ∀ t ∈ tokens, t.kind = .string → IsPlain t.value.toList := by
    intro t ht hkind
    have := hformed t ht
    unfold Token.Formed at this
    rwa [hkind] at this
  have haccounts := hscript.accounts hplain
  have hfinite : (∀ node ∈ program, ∀ s ∈ node.statements, ∀ x ∈ s.numbers, x.isFinite = true) ↔
      ∀ t ∈ tokens, t.kind = .number → t.InRange := by
    have hnumbers : (program.flatMap (·.statements)).flatMap Statement.numbers = readings tokens := by
      rw [haccounts.readings]
      exact (List.append_nil _).symm
    have hreadings : (∀ node ∈ program, ∀ s ∈ node.statements, ∀ x ∈ s.numbers, x.isFinite = true) ↔
        ∀ x ∈ readings tokens, x.isFinite = true := by
      rw [← hnumbers]
      simp only [List.mem_flatMap]
      constructor
      · rintro h x ⟨s, ⟨node, hnode, hs⟩, hx⟩
        exact h node hnode s hs x hx
      · intro h node hnode s hs x hx
        exact h x ⟨s, ⟨node, hnode, hs⟩, hx⟩
    rw [hreadings]
    constructor
    · intro h t ht hkind
      rw [← t.isFinite_reading (hformed t ht) hkind]
      exact fun x hx => h x (List.mem_filterMap.2 ⟨t, ht, hx⟩)
    · intro h x hx
      obtain ⟨t, ht, hx⟩ := List.mem_filterMap.1 hx
      have hkind : t.kind = .number := by
        by_contra hkind
        simp [Token.reading?, hkind] at hx
      exact (t.isFinite_reading (hformed t ht) hkind).2 (h t ht hkind) x hx
  have hruns : (∀ node ∈ program, ∀ s ∈ node.statements, ∀ run ∈ s.runs, IsPlain run.toList) ↔
      meets false tokens = false := by
    rw [← Bool.not_eq_true, haccounts.meets]
    simp only [List.mem_flatMap]
    constructor
    · rintro h (⟨s, ⟨node, hnode, hs⟩, run, hrun, hbroken⟩ | hnil)
      · exact hbroken (h node hnode s hs run hrun)
      · cases hnil
    · intro h node hnode s hs run hrun
      by_contra hbroken
      exact h (.inl ⟨s, ⟨node, hnode, hs⟩, run, hrun, hbroken⟩)
  rw [← hfinite, ← hruns]
  exact ⟨fun h => ⟨h.finite, h.plain⟩, fun h => ⟨h.1, h.2⟩⟩

/-- A script in which two plain strings join to the beginning of a placeholder. -/
def joinedStrings : String := "node start\n  say \"#\" \"\x7b\"\nend\n"

def joinedTokens : List Token :=
  [⟨.nodeWord, "node", ⟨⟨1, 1⟩, ⟨1, 5⟩⟩⟩, ⟨.identifier, "start", ⟨⟨1, 6⟩, ⟨1, 11⟩⟩⟩,
    ⟨.newline, "\n", .point ⟨1, 11⟩⟩, ⟨.indent, "2", ⟨⟨2, 1⟩, ⟨2, 3⟩⟩⟩,
    ⟨.sayWord, "say", ⟨⟨2, 3⟩, ⟨2, 6⟩⟩⟩, ⟨.string, "#", ⟨⟨2, 7⟩, ⟨2, 10⟩⟩⟩,
    ⟨.string, "\x7b", ⟨⟨2, 11⟩, ⟨2, 14⟩⟩⟩, ⟨.newline, "\n", .point ⟨2, 14⟩⟩,
    ⟨.dedent, "", .point ⟨3, 1⟩⟩, ⟨.endWord, "end", ⟨⟨3, 1⟩, ⟨3, 4⟩⟩⟩,
    ⟨.newline, "\n", .point ⟨3, 4⟩⟩, .endOfFile ⟨4, 1⟩]

def joinedProgram : Program :=
  [⟨"start", [.say ⟨"#\x7b", []⟩ ⟨⟨2, 3⟩, ⟨2, 14⟩⟩], ⟨⟨1, 1⟩, ⟨3, 4⟩⟩⟩]

theorem tokenize_joinedStrings : tokenize joinedStrings = .ok joinedTokens :=
  tokenize_eq_ok_iff_lex.2 (by cbv)

theorem parse_joinedTokens : parse joinedTokens = .ok joinedProgram := by rfl

/-- Both sides of the equivalence fail for the script with joined strings. -/
theorem renderable_joinedProgram_iff :
    tokenize joinedStrings = .ok joinedTokens ∧ parse joinedTokens = .ok joinedProgram ∧
      (joinedProgram.Renderable ↔
        (∀ t ∈ joinedTokens, t.kind = .number → t.InRange) ∧ meets false joinedTokens = false) :=
  ⟨tokenize_joinedStrings, parse_joinedTokens,
    renderable_iff tokenize_joinedStrings parse_joinedTokens⟩

/-- An accepted script whose text would begin a placeholder if it was written as one string. -/
theorem not_renderable_joinedProgram :
    readProgram joinedStrings = .ok joinedProgram ∧ ¬ joinedProgram.Renderable := by
  constructor
  · simp only [readProgram, tokenize_joinedStrings, parse_joinedTokens, Except.mapError]
  · intro h
    have hplain := h.plain _ (List.mem_singleton.2 rfl) _ (List.mem_singleton.2 rfl)
      "#\x7b" (List.mem_singleton.2 rfl)
    exact hplain ⟨[], [], by decide⟩

end DialogueScript

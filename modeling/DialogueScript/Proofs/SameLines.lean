import DialogueScript.Proofs.ScanOrder
import DialogueScript.Proofs.Scanning

namespace DialogueScript

/-- `b` consists of the lines of `a`, which may end in other ways, and of `more` behind them. -/
inductive SameLines (more : List Char) : List Char → List Char → Prop
  | nil : SameLines more [] more
  | char {x : Char} {a b : List Char} (hx : isBreak x = false) (h : SameLines more a b) :
    SameLines more (x :: a) (x :: b)
  | ends {u v a b : List Char} (hu : LineBreak u a) (hv : LineBreak v b) (h : SameLines more a b) :
    SameLines more (u ++ a) (v ++ b)

/-- Nothing is behind `a`, or its last line has an end. -/
def Whole (more a : List Char) : Prop := more = [] ∨ a.getLast? = some '\n'

namespace Whole

variable {more a : List Char}

theorem tail {x : Char} (h : Whole more (x :: a)) (hx : isBreak x = false) : Whole more a := by
  refine h.imp_right fun hlast => ?_
  cases a with
  | nil =>
    obtain rfl := Option.some.inj hlast
    cases hx
  | cons y a => rwa [List.getLast?_cons_cons] at hlast

theorem eq_nil (h : Whole more []) : more = [] := h.resolve_right (by simp)

end Whole

namespace LineBreak

variable {u v a b : List Char}

theorem exists_cons (h : LineBreak u a) : ∃ x tail, u = x :: tail ∧ isBreak x = true := by
  cases h <;> exact ⟨_, _, rfl, rfl⟩

theorem inj (hu : LineBreak u a) (hv : LineBreak v b) (h : u ++ a = v ++ b) : a = b := by
  cases hu <;> cases hv <;> grind

end LineBreak

namespace SameLines

variable {more a b : List Char} {x : Char}

theorem cons_inv (h : SameLines more (x :: a) b) (hx : isBreak x = false) :
    ∃ b', b = x :: b' ∧ SameLines more a b' := by
  generalize ha : x :: a = a₀ at h
  cases h with
  | nil => cases ha
  | char _ h =>
    cases ha
    exact ⟨_, rfl, h⟩
  | ends hu =>
    obtain ⟨y, tail, rfl, hy⟩ := hu.exists_cons
    obtain ⟨rfl, -⟩ := List.cons.inj ha
    exact Bool.noConfusion (hx.symm.trans hy)

theorem break_inv {u : List Char} (h : SameLines more (u ++ a) b) (hu : LineBreak u a) :
    ∃ v b', LineBreak v b' ∧ b = v ++ b' ∧ SameLines more a b' := by
  obtain ⟨x, tail, hx, hbreak⟩ := hu.exists_cons
  generalize ha : u ++ a = a₀ at h
  cases h with
  | nil => simp [hx] at ha
  | char hy _ =>
    rw [hx] at ha
    obtain ⟨rfl, -⟩ := List.cons.inj ha
    exact Bool.noConfusion (hy.symm.trans hbreak)
  | ends hu' hv h =>
    obtain rfl := hu.inj hu' ha
    exact ⟨_, _, hv, rfl, h⟩

theorem head (h : SameLines more (x :: a) b) :
    ∃ y b', b = y :: b' ∧ (x = y ∧ isBreak x = false ∨ isBreak x = true ∧ isBreak y = true) := by
  cases hx : isBreak x with
  | false =>
    obtain ⟨b', rfl, -⟩ := h.cons_inv hx
    exact ⟨x, b', rfl, .inl ⟨rfl, rfl⟩⟩
  | true =>
    obtain ⟨u, a', hu, hsplit⟩ := Cursor.exists_lineBreak hx a
    obtain ⟨v, b', hv, rfl, -⟩ := (hsplit ▸ h).break_inv hu
    obtain ⟨y, tail, rfl, hy⟩ := hv.exists_cons
    exact ⟨y, tail ++ b', rfl, .inr ⟨rfl, hy⟩⟩

theorem eq_more (h : SameLines more a b) (ha : a = []) : b = more := by
  cases h with
  | nil => rfl
  | char => cases ha
  | ends hu =>
    obtain ⟨y, tail, rfl, -⟩ := hu.exists_cons
    cases ha

theorem append_inv {text : List Char} (h : SameLines more (text ++ a) b)
    (hplain : ∀ x ∈ text, isBreak x = false) : ∃ b', b = text ++ b' ∧ SameLines more a b' := by
  induction text generalizing b with
  | nil => exact ⟨b, rfl, h⟩
  | cons x text ih =>
    obtain ⟨hx, htext⟩ := List.forall_mem_cons.1 hplain
    obtain ⟨b₁, rfl, h₁⟩ := h.cons_inv hx
    obtain ⟨b', rfl, h'⟩ := ih h₁ htext
    exact ⟨b', rfl, h'⟩

theorem exists_line (h : SameLines more a b) (hwhole : Whole more a) :
    ∃ line a' b', a = line ++ a' ∧ b = line ++ b' ∧ (∀ x ∈ line, isBreak x = false) ∧
      (∀ x ∈ a'.head?, isBreak x = true) ∧ ∀ x ∈ b'.head?, isBreak x = true := by
  induction h with
  | nil =>
    obtain rfl := hwhole.eq_nil
    exact ⟨[], [], [], rfl, rfl, by simp, by simp, by simp⟩
  | @char x a b hx h ih =>
    obtain ⟨line, a', b', rfl, rfl, hplain, ha, hb⟩ := ih (hwhole.tail hx)
    exact ⟨x :: line, a', b', rfl, rfl, List.forall_mem_cons.2 ⟨hx, hplain⟩, ha, hb⟩
  | @ends u v a b hu hv =>
    refine ⟨[], u ++ a, v ++ b, rfl, rfl, by simp, ?_, ?_⟩
    · obtain ⟨y, tail, rfl, hy⟩ := hu.exists_cons
      simpa using hy
    · obtain ⟨y, tail, rfl, hy⟩ := hv.exists_cons
      simpa using hy

end SameLines

/-- A text in front of others has the same lines, unless its last break is the first half of another one. -/
theorem sameLines_append {more text : List Char} (h : more = [] ∨ text.getLast? ≠ some '\r') :
    SameLines more text (text ++ more) := by
  have htail : ∀ {x : Char} {rest : List Char}, (more = [] ∨ (x :: rest).getLast? ≠ some '\r') →
      more = [] ∨ rest.getLast? ≠ some '\r' := by
    intro x rest h
    refine h.imp_right fun hlast => ?_
    cases rest with
    | nil => simp
    | cons y rest => rwa [List.getLast?_cons_cons] at hlast
  fun_induction linesFrom 0 text
  case case1 => exact .nil
  case case2 rest _ ih =>
    exact .ends (u := ['\r', '\n']) (v := ['\r', '\n']) (.both rest) (.both _) (ih (htail (htail h)))
  case case3 rest _ ih =>
    exact .ends (u := ['\n']) (v := ['\n']) (.lineFeed rest) (.lineFeed _) (ih (htail h))
  case case4 rest hboth _ ih =>
    have hrest : rest.head? ≠ some '\n' := fun hhead => by
      obtain ⟨tail, rfl⟩ := List.head?_eq_some_iff.1 hhead
      exact hboth tail rfl
    refine .ends (u := ['\r']) (v := ['\r']) (.carriageReturn hrest) (.carriageReturn ?_) (ih (htail h))
    cases rest with
    | nil =>
      obtain rfl := h.resolve_right fun hlast => hlast rfl
      exact hrest
    | cons y rest => exact hrest
  case case5 x rest _ hfeed hreturn _ ih =>
    exact .char (by simpa [isBreak] using ⟨hfeed, hreturn⟩) (ih (htail h))

section Line

variable {line rest : List Char} {p : Char → Bool}

theorem takeWhile_line (hrest : ∀ x ∈ rest.head?, isBreak x = true) (hp : p '\n' = false ∧ p '\r' = false) :
    (line ++ rest).takeWhile p = line.takeWhile p ∧ (line ++ rest).dropWhile p = line.dropWhile p ++ rest := by
  have hstop : ∀ x ∈ rest.head?, p x = false := fun x hx => by
    rcases isBreak_iff.1 (hrest x hx) with rfl | rfl
    · exact hp.1
    · exact hp.2
  induction line with
  | nil => exact takeWhile_stretch rest (List.forall_mem_nil _) hstop
  | cons x line ih =>
    rw [List.cons_append]
    cases hx : p x with
    | true =>
      rw [List.takeWhile_cons_of_pos hx, List.takeWhile_cons_of_pos hx, List.dropWhile_cons_of_pos hx,
        List.dropWhile_cons_of_pos hx, ih.1, ih.2]
      exact ⟨rfl, rfl⟩
    | false => simp [hx]

namespace Lexeme

theorem numeral_line (hrest : ∀ x ∈ rest.head?, isBreak x = true) : numeral (line ++ rest) = numeral line := by
  have hdigits : ∀ text : List Char, (text ++ rest).takeWhile Char.isDigit = text.takeWhile Char.isDigit ∧
      (text ++ rest).dropWhile Char.isDigit = text.dropWhile Char.isDigit ++ rest :=
    fun _ => takeWhile_line hrest (by decide)
  unfold numeral
  rw [(hdigits line).1, (hdigits line).2]
  congr 1
  cases hline : line.dropWhile Char.isDigit with
  | nil =>
    cases rest with
    | nil => rfl
    | cons x rest =>
      have hx : x ≠ '.' := by
        rintro rfl
        exact Bool.noConfusion (hrest '.' rfl)
      simp [hx]
  | cons x more =>
    by_cases hx : x = '.'
    · subst hx
      simp only [List.cons_append, (hdigits more).1]
    · simp [hx]

theorem isPrefixOf_line {mark : List Char} (hmark : ∀ x ∈ mark, isBreak x = false)
    (hrest : ∀ x ∈ rest.head?, isBreak x = true) : mark.isPrefixOf (line ++ rest) = mark.isPrefixOf line := by
  rw [Bool.eq_iff_iff, List.isPrefixOf_iff_prefix, List.isPrefixOf_iff_prefix]
  refine ⟨fun h => ?_, fun h => h.trans (List.prefix_append _ _)⟩
  rcases List.prefix_or_prefix_of_prefix h (List.prefix_append line rest) with hshort | ⟨q, rfl⟩
  · exact hshort
  · cases q with
    | nil => rw [List.append_nil]
    | cons x q =>
      obtain ⟨tail, htail⟩ := (List.prefix_append_right_inj line).1 h
      rw [← htail] at hrest
      have hx := hmark x (by simp)
      exact Bool.noConfusion (hx.symm.trans (hrest x rfl))

theorem read?_line (hline : line ≠ []) (hrest : ∀ x ∈ rest.head?, isBreak x = true) :
    read? (line ++ rest) = read? line := by
  obtain ⟨c, line, rfl⟩ := List.exists_cons_of_ne_nil hline
  have hmarks : ∀ m ∈ TokenKind.marks, m.1.toList.all (!isBreak ·) = true := by decide
  have hfind : TokenKind.marks.find? (·.1.toList.isPrefixOf (c :: line ++ rest)) =
      TokenKind.marks.find? (·.1.toList.isPrefixOf (c :: line)) :=
    List.find?_congr fun m hm => isPrefixOf_line (by simpa using hmarks m hm) hrest
  have htake : ∀ p : Char → Bool, p '\n' = false ∧ p '\r' = false →
      (c :: line ++ rest).takeWhile p = (c :: line).takeWhile p := fun p hp => (takeWhile_line hrest hp).1
  unfold read?
  simp only [List.cons_append] at htake hfind ⊢
  rw [htake _ (by decide), htake _ (by decide), htake _ (by decide), hfind, ← List.cons_append,
    numeral_line hrest]

end Lexeme

end Line

def Position.down (k : Nat) (p : Position) : Position := ⟨p.line + k, p.column⟩

def Span.down (k : Nat) (span : Span) : Span := ⟨span.start.down k, span.stop.down k⟩

def Token.down (k : Nat) (t : Token) : Token := { t with span := t.span.down k }

def ScriptError.down (k : Nat) (e : ScriptError) : ScriptError := { e with position := e.position.down k }

def Mode.down (k : Nat) : Mode → Mode
  | text quote emitted => text (quote.down k) emitted
  | placeholder opening => placeholder (opening.down k)

namespace Position

theorem down_along (k n : Nat) (p : Position) : (p.along n).down k = (p.down k).along n := rfl

theorem down_nextColumn (k : Nat) (p : Position) : p.nextColumn.down k = (p.down k).nextColumn := rfl

theorem down_nextLine (k : Nat) (p : Position) : p.nextLine.down k = (p.down k).nextLine := by
  simp only [nextLine, down, Nat.add_right_comm]

end Position

variable {more : List Char} {k : Nat}

namespace Cursor

/-- In front of `c'` are the lines in front of `c`, `k` lines further down, and `more` behind them. -/
structure Echo (more : List Char) (k : Nat) (c c' : Cursor) : Prop where
  rest : SameLines more c.rest c'.rest
  position : c'.position = c.position.down k

variable {c c' : Cursor}

theorem Echo.along (h : c.Echo more k c') {text : List Char} (hfirst : text <+: c.rest)
    (hplain : ∀ x ∈ text, isBreak x = false) : (c.along text.length).Echo more k (c'.along text.length) := by
  obtain ⟨rest, hrest⟩ := hfirst
  obtain ⟨rest', hrest', hlines⟩ := (hrest ▸ h.rest).append_inv hplain
  constructor
  · simpa only [Cursor.along, ← hrest, hrest', List.drop_left] using hlines
  · simp only [Cursor.along, h.position, Position.down_along]

theorem Echo.bump (h : c.Echo more k c') (hne : c.rest ≠ []) : c.bump.Echo more k c'.bump := by
  obtain ⟨x, rest, hrest⟩ := List.exists_cons_of_ne_nil hne
  have hlines := h.rest
  rw [hrest] at hlines
  cases hx : isBreak x with
  | false =>
    obtain ⟨rest', hrest', hlines⟩ := hlines.cons_inv hx
    rw [bump_char hx hrest, bump_char hx hrest']
    exact ⟨hlines, by simp only [h.position, Position.down_nextColumn]⟩
  | true =>
    obtain ⟨u, rest, hu, hsplit⟩ := exists_lineBreak hx rest
    rw [hsplit] at hlines hrest
    obtain ⟨v, rest', hv, hrest', hlines⟩ := hlines.break_inv hu
    rw [bump_lineBreak hu hrest, bump_lineBreak hv hrest']
    exact ⟨hlines, by simp only [h.position, Position.down_nextLine]⟩

end Cursor

namespace TextRun

theorem read_lineBreak {ends rest : List Char} (h : LineBreak ends rest) (offset : Nat) (position : Position) :
    read offset position (ends ++ rest) =
      (read (offset + byteLength ends) position.nextLine rest).cons '\n' := by
  cases h with
  | lineFeed => simp [read, isBreak]; rfl
  | both => simp [read]; rfl
  | carriageReturn h =>
    rw [List.singleton_append, read]
    · rw [if_pos (by decide)]
      rfl
    · simp
    · simp
    · simp
    · rintro k - rfl
      exact h rfl

theorem unescape?_break {c : Char} (h : isBreak c = true) : unescape? c = none := by
  rcases isBreak_iff.1 h with rfl | rfl <;> rfl

/-- The second stretch denotes the same text as the first, and ends in the same way. -/
structure Echo (more : List Char) (k : Nat) (run run' : TextRun) : Prop where
  text : run'.text = run.text
  stop : run'.stop = run.stop
  cursor : run.cursor.Echo more k run'.cursor

theorem Echo.cons {run run' : TextRun} (h : Echo more k run run') (c : Char) :
    Echo more k (run.cons c) (run'.cons c) :=
  ⟨congrArg (c :: ·) h.text, h.stop, h.cursor⟩

theorem read_echo {offset : Nat} {position : Position} {a b : List Char} (h : SameLines more a b)
    (hstop : more = [] ∨ (read offset position a).stop ≠ .endOfFile) (offset' : Nat) :
    Echo more k (read offset position a) (read offset' (position.down k) b) := by
  fun_induction read offset position a generalizing offset' b
  case case1 =>
    obtain rfl := hstop.resolve_right fun h => h rfl
    obtain rfl := h.eq_more rfl
    exact ⟨rfl, rfl, h, rfl⟩
  case case2 =>
    obtain ⟨b', rfl, -⟩ := h.cons_inv (by decide)
    exact ⟨rfl, rfl, h, rfl⟩
  case case3 =>
    obtain ⟨b₁, rfl, h₁⟩ := h.cons_inv (by decide)
    obtain ⟨b', rfl, -⟩ := h₁.cons_inv (by decide)
    exact ⟨rfl, rfl, h, rfl⟩
  case case4 e rest c hc ih =>
    obtain ⟨b₁, rfl, h₁⟩ := h.cons_inv (by decide)
    obtain ⟨b', rfl, h'⟩ := h₁.cons_inv (plain_of_unescape? hc).1
    rw [read, hc]
    exact (ih h' hstop _).cons c
  case case5 e rest hc ih =>
    obtain ⟨b₁, rfl, h₁⟩ := h.cons_inv (by decide)
    obtain ⟨y, b', rfl, hy⟩ := h₁.head
    have hc' : unescape? y = none := by
      rcases hy with ⟨rfl, -⟩ | ⟨-, hy⟩
      · exact hc
      · exact unescape?_break hy
    rw [read, hc']
    exact (ih h₁ hstop _).cons _
  case case6 rest ih =>
    obtain ⟨v, b', hv, rfl, h'⟩ := SameLines.break_inv (u := ['\r', '\n']) h (.both rest)
    rw [read_lineBreak hv, ← Position.down_nextLine]
    exact (ih h' hstop _).cons _
  case case7 c rest _ _ _ hboth hbreak ih =>
    obtain ⟨v, b', hv, rfl, h'⟩ := SameLines.break_inv (u := [c]) h (lineBreak_singleton hbreak hboth)
    rw [read_lineBreak hv, ← Position.down_nextLine]
    exact (ih h' hstop _).cons _
  case case8 position c rest hquote hplaceholder hslash _ hbreak ih =>
    have hplain : isBreak c = false := by simpa using hbreak
    obtain ⟨b', rfl, h'⟩ := h.cons_inv hplain
    -- at the end of the first text nothing is behind it
    have hend : rest = [] → b' = [] := by
      rintro rfl
      obtain rfl := hstop.resolve_right fun h => h rfl
      exact h'.eq_more rfl
    by_cases hc : c = '\\'
    · subst hc
      obtain rfl : rest = [] := by
        cases rest with
        | nil => rfl
        | cons e rest => exact (hslash e rest rfl rfl).elim
      obtain rfl := hend rfl
      have hread : read offset' (position.down k) ['\\'] =
          (read (offset' + '\\'.utf8Size) (position.nextColumn.down k) []).cons '\\' := by
        simp [read, isBreak, Position.down_nextColumn]
      rw [hread]
      exact (ih h' hstop _).cons _
    · rw [read_char hquote hc hplain]
      · exact (ih h' hstop _).cons c
      · rintro ⟨rfl, hhead⟩
        obtain ⟨tail, rfl⟩ := List.head?_eq_some_iff.1 hhead
        cases rest with
        | nil => exact absurd (hend rfl) (List.cons_ne_nil _ _)
        | cons y rest =>
          obtain ⟨y', tail', hy', hy⟩ := h'.head
          obtain ⟨rfl, rfl⟩ := List.cons.inj hy'
          rcases hy with ⟨rfl, -⟩ | ⟨-, hy⟩
          · exact hplaceholder rest rfl rfl
          · cases hy

end TextRun

end DialogueScript

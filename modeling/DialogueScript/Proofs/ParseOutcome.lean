import DialogueScript.ParseExpression

namespace DialogueScript

namespace TokenStream

variable {ts : List Token} {finish : Position}

theorem current_cons (t : Token) : current ⟨t :: ts, finish⟩ = t := rfl

theorem kind_cons (t : Token) : kind ⟨t :: ts, finish⟩ = t.kind := rfl

theorem kind_nil : kind ⟨[], finish⟩ = .endOfFile := rfl

theorem following_cons_cons (t u : Token) : following ⟨t :: u :: ts, finish⟩ = u := rfl

theorem advance_cons {t : Token} (h : t.kind ≠ .endOfFile) : advance ⟨t :: ts, finish⟩ = ⟨ts, finish⟩ := by
  simp [advance, kind_cons, h]

theorem eq_cons_of_kind {kind : TokenKind} (h : TokenStream.kind ⟨ts, finish⟩ = kind)
    (hkind : kind ≠ .endOfFile) : ∃ t rest, ts = t :: rest ∧ t.kind = kind := by
  cases ts with
  | nil => exact absurd (kind_nil.symm.trans h).symm hkind
  | cons t rest => exact ⟨t, rest, rfl, h⟩

end TokenStream

namespace Parse

open TokenStream

variable {α β : Type} {s s' : TokenStream}

theorem pure_eq_ok {a b : α} : (pure a : Parse α) s = (.ok b, s') ↔ a = b ∧ s = s' := by
  change (Except.ok a, s) = (.ok b, s') ↔ _
  simp

theorem bind_eq_ok {p : Parse α} {f : α → Parse β} {b : β} :
    (p >>= f) s = (.ok b, s') ↔ ∃ a mid, p s = (.ok a, mid) ∧ f a mid = (.ok b, s') := by
  change andThen p f s = _ ↔ _
  unfold andThen
  rcases hp : p s with ⟨e | a, mid⟩
  · simp
  · constructor
    · intro h
      exact ⟨a, mid, rfl, h⟩
    · rintro ⟨_, _, ⟨⟩, h⟩
      exact h

theorem bind_of_ok {p : Parse α} {f : α → Parse β} {a : α} {mid : TokenStream}
    (h : p s = (.ok a, mid)) : (p >>= f) s = f a mid := by
  change andThen p f s = _
  simp only [andThen, h]

theorem unexpected_ne_ok {what : String} {hint : Option String} {a : α} :
    unexpected what hint s ≠ (.ok a, s') := by simp [unexpected]

theorem fail_ne_ok {e : ScriptError} {a : α} : fail e s ≠ (.ok a, s') := by simp [fail]

/-- Sets the parser that runs apart from the stream that it runs on, so that it can be split. -/
theorem exists_applied {p : Parse α} {r : Except ScriptError α × TokenStream} (h : p s = r) :
    ∃ q, q = p ∧ q s = r := ⟨p, rfl, h⟩

theorem pure_bind_apply (a : α) (f : α → Parse β) : (pure a >>= f) s = f a s := rfl

theorem current_bind_apply (f : Token → Parse β) : (current >>= f) s = f s.current s := rfl

theorem following_bind_apply (f : Token → Parse β) : (following >>= f) s = f s.following s := rfl

theorem advance_bind_apply (f : Token → Parse β) : (advance >>= f) s = f s.current s.advance := rfl

variable {ts rest : List Token} {finish : Position}

theorem expectAs_eq_ok {kind : TokenKind} {what : String} {hint : Option String} {t : Token}
    (hkind : kind ≠ .endOfFile) :
    expectAs kind what hint ⟨ts, finish⟩ = (.ok t, s') ↔
      ∃ rest, ts = t :: rest ∧ t.kind = kind ∧ s' = ⟨rest, finish⟩ := by
  unfold expectAs
  constructor
  · intro h
    split at h
    · rename_i hk
      obtain ⟨u, rest, rfl, hu⟩ := eq_cons_of_kind hk hkind
      rw [current_cons, advance_cons (hu ▸ hkind)] at h
      obtain ⟨rfl, rfl⟩ : u = t ∧ ⟨rest, finish⟩ = s' := by simpa using h
      exact ⟨rest, rfl, hu, rfl⟩
    · simp at h
  · rintro ⟨rest, rfl, hk, rfl⟩
    rw [if_pos (by rw [kind_cons, hk]), current_cons, advance_cons (hk ▸ hkind)]

theorem expect_eq_ok {kind : TokenKind} {t : Token} (hkind : kind ≠ .endOfFile) :
    expect kind ⟨ts, finish⟩ = (.ok t, s') ↔
      ∃ rest, ts = t :: rest ∧ t.kind = kind ∧ s' = ⟨rest, finish⟩ :=
  expectAs_eq_ok hkind

theorem expectName_eq_ok {what : String} {t : Token} :
    expectName what ⟨ts, finish⟩ = (.ok t, s') ↔
      ∃ rest, ts = t :: rest ∧ t.kind = .identifier ∧ s' = ⟨rest, finish⟩ := by
  unfold expectName
  rw [current_bind_apply]
  constructor
  · intro h
    split at h
    · exact absurd h unexpected_ne_ok
    · exact (expectAs_eq_ok (by decide)).1 h
  · rintro ⟨rest, rfl, hk, rfl⟩
    rw [current_cons, if_neg (by rw [hk]; decide)]
    exact (expectAs_eq_ok (by decide)).2 ⟨rest, rfl, hk, rfl⟩

end Parse

end DialogueScript

import DialogueScript.Typing

namespace DialogueScript

namespace BinaryOperator

variable (operator : BinaryOperator) {left right : ValueType}

@[simp] theorem mismatch?_any_left : operator.mismatch? .any right = none := by
  unfold mismatch?
  split
  · rfl
  · exact if_pos (.inl rfl)

@[simp] theorem mismatch?_any_right : operator.mismatch? left .any = none := by
  unfold mismatch?
  split
  · rfl
  · exact if_pos (.inr (.inl rfl))

end BinaryOperator

/-- There are no more mismatches in `i'` than in `i`, and fewer if `i'` knows a type that `i` does not have. -/
structure Inference.Quieter (i' i : Inference) : Prop where
  length_le : i'.mismatches.length ≤ i.mismatches.length
  length_lt : i'.type ≠ .any → i'.type ≠ i.type → i'.mismatches.length < i.mismatches.length

namespace Inference

variable {l' l r' r : Inference}

theorem Quieter.of_type_eq {i' i : Inference} (htype : i'.type = i.type)
    (hlength : i'.mismatches.length ≤ i.mismatches.length) : i'.Quieter i :=
  ⟨hlength, fun _ hne => absurd htype hne⟩

theorem length_lt_of_mismatch? {operator : BinaryOperator} {cause : FindingCause} (hl : l'.Quieter l)
    (hr : r'.Quieter r) (hnone : operator.mismatch? l.type r.type = none)
    (hsome : operator.mismatch? l'.type r'.type = some cause) :
    l'.mismatches.length + r'.mismatches.length < l.mismatches.length + r.mismatches.length := by
  have hleft : l'.type ≠ .any := by
    intro hany
    simp [hany] at hsome
  have hright : r'.type ≠ .any := by
    intro hany
    simp [hany] at hsome
  have hchanged : l'.type ≠ l.type ∨ r'.type ≠ r.type := by
    by_cases hsame : l'.type = l.type
    · refine .inr fun hsame' => ?_
      rw [hsame, hsame', hnone] at hsome
      cases hsome
    · exact .inl hsame
  have hlle := hl.length_le
  have hrle := hr.length_le
  rcases hchanged with hne | hne
  · have hlt := hl.length_lt hleft hne
    omega
  · have hlt := hr.length_lt hright hne
    omega

end Inference

namespace TypeEnvironment

variable {env env' : TypeEnvironment}

/-- Each variable has the type in `env'` that it has in `env`, or it is not known there. -/
def VaguerThan (env' env : TypeEnvironment) : Prop :=
  ∀ name, env'.typeOf name = env.typeOf name ∨ env'.typeOf name = .any

theorem vaguerThan_forget (env : TypeEnvironment) (name : String) : VaguerThan ((name, .any) :: env) env := by
  intro other
  by_cases hname : other = name
  · right
    simp [typeOf, hname]
  · left
    have hne : (other == name) = false := beq_eq_false_iff_ne.2 hname
    simp [typeOf, List.lookup_cons, hne]

theorem length_mismatches_binary (env : TypeEnvironment) (operator : BinaryOperator) (left right : Expression)
    (span : Span) : (env.infer (.binary operator left right span)).mismatches.length =
      (env.infer left).mismatches.length + (env.infer right).mismatches.length +
        (operator.mismatch? (env.infer left).type (env.infer right).type).toList.length := by
  rw [mismatches_binary, List.length_append, List.length_append, List.length_map]

/-- An operation is as quiet as its operands: a mismatch of its own stands for one that has gone from them. -/
theorem quieter_binary {left right : Expression} (operator : BinaryOperator) (span : Span)
    (hl : (env'.infer left).Quieter (env.infer left)) (hr : (env'.infer right).Quieter (env.infer right)) :
    (env'.infer (.binary operator left right span)).Quieter (env.infer (.binary operator left right span)) := by
  have hle := Nat.add_le_add hl.length_le hr.length_le
  have hlength := length_mismatches_binary env operator left right span
  have hlength' := length_mismatches_binary env' operator left right span
  have htype := type_binary env operator left right span
  have htype' := type_binary env' operator left right span
  -- by whether the operands fit with all that is known, and whether they fit with less
  cases hfit : operator.mismatch? (env.infer left).type (env.infer right).type with
  | none =>
    rw [hfit] at hlength htype
    cases hfit' : operator.mismatch? (env'.infer left).type (env'.infer right).type with
    | none =>
      rw [hfit'] at hlength' htype'
      refine .of_type_eq (htype'.trans htype.symm) ?_
      rw [hlength, hlength']
      exact Nat.add_le_add_right hle 0
    | some cause =>
      rw [hfit'] at hlength' htype'
      refine ⟨?_, fun hany => absurd htype' hany⟩
      rw [hlength, hlength']
      exact Inference.length_lt_of_mismatch? hl hr hfit hfit'
  | some cause =>
    rw [hfit] at hlength htype
    cases hfit' : operator.mismatch? (env'.infer left).type (env'.infer right).type with
    | none =>
      -- the operation gets a type that it did not have, and has lost its own mismatch for it
      rw [hfit'] at hlength'
      have hlt : (env'.infer (.binary operator left right span)).mismatches.length <
          (env.infer (.binary operator left right span)).mismatches.length := by
        rw [hlength, hlength']
        exact Nat.lt_succ_of_le hle
      exact ⟨Nat.le_of_lt hlt, fun _ _ => hlt⟩
    | some cause' =>
      rw [hfit'] at hlength' htype'
      refine .of_type_eq (htype'.trans htype.symm) ?_
      rw [hlength, hlength']
      exact Nat.add_le_add_right hle 1

mutual

theorem infer_quieter (h : env'.VaguerThan env) : ∀ e : Expression, (env'.infer e).Quieter (env.infer e)
  | .literal .. => .of_type_eq rfl (Nat.le_refl _)
  | .var name _ => ⟨Nat.le_refl _, fun hany hne => ((h name).elim hne hany).elim⟩
  | .binary operator left right span => quieter_binary operator span (infer_quieter h left) (infer_quieter h right)
  | .unary _ operand _ => .of_type_eq rfl (infer_quieter h operand).length_le
  | .call _ arguments _ => .of_type_eq rfl (inferAll_length_le h arguments)

theorem inferAll_length_le (h : env'.VaguerThan env) :
    ∀ es : List Expression, (env'.inferAll es).length ≤ (env.inferAll es).length
  | [] => Nat.le_refl _
  | e :: es => by
    have hfirst := (infer_quieter h e).length_le
    have hrest := inferAll_length_le h es
    simp only [inferAll, List.length_append]
    omega

end

/-- With less known about the variables there are no more mismatches in an expression; there are fewer of them if
the expression comes to a type that it did not have. -/
theorem unknown_types_only_suppress (h : env'.VaguerThan env) (e : Expression) :
    (env'.infer e).mismatches.length ≤ (env.infer e).mismatches.length ∧
      ((env'.infer e).type = (env.infer e).type ∨ (env'.infer e).type = .any ∨
        (env'.infer e).mismatches.length < (env.infer e).mismatches.length) := by
  have hquieter := infer_quieter h e
  refine ⟨hquieter.length_le, ?_⟩
  by_cases htype : (env'.infer e).type = (env.infer e).type
  · exact .inl htype
  · by_cases hany : (env'.infer e).type = .any
    · exact .inr (.inl hany)
    · exact .inr (.inr (hquieter.length_lt hany htype))

def nameAndAge : TypeEnvironment := [("name", .text), ("age", .number)]

/-- `random(true && (@name + @age), @name / 2)`. -/
def textSum : Expression :=
  .call "random"
    [.binary .and (.literal (.boolean true) ⟨⟨1, 8⟩, ⟨1, 12⟩⟩)
        (.binary .add (.var "name" ⟨⟨1, 17⟩, ⟨1, 22⟩⟩) (.var "age" ⟨⟨1, 25⟩, ⟨1, 29⟩⟩) ⟨⟨1, 17⟩, ⟨1, 29⟩⟩)
        ⟨⟨1, 8⟩, ⟨1, 29⟩⟩,
      .binary .divide (.var "name" ⟨⟨1, 32⟩, ⟨1, 37⟩⟩) (.literal (.number (.ofNat 2)) ⟨⟨1, 40⟩, ⟨1, 41⟩⟩)
        ⟨⟨1, 32⟩, ⟨1, 41⟩⟩]
    ⟨⟨1, 1⟩, ⟨1, 42⟩⟩

/-- When the name is forgotten both mismatches are gone, and there is one where there was none: the sum is a number
now, and stands as a condition. -/
theorem unknown_types_only_suppress_textSum :
    VaguerThan (("name", .any) :: nameAndAge) nameAndAge ∧
      (nameAndAge.infer textSum).mismatches.map Finding.position = [⟨1, 17⟩, ⟨1, 32⟩] ∧
      (infer (("name", .any) :: nameAndAge) textSum).mismatches.map Finding.position = [⟨1, 8⟩] ∧
      (infer (("name", .any) :: nameAndAge) textSum).mismatches.length ≤
        (nameAndAge.infer textSum).mismatches.length := by
  have hvague : VaguerThan (("name", .any) :: nameAndAge) nameAndAge := vaguerThan_forget nameAndAge "name"
  exact ⟨hvague, by decide, by decide, (unknown_types_only_suppress hvague textSum).1⟩

end TypeEnvironment

end DialogueScript

import DialogueScript.Folding
import DialogueScript.Proofs.Numerals

namespace DialogueScript

namespace Spelling

def IsSign (text : List Char) : Prop := text = [] ∨ text = ['+'] ∨ text = ['-']

/-- A power of ten, which may be left out. -/
inductive IsExponent : List Char → Prop
  | missing : IsExponent []
  | power {mark : Char} {sign digits : List Char} (hmark : mark = 'e' ∨ mark = 'E') (hsign : IsSign sign)
    (hdigits : ∀ c ∈ digits, c.isDigit = true) (hsome : digits ≠ []) : IsExponent (mark :: (sign ++ digits))

/-- At least one digit, with at most one point, and then a power of ten. -/
inductive IsDecimal : List Char → Prop
  | whole {digits exponent : List Char} (hdigits : ∀ c ∈ digits, c.isDigit = true) (hsome : digits ≠ [])
    (hexponent : IsExponent exponent) : IsDecimal (digits ++ exponent)
  | point {whole fraction exponent : List Char} (hdigits : ∀ c ∈ whole ++ fraction, c.isDigit = true)
    (hsome : whole ++ fraction ≠ []) (hexponent : IsExponent exponent) :
    IsDecimal (whole ++ '.' :: (fraction ++ exponent))

def isHexDigit (c : Char) : Bool := c.isDigit || ('a' ≤ c && c ≤ 'f') || ('A' ≤ c && c ≤ 'F')

def hexDigitValue (c : Char) : Nat :=
  if c.isDigit then c.toNat - '0'.toNat
  else if 'a' ≤ c ∧ c ≤ 'f' then c.toNat - 'a'.toNat + 10
  else c.toNat - 'A'.toNat + 10

def hexValue (digits : List Char) : Nat := digits.foldl (fun n c => 16 * n + hexDigitValue c) 0

def IsHexadecimal (digits : List Char) : Prop := digits ≠ [] ∧ ∀ c ∈ digits, isHexDigit c = true

/-- `body` stands behind the mark of hexadecimal numbers. -/
def Marked (text body : List Char) : Prop := text = '0' :: 'x' :: body ∨ text = '0' :: 'X' :: body

/-- The intended spellings of numbers, without blanks around them. -/
inductive IsNumber : List Char → Prop
  | blank : IsNumber []
  | infinity {sign : List Char} (hsign : IsSign sign) : IsNumber (sign ++ "Infinity".toList)
  | hexadecimal {text digits : List Char} (hmarked : Marked text digits) (hdigits : IsHexadecimal digits) :
    IsNumber text
  | decimal {sign body : List Char} (hsign : IsSign sign) (hbody : IsDecimal body) : IsNumber (sign ++ body)

/-- A hexadecimal number that does not fit in 64 bits. -/
def IsOverlong (text : List Char) : Prop :=
  ∃ digits, Marked text digits ∧ IsHexadecimal digits ∧ 2 ^ 64 ≤ hexValue digits

/-- A hexadecimal number of 64 bits with a plus sign behind the mark. -/
def IsSignedHexadecimal (text : List Char) : Prop :=
  ∃ digits, Marked text ('+' :: digits) ∧ IsHexadecimal digits ∧ hexValue digits < 2 ^ 64

end Spelling

open Spelling

section Hexadecimal

theorem mapM_ite {α β : Type} (p : α → Bool) (f : α → β) (values : List α) :
    values.mapM (fun a => if p a then some (f a) else none) =
      if values.all p then some (values.map f) else none := by
  induction values with
  | nil => rfl
  | cons a values ih =>
    rw [List.mapM_cons, ih]
    cases ha : p a <;> cases hall : values.all p <;> simp [ha, hall]

theorem hexDigit_eq : (fun c : Char =>
    if c.isDigit then some (c.toNat - '0'.toNat)
    else if 'a' ≤ c ∧ c ≤ 'f' then some (c.toNat - 'a'.toNat + 10)
    else if 'A' ≤ c ∧ c ≤ 'F' then some (c.toNat - 'A'.toNat + 10)
    else none) = fun c => if isHexDigit c then some (hexDigitValue c) else none := by
  funext c
  have hsorts : isHexDigit c = true ↔ c.isDigit = true ∨ ('a' ≤ c ∧ c ≤ 'f') ∨ ('A' ≤ c ∧ c ≤ 'F') := by
    simp [isHexDigit, or_assoc]
  unfold hexDigitValue
  simp only [hsorts]
  split_ifs <;> grind

theorem Spelling.IsHexadecimal.head?_ne {digits : List Char} (h : IsHexadecimal digits) : digits.head? ≠ some '+' := by
  intro hhead
  exact absurd (h.2 '+' (List.mem_of_mem_head? hhead)) (by decide)

theorem isSome_hexadecimal?_iff {text : List Char} : (hexadecimal? text).isSome = true ↔
    ∃ digits, (text = digits ∨ text = '+' :: digits) ∧ IsHexadecimal digits ∧ hexValue digits < 2 ^ 64 := by
  unfold hexadecimal?
  extract_lets digits digit?
  have hsign : text = '+' :: digits ∨ text = digits ∧ text.head? ≠ some '+' := by
    unfold digits
    split
    · exact .inl rfl
    · rename_i hplus
      refine .inr ⟨rfl, fun hhead => ?_⟩
      obtain ⟨rest, hrest⟩ := List.head?_eq_some_iff.1 hhead
      exact hplus rest hrest
  rw [show digit? = _ from hexDigit_eq, mapM_ite]
  clear_value digits digit?
  refine Iff.trans (b := IsHexadecimal digits ∧ hexValue digits < 2 ^ 64) ?_
    ⟨fun h => ⟨digits, hsign.symm.imp_left And.left, h⟩, ?_⟩
  · unfold IsHexadecimal hexValue
    rw [← List.foldl_map (f := hexDigitValue) (g := fun n v => 16 * n + v), ← List.all_eq_true]
    cases digits with
    | nil => simp
    | cons c digits => cases (c :: digits).all isHexDigit <;> simp
  · rintro ⟨other, htext, hother⟩
    have hsame : other = digits := by
      rcases hsign with hplus | ⟨rfl, hplus⟩ <;> rcases htext with rfl | htext
      · exact absurd (congrArg List.head? hplus) hother.1.head?_ne
      · exact (List.cons.inj (htext.symm.trans hplus)).2
      · rfl
      · exact absurd (congrArg List.head? htext) hplus
    rwa [← hsame]

end Hexadecimal

section Decimal

theorem exists_sign (text : List Char) : ∃ sign, IsSign sign ∧ text = sign ++ (Decimal.takeSign text).2 := by
  unfold Decimal.takeSign
  split
  · exact ⟨['-'], .inr (.inr rfl), rfl⟩
  · exact ⟨['+'], .inr (.inl rfl), rfl⟩
  · exact ⟨[], .inl rfl, rfl⟩

theorem takeSign_append {sign body : List Char} (hsign : IsSign sign)
    (hbody : ∀ c ∈ body.head?, c ≠ '-' ∧ c ≠ '+') : (Decimal.takeSign (sign ++ body)).2 = body := by
  rcases hsign with rfl | rfl | rfl
  · rw [List.nil_append]
    unfold Decimal.takeSign
    split
    · exact absurd rfl (hbody '-' rfl).1
    · exact absurd rfl (hbody '+' rfl).2
    · rfl
  · rfl
  · rfl

theorem ne_of_isDigit {c : Char} (h : c.isDigit = true) : c ≠ '-' ∧ c ≠ '+' := by
  constructor <;> rintro rfl <;> revert h <;> decide

theorem isSome_exponent?_iff {text : List Char} : (Decimal.exponent? text).isSome = true ↔ IsExponent text := by
  constructor
  · intro h
    cases text with
    | nil => exact .missing
    | cons c rest =>
      obtain ⟨sign, hsign, hrest⟩ := exists_sign rest
      simp only [Decimal.exponent?, Option.isSome_ite, List.all_eq_true] at h
      rw [hrest]
      exact .power h.1 hsign h.2.2 h.2.1
  · intro h
    cases h with
    | missing => rfl
    | @power mark sign digits hmark hsign hdigits hsome =>
      have hbody : (Decimal.takeSign (sign ++ digits)).2 = digits :=
        takeSign_append hsign fun c hc => ne_of_isDigit (hdigits c (List.mem_of_mem_head? hc))
      simp only [Decimal.exponent?, Option.isSome_ite, hbody, List.all_eq_true]
      exact ⟨hmark, hsome, hdigits⟩

theorem Spelling.IsExponent.head? {text : List Char} (h : IsExponent text) : ∀ c ∈ text.head?, c = 'e' ∨ c = 'E' := by
  cases h with
  | missing => simp
  | power hmark => simpa using hmark

theorem takeWhile_digits {digits exponent : List Char} (hdigits : ∀ c ∈ digits, c.isDigit = true)
    (hexponent : IsExponent exponent) : (digits ++ exponent).takeWhile Char.isDigit = digits ∧
      (digits ++ exponent).dropWhile Char.isDigit = exponent := by
  refine takeWhile_stretch exponent hdigits fun c hc => ?_
  rcases hexponent.head? c hc with rfl | rfl <;> decide

theorem isSome_parse?_iff {text : List Char} : (Decimal.parse? text).isSome = true ↔ IsDecimal text := by
  constructor
  · intro h
    have hdigits : ∀ rest : List Char, ∀ c ∈ rest.takeWhile Char.isDigit, c.isDigit = true :=
      fun rest c hc => List.mem_takeWhile_imp hc
    rw [← List.takeWhile_append_dropWhile (p := Char.isDigit) (l := text)]
    unfold Decimal.parse? at h
    dsimp only at h
    split at h <;> dsimp only at h <;> split at h
    · cases h
    · rename_i rest hrest hsome
      rw [Option.isSome_map, isSome_exponent?_iff] at h
      rw [hrest, ← List.takeWhile_append_dropWhile (p := Char.isDigit) (l := rest)]
      refine .point (fun c hc => ?_) (fun hnil => hsome (List.append_eq_nil_iff.1 hnil)) h
      exact (List.mem_append.1 hc).elim (hdigits text c) (hdigits rest c)
    · cases h
    · rename_i hsome
      rw [Option.isSome_map, isSome_exponent?_iff] at h
      exact .whole (hdigits text) (fun hnil => hsome ⟨hnil, rfl⟩) h
  · intro h
    unfold Decimal.parse?
    cases h with
    | @whole digits exponent hdigits hsome hexponent =>
      obtain ⟨htake, hdrop⟩ := takeWhile_digits hdigits hexponent
      dsimp only
      rw [htake, hdrop]
      split
      · rcases hexponent.head? '.' rfl with h | h <;> cases h
      · rw [if_neg fun hnil => hsome hnil.1, Option.isSome_map, isSome_exponent?_iff]
        exact hexponent
    | @point whole fraction exponent hdigits hsome hexponent =>
      obtain ⟨hwhole, hfraction⟩ := List.forall_mem_append.1 hdigits
      have hpoint : ∀ c ∈ ('.' :: (fraction ++ exponent)).head?, c.isDigit = false := by simp
      obtain ⟨htake, hdrop⟩ := takeWhile_stretch _ hwhole hpoint
      obtain ⟨htake', hdrop'⟩ := takeWhile_digits hfraction hexponent
      dsimp only
      rw [htake, hdrop]
      split
      · rename_i rest hrest
        obtain ⟨-, rfl⟩ := List.cons.inj hrest
        rw [htake', hdrop', if_neg fun hnil => hsome (List.append_eq_nil_iff.2 hnil), Option.isSome_map,
          isSome_exponent?_iff]
        exact hexponent
      · rename_i hno
        exact absurd rfl (hno _)

/-- A letter that stands in no decimal. -/
def isStray (c : Char) : Bool := c.isAlpha && c ≠ 'e' && c ≠ 'E'

theorem isStray_of_isDigit {c : Char} (h : c.isDigit = true) : isStray c = false := by
  rw [Bool.eq_false_iff]
  intro hstray
  simp only [isStray, Char.isDigit, Char.isAlpha, Char.isUpper, Char.isLower, Bool.and_eq_true, Bool.or_eq_true,
    decide_eq_true_eq, ge_iff_le, UInt32.le_iff_toNat_le] at h hstray
  simp at h hstray
  omega

theorem Spelling.IsSign.not_stray {sign : List Char} (h : IsSign sign) : ∀ c ∈ sign, isStray c = false := by
  intro c hc
  rcases h with rfl | rfl | rfl
  · cases hc
  · obtain rfl := List.mem_singleton.1 hc
    rfl
  · obtain rfl := List.mem_singleton.1 hc
    rfl

theorem Spelling.IsExponent.not_stray {text : List Char} (h : IsExponent text) : ∀ c ∈ text, isStray c = false := by
  cases h with
  | missing => simp
  | power hmark hsign hdigits hsome =>
    refine List.forall_mem_cons.2 ⟨?_, List.forall_mem_append.2 ⟨hsign.not_stray, fun c hc => ?_⟩⟩
    · rcases hmark with rfl | rfl <;> decide
    · exact isStray_of_isDigit (hdigits c hc)

theorem Spelling.IsDecimal.not_stray {text : List Char} (h : IsDecimal text) : ∀ c ∈ text, isStray c = false := by
  cases h with
  | whole hdigits hsome hexponent =>
    exact List.forall_mem_append.2 ⟨fun c hc => isStray_of_isDigit (hdigits c hc), hexponent.not_stray⟩
  | point hdigits hsome hexponent =>
    obtain ⟨hwhole, hfraction⟩ := List.forall_mem_append.1 hdigits
    refine List.forall_mem_append.2 ⟨fun c hc => isStray_of_isDigit (hwhole c hc), ?_⟩
    refine List.forall_mem_cons.2 ⟨by decide, List.forall_mem_append.2 ⟨fun c hc => ?_, hexponent.not_stray⟩⟩
    exact isStray_of_isDigit (hfraction c hc)

theorem Spelling.IsDecimal.signed_not_stray {sign body : List Char} (hbody : IsDecimal body) (hsign : IsSign sign) :
    ∀ c ∈ sign ++ body, isStray c = false :=
  List.forall_mem_append.2 ⟨hsign.not_stray, hbody.not_stray⟩

theorem Spelling.IsDecimal.head? {text : List Char} (h : IsDecimal text) : ∀ c ∈ text.head?, c ≠ '-' ∧ c ≠ '+' := by
  cases h with
  | @whole digits exponent hdigits hsome hexponent =>
    cases digits with
    | nil => exact absurd rfl hsome
    | cons d digits => simpa using ne_of_isDigit (hdigits d List.mem_cons_self)
  | @point whole fraction exponent hdigits hsome hexponent =>
    cases whole with
    | nil => simp
    | cons d whole => simpa using ne_of_isDigit (hdigits d List.mem_cons_self)

theorem eq_of_toLower_eq {c : Char} (h : c.toLower = 'n') : c = 'n' ∨ c = 'N' := by
  unfold Char.toLower at h
  split at h
  · have hval : c.val + 32 = 110 := congrArg Char.val h
    refine .inr (Char.ext ?_)
    change c.val = 78
    grind
  · exact .inl h

theorem toDouble_ne_nan (negative : Bool) (d : Decimal) : d.toDouble negative ≠ .nan := by
  have hratio : ∀ num den, Double.ofRatio negative num den ≠ .nan := by
    intro num den
    unfold Double.ofRatio Double.ofUnits
    split <;> exact Double.noConfusion
  unfold Decimal.toDouble
  split
  · exact hratio 0 1
  · split
    · split
      · exact Double.noConfusion
      · exact hratio _ _
    · split
      · exact hratio 0 1
      · exact hratio _ _

/-- Every word that is read as a number has an N in it, so without stray letters it is a decimal that is read. -/
theorem double_parse?_ne_nan_iff {text : List Char} (h : ∀ c ∈ text, isStray c = false) :
    (Double.parse? text).getD .nan ≠ .nan ↔ ∃ sign body, text = sign ++ body ∧ IsSign sign ∧ IsDecimal body := by
  obtain ⟨sign, hsign, hsplit⟩ := exists_sign text
  have hword : ∀ word : String, 'n' ∈ word.toList →
      String.ofList ((Decimal.takeSign text).2.map Char.toLower) ≠ word := by
    rintro word hn rfl
    rw [String.toList_ofList] at hn
    obtain ⟨c, hc, hlower⟩ := List.mem_map.1 hn
    have hstray := h c (hsplit ▸ List.mem_append_right _ hc)
    rcases eq_of_toLower_eq hlower with rfl | rfl <;> exact absurd hstray (by decide)
  have hparse : Double.parse? text =
      (Decimal.parse? (Decimal.takeSign text).2).map (Decimal.toDouble (Decimal.takeSign text).1) := by
    unfold Double.parse?
    dsimp only
    rw [if_neg (not_or.2 ⟨hword "inf" (by decide), hword "infinity" (by decide)⟩), if_neg (hword "nan" (by decide))]
  have hvalue : (Double.parse? text).getD .nan ≠ .nan ↔ IsDecimal (Decimal.takeSign text).2 := by
    rw [hparse, ← isSome_parse?_iff]
    cases Decimal.parse? (Decimal.takeSign text).2 with
    | none => simp
    | some d => simp [toDouble_ne_nan]
  rw [hvalue]
  constructor
  · exact fun hdecimal => ⟨sign, _, hsplit, hsign, hdecimal⟩
  · rintro ⟨sign', body, rfl, hsign', hbody⟩
    rwa [takeSign_append hsign' hbody.head?]

end Decimal

section Marked

variable {text body : List Char}

theorem Spelling.Marked.body_eq {other : List Char} (h : Marked text body) (h' : Marked text other) : body = other := by
  rcases h with rfl | rfl <;> rcases h' with h' | h'
  · exact (List.cons.inj (List.cons.inj h').2).2
  · exact absurd (List.cons.inj (List.cons.inj h').2).1 (by decide)
  · exact absurd (List.cons.inj (List.cons.inj h').2).1 (by decide)
  · exact (List.cons.inj (List.cons.inj h').2).2

theorem Spelling.Marked.exists_stray (h : Marked text body) : ∃ c ∈ text, isStray c = true := by
  rcases h with rfl | rfl
  · exact ⟨'x', by simp, by decide⟩
  · exact ⟨'X', by simp, by decide⟩

theorem Spelling.IsSign.not_marked {sign : List Char} (h : IsSign sign) : ¬Marked (sign ++ "Infinity".toList) body := by
  rcases h with rfl | rfl | rfl <;> rintro (h | h) <;> cases h

theorem Spelling.Marked.isNumber_iff (h : Marked text body) : IsNumber text ↔ IsHexadecimal body := by
  refine ⟨fun hnumber => ?_, .hexadecimal h⟩
  cases hnumber with
  | blank => rcases h with h | h <;> cases h
  | infinity hsign => exact absurd h hsign.not_marked
  | hexadecimal hmarked hdigits => rwa [h.body_eq hmarked]
  | decimal hsign hbody =>
    obtain ⟨c, hc, hstray⟩ := h.exists_stray
    rw [hbody.signed_not_stray hsign c hc] at hstray
    cases hstray

theorem Spelling.Marked.isOverlong_iff (h : Marked text body) :
    IsOverlong text ↔ IsHexadecimal body ∧ 2 ^ 64 ≤ hexValue body := by
  constructor
  · rintro ⟨digits, hmarked, hdigits⟩
    rwa [h.body_eq hmarked]
  · exact fun hdigits => ⟨body, h, hdigits⟩

theorem Spelling.Marked.isSignedHexadecimal_iff (h : Marked text body) :
    IsSignedHexadecimal text ↔ ∃ digits, body = '+' :: digits ∧ IsHexadecimal digits ∧ hexValue digits < 2 ^ 64 := by
  constructor
  · rintro ⟨digits, hmarked, hdigits⟩
    exact ⟨digits, h.body_eq hmarked, hdigits⟩
  · rintro ⟨digits, rfl, hdigits⟩
    exact ⟨digits, h, hdigits⟩

end Marked

section Reading

variable {text : List Char}

theorem ofList_eq_iff {word : String} : String.ofList text = word ↔ text = word.toList := by
  rw [← String.toList_inj, String.toList_ofList]

theorem numberOfText_of_marked {body : List Char} (h : Marked (Blank.trim text) body) :
    numberOfText text = ((hexadecimal? body).map Double.ofNat).getD .nan := by
  -- no name begins like the mark
  have hother : ∀ word : String, word.toList.head? ≠ some '0' → String.ofList (Blank.trim text) ≠ word := by
    intro word hhead hname
    rw [ofList_eq_iff.1 hname] at h
    rcases h with h | h <;> exact hhead (congrArg List.head? h)
  unfold numberOfText
  dsimp only
  rw [if_neg (hother "" (by decide)), if_neg (not_or.2 ⟨hother "Infinity" (by decide), hother "+Infinity" (by decide)⟩),
    if_neg (hother "-Infinity" (by decide))]
  split
  · rename_i digits hdigits
    rw [h.body_eq (.inl hdigits)]
  · rename_i digits hdigits
    rw [h.body_eq (.inr hdigits)]
  · rename_i hx hX
    exact h.elim (fun h => absurd h (hx body)) (fun h => absurd h (hX body))

theorem ofNat_ne_nan (n : Nat) : Double.ofNat n ≠ .nan := by
  unfold Double.ofNat Double.ofRatio Double.ofUnits
  split <;> exact Double.noConfusion

theorem Spelling.isNumber_iff_decimal (hblank : text ≠ [])
    (hname : ∀ sign, IsSign sign → text ≠ sign ++ "Infinity".toList) (hmark : ∀ body, ¬Marked text body) :
    IsNumber text ↔ ∃ sign body, text = sign ++ body ∧ IsSign sign ∧ IsDecimal body := by
  constructor
  · intro hnumber
    cases hnumber with
    | blank => exact absurd rfl hblank
    | infinity hsign => exact absurd rfl (hname _ hsign)
    | hexadecimal hmarked => exact absurd hmarked (hmark _)
    | decimal hsign hbody => exact ⟨_, _, rfl, hsign, hbody⟩
  · rintro ⟨sign, body, rfl, hsign, hbody⟩
    exact .decimal hsign hbody

theorem numberOfText_of_not_marked (h : ∀ body, ¬Marked (Blank.trim text) body) :
    numberOfText text ≠ .nan ↔ IsNumber (Blank.trim text) := by
  unfold numberOfText
  generalize Blank.trim text = text at h ⊢
  dsimp only
  simp only [ofList_eq_iff]
  split_ifs with hblank hinfinity hminus
  · exact iff_of_true Double.noConfusion (hblank ▸ .blank)
  · refine iff_of_true Double.noConfusion ?_
    rcases hinfinity with rfl | rfl
    · exact @IsNumber.infinity [] (.inl rfl)
    · exact @IsNumber.infinity ['+'] (.inr (.inl rfl))
  · refine iff_of_true Double.noConfusion ?_
    rw [hminus]
    exact @IsNumber.infinity ['-'] (.inr (.inr rfl))
  · have hname : ∀ sign, IsSign sign → text ≠ sign ++ "Infinity".toList := by
      rintro sign (rfl | rfl | rfl) rfl
      · exact hinfinity (.inl rfl)
      · exact hinfinity (.inr rfl)
      · exact hminus rfl
    rw [isNumber_iff_decimal hblank hname h]
    split
    · exact absurd (.inl rfl) (h _)
    · exact absurd (.inr rfl) (h _)
    · split
      · rename_i hany
        obtain ⟨c, hc, hstray⟩ := List.any_eq_true.1 hany
        refine iff_of_false (fun hne => hne rfl) ?_
        rintro ⟨sign, body, rfl, hsign, hbody⟩
        exact Bool.false_ne_true ((hbody.signed_not_stray hsign c hc).symm.trans hstray)
      · rename_i hany
        refine double_parse?_ne_nan_iff fun c hc => ?_
        rw [Bool.eq_false_iff]
        exact fun hstray => hany (List.any_eq_true.2 ⟨c, hc, hstray⟩)

end Reading

namespace Literal

/-- What is read as a number. -/
theorem toNumber_text_ne_nan_iff (value : String) : (text value).toNumber ≠ .nan ↔
    IsNumber (Blank.trim value.toList) ∧ ¬IsOverlong (Blank.trim value.toList) ∨
      IsSignedHexadecimal (Blank.trim value.toList) := by
  change numberOfText value.toList ≠ .nan ↔ _
  by_cases h : ∃ body, Marked (Blank.trim value.toList) body
  · obtain ⟨body, h⟩ := h
    have hread : ((hexadecimal? body).map Double.ofNat).getD .nan ≠ .nan ↔ (hexadecimal? body).isSome = true := by
      cases hexadecimal? body with
      | none => exact iff_of_false (fun hne => hne rfl) Bool.false_ne_true
      | some n =>
        rw [Option.map_some, Option.getD_some]
        exact iff_of_true (ofNat_ne_nan n) rfl
    rw [numberOfText_of_marked h, hread, isSome_hexadecimal?_iff, h.isNumber_iff, h.isOverlong_iff,
      h.isSignedHexadecimal_iff]
    constructor
    · rintro ⟨digits, rfl | rfl, hdigits, hfits⟩
      · exact .inl ⟨hdigits, fun hlong => Nat.not_le.2 hfits hlong.2⟩
      · exact .inr ⟨digits, rfl, hdigits, hfits⟩
    · rintro (⟨hdigits, hfits⟩ | ⟨digits, rfl, hdigits, hfits⟩)
      · exact ⟨body, .inl rfl, hdigits, Nat.not_le.1 fun hlong => hfits ⟨hdigits, hlong⟩⟩
      · exact ⟨digits, .inr rfl, hdigits, hfits⟩
  · rw [not_exists] at h
    rw [numberOfText_of_not_marked h]
    constructor
    · exact fun hnumber => .inl ⟨hnumber, fun ⟨digits, hmarked, _⟩ => h _ hmarked⟩
    · rintro (⟨hnumber, -⟩ | ⟨digits, hmarked, -⟩)
      · exact hnumber
      · exact absurd hmarked (h _)

end Literal

theorem Spelling.IsOverlong.isNumber {text : List Char} (h : IsOverlong text) : IsNumber text := by
  obtain ⟨digits, hmarked, hdigits, -⟩ := h
  exact .hexadecimal hmarked hdigits

theorem Spelling.IsSignedHexadecimal.not_isNumber {text : List Char} (h : IsSignedHexadecimal text) :
    ¬IsNumber text := by
  obtain ⟨digits, hmarked, -⟩ := h
  exact fun hnumber => (hmarked.isNumber_iff.1 hnumber).head?_ne rfl

/-- A text is read as a number just when it is spelled like one, except for two sorts of texts: a hexadecimal number
of more than 64 bits is not read, and a shorter one is read even with a plus sign behind its mark. -/
theorem reads_as_spelled_iff (value : String) :
    ((Literal.text value).toNumber ≠ .nan ↔ IsNumber (Blank.trim value.toList)) ↔
      ¬IsOverlong (Blank.trim value.toList) ∧ ¬IsSignedHexadecimal (Blank.trim value.toList) := by
  have hread := Literal.toNumber_text_ne_nan_iff value
  constructor
  · intro hspelled
    refine ⟨fun hlong => ?_, fun hsigned => ?_⟩
    · rcases hread.1 (hspelled.2 hlong.isNumber) with ⟨-, hfits⟩ | hsigned
      · exact hfits hlong
      · exact hsigned.not_isNumber hlong.isNumber
    · exact hsigned.not_isNumber (hspelled.1 (hread.2 (.inr hsigned)))
  · rintro ⟨hfits, hunsigned⟩
    rw [hread]
    constructor
    · rintro (⟨hnumber, -⟩ | hsigned)
      · exact hnumber
      · exact absurd hsigned hunsigned
    · exact fun hnumber => .inl ⟨hnumber, hfits⟩

/-- A sign behind the mark is read, and a number of 65 bits is not. -/
theorem not_reads_as_spelled_signedOne :
    ¬((Literal.text "0x+1").toNumber ≠ .nan ↔ IsNumber (Blank.trim "0x+1".toList)) ∧
      ¬((Literal.text "0x10000000000000000").toNumber ≠ .nan ↔
        IsNumber (Blank.trim "0x10000000000000000".toList)) := by
  have hsigned : IsSignedHexadecimal (Blank.trim "0x+1".toList) :=
    ⟨['1'], .inl (by decide), ⟨by decide, List.all_eq_true.1 (by decide)⟩, by decide⟩
  have hlong : IsOverlong (Blank.trim "0x10000000000000000".toList) :=
    ⟨"10000000000000000".toList, .inl (by decide), ⟨by decide, List.all_eq_true.1 (by decide)⟩, by decide⟩
  constructor
  · intro hspelled
    exact hsigned.not_isNumber (hspelled.1 ((Literal.toNumber_text_ne_nan_iff _).2 (.inr hsigned)))
  · intro hspelled
    rcases (Literal.toNumber_text_ne_nan_iff _).1 (hspelled.2 hlong.isNumber) with ⟨-, hfits⟩ | hsigned
    · exact hfits hlong
    · exact hsigned.not_isNumber hlong.isNumber

end DialogueScript

import Mathlib
import DialogueScript.Proofs.LexedTokens
import DialogueScript.Proofs.Rounding

namespace DialogueScript

namespace Decimal

theorem digitsValue_append (a b : List Char) :
    digitsValue (a ++ b) = digitsValue a * 10 ^ b.length + digitsValue b := by
  have hfold : ∀ (b : List Char) (n : Nat),
      b.foldl (fun n c => 10 * n + (c.toNat - '0'.toNat)) n = n * 10 ^ b.length + digitsValue b := by
    intro b
    unfold digitsValue
    induction b with
    | nil => simp
    | cons c b ih =>
      intro n
      rw [List.foldl_cons, List.foldl_cons, ih, ih (10 * 0 + _), List.length_cons, Nat.pow_succ,
        Nat.add_mul, Nat.add_mul]
      have hpow : 10 * n * 10 ^ b.length = n * (10 ^ b.length * 10) := by ac_rfl
      omega
  unfold digitsValue at hfold ⊢
  rw [List.foldl_append, hfold]

theorem digitsValue_singleton (c : Char) : digitsValue [c] = c.toNat - '0'.toNat := by
  simp [digitsValue]

theorem digitsValue_toDigits (n : Nat) : digitsValue (Nat.toDigits 10 n) = n := by
  induction n using Nat.strongRecOn with
  | ind n ih =>
    by_cases hn : n < 10
    · rw [Nat.toDigits_of_lt_base hn, digitsValue_singleton]
      exact Nat.toNat_digitChar_sub_48_of_lt_ten hn
    · rw [Nat.toDigits_of_base_le (by decide) (by omega), digitsValue_append,
        ih (n / 10) (by omega), digitsValue_singleton]
      have hlast : (n % 10).digitChar.toNat - '0'.toNat = n % 10 :=
        Nat.toNat_digitChar_sub_48_of_lt_ten (Nat.mod_lt n (by decide))
      rw [hlast, List.length_singleton]
      omega

theorem digitsValue_replicate_zero (k : Nat) : digitsValue (List.replicate k '0') = 0 := by
  induction k with
  | zero => rfl
  | succ k ih =>
    rw [List.replicate_succ', digitsValue_append, ih]
    rfl

theorem takeSign_of_isDigit {c : Char} (h : c.isDigit = true) (text : List Char) :
    takeSign (c :: text) = (false, c :: text) := by
  unfold takeSign
  split
  · rename_i heq
    obtain ⟨rfl, -⟩ := List.cons.inj heq
    exact absurd h (by decide)
  · rename_i heq
    obtain ⟨rfl, -⟩ := List.cons.inj heq
    exact absurd h (by decide)
  · rfl

theorem parse?_decimalText {whole fraction : List Char} (hwhole : whole ≠ [])
    (hdigits : ∀ c ∈ whole ++ fraction, c.isDigit = true) :
    parse? (decimalText whole fraction) =
      some ⟨digitsValue (whole ++ fraction), -(fraction.length : Int)⟩ := by
  have hw : ∀ c ∈ whole, c.isDigit = true := fun c hc => hdigits c (List.mem_append_left _ hc)
  have hf : ∀ c ∈ fraction, c.isDigit = true := fun c hc => hdigits c (List.mem_append_right _ hc)
  unfold parse? decimalText
  by_cases hnil : fraction = []
  · have hsplit := takeWhile_stretch [] hw (by simp)
    rw [List.append_nil] at hsplit
    simp [hnil, hsplit, hwhole, exponent?]
  · have hsplit := takeWhile_stretch ('.' :: fraction) hw (by simp [Char.isDigit])
    have hsplit' := takeWhile_stretch [] hf (by simp)
    rw [List.append_nil] at hsplit'
    simp [hnil, hsplit, hsplit', hwhole, exponent?]

end Decimal

namespace Double

def isFinite : Double → Bool
  | finite .. => true
  | nan | infinity _ => false

theorem ofUnits_congr {negative : Bool} {num den num' den' : Nat}
    (h : nearestUnits num den = nearestUnits num' den') :
    ofUnits negative num den = ofUnits negative num' den' := by
  unfold ofUnits
  simp only [h]

theorem ofUnits_of_representable {negative : Bool} {num den units : Nat}
    (hunits : Representable units) (h : nearestUnits num den = units) :
    ofUnits negative num den = .finite negative units hunits := by
  subst h
  unfold ofUnits
  rw [dif_pos hunits.1]

theorem exists_finite_of_isFinite {m den : Nat} (h : (ofRatio false m den).isFinite = true) :
    ∃ units hunits, ofRatio false m den = .finite false units hunits := by
  unfold ofRatio at h ⊢
  generalize m * 2 ^ 1074 = num at h ⊢
  by_cases hlt : nearestUnits num den < overflowUnits
  · have hunits : Representable (nearestUnits num den) := ⟨hlt, nearestUnits_significant num den⟩
    exact ⟨_, hunits, ofUnits_of_representable hunits rfl⟩
  · rw [ofUnits, dif_neg hlt] at h
    cases h

theorem isFinite_ofRatio {m den : Nat} (hden : 0 < den) :
    (ofRatio false m den).isFinite = true ↔ m < (2 ^ 54 - 1) * 2 ^ 970 * den := by
  have hfinite : (ofRatio false m den).isFinite = true ↔
      nearestUnits (m * 2 ^ 1074) den < overflowUnits := by
    unfold ofRatio ofUnits
    split <;> rename_i h
    · exact iff_of_true rfl h
    · exact iff_of_false (by simp [isFinite]) h
  have hscale := mul_two_pow_lt_iff 1074 (a := m) (b := (2 ^ 54 - 1) * 2 ^ 970 * den)
  rw [hfinite, nearestUnits_lt_overflowUnits_iff hden, two_pow_split 2044 970 1074 rfl]
  generalize 2 ^ 970 = bound at hscale ⊢
  generalize 2 ^ 1074 = scale at hscale ⊢
  rw [show (2 ^ 54 - 1) * (bound * scale) * den = (2 ^ 54 - 1) * bound * den * scale by ac_rfl]
  exact hscale

theorem nearestUnits_zero {den : Nat} (h : 0 < den) : nearestUnits (0 * 2 ^ 1074) den = 0 := by
  apply nearestUnits_of_small
  generalize 2 ^ 1074 = scale
  simpa using h

/-- The guard against huge powers changes nothing: what it takes for zero is rounded to zero. -/
theorem toDouble_neg (m k : Nat) :
    Decimal.toDouble false ⟨m, -(k : Int)⟩ = .ofRatio false m (10 ^ k) := by
  unfold Decimal.toDouble
  dsimp only
  by_cases hm : m = 0
  · rw [if_pos hm, hm]
    apply ofUnits_congr
    rw [nearestUnits_zero (Nat.one_pos), nearestUnits_zero (Nat.pow_pos (by decide))]
  · rw [if_neg hm]
    by_cases hk : k = 0
    · simp [hk]
    · rw [if_neg (by omega), Int.neg_neg, Int.toNat_natCast]
      split
      · rename_i hguard
        apply ofUnits_congr
        -- the value is less than half of the least unit
        have hlog : m < 2 ^ (m.log2 + 1) := Nat.lt_log2_self
        have hten : 2 ^ (3 * k) ≤ 10 ^ k := by
          rw [Nat.pow_mul]
          exact Nat.pow_le_pow_left (by decide) k
        have hlow : 2 ^ (m.log2 + 1) * 2 ^ 1075 ≤ 2 ^ (3 * k) := by
          rw [← Nat.pow_add 2 (m.log2 + 1) 1075]
          exact Nat.pow_le_pow_right (by decide) (by omega)
        have hsmall : 2 * (m * 2 ^ 1074) < 10 ^ k := by
          apply Nat.lt_of_lt_of_le _ (Nat.le_trans hlow hten)
          exact two_mul_scale_lt hlog 1074 1075 rfl
        rw [nearestUnits_of_small hsmall, nearestUnits_zero Nat.one_pos]
      · rfl

theorem toLower_of_isDigit {c : Char} (h : c.isDigit = true) : c.toLower = c := by
  rw [Char.toLower, dif_neg]
  rintro ⟨hlow, -⟩
  simp only [Char.isDigit, Bool.and_eq_true, decide_eq_true_eq, ge_iff_le, UInt32.le_iff_toNat_le]
    at h hlow
  have : 'A'.val.toNat = 65 := rfl
  have : '9'.val.toNat = 57 := rfl
  omega

theorem parse?_decimalText {whole fraction : List Char} (hwhole : whole ≠ [])
    (hdigits : ∀ c ∈ whole ++ fraction, c.isDigit = true) :
    parse? (decimalText whole fraction) =
      some (.ofRatio false (Decimal.digitsValue (whole ++ fraction)) (10 ^ fraction.length)) := by
  have hparse := Decimal.parse?_decimalText hwhole hdigits
  obtain ⟨c, rest, rfl⟩ : ∃ c rest, whole = c :: rest := List.exists_cons_of_ne_nil hwhole
  have hc : c.isDigit = true := hdigits c (by simp)
  obtain ⟨tail, htext⟩ : ∃ tail, decimalText (c :: rest) fraction = c :: tail := ⟨_, rfl⟩
  rw [htext] at hparse ⊢
  -- no word is spelled with a digit first
  have hname : ∀ d rest, d.isDigit = false →
      String.ofList ((c :: tail).map Char.toLower) ≠ String.ofList (d :: rest) := by
    intro d rest hd heq
    have hlist := String.ofList_injective heq
    rw [List.map_cons, toLower_of_isDigit hc] at hlist
    obtain ⟨rfl, -⟩ := List.cons.inj hlist
    exact absurd hc (by simp [hd])
  unfold parse?
  rw [Decimal.takeSign_of_isDigit hc]
  dsimp only
  rw [if_neg, if_neg (hname 'n' _ (by decide)), hparse, Option.map_some, toDouble_neg]
  rintro (h | h)
  · exact hname 'i' _ (by decide) h
  · exact hname 'i' _ (by decide) h

theorem readsAs_eq {units scaled : Nat} :
    readsAs units scaled = true ↔ nearestUnits scaled (5 ^ 1074) = units := by
  unfold readsAs
  exact decide_eq_true_iff

theorem readsAs_of_shortened? {units digits scaled : Nat} (h : shortened? units digits = some scaled) :
    readsAs units scaled = true := by
  unfold shortened? at h
  dsimp only at h
  split at h
  · rename_i hbelow
    obtain rfl := Option.some.inj h
    exact (Bool.and_eq_true_iff.1 hbelow).1
  · split at h
    · rename_i habove
      obtain rfl := Option.some.inj h
      exact habove
    · cases h

/-- The digits that are printed always read back. -/
theorem readsAs_shortest {units : Nat} (h : Representable units) :
    readsAs units (shortest units) = true := by
  unfold shortest
  cases hfind : (List.range 17).findSome? fun n => shortened? units (n + 1) with
  | none =>
    -- all digits of the exact value are taken, and it is representable
    have hpos : ∀ n, 0 < 5 ^ n := fun n => Nat.pow_pos (by decide)
    exact readsAs_eq.2 (nearestUnits_representable h (hpos 1074))
  | some scaled =>
    obtain ⟨n, -, hn⟩ := List.exists_of_findSome?_eq_some hfind
    exact readsAs_of_shortened? hn

theorem exists_eq_trimZeros (digits : List Char) :
    ∃ k, digits = trimZeros digits ++ List.replicate k '0' := by
  unfold trimZeros
  refine ⟨(digits.reverse.takeWhile (· = '0')).length, ?_⟩
  have hzeros : digits.reverse.takeWhile (· = '0') =
      List.replicate (digits.reverse.takeWhile (· = '0')).length '0' := by
    apply List.eq_replicate_of_mem
    intro c hc
    simpa using List.mem_takeWhile_imp hc
  have hsplit : digits.reverse.takeWhile (· = '0') ++ digits.reverse.dropWhile (· = '0') =
      digits.reverse := List.takeWhile_append_dropWhile
  rw [hzeros] at hsplit
  have hreverse := congrArg List.reverse hsplit
  rw [List.reverse_append, List.reverse_reverse, List.reverse_replicate] at hreverse
  exact hreverse.symm

theorem positional_eq (scaled : Nat) : ∃ whole fraction,
    positional scaled = decimalText whole fraction ∧ whole ≠ [] ∧
      (∀ c ∈ whole ++ fraction, c.isDigit = true) ∧ fraction.length ≤ 1074 ∧
      Decimal.digitsValue (whole ++ fraction) * 10 ^ (1074 - fraction.length) = scaled := by
  have hdigits : ∀ n, ∀ c ∈ Nat.toDigits 10 n, c.isDigit = true :=
    fun n c hc => Nat.isDigit_of_mem_toDigits (by decide) (by decide) hc
  unfold positional
  dsimp only
  generalize 1074 = places
  refine ⟨Nat.toDigits 10 (scaled / 10 ^ places), ?_⟩
  have hscaled : scaled / 10 ^ places * 10 ^ places + scaled % 10 ^ places = scaled := by
    rw [Nat.mul_comm]
    exact Nat.div_add_mod scaled (10 ^ places)
  by_cases hzero : scaled % 10 ^ places = 0
  · refine ⟨[], ?_, Nat.toDigits_ne_nil, ?_, Nat.zero_le _, ?_⟩
    · rw [if_pos hzero]
      rfl
    · rw [List.append_nil]
      exact hdigits _
    · rw [List.append_nil, Decimal.digitsValue_toDigits]
      exact (Nat.add_eq_left.2 hzero).symm.trans hscaled
  -- the fraction is padded to all places, and its zeros at the end are worth nothing
  · let digits := Nat.toDigits 10 (scaled % 10 ^ places)
    let padded := List.replicate (places - digits.length) '0' ++ digits
    obtain ⟨k, hk⟩ := exists_eq_trimZeros padded
    have hplaces : 0 < places := by
      apply Nat.pos_of_ne_zero
      rintro rfl
      exact hzero (Nat.mod_one scaled)
    have hlength : digits.length ≤ places :=
      (Nat.length_toDigits_le_iff (by decide) hplaces).2 (Nat.mod_lt _ (Nat.pow_pos (by decide)))
    have hpadded : Decimal.digitsValue padded = scaled % 10 ^ places := by
      rw [Decimal.digitsValue_append, Decimal.digitsValue_replicate_zero, Nat.zero_mul, Nat.zero_add,
        Decimal.digitsValue_toDigits]
    have hcount : (trimZeros padded).length + k = places := by
      have := congrArg List.length hk
      simp only [padded, List.length_append, List.length_replicate] at this ⊢
      omega
    have hvalue : Decimal.digitsValue (trimZeros padded) * 10 ^ k = scaled % 10 ^ places := by
      rw [← hpadded]
      conv_rhs => rw [hk]
      rw [Decimal.digitsValue_append, Decimal.digitsValue_replicate_zero, List.length_replicate,
        Nat.add_zero]
    refine ⟨trimZeros padded, ?_, Nat.toDigits_ne_nil, ?_, by omega, ?_⟩
    · rw [if_neg hzero, decimalText, if_neg]
      intro hnil
      rw [hnil] at hvalue
      exact hzero (hvalue.symm.trans (Nat.zero_mul _))
    · intro c hc
      rcases List.mem_append.1 hc with hc | hc
      · exact hdigits _ c hc
      · have hc : c ∈ padded := by
          rw [hk]
          exact List.mem_append_left _ hc
        rcases List.mem_append.1 hc with hc | hc
        · rw [List.eq_of_mem_replicate hc]
          rfl
        · exact hdigits _ c hc
    · rw [Decimal.digitsValue_append, Decimal.digitsValue_toDigits, Nat.add_mul, Nat.mul_assoc,
        ← Nat.pow_add, show places - (trimZeros padded).length = k by omega, hcount, hvalue]
      exact hscaled

/-- A double that is neither negative nor infinite is printed as a numeral that reads back. -/
theorem print_finite {units : Nat} (h : Representable units) : ∃ whole fraction,
    print (.finite false units h) = decimalText whole fraction ∧ whole ≠ [] ∧
      (∀ c ∈ whole ++ fraction, c.isDigit = true) ∧
      parse? (decimalText whole fraction) = some (.finite false units h) := by
  obtain ⟨whole, fraction, htext, hwhole, hdigits, hlength, hvalue⟩ := positional_eq (shortest units)
  refine ⟨whole, fraction, htext, hwhole, hdigits, ?_⟩
  rw [parse?_decimalText hwhole hdigits]
  have hreads := readsAs_eq.1 (readsAs_shortest h)
  rw [← hvalue] at hreads
  rw [← nearestUnits_decimal _ hlength] at hreads
  exact congrArg some (ofUnits_of_representable h hreads)

end Double

end DialogueScript

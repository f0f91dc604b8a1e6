import DialogueScript.Decimal

namespace DialogueScript

theorem two_pow_split (n a b : Nat) (h : n = a + b) : 2 ^ n = 2 ^ a * 2 ^ b := by
  rw [h, Nat.pow_add]

theorem mul_two_pow_lt_iff (n : Nat) {a b : Nat} : a * 2 ^ n < b * 2 ^ n ↔ a < b :=
  Nat.mul_lt_mul_right (Nat.two_pow_pos n)

theorem two_mul_scale_lt {a b : Nat} (h : a < b) (n e : Nat) (he : e = n + 1) :
    2 * (a * 2 ^ n) < b * 2 ^ e := by
  have hscale : a * 2 ^ e < b * 2 ^ e := (mul_two_pow_lt_iff e).2 h
  have hdouble : 2 * (a * 2 ^ n) = a * 2 ^ e := by
    rw [he, Nat.pow_succ]
    ac_rfl
  rwa [hdouble]

theorem nearestEven_scale (num den : Nat) {k : Nat} (hk : 0 < k) :
    nearestEven (num * k) (den * k) = nearestEven num den := by
  have hdiv : num * k / (den * k) = num / den := Nat.mul_div_mul_right num den hk
  have hmod : num * k % (den * k) = num % den * k := Nat.mul_mod_mul_right k num den
  have htwice : 2 * (num % den * k) = 2 * (num % den) * k := by ac_rfl
  unfold nearestEven
  simp only [hdiv, hmod, htwice, Nat.mul_lt_mul_right hk]

theorem nearestUnits_scale (num den : Nat) {k : Nat} (hk : 0 < k) :
    nearestUnits (num * k) (den * k) = nearestUnits num den := by
  have hdiv : num * k / (den * k) = num / den := Nat.mul_div_mul_right num den hk
  unfold nearestUnits
  simp only [hdiv]
  rw [Nat.mul_right_comm den k, nearestEven_scale _ _ hk]

theorem nearestUnits_decimal (m : Nat) {k n : Nat} (h : k ≤ n) :
    nearestUnits (m * 2 ^ n) (10 ^ k) = nearestUnits (m * 10 ^ (n - k)) (5 ^ n) := by
  have hten : 10 ^ k * 10 ^ (n - k) = 5 ^ n * 2 ^ n := by
    rw [← Nat.pow_add, Nat.add_sub_cancel' h, ← Nat.mul_pow]
  have hleft : 0 < 10 ^ (n - k) := Nat.pow_pos (by decide)
  calc nearestUnits (m * 2 ^ n) (10 ^ k)
    _ = nearestUnits (m * 2 ^ n * 10 ^ (n - k)) (10 ^ k * 10 ^ (n - k)) :=
      (nearestUnits_scale _ _ hleft).symm
    _ = nearestUnits (m * 10 ^ (n - k) * 2 ^ n) (5 ^ n * 2 ^ n) := by
      rw [hten, Nat.mul_right_comm]
    _ = nearestUnits (m * 10 ^ (n - k)) (5 ^ n) := nearestUnits_scale _ _ (Nat.two_pow_pos n)

theorem nearestEven_mul_self (n : Nat) {den : Nat} (h : 0 < den) : nearestEven (n * den) den = n := by
  unfold nearestEven
  simp only [Nat.mul_div_cancel n h, Nat.mul_mod_left, Nat.mul_zero, h, ↓reduceIte]

theorem two_pow_shift_dvd {units : Nat} (h : Representable units) : 2 ^ (units.log2 - 52) ∣ units := by
  obtain ⟨-, mantissa, shift, hmantissa, hunits⟩ := h
  have hle : units.log2 - 52 ≤ shift := by
    by_cases hzero : units = 0
    · simp [hzero, Nat.log2_zero]
    · have hlow : 2 ^ units.log2 ≤ units := Nat.log2_self_le hzero
      have hhigh : units < 2 ^ (53 + shift) := by
        rw [hunits, Nat.pow_add]
        exact Nat.mul_lt_mul_of_pos_right hmantissa (Nat.two_pow_pos shift)
      have hexp : units.log2 < 53 + shift :=
        (Nat.pow_lt_pow_iff_right (by decide)).1 (Nat.lt_of_le_of_lt hlow hhigh)
      omega
  rw [hunits] at hle ⊢
  apply Nat.dvd_trans (Nat.pow_dvd_pow 2 hle)
  exact Nat.dvd_mul_left _ _

theorem nearestUnits_one {units : Nat} (h : Representable units) : nearestUnits units 1 = units := by
  have hdvd := two_pow_shift_dvd h
  unfold nearestUnits
  simp only [Nat.div_one, Nat.one_mul]
  generalize units.log2 - 52 = shift at hdvd
  obtain ⟨n, rfl⟩ := hdvd
  rw [Nat.mul_comm (2 ^ shift) n, nearestEven_mul_self n (Nat.two_pow_pos shift)]

theorem nearestUnits_representable {units den : Nat} (h : Representable units) (hden : 0 < den) :
    nearestUnits (units * den) den = units := by
  have := nearestUnits_scale units 1 hden
  rw [Nat.one_mul] at this
  rw [this, nearestUnits_one h]

theorem nearestUnits_of_small {num den : Nat} (h : 2 * num < den) : nearestUnits num den = 0 := by
  have hdiv : num / den = 0 := Nat.div_eq_of_lt (by omega)
  have hmod : num % den = num := Nat.mod_eq_of_lt (by omega)
  unfold nearestUnits nearestEven
  simp [hdiv, hmod, h, Nat.log2_zero]

theorem le_nearestEven (num den : Nat) : num / den ≤ nearestEven num den := by
  unfold nearestEven
  dsimp only
  split
  · exact Nat.le_refl _
  · split <;> omega

/-- Up to an odd number, that is where rounding does not reach the even number after it. -/
theorem nearestEven_le_odd_iff (num n : Nat) {den : Nat} (hden : 0 < den) (hn : n % 2 = 1) :
    nearestEven num den ≤ n ↔ 2 * num < (2 * n + 1) * den := by
  have hsplit : den * (num / den) + num % den = num := Nat.div_add_mod num den
  have hmod : num % den < den := Nat.mod_lt num hden
  rcases Nat.lt_trichotomy (num / den) n with hlt | heq | hgt
  · have hle : nearestEven num den ≤ num / den + 1 := nearestEven_le num den
    have hmul : den * (num / den + 1) ≤ den * n := Nat.mul_le_mul_left den hlt
    rw [Nat.mul_add, Nat.mul_one] at hmul
    rw [Nat.add_mul, Nat.mul_assoc, Nat.mul_comm n den]
    omega
  · -- the ratio lies in the step above `n`, and its middle is rounded up
    rw [Nat.add_mul, Nat.mul_assoc, ← heq, Nat.mul_comm (num / den) den]
    unfold nearestEven
    dsimp only
    rw [← heq] at hn
    split
    · omega
    · split <;> omega
  · have hle := le_nearestEven num den
    have hmul : den * (n + 1) ≤ den * (num / den) := Nat.mul_le_mul_left den hgt
    rw [Nat.mul_add, Nat.mul_one] at hmul
    rw [Nat.add_mul, Nat.mul_assoc, Nat.mul_comm n den]
    omega

/-- With 53 significant bits, a large power of two is reached from half a step below it. -/
theorem nearestUnits_lt_two_pow_iff {num den : Nat} (n e : Nat) (hn : n = 53 + (e + 1))
    (hden : 0 < den) : nearestUnits num den < 2 ^ n ↔ num < (2 ^ 54 - 1) * 2 ^ e * den := by
  rw [two_pow_split n 53 (e + 1) hn]
  let shift := (num / den).log2 - 52
  have hquotient : num / (den * 2 ^ shift) < 2 ^ 53 := by
    rw [← Nat.div_div_eq_div_mul]
    exact div_shift_lt (num / den)
  have hround : nearestEven num (den * 2 ^ shift) ≤ 2 ^ 53 :=
    Nat.le_trans (nearestEven_le num (den * 2 ^ shift)) hquotient
  change nearestEven num (den * 2 ^ shift) * 2 ^ shift < _ ↔ _
  rcases Nat.lt_trichotomy shift (e + 1) with hlt | heq | hgt
  · -- below the bound on both sides
    have hleft : nearestEven num (den * 2 ^ shift) * 2 ^ shift < 2 ^ 53 * 2 ^ (e + 1) := by
      apply Nat.lt_of_le_of_lt (Nat.mul_le_mul_right _ hround)
      exact Nat.mul_lt_mul_of_pos_left (Nat.pow_lt_pow_right (by decide) hlt) (by decide)
    have hlog : num / den < 2 ^ 53 * 2 ^ e := by
      rw [← Nat.pow_add]
      apply Nat.lt_of_lt_of_le Nat.lt_log2_self
      apply Nat.pow_le_pow_right (by decide)
      omega
    have hright : num < 2 ^ 53 * 2 ^ e * den := (Nat.div_lt_iff_lt_mul hden).1 hlog
    have hbound : 2 ^ 53 * 2 ^ e * den ≤ (2 ^ 54 - 1) * 2 ^ e * den :=
      Nat.mul_le_mul_right _ (Nat.mul_le_mul_right _ (by decide))
    exact iff_of_true hleft (Nat.lt_of_lt_of_le hright hbound)
  · have hscaled : 0 < den * 2 ^ (e + 1) := Nat.mul_pos hden (Nat.two_pow_pos _)
    have hmiddle := nearestEven_le_odd_iff num (2 ^ 53 - 1) hscaled (by decide)
    have htwice : (2 * (2 ^ 53 - 1) + 1) * (den * 2 ^ (e + 1)) = 2 * ((2 ^ 54 - 1) * 2 ^ e * den) := by
      rw [show 2 ^ (e + 1) = 2 ^ e * 2 from Nat.pow_succ 2 e, show 2 * (2 ^ 53 - 1) + 1 = 2 ^ 54 - 1 from rfl]
      ac_rfl
    rw [heq, Nat.mul_lt_mul_right (Nat.two_pow_pos _), Nat.lt_iff_le_pred (by decide)]
    rw [htwice] at hmiddle
    apply hmiddle.trans
    exact Nat.mul_lt_mul_left (by decide)
  · have hlog : 2 ^ 52 * 2 ^ shift ≤ num / den := by
      have hne : num / den ≠ 0 := by
        intro hzero
        simp [shift, hzero, Nat.log2_zero] at hgt
      rw [← Nat.pow_add]
      apply Nat.le_trans _ (Nat.log2_self_le hne)
      apply Nat.pow_le_pow_right (by decide)
      omega
    -- the quotient alone is too large already, so both sides fail
    have hpower : 2 ^ 53 * 2 ^ (e + 1) ≤ 2 ^ 52 * 2 ^ shift := by
      rw [← Nat.pow_add, ← Nat.pow_add]
      apply Nat.pow_le_pow_right (by decide)
      omega
    have hleft : 2 ^ 53 * 2 ^ (e + 1) ≤ nearestEven num (den * 2 ^ shift) * 2 ^ shift := by
      apply Nat.le_trans hpower
      apply Nat.mul_le_mul_right
      apply Nat.le_trans _ (le_nearestEven _ _)
      rw [← Nat.div_div_eq_div_mul, Nat.le_div_iff_mul_le (Nat.two_pow_pos shift)]
      exact hlog
    have hright : (2 ^ 54 - 1) * 2 ^ e * den ≤ num := by
      have hmul : 2 ^ 53 * 2 ^ (e + 1) * den ≤ num :=
        (Nat.le_div_iff_mul_le hden).1 (Nat.le_trans hpower hlog)
      apply Nat.le_trans _ hmul
      apply Nat.mul_le_mul_right
      rw [show 2 ^ (e + 1) = 2 ^ e * 2 from Nat.pow_succ 2 e]
      omega
    exact iff_of_false (Nat.not_lt.2 hleft) (Nat.not_lt.2 hright)

/-- The least ratio that is rounded to more than every double lies half a step above the greatest
double. -/
theorem nearestUnits_lt_overflowUnits_iff {num den : Nat} (hden : 0 < den) :
    nearestUnits num den < overflowUnits ↔ num < (2 ^ 54 - 1) * 2 ^ 2044 * den := by
  unfold overflowUnits
  exact nearestUnits_lt_two_pow_iff 2098 2044 rfl hden

end DialogueScript

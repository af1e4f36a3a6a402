import CallBridge.Number.Binary64

/-!
# Whole numbers that are doubles

A natural of at most 53 binary digits is its own mantissa, up to a power of two. Main statement: it
is the value of its double (`toNat?_ofNat`).
-/

namespace CallBridge.Number.Magnitude

variable {n k m : Nat} {e : Int}

/-- A natural under a negative power of two. -/
theorem scaled_neg (n k : Nat) : scaled n 1 (-(k : Int)) = (n * Nat.pow 2 k, 1) := by
  cases k with
  | zero => simp [scaled]
  | succ k =>
    have hneg : ¬ (0 : Int) ≤ -((k + 1 : Nat) : Int) := by omega
    rw [scaled, if_neg hneg, Int.neg_neg, Int.toNat_natCast]

theorem toNat?_finite_neg (n k : Nat) : (finite (n * Nat.pow 2 k) (-(k : Int))).toNat? = some n := by
  have hpos : 0 < Nat.pow 2 k := Nat.two_pow_pos k
  cases k with
  | zero => simp [toNat?, toQuotient, Nat.mod_one]
  | succ k =>
    have hneg : ¬ (0 : Int) ≤ -((k + 1 : Nat) : Int) := by omega
    simp only [toNat?, toQuotient, if_neg hneg, Int.neg_neg, Int.toNat_natCast,
      Nat.mul_mod_left, ↓reduceIte, Nat.mul_div_cancel _ hpos]

/-- The scale that makes a natural a mantissa of 53 binary digits is its exponent. -/
theorem exponentFor_eq (hlow : Nat.pow 2 52 ≤ m) (he : (n.log2 : Int) - (Nat.log2 1 : Nat) - 52 = e)
    (hscaled : scaled n 1 e = (m, 1)) (hmin : minExponent ≤ e) : exponentFor n 1 = e := by
  unfold exponentFor
  rw [he]
  extract_lets guess
  split
  next num den hpair =>
  obtain ⟨rfl, rfl⟩ := Prod.mk.inj (hpair.symm.trans hscaled)
  rw [Nat.one_mul, if_neg (Nat.not_lt.2 hlow)]
  exact Int.max_eq_right hmin

/-- A natural that is whole in its scale is that mantissa. -/
theorem ofNat_eq_finite (hn : n ≠ 0) (he : exponentFor n 1 = e) (hscaled : scaled n 1 e = (m, 1))
    (hm : m ≠ Nat.pow 2 53) (hmax : ¬ maxExponent < e) : ofNat n = .finite m e := by
  have hround : roundDiv m 1 .toEven = m := by
    have hwhole := roundDiv_mul_right m 1 .toEven Nat.one_pos
    rwa [Nat.mul_one] at hwhole
  unfold ofNat ofQuotient
  rw [if_neg hn, he]
  extract_lets scale
  split
  next num den hpair =>
  obtain ⟨rfl, rfl⟩ := Prod.mk.inj (hpair.symm.trans hscaled)
  extract_lets mantissa
  have hmantissa : mantissa = num := hround
  rw [hmantissa, if_neg hm]
  exact if_neg hmax

/-- A natural of at most 53 binary digits is shifted until it has 53. -/
theorem ofNat_of_lt (hn : n ≠ 0) (hlow : Nat.pow 2 52 ≤ n * Nat.pow 2 k)
    (hhigh : n * Nat.pow 2 k < Nat.pow 2 53) (hlog : n.log2 + k = 52) :
    ofNat n = .finite (n * Nat.pow 2 k) (-(k : Int)) := by
  have hguess : (n.log2 : Int) - (Nat.log2 1 : Nat) - 52 = -(k : Int) := by
    have hone : Nat.log2 1 = 0 := by decide
    rw [hone]
    omega
  have hmin : minExponent ≤ -(k : Int) := by
    rw [minExponent]
    omega
  have hmax : ¬ maxExponent < -(k : Int) := by
    rw [maxExponent]
    omega
  exact ofNat_eq_finite hn (exponentFor_eq hlow hguess (scaled_neg n k) hmin) (scaled_neg n k)
    (Nat.ne_of_lt hhigh) hmax

/-- A natural up to `2 ^ 53` is the value of its double. -/
theorem toNat?_ofNat (hn : n ≤ Nat.pow 2 53) : (ofNat n).toNat? = some n := by
  by_cases hzero : n = 0
  · subst hzero
    have hnone : ∀ k : Nat, (finite 0 (-(k : Int))).toNat? = some 0 := by
      intro k
      have hscaled := toNat?_finite_neg 0 k
      rwa [Nat.zero_mul] at hscaled
    exact hnone 1074
  rcases Nat.lt_or_eq_of_le hn with hlt | rfl
  · have hlog : n.log2 < 53 := (Nat.log2_lt hzero).2 hlt
    obtain ⟨k, hk⟩ := Nat.exists_eq_add_of_le (Nat.le_of_lt_succ hlog)
    have hlow : Nat.pow 2 52 ≤ n * Nat.pow 2 k := by
      rw [hk]
      exact Nat.le_trans (Nat.le_of_eq (Nat.pow_add 2 _ _))
        (Nat.mul_le_mul_right _ (Nat.log2_self_le hzero))
    have hhigh : n * Nat.pow 2 k < Nat.pow 2 53 := by
      have hsplit : Nat.pow 2 53 = 2 ^ (n.log2 + 1) * 2 ^ k := by
        rw [← Nat.pow_add]
        exact congrArg (2 ^ ·) (show 53 = n.log2 + 1 + k by omega)
      rw [hsplit]
      exact Nat.mul_lt_mul_of_pos_right Nat.lt_log2_self (Nat.two_pow_pos k)
    rw [ofNat_of_lt hzero hlow hhigh hk.symm, toNat?_finite_neg]
  · decide

end CallBridge.Number.Magnitude

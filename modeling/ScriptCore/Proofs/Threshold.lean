import ScriptCore.Proofs.ShapeOrder
import Mathlib.Tactic.Ring

/-!
# A load below one keeps a bucket free

The threshold of a bucket count `c` is `c * load`, rounded to 53 bits, without
its fraction. For a load below one the exact product is below `c`, and the
question is whether rounding can bring it back up to `c`. It cannot. The load
has 53 bits, so it is `1 - 2 ^ -53` at most, and the product stays below `c` by
`c / 2 ^ 53`. On the grid of the product, `c` is a number of steps larger than
`2 ^ 52`, so this is more than half a step.

All of it is natural arithmetic over one denominator: the product is
`c * significand / 2 ^ E` with `53 ≤ E`, and its grid has steps of `2 ^ -k`.

A larger count has a larger product and a grid that is no finer, so what rounds
up to an integer on the finer one does so on the coarser one as well: thresholds
grow with the count. They are never below what the exact product admits, since
an integer is on every grid.
-/

namespace ScriptCore.Binary64

variable {num den E k q c : Nat} {x : Binary64}

/-! ## Rounding a quotient to an integer -/

theorem le_divNearestEven (num den : Nat) : num / den ≤ divNearestEven num den := by
  unfold divNearestEven
  simp only
  split
  · exact Nat.le_refl _
  · split <;> omega

theorem divNearestEven_le_succ (num den : Nat) : divNearestEven num den ≤ num / den + 1 := by
  unfold divNearestEven
  simp only
  split
  · omega
  · split <;> omega

/-- What is rounded to `q` is at least `q - 1 / 2`. -/
theorem divNearestEven_le (num : Nat) (hden : 0 < den) :
    2 * divNearestEven num den * den ≤ 2 * num + den := by
  have hdiv := Nat.div_add_mod num den
  have hmod := Nat.mod_lt num hden
  unfold divNearestEven
  simp only
  generalize num / den = q at *
  generalize num % den = r at *
  have hfloor : 2 * q * den = 2 * (den * q) := by ring
  have hceil : 2 * (q + 1) * den = 2 * (den * q) + 2 * den := by ring
  split
  · omega
  · split
    · omega
    · have htie : 2 * (q + q % 2) * den ≤ 2 * (q + 1) * den :=
        Nat.mul_le_mul_right _ (by omega)
      omega

/-- What is closer than a half to `q` from below is rounded to `q` at least. -/
theorem le_divNearestEven_of_lt (hden : 0 < den) (h : 2 * q * den < 2 * num + den) :
    q ≤ divNearestEven num den := by
  by_contra hlt
  have hfloor := le_divNearestEven num den
  have hdiv := Nat.div_add_mod num den
  have hmod := Nat.mod_lt num hden
  have hstep : 2 * (num / den + 1) * den ≤ 2 * q * den := Nat.mul_le_mul_right _ (by omega)
  have hsplit : 2 * (num / den + 1) * den = 2 * (den * (num / den)) + 2 * den := by ring
  -- the fraction is more than a half, so it was rounded up, and `q` is higher still
  have hup : divNearestEven num den = num / den + 1 := by
    unfold divNearestEven
    simp only
    rw [if_neg (by omega), if_pos (by omega)]
  have hfar : 2 * (num / den + 2) * den ≤ 2 * q * den := Nat.mul_le_mul_right _ (by omega)
  have hsplit' : 2 * (num / den + 2) * den = 2 * (den * (num / den)) + 4 * den := by ring
  omega

theorem divNearestEven_mono {num' : Nat} (hden : 0 < den) (h : num ≤ num') :
    divNearestEven num den ≤ divNearestEven num' den := by
  rcases Nat.lt_or_eq_of_le h with hlt | rfl
  · have hround := divNearestEven_le num hden
    exact le_divNearestEven_of_lt hden (by omega)
  · exact Nat.le_refl _

/-! ## The grid of a quotient -/

/-- How fine the grid is on which `num / 2 ^ E` is rounded: its steps are `2 ^ -k`. -/
def fineness (E num : Nat) : Nat := min (E + 52 - num.log2) 1074

theorem fineness_anti {num' : Nat} (h : num ≤ num') : fineness E num' ≤ fineness E num := by
  have hlog : num.log2 ≤ num'.log2 := by
    rcases Nat.eq_zero_or_pos num with rfl | hpos
    · exact Nat.zero_le _
    · exact (Nat.le_log2 (by omega)).2 (Nat.le_trans (Nat.log2_self_le (by omega)) h)
  unfold fineness
  omega

/-- The quotient has less than `2 ^ 53` steps of its grid, and at least `2 ^ 52`
unless the grid is the finest there is. -/
theorem ratioExponent_eq (hpos : 0 < num) (hlt : num < 2 ^ (E + 31)) :
    let k := fineness E num
    0 < k ∧ k ≤ 1074 ∧ ratioExponent num (2 ^ E) = -(k : Int) ∧
      num * 2 ^ k < 2 ^ E * 2 ^ 53 ∧ (k = 1074 ∨ 2 ^ E * 2 ^ 52 ≤ num * 2 ^ k) := by
  intro k
  have hlow : 2 ^ num.log2 ≤ num := Nat.log2_self_le (by omega)
  have hhigh : num < 2 ^ (num.log2 + 1) := Nat.lt_log2_self
  have hlog : num.log2 < E + 31 := (Nat.log2_lt (by omega)).2 hlt
  obtain ⟨j, hj⟩ : ∃ j, num.log2 + j = E + 52 := ⟨E + 52 - num.log2, by omega⟩
  have hexp : ((num.log2 : Int) - (2 ^ E).log2 - 52) = -(j : Int) := by
    rw [Nat.log2_two_pow]
    omega
  have hnum : 2 ^ E * 2 ^ 52 ≤ num * 2 ^ j := by
    calc 2 ^ E * 2 ^ 52 = 2 ^ num.log2 * 2 ^ j := by rw [← Nat.pow_add, ← Nat.pow_add, hj]
      _ ≤ num * 2 ^ j := Nat.mul_le_mul_right _ hlow
  have hnum' : num * 2 ^ j < 2 ^ E * 2 ^ 53 := by
    calc num * 2 ^ j < 2 ^ (num.log2 + 1) * 2 ^ j :=
          Nat.mul_lt_mul_of_pos_right hhigh (Nat.two_pow_pos j)
      _ = 2 ^ E * 2 ^ 53 := by
          rw [← Nat.pow_add, ← Nat.pow_add]
          congr 1
          omega
  have hratio : ratioExponent num (2 ^ E) = max (-(j : Int)) (-1074) := by
    unfold ratioExponent
    simp only [hexp, Nat.pow_eq]
    rw [show (-(-(j : Int))).toNat = j by omega, show (-(j : Int)).toNat = 0 by omega,
      Nat.pow_zero, Nat.mul_one, if_neg (by omega)]
  have hk : k = min j 1074 := by
    show min (E + 52 - num.log2) 1074 = _
    omega
  rw [hk]
  refine ⟨by omega, Nat.min_le_right .., by rw [hratio]; omega, ?_, ?_⟩
  · exact Nat.lt_of_le_of_lt
      (Nat.mul_le_mul_left _ (Nat.pow_le_pow_right Nat.two_pos (Nat.min_le_left ..))) hnum'
  · by_cases hsmall : j ≤ 1074
    · rw [Nat.min_eq_left hsmall]
      exact .inr hnum
    · exact .inl (Nat.min_eq_right (by omega))

/-- The fields of a word read back as the steps it was made of, also when these
carry into the next binade. -/
theorem floor_ofBits (hk : 0 < k) (hk' : k ≤ 1074) (hq : q ≤ 2 ^ 53)
    (hnormal : k = 1074 ∨ 2 ^ 52 ≤ q) :
    (ofBits ((1074 - k) * 2 ^ 52 + q)).floor = q / 2 ^ k := by
  have hword : (ofBits ((1074 - k) * 2 ^ 52 + q)).bits.toNat = (1074 - k) * 2 ^ 52 + q := by
    rw [ofBits, UInt64.toNat_ofNat']
    omega
  have hfraction : (ofBits ((1074 - k) * 2 ^ 52 + q)).fractionField = q % 2 ^ 52 := by
    rw [fractionField, hword, Nat.pow_eq, Nat.add_comm, Nat.add_mul_mod_self_right]
  have hexponent : (ofBits ((1074 - k) * 2 ^ 52 + q)).exponentField = 1074 - k + q / 2 ^ 52 := by
    rw [exponentField, hword, Nat.pow_eq, Nat.pow_eq, Nat.add_comm,
      Nat.add_mul_div_right _ _ (Nat.two_pow_pos 52)]
    omega
  unfold floor significand exponent
  rw [hfraction, hexponent]
  simp only [Nat.pow_eq]
  by_cases hsub : q < 2 ^ 52
  · -- only the finest grid has numbers this small
    have hfinest : k = 1074 := hnormal.resolve_right (by omega)
    rw [Nat.div_eq_of_lt hsub, if_pos (by omega), if_pos (by omega), Nat.mod_eq_of_lt hsub,
      show (-1074 : Int).toNat = 0 from rfl, show (- -1074 : Int).toNat = k by omega,
      Nat.pow_zero, Nat.mul_one]
  · by_cases hcarry : q = 2 ^ 53
    · subst hcarry
      rw [if_neg (by omega), if_neg (by omega)]
      rw [show ((1074 - k + 2 ^ 53 / 2 ^ 52 : Nat) - 1075 : Int).toNat = 0 by omega,
        show (-((1074 - k + 2 ^ 53 / 2 ^ 52 : Nat) - 1075 : Int)).toNat = k - 1 by omega]
      obtain ⟨j, rfl⟩ : ∃ j, k = j + 1 := ⟨k - 1, by omega⟩
      rw [Nat.add_sub_cancel, Nat.pow_succ 2 j, Nat.mul_comm (2 ^ j), ← Nat.div_div_eq_div_mul]
      rfl
    · have hone : q / 2 ^ 52 = 1 := by omega
      rw [hone, if_neg (by omega), if_neg (by omega)]
      rw [show ((1074 - k + 1 : Nat) - 1075 : Int).toNat = 0 by omega,
        show (-((1074 - k + 1 : Nat) - 1075 : Int)).toNat = k by omega,
        show 2 ^ 52 + q % 2 ^ 52 = q by omega, Nat.pow_zero, Nat.mul_one]

/-! ## A product with a proper fraction -/

/-- A number below one is at most `1 - 2 ^ -53` in its 53 bits. -/
theorem significand_lt (h : x.isProperFraction) :
    ∃ E : Nat, 53 ≤ E ∧ x.exponent = -(E : Int) ∧ x.significand < 2 ^ 53 := by
  simp only [isProperFraction, Bool.and_eq_true, decide_eq_true_eq] at h
  have hbits : x.bits.toNat < 0x3ff0000000000000 := UInt64.lt_iff_toNat_lt.1 h.2
  have hfield : x.exponentField < 1023 := by
    rw [exponentField, Nat.pow_eq, Nat.pow_eq]
    omega
  have hfraction : x.fractionField < 2 ^ 52 := Nat.mod_lt _ (Nat.two_pow_pos 52)
  unfold significand exponent
  by_cases hzero : x.exponentField = 0
  · refine ⟨1074, by omega, by rw [if_pos hzero]; rfl, ?_⟩
    rw [if_pos hzero]
    omega
  · refine ⟨1075 - x.exponentField, by omega, by rw [if_neg hzero]; omega, ?_⟩
    rw [if_neg hzero, Nat.pow_eq]
    omega

/-- A number of steps that is more than `2 ^ 52` is not reached by rounding a
product with a proper fraction. -/
theorem divNearestEven_lt {n sig : Nat} (hn : 2 ^ 52 < n) (hE : 53 ≤ E) (hsig : sig < 2 ^ 53) :
    divNearestEven (n * sig) (2 ^ E) < n := by
  have hround := divNearestEven_le (n * sig) (Nat.two_pow_pos E)
  by_contra hge
  obtain ⟨j, rfl⟩ : ∃ j, E = j + 53 := ⟨E - 53, by omega⟩
  have hprod : n * sig + n ≤ n * 2 ^ 53 := by
    rw [← Nat.mul_succ]
    exact Nat.mul_le_mul_left n hsig
  have hden : 2 ^ (j + 53) = 2 ^ j * 2 ^ 53 := Nat.pow_add ..
  have hbig : 2 * n * (2 ^ j * 2 ^ 53) ≤ 2 * (n * sig) + 2 ^ j * 2 ^ 53 := by
    rw [← hden]
    refine Nat.le_trans (Nat.mul_le_mul_right _ ?_) hround
    omega
  -- the fraction takes away `2 * n`, and half a step gives back less
  have hscale : 2 * (n * sig) + 2 * n ≤ 2 * n * 2 ^ 53 := by
    rw [Nat.mul_assoc]
    omega
  have hpow := Nat.two_pow_pos j
  generalize 2 ^ j = d at *
  have hsplit : 2 * n * (d * 2 ^ 53) = 2 * n * 2 ^ 53 + 2 * n * 2 ^ 53 * (d - 1) := by
    obtain ⟨i, rfl⟩ : ∃ i, d = i + 1 := ⟨d - 1, by omega⟩
    rw [Nat.add_sub_cancel]
    ring
  have hrest : 2 ^ 53 * (d - 1) ≤ 2 * n * 2 ^ 53 * (d - 1) :=
    Nat.mul_le_mul_right _ (Nat.le_mul_of_pos_left _ (by omega))
  have hd : d * 2 ^ 53 = 2 ^ 53 + 2 ^ 53 * (d - 1) := by
    obtain ⟨i, rfl⟩ : ∃ i, d = i + 1 := ⟨d - 1, by omega⟩
    rw [Nat.add_sub_cancel]
    ring
  omega

theorem significand_pos (h : x.isProperFraction) : 0 < x.significand := by
  have hbits : x.bits.toNat % 2 ^ 63 ≠ 0 ∧ x.bits.toNat < 2 ^ 63 := by
    have h := h
    simp only [isProperFraction, isZero, isNegative, Bool.and_eq_true, Bool.not_eq_true',
      decide_eq_false_iff_not, beq_eq_false_iff_ne, Nat.pow_eq, Nat.not_le] at h
    exact ⟨h.1.2, h.1.1⟩
  unfold significand exponentField fractionField
  simp only [Nat.pow_eq]
  split
  · omega
  · omega

theorem product_lt (hE : 53 ≤ E) (hsig : x.significand < 2 ^ 53) (hsmall : c < 2 ^ 31) :
    c * x.significand < 2 ^ (E + 31) := by
  calc c * x.significand < 2 ^ 31 * 2 ^ 53 :=
        Nat.mul_lt_mul_of_lt_of_le hsmall (Nat.le_of_lt hsig) (Nat.two_pow_pos 53)
    _ ≤ 2 ^ (E + 31) := by
        rw [← Nat.pow_add]
        exact Nat.pow_le_pow_right Nat.two_pos (by omega)

/-- The product of a count with a proper fraction, rounded to its grid, without
what is after the point. -/
theorem floor_scale (h : x.isProperFraction) (hE : 53 ≤ E) (hexp : x.exponent = -(E : Int))
    (hsig : x.significand < 2 ^ 53) (hc : 0 < c) (hsmall : c < 2 ^ 31) :
    let k := fineness E (c * x.significand)
    (scale c x).floor = divNearestEven (c * x.significand * 2 ^ k) (2 ^ E) / 2 ^ k := by
  have hpos : 0 < c * x.significand := Nat.mul_pos hc (significand_pos h)
  have hgrid := ratioExponent_eq hpos (product_lt hE hsig hsmall)
  unfold scale ofRatio
  rw [hexp, show (-(E : Int)).toNat = 0 by omega, show (- -(E : Int)).toNat = E by omega]
  simp only [Nat.pow_eq, Nat.pow_zero, Nat.mul_one] at hgrid ⊢
  generalize fineness E (c * x.significand) = k at hgrid ⊢
  obtain ⟨hk, hk', hratio, hupper, hlower⟩ := hgrid
  rw [if_neg (by omega), hratio, show (- -(k : Int)).toNat = k by omega,
    show (-(k : Int)).toNat = 0 by omega, show (-(k : Int) + 1074).toNat = 1074 - k by omega,
    Nat.pow_zero, Nat.mul_one]
  have hq : divNearestEven (c * x.significand * 2 ^ k) (2 ^ E) ≤ 2 ^ 53 := by
    have := (Nat.div_lt_iff_lt_mul (Nat.two_pow_pos E)).2 (Nat.mul_comm _ (2 ^ 53) ▸ hupper)
    have := divNearestEven_le_succ (c * x.significand * 2 ^ k) (2 ^ E)
    omega
  have hnormal : k = 1074 ∨ 2 ^ 52 ≤ divNearestEven (c * x.significand * 2 ^ k) (2 ^ E) := by
    refine hlower.imp_right fun hlower => ?_
    refine Nat.le_trans ?_ (le_divNearestEven _ _)
    exact (Nat.le_div_iff_mul_le (Nat.two_pow_pos E)).2 (Nat.mul_comm (2 ^ 52) _ ▸ hlower)
  rw [if_pos (by omega), floor_ofBits hk hk' hq hnormal]

theorem floor_scale_lt (h : x.isProperFraction) (hc : 0 < c) (hsmall : c < 2 ^ 31) :
    (scale c x).floor < c := by
  obtain ⟨E, hE, hexp, hsig⟩ := significand_lt h
  have hpos : 0 < c * x.significand := Nat.mul_pos hc (significand_pos h)
  have hgrid := ratioExponent_eq hpos (product_lt hE hsig hsmall)
  rw [floor_scale h hE hexp hsig hc hsmall]
  simp only at hgrid
  generalize fineness E (c * x.significand) = k at hgrid ⊢
  obtain ⟨-, -, -, -, hlower⟩ := hgrid
  have hsteps : c * x.significand * 2 ^ k = c * 2 ^ k * x.significand := by ring
  rw [hsteps] at hlower ⊢
  -- the count itself is more than `2 ^ 52` steps of the grid
  have hn : 2 ^ 52 < c * 2 ^ k := by
    rcases hlower with hfinest | hlower
    · exact Nat.lt_of_lt_of_le (Nat.pow_lt_pow_right (by omega) (by omega))
        (Nat.le_mul_of_pos_left _ hc)
    · have hpow : 2 ^ 53 ≤ 2 ^ E := Nat.pow_le_pow_right Nat.two_pos hE
      by_contra hge
      have hmul : c * 2 ^ k * x.significand < 2 ^ 52 * 2 ^ E :=
        Nat.mul_lt_mul_of_le_of_lt (Nat.not_lt.1 hge) (Nat.lt_of_lt_of_le hsig hpow)
          (Nat.two_pow_pos 52)
      rw [Nat.mul_comm (2 ^ 52)] at hmul
      omega
  exact Nat.div_lt_of_lt_mul (Nat.mul_comm c _ ▸ divNearestEven_lt hn hE hsig)

/-- What reaches an integer on a grid does so on a coarser one, and so does what
is larger. -/
theorem le_floor_of_coarser {a b k k' m : Nat} (hden : 0 < den) (hab : a ≤ b) (hk : k' ≤ k)
    (h : m ≤ divNearestEven (a * 2 ^ k) den / 2 ^ k) :
    m ≤ divNearestEven (b * 2 ^ k') den / 2 ^ k' := by
  rw [Nat.le_div_iff_mul_le (Nat.two_pow_pos _)] at h ⊢
  rcases Nat.lt_or_eq_of_le hk with hlt | rfl
  · refine le_divNearestEven_of_lt hden ?_
    have hround := divNearestEven_le (a * 2 ^ k) hden
    obtain ⟨i, rfl⟩ : ∃ i, k = k' + (i + 1) := ⟨k - k' - 1, by omega⟩
    have hmono : 2 * (m * 2 ^ (k' + (i + 1))) * den ≤
        2 * divNearestEven (a * 2 ^ (k' + (i + 1))) den * den :=
      Nat.mul_le_mul_right _ (Nat.mul_le_mul_left _ h)
    have hpow : 2 ^ (k' + (i + 1)) = 2 ^ k' * 2 ^ (i + 1) := Nat.pow_add ..
    have hb : a * 2 ^ k' ≤ b * 2 ^ k' := Nat.mul_le_mul_right _ hab
    -- the error of the finer grid is at most a quarter of a step of the coarser one
    have hscaled : 2 * (m * 2 ^ k') * den * 2 ^ (i + 1) <
        (2 * (b * 2 ^ k') + den) * 2 ^ (i + 1) := by
      have hfine : 2 ≤ 2 ^ (i + 1) := Nat.le_self_pow (by omega) 2
      have hden' : den * 2 ≤ den * 2 ^ (i + 1) := Nat.mul_le_mul_left _ hfine
      have hb' : a * 2 ^ k' * 2 ^ (i + 1) ≤ b * 2 ^ k' * 2 ^ (i + 1) := Nat.mul_le_mul_right _ hb
      rw [hpow] at hmono hround
      calc 2 * (m * 2 ^ k') * den * 2 ^ (i + 1) = 2 * (m * (2 ^ k' * 2 ^ (i + 1))) * den := by ring
        _ ≤ 2 * (a * (2 ^ k' * 2 ^ (i + 1))) + den := Nat.le_trans hmono hround
        _ = 2 * (a * 2 ^ k' * 2 ^ (i + 1)) + den := by ring
        _ < 2 * (b * 2 ^ k' * 2 ^ (i + 1)) + den * 2 ^ (i + 1) := by omega
        _ = (2 * (b * 2 ^ k') + den) * 2 ^ (i + 1) := by ring
    exact Nat.lt_of_mul_lt_mul_right hscaled
  · exact Nat.le_trans h (divNearestEven_mono hden (Nat.mul_le_mul_right _ hab))

theorem floor_scale_mono {c' : Nat} (h : x.isProperFraction) (hc : 0 < c) (hle : c ≤ c')
    (hsmall : c' < 2 ^ 31) : (scale c x).floor ≤ (scale c' x).floor := by
  obtain ⟨E, hE, hexp, hsig⟩ := significand_lt h
  have hprod : c * x.significand ≤ c' * x.significand := Nat.mul_le_mul_right _ hle
  rw [floor_scale h hE hexp hsig hc (by omega), floor_scale h hE hexp hsig (by omega) hsmall]
  exact le_floor_of_coarser (Nat.two_pow_pos E) hprod (fineness_anti hprod) (Nat.le_refl _)

/-- The integer part of the product itself. -/
def floorScale (n : Nat) (x : Binary64) : Nat :=
  n * x.significand * 2 ^ x.exponent.toNat / 2 ^ (-x.exponent).toNat

theorem floorScale_le (h : x.isProperFraction) (hc : 0 < c) (hsmall : c < 2 ^ 31) :
    floorScale c x ≤ (scale c x).floor := by
  obtain ⟨E, hE, hexp, hsig⟩ := significand_lt h
  rw [floor_scale h hE hexp hsig hc hsmall, floorScale, hexp,
    show (-(E : Int)).toNat = 0 by omega, show (- -(E : Int)).toNat = E by omega, Nat.pow_zero,
    Nat.mul_one, Nat.le_div_iff_mul_le (Nat.two_pow_pos _)]
  refine Nat.le_trans ?_ (le_divNearestEven _ _)
  rw [Nat.le_div_iff_mul_le (Nat.two_pow_pos E)]
  have hdiv := Nat.div_mul_le_self (c * x.significand) (2 ^ E)
  generalize fineness E (c * x.significand) = k
  calc c * x.significand / 2 ^ E * 2 ^ k * 2 ^ E
      = c * x.significand / 2 ^ E * 2 ^ E * 2 ^ k := by ring
    _ ≤ c * x.significand * 2 ^ k := Nat.mul_le_mul_right _ hdiv

end ScriptCore.Binary64

namespace ScriptCore.Shape

theorem threshold_lt {load : Binary64} (h : load.isProperFraction) :
    ∀ c ∈ Capacity.primes, threshold c load < c := by
  intro c hc
  have hlarge : Capacity.largest < 2 ^ 31 := by decide
  have := Capacity.le_largest_of_mem hc
  have := Capacity.two_lt_of_mem hc
  exact Binary64.floor_scale_lt h (by omega) (by omega)

theorem threshold_mono {load : Binary64} (h : load.isProperFraction) {c c' : Nat}
    (hc : c ∈ Capacity.primes) (hc' : c' ∈ Capacity.primes) (hle : c ≤ c') :
    threshold c load ≤ threshold c' load := by
  have hlarge : Capacity.largest < 2 ^ 31 := by decide
  have := Capacity.le_largest_of_mem hc'
  have := Capacity.two_lt_of_mem hc
  exact Binary64.floor_scale_mono h (by omega) hle (by omega)

end ScriptCore.Shape

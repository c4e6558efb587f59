import ScriptCore.Shape.Buckets
import Mathlib.Algebra.BigOperators.Group.List.Lemmas
import Mathlib.Data.Nat.Prime.Basic

/-!
# The listed bucket counts are prime

A number below the square of `r + 1` is prime if it has no factor up to `r`,
and it has none if it has none in common with the product of all numbers up to
`r`. So one product and one greatest common divisor decide for many candidates
at once. The list is cut at 2, 4, 16, 256 and 65536, each the square of the one
before, and the numbers of a part are tested against those up to its lower end.
-/

namespace ScriptCore.Capacity

/-- The product of the `2 ^ depth` numbers from `lo` on. -/
def spanProduct : (depth lo : Nat) → Nat
  | 0, lo => lo
  | depth + 1, lo => spanProduct depth lo * spanProduct depth (lo + 2 ^ depth)

theorem dvd_spanProduct {k : Nat} : ∀ {depth lo : Nat}, lo ≤ k → k < lo + 2 ^ depth →
    k ∣ spanProduct depth lo
  | 0, lo, hlo, hhi => by
      have : k = lo := by simp at hhi; omega
      exact this ▸ Nat.dvd_refl _
  | depth + 1, lo, hlo, hhi => by
      rw [spanProduct]
      by_cases hk : k < lo + 2 ^ depth
      · exact Nat.dvd_mul_right_of_dvd (dvd_spanProduct hlo hk) _
      · have hpow : 2 ^ (depth + 1) = 2 ^ depth + 2 ^ depth := by omega
        exact Nat.dvd_mul_left_of_dvd (dvd_spanProduct (by omega) (by omega)) _

theorem prime_of_coprime_spanProduct {c depth : Nat} (hc : 1 < c)
    (hlt : c < (2 ^ depth + 1) * (2 ^ depth + 1)) (hco : Nat.Coprime c (spanProduct depth 1)) :
    c.Prime := by
  by_contra hnot
  -- the least factor is at most the square root, so it is one of the span
  have hsq := Nat.minFac_sq_le_self (by omega) hnot
  have hle : c.minFac ≤ 2 ^ depth := by
    by_contra hgt
    have hge : 2 ^ depth + 1 ≤ c.minFac := by omega
    have := Nat.mul_le_mul hge hge
    rw [Nat.pow_two] at hsq
    omega
  have hpos := Nat.minFac_pos c
  have hspan : c.minFac ∣ spanProduct depth 1 := dvd_spanProduct hpos (by omega)
  have hgcd : c.minFac ∣ Nat.gcd c (spanProduct depth 1) := Nat.dvd_gcd (Nat.minFac_dvd c) hspan
  rw [hco, Nat.dvd_one, Nat.minFac_eq_one_iff] at hgcd
  omega

/-- The listed numbers above `2 ^ depth`, up to its square. -/
def part (depth : Nat) : List Nat := primes.filter fun c => 2 ^ depth < c && c ≤ 2 ^ (2 * depth)

theorem prime_of_mem_part {c depth : Nat} (hc : c ∈ part depth)
    (hco : Nat.Coprime (part depth).prod (spanProduct depth 1)) : c.Prime := by
  have hbounds := (List.mem_filter.1 hc).2
  simp only [Bool.and_eq_true, decide_eq_true_eq] at hbounds
  have hpos : 0 < 2 ^ depth := Nat.two_pow_pos depth
  have hsq : 2 ^ (2 * depth) < (2 ^ depth + 1) * (2 ^ depth + 1) := by
    rw [Nat.two_mul, Nat.pow_add]
    exact Nat.mul_lt_mul'' (Nat.lt_succ_self _) (Nat.lt_succ_self _)
  exact prime_of_coprime_spanProduct (by omega) (by omega)
    (hco.coprime_dvd_left (List.dvd_prod hc))

theorem coprime_part : ∀ depth ∈ [1, 2, 4, 8, 16],
    Nat.Coprime (part depth).prod (spanProduct depth 1) := by
  decide +kernel

theorem mem_part : ∀ c ∈ primes, ∃ depth ∈ [1, 2, 4, 8, 16], c ∈ part depth := by
  decide +kernel

theorem prime_of_mem {c : Nat} (hc : c ∈ primes) : c.Prime := by
  obtain ⟨depth, hdepth, hpart⟩ := mem_part c hc
  exact prime_of_mem_part hpart (coprime_part depth hdepth)

theorem two_lt_of_mem : ∀ {c : Nat}, c ∈ primes → 2 < c := by
  decide +kernel

end ScriptCore.Capacity

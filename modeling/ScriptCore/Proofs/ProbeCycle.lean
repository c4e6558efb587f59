import ScriptCore.Proofs.ProbeLengths

/-!
# Where a walk ends

The stride of a symbol is at least one and less than the number of buckets, and
that number is prime; so the first so many positions of a walk are all buckets,
each once. This is a fact about the positions alone and holds whatever is in the
buckets. Given that, the answer of a probe is read off the contents: the walk
passes the buckets that another symbol is in, and ends at the first that is
empty or has its own symbol. It is exhausted only if there is no such bucket on
the way, and as every bucket is on the way, only if there is none at all.
-/

namespace ScriptCore.Buckets

variable {b : Buckets} {s : Symbol} {left i k m n slot c : Nat}

/-! ## The way of a symbol -/

/-- The bucket that a walk comes to after `k` steps, whatever it passes. -/
def position (c : Nat) (s : Symbol) : Nat → Nat
  | 0 => home c s
  | k + 1 => (position c s k + stride c s) % c

theorem position_eq (hc : 0 < c) (k : Nat) :
    position c s k = (home c s + k * stride c s) % c := by
  induction k with
  | zero => rw [Nat.zero_mul, Nat.add_zero, Nat.mod_eq_of_lt (home_lt hc s)]; rfl
  | succ k ih => rw [position, ih, Nat.mod_add_mod, Nat.add_mul, Nat.one_mul, Nat.add_assoc]

theorem position_lt (hc : 0 < c) (k : Nat) : position c s k < c := by
  rw [position_eq hc]
  exact Nat.mod_lt _ hc

theorem stride_lt_pred (hc : 2 < c) (s : Symbol) : stride c s < c - 1 := by
  have := Nat.mod_lt s.toNat (show 0 < c - 2 by omega)
  unfold stride
  omega

/-- The way leads to each bucket, and to none twice before it has been to all. -/
theorem existsUnique_position (hc : c ∈ Capacity.primes) (hi : i < c) :
    ∃! k, k < c ∧ position c s k = i := by
  have hpos : 0 < c := Nat.zero_lt_of_lt hi
  have hprime := Capacity.prime_of_mem hc
  have hstride := stride_lt (Capacity.two_lt_of_mem hc) s
  obtain ⟨k, hk, hki⟩ := exists_step hprime (stride_pos c s) hstride (home_lt hpos s) hi
  refine ⟨k, ⟨hk, (position_eq hpos k).trans hki⟩, ?_⟩
  rintro j ⟨hj, hji⟩
  rw [position_eq hpos, ← hki] at hji
  exact step_injective hprime (stride_pos c s) hstride hj hk hji

/-! ## What a walk passes -/

/-- Another symbol is in the bucket. -/
def HasOther (b : Buckets) (s : Symbol) (i : Nat) : Prop :=
  ∃ e, b[i]? = some (some e) ∧ e.symbol ≠ s

/-- The walk comes to its bucket number `k`: all before have other symbols. -/
def Reaches (b : Buckets) (s : Symbol) (k : Nat) : Prop :=
  k < b.size ∧ ∀ j < k, b.HasOther s (position b.size s j)

theorem probeFrom_of_hasOther (h : b.HasOther s i) :
    probeFrom b s (left + 1) i n = probeFrom b s left ((i + stride b.size s) % b.size) (n + 1) := by
  obtain ⟨e, he, hne⟩ := h
  rw [probeFrom, he]
  exact if_neg hne

theorem probeFrom_of_empty (h : b[i]? = some none) :
    probeFrom b s (left + 1) i n = (.vacant i, n + 1) := by
  rw [probeFrom, h]

theorem probeFrom_of_own (h : b[i]? = some (some ⟨s, slot⟩)) :
    probeFrom b s (left + 1) i n = (.found i slot, n + 1) := by
  rw [probeFrom, h]
  exact if_pos rfl

/-- A walk with `left` buckets to go after the next `k` goes on behind them. -/
theorem probeFrom_of_all_hasOther (left : Nat)
    (h : ∀ j < k, b.HasOther s (position b.size s j)) :
    probeFrom b s (left + k) (home b.size s) 0 = probeFrom b s left (position b.size s k) k := by
  induction k generalizing left with
  | zero => rfl
  | succ k ih =>
      have hshift : left + (k + 1) = left + 1 + k := by omega
      rw [hshift, ih (left + 1) fun j hj => h j (by omega)]
      exact probeFrom_of_hasOther (h k (Nat.lt_succ_self k))

/-! ## Where it ends -/

theorem probe_eq_exhausted (h : ∀ j < b.size, b.HasOther s (position b.size s j)) :
    b.probe s = (.exhausted, b.size) := by
  have hwalk := probeFrom_of_all_hasOther 0 h
  rw [Nat.zero_add] at hwalk
  exact hwalk

theorem Reaches.probe_eq (h : b.Reaches s k) : ∃ left,
    b.probe s = probeFrom b s (left + 1) (position b.size s k) k := by
  obtain ⟨hk, hpassed⟩ := h
  refine ⟨b.size - k - 1, ?_⟩
  have hsplit : b.size = b.size - k - 1 + 1 + k := by omega
  rw [← probeFrom_of_all_hasOther (b.size - k - 1 + 1) hpassed, ← hsplit]
  rfl

theorem Reaches.probe_eq_vacant (h : b.Reaches s k)
    (hempty : b[position b.size s k]? = some none) :
    b.probe s = (.vacant (position b.size s k), k + 1) := by
  obtain ⟨left, hwalk⟩ := h.probe_eq
  rw [hwalk, probeFrom_of_empty hempty]

theorem Reaches.probe_eq_found (h : b.Reaches s k)
    (hown : b[position b.size s k]? = some (some ⟨s, slot⟩)) :
    b.probe s = (.found (position b.size s k) slot, k + 1) := by
  obtain ⟨left, hwalk⟩ := h.probe_eq
  rw [hwalk, probeFrom_of_own hown]

/-- Every bucket on the way has another symbol, or there is a first that has not. -/
theorem walk_cases (hb : 0 < b.size) (s : Symbol) :
    (∀ j < b.size, b.HasOther s (position b.size s j)) ∨
      ∃ k, b.Reaches s k ∧ (b[position b.size s k]? = some none ∨
        ∃ slot, b[position b.size s k]? = some (some ⟨s, slot⟩)) := by
  by_cases hall : ∀ j < b.size, b.HasOther s (position b.size s j)
  · exact .inl hall
  · simp only [not_forall] at hall
    classical
    obtain ⟨hk, hstop⟩ := Nat.find_spec hall
    refine .inr ⟨Nat.find hall, ⟨hk, fun j hj => ?_⟩, ?_⟩
    · by_contra hother
      exact Nat.find_min hall hj ⟨Nat.lt_trans hj hk, hother⟩
    · generalize Nat.find hall = k at hstop
      have hlt := position_lt (s := s) hb k
      cases hv : b[position b.size s k]? with
      | none => exact absurd hlt (Nat.not_lt.2 (Array.getElem?_eq_none_iff.1 hv))
      | some v =>
          cases v with
          | none => exact .inl rfl
          | some e =>
              by_cases hs : e.symbol = s
              · exact .inr ⟨e.slot, by rw [← hs]⟩
              · exact absurd ⟨e, hv, hs⟩ hstop

/-- The answer of a probe, whatever is in the buckets. -/
theorem probe_cases (hb : 0 < b.size) (s : Symbol) :
    (b.probe s = (.exhausted, b.size) ∧ ∀ j < b.size, b.HasOther s (position b.size s j)) ∨
      ∃ k, b.Reaches s k ∧
        (b.probe s = (.vacant (position b.size s k), k + 1) ∧
            b[position b.size s k]? = some none ∨
          ∃ slot, b.probe s = (.found (position b.size s k) slot, k + 1) ∧
            b[position b.size s k]? = some (some ⟨s, slot⟩)) := by
  rcases walk_cases hb s with hall | ⟨k, hreach, hempty | ⟨slot, hown⟩⟩
  · exact .inl ⟨probe_eq_exhausted hall, hall⟩
  · exact .inr ⟨k, hreach, .inl ⟨hreach.probe_eq_vacant hempty, hempty⟩⟩
  · exact .inr ⟨k, hreach, .inr ⟨slot, hreach.probe_eq_found hown, hown⟩⟩

theorem probe_eq_exhausted_iff (hb : b.size ∈ Capacity.primes) :
    b.probe s = (.exhausted, n) ↔ n = b.size ∧ ∀ i < b.size, b.HasOther s i := by
  have hpos : 0 < b.size := Nat.zero_lt_of_lt (Capacity.two_lt_of_mem hb)
  constructor
  · intro h
    rcases probe_cases hpos s with ⟨hprobe, hall⟩ | ⟨k, -, ⟨hprobe, -⟩ | ⟨slot, hprobe, -⟩⟩
    all_goals
      rw [h] at hprobe
      cases hprobe
    refine ⟨rfl, fun i hi => ?_⟩
    obtain ⟨k, ⟨hk, rfl⟩, -⟩ := existsUnique_position (s := s) hb hi
    exact hall k hk
  · rintro ⟨rfl, hall⟩
    exact probe_eq_exhausted fun j _ => hall _ (position_lt hpos j)

theorem probe_eq_vacant_iff (hb : 0 < b.size) :
    b.probe s = (.vacant i, n) ↔
      ∃ k, b.Reaches s k ∧ position b.size s k = i ∧ n = k + 1 ∧ b[i]? = some none := by
  constructor
  · intro h
    rcases probe_cases hb s with ⟨hprobe, -⟩ | ⟨k, hreach, ⟨hprobe, hempty⟩ | ⟨slot, hprobe, -⟩⟩
    all_goals
      rw [h] at hprobe
      cases hprobe
    exact ⟨k, hreach, rfl, rfl, hempty⟩
  · rintro ⟨k, hreach, rfl, rfl, hempty⟩
    exact hreach.probe_eq_vacant hempty

theorem probe_eq_found_iff (hb : 0 < b.size) :
    b.probe s = (.found i slot, n) ↔
      ∃ k, b.Reaches s k ∧ position b.size s k = i ∧ n = k + 1 ∧
        b[i]? = some (some ⟨s, slot⟩) := by
  constructor
  · intro h
    rcases probe_cases hb s with ⟨hprobe, -⟩ | ⟨k, hreach, ⟨hprobe, -⟩ | ⟨slot', hprobe, hown⟩⟩
    all_goals
      rw [h] at hprobe
      cases hprobe
    exact ⟨k, hreach, rfl, rfl, hown⟩
  · rintro ⟨k, hreach, rfl, rfl, hown⟩
    exact hreach.probe_eq_found hown

/-- With a listed number of buckets no division is by zero, the stride is at
least one and less than the last bucket's number, and the first so many
positions of a walk are the buckets, each once. So a probe is exhausted exactly
if every bucket has another symbol; and otherwise it ends at the first bucket on
the way that is empty or has its symbol. With each answer it tells how many
buckets it has looked at. -/
theorem probe_walks_full_cycle (hb : b.size ∈ Capacity.primes) (s : Symbol) :
    0 < b.size ∧ 0 < b.size - 2 ∧ 1 ≤ stride b.size s ∧ stride b.size s < b.size - 1 ∧
      (∀ i < b.size, ∃! k, k < b.size ∧ position b.size s k = i) ∧
      (∀ n, b.probe s = (.exhausted, n) ↔ n = b.size ∧ ∀ i < b.size, b.HasOther s i) ∧
      (∀ i n, b.probe s = (.vacant i, n) ↔
        ∃ k, b.Reaches s k ∧ position b.size s k = i ∧ n = k + 1 ∧ b[i]? = some none) ∧
      ∀ i slot n, b.probe s = (.found i slot, n) ↔
        ∃ k, b.Reaches s k ∧ position b.size s k = i ∧ n = k + 1 ∧
          b[i]? = some (some ⟨s, slot⟩) := by
  have htwo := Capacity.two_lt_of_mem hb
  have hpos : 0 < b.size := by omega
  exact ⟨hpos, by omega, stride_pos b.size s, stride_lt_pred htwo s,
    fun i hi => existsUnique_position hb hi, fun n => probe_eq_exhausted_iff hb,
    fun i n => probe_eq_vacant_iff hpos, fun i slot n => probe_eq_found_iff hpos⟩

/-- Five buckets, of which the first two on the way of a symbol are taken: its
way goes 0, 3, 1, 4, 2, and the probe ends at the third. -/
theorem probe_walks_full_cycle_of_five :
    let x : Symbol := ⟨500, by decide⟩
    let b : Buckets :=
      #[some ⟨⟨501, by decide⟩, 0⟩, none, none, some ⟨⟨502, by decide⟩, 1⟩, none]
    b.size ∈ Capacity.primes ∧ (List.range 5).map (position 5 x) = [0, 3, 1, 4, 2] ∧
      b.probe x = (.vacant 1, 3) := by
  intro x b
  have hb : b.size ∈ Capacity.primes := by decide
  have hreach : b.Reaches x 2 := by
    refine ⟨by decide, fun j hj => ?_⟩
    obtain rfl | rfl : j = 0 ∨ j = 1 := by omega
    · exact ⟨⟨⟨501, by decide⟩, 0⟩, by decide +kernel, by decide⟩
    · exact ⟨⟨⟨502, by decide⟩, 1⟩, by decide +kernel, by decide⟩
  obtain ⟨-, -, -, -, -, -, hvacant, -⟩ := probe_walks_full_cycle hb x
  exact ⟨hb, by decide +kernel, (hvacant 1 3).2 ⟨2, hreach, by decide +kernel, rfl, rfl⟩⟩

end ScriptCore.Buckets

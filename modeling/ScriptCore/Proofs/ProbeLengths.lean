import ScriptCore.Proofs.Creation
import Mathlib.Algebra.Order.BigOperators.Group.List
import Mathlib.Data.Nat.ModEq

/-!
# How many buckets a lookup looks at

Each bucket that a walk passes is taken, and a walk passes none twice. So a walk
that finds its symbol has looked at no more buckets than there are entries, and
a walk to an empty bucket at one more.

This bounds each length by the number of entries there are, which for all of
them together is twice too much. The sharper bound on the sum is kept as the
array fills: an entry is placed where its walk ended, so its length is at most
its number in the order of placing, and what is placed later does not change it.
A shape that grows places its entries afresh, in the order of the old buckets;
the order does not matter for the sum, only that they are placed one by one.
-/

namespace ScriptCore

namespace Buckets

variable {b b' : Buckets} {s : Symbol} {left i j k n m slot c d : Nat} {p : Probe}

/-! ## One walk -/

/-- With a prime number of buckets a walk comes to none of them twice. -/
theorem step_injective (hc : c.Prime) (hd : 0 < d) (hdc : d < c) (hj : j < c) (hk : k < c)
    (h : (i + j * d) % c = (i + k * d) % c) : j = k := by
  have hco : c.gcd d = 1 := Nat.coprime_of_lt_prime (by omega) hdc hc
  have hmod : j * d ≡ k * d [MOD c] := Nat.ModEq.add_left_cancel' i h
  exact (Nat.ModEq.cancel_right_of_coprime hco hmod).eq_of_lt_of_lt hj hk

/-- There is an entry at each of the first `k` buckets on the way from `i`. -/
def Passed (b : Buckets) (s : Symbol) (i k : Nat) : Prop :=
  ∀ j < k, ∃ e, b[(i + j * stride b.size s) % b.size]? = some (some e)

theorem passed_zero (b : Buckets) (s : Symbol) (i : Nat) : b.Passed s i 0 :=
  fun j hj => absurd hj (Nat.not_lt_zero j)

theorem passed_succ {e : Bucket} (hi : b[i]? = some (some e))
    (h : b.Passed s ((i + stride b.size s) % b.size) k) : b.Passed s i (k + 1) := by
  have hlt : i < b.size := (Array.getElem?_eq_some_iff.1 hi).1
  intro j hj
  cases j with
  | zero =>
      rw [Nat.zero_mul, Nat.add_zero, Nat.mod_eq_of_lt hlt]
      exact ⟨e, hi⟩
  | succ j =>
      obtain ⟨e', he'⟩ := h j (by omega)
      refine ⟨e', ?_⟩
      rw [← he', Nat.mod_add_mod]
      congr 2
      rw [Nat.add_mul]
      omega

/-- A walk that ends in an empty bucket has passed all it looked at before. -/
theorem probeFrom_passed_of_vacant (hi : i < b.size)
    (h : probeFrom b s left i n = (.vacant j, m)) :
    ∃ k < left, m = n + k + 1 ∧ b.Passed s i k := by
  induction left generalizing i n with
  | zero => simp [probeFrom] at h
  | succ left ih =>
      unfold probeFrom at h
      split at h
      · next e he =>
          split at h
          · simp at h
          · obtain ⟨k, hk, hm, hpassed⟩ := ih (Nat.mod_lt _ (by omega)) h
            exact ⟨k + 1, by omega, by omega, passed_succ he hpassed⟩
      · simp only [Prod.mk.injEq] at h
        exact ⟨0, by omega, by omega, passed_zero b s i⟩

/-- A walk that ends at an entry has looked at entries only. -/
theorem probeFrom_passed_of_found (hi : i < b.size)
    (h : probeFrom b s left i n = (.found j slot, m)) :
    ∃ k < left, m = n + k + 1 ∧ b.Passed s i (k + 1) := by
  induction left generalizing i n with
  | zero => simp [probeFrom] at h
  | succ left ih =>
      unfold probeFrom at h
      split at h
      · next e he =>
          split at h
          · simp only [Prod.mk.injEq] at h
            exact ⟨0, by omega, by omega, passed_succ he (passed_zero b s _)⟩
          · obtain ⟨k, hk, hm, hpassed⟩ := ih (Nat.mod_lt _ (by omega)) h
            exact ⟨k + 1, by omega, by omega, passed_succ he hpassed⟩
      · simp at h

/-- A walk passes as many entries as buckets. -/
theorem Passed.le_entries (h : b.Passed s i k) (hb : b.size ∈ Capacity.primes)
    (hk : k ≤ b.size) : k ≤ b.entries.length := by
  have hb3 := Capacity.two_lt_of_mem hb
  let way := (List.range k).map fun j => (i + j * stride b.size s) % b.size
  have hnodup : way.Nodup := by
    refine List.Nodup.map_on (fun j hj l hl hsame => ?_) List.nodup_range
    have hj := List.mem_range.1 hj
    have hl := List.mem_range.1 hl
    exact step_injective (Capacity.prime_of_mem hb) (stride_pos _ s) (stride_lt hb3 s)
      (by omega) (by omega) hsame
  have htaken : way ⊆ b.toList.findIdxs Option.isSome := by
    intro n hn
    obtain ⟨j, hj, rfl⟩ := List.mem_map.1 hn
    obtain ⟨e, he⟩ := h j (List.mem_range.1 hj)
    obtain ⟨hlt, hget⟩ := Array.getElem?_eq_some_iff.1 he
    refine List.mem_findIdxs_iff_getElem_sub_pos.2 ⟨Nat.zero_le _, hlt, ?_⟩
    simp only [Nat.sub_zero, Array.getElem_toList, hget, Option.isSome_some]
  calc k = way.length := by simp [way]
    _ ≤ (b.toList.findIdxs Option.isSome).length := hnodup.length_le_of_subset htaken
    _ = b.entries.length := by
        rw [List.length_findIdxs, entries, List.length_filterMap_eq_countP]
        rfl

theorem probe_le_of_vacant (hb : b.size ∈ Capacity.primes) (h : (b.probe s).1 = .vacant j) :
    (b.probe s).2 ≤ b.entries.length + 1 := by
  have hb3 := Capacity.two_lt_of_mem hb
  have hwalk : probeFrom b s b.size (home b.size s) 0 = (.vacant j, (b.probe s).2) :=
    Prod.ext h rfl
  obtain ⟨k, hk, hm, hpassed⟩ := probeFrom_passed_of_vacant (home_lt (by omega) s) hwalk
  have := hpassed.le_entries hb (Nat.le_of_lt hk)
  omega

theorem probe_le_of_found (hb : b.size ∈ Capacity.primes) (h : (b.probe s).1 = .found j slot) :
    1 ≤ (b.probe s).2 ∧ (b.probe s).2 ≤ b.entries.length := by
  have hb3 := Capacity.two_lt_of_mem hb
  have hwalk : probeFrom b s b.size (home b.size s) 0 = (.found j slot, (b.probe s).2) :=
    Prod.ext h rfl
  obtain ⟨k, hk, hm, hpassed⟩ := probeFrom_passed_of_found (home_lt (by omega) s) hwalk
  have := hpassed.le_entries hb hk
  omega

/-! ## All walks together -/

/-- What it takes to find each entry once. -/
def probeLengths (b : Buckets) : List Nat := b.entries.map fun e => (b.probe e.symbol).2

theorem mem_probeLengths (hb : b.size ∈ Capacity.primes) (hf : b.Findable)
    (hn : n ∈ b.probeLengths) : 1 ≤ n ∧ n ≤ b.entries.length := by
  obtain ⟨e, he, rfl⟩ := List.mem_map.1 hn
  obtain ⟨i, hi⟩ := mem_entries.1 he
  exact probe_le_of_found hb (hf i e hi)

/-- What has been placed in an array of `c` buckets is found, and at no higher
cost than if each entry had met all that were placed before it. -/
structure Filled (c : Nat) (b : Buckets) : Prop where
  size : b.size = c
  findable : b.Findable
  cost : 2 * b.probeLengths.sum ≤ b.entries.length * (b.entries.length + 1)

theorem filled_empty (c : Nat) : Filled c (empty c) where
  size := Array.size_replicate
  findable := (holds_empty c).found
  cost := by
    have hnone : (empty c).entries = [] := by simp [entries, empty]
    simp [probeLengths, hnone]

/-- One entry more costs as much as there are entries then, and the cost of the
others stays. -/
theorem Filled.insert (h : Filled c b) (hc : c ∈ Capacity.primes)
    (hins : b.insert s slot = .ok b') : Filled c b' := by
  have hsize := h.size
  subst hsize
  obtain ⟨i, hi, rfl⟩ := insert_eq_ok hins
  have hpos : 0 < b.size := by
    have := Capacity.two_lt_of_mem hc
    omega
  have hempty : b[i]? = some none := probeFrom_vacant (Prod.ext hi rfl) (home_lt hpos s)
  have hperm := entries_set_vacant (e := ⟨s, slot⟩) hempty
  refine ⟨Array.size_setIfInBounds, h.findable.set_vacant hi hpos, ?_⟩
  -- the entry fills a bucket that no walk to another entry came to
  have hothers : (b.entries.map fun e =>
      (probe (b.setIfInBounds i (some ⟨s, slot⟩)) e.symbol).2) = b.probeLengths := by
    refine List.map_congr_left fun e he => ?_
    obtain ⟨j, hj⟩ := mem_entries.1 he
    rw [probe_set_found hempty (h.findable j e hj)]
  have hsum : (probeLengths (b.setIfInBounds i (some ⟨s, slot⟩))).sum =
      (b.probe s).2 + b.probeLengths.sum := by
    rw [probeLengths, (hperm.map _).sum_eq, List.map_cons, List.sum_cons, hothers,
      probe_set_vacant hi hpos]
  have hnew := probe_le_of_vacant hc hi
  have hcost := h.cost
  rw [hsum, hperm.length_eq, List.length_cons]
  calc 2 * ((b.probe s).2 + b.probeLengths.sum)
      ≤ 2 * (b.entries.length + 1) + b.entries.length * (b.entries.length + 1) := by omega
    _ = (b.entries.length + 1) * (b.entries.length + 1 + 1) := by
        rw [← Nat.add_mul, Nat.mul_comm, Nat.add_comm 2]

theorem filled_rehash (hc : c ∈ Capacity.primes) (h : b.rehash c = .ok b') : Filled c b' :=
  rehash_induction (filled_empty c) (fun _ _ _ _ hb hins => hb.insert hc hins) h

end Buckets

/-! ## The counters of a shape -/

theorem foldl_max_le_iff {l : List Nat} {a n : Nat} :
    l.foldl max a ≤ n ↔ a ≤ n ∧ ∀ x ∈ l, x ≤ n := by
  induction l generalizing a with
  | nil => simp
  | cons x l ih => rw [List.foldl_cons, ih, Nat.max_le, List.forall_mem_cons, and_assoc]

namespace Shape

variable {s s' : Shape} {x : Symbol}

theorem Takes.filled (h : s.Takes x s') (hc : s.capacity ∈ Capacity.primes)
    (hs : s.buckets.Filled s.capacity) :
    s'.capacity ∈ Capacity.primes ∧ s'.buckets.Filled s'.capacity := by
  cases h with
  | @within b hroom hplaced =>
      have hsame : b.size = s.capacity := Buckets.size_insert hplaced
      rw [Shape.capacity, hsame]
      exact ⟨hc, hs.insert hc hplaced⟩
  | @moved next b b' hfull hnext hmoved hplaced =>
      have hsize : b'.size = next :=
        (Buckets.size_insert hplaced).trans (Buckets.size_rehash hmoved)
      have hmem := (grownCapacity_ok hnext).1
      rw [Shape.capacity, hsize]
      exact ⟨hmem, (Buckets.filled_rehash hmem hmoved).insert hmem hplaced⟩

theorem New.filled {requested : Nat} {load : Binary64} (h : New requested load s) :
    s.buckets.Filled s.capacity := by
  rw [h.capacity, h.eq_ofCapacity.1]
  exact Buckets.filled_empty _

theorem Made.filled (h : s.Made) : s.buckets.Filled s.capacity := by
  obtain ⟨s₀, syms, slots, hnew, hall⟩ := h
  have hmem := (lists_of_new hnew).capacity
  obtain ⟨requested, load, hnew⟩ := exists_new hnew
  have hkept : s.capacity ∈ Capacity.primes ∧ s.buckets.Filled s.capacity :=
    createAll_induction (P := fun s => s.capacity ∈ Capacity.primes ∧ s.buckets.Filled s.capacity)
      (fun _ _ _ hs ht => ht.filled hs.1 hs.2) hall ⟨hmem, hnew.filled⟩
  exact hkept.2

theorem map_probe_symbols (s : Shape) :
    (s.symbols.map fun x => (s.buckets.probe x).2) = s.buckets.probeLengths := by
  rw [symbols, Buckets.symbols, Buckets.probeLengths, Buckets.entries, List.map_filterMap,
    List.map_filterMap]
  refine List.filterMap_congr fun o _ => ?_
  rw [Option.map_map]
  rfl

theorem totalProbes_stats (s : Shape) : s.stats.totalProbes = s.buckets.probeLengths.sum := by
  rw [List.sum_eq_foldl, ← map_probe_symbols]
  rfl

theorem longestProbe_stats (s : Shape) :
    s.stats.longestProbe = s.buckets.probeLengths.foldl max 0 := by
  rw [← map_probe_symbols]
  rfl

/-- The probe counters of a shape are bounded by the number of its symbols: to
find each once takes at least one bucket for each and at most as many as if
each had met all that were placed before it, and to find any one takes at most
as many as there are symbols. No lookup of a symbol looks at more buckets than
the longest one that the counters tell. -/
theorem probes_bounded_by_size (h : s.Made) :
    s.size ≤ s.stats.totalProbes ∧ s.stats.totalProbes ≤ s.size * (s.size + 1) / 2 ∧
      s.stats.longestProbe ≤ s.size ∧ s.size < s.stats.capacity ∧
      (1 ≤ s.size → 1 ≤ s.stats.longestProbe) ∧
      ∀ x, (s.get? x).isSome → (s.buckets.probe x).2 ≤ s.stats.longestProbe := by
  obtain ⟨l, hl, -⟩ := h.numbers
  have hlength : s.buckets.entries.length = s.size := by
    rw [hl.holds.perm.length_eq, length_numbered, hl.size]
  have hfilled := h.filled
  have hcost := hfilled.cost
  have hlengths : ∀ n ∈ s.buckets.probeLengths, 1 ≤ n ∧ n ≤ s.size := fun n hn =>
    hlength ▸ Buckets.mem_probeLengths hl.capacity hfilled.findable hn
  have hlongest := foldl_max_le_iff.1 (Nat.le_of_eq s.longestProbe_stats.symm)
  have hcount : s.buckets.probeLengths.length = s.size := by
    rw [Buckets.probeLengths, List.length_map, hlength]
  rw [hlength] at hcost
  rw [totalProbes_stats]
  refine ⟨?_, ?_, ?_, hl.size ▸ hl.room, fun hsome => ?_, fun x hx => ?_⟩
  · rw [← hcount]
    exact List.length_le_sum_of_one_le _ fun n hn => (hlengths n hn).1
  · omega
  · rw [longestProbe_stats]
    exact foldl_max_le_iff.2 ⟨Nat.zero_le _, fun n hn => (hlengths n hn).2⟩
  · obtain ⟨n, hn⟩ := List.exists_mem_of_length_pos (hcount ▸ hsome)
    exact Nat.le_trans (hlengths n hn).1 (hlongest.2 n hn)
  · obtain ⟨slot, hslot⟩ := Option.isSome_iff_exists.1 hx
    have hmem : (⟨x, slot⟩ : Bucket) ∈ s.buckets.entries :=
      hl.holds.perm.mem_iff.2 (hl.holds.get?_eq_some_iff.1 hslot)
    exact hlongest.2 _ (List.mem_map_of_mem hmem)

/-- Four symbols with one way through eleven buckets: each meets all before it,
and both bounds are reached. -/
theorem probes_bounded_by_size_on_one_way :
    ∃ s : Shape, s.Made ∧ s.size = 4 ∧ s.stats.totalProbes = 10 ∧ s.stats.longestProbe = 4 ∧
      s.size ≤ s.stats.totalProbes ∧ s.stats.totalProbes ≤ s.size * (s.size + 1) / 2 ∧
      s.stats.longestProbe ≤ s.size := by
  let syms : List Symbol :=
    [⟨500, by decide⟩, ⟨554, by decide⟩, ⟨653, by decide⟩, ⟨752, by decide⟩]
  have hvalue : (empty.createAll syms).toOption.any fun r =>
      r.2.size = 4 ∧ r.2.stats.totalProbes = 10 ∧ r.2.stats.longestProbe = 4 := by
    decide +kernel
  obtain ⟨⟨slots, s⟩, hrun, hreached⟩ := exists_ok_of_any hvalue
  obtain ⟨hsize, htotal, hlongest⟩ := of_decide_eq_true hreached
  have hmade : s.Made := ⟨empty, syms, slots, .inl rfl, hrun⟩
  obtain ⟨hlow, hhigh, hmax, -⟩ := probes_bounded_by_size hmade
  exact ⟨s, hmade, hsize, htotal, hlongest, hlow, hhigh, hmax⟩

end Shape

end ScriptCore

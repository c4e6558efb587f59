import ScriptCore.Proofs.Creation

/-!
# When a shape grows, and how far

The capacity of a shape is not a matter of its history but of its size. From the
capacity it was made with there is one way up: twice the capacity, and from
there to the next listed prime, again and again. The shape stands at the first
place of this way whose threshold admits its symbols.

It is the first one for two reasons. Growth is put off until a symbol does not
fit, so the place that is left did not admit it; and the search for the next
place passes none that does. That one growth may pass several places, which do
not admit a single symbol at a small load, makes no difference.
-/

namespace ScriptCore

namespace Capacity

variable {P Q : Nat → Prop} {c d e first i : Nat}

/-- The capacity after `i` doublings, each brought up to a listed prime; none
where the list has ended. -/
def doubled? (c : Nat) : Nat → Option Nat
  | 0 => some c
  | i + 1 => (doubled? c i).bind fun d => atLeast? (2 * d)

theorem doubled?_add (h : doubled? c i = some d) (j : Nat) :
    doubled? c (i + j) = doubled? d j := by
  induction j with
  | zero => exact h
  | succ j ih => rw [← Nat.add_assoc, doubled?, ih, doubled?]

/-- On the way of doublings from `first`, `c` is the first to have the property. -/
def IsFirst (P : Nat → Prop) (first c : Nat) : Prop :=
  ∃ i, doubled? first i = some c ∧ P c ∧ ∀ j < i, ∀ d, doubled? first j = some d → ¬ P d

theorem isFirst_self (h : P c) : IsFirst P c c := ⟨0, rfl, h, nofun⟩

theorem IsFirst.unique (h : IsFirst P first c) (h' : IsFirst P first d) : c = d := by
  obtain ⟨i, hi, hc, hbefore⟩ := h
  obtain ⟨j, hj, hd, hbefore'⟩ := h'
  rcases Nat.lt_trichotomy i j with hlt | rfl | hgt
  · exact absurd hc (hbefore' i hlt c hi)
  · exact Option.some.inj (hi.symm.trans hj)
  · exact absurd hd (hbefore j hgt d hj)

/-- What asks for more is met first where the way goes on from the place that
asked for less. -/
theorem IsFirst.trans (h : IsFirst P first c) (hPQ : ∀ d, Q d → P d) (h' : IsFirst Q c d) :
    IsFirst Q first d := by
  obtain ⟨i, hi, -, hbefore⟩ := h
  obtain ⟨j, hj, hd, hbefore'⟩ := h'
  have hway := doubled?_add hi
  refine ⟨i + j, by rw [hway, hj], hd, fun n hn e he hQ => ?_⟩
  by_cases hni : n < i
  · -- not even the lesser demand is met before `c`
    exact hbefore n hni e he (hPQ e hQ)
  · obtain ⟨m, rfl⟩ : ∃ m, n = i + m := ⟨n - i, by omega⟩
    rw [hway] at he
    exact hbefore' m (by omega) e he hQ

theorem IsFirst.of_next (hnext : atLeast? (2 * c) = some d) (hc : ¬ P c) (h : IsFirst P d e) :
    IsFirst P c e := by
  have hone : doubled? c 1 = some d := hnext
  have hstep : IsFirst (fun x => x ≠ c) c d := by
    have hpos := (atLeast?_eq_some hnext)
    refine ⟨1, hone, ?_, fun j hj x hx hne => ?_⟩
    · have := two_lt_of_mem hpos.1
      omega
    · obtain rfl : j = 0 := by omega
      exact hne (Option.some.inj hx).symm
  exact hstep.trans (fun x hx => by rintro rfl; exact hc hx) h

end Capacity

namespace Shape

variable {s₀ s s' : Shape} {x : Symbol} {load : Binary64} {required rounds requested c next : Nat}

/-- The search for a larger capacity passes none that would do. -/
theorem grownCapacity_first (hfew : threshold c load < required)
    (h : grownCapacity load required rounds c = .ok next) :
    Capacity.IsFirst (required ≤ threshold · load) c next := by
  -- that `c` does not admit the symbols is kept from round to round
  induction rounds generalizing c with
  | zero => cases h
  | succ rounds ih =>
      unfold grownCapacity at h
      split at h
      · cases h
      · next d hd =>
          refine .of_next hd (Nat.not_le.2 hfew) ?_
          split at h
          · next hadmits =>
              cases h
              exact Capacity.isFirst_self hadmits
          · next hfew' => exact ih (Nat.not_le.1 hfew') h

/-- The shape stands where its size has it, on the way up from `first`. -/
structure Scheduled (first : Nat) (load : Binary64) (s : Shape) : Prop where
  sameLoad : s.load = load
  place : Capacity.IsFirst (s.size ≤ threshold · load) first s.capacity
  doublings : first * 2 ^ s.growths ≤ s.capacity

theorem Scheduled.room (h : s.Scheduled c load) : s.size ≤ threshold s.capacity load := by
  obtain ⟨i, -, hroom, -⟩ := h.place
  exact hroom

theorem Scheduled.takes (h : s.Scheduled c load) (ht : s.Takes x s') : s'.Scheduled c load := by
  obtain ⟨rfl, hplace, hdoublings⟩ := h
  have hmore : ∀ d, s.size + 1 ≤ threshold d s.load → s.size ≤ threshold d s.load :=
    fun _ => Nat.le_of_succ_le
  cases ht with
  | within hroom hplaced =>
      have hsame := Buckets.size_insert hplaced
      refine ⟨rfl, ?_, by rw [Shape.capacity, hsame]; exact hdoublings⟩
      rw [Shape.capacity, hsame]
      exact hplace.trans hmore (Capacity.isFirst_self hroom)
  | @moved next b b' hfull hnext hmoved hplaced =>
      have hsize : b'.size = next :=
        (Buckets.size_insert hplaced).trans (Buckets.size_rehash hmoved)
      refine ⟨rfl, ?_, ?_⟩
      · rw [Shape.capacity, hsize]
        exact hplace.trans hmore (grownCapacity_first hfull hnext)
      · rw [Shape.capacity, hsize]
        calc c * 2 ^ (s.growths + 1) = 2 * (c * 2 ^ s.growths) := by
              rw [Nat.pow_succ, Nat.mul_comm 2, Nat.mul_assoc]
          _ ≤ 2 * s.capacity := Nat.mul_le_mul_left 2 hdoublings
          _ ≤ next := (grownCapacity_ok hnext).2.1

theorem New.scheduled (h : New requested load s) : s.Scheduled s.capacity load := by
  obtain ⟨rfl, -⟩ := h.eq_ofCapacity
  refine ⟨rfl, Capacity.isFirst_self (Nat.zero_le _), ?_⟩
  show (ofCapacity requested load).capacity * 2 ^ 0 ≤ _
  rw [Nat.pow_zero, Nat.mul_one]

theorem New.lists (h : New requested load s) : s.Lists ([] : List Symbol).eraseDups := by
  rw [h.eq_ofCapacity.1]
  exact lists_ofCapacity requested load

/-- What a run of creations makes of a new shape: the list of the symbols, and
the place that goes with its length. -/
theorem New.run {syms : List Symbol} {slots : List Nat} (h : New requested load s₀)
    (hrun : s₀.createAll syms = .ok (slots, s)) :
    s.Lists syms.eraseDups ∧ s.Scheduled s₀.capacity load := by
  obtain ⟨heq, hload⟩ := h.eq_ofCapacity
  have hthreshold : ∀ c ∈ Capacity.primes, threshold c s₀.load < c := by
    rw [heq]
    exact threshold_lt hload
  refine ⟨?_, createAll_induction (fun _ _ _ hs ht => Scheduled.takes hs ht) hrun h.scheduled⟩
  obtain ⟨s', hrun', -, hlists⟩ | ⟨last, hlimit, -⟩ := h.lists.createAll syms hthreshold
  · rw [hrun] at hrun'
    cases hrun'
    exact hlists
  · rw [hrun] at hlimit
    cases hlimit

/-- In every state that creations lead to, the capacity of a shape is a listed
prime whose threshold admits its symbols, and it is the first such on the way of
doublings from the capacity the shape was made with; so it depends on that
capacity, on the load and on the number of symbols, and on nothing else. Each
growth has at least doubled it. Creating a symbol again leaves the shape as it
is, and between a growth and the symbol it is for there is room as well. -/
theorem capacity_follows_size {syms : List Symbol} {slots : List Nat}
    (hnew : New requested load s₀) (hrun : s₀.createAll syms = .ok (slots, s)) :
    s₀.capacity = (Capacity.atLeast? requested).getD Capacity.largest ∧
      s.size = syms.eraseDups.length ∧ s.capacity ∈ Capacity.primes ∧
      s.size ≤ threshold s.capacity load ∧ s.size < s.capacity ∧
      Capacity.IsFirst (s.size ≤ threshold · load) s₀.capacity s.capacity ∧
      (∀ {requested' s₁ syms' slots' s'}, New requested' load s₁ → s₁.capacity = s₀.capacity →
        s₁.createAll syms' = .ok (slots', s') → s'.size = s.size → s'.capacity = s.capacity) ∧
      s₀.capacity * 2 ^ s.growths ≤ s.capacity ∧
      (∀ x ∈ syms, ∃ i, s.create x = .ok (i, s)) ∧
      ∀ g, s.grow (s.size + 1) = .ok g →
        g.size = s.size ∧ g.size < threshold g.capacity load ∧ g.size < g.capacity := by
  obtain ⟨hlists, hs⟩ := hnew.run hrun
  refine ⟨hnew.capacity, hlists.size, hlists.capacity, hs.room, hlists.size ▸ hlists.room,
    hs.place, ?_, hs.doublings, ?_, ?_⟩
  · intro requested' s₁ syms' slots' s' hnew' hstart hrun' hsize
    have hs' := (hnew'.run hrun').2.place
    rw [hsize, hstart] at hs'
    exact hs'.unique hs.place
  · intro x hx
    exact ⟨_, hlists.create_of_mem (List.mem_eraseDups.2 hx)⟩
  · intro g hg
    obtain ⟨next, b, hnext, hmoved, rfl⟩ := grow_eq_ok hg
    obtain ⟨hmem, -, hadmits⟩ := grownCapacity_ok hnext
    have hbelow := threshold_lt hnew.eq_ofCapacity.2 next hmem
    rw [hs.sameLoad] at hadmits
    have hsize : Shape.capacity { s with buckets := b, growths := s.growths + 1 } = next :=
      Buckets.size_rehash hmoved
    rw [hsize]
    exact ⟨rfl, hadmits, Nat.lt_trans hadmits hbelow⟩

/-- A tenth of three buckets, or of seven, is none: the first symbol has the shape
pass seven for seventeen, and the second has it move to thirty-seven. -/
theorem capacity_follows_size_past_seven :
    let load : Binary64 := ⟨0x3fb999999999999a⟩
    let syms : List Symbol := [⟨500, by decide⟩, ⟨501, by decide⟩, ⟨500, by decide⟩]
    New 0 load (ofCapacity 0 load) ∧ ∃ slots s,
      (ofCapacity 0 load).createAll syms = .ok (slots, s) ∧
      s.size = 2 ∧ s.capacity = 37 ∧ s.growths = 2 ∧ 2 ≤ threshold 37 load ∧
      Capacity.IsFirst (2 ≤ threshold · load) 3 37 := by
  intro load syms
  have hnew : New 0 load (ofCapacity 0 load) := by
    refine .inl ?_
    rw [ofCapacity?, if_pos (by decide +kernel)]
  have hvalue : ((ofCapacity 0 load).createAll syms).toOption.any
      fun r => r.2.capacity = 37 ∧ r.2.growths = 2 := by
    decide +kernel
  obtain ⟨⟨slots, s⟩, hrun, hreached⟩ := exists_ok_of_any hvalue
  obtain ⟨hcapacity, hgrowths⟩ := of_decide_eq_true hreached
  obtain ⟨hstart, hsize, -, hroom, -, hfirst, -⟩ := capacity_follows_size hnew hrun
  have hthree : (ofCapacity 0 load).capacity = 3 := by
    rw [hstart]
    decide +kernel
  have htwo : syms.eraseDups.length = 2 := by decide +kernel
  rw [hsize, htwo, hcapacity] at hroom
  rw [hsize, htwo, hcapacity, hthree] at hfirst
  exact ⟨hnew, slots, s, hrun, hsize.trans htwo, hcapacity, hgrowths, hroom, hfirst⟩

end Shape

end ScriptCore

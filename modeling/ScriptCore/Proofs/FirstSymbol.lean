import ScriptCore.Proofs.Threshold

/-!
# Whether a shape can hold a symbol at all

A load is accepted if the largest listed capacity admits one symbol. A shape
never looks for the largest one, though: it doubles its capacity and takes the
next listed prime, as often as there is one, so each starting capacity has a
chain of its own, and a chain may end before the largest prime. `outermost` is
where it ends. Thresholds grow with the capacity, so the growth of a shape finds
room just if the end of its chain has it, and gives up there if not.

There are four ends. From those capacities whose chain has the largest prime for
its end every accepted load holds a symbol; from the others a load between the
two thresholds is accepted and holds none.
-/

namespace ScriptCore

namespace Capacity

variable {rounds c next : Nat}

/-- Where a capacity comes to by doubling at most `rounds` times. -/
def outermostWithin : (rounds capacity : Nat) → Nat
  | 0, capacity => capacity
  | rounds + 1, capacity =>
    match atLeast? (2 * capacity) with
    | none => capacity
    | some next => outermostWithin rounds next

/-- The end of the doublings of a capacity. -/
def outermost (capacity : Nat) : Nat := outermostWithin primes.length capacity

theorem le_outermostWithin : c ≤ outermostWithin rounds c := by
  induction rounds generalizing c with
  | zero => exact Nat.le_refl _
  | succ rounds ih =>
      unfold outermostWithin
      split
      · exact Nat.le_refl _
      · next d hd =>
          have hle := (atLeast?_eq_some hd).2
          exact Nat.le_trans (by omega) ih

theorem outermostWithin_mem (hc : c ∈ primes) : outermostWithin rounds c ∈ primes := by
  induction rounds generalizing c with
  | zero => exact hc
  | succ rounds ih =>
      unfold outermostWithin
      split
      · exact hc
      · next d hd => exact ih (atLeast?_eq_some hd).1

theorem outermost_of_mem : ∀ c ∈ primes,
    outermost c ∈ [905918777, 1132398479, 1415498113, largest] := by
  decide +kernel

end Capacity

namespace Shape

variable {s : Shape} {l : List Symbol} {x : Symbol} {load : Binary64}
  {required requested rounds c next : Nat} {fault : ShapeFault}

theorem le_outermostWithin_of_grown (h : grownCapacity load required rounds c = .ok next) :
    next ≤ Capacity.outermostWithin rounds c := by
  induction rounds generalizing c with
  | zero => cases h
  | succ rounds ih =>
      unfold grownCapacity at h
      unfold Capacity.outermostWithin
      cases hd : Capacity.atLeast? (2 * c) with
      | none =>
          simp only [hd] at h
          cases h
      | some d =>
          simp only [hd] at h ⊢
          split at h
          · cases h
            exact Capacity.le_outermostWithin
          · exact ih h

/-- Growth gives up at the end of the chain, after it has looked there too. -/
theorem grownCapacity_gives_up (hfew : threshold c load < required)
    (h : grownCapacity load required rounds c = .error fault) :
    fault = .growthLimit (Capacity.outermostWithin rounds c) ∧
      threshold (Capacity.outermostWithin rounds c) load < required := by
  induction rounds generalizing c with
  | zero =>
      cases h
      exact ⟨rfl, hfew⟩
  | succ rounds ih =>
      unfold grownCapacity at h
      unfold Capacity.outermostWithin
      cases hd : Capacity.atLeast? (2 * c) with
      | none =>
          simp only [hd] at h ⊢
          cases h
          exact ⟨rfl, hfew⟩
      | some d =>
          simp only [hd] at h ⊢
          split at h
          · cases h
          · next hr => exact ih (Nat.not_le.1 hr) h

/-- A new symbol finds room just if the end of the chain of capacities has it. -/
theorem Lists.create_of_outermost (h : s.Lists l) (hload : s.load.isProperFraction)
    (hx : x ∉ l) :
    (l.length + 1 ≤ threshold (Capacity.outermost s.capacity) s.load →
      ∃ s', s.create x = .ok (l.length, s') ∧ s'.load = s.load ∧ s'.Lists (l ++ [x])) ∧
    (threshold (Capacity.outermost s.capacity) s.load < l.length + 1 →
      s.create x = .error (.growthLimit (Capacity.outermost s.capacity))) := by
  have hlast : Capacity.outermost s.capacity ∈ Capacity.primes :=
    Capacity.outermostWithin_mem h.capacity
  constructor
  · intro hroom
    refine (h.create_of_not_mem (threshold_lt hload) hx).resolve_right ?_
    rintro ⟨last, -, -, hfew, hgrown⟩
    exact absurd (grownCapacity_gives_up hfew hgrown).2 (Nat.not_lt.2 hroom)
  · intro hnone
    have hfew : ∀ c ∈ Capacity.primes, c ≤ Capacity.outermost s.capacity →
        threshold c s.load < l.length + 1 := fun c hc hle =>
      Nat.lt_of_le_of_lt (threshold_mono hload hc hlast hle) hnone
    have hfew₀ := hfew s.capacity h.capacity Capacity.le_outermostWithin
    rw [Shape.create, h.get?_eq, if_neg hx]
    simp only [h.size]
    rw [if_pos hfew₀, Shape.grow]
    cases hgrown : grownCapacity s.load (l.length + 1) Capacity.primes.length s.capacity with
    | ok next =>
        obtain ⟨hmem, -, hroom⟩ := grownCapacity_ok hgrown
        exact absurd (hfew next hmem (le_outermostWithin_of_grown hgrown)) (Nat.not_lt.2 hroom)
    | error fault =>
        rw [(grownCapacity_gives_up hfew₀ hgrown).1]
        rfl

theorem one_le_threshold (hload : load.isProperFraction) (hc : c ∈ Capacity.primes)
    (h : 1 ≤ Binary64.floorScale c load) : 1 ≤ threshold c load := by
  have hlarge : Capacity.largest < 2 ^ 31 := by decide
  have := Capacity.le_largest_of_mem hc
  have := Capacity.two_lt_of_mem hc
  exact Nat.le_trans h (Binary64.floorScale_le hload (by omega) (by omega))

/-- A new shape holds a first symbol just if the end of its chain of capacities
admits one at its load, and says so there otherwise. A chain has one of four
ends. If it is the largest prime, which is the one a load is tested with, or if
the exact product reaches one at the end, then the symbol gets slot 0. -/
theorem first_symbol_fits_iff (hs : ofCapacity? requested load = .ok s) (x : Symbol) :
    let last := Capacity.outermost s.capacity
    last ∈ [905918777, 1132398479, 1415498113, Capacity.largest] ∧
      ((∃ s', s.create x = .ok (0, s')) ↔ 1 ≤ threshold last load) ∧
      (threshold last load = 0 → s.create x = .error (.growthLimit last)) ∧
      (last = Capacity.largest → ∃ s', s.create x = .ok (0, s')) ∧
      (1 ≤ Binary64.floorScale last load → ∃ s', s.create x = .ok (0, s')) := by
  obtain ⟨rfl, hload, hvalid⟩ := ofCapacity?_eq_ok hs
  have hlists := lists_ofCapacity requested load
  obtain ⟨hfits, hfails⟩ := hlists.create_of_outermost hload (List.not_mem_nil (a := x))
  have hfits : 1 ≤ threshold (Capacity.outermost (ofCapacity requested load).capacity) load →
      ∃ s', (ofCapacity requested load).create x = .ok (0, s') := fun hroom =>
    (hfits hroom).imp fun _ h => h.1
  intro last
  refine ⟨Capacity.outermost_of_mem _ hlists.capacity, ⟨?_, hfits⟩, fun hnone => ?_, fun heq => ?_,
    fun hexact => ?_⟩
  · rintro ⟨s', hok⟩
    by_contra hnone
    cases hok.symm.trans (hfails (Nat.not_le.1 hnone))
  · exact hfails (by rw [List.length_nil]; exact Nat.lt_one_iff.2 hnone)
  · refine hfits ?_
    show 1 ≤ threshold last load
    rw [heq]
    exact hvalid
  · exact hfits (one_le_threshold hload (Capacity.outermostWithin_mem hlists.capacity) hexact)

/-- Five buckets are on the chain of the largest prime, so that a load of one in a
thousand million is enough. -/
theorem first_symbol_fits_from_five :
    let load : Binary64 := ⟨0x3e112e0be826d695⟩
    ofCapacity? 5 load = .ok (ofCapacity 5 load) ∧
      ∃ s', (ofCapacity 5 load).create ⟨500, by decide⟩ = .ok (0, s') := by
  intro load
  have hvalid : ofCapacity? 5 load = .ok (ofCapacity 5 load) := by
    rw [ofCapacity?, if_pos (by decide +kernel)]
  have hlast : Capacity.outermost (ofCapacity 5 load).capacity = Capacity.largest := by
    decide +kernel
  exact ⟨hvalid, (first_symbol_fits_iff hvalid _).2.2.2.1 hlast⟩

/-- The same load from sixteen: the chain ends at a prime of which the load has no
part, while the largest prime admits one symbol. -/
theorem first_symbol_past_the_chain :
    let load : Binary64 := ⟨0x3e112e0be826d695⟩
    ofCapacity? 16 load = .ok (ofCapacity 16 load) ∧
      Binary64.floorScale Capacity.largest load = 1 ∧
      Binary64.floorScale (Capacity.outermost (ofCapacity 16 load).capacity) load = 0 ∧
      ∀ x, ¬ (∃ s', (ofCapacity 16 load).create x = .ok (0, s')) ∧
        (ofCapacity 16 load).create x = .error (.growthLimit 905918777) := by
  intro load
  have hvalid : ofCapacity? 16 load = .ok (ofCapacity 16 load) := by
    rw [ofCapacity?, if_pos (by decide +kernel)]
  have hlast : Capacity.outermost (ofCapacity 16 load).capacity = 905918777 := by
    decide +kernel
  refine ⟨hvalid, by decide +kernel, by rw [hlast]; decide +kernel, fun x => ?_⟩
  have hfails := ((lists_ofCapacity 16 load).create_of_outermost (by decide +kernel)
    (List.not_mem_nil (a := x))).2
  rw [hlast] at hfails
  have hfails := hfails (by decide +kernel)
  refine ⟨?_, hfails⟩
  rintro ⟨s', hok⟩
  cases hok.symm.trans hfails

end Shape

end ScriptCore

import ScriptCore.Proofs.Numbering

/-!
# What a new symbol makes of a shape

A symbol that has a slot keeps it, and nothing changes. A new one is given the
next slot and placed in a bucket: of the array there is, as long as the load
admits one more, and else of a larger one, to which the shape has moved first.
`Takes` says this once, with the tests that decide between the two, and what
holds of every shape is shown for these two cases.
-/

namespace ScriptCore

theorem bind_eq_ok {ε α β : Type} {x : Except ε α} {f : α → Except ε β} {r : β} :
    x >>= f = .ok r ↔ ∃ a, x = .ok a ∧ f a = .ok r := by
  cases x <;> simp [bind, Except.bind]

theorem exists_ok_of_any {ε α : Type} {x : Except ε α} {p : α → Bool}
    (h : x.toOption.any p = true) : ∃ a, x = .ok a ∧ p a = true := by
  cases x with
  | error _ => cases h
  | ok a => exact ⟨a, rfl, h⟩

namespace Buckets

variable {b b' : Buckets} {s : Symbol} {slot c : Nat}

theorem insert_eq_ok (h : b.insert s slot = .ok b') :
    ∃ i, (b.probe s).1 = .vacant i ∧ b' = b.setIfInBounds i (some ⟨s, slot⟩) := by
  unfold insert at h
  split at h
  · next i hi =>
      cases h
      exact ⟨i, hi, rfl⟩
  · cases h
  · cases h

theorem size_insert (h : b.insert s slot = .ok b') : b'.size = b.size := by
  obtain ⟨i, -, rfl⟩ := insert_eq_ok h
  exact Array.size_setIfInBounds

/-- Moving to other buckets is placing one entry after the other. -/
theorem rehash_induction {P : Buckets → Prop} (hempty : P (empty c))
    (hinsert : ∀ b s slot b', P b → insert b s slot = .ok b' → P b')
    (h : b.rehash c = .ok b') : P b' := by
  unfold rehash at h
  generalize b.toList = os at h
  generalize empty c = b₀ at h hempty
  induction os generalizing b₀ with
  | nil =>
      cases h
      exact hempty
  | cons o os ih =>
      rw [List.foldlM_cons] at h
      cases o with
      | none => exact ih b₀ h hempty
      | some e =>
          obtain ⟨b₁, hb, h⟩ := bind_eq_ok.1 h
          exact ih b₁ h (hinsert b₀ e.symbol e.slot b₁ hempty hb)

theorem size_rehash (h : b.rehash c = .ok b') : b'.size = c := by
  refine rehash_induction (P := fun b => b.size = c) Array.size_replicate ?_ h
  intro b s slot b' hb hins
  rw [size_insert hins, hb]

end Buckets

namespace Shape

variable {s s' : Shape} {x : Symbol} {load : Binary64} {i requested : Nat}

/-- A shape as it is made, by default or for a number of symbols and a load. -/
def New (requested : Nat) (load : Binary64) (s : Shape) : Prop :=
  ofCapacity? requested load = .ok s ∨
    s = empty ∧ requested = defaultCapacity ∧ load = defaultLoad

theorem exists_new (h : s = empty ∨ ∃ requested load, ofCapacity? requested load = .ok s) :
    ∃ requested load, New requested load s := by
  rcases h with rfl | ⟨requested, load, hok⟩
  · exact ⟨defaultCapacity, defaultLoad, .inr ⟨rfl, rfl, rfl⟩⟩
  · exact ⟨requested, load, .inl hok⟩

theorem New.eq_ofCapacity (h : New requested load s) :
    s = ofCapacity requested load ∧ load.isProperFraction := by
  rcases h with hok | ⟨rfl, rfl, rfl⟩
  · obtain ⟨heq, hload, -⟩ := ofCapacity?_eq_ok hok
    exact ⟨heq, hload⟩
  · exact ⟨rfl, by decide +kernel⟩

theorem New.capacity (h : New requested load s) :
    s.capacity = (Capacity.atLeast? requested).getD Capacity.largest := by
  rw [h.eq_ofCapacity.1]
  exact Array.size_replicate

/-- How a shape takes a new symbol. -/
inductive Takes (s : Shape) (x : Symbol) : Shape → Prop
  | within {b : Buckets} (hroom : s.size + 1 ≤ threshold s.capacity s.load)
      (hplaced : s.buckets.insert x s.size = .ok b) :
      Takes s x { s with buckets := b, size := s.size + 1 }
  | moved {next : Nat} {b b' : Buckets} (hfull : threshold s.capacity s.load < s.size + 1)
      (hnext : grownCapacity s.load (s.size + 1) Capacity.primes.length s.capacity = .ok next)
      (hmoved : s.buckets.rehash next = .ok b) (hplaced : b.insert x s.size = .ok b') :
      Takes s x { s with buckets := b', size := s.size + 1, growths := s.growths + 1 }

theorem grow_eq_ok {required : Nat} (h : s.grow required = .ok s') :
    ∃ next b, grownCapacity s.load required Capacity.primes.length s.capacity = .ok next ∧
      s.buckets.rehash next = .ok b ∧ s' = { s with buckets := b, growths := s.growths + 1 } := by
  obtain ⟨next, hnext, h⟩ := bind_eq_ok.1 h
  obtain ⟨b, hb, h⟩ := bind_eq_ok.1 h
  cases h
  exact ⟨next, b, hnext, hb, rfl⟩

theorem create_cases (h : s.create x = .ok (i, s')) :
    s.get? x = some i ∧ s' = s ∨ s.get? x = none ∧ i = s.size ∧ s.Takes x s' := by
  unfold create at h
  cases hget : s.get? x with
  | some slot =>
      rw [hget] at h
      cases h
      exact .inl ⟨rfl, rfl⟩
  | none =>
      rw [hget] at h
      refine .inr ⟨rfl, ?_⟩
      by_cases hfull : threshold s.capacity s.load < s.size + 1
      · simp only [if_pos hfull] at h
        obtain ⟨g, hg, h⟩ := bind_eq_ok.1 h
        obtain ⟨b, hplaced, h⟩ := bind_eq_ok.1 h
        obtain ⟨next, b₁, hnext, hmoved, rfl⟩ := grow_eq_ok hg
        cases h
        exact ⟨rfl, .moved hfull hnext hmoved hplaced⟩
      · simp only [if_neg hfull] at h
        obtain ⟨g, hg, h⟩ := bind_eq_ok.1 h
        obtain ⟨b, hplaced, h⟩ := bind_eq_ok.1 h
        cases hg
        cases h
        exact ⟨rfl, .within (Nat.not_lt.1 hfull) hplaced⟩

/-- What taking a new symbol preserves, creating any symbols does. -/
theorem createAll_induction {P : Shape → Prop} {syms : List Symbol} {slots : List Nat}
    (hstep : ∀ s x s', P s → s.Takes x s' → P s') (hall : s.createAll syms = .ok (slots, s'))
    (h : P s) : P s' := by
  induction syms generalizing s slots with
  | nil =>
      cases hall
      exact h
  | cons x syms ih =>
      obtain ⟨i, s₁, rest, hcreate, hrest, -⟩ := createAll_cons_ok hall
      refine ih hrest ?_
      rcases create_cases hcreate with ⟨-, rfl⟩ | ⟨-, -, htakes⟩
      · exact h
      · exact hstep s x s₁ h htakes

end Shape

end ScriptCore

import ScriptCore.Proofs.Probe
import ScriptCore.Shape.Basic
import Mathlib.Data.List.Basic

/-!
# Slots are given in the order of creation

A shape is a list without repetitions that is only ever appended to: a symbol
created for the first time goes to its end, and the slot of a symbol is its
position. The bucket array is a way to find that position, and neither the
order in it nor a move to another one shows.

`Lists` says that a shape stands for such a list. It asks for one thing more
than that the right entries are found: that a bucket is left empty. This is
where the load comes in, whose only duty is to keep the threshold of every
listed bucket count below the count. All that can go wrong then is that the
list of bucket counts ends, and `growthLimit` says so; the two other faults do
not occur, neither in placing a symbol nor in moving all of them.
-/

namespace ScriptCore

section Distinct

variable {α : Type} [BEq α] [LawfulBEq α] {done more : List α} {x : α}

theorem eraseDups_append_prefix : done.eraseDups <+: (done ++ more).eraseDups := by
  rw [List.eraseDups_append]
  exact List.prefix_append _ _

theorem eraseDups_concat_of_mem (hx : x ∈ done) : (done ++ [x]).eraseDups = done.eraseDups := by
  simp [List.eraseDups_append, List.removeAll, hx]

theorem eraseDups_concat_of_not_mem (hx : x ∉ done) :
    (done ++ [x]).eraseDups = done.eraseDups ++ [x] := by
  simp [List.eraseDups_append, List.removeAll, hx, List.eraseDups_cons]

end Distinct

namespace Capacity

variable {c n : Nat}

theorem le_largest_of_mem : ∀ {c : Nat}, c ∈ primes → c ≤ largest := by
  decide +kernel

theorem largest_mem : largest ∈ primes := by
  decide +kernel

theorem atLeast?_eq_some (h : atLeast? n = some c) : c ∈ primes ∧ n ≤ c :=
  ⟨List.mem_of_find?_eq_some h, by simpa using List.find?_some h⟩

theorem atLeast?_eq_none (h : atLeast? n = none) : largest < n := by
  have := List.find?_eq_none.1 h largest largest_mem
  simpa using this

end Capacity

namespace Shape

variable {s s' : Shape} {l : List Symbol} {x : Symbol} {load : Binary64}
  {required rounds c next : Nat}

/-! ## A larger capacity -/

theorem grownCapacity_ok (h : grownCapacity load required rounds c = .ok next) :
    next ∈ Capacity.primes ∧ 2 * c ≤ next ∧ required ≤ threshold next load := by
  induction rounds generalizing c with
  | zero => cases h
  | succ rounds ih =>
      unfold grownCapacity at h
      split at h
      · cases h
      · next d hd =>
          obtain ⟨hmem, hle⟩ := Capacity.atLeast?_eq_some hd
          split at h
          · next hr =>
              cases h
              exact ⟨hmem, hle, hr⟩
          · obtain ⟨hmem', hle', hr⟩ := ih h
            exact ⟨hmem', by omega, hr⟩

/-- The list of capacities has ended: none of them is twice `last`, and `last` itself does not
admit the symbols. -/
def Outgrown (load : Binary64) (required last : Nat) : Prop :=
  last ∈ Capacity.primes ∧ Capacity.largest < 2 * last ∧ threshold last load < required

/-- The rounds do not run out: each doubles the capacity, and no listed one is large enough to be
doubled that often. -/
theorem grownCapacity_error {fault : ShapeFault} (hc : c ∈ Capacity.primes)
    (hfew : threshold c load < required) (hrounds : Capacity.largest < c * 2 ^ rounds)
    (h : grownCapacity load required rounds c = .error fault) :
    ∃ last, fault = .growthLimit last ∧ Outgrown load required last := by
  induction rounds generalizing c with
  | zero =>
      have := Capacity.le_largest_of_mem hc
      omega
  | succ rounds ih =>
      unfold grownCapacity at h
      split at h
      · next hnone =>
          cases h
          exact ⟨c, rfl, hc, Capacity.atLeast?_eq_none hnone, hfew⟩
      · next d hd =>
          obtain ⟨hmem, hle⟩ := Capacity.atLeast?_eq_some hd
          split at h
          · cases h
          · next hr =>
              refine ih hmem (by omega) ?_ h
              calc Capacity.largest < c * 2 ^ (rounds + 1) := hrounds
                _ = 2 * c * 2 ^ rounds := by rw [Nat.pow_succ, Nat.mul_comm 2 c, Nat.mul_assoc,
                  Nat.mul_comm 2]
                _ ≤ d * 2 ^ rounds := Nat.mul_le_mul_right _ hle

theorem largest_lt_rounds (hc : c ∈ Capacity.primes) :
    Capacity.largest < c * 2 ^ Capacity.primes.length := by
  have hpow : Capacity.largest < 2 ^ Capacity.primes.length := by decide +kernel
  have := Capacity.two_lt_of_mem hc
  exact Nat.lt_of_lt_of_le hpow (Nat.le_mul_of_pos_left _ (by omega))

/-! ## The list of a shape -/

/-- The entries for a list of symbols, each with its position. -/
def numbered (l : List Symbol) : List Bucket := l.zipIdx.map fun p => ⟨p.1, p.2⟩

theorem mem_numbered {n : Nat} : ⟨x, n⟩ ∈ numbered l ↔ l[n]? = some x := by
  simp [numbered, List.mem_zipIdx_iff_getElem?]

@[simp] theorem symbols_numbered : (numbered l).map Bucket.symbol = l := by
  rw [numbered, List.map_map]
  exact List.zipIdx_map_fst 0 l

@[simp] theorem length_numbered : (numbered l).length = l.length := by
  simp [numbered]

theorem numbered_concat : (numbered (l ++ [x])).Perm (⟨x, l.length⟩ :: numbered l) := by
  have happ : numbered (l ++ [x]) = numbered l ++ [⟨x, l.length⟩] := by
    simp [numbered, List.zipIdx_append]
  rw [happ]
  exact List.perm_append_singleton _ _

/-- A shape that stands for a list, with at least one bucket to spare. -/
structure Lists (s : Shape) (l : List Symbol) : Prop where
  capacity : s.capacity ∈ Capacity.primes
  size : s.size = l.length
  room : l.length < s.capacity
  holds : s.buckets.Holds (numbered l)

namespace Lists

theorem get?_eq (h : s.Lists l) (x : Symbol) :
    s.get? x = if x ∈ l then some (l.idxOf x) else none := by
  split
  · next hx => exact h.holds.get?_eq_some_iff.2 (mem_numbered.2 (List.getElem?_idxOf hx))
  · next hx =>
      refine h.holds.get?_eq_none_iff.2 ?_
      rw [symbols_numbered]
      exact hx

/-- The bucket array has the symbols of the list, in an order of its own. -/
theorem symbols_perm (h : s.Lists l) : s.symbols.Perm l := by
  have hperm := h.holds.perm.map Bucket.symbol
  rw [symbols_numbered, Buckets.entries, List.map_filterMap] at hperm
  exact hperm

end Lists

theorem lists_ofCapacity (requested : Nat) (load : Binary64) :
    (ofCapacity requested load).Lists [] := by
  have hsize : (ofCapacity requested load).capacity =
      (Capacity.atLeast? requested).getD Capacity.largest := Array.size_replicate
  have hmem : (ofCapacity requested load).capacity ∈ Capacity.primes := by
    rw [hsize]
    cases hat : Capacity.atLeast? requested with
    | none => exact Capacity.largest_mem
    | some c => exact (Capacity.atLeast?_eq_some hat).1
  have hpos := Capacity.two_lt_of_mem hmem
  exact ⟨hmem, rfl, by rw [List.length_nil]; omega, Buckets.holds_empty _⟩

/-! ## One symbol more -/

namespace Lists

/-- Moving to a larger bucket array leaves the list as it is. -/
theorem grow (h : s.Lists l)
    (hg : grownCapacity s.load required Capacity.primes.length s.capacity = .ok next) :
    ∃ s', s.grow required = .ok s' ∧ s'.load = s.load ∧ s'.capacity = next ∧ s'.Lists l := by
  obtain ⟨hmem, hle, -⟩ := grownCapacity_ok hg
  have hroom := h.room
  obtain ⟨b, hb, hsize, hh⟩ := h.holds.rehash hmem (by rw [length_numbered]; omega)
  refine ⟨{ s with buckets := b, growths := s.growths + 1 }, ?_, rfl, hsize, ?_⟩
  · rw [Shape.grow, hg]
    simp only [bind, Except.bind, hb]
    rfl
  · refine ⟨?_, h.size, ?_, hh⟩
    · rwa [Shape.capacity, hsize]
    · rw [Shape.capacity, hsize]
      omega

/-- A symbol that is new goes to the end, once there is room. -/
theorem insert (h : s.Lists l) (hx : x ∉ l) (hroom : l.length + 1 < s.capacity) :
    ∃ b, s.buckets.insert x l.length = .ok b ∧
      Lists { s with buckets := b, size := l.length + 1 } (l ++ [x]) := by
  obtain ⟨b, hb, hsize, hh⟩ := h.holds.insert (s := x) l.length h.capacity
    (by rw [length_numbered]; exact h.room) (by rwa [symbols_numbered])
  refine ⟨b, hb, ?_, ?_, ?_, hh.congr numbered_concat.symm⟩
  · rw [Shape.capacity, hsize]
    exact h.capacity
  · rw [List.length_append, List.length_singleton]
  · rw [List.length_append, List.length_singleton, Shape.capacity, hsize]
    exact hroom

theorem create_of_mem (h : s.Lists l) (hx : x ∈ l) : s.create x = .ok (l.idxOf x, s) := by
  rw [Shape.create, h.get?_eq, if_pos hx]

theorem create_of_not_mem (h : s.Lists l) (hload : ∀ c ∈ Capacity.primes, threshold c s.load < c)
    (hx : x ∉ l) :
    (∃ s', s.create x = .ok (l.length, s') ∧ s'.load = s.load ∧ s'.Lists (l ++ [x])) ∨
    ∃ last, s.create x = .error (.growthLimit last) ∧ Outgrown s.load (l.length + 1) last ∧
      threshold s.capacity s.load < l.length + 1 ∧
      grownCapacity s.load (l.length + 1) Capacity.primes.length s.capacity =
        .error (.growthLimit last) := by
  rw [Shape.create, h.get?_eq, if_neg hx]
  simp only [h.size]
  split
  · next hfew =>
      cases hg : grownCapacity s.load (l.length + 1) Capacity.primes.length s.capacity with
      | error fault =>
          obtain ⟨last, rfl, hout⟩ :=
            grownCapacity_error h.capacity hfew (largest_lt_rounds h.capacity) hg
          refine .inr ⟨last, ?_, hout, hfew, rfl⟩
          rw [Shape.grow, hg]
          rfl
      | ok next =>
          obtain ⟨s', hs', hl, hc, hlists⟩ := h.grow hg
          obtain ⟨hmem, -, hadmits⟩ := grownCapacity_ok hg
          have := hload next hmem
          obtain ⟨b, hb, hlists'⟩ := hlists.insert hx (by omega)
          refine .inl ⟨{ s' with buckets := b, size := l.length + 1 }, ?_, hl, hlists'⟩
          rw [hs']
          simp only [bind, Except.bind, hb]
          rfl
  · next hadmits =>
      have := hload s.capacity h.capacity
      obtain ⟨b, hb, hlists'⟩ := h.insert hx (by omega)
      refine .inl ⟨{ s with buckets := b, size := l.length + 1 }, ?_, rfl, hlists'⟩
      simp only [bind, Except.bind, pure, Except.pure, hb]

end Lists

/-! ## Symbol after symbol -/

theorem Outgrown.mono {last more : Nat} (h : Outgrown load required last) (hle : required ≤ more) :
    Outgrown load more last :=
  ⟨h.1, h.2.1, Nat.lt_of_lt_of_le h.2.2 hle⟩

theorem Lists.create {done : List Symbol} (h : s.Lists done.eraseDups)
    (hload : ∀ c ∈ Capacity.primes, threshold c s.load < c) (x : Symbol) :
    (∃ s', s.create x = .ok ((done ++ [x]).eraseDups.idxOf x, s') ∧ s'.load = s.load ∧
      s'.Lists (done ++ [x]).eraseDups) ∨
    ∃ last, s.create x = .error (.growthLimit last) ∧
      Outgrown s.load (done ++ [x]).eraseDups.length last := by
  by_cases hx : x ∈ done
  · rw [eraseDups_concat_of_mem hx]
    exact .inl ⟨s, h.create_of_mem (List.mem_eraseDups.2 hx), rfl, h⟩
  · have hx' : x ∉ done.eraseDups := fun hmem => hx (List.mem_eraseDups.1 hmem)
    rw [eraseDups_concat_of_not_mem hx, List.idxOf_append_of_notMem hx', List.idxOf_cons_self,
      Nat.add_zero, List.length_append]
    refine (h.create_of_not_mem hload hx').imp_right ?_
    rintro ⟨last, hcreate, hout, -⟩
    exact ⟨last, hcreate, hout⟩

/-- Creates symbols one after the other, and lists the slots they are given. -/
def createAll (s : Shape) : List Symbol → Except ShapeFault (List Nat × Shape)
  | [] => .ok ([], s)
  | sym :: syms => do
      let (slot, s) ← s.create sym
      let (slots, s) ← s.createAll syms
      return (slot :: slots, s)

theorem Lists.createAll {done : List Symbol} (syms : List Symbol) (h : s.Lists done.eraseDups)
    (hload : ∀ c ∈ Capacity.primes, threshold c s.load < c) :
    (∃ s', s.createAll syms = .ok (syms.map ((done ++ syms).eraseDups.idxOf ·), s') ∧
      s'.load = s.load ∧ s'.Lists (done ++ syms).eraseDups) ∨
    ∃ last, s.createAll syms = .error (.growthLimit last) ∧
      Outgrown s.load (done ++ syms).eraseDups.length last := by
  induction syms generalizing s done with
  | nil =>
      rw [List.append_nil]
      exact .inl ⟨s, rfl, rfl, h⟩
  | cons x syms ih =>
      rw [List.append_cons done x syms]
      have hpre : (done ++ [x]).eraseDups <+: (done ++ [x] ++ syms).eraseDups :=
        eraseDups_append_prefix
      unfold Shape.createAll
      obtain ⟨s₁, hcreate, hl₁, h₁⟩ | ⟨last, hcreate, hout⟩ := h.create hload x
      · -- the slot given now is the position in all that will have been created
        have hslot := hpre.idxOf_eq_of_mem (a := x) (List.mem_eraseDups.2 (by simp))
        rw [hcreate, ← hl₁]
        obtain ⟨s₂, hrun, hl₂, h₂⟩ | ⟨last, hrun, hout⟩ := ih h₁ (hl₁ ▸ hload)
        · refine .inl ⟨s₂, ?_, hl₂, h₂⟩
          simp only [bind, Except.bind, hrun, List.map_cons, hslot]
          rfl
        · refine .inr ⟨last, ?_, hout⟩
          simp only [bind, Except.bind, hrun]
      · refine .inr ⟨last, ?_, hout.mono hpre.length_le⟩
        rw [hcreate]
        rfl

theorem Lists.get?_of_prefix {m : List Symbol} {n : Nat} (h : s.Lists l) (h' : s'.Lists m)
    (hpre : l <+: m) (hget : s.get? x = some n) : s'.get? x = some n := by
  rw [h.get?_eq] at hget
  split at hget
  · next hx => rw [h'.get?_eq, if_pos (hpre.subset hx), ← hpre.idxOf_eq_of_mem hx, hget]
  · cases hget

theorem Lists.of_grow (h : s.Lists l) (hgrow : s.grow required = .ok s') : s'.Lists l := by
  cases hg : grownCapacity s.load required Capacity.primes.length s.capacity with
  | error fault =>
      rw [Shape.grow, hg] at hgrow
      cases hgrow
  | ok next =>
      obtain ⟨s₁, hs₁, -, -, h₁⟩ := h.grow hg
      rw [hs₁] at hgrow
      cases hgrow
      exact h₁

theorem ofCapacity?_eq_ok {requested : Nat} (h : ofCapacity? requested load = .ok s) :
    s = ofCapacity requested load ∧ load.isProperFraction ∧
      1 ≤ threshold Capacity.largest load := by
  unfold ofCapacity? at h
  split at h
  · next hvalid =>
      cases h
      simp only [isValidLoad, Bool.and_eq_true, bne_iff_ne] at hvalid
      exact ⟨rfl, hvalid.1, Nat.one_le_iff_ne_zero.2 hvalid.2⟩
  · cases h

theorem lists_of_new (hnew : s = empty ∨ ∃ requested load, ofCapacity? requested load = .ok s) :
    s.Lists [] := by
  obtain rfl | ⟨requested, load, hok⟩ := hnew
  · exact lists_ofCapacity _ _
  · rw [(ofCapacity?_eq_ok hok).1]
    exact lists_ofCapacity requested load

/-- Whatever symbols are created in a new shape, each is given its position among those that
differ, in the order of their first creation. The shape finds just these, and keeps the slots when
more symbols are created and when it moves to other buckets. If it stops, it is because the listed
bucket counts end, not because a symbol was there already or because no bucket was left. -/
theorem slots_follow_first_creation (syms : List Symbol)
    (hnew : s = empty ∨ ∃ requested load, ofCapacity? requested load = .ok s)
    (hload : ∀ c ∈ Capacity.primes, threshold c s.load < c) :
    (∃ s', s.createAll syms = .ok (syms.map (syms.eraseDups.idxOf ·), s') ∧
      (∀ x, s'.get? x = if x ∈ syms then some (syms.eraseDups.idxOf x) else none) ∧
      s'.size = syms.eraseDups.length ∧
      (∀ later slots s'', s'.createAll later = .ok (slots, s'') →
        ∀ x n, s'.get? x = some n → s''.get? x = some n) ∧
      ∀ required s'', s'.grow required = .ok s'' → ∀ x, s''.get? x = s'.get? x) ∨
    ∃ last, s.createAll syms = .error (.growthLimit last) ∧
      Outgrown s.load syms.eraseDups.length last := by
  have h : s.Lists ([] : List Symbol).eraseDups := lists_of_new hnew
  obtain ⟨s', hrun, hl, h'⟩ | hlimit := h.createAll syms hload
  · refine .inl ⟨s', hrun, ?_, h'.size, ?_, ?_⟩
    · intro x
      rw [h'.get?_eq]
      simp only [List.nil_append, List.mem_eraseDups]
    · intro later slots s'' hlater x n hget
      obtain ⟨s₁, hrun₁, -, h₁⟩ | ⟨last, hlimit, -⟩ := h'.createAll later (hl ▸ hload)
      · rw [hlater] at hrun₁
        cases hrun₁
        exact h'.get?_of_prefix h₁ eraseDups_append_prefix hget
      · rw [hlater] at hlimit
        cases hlimit
    · intro required s'' hgrow x
      rw [(h'.of_grow hgrow).get?_eq, h'.get?_eq]
  · exact .inr hlimit

/-- Three symbols in three buckets: the third makes the shape move. -/
theorem slots_follow_first_creation_past_growth :
    ofCapacity? 0 defaultLoad = .ok (ofCapacity 0 defaultLoad) ∧
    (∀ c ∈ Capacity.primes, threshold c defaultLoad < c) ∧
    ∃ s, (ofCapacity 0 defaultLoad).createAll
        [⟨502, by decide⟩, ⟨505, by decide⟩, ⟨502, by decide⟩, ⟨508, by decide⟩] =
          .ok ([0, 1, 0, 2], s) ∧
      s.size = 3 ∧ s.get? ⟨508, by decide⟩ = some 2 ∧ s.get? ⟨511, by decide⟩ = none := by
  have hnew : ofCapacity? 0 defaultLoad = .ok (ofCapacity 0 defaultLoad) := by
    rw [ofCapacity?, if_pos (by decide +kernel)]
  have hload : ∀ c ∈ Capacity.primes, threshold c defaultLoad < c := by decide +kernel
  refine ⟨hnew, hload, ?_⟩
  obtain ⟨s, hrun, hget, hsize, -⟩ | ⟨last, -, hmem, hlast, hfew⟩ :=
    slots_follow_first_creation
      [⟨502, by decide⟩, ⟨505, by decide⟩, ⟨502, by decide⟩, ⟨508, by decide⟩]
      (.inr ⟨0, defaultLoad, hnew⟩) hload
  · refine ⟨s, hrun, hsize, ?_, ?_⟩
    · rw [hget]
      decide +kernel
    · rw [hget]
      decide +kernel
  · -- the last capacities admit far more than three symbols
    have hroom : ∀ c ∈ Capacity.primes, Capacity.largest < 2 * c → 3 ≤ threshold c defaultLoad := by
      decide +kernel
    exact absurd hfew (Nat.not_lt.2 (hroom last hmem hlast))

end Shape

end ScriptCore

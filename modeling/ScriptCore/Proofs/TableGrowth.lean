import ScriptCore.Proofs.Room
import Mathlib.Order.Bounds.Basic

/-!
# A table grows by doubling, and only when it is asked to

The capacity of a table is none, or its least capacity doubled some number of
times. Starting over at twice the old capacity or at the least one, whichever is
more, keeps to that: twice a capacity of the scale is the next one, and twice
none is less than the first. Doubling passes no capacity of the scale, so where
it stops is the least one that has the room and is no less than the old.

Two things are hidden in `ensureCapacity`. It doubles a number of any size, for
a limited number of rounds. What is meant is a loop over words that goes on for
as long as it takes, and then a request for what the target is more than the
length, not than the capacity. As long as no word overflows both come to the
same (`makesRoom_iff`). And nothing else changes a capacity, whereas the storage
behind a table would grow by itself, by a rule of its own, when a slot is added
that it has no room for. Here it never has to: whatever that rule is, it makes
no difference (`materialize_eq_append`, `pushAll_eq_foldl_append`).
-/

namespace ScriptCore.MemberTable

variable {t : MemberTable} {m n c target rounds : Nat}

/-! ## Making room in words -/

/-- The largest number there is. -/
def maxWord : Nat := 18446744073709551615

/-- Twice as much, as far as numbers go. -/
def doubled (c : Nat) : Nat := min (2 * c) maxWord

/-- Doubling until `n` fits, for as long as it takes. -/
inductive DoublesTo (n : Nat) : (target c : Nat) → Prop
  | enough {c : Nat} (fits : n ≤ c) : DoublesTo n c c
  | again {target c : Nat} (short : target < n) (rest : DoublesTo n (doubled target) c) :
      DoublesTo n target c

/-- Room for `more` slots behind those there are, if it is not there: no less and
no more. -/
def reserveExact (t : MemberTable) (more : Nat) : MemberTable :=
  if t.size + more ≤ t.capacity then t else { t with capacity := t.size + more }

/-- How room for `n` slots is made: not at all if it is there, and otherwise by
asking for what the slots there are leave of the target. -/
inductive MakesRoom (t : MemberTable) (n : Nat) : MemberTable → Prop
  | has (room : n ≤ t.capacity) : MakesRoom t n t
  | grows {target : Nat} (short : t.capacity < n)
      (loop : DoublesTo n (max (doubled t.capacity) t.minCapacity) target)
      (size_le : t.size ≤ target) : MakesRoom t n (t.reserveExact (target - t.size))

theorem DoublesTo.unique {c' : Nat} (h : DoublesTo n target c) (h' : DoublesTo n target c') :
    c = c' := by
  induction h with
  | enough hfits =>
      cases h' with
      | enough => rfl
      | again hshort => exact absurd hfits (Nat.not_le.2 hshort)
  | again hshort _ ih =>
      cases h' with
      | enough hfits => exact absurd hfits (Nat.not_le.2 hshort)
      | again _ hrest => exact ih hrest

/-- The rounds are enough, and what comes out is a word, so all on the way were. -/
theorem doublesTo_doubleUntil (hrounds : n ≤ 2 ^ rounds * target)
    (hword : doubleUntil n rounds target ≤ maxWord) :
    DoublesTo n target (doubleUntil n rounds target) := by
  induction rounds generalizing target with
  | zero => exact .enough (by simpa using hrounds)
  | succ rounds ih =>
      rw [doubleUntil] at hword ⊢
      split
      · next hshort =>
          rw [if_pos hshort] at hword
          have hdoubled : doubled target = 2 * target :=
            Nat.min_eq_left (Nat.le_trans (le_doubleUntil_self _ _ _) hword)
          rw [Nat.pow_succ, Nat.mul_assoc] at hrounds
          refine .again hshort ?_
          rw [hdoubled]
          exact ih hrounds hword
      · next hfits => exact .enough (Nat.not_lt.1 hfits)

theorem makesRoom_ensureCapacity (hm : 0 < t.minCapacity) (hsize : t.size ≤ t.capacity)
    (hword : (t.ensureCapacity n).capacity ≤ maxWord) : t.MakesRoom n (t.ensureCapacity n) := by
  by_cases hroom : n ≤ t.capacity
  · rw [ensureCapacity, if_pos hroom]
    exact .has hroom
  · have hgrown : t.ensureCapacity n =
        { t with capacity := doubleUntil n n (max (2 * t.capacity) t.minCapacity) } := if_neg hroom
    rw [hgrown] at hword ⊢
    have hrounds : n ≤ 2 ^ n * max (2 * t.capacity) t.minCapacity :=
      Nat.le_trans (Nat.le_of_lt Nat.lt_two_pow_self) (Nat.le_mul_of_pos_right _ (by omega))
    have hfirst := le_doubleUntil_self n n (max (2 * t.capacity) t.minCapacity)
    have hfits := le_doubleUntil hrounds
    have hloop := doublesTo_doubleUntil hrounds hword
    generalize doubleUntil n n (max (2 * t.capacity) t.minCapacity) = target at *
    have hword : target ≤ maxWord := hword
    have hdoubled : doubled t.capacity = 2 * t.capacity := Nat.min_eq_left (by omega)
    have hle : t.size ≤ target := by omega
    have hreserve : t.reserveExact (target - t.size) = { t with capacity := target } := by
      rw [reserveExact, Nat.add_sub_cancel' hle, if_neg (by omega)]
    rw [← hreserve]
    exact .grows (Nat.not_le.1 hroom) (by rwa [hdoubled]) hle

/-- Making room ends, and with this table. -/
theorem makesRoom_iff (hm : 0 < t.minCapacity) (hsize : t.size ≤ t.capacity)
    (hword : (t.ensureCapacity n).capacity ≤ maxWord) (t' : MemberTable) :
    t.MakesRoom n t' ↔ t' = t.ensureCapacity n := by
  have hmakes := makesRoom_ensureCapacity hm hsize hword
  constructor
  · intro h
    generalize t.ensureCapacity n = e at hmakes
    cases h with
    | has hroom =>
        cases hmakes with
        | has => rfl
        | grows hshort => exact absurd hroom (Nat.not_le.2 hshort)
    | grows hshort hloop =>
        cases hmakes with
        | has hroom => exact absurd hroom (Nat.not_le.2 hshort)
        | grows _ hloop' => rw [hloop.unique hloop']
  · rintro rfl
    exact hmakes

/-! ## Storage that grows by itself -/

/-- Adds slots at the end. If there is no room for them, the capacity becomes
what the storage itself makes of the number of slots that it needs. -/
def append (regrow : MemberTable → Nat → Nat) (t : MemberTable) (added : Array Slot) :
    MemberTable :=
  { t with
    slots := t.slots ++ added
    capacity :=
      if t.size + added.size ≤ t.capacity then t.capacity else regrow t (t.size + added.size) }

variable {regrow : MemberTable → Nat → Nat} {added : Array Slot}

theorem append_eq (h : t.size + added.size ≤ t.capacity) :
    t.append regrow added = { t with slots := t.slots ++ added } := by
  rw [append, if_pos h]

/-- A table that is made longer for a slot grows by making room. -/
theorem materialize_eq_append (hm : 0 < t.minCapacity) (i : Nat) :
    t.materialize i =
      if i < t.size then t
      else (t.ensureCapacity (i + 1)).append regrow
        (Array.replicate (i + 1 - t.size) Slot.undeclared) := by
  rw [materialize]
  split
  · rfl
  · next hi =>
      have hroom := le_capacity_ensureCapacity hm (i + 1)
      have hsize := size_ensureCapacity t (i + 1)
      rw [append_eq (by rw [hsize, Array.size_replicate]; omega)]
      simp only [hsize]

/-- Slots for which there is room may as well be added one by one. -/
theorem foldl_append_eq (vs : List Value) (h : t.size + vs.length ≤ t.capacity) :
    vs.foldl (fun row v => row.append regrow #[.ofValue v]) t =
      { t with slots := vs.foldl (fun slots v => slots.push (.ofValue v)) t.slots } := by
  induction vs generalizing t with
  | nil => rfl
  | cons v vs ih =>
      rw [List.length_cons] at h
      have hone : t.append regrow #[.ofValue v] = { t with slots := t.slots.push (.ofValue v) } :=
        append_eq (show t.size + 1 ≤ t.capacity by omega)
      rw [List.foldl_cons, List.foldl_cons, hone]
      refine ih ?_
      show (t.slots.push (.ofValue v)).size + vs.length ≤ t.capacity
      rw [Array.size_push]
      unfold size at h
      omega

/-- Pushed slots are added one by one, and none of them makes the table grow. -/
theorem pushAll_eq_foldl_append (hm : 0 < t.minCapacity) (vs : List Value) :
    t.pushAll vs =
      vs.foldl (fun row v => row.append regrow #[.ofValue v])
        (t.ensureCapacity (t.size + vs.length)) := by
  have hroom := le_capacity_ensureCapacity hm (t.size + vs.length)
  rw [foldl_append_eq vs (by rwa [size_ensureCapacity])]
  rfl

/-! ## The scale -/

/-- Doubling passes no capacity that would have done. -/
theorem isLeast_ensureCapacity (hm : 0 < t.minCapacity)
    (hscale : OnScale t.minCapacity t.capacity) (n : Nat) :
    IsLeast {c | OnScale t.minCapacity c ∧ n ≤ c ∧ t.capacity ≤ c}
      (t.ensureCapacity n).capacity := by
  refine ⟨⟨onScale_ensureCapacity hscale n, le_capacity_ensureCapacity hm n,
    t.capacity_le_ensureCapacity n⟩, ?_⟩
  rintro c ⟨hc, hn, hle⟩
  by_cases hroom : n ≤ t.capacity
  · rw [ensureCapacity, if_pos hroom]
    exact hle
  · obtain ⟨k, rfl⟩ := hc.resolve_left (by omega)
    rw [ensureCapacity, if_neg hroom]
    rcases hscale with hzero | ⟨j, hj⟩
    · rw [hzero, Nat.mul_zero, Nat.zero_max]
      exact doubleUntil_le_of_le hn
    · -- the capacity is `j` doublings up, and the other one more than that
      have hjk : j + 1 ≤ k := by
        by_contra hkj
        have hpow : 2 ^ k ≤ 2 ^ j := Nat.pow_le_pow_right (by decide) (by omega)
        have := Nat.mul_le_mul_left t.minCapacity hpow
        omega
      obtain ⟨i, rfl⟩ := Nat.exists_eq_add_of_le hjk
      rw [hj, max_two_mul_two_pow]
      have hscale : t.minCapacity * 2 ^ (j + 1 + i) = t.minCapacity * 2 ^ (j + 1) * 2 ^ i := by
        rw [Nat.pow_add, Nat.mul_assoc]
      rw [hscale] at hn ⊢
      exact doubleUntil_le_of_le hn

/-! ## Work on a table -/

/-- What can be done to a table. A slot that is referred to may be written. -/
inductive Edit where
  | ensure (n : Nat)
  | refer (i : Nat) (written : Option Slot)
  | push (vs : List Value)
  | reset

def perform (t : MemberTable) : Edit → MemberTable
  | .ensure n => t.ensureCapacity n
  | .refer i none => t.materialize i
  | .refer i (some slot) => (t.materialize i).setSlot i slot
  | .push vs => t.pushAll vs
  | .reset => t.reset

def performAll (t : MemberTable) (es : List Edit) : MemberTable := es.foldl perform t

theorem Scaled.materialize (h : t.Scaled m) (hm : 0 < m) (i : Nat) :
    (t.materialize i).Scaled m := by
  by_cases hi : i < t.size
  · rw [materialize_of_lt hi]
    exact h
  · rw [materialize_of_le hi]
    exact (h.ensureCapacity _).setSlots (size_materialize_le (h.minCapacity ▸ hm) hi)

theorem Scaled.pushAll (h : t.Scaled m) (hm : 0 < m) (vs : List Value) :
    (t.pushAll vs).Scaled m := by
  have hslots : (t.pushAll vs).slots.size = t.size + vs.length := by
    rw [slots_pushAll, Array.size_append, size]
    simp only [List.size_toArray, List.length_map]
  exact (h.ensureCapacity _).setSlots
    (Nat.le_trans (Nat.le_of_eq hslots) (le_capacity_ensureCapacity (h.minCapacity ▸ hm) _))

theorem Scaled.perform (h : t.Scaled m) (hm : 0 < m) (e : Edit) : (t.perform e).Scaled m := by
  cases e with
  | ensure n => exact h.ensureCapacity n
  | refer i written =>
      cases written with
      | none => exact h.materialize hm i
      | some slot =>
          have hrow := h.materialize hm i
          exact hrow.setSlots (Nat.le_trans (Nat.le_of_eq (size_setSlot _ i slot)) hrow.size_le)
  | push vs => exact h.pushAll hm vs
  | reset => exact h.setSlots (Nat.zero_le _)

theorem Scaled.performAll (h : t.Scaled m) (hm : 0 < m) (es : List Edit) :
    (t.performAll es).Scaled m := by
  induction es generalizing t with
  | nil => exact h
  | cons e es ih => exact ih (h.perform hm e)

theorem capacity_le_materialize (t : MemberTable) (i : Nat) :
    t.capacity ≤ (t.materialize i).capacity := by
  by_cases hi : i < t.size
  · rw [materialize_of_lt hi]
  · rw [materialize_of_le hi]
    exact t.capacity_le_ensureCapacity _

/-- What is done to a table takes no room away. -/
theorem capacity_le_perform (t : MemberTable) (e : Edit) : t.capacity ≤ (t.perform e).capacity := by
  cases e with
  | ensure n => exact t.capacity_le_ensureCapacity n
  | refer i written =>
      cases written with
      | none => exact t.capacity_le_materialize i
      | some slot => exact t.capacity_le_materialize i
  | push vs => exact t.capacity_le_ensureCapacity _
  | reset => exact Nat.le_refl _

theorem capacity_le_performAll (t : MemberTable) (es : List Edit) :
    t.capacity ≤ (t.performAll es).capacity := by
  induction es generalizing t with
  | nil => exact Nat.le_refl _
  | cons e es ih => exact Nat.le_trans (t.capacity_le_perform e) (ih _)

/-- Whatever is done to a table, its capacity is none or its least capacity
doubled some number of times, and as much as it holds; and it is never less
later. Making room takes it to the least such capacity that has the room and is
no less than the old one, leaves the slots, and, unless a word overflows, is what
the loop and the request for the rest come to. Referring to a slot adds as many
undeclared slots as there have to be, pushing adds those pushed, behind the slots
there are; and storage that would grow by a rule of its own does not, whatever
the rule, because room was made before. -/
theorem tables_grow_by_doubling (m : Nat) (es : List Edit) :
    let t := (withMinCapacity m).performAll es
    OnScale (max m 1) t.capacity ∧ t.size ≤ t.capacity ∧
      (∀ later, t.capacity ≤ (t.performAll later).capacity) ∧
      (∀ n, IsLeast {c | OnScale (max m 1) c ∧ n ≤ c ∧ t.capacity ≤ c}
          (t.ensureCapacity n).capacity ∧
        (t.ensureCapacity n).slots = t.slots ∧
        ((t.ensureCapacity n).capacity ≤ maxWord →
          ∀ t', t.MakesRoom n t' ↔ t' = t.ensureCapacity n)) ∧
      (∀ i, (t.materialize i).slots =
          t.slots ++ Array.replicate (i + 1 - t.size) Slot.undeclared ∧
        ∀ regrow, t.materialize i =
          if i < t.size then t
          else (t.ensureCapacity (i + 1)).append regrow
            (Array.replicate (i + 1 - t.size) Slot.undeclared)) ∧
      ∀ vs, (t.pushAll vs).slots = t.slots ++ (vs.map Slot.ofValue).toArray ∧
        ∀ regrow, t.pushAll vs =
          vs.foldl (fun row v => row.append regrow #[.ofValue v])
            (t.ensureCapacity (t.size + vs.length)) := by
  intro t
  have hpos : 0 < max m 1 := by omega
  have hscaled : t.Scaled (max m 1) := (scaled_empty _).performAll hpos es
  have hleast : 0 < t.minCapacity := hscaled.minCapacity ▸ hpos
  refine ⟨hscaled.scale, hscaled.size_le, fun later => t.capacity_le_performAll later,
    fun n => ⟨?_, t.slots_ensureCapacity n, makesRoom_iff hleast hscaled.size_le⟩,
    fun i => ⟨t.slots_materialize i, fun regrow => materialize_eq_append hleast i⟩,
    fun vs => ⟨t.slots_pushAll vs, fun regrow => pushAll_eq_foldl_append hleast vs⟩⟩
  have hgrown := isLeast_ensureCapacity hleast (hscaled.minCapacity ▸ hscaled.scale) n
  rw [hscaled.minCapacity] at hgrown
  exact hgrown

example :
    ([[.ensure 1], [.ensure 1, .ensure 17], [.ensure 1, .ensure 17, .reset, .ensure 100]].map
      fun es => (empty.performAll es).capacity) = [16, 32, 128] := by decide

end ScriptCore.MemberTable

import ScriptCore.Proofs.OwnMembers

/-!
# A row of slots as a map

What a scope has declared is kept in a row of slots, each at the number that
the shape gives to its symbol. Looked at from outside it is a map from symbols
to slots: `Members`. A map has no numbers, no gaps between them, and no room to
run out of, and it belongs to nobody else. Declaring in the row and assigning in
it is declaring in the map and assigning in it, whatever numbers the shape has
given out and in whatever order, as long as the slot is written at the number
of its symbol.
-/

namespace ScriptCore

/-! ## Maps of members -/

/-- What is declared under which name. -/
abbrev Members := Symbol → Option Slot

/-- What can be done to the members of one scope. -/
inductive MemberAct where
  | declare (symbol : Symbol) (attributes : Attributes)
  | assign (symbol : Symbol) (value : Value)
  /-- From outside only what is public can be assigned. -/
  | assignPublic (symbol : Symbol) (value : Value)

namespace Members

def empty : Members := fun _ => none

def set (m : Members) (s : Symbol) (slot : Slot) : Members :=
  fun x => if x = s then some slot else m x

/-- A constant is not declared again; anything else starts over. -/
def declare (m : Members) (s : Symbol) (a : Attributes) : Except EvalError Members :=
  if (m s).any Slot.isConst then .error (ErrorKind.duplicateDeclaration s)
  else .ok (m.set s (Slot.undeclared.declare a))

def assign (m : Members) (s : Symbol) (v : Value) : Except EvalError Members :=
  match m s with
  | none => .error (ErrorKind.noSuchMember s)
  | some slot =>
    match slot.assign v with
    | .error err => .error (ErrorKind.ofAssign s err)
    | .ok slot => .ok (m.set s slot)

def assignPublic (m : Members) (s : Symbol) (v : Value) : Except EvalError Members :=
  if (m s).any Slot.isPublic then m.assign s v else .error (ErrorKind.noSuchMember s)

def attempt (m : Members) : MemberAct → Except EvalError Members
  | .declare s a => m.declare s a
  | .assign s v => m.assign s v
  | .assignPublic s v => m.assignPublic s v

/-- What is refused changes nothing. -/
def after (m : Members) (act : MemberAct) : Members :=
  match m.attempt act with
  | .ok m' => m'
  | .error _ => m

variable {m m' : Members} {s x : Symbol}

theorem isSome_set (slot : Slot) (h : (m x).isSome) : (m.set s slot x).isSome := by
  unfold set
  split
  · rfl
  · exact h

theorem isSome_assign {v : Value} (hok : m.assign s v = .ok m') (h : (m x).isSome) :
    (m' x).isSome := by
  unfold assign at hok
  split at hok
  · cases hok
  · split at hok
    · cases hok
    · cases hok
      exact isSome_set _ h

/-- What is declared stays declared. -/
theorem isSome_after (act : MemberAct) (h : (m x).isSome) : (m.after act x).isSome := by
  unfold after
  cases hok : m.attempt act with
  | error err => exact h
  | ok m' =>
      cases act with
      | declare s a =>
          have hok : m.declare s a = .ok m' := hok
          unfold declare at hok
          split at hok
          · cases hok
          · cases hok
            exact isSome_set _ h
      | assign s v => exact isSome_assign hok h
      | assignPublic s v =>
          have hok : m.assignPublic s v = .ok m' := hok
          unfold assignPublic at hok
          split at hok
          · exact isSome_assign hok h
          · cases hok

end Members

/-! ## Room in a table -/

namespace MemberTable

variable {t : MemberTable} {n m i : Nat}

theorem doubleUntil_zero (n rounds : Nat) : doubleUntil n rounds 0 = 0 := by
  induction rounds with
  | zero => rfl
  | succ rounds ih =>
      unfold doubleUntil
      split
      · exact ih
      · rfl

theorem le_doubleUntil {rounds target : Nat} (h : n ≤ 2 ^ rounds * target) :
    n ≤ doubleUntil n rounds target := by
  induction rounds generalizing target with
  | zero => simpa [doubleUntil] using h
  | succ rounds ih =>
      unfold doubleUntil
      split
      · refine ih ?_
        rw [Nat.pow_succ, Nat.mul_assoc] at h
        exact h
      · next hlt => exact Nat.not_lt.1 hlt

/-- Once there is room for `m` slots, there is for fewer. -/
theorem capacity_ensureCapacity (h : n ≤ m) :
    ((t.ensureCapacity m).ensureCapacity n).capacity = (t.ensureCapacity m).capacity := by
  by_cases hm : m ≤ t.capacity
  · have hroom : t.ensureCapacity m = t := if_pos hm
    rw [hroom, ensureCapacity, if_pos (Nat.le_trans h hm)]
  · have hgrown : t.ensureCapacity m =
        { t with capacity := doubleUntil m m (max (2 * t.capacity) t.minCapacity) } := if_neg hm
    rw [hgrown]
    by_cases hzero : max (2 * t.capacity) t.minCapacity = 0
    · have hmin : t.minCapacity = 0 := by omega
      rw [hzero, doubleUntil_zero]
      unfold ensureCapacity
      split
      · rfl
      · simp only [hmin, Nat.mul_zero, Nat.max_self, doubleUntil_zero]
    · have hle : m ≤ doubleUntil m m (max (2 * t.capacity) t.minCapacity) := by
        refine le_doubleUntil ?_
        calc m ≤ 2 ^ m := Nat.le_of_lt Nat.lt_two_pow_self
          _ ≤ 2 ^ m * max (2 * t.capacity) t.minCapacity :=
            Nat.le_mul_of_pos_right _ (Nat.pos_of_ne_zero hzero)
      rw [ensureCapacity, if_pos (Nat.le_trans h hle)]

theorem fits_congr (t t' : MemberTable) (hc : t'.capacity = t.capacity)
    (hm : t'.minCapacity = t.minCapacity) (n : Nat) : t'.fits n = t.fits n := by
  simp only [fits, ensureCapacity, hc, hm]
  by_cases hn : n ≤ t.capacity
  · simp only [if_pos hn, hc]
  · simp only [if_neg hn]

/-- There is room for the slots there are. -/
def Firm (t : MemberTable) : Prop := ∀ n ≤ t.size, t.fits n

/-- A row that is made longer has room for what it was made for. -/
theorem fits_materialize (hlt : ¬ i < t.size) (hn : n ≤ i + 1) (hi : t.fits (i + 1) = true) :
    (t.materialize i).fits n = true := by
  have hcap : (t.materialize i).capacity = (t.ensureCapacity (i + 1)).capacity := by
    unfold MemberTable.materialize
    rw [if_neg hlt]
  have hmin : (t.materialize i).minCapacity = (t.ensureCapacity (i + 1)).minCapacity := by
    unfold MemberTable.materialize
    rw [if_neg hlt]
  have hsame := fits_congr (t.ensureCapacity (i + 1)) (t.materialize i) hcap hmin n
  rw [hsame, fits, capacity_ensureCapacity hn]
  exact hi

theorem Firm.materialize (h : t.Firm) (hi : t.fits (i + 1)) : (t.materialize i).Firm := by
  intro n hn
  by_cases hlt : i < t.size
  · rw [materialize_of_lt hlt] at hn ⊢
    exact h n hn
  · rw [size_materialize] at hn
    exact fits_materialize hlt (by omega) hi

theorem size_setSlot (t : MemberTable) (i : Nat) (slot : Slot) : (t.setSlot i slot).size = t.size :=
  Array.size_setIfInBounds

theorem Firm.setSlot (h : t.Firm) (i : Nat) (slot : Slot) : (t.setSlot i slot).Firm := by
  intro n hn
  rw [size_setSlot] at hn
  have hsame : (t.setSlot i slot).fits n = t.fits n := fits_congr t (t.setSlot i slot) rfl rfl n
  rw [hsame]
  exact h n hn

theorem slotAt_materialize (t : MemberTable) (i : Nat) :
    (t.materialize i).slotAt i = t.slotAt i := by
  rw [slotAt, slotAt, get?, get?, getElem?_materialize]
  split
  · rfl
  · next hi =>
      rw [if_pos (Nat.le_refl i), Array.getElem?_eq_none (Nat.not_lt.1 hi)]
      rfl

/-! What is done to a row of slots, once the number of the symbol is known. -/

def declareAt (t : MemberTable) (i : Nat) (s : Symbol) (a : Attributes) :
    Except EvalError Unit × MemberTable :=
  if (t.slotAt i).isConst then (.error (ErrorKind.duplicateDeclaration s), t.materialize i)
  else (.ok (), (t.materialize i).setSlot i (Slot.undeclared.declare a))

def assignAt (t : MemberTable) (i : Nat) (s : Symbol) (v : Value) :
    Except EvalError Unit × MemberTable :=
  match (t.slotAt i).assign v with
  | .error err => (.error (ErrorKind.ofAssign s err), t.materialize i)
  | .ok slot => (.ok (), (t.materialize i).setSlot i slot)

theorem declareAt_done {s : Symbol} {a : Attributes} {r slot : SlotRef}
    (h : Outcome.ofExcept ((t.declareAt i s a).1.map fun _ => r) = .done slot) :
    slot = r ∧ (t.declareAt i s a).2.slots[i]? = some (Slot.undeclared.declare a) := by
  unfold declareAt at h ⊢
  split at h
  · cases h
  · next hconst =>
      cases h
      rw [if_neg hconst, getElem?_setSlot_materialize, if_pos rfl]
      exact ⟨rfl, rfl⟩

/-- The row has a slot at the number now, which may have been written. -/
def Writes (t : MemberTable) (i : Nat) (t' : MemberTable) : Prop :=
  t' = t.materialize i ∨ ∃ slot, t' = (t.materialize i).setSlot i slot

theorem writes_declareAt (t : MemberTable) (i : Nat) (s : Symbol) (a : Attributes) :
    t.Writes i (t.declareAt i s a).2 := by
  unfold declareAt
  split
  · exact .inl rfl
  · exact .inr ⟨_, rfl⟩

theorem writes_assignAt (t : MemberTable) (i : Nat) (s : Symbol) (v : Value) :
    t.Writes i (t.assignAt i s v).2 := by
  unfold assignAt
  split
  · exact .inl rfl
  · exact .inr ⟨_, rfl⟩

theorem Writes.firm {t' : MemberTable} (h : t.Writes i t') (ht : t.Firm) (hi : t.fits (i + 1)) :
    t'.Firm := by
  rcases h with rfl | ⟨slot, rfl⟩
  · exact ht.materialize hi
  · exact (ht.materialize hi).setSlot i slot

theorem Writes.size_le {t' : MemberTable} (h : t.Writes i t') {l : List Symbol} {x : Symbol}
    (hi : l[i]? = some x) (hsize : t.size ≤ l.length) : t'.size ≤ l.length := by
  have hrow := Store.size_materialize_le hi hsize
  rcases h with rfl | ⟨slot, rfl⟩
  · exact hrow
  · rw [size_setSlot]
    exact hrow

end MemberTable

/-! ## The row and the map -/

namespace Slot

theorem isDeclared_assign {slot slot' : Slot} {v : Value} (h : slot.assign v = .ok slot') :
    slot'.isDeclared = slot.isDeclared := by
  unfold assign at h
  split at h
  · cases h
  · split at h
    · split at h
      · cases h
      · cases h
        rfl
    · cases h
      rfl

theorem any_isConst_filter (slot : Slot) :
    ((some slot).filter isDeclared).any isConst = slot.isConst := by
  cases slot with
  | mk attributes value isSealed => cases attributes <;> rfl

theorem any_isPublic_filter (slot : Slot) :
    ((some slot).filter isDeclared).any isPublic = slot.isPublic := by
  cases slot with
  | mk attributes value isSealed => cases attributes <;> rfl

end Slot

namespace Store

variable {st : Store} {shape : ShapeId} {l : List Symbol} {t : MemberTable} {s : Symbol} {i : Nat}
  {m : Members}

/-- The row of slots is the map. -/
def Reads (st : Store) (shape : ShapeId) (t : MemberTable) (m : Members) : Prop :=
  ∀ s, st.own? shape t.slots s = m s

theorem Reads.materialize (h : st.Reads shape t m) (hl : st.Numbers shape l) (i : Nat) :
    st.Reads shape (t.materialize i) m := by
  intro x
  rw [hl.own?_materialize]
  exact h x

theorem Reads.setSlot (h : st.Reads shape t m) (hl : st.Numbers shape l) (hi : l[i]? = some s)
    {slot : Slot} (hdecl : slot.isDeclared = true) :
    st.Reads shape ((t.materialize i).setSlot i slot) (m.set s slot) := by
  intro x
  rw [hl.own?_setSlot hi, Option.filter_some, if_pos hdecl, Members.set, h x]

theorem Reads.slotAt (h : st.Reads shape t m) (hl : st.Numbers shape l) (hi : l[i]? = some s) :
    m s = (some (t.slotAt i)).filter Slot.isDeclared := by
  rw [← h s]
  exact hl.own?_eq_slotAt hi

theorem Reads.declareAt (h : st.Reads shape t m) (hl : st.Numbers shape l) (hi : l[i]? = some s)
    (a : Attributes) :
    (t.declareAt i s a).1 = (m.declare s a).map (fun _ => ()) ∧
      st.Reads shape (t.declareAt i s a).2 (m.after (.declare s a)) := by
  have hconst : (m s).any Slot.isConst = (t.slotAt i).isConst := by
    rw [h.slotAt hl hi, Slot.any_isConst_filter]
  unfold MemberTable.declareAt
  rw [Members.after, Members.attempt, Members.declare, hconst]
  cases (t.slotAt i).isConst with
  | true => exact ⟨rfl, h.materialize hl i⟩
  | false => exact ⟨rfl, h.setSlot hl hi rfl⟩

theorem Reads.assignAt (h : st.Reads shape t m) (hl : st.Numbers shape l) (hi : l[i]? = some s)
    (hs : (m s).isSome) (v : Value) :
    (t.assignAt i s v).1 = (m.assign s v).map (fun _ => ()) ∧
      st.Reads shape (t.assignAt i s v).2 (m.after (.assign s v)) := by
  obtain ⟨slot, hslot⟩ := Option.isSome_iff_exists.1 hs
  obtain ⟨hat, hdecl⟩ := Option.filter_eq_some_iff.1 ((h.slotAt hl hi).symm.trans hslot)
  cases hat
  unfold MemberTable.assignAt
  rw [Members.after, Members.attempt, Members.assign, hslot]
  cases hv : (t.slotAt i).assign v with
  | error err =>
      simp only [hv]
      exact ⟨rfl, h.materialize hl i⟩
  | ok slot' =>
      simp only [hv]
      exact ⟨rfl, h.setSlot hl hi ((Slot.isDeclared_assign hv).trans hdecl)⟩

/-- A slot that is public is declared. -/
theorem Reads.any_isPublic (h : st.Reads shape t m) (hl : st.Numbers shape l)
    (hi : l[i]? = some s) : (m s).any Slot.isPublic = (t.slotAt i).isPublic := by
  rw [h.slotAt hl hi, Slot.any_isPublic_filter]

end Store

end ScriptCore

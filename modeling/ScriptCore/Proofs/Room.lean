import ScriptCore.Proofs.Blocks

/-!
# Room does not depend on the past

A table from the pool may have been used before and then has the capacity it
grew to, and a table that was copied has exactly the capacity it needs. Whether
`n` more slots fit might depend on that. It does not. A table of a frame only
ever doubles from the least capacity of the frame, so the capacity it would grow
to is the same whether it starts from nothing or from where it is: `Graded`. A
copy starts from an odd capacity, and for so many slots as a shape can number
it does not matter either: `Roomed`.
-/

namespace ScriptCore

namespace MemberTable

variable {t : MemberTable} {m n i j rounds target : Nat}

/-! ## Doubling -/

/-- Once the rounds suffice, one more changes nothing. -/
theorem doubleUntil_succ (h : n ≤ 2 ^ rounds * target) :
    doubleUntil n (rounds + 1) target = doubleUntil n rounds target := by
  induction rounds generalizing target with
  | zero =>
      have hle : ¬ target < n := by simpa using h
      exact if_neg hle
  | succ rounds ih =>
      rw [doubleUntil]
      conv_rhs => rw [doubleUntil]
      split
      · exact ih (by rw [Nat.pow_succ, Nat.mul_assoc] at h; exact h)
      · rfl

/-- A capacity on the way is as good a start as the first. -/
theorem doubleUntil_mul_two_pow (hm : 0 < m) (h : ∀ i < j, m * 2 ^ i < n) :
    doubleUntil n n (m * 2 ^ j) = doubleUntil n n m := by
  induction j with
  | zero => rw [Nat.pow_zero, Nat.mul_one]
  | succ j ih =>
      have hpos : 0 < m * 2 ^ j := Nat.mul_pos hm (Nat.two_pow_pos j)
      have hrounds : n ≤ 2 ^ n * (m * 2 ^ j) :=
        Nat.le_trans (Nat.le_of_lt Nat.lt_two_pow_self) (Nat.le_mul_of_pos_right _ hpos)
      have hstep : doubleUntil n (n + 1) (m * 2 ^ j) = doubleUntil n n (m * 2 ^ (j + 1)) := by
        rw [doubleUntil, if_pos (h j (Nat.lt_succ_self j)), Nat.pow_succ]
        congr 1
        ac_rfl
      rw [← hstep, doubleUntil_succ hrounds]
      exact ih fun i hi => h i (Nat.lt_succ_of_lt hi)

theorem doubleUntil_eq_mul_two_pow (n rounds target : Nat) :
    ∃ i, doubleUntil n rounds target = target * 2 ^ i := by
  induction rounds generalizing target with
  | zero => exact ⟨0, by simp [doubleUntil]⟩
  | succ rounds ih =>
      rw [doubleUntil]
      split
      · obtain ⟨i, hi⟩ := ih (2 * target)
        exact ⟨i + 1, by rw [hi, Nat.pow_succ]; ac_rfl⟩
      · exact ⟨0, by simp⟩

/-- Doubling stops at the first capacity that is large enough. -/
theorem doubleUntil_le_of_le (h : n ≤ target * 2 ^ j) :
    doubleUntil n rounds target ≤ target * 2 ^ j := by
  induction rounds generalizing target j with
  | zero => exact Nat.le_mul_of_pos_right _ (Nat.two_pow_pos j)
  | succ rounds ih =>
      rw [doubleUntil]
      split
      · next hlt =>
          obtain ⟨j, rfl⟩ : ∃ i, j = i + 1 := by
            cases j with
            | zero => rw [Nat.pow_zero, Nat.mul_one] at h; omega
            | succ j => exact ⟨j, rfl⟩
          have hsame : target * 2 ^ (j + 1) = 2 * target * 2 ^ j := by
            rw [Nat.pow_succ]; ac_rfl
          rw [hsame] at h ⊢
          exact ih h
      · exact Nat.le_mul_of_pos_right _ (Nat.two_pow_pos j)

/-- It does not overshoot by a factor of two. -/
theorem doubleUntil_le_max (n rounds target : Nat) :
    doubleUntil n rounds target ≤ max target (2 * (n - 1)) := by
  induction rounds generalizing target with
  | zero => exact Nat.le_max_left _ _
  | succ rounds ih =>
      rw [doubleUntil]
      split
      · have := ih (2 * target)
        omega
      · exact Nat.le_max_left _ _

theorem le_doubleUntil_self (n rounds target : Nat) : target ≤ doubleUntil n rounds target := by
  obtain ⟨i, hi⟩ := doubleUntil_eq_mul_two_pow n rounds target
  rw [hi]
  exact Nat.le_mul_of_pos_right _ (Nat.two_pow_pos i)

/-- There is as much room as was asked for. -/
theorem le_capacity_ensureCapacity (hm : 0 < t.minCapacity) (n : Nat) :
    n ≤ (t.ensureCapacity n).capacity := by
  unfold ensureCapacity
  split
  · next h => exact h
  · refine le_doubleUntil ?_
    refine Nat.le_trans (Nat.le_of_lt Nat.lt_two_pow_self) (Nat.le_mul_of_pos_right _ ?_)
    omega

/-- Making room takes none away. -/
theorem capacity_le_ensureCapacity (t : MemberTable) (n : Nat) :
    t.capacity ≤ (t.ensureCapacity n).capacity := by
  unfold ensureCapacity
  split
  · exact Nat.le_refl _
  · refine Nat.le_trans ?_ (le_doubleUntil_self _ _ _)
    omega

theorem size_le_ensureCapacity (h : t.size ≤ t.capacity) (n : Nat) :
    (t.ensureCapacity n).size ≤ (t.ensureCapacity n).capacity := by
  rw [size_ensureCapacity]
  exact Nat.le_trans h (t.capacity_le_ensureCapacity n)

theorem minCapacity_ensureCapacity (t : MemberTable) (n : Nat) :
    (t.ensureCapacity n).minCapacity = t.minCapacity := by
  unfold ensureCapacity
  split <;> rfl

theorem max_two_mul_two_pow (m j : Nat) : max (2 * (m * 2 ^ j)) m = m * 2 ^ (j + 1) := by
  have hle : m ≤ m * 2 ^ j := Nat.le_mul_of_pos_right m (Nat.two_pow_pos j)
  rw [Nat.max_eq_left (by omega), Nat.pow_succ]
  ac_rfl

/-- The capacities that doubling leads to: none, the least one, and so on. -/
def OnScale (m c : Nat) : Prop := c = 0 ∨ ∃ j, c = m * 2 ^ j

theorem onScale_ensureCapacity (h : OnScale t.minCapacity t.capacity) (n : Nat) :
    OnScale t.minCapacity (t.ensureCapacity n).capacity := by
  unfold ensureCapacity
  split
  · exact h
  · obtain ⟨i, hi⟩ := doubleUntil_eq_mul_two_pow n n (max (2 * t.capacity) t.minCapacity)
    rcases h with hzero | ⟨j, hj⟩
    · rw [hzero, Nat.mul_zero, Nat.zero_max] at hi ⊢
      exact .inr ⟨i, hi⟩
    · rw [hj, max_two_mul_two_pow] at hi ⊢
      rw [Nat.mul_assoc, ← Nat.pow_add] at hi
      exact .inr ⟨_, hi⟩

/-- The table has grown by doubling from `m`, and holds no more than it has room for. -/
structure Scaled (m : Nat) (t : MemberTable) : Prop where
  minCapacity : t.minCapacity = m
  size_le : t.size ≤ t.capacity
  scale : OnScale m t.capacity

theorem scaled_empty (m : Nat) : Scaled m { minCapacity := m } :=
  ⟨rfl, Nat.le_refl _, .inl rfl⟩

theorem Scaled.ensureCapacity (h : t.Scaled m) (n : Nat) : (t.ensureCapacity n).Scaled m := by
  obtain ⟨rfl, hsize, hscale⟩ := h
  exact ⟨minCapacity_ensureCapacity t n, size_le_ensureCapacity hsize n,
    onScale_ensureCapacity hscale n⟩

/-- The slots a row is given leave its capacity what it is. -/
theorem Scaled.setSlots (h : t.Scaled m) {slots : Array Slot} (hsize : slots.size ≤ t.capacity) :
    Scaled m { t with slots } :=
  ⟨h.minCapacity, hsize, h.scale⟩

/-! ## Tables of a pool -/

/-- Room for `n` slots in a table that was never used. -/
def roomFor (m n : Nat) : Bool := ({ minCapacity := m } : MemberTable).fits n

/-- The table has grown by doubling from its least capacity, and holds no more
than it has room for. -/
structure Graded (m : Nat) (t : MemberTable) : Prop where
  minCapacity : t.minCapacity = m
  size_le : t.size ≤ t.capacity
  capacity : t.capacity = 0 ∨ ∃ j, t.capacity = m * 2 ^ j
  capacity_le : t.capacity ≤ maxCapacity

theorem Graded.scaled (h : t.Graded m) : t.Scaled m := ⟨h.minCapacity, h.size_le, h.capacity⟩

theorem Scaled.graded (h : t.Scaled m) (hle : t.capacity ≤ maxCapacity) : t.Graded m :=
  ⟨h.minCapacity, h.size_le, h.scale, hle⟩

theorem graded_empty (m : Nat) : Graded m { minCapacity := m } :=
  (scaled_empty m).graded (Nat.zero_le _)

/-- The room in it is that of a table that was never used. -/
theorem Graded.fits (h : t.Graded m) (hm : 0 < m) (n : Nat) : t.fits n = roomFor m n := by
  rcases h.capacity with hzero | ⟨j, hj⟩
  · exact fits_congr { minCapacity := m } t hzero h.minCapacity n
  · by_cases hn : n ≤ t.capacity
    · -- it has the room, so doubling from nothing reaches it
      have hfresh : (ensureCapacity { minCapacity := m } n).capacity ≤ t.capacity := by
        unfold ensureCapacity
        split
        · exact Nat.zero_le _
        · rw [hj] at hn ⊢
          simpa using doubleUntil_le_of_le hn
      have hle := Nat.le_trans hfresh h.capacity_le
      rw [MemberTable.fits, roomFor, MemberTable.fits, ensureCapacity, if_pos hn,
        decide_eq_true h.capacity_le, decide_eq_true hle]
    · have hway : ∀ i < j + 1, m * 2 ^ i < n := by
        intro i hi
        refine Nat.lt_of_le_of_lt ?_ (hj ▸ Nat.not_le.1 hn)
        exact Nat.mul_le_mul_left m (Nat.pow_le_pow_right (by decide) (by omega))
      have hzero : ¬ n ≤ 0 := by omega
      rw [MemberTable.fits, roomFor, MemberTable.fits, ensureCapacity, if_neg hn, ensureCapacity,
        if_neg hzero, h.minCapacity, hj, max_two_mul_two_pow]
      simp only [Nat.mul_zero, Nat.zero_max, doubleUntil_mul_two_pow hm hway]

theorem Graded.ensureCapacity (h : t.Graded m) (hn : t.fits n = true) :
    (t.ensureCapacity n).Graded m :=
  (h.scaled.ensureCapacity n).graded (by simpa [MemberTable.fits] using hn)

theorem Graded.setSlots (h : t.Graded m) {slots : Array Slot} (hsize : slots.size ≤ t.capacity) :
    Graded m { t with slots } :=
  (h.scaled.setSlots hsize).graded h.capacity_le

/-- A row that is made longer for a slot has room for it. -/
theorem size_materialize_le (hm : 0 < t.minCapacity) (hi : ¬ i < t.size) :
    (t.materialize i).slots.size ≤ (t.ensureCapacity (i + 1)).capacity := by
  have hsize : (t.materialize i).slots.size = max t.size (i + 1) := size_materialize t i
  have := le_capacity_ensureCapacity hm (i + 1)
  omega

theorem materialize_of_le (hi : ¬ i < t.size) :
    t.materialize i = { t.ensureCapacity (i + 1) with slots := (t.materialize i).slots } := by
  rw [materialize, if_neg hi]

theorem Graded.writes {t' : MemberTable} (h : t.Graded m) (hm : 0 < m) (hw : t.Writes i t')
    (hi : t.fits (i + 1) = true) : t'.Graded m := by
  have hrow : (t.materialize i).Graded m := by
    by_cases hlt : i < t.size
    · rw [materialize_of_lt hlt]
      exact h
    · rw [materialize_of_le hlt]
      exact (h.ensureCapacity hi).setSlots (size_materialize_le (h.minCapacity ▸ hm) hlt)
  rcases hw with rfl | ⟨slot, rfl⟩
  · exact hrow
  · exact hrow.setSlots (Nat.le_trans (Nat.le_of_eq (size_setSlot _ i slot)) hrow.size_le)

theorem slots_pushAll (t : MemberTable) (vs : List Value) :
    (t.pushAll vs).slots = t.slots ++ (vs.map Slot.ofValue).toArray := by
  have hfold : ∀ (vs : List Value) (slots : Array Slot),
      vs.foldl (fun slots v => slots.push (.ofValue v)) slots =
        slots ++ (vs.map Slot.ofValue).toArray := by
    intro vs
    induction vs with
    | nil => simp
    | cons v vs ih =>
        intro slots
        rw [List.foldl_cons, ih]
        simp
  rw [pushAll, hfold, slots_ensureCapacity]

/-- Arguments for which there is room already. -/
theorem Graded.pushAll (h : t.Graded m) {vs : List Value}
    (hroom : t.size + vs.length ≤ t.capacity) : (t.pushAll vs).Graded m := by
  have hsame : t.ensureCapacity (t.size + vs.length) = t := if_pos hroom
  have hslots := t.slots_pushAll vs
  unfold MemberTable.pushAll at hslots ⊢
  simp only [hsame] at hslots ⊢
  rw [hslots]
  exact h.setSlots (by simpa [size] using hroom)

theorem Graded.reset (h : t.Graded m) : t.reset.Graded m :=
  ⟨h.minCapacity, Nat.zero_le _, h.capacity, h.capacity_le⟩

/-! ## Tables outside a pool -/

/-- As many slots as no shape comes near to. -/
def ample : Nat := 2 ^ 57

/-- The table holds no more than it has room for, and that is not more than can
be addressed; a least capacity beyond that gives it none at all. -/
structure Roomed (m : Nat) (t : MemberTable) : Prop where
  minCapacity : t.minCapacity = m
  size_le : t.size ≤ t.capacity
  capacity_le : t.capacity ≤ maxCapacity
  capacity_eq : maxCapacity < m → t.capacity = 0

theorem Graded.roomed (h : t.Graded m) : t.Roomed m := by
  refine ⟨h.minCapacity, h.size_le, h.capacity_le, fun hm => ?_⟩
  rcases h.capacity with hzero | ⟨j, hj⟩
  · exact hzero
  · have hle : m ≤ m * 2 ^ j := Nat.le_mul_of_pos_right m (Nat.two_pow_pos j)
    have := h.capacity_le
    omega

theorem Roomed.clone (h : t.Roomed m) : t.clone.Roomed m := by
  refine ⟨h.minCapacity, Nat.le_refl _, Nat.le_trans h.size_le h.capacity_le, fun hm => ?_⟩
  have := h.size_le
  have := h.capacity_eq hm
  show t.size = 0
  omega

/-- Few slots fit exactly if the least capacity can be had. -/
theorem Roomed.fits_iff (h : t.Roomed m) (hn : n ≤ ample) :
    t.fits n = true ↔ n = 0 ∨ m ≤ maxCapacity := by
  rw [MemberTable.fits, decide_eq_true_iff]
  unfold MemberTable.ensureCapacity
  split
  · next hle =>
      have hcap := h.capacity_le
      have hnone := h.capacity_eq
      constructor
      · intro _
        by_cases hm : m ≤ maxCapacity
        · exact .inr hm
        · have := hnone (by omega)
          exact .inl (by omega)
      · exact fun _ => hcap
  · next hlt =>
      show doubleUntil n n (max (2 * t.capacity) t.minCapacity) ≤ maxCapacity ↔ _
      rw [h.minCapacity]
      constructor
      · intro hle
        have := le_doubleUntil_self n n (max (2 * t.capacity) m)
        exact .inr (by omega)
      · intro hm
        refine Nat.le_trans (doubleUntil_le_max n n _) ?_
        simp only [ample] at hn
        simp only [maxCapacity] at hm ⊢
        omega

theorem roomed_empty (m : Nat) : Roomed m { minCapacity := m } := (graded_empty m).roomed

/-- A few slots find room as they would in a table that was never used. -/
theorem Roomed.fits (h : t.Roomed m) (hn : n ≤ ample) : t.fits n = roomFor m n := by
  rw [Bool.eq_iff_iff, h.fits_iff hn, roomFor, (roomed_empty m).fits_iff hn]

theorem Roomed.ensureCapacity (h : t.Roomed m) (hn : n ≤ ample) (hfits : t.fits n = true) :
    (t.ensureCapacity n).Roomed m := by
  have hle : (t.ensureCapacity n).capacity ≤ maxCapacity := by
    simpa [MemberTable.fits] using hfits
  refine ⟨(minCapacity_ensureCapacity t n).trans h.minCapacity,
    size_le_ensureCapacity h.size_le n, hle, fun hm => ?_⟩
  rcases (h.fits_iff hn).1 hfits with rfl | hle
  · rw [MemberTable.ensureCapacity, if_pos (Nat.zero_le _)]
    exact h.capacity_eq hm
  · omega

theorem Roomed.writes {t' : MemberTable} (h : t.Roomed m) (hm : 0 < m) (hw : t.Writes i t')
    (hn : i + 1 ≤ ample) (hi : t.fits (i + 1) = true) : t'.Roomed m := by
  have hrow : (t.materialize i).Roomed m := by
    by_cases hlt : i < t.size
    · rw [materialize_of_lt hlt]
      exact h
    · have hroom := h.ensureCapacity hn hi
      rw [materialize_of_le hlt]
      exact ⟨hroom.minCapacity, size_materialize_le (h.minCapacity ▸ hm) hlt, hroom.capacity_le,
        hroom.capacity_eq⟩
  rcases hw with rfl | ⟨slot, rfl⟩
  · exact hrow
  · exact ⟨hrow.minCapacity, Nat.le_trans (Nat.le_of_eq (size_setSlot _ i slot)) hrow.size_le,
      hrow.capacity_le, hrow.capacity_eq⟩

end MemberTable

/-! ## Work on one row -/

namespace Pool

variable {α : Type} {p : Pool α} {k : PoolKey} {P : α → Prop} {a : α}

theorem modify_congr {f g : α → α} (ha : p.get? k = some a) (h : f a = g a) :
    p.modify k f = p.modify k g := by
  obtain ⟨x, hx, rfl⟩ := get?_eq_some.1 ha
  have hentries : (p.entries.modify k.index fun e => { e with item := f e.item }) =
      p.entries.modify k.index fun e => { e with item := g e.item } := by
    refine Array.ext_getElem? fun i => ?_
    rw [Array.getElem?_modify, Array.getElem?_modify]
    split
    · next hi =>
        subst hi
        rw [(entry?_eq_some.1 hx).1]
        simp only [Option.map_some, h]
    · rfl
  simp only [modify, hentries]

/-- What every entry holds, handed out or not. -/
def All (P : α → Prop) (p : Pool α) : Prop := ∀ (i : Nat) x, p.entries[i]? = some x → P x.item

theorem All.get (h : p.All P) (ha : p.get? k = some a) : P a := by
  obtain ⟨x, hx, rfl⟩ := get?_eq_some.1 ha
  exact h _ x (entry?_eq_some.1 hx).1

theorem All.of_modify (h : p.All P) {q : Pool α} {i : Nat} {g : PoolEntry α → PoolEntry α}
    (hq : q.entries = p.entries.modify i g)
    (hg : ∀ x, p.entries[i]? = some x → P (g x).item) : q.All P := by
  intro j x hx
  rw [hq, Array.getElem?_modify] at hx
  split at hx
  · next hij =>
      subst hij
      obtain ⟨x₀, hx₀, rfl⟩ := Option.map_eq_some_iff.1 hx
      exact hg x₀ hx₀
  · exact h j x hx

theorem All.modify (h : p.All P) {f : α → α} (hf : ∀ a, p.get? k = some a → P (f a)) :
    (p.modify k f).All P := by
  unfold Pool.modify
  split
  · next hk =>
      obtain ⟨y, hy⟩ := Option.isSome_iff_exists.1 hk
      refine h.of_modify (g := fun e => { e with item := f e.item }) rfl fun x hx => ?_
      rw [(entry?_eq_some.1 hy).1] at hx
      cases hx
      exact hf _ (get?_eq_some.2 ⟨y, hy, rfl⟩)
  · exact h

theorem All.release (h : p.All P) (k : PoolKey) {clear : α → α} (hclear : ∀ a, P a → P (clear a)) :
    (p.release k clear).2.All P := by
  unfold Pool.release
  split
  · exact h
  · exact h.of_modify (g := fun e => ⟨e.generation + 1, false, none, clear e.item⟩) rfl
      fun x hx => hclear _ (h _ x hx)

theorem All.detach (h : p.All P) (k : PoolKey) : (p.detach k).All P := by
  unfold Pool.detach
  split
  · exact h.of_modify (g := fun e => { e with depth := none }) rfl fun x hx => h _ x hx
  · exact h

theorem All.acquire (h : p.All P) (d : Option Nat) (ha : P a) : (p.acquire d a).2.All P := by
  unfold Pool.acquire
  split
  · exact h.of_modify (g := fun e => { e with isLive := true, depth := d }) rfl
      fun x hx => h _ x hx
  · intro i x hx
    simp only [Array.getElem?_push] at hx
    split at hx
    · cases hx
      exact ha
    · exact h i x hx

end Pool

namespace Engine

variable {e : Engine} {k : PoolKey} {own : PooledScope} {t : MemberTable}

/-- A change of a table that is there may start from its row. -/
theorem modifyTable_eq (ht : e.frame.tables.get? k = some t) (c : MemberTable → MemberTable) :
    e.frame.modifyTable k c = e.frame.modifyTable k fun _ => c t := by
  rw [Frame.modifyTable, Pool.modify_congr ht (g := fun _ => c t) rfl]
  rfl

/-- Declaring in a scope of the frame is declaring in the row of its table. -/
theorem declare_pooled (hown : e.frame.scope? k = some own)
    (ht : e.frame.tables.get? own.members = some t) (s : Symbol) (a : Attributes) :
    e.declare (.pooled k) s a =
      match e.store.createSlot own.shape s with
      | (.error _, st) => (.panicked, { e with store := st })
      | (.ok i, st) =>
        if t.fits (i + 1) then
          (.ofExcept ((t.declareAt i s a).1.map fun _ => .pooled own.members i s),
            ⟨st, e.frame.modifyTable own.members fun _ => (t.declareAt i s a).2⟩)
        else (.panicked, { e with store := st }) := by
  simp only [declare, getScope_of_scope? hown]
  rcases hc : e.store.createSlot own.shape s with ⟨fault | i, st⟩
  · rfl
  · simp only [Frame.getTable_of_get? ht]
    cases hfits : t.fits (i + 1) with
    | false => rfl
    | true =>
        rw [MemberTable.declareAt]
        cases (t.slotAt i).isConst with
        | true => exact congrArg (fun f => (_, (⟨st, f⟩ : Engine))) (modifyTable_eq ht _)
        | false => exact congrArg (fun f => (_, (⟨st, f⟩ : Engine))) (modifyTable_eq ht _)

/-- Assigning a slot of a table is assigning it in the row. -/
theorem assign_pooled (ht : e.frame.tables.get? k = some t) (i : Nat) (s : Symbol) (v : Value) :
    e.assign (.pooled k i s) v =
      if t.fits (i + 1) then
        (.ofExcept (t.assignAt i s v).1,
          { e with frame := e.frame.modifyTable k fun _ => (t.assignAt i s v).2 })
      else (.panicked, e) := by
  simp only [assign, Frame.getTable_of_get? ht]
  cases hfits : t.fits (i + 1) with
  | false => rfl
  | true =>
      rw [MemberTable.assignAt]
      cases (t.slotAt i).assign v with
      | error err => exact congrArg (fun f => (_, (⟨e.store, f⟩ : Engine))) (modifyTable_eq ht _)
      | ok slot => exact congrArg (fun f => (_, (⟨e.store, f⟩ : Engine))) (modifyTable_eq ht _)

end Engine

namespace Store

variable {st : Store} {id : HeapId} {h : HeapScope}

/-- Declaring in a heap scope is declaring in its row. -/
theorem declare_heap (hh : st.heaps[id]? = some h) (s : Symbol) (a : Attributes) :
    st.declare (.ofHeap id) s a =
      match st.createSlot h.shape s with
      | (.error _, st) => (.panicked, st)
      | (.ok i, st) =>
        if h.members.fits (i + 1) then
          (.ofExcept ((h.members.declareAt i s a).1.map fun _ => .heap id i s),
            st.setHeap id { h with members := (h.members.declareAt i s a).2 })
        else (.panicked, st) := by
  simp only [declare, DurableScope.ofHeap, hh]
  rcases hc : st.createSlot h.shape s with ⟨fault | i, st'⟩
  · rfl
  · simp only [MemberTable.slotAt_materialize]
    cases hfits : h.members.fits (i + 1) with
    | false => rfl
    | true =>
        rw [MemberTable.declareAt]
        cases (h.members.slotAt i).isConst <;> rfl

/-- Assigning a slot of a heap scope is assigning it in the row. -/
theorem assign_heap (hh : st.heaps[id]? = some h) (i : Nat) (s : Symbol) (v : Value) :
    st.assign (.heap id i s) v =
      if h.members.fits (i + 1) then
        (.ofExcept (h.members.assignAt i s v).1,
          st.setHeap id { h with members := (h.members.assignAt i s v).2 })
      else (.panicked, st) := by
  simp only [assign, assignHeap, hh, MemberTable.slotAt_materialize]
  cases hfits : h.members.fits (i + 1) with
  | false => rfl
  | true =>
      rw [MemberTable.assignAt]
      cases (h.members.slotAt i).assign v <;> rfl

end Store

/-! ## Frames -/

namespace FrameConfig

/-- The least capacity of the tables of a frame. -/
def leastCapacity (c : FrameConfig) : Nat := max c.minTableCapacity 1

theorem leastCapacity_pos (c : FrameConfig) : 0 < c.leastCapacity := by
  unfold leastCapacity
  omega

end FrameConfig

namespace Frame

variable {f : Frame} {k t : PoolKey} {table : MemberTable} {n : Nat}

/-- All tables of the pool have grown from the least capacity of the frame. -/
def Graded (f : Frame) : Prop := f.tables.All (MemberTable.Graded f.config.leastCapacity)

theorem Graded.fits (h : f.Graded) (ht : f.tables.get? t = some table) (n : Nat) :
    table.fits n = MemberTable.roomFor f.config.leastCapacity n :=
  (Pool.All.get h ht).fits f.config.leastCapacity_pos n

theorem Graded.modifyTable (h : f.Graded) {c : MemberTable → MemberTable}
    (hc : ∀ table, f.tables.get? t = some table → (c table).Graded f.config.leastCapacity) :
    (f.modifyTable t c).Graded :=
  Pool.All.modify h hc

theorem Graded.writes (h : f.Graded) (ht : f.tables.get? t = some table) {i : Nat}
    {table' : MemberTable} (hw : table.Writes i table') (hi : table.fits (i + 1) = true) :
    (f.modifyTable t fun _ => table').Graded :=
  h.modifyTable fun _ _ => (Pool.All.get h ht).writes f.config.leastCapacity_pos hw hi

theorem Graded.releaseTable (h : f.Graded) (t : PoolKey) : (f.releaseTable t).2.Graded :=
  Pool.All.release h t fun _ ha => ha.reset

theorem Graded.addTable (h : f.Graded) (v : Option Nat) : (f.addTable v).Graded :=
  Pool.All.acquire h v (MemberTable.graded_empty _)

theorem Graded.acquireTable (h : f.Graded) (v : Option Nat) (n : Nat) :
    (f.acquireTable v n).2.Graded := by
  rw [acquireTable_eq]
  split
  · next hfits =>
      refine (h.addTable v).modifyTable fun table ht => ?_
      rw [ht] at hfits
      exact (Pool.All.get (h.addTable v) ht).ensureCapacity hfits
  · exact h.addTable v

theorem Graded.allocateTable (h : f.Graded) (n : Nat) : (f.allocateTable n).2.Graded := by
  have hacq := h.acquireTable (some f.depth) n
  unfold Frame.allocateTable
  split
  · next g he =>
      rw [he] at hacq
      exact hacq
  · next k g he =>
      rw [he] at hacq
      exact hacq

theorem Graded.detachTable (h : f.Graded) (t : PoolKey) : (f.detachTable t).Graded := by
  unfold Frame.detachTable
  split
  · exact Pool.All.detach h t
  · exact h

theorem Graded.takeTable (h : f.Graded) (t : PoolKey) : (f.takeTable t).2.Graded := by
  unfold Frame.takeTable
  split
  · exact h
  · exact (h.detachTable t).releaseTable t

theorem Graded.installScope (h : f.Graded) (kind : ScopeKind) (previous : ScopeRef)
    (shape : ShapeId) (members : PoolKey) :
    (f.installScope kind previous shape members).2.Graded := by
  rw [installScope_eq]
  exact h

theorem Graded.allocateBlock (h : f.Graded) (previous : ScopeRef) (shape : ShapeId) (n : Nat) :
    (f.allocateBlock previous shape n).2.Graded := by
  have hacq := h.acquireTable none n
  rcases f.allocateBlock_cases previous shape n with hno | ⟨-, hdone⟩
  · rw [hno]
    exact hacq
  · rw [hdone]
    exact hacq.installScope _ _ _ _

theorem Graded.allocateFunction (h : f.Graded) (binding : FunctionBinding) (previous : ScopeRef)
    (shape : ShapeId) (n : Nat) (t : PoolKey) :
    (f.allocateFunction binding previous shape n t).2.Graded := by
  unfold Frame.allocateFunction Frame.getTable
  cases ht : f.tables.get? t with
  | none => exact h
  | some table =>
      simp only
      split
      · next hfits =>
          refine ((h.modifyTable fun table' ht' => ?_).detachTable t).installScope _ _ _ _
          rw [ht] at ht'
          cases ht'
          exact (Pool.All.get h ht).ensureCapacity hfits
      · exact h

theorem Graded.release (h : f.Graded) (a : Allocation) : (f.release a).Graded := by
  cases a with
  | table t => exact h.releaseTable t
  | scope k =>
      show (f.releaseScope k).2.Graded
      rw [releaseScope_snd]
      cases f.scope? k with
      | none => exact h
      | some s => exact Pool.All.release h s.members fun _ ha => ha.reset

theorem Graded.freeScope (h : f.Graded) (r : ScopeRef) : (f.freeScope r).2.Graded := by
  cases r with
  | durable d => exact h
  | pooled k =>
      unfold Frame.freeScope
      simp only
      split
      · next d _ =>
          have hw : (f.withdraw d (.scope k)).Graded := h
          exact hw.release (.scope k)
      · exact h.release (.scope k)

theorem Graded.endDepth (h : f.Graded) (d : Nat) : (f.endDepth d).Graded := by
  have hfold : ∀ (l : List Allocation) (g : Frame), g.Graded →
      (l.foldl Frame.release g).Graded := by
    intro l
    induction l with
    | nil => exact fun _ hg => hg
    | cons a l ih => exact fun g hg => ih _ (hg.release a)
  exact hfold _ (f.modifyEntry d fun e => { e with allocations := [] }) h

end Frame

namespace Op

/-- No operation makes a table grow in any other way. What somebody does to a
table they hold is up to them. -/
theorem graded_perform {e : Engine} (h : e.frame.Graded) (o : Op)
    (hedit : ∀ t c, o = .editTable t c → ∀ table, e.frame.tables.get? t = some table →
      (c table).Graded e.frame.config.leastCapacity) : (o.perform e).frame.Graded := by
  cases o with
  | allocateBlock previous shape => exact h.allocateBlock _ _ _
  | allocateTable n => exact h.allocateTable _
  | allocateFunction binding previous shape t => exact h.allocateFunction _ _ _ _ _
  | freeTable t => exact (h.detachTable t.key).releaseTable t.key
  | takeTable t => exact h.takeTable t.key
  | freeScope r => exact h.freeScope r
  | editTable t c => exact h.modifyTable (hedit t c rfl)
  | declare r s a =>
      show (e.declare r s a).2.frame.Graded
      cases r with
      | durable d => exact h
      | pooled k =>
          cases hown : e.frame.scope? k with
          | none =>
              simp only [Engine.declare, Frame.getScope, hown]
              exact h
          | some own =>
              cases ht : e.frame.tables.get? own.members with
              | none =>
                  simp only [Engine.declare, Frame.getScope, hown, Frame.getTable, ht]
                  split <;> exact h
              | some table =>
                  rw [Engine.declare_pooled hown ht]
                  split
                  · exact h
                  · next i st _ =>
                      split
                      · next hfits => exact h.writes ht (table.writes_declareAt i s a) hfits
                      · exact h
  | assign slot v =>
      show (e.assign slot v).2.frame.Graded
      cases slot with
      | pooled k i s =>
          cases ht : e.frame.tables.get? k with
          | none =>
              simp only [Engine.assign, Frame.getTable, ht]
              exact h
          | some table =>
              rw [Engine.assign_pooled ht]
              split
              · next hfits => exact h.writes ht (table.writes_assignAt i s v) hfits
              · exact h
      | _ => exact h
  | mixin r source =>
      show (e.mixin r source).2.frame.Graded
      rcases e.mixin_frame r source with hd | ⟨k, c, -, -, hd⟩
      · exact hd ▸ h
      · rw [hd]
        exact h
  | setLine r line =>
      show (e.setLine r line).2.frame.Graded
      rcases e.setLine_frame r line with hd | ⟨c, -, hd⟩
      · exact hd ▸ h
      · rw [hd]
        exact h
  | reset => exact h.endDepth 0
  | enter node r => exact h
  | leave => exact h.endDepth e.frame.depth
  | share st => exact h

end Op

end ScriptCore

import ScriptCore.Proofs.Numbering

/-!
# The members a scope declares itself

The slots of a scope are a row of its own, and the shape it shares says which
symbol each of them is for. Whether a symbol is declared in the scope is thus
answered by both, and the shape may have changed since the slots were written.
It does not show: a row that was within the list of the shape has no slot for
what the list was extended by.

The other half is what writing to the row does. A slot is written at the number
of its symbol, behind slots that nobody has declared if the row was too short
for it, and only the answer for that symbol changes.
-/

namespace ScriptCore

namespace Store

variable {st st' : Store} {id : ShapeId} {l l' : List Symbol} {slots : Array Slot} {x y : Symbol}
  {i : Nat} {slot : Slot}

/-- What a scope with these slots has declared a symbol to be. -/
def own? (st : Store) (shape : ShapeId) (slots : Array Slot) (s : Symbol) : Option Slot :=
  (st.ownIndex? shape slots s).bind (slots[·]?)

theorem Numbers.ownIndex?_eq_some_iff (h : st.Numbers id l) :
    st.ownIndex? id slots x = some i ↔
      l[i]? = some x ∧ ∃ slot, slots[i]? = some slot ∧ slot.isDeclared := by
  rw [ownIndex?, Option.filter_eq_some_iff, h.slotOf?_eq_some_iff, Option.any_eq_true]

theorem Numbers.own?_eq_some_iff (h : st.Numbers id l) :
    st.own? id slots x = some slot ↔
      ∃ i : Nat, l[i]? = some x ∧ slots[i]? = some slot ∧ slot.isDeclared := by
  rw [own?, Option.bind_eq_some_iff]
  constructor
  · rintro ⟨i, hi, hget⟩
    obtain ⟨hl, slot', hget', hdecl⟩ := h.ownIndex?_eq_some_iff.1 hi
    rw [hget] at hget'
    cases hget'
    exact ⟨i, hl, hget, hdecl⟩
  · rintro ⟨i, hl, hget, hdecl⟩
    exact ⟨i, h.ownIndex?_eq_some_iff.2 ⟨hl, slot, hget, hdecl⟩, hget⟩

/-- A symbol has one number. -/
theorem Numbers.index_eq (h : st.Numbers id l) {j : Nat} (hi : l[i]? = some x)
    (hj : l[j]? = some x) : i = j := by
  rw [← h.slotOf?_eq_some_iff] at hi hj
  exact Option.some.inj (hi.symm.trans hj)

/-! ## Later shapes -/

theorem getElem?_later (hpre : l <+: l') (hi : i < l.length) : l'[i]? = l[i]? := by
  rw [List.prefix_iff_getElem?.1 hpre i hi, List.getElem?_eq_getElem hi]

/-- What the list is extended by has no slot among those there were. -/
theorem Numbers.ownIndex?_later (h : st.Numbers id l) (h' : st'.Numbers id l') (hpre : l <+: l')
    (hsize : slots.size ≤ l.length) : st'.ownIndex? id slots x = st.ownIndex? id slots x := by
  ext i
  rw [h'.ownIndex?_eq_some_iff, h.ownIndex?_eq_some_iff]
  by_cases hi : i < slots.size
  · rw [getElem?_later hpre (Nat.lt_of_lt_of_le hi hsize)]
  · rw [Array.getElem?_eq_none (Nat.not_lt.1 hi)]
    simp

theorem Numbers.own?_later (h : st.Numbers id l) (h' : st'.Numbers id l') (hpre : l <+: l')
    (hsize : slots.size ≤ l.length) : st'.own? id slots x = st.own? id slots x := by
  rw [own?, own?, h.ownIndex?_later h' hpre hsize]

/-! ## Writing -/

end Store

namespace MemberTable

variable {t : MemberTable} {i j : Nat}

@[simp] theorem slots_ensureCapacity (t : MemberTable) (n : Nat) :
    (t.ensureCapacity n).slots = t.slots := by
  unfold ensureCapacity
  split <;> rfl

theorem size_ensureCapacity (t : MemberTable) (n : Nat) : (t.ensureCapacity n).size = t.size := by
  rw [size, size, slots_ensureCapacity]

theorem materialize_of_lt (h : i < t.size) : t.materialize i = t := if_pos h

theorem slots_materialize (t : MemberTable) (i : Nat) :
    (t.materialize i).slots = t.slots ++ Array.replicate (i + 1 - t.size) Slot.undeclared := by
  rw [materialize]
  split
  · next hi => rw [Nat.sub_eq_zero_of_le hi, Array.replicate_zero, Array.append_empty]
  · simp only [slots_ensureCapacity, size_ensureCapacity]

theorem getElem?_materialize (t : MemberTable) (i j : Nat) :
    (t.materialize i).slots[j]? =
      if j < t.size then t.slots[j]? else if j ≤ i then some .undeclared else none := by
  rw [slots_materialize, Array.getElem?_append, Array.getElem?_replicate]
  by_cases hj : j < t.size
  · rw [if_pos hj]
    exact if_pos hj
  · rw [if_neg hj]
    refine (if_neg hj).trans ?_
    have hback : j - t.slots.size < i + 1 - t.size ↔ j ≤ i := by
      rw [size] at hj ⊢
      omega
    simp only [hback]

theorem size_materialize (t : MemberTable) (i : Nat) :
    (t.materialize i).size = max t.size (i + 1) := by
  rw [size, slots_materialize, Array.size_append, Array.size_replicate, size]
  omega

/-- The slots that are added are not declared. -/
theorem isDeclared_materialize {slot : Slot} :
    (t.materialize i).slots[j]? = some slot ∧ slot.isDeclared ↔
      t.slots[j]? = some slot ∧ slot.isDeclared := by
  rw [getElem?_materialize]
  by_cases hj : j < t.size
  · rw [if_pos hj]
  · rw [if_neg hj, Array.getElem?_eq_none (Nat.not_lt.1 hj)]
    split
    · constructor
      · rintro ⟨hslot, hdecl⟩
        cases hslot
        cases hdecl
      · rintro ⟨hslot, -⟩
        cases hslot
    · rfl

theorem getElem?_setSlot_materialize (t : MemberTable) (i j : Nat) (slot : Slot) :
    ((t.materialize i).setSlot i slot).slots[j]? =
      if i = j then some slot else (t.materialize i).slots[j]? := by
  have hlt : i < (t.materialize i).slots.size := by
    have := t.size_materialize i
    rw [size] at this
    omega
  rw [setSlot, Array.getElem?_setIfInBounds, if_pos hlt]

end MemberTable

namespace Store

variable {st : Store} {id : ShapeId} {l : List Symbol} {t : MemberTable} {x y : Symbol} {i : Nat}

theorem Numbers.own?_materialize (h : st.Numbers id l) (i : Nat) :
    st.own? id (t.materialize i).slots y = st.own? id t.slots y := by
  ext slot
  simp only [h.own?_eq_some_iff, MemberTable.isDeclared_materialize]

/-- The slot at the number of a symbol is the member, if there is one. -/
theorem Numbers.own?_eq_slotAt (h : st.Numbers id l) (hi : l[i]? = some x) :
    st.own? id t.slots x = (some (t.slotAt i)).filter Slot.isDeclared := by
  ext slot
  rw [h.own?_eq_some_iff, Option.filter_eq_some_iff, MemberTable.slotAt, MemberTable.get?]
  constructor
  · rintro ⟨j, hj, hget, hdecl⟩
    cases h.index_eq hi hj
    rw [hget]
    exact ⟨rfl, hdecl⟩
  · rintro ⟨hslot, hdecl⟩
    refine ⟨i, hi, ?_, hdecl⟩
    cases hget : t.slots[i]? with
    | none =>
        rw [hget] at hslot
        cases hslot
        cases hdecl
    | some slot' =>
        rw [hget] at hslot
        exact hslot

/-- Writing at the number of a symbol changes the member of this name only. -/
theorem Numbers.own?_setSlot (h : st.Numbers id l) (hi : l[i]? = some x) (slot : Slot) :
    st.own? id ((t.materialize i).setSlot i slot).slots y =
      if y = x then (some slot).filter Slot.isDeclared else st.own? id t.slots y := by
  by_cases hy : y = x
  · subst hy
    rw [if_pos rfl, h.own?_eq_slotAt hi, MemberTable.slotAt, MemberTable.get?,
      MemberTable.getElem?_setSlot_materialize, if_pos rfl]
    rfl
  · rw [if_neg hy, ← h.own?_materialize (t := t) i]
    ext slot'
    rw [h.own?_eq_some_iff, h.own?_eq_some_iff]
    refine exists_congr fun j => and_congr_right fun hj => ?_
    have hij : i ≠ j := by
      rintro rfl
      rw [hi] at hj
      exact hy (Option.some.inj hj).symm
    rw [MemberTable.getElem?_setSlot_materialize, if_neg hij]

theorem size_materialize_le (hi : l[i]? = some x) (hsize : t.size ≤ l.length) :
    (t.materialize i).size ≤ l.length := by
  have := (List.getElem?_eq_some_iff.1 hi).1
  rw [MemberTable.size_materialize]
  omega

/-! ## The listing -/

variable {st' : Store} {l' : List Symbol} {slots : Array Slot}

/-- The symbol is listed at its number. -/
def Shows (slots : Array Slot) (p : Bool) (i : Nat) : Bool :=
  slots[i]?.any fun slot => slot.isDeclared && (p || slot.isPublic)

/-- The symbols of a list that are declared at their positions. -/
def shown (slots : Array Slot) (p : Bool) (l : List Symbol) : List Symbol :=
  l.zipIdx.filterMap fun n => if Shows slots p n.2 then some n.1 else none

theorem shown_later {p : Bool} (hpre : l <+: l') (hsize : slots.size ≤ l.length) :
    shown slots p l' = shown slots p l := by
  obtain ⟨more, rfl⟩ := hpre
  have hmore : (more.zipIdx (0 + l.length)).filterMap
      (fun n => if Shows slots p n.2 then some n.1 else none) = [] := by
    refine List.filterMap_eq_nil_iff.2 fun n hn => ?_
    have hle : l.length ≤ n.2 := by
      have := List.le_snd_of_mem_zipIdx hn
      omega
    have hnone : slots[n.2]? = none := Array.getElem?_eq_none (Nat.le_trans hsize hle)
    rw [Shows, hnone]
    rfl
  rw [shown, List.zipIdx_append, List.filterMap_append, hmore, List.append_nil]
  rfl

theorem pairwise_mergeSort_key {α : Type} (key : α → Nat) (as : List α) :
    (as.mergeSort fun a b => key a ≤ key b).Pairwise fun a b => key a ≤ key b := by
  refine (List.pairwise_mergeSort ?_ ?_ as).imp fun hab => of_decide_eq_true hab
  · intro a b c
    simp only [decide_eq_true_eq]
    exact Nat.le_trans
  · intro a b
    simp only [Bool.or_eq_true, decide_eq_true_eq]
    exact Nat.le_total _ _

/-- Sorting by numbers that differ leaves no choice. -/
theorem mergeSort_eq_of_perm {α : Type} {as bs : List α} (key : α → Nat) (hperm : as.Perm bs)
    (hbs : bs.Pairwise fun a b => key a < key b) :
    as.mergeSort (fun a b => key a ≤ key b) = bs := by
  have hnodup : (bs.map key).Nodup := List.pairwise_map.2 (hbs.imp Nat.ne_of_lt)
  have hall : (as.mergeSort fun a b => key a ≤ key b).Perm bs :=
    (List.mergeSort_perm _ _).trans hperm
  refine List.Perm.eq_of_pairwise (fun a b ha hb hab hba => ?_) (pairwise_mergeSort_key key as)
    (hbs.imp Nat.le_of_lt) hall
  exact List.inj_on_of_nodup_map hnodup (hall.mem_iff.1 ha) hb (Nat.le_antisymm hab hba)

theorem pairwise_zipIdx (l : List Symbol) : l.zipIdx.Pairwise fun a b => a.2 < b.2 := by
  have hrange : (l.zipIdx.map Prod.snd).Pairwise (· < ·) := by
    rw [List.zipIdx_map_snd]
    exact List.pairwise_lt_range'
  exact List.pairwise_map.1 hrange

/-- Whatever the order of the buckets, symbols are listed in the order of their
numbers. -/
theorem Numbers.declaredSymbols (h : st.Numbers id l) (p : Bool) :
    st.declaredSymbols id slots p = shown slots p l := by
  unfold Store.declaredSymbols
  rcases h with ⟨sh, hsh, hl⟩ | ⟨hnone, rfl⟩
  swap
  · rw [hnone]
    rfl
  rw [hsh]
  simp only
  -- the pairs that are sorted, in the order in which they will be
  let pairs := l.zipIdx.filterMap fun n => if Shows slots p n.2 then some (n.2, n.1) else none
  have hsyms : sh.symbols.Perm l := hl.lists.symbols_perm
  have hfound : (sh.symbols.filterMap fun s => (sh.get? s).bind fun i =>
      (slots[i]?.filter fun slot => slot.isDeclared && (p || slot.isPublic)).map
        fun _ => (i, s)).Perm pairs := by
    refine (hsyms.filterMap _).trans (List.Perm.of_eq ?_)
    conv_lhs => rw [← List.zipIdx_map_fst 0 l, List.filterMap_map]
    refine List.filterMap_congr fun n hn => ?_
    have hget : sh.get? n.1 = some n.2 :=
      hl.lists.get?_eq_some_iff.2 (List.mem_zipIdx_iff_getElem?.1 hn)
    have hcond : ∀ (o : Option Slot) (q : Slot → Bool),
        ((o.filter q).map fun _ => (n.2, n.1)) = if o.any q then some (n.2, n.1) else none := by
      intro o q
      cases o with
      | none => rfl
      | some slot =>
          rw [Option.any_some, Option.filter_some]
          split <;> rfl
    simp only [Function.comp, hget, Option.bind_some, Shows]
    exact hcond _ _
  have hpairs : pairs.Pairwise fun a b => a.1 < b.1 := by
    refine List.pairwise_filterMap.2 ((pairwise_zipIdx l).imp fun {n n'} hlt b hb b' hb' => ?_)
    split at hb
    · split at hb'
      · cases hb
        cases hb'
        exact hlt
      · cases hb'
    · cases hb
  rw [mergeSort_eq_of_perm Prod.fst hfound hpairs, List.map_filterMap]
  refine List.filterMap_congr fun n _ => ?_
  split <;> rfl

end Store

end ScriptCore

import ScriptCore.Proofs.Constants
import ScriptCore.Proofs.Room
import ScriptCore.Proofs.Storage

/-!
# One write at a time

Declaring a member and assigning one end in one of two ways. Either one storage
is written, and every other has what it had: `Wrote`. Or the operation is
refused, and then nothing is written at all.

Both make room before they know how they will end. A row is made as long as the
number asks for, and a declaration asks the shape for a number before it looks
at the slot. The row is no matter: a slot that was found is in it, and so is a
constant that is in the way. The shape is no matter either if it has a number
for the symbol already. It has none where a row is longer than the list of its
shape, and has a constant just where the next symbol will be put.
-/

namespace ScriptCore

/-! ## Parts that are written back -/

theorem Array.map_setIfInBounds_of_eq {α β : Type} {xs : Array α} {i : Nat} {x y : α}
    (f : α → β) (hx : xs[i]? = some x) (hf : f y = f x) :
    (xs.setIfInBounds i y).map f = xs.map f := by
  have hsame : (xs.map f)[i]? = some (f x) := by rw [Array.getElem?_map, hx, Option.map_some]
  rw [Array.map_setIfInBounds, hf, setIfInBounds_self hsame]

theorem Pool.modify_self {α : Type} {p : Pool α} {k : PoolKey} {a : α} (h : p.get? k = some a) :
    (p.modify k fun _ => a) = p := by
  obtain ⟨x, hx, rfl⟩ := get?_eq_some.1 h
  have hentry := (entry?_eq_some.1 hx).1
  have hentries : (p.entries.modify k.index fun e => { e with item := x.item }) = p.entries := by
    refine Array.ext_getElem? fun i => ?_
    rw [Array.getElem?_modify]
    split
    · next hi =>
        subst hi
        rw [hentry, Option.map_some]
    · rfl
  rw [modify, hx, Option.isSome_some, if_pos rfl, hentries]

/-! ## A row -/

namespace MemberTable

variable {t : MemberTable} {i j : Nat}

/-- The slots a row is extended by read as those that were not there. -/
theorem slotAt_of_materialize (t : MemberTable) (i j : Nat) :
    (t.materialize i).slotAt j = t.slotAt j := by
  rw [slotAt, slotAt, get?, get?, getElem?_materialize]
  split
  · rfl
  · next hj =>
      rw [Array.getElem?_eq_none (Nat.not_lt.1 hj)]
      split <;> rfl

theorem slotAt_setSlot_materialize (t : MemberTable) (i j : Nat) (slot : Slot) :
    ((t.materialize i).setSlot i slot).slotAt j = if j = i then slot else t.slotAt j := by
  rw [slotAt, get?, getElem?_setSlot_materialize]
  split
  · next hij => rw [if_pos hij.symm, Option.getD_some]
  · next hij =>
      rw [if_neg fun hji => hij hji.symm]
      exact t.slotAt_of_materialize i j

/-- A constant is in the row. -/
theorem lt_size_of_isConst (h : (t.slotAt i).isConst = true) : i < t.size := by
  by_contra hle
  rw [slotAt_of_none (Array.getElem?_eq_none (Nat.not_lt.1 hle))] at h
  cases h

/-- Declaring a constant again leaves the row as it is. -/
theorem declareAt_of_isConst (h : (t.slotAt i).isConst = true) (s : Symbol) (a : Attributes) :
    t.declareAt i s a = (.error (ErrorKind.duplicateDeclaration s), t) := by
  rw [declareAt, if_pos h, materialize_of_lt (lt_size_of_isConst h)]

theorem assignAt_ok {s : Symbol} {v : Value} (h : (t.assignAt i s v).1 = .ok ()) :
    ∃ slot, (t.slotAt i).assign v = .ok slot ∧
      (t.assignAt i s v).2 = (t.materialize i).setSlot i slot := by
  rw [assignAt] at h ⊢
  cases hv : (t.slotAt i).assign v with
  | error err =>
      rw [hv] at h
      cases h
  | ok slot => exact ⟨slot, rfl, rfl⟩

/-- A refused assignment leaves a row that has the slot as it is. -/
theorem assignAt_error {s : Symbol} {v : Value} {err : EvalError} (hi : i < t.size)
    (h : (t.assignAt i s v).1 = .error err) : (t.assignAt i s v).2 = t := by
  rw [assignAt] at h ⊢
  cases hv : (t.slotAt i).assign v with
  | error refusal => exact materialize_of_lt hi
  | ok slot =>
      rw [hv] at h
      cases h

end MemberTable

/-! ## The shapes of a store -/

namespace Shape

variable {s s' : Shape} {l : List Symbol} {x y : Symbol} {i : Nat}

/-- A symbol that is created changes the number of no other. -/
theorem Numbers.get?_create_of_ne (h : s.Numbers l) (hcreate : s.create x = .ok (i, s'))
    (hy : y ≠ x) : s'.get? y = s.get? y := by
  by_cases hx : x ∈ l
  · rw [h.lists.create_of_mem hx] at hcreate
    cases hcreate
    rfl
  · rcases h.lists.create_of_not_mem h.load hx with ⟨s₁, hok, -, hlists⟩ | ⟨last, herr, -⟩
    · rw [hcreate] at hok
      cases hok
      ext j
      rw [hlists.get?_eq_some_iff, h.lists.get?_eq_some_iff, List.getElem?_append]
      split
      · rfl
      · next hj =>
          rw [List.getElem?_eq_none (Nat.not_lt.1 hj)]
          constructor
          · intro hlast
            rw [List.getElem?_singleton] at hlast
            split at hlast
            · exact absurd (Option.some.inj hlast).symm hy
            · cases hlast
          · exact nofun
    · rw [hcreate] at herr
      cases herr

end Shape

namespace Store

variable {st : Store} {shape : ShapeId} {s x : Symbol} {i : Nat}

theorem createSlot_eq (st : Store) (shape : ShapeId) (s : Symbol) :
    (st.createSlot shape s).2 = { st with shapes := (st.createSlot shape s).2.shapes } := by
  rcases st.createSlot_cases shape s with ⟨fault, he⟩ | ⟨sh, sh', i, -, -, he⟩
  · rw [he]
  · rw [he]

theorem slotOf?_createSlot_of_ne (ho : st.Ordered) (hx : x ≠ s) (shape id : ShapeId) :
    (st.createSlot shape s).2.slotOf? id x = st.slotOf? id x := by
  rcases st.createSlot_cases shape s with ⟨fault, he⟩ | ⟨sh, sh', i, hsh, hcreate, he⟩
  · rw [he]
  · rw [he]
    simp only [slotOf?]
    by_cases hid : shape = id
    · subst hid
      obtain ⟨l, hl⟩ := (ho shape sh hsh).numbers
      rw [getElem?_shapes_setIfInBounds hsh, hsh, Option.bind_some, Option.bind_some]
      exact hl.get?_create_of_ne hcreate hx
    · rw [Array.getElem?_setIfInBounds, if_neg hid]

theorem slotOf?_createSlot (ho : st.Ordered) (h : (st.createSlot shape s).1 = .ok i) :
    (st.createSlot shape s).2.slotOf? shape s = some i := by
  obtain ⟨l, hl⟩ := ho.numbers shape
  obtain ⟨l', hl', -, hget⟩ := hl.createSlot h
  exact hl'.slotOf?_eq_some_iff.2 hget

/-- What is known of a shape that has given a number. -/
theorem createSlot_ok {st' : Store} (ho : st.Ordered)
    (h : st.createSlot shape s = (.ok i, st')) :
    (∃ shapes, st' = { st with shapes }) ∧ st'.slotOf? shape s = some i ∧
      ∀ id x, x ≠ s → st'.slotOf? id x = st.slotOf? id x := by
  have heq := st.createSlot_eq shape s
  have hfirst : (st.createSlot shape s).1 = .ok i := by rw [h]
  have hself := slotOf?_createSlot ho hfirst
  have hother := fun id x (hx : x ≠ s) => slotOf?_createSlot_of_ne ho hx shape id
  rw [h] at heq hself hother
  exact ⟨⟨_, heq⟩, hself, hother⟩

/-- A symbol that has a number is not given one. -/
theorem createSlot_of_slotOf? (h : st.slotOf? shape s = some i) :
    st.createSlot shape s = (.ok i, st) := by
  obtain ⟨sh, hsh, hget⟩ := Option.bind_eq_some_iff.1 h
  have hcreate : sh.create s = .ok (i, sh) := by rw [Shape.create, hget]
  simp only [createSlot, hsh, hcreate, Array.setIfInBounds_self hsh]

/-- A new symbol is put behind the others. -/
theorem createSlot_of_new (ho : st.Ordered) (hnew : st.slotOf? shape s = none)
    (h : (st.createSlot shape s).1 = .ok i) : i = st.shapeSize shape := by
  rcases st.createSlot_cases shape s with ⟨fault, he⟩ | ⟨sh, sh', j, hsh, hcreate, he⟩
  · rw [he] at h
    cases h
  · rw [he] at h
    cases h
    obtain ⟨l, hl⟩ := (ho shape sh hsh).numbers
    have hs : s ∉ l := by
      intro hmem
      have hget := hl.lists.get?_eq_some_iff.2 (List.getElem?_idxOf hmem)
      rw [slotOf?, hsh, Option.bind_some, hget] at hnew
      cases hnew
    rcases hl.lists.create_of_not_mem hl.load hs with ⟨s₁, hok, -⟩ | ⟨last, herr, -⟩
    · rw [hcreate] at hok
      cases hok
      rw [shapeSize, hsh, Option.map_some, Option.getD_some, hl.lists.size]
    · rw [hcreate] at herr
      cases herr

end Store

/-! ## Writing -/

namespace Engine

variable {e e' : Engine} {p : Storage} {slot : Slot} {r : ScopeRef} {ref : SlotRef} {s x : Symbol}
  {a : Attributes} {v : Value} {i : Nat} {err : EvalError}

/-- One storage has this slot now, and every other has what it had. -/
structure Wrote (e e' : Engine) (p : Storage) (slot : Slot) : Prop extends e.SameOutline e' where
  here : e'.slotIn? p = some slot
  elsewhere : ∀ q, q ≠ p → e'.slotIn? q = e.slotIn? q

theorem wrote_pooled {t : PoolKey} {row : MemberTable} (ht : e.frame.tables.get? t = some row)
    (i : Nat) (slot : Slot) (shapes : Shapes) :
    e.Wrote ⟨{ e.store with shapes },
      e.frame.modifyTable t fun _ => (row.materialize i).setSlot i slot⟩ (.pooled t i) slot where
  scopes := rfl
  heaps := rfl
  globals := rfl
  sources := rfl
  here := by
    simp only [slotIn?, Frame.get?_modifyTable ht, Option.map_some,
      MemberTable.slotAt_setSlot_materialize, if_true]
  elsewhere := by
    intro q hq
    cases q with
    | pooled t' j =>
        simp only [slotIn?]
        rw [Frame.modifyTable, Pool.get?_modify]
        split
        · next htt =>
            subst htt
            have hj : j ≠ i := fun hj => hq (hj ▸ rfl)
            rw [ht, Option.map_some, Option.map_some, Option.map_some,
              MemberTable.slotAt_setSlot_materialize, if_neg hj]
        · rfl
    | heap id j => rfl
    | global id x => rfl

theorem wrote_heap {id : HeapId} {h : HeapScope} (hh : e.store.heaps[id]? = some h) (i : Nat)
    (slot : Slot) (shapes : Shapes) :
    e.Wrote
      ⟨Store.setHeap { e.store with shapes } id
        { h with members := (h.members.materialize i).setSlot i slot }, e.frame⟩
      (.heap id i) slot where
  scopes := rfl
  heaps := Array.map_setIfInBounds_of_eq HeapScope.outline hh rfl
  globals := rfl
  sources := rfl
  here := by
    have hh' : ({ e.store with shapes } : Store).heaps[id]? = some h := hh
    have hset := Store.getElem?_setHeap hh'
      { h with members := (h.members.materialize i).setSlot i slot }
    simp only [slotIn?, hset, Option.map_some, MemberTable.slotAt_setSlot_materialize, if_true]
  elsewhere := by
    intro q hq
    cases q with
    | heap id' j =>
        simp only [slotIn?, Store.setHeap]
        rw [Array.getElem?_setIfInBounds]
        split
        · next hid =>
            subst hid
            have hj : j ≠ i := fun hj => hq (hj ▸ rfl)
            rw [if_pos (Array.getElem?_eq_some_iff.1 hh).1, hh, Option.map_some, Option.map_some,
              MemberTable.slotAt_setSlot_materialize, if_neg hj]
        · rfl
    | pooled t j => rfl
    | global id x => rfl

theorem wrote_global {id : GlobalId} {g : GlobalScope} (hg : e.store.globals[id]? = some g)
    (s : Symbol) (slot : Slot) :
    e.Wrote ⟨e.store.setGlobal id (g.set s slot), e.frame⟩ (.global id s) slot where
  scopes := rfl
  heaps := rfl
  globals := by
    refine Array.map_setIfInBounds_of_eq GlobalScope.mixins hg ?_
    unfold GlobalScope.set
    split <;> rfl
  sources := rfl
  here := by
    simp only [slotIn?, Store.getElem?_setGlobal hg, if_true, Option.bind_some,
      GlobalScope.get?_set]
  elsewhere := by
    intro q hq
    cases q with
    | global id' x =>
        simp only [slotIn?, Store.setGlobal]
        rw [Array.getElem?_setIfInBounds]
        split
        · next hid =>
            subst hid
            have hx : x ≠ s := fun hx => hq (hx ▸ rfl)
            rw [if_pos (Array.getElem?_eq_some_iff.1 hg).1, hg, Option.bind_some, Option.bind_some,
              GlobalScope.get?_set, if_neg hx]
        · rfl
    | pooled t j => rfl
    | heap id j => rfl

/-! ### What a write does not change -/

/-- The storage of one member only is written. -/
theorem Wrote.load (h : e.Wrote e' p slot) (hnum : e.NumbersAlike e' ref)
    (hne : e.storage? ref ≠ some p) : e'.load ref = e.load ref := by
  refine h.toSameOutline.load hnum fun q hq => h.elsewhere q ?_
  rintro rfl
  exact hne hq

theorem Wrote.resolve (h : e.Wrote e' p slot)
    (hnum : ∀ shape, e'.store.slotOf? shape x = e.store.slotOf? shape x)
    (hattr : ∀ r, e.storageOf? r x = some p →
      (e'.slotIn? p).map Slot.attributes = (e.slotIn? p).map Slot.attributes) (r : ScopeRef) :
    e'.resolve r x = e.resolve r x := by
  refine LooksAlike.resolve ⟨h.toSameOutline, hnum, fun r q hq => ?_⟩ r
  by_cases hqp : q = p
  · subst hqp
    exact hattr r hq
  · rw [h.elsewhere q hqp]

/-- Two symbols are not stored in the same place, whatever scopes have them. -/
theorem storageOf?_ne (ho : e.store.Ordered)
    (hsole : ∀ k k' own own', e.frame.scope? k = some own → e.frame.scope? k' = some own' →
      own.members = own'.members → k = k')
    (hp : e.storageOf? r s = some p) (hx : x ≠ s) (r' : ScopeRef) :
    e.storageOf? r' x ≠ some p := by
  have hindex : ∀ {shape : ShapeId} {i : Nat}, e.store.slotOf? shape s = some i →
      e.store.slotOf? shape x ≠ some i := by
    intro shape i hs hxi
    obtain ⟨l, hl⟩ := ho.numbers shape
    rw [hl.slotOf?_eq_some_iff] at hs hxi
    rw [hs] at hxi
    exact hx (Option.some.inj hxi).symm
  intro hp'
  cases p with
  | pooled t i =>
      obtain ⟨k, own, -, hown, hmembers, hi⟩ := storageOf?_eq_pooled.1 hp
      obtain ⟨k', own', -, hown', hmembers', hi'⟩ := storageOf?_eq_pooled.1 hp'
      obtain rfl := hsole k' k own' own hown' hown (hmembers'.trans hmembers.symm)
      rw [hown] at hown'
      cases hown'
      exact hindex hi hi'
  | heap id i =>
      obtain ⟨h, -, hid, hi⟩ := storageOf?_eq_heap.1 hp
      obtain ⟨h', -, hid', hi'⟩ := storageOf?_eq_heap.1 hp'
      rw [hid] at hid'
      cases hid'
      exact hindex hi hi'
  | global id y =>
      obtain ⟨-, rfl⟩ := storageOf?_eq_global.1 hp
      exact hx (storageOf?_eq_global.1 hp').2

/-! ### What is done -/

theorem declare_durable (e : Engine) (d : DurableScope) (s : Symbol) (a : Attributes) :
    e.declare (.durable d) s a =
      ((e.store.declare d s a).1, ⟨(e.store.declare d s a).2, e.frame⟩) := rfl

/-- A declaration that is done writes one storage, which is where its scope has
the symbol from then on. -/
theorem wrote_of_declare (ho : e.store.Ordered) (h : e.declare r s a = (.done ref, e')) :
    ∃ p, e'.storage? ref = some p ∧ e'.storageOf? r s = some p ∧
      e.Wrote e' p (Slot.undeclared.declare a) ∧ e'.resolve r s = .ok ref ∧
      ∀ shape x, x ≠ s → e'.store.slotOf? shape x = e.store.slotOf? shape x := by
  have hresolve : ∀ (c : Owner) i, c.scope = r → c.slot i s = ref → e'.resolve r s = .ok ref := by
    intro c i hc hslot
    subst hc hslot
    have hkeeps := Owner.keeps_of_declare ho (congrArg Prod.fst h)
    rw [h] at hkeeps
    exact hkeeps.resolve rfl
  match r with
  | .pooled k =>
      cases hown : e.frame.scope? k with
      | none =>
          simp only [declare, Frame.getScope, hown] at h
          cases h
      | some own =>
          cases ht : e.frame.tables.get? own.members with
          | none =>
              simp only [declare, getScope_of_scope? hown, Frame.getTable, ht] at h
              split at h <;> cases h
          | some row =>
              rw [declare_pooled hown ht] at h
              split at h
              · cases h
              · next i st hcreate =>
                  obtain ⟨⟨shapes, rfl⟩, hindex, hother⟩ := Store.createSlot_ok ho hcreate
                  split at h
                  · by_cases hconst : (row.slotAt i).isConst = true
                    · rw [MemberTable.declareAt, if_pos hconst] at h
                      cases h
                    · rw [MemberTable.declareAt, if_neg hconst] at h
                      cases h
                      refine ⟨.pooled own.members i, rfl, ?_, wrote_pooled ht i _ shapes,
                        hresolve (.block (.pooled k own.members)) i rfl rfl, hother⟩
                      exact storageOf?_eq_pooled.2 ⟨k, own, rfl, hown, rfl, hindex⟩
                  · cases h
  | .durable ⟨f :: _, _⟩ => cases h
  | .durable ⟨[], .heap id⟩ =>
      rw [declare_durable] at h
      cases hid : e.store.heaps[id]? with
      | none =>
          simp only [Store.declare, hid] at h
          cases h
      | some x =>
          have hdeclare := Store.declare_heap hid s a
          rw [DurableScope.ofHeap] at hdeclare
          rw [hdeclare] at h
          split at h
          · cases h
          · next i st hcreate =>
              obtain ⟨⟨shapes, rfl⟩, hindex, hother⟩ := Store.createSlot_ok ho hcreate
              split at h
              · by_cases hconst : (x.members.slotAt i).isConst = true
                · rw [MemberTable.declareAt, if_pos hconst] at h
                  cases h
                · rw [MemberTable.declareAt, if_neg hconst] at h
                  cases h
                  have hwrote := wrote_heap hid i (Slot.undeclared.declare a) shapes
                  refine ⟨.heap id i, rfl, ?_, hwrote,
                    hresolve (.block (.heap id)) i rfl rfl, hother⟩
                  have hid' : ({ e.store with shapes } : Store).heaps[id]? = some x := hid
                  have hset := Store.getElem?_setHeap hid'
                    { x with members :=
                      (x.members.materialize i).setSlot i (Slot.undeclared.declare a) }
                  exact storageOf?_eq_heap.2 ⟨_, rfl, hset, hindex⟩
              · cases h
  | .durable ⟨[], .global id⟩ =>
      rw [declare_durable] at h
      cases hid : e.store.globals[id]? with
      | none =>
          simp only [Store.declare, hid] at h
          cases h
      | some g =>
          have hdeclare := Store.declare_global hid s a
          rw [DurableScope.ofGlobal] at hdeclare
          rw [hdeclare] at h
          split at h
          · cases h
          · cases h
            exact ⟨.global id s, rfl, rfl, wrote_global hid s _,
              hresolve (.global id) 0 rfl rfl, fun _ _ _ => rfl⟩

/-- The value was put into what was stored there, and nothing else was done. -/
structure Assigned (e e' : Engine) (p : Storage) (v : Value) (slot slot' : Slot) : Prop
    extends e.Wrote e' p slot' where
  before : e.slotIn? p = some slot
  assign : slot.assign v = .ok slot'
  shapes : e'.store.shapes = e.store.shapes

section

variable {st : Store} {d : DurableScope}

theorem assigned_of_assignGlobal {id : GlobalId}
    (h : e.store.assignGlobal id s v = (.done (), st)) :
    ∃ slot slot', e.Assigned ⟨st, e.frame⟩ (.global id s) v slot slot' := by
  simp only [Store.assignGlobal] at h
  split at h
  · cases h
  · next g hg =>
      split at h
      · cases h
      · next slot hslot =>
          split at h
          · cases h
          · next slot' hv =>
              cases h
              refine ⟨slot, slot', wrote_global hg s slot', ?_, hv, rfl⟩
              simp only [slotIn?, hg, Option.bind_some, hslot]

theorem assigned_of_assignHeap {id : HeapId}
    (h : e.store.assignHeap id i s v = (.done (), st)) :
    ∃ slot slot', e.Assigned ⟨st, e.frame⟩ (.heap id i) v slot slot' := by
  cases hid : e.store.heaps[id]? with
  | none =>
      simp only [Store.assignHeap, hid] at h
      cases h
  | some x =>
      have hassign := Store.assign_heap hid i s v
      rw [Store.assign] at hassign
      rw [hassign] at h
      split at h
      · injection h with hans hst
        cases hok : (x.members.assignAt i s v).1 with
        | error err => rw [hok] at hans; cases hans
        | ok u =>
            obtain ⟨slot', hv, hrow⟩ := MemberTable.assignAt_ok hok
            rw [hrow] at hst
            subst hst
            refine ⟨x.members.slotAt i, slot', wrote_heap hid i slot' e.store.shapes, ?_, hv, rfl⟩
            simp only [slotIn?, hid, Option.map_some]
      · cases h

/-- From outside, what is written is stored where the scope has the symbol. -/
theorem assigned_of_assignPublic (h : e.store.assignPublic d s v = (.done (), st)) :
    ∃ p slot slot', e.store.storageOf? d s = some p ∧ e.Assigned ⟨st, e.frame⟩ p v slot slot' := by
  match d with
  | ⟨f :: _, _⟩ => cases h
  | ⟨[], .global id⟩ =>
      obtain ⟨slot, slot', hassigned⟩ := assigned_of_assignGlobal h
      exact ⟨_, slot, slot', rfl, hassigned⟩
  | ⟨[], .heap id⟩ =>
      simp only [Store.assignPublic] at h
      split at h
      · cases h
      · next x hid =>
          split at h
          · cases h
          · next i slot hfound =>
              obtain ⟨j, hj, hget⟩ := Option.bind_eq_some_iff.1 hfound
              obtain ⟨slot₀, hget, hsame⟩ := Option.map_eq_some_iff.1 hget
              cases hsame
              split at h
              · split at h
                · cases h
                · next slot' hv =>
                    cases h
                    have hlt : i < x.members.size := (Array.getElem?_eq_some_iff.1 hget).1
                    have hwrote := wrote_heap hid i slot' e.store.shapes
                    rw [MemberTable.materialize_of_lt hlt] at hwrote
                    refine ⟨.heap id i, slot, slot', ?_, hwrote, ?_, hv, rfl⟩
                    · simp only [Store.storageOf?, hid, Option.bind_some, hj, Option.map_some]
                    · simp only [slotIn?, hid, Option.map_some, MemberTable.slotAt_of_get? hget]
              · cases h

end

/-- Assigning a slot that is in no table is done in the shared state. -/
theorem assign_shared {ans : Outcome Unit} (hshared : ref.isPooled = false)
    (h : e.assign ref v = (ans, e')) :
    ∃ st, e.store.assign ref v = (ans, st) ∧ e' = ⟨st, e.frame⟩ := by
  have hassign : e.assign ref v =
      ((e.store.assign ref v).1, ⟨(e.store.assign ref v).2, e.frame⟩) := by
    cases ref with
    | pooled t i x => cases hshared
    | _ => rfl
  rw [hassign] at h
  cases h
  exact ⟨_, rfl, rfl⟩

/-- A store that is done writes the one storage its slot refers to. -/
theorem assigned_of_assign (h : e.assign ref v = (.done (), e')) :
    ∃ p slot slot', e.storage? ref = some p ∧ e.Assigned e' p v slot slot' := by
  cases ref with
  | pooled t i x =>
      cases ht : e.frame.tables.get? t with
      | none =>
          simp only [assign, Frame.getTable, ht] at h
          cases h
      | some row =>
          rw [assign_pooled ht] at h
          split at h
          · injection h with hans heng
            cases hok : (row.assignAt i x v).1 with
            | error err => rw [hok] at hans; cases hans
            | ok u =>
                obtain ⟨slot', hv, hrow⟩ := MemberTable.assignAt_ok hok
                rw [hrow] at heng
                subst heng
                refine ⟨.pooled t i, row.slotAt i, slot', rfl,
                  wrote_pooled ht i slot' e.store.shapes, ?_, hv, rfl⟩
                simp only [slotIn?, ht, Option.map_some]
          · cases h
  | heap id i x =>
      obtain ⟨st, hdone, rfl⟩ := assign_shared rfl h
      obtain ⟨slot, slot', hassigned⟩ := assigned_of_assignHeap hdone
      exact ⟨_, slot, slot', rfl, hassigned⟩
  | frozen f i x => cases h
  | global id x =>
      obtain ⟨st, hdone, rfl⟩ := assign_shared rfl h
      obtain ⟨slot, slot', hassigned⟩ := assigned_of_assignGlobal hdone
      exact ⟨_, slot, slot', rfl, hassigned⟩
  | mixin source x =>
      obtain ⟨st, hdone, rfl⟩ := assign_shared rfl h
      simp only [Store.assign, Store.assignSource] at hdone
      split at hdone
      · next d hsource =>
          obtain ⟨p, slot, slot', hp, hassigned⟩ := assigned_of_assignPublic hdone
          exact ⟨p, slot, slot', by simp only [storage?, hsource, hp], hassigned⟩
      · cases hdone

end Engine

/-! ## Refusals -/

namespace Store

variable {st st' : Store} {s : Symbol} {v : Value} {i : Nat} {err : EvalError}

theorem eq_of_assignGlobal_raised {id : GlobalId}
    (h : st.assignGlobal id s v = (.raised err, st')) : st' = st := by
  simp only [assignGlobal] at h
  split at h
  · cases h
    rfl
  · split at h
    · cases h
      rfl
    · split at h
      · cases h
        rfl
      · cases h

theorem eq_of_assignHeap_raised {id : HeapId}
    (hi : ∀ x, st.heaps[id]? = some x → i < x.members.size)
    (h : st.assignHeap id i s v = (.raised err, st')) : st' = st := by
  cases hid : st.heaps[id]? with
  | none =>
      simp only [assignHeap, hid] at h
      cases h
      rfl
  | some x =>
      have hassign := assign_heap hid i s v
      rw [assign] at hassign
      rw [hassign] at h
      split at h
      · injection h with hans hst
        cases hok : (x.members.assignAt i s v).1 with
        | ok u => rw [hok] at hans; cases hans
        | error refusal =>
            rw [MemberTable.assignAt_error (hi x hid) hok, setHeap,
              Array.setIfInBounds_self hid] at hst
            exact hst.symm
      · cases h

theorem eq_of_assignPublic_raised {d : DurableScope}
    (h : st.assignPublic d s v = (.raised err, st')) : st' = st := by
  by_cases htakes : ∃ slot slot', st.Takes d s v slot slot'
  · obtain ⟨slot, slot', htakes⟩ := htakes
    obtain ⟨st₁, hdone, -⟩ := htakes.assignPublic
    rw [hdone] at h
    cases h
  · obtain ⟨err', hraised⟩ := assignPublic_of_not_takes
      fun slot slot' htake => htakes ⟨slot, slot', htake⟩
    rw [hraised] at h
    cases h
    rfl

end Store

namespace Engine

variable {e e' : Engine} {r : ScopeRef} {ref : SlotRef} {s x : Symbol} {a : Attributes} {v : Value}
  {err : EvalError}

/-- The row of a slot has it, and the shape of the source a slot was found in
knows its symbol. -/
def Backed (e : Engine) : SlotRef → Prop
  | .pooled t i _ => ∀ row, e.frame.tables.get? t = some row → i < row.size
  | .heap id i _ => ∀ h, e.store.heaps[id]? = some h → i < h.members.size
  | .mixin source s => ∀ d shape, e.store.sources[source]? = some (.scope d) →
      e.store.shapeOf? d = some shape → (e.store.slotOf? shape s).isSome
  | _ => True

/-- A store that is refused changes nothing. -/
theorem eq_of_assign_raised (hb : e.Backed ref) (h : e.assign ref v = (.raised err, e')) :
    e' = e := by
  cases ref with
  | pooled t i x =>
      cases ht : e.frame.tables.get? t with
      | none =>
          simp only [assign, Frame.getTable, ht] at h
          cases h
          rfl
      | some row =>
          rw [assign_pooled ht] at h
          split at h
          · injection h with hans heng
            cases hok : (row.assignAt i x v).1 with
            | ok u => rw [hok] at hans; cases hans
            | error refusal =>
                rw [MemberTable.assignAt_error (hb row ht) hok, Frame.modifyTable,
                  Pool.modify_self ht] at heng
                exact heng.symm
          · cases h
  | heap id i x =>
      obtain ⟨st, hraised, rfl⟩ := assign_shared rfl h
      rw [Store.eq_of_assignHeap_raised hb hraised]
  | frozen f i x =>
      cases h
      rfl
  | global id x =>
      obtain ⟨st, hraised, rfl⟩ := assign_shared rfl h
      rw [Store.eq_of_assignGlobal_raised hraised]
  | mixin source x =>
      obtain ⟨st, hraised, rfl⟩ := assign_shared rfl h
      simp only [Store.assign, Store.assignSource] at hraised
      split at hraised
      · rw [Store.eq_of_assignPublic_raised hraised]
      · cases hraised
        rfl

/-- The shape and the row that a declaration in the scope is about. A frozen
scope refuses it, and a global one has neither. -/
def rowOf? (e : Engine) : ScopeRef → Option (ShapeId × MemberTable)
  | .pooled k => do
    let own ← e.frame.scope? k
    let row ← e.frame.tables.get? own.members
    return (own.shape, row)
  | .durable ⟨[], .heap id⟩ => e.store.heaps[id]?.map fun h => (h.shape, h.members)
  | .durable _ => none

/-- The next symbol that the shape of the scope is asked for will be put where
the scope has a constant already. -/
def Collides (e : Engine) (r : ScopeRef) (s : Symbol) : Prop :=
  ∃ shape row, e.rowOf? r = some (shape, row) ∧ e.store.slotOf? shape s = none ∧
    (row.slotAt (e.store.shapeSize shape)).isConst = true

/-- Nothing was written. All that may have happened is that the shape was asked
for a symbol it did not know. -/
structure Refused (e e' : Engine) (r : ScopeRef) (s : Symbol) : Prop where
  frame : e'.frame = e.frame
  store : e'.store = { e.store with shapes := e'.store.shapes }
  numbers : ∀ shape x, x ≠ s → e'.store.slotOf? shape x = e.store.slotOf? shape x
  eq_iff : e' = e ↔ ¬ e.Collides r s

theorem Refused.of_same (h : ¬ e.Collides r s) : e.Refused e r s :=
  ⟨rfl, rfl, fun _ _ _ => rfl, iff_of_true rfl h⟩

/-- A refusal that comes from a row: the slot at the number of the symbol was a
constant. -/
theorem refused_of_row {shape : ShapeId} {row : MemberTable} {i : Nat} {st : Store}
    (ho : e.store.Ordered) (hrow : e.rowOf? r = some (shape, row))
    (hcreate : e.store.createSlot shape s = (.ok i, st))
    (hconst : (row.slotAt i).isConst = true) : e.Refused ⟨st, e.frame⟩ r s := by
  obtain ⟨⟨shapes, rfl⟩, hindex, hother⟩ := Store.createSlot_ok ho hcreate
  refine ⟨rfl, rfl, hother, ?_, fun hno => ?_⟩
  · intro heq hcollides
    obtain ⟨shape', row', hrow', hs, -⟩ := hcollides
    rw [hrow] at hrow'
    cases hrow'
    have hsame := congrArg (fun e : Engine => e.store.slotOf? shape s) heq
    rw [hs] at hsame
    exact absurd (hindex.symm.trans hsame) nofun
  · cases hs : e.store.slotOf? shape s with
    | some j =>
        rw [Store.createSlot_of_slotOf? hs] at hcreate
        injection hcreate with _ hsame
        exact congrArg (Engine.mk · e.frame) hsame.symm
    | none =>
        have hi := Store.createSlot_of_new ho hs (by rw [hcreate])
        exact absurd ⟨shape, row, hrow, hs, hi ▸ hconst⟩ hno

/-- A declaration that is refused. -/
theorem refused_of_declare (ho : e.store.Ordered)
    (hmembers : ∀ k own, e.frame.scope? k = some own →
      (e.frame.tables.get? own.members).isSome)
    (h : e.declare r s a = (.raised err, e')) : e.Refused e' r s := by
  match r with
  | .pooled k =>
      cases hown : e.frame.scope? k with
      | none =>
          simp only [declare, Frame.getScope, hown] at h
          cases h
          refine .of_same fun hc => ?_
          obtain ⟨shape, row, hrow, -⟩ := hc
          simp only [rowOf?, hown] at hrow
          cases hrow
      | some own =>
          obtain ⟨row, ht⟩ := Option.isSome_iff_exists.1 (hmembers k own hown)
          rw [declare_pooled hown ht] at h
          split at h
          · cases h
          · next i st hcreate =>
              split at h
              · by_cases hconst : (row.slotAt i).isConst = true
                · rw [MemberTable.declareAt_of_isConst hconst, Frame.modifyTable,
                    Pool.modify_self ht] at h
                  cases h
                  refine refused_of_row ho ?_ hcreate hconst
                  simp only [rowOf?, hown, ht, Option.bind_eq_bind, Option.bind_some]
                  rfl
                · rw [MemberTable.declareAt, if_neg hconst] at h
                  cases h
              · cases h
  | .durable ⟨f :: _, _⟩ =>
      cases h
      refine .of_same fun hc => ?_
      obtain ⟨shape, row, hrow, -⟩ := hc
      cases hrow
  | .durable ⟨[], .heap id⟩ =>
      rw [declare_durable] at h
      cases hid : e.store.heaps[id]? with
      | none =>
          simp only [Store.declare, hid] at h
          cases h
          refine .of_same fun hc => ?_
          obtain ⟨shape, row, hrow, -⟩ := hc
          simp only [rowOf?, hid] at hrow
          cases hrow
      | some x =>
          have hdeclare := Store.declare_heap hid s a
          rw [DurableScope.ofHeap] at hdeclare
          rw [hdeclare] at h
          split at h
          · cases h
          · next i st hcreate =>
              obtain ⟨⟨shapes, rfl⟩, -, -⟩ := Store.createSlot_ok ho hcreate
              split at h
              · by_cases hconst : (x.members.slotAt i).isConst = true
                · rw [MemberTable.declareAt_of_isConst hconst, Store.setHeap,
                    Array.setIfInBounds_self (show (Store.heaps _)[id]? = some x from hid)] at h
                  cases h
                  refine refused_of_row ho ?_ hcreate hconst
                  simp only [rowOf?, hid, Option.map_some]
                · rw [MemberTable.declareAt, if_neg hconst] at h
                  cases h
              · cases h
  | .durable ⟨[], .global id⟩ =>
      have hno : ¬ e.Collides (.durable ⟨[], .global id⟩) s := by
        intro hc
        obtain ⟨shape, row, hrow, -⟩ := hc
        cases hrow
      rw [declare_durable] at h
      cases hid : e.store.globals[id]? with
      | none =>
          simp only [Store.declare, hid] at h
          cases h
          exact .of_same hno
      | some g =>
          have hdeclare := Store.declare_global hid s a
          rw [DurableScope.ofGlobal] at hdeclare
          rw [hdeclare] at h
          split at h
          · cases h
            exact .of_same hno
          · cases h

/-! ### Other refusals -/

theorem eq_of_mixin_error {source : MemberSource} (h : e.mixin r source = (.error err, e')) :
    e' = e := by
  unfold mixin at h
  split at h
  · split at h
    · cases h
      rfl
    · cases h
  · split at h
    · cases h
      rfl
    · cases h

theorem eq_of_setLine_error {scope : Option ScopeRef} {line : UInt32}
    (h : e.setLine scope line = (.error err, e')) : e' = e := by
  unfold setLine at h
  split at h
  · cases h
    rfl
  · cases scope <;> cases h

end Engine

namespace Frame

variable {f f' : Frame} {t : PoolKey} {err : EvalError}

theorem eq_of_takeTable_error (h : f.takeTable t = (.error err, f')) : f' = f := by
  unfold takeTable at h
  split at h
  · cases h
    rfl
  · cases h

theorem eq_of_allocateFunction_raised {binding : FunctionBinding} {previous : ScopeRef}
    {shape : ShapeId} {n : Nat}
    (h : f.allocateFunction binding previous shape n t = (.raised err, f')) : f' = f := by
  unfold allocateFunction at h
  split at h
  · cases h
    rfl
  · split at h
    · cases h
    · cases h

end Frame

end ScriptCore

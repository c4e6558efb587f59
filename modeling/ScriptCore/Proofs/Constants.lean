import ScriptCore.Proofs.BlockMaps
import ScriptCore.Proofs.ListedNames

/-!
# Constants are written once

The seal of a constant is in its slot, and declaring a slot takes it off. So
that a constant has one value only is nothing the slot sees to. It rests on who
may declare: a scope refuses to declare a constant again, and a slot is written
by the scope it belongs to, or through it from outside, and by nobody else.

Three kinds of scopes have slots that can be written, and the argument is the
same for each. `Owner.Keeps` says where the slot of a member is and what is in
it. One operation leaves it as it is, unless it is a store that reaches the
member and succeeds, and then the slot was not sealed before and is now. A run
can therefore have one such store at most, and whatever comes after it is
refused and changes nothing.
-/

namespace ScriptCore

/-! ## A slot and a row -/

namespace Slot

variable {slot slot' : Slot} {v : Value}

/-- The slot with the value it is to keep. -/
def keeping (slot : Slot) (v : Value) : Slot := { slot with value := v, isSealed := true }

theorem assign_of_unsealed (hconst : slot.isConst = true) (hopen : slot.isSealed = false)
    (hv : v.isUndefined = false) : slot.assign v = .ok (slot.keeping v) := by
  simp [assign, hconst, hopen, hv, keeping]

theorem assign_of_sealed (hconst : slot.isConst = true) (hsealed : slot.isSealed = true)
    (hv : v.isUndefined = false) : slot.assign v = .error .isConst := by
  simp [assign, hconst, hsealed, hv]

/-- A constant takes a value only if it has none yet. -/
theorem keeping_of_assign (hconst : slot.isConst = true) (h : slot.assign v = .ok slot') :
    slot.isSealed = false ∧ slot' = slot.keeping v := by
  cases hv : v.isUndefined with
  | true => simp [assign, hv] at h
  | false =>
      cases hsealed : slot.isSealed with
      | true =>
          rw [assign_of_sealed hconst hsealed hv] at h
          cases h
      | false =>
          rw [assign_of_unsealed hconst hsealed hv] at h
          exact ⟨rfl, (Except.ok.inj h).symm⟩

end Slot

namespace MemberTable

variable {t t' : MemberTable} {i j : Nat} {slot : Slot} {s : Symbol}

/-- The row has this slot at the number, and may be written there. -/
structure Holds (t : MemberTable) (i : Nat) (slot : Slot) : Prop where
  get : t.slots[i]? = some slot
  fits : t.fits (i + 1) = true

theorem Holds.lt (h : t.Holds i slot) : i < t.size := (Array.getElem?_eq_some_iff.1 h.get).1

theorem Holds.slotAt (h : t.Holds i slot) : t.slotAt i = slot := by
  rw [MemberTable.slotAt, get?, h.get]
  rfl

/-- Materializing another number makes the row longer, if it does anything. -/
theorem Holds.materialize (h : t.Holds i slot) (hj : t.fits (j + 1) = true) :
    (t.materialize j).Holds i slot := by
  have hi := h.lt
  refine ⟨?_, ?_⟩
  · rw [getElem?_materialize, if_pos hi]
    exact h.get
  · by_cases hlt : j < t.size
    · rw [materialize_of_lt hlt]
      exact h.fits
    · exact fits_materialize hlt (by omega) hj

theorem Holds.setSlot_of_ne (h : t.Holds i slot) (hij : j ≠ i) (x : Slot) :
    (t.setSlot j x).Holds i slot := by
  refine ⟨?_, ?_⟩
  · rw [MemberTable.setSlot, Array.getElem?_setIfInBounds, if_neg hij]
    exact h.get
  · rw [fits_congr t (t.setSlot j x) rfl rfl]
    exact h.fits

theorem Holds.setSlot (h : t.Holds i slot) (x : Slot) : (t.setSlot i x).Holds i x := by
  refine ⟨?_, ?_⟩
  · rw [MemberTable.setSlot, Array.getElem?_setIfInBounds, if_pos rfl]
    exact if_pos h.lt
  · rw [fits_congr t (t.setSlot i x) rfl rfl]
    exact h.fits

theorem Writes.fits (h : t.Writes i t') (hi : t.fits (i + 1) = true) : t'.fits (i + 1) = true := by
  have hrow : (t.materialize i).fits (i + 1) = true := by
    by_cases hlt : i < t.size
    · rw [materialize_of_lt hlt]
      exact hi
    · exact fits_materialize hlt (Nat.le_refl _) hi
  rcases h with rfl | ⟨x, rfl⟩
  · exact hrow
  · rw [fits_congr (t.materialize i) ((t.materialize i).setSlot i x) rfl rfl]
    exact hrow

/-- Writing at another number. -/
theorem Holds.of_writes (h : t.Holds i slot) (hw : t.Writes j t') (hj : t.fits (j + 1) = true)
    (hij : j ≠ i) : t'.Holds i slot := by
  rcases hw with rfl | ⟨x, rfl⟩
  · exact h.materialize hj
  · exact (h.materialize hj).setSlot_of_ne hij x

theorem Holds.declareAt (h : t.Holds i slot) (hconst : slot.isConst = true) (s : Symbol)
    (a : Attributes) : t.declareAt i s a = (.error (ErrorKind.duplicateDeclaration s), t) := by
  rw [MemberTable.declareAt, h.slotAt, if_pos hconst, materialize_of_lt h.lt]

theorem Holds.assignAt (h : t.Holds i slot) (s : Symbol) (v : Value) :
    t.assignAt i s v =
      match slot.assign v with
      | .error err => (.error (ErrorKind.ofAssign s err), t)
      | .ok slot => (.ok (), t.setSlot i slot) := by
  cases hv : slot.assign v <;>
    simp only [MemberTable.assignAt, h.slotAt, hv, materialize_of_lt h.lt]

end MemberTable

/-- A number that was given is good for as long as the shape is there. -/
theorem Store.Develops.slotOf? {st st' : Store} {shape : ShapeId} {s : Symbol} {i : Nat}
    (hd : st.Develops st') (ho : st.Ordered) (h : st.slotOf? shape s = some i) :
    st'.slotOf? shape s = some i := by
  obtain ⟨l, hl⟩ := ho.numbers shape
  obtain ⟨l', hl', hpre⟩ := hl.develop hd
  have hi := hl.slotOf?_eq_some_iff.1 h
  rw [hl'.slotOf?_eq_some_iff, getElem?_later hpre (List.getElem?_eq_some_iff.1 hi).1]
  exact hi

/-! ## The owner of a member -/

/-- A scope that has slots of its own which can be written. -/
inductive Owner where
  | block (b : Block)
  | global (id : GlobalId)

namespace Owner

def scope : Owner → ScopeRef
  | block b => b.scope
  | global id => .ofGlobal id

/-- The slot of a member; a global one has no number. -/
def slot (c : Owner) (i : Nat) (s : Symbol) : SlotRef :=
  match c with
  | block b => b.slot i s
  | global id => .global id s

def isAt : Owner → ScopeRef → Bool
  | block b, r => b.isAt r
  | global id, .durable ⟨[], .global id'⟩ => id' = id
  | global _, _ => false

/-- The source is the owner, mixed in somewhere. -/
def feeds (c : Owner) (e : Engine) (source : SourceId) : Bool :=
  match e.store.sources[source]? with
  | some (.scope d) => c.isAt (.durable d)
  | _ => false

/-- Assigning the slot is assigning the member, in its own scope or from
outside. It does not matter under which name a slot of a row was asked for. -/
def reaches (c : Owner) (e : Engine) (i : Nat) (s : Symbol) : SlotRef → Bool
  | .mixin source x => x = s && c.feeds e source
  | .pooled t j _ =>
    match c with
    | block (.pooled _ t') => t = t' && j = i
    | _ => false
  | .heap id j _ =>
    match c with
    | block (.heap id') => id = id' && j = i
    | _ => false
  | .global id x =>
    match c with
    | global id' => id = id' && x = s
    | _ => false
  | .frozen _ _ _ => false

/-- What the owner has declared a symbol to be. -/
def member? (c : Owner) (e : Engine) (s : Symbol) : Option Slot :=
  match c with
  | block b => b.own? e s
  | global id => e.store.globals[id]?.bind (·.get? s)

/-- The owner was not given back between the two. -/
def Lasts (c : Owner) (m m' : Machine) : Prop :=
  match c with
  | block b => b.Lasts m m'
  | global _ => True

variable {c : Owner} {e : Engine} {i : Nat} {s : Symbol} {ref : SlotRef} {source : SourceId}

theorem isAt_iff {r : ScopeRef} : c.isAt r = true ↔ r = c.scope := by
  cases c with
  | block b => exact Block.isAt_iff
  | global id =>
      cases r with
      | pooled k => simp [isAt, scope, ScopeRef.ofGlobal]
      | durable d =>
          obtain ⟨frozen, anchor⟩ := d
          cases frozen with
          | nil => cases anchor <;> simp [isAt, scope, ScopeRef.ofGlobal, DurableScope.ofGlobal]
          | cons f frozen => simp [isAt, scope, ScopeRef.ofGlobal, DurableScope.ofGlobal]

theorem feeds_iff : c.feeds e source = true ↔
    ∃ d, e.store.sources[source]? = some (.scope d) ∧ .durable d = c.scope := by
  unfold feeds
  split
  · next d hd =>
      rw [isAt_iff]
      constructor
      · exact fun h => ⟨d, hd, h⟩
      · rintro ⟨d', hd', h⟩
        rw [hd] at hd'
        cases hd'
        exact h
  · next hno =>
      constructor
      · exact nofun
      · rintro ⟨d, hd, -⟩
        exact absurd hd (hno d)

theorem reaches_block {b : Block} : (block b).reaches e i s ref = true ↔
    (∃ x, ref = b.slot i x) ∨ ∃ source d, ref = .mixin source s ∧
      e.store.sources[source]? = some (.scope d) ∧ .durable d = b.scope := by
  cases ref with
  | mixin source x =>
      simp only [reaches, Bool.and_eq_true, decide_eq_true_eq, feeds_iff]
      constructor
      · rintro ⟨rfl, d, hd, hscope⟩
        exact .inr ⟨source, d, rfl, hd, hscope⟩
      · rintro (⟨x', hslot⟩ | ⟨source', d, hslot, hd, hscope⟩)
        · cases b <;> cases hslot
        · cases hslot
          exact ⟨rfl, d, hd, hscope⟩
  | _ => cases b <;> simp [reaches, Block.slot]

theorem reaches_global {id : GlobalId} :
    (global id).reaches e i s ref = true ↔ e.store.LeadsTo ref id s := by
  unfold Store.LeadsTo
  cases ref with
  | mixin source x =>
      simp only [reaches, Bool.and_eq_true, decide_eq_true_eq, feeds_iff]
      constructor
      · rintro ⟨rfl, d, hd, hscope⟩
        cases hscope
        exact .inr ⟨source, rfl, hd⟩
      · rintro (hslot | ⟨source', hslot, hd⟩)
        · cases hslot
        · cases hslot
          exact ⟨rfl, _, hd, rfl⟩
  | _ => simp [reaches]

end Owner

/-! ## A constant in a block -/

namespace Block

variable {b : Block} {e : Engine} {shape : ShapeId} {t : MemberTable} {i : Nat} {s : Symbol}
  {slot : Slot}

/-- The member is at the number that the shape gives to its symbol. -/
structure Stores (b : Block) (e : Engine) (shape : ShapeId) (t : MemberTable) (i : Nat)
    (s : Symbol) (slot : Slot) : Prop where
  has : b.Has e shape t
  index : e.store.slotOf? shape s = some i
  holds : t.Holds i slot

theorem Stores.develop (h : b.Stores e shape t i s slot) (ho : e.store.Ordered) {e' : Engine}
    {t' : MemberTable} {slot' : Slot} (hd : e.store.Develops e'.store) (hhas : b.Has e' shape t')
    (hholds : t'.Holds i slot') : b.Stores e' shape t' i s slot' :=
  ⟨hhas, hd.slotOf? ho h.index, hholds⟩

theorem Stores.own? (h : b.Stores e shape t i s slot) (hdecl : slot.isDeclared = true) :
    b.own? e s = some slot := by
  rw [h.has.own?_eq, Store.own?, Store.ownIndex?, h.index, Option.filter_some, h.holds.get,
    Option.any_some, if_pos hdecl]
  exact h.holds.get

theorem Stores.resolve (h : b.Stores e shape t i s slot) (hdecl : slot.isDeclared = true) :
    e.resolve b.scope s = .ok (b.slot i s) := by
  refine h.has.resolve ?_
  rw [Store.ownIndex?, h.index, Option.filter_some, h.holds.get, Option.any_some, if_pos hdecl]

theorem Stores.load (h : b.Stores e shape t i s slot) : e.load (b.slot i s) = .ok slot.value := by
  rw [h.has.load, MemberTable.get?, h.holds.get]
  rfl

/-- A public member is seen through a mixin. -/
theorem Stores.load_mixin (h : b.Stores e shape t i s slot) (hpublic : slot.isPublic = true)
    {source : SourceId} {d : DurableScope} (hsource : e.store.sources[source]? = some (.scope d))
    (hd : .durable d = b.scope) : e.load (.mixin source s) = .ok slot.value := by
  cases b with
  | pooled k table => cases hd
  | heap id =>
      cases hd
      obtain ⟨x, hx, hshape, hmembers⟩ := h.has
      have hindex := h.index
      have hget := h.holds.get
      rw [← hshape] at hindex
      rw [← hmembers] at hget
      simp only [Engine.load, Store.load, Store.sourceMember?, hsource, Store.publicMember?,
        DurableScope.ofHeap, hx, Option.bind_some, Store.publicValue?, hindex, hget,
        Option.filter_some, hpublic, if_true, Option.map_some, Option.getD_some]

theorem Has.assign_of_full (h : b.Has e shape t) (hfull : t.fits (i + 1) = false) (s : Symbol)
    (v : Value) : e.assign (b.slot i s) v = (.panicked, e) := by
  cases b with
  | pooled k table =>
      obtain ⟨own, hown, rfl, rfl, ht⟩ := h
      simp only [Engine.assign, Block.slot, Frame.getTable_of_get? ht, hfull]
      rfl
  | heap id =>
      obtain ⟨x, hx, rfl, rfl⟩ := h
      simp only [Engine.assign, Block.slot, Store.assign, Store.assignHeap, hx, hfull]
      rfl

/-- A scope that declares a symbol is there. -/
theorem has_of_declare {a : Attributes}
    (h : (e.declare b.scope s a).1 = .done (b.slot i s)) : ∃ shape t, b.Has e shape t := by
  obtain ⟨store, frame⟩ := e
  cases b with
  | pooled k table =>
      cases hscope : frame.getScope k with
      | error err =>
          simp only [Block.scope, Engine.declare, hscope] at h
          cases h
      | ok own =>
          have hown := Engine.scope?_of_getScope hscope
          cases ht : frame.tables.get? own.members with
          | none =>
              simp only [Block.scope, Engine.declare, hscope, Frame.getTable, ht] at h
              split at h <;> cases h
          | some t =>
              simp only [Block.scope, Engine.declare, hscope, Frame.getTable, ht] at h
              have hmembers : own.members = table := by
                split at h
                · cases h
                · split at h
                  · cases h
                  · split at h
                    · cases h
                    · cases h
                      rfl
              exact ⟨own.shape, t, own, hown, rfl, hmembers, hmembers ▸ ht⟩
  | heap id =>
      cases hid : store.heaps[id]? with
      | none =>
          simp only [Block.scope, Engine.declare, Store.declare, DurableScope.ofHeap, hid] at h
          cases h
      | some x => exact ⟨x.shape, x.members, x, hid, rfl, rfl⟩

/-- What was just declared is there, open and without a value. -/
theorem stores_of_declare {a : Attributes} (ho : e.store.Ordered)
    (h : (e.declare b.scope s a).1 = .done (b.slot i s)) :
    ∃ shape t, b.Stores (e.declare b.scope s a).2 shape t i s (Slot.undeclared.declare a) := by
  obtain ⟨shape, t, hhas⟩ := has_of_declare h
  obtain ⟨l, hl⟩ := ho.numbers shape
  obtain ⟨hshapes, ⟨-, hpanic, -⟩ | ⟨j, ⟨hj, hfits⟩, hans, hhas'⟩⟩ := hhas.declare s a
  · rw [hpanic] at h
    cases h
  · rw [hans] at h
    obtain ⟨hslot, hrow⟩ := t.declareAt_done h
    have hji : i = j := by
      cases b with
      | pooled k table =>
          cases hslot
          rfl
      | heap id =>
          cases hslot
          rfl
    subst hji
    obtain ⟨l', hl', -, hget⟩ := hl.createSlot hj
    have hindex := (hl'.of_shapes_eq hshapes).slotOf?_eq_some_iff.2 hget
    exact ⟨shape, _, hhas', hindex, hrow, (t.writes_declareAt i s a).fits hfits⟩

/-- A constant is not declared again. -/
theorem Stores.declare (h : b.Stores e shape t i s slot) (ho : e.store.Ordered)
    (hconst : slot.isConst = true) (a : Attributes) :
    (e.declare b.scope s a).1 = .raised (ErrorKind.duplicateDeclaration s) ∧
      b.Has (e.declare b.scope s a).2 shape t := by
  obtain ⟨l, hl⟩ := ho.numbers shape
  have hcreate := hl.createSlot_of_mem (hl.slotOf?_eq_some_iff.1 h.index)
  obtain ⟨-, ⟨hno, -⟩ | ⟨j, ⟨hj, -⟩, hans, hhas⟩⟩ := h.has.declare s a
  · exact absurd ⟨hcreate, h.holds.fits⟩ (hno i)
  · have hji : j = i := Except.ok.inj (hj.symm.trans hcreate)
    subst hji
    rw [h.holds.declareAt hconst] at hans hhas
    exact ⟨hans, hhas⟩

/-- Declaring another symbol is no matter. -/
theorem Stores.declare_of_ne (h : b.Stores e shape t i s slot) (ho : e.store.Ordered) {x : Symbol}
    (hx : x ≠ s) (a : Attributes) : ∃ t', b.Has (e.declare b.scope x a).2 shape t' ∧
      t'.Holds i slot := by
  obtain ⟨l, hl⟩ := ho.numbers shape
  obtain ⟨-, ⟨-, -, hhas⟩ | ⟨j, ⟨hj, hfits⟩, -, hhas⟩⟩ := h.has.declare x a
  · exact ⟨t, hhas, h.holds⟩
  · obtain ⟨l', hl', hpre, hget⟩ := hl.createSlot hj
    have hi := hl.slotOf?_eq_some_iff.1 h.index
    have hi' : l'[i]? = some s := by
      rw [Store.getElem?_later hpre (List.getElem?_eq_some_iff.1 hi).1]
      exact hi
    have hji : j ≠ i := by
      rintro rfl
      rw [hget] at hi'
      exact hx (Option.some.inj hi')
    exact ⟨_, hhas, h.holds.of_writes (t.writes_declareAt j x a) hfits hji⟩

/-- A store that reaches the member is one to its slot, unless it comes from
outside and the member is not public. -/
theorem Stores.assign (h : b.Stores e shape t i s slot) {ref : SlotRef}
    (href : (Owner.block b).reaches e i s ref = true) (v : Value) :
    (e.assign ref v).2.store.shapes = e.store.shapes ∧
      ((e.assign ref v).1 = .ofExcept (t.assignAt i ref.symbol v).1 ∧
          b.Has (e.assign ref v).2 shape (t.assignAt i ref.symbol v).2 ∨
        slot.isPublic = false ∧ (∃ source, ref = .mixin source s) ∧
          (e.assign ref v).1 = .raised (ErrorKind.noSuchMember s) ∧
          b.Has (e.assign ref v).2 shape t) := by
  rcases Owner.reaches_block.1 href with ⟨x, rfl⟩ | ⟨source, d, rfl, hsource, hd⟩
  · obtain ⟨hshapes, hans, hhas⟩ := h.has.assign h.holds.fits x v
    rw [symbol_slot]
    exact ⟨hshapes, .inl ⟨hans, hhas⟩⟩
  · obtain ⟨hshapes, ⟨j, hj, -, -, hans, hhas⟩ | ⟨hprivate, hans, hhas⟩⟩ :=
      h.has.assignPublic hsource hd s v
    · rw [h.index] at hj
      cases hj
      exact ⟨hshapes, .inl ⟨hans, hhas⟩⟩
    · have hslot := hprivate i h.index
      rw [h.holds.slotAt] at hslot
      exact ⟨hshapes, .inr ⟨hslot, ⟨source, rfl⟩, hans, hhas⟩⟩

/-- A store that does not reach the member leaves its slot alone. -/
theorem Stores.assign_other (h : b.Stores e shape t i s slot) (ho : e.store.Ordered)
    {ref : SlotRef} (href : (Owner.block b).reaches e i s ref = false)
    (hours : b.holds ref = true ∨ b.feeds e ref = true) (v : Value) :
    ∃ t', b.Has (e.assign ref v).2 shape t' ∧ t'.Holds i slot := by
  have hno : ¬ (Owner.block b).reaches e i s ref = true := by simp [href]
  rw [Owner.reaches_block, not_or] at hno
  rcases hours with hholds | hfeeds
  · obtain ⟨j, x, rfl⟩ := holds_iff.1 hholds
    have hji : j ≠ i := by
      rintro rfl
      exact hno.1 ⟨x, rfl⟩
    cases hfits : t.fits (j + 1) with
    | false =>
        rw [h.has.assign_of_full hfits]
        exact ⟨t, h.has, h.holds⟩
    | true =>
        obtain ⟨-, -, hhas⟩ := h.has.assign hfits x v
        exact ⟨_, hhas, h.holds.of_writes (t.writes_assignAt j x v) hfits hji⟩
  · obtain ⟨source, x, d, rfl, hsource, hd⟩ := feeds_iff.1 hfeeds
    have hx : x ≠ s := by
      rintro rfl
      exact hno.2 ⟨source, d, rfl, hsource, hd⟩
    obtain ⟨-, ⟨j, hj, hlt, -, -, hhas⟩ | ⟨-, -, hhas⟩⟩ := h.has.assignPublic hsource hd x v
    · obtain ⟨l, hl⟩ := ho.numbers shape
      have hji : j ≠ i := by
        rintro rfl
        have hi := hl.slotOf?_eq_some_iff.1 h.index
        rw [hl.slotOf?_eq_some_iff.1 hj] at hi
        exact hx (Option.some.inj hi)
      -- the row has the slot already, so it is not made longer
      rcases t.writes_assignAt j x v with hrow | ⟨y, hrow⟩
      · rw [hrow, MemberTable.materialize_of_lt hlt] at hhas
        exact ⟨t, hhas, h.holds⟩
      · rw [hrow, MemberTable.materialize_of_lt hlt] at hhas
        exact ⟨_, hhas, h.holds.setSlot_of_ne hji y⟩
    · exact ⟨t, hhas, h.holds⟩

end Block

/-! ## A constant in a global scope -/

namespace Store

variable {st st' : Store} {id : GlobalId} {g : GlobalScope} {s : Symbol} {slot : Slot}

/-- The members of the global scope, if it is there, are what they were. -/
def KeepsGlobal (st st' : Store) (id : GlobalId) : Prop :=
  ∀ g, st.globals[id]? = some g →
    ∃ g', st'.globals[id]? = some g' ∧ ∀ s, g'.get? s = g.get? s

/-- The global scope has declared the symbol to be this. -/
def HasGlobal (st : Store) (id : GlobalId) (s : Symbol) (slot : Slot) : Prop :=
  ∃ g, st.globals[id]? = some g ∧ g.get? s = some slot

theorem HasGlobal.setGlobal (h : st.HasGlobal id s slot) {j : GlobalId} {x : Symbol}
    (hg : st.globals[j]? = some g) (hother : j ≠ id ∨ x ≠ s) (slot' : Slot) :
    (st.setGlobal j (g.set x slot')).HasGlobal id s slot := by
  obtain ⟨g₀, hg₀, hs⟩ := h
  refine ⟨_, getElem?_setGlobal hg₀ j _, ?_⟩
  split
  · next hj =>
      subst hj
      rw [hg] at hg₀
      cases hg₀
      rw [GlobalScope.get?_set, if_neg fun hx => hother.elim (absurd rfl) (absurd hx.symm)]
      exact hs
  · exact hs

/-- A constant is not defined again. -/
theorem HasGlobal.define (h : st.HasGlobal id s slot) (hconst : slot.isConst = true) (v : Value) :
    st.define id s v = (.raised (ErrorKind.duplicateDeclaration s), st) := by
  obtain ⟨g, hg, hs⟩ := h
  have hdeclare := declare_global hg s .exposed
  rw [hs, Option.getD_some, if_pos hconst] at hdeclare
  simp only [Store.define, hdeclare]

/-- Defining another symbol, or one of another global scope, is no matter. -/
theorem HasGlobal.define_other (h : st.HasGlobal id s slot) {j : GlobalId} {x : Symbol}
    (hother : j ≠ id ∨ x ≠ s) (v : Value) : (st.define j x v).2.HasGlobal id s slot := by
  cases hj : st.globals[j]? with
  | none =>
      have hdeclare : st.declare (.ofGlobal j) x .exposed =
          (.raised (ErrorKind.noSuchMember x), st) := by
        simp only [Store.declare, DurableScope.ofGlobal, hj]
      simp only [Store.define, hdeclare]
      exact h
  | some g =>
      have hdeclare := declare_global hj x .exposed
      by_cases hconst : ((g.get? x).getD .undeclared).isConst
      · rw [if_pos hconst] at hdeclare
        simp only [Store.define, hdeclare]
        exact h
      · rw [if_neg hconst] at hdeclare
        simp only [Store.define, hdeclare]
        -- it is declared, and then it is assigned
        have hdeclared := h.setGlobal hj hother (Slot.undeclared.declare .exposed)
        have hg' := getElem?_setGlobal hj j (g.set x (Slot.undeclared.declare .exposed))
        rw [if_pos rfl] at hg'
        have hx : (g.set x (Slot.undeclared.declare .exposed)).get? x =
            some (Slot.undeclared.declare .exposed) := by
          rw [GlobalScope.get?_set, if_pos rfl]
        rw [assignGlobal_of_some hg' hx]
        cases (Slot.undeclared.declare .exposed).assign v with
        | error err => exact hdeclared
        | ok slot' => exact hdeclared.setGlobal hg' hother slot'

end Store

/-! ## One operation -/

namespace Outcome

def isDone {α : Type} : Outcome α → Bool
  | .done _ => true
  | _ => false

theorem eq_of_place {o : Outcome SlotRef} {id : HeapId} {i : Nat} {s : Symbol}
    (h : (match o with
      | .done (.heap id i s) => some (id, i, s)
      | _ => none) = some (id, i, s)) : o = .done (.heap id i s) := by
  split at h
  · cases h
    rfl
  · cases h

end Outcome

namespace Owner

variable {c : Owner} {e : Engine} {i : Nat} {s : Symbol} {slot : Slot} {ref : SlotRef}

/-- The owner has declared the symbol, and this is its slot; that of a block is
at the number that the shape gives to the symbol. -/
def Keeps (c : Owner) (e : Engine) (i : Nat) (s : Symbol) (slot : Slot) : Prop :=
  match c with
  | block b => ∃ shape t, b.Stores e shape t i s slot
  | global id => e.store.HasGlobal id s slot

theorem Keeps.member? (h : c.Keeps e i s slot) (hdecl : slot.isDeclared = true) :
    c.member? e s = some slot := by
  cases c with
  | block b =>
      obtain ⟨shape, t, h⟩ := h
      exact h.own? hdecl
  | global id =>
      obtain ⟨g, hg, hs⟩ := h
      rw [Owner.member?, hg]
      exact hs

theorem Keeps.resolve (h : c.Keeps e i s slot) (hdecl : slot.isDeclared = true) :
    e.resolve c.scope s = .ok (c.slot i s) := by
  cases c with
  | block b =>
      obtain ⟨shape, t, h⟩ := h
      exact h.resolve hdecl
  | global id =>
      obtain ⟨g, hg, hs⟩ := h
      refine Engine.resolve_of_findOwn? ?_
      simp only [scope, ScopeRef.ofGlobal, DurableScope.ofGlobal, Engine.findOwn?, Store.findOwn?,
        Store.findGlobal?, hg, Option.bind_some, hs]
      rfl

theorem Keeps.load (h : c.Keeps e i s slot) : e.load (c.slot i s) = .ok slot.value := by
  cases c with
  | block b =>
      obtain ⟨shape, t, h⟩ := h
      exact h.load
  | global id =>
      obtain ⟨g, hg, hs⟩ := h
      simp only [Owner.slot, Engine.load, Store.load, hg, Option.bind_some, hs, Option.map_some,
        Option.getD_some]

theorem Keeps.load_mixin (h : c.Keeps e i s slot) (hpublic : slot.isPublic = true)
    {source : SourceId} (hfeeds : c.feeds e source = true) :
    e.load (.mixin source s) = .ok slot.value := by
  obtain ⟨d, hsource, hd⟩ := feeds_iff.1 hfeeds
  cases c with
  | block b =>
      obtain ⟨shape, t, h⟩ := h
      exact h.load_mixin hpublic hsource hd
  | global id =>
      cases hd
      obtain ⟨g, hg, hs⟩ := h
      simp only [Engine.load, Store.load, Store.sourceMember?, hsource, Store.publicMember?,
        DurableScope.ofGlobal, hg, Option.bind_some, hs, Option.filter_some, hpublic, if_true,
        Option.map_some, Option.getD_some]

theorem Keeps.declare (h : c.Keeps e i s slot) (ho : e.store.Ordered)
    (hconst : slot.isConst = true) (a : Attributes) :
    (e.declare c.scope s a).1 = .raised (ErrorKind.duplicateDeclaration s) ∧
      c.Keeps (e.declare c.scope s a).2 i s slot := by
  cases c with
  | block b =>
      obtain ⟨shape, t, h⟩ := h
      obtain ⟨hans, hhas⟩ := h.declare ho hconst a
      have hd := Op.develops_perform e (.declare b.scope s a) nofun
      exact ⟨hans, shape, t, h.develop ho hd hhas h.holds⟩
  | global id =>
      obtain ⟨store, frame⟩ := e
      have hkeeps := h
      obtain ⟨g, hg, hs⟩ := h
      have hdeclare := Store.declare_global hg s a
      rw [hs, Option.getD_some, if_pos hconst] at hdeclare
      simp only [scope, ScopeRef.ofGlobal, Engine.declare, hdeclare]
      exact ⟨trivial, hkeeps⟩

/-- A store that reaches the member ends as one to its slot does. From outside
it may be refused before. -/
theorem Keeps.assign (h : c.Keeps e i s slot) (ho : e.store.Ordered)
    (href : c.reaches e i s ref = true) (v : Value) :
    (∃ slot', slot.assign v = .ok slot' ∧ (e.assign ref v).1 = .done () ∧
        c.Keeps (e.assign ref v).2 i s slot') ∨
      (∃ err, slot.assign v = .error err ∧
        (e.assign ref v).1 = .raised (ErrorKind.ofAssign ref.symbol err) ∧
        c.Keeps (e.assign ref v).2 i s slot) ∨
      slot.isPublic = false ∧ (∃ source, ref = .mixin source s) ∧
        (e.assign ref v).1 = .raised (ErrorKind.noSuchMember s) ∧
        c.Keeps (e.assign ref v).2 i s slot := by
  cases c with
  | block b =>
      obtain ⟨shape, t, h⟩ := h
      obtain ⟨hshapes, ⟨hans, hhas⟩ | ⟨hprivate, hmixin, hans, hhas⟩⟩ := h.assign href v
      · have hd : e.store.Develops (e.assign ref v).2.store := Store.develops_of_shapes_eq hshapes
        rw [h.holds.assignAt] at hans hhas
        cases hv : slot.assign v with
        | error err =>
            rw [hv] at hans hhas
            exact .inr (.inl ⟨err, rfl, hans, shape, t, h.develop ho hd hhas h.holds⟩)
        | ok slot' =>
            rw [hv] at hans hhas
            exact .inl ⟨slot', rfl, hans, shape, _, h.develop ho hd hhas (h.holds.setSlot slot')⟩
      · have hd : e.store.Develops (e.assign ref v).2.store := Store.develops_of_shapes_eq hshapes
        exact .inr (.inr ⟨hprivate, hmixin, hans, shape, t, h.develop ho hd hhas h.holds⟩)
  | global id =>
      obtain ⟨store, frame⟩ := e
      have hkeeps := h
      obtain ⟨g, hg, hs⟩ := h
      have hleads : store.LeadsTo ref id s := reaches_global.1 href
      have hsymbol : ref.symbol = s := by
        rcases hleads with rfl | ⟨source, rfl, -⟩ <;> rfl
      rw [hleads.engine_assign_eq, Store.assignGlobal_of_some hg hs, hsymbol]
      cases hv : slot.assign v with
      | error err => exact .inr (.inl ⟨err, rfl, rfl, hkeeps⟩)
      | ok slot' =>
          refine .inl ⟨slot', rfl, rfl, _, Store.getElem?_setGlobal hg id _, ?_⟩
          rw [if_pos rfl, GlobalScope.get?_set, if_pos rfl]

end Owner

/-- The value that an operation stores in the member, if it is a store that
reaches the member and succeeds. -/
def Op.stored? (c : Owner) (e : Engine) (i : Nat) (s : Symbol) : Op → Option Value
  | .assign ref v => if c.reaches e i s ref && (e.assign ref v).1.isDone then some v else none
  | _ => none

namespace Machine

/-- What an operation does with state that is not its own, global scopes
included: what happens to these elsewhere leaves their members alone or is the
definition of one. -/
structure Heeds (m : Machine) (o : Op) : Prop extends m.Respects o where
  globals : ∀ st, o = .share st → (∀ id, m.engine.store.KeepsGlobal st id) ∨
    ∃ id s v, st = (m.engine.store.define id s v).2

end Machine

namespace Owner

variable {c : Owner} {m : Machine} {o : Op} {base i : Nat} {s : Symbol} {slot : Slot}

/-- An operation that is no store to a constant of a block leaves it alone. -/
theorem keeps_after_block {b : Block} (h : (block b).Keeps m.engine i s slot)
    (hconst : slot.isConst = true) (hm : m.Tracked) (hw : m.Owned) (ho : m.engine.store.Ordered)
    (hallows : Machine.Allows base m o) (hheeds : m.Heeds o) (hlast : b.Lasts m (m.after o))
    (hno : ∀ ref v, o = .assign ref v → (block b).reaches m.engine i s ref = false) :
    (block b).Keeps (m.after o).engine i s slot := by
  obtain ⟨shape, t, h⟩ := h
  have hd : m.engine.store.Develops (m.after o).engine.store :=
    o.develops_perform m.engine hheeds.develops
  cases haddressed : b.addressed? m.engine o with
  | none =>
      have hhas := h.has.after_other hm hw hallows hheeds.toRespects hlast haddressed
      exact ⟨shape, t, h.develop ho hd hhas h.holds⟩
  | some act =>
      cases o with
      | declare r x a =>
          have hr : r = b.scope := by
            by_contra hr
            rw [Block.addressed?, if_neg fun hat => hr (Block.isAt_iff.1 hat)] at haddressed
            cases haddressed
          subst hr
          by_cases hx : x = s
          · subst hx
            exact ((Owner.Keeps.declare (c := .block b) ⟨shape, t, h⟩ ho hconst a)).2
          · obtain ⟨t', hhas, hholds⟩ := h.declare_of_ne ho hx a
            exact ⟨shape, t', h.develop ho hd hhas hholds⟩
      | assign ref v =>
          have hours : b.holds ref = true ∨ b.feeds m.engine ref = true := by
            by_contra hnot
            rw [not_or] at hnot
            rw [Block.addressed?, if_neg hnot.1, if_neg hnot.2] at haddressed
            cases haddressed
          obtain ⟨t', hhas, hholds⟩ := h.assign_other ho (hno ref v rfl) hours v
          exact ⟨shape, t', h.develop ho hd hhas hholds⟩
      | _ => cases haddressed

theorem keeps_after_global {id : GlobalId} (h : (global id).Keeps m.engine i s slot)
    (hconst : slot.isConst = true) (hheeds : m.Heeds o)
    (hno : ∀ ref v, o = .assign ref v → (global id).reaches m.engine i s ref = false) :
    (global id).Keeps (m.after o).engine i s slot := by
  have hkeeps : m.engine.store.HasGlobal id s slot := h
  obtain ⟨g, hg, hs⟩ := h
  by_cases hshare : ∃ st, o = .share st
  · obtain ⟨st, rfl⟩ := hshare
    show st.HasGlobal id s slot
    rcases hheeds.globals st rfl with hsame | ⟨j, x, v, rfl⟩
    · obtain ⟨g', hg', hget⟩ := hsame id g hg
      exact ⟨g', hg', (hget s).trans hs⟩
    · by_cases hother : j ≠ id ∨ x ≠ s
      · exact hkeeps.define_other hother v
      · rw [not_or, not_not, not_not] at hother
        obtain ⟨rfl, rfl⟩ := hother
        rw [hkeeps.define hconst]
        exact hkeeps
  · obtain ⟨g', hg', hremakes⟩ := Op.global_perform (fun st hst => hshare ⟨st, hst⟩) hg
    refine ⟨g', hg', ?_⟩
    cases hremakes with
    | keeps _ hsame =>
        rw [GlobalScope.get?, hsame]
        exact hs
    | declare x a hnew =>
        have hx : ¬ s = x := by
          rintro rfl
          rw [hs, Option.getD_some, hconst] at hnew
          cases hnew
        rw [GlobalScope.get?_set, if_neg hx]
        exact hs
    | @assign ref x y y' v hleads hx hassign =>
        have hsx : ¬ s = x := by
          rintro rfl
          have hnot := hno ref v rfl
          rw [reaches_global.2 hleads] at hnot
          cases hnot
        rw [GlobalScope.get?_set, if_neg hsx]
        exact hs

/-- One operation: a constant stays as it is, or it is stored to for the first
time. -/
theorem Keeps.after (h : c.Keeps m.engine i s slot) (hconst : slot.isConst = true)
    (hm : m.Tracked) (hw : m.Owned) (ho : m.engine.store.Ordered)
    (hallows : Machine.Allows base m o) (hheeds : m.Heeds o) (hlast : c.Lasts m (m.after o)) :
    c.Keeps (m.after o).engine i s ((o.stored? c m.engine i s).elim slot slot.keeping) ∧
      ((o.stored? c m.engine i s).isSome → slot.isSealed = false) := by
  by_cases hreach : ∃ ref v, o = .assign ref v ∧ c.reaches m.engine i s ref = true
  · obtain ⟨ref, v, rfl, href⟩ := hreach
    rcases h.assign ho href v with ⟨slot', hv, hans, hkeeps⟩ | ⟨err, -, hans, hkeeps⟩ |
      ⟨-, -, hans, hkeeps⟩
    · obtain ⟨hopen, rfl⟩ := Slot.keeping_of_assign hconst hv
      have hstored : (Op.assign ref v).stored? c m.engine i s = some v := by
        simp [Op.stored?, href, hans, Outcome.isDone]
      rw [hstored]
      exact ⟨hkeeps, fun _ => hopen⟩
    · have hstored : (Op.assign ref v).stored? c m.engine i s = none := by
        simp [Op.stored?, hans, Outcome.isDone]
      rw [hstored]
      exact ⟨hkeeps, nofun⟩
    · have hstored : (Op.assign ref v).stored? c m.engine i s = none := by
        simp [Op.stored?, hans, Outcome.isDone]
      rw [hstored]
      exact ⟨hkeeps, nofun⟩
  · have hno : ∀ ref v, o = .assign ref v → c.reaches m.engine i s ref = false := by
      intro ref v hov
      by_contra href
      exact hreach ⟨ref, v, hov, by simpa using href⟩
    have hstored : o.stored? c m.engine i s = none := by
      cases o with
      | assign ref v => simp [Op.stored?, hno ref v rfl]
      | _ => rfl
    rw [hstored]
    refine ⟨?_, nofun⟩
    cases c with
    | block b => exact keeps_after_block h hconst hm hw ho hallows hheeds hlast hno
    | global id => exact keeps_after_global h hconst hheeds hno

theorem Lasts.cons {os : List Op} (h : c.Lasts m (m.run (o :: os))) :
    c.Lasts m (m.after o) ∧ c.Lasts (m.after o) ((m.after o).run os) := by
  cases c with
  | block b => exact Block.Lasts.cons h
  | global id => exact ⟨trivial, trivial⟩

end Owner

/-! ## Every run -/

namespace Machine

variable {m : Machine} {os os' : List Op} {base : Nat} {c : Owner} {i : Nat} {s : Symbol}

def Heedful (m : Machine) : List Op → Prop
  | [] => True
  | o :: os => m.Heeds o ∧ (m.after o).Heedful os

/-- The values that a run stores in the member, in order. -/
def stored (m : Machine) (c : Owner) (i : Nat) (s : Symbol) : List Op → List Value
  | [] => []
  | o :: os => (o.stored? c m.engine i s).toList ++ (m.after o).stored c i s os

theorem heedful_append :
    m.Heedful (os ++ os') ↔ m.Heedful os ∧ (m.run os).Heedful os' := by
  induction os generalizing m with
  | nil => exact (and_iff_right trivial).symm
  | cons o os ih => exact (and_congr_right fun _ => ih).trans and_assoc.symm

theorem Heedful.respectful (h : m.Heedful os) : m.Respectful os := by
  induction os generalizing m with
  | nil => trivial
  | cons o os ih => exact ⟨h.1.toRespects, ih h.2⟩

end Machine

namespace Owner

variable {c : Owner} {m : Machine} {os : List Op} {base i : Nat} {s : Symbol} {slot : Slot}

/-- A run stores once in a constant that is open, and not at all in one that is
sealed. -/
theorem Keeps.run (h : c.Keeps m.engine i s slot) (hconst : slot.isConst = true)
    (hm : m.Tracked) (hw : m.Owned) (ho : m.engine.store.Ordered)
    (hos : Machine.Lawful base m os) (hr : m.Heedful os) (hlast : c.Lasts m (m.run os)) :
    (m.stored c i s os = [] ∧ c.Keeps (m.run os).engine i s slot) ∨
      slot.isSealed = false ∧ ∃ v, m.stored c i s os = [v] ∧
        c.Keeps (m.run os).engine i s (slot.keeping v) := by
  induction os generalizing m slot with
  | nil => exact .inl ⟨rfl, h⟩
  | cons o os ih =>
      obtain ⟨hone, hrest⟩ := hlast.cons
      obtain ⟨hkeeps, hopen⟩ := h.after hconst hm hw ho hos.1 hr.1 hone
      have ho' := ho.develop (o.develops_perform m.engine hr.1.develops)
      have hw' := hw.after hm hos.1
      rw [Machine.stored]
      cases hstored : o.stored? c m.engine i s with
      | none =>
          rw [hstored] at hkeeps
          exact ih hkeeps hconst (hm.after o) hw' ho' hos.2 hr.2 hrest
      | some v =>
          rw [hstored] at hkeeps hopen
          refine .inr ⟨hopen rfl, v, ?_⟩
          have hsealed : (slot.keeping v).isConst = true := hconst
          rcases ih hkeeps hsealed (hm.after o) hw' ho' hos.2 hr.2 hrest with
            ⟨hnone, hkeeps'⟩ | ⟨habsurd, -⟩
          · rw [hnone]
            exact ⟨rfl, hkeeps'⟩
          · cases habsurd

theorem keeps_of_declare {e : Engine} {a : Attributes} (ho : e.store.Ordered)
    (h : (e.declare c.scope s a).1 = .done (c.slot i s)) :
    c.Keeps (e.declare c.scope s a).2 i s (Slot.undeclared.declare a) := by
  cases c with
  | block b => exact Block.stores_of_declare ho h
  | global id =>
      obtain ⟨store, frame⟩ := e
      cases hg : store.globals[id]? with
      | none =>
          simp only [scope, ScopeRef.ofGlobal, DurableScope.ofGlobal, Engine.declare,
            Store.declare, hg] at h
          cases h
      | some g =>
          have hdeclare := Store.declare_global hg s a
          simp only [scope, ScopeRef.ofGlobal, Engine.declare] at h ⊢
          rw [hdeclare] at h ⊢
          split at h
          · cases h
          · next hconst =>
              rw [if_neg hconst]
              refine ⟨_, Store.getElem?_setGlobal hg id _, ?_⟩
              rw [if_pos rfl, GlobalScope.get?_set, if_pos rfl]

/-- The symbol cannot be declared again, and trying to changes nothing. -/
structure Guarded (c : Owner) (e : Engine) (s : Symbol) : Prop where
  declare : ∀ a, (e.declare c.scope s a).1 = .raised (ErrorKind.duplicateDeclaration s) ∧
    c.member? (e.declare c.scope s a).2 s = c.member? e s
  define : ∀ id v, c = global id →
    e.store.define id s v = (.raised (ErrorKind.duplicateDeclaration s), e.store)

/-- The member has its value for good: every way to read it gives the value,
every way to write it is refused, and being refused changes nothing. -/
structure Settled (c : Owner) (e : Engine) (i : Nat) (s : Symbol) (a : Attributes) (v : Value) :
    Prop where
  /-- The slot there was is the one a new lookup finds. -/
  resolve : e.resolve c.scope s = .ok (c.slot i s)
  load : e.load (c.slot i s) = .ok v
  loadMixin : a.isPublic = true → ∀ source, c.feeds e source = true →
    e.load (.mixin source s) = .ok v
  assign : ∀ ref w, c.reaches e i s ref = true → w.isUndefined = false →
    ((e.assign ref w).1 = .raised (ErrorKind.constReassignment ref.symbol) ∨
        a.isPublic = false ∧ (∃ source, ref = .mixin source s) ∧
          (e.assign ref w).1 = .raised (ErrorKind.noSuchMember s)) ∧
      c.member? (e.assign ref w).2 s = c.member? e s

theorem Keeps.guarded {e : Engine} (h : c.Keeps e i s slot) (ho : e.store.Ordered)
    (hdecl : slot.isDeclared = true) (hconst : slot.isConst = true) : c.Guarded e s where
  declare := by
    intro a
    obtain ⟨hans, hkeeps⟩ := h.declare ho hconst a
    rw [h.member? hdecl]
    exact ⟨hans, hkeeps.member? hdecl⟩
  define := by
    rintro id v rfl
    exact Store.HasGlobal.define h hconst v

theorem Keeps.settled {e : Engine} {a : Attributes} {v : Value} (ho : e.store.Ordered)
    (ha : a.isConst = true) (h : c.Keeps e i s ((Slot.undeclared.declare a).keeping v)) :
    c.Settled e i s a v where
  resolve := h.resolve rfl
  load := h.load
  loadMixin := fun hpublic _ hfeeds => h.load_mixin hpublic hfeeds
  assign := by
    intro ref w href hw
    have hsealed : ((Slot.undeclared.declare a).keeping v).assign w = .error .isConst :=
      Slot.assign_of_sealed ha rfl hw
    rw [h.member? rfl]
    rcases h.assign ho href w with ⟨slot', hok, -⟩ | ⟨err, herr, hans, hkeeps⟩ |
      ⟨hprivate, hmixin, hans, hkeeps⟩
    · rw [hsealed] at hok
      cases hok
    · rw [hsealed] at herr
      cases herr
      exact ⟨.inl hans, hkeeps.member? rfl⟩
    · exact ⟨.inr ⟨hprivate, hmixin, hans⟩, hkeeps.member? rfl⟩

end Owner

namespace Machine

/-- Once a constant is declared in a scope, whatever is done later stores in it
at most once, for as long as the scope is there, and nothing declares it again.
After that store the constant has its value for good. -/
theorem constants_are_written_once {store : Store} {config : FrameConfig} {global : GlobalId}
    {flag : FlagId} {before later : List Op} {c : Owner} {i : Nat} {s : Symbol} {a : Attributes}
    (hstore : store.Ordered) (ha : a.isConst = true)
    (hos : Lawful 0 (start store config global flag) (before ++ .declare c.scope s a :: later))
    (hr : (start store config global flag).Heedful (before ++ .declare c.scope s a :: later))
    (hdecl : (((start store config global flag).run before).engine.declare c.scope s a).1 =
      .done (c.slot i s)) :
    let m := ((start store config global flag).run before).after (.declare c.scope s a)
    c.Lasts m (m.run later) →
      (m.stored c i s later).length ≤ 1 ∧ c.Guarded (m.run later).engine s ∧
        ∀ v ∈ m.stored c i s later, c.Settled (m.run later).engine i s a v := by
  intro m hlast
  obtain ⟨hbefore, ho, hlater⟩ := lawful_append.1 hos
  obtain ⟨hrbefore, hro, hrlater⟩ := heedful_append.1 hr
  have hm₀ : ((start store config global flag).run before).Tracked := (tracked_start ..).run before
  have hw₀ : ((start store config global flag).run before).Owned :=
    (owned_start store config global flag).run (tracked_start ..) hbefore
  have hord₀ := hstore.develop hrbefore.respectful.sharing.develops
  have hord : m.engine.store.Ordered := hord₀.develop (Op.develops_perform _ _ hro.develops)
  have hord' : (m.run later).engine.store.Ordered :=
    hord.develop hrlater.respectful.sharing.develops
  have hkeeps : c.Keeps m.engine i s (Slot.undeclared.declare a) :=
    Owner.keeps_of_declare hord₀ hdecl
  rcases hkeeps.run ha (hm₀.after _) (hw₀.after hm₀ ho) hord hlater hrlater hlast with
    ⟨hnone, hkeeps'⟩ | ⟨-, v, hone, hkeeps'⟩
  · rw [hnone]
    exact ⟨Nat.zero_le _, hkeeps'.guarded hord' rfl ha, nofun⟩
  · rw [hone]
    refine ⟨Nat.le_refl _, hkeeps'.guarded hord' rfl ha, fun w hw => ?_⟩
    rw [List.mem_singleton.1 hw]
    exact hkeeps'.settled hord' ha

/-- A constant of a block on the heap is stored to from outside, and then by the
block itself. -/
theorem constant_stored_through_mixin :
    let h : HeapScope :=
      { kind := .block, previous := .ofGlobal 0, shape := 0, members := .empty }
    let start := start { shapes := #[.empty], heaps := #[h, h], globals := #[{}] } {} 0 0
    let x : Symbol := ⟨500, by decide⟩
    let a : Attributes := { isPublic := true, isConst := true }
    let c := Owner.block (.heap 0)
    let before : List Op := [.declare (.durable (.ofHeap 1)) ⟨501, by decide⟩ .exposed]
    let later : List Op :=
      [.mixin (.durable (.ofHeap 1)) (.scope (.ofHeap 0)), .assign (.mixin 0 x) (.int 7),
        .assign (.heap 0 1 x) (.int 8), .declare (.durable (.ofHeap 0)) x .exposed]
    let m := (start.run before).after (.declare c.scope x a)
    Lawful 0 start (before ++ .declare c.scope x a :: later) ∧
      ∃ v, m.stored c 1 x later = [v] ∧ v.asInt? = some 7 ∧
        c.Guarded (m.run later).engine x ∧ c.Settled (m.run later).engine 1 x a v := by
  intro h start x a c before later m
  have hstore : start.engine.store.Ordered := Store.ordered_of_made Shape.made_empty #[{}]
  have hos : Lawful 0 start (before ++ .declare c.scope x a :: later) := by decide +kernel
  have hr : start.Heedful (before ++ .declare c.scope x a :: later) :=
    ⟨⟨⟨nofun, nofun, nofun⟩, nofun⟩, ⟨⟨nofun, nofun, nofun⟩, nofun⟩, ⟨⟨nofun, nofun, nofun⟩, nofun⟩,
      ⟨⟨nofun, nofun, nofun⟩, nofun⟩, ⟨⟨nofun, nofun, nofun⟩, nofun⟩,
      ⟨⟨nofun, nofun, nofun⟩, nofun⟩, trivial⟩
  have hdecl : ((start.run before).engine.declare c.scope x a).1 = .done (c.slot 1 x) :=
    Outcome.eq_of_place (by decide +kernel)
  have hstored : (m.stored c 1 x later).map Value.asInt? = [some 7] := by decide +kernel
  obtain ⟨v, hone, hv⟩ := List.map_eq_singleton_iff.1 hstored
  obtain ⟨-, hguarded, hsettled⟩ := constants_are_written_once hstore rfl hos hr hdecl trivial
  exact ⟨hos, v, hone, hv, hguarded, hsettled v (hone ▸ List.mem_singleton_self v)⟩

end Machine

end ScriptCore

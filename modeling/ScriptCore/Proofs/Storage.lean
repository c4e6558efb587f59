import ScriptCore.Proofs.Mixins
import ScriptCore.Proofs.Walks

/-!
# Where members are stored

A member that can be written is stored in one of three kinds of places: at an
index of a table in the pool, at an index of a scope on the heap, or under its
symbol in a global scope. A slot refers to such a storage, directly or through
the source that it was found in. What is frozen is stored nowhere else.

Reading is local. A load reads the one storage its slot refers to. A lookup
reads the storages where the scopes of a chain, and what is mixed into them,
would have the symbol, and of these it reads the attributes only. So two
engines that differ nowhere else and agree there give the same answers, which
is how an operation is seen to leave an answer alone.
-/

namespace ScriptCore

/-- Where a member that can be written is stored. -/
inductive Storage where
  | pooled (table : PoolKey) (index : Nat)
  | heap (id : HeapId) (index : Nat)
  | global (id : GlobalId) (symbol : Symbol)
  deriving DecidableEq

/-- The storage of a symbol in the innermost scope of a chain, declared or not.
There is none in a frozen scope, and none for what its shape does not know. -/
def Store.storageOf? (st : Store) (d : DurableScope) (s : Symbol) : Option Storage :=
  match d.frozen, d.anchor with
  | _ :: _, _ => none
  | [], .heap id => st.heaps[id]?.bind fun h => (st.slotOf? h.shape s).map (.heap id)
  | [], .global id => some (.global id s)

/-- The shape that the innermost scope of a chain shares. -/
def Store.shapeOf? (st : Store) (d : DurableScope) : Option ShapeId :=
  match d.frozen, d.anchor with
  | f :: _, _ => some f.shape
  | [], .heap id => st.heaps[id]?.map (·.shape)
  | [], .global _ => none

theorem Store.frozen_eq_nil_of_storageOf? {st : Store} {d : DurableScope} {s : Symbol} {p : Storage}
    (h : st.storageOf? d s = some p) : d.frozen = [] := by
  obtain ⟨_ | ⟨f, frozen⟩, anchor⟩ := d
  · rfl
  · cases h

/-- A heap scope without its members. -/
def HeapScope.outline (h : HeapScope) : HeapScope := { h with members := .empty }

theorem HeapScope.shape_of_outline {h h' : HeapScope} (hsame : h'.outline = h.outline) :
    h'.shape = h.shape := by
  have hshape := congrArg HeapScope.shape hsame
  exact hshape

theorem HeapScope.mixins_of_outline {h h' : HeapScope} (hsame : h'.outline = h.outline) :
    h'.mixins = h.mixins := by
  have hmixins := congrArg HeapScope.mixins hsame
  exact hmixins

namespace Engine

/-- The storage of a symbol in a scope itself, declared or not. -/
def storageOf? (e : Engine) (r : ScopeRef) (s : Symbol) : Option Storage :=
  match r with
  | .pooled k =>
    (e.frame.scope? k).bind fun own => (e.store.slotOf? own.shape s).map (.pooled own.members)
  | .durable d => e.store.storageOf? d s

/-- The storage a slot refers to. -/
def storage? (e : Engine) : SlotRef → Option Storage
  | .pooled t i _ => some (.pooled t i)
  | .heap id i _ => some (.heap id i)
  | .frozen _ _ _ => none
  | .global id s => some (.global id s)
  | .mixin source s =>
    match e.store.sources[source]? with
    | some (.scope d) => e.store.storageOf? d s
    | _ => none

/-- What is stored there. A row that is there has undeclared slots behind its
last. -/
def slotIn? (e : Engine) : Storage → Option Slot
  | .pooled t i => (e.frame.tables.get? t).map (·.slotAt i)
  | .heap id i => e.store.heaps[id]?.map (·.members.slotAt i)
  | .global id s => e.store.globals[id]?.bind (·.get? s)

/-- From one engine to the other only shapes and what is stored may change:
scopes stay where they are in their chains, and keep their shapes, their tables
and what is mixed into them. -/
structure SameOutline (e e' : Engine) : Prop where
  scopes : e'.frame.scopes = e.frame.scopes
  heaps : e'.store.heaps.map HeapScope.outline = e.store.heaps.map HeapScope.outline
  globals : e'.store.globals.map (·.mixins) = e.store.globals.map (·.mixins)
  sources : e'.store.sources = e.store.sources

end Engine

namespace MemberTable

variable {t : MemberTable} {i : Nat} {slot : Slot}

theorem slotAt_of_get? (h : t.get? i = some slot) : t.slotAt i = slot := by
  rw [slotAt, h]
  rfl

theorem slotAt_of_none (h : t.get? i = none) : t.slotAt i = .undeclared := by
  rw [slotAt, h]
  rfl

/-- Reading behind the last slot is reading an undeclared one. -/
theorem value_slotAt (t : MemberTable) (i : Nat) :
    ((t.get? i).map Slot.value).getD .undefined = (t.slotAt i).value := by
  cases h : t.get? i with
  | none => rw [slotAt_of_none h]; rfl
  | some slot => rw [slotAt_of_get? h]; rfl

theorem any_isDeclared_get? (t : MemberTable) (i : Nat) :
    (t.get? i).any Slot.isDeclared = (t.slotAt i).isDeclared := by
  cases h : t.get? i with
  | none => rw [slotAt_of_none h]; rfl
  | some slot => rw [slotAt_of_get? h]; rfl

theorem filter_isPublic_get? (t : MemberTable) (i : Nat) :
    (t.get? i).filter Slot.isPublic = (some (t.slotAt i)).filter Slot.isPublic := by
  cases h : t.get? i with
  | none => rw [slotAt_of_none h]; rfl
  | some slot => rw [slotAt_of_get? h]

end MemberTable

/-! ## Loads -/

namespace Engine

variable {e e' : Engine} {r : ScopeRef} {s : Symbol} {ref : SlotRef} {p : Storage} {slot : Slot}
  {d : DurableScope} {id : SourceId}

theorem storageOf?_eq_pooled {t : PoolKey} {i : Nat} :
    e.storageOf? r s = some (.pooled t i) ↔ ∃ k own, r = .pooled k ∧
      e.frame.scope? k = some own ∧ own.members = t ∧ e.store.slotOf? own.shape s = some i := by
  match r with
  | .pooled k =>
      simp only [storageOf?, Option.bind_eq_some_iff, Option.map_eq_some_iff]
      constructor
      · intro h
        obtain ⟨own, hown, j, hj, hsame⟩ := h
        cases hsame
        exact ⟨k, own, rfl, hown, rfl, hj⟩
      · intro h
        obtain ⟨k', own, hk, hown, rfl, hi⟩ := h
        cases hk
        exact ⟨own, hown, i, hi, rfl⟩
  | .durable ⟨f :: _, _⟩ => simp [storageOf?, Store.storageOf?]
  | .durable ⟨[], .heap id⟩ => simp [storageOf?, Store.storageOf?, Option.bind_eq_some_iff]
  | .durable ⟨[], .global id⟩ => simp [storageOf?, Store.storageOf?]

theorem storageOf?_eq_heap {id : HeapId} {i : Nat} :
    e.storageOf? r s = some (.heap id i) ↔ ∃ h, r = .durable (.ofHeap id) ∧
      e.store.heaps[id]? = some h ∧ e.store.slotOf? h.shape s = some i := by
  match r with
  | .pooled k => simp [storageOf?, Option.bind_eq_some_iff]
  | .durable ⟨f :: _, _⟩ => simp [storageOf?, Store.storageOf?, DurableScope.ofHeap]
  | .durable ⟨[], .global id'⟩ => simp [storageOf?, Store.storageOf?, DurableScope.ofHeap]
  | .durable ⟨[], .heap id'⟩ =>
      simp only [storageOf?, Store.storageOf?, Option.bind_eq_some_iff, Option.map_eq_some_iff]
      constructor
      · intro h
        obtain ⟨x, hx, j, hj, hsame⟩ := h
        cases hsame
        exact ⟨x, rfl, hx, hj⟩
      · intro h
        obtain ⟨x, hid, hx, hi⟩ := h
        cases hid
        exact ⟨x, hx, i, hi, rfl⟩

theorem storageOf?_eq_global {id : GlobalId} {x : Symbol} :
    e.storageOf? r s = some (.global id x) ↔ r = .durable (.ofGlobal id) ∧ s = x := by
  match r with
  | .pooled k => simp [storageOf?, Option.bind_eq_some_iff]
  | .durable ⟨f :: _, _⟩ => simp [storageOf?, Store.storageOf?, DurableScope.ofGlobal]
  | .durable ⟨[], .heap id'⟩ =>
      simp [storageOf?, Store.storageOf?, DurableScope.ofGlobal, Option.bind_eq_some_iff]
  | .durable ⟨[], .global id'⟩ => simp [storageOf?, Store.storageOf?, DurableScope.ofGlobal]

/-- A scope that is not frozen shows the public part of what it stores. -/
theorem publicMember?_eq_slotIn? (hd : d.frozen = []) (s : Symbol) :
    e.store.publicMember? d s =
      (((e.store.storageOf? d s).bind e.slotIn?).filter Slot.isPublic).map Slot.value := by
  match d, hd with
  | ⟨[], .global id⟩, _ => rfl
  | ⟨[], .heap id⟩, _ =>
      simp only [Store.publicMember?, Store.storageOf?]
      cases hid : e.store.heaps[id]? with
      | none => rfl
      | some h =>
          simp only [Option.bind_some, Store.publicValue?]
          cases e.store.slotOf? h.shape s with
          | none => rfl
          | some i =>
              simp only [Option.bind_some, Option.map_some, slotIn?, hid]
              rw [← MemberTable.filter_isPublic_get?]
              rfl

/-- A slot reads what is stored, through a mixin only if that is public. -/
theorem load_of_slotIn? (hp : e.storage? ref = some p) (hslot : e.slotIn? p = some slot)
    (hmixin : ∀ source x, ref = .mixin source x → slot.isPublic = true) :
    e.load ref = .ok slot.value := by
  cases ref with
  | pooled t i x =>
      cases hp
      obtain ⟨row, hrow, rfl⟩ := Option.map_eq_some_iff.1 hslot
      simp only [load, Frame.getTable_of_get? hrow, MemberTable.value_slotAt]
  | heap id i x =>
      cases hp
      obtain ⟨h, hid, rfl⟩ := Option.map_eq_some_iff.1 hslot
      simp only [load, Store.load, hid, Option.bind_some, MemberTable.value_slotAt]
  | frozen f i x => cases hp
  | global id x =>
      cases hp
      simp only [slotIn?] at hslot
      simp only [load, Store.load, hslot, Option.map_some, Option.getD_some]
  | mixin source x =>
      have hpublic := hmixin source x rfl
      simp only [storage?] at hp
      split at hp
      · next d hd =>
          have hfrozen := Store.frozen_eq_nil_of_storageOf? hp
          have hvalue : e.store.sourceMember? source x = some slot.value := by
            simp only [Store.sourceMember?, hd, publicMember?_eq_slotIn? hfrozen, hp,
              Option.bind_some, hslot, Option.filter_some, hpublic, if_true, Option.map_some]
          simp only [load, Store.load, hvalue, Option.getD_some]
      · cases hp

/-! ## Agreement -/

theorem SameOutline.scope? (h : e.SameOutline e') (k : PoolKey) :
    e'.frame.scope? k = e.frame.scope? k := by
  rw [Frame.scope?, h.scopes, Frame.scope?]

theorem SameOutline.outline (h : e.SameOutline e') (id : HeapId) :
    e'.store.heaps[id]?.map HeapScope.outline = e.store.heaps[id]?.map HeapScope.outline := by
  rw [← Array.getElem?_map, h.heaps, Array.getElem?_map]

theorem SameOutline.mixins (h : e.SameOutline e') (id : GlobalId) :
    e'.store.globals[id]?.map (·.mixins) = e.store.globals[id]?.map (·.mixins) := by
  rw [← Array.getElem?_map, h.globals, Array.getElem?_map]

theorem SameOutline.storageOf?_durable (h : e.SameOutline e')
    (hnum : ∀ shape, e.store.shapeOf? d = some shape →
      e'.store.slotOf? shape s = e.store.slotOf? shape s) :
    e'.store.storageOf? d s = e.store.storageOf? d s := by
  match d with
  | ⟨f :: _, _⟩ => rfl
  | ⟨[], .global id⟩ => rfl
  | ⟨[], .heap id⟩ =>
      have houtline := h.outline id
      simp only [Store.shapeOf?] at hnum
      simp only [Store.storageOf?]
      cases hid : e.store.heaps[id]? with
      | none =>
          rw [hid] at houtline
          rw [Option.map_eq_none_iff.1 houtline]
          rfl
      | some x =>
          rw [hid] at houtline hnum
          obtain ⟨x', hx', hsame⟩ := Option.map_eq_some_iff.1 houtline
          have hshape := HeapScope.shape_of_outline hsame
          rw [hx', Option.bind_some, Option.bind_some, hshape, hnum x.shape rfl]

theorem SameOutline.storageOf? (h : e.SameOutline e')
    (hnum : ∀ shape, e'.store.slotOf? shape s = e.store.slotOf? shape s) (r : ScopeRef) :
    e'.storageOf? r s = e.storageOf? r s := by
  cases r with
  | durable d => exact h.storageOf?_durable fun shape _ => hnum shape
  | pooled k => simp only [Engine.storageOf?, h.scope?, hnum]

/-- The two number a symbol alike in the shape of the source that a slot was
found in. -/
def NumbersAlike (e e' : Engine) (ref : SlotRef) : Prop :=
  ∀ source s d shape, ref = .mixin source s → e.store.sources[source]? = some (.scope d) →
    e.store.shapeOf? d = some shape → e'.store.slotOf? shape s = e.store.slotOf? shape s

theorem SameOutline.storage? (h : e.SameOutline e') (hnum : e.NumbersAlike e' ref) :
    e'.storage? ref = e.storage? ref := by
  cases ref with
  | mixin source s =>
      simp only [Engine.storage?, h.sources]
      split
      · next d hd => exact h.storageOf?_durable fun shape => hnum source s d shape rfl hd
      · rfl
  | _ => rfl

/-- A load reads one storage. -/
theorem SameOutline.load (h : e.SameOutline e') (hnum : e.NumbersAlike e' ref)
    (hslot : ∀ p, e.storage? ref = some p → e'.slotIn? p = e.slotIn? p) :
    e'.load ref = e.load ref := by
  cases ref with
  | pooled t i x =>
      have hrow := hslot _ rfl
      simp only [slotIn?] at hrow
      simp only [Engine.load, Frame.getTable]
      cases ht : e.frame.tables.get? t with
      | none =>
          rw [ht] at hrow
          rw [Option.map_eq_none_iff.1 hrow]
      | some row =>
          rw [ht] at hrow
          obtain ⟨row', hrow', hsame⟩ := Option.map_eq_some_iff.1 hrow
          simp only [hrow', MemberTable.value_slotAt, hsame]
  | heap id i x =>
      have hrow := hslot _ rfl
      simp only [slotIn?] at hrow
      simp only [Engine.load, Store.load]
      cases hid : e.store.heaps[id]? with
      | none =>
          rw [hid] at hrow
          rw [Option.map_eq_none_iff.1 hrow]
      | some y =>
          rw [hid] at hrow
          obtain ⟨y', hy', hsame⟩ := Option.map_eq_some_iff.1 hrow
          simp only [hy', Option.bind_some, MemberTable.value_slotAt, hsame]
  | frozen f i x => rfl
  | global id x =>
      have hmember := hslot _ rfl
      simp only [slotIn?] at hmember
      simp only [Engine.load, Store.load, hmember]
  | mixin source x =>
      simp only [Engine.load, Store.load, Store.sourceMember?, h.sources]
      cases hsource : e.store.sources[source]? with
      | none => rfl
      | some src =>
          cases src with
          | fixed ms => rfl
          | scope d =>
              have hd : e'.store.publicMember? d x = e.store.publicMember? d x := by
                obtain ⟨_ | ⟨f, frozen⟩, anchor⟩ := d
                · have hplace := h.storageOf?_durable fun shape => hnum source x _ shape rfl hsource
                  rw [publicMember?_eq_slotIn? rfl, publicMember?_eq_slotIn? rfl, hplace]
                  cases hp : e.store.storageOf? ⟨[], anchor⟩ x with
                  | none => rfl
                  | some p =>
                      have hslot := hslot p (by simp only [Engine.storage?, hsource, hp])
                      simp only [Option.bind_some, hslot]
                · simp only [Store.publicMember?, Store.publicValue?,
                    hnum source x _ f.shape rfl hsource rfl]
              simp only [hd]

end Engine

/-! ## Lookups -/

namespace Store

variable {st st' : Store} {s : Symbol}

theorem findMixin?_congr
    (h : ∀ id, (st'.sourceMember? id s).isSome = (st.sourceMember? id s).isSome)
    (mixins : List SourceId) : st'.findMixin? mixins s = st.findMixin? mixins s := by
  simp only [findMixin?, h]

/-- A lookup asks one scope after the other. -/
theorem resolve_congr (hfind : ∀ d, st'.findOwn? d s = st.findOwn? d s)
    (hprevious : st'.heaps.map (·.previous) = st.heaps.map (·.previous)) (d : DurableScope) :
    st'.resolve d s = st.resolve d s := by
  have hsize : st'.heaps.size = st.heaps.size := by
    have := congrArg Array.size hprevious
    rwa [Array.size_map, Array.size_map] at this
  have hfrozen : st'.findFrozen? s = st.findFrozen? s :=
    funext fun f => hfind ⟨[f], .global 0⟩
  have hglobal : ∀ id, st'.findGlobal? id s = st.findGlobal? id s := fun id => hfind (.ofGlobal id)
  have hwithin : ∀ hops d, st'.resolveWithin s hops d = st.resolveWithin s hops d := by
    intro hops
    induction hops with
    | zero =>
        intro d
        unfold resolveWithin
        rw [hfrozen]
        simp only [hglobal]
    | succ hops ih =>
        intro d
        unfold resolveWithin
        rw [hfrozen]
        cases d.frozen.findSome? (st.findFrozen? s) with
        | some slot => rfl
        | none =>
            cases d.anchor with
            | global id => simp only [hglobal]
            | heap id =>
                have hprev : st'.heaps[id]?.map (·.previous) = st.heaps[id]?.map (·.previous) := by
                  rw [← Array.getElem?_map, hprevious, Array.getElem?_map]
                cases hid : st.heaps[id]? with
                | none =>
                    rw [hid] at hprev
                    simp only [Option.map_eq_none_iff.1 hprev, hid]
                | some x =>
                    rw [hid] at hprev
                    obtain ⟨x', hx', hsame⟩ := Option.map_eq_some_iff.1 hprev
                    have hx := hfind (.ofHeap id)
                    simp only [findOwn?, DurableScope.ofHeap, hx', hid, Option.bind_some] at hx
                    simp only [hx', hid, hx, hsame, ih]
  rw [resolve, hsize, hwithin]
  rfl

end Store

namespace Engine

variable {e e' : Engine} {s : Symbol} {own : PooledScope} {k : PoolKey} {d : DurableScope}

theorem resolve_congr (hscopes : e'.frame.scopes = e.frame.scopes)
    (hindex : ∀ k own, e.frame.scope? k = some own → e'.ownIndex? own s = e.ownIndex? own s)
    (hmixin : ∀ mixins, e'.store.findMixin? mixins s = e.store.findMixin? mixins s)
    (hdurable : ∀ d, e'.store.resolve d s = e.store.resolve d s) (r : ScopeRef) :
    e'.resolve r s = e.resolve r s := by
  have hget : ∀ k, e'.frame.getScope k = e.frame.getScope k := by
    intro k
    rw [Frame.getScope, Frame.scope?, hscopes, Frame.getScope, Frame.scope?]
  have hwithin : ∀ hops r, e'.resolveWithin s hops r = e.resolveWithin s hops r := by
    intro hops
    induction hops with
    | zero =>
        intro r
        cases r with
        | durable d => exact hdurable d
        | pooled k => rfl
    | succ hops ih =>
        intro r
        cases r with
        | durable d => exact hdurable d
        | pooled k =>
            simp only [resolveWithin, hget]
            cases hown : e.frame.getScope k with
            | error err => rfl
            | ok own => simp only [hindex k own (scope?_of_getScope hown), hmixin, ih]
  rw [resolve, hscopes, hwithin]
  rfl

/-- The two have the same attributes wherever a scope would have the symbol. -/
structure LooksAlike (e e' : Engine) (s : Symbol) : Prop extends e.SameOutline e' where
  numbers : ∀ shape, e'.store.slotOf? shape s = e.store.slotOf? shape s
  attributes : ∀ r p, e.storageOf? r s = some p →
    (e'.slotIn? p).map Slot.attributes = (e.slotIn? p).map Slot.attributes

theorem any_isPublic_congr {x x' : Option Slot}
    (h : x'.map Slot.attributes = x.map Slot.attributes) :
    x'.any Slot.isPublic = x.any Slot.isPublic := by
  have hsame := congrArg (Option.any (Option.any Attributes.isPublic)) h
  rw [Option.any_map, Option.any_map] at hsame
  exact hsame

theorem isDeclared_congr {x x' : Slot} (h : x'.attributes = x.attributes) :
    x'.isDeclared = x.isDeclared := by
  rw [Slot.isDeclared, h, Slot.isDeclared]

theorem LooksAlike.isSome_sourceMember? (h : e.LooksAlike e' s) (id : SourceId) :
    (e'.store.sourceMember? id s).isSome = (e.store.sourceMember? id s).isSome := by
  simp only [Store.sourceMember?, h.sources]
  split
  · next d _ =>
      obtain ⟨_ | ⟨f, frozen⟩, anchor⟩ := d
      · rw [publicMember?_eq_slotIn? rfl, publicMember?_eq_slotIn? rfl,
          h.storageOf?_durable fun shape _ => h.numbers shape]
        simp only [Option.isSome_map, Option.isSome_filter]
        cases hp : e.store.storageOf? ⟨[], anchor⟩ s with
        | none => rfl
        | some p => exact any_isPublic_congr (h.attributes (.durable ⟨[], anchor⟩) p hp)
      · simp only [Store.publicMember?, Store.publicValue?, h.numbers]
  · rfl
  · rfl

theorem LooksAlike.findMixin? (h : e.LooksAlike e' s) (mixins : List SourceId) :
    e'.store.findMixin? mixins s = e.store.findMixin? mixins s :=
  Store.findMixin?_congr h.isSome_sourceMember? mixins

theorem LooksAlike.ownIndex? (h : e.LooksAlike e' s) (hown : e.frame.scope? k = some own) :
    e'.ownIndex? own s = e.ownIndex? own s := by
  simp only [Engine.ownIndex?, h.numbers]
  cases hi : e.store.slotOf? own.shape s with
  | none => rfl
  | some i =>
      have hrow := h.attributes (.pooled k) (.pooled own.members i)
        (by simp only [Engine.storageOf?, hown, Option.bind_some, hi, Option.map_some])
      simp only [slotIn?, Option.map_map] at hrow
      simp only [Frame.getTable]
      cases ht : e.frame.tables.get? own.members with
      | none =>
          rw [ht] at hrow
          rw [Option.map_eq_none_iff.1 hrow]
      | some row =>
          rw [ht] at hrow
          obtain ⟨row', hrow', hsame⟩ := Option.map_eq_some_iff.1 hrow
          have hdecl := isDeclared_congr hsame
          simp only [hrow', MemberTable.any_isDeclared_get?, hdecl]

/-- Every durable scope has the symbol where it had it. -/
theorem LooksAlike.findOwn? (h : e.LooksAlike e' s) (d : DurableScope) :
    e'.store.findOwn? d s = e.store.findOwn? d s := by
  match d with
  | ⟨f :: _, _⟩ =>
      simp only [Store.findOwn?, Store.findFrozen?, Store.ownIndex?, h.numbers, h.findMixin?]
  | ⟨[], .heap id⟩ =>
      have houtline := h.outline id
      simp only [Store.findOwn?]
      cases hid : e.store.heaps[id]? with
      | none =>
          rw [hid] at houtline
          rw [Option.map_eq_none_iff.1 houtline]
          rfl
      | some x =>
          rw [hid] at houtline
          obtain ⟨x', hx', hsame⟩ := Option.map_eq_some_iff.1 houtline
          have hshape := HeapScope.shape_of_outline hsame
          have hmixins := HeapScope.mixins_of_outline hsame
          have hindex : e'.store.ownIndex? x'.shape x'.members.slots s =
              e.store.ownIndex? x.shape x.members.slots s := by
            simp only [Store.ownIndex?, hshape, h.numbers]
            cases hi : e.store.slotOf? x.shape s with
            | none => rfl
            | some i =>
                have hrow := h.attributes (.durable ⟨[], .heap id⟩) (.heap id i)
                  (by simp only [Engine.storageOf?, Store.storageOf?, hid, Option.bind_some, hi,
                    Option.map_some])
                simp only [slotIn?, hid, hx', Option.map_some] at hrow
                have hdecl := isDeclared_congr (Option.some.inj hrow)
                rw [← MemberTable.any_isDeclared_get?, ← MemberTable.any_isDeclared_get?] at hdecl
                have hdecl : (x'.members.slots[i]?).any Slot.isDeclared =
                    (x.members.slots[i]?).any Slot.isDeclared := hdecl
                rw [Option.filter_some, Option.filter_some, hdecl]
          simp only [hx', Option.bind_some, Store.findHeap?, hindex, hmixins, h.findMixin?]
  | ⟨[], .global id⟩ =>
      have hmixins := h.mixins id
      have hslot := h.attributes (.durable ⟨[], .global id⟩) (.global id s) rfl
      simp only [slotIn?] at hslot
      simp only [Store.findOwn?, Store.findGlobal?]
      cases hid : e.store.globals[id]? with
      | none =>
          rw [hid] at hmixins
          rw [Option.map_eq_none_iff.1 hmixins]
          rfl
      | some g =>
          rw [hid] at hmixins hslot
          obtain ⟨g', hg', hsame⟩ := Option.map_eq_some_iff.1 hmixins
          rw [hg'] at hslot
          simp only [Option.bind_some] at hslot
          simp only [hg', Option.bind_some, hsame, h.findMixin?]
          cases hmember : g.get? s with
          | none =>
              rw [hmember] at hslot
              rw [Option.map_eq_none_iff.1 hslot]
          | some slot =>
              rw [hmember] at hslot
              obtain ⟨slot', hslot', -⟩ := Option.map_eq_some_iff.1 hslot
              rw [hslot']

/-- A lookup reads the attributes where the scopes would have the symbol. -/
theorem LooksAlike.resolve (h : e.LooksAlike e' s) (r : ScopeRef) :
    e'.resolve r s = e.resolve r s := by
  have hprevious : e'.store.heaps.map (·.previous) = e.store.heaps.map (·.previous) := by
    have hsame := congrArg (Array.map HeapScope.previous) h.heaps
    rw [Array.map_map, Array.map_map] at hsame
    exact hsame
  exact resolve_congr h.scopes (fun _ _ hown => h.ownIndex? hown) h.findMixin?
    (Store.resolve_congr h.findOwn? hprevious) r

end Engine

end ScriptCore

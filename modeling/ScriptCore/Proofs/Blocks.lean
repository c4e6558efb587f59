import ScriptCore.Proofs.Escape
import ScriptCore.Proofs.MemberMaps
import ScriptCore.Proofs.TableSlots

/-!
# Blocks

A block scope lives in a frame or on the heap, and is worked on in the same way
wherever it is: a symbol is declared in it, a slot of it is assigned, and one on
the heap may also be assigned from outside, through a scope that it was mixed
into. Each of these is something done to the row of its slots, and what a
lookup finds in the block is what is declared in that row.
-/

namespace ScriptCore

namespace Frame

variable {f : Frame} {k : PoolKey} {t : MemberTable}

theorem getTable_of_get? (h : f.tables.get? k = some t) : f.getTable k = .ok t := by
  simp only [getTable, h]

theorem get?_modifyTable (h : f.tables.get? k = some t) (c : MemberTable → MemberTable) :
    (f.modifyTable k c).tables.get? k = some (c t) := by
  rw [modifyTable, Pool.get?_modify, if_pos rfl, h]
  rfl

end Frame

namespace Store

theorem getElem?_setHeap {st : Store} {id : Nat} {h : HeapScope} (hh : st.heaps[id]? = some h)
    (h' : HeapScope) : (st.setHeap id h').heaps[id]? = some h' := by
  rw [setHeap, Array.getElem?_setIfInBounds, if_pos rfl,
    if_pos (Array.getElem?_eq_some_iff.1 hh).1]

theorem heaps_createSlot (st : Store) (id : ShapeId) (x : Symbol) :
    (st.createSlot id x).2.heaps = st.heaps := by
  rcases st.createSlot_cases id x with ⟨fault, he⟩ | ⟨sh, sh', i, -, -, he⟩
  · rw [he]
  · rw [he]

end Store

/-! ## Where a block is -/

/-- A block scope: one of a frame, with its table there, or one on the heap. -/
inductive Block where
  | pooled (key table : PoolKey)
  | heap (id : HeapId)

namespace Block

def scope : Block → ScopeRef
  | pooled k _ => .pooled k
  | heap id => .durable (.ofHeap id)

def slot (b : Block) (i : Nat) (s : Symbol) : SlotRef :=
  match b with
  | pooled _ t => .pooled t i s
  | heap id => .heap id i s

/-- The scope is the block. -/
def isAt : Block → ScopeRef → Bool
  | pooled k _, .pooled k' => k' = k
  | heap id, .durable ⟨[], .heap id'⟩ => id' = id
  | _, _ => false

/-- The slot is one of the block. -/
def holds : Block → SlotRef → Bool
  | pooled _ t, .pooled t' _ _ => t' = t
  | heap id, .heap id' _ _ => id' = id
  | _, _ => false

/-- The slot is that of a member which was mixed in from the block. -/
def feeds (b : Block) (e : Engine) : SlotRef → Bool
  | .mixin source _ =>
    match e.store.sources[source]? with
    | some (.scope d) => b.isAt (.durable d)
    | _ => false
  | _ => false

/-- The block is there, with this shape and these slots. -/
def Has (b : Block) (e : Engine) (shape : ShapeId) (t : MemberTable) : Prop :=
  match b with
  | pooled k table => ∃ own, e.frame.scope? k = some own ∧ own.shape = shape ∧
      own.members = table ∧ e.frame.tables.get? table = some t
  | heap id => ∃ h, e.store.heaps[id]? = some h ∧ h.shape = shape ∧ h.members = t

/-- What the block has declared a symbol to be. -/
def own? (b : Block) (e : Engine) (s : Symbol) : Option Slot :=
  match b with
  | pooled k _ => do
    let own ← e.frame.scope? k
    let table ← e.frame.tables.get? own.members
    e.store.own? own.shape table.slots s
  | heap id => do
    let h ← e.store.heaps[id]?
    e.store.own? h.shape h.members.slots s

variable {b : Block} {e : Engine} {shape : ShapeId} {t : MemberTable} {r : ScopeRef}
  {slot : SlotRef} {s : Symbol} {i : Nat}

theorem isAt_iff : b.isAt r = true ↔ r = b.scope := by
  cases b with
  | pooled k table =>
      cases r with
      | pooled k' => simp [isAt, scope]
      | durable d => simp [isAt, scope]
  | heap id =>
      cases r with
      | pooled k' => simp [isAt, scope]
      | durable d =>
          obtain ⟨frozen, anchor⟩ := d
          cases frozen with
          | nil => cases anchor <;> simp [isAt, scope, DurableScope.ofHeap]
          | cons f frozen => simp [isAt, scope, DurableScope.ofHeap]

theorem holds_iff : b.holds slot = true ↔ ∃ i s, slot = b.slot i s := by
  cases b <;> cases slot <;> simp [holds, Block.slot]

theorem feeds_iff : b.feeds e slot = true ↔
    ∃ source s d, slot = .mixin source s ∧ e.store.sources[source]? = some (.scope d) ∧
      .durable d = b.scope := by
  cases slot with
  | mixin source s =>
      simp only [feeds]
      split
      · next d hd =>
          rw [isAt_iff]
          constructor
          · intro h
            exact ⟨source, s, d, rfl, hd, h⟩
          · rintro ⟨_, _, d', heq, hd', h⟩
            cases heq
            rw [hd] at hd'
            cases hd'
            exact h
      · next hnone =>
          constructor
          · intro h
            cases h
          · rintro ⟨_, _, d, heq, hd, -⟩
            cases heq
            exact absurd hd (hnone d)
  | _ => simp [feeds]

theorem symbol_slot (b : Block) (i : Nat) (s : Symbol) : (b.slot i s).symbol = s := by
  cases b <;> rfl

theorem Has.own?_eq (h : b.Has e shape t) : b.own? e s = e.store.own? shape t.slots s := by
  cases b with
  | pooled k table =>
      obtain ⟨own, hown, rfl, rfl, ht⟩ := h
      simp only [own?, hown, ht, Option.bind_eq_bind, Option.bind_some]
  | heap id =>
      obtain ⟨h, hh, rfl, rfl⟩ := h
      simp only [own?, hh, Option.bind_eq_bind, Option.bind_some]

theorem Has.load (h : b.Has e shape t) :
    e.load (b.slot i s) = .ok (((t.get? i).map Slot.value).getD .undefined) := by
  cases b with
  | pooled k table =>
      obtain ⟨own, -, -, -, ht⟩ := h
      simp only [Block.slot, Engine.load, Frame.getTable, ht]
  | heap id =>
      obtain ⟨h, hh, -, rfl⟩ := h
      simp only [Block.slot, Engine.load, Store.load, hh, Option.bind_some]

/-- A symbol that the block has declared resolves to its slot. -/
theorem Has.resolve (h : b.Has e shape t) (hi : e.store.ownIndex? shape t.slots s = some i) :
    e.resolve b.scope s = .ok (b.slot i s) := by
  cases b with
  | pooled k table =>
      obtain ⟨own, hown, rfl, rfl, ht⟩ := h
      obtain ⟨n, hn⟩ : ∃ n, e.frame.scopes.entries.size = n + 1 := by
        obtain ⟨x, hx, -⟩ := Option.bind_eq_some_iff.1 hown
        obtain ⟨y, hy, -⟩ := Pool.get?_eq_some.1 hx
        have hlt := (Array.getElem?_eq_some_iff.1 (Pool.entry?_eq_some.1 hy).1).1
        exact ⟨_, (Nat.succ_pred_eq_of_pos (Nat.zero_lt_of_lt hlt)).symm⟩
      have hindex := Engine.ownIndex?_eq (s := s) (Frame.getTable_of_get? ht)
      rw [hi] at hindex
      simp only [Engine.resolve, hn, scope, Engine.resolveWithin, Engine.getScope_of_scope? hown,
        hindex, Block.slot]
  | heap id =>
      obtain ⟨h, hh, rfl, rfl⟩ := h
      obtain ⟨n, hn⟩ : ∃ n, e.store.heaps.size = n + 1 :=
        ⟨_, (Nat.succ_pred_eq_of_pos (Nat.zero_lt_of_lt (Array.getElem?_eq_some_iff.1 hh).1)).symm⟩
      have hfound : e.store.findHeap? id h s = some (.heap id i s) := by
        simp only [Store.findHeap?, hi]
      simp only [Engine.resolve, scope, Engine.resolveWithin, Store.resolve, hn,
        Store.resolveWithin, DurableScope.ofHeap, List.findSome?_nil, hh, hfound, Block.slot]

/-! ## Work on a block -/

/-- There is a number for the symbol, and room for a slot at it. -/
def RoomIn (st : Store) (shape : ShapeId) (t : MemberTable) (s : Symbol) (i : Nat) : Prop :=
  (st.createSlot shape s).1 = .ok i ∧ t.fits (i + 1)

/-- Declaring a symbol in a block: the shape gets it in any case, and if there
is room so does the row of slots. -/
theorem Has.declare (h : b.Has e shape t) (s : Symbol) (a : Attributes) :
    (e.declare b.scope s a).2.store.shapes = (e.store.createSlot shape s).2.shapes ∧
    ((∀ i, ¬ RoomIn e.store shape t s i) ∧ (e.declare b.scope s a).1 = .panicked ∧
        b.Has (e.declare b.scope s a).2 shape t ∨
      ∃ i, RoomIn e.store shape t s i ∧
        (e.declare b.scope s a).1 = .ofExcept ((t.declareAt i s a).1.map fun _ => b.slot i s) ∧
        b.Has (e.declare b.scope s a).2 shape (t.declareAt i s a).2) := by
  have hnone : ∀ {fault st}, e.store.createSlot shape s = (.error fault, st) →
      ∀ i, ¬ RoomIn e.store shape t s i := by
    rintro fault st hc i ⟨hi, -⟩
    rw [hc] at hi
    cases hi
  have hshort : ∀ {j st}, e.store.createSlot shape s = (.ok j, st) → t.fits (j + 1) = false →
      ∀ i, ¬ RoomIn e.store shape t s i := by
    rintro j st hc hfull i ⟨hi, hfits⟩
    rw [hc] at hi
    cases hi
    rw [hfull] at hfits
    cases hfits
  have hroom : ∀ {i st}, e.store.createSlot shape s = (.ok i, st) → t.fits (i + 1) = true →
      RoomIn e.store shape t s i := fun hc hfits => ⟨by rw [hc], hfits⟩
  cases b with
  | pooled k table =>
      obtain ⟨own, hown, rfl, rfl, ht⟩ := h
      obtain ⟨store, frame⟩ := e
      have hscope : frame.getScope k = .ok own := Engine.getScope_of_scope? hown
      have htable : frame.getTable own.members = .ok t := Frame.getTable_of_get? ht
      have hmodify : ∀ st c, (pooled k own.members).Has
          ⟨st, frame.modifyTable own.members c⟩ own.shape (c t) := fun st c =>
        ⟨own, hown, rfl, rfl, Frame.get?_modifyTable ht c⟩
      simp only [Engine.declare, scope, hscope]
      rcases hc : store.createSlot own.shape s with ⟨fault | i, st⟩
      · exact ⟨rfl, .inl ⟨hnone hc, rfl, own, hown, rfl, rfl, ht⟩⟩
      · simp only [htable]
        cases hfits : t.fits (i + 1) with
        | false => exact ⟨rfl, .inl ⟨hshort hc hfits, rfl, own, hown, rfl, rfl, ht⟩⟩
        | true =>
            refine ⟨?_, .inr ⟨i, hroom hc hfits, ?_⟩⟩
            · cases (t.slotAt i).isConst <;> rfl
            · rw [MemberTable.declareAt]
              cases (t.slotAt i).isConst with
              | true => exact ⟨rfl, hmodify st _⟩
              | false => exact ⟨rfl, hmodify st _⟩
  | heap id =>
      obtain ⟨h, hh, rfl, rfl⟩ := h
      obtain ⟨store, frame⟩ := e
      have hsame : ∀ {r st}, store.createSlot h.shape s = (r, st) → st.heaps[id]? = some h := by
        intro r st hc
        have hheaps := store.heaps_createSlot h.shape s
        rw [hc] at hheaps
        exact hheaps ▸ hh
      simp only [Engine.declare, scope, Store.declare, DurableScope.ofHeap, hh]
      rcases hc : store.createSlot h.shape s with ⟨fault | i, st⟩
      · exact ⟨rfl, .inl ⟨hnone hc, rfl, h, hsame hc, rfl, rfl⟩⟩
      · simp only [MemberTable.slotAt_materialize]
        cases hfits : h.members.fits (i + 1) with
        | false => exact ⟨rfl, .inl ⟨hshort hc hfits, rfl, h, hsame hc, rfl, rfl⟩⟩
        | true =>
            have hset : ∀ members, (heap id).Has
                ⟨st.setHeap id { h with members }, frame⟩ h.shape members := fun members =>
              ⟨{ h with members }, Store.getElem?_setHeap (hsame hc) _, rfl, rfl⟩
            refine ⟨?_, .inr ⟨i, hroom hc hfits, ?_⟩⟩
            · cases (h.members.slotAt i).isConst <;> rfl
            · rw [MemberTable.declareAt]
              cases (h.members.slotAt i).isConst with
              | true => exact ⟨rfl, hset _⟩
              | false => exact ⟨rfl, hset _⟩

/-- Assigning a slot of a block that there is room for. -/
theorem Has.assign (h : b.Has e shape t) (hfits : t.fits (i + 1) = true) (s : Symbol) (v : Value) :
    (e.assign (b.slot i s) v).2.store.shapes = e.store.shapes ∧
      (e.assign (b.slot i s) v).1 = .ofExcept (t.assignAt i s v).1 ∧
      b.Has (e.assign (b.slot i s) v).2 shape (t.assignAt i s v).2 := by
  cases b with
  | pooled k table =>
      obtain ⟨own, hown, rfl, rfl, ht⟩ := h
      obtain ⟨store, frame⟩ := e
      have htable : frame.getTable own.members = .ok t := Frame.getTable_of_get? ht
      have hmodify : ∀ c, (pooled k own.members).Has
          ⟨store, frame.modifyTable own.members c⟩ own.shape (c t) := fun c =>
        ⟨own, hown, rfl, rfl, Frame.get?_modifyTable ht c⟩
      simp only [Engine.assign, Block.slot, htable, hfits, MemberTable.assignAt]
      cases (t.slotAt i).assign v with
      | error err => exact ⟨rfl, rfl, hmodify _⟩
      | ok slot => exact ⟨rfl, rfl, hmodify _⟩
  | heap id =>
      obtain ⟨h, hh, rfl, rfl⟩ := h
      obtain ⟨store, frame⟩ := e
      have hset : ∀ members, (heap id).Has
          ⟨store.setHeap id { h with members }, frame⟩ h.shape members := fun members =>
        ⟨{ h with members }, Store.getElem?_setHeap hh _, rfl, rfl⟩
      simp only [Engine.assign, Block.slot, Store.assign, Store.assignHeap, hh, hfits,
        MemberTable.slotAt_materialize, MemberTable.assignAt]
      cases (h.members.slotAt i).assign v with
      | error err => exact ⟨rfl, rfl, hset _⟩
      | ok slot => exact ⟨rfl, rfl, hset _⟩

/-- Assigning a block from outside reaches a public slot, or nothing. -/
theorem Has.assignPublic {source : SourceId} {d : DurableScope} (h : b.Has e shape t)
    (hsource : e.store.sources[source]? = some (.scope d)) (hd : .durable d = b.scope)
    (s : Symbol) (v : Value) :
    (e.assign (.mixin source s) v).2.store.shapes = e.store.shapes ∧
    ((∃ i, e.store.slotOf? shape s = some i ∧ i < t.size ∧ (t.slotAt i).isPublic = true ∧
        (e.assign (.mixin source s) v).1 = .ofExcept (t.assignAt i s v).1 ∧
        b.Has (e.assign (.mixin source s) v).2 shape (t.assignAt i s v).2) ∨
      (∀ i, e.store.slotOf? shape s = some i → (t.slotAt i).isPublic = false) ∧
        (e.assign (.mixin source s) v).1 = .raised (ErrorKind.noSuchMember s) ∧
        b.Has (e.assign (.mixin source s) v).2 shape t) := by
  cases b with
  | pooled k table => cases hd
  | heap id =>
      cases hd
      obtain ⟨h, hh, rfl, rfl⟩ := h
      obtain ⟨store, frame⟩ := e
      have hstays : (heap id).Has ⟨store, frame⟩ h.shape h.members := ⟨h, hh, rfl, rfl⟩
      have hset : ∀ members, (heap id).Has
          ⟨store.setHeap id { h with members }, frame⟩ h.shape members := fun members =>
        ⟨{ h with members }, Store.getElem?_setHeap hh _, rfl, rfl⟩
      simp only [Engine.assign, Store.assign, Store.assignSource, hsource, Store.assignPublic,
        DurableScope.ofHeap, hh]
      cases hi : store.slotOf? h.shape s with
      | none =>
          refine ⟨rfl, .inr ⟨fun i hi => ?_, rfl, hstays⟩⟩
          cases hi
      | some i =>
          simp only [Option.bind_some]
          cases hget : h.members.get? i with
          | none =>
              refine ⟨rfl, .inr ⟨?_, rfl, hstays⟩⟩
              rintro j ⟨⟩
              rw [MemberTable.slotAt, hget]
              rfl
          | some slot =>
              have hat : h.members.slotAt i = slot := by rw [MemberTable.slotAt, hget]; rfl
              have hlt : i < h.members.size := (Array.getElem?_eq_some_iff.1 hget).1
              have hrow := h.members.materialize_of_lt hlt
              simp only [Option.map_some]
              cases hpublic : slot.isPublic with
              | false =>
                  refine ⟨rfl, .inr ⟨?_, rfl, hstays⟩⟩
                  rintro j ⟨⟩
                  rw [hat, hpublic]
              | true =>
                  refine ⟨?_, .inl ⟨i, rfl, hlt, hat ▸ hpublic, ?_⟩⟩
                  · cases slot.assign v <;> rfl
                  · rw [MemberTable.assignAt, hat, hrow]
                    cases slot.assign v with
                    | error err => exact ⟨rfl, hstays⟩
                    | ok slot' => exact ⟨rfl, hset _⟩

end Block

/-! ## What a lookup finds -/

namespace Store

variable {st : Store} {s : Symbol} {slot : SlotRef}

/-- A slot that a symbol resolves to was found in one of the scopes. -/
theorem found_of_resolveWithin {hops : Nat} {d : DurableScope}
    (h : st.resolveWithin s hops d = .ok slot) :
    (∃ f, st.findFrozen? s f = some slot) ∨ (∃ id, st.findGlobal? id s = some slot) ∨
      ∃ (id : Nat) (x : HeapScope), st.heaps[id]? = some x ∧ st.findHeap? id x s = some slot := by
  induction hops generalizing d with
  | zero =>
      unfold resolveWithin at h
      split at h
      · next hf =>
          cases h
          obtain ⟨f, -, hf⟩ := List.exists_of_findSome?_eq_some hf
          exact .inl ⟨f, hf⟩
      · split at h
        · next id _ =>
            split at h
            · next hg =>
                cases h
                exact .inr (.inl ⟨id, hg⟩)
            · cases h
        · cases h
  | succ hops ih =>
      unfold resolveWithin at h
      split at h
      · next hf =>
          cases h
          obtain ⟨f, -, hf⟩ := List.exists_of_findSome?_eq_some hf
          exact .inl ⟨f, hf⟩
      · split at h
        · next id _ =>
            split at h
            · next hg =>
                cases h
                exact .inr (.inl ⟨id, hg⟩)
            · cases h
        · next id _ =>
            split at h
            · next x heq hx =>
                split at h
                · next hh =>
                    cases h
                    exact .inr (.inr ⟨id, x, hx, hh⟩)
                · rw [Nat.succ.injEq] at heq
                  exact ih (heq ▸ h)
            · cases h

/-- A slot on the heap is that of a member declared there. -/
theorem own_of_resolveWithin {hops id i : Nat} {d : DurableScope} {s' : Symbol}
    (h : st.resolveWithin s hops d = .ok (.heap id i s')) :
    s' = s ∧ ∃ x, st.heaps[id]? = some x ∧ st.ownIndex? x.shape x.members.slots s = some i := by
  have hmixin : ∀ {mixins : List SourceId},
      (st.findMixin? mixins s).map (SlotRef.mixin · s) ≠ some (.heap id i s') := by
    intro mixins heq
    obtain ⟨_, -, hslot⟩ := Option.map_eq_some_iff.1 heq
    cases hslot
  rcases found_of_resolveWithin h with ⟨f, hf⟩ | ⟨g, hg⟩ | ⟨j, x, hx, hh⟩
  · unfold findFrozen? at hf
    split at hf
    · cases hf
    · exact absurd hf hmixin
  · unfold findGlobal? at hg
    obtain ⟨_, -, hg⟩ := Option.bind_eq_some_iff.1 hg
    split at hg
    · cases hg
    · exact absurd hg hmixin
  · unfold findHeap? at hh
    split at hh
    · next hi =>
        cases hh
        exact ⟨rfl, x, hx, hi⟩
    · exact absurd hh hmixin

end Store

namespace Engine

variable {e : Engine} {r : ScopeRef} {s s' : Symbol} {i : Nat}

theorem found_of_resolveWithin {hops : Nat} {slot : SlotRef}
    (h : e.resolveWithin s hops r = .ok slot) :
    (∃ d, e.store.resolve d s = .ok slot) ∨
      (∃ mixins, (e.store.findMixin? mixins s).map (SlotRef.mixin · s) = some slot) ∨
      ∃ k own i, e.frame.scope? k = some own ∧ e.ownIndex? own s = .ok (some i) ∧
        slot = .pooled own.members i s := by
  induction hops generalizing r with
  | zero =>
      cases r with
      | durable d => exact .inl ⟨d, h⟩
      | pooled k => cases h
  | succ hops ih =>
      cases r with
      | durable d => exact .inl ⟨d, h⟩
      | pooled k =>
          simp only [resolveWithin] at h
          split at h
          · cases h
          · next own hown =>
              split at h
              · cases h
              · next j hj =>
                  cases h
                  exact .inr (.inr ⟨k, own, j, scope?_of_getScope hown, hj, rfl⟩)
              · split at h
                · next source hsource =>
                    cases h
                    exact .inr (.inl ⟨own.mixins, by rw [hsource]; rfl⟩)
                · exact ih h

theorem ownIndex?_ok {own : PooledScope} (h : e.ownIndex? own s = .ok (some i)) :
    ∃ t, e.frame.tables.get? own.members = some t ∧
      e.store.ownIndex? own.shape t.slots s = some i := by
  cases ht : e.frame.tables.get? own.members with
  | none =>
      simp only [ownIndex?, Frame.getTable, ht] at h
      split at h <;> cases h
  | some t =>
      rw [ownIndex?_eq (Frame.getTable_of_get? ht)] at h
      exact ⟨t, rfl, Except.ok.inj h⟩

/-- A slot of a table is that of a member declared in the scope it belongs to. -/
theorem own_of_resolve {table : PoolKey} (h : e.resolve r s = .ok (.pooled table i s')) :
    s' = s ∧ ∃ k own t, e.frame.scope? k = some own ∧ own.members = table ∧
      e.frame.tables.get? table = some t ∧ e.store.ownIndex? own.shape t.slots s = some i := by
  rcases found_of_resolveWithin h with ⟨d, hd⟩ | ⟨mixins, hmixin⟩ | ⟨k, own, j, hown, hj, hslot⟩
  · cases Store.isPooled_of_resolveWithin hd
  · obtain ⟨source, -, hslot⟩ := Option.map_eq_some_iff.1 hmixin
    cases hslot
  · cases hslot
    obtain ⟨t, ht, hi⟩ := ownIndex?_ok hj
    exact ⟨rfl, k, own, t, hown, rfl, ht, hi⟩

theorem own_of_resolve_heap {id : Nat} (h : e.resolve r s = .ok (.heap id i s')) :
    s' = s ∧ ∃ x, e.store.heaps[id]? = some x ∧
      e.store.ownIndex? x.shape x.members.slots s = some i := by
  rcases found_of_resolveWithin h with ⟨d, hd⟩ | ⟨mixins, hmixin⟩ | ⟨k, own, j, -, -, hslot⟩
  · exact Store.own_of_resolveWithin hd
  · obtain ⟨source, -, hslot⟩ := Option.map_eq_some_iff.1 hmixin
    cases hslot
  · cases hslot

end Engine

/-- Whatever resolves to a slot of the block is declared in it. For a block of a
frame this takes that its table is not the members of another scope as well. -/
theorem Block.Has.own_of_resolve {b : Block} {e : Engine} {shape : ShapeId} {t : MemberTable}
    {r : ScopeRef} {s s' : Symbol} {i : Nat} (h : b.Has e shape t)
    (hsole : ∀ k k' own own', e.frame.scope? k = some own → e.frame.scope? k' = some own' →
      own.members = own'.members → k = k')
    (hr : e.resolve r s = .ok (b.slot i s')) :
    s' = s ∧ e.store.ownIndex? shape t.slots s = some i := by
  cases b with
  | pooled k table =>
      obtain ⟨own, hown, rfl, rfl, ht⟩ := h
      obtain ⟨hs, k', own', t', hown', hmembers, ht', hi⟩ := Engine.own_of_resolve hr
      obtain rfl := hsole k' k own' own hown' hown hmembers
      rw [hown] at hown'
      cases hown'
      rw [ht] at ht'
      cases ht'
      exact ⟨hs, hi⟩
  | heap id =>
      obtain ⟨h, hh, rfl, rfl⟩ := h
      obtain ⟨hs, x, hx, hi⟩ := Engine.own_of_resolve_heap hr
      rw [hh] at hx
      cases hx
      exact ⟨hs, hi⟩

end ScriptCore

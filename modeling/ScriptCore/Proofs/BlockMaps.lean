import ScriptCore.Proofs.Elsewhere

/-!
# Blocks over one shape are maps of their own

Any number of blocks share a shape, in a frame and on the heap, and each has
symbols declared in it while the others do. The numbers of the symbols come
from all of them, in whatever order they happen to ask, so the row of slots of
one block has gaps where others were first, and it is short of what others have
added since. None of it shows. What a block answers is what a map answers that
saw only the operations addressed to the block.

The invariant has two halves. The row is within the list of the shape, so a
number that was given since is none of a slot there is. And a slot that somebody
has once found is at the number of its symbol and declared, which no later
operation takes back, so it can be assigned whenever that comes to pass.

There is one thing a map has and a block may lack, which is room: a shape that
has outgrown the largest bucket array, or a row that cannot be made as long as
the number asks for, stops the declaration that needed it. It is the block's
own business still, and nothing is changed by it.
-/

namespace ScriptCore

/-! ## One operation -/

namespace Outcome

def isPanicked {α : Type} : Outcome α → Bool
  | .panicked => true
  | _ => false

theorem isPanicked_ofExcept {α : Type} (r : Except EvalError α) :
    (ofExcept r).isPanicked = false := by
  cases r <;> rfl

end Outcome

/-- The operation stops for want of room. -/
def Op.panics (e : Engine) : Op → Bool
  | .declare r s a => (e.declare r s a).1.isPanicked
  | .assign slot v => (e.assign slot v).1.isPanicked
  | _ => false

namespace Store

variable {st st' : Store} {shape : ShapeId} {l l' : List Symbol} {t : MemberTable} {m : Members}

theorem Numbers.of_shapes_eq (h : st.Numbers shape l) (hs : st'.shapes = st.shapes) :
    st'.Numbers shape l := by
  unfold Numbers
  rw [hs]
  exact h

theorem Reads.later (h : st.Reads shape t m) (hl : st.Numbers shape l) (hl' : st'.Numbers shape l')
    (hpre : l <+: l') (hsize : t.size ≤ l.length) : st'.Reads shape t m := by
  intro s
  rw [hl.own?_later hl' hpre hsize]
  exact h s

end Store

namespace Block

variable {b : Block} {e : Engine} {shape : ShapeId} {t : MemberTable} {l : List Symbol}
  {M : Members} {s : Symbol} {i : Nat}

/-- What the operation does to the members of the block. -/
def act? (b : Block) (e : Engine) (o : Op) : Option MemberAct :=
  if o.panics e then none else b.addressed? e o

/-- The block is there, and its row of slots is the map. -/
structure Keeps (b : Block) (e : Engine) (shape : ShapeId) (t : MemberTable) (l : List Symbol)
    (M : Members) : Prop where
  has : b.Has e shape t
  numbers : e.store.Numbers shape l
  within : t.size ≤ l.length
  firm : t.Firm
  reads : e.store.Reads shape t M

/-- Work elsewhere: all that may have changed are the shapes. -/
theorem Keeps.develop (h : b.Keeps e shape t l M) {e' : Engine} (hhas : b.Has e' shape t)
    (hd : e.store.Develops e'.store) : ∃ l', l <+: l' ∧ b.Keeps e' shape t l' M := by
  obtain ⟨l', hl', hpre⟩ := h.numbers.develop hd
  exact ⟨l', hpre, hhas, hl', Nat.le_trans h.within hpre.length_le, h.firm,
    h.reads.later h.numbers hl' hpre h.within⟩

theorem Keeps.declare (h : b.Keeps e shape t l M) (s : Symbol) (a : Attributes) :
    ∃ t' l', l <+: l' ∧
      b.Keeps (e.declare b.scope s a).2 shape t' l'
        (if (e.declare b.scope s a).1.isPanicked then M else M.after (.declare s a)) := by
  obtain ⟨hshapes, ⟨-, hpanic, hhas⟩ | ⟨i, ⟨hi, hfits⟩, hans, hhas⟩⟩ := h.has.declare s a
  · have hd : e.store.Develops (e.declare b.scope s a).2.store :=
      (e.store.develops_createSlot shape s).trans (Store.develops_of_shapes_eq hshapes)
    obtain ⟨l', hpre, hkeeps⟩ := h.develop hhas hd
    rw [hpanic]
    exact ⟨t, l', hpre, hkeeps⟩
  · obtain ⟨l', hl', hpre, hget⟩ := h.numbers.createSlot hi
    have hl' := hl'.of_shapes_eq hshapes
    -- the row as it is reads the same with the new number, and then it is written there
    have hreads := h.reads.later h.numbers hl' hpre h.within
    have hwrites := t.writes_declareAt i s a
    rw [hans, Outcome.isPanicked_ofExcept]
    exact ⟨_, l', hpre, hhas, hl', hwrites.size_le hget (Nat.le_trans h.within hpre.length_le),
      hwrites.firm h.firm hfits, (hreads.declareAt hl' hget a).2⟩

/-- The slot of a declared member is in the row. -/
theorem Keeps.slotAt (h : b.Keeps e shape t l M) (hi : l[i]? = some s) (hs : (M s).isSome) :
    i < t.size ∧ M s = some (t.slotAt i) := by
  obtain ⟨slot, hslot⟩ := Option.isSome_iff_exists.1 hs
  obtain ⟨hat, hdecl⟩ :=
    Option.filter_eq_some_iff.1 ((h.reads.slotAt h.numbers hi).symm.trans hslot)
  cases hat
  refine ⟨Nat.lt_of_not_le fun hle => ?_, hslot⟩
  have hgap : t.slotAt i = .undeclared := by
    rw [MemberTable.slotAt, MemberTable.get?, Array.getElem?_eq_none hle]
    rfl
  rw [hgap] at hdecl
  cases hdecl

/-- A slot that was found can be assigned. -/
theorem Keeps.fits (h : b.Keeps e shape t l M) (hi : l[i]? = some s) (hs : (M s).isSome) :
    t.fits (i + 1) = true :=
  h.firm (i + 1) (h.slotAt hi hs).1

theorem Keeps.assignAt (h : b.Keeps e shape t l M) (hi : l[i]? = some s) (hs : (M s).isSome)
    {v : Value} {e' : Engine} (hshapes : e'.store.shapes = e.store.shapes)
    (hhas : b.Has e' shape (t.assignAt i s v).2) :
    (t.assignAt i s v).1 = (M.assign s v).map (fun _ => ()) ∧
      b.Keeps e' shape (t.assignAt i s v).2 l (M.after (.assign s v)) := by
  have hl := h.numbers.of_shapes_eq hshapes
  have hreads := h.reads.later h.numbers hl List.prefix_rfl h.within
  obtain ⟨hsame, hreads⟩ := hreads.assignAt hl hi hs v
  have hwrites := t.writes_assignAt i s v
  exact ⟨hsame, hhas, hl, hwrites.size_le hi h.within, hwrites.firm h.firm (h.fits hi hs), hreads⟩

theorem Keeps.assign (h : b.Keeps e shape t l M) (hi : l[i]? = some s) (hs : (M s).isSome)
    (v : Value) :
    (e.assign (b.slot i s) v).1 = .ofExcept ((M.assign s v).map fun _ => ()) ∧
      ∃ t', b.Keeps (e.assign (b.slot i s) v).2 shape t' l (M.after (.assign s v)) := by
  obtain ⟨hshapes, hans, hhas⟩ := h.has.assign (h.fits hi hs) s v
  obtain ⟨hsame, hkeeps⟩ := h.assignAt hi hs hshapes hhas
  rw [hans, hsame]
  exact ⟨rfl, _, hkeeps⟩

theorem Keeps.assignPublic (h : b.Keeps e shape t l M) {source : SourceId} {d : DurableScope}
    (hsource : e.store.sources[source]? = some (.scope d)) (hd : .durable d = b.scope)
    (s : Symbol) (v : Value) :
    (e.assign (.mixin source s) v).1 = .ofExcept ((M.assignPublic s v).map fun _ => ()) ∧
      ∃ t', b.Keeps (e.assign (.mixin source s) v).2 shape t' l (M.after (.assignPublic s v)) := by
  obtain ⟨hshapes, ⟨i, hi, hlt, hpublic, hans, hhas⟩ | ⟨hnone, hans, hhas⟩⟩ :=
    h.has.assignPublic hsource hd s v
  · have hget := h.numbers.slotOf?_eq_some_iff.1 hi
    have hany : (M s).any Slot.isPublic = true := by
      rw [h.reads.any_isPublic h.numbers hget]
      exact hpublic
    have hs : (M s).isSome := by
      obtain ⟨slot, hslot, -⟩ := (Option.any_eq_true _ _).1 hany
      rw [hslot]
      rfl
    have hassign : M.assignPublic s v = M.assign s v := if_pos hany
    have hafter : M.after (.assignPublic s v) = M.after (.assign s v) := by
      simp only [Members.after, Members.attempt, hassign]
    obtain ⟨hsame, hkeeps⟩ := h.assignAt hget hs hshapes hhas
    rw [hafter, hassign, hans, hsame]
    exact ⟨rfl, _, hkeeps⟩
  · have hany : ¬ (M s).any Slot.isPublic = true := by
      cases hi : e.store.slotOf? shape s with
      | none =>
          rw [← h.reads s, Store.own?, Store.ownIndex?, hi]
          exact Bool.false_ne_true
      | some i =>
          rw [h.reads.any_isPublic h.numbers (h.numbers.slotOf?_eq_some_iff.1 hi), hnone i hi]
          exact Bool.false_ne_true
    have hassign : M.assignPublic s v = .error (ErrorKind.noSuchMember s) := if_neg hany
    have hafter : M.after (.assignPublic s v) = M := by
      simp only [Members.after, Members.attempt, hassign]
    have hl := h.numbers.of_shapes_eq hshapes
    rw [hafter, hassign]
    exact ⟨hans, t, hhas, hl, h.within, h.firm,
      h.reads.later h.numbers hl List.prefix_rfl h.within⟩

/-- One operation, whoever it is addressed to. A slot of the block that it
assigns has to be one that was found. -/
theorem Keeps.after {m : Machine} {o : Op} {base : Nat} (h : b.Keeps m.engine shape t l M)
    (hm : m.Tracked) (hw : m.Owned) (ho : Machine.Allows base m o) (hr : m.Respects o)
    (hlast : b.Lasts m (m.after o))
    (hfound : ∀ i s v, o = .assign (b.slot i s) v → l[i]? = some s ∧ (M s).isSome) :
    ∃ t' l', l <+: l' ∧ b.Keeps (m.after o).engine shape t' l'
      ((b.act? m.engine o).toList.foldl Members.after M) := by
  cases hact : b.addressed? m.engine o with
  | none =>
      have hhas := h.has.after_other hm hw ho hr hlast hact
      obtain ⟨l', hpre, hkeeps⟩ := h.develop hhas (o.develops_perform m.engine hr.develops)
      have hnone : b.act? m.engine o = none := by
        unfold act?
        split
        · rfl
        · exact hact
      rw [hnone]
      exact ⟨t, l', hpre, hkeeps⟩
  | some act =>
      cases o with
      | declare r s a =>
          simp only [addressed?] at hact
          split at hact
          · next hat =>
              obtain rfl := isAt_iff.1 hat
              obtain ⟨t', l', hpre, hkeeps⟩ := h.declare s a
              refine ⟨t', l', hpre, ?_⟩
              have hsome : b.act? m.engine (.declare b.scope s a) =
                  if (m.engine.declare b.scope s a).1.isPanicked then none
                  else some (.declare s a) := by
                rw [act?, addressed?, if_pos hat]
                rfl
              rw [hsome]
              cases hpanic : (m.engine.declare b.scope s a).1.isPanicked with
              | true =>
                  rw [hpanic] at hkeeps
                  exact hkeeps
              | false =>
                  rw [hpanic] at hkeeps
                  exact hkeeps
          · cases hact
      | assign slot v =>
          have hsome : (m.engine.assign slot v).1.isPanicked = false →
              b.act? m.engine (.assign slot v) = some act := by
            intro hpanic
            rw [act?, Op.panics, hpanic]
            exact hact
          simp only [addressed?] at hact
          split at hact
          · next hholds =>
              cases hact
              obtain ⟨i, s, rfl⟩ := holds_iff.1 hholds
              obtain ⟨hi, hs⟩ := hfound i s v rfl
              obtain ⟨hans, t', hkeeps⟩ := h.assign hi hs v
              rw [hsome (by rw [hans, Outcome.isPanicked_ofExcept]), symbol_slot]
              exact ⟨t', l, List.prefix_rfl, hkeeps⟩
          · split at hact
            · next hfeeds =>
                cases hact
                obtain ⟨source, s, d, rfl, hsource, hd⟩ := feeds_iff.1 hfeeds
                obtain ⟨hans, t', hkeeps⟩ := h.assignPublic hsource hd s v
                rw [hsome (by rw [hans, Outcome.isPanicked_ofExcept])]
                exact ⟨t', l, List.prefix_rfl, hkeeps⟩
            · cases hact
      | _ => cases hact

/-! ## What the block answers -/

/-- There is room in the block for a declaration of the symbol. -/
def HasRoom (b : Block) (e : Engine) (s : Symbol) : Prop :=
  ∃ shape t i, b.Has e shape t ∧ RoomIn e.store shape t s i

/-- The block answers as the map does, for its own members and through any of
its slots that was found. Only a declaration of something new may find no room,
and panics then. -/
structure Answers (b : Block) (e : Engine) (found : SlotRef → Prop) (M : Members) : Prop where
  own : ∀ s, b.own? e s = M s
  lookup : ∀ s slot, M s = some slot →
    ∃ i, e.resolve b.scope s = .ok (b.slot i s) ∧ e.load (b.slot i s) = .ok slot.value
  only : ∀ r s i s', e.resolve r s = .ok (b.slot i s') → s' = s ∧ (M s).isSome
  load : ∀ i s, found (b.slot i s) →
    ∃ slot, M s = some slot ∧ e.load (b.slot i s) = .ok slot.value
  assign : ∀ i s v, found (b.slot i s) →
    (e.assign (b.slot i s) v).1 = .ofExcept ((M.assign s v).map fun _ => ())
  declare : ∀ s a, b.HasRoom e s →
    ∃ i, (e.declare b.scope s a).1 = .ofExcept ((M.declare s a).map fun _ => b.slot i s)
  declared : ∀ s a slot, (e.declare b.scope s a).1 = .done slot →
    (e.declare b.scope s a).2.resolve b.scope s = .ok slot
  full : ∀ s a, ¬ b.HasRoom e s → (e.declare b.scope s a).1 = .panicked
  room : ∀ s, (M s).isSome → b.HasRoom e s

/-- A slot that a lookup finds is at the number of its symbol, and declared. -/
theorem Keeps.of_resolve {m : Machine} {r : ScopeRef} {s' : Symbol}
    (h : b.Keeps m.engine shape t l M) (hw : m.Owned)
    (hr : m.engine.resolve r s = .ok (b.slot i s')) : s' = s ∧ l[i]? = some s ∧ (M s).isSome := by
  obtain ⟨hs, hi⟩ := h.has.own_of_resolve (fun _ _ _ _ h₁ h₂ hsame => hw.sole h₁ h₂ hsame) hr
  obtain ⟨hget, slot, hslot, hdecl⟩ := h.numbers.ownIndex?_eq_some_iff.1 hi
  refine ⟨hs, hget, ?_⟩
  rw [← h.reads s, h.numbers.own?_eq_some_iff.2 ⟨i, hget, hslot, hdecl⟩]
  rfl

theorem Keeps.load (h : b.Keeps e shape t l M) (hi : l[i]? = some s) (hs : (M s).isSome) :
    ∃ slot, M s = some slot ∧ e.load (b.slot i s) = .ok slot.value := by
  obtain ⟨hlt, hslot⟩ := h.slotAt hi hs
  refine ⟨_, hslot, ?_⟩
  rw [h.has.load, MemberTable.slotAt, MemberTable.get?,
    Array.getElem?_eq_getElem (show i < t.slots.size from hlt)]
  rfl

theorem Has.eq {shape' : ShapeId} {t' : MemberTable} (h : b.Has e shape t)
    (h' : b.Has e shape' t') : shape = shape' ∧ t = t' := by
  cases b with
  | pooled k table =>
      obtain ⟨own, hown, rfl, rfl, ht⟩ := h
      obtain ⟨own', hown', rfl, -, ht'⟩ := h'
      rw [hown] at hown'
      cases hown'
      rw [ht] at ht'
      cases ht'
      exact ⟨rfl, rfl⟩
  | heap id =>
      obtain ⟨h, hh, rfl, rfl⟩ := h
      obtain ⟨h', hh', rfl, rfl⟩ := h'
      rw [hh] at hh'
      cases hh'
      exact ⟨rfl, rfl⟩

theorem Keeps.answers {m : Machine} {found : SlotRef → Prop} (h : b.Keeps m.engine shape t l M)
    (hw : m.Owned) (hfound : ∀ i s, found (b.slot i s) → l[i]? = some s ∧ (M s).isSome) :
    b.Answers m.engine found M where
  own := fun s => h.has.own?_eq.trans (h.reads s)
  lookup := by
    intro s slot hslot
    have hown := (h.reads s).trans hslot
    obtain ⟨i, hget, hrow, hdecl⟩ := h.numbers.own?_eq_some_iff.1 hown
    have hi := h.numbers.ownIndex?_eq_some_iff.2 ⟨hget, slot, hrow, hdecl⟩
    obtain ⟨slot', hslot', hload⟩ := h.load hget (by rw [hslot]; rfl)
    rw [hslot] at hslot'
    cases hslot'
    exact ⟨i, h.has.resolve hi, hload⟩
  only := by
    intro r s i s' hr
    obtain ⟨hs, -, hsome⟩ := h.of_resolve hw hr
    exact ⟨hs, hsome⟩
  load := by
    intro i s hf
    obtain ⟨hi, hs⟩ := hfound i s hf
    exact h.load hi hs
  assign := by
    intro i s v hf
    obtain ⟨hi, hs⟩ := hfound i s hf
    exact (h.assign hi hs v).1
  declare := by
    rintro s a ⟨shape', t', i, hhas, hroom⟩
    obtain ⟨rfl, rfl⟩ := hhas.eq h.has
    obtain ⟨hshapes, ⟨hnone, -⟩ | ⟨j, ⟨hj, -⟩, hans, -⟩⟩ := h.has.declare s a
    · exact absurd hroom (hnone i)
    · obtain ⟨l', hl', hpre, hget⟩ := h.numbers.createSlot hj
      have hreads := h.reads.later h.numbers hl' hpre h.within
      refine ⟨j, ?_⟩
      rw [hans, (hreads.declareAt hl' hget a).1]
      cases M.declare s a <;> rfl
  declared := by
    intro s a slot hdone
    obtain ⟨hshapes, ⟨-, hpanic, -⟩ | ⟨i, ⟨hi, -⟩, hans, hhas⟩⟩ := h.has.declare s a
    · rw [hpanic] at hdone
      cases hdone
    · obtain ⟨l', hl', -, hget⟩ := h.numbers.createSlot hi
      have hl' := hl'.of_shapes_eq hshapes
      rw [hans] at hdone
      obtain ⟨rfl, hrow⟩ := t.declareAt_done hdone
      exact hhas.resolve (hl'.ownIndex?_eq_some_iff.2 ⟨hget, _, hrow, rfl⟩)
  full := by
    intro s a hno
    obtain ⟨-, ⟨-, hpanic, -⟩ | ⟨i, hroom, -⟩⟩ := h.has.declare s a
    · exact hpanic
    · exact absurd ⟨shape, t, i, h.has, hroom⟩ hno
  room := by
    intro s hs
    obtain ⟨slot, hslot⟩ := Option.isSome_iff_exists.1 hs
    obtain ⟨i, hget, -, -⟩ := h.numbers.own?_eq_some_iff.1 ((h.reads s).trans hslot)
    exact ⟨shape, t, i, h.has, h.numbers.createSlot_of_mem hget, h.fits hget hs⟩

end Block

/-! ## New blocks -/

namespace Frame

/-- A table that is handed out with room for `n` slots has none yet. -/
theorem acquireTable_empty {f : Frame} {v : Option Nat} {n : Nat} {k : PoolKey} (hf : f.Sound)
    (hs : f.Swept) (h : (f.acquireTable v n).1 = some k) :
    ∃ t, (f.acquireTable v n).2.tables.get? k = some t ∧ t.slots = #[] ∧ t.fits 0 := by
  obtain ⟨t, ht, hempty⟩ := Pool.Idle.acquired hs hf.tables v
    (a := MemberTable.withMinCapacity f.config.minTableCapacity) rfl
  have ht : (f.addTable v).tables.get? f.tables.nextKey = some t := ht
  rw [acquireTable_eq, ht] at h ⊢
  split at h
  · next hfits =>
      cases h
      rw [if_pos hfits]
      refine ⟨t.ensureCapacity n, get?_modifyTable ht _, ?_, ?_⟩
      · rw [MemberTable.slots_ensureCapacity, hempty]
      · rw [MemberTable.fits, MemberTable.capacity_ensureCapacity (Nat.zero_le n)]
        exact hfits
  · cases h

end Frame

namespace Block

/-- The operation makes the block: a new scope of the frame, or one that is on
the heap from then on. -/
def MadeBy (b : Block) (e : Engine) (o : Op) : Prop :=
  match b with
  | pooled k table => (∃ previous shape, o = .allocateBlock previous shape) ∧
      o.newScope? e = some k ∧ ∃ own, (o.perform e).frame.scope? k = some own ∧ own.members = table
  | heap id => ∃ st h n, o = .share st ∧ e.store.heaps[id]? = none ∧ st.heaps[id]? = some h ∧
      h.kind = .block ∧ h.members = .withMinCapacity n

variable {b : Block} {e : Engine} {shape : ShapeId} {t : MemberTable} {l : List Symbol}
  {M : Members} {m : Machine} {o : Op} {os past : List Op} {base : Nat}

theorem Keeps.of_empty (h : b.Has e shape t) (hslots : t.slots = #[]) (hfits : t.fits 0)
    (hl : e.store.Numbers shape l) : b.Keeps e shape t l .empty where
  has := h
  numbers := hl
  within := by
    rw [MemberTable.size, hslots]
    exact Nat.zero_le _
  firm := by
    intro n hn
    rw [MemberTable.size, hslots] at hn
    cases Nat.le_zero.1 hn
    exact hfits
  reads := by
    intro s
    rw [hslots, Store.own?, Members.empty, Option.bind_eq_none_iff]
    intro i _
    rfl

theorem MadeBy.has (h : b.MadeBy e o) (hf : e.frame.Sound) (hs : e.frame.Swept) :
    ∃ shape t, b.Has (o.perform e) shape t ∧ t.slots = #[] ∧ t.fits 0 := by
  cases b with
  | pooled k table =>
      obtain ⟨⟨previous, shape, rfl⟩, hnew, own, hown, rfl⟩ := h
      have hown' : (e.frame.allocateBlock previous shape (e.store.shapeSize shape)).2.scope? k =
        some own := hown
      have hnew : (e.frame.allocateBlock previous shape (e.store.shapeSize shape)).1 = some k :=
        hnew
      rcases e.frame.allocateBlock_cases previous shape (e.store.shapeSize shape) with
        hno | ⟨hacq, hdone⟩
      · rw [hno] at hnew
        cases hnew
      · have hsound := (Frame.touches_acquireTable (S := fun _ => False) (T := fun _ => False) hf
          (.inl rfl) (e.store.shapeSize shape)).sound
        obtain ⟨t, ht, hempty, hfits⟩ := Frame.acquireTable_empty hf hs hacq
        rw [hdone] at hown' hnew
        cases hnew
        rw [Frame.scope?_installScope hsound, Frame.acquireTable_scopes, if_pos rfl] at hown'
        cases hown'
        refine ⟨shape, t, ⟨_, hown, rfl, rfl, ?_⟩, hempty, hfits⟩
        show (e.frame.allocateBlock previous shape _).2.tables.get? e.frame.tables.nextKey = some t
        rw [hdone, Frame.installScope_tables]
        exact ht
  | heap id =>
      obtain ⟨st, h, n, rfl, -, hh, -, hmembers⟩ := h
      refine ⟨h.shape, h.members, ⟨h, hh, rfl, rfl⟩, ?_, ?_⟩
      · rw [hmembers]
        rfl
      · rw [hmembers]
        rfl

end Block

/-! ## Every run -/

namespace Members

theorem isSome_foldl {m : Members} {x : Symbol} (acts : List MemberAct) (h : (m x).isSome) :
    ((acts.foldl after m) x).isSome := by
  induction acts generalizing m with
  | nil => exact h
  | cons act acts ih => exact ih (isSome_after act h)

end Members

namespace Machine

def Respectful (m : Machine) : List Op → Prop
  | [] => True
  | o :: os => m.Respects o ∧ (m.after o).Respectful os

/-- A lookup has found the slot at some point of the run. -/
def Found (m : Machine) (os : List Op) (slot : SlotRef) : Prop :=
  ∃ past, past <+: os ∧ ∃ r s, (m.run past).engine.resolve r s = .ok slot

/-- A slot of the block is assigned only once it was found. -/
def StoresFound (m : Machine) (b : Block) (past : List Op) : List Op → Prop
  | [] => True
  | o :: os => (∀ slot v, o = .assign slot v → b.holds slot → m.Found past slot) ∧
    m.StoresFound b (past ++ [o]) os

/-- What a run does to the members of a block. -/
def acts (m : Machine) (b : Block) : List Op → List MemberAct
  | [] => []
  | o :: os => (b.act? m.engine o).toList ++ (m.after o).acts b os

variable {m : Machine} {os os' : List Op}

theorem respectful_append :
    m.Respectful (os ++ os') ↔ m.Respectful os ∧ (m.run os).Respectful os' := by
  induction os generalizing m with
  | nil => exact (and_iff_right trivial).symm
  | cons o os ih => exact (and_congr_right fun _ => ih).trans and_assoc.symm

theorem Respectful.sharing (h : m.Respectful os) : m.Sharing os := by
  induction os generalizing m with
  | nil => trivial
  | cons o os ih => exact ⟨h.1.develops, ih h.2⟩

end Machine

namespace Block

variable {b : Block} {shape : ShapeId} {t : MemberTable} {l : List Symbol} {M : Members}
  {m : Machine} {o : Op} {os past : List Op} {base : Nat}

theorem Lasts.cons (h : b.Lasts m (m.run (o :: os))) :
    b.Lasts m (m.after o) ∧ b.Lasts (m.after o) ((m.after o).run os) := by
  cases b with
  | pooled k table =>
      have hlast : ((m.after o).run os).scopeReleases k.index = m.scopeReleases k.index := h
      have hone : m.scopeReleases k.index ≤ (m.after o).scopeReleases k.index :=
        Nat.le_add_right _ _
      have hrest := Machine.scopeReleases_le_run os (m.after o) k.index
      constructor
      · show (m.after o).scopeReleases k.index = m.scopeReleases k.index
        omega
      · show ((m.after o).run os).scopeReleases k.index = (m.after o).scopeReleases k.index
        omega
  | heap id => exact ⟨trivial, trivial⟩

/-- What a run leaves of a block, by induction on the run. The slots found so
far are good for every later operation. -/
theorem Keeps.run (h : b.Keeps (m.run past).engine shape t l M) (hm : (m.run past).Tracked)
    (hw : (m.run past).Owned) (hos : Machine.Lawful base (m.run past) os)
    (hr : (m.run past).Respectful os) (hlast : b.Lasts (m.run past) ((m.run past).run os))
    (hstores : m.StoresFound b past os)
    (hfound : ∀ i s, m.Found past (b.slot i s) → l[i]? = some s ∧ (M s).isSome) :
    ∃ t' l', b.Keeps ((m.run past).run os).engine shape t' l'
        (((m.run past).acts b os).foldl Members.after M) ∧
      ∀ i s, m.Found (past ++ os) (b.slot i s) →
        l'[i]? = some s ∧ (((m.run past).acts b os).foldl Members.after M s).isSome := by
  induction os generalizing past t l M with
  | nil =>
      rw [List.append_nil]
      exact ⟨t, l, h, hfound⟩
  | cons o os ih =>
      obtain ⟨hone, hrest⟩ := hlast.cons
      obtain ⟨t', l', hpre, hkeeps⟩ := h.after hm hw hos.1 hr.1 hone fun i s v ho =>
        hfound i s (hstores.1 _ v ho (holds_iff.2 ⟨i, s, rfl⟩))
      have hsnoc : m.run (past ++ [o]) = (m.run past).after o := m.run_append past [o]
      have hw' := hw.after hm hos.1
      have hfound' : ∀ i s, m.Found (past ++ [o]) (b.slot i s) → l'[i]? = some s ∧
          ((b.act? (m.run past).engine o).toList.foldl Members.after M s).isSome := by
        rintro i s ⟨p, hp, r, s', hres⟩
        -- found just now, or before, and then its number is still the same
        rcases List.prefix_concat_iff.1 hp with rfl | hp
        · rw [hsnoc] at hres
          obtain ⟨rfl, hi, hs⟩ := hkeeps.of_resolve hw' hres
          exact ⟨hi, hs⟩
        · obtain ⟨hi, hs⟩ := hfound i s ⟨p, hp, r, s', hres⟩
          refine ⟨?_, Members.isSome_foldl _ hs⟩
          rw [Store.getElem?_later hpre (List.getElem?_eq_some_iff.1 hi).1]
          exact hi
      have hall := @ih t' l' ((b.act? (m.run past).engine o).toList.foldl Members.after M)
        (past ++ [o])
      rw [hsnoc, List.append_assoc] at hall
      rw [Machine.acts, List.foldl_append]
      exact hall hkeeps (hm.after o) hw' hos.2 hr.2 hrest hstores.2 hfound'

end Block

namespace Machine

/-- A block that some run makes, and that the rest of the run does not give
back, answers as the map does to which only what was addressed to the block was
done. So what other blocks declare and assign, and how the shape they share
numbers their symbols and grows, does not show in it. -/
theorem blocks_behave_as_maps {store : Store} {config : FrameConfig} {global : GlobalId}
    {flag : FlagId} {before after : List Op} {o : Op} {b : Block} (hstore : store.Ordered)
    (hos : Lawful 0 (start store config global flag) (before ++ o :: after))
    (hr : (start store config global flag).Respectful (before ++ o :: after))
    (hmade : b.MadeBy ((start store config global flag).run before).engine o) :
    let m := ((start store config global flag).run before).after o
    b.Lasts m (m.run after) → m.StoresFound b [] after →
      b.Answers (m.run after).engine (m.Found after)
        ((m.acts b after).foldl Members.after .empty) := by
  intro m hlast hstores
  obtain ⟨hbefore, ho, hafter⟩ := lawful_append.1 hos
  obtain ⟨hrbefore, hro, hrafter⟩ := respectful_append.1 hr
  have hm₀ : ((start store config global flag).run before).Tracked := (tracked_start ..).run before
  have hw₀ : ((start store config global flag).run before).Owned :=
    (owned_start store config global flag).run (tracked_start ..) hbefore
  have hm : m.Tracked := hm₀.after o
  have hw : m.Owned := hw₀.after hm₀ ho
  have hord : m.engine.store.Ordered :=
    (hstore.develop hrbefore.sharing.develops).develop (o.develops_perform _ hro.develops)
  obtain ⟨shape, t, hhas, hslots, hfits⟩ :=
    hmade.has hm₀.sound (swept_run (swept_start store config global flag) before)
  obtain ⟨l, hl⟩ := hord.numbers shape
  have hkeeps : b.Keeps m.engine shape t l .empty := .of_empty hhas hslots hfits hl
  obtain ⟨t', l', hkeeps', hfound⟩ := @Block.Keeps.run b shape t l .empty m after [] 0 hkeeps hm hw
    hafter hrafter hlast hstores (by
      rintro i s ⟨past, hpast, r, s', hres⟩
      cases List.prefix_nil.1 hpast
      obtain ⟨rfl, hi, hs⟩ := hkeeps.of_resolve hw hres
      exact ⟨hi, hs⟩)
  exact hkeeps'.answers (hw.run hm hafter) hfound

/-- Two blocks of a frame share a shape. The second declares a symbol first, so
the row of the first has a gap before the symbol it declares itself. -/
theorem block_with_gap_is_a_map :
    let start := start { shapes := #[.empty], globals := #[{}] } {} 0 0
    let block : Op := .allocateBlock (.ofGlobal 0) 0
    let x : Symbol := ⟨500, by decide⟩
    let y : Symbol := ⟨501, by decide⟩
    let os : List Op :=
      [block, .declare (.pooled ⟨1, 0⟩) x .exposed, .declare (.pooled ⟨0, 0⟩) y .exposed,
        .assign (.pooled ⟨0, 0⟩ 1 y) (.int 7)]
    let b := Block.pooled ⟨0, 0⟩ ⟨0, 0⟩
    let m := start.after block
    let M := (m.acts b os).foldl Members.after .empty
    Lawful 0 start (block :: os) ∧ b.MadeBy start.engine block ∧
      b.Answers (m.run os).engine (m.Found os) M ∧ M x = none ∧
      (M y).map (fun slot => (slot.attributes, slot.value.asInt?)) =
        some (some .exposed, some 7) := by
  intro start block x y os b m M
  have hstore := Store.ordered_of_made Shape.made_empty #[{}]
  have hos : Lawful 0 start (block :: os) := by decide +kernel
  have hr : start.Respectful (block :: os) :=
    ⟨⟨nofun, nofun, nofun⟩, ⟨nofun, nofun, nofun⟩, ⟨nofun, nofun, nofun⟩, ⟨nofun, nofun, nofun⟩,
      ⟨nofun, nofun, nofun⟩, trivial⟩
  have hnew : block.newScope? start.engine = some ⟨0, 0⟩ := by decide +kernel
  have hscope : (m.engine.frame.scope? ⟨0, 0⟩).map (·.members) = some ⟨0, 0⟩ := by decide +kernel
  have hmade : b.MadeBy start.engine block := by
    obtain ⟨own, hown, hmembers⟩ := Option.map_eq_some_iff.1 hscope
    exact ⟨⟨_, _, rfl⟩, hnew, own, hown, hmembers⟩
  have hlast : b.Lasts m (m.run os) := by
    show (m.run os).scopeReleases 0 = m.scopeReleases 0
    decide +kernel
  let past : List Op :=
    [block, .declare (.pooled ⟨1, 0⟩) x .exposed, .declare (.pooled ⟨0, 0⟩) y .exposed]
  have hplace : (m.run past).engine.resolve (.pooled ⟨0, 0⟩) y = .ok (.pooled ⟨0, 0⟩ 1 y) :=
    Engine.resolve_eq_of_place (by decide +kernel)
  have hfound : m.Found past (.pooled ⟨0, 0⟩ 1 y) :=
    ⟨past, List.prefix_rfl, .pooled ⟨0, 0⟩, y, hplace⟩
  have hstores : m.StoresFound b [] os := by
    refine ⟨nofun, nofun, nofun, ?_, trivial⟩
    rintro slot v ho -
    cases ho
    exact hfound
  have hanswers : b.Answers (m.run os).engine (m.Found os) M :=
    @blocks_behave_as_maps _ {} 0 0 [] os block b hstore hos hr hmade hlast hstores
  have hx : (M x).isNone := by decide +kernel
  exact ⟨hos, hmade, hanswers, Option.isNone_iff_eq_none.1 hx, by decide +kernel⟩

/-- Where the least capacity of a table is more than there can be, a block is
made, and its first declaration panics. The map takes it. -/
theorem declaration_without_room_panics :
    let start := start { shapes := #[.empty], globals := #[{}] }
      { minTableCapacity := 1152921504606846976 } 0 0
    let block : Op := .allocateBlock (.ofGlobal 0) 0
    let b := Block.pooled ⟨0, 0⟩ ⟨0, 0⟩
    Lawful 0 start [block] ∧ b.MadeBy start.engine block ∧
      ¬ ∀ s a, ∃ i, ((start.after block).engine.declare b.scope s a).1 =
        .ofExcept ((Members.empty.declare s a).map fun _ => b.slot i s) := by
  intro start block b
  have hnew : block.newScope? start.engine = some ⟨0, 0⟩ := by decide +kernel
  have hscope : ((start.after block).engine.frame.scope? ⟨0, 0⟩).map (·.members) =
      some ⟨0, 0⟩ := by
    decide +kernel
  have hpanic : (((start.after block).engine.declare b.scope ⟨500, by decide⟩
      .exposed).1).isPanicked = true := by
    decide +kernel
  obtain ⟨own, hown, hmembers⟩ := Option.map_eq_some_iff.1 hscope
  refine ⟨by decide +kernel, ⟨⟨_, _, rfl⟩, hnew, own, hown, hmembers⟩, fun hall => ?_⟩
  obtain ⟨i, hi⟩ := hall ⟨500, by decide⟩ .exposed
  rw [hi, Outcome.isPanicked_ofExcept] at hpanic
  cases hpanic

end Machine

end ScriptCore

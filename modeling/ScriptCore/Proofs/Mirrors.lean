import ScriptCore.Proofs.Order

/-!
# What storage keeps of a world

`Mirrors` relates a world to an engine: every cell that still matters has a
seat, which is a scope of the frame with its table or a heap scope, and is kept
there. Beyond the seats the engine may have what it likes, tables nobody needs
any more and heap scopes of calls that are over.

Which cells have a seat, and where, is the seating. It grows while an activation
goes on and shrinks when one ends, and what happens to the engine in between
is told apart by one question: does it touch the seat of another cell?
-/

namespace ScriptCore

/-! ## Numbers that shapes give out -/

namespace Store

variable {st : Store} {shape : ShapeId} {s : Symbol} {i : Nat}

theorem Numbers.length_lt_ample {l : List Symbol} (h : st.Numbers shape l) :
    l.length < MemberTable.ample := by
  rcases h with ⟨sh, -, hl⟩ | ⟨-, rfl⟩
  · have hroom := hl.lists.room
    have hle := Capacity.le_largest_of_mem hl.lists.capacity
    simp only [Capacity.largest] at hle
    simp only [MemberTable.ample]
    omega
  · decide

theorem Ordered.slotOf?_lt (ho : st.Ordered) (h : st.slotOf? shape s = some i) :
    i + 1 ≤ MemberTable.ample := by
  obtain ⟨l, hl⟩ := ho.numbers shape
  have hlt := (List.getElem?_eq_some_iff.1 (hl.slotOf?_eq_some_iff.1 h)).1
  have := hl.length_lt_ample
  omega

theorem Ordered.createSlot_lt (ho : st.Ordered) (h : (st.createSlot shape s).1 = .ok i) :
    i + 1 ≤ MemberTable.ample := by
  obtain ⟨l, hl⟩ := ho.numbers shape
  obtain ⟨l', hl', -, hget⟩ := hl.createSlot h
  have hlt := (List.getElem?_eq_some_iff.1 hget).1
  have := hl'.length_lt_ample
  omega

theorem Ordered.shapeSize_le (ho : st.Ordered) (shape : ShapeId) :
    st.shapeSize shape ≤ MemberTable.ample := by
  obtain ⟨l, hl⟩ := ho.numbers shape
  have := hl.length_lt_ample
  have := hl.shapeSize
  omega

end Store

/-! ## Functions but for one mark -/

namespace Functions

variable {fs fs' : Functions} {f : FunctionId} {function : Function}

/-- The functions without the mark that says how their calls are stored. -/
def plain (fs : Functions) : Functions := fs.map fun g => { g with enclosesFunctions := false }

theorem getElem?_of_plain (h : fs.plain = fs'.plain) (hf : fs[f]? = some function) :
    ∃ b, fs'[f]? = some { function with enclosesFunctions := b } := by
  have hget : fs.plain[f]? = fs'.plain[f]? := by rw [h]
  rw [plain, plain, Array.getElem?_map, Array.getElem?_map, hf] at hget
  obtain ⟨function', hf', hsame⟩ := Option.map_eq_some_iff.1 hget.symm
  refine ⟨function'.enclosesFunctions, ?_⟩
  rw [hf']
  cases function
  cases function'
  simp only [Function.mk.injEq] at hsame ⊢
  simp_all

theorem getElem?_eq_none_of_plain (h : fs.plain = fs'.plain) (hf : fs[f]? = none) :
    fs'[f]? = none := by
  have hsize : fs.size = fs'.size := by
    rw [← Array.size_map (f := fun g : Function => { g with enclosesFunctions := false })]
    exact (congrArg Array.size h).trans Array.size_map
  rw [Array.getElem?_eq_none_iff] at hf ⊢
  omega

theorem pick_of_plain (h : fs.plain = fs'.plain) (q : Question) : q.pick fs = q.pick fs' := by
  have hover : ∀ f : FunctionId,
      fs[f]?.bind Function.overridden = fs'[f]?.bind Function.overridden := by
    intro f
    cases hf : fs[f]? with
    | none => rw [getElem?_eq_none_of_plain h hf]
    | some function =>
        obtain ⟨b, hf'⟩ := getElem?_of_plain h hf
        rw [hf']
        rfl
  cases q with
  | this => rfl
  | callee => rfl
  | super =>
      funext kind
      cases kind with
      | block => rfl
      | function binding =>
          simp only [Question.pick, ScopeKind.super?, FunctionBinding.superValue, hover]

end Functions

/-! ## Seats -/

/-- Where a cell is kept: a scope of the frame over its table, which a depth
gives back, or a heap scope. Either is enclosed by some scope. -/
inductive Seat where
  | pooled (key table : PoolKey) (outer : ScopeRef) (home : Nat)
  | heap (id : HeapId) (outer : DurableScope)

/-- The seats of the cells that have one. -/
abbrev Seating := CellId → Option Seat

namespace Seating

variable {ρ ρ' ρ'' : Seating}

/-- The first seating is part of the second. -/
def Within (ρ ρ' : Seating) : Prop := ∀ c seat, ρ c = some seat → ρ' c = some seat

theorem Within.refl (ρ : Seating) : ρ.Within ρ := fun _ _ h => h

theorem Within.trans (h : ρ.Within ρ') (h' : ρ'.Within ρ'') : ρ.Within ρ'' :=
  fun c seat hc => h' c seat (h c seat hc)

/-- One more cell has a seat. -/
def sit (ρ : Seating) (n : Nat) (seat : Seat) : Seating := Function.update ρ (.made n) (some seat)

@[simp] theorem sit_self (ρ : Seating) (n : Nat) (seat : Seat) :
    ρ.sit n seat (.made n) = some seat := Function.update_self ..

theorem sit_of_ne {c : CellId} {n : Nat} (hc : c ≠ .made n) (seat : Seat) :
    ρ.sit n seat c = ρ c := Function.update_of_ne hc ..

theorem within_sit {n : Nat} (h : ρ (.made n) = none) (seat : Seat) : ρ.Within (ρ.sit n seat) := by
  intro c seat' hc
  rw [sit_of_ne ?_, hc]
  rintro rfl
  rw [h] at hc
  cases hc

end Seating

namespace Seat

variable {S : Setting} {seat : Seat} {e e' : Engine} {cell : Cell} {row : MemberTable}

/-- What refers to the scope. -/
def scope : Seat → ScopeRef
  | pooled k _ _ _ => .pooled k
  | heap id _ => .durable (.ofHeap id)

def slot (i : Nat) (s : Symbol) : Seat → SlotRef
  | pooled _ t _ _ => .pooled t i s
  | heap id _ => .heap id i s

/-- The engine keeps a cell in the seat, its slots in this row. -/
def Keeps (S : Setting) (e : Engine) (cell : Cell) (row : MemberTable) : Seat → Prop
  | pooled k t outer home =>
    e.frame.scope? k = some ⟨cell.kind, outer, cell.shape, t, cell.mixins⟩ ∧
      e.frame.scopes.depthOf? k = some home ∧ e.frame.tables.get? t = some row
  | heap id outer =>
    S.heaps ≤ id ∧ e.store.heaps[id]? = some ⟨cell.kind, outer, cell.shape, row, cell.mixins⟩ ∧
      row.Roomed S.config.leastCapacity

end Seat

/-! ## Mirrors -/

/-- The engine keeps what there is in the world: the activations, the store up
to heap scopes of its own and marks of functions, and each cell in its seat. -/
structure Mirrors (S : Setting) (ρ : Seating) (w : World) (e : Engine) : Prop where
  orderly : e.frame.Orderly
  setup : e.frame.sketch.1 = (S.config, S.global, S.flag)
  stack : w.stack = e.frame.stack
  store : ∃ extra fs, e.store = w.store.beside extra fs ∧ fs.plain = w.store.functions.plain
  closed : w.store.Closed
  ordered : w.store.Ordered
  heaps : w.store.heaps.size = S.heaps
  seats : ∀ c seat, ρ c = some seat →
    ∃ cell row, w.cells c = some cell ∧ seat.Keeps S e cell row ∧ row.slots = cell.slots
  apart : ∀ c c' seat seat', ρ c = some seat → ρ c' = some seat' →
    seat.scope = seat'.scope → c = c'
  unmade : ∀ n, w.made ≤ n → ρ (.made n) = none

namespace Mirrors

variable {S : Setting} {ρ ρ' : Seating} {w : World} {e e' : Engine} {c : CellId} {seat : Seat}
  {cell : Cell} {row row' : MemberTable}

theorem config (h : Mirrors S ρ w e) : e.frame.config = S.config := congrArg (·.1) h.setup

theorem global (h : Mirrors S ρ w e) : e.frame.global = S.global := congrArg (·.2.1) h.setup

theorem flag (h : Mirrors S ρ w e) : e.frame.flag = S.flag := congrArg (·.2.2) h.setup

theorem depth (h : Mirrors S ρ w e) : e.frame.depth = w.stack.length := by
  rw [h.stack, Frame.length_stack h.orderly.sound]

theorem restrict (h : Mirrors S ρ' w e) (hle : ρ.Within ρ') : Mirrors S ρ w e :=
  { h with
    seats := fun c seat hc => h.seats c seat (hle c seat hc)
    apart := fun c c' seat seat' hc hc' => h.apart c c' seat seat' (hle c seat hc)
      (hle c' seat' hc')
    unmade := by
      intro n hn
      cases hc : ρ (.made n) with
      | none => rfl
      | some seat => exact (hle _ seat hc).symm.trans (h.unmade n hn) }

/-- In the rows that are kept there is the room there is in the world. -/
theorem fits (h : Mirrors S ρ w e) (hrow : seat.Keeps S e cell row) {n : Nat}
    (hn : n ≤ MemberTable.ample) : row.fits n = S.room n := by
  cases seat with
  | pooled k t outer home =>
      rw [h.orderly.graded.fits hrow.2.2, h.config]
      rfl
  | heap id outer => exact hrow.2.2.fits hn

/-- A store that changes without the heap scopes of calls. -/
theorem withStore (h : Mirrors S ρ w e) {extra : Array HeapScope} {fs : Functions} {st : Store}
    (he : e.store = w.store.beside extra fs) (hclosed : st.Closed) (hordered : st.Ordered)
    (hsize : st.heaps.size = w.store.heaps.size) (hfs : st.functions = w.store.functions) :
    Mirrors S ρ { w with store := st } { e with store := st.beside extra fs } where
  orderly := h.orderly
  setup := h.setup
  stack := h.stack
  store := by
    obtain ⟨extra', fs', he', hplain⟩ := h.store
    have hsame : fs = fs' := congrArg Store.functions (he.symm.trans he')
    exact ⟨extra, fs, rfl, by rw [hsame, hfs]; exact hplain⟩
  closed := hclosed
  ordered := hordered
  heaps := hsize.trans h.heaps
  seats := by
    intro c seat hc
    obtain ⟨cell, row, hcell, hrow, hslots⟩ := h.seats c seat hc
    refine ⟨cell, row, hcell, ?_, hslots⟩
    cases seat with
    | pooled k t outer home => exact hrow
    | heap id outer =>
        obtain ⟨hid, hheap, hroomed⟩ := hrow
        refine ⟨hid, ?_, hroomed⟩
        rw [he, Store.heaps_beside_ge (h.heaps.symm ▸ hid)] at hheap
        show (st.beside extra fs).heaps[id]? = _
        rw [Store.heaps_beside_ge (by rw [hsize, h.heaps]; exact hid), hsize]
        exact hheap
  apart := h.apart
  unmade := h.unmade

/-! ## Operations of the frame -/

theorem home_le (h : Mirrors S ρ w e) {k t : PoolKey} {outer : ScopeRef} {home : Nat}
    (hc : ρ c = some (.pooled k t outer home)) : home ≤ e.frame.depth := by
  obtain ⟨cell, row, -, ⟨-, hhome, -⟩, -⟩ := h.seats c _ hc
  obtain ⟨lost, hkept⟩ := h.orderly.kept
  exact hkept.home_le (.scope k) home (by rw [Frame.home?_books_scope, hhome]) (by simp)

/-- The members of a seat are nobody else's. -/
theorem members (h : Mirrors S ρ w e) {k t : PoolKey} {outer : ScopeRef} {home : Nat}
    (hrow : (Seat.pooled k t outer home).Keeps S e cell row) :
    e.frame.books.tables t = some none ∧
      ∀ k' v, e.frame.books.scopes k' = some (v, some t) → k' = k ∧ v = some home := by
  obtain ⟨hscope, hhome, -⟩ := hrow
  obtain ⟨lost, hkept⟩ := h.orderly.kept
  obtain ⟨v, hv⟩ := Frame.scopes_books_of_scope? hscope
  refine ⟨(hkept.members k v t hv).1, fun k' v' hv' => ?_⟩
  obtain rfl := hkept.sole k' k v' v t hv' hv
  have hhome' : e.frame.books.home? (.scope k') = some home := by
    rw [Frame.home?_books_scope, hhome]
  rw [hv'] at hv
  cases hv
  exact ⟨rfl, by simpa [Books.home?, hv'] using hhome'⟩

/-- The operation names neither the scope nor the table of a seat, and does not
end its depth. -/
def Avoids (f : Frame) (o : Op) : Seat → Prop
  | .pooled k t _ home => o.scope? ≠ some k ∧ o.table? ≠ some t ∧ o.ends? f ≠ some home
  | .heap _ _ => True

theorem avoids_of_none {f : Frame} {o : Op} (hscope : o.scope? = none) (htable : o.table? = none)
    (hends : o.ends? f = none) (seat : Seat) : Avoids f o seat := by
  cases seat with
  | heap id outer => exact trivial
  | pooled k t outer home =>
      rw [Avoids, hscope, htable, hends]
      exact ⟨(Option.some_ne_none _).symm, (Option.some_ne_none _).symm,
        (Option.some_ne_none _).symm⟩

/-- An operation that names one scope avoids the seats of the others. -/
theorem avoids_of_scope {f : Frame} {o : Op} {k : PoolKey} (hscope : o.scope? = some k)
    (htable : o.table? = none) (hends : o.ends? f = none) {seat : Seat}
    (hne : seat.scope ≠ .pooled k) : Avoids f o seat := by
  cases seat with
  | heap id outer => exact trivial
  | pooled k' t outer home =>
      rw [Avoids, hscope, htable, hends]
      refine ⟨fun hk => hne ?_, (Option.some_ne_none _).symm, (Option.some_ne_none _).symm⟩
      rw [Option.some.inj hk, Seat.scope]

/-- An operation that names one table avoids the seats that do not have it. -/
theorem avoids_of_table {f : Frame} {o : Op} {t : PoolKey} (hscope : o.scope? = none)
    (htable : o.table? = some t) (hends : o.ends? f = none) {seat : Seat}
    (hne : ∀ k t' outer home, seat = .pooled k t' outer home → t ≠ t') : Avoids f o seat := by
  cases seat with
  | heap id outer => exact trivial
  | pooled k t' outer home =>
      rw [Avoids, hscope, htable, hends]
      exact ⟨(Option.some_ne_none _).symm, fun ht => hne k t' outer home rfl (Option.some.inj ht),
        (Option.some_ne_none _).symm⟩

theorem keeps_perform (h : Mirrors S ρ w e) {o : Op} (hrow : seat.Keeps S e cell row)
    (ho : Avoids e.frame o seat) (hheaps : (o.perform e).store.heaps = e.store.heaps) :
    seat.Keeps S (o.perform e) cell row := by
  cases seat with
  | heap id outer =>
      obtain ⟨hid, hheap, hroomed⟩ := hrow
      exact ⟨hid, by rw [hheaps]; exact hheap, hroomed⟩
  | pooled k t outer home =>
      obtain ⟨hlone, hsole⟩ := h.members hrow
      obtain ⟨hscope, hhome, htable⟩ := hrow
      obtain ⟨hk, ht, hd⟩ := ho
      obtain ⟨lost, hkept⟩ := h.orderly.kept
      have hscopes : ¬ o.Scopes e.frame k := by
        rintro (hnamed | ⟨d, hend, hat⟩)
        · exact hk hnamed
        · rw [Frame.home?_books_scope, hhome] at hat
          exact hd (hend.trans hat.symm)
      have htables : ¬ o.Tables e.frame t := by
        rintro (hnamed | ⟨k', own, hnamed, hown, hmembers⟩ | ⟨d, hend, hat | ⟨k', hat⟩⟩)
        · exact ht hnamed
        · obtain ⟨v, hv⟩ := Frame.scopes_books_of_scope? hown
          obtain ⟨rfl, -⟩ := hsole k' v (hmembers ▸ hv)
          exact hk hnamed
        · rw [hlone] at hat
          cases hat
        · obtain ⟨-, hv⟩ := hsole k' _ hat
          exact hd (hend.trans hv)
      obtain ⟨item, hitem, hbind⟩ := Option.bind_eq_some_iff.1 hscope
      obtain ⟨x, hx, rfl⟩ := Pool.get?_eq_some.1 hitem
      obtain ⟨y, hy, rfl⟩ := Pool.get?_eq_some.1 htable
      have hx' := Op.entry_scopes_perform h.orderly.sound hkept hx hscopes
      have hy' := Op.entry_tables_perform h.orderly.sound hkept hy htables
      refine ⟨?_, ?_, Pool.get?_eq_some.2 ⟨y, hy', rfl⟩⟩
      · rw [Frame.scope?, Pool.get?, hx']
        exact hbind
      · rw [Pool.depthOf?, hx] at hhome
        rw [Pool.depthOf?, hx']
        exact hhome

/-- An operation of the frame that leaves the seats alone. -/
theorem perform (h : Mirrors S ρ w e) (o : Op) (horderly : (o.perform e).frame.Orderly)
    (hsetup : (o.perform e).frame.sketch.1 = e.frame.sketch.1)
    (hstore : (o.perform e).store = e.store)
    (havoids : ∀ c seat, ρ c = some seat → Avoids e.frame o seat) :
    Mirrors S ρ { w with stack := (o.perform e).frame.stack } (o.perform e) where
  orderly := horderly
  setup := hsetup.trans h.setup
  stack := rfl
  store := hstore.symm ▸ h.store
  closed := h.closed
  ordered := h.ordered
  heaps := h.heaps
  seats := by
    intro c seat hc
    obtain ⟨cell, row, hcell, hrow, hslots⟩ := h.seats c seat hc
    exact ⟨cell, row, hcell, h.keeps_perform hrow (havoids c seat hc) (by rw [hstore]), hslots⟩
  apart := h.apart
  unmade := h.unmade

/-- One that does not show in the activations either. -/
theorem perform_quiet (h : Mirrors S ρ w e) (o : Op) (horderly : (o.perform e).frame.Orderly)
    (hsketch : (o.perform e).frame.sketch = e.frame.sketch)
    (hstore : (o.perform e).store = e.store)
    (havoids : ∀ c seat, ρ c = some seat → Avoids e.frame o seat) :
    Mirrors S ρ w (o.perform e) := by
  have hmirrors := h.perform o horderly (by rw [hsketch]) hstore havoids
  have hstack : (o.perform e).frame.stack = w.stack :=
    (Frame.stack_of_sketch hsketch).trans h.stack.symm
  rw [hstack] at hmirrors
  exact hmirrors

theorem enter (h : Mirrors S ρ w e) (node : Node) (r : ScopeRef) :
    Mirrors S ρ (w.enter node) { e with frame := e.frame.enter node r } := by
  have hmirrors := h.perform (.enter node r) (h.orderly.perform_of_none rfl) rfl rfl
    fun _ seat _ => avoids_of_none rfl rfl rfl seat
  have hstack : (e.frame.enter node r).stack = (some node, 0) :: w.stack := by
    rw [Frame.stack_enter h.orderly.sound, h.stack]
  simp only [Op.perform, hstack] at hmirrors
  exact hmirrors

theorem leave (h : Mirrors S ρ w e) (hdepth : 0 < e.frame.depth)
    (hhomes : ∀ c k t outer home, ρ c = some (.pooled k t outer home) → home < e.frame.depth) :
    Mirrors S ρ w.leave { e with frame := e.frame.leave } := by
  have hsetup : e.frame.leave.sketch.1 = e.frame.sketch.1 :=
    congrArg (·.1) (Frame.overlooks_sketch.reclaim e.frame e.frame.depth)
  have hmirrors := h.perform .leave (h.orderly.perform_of_none rfl) hsetup rfl fun c seat hc => by
    cases seat with
    | heap id outer => exact trivial
    | pooled k t outer home =>
        have hlt := hhomes c k t outer home hc
        refine ⟨(Option.some_ne_none _).symm, (Option.some_ne_none _).symm, fun hend => ?_⟩
        have hend : e.frame.depth = home := Option.some.inj hend
        omega
  have hstack : e.frame.leave.stack = w.stack.tail := by
    rw [Frame.stack_leave h.orderly.sound hdepth, h.stack]
  simp only [Op.perform, hstack] at hmirrors
  exact hmirrors

/-! ## One cell changes -/

/-- Two cells do not share a table. -/
theorem table_ne (h : Mirrors S ρ w e) {c' : CellId} (hne : c' ≠ c) {k t k' t' : PoolKey}
    {outer outer' : ScopeRef} {home home' : Nat} (hc : ρ c = some (.pooled k t outer home))
    (hc' : ρ c' = some (.pooled k' t' outer' home')) : t ≠ t' := by
  have hkeys : k ≠ k' := fun hk => hne (h.apart c' c _ _ hc' hc (congrArg ScopeRef.pooled hk.symm))
  rintro rfl
  obtain ⟨cell, row, -, hrow, -⟩ := h.seats c _ hc
  obtain ⟨cell', row', -, ⟨hscope, -⟩, -⟩ := h.seats c' _ hc'
  obtain ⟨v, hv⟩ := Frame.scopes_books_of_scope? hscope
  exact hkeys ((h.members hrow).2 k' v hv).1.symm

/-- The cell of one seat becomes another, and the other seats stay what they
are. -/
theorem replace (h : Mirrors S ρ w e) (hc : ρ c = some seat) {cell' : Cell}
    (horderly : e'.frame.Orderly) (hsketch : e'.frame.sketch = e.frame.sketch)
    (hstore : ∃ extra fs, e'.store = w.store.beside extra fs ∧ fs.plain = w.store.functions.plain)
    (hothers : ∀ c' seat' cell row, c' ≠ c → ρ c' = some seat' → seat'.Keeps S e cell row →
      seat'.Keeps S e' cell row)
    (hrow : seat.Keeps S e' cell' row') (hslots : row'.slots = cell'.slots) :
    Mirrors S ρ (w.setCell c cell') e' where
  orderly := horderly
  setup := (congrArg (·.1) hsketch).trans h.setup
  stack := h.stack.trans (Frame.stack_of_sketch hsketch).symm
  store := hstore
  closed := h.closed
  ordered := h.ordered
  heaps := h.heaps
  seats := by
    intro c' seat' hc'
    by_cases hsame : c' = c
    · subst hsame
      rw [hc] at hc'
      cases hc'
      exact ⟨cell', row', Function.update_self .., hrow, hslots⟩
    · obtain ⟨cell, row, hcell, hkeeps, hrows⟩ := h.seats c' seat' hc'
      exact ⟨cell, row, (Function.update_of_ne hsame _ _).trans hcell,
        hothers c' seat' cell row hsame hc' hkeeps, hrows⟩
  apart := h.apart
  unmade := h.unmade

/-- The heap scope of a cell is made another. -/
theorem setHeap (h : Mirrors S ρ w e) {id : HeapId} {outer : DurableScope}
    (hc : ρ c = some (.heap id outer)) {cell : Cell} (hroomed : row.Roomed S.config.leastCapacity)
    (hslots : row.slots = cell.slots) :
    Mirrors S ρ (w.setCell c cell) { e with
      store := e.store.setHeap id ⟨cell.kind, outer, cell.shape, row, cell.mixins⟩ } := by
  obtain ⟨_, _, -, ⟨hid, hheap, -⟩, -⟩ := h.seats c _ hc
  obtain ⟨extra, fs, hst, hplain⟩ := h.store
  have hst' : e.store.setHeap id ⟨cell.kind, outer, cell.shape, row, cell.mixins⟩ =
      w.store.beside (extra.setIfInBounds (id - w.store.heaps.size)
        ⟨cell.kind, outer, cell.shape, row, cell.mixins⟩) fs := by
    rw [hst, Store.setHeap_beside_ge (h.heaps.symm ▸ hid)]
  refine h.replace hc h.orderly rfl ⟨_, fs, hst', hplain⟩
    (fun c' seat' cell' row' hne hc' hkeeps => ?_)
    ⟨hid, Store.getElem?_setHeap hheap _, hroomed⟩ hslots
  cases seat' with
  | pooled k t outer' home => exact hkeeps
  | heap id' outer' =>
      obtain ⟨hid', hheap', hroomed'⟩ := hkeeps
      have hids : id ≠ id' := by
        rintro rfl
        exact hne (h.apart c' c _ _ hc' hc rfl)
      refine ⟨hid', ?_, hroomed'⟩
      show (e.store.heaps.setIfInBounds id _)[id']? = _
      rw [Array.getElem?_setIfInBounds, if_neg hids]
      exact hheap'

/-- The row of a cell in the frame is made another. -/
theorem setRow (h : Mirrors S ρ w e) {k t : PoolKey} {outer : ScopeRef} {home : Nat}
    (hc : ρ c = some (.pooled k t outer home)) (hcell : w.cells c = some cell)
    (hgraded : row'.Graded S.config.leastCapacity) :
    Mirrors S ρ (w.setCell c { cell with slots := row'.slots })
      { e with frame := e.frame.modifyTable t fun _ => row' } := by
  obtain ⟨cell₀, row, hcell₀, ⟨hscope, hhome, htable⟩, -⟩ := h.seats c _ hc
  rw [hcell] at hcell₀
  cases hcell₀
  have horderly : (Op.perform e (.editTable t fun _ => row')).frame.Orderly := by
    refine h.orderly.perform _ (fun t' ht' => by cases ht') fun t' c' ho table _ => ?_
    cases ho
    rw [h.config]
    exact hgraded
  refine h.replace hc horderly rfl h.store (fun c' seat' cell' row' hne hc' hkeeps => ?_)
    ⟨hscope, hhome, Frame.get?_modifyTable htable _⟩ rfl
  refine h.keeps_perform (o := .editTable t fun _ => _) hkeeps
    (avoids_of_table rfl rfl rfl fun k' t' outer' home' hseat => ?_) rfl
  exact h.table_ne hne hc (hseat ▸ hc')

end Mirrors

/-- The row of a seat made another. -/
def Seat.put (e : Engine) (cell : Cell) (row : MemberTable) : Seat → Engine
  | .pooled _ t _ _ => { e with frame := e.frame.modifyTable t fun _ => row }
  | .heap id outer =>
    { e with store := e.store.setHeap id ⟨cell.kind, outer, cell.shape, row, cell.mixins⟩ }

/-- Declaring in the scope of a seat is declaring in its row. -/
theorem Seat.Keeps.declare_eq {S : Setting} {e : Engine} {seat : Seat} {cell : Cell}
    {row : MemberTable} (hrow : seat.Keeps S e cell row) {st : Store} {extra : Array HeapScope}
    {fs : Functions} (hst : e.store = st.beside extra fs) (s : Symbol) (a : Attributes) :
    e.declare seat.scope s a =
      match st.createSlot cell.shape s with
      | (.error _, st) => (.panicked, { e with store := st.beside extra fs })
      | (.ok i, st) =>
        if row.fits (i + 1) then
          (.ofExcept ((row.declareAt i s a).1.map fun _ => seat.slot i s),
            seat.put { e with store := st.beside extra fs } cell (row.declareAt i s a).2)
        else (.panicked, { e with store := st.beside extra fs }) := by
  cases seat with
  | pooled k t outer home =>
      rw [Seat.scope, Engine.declare_pooled hrow.1 hrow.2.2, hst, Store.createSlot_beside]
      rcases st.createSlot cell.shape s with ⟨fault | i, st⟩ <;> rfl
  | heap id outer =>
      have hheap := hrow.2.1
      rw [hst] at hheap
      rw [Seat.scope, Engine.declare, hst, Store.declare_heap hheap, Store.createSlot_beside]
      rcases st.createSlot cell.shape s with ⟨fault | i, st⟩
      · rfl
      · simp only
        cases row.fits (i + 1) <;> rfl

namespace Mirrors

variable {S : Setting} {ρ ρ' : Seating} {w : World} {e e' : Engine} {c : CellId} {seat : Seat}
  {cell : Cell} {row row' : MemberTable}

/-- A slot of a cell is written. -/
theorem put (h : Mirrors S ρ w e) (hc : ρ c = some seat) (hcell : w.cells c = some cell)
    (hrow : seat.Keeps S e cell row) {i : Nat} (hw : row.Writes i row')
    (hi : i + 1 ≤ MemberTable.ample) (hfits : row.fits (i + 1) = true) :
    Mirrors S ρ (w.setCell c { cell with slots := row'.slots }) (seat.put e cell row') := by
  have hpos := S.config.leastCapacity_pos
  cases seat with
  | pooled k t outer home =>
      have hgraded := Pool.All.get h.orderly.graded hrow.2.2
      rw [h.config] at hgraded
      exact h.setRow hc hcell (hgraded.writes hpos hw hfits)
  | heap id outer => exact h.setHeap hc (hrow.2.2.writes hpos hw hi hfits) rfl

/-- A cell gets one source more. -/
theorem mixin (h : Mirrors S ρ w e) (hc : ρ c = some seat) (hcell : w.cells c = some cell)
    {source : MemberSource} (hsource : ∀ d, source = .scope d → d.Below S.heaps) :
    (e.mixin seat.scope source).1 = .ok () ∧
      Mirrors S ρ ({ w with store := (w.store.addSource source).2 }.setCell c
        { cell with mixins := cell.mixins ++ [w.store.sources.size] })
        (e.mixin seat.scope source).2 := by
  obtain ⟨cell₀, row, hcell₀, hrow, hslots⟩ := h.seats c _ hc
  rw [hcell] at hcell₀
  cases hcell₀
  obtain ⟨extra, fs, hst, hplain⟩ := h.store
  have hclosed : (w.store.addSource source).2.Closed :=
    h.closed.addSource fun d hd => h.heaps.symm ▸ hsource d hd
  have hmirrors := h.withStore hst hclosed h.ordered rfl rfl
  obtain ⟨st, f⟩ := e
  obtain rfl : st = w.store.beside extra fs := hst
  cases seat with
  | heap id outer =>
      obtain ⟨hid, hheap, hroomed⟩ := hrow
      have hset := @setHeap _ _ _ _ _ _ hmirrors id outer hc
        { cell with mixins := cell.mixins ++ [w.store.sources.size] } hroomed hslots
      have hheap : (w.store.beside extra fs).heaps[id]? = _ := hheap
      have hsources : (w.store.beside extra fs).sources = w.store.sources := rfl
      simp only [Engine.mixin, Seat.scope, DurableScope.ofHeap, Store.mixin, hheap, hsources]
      exact ⟨trivial, hset⟩
  | pooled k t outer home =>
      obtain ⟨hscope, hhome, htable⟩ := hrow
      have hmixin : Engine.mixin ⟨w.store.beside extra fs, f⟩ (.pooled k) source =
          (.ok (), ⟨(w.store.addSource source).2.beside extra fs, { f with
            scopes := f.scopes.modify k (Option.map fun own => { own with
              mixins := own.mixins ++ [w.store.sources.size] }) }⟩) := by
        simp only [Engine.mixin, Engine.getScope_of_scope? hscope]
        rfl
      have horderly := h.orderly.perform_of_none (o := .mixin (.pooled k) source) rfl
      have hothers : ∀ c' seat' cell row, c' ≠ c → ρ c' = some seat' →
          seat'.Keeps S ⟨w.store.beside extra fs, f⟩ cell row →
          seat'.Keeps S (Op.perform ⟨w.store.beside extra fs, f⟩ (.mixin (.pooled k) source))
            cell row := by
        intro c' seat' cell' row' hne hc' hkeeps
        refine h.keeps_perform hkeeps (avoids_of_scope rfl rfl rfl fun hsame => ?_)
          (by rw [Op.perform, hmixin]; rfl)
        exact hne (h.apart c' c _ _ hc' hc hsame)
      simp only [Op.perform, hmixin] at horderly hothers
      simp only [Seat.scope, hmixin]
      refine ⟨trivial, hmirrors.replace hc horderly rfl ⟨extra, fs, rfl, hplain⟩
        (fun c' seat' cell' row' hne hc' hkeeps => hothers c' seat' cell' row' hne hc' ?_)
        ⟨?_, ?_, htable⟩ hslots⟩
      · cases seat' with
        | pooled k' t' outer' home' => exact hkeeps
        | heap id outer' => exact hkeeps
      · obtain ⟨item, hitem, hbind⟩ := Option.bind_eq_some_iff.1 hscope
        rw [Frame.scope?, Pool.get?_modify, if_pos rfl, hitem]
        simp only [id] at hbind
        rw [hbind]
        rfl
      · obtain ⟨x, hx, hdepth⟩ := Option.bind_eq_some_iff.1 hhome
        rw [Pool.depthOf?, Pool.entry?_modify, if_pos rfl, hx]
        exact hdepth

/-! ## Cells come and go -/

/-- A cell is made that the engine keeps already. -/
theorem add (h : Mirrors S ρ w e) (p : Site) (hrow : seat.Keeps S e cell row)
    (hslots : row.slots = cell.slots)
    (hnew : ∀ c seat', ρ c = some seat' → seat'.scope ≠ seat.scope) :
    Mirrors S (ρ.sit w.made seat) (w.add p cell).2 e where
  orderly := h.orderly
  setup := h.setup
  stack := h.stack
  store := h.store
  closed := h.closed
  ordered := h.ordered
  heaps := h.heaps
  seats := by
    intro c seat' hc
    by_cases hmade : c = .made w.made
    · subst hmade
      rw [Seating.sit_self] at hc
      cases hc
      exact ⟨cell, row, Function.update_self .., hrow, hslots⟩
    · rw [Seating.sit_of_ne hmade] at hc
      obtain ⟨cell', row', hcell', hkeeps⟩ := h.seats c seat' hc
      exact ⟨cell', row', (Function.update_of_ne hmade _ _).trans hcell', hkeeps⟩
  apart := by
    intro c c' seat₁ seat₂ hc hc' hscope
    by_cases hmade : c = .made w.made
    · by_cases hmade' : c' = .made w.made
      · rw [hmade, hmade']
      · rw [Seating.sit_of_ne hmade'] at hc'
        subst hmade
        rw [Seating.sit_self] at hc
        cases hc
        exact absurd hscope.symm (hnew c' seat₂ hc')
    · rw [Seating.sit_of_ne hmade] at hc
      by_cases hmade' : c' = .made w.made
      · subst hmade'
        rw [Seating.sit_self] at hc'
        cases hc'
        exact absurd hscope (hnew c seat₁ hc)
      · rw [Seating.sit_of_ne hmade'] at hc'
        exact h.apart c c' seat₁ seat₂ hc hc' hscope
  unmade := by
    intro n hn
    have hn : w.made + 1 ≤ n := hn
    rw [Seating.sit_of_ne (by rintro ⟨⟩; omega)]
    exact h.unmade n (by omega)

/-- What is not live is no seat. -/
theorem scope_ne (h : Mirrors S ρ w e) {k : PoolKey} (hk : e.frame.scopes.entry? k = none)
    {seat' : Seat} (hc : ρ c = some seat') : seat'.scope ≠ .pooled k := by
  cases seat' with
  | heap id outer => exact fun hsame => ScopeRef.noConfusion hsame
  | pooled k' t outer home =>
      intro hsame
      obtain rfl : k' = k := ScopeRef.pooled.inj hsame
      obtain ⟨cell, row, -, ⟨hscope, -⟩, -⟩ := h.seats c _ hc
      rw [Frame.scope?, Pool.get?, hk] at hscope
      cases hscope

theorem block_panicked (h : Mirrors S ρ w e) (r : ScopeRef) {shape : ShapeId}
    (hroom : S.room (w.store.shapeSize shape) = false) :
    (e.block r shape).1 = .panicked ∧ Mirrors S ρ w (e.block r shape).2 := by
  obtain ⟨extra, fs, hst, -⟩ := h.store
  have hsize : e.store.shapeSize shape = w.store.shapeSize shape := by rw [hst]; rfl
  rw [Setting.room, ← h.config, ← hsize] at hroom
  have hnone := h.orderly.allocateBlock_none r shape hroom
  have hmirrors := h.perform_quiet (.allocateBlock r shape) (h.orderly.perform_of_none rfl)
    (Frame.overlooks_sketch.allocateBlock e.frame r shape _) rfl
    fun _ seat _ => avoids_of_none rfl rfl rfl seat
  simp only [Op.perform] at hmirrors
  rw [Engine.block]
  rcases hblock : e.frame.allocateBlock r shape (e.store.shapeSize shape) with ⟨k, g⟩
  rw [hblock] at hnone hmirrors
  obtain rfl : k = none := hnone
  exact ⟨rfl, hmirrors⟩

/-- A block scope is made. -/
theorem block_done (h : Mirrors S ρ w e) (p : Site) (r : ScopeRef) {shape : ShapeId}
    (hroom : S.room (w.store.shapeSize shape) = true) :
    ∃ k t, (e.block r shape).1 = .done (.pooled k) ∧
      Mirrors S (ρ.sit w.made (.pooled k t r e.frame.depth)) (w.add p { kind := .block, shape }).2
        (e.block r shape).2 := by
  obtain ⟨extra, fs, hst, -⟩ := h.store
  have hsize : e.store.shapeSize shape = w.store.shapeSize shape := by rw [hst]; rfl
  rw [Setting.room, ← h.config, ← hsize] at hroom
  obtain ⟨row, g, hblock, hscope, hhome, htable, hempty⟩ :=
    h.orderly.allocateBlock_some r shape hroom
  have hmirrors := h.perform_quiet (.allocateBlock r shape) (h.orderly.perform_of_none rfl)
    (Frame.overlooks_sketch.allocateBlock e.frame r shape _) rfl
    fun _ seat _ => avoids_of_none rfl rfl rfl seat
  simp only [Op.perform, hblock] at hmirrors
  rw [Engine.block, hblock]
  have hkeeps : (Seat.pooled e.frame.scopes.nextKey e.frame.tables.nextKey r
      e.frame.depth).Keeps S ⟨e.store, g⟩ { kind := .block, shape } row :=
    ⟨hscope, hhome, htable⟩
  exact ⟨_, _, rfl, hmirrors.add p hkeeps hempty fun c seat' hc =>
    h.scope_ne (Pool.acquire_fresh h.orderly.sound.scopes) hc⟩

/-! ## Calls -/

/-- A table that is lent is the members of no seat. -/
theorem ne_of_lent (h : Mirrors S ρ w e) {k t t' : PoolKey} {outer : ScopeRef} {home : Nat}
    (hlent : e.frame.Lent t) (hc : ρ c = some (.pooled k t' outer home)) : t ≠ t' := by
  rintro rfl
  obtain ⟨cell, row, -, hrow, -⟩ := h.seats c _ hc
  obtain ⟨lost, hkept⟩ := h.orderly.kept
  obtain ⟨d, hd⟩ := hlent (by rw [(h.members hrow).1]; rfl)
  obtain ⟨hhome, -⟩ := (hkept.mem_listed _ d).1 hd
  rw [Books.home?, (h.members hrow).1] at hhome
  cases hhome

theorem avoids_of_lent (h : Mirrors S ρ w e) {o : Op} {t : PoolKey} (hscope : o.scope? = none)
    (htable : o.table? = some t) (hends : o.ends? e.frame = none) (hlent : e.frame.Lent t) :
    ∀ c seat, ρ c = some seat → Avoids e.frame o seat := by
  intro c seat hc
  refine avoids_of_table hscope htable hends fun k t' outer home hseat => ?_
  exact h.ne_of_lent hlent (hseat ▸ hc)

theorem allocateTable_panicked (h : Mirrors S ρ w e) {n : Nat} (hroom : S.room n = false) :
    ∃ g, e.frame.allocateTable n = (none, g) ∧ Mirrors S ρ w { e with frame := g } := by
  rw [Setting.room, ← h.config] at hroom
  have hnone := h.orderly.allocateTable_none hroom
  have hmirrors := h.perform_quiet (.allocateTable n) (h.orderly.perform_of_none rfl)
    (Frame.overlooks_sketch.allocateTable e.frame n) rfl
    fun _ seat _ => avoids_of_none rfl rfl rfl seat
  simp only [Op.perform] at hmirrors
  rcases htable : e.frame.allocateTable n with ⟨k, g⟩
  rw [htable] at hnone hmirrors
  obtain rfl : k = none := hnone
  exact ⟨g, rfl, hmirrors⟩

/-- A table with arguments is made. -/
theorem allocateTable_done (h : Mirrors S ρ w e) {vs : List Value}
    (hroom : S.room vs.length = true) :
    ∃ t g row, e.frame.allocateTable vs.length = (some t, g) ∧
      Mirrors S ρ w { e with frame := g.modifyTable t (·.pushAll vs) } ∧
      (g.modifyTable t (·.pushAll vs)).Lent t ∧
      (g.modifyTable t (·.pushAll vs)).tables.get? t = some row ∧
      row.slots = (vs.map Slot.ofValue).toArray := by
  rw [Setting.room, ← h.config] at hroom
  obtain ⟨row, g, htable, hlent, hrow, hempty, hcapacity⟩ := h.orderly.allocateTable_some hroom
  have hmirrors := h.perform_quiet (.allocateTable vs.length) (h.orderly.perform_of_none rfl)
    (Frame.overlooks_sketch.allocateTable e.frame _) rfl
    fun _ seat _ => avoids_of_none rfl rfl rfl seat
  simp only [Op.perform, htable] at hmirrors
  refine ⟨_, g, _, htable, ?_, ?_, Frame.get?_modifyTable hrow _, ?_⟩
  · refine hmirrors.perform_quiet (.editTable _ (·.pushAll vs)) (hmirrors.orderly.perform _
      (fun t' ht' => by cases ht') fun t c ho table ht => ?_) rfl rfl
      (hmirrors.avoids_of_lent rfl rfl rfl hlent)
    cases ho
    have hsame : table = row := Option.some.inj (ht.symm.trans hrow)
    subst hsame
    refine (Pool.All.get hmirrors.orderly.graded hrow).pushAll ?_
    rw [MemberTable.size, hempty]
    simpa using hcapacity
  · intro hsome
    rw [Frame.books_modifyTable] at hsome ⊢
    exact hlent hsome
  · rw [MemberTable.slots_pushAll, hempty, Array.empty_append]

/-- The scope of a call is made in the frame. -/
theorem allocateFunction (h : Mirrors S ρ w e) (p : Site) (binding : FunctionBinding)
    (d : DurableScope) (shape : ShapeId) {t : PoolKey} (hlent : e.frame.Lent t)
    (htable : e.frame.tables.get? t = some row) {n : Nat} (hn : n = e.store.shapeSize shape)
    (hfits : row.fits n = true) :
    ∃ k g, e.frame.allocateFunction binding (.durable d) shape n t = (.done k, g) ∧
      Mirrors S (ρ.sit w.made (.pooled k t (.durable d) e.frame.depth))
        (w.add p { kind := .function binding, shape, slots := row.slots }).2
        { e with frame := g } := by
  subst hn
  obtain ⟨g, hdone, hscope, hhome, hrow⟩ :=
    h.orderly.allocateFunction_done binding (.durable d) shape htable hfits
  have hmirrors := h.perform_quiet (.allocateFunction binding (.durable d) shape ⟨t, 0⟩)
    (h.orderly.perform _ (fun t' ht' => by cases ht'; exact hlent) fun t' c ho => by cases ho)
    (Frame.overlooks_sketch.allocateFunction e.frame _ _ _ _ _) rfl
    (h.avoids_of_lent rfl rfl rfl hlent)
  simp only [Op.perform, hdone] at hmirrors
  have hkeeps : (Seat.pooled e.frame.scopes.nextKey t (.durable d) e.frame.depth).Keeps S
      ⟨e.store, g⟩ { kind := .function binding, shape, slots := row.slots }
      (row.ensureCapacity (e.store.shapeSize shape)) := ⟨hscope, hhome, hrow⟩
  exact ⟨_, g, hdone, hmirrors.add p hkeeps (MemberTable.slots_ensureCapacity _ _)
    fun c seat' hc => h.scope_ne (Pool.acquire_fresh h.orderly.sound.scopes) hc⟩

/-- A heap scope more is nobody's seat. -/
theorem addHeap (h : Mirrors S ρ w e) (x : HeapScope) :
    Mirrors S ρ w { e with store := (e.store.addHeap x).2 } ∧
      S.heaps ≤ e.store.heaps.size ∧
      ∀ c seat', ρ c = some seat' → seat'.scope ≠ .durable (.ofHeap e.store.heaps.size) := by
  obtain ⟨extra, fs, hst, hplain⟩ := h.store
  have hadd : (e.store.addHeap x).2 = w.store.beside (extra.push x) fs := by
    rw [hst, Store.addHeap_beside]
  have hlt : ∀ {c seat}, ρ c = some seat → ∀ {id outer}, seat = .heap id outer →
      id < e.store.heaps.size := by
    rintro c _ hc id outer rfl
    obtain ⟨_, _, -, ⟨-, hheap, -⟩, -⟩ := h.seats c _ hc
    exact (Array.getElem?_eq_some_iff.1 hheap).1
  refine ⟨{ h with store := ⟨_, fs, hadd, hplain⟩, seats := fun c seat hc => ?_ }, ?_, ?_⟩
  · obtain ⟨cell, row, hcell, hrow, hslots⟩ := h.seats c seat hc
    refine ⟨cell, row, hcell, ?_, hslots⟩
    cases seat with
    | pooled k t outer home => exact hrow
    | heap id outer =>
        obtain ⟨hid, hheap, hroomed⟩ := hrow
        refine ⟨hid, ?_, hroomed⟩
        show (e.store.heaps.push x)[id]? = _
        rw [Array.getElem?_push, if_neg (Nat.ne_of_lt (hlt hc rfl))]
        exact hheap
  · rw [hst, ← h.heaps]
    show _ ≤ (w.store.heaps ++ extra).size
    rw [Array.size_append]
    omega
  · intro c seat hc hscope
    cases seat with
    | pooled k t outer home => cases hscope
    | heap id outer =>
        have hid := hlt hc rfl
        cases hscope
        exact Nat.lt_irrefl _ hid

/-- The scope of a call is made on the heap. -/
theorem takeTable (h : Mirrors S ρ w e) (p : Site) (binding : FunctionBinding)
    (d : DurableScope) (shape : ShapeId) {t : PoolKey} (hlent : e.frame.Lent t)
    (htable : e.frame.tables.get? t = some row) :
    ∃ g, e.frame.takeTable t = (.ok row.clone, g) ∧
      Mirrors S (ρ.sit w.made (.heap e.store.heaps.size d))
        (w.add p { kind := .function binding, shape, slots := row.slots }).2
        { store := (e.store.addHeap ⟨.function binding, d, shape, row.clone, []⟩).2
          frame := g } := by
  have htake : e.frame.takeTable t = (.ok row.clone, (e.frame.takeTable t).2) := by
    simp only [Frame.takeTable, Frame.getTable_of_get? htable]
  have hmirrors := h.perform_quiet (.takeTable ⟨t, 0⟩)
    (h.orderly.perform _ (fun t' ht' => by cases ht'; exact hlent) fun t' c ho => by cases ho)
    (Frame.overlooks_sketch.takeTable e.frame t) rfl (h.avoids_of_lent rfl rfl rfl hlent)
  simp only [Op.perform] at hmirrors
  refine ⟨_, htake, ?_⟩
  have hgraded := Pool.All.get h.orderly.graded htable
  rw [h.config] at hgraded
  obtain ⟨hadd, hid, hnew⟩ := hmirrors.addHeap ⟨.function binding, d, shape, row.clone, []⟩
  have hkeeps : (Seat.heap e.store.heaps.size d).Keeps S
      ⟨(e.store.addHeap ⟨.function binding, d, shape, row.clone, []⟩).2, (e.frame.takeTable t).2⟩
      { kind := .function binding, shape, slots := row.slots } row.clone :=
    ⟨hid, Array.getElem?_push_size, hgraded.roomed.clone⟩
  exact hadd.add p hkeeps rfl hnew

/-- The scope of a call is given back. -/
theorem freeScope {k t : PoolKey} {outer : ScopeRef} {home n : Nat}
    (h : Mirrors S (ρ.sit n (.pooled k t outer home)) w e) (hn : ρ (.made n) = none) :
    Mirrors S ρ w { e with frame := (e.frame.freeScope (.pooled k)).2 } := by
  have hwithin := Seating.within_sit hn (.pooled k t outer home)
  refine (h.restrict hwithin).perform_quiet (.freeScope (.pooled k))
    (h.orderly.perform_of_none rfl) (Frame.overlooks_sketch.freeScope e.frame _) rfl
    fun c seat hc => ?_
  refine avoids_of_scope rfl rfl rfl fun hsame => ?_
  have hmade := h.apart c (.made n) _ _ (hwithin c _ hc) (Seating.sit_self ..) hsame
  rw [hmade, hn] at hc
  cases hc

end Mirrors

end ScriptCore

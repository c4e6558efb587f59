import ScriptCore.Proofs.Cells
import ScriptCore.Proofs.Memo
import ScriptCore.Proofs.TableSlots

/-!
# Frames in order

What the frame of every lawful run has, and what it shows of its activations.
`Orderly` gathers the invariants that work on scopes and tables rests on: the
pools are sound, the books are kept up to tables that were lost, a table that
is not handed out is empty, and tables have grown by doubling. `sketch` is the
part of a frame that scopes and tables have nothing to do with: how it was set
up, and what runs at which depth on which line. That work on them leaves it as
it is, is said for whatever view of a frame overlooks them.
-/

namespace ScriptCore

namespace Frame

variable {f g : Frame} {k t : PoolKey} {d n : Nat}

/-! ## What work on scopes and tables does not show in -/

/-- The view shows neither the pools of a frame nor its lists of allocations. -/
structure Overlooks {α : Type} (view : Frame → α) : Prop where
  scopes : ∀ f p, view { f with scopes := p } = view f
  tables : ∀ f p, view { f with tables := p } = view f
  lists : ∀ f d c, (∀ e, (c e).activation = e.activation) → view (f.modifyEntry d c) = view f

namespace Overlooks

variable {α : Type} {view : Frame → α}

theorem register (h : Overlooks view) (f : Frame) (a : Allocation) :
    view (f.register a) = view f := h.lists f _ _ fun _ => rfl

theorem withdraw (h : Overlooks view) (f : Frame) (d : Nat) (a : Allocation) :
    view (f.withdraw d a) = view f := h.lists f d _ fun _ => rfl

theorem acquireTable (h : Overlooks view) (f : Frame) (v : Option Nat) (n : Nat) :
    view (f.acquireTable v n).2 = view f := h.tables f _

theorem allocateTable (h : Overlooks view) (f : Frame) (n : Nat) :
    view (f.allocateTable n).2 = view f := by
  have hacq := h.acquireTable f (some f.depth) n
  unfold Frame.allocateTable
  split
  · next g he =>
      rw [he] at hacq
      exact hacq
  · next t g he =>
      rw [he] at hacq
      exact (h.register g _).trans hacq

theorem detachTable (h : Overlooks view) (f : Frame) (t : PoolKey) :
    view (f.detachTable t) = view f := by
  unfold Frame.detachTable
  split
  · exact (h.withdraw _ _ _).trans (h.tables f _)
  · rfl

theorem releaseTable (h : Overlooks view) (f : Frame) (t : PoolKey) :
    view (f.releaseTable t).2 = view f := h.tables f _

theorem freeTable (h : Overlooks view) (f : Frame) (t : PoolKey) :
    view (f.freeTable t).2 = view f := (h.releaseTable _ t).trans (h.detachTable f t)

theorem takeTable (h : Overlooks view) (f : Frame) (t : PoolKey) :
    view (f.takeTable t).2 = view f := by
  unfold Frame.takeTable
  split
  · rfl
  · exact h.freeTable f t

theorem installScope (h : Overlooks view) (f : Frame) (kind : ScopeKind) (previous : ScopeRef)
    (shape : ShapeId) (members : PoolKey) :
    view (f.installScope kind previous shape members).2 = view f :=
  (h.register _ _).trans (h.scopes f _)

theorem allocateBlock (h : Overlooks view) (f : Frame) (previous : ScopeRef) (shape : ShapeId)
    (n : Nat) : view (f.allocateBlock previous shape n).2 = view f := by
  rcases f.allocateBlock_cases previous shape n with hno | ⟨-, hdone⟩
  · rw [hno]
    exact h.acquireTable f none n
  · rw [hdone]
    exact (h.installScope _ _ _ _ _).trans (h.acquireTable f none n)

theorem allocateFunction (h : Overlooks view) (f : Frame) (binding : FunctionBinding)
    (previous : ScopeRef) (shape : ShapeId) (n : Nat) (t : PoolKey) :
    view (f.allocateFunction binding previous shape n t).2 = view f := by
  unfold Frame.allocateFunction
  split
  · rfl
  · split
    · exact (h.installScope _ _ _ _ _).trans ((h.detachTable _ t).trans (h.tables f _))
    · rfl

theorem release (h : Overlooks view) (f : Frame) (a : Allocation) :
    view (f.release a) = view f := by
  cases a with
  | table t => exact h.releaseTable f t
  | scope k =>
      show view (f.releaseScope k).2 = view f
      rw [releaseScope_snd]
      cases f.scope? k with
      | none => exact h.scopes f _
      | some s => exact (h.releaseTable _ s.members).trans (h.scopes f _)

theorem freeScope (h : Overlooks view) (f : Frame) (r : ScopeRef) :
    view (f.freeScope r).2 = view f := by
  cases r with
  | durable d => rfl
  | pooled k =>
      unfold Frame.freeScope
      simp only
      split
      · exact (h.release _ (.scope k)).trans (h.withdraw _ _ _)
      · exact h.release _ (.scope k)

theorem reclaim (h : Overlooks view) (f : Frame) (d : Nat) : view (f.reclaim d) = view f := by
  have hfold : ∀ (l : List Allocation) (g : Frame), view (l.foldl Frame.release g) = view g := by
    intro l
    induction l with
    | nil => exact fun _ => rfl
    | cons a l ih => exact fun g => (ih _).trans (h.release g a)
  exact (hfold _ _).trans (h.lists f d _ fun _ => rfl)

end Overlooks

end Frame

/-- Work on scopes and tables: what neither begins nor ends a depth, nor says where it is. -/
def Op.IsWork : Op → Prop
  | setLine _ _ | reset | enter _ _ | leave => False
  | _ => True

theorem Frame.Overlooks.perform {α : Type} {view : Frame → α} (h : Overlooks view) (e : Engine)
    {o : Op} (ho : o.IsWork) : view (o.perform e).frame = view e.frame := by
  have htable : ∀ {g : Frame} {t : PoolKey} {c : MemberTable → MemberTable},
      g = e.frame.modifyTable t c → view g = view e.frame := by
    rintro g t c rfl
    exact h.tables e.frame _
  cases o with
  | allocateBlock previous shape => exact h.allocateBlock _ _ _ _
  | allocateTable n => exact h.allocateTable _ _
  | allocateFunction binding previous shape t => exact h.allocateFunction _ _ _ _ _ _
  | freeTable t => exact h.freeTable _ _
  | takeTable t => exact h.takeTable _ _
  | freeScope r => exact h.freeScope _ _
  | editTable t c => exact htable rfl
  | declare r s a =>
      rcases e.declare_frame r s a with heq | ⟨k, own, c, -, -, heq⟩
      · exact congrArg view heq
      · exact htable heq
  | assign slot v =>
      rcases e.assign_frame slot v with heq | ⟨t, i, s, c, -, heq⟩
      · exact congrArg view heq
      · exact htable heq
  | mixin r source =>
      rcases e.mixin_frame r source with heq | ⟨k, c, -, -, heq⟩
      · exact congrArg view heq
      · exact (congrArg view heq).trans (h.scopes e.frame _)
  | share st => rfl
  | setLine r line => exact ho.elim
  | reset => exact ho.elim
  | enter node r => exact ho.elim
  | leave => exact ho.elim

namespace Frame

variable {f g : Frame} {k t : PoolKey} {d n : Nat}

/-! ## The sketch of a frame -/

/-- How a frame was set up, and what runs at its depths. -/
def sketch (f : Frame) : (FrameConfig × GlobalId × FlagId) × Nat ×
    Array (Option Node × UInt32 × Option ScopeRef) :=
  ((f.config, f.global, f.flag), f.depth, f.entries.map (·.activation))

theorem overlooks_sketch : Overlooks sketch where
  scopes _ _ := rfl
  tables _ _ := rfl
  lists f d c hc := by
    have hentries : (f.entries.modify d c).map (·.activation) = f.entries.map (·.activation) := by
      refine Array.ext_getElem? fun i => ?_
      rw [Array.getElem?_map, Array.getElem?_map, Array.getElem?_modify]
      split
      · rw [Option.map_map]
        exact congrArg (Option.map · _) (funext hc)
      · rfl
    simp only [sketch, modifyEntry, hentries]

theorem activation?_of_sketch (h : g.sketch = f.sketch) (d : Nat) :
    g.activation? d = f.activation? d := by
  have hentries : g.entries.map (·.activation) = f.entries.map (·.activation) :=
    congrArg (·.2.2) h
  rw [activation?, activation?, ← Array.getElem?_map, ← Array.getElem?_map, hentries]

/-! ## The activations of a frame -/

/-- What runs at a depth, and on which line. -/
def stackAt (f : Frame) (d : Nat) : Option (Option Node × UInt32) :=
  (f.activation? d).map fun a => (a.1, a.2.1)

/-- The activations down to a depth. -/
def stackTo (f : Frame) (n : Nat) : Stack :=
  ((List.range n).map (· + 1)).reverse.filterMap f.stackAt

/-- The activations that run, the deepest first. -/
def stack (f : Frame) : Stack := f.stackTo f.depth

theorem stack_eq (f : Frame) : f.stack = f.activations.map fun a => (a.2.node, a.2.line) := by
  rw [stack, stackTo, activations, List.map_filterMap]
  congr 1
  funext d
  rw [stackAt, activation?, Option.map_map, Option.map_map]
  rfl

theorem stackTo_succ (f : Frame) (n : Nat) :
    f.stackTo (n + 1) = (f.stackAt (n + 1)).toList ++ f.stackTo n := by
  rw [stackTo, List.range_succ, List.map_append, List.reverse_append]
  cases h : f.stackAt (n + 1) with
  | none => simp [stackTo, h]
  | some a => simp [stackTo, h]

theorem stackTo_congr (h : ∀ d, 0 < d → d ≤ n → g.activation? d = f.activation? d) :
    g.stackTo n = f.stackTo n := by
  induction n with
  | zero => rfl
  | succ n ih =>
      rw [stackTo_succ, stackTo_succ, stackAt, stackAt, h (n + 1) (by omega) (by omega),
        ih fun d h0 hd => h d h0 (by omega)]

theorem stackAt_of_lt (hd : d < f.entries.size) : ∃ a, f.stackAt d = some a := by
  rw [stackAt, activation?, Array.getElem?_eq_getElem hd]
  exact ⟨_, rfl⟩

theorem length_stackTo (hn : n < f.entries.size) : (f.stackTo n).length = n := by
  induction n with
  | zero => rfl
  | succ n ih =>
      obtain ⟨a, ha⟩ := stackAt_of_lt hn
      rw [stackTo_succ, ha, List.length_append, ih (by omega), Option.toList_some,
        List.length_singleton]
      omega

theorem length_stack (hf : f.Sound) : f.stack.length = f.depth := length_stackTo hf.depth_lt

theorem stack_of_sketch (h : g.sketch = f.sketch) : g.stack = f.stack := by
  have hdepth : g.depth = f.depth := congrArg (·.2.1) h
  rw [stack, stack, hdepth]
  exact stackTo_congr fun d _ _ => activation?_of_sketch h d

theorem stack_enter (hf : f.Sound) (node : Node) (r : ScopeRef) :
    (f.enter node r).stack = (some node, 0) :: f.stack := by
  have hbelow := shelters_enter hf (Nat.le_refl (f.depth + 1)) node r
  have htop : (f.enter node r).stackAt (f.depth + 1) = some (some node, 0) := by
    have hlt := hf.depth_lt
    simp only [stackAt, activation?, enter]
    split
    · rw [Array.getElem?_push, if_pos (by omega)]
      rfl
    · rw [Array.getElem?_modify, if_pos rfl, Array.getElem?_eq_getElem (by omega)]
      rfl
  show (f.enter node r).stackTo (f.depth + 1) = _
  rw [stackTo_succ, htop]
  exact congrArg ((some node, 0) :: ·)
    (stackTo_congr fun d h0 hd => hbelow.activation d h0 (Nat.lt_succ_of_le hd))

theorem stack_leave (hf : f.Sound) (hd : 0 < f.depth) : f.leave.stack = f.stack.tail := by
  have hbelow := shelters_leave hf (Nat.le_refl f.depth)
  obtain ⟨n, hn⟩ : ∃ n, f.depth = n + 1 := ⟨f.depth - 1, by omega⟩
  obtain ⟨a, ha⟩ := stackAt_of_lt hf.depth_lt
  have hdepth : f.leave.depth = n := by
    show f.depth - 1 = n
    omega
  rw [stack, stack, hdepth, hn, stackTo_succ, ← hn, ha]
  exact stackTo_congr fun d h0 hle => hbelow.activation d h0 (by omega)

/-- The line of the deepest activation changes, if there is one. -/
theorem stack_modifyEntry (hf : f.Sound) {c : DepthEntry → DepthEntry} {line : UInt32}
    (hc : ∀ e, ((c e).node, (c e).line) = (e.node, line)) :
    (f.modifyEntry f.depth c).stack = f.stack.setLine line := by
  have hat : ∀ d, (f.modifyEntry f.depth c).activation? d =
      if f.depth = d then f.entries[d]?.map fun e => (c e).activation else f.activation? d := by
    intro d
    simp only [activation?, modifyEntry, Array.getElem?_modify]
    split
    · rw [Option.map_map]
      rfl
    · rfl
  show (f.modifyEntry f.depth c).stackTo f.depth = (f.stackTo f.depth).setLine line
  generalize f.modifyEntry f.depth c = g at hat ⊢
  cases hn : f.depth with
  | zero => rfl
  | succ n =>
      have hlt : n + 1 < f.entries.size := hn ▸ hf.depth_lt
      have hbelow : g.stackTo n = f.stackTo n := by
        refine stackTo_congr fun d _ hd => ?_
        rw [hat, if_neg (by omega)]
      have htop : g.stackAt (n + 1) = (f.stackAt (n + 1)).map fun a => (a.1, line) := by
        rw [stackAt, hat, if_pos hn, stackAt, activation?, Array.getElem?_eq_getElem hlt]
        exact congrArg some (hc _)
      obtain ⟨a, ha⟩ := stackAt_of_lt hlt
      rw [stackTo_succ, stackTo_succ, hbelow, htop, ha]
      rfl

end Frame

theorem Engine.places_trace (e : Engine) : e.trace.places = e.frame.stack.trace.places := by
  rw [e.trace_eq, e.frame.stack_eq, Trace.places, Trace.places, Stack.trace, List.map_filterMap,
    List.map_filterMap, List.filterMap_map, List.filterMap_map]
  congr 1
  funext a
  simp only [Function.comp_apply, Engine.recordOf?, Option.map_map]
  rfl

/-! ## Order -/

namespace Frame

variable {f g : Frame} {k t : PoolKey} {d n : Nat}

/-- The frame is as a lawful run leaves it. -/
structure Orderly (f : Frame) : Prop where
  sound : f.Sound
  kept : ∃ lost : List PoolKey, f.books.Kept (lost.map .table)
  swept : f.Swept
  graded : f.Graded

/-- The table is on the list of a depth, unless it was given back. So it is
nobody else's, and may be consumed. -/
def Lent (f : Frame) (t : PoolKey) : Prop :=
  (f.books.tables t).isSome → ∃ d, .table t ∈ f.books.listed d

theorem Lent.unclaimed {loose : List Allocation} (h : f.Lent t) (hk : f.books.Kept loose)
    (ht : (f.books.tables t).isSome) : f.books.Unclaimed loose t := by
  obtain ⟨d, hd⟩ := h ht
  obtain ⟨hhome, hloose⟩ := (hk.mem_listed _ d).1 hd
  exact ⟨hloose, fun k d' hmembers => hk.ne_members hhome hmembers rfl⟩

/-- Whether a table is handed out depends on the room for it only, and it has no
slots yet. -/
theorem Orderly.acquireTable (h : f.Orderly) (v : Option Nat) (n : Nat) :
    (f.acquireTable v n).1 = (if MemberTable.roomFor f.config.leastCapacity n then
        some f.tables.nextKey else none) ∧
      (MemberTable.roomFor f.config.leastCapacity n = true →
        ∃ row, (f.acquireTable v n).2.tables.get? f.tables.nextKey = some row ∧
          row.slots = #[] ∧ n ≤ row.capacity) := by
  obtain ⟨t, ht, hempty⟩ := Pool.Idle.acquired h.swept h.sound.tables v
    (a := MemberTable.withMinCapacity f.config.minTableCapacity) rfl
  have ht : (f.addTable v).tables.get? f.tables.nextKey = some t := ht
  have hgraded := Pool.All.get (h.graded.addTable v) ht
  have hfits : t.fits n = MemberTable.roomFor f.config.leastCapacity n :=
    (h.graded.addTable v).fits ht n
  rw [acquireTable_eq, ht, Option.any_some, hfits]
  constructor
  · split <;> rfl
  · intro hroom
    rw [if_pos hroom]
    refine ⟨t.ensureCapacity n, get?_modifyTable ht _, ?_, ?_⟩
    · rw [MemberTable.slots_ensureCapacity, hempty]
    · refine MemberTable.le_capacity_ensureCapacity ?_ n
      rw [hgraded.minCapacity]
      exact FrameConfig.leastCapacity_pos _

theorem depthOf?_installScope (hf : f.Sound) (kind : ScopeKind) (previous : ScopeRef)
    (shape : ShapeId) (members : PoolKey) :
    (f.installScope kind previous shape members).2.scopes.depthOf? f.scopes.nextKey =
      some f.depth := by
  obtain ⟨x, hx, hdepth⟩ := Pool.acquire_entry hf.scopes (some f.depth) none
  rw [installScope_eq]
  show (f.addScope _).scopes.depthOf? f.scopes.nextKey = _
  rw [Pool.depthOf?, addScope, Pool.entry?_modify, if_pos rfl, hx]
  exact hdepth

theorem Orderly.allocateTable_none (h : f.Orderly)
    (hroom : MemberTable.roomFor f.config.leastCapacity n = false) :
    (f.allocateTable n).1 = none := by
  have hfst := (h.acquireTable (some f.depth) n).1
  rw [hroom] at hfst
  unfold Frame.allocateTable
  split
  · rfl
  · next k g hacq =>
      rw [hacq] at hfst
      cases hfst

/-- A new table, on the list of the current depth. -/
theorem Orderly.allocateTable_some (h : f.Orderly)
    (hroom : MemberTable.roomFor f.config.leastCapacity n = true) :
    ∃ row g, f.allocateTable n = (some f.tables.nextKey, g) ∧ g.Lent f.tables.nextKey ∧
      g.tables.get? f.tables.nextKey = some row ∧ row.slots = #[] ∧ n ≤ row.capacity := by
  obtain ⟨hfst, hrow⟩ := h.acquireTable (some f.depth) n
  obtain ⟨row, hrow, hempty, hcapacity⟩ := hrow hroom
  have htouch := touches_acquireTable (S := fun _ => False) (T := fun _ => False) h.sound
    (.inr rfl) n
  rw [hroom] at hfst
  unfold Frame.allocateTable
  rcases hacq : f.acquireTable (some f.depth) n with ⟨r, g⟩
  rw [hacq] at hfst hrow htouch
  obtain rfl : r = some f.tables.nextKey := hfst
  refine ⟨row, _, rfl, fun _ => ⟨g.depth, ?_⟩, hrow, hempty, hcapacity⟩
  have hlisted : (g.register (.table f.tables.nextKey)).books.listed g.depth =
      .table f.tables.nextKey :: g.books.listed g.depth := by
    rw [books_register htouch.sound.depth_lt]
    exact Function.update_self ..
  rw [hlisted]
  exact List.mem_cons_self

theorem Orderly.allocateBlock_none (h : f.Orderly) (previous : ScopeRef) (shape : ShapeId)
    (hroom : MemberTable.roomFor f.config.leastCapacity n = false) :
    (f.allocateBlock previous shape n).1 = none := by
  have hfst := (h.acquireTable none n).1
  rw [hroom] at hfst
  rcases f.allocateBlock_cases previous shape n with hno | ⟨hacq, -⟩
  · rw [hno]
  · rw [hfst] at hacq
    cases hacq

/-- The scope and the table of a new block. -/
theorem Orderly.allocateBlock_some (h : f.Orderly) (previous : ScopeRef) (shape : ShapeId)
    (hroom : MemberTable.roomFor f.config.leastCapacity n = true) :
    ∃ row g, f.allocateBlock previous shape n = (some f.scopes.nextKey, g) ∧
      g.scope? f.scopes.nextKey = some ⟨.block, previous, shape, f.tables.nextKey, []⟩ ∧
      g.scopes.depthOf? f.scopes.nextKey = some f.depth ∧
      g.tables.get? f.tables.nextKey = some row ∧ row.slots = #[] := by
  obtain ⟨hfst, hrow⟩ := h.acquireTable none n
  obtain ⟨row, hrow, hempty, -⟩ := hrow hroom
  have htouch := touches_acquireTable (S := fun _ => False) (T := fun _ => False) h.sound
    (.inl rfl) n
  have hscopes := f.acquireTable_scopes none n
  have hdepth := htouch.depth_eq
  rw [hroom] at hfst
  unfold Frame.allocateBlock
  rcases hacq : f.acquireTable none n with ⟨r, g⟩
  rw [hacq] at hfst hrow htouch hscopes hdepth
  obtain rfl : r = some f.tables.nextKey := hfst
  have hscopes : g.scopes = f.scopes := hscopes
  have hkey : (g.installScope .block previous shape f.tables.nextKey).1 = f.scopes.nextKey := by
    rw [installScope_eq, hscopes]
  refine ⟨row, (g.installScope .block previous shape f.tables.nextKey).2, ?_, ?_, ?_, ?_, hempty⟩
  · rw [← hkey]
  · rw [scope?_installScope htouch.sound, hscopes, if_pos rfl]
  · rw [← hscopes, depthOf?_installScope htouch.sound, ← hdepth]
  · rw [installScope_tables]
    exact hrow

/-- The scope of a call over the table of its arguments. -/
theorem Orderly.allocateFunction_done (h : f.Orderly) (binding : FunctionBinding)
    (previous : ScopeRef) (shape : ShapeId) {table : MemberTable}
    (ht : f.tables.get? t = some table) (hfits : table.fits n = true) :
    ∃ g, f.allocateFunction binding previous shape n t = (.done f.scopes.nextKey, g) ∧
      g.scope? f.scopes.nextKey = some ⟨.function binding, previous, shape, t, []⟩ ∧
      g.scopes.depthOf? f.scopes.nextKey = some f.depth ∧
      g.tables.get? t = some (table.ensureCapacity n) := by
  have hready := touches_readyTable (S := fun _ => True) (T := fun _ => True) (t := t) h.sound
    trivial n
  have hscopes := f.readyTable_scopes t n
  have hdepth := hready.depth_eq
  rcases f.allocateFunction_cases binding previous shape n t with ⟨-, hno⟩ | ⟨-, heq⟩
  · rw [Frame.allocateFunction, getTable_of_get? ht] at hno
    simp only [hfits, if_true] at hno
    exact absurd rfl (hno _)
  · refine ⟨_, heq, ?_, ?_, ?_⟩
    · rw [scope?_installScope hready.sound, hscopes, if_pos rfl]
    · rw [← hscopes, depthOf?_installScope hready.sound, ← hdepth]
    · rw [installScope_tables]
      exact getTable_readyTable ht

end Frame

theorem Frame.Orderly.perform {e : Engine} (h : e.frame.Orderly) (o : Op)
    (hlent : ∀ t, o.consumes? = some t → e.frame.Lent t.key)
    (hedit : ∀ t c, o = .editTable t c → ∀ table, e.frame.tables.get? t = some table →
      (c table).Graded e.frame.config.leastCapacity) : (o.perform e).frame.Orderly := by
  obtain ⟨lost, hkept⟩ := h.kept
  have hkept' := Op.kept_perform (o := o) h.sound hkept (by simp)
    fun t ht hsome => (hlent t ht).unclaimed hkept hsome
  rw [← List.map_append] at hkept'
  exact ⟨o.sound_perform h.sound, ⟨_, hkept'⟩, o.swept_perform h.swept,
    o.graded_perform h.graded hedit⟩

/-- An operation that names no table has no condition. -/
theorem Frame.Orderly.perform_of_none {e : Engine} (h : e.frame.Orderly) {o : Op}
    (htable : o.table? = none) : (o.perform e).frame.Orderly := by
  refine h.perform o (fun t ht => ?_) fun t c ho => ?_
  · cases o <;> cases ht <;> cases htable
  · subst ho
    cases htable

end ScriptCore

import ScriptCore.Proofs.BlockMaps
import ScriptCore.Proofs.Following
import ScriptCore.Proofs.Gate

/-!
# The two ways to store a call

A function that encloses others has the scopes of its calls on the heap, any
other in the frame. Nothing a body can do tells which: called with the mark and
without it, from the same state, a function ends the same way and leaves the
same in every scope outside the frame.

Neither run is compared with the other. Both follow one and the same world,
which has no storage and in which the mark has no meaning. All there is to do
here is to set up this world: each scope of the frame is a cell to begin with.
-/

namespace ScriptCore

/-! ## What is left behind -/

namespace Store

variable {st : Store}

/-- The first `n` heap scopes and all global scopes are the same, and so is
every member that is reached from them. -/
structure SameBelow (n : Nat) (st st' : Store) : Prop where
  globals : st.globals = st'.globals
  heaps : ∀ id < n, st.heaps[id]? = st'.heaps[id]?
  reads : ∀ d : DurableScope, d.Below n → ∀ s, st.read d s = st'.read d s

theorem read_beside (hc : st.Closed) {extra : Array HeapScope} {fs : Functions}
    {d : DurableScope} (hd : d.Below st.heaps.size) (s : Symbol) :
    (st.beside extra fs).read d s = st.read d s := by
  rw [read, resolve_beside hc hd, read]
  cases hr : st.resolve d s with
  | error err => rfl
  | ok slot =>
      have hslot := hc.grounded.below_of_resolveWithin hd hr
      exact congrArg Except.ok (load_beside hc hslot)

theorem sameBelow_beside (hc : st.Closed) (extra extra' : Array HeapScope) (fs fs' : Functions) :
    (st.beside extra fs).SameBelow st.heaps.size (st.beside extra' fs') where
  globals := rfl
  heaps := by
    intro id hid
    rw [heaps_beside hid, heaps_beside hid]
  reads := by
    intro d hd s
    rw [read_beside hc hd, read_beside hc hd]

end Store

theorem Outcome.Alike.both {α : Type} {x y z : Outcome α} (hy : x.Alike Eq y)
    (hz : x.Alike Eq z) : y.Alike Eq z := by
  cases hy with
  | done hq =>
      cases hz with
      | done hq' => exact .done (hq.symm.trans hq')
  | raised herr =>
      cases hz with
      | raised herr' =>
          exact .raised ⟨herr.kind.symm.trans herr'.kind, herr.places.symm.trans herr'.places⟩
  | panicked =>
      cases hz with
      | panicked => exact .panicked

theorem Outcome.Alike.isPanicked_eq {α β : Type} {Q : α → β → Prop} {x : Outcome α}
    {y : Outcome β} (h : x.Alike Q y) : x.isPanicked = y.isPanicked := by
  cases h <;> rfl

/-- What two sessions follow alike ends alike in both. -/
theorem Agree.both {S : Setting} {α : Type} {ρ : Seating} {n : Nat} {x : Outcome α × World}
    {y z : Outcome α × Session} (hy : Agree S ρ (fun _ => Eq) n x y)
    (hz : Agree S ρ (fun _ => Eq) n x z) :
    (y.1.Alike Eq z.1 ∧ y.2.engine.store.SameBelow S.heaps z.2.engine.store) ∨
      (S.Cramped ∧ (y.1 = .panicked ∨ z.1 = .panicked)) := by
  rcases hy with ⟨ρ₁, -, hm₁, -, halike₁⟩ | ⟨hcramped, hpanic⟩
  · rcases hz with ⟨ρ₂, -, hm₂, -, halike₂⟩ | ⟨hcramped, hpanic⟩
    · obtain ⟨extra₁, fs₁, hst₁, -⟩ := hm₁.store
      obtain ⟨extra₂, fs₂, hst₂, -⟩ := hm₂.store
      refine .inl ⟨halike₁.both halike₂, ?_⟩
      rw [hst₁, hst₂, ← hm₁.heaps]
      exact Store.sameBelow_beside hm₁.closed extra₁ extra₂ fs₁ fs₂
    · exact .inr ⟨hcramped, .inr hpanic⟩
  · exact .inr ⟨hcramped, .inl hpanic⟩

/-! ## The world of an engine -/

namespace Engine

variable {e : Engine} {k : PoolKey} {own : PooledScope}

/-- The cell that a scope of the frame is. -/
def cellOf (e : Engine) (k : PoolKey) : Option Cell :=
  (e.frame.scope? k).bind fun own => (e.frame.tables.get? own.members).map fun row =>
    { kind := own.kind, shape := own.shape, slots := row.slots, mixins := own.mixins }

def seatOf (e : Engine) (k : PoolKey) : Option Seat :=
  (e.frame.scope? k).bind fun own => (e.frame.scopes.depthOf? k).map fun home =>
    .pooled k own.members own.previous home

/-- The scopes of the frame as cells. -/
def world (e : Engine) : World where
  store := e.store
  cells
    | .pooled k => e.cellOf k
    | .made _ => none
  made := 0
  stack := e.frame.stack

/-- Each where it is. -/
def seating (e : Engine) : Seating
  | .pooled k => e.seatOf k
  | .made _ => none

def setting (e : Engine) : Setting where
  config := e.frame.config
  global := e.frame.global
  flag := e.frame.flag
  heaps := e.store.heaps.size

/-- A scope of the frame has a home and a table. -/
theorem seat_of_scope? (h : e.frame.Orderly) (hown : e.frame.scope? k = some own) :
    ∃ home row, e.frame.scopes.depthOf? k = some home ∧
      e.frame.tables.get? own.members = some row := by
  obtain ⟨lost, hkept⟩ := h.kept
  obtain ⟨v, hv⟩ := Frame.scopes_books_of_scope? hown
  obtain ⟨home, t, hsome⟩ := hkept.scope k _ hv
  cases hsome
  have hlive := (hkept.members k _ _ hv).1
  have hentry : e.frame.tables.entry? own.members ≠ none := by
    intro hnone
    rw [Frame.books_tables_eq_none.2 hnone] at hlive
    cases hlive
  obtain ⟨y, hy⟩ := Option.ne_none_iff_exists'.1 hentry
  refine ⟨home, y.item, ?_, Pool.get?_eq_some.2 ⟨y, hy, rfl⟩⟩
  rw [← Frame.home?_books_scope, Books.home?, hv]
  rfl

/-- An engine mirrors its own world, whatever is marked in its functions. -/
theorem mirrors_world (h : e.frame.Orderly) (hclosed : e.store.Closed)
    (hordered : e.store.Ordered) {fs : Functions} (hfs : fs.plain = e.store.functions.plain) :
    Mirrors e.setting e.seating e.world
      { e with store := { e.store with functions := fs } } where
  orderly := h
  setup := rfl
  stack := rfl
  store := by
    refine ⟨#[], fs, ?_, hfs⟩
    simp only [world, Store.beside, Array.append_empty]
  closed := hclosed
  ordered := hordered
  heaps := rfl
  seats := by
    intro c seat hc
    cases c with
    | made n => cases hc
    | pooled k =>
        obtain ⟨own, hown, hseat⟩ := Option.bind_eq_some_iff.1 hc
        obtain ⟨home, hhome, rfl⟩ := Option.map_eq_some_iff.1 hseat
        obtain ⟨-, row, -, hrow⟩ := seat_of_scope? h hown
        refine ⟨⟨own.kind, own.shape, row.slots, own.mixins⟩, row, ?_, ⟨hown, hhome, hrow⟩, rfl⟩
        simp only [world, cellOf, hown, Option.bind_some, hrow, Option.map_some]
  apart := by
    intro c c' seat seat' hc hc' hscope
    cases c with
    | made n => cases hc
    | pooled k =>
        cases c' with
        | made n => cases hc'
        | pooled k' =>
            obtain ⟨own, -, hseat⟩ := Option.bind_eq_some_iff.1 hc
            obtain ⟨home, -, rfl⟩ := Option.map_eq_some_iff.1 hseat
            obtain ⟨own', -, hseat'⟩ := Option.bind_eq_some_iff.1 hc'
            obtain ⟨home', -, rfl⟩ := Option.map_eq_some_iff.1 hseat'
            exact congrArg CellId.pooled (ScopeRef.pooled.inj hscope)
  unmade := fun _ _ => rfl

theorem seating_of_scope? (h : e.frame.Orderly) (hown : e.frame.scope? k = some own) :
    ∃ home, e.seating (.pooled k) = some (.pooled k own.members own.previous home) := by
  obtain ⟨home, row, hhome, -⟩ := seat_of_scope? h hown
  exact ⟨home, by simp only [seating, seatOf, hown, Option.bind_some, hhome, Option.map_some]⟩

/-- What is live stands for its cells. -/
theorem stands_of_chain (h : e.frame.Orderly) {r : ScopeRef}
    {links : List (PoolKey × PooledScope)} {base : DurableScope} (hchain : e.Chain r links base)
    (hbase : base.Below e.store.heaps.size) :
    Stands e.setting e.seating ⟨links.map fun l => .pooled l.1, base⟩ r := by
  induction hchain with
  | durable d => exact .base hbase
  | pooled hown hlinks ih =>
      obtain ⟨home, hseat⟩ := seating_of_scope? h hown
      exact .pooled hseat (ih hbase)

end Engine

namespace References

variable {refs : References ScopeRef SlotRef} {e : Engine}

/-- What a body refers to is there: the scopes are live, with all that enclose
them, and the slots are of such scopes or lie outside the frame. -/
structure Valid (e : Engine) (refs : References ScopeRef SlotRef) : Prop where
  scopes : ∀ r ∈ refs.scopes, ∃ links base, e.Chain r links base ∧
    base.Below e.store.heaps.size
  slots : ∀ slot ∈ refs.slots, slot.Below e.store.heaps.size ∨
    ∃ k own i s, e.frame.scope? k = some own ∧ e.store.slotOf? own.shape s = some i ∧
      slot = .pooled own.members i s
  durables : ∀ d ∈ refs.durables, d.Below e.store.heaps.size

theorem exists_forall₂ {α β : Type} {R : α → β → Prop} {l : List β} (h : ∀ b ∈ l, ∃ a, R a b) :
    ∃ l', List.Forall₂ R l' l := by
  induction l with
  | nil => exact ⟨[], .nil⟩
  | cons b l ih =>
      obtain ⟨a, ha⟩ := h b List.mem_cons_self
      obtain ⟨l', hl'⟩ := ih fun b hb => h b (List.mem_cons_of_mem _ hb)
      exact ⟨a :: l', .cons ha hl'⟩

/-- In the world of the engine it is referred to as well. -/
theorem Valid.exists_alike (h : refs.Valid e) (horderly : e.frame.Orderly)
    (hordered : e.store.Ordered) :
    ∃ refs' : References Site Spot, refs'.Alike e.setting e.seating refs := by
  obtain ⟨scopes, hscopes⟩ : ∃ l, List.Forall₂ (Stands e.setting e.seating) l refs.scopes := by
    refine exists_forall₂ fun r hr => ?_
    obtain ⟨links, base, hchain, hbase⟩ := h.scopes r hr
    exact ⟨_, Engine.stands_of_chain horderly hchain hbase⟩
  obtain ⟨slots, hslots⟩ : ∃ l, List.Forall₂ (Marks e.setting e.seating) l refs.slots := by
    refine exists_forall₂ fun slot hslot => ?_
    rcases h.slots slot hslot with hbelow | ⟨k, own, i, s, hown, hi, rfl⟩
    · exact ⟨_, .shared hbelow⟩
    · obtain ⟨home, hseat⟩ := Engine.seating_of_scope? horderly hown
      exact ⟨_, .cell hseat (hordered.slotOf?_lt hi) s⟩
  have herrors : List.Forall₂ EvalError.Alike refs.errors refs.errors :=
    List.forall₂_same.2 fun err _ => .refl err
  exact ⟨⟨scopes, slots, refs.errors, refs.durables⟩, hscopes, hslots, herrors, rfl, h.durables⟩

end References

/-! ## Tables that are stale -/

/-- A call without a table makes the shape of its scope and no more. -/
def World.refuse (f : FunctionId) : Proc World Completion := fun w =>
  match w.store.functions[f]? with
  | none => (.panicked, w)
  | some function =>
    (.raised (ErrorKind.staleHandle .memberTable),
      { w with store := (w.store.nodeShape function.body.id .all).2 })

namespace Session

variable {s : Session} {t : PoolKey} {err : EvalError}

theorem heapCallScope_stale (h : s.engine.frame.getTable t = .error err)
    (binding : FunctionBinding) (previous : DurableScope) (shape : ShapeId) :
    s.heapCallScope binding previous shape t = (.error err, s) := by
  simp only [heapCallScope, Frame.takeTable, h]

theorem pooledCallScope_stale (h : s.engine.frame.getTable t = .error err)
    (binding : FunctionBinding) (previous : DurableScope) (shape : ShapeId) :
    s.pooledCallScope binding previous shape t = (.raised err, s) := by
  simp only [pooledCallScope, Frame.allocateFunction, h, Outcome.map]

end Session

theorem Mirrors.refuse {S : Setting} {ρ : Seating} {w : World} {s : Session}
    (h : Mirrors S ρ w s.engine) {t : PoolKey} (ht : s.engine.frame.tables.get? t = none)
    (eval : Node → ScopeRef → Body) (f : FunctionId) (this super : Option Value) :
    Agree S ρ (fun _ => Eq) w.stack.length (World.refuse f w)
      (Session.call eval f t this super s) := by
  obtain ⟨extra, fs, hst, hplain⟩ := h.store
  have hfs : s.engine.store.functions = fs := by
    rw [hst]
    rfl
  have htable : s.engine.frame.getTable t = .error (ErrorKind.staleHandle .memberTable) := by
    simp only [Frame.getTable, ht]
  unfold World.refuse Session.call
  rw [hfs]
  cases hf : w.store.functions[f]? with
  | none =>
      rw [Functions.getElem?_eq_none_of_plain hplain.symm hf]
      exact .inl ⟨ρ, .refl ρ, h, rfl, .panicked⟩
  | some function =>
      obtain ⟨b, hf'⟩ := Functions.getElem?_of_plain hplain.symm hf
      obtain ⟨-, hm⟩ := h.nodeShape function.body.id .all
      have htable' : (s.nodeShape function.body).2.engine.frame.getTable t =
        .error (ErrorKind.staleHandle .memberTable) := htable
      rw [hf']
      simp only [Session.heapCallScope_stale htable', Session.pooledCallScope_stale htable']
      refine .inl ⟨ρ, .refl ρ, ?_, rfl, ?_⟩
      · cases b with
        | true => exact hm
        | false => exact hm
      · cases b with
        | true => exact .raised (.refl _)
        | false => exact .raised (.refl _)

/-! ## Frames of runs -/

namespace Machine

variable {m : Machine} {os : List Op} {store : Store} {config : FrameConfig} {global : GlobalId}
  {flag : FlagId}

/-- Whoever edits a table in the run makes it grow as tables grow: by doubling,
and not beyond what can be addressed. -/
def Measured (m : Machine) : List Op → Prop
  | [] => True
  | o :: os =>
    (∀ t c, o = .editTable t c → ∀ table, m.engine.frame.tables.get? t = some table →
      table.Graded m.engine.frame.config.leastCapacity →
      (c table).Graded m.engine.frame.config.leastCapacity) ∧ (m.after o).Measured os

theorem graded_run (h : m.engine.frame.Graded) (hos : m.Measured os) :
    (m.run os).engine.frame.Graded := by
  induction os generalizing m with
  | nil => exact h
  | cons o os ih =>
      refine @ih (m.after o) (o.graded_perform h fun t c ho table ht => ?_) hos.2
      exact hos.1 t c ho table ht (Pool.All.get h ht)

/-- The frame of every lawful run is in order. -/
theorem orderly_run (hlawful : Lawful 0 (start store config global flag) os)
    (hos : (start store config global flag).Measured os) :
    ((start store config global flag).run os).engine.frame.Orderly where
  sound := ((tracked_start ..).run os).sound
  kept := ⟨_, ((owned_start ..).run (tracked_start ..) hlawful).kept⟩
  swept := swept_run (swept_start store config global flag) os
  graded := graded_run (fun i x hx => by cases hx) hos

end Machine

namespace Session

/-- A table that its holder may consume is lent to them. -/
theorem Consumable.lent {m : Machine} (hm : m.Tracked) (hw : m.Owned) {table : Handle}
    (h : Consumable m table) : m.engine.frame.Lent table.key := by
  intro hlive
  have hcur := (hw.held table h.1).current hm.tableCounts h.2
    ((Machine.isSome_entry?_iff _).2 hlive)
  obtain ⟨hlost, d, hd⟩ := hw.listed table h.1 hcur
  refine ⟨d, (hw.kept.mem_listed _ d).2 ⟨?_, by simpa using hlost⟩⟩
  rw [Books.home?, hd]
  rfl

/-- The session with the mark of a function set or cleared. -/
def marked (s : Session) (f : FunctionId) (b : Bool) : Session :=
  { s with engine := { s.engine with store := { s.engine.store with
      functions := s.engine.store.functions.modify f fun g =>
        { g with enclosesFunctions := b } } } }

theorem plain_marked (s : Session) (f : FunctionId) (b : Bool) :
    (s.marked f b).engine.store.functions.plain = s.engine.store.functions.plain := by
  refine Array.ext_getElem? fun i => ?_
  simp only [marked, Functions.plain, Array.getElem?_map, Array.getElem?_modify]
  split
  · rw [Option.map_map]
    rfl
  · rfl

/-! ## The result -/

/-- A call ends the same way and leaves the same behind whether its scope is
stored on the heap or in the frame, whatever its body and those it starts do. A
frame whose least capacity cannot be had is the exception: in it one of the two
may panic. -/
theorem call_storage_does_not_show {store : Store} {config : FrameConfig} {global : GlobalId}
    {flag : FlagId} {os : List Op} {s : Session} {table : Handle}
    {refs : References ScopeRef SlotRef}
    (hlawful : Machine.Lawful 0 (Machine.start store config global flag) os)
    (hos : (Machine.start store config global flag).Measured os)
    (hs : s.engine = ((Machine.start store config global flag).run os).engine)
    (hclosed : s.engine.store.Closed) (hordered : s.engine.store.Ordered)
    (htable : Consumable ((Machine.start store config global flag).run os) table)
    (hrefs : refs.Valid s.engine) (program : Node → Routine) (levels : Nat) (f : FunctionId)
    (this super : Option Value) :
    let run b := call (platform.activate program levels refs) f table.key this super (s.marked f b)
    ((run true).1.Alike Eq (run false).1 ∧
        (run true).2.engine.store.SameBelow s.engine.store.heaps.size
          (run false).2.engine.store) ∨
      (MemberTable.maxCapacity < s.engine.frame.config.leastCapacity ∧
        ((run true).1 = .panicked ∨ (run false).1 = .panicked)) := by
  intro run
  have horderly : s.engine.frame.Orderly := hs ▸ Machine.orderly_run hlawful hos
  have hlent : s.engine.frame.Lent table.key := by
    rw [hs]
    exact htable.lent ((Machine.tracked_start ..).run os)
      ((Machine.owned_start ..).run (Machine.tracked_start ..) hlawful)
  have hmirrors : ∀ b, Mirrors s.engine.setting s.engine.seating s.engine.world
      (s.marked f b).engine :=
    fun b => Engine.mirrors_world horderly hclosed hordered (s.plain_marked f b)
  obtain ⟨refs', halike⟩ := hrefs.exists_alike horderly hordered
  have hevaluates := starts_activate program levels s.engine.seating refs' refs halike
  -- what the world does depends on whether the table is still there, not on the mark
  obtain ⟨outcome, hagree⟩ : ∃ outcome, ∀ b, Agree s.engine.setting s.engine.seating
      (fun _ => Eq) s.engine.world.stack.length outcome (run b) := by
    cases ht : s.engine.frame.tables.get? table.key with
    | none => exact ⟨_, fun b => (hmirrors b).refuse ht _ f this super⟩
    | some row => exact ⟨_, fun b => hevaluates.call (hmirrors b) hlent ht f this super⟩
  exact (hagree true).both (hagree false)

/-- A store without heap scopes and sources, whose functions close over
nothing, refers to nothing. -/
theorem closed_of_bare {st : Store} (hheaps : st.heaps.size = 0) (hsources : st.sources.size = 0)
    (hfs : st.functions.all (·.closure.isNone) = true) : st.Closed where
  grounded := by
    intro id h hid
    have hlt := (Array.getElem?_eq_some_iff.1 hid).1
    rw [hheaps] at hlt
    exact absurd hlt (Nat.not_lt_zero _)
  sources := by
    intro id d hid
    have hlt := (Array.getElem?_eq_some_iff.1 hid).1
    rw [hsources] at hlt
    exact absurd hlt (Nat.not_lt_zero _)
  closures := by
    intro f function d hf hclosure
    have hnone := Array.all_eq_true_iff_forall_mem.1 hfs function (Array.mem_of_getElem? hf)
    rw [hclosure] at hnone
    cases hnone

/-- A new frame, and one function that closes over nothing. -/
def single (config : FrameConfig) : Machine :=
  Machine.start
    { shapes := #[.empty], globals := #[{}], functions := #[{ name := none, body := { id := 0 } }],
      nodeShapes := #[{ all := some 0 }] } config 0 0

theorem ordered_single (config : FrameConfig) {os : List Op}
    (hos : (single config).Sharing os) : ((single config).run os).engine.store.Ordered := by
  have hstart : (single config).engine.store.Ordered := Store.ordered_of_made Shape.made_empty #[{}]
  exact hstart.develop hos.develops

/-- A body that makes a global and returns what it reads from its own scope. -/
theorem call_that_makes_a_global :
    let x : Symbol := ⟨500, by decide⟩
    let os : List Op := [.allocateTable 1, .editTable ⟨0, 0⟩ (·.pushAll [.int 1])]
    let s : Session := { engine := ((single {}).run os).engine }
    let body : Routine :=
      .ask (.declare 1 x .exposed) fun _ => .ask (.assign 0 (.int 7)) fun _ =>
        .ask (.resolve 0 x) fun _ => .ask (.load 0) fun
          | .value v => .finish (.returned v)
          | _ => .finish .broke
    let run b := call (platform.activate (fun _ => body) 1 { scopes := [.ofGlobal 0] }) 0 ⟨0, 0⟩
      none none (s.marked 0 b)
    ((run true).1 matches .done (.normal (.int 7))) ∧ (run true).1.Alike Eq (run false).1 ∧
      (run true).2.engine.store.SameBelow 0 (run false).2.engine.store := by
  intro x os s body run
  have hlawful : Machine.Lawful 0 (single {}) os := by decide +kernel
  have hos : (single {}).Measured os := by
    refine ⟨nofun, fun t c ho table ht hgraded => ?_, trivial⟩
    cases ho
    obtain rfl := Option.some.inj ht
    exact hgraded.pushAll (by decide +kernel)
  have hclosed : s.engine.store.Closed :=
    closed_of_bare (by decide +kernel) (by decide +kernel) (by decide +kernel)
  have hordered : s.engine.store.Ordered := ordered_single {} ⟨nofun, nofun, trivial⟩
  have htable : Consumable ((single {}).run os) ⟨⟨0, 0⟩, 0⟩ := by
    unfold Consumable
    decide +kernel
  have hrefs : References.Valid s.engine { scopes := [.ofGlobal 0] } := by
    refine ⟨fun r hr => ?_, nofun, nofun⟩
    obtain rfl : r = .ofGlobal 0 := List.mem_singleton.1 hr
    exact ⟨[], _, .durable _, nofun⟩
  refine ⟨by decide +kernel, ?_⟩
  rcases call_storage_does_not_show hlawful hos rfl hclosed hordered htable hrefs (fun _ => body)
    1 0 none none with hsame | ⟨hcramped, -⟩
  · exact hsame
  · exact absurd hcramped (by decide +kernel)

/-- Where the least capacity cannot be had the two calls differ: the shape of
the function has one member, for which the pooled scope wants room and the heap
scope does not. -/
theorem pooled_call_without_room :
    let config : FrameConfig := { minTableCapacity := 1152921504606846976 }
    let os : List Op := [.allocateBlock (.ofGlobal 0) 0,
      .declare (.pooled ⟨0, 0⟩) ⟨500, by decide⟩ .exposed, .allocateTable 0]
    let s : Session := { engine := ((single config).run os).engine }
    let table : Handle := ⟨⟨1, 0⟩, 0⟩
    let refs : References ScopeRef SlotRef := {}
    let body : Routine := .finish (.returned (.int 1))
    let run b := call (platform.activate (fun _ => body) 1 refs) 0 table.key none none
      (s.marked 0 b)
    Machine.Lawful 0 (single config) os ∧ (single config).Measured os ∧
      s.engine.store.Closed ∧ s.engine.store.Ordered ∧
      Consumable ((single config).run os) table ∧ refs.Valid s.engine ∧
      ¬ (run true).1.Alike Eq (run false).1 := by
  intro config os s table refs body run
  have hheap : (run true).1.isPanicked = false := by decide +kernel
  have hpooled : (run false).1.isPanicked = true := by decide +kernel
  have htable : Consumable ((single config).run os) table := by
    unfold Consumable
    decide +kernel
  refine ⟨by decide +kernel, ⟨nofun, nofun, nofun, trivial⟩,
    closed_of_bare (by decide +kernel) (by decide +kernel) (by decide +kernel),
    ordered_single config ⟨nofun, nofun, nofun, trivial⟩, htable, ⟨nofun, nofun, nofun⟩, ?_⟩
  intro halike
  have hsame := halike.isPanicked_eq
  rw [hheap, hpooled] at hsame
  cases hsame

end Session

end ScriptCore

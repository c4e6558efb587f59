import ScriptCore.Frame.Chain
import ScriptCore.Proofs.Releases
import ScriptCore.Proofs.Upkeep

/-!
# Operations of a frame

`Op` lists what can be done to a frame: allocating and giving back, work on
members, and the two halves of an activation, which begins and ends whatever
happens in between. `perform` is the effect of each on the engine, with the
answer left out. `share` stands for everything that only changes shared state.

The facts of `Footprint`, `Upkeep` and `Releases` are collected here for all
operations at once. Work on members of a scope never reaches the books: it
changes the slots of one table or the mixins of one scope.
-/

namespace ScriptCore

/-- A key, and how often its index had been taken back when it was handed out.
Together they name one allocation for good. -/
structure Handle where
  key : PoolKey
  issued : Nat
  deriving DecidableEq

inductive Op where
  | allocateBlock (previous : ScopeRef) (shape : ShapeId)
  | allocateTable (size : Nat)
  /-- The three operations that consume a table are given its handle. -/
  | allocateFunction (binding : FunctionBinding) (previous : ScopeRef) (shape : ShapeId)
      (table : Handle)
  | freeTable (table : Handle)
  | takeTable (table : Handle)
  | freeScope (scope : ScopeRef)
  | editTable (table : PoolKey) (change : MemberTable → MemberTable)
  | declare (scope : ScopeRef) (symbol : Symbol) (attributes : Attributes)
  | assign (slot : SlotRef) (value : Value)
  | mixin (scope : ScopeRef) (source : MemberSource)
  | setLine (scope : Option ScopeRef) (line : UInt32)
  | reset
  | enter (node : Node) (scope : ScopeRef)
  | leave
  | share (store : Store)

namespace Op

/-- What an operation does to a frame and the shared state. -/
def perform (e : Engine) : Op → Engine
  | allocateBlock previous shape =>
    { e with frame := (e.frame.allocateBlock previous shape (e.store.shapeSize shape)).2 }
  | allocateTable size => { e with frame := (e.frame.allocateTable size).2 }
  | allocateFunction binding previous shape table =>
    { e with
      frame :=
        (e.frame.allocateFunction binding previous shape (e.store.shapeSize shape) table.key).2 }
  | freeTable table => { e with frame := (e.frame.freeTable table.key).2 }
  | takeTable table => { e with frame := (e.frame.takeTable table.key).2 }
  | freeScope scope => { e with frame := (e.frame.freeScope scope).2 }
  | editTable table change => { e with frame := e.frame.modifyTable table change }
  | declare scope symbol attributes => (e.declare scope symbol attributes).2
  | assign slot value => (e.assign slot value).2
  | mixin scope source => (e.mixin scope source).2
  | setLine scope line => (e.setLine scope line).2
  | reset => { e with frame := e.frame.reset }
  | enter node scope => { e with frame := e.frame.enter node scope }
  | leave => { e with frame := e.frame.leave }
  | share store => { e with store }

/-- The scope an operation changes or gives back, by its key. -/
def scope? : Op → Option PoolKey
  | freeScope (.pooled k) | declare (.pooled k) _ _ | mixin (.pooled k) _ => some k
  | _ => none

/-- The table an operation changes, gives back or hands over, by its key. -/
def table? : Op → Option PoolKey
  | allocateFunction _ _ _ t | freeTable t | takeTable t => some t.key
  | editTable t _ | assign (.pooled t _ _) _ => some t
  | _ => none

/-- The depth an operation ends. -/
def ends? (f : Frame) : Op → Option Nat
  | reset => some 0
  | leave => some f.depth
  | _ => none

/-- The scopes an operation may change: the one it names, and those of the
depth it ends. -/
def Scopes (f : Frame) (o : Op) (k : PoolKey) : Prop :=
  o.scope? = some k ∨ ∃ d, o.ends? f = some d ∧ f.books.home? (.scope k) = some d

/-- The tables an operation may change: the one it names, the members of the
scope it names, and those of the depth it ends. -/
def Tables (f : Frame) (o : Op) (t : PoolKey) : Prop :=
  o.table? = some t ∨ (∃ k s, o.scope? = some k ∧ f.scope? k = some s ∧ s.members = t) ∨
    ∃ d, o.ends? f = some d ∧ f.books.TableAt t d

end Op

/-! ## Work on members -/

namespace Engine

variable {e : Engine}

theorem scope?_of_getScope {f : Frame} {k : PoolKey} {s : PooledScope}
    (h : f.getScope k = .ok s) : f.scope? k = some s := by
  simp only [Frame.getScope] at h
  split at h
  · next s' hs =>
      injection h with h
      rw [hs, h]
  · cases h

/-- Declaring changes the member table of the scope, if anything of the frame. -/
theorem declare_frame (e : Engine) (scope : ScopeRef) (s : Symbol) (a : Attributes) :
    (e.declare scope s a).2.frame = e.frame ∨
      ∃ k own c, scope = .pooled k ∧ e.frame.scope? k = some own ∧
        (e.declare scope s a).2.frame = e.frame.modifyTable own.members c := by
  obtain ⟨store, frame⟩ := e
  unfold declare
  split
  · exact .inl rfl
  · next k =>
      split
      · exact .inl rfl
      · next own hown =>
          have hown := scope?_of_getScope hown
          dsimp only
          split
          · exact .inl rfl
          · split
            · exact .inl rfl
            · split
              · exact .inl rfl
              · split
                · exact .inr ⟨k, own, _, rfl, hown, rfl⟩
                · exact .inr ⟨k, own, _, rfl, hown, rfl⟩

theorem assign_frame (e : Engine) (slot : SlotRef) (v : Value) :
    (e.assign slot v).2.frame = e.frame ∨
      ∃ t i s c, slot = .pooled t i s ∧
        (e.assign slot v).2.frame = e.frame.modifyTable t c := by
  obtain ⟨store, frame⟩ := e
  unfold assign
  split
  · next t i s =>
      split
      · exact .inl rfl
      · dsimp only
        split
        · exact .inl rfl
        · split
          · exact .inr ⟨t, i, s, _, rfl, rfl⟩
          · exact .inr ⟨t, i, s, _, rfl, rfl⟩
  · exact .inl rfl

/-- Composing a source into a pooled scope leaves its table what it is. -/
theorem mixin_frame (e : Engine) (scope : ScopeRef) (source : MemberSource) :
    (e.mixin scope source).2.frame = e.frame ∨
      ∃ (k : PoolKey) (c : PooledScope → PooledScope), scope = .pooled k ∧
        (∀ s, (c s).members = s.members) ∧
        (e.mixin scope source).2.frame =
          { e.frame with scopes := e.frame.scopes.modify k (Option.map c) } := by
  unfold mixin
  split
  · split
    · exact .inl rfl
    · exact .inl rfl
  · next k =>
      split
      · exact .inl rfl
      · exact .inr ⟨k, fun own => { own with mixins := own.mixins ++ [e.store.sources.size] },
          rfl, fun _ => rfl, rfl⟩

theorem setLine_frame (e : Engine) (scope : Option ScopeRef) (line : UInt32) :
    (e.setLine scope line).2.frame = e.frame ∨
      ∃ c : DepthEntry → DepthEntry, (∀ x, (c x).allocations = x.allocations) ∧
        (e.setLine scope line).2.frame = e.frame.modifyEntry e.frame.depth c := by
  obtain ⟨store, frame⟩ := e
  unfold setLine
  split
  · exact .inl rfl
  · dsimp only
    split
    · next scope =>
        exact .inr ⟨fun x => { x with scope := some scope, line }, fun _ => rfl, rfl⟩
    · exact .inr ⟨fun x => { x with line }, fun _ => rfl, rfl⟩

/-! None of it reaches the books. -/

theorem books_declare (e : Engine) (scope : ScopeRef) (s : Symbol) (a : Attributes) :
    (e.declare scope s a).2.frame.books = e.frame.books := by
  rcases e.declare_frame scope s a with h | ⟨k, own, c, -, -, h⟩
  · rw [h]
  · rw [h, Frame.books_modifyTable]

theorem books_assign (e : Engine) (slot : SlotRef) (v : Value) :
    (e.assign slot v).2.frame.books = e.frame.books := by
  rcases e.assign_frame slot v with h | ⟨t, i, s, c, -, h⟩
  · rw [h]
  · rw [h, Frame.books_modifyTable]

theorem books_mixin (e : Engine) (scope : ScopeRef) (source : MemberSource) :
    (e.mixin scope source).2.frame.books = e.frame.books := by
  rcases e.mixin_frame scope source with h | ⟨k, c, -, hc, h⟩
  · rw [h]
  · rw [h, Frame.books_modifyScopes _ k hc]

theorem books_setLine (e : Engine) (scope : Option ScopeRef) (line : UInt32) :
    (e.setLine scope line).2.frame.books = e.frame.books := by
  rcases e.setLine_frame scope line with h | ⟨c, hc, h⟩
  · rw [h]
  · rw [h, Frame.books_modifyEntry hc]

end Engine

namespace Op

variable {e : Engine} {o : Op} {S T : PoolKey → Prop} {loose : List Allocation}

/-! ## Generations -/

/-- An operation hands entries out or takes them back, and never does both. -/
theorem directed_perform (e : Engine) (o : Op) :
    ∃ d, Frame.Directed d e.frame (o.perform e).frame := by
  have hrefl : Frame.Directed .out e.frame e.frame := .refl _ e.frame
  cases o with
  | allocateBlock previous shape => exact ⟨_, Frame.directed_allocateBlock _ _ _ _⟩
  | allocateTable n => exact ⟨_, Frame.directed_allocateTable _ _⟩
  | allocateFunction binding previous shape t =>
      exact ⟨_, Frame.directed_allocateFunction _ _ _ _ _ _⟩
  | freeTable t => exact ⟨_, Frame.directed_freeTable _ _⟩
  | takeTable t => exact ⟨_, Frame.directed_takeTable _ _⟩
  | freeScope r => exact ⟨_, Frame.directed_freeScope _ _⟩
  | editTable t c => exact ⟨_, Frame.directed_modifyTable .out _ _ _⟩
  | declare r s a =>
      rcases e.declare_frame r s a with h | ⟨k, own, c, -, -, h⟩
      · exact ⟨.out, h ▸ hrefl⟩
      · exact ⟨.out, h ▸ Frame.directed_modifyTable .out _ _ _⟩
  | assign slot v =>
      rcases e.assign_frame slot v with h | ⟨t, i, s, c, -, h⟩
      · exact ⟨.out, h ▸ hrefl⟩
      · exact ⟨.out, h ▸ Frame.directed_modifyTable .out _ _ _⟩
  | mixin r source =>
      rcases e.mixin_frame r source with h | ⟨k, c, -, -, h⟩
      · exact ⟨.out, h ▸ hrefl⟩
      · exact ⟨.out, h ▸ Frame.directed_modifyScopes .out _ _ _⟩
  | setLine r line =>
      rcases e.setLine_frame r line with h | ⟨c, -, h⟩
      · exact ⟨.out, h ▸ hrefl⟩
      · exact ⟨.out, h ▸ ⟨hrefl.scopes, hrefl.tables⟩⟩
  | reset => exact ⟨_, Frame.directed_endDepth _ 0⟩
  | enter node r => exact ⟨_, Frame.directed_enter .out _ _ _⟩
  | leave => exact ⟨_, Frame.directed_leave _⟩
  | share st => exact ⟨_, hrefl⟩

/-- An operation moves every generation by one at most. -/
theorem moves_perform (e : Engine) (o : Op) : Frame.Moves e.frame (o.perform e).frame := by
  obtain ⟨d, h⟩ := o.directed_perform e
  exact h.moves

/-! ## Footprints -/

/-- An operation that neither begins nor ends an activation. -/
def Stays : Op → Prop
  | enter _ _ | leave => False
  | _ => True

/-- The footprint of an operation is what it names, the members of the scope it
names, and what is on the list of the depth it ends. -/
theorem touches_perform_of (hf : e.frame.Sound) (ho : o.Stays)
    (hS : ∀ k, o.scope? = some k → S k) (hT : ∀ t, o.table? = some t → T t)
    (hM : ∀ k s, o.scope? = some k → e.frame.scope? k = some s → T s.members)
    (hE : ∀ d a, o.ends? e.frame = some d → a ∈ e.frame.books.listed d →
      Frame.Covers S T e.frame a) :
    Frame.Touches S T e.frame (o.perform e).frame := by
  have hrefl : Frame.Touches S T e.frame e.frame := .refl hf
  cases o with
  | allocateBlock previous shape => exact Frame.touches_allocateBlock hf _ _ _
  | allocateTable n => exact Frame.touches_allocateTable hf _
  | allocateFunction binding previous shape t =>
      exact Frame.touches_allocateFunction hf (hT _ rfl) _ _ _ _
  | freeTable t => exact Frame.touches_freeTable hf (hT _ rfl)
  | takeTable t => exact Frame.touches_takeTable hf (hT _ rfl)
  | freeScope r =>
      cases r with
      | pooled k => exact Frame.touches_freeScope hf (hS k rfl) fun s hs => hM k s rfl hs
      | durable d => exact hrefl
  | editTable t c => exact Frame.touches_modifyTable hf (hT _ rfl) c
  | declare r s a =>
      rcases e.declare_frame r s a with h | ⟨k, own, c, rfl, hk, h⟩
      · exact h ▸ hrefl
      · exact h ▸ Frame.touches_modifyTable hf (hM k own rfl hk) c
  | assign slot v =>
      rcases e.assign_frame slot v with h | ⟨t, i, s, c, rfl, h⟩
      · exact h ▸ hrefl
      · exact h ▸ Frame.touches_modifyTable hf (hT t rfl) c
  | mixin r source =>
      rcases e.mixin_frame r source with h | ⟨k, c, rfl, hc, h⟩
      · exact h ▸ hrefl
      · exact h ▸ Frame.touches_modifyScopes hf (hS k rfl) hc
  | setLine r line =>
      rcases e.setLine_frame r line with h | ⟨c, hc, h⟩
      · exact h ▸ hrefl
      · exact h ▸ Frame.touches_activation hf hc (.inl rfl)
  | reset => exact Frame.touches_endDepth hf (.inr rfl) fun a ha => hE 0 a rfl ha
  | enter node r => exact ho.elim
  | leave => exact ho.elim
  | share st => exact hrefl

theorem stays_or (o : Op) : o.Stays ∨ (∃ node r, o = .enter node r) ∨ o = .leave := by
  cases o with
  | enter node r => exact .inr (.inl ⟨node, r, rfl⟩)
  | leave => exact .inr (.inr rfl)
  | _ => exact .inl trivial

theorem sound_enter {f : Frame} (hf : f.Sound) (node : Node) (r : ScopeRef) :
    (f.enter node r).Sound := by
  refine ⟨hf.scopes, hf.tables, ?_⟩
  have := hf.depth_lt
  simp only [Frame.enter]
  split
  · simp only [Array.size_push]
    omega
  · simp only [Array.size_modify]
    omega

theorem covers_true (f : Frame) (a : Allocation) :
    Frame.Covers (fun _ => True) (fun _ => True) f a := by
  cases a with
  | scope k => exact ⟨trivial, fun _ _ => trivial⟩
  | table t => exact trivial

/-- Where only the depths below matter, everything live may be touched. -/
theorem touches_anything (hf : e.frame.Sound) (ho : o.Stays) :
    Frame.Touches (fun _ => True) (fun _ => True) e.frame (o.perform e).frame :=
  touches_perform_of hf ho (fun _ _ => trivial) (fun _ _ => trivial) (fun _ _ _ _ => trivial)
    fun _ a _ _ => covers_true _ a

theorem sound_perform (hf : e.frame.Sound) (o : Op) : (o.perform e).frame.Sound := by
  rcases o.stays_or with ho | ⟨node, r, rfl⟩ | rfl
  · exact (touches_anything hf ho).sound
  · exact sound_enter hf node r
  · have hend := Frame.touches_endDepth hf (.inl rfl) fun a _ => covers_true e.frame a
    have hd := hend.sound.depth_lt
    rw [hend.depth_eq] at hd
    exact ⟨hend.sound.scopes, hend.sound.tables, by
      show e.frame.depth - 1 < (e.frame.endDepth e.frame.depth).entries.size
      omega⟩

/-- What is on the list of a depth is the depth's own. -/
theorem covers_of_listed {f : Frame} {d : Nat} {a : Allocation} (h : f.books.Kept loose)
    (ho : o.ends? f = some d) (ha : a ∈ f.books.listed d) :
    Frame.Covers (o.Scopes f) (o.Tables f) f a := by
  have hhome := ((h.mem_listed a d).1 ha).1
  cases a with
  | table t =>
      obtain ⟨v, hv, hd⟩ := Option.bind_eq_some_iff.1 hhome
      simp only [id] at hd
      subst hd
      exact .inr (.inr ⟨d, ho, .inl hv⟩)
  | scope k =>
      refine ⟨.inr ⟨d, ho, hhome⟩, fun s hs => .inr (.inr ⟨d, ho, .inr ⟨k, ?_⟩⟩)⟩
      obtain ⟨v, hv⟩ := Frame.scopes_books_of_scope? hs
      have hd : v = some d := by simpa [Books.home?, hv] using hhome
      rw [hv, hd]

theorem touches_perform (hf : e.frame.Sound) (h : e.frame.books.Kept loose) (ho : o.Stays) :
    Frame.Touches (o.Scopes e.frame) (o.Tables e.frame) e.frame (o.perform e).frame :=
  touches_perform_of hf ho (fun _ hk => .inl hk) (fun _ ht => .inl ht)
    (fun k s hk hs => .inr (.inl ⟨k, s, hk, hs, rfl⟩)) fun _ _ hd ha => covers_of_listed h hd ha

/-- A scope outside the footprint is as it was. -/
theorem entry_scopes_perform (hf : e.frame.Sound) (h : e.frame.books.Kept loose) {k : PoolKey}
    {x : PoolEntry (Option PooledScope)} (hk : e.frame.scopes.entry? k = some x)
    (ho : ¬ o.Scopes e.frame k) : (o.perform e).frame.scopes.entry? k = some x := by
  rcases o.stays_or with hs | ⟨node, r, rfl⟩ | rfl
  · exact (touches_perform hf h hs).scopes k x hk ho
  · exact hk
  · exact (Frame.touches_endDepth hf (.inl rfl) fun a ha =>
      covers_of_listed h rfl ha).scopes k x hk ho

/-- A table outside the footprint is as it was. -/
theorem entry_tables_perform (hf : e.frame.Sound) (h : e.frame.books.Kept loose) {t : PoolKey}
    {x : PoolEntry MemberTable} (ht : e.frame.tables.entry? t = some x)
    (ho : ¬ o.Tables e.frame t) : (o.perform e).frame.tables.entry? t = some x := by
  rcases o.stays_or with hs | ⟨node, r, rfl⟩ | rfl
  · exact (touches_perform hf h hs).tables t x ht ho
  · exact ht
  · exact (Frame.touches_endDepth hf (.inl rfl) fun a ha =>
      covers_of_listed h rfl ha).tables t x ht ho

end Op

/-! ## Depths below -/

namespace Frame

/-- From `f` to `g` nothing happened to the activations below depth `n`, and
nothing was allocated for them. -/
structure Shelters (n : Nat) (f g : Frame) : Prop where
  config_eq : g.config = f.config
  spares : Books.Spares n f.books g.books
  activation : ∀ d, 0 < d → d < n → g.activation? d = f.activation? d

variable {f g h : Frame} {n : Nat} {S T : PoolKey → Prop}

theorem Shelters.refl (f : Frame) : Shelters n f f := ⟨rfl, .refl _, fun _ _ _ => rfl⟩

theorem Shelters.trans (h₁ : Shelters n f g) (h₂ : Shelters n g h) : Shelters n f h where
  config_eq := h₂.config_eq.trans h₁.config_eq
  spares := h₁.spares.trans h₂.spares
  activation := by
    intro d h0 hd
    rw [h₂.activation d h0 hd, h₁.activation d h0 hd]

theorem Touches.shelters (h : Touches S T f g) (hn : n ≤ f.depth) : Shelters n f g :=
  ⟨h.config_eq, h.spares.mono hn, fun d h0 hd => h.activation d h0 (by omega)⟩

/-- An activation that begins is above all that run. -/
theorem shelters_enter (hf : f.Sound) (hn : n ≤ f.depth + 1) (node : Node) (r : ScopeRef) :
    Shelters n f (f.enter node r) := by
  refine ⟨rfl, ?_, fun d h0 hd => ?_⟩
  · rw [books_enter hf]
    exact .setDepth _ _
  · have hlt := hf.depth_lt
    simp only [activation?, enter]
    split
    · rw [Array.getElem?_push, if_neg (by omega)]
    · rw [Array.getElem?_modify, if_neg (by omega)]

theorem shelters_leave (hf : f.Sound) (hn : n ≤ f.depth) : Shelters n f f.leave := by
  have hend := touches_endDepth hf (.inl rfl) fun a _ => Op.covers_true f a
  have hsh := hend.shelters hn
  exact ⟨hsh.config_eq, hsh.spares.trans (.setDepth _ _), hsh.activation⟩

end Frame

namespace Op

variable {e : Engine} {o : Op} {loose : List Allocation} {n : Nat}

theorem shelters_perform (hf : e.frame.Sound) (hn : n ≤ e.frame.depth) (o : Op) :
    Frame.Shelters n e.frame (o.perform e).frame := by
  rcases o.stays_or with ho | ⟨node, r, rfl⟩ | rfl
  · exact (touches_anything hf ho).shelters hn
  · exact Frame.shelters_enter hf (by omega) node r
  · exact Frame.shelters_leave hf hn

/-! ## Books -/

/-- The table an operation consumes. -/
def consumes? : Op → Option Handle
  | allocateFunction _ _ _ t | freeTable t | takeTable t => some t
  | _ => none

/-- The table that was handed out to an allocation and then had no room. -/
def leaked? (e : Engine) : Op → Option PoolKey
  | allocateBlock previous shape =>
    if (e.frame.allocateBlock previous shape (e.store.shapeSize shape)).1.isNone then
      some e.frame.tables.nextKey
    else none
  | allocateTable size =>
    if (e.frame.allocateTable size).1.isNone then some e.frame.tables.nextKey else none
  | _ => none

/-- An operation keeps the books, up to the table that it leaks. -/
theorem kept_perform (hf : e.frame.Sound) (h : e.frame.books.Kept loose)
    (hs : ∀ k, .scope k ∉ loose)
    (hu : ∀ t, o.consumes? = some t → (e.frame.books.tables t.key).isSome →
      e.frame.books.Unclaimed loose t.key) :
    (o.perform e).frame.books.Kept ((o.leaked? e).toList.map .table ++ loose) := by
  cases o with
  | allocateBlock previous shape =>
      have hk := Frame.kept_allocateBlock hf h hs previous shape (e.store.shapeSize shape)
      simp only [leaked?]
      split
      · next hn => rw [if_pos hn] at hk; exact hk
      · next hn => rw [if_neg hn] at hk; exact hk
  | allocateTable size =>
      have hk := Frame.kept_allocateTable hf h size
      simp only [leaked?]
      split
      · next hn => rw [if_pos hn] at hk; exact hk
      · next hn => rw [if_neg hn] at hk; exact hk
  | allocateFunction binding previous shape t =>
      exact Frame.kept_allocateFunction hf h hs (hu t rfl) _ _ _ _
  | freeTable t => exact Frame.kept_freeTable h (hu t rfl)
  | takeTable t => exact Frame.kept_takeTable h (hu t rfl)
  | freeScope r => exact Frame.kept_freeScope h hs r
  | editTable t c =>
      show (e.frame.modifyTable t c).books.Kept loose
      rw [Frame.books_modifyTable]
      exact h
  | declare r s a =>
      show (e.declare r s a).2.frame.books.Kept loose
      rw [e.books_declare]
      exact h
  | assign slot v =>
      show (e.assign slot v).2.frame.books.Kept loose
      rw [e.books_assign]
      exact h
  | mixin r source =>
      show (e.mixin r source).2.frame.books.Kept loose
      rw [e.books_mixin]
      exact h
  | setLine r line =>
      show (e.setLine r line).2.frame.books.Kept loose
      rw [e.books_setLine]
      exact h
  | reset => exact Frame.kept_endDepth h 0
  | enter node r => exact Frame.kept_enter hf h node r
  | leave => exact Frame.kept_leave h
  | share st => exact h

/-- An operation that is not given a table to consume leaves what is recorded
of it as it is, or gives it back. -/
theorem tables_perform (hf : e.frame.Sound) {t : PoolKey} {v w : Option Nat}
    (hw : e.frame.books.tables t = some w) (hv : (o.perform e).frame.books.tables t = some v)
    (hc : ∀ h, o.consumes? = some h → h.key ≠ t) : v = w := by
  have hkept : (o.perform e).frame.books.tables t = some w → v = w := fun hw' =>
    Option.some.inj (hv.symm.trans hw')
  have hgone : e.frame.books.tables t = some v → v = w := fun hv' =>
    Option.some.inj (hv'.symm.trans hw)
  have hsame : (o.perform e).frame.books = e.frame.books → v = w := fun hb => hgone (hb ▸ hv)
  -- a table is given back, or its entry is outside the footprint, or the books stay as they are
  cases o with
  | allocateBlock previous shape =>
      exact hkept ((Frame.touches_allocateBlock (S := fun _ => False) (T := fun _ => False)
        hf _ _ _).tables_books hw id)
  | allocateTable n =>
      exact hkept ((Frame.touches_allocateTable (S := fun _ => False) (T := fun _ => False)
        hf _).tables_books hw id)
  | allocateFunction binding previous shape h =>
      exact hkept ((Frame.touches_allocateFunction (S := fun _ => False)
        (T := fun t => h.key = t) hf rfl _ _ _ _).tables_books hw (hc h rfl))
  | freeTable h =>
      exact hkept ((Frame.touches_freeTable (S := fun _ => False) (T := fun t => h.key = t)
        hf rfl).tables_books hw (hc h rfl))
  | takeTable h =>
      exact hkept ((Frame.touches_takeTable (S := fun _ => False) (T := fun t => h.key = t)
        hf rfl).tables_books hw (hc h rfl))
  | freeScope r =>
      cases r with
      | durable d => exact hgone hv
      | pooled k =>
          simp only [perform, Frame.freeScope] at hv
          split at hv
          · next d _ =>
              have hv : ((e.frame.withdraw d (.scope k)).release (.scope k)).books.tables t =
                some v := hv
              rw [Frame.books_release, Frame.books_withdraw] at hv
              have hstruck := Books.tables_of_free hv
              exact hgone hstruck
          · have hv : (e.frame.release (.scope k)).books.tables t = some v := hv
            rw [Frame.books_release] at hv
            exact hgone (Books.tables_of_free hv)
  | editTable t' c => exact hsame (Frame.books_modifyTable _ _ _)
  | declare r s a => exact hsame (e.books_declare r s a)
  | assign slot x => exact hsame (e.books_assign slot x)
  | mixin r source => exact hsame (e.books_mixin r source)
  | setLine r line => exact hsame (e.books_setLine r line)
  | reset =>
      have hv : (e.frame.endDepth 0).books.tables t = some v := hv
      rw [Frame.books_endDepth] at hv
      exact hgone (Books.tables_of_reclaim hv)
  | enter node r => exact hgone hv
  | leave =>
      have hv : (e.frame.endDepth e.frame.depth).books.tables t = some v := hv
      rw [Frame.books_endDepth] at hv
      exact hgone (Books.tables_of_reclaim hv)
  | share st => exact hgone hv

end Op

end ScriptCore

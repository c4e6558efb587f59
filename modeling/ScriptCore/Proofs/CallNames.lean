import ScriptCore.Program.Gate
import ScriptCore.Proofs.Escape
import ScriptCore.Proofs.OwnMembers
import ScriptCore.Proofs.ShapeOrder

/-!
# The names of a fresh activation

The activations of a function share one shape, in which the parameters come
first and after them whatever names activations have declared. A call starts
with its arguments as the only slots, and each of these counts as declared. So
a name is the activation's own from the start exactly if the slot its shape
gives it is one of the arguments.

For the parameters that is what should happen. For other names it should not,
and it does happen as soon as there are more arguments than parameters: a
surplus argument answers to the name that some other activation declared
first. Calls with no more arguments than parameters are safe, and so are those
of functions that never declare a name.
-/

namespace ScriptCore

theorem Outcome.map_eq_done {α β : Type} {g : α → β} {r : Outcome α} {b : β}
    (h : r.map g = .done b) : ∃ a, r = .done a ∧ g a = b := by
  cases r with
  | done a =>
      cases h
      exact ⟨a, rfl, rfl⟩
  | raised e => cases h
  | panicked => cases h

/-! ## The scope of a call -/

namespace Frame

variable {f : Frame} {t : PoolKey} {table : MemberTable}

theorem getTable_readyTable {n : Nat} (h : f.tables.get? t = some table) :
    (f.readyTable t n).tables.get? t = some (table.ensureCapacity n) := by
  obtain ⟨x, hx, rfl⟩ := Pool.get?_eq_some.1 h
  have hmod : (f.modifyTable t (·.ensureCapacity n)).tables.entry? t =
      some { x with item := x.item.ensureCapacity n } := by
    rw [modifyTable, Pool.entry?_modify, if_pos rfl, hx]
    rfl
  unfold readyTable detachTable
  split
  · simp only [withdraw, modifyEntry, Pool.get?, Pool.entry?_detach, if_true, hmod]
    rfl
  · rw [Pool.get?, hmod]
    rfl

/-- The scope of a call in the pool, and its slots. -/
theorem allocateFunction_scope (hf : f.Sound) {binding : FunctionBinding} {previous : ScopeRef}
    {shape : ShapeId} {n : Nat} {k : PoolKey} (h : f.tables.get? t = some table)
    (hdone : (f.allocateFunction binding previous shape n t).1 = .done k) :
    (f.allocateFunction binding previous shape n t).2.scope? k =
        some { kind := .function binding, previous, shape, members := t } ∧
      (f.allocateFunction binding previous shape n t).2.getTable t =
        .ok (table.ensureCapacity n) := by
  have hready := touches_readyTable (S := fun _ => True) (T := fun _ => True) (t := t) hf trivial n
  rcases f.allocateFunction_cases binding previous shape n t with ⟨-, hno⟩ | ⟨-, heq⟩
  · exact absurd hdone (hno k)
  · rw [heq] at hdone ⊢
    cases hdone
    constructor
    · rw [scope?_installScope hready.sound, if_pos (by rw [readyTable_scopes])]
    · rw [installScope_eq]
      show (f.readyTable t n).getTable t = _
      rw [getTable, getTable_readyTable h]

end Frame

namespace Session

variable {s s' : Session} {f : FunctionId} {function : Function} {table : PoolKey}
  {this super : Option Value} {scope : ScopeRef}

/-- The scope a call builds, and the session in which the body starts. -/
def callScope (s : Session) (f : FunctionId) (function : Function) (table : PoolKey)
    (this super : Option Value) : Outcome ScopeRef × Session :=
  let (shape, s) := s.nodeShape function.body
  let previous := function.closure.getD (.ofGlobal s.engine.frame.global)
  let binding : FunctionBinding := ⟨f, this, super⟩
  if function.enclosesFunctions then
    let (r, s) := s.heapCallScope binding previous shape table
    (.ofExcept r, s)
  else s.pooledCallScope binding previous shape table

/-- A call is its body in that scope. -/
theorem call_fst (eval : Node → ScopeRef → Body) (hf : s.engine.store.functions[f]? = some function)
    (hscope : s.callScope f function table this super = (.done scope, s')) :
    (call eval f table this super s).1 =
      (eval function.body scope s').1.map Completion.ofCall := by
  unfold callScope at hscope
  unfold call
  rw [hf]
  simp only at hscope ⊢
  split at hscope
  · next henc =>
      rw [if_pos henc]
      split
      · next e s₁ heq =>
          rw [heq] at hscope
          cases hscope
      · next r s₁ heq =>
          rw [heq] at hscope
          cases hscope
          rfl
  · next henc =>
      rw [if_neg henc, hscope]
      simp only
      split
      · next s₁ heq => rw [heq]; rfl
      · next r s₁ _ heq => rw [heq]

theorem nodeShape_frame (s : Session) (node : Node) :
    (s.nodeShape node).2.engine.frame = s.engine.frame := rfl

/-- The scope that encloses those of a function. -/
def enclosing (s : Session) (function : Function) : DurableScope :=
  function.closure.getD (.ofGlobal s.engine.frame.global)

/-- The shape the activations of a function share. -/
def shapeOf (s : Session) (function : Function) : ShapeId := (s.nodeShape function.body).1

/-- The room a call asks for in its table of arguments. -/
def roomOf (s : Session) (function : Function) : Nat :=
  (s.nodeShape function.body).2.engine.store.shapeSize (s.shapeOf function)

end Session

/-! ## References to heap scopes -/

namespace DurableScope

/-- The heap scope a chain leads to, if any, is one of the first `n`. -/
def Below (d : DurableScope) (n : Nat) : Prop := ∀ id : Nat, d.anchor = .heap id → id < n

end DurableScope

namespace Store

variable {st : Store} {d : DurableScope} {n : Nat} {x y : Symbol}

/-- What encloses a heap scope was there before it. -/
def Grounded (st : Store) : Prop :=
  ∀ (id : Nat) (h : HeapScope), st.heaps[id]? = some h → h.previous.Below id

theorem Grounded.push (hg : st.Grounded) {st' : Store} {h : HeapScope}
    (hp : h.previous.Below st.heaps.size) (hst : st'.heaps = st.heaps.push h) : st'.Grounded := by
  intro id h' hid
  rw [hst, Array.getElem?_push] at hid
  split at hid
  · next heq =>
      cases hid
      rw [heq]
      exact hp
  · exact hg id h' hid

/-- The number of heap scopes that come first bounds the walk outward. -/
theorem Grounded.resolveWithin_eq (h : st.Grounded) {hops : Nat} (hd : d.Below n)
    (hn : n ≤ hops) : st.resolveWithin x hops d = st.resolveWithin x n d := by
  induction n using Nat.strong_induction_on generalizing d hops with
  | _ n ih =>
      cases hf : d.frozen.findSome? (st.findFrozen? x) with
      | some slot =>
          unfold resolveWithin
          simp only [hf]
      | none =>
          cases ha : d.anchor with
          | global id =>
              unfold resolveWithin
              simp only [hf, ha]
          | heap id =>
              have hid := hd id ha
              obtain ⟨n, rfl⟩ : ∃ j, n = j + 1 := ⟨n - 1, by omega⟩
              obtain ⟨hops, rfl⟩ : ∃ j, hops = j + 1 := ⟨hops - 1, by omega⟩
              unfold resolveWithin
              simp only [hf, ha]
              cases hheap : st.heaps[id]? with
              | none => rfl
              | some scope =>
                  simp only
                  have hbelow := h id scope hheap
                  have hle := Nat.le_of_lt_succ hid
                  rw [ih id hid hbelow (Nat.le_trans hle (Nat.le_of_succ_le_succ hn)),
                    ih id hid hbelow hle]

/-- A walk outward finds slots of the heap scopes it may pass, and of no pooled
table. -/
theorem Grounded.heap_lt (h : st.Grounded) {hops i id : Nat} (hd : d.Below n)
    (hr : st.resolveWithin x hops d = .ok (.heap id i y)) : id < n := by
  induction hops using Nat.strong_induction_on generalizing d n with
  | _ hops ih =>
  have hmixin : ∀ mixins : List SourceId,
      (st.findMixin? mixins x).map (SlotRef.mixin · x) ≠ some (.heap id i y) := by
    intro mixins heq
    obtain ⟨source, -, hs⟩ := Option.map_eq_some_iff.1 heq
    cases hs
  have hfrozen : d.frozen.findSome? (st.findFrozen? x) ≠ some (.heap id i y) := by
    intro heq
    obtain ⟨f, -, hf⟩ := List.exists_of_findSome?_eq_some heq
    unfold findFrozen? at hf
    split at hf
    · cases hf
    · exact hmixin _ hf
  unfold resolveWithin at hr
  split at hr
  · next slot hf =>
      cases hr
      exact absurd hf hfrozen
  · split at hr
    · next gid ha =>
        split at hr
        · next slot hg =>
            cases hr
            unfold findGlobal? at hg
            obtain ⟨g, -, hg⟩ := Option.bind_eq_some_iff.1 hg
            split at hg
            · cases hg
            · exact absurd hg (hmixin _)
        · cases hr
    · next hid ha =>
        have hlt := hd hid ha
        split at hr
        · next hops' scope hheap =>
            split at hr
            · next slot hfound =>
                cases hr
                unfold findHeap? at hfound
                split at hfound
                · cases hfound
                  exact hlt
                · exact absurd hfound (hmixin _)
            · have hrest := ih hops' (Nat.lt_succ_self _) (h hid scope hheap) hr
              omega
        · cases hr

end Store

/-! ## Own slots -/

/-- The shapes of nodes start empty. -/
theorem Shape.lists_of_createAll {syms : List Symbol} {slots : List Nat} {sh : Shape}
    (h : Shape.empty.createAll syms = .ok (slots, sh)) : sh.Lists syms.eraseDups := by
  have hload : ∀ c ∈ Capacity.primes, threshold c empty.load < c := by decide +kernel
  have hnew : empty.Lists ([] : List Symbol).eraseDups := lists_of_new (.inl rfl)
  rcases hnew.createAll syms hload with ⟨sh', hrun, -, hl⟩ | ⟨last, hlimit, -⟩
  · rw [h] at hrun
    cases hrun
    exact hl
  · rw [h] at hlimit
    cases hlimit

namespace Store

variable {st : Store} {shape : ShapeId} {sh : Shape} {l : List Symbol} {args : List Value}

/-- Among the arguments of a call every slot there is counts as declared. -/
theorem ownIndex?_args (hshape : st.shapes[shape]? = some sh) (hl : sh.Lists l)
    {slots : Array Slot} (hslots : slots.toList = args.map Slot.ofValue) (x : Symbol) :
    st.ownIndex? shape slots x =
      if x ∈ l ∧ l.idxOf x < args.length then some (l.idxOf x) else none := by
  have hget : ∀ i : Nat, slots[i]? = args[i]?.map Slot.ofValue := by
    intro i
    rw [← Array.getElem?_toList, hslots, List.getElem?_map]
  rw [ownIndex?, slotOf?, hshape, Option.bind_some, hl.get?_eq]
  by_cases hx : x ∈ l
  · by_cases hi : l.idxOf x < args.length
    · rw [if_pos hx, if_pos ⟨hx, hi⟩, Option.filter_some, hget, List.getElem?_eq_getElem hi]
      rfl
    · rw [if_pos hx, if_neg (fun h => hi h.2), Option.filter_some, hget,
        List.getElem?_eq_none (by omega)]
      rfl
  · rw [if_neg hx, if_neg (fun h => hx h.1)]
    rfl

theorem findMixin?_nil (x : Symbol) : st.findMixin? [] x = none := rfl

theorem resolve_ofHeap {id n : Nat} {h : HeapScope} (hid : st.heaps[id]? = some h)
    (hn : st.heaps.size = n + 1) (hmixins : h.mixins = []) (x : Symbol) :
    st.resolve (.ofHeap id) x =
      match st.ownIndex? h.shape h.members.slots x with
      | some i => .ok (.heap id i x)
      | none => st.resolveWithin x n h.previous := by
  rw [resolve, hn]
  conv_lhs => unfold resolveWithin
  simp only [DurableScope.ofHeap, List.findSome?_nil, hid, findHeap?, hmixins, findMixin?_nil]
  cases st.ownIndex? h.shape h.members.slots x <;> rfl

end Store

namespace Engine

variable {e : Engine} {k : PoolKey} {own : PooledScope} {t : MemberTable}

/-- The engine at a later time, when the shapes have become others. -/
def withShapes (e : Engine) (shapes : Shapes) : Engine :=
  { e with store := { e.store with shapes } }

/-- The slot is one of the scope's own. -/
def IsOwn (e : Engine) : ScopeRef → SlotRef → Prop
  | .pooled k, slot => ∃ own i x, e.frame.scope? k = some own ∧ slot = .pooled own.members i x
  | .durable d, slot => ∃ id i x, d = .ofHeap id ∧ slot = .heap id i x

/-- Names other than the parameters are none of the scope's own, and mean what
they mean in the scope that encloses it. -/
def LooksOutward (e : Engine) (scope : ScopeRef) (previous : DurableScope)
    (params : List Symbol) : Prop :=
  ∀ x, x ∉ params → (∀ slot, e.resolve scope x = .ok slot → ¬ e.IsOwn scope slot) ∧
    e.resolve scope x = e.store.resolve previous x

theorem resolve_pooled {previous : DurableScope} (hown : e.frame.scope? k = some own)
    (hprevious : own.previous = .durable previous) (hmixins : own.mixins = [])
    (ht : e.frame.getTable own.members = .ok t) (x : Symbol) :
    e.resolve (.pooled k) x =
      match e.store.ownIndex? own.shape t.slots x with
      | some i => .ok (.pooled own.members i x)
      | none => e.store.resolve previous x := by
  have hpos : e.frame.scopes.entries.size ≠ 0 := by
    obtain ⟨item, hitem, -⟩ := Option.bind_eq_some_iff.1 hown
    obtain ⟨y, hy, -⟩ := Pool.get?_eq_some.1 hitem
    have hlt := (Array.getElem?_eq_some_iff.1 (Pool.entry?_eq_some.1 hy).1).1
    omega
  obtain ⟨n, hn⟩ := Nat.exists_eq_succ_of_ne_zero hpos
  rw [resolve, hn]
  simp only [resolveWithin, getScope_of_scope? hown, ownIndex?_eq ht, hmixins,
    Store.findMixin?_nil, hprevious]
  cases e.store.ownIndex? own.shape t.slots x with
  | some i => rfl
  | none => cases n <;> rfl

/-- What can be told of a scope whose slots are `slots` and which `previous`
encloses: `own` is where it keeps them. -/
structure Spread (e : Engine) (scope : ScopeRef) (shape : ShapeId) (slots : Array Slot)
    (previous : DurableScope) (own : Nat → Symbol → SlotRef) : Prop where
  resolve : ∀ x, e.resolve scope x =
    match e.store.ownIndex? shape slots x with
    | some i => .ok (own i x)
    | none => e.store.resolve previous x
  isOwn : ∀ i x, e.IsOwn scope (own i x)
  load : ∀ i x, e.load (own i x) = .ok ((slots[i]?.map Slot.value).getD .undefined)
  outward : ∀ x slot, e.store.resolve previous x = .ok slot → ¬ e.IsOwn scope slot

theorem spread_pooled {previous : DurableScope} (hown : e.frame.scope? k = some own)
    (hprevious : own.previous = .durable previous) (hmixins : own.mixins = [])
    (ht : e.frame.getTable own.members = .ok t) :
    e.Spread (.pooled k) own.shape t.slots previous (.pooled own.members) where
  resolve := resolve_pooled hown hprevious hmixins ht
  isOwn := fun i x => ⟨own, i, x, hown, rfl⟩
  load := by
    intro i x
    rw [load, ht]
    rfl
  outward := by
    rintro x slot hr ⟨_, i, y, -, rfl⟩
    cases Store.isPooled_of_resolveWithin hr

theorem spread_heap {n : Nat} {h : HeapScope} (hheap : e.store.heaps[n]? = some h)
    (hsize : e.store.heaps.size = n + 1) (hmixins : h.mixins = []) (hg : e.store.Grounded) :
    e.Spread (.durable (.ofHeap n)) h.shape h.members.slots h.previous (.heap n) where
  resolve := by
    intro x
    show e.resolveWithin x _ (.durable (.ofHeap n)) = _
    have hbelow := hg n h hheap
    have houtward : e.store.resolve h.previous x = e.store.resolveWithin x n h.previous :=
      hg.resolveWithin_eq hbelow (by omega)
    rw [houtward, ← Store.resolve_ofHeap hheap hsize hmixins x]
    cases e.frame.scopes.entries.size <;> rfl
  isOwn := fun i x => ⟨n, i, x, rfl, rfl⟩
  load := by
    intro i x
    simp only [load, Store.load, hheap, Option.bind_some]
    rfl
  outward := by
    rintro x slot hr ⟨id, i, y, hid, rfl⟩
    cases hid
    exact Nat.lt_irrefl n (hg.heap_lt (hg n h hheap) hr)

section

variable {scope : ScopeRef} {shape : ShapeId} {slots : Array Slot} {previous : DurableScope}
  {own : Nat → Symbol → SlotRef} {sh : Shape} {l : List Symbol} {args : List Value} {x : Symbol}

theorem Spread.own_of (h : e.Spread scope shape slots previous own)
    (hshape : e.store.shapes[shape]? = some sh) (hl : sh.Lists l)
    (hslots : slots.toList = args.map Slot.ofValue) (hx : x ∈ l) (hi : l.idxOf x < args.length) :
    ∃ slot, e.resolve scope x = .ok slot ∧ e.IsOwn scope slot ∧
      e.load slot = .ok args[l.idxOf x] := by
  refine ⟨own (l.idxOf x) x, ?_, h.isOwn _ _, ?_⟩
  · rw [h.resolve, Store.ownIndex?_args hshape hl hslots, if_pos ⟨hx, hi⟩]
  · rw [h.load, ← Array.getElem?_toList, hslots, List.getElem?_map, List.getElem?_eq_getElem hi]
    rfl

theorem Spread.outward_of (h : e.Spread scope shape slots previous own)
    (hshape : e.store.shapes[shape]? = some sh) (hl : sh.Lists l)
    (hslots : slots.toList = args.map Slot.ofValue) (hx : x ∈ l → args.length ≤ l.idxOf x) :
    (∀ slot, e.resolve scope x = .ok slot → ¬ e.IsOwn scope slot) ∧
      e.resolve scope x = e.store.resolve previous x := by
  have hres : e.resolve scope x = e.store.resolve previous x := by
    rw [h.resolve, Store.ownIndex?_args hshape hl hslots, if_neg]
    rintro ⟨hmem, hlt⟩
    have := hx hmem
    omega
  exact ⟨fun slot hslot => h.outward x slot (hres ▸ hslot), hres⟩

/-- The names beyond the parameters stay out of the way exactly if there are
none, or no argument is left for them. -/
theorem Spread.looksOutward_iff {params rest : List Symbol}
    (h : e.Spread scope shape slots previous own) (hshape : e.store.shapes[shape]? = some sh)
    (hl : sh.Lists (params ++ rest)) (hrest : ∀ y ∈ rest, y ∉ params)
    (args : List Value) (hslots : slots.toList = args.map Slot.ofValue) :
    e.LooksOutward scope previous params ↔ args.length ≤ params.length ∨ rest = [] := by
  constructor
  · intro hout
    by_contra hno
    obtain ⟨hmore, hsome⟩ := not_or.1 hno
    obtain ⟨y, ys, rfl⟩ := List.exists_cons_of_ne_nil hsome
    have hy : y ∉ params := hrest y List.mem_cons_self
    -- the first of them is in the slot behind the parameters
    have hidx : (params ++ y :: ys).idxOf y = params.length := by
      rw [List.idxOf_append_of_notMem hy, List.idxOf_cons_self]
      rfl
    obtain ⟨slot, hslot, hown, -⟩ := h.own_of hshape hl hslots (x := y) (by simp)
      (by rw [hidx]; omega)
    exact (hout y hy).1 slot hslot hown
  · intro hsafe x hx
    refine h.outward_of hshape hl hslots fun hmem => ?_
    have hidx : (params ++ rest).idxOf x = params.length + rest.idxOf x :=
      List.idxOf_append_of_notMem hx
    rcases hsafe with hfew | rfl
    · omega
    · rw [List.append_nil] at hmem
      exact absurd hmem hx

end

end Engine

namespace Session

variable {s s' : Session} {f : FunctionId} {function : Function} {table : PoolKey}
  {t : MemberTable} {this super : Option Value} {scope : ScopeRef}

theorem pooledCallScope_eq (s : Session) (binding : FunctionBinding) (previous : DurableScope)
    (shape : ShapeId) (table : PoolKey) :
    s.pooledCallScope binding previous shape table =
      let r := s.engine.frame.allocateFunction binding (.durable previous) shape
        (s.engine.store.shapeSize shape) table
      (r.1.map .pooled, { s with engine := { s.engine with frame := r.2 } }) := rfl

/-- With room for its arguments a call gets its scope. -/
theorem callScope_done (f : FunctionId) (this super : Option Value)
    (ht : s.engine.frame.getTable table = .ok t)
    (hroom : function.enclosesFunctions = true ∨ t.fits (s.roomOf function) = true) :
    ∃ scope s', s.callScope f function table this super = (.done scope, s') := by
  unfold callScope
  simp only
  by_cases henc : function.enclosesFunctions = true
  · rw [if_pos henc]
    simp only [heapCallScope, nodeShape_frame, Frame.takeTable, ht]
    exact ⟨_, _, rfl⟩
  · rw [if_neg henc]
    have hfits := hroom.resolve_left henc
    have hframe : (s.nodeShape function.body).2.engine.frame.getTable table = .ok t := ht
    have hfits : t.fits ((s.nodeShape function.body).2.engine.store.shapeSize
      (s.nodeShape function.body).1) = true := hfits
    simp only [pooledCallScope, Frame.allocateFunction, hframe, hfits, if_true]
    exact ⟨_, _, rfl⟩

theorem callScope_shapes {r : Outcome ScopeRef}
    (hscope : s.callScope f function table this super = (r, s')) :
    s'.engine.store.shapes = (s.nodeShape function.body).2.engine.store.shapes := by
  unfold callScope at hscope
  simp only at hscope
  split at hscope
  · simp only [heapCallScope] at hscope
    split at hscope <;> cases hscope <;> rfl
  · rw [pooledCallScope_eq] at hscope
    cases hscope
    rfl

theorem callScope_spread (hsound : s.engine.frame.Sound)
    (ht : s.engine.frame.getTable table = .ok t) (hg : s.engine.store.Grounded)
    (hp : (s.enclosing function).Below s.engine.store.heaps.size)
    (hscope : s.callScope f function table this super = (.done scope, s')) (shapes : Shapes) :
    ∃ own, (s'.engine.withShapes shapes).Spread scope (s.shapeOf function)
      t.slots (s.enclosing function) own := by
  unfold callScope at hscope
  simp only at hscope
  split at hscope
  · -- on the heap: the new scope comes after all those the walk outward may pass
    simp only [heapCallScope, nodeShape_frame, Frame.takeTable, ht] at hscope
    cases hscope
    refine ⟨_, Engine.spread_heap (n := s.engine.store.heaps.size)
      (h := ⟨.function ⟨f, this, super⟩, s.enclosing function, s.shapeOf function, t.clone, []⟩)
      ?_ ?_ rfl (hg.push (h := ⟨_, s.enclosing function, _, _, _⟩) hp rfl)⟩
    · exact Array.getElem?_push_size
    · exact Array.size_push _
  · have htable : s.engine.frame.tables.get? table = some t := by
      rw [Frame.getTable] at ht
      split at ht
      · cases ht
        assumption
      · cases ht
    rw [pooledCallScope_eq] at hscope
    obtain ⟨houtcome, rfl⟩ := Prod.mk.inj hscope
    obtain ⟨k, hdone, rfl⟩ := Outcome.map_eq_done houtcome
    obtain ⟨hown, hslots⟩ := Frame.allocateFunction_scope (f := s.engine.frame) hsound htable hdone
    have hspread := Engine.spread_pooled
      (e := ⟨{ (s.nodeShape function.body).2.engine.store with shapes }, _⟩) hown rfl rfl hslots
    rw [MemberTable.slots_ensureCapacity] at hspread
    exact ⟨_, hspread⟩

theorem eraseDups_of_nodup {l : List Symbol} (h : l.Nodup) : l.eraseDups = l := by
  induction l with
  | nil => rfl
  | cons x l ih =>
      obtain ⟨hx, hl⟩ := List.nodup_cons.1 h
      have hfilter : l.filter (fun y => !y == x) = l := by
        refine List.filter_eq_self.2 fun y hy => ?_
        have hne : y ≠ x := fun heq => hx (heq ▸ hy)
        simpa using hne
      rw [List.eraseDups_cons, hfilter, ih hl]

/-- A call whose table has room gets a scope in which its body runs. There a
name that is no parameter, but that activations have declared, is an argument
of the call if its place in the shape is among the arguments, and otherwise it
means what it means outside. So the names of other activations stay invisible
exactly if there are no more arguments than parameters, or no such names; it
does not matter when the names were added. -/
theorem surplus_arguments_answer_to_names {store : Store} {config : FrameConfig}
    {global : GlobalId} {flag : FlagId} {os : List Op} {slots : List Nat} {sh : Shape}
    (args : List Value) (params further : List Symbol) (this super : Option Value)
    (hs : s.engine = ((Machine.start store config global flag).run os).engine)
    (hf : s.engine.store.functions[f]? = some function)
    (ht : s.engine.frame.getTable table = .ok t) (hargs : t.slots.toList = args.map Slot.ofValue)
    (hroom : function.enclosesFunctions = true ∨ t.fits (s.roomOf function) = true)
    (hg : s.engine.store.Grounded)
    (hp : (s.enclosing function).Below s.engine.store.heaps.size) (hparams : params.Nodup)
    (hsh : Shape.empty.createAll (params ++ further) = .ok (slots, sh)) :
    ∃ scope s', s.callScope f function table this super = (.done scope, s') ∧
      (∀ eval, (call eval f table this super s).1 =
        (eval function.body scope s').1.map Completion.ofCall) ∧
      ∀ shapes : Shapes, shapes[s.shapeOf function]? = some sh →
        let e := s'.engine.withShapes shapes
        let names := (params ++ further).eraseDups
        (∀ x ∈ further, x ∉ params → ∀ hi : names.idxOf x < args.length,
          ∃ slot, e.resolve scope x = .ok slot ∧ e.IsOwn scope slot ∧
            e.load slot = .ok args[names.idxOf x]) ∧
        (∀ x, x ∉ params → (x ∈ further → args.length ≤ names.idxOf x) →
          (∀ slot, e.resolve scope x = .ok slot → ¬ e.IsOwn scope slot) ∧
            e.resolve scope x = e.store.resolve (s.enclosing function) x) ∧
        (e.LooksOutward scope (s.enclosing function) params ↔
          args.length ≤ params.length ∨ further ⊆ params) := by
  have hsound : s.engine.frame.Sound := by
    rw [hs]
    exact ((Machine.tracked_start store config global flag).run os).sound
  obtain ⟨scope, s', hscope⟩ := callScope_done f this super ht hroom
  refine ⟨scope, s', hscope, fun eval => call_fst eval hf hscope, ?_⟩
  intro shapes hshapes e names
  obtain ⟨own, hspread⟩ := callScope_spread hsound ht hg hp hscope shapes
  have hlists : sh.Lists names := Shape.lists_of_createAll hsh
  have hnames : names = params ++ (further.removeAll params).eraseDups := by
    show (params ++ further).eraseDups = _
    rw [List.eraseDups_append, eraseDups_of_nodup hparams]
  refine ⟨fun x hx hxp hi => ?_, fun x hxp hx => ?_, ?_⟩
  · refine hspread.own_of hshapes hlists hargs (List.mem_eraseDups.2 ?_) hi
    exact List.mem_append_right _ hx
  · refine hspread.outward_of hshapes hlists hargs fun hmem => hx ?_
    exact (List.mem_append.1 (List.mem_eraseDups.1 hmem)).resolve_left hxp
  · have hrest : ∀ y ∈ (further.removeAll params).eraseDups, y ∉ params := by
      intro y hy
      rw [List.mem_eraseDups, List.removeAll, List.mem_filter] at hy
      simpa using hy.2
    rw [hspread.looksOutward_iff hshapes (hnames ▸ hlists) hrest args hargs]
    refine or_congr_right ⟨fun hnil x hx => ?_, fun hsub => ?_⟩
    · by_contra hxp
      have hmem : x ∈ (further.removeAll params).eraseDups := by
        rw [List.mem_eraseDups, List.removeAll, List.mem_filter]
        exact ⟨hx, by simpa using hxp⟩
      rw [hnil] at hmem
      cases hmem
    · have hnone : further.removeAll params = [] := by
        refine List.filter_eq_nil_iff.2 fun x hx => ?_
        simpa using hsub hx
      rw [hnone]
      rfl

theorem exists_shape_of_two :
    ∃ sh, Shape.empty.createAll [⟨500, by decide⟩, ⟨501, by decide⟩] = .ok ([0, 1], sh) := by
  have hslots : (Shape.empty.createAll [⟨500, by decide⟩, ⟨501, by decide⟩]).toOption.map (·.1) =
      some [0, 1] := by
    decide +kernel
  obtain ⟨⟨slots, sh⟩, hsome, rfl⟩ := Option.map_eq_some_iff.1 hslots
  refine ⟨sh, ?_⟩
  cases hrun : Shape.empty.createAll [⟨500, by decide⟩, ⟨501, by decide⟩] with
  | error fault =>
      rw [hrun] at hsome
      cases hsome
  | ok p =>
      rw [hrun] at hsome
      cases hsome
      rfl

/-- A session about to call a function of one parameter with two arguments. The
shape is that of the function, whatever its activations have declared. -/
def surplusCall (sh : Shape) : Session where
  engine :=
    ((Machine.start
      { shapes := #[sh], globals := #[{}], functions := #[{ name := none, body := { id := 0 } }],
        nodeShapes := #[{ all := some 0 }] } {} 0 0).run
      [.allocateTable 2, .editTable ⟨0, 0⟩ (·.pushAll [.int 1, .int 2])]).engine

theorem surplusCall_table (sh : Shape) :
    ∃ t, (surplusCall sh).engine.frame.getTable ⟨0, 0⟩ = .ok t ∧
      t.slots.toList = [.int 1, .int 2].map Slot.ofValue ∧ t.fits 2 = true :=
  ⟨((MemberTable.withMinCapacity 16).ensureCapacity 2).pushAll [.int 1, .int 2], rfl, rfl,
    by decide +kernel⟩

/-- A name that another activation declared is the second argument. -/
theorem surplus_argument_answers_to_name :
    let a : Symbol := ⟨500, by decide⟩
    let x : Symbol := ⟨501, by decide⟩
    let function : Function := { name := none, body := { id := 0 } }
    ∃ sh, Shape.empty.createAll [a, x] = .ok ([0, 1], sh) ∧
      ∃ scope s', (surplusCall sh).callScope 0 function ⟨0, 0⟩ none none = (.done scope, s') ∧
        ∃ slot, s'.engine.resolve scope x = .ok slot ∧ s'.engine.IsOwn scope slot ∧
          s'.engine.load slot = .ok (.int 2) := by
  intro a x function
  obtain ⟨sh, hsh⟩ := exists_shape_of_two
  obtain ⟨t, ht, hargs, hfits⟩ := surplusCall_table sh
  have hroom : (surplusCall sh).roomOf function = 2 := (Shape.lists_of_createAll hsh).size
  have hf : (surplusCall sh).engine.store.functions[0]? = some function := rfl
  obtain ⟨scope, s', hscope, -, hnames⟩ := surplus_arguments_answer_to_names
    [.int 1, .int 2] [a] [x] none none rfl hf ht hargs (.inr (hroom ▸ hfits)) nofun nofun
    (List.nodup_singleton a) hsh
  have hshapes : s'.engine.store.shapes[0]? = some sh := by
    rw [callScope_shapes hscope]
    rfl
  exact ⟨sh, hsh, scope, s', hscope, (hnames s'.engine.store.shapes hshapes).1 x
    (List.mem_singleton_self x) (by decide) (by decide)⟩

/-- So the call sees more than its parameters. -/
theorem names_of_other_activations_show :
    let a : Symbol := ⟨500, by decide⟩
    let x : Symbol := ⟨501, by decide⟩
    let function : Function := { name := none, body := { id := 0 } }
    ∃ sh, Shape.empty.createAll [a, x] = .ok ([0, 1], sh) ∧
      ∃ scope s', (surplusCall sh).callScope 0 function ⟨0, 0⟩ none none = (.done scope, s') ∧
        ¬ s'.engine.LooksOutward scope ((surplusCall sh).enclosing function) [a] := by
  intro a x function
  obtain ⟨sh, hsh⟩ := exists_shape_of_two
  obtain ⟨t, ht, hargs, hfits⟩ := surplusCall_table sh
  have hlists : sh.Lists ([a] ++ [x]) := Shape.lists_of_createAll hsh
  have hroom : (surplusCall sh).roomOf function = 2 := hlists.size
  have hsound : (surplusCall sh).engine.frame.Sound :=
    ((Machine.tracked_start _ {} 0 0).run _).sound
  have hg : (surplusCall sh).engine.store.Grounded := nofun
  have hp : ((surplusCall sh).enclosing function).Below
    (surplusCall sh).engine.store.heaps.size := nofun
  obtain ⟨scope, s', hscope⟩ := callScope_done 0 none none ht (.inr (hroom ▸ hfits))
  obtain ⟨own, hspread⟩ := callScope_spread hsound ht hg hp hscope s'.engine.store.shapes
  have hshapes : s'.engine.store.shapes[0]? = some sh := by
    rw [callScope_shapes hscope]
    rfl
  have hiff := hspread.looksOutward_iff hshapes hlists (by decide) [.int 1, .int 2] hargs
  refine ⟨sh, hsh, scope, s', hscope, fun hout => ?_⟩
  rcases hiff.1 hout with hfew | hnone
  · exact absurd hfew (by decide)
  · cases hnone

end Session

end ScriptCore

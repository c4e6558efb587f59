import ScriptCore.Proofs.CallNames
import ScriptCore.Proofs.Globals
import ScriptCore.Proofs.Listing
import ScriptCore.Proofs.Room

/-!
# Heap scopes that nothing leads to

`beside` puts further heap scopes behind those of a store, and has its functions
say otherwise whether they enclose others. Whatever refers only to heap scopes
that were there before works on the two stores alike: it finds the same slots,
reads the same values, and what it changes it changes in the same way. So the
store on the one side can be told from that on the other only by the scopes that
were added.
-/

namespace ScriptCore

namespace Store

variable {st st' : Store} {extra : Array HeapScope} {fs : Functions} {d : DurableScope}
  {s : Symbol} {id : Nat}

/-- The store with further heap scopes and other functions. -/
def beside (st : Store) (extra : Array HeapScope) (fs : Functions) : Store :=
  { st with heaps := st.heaps ++ extra, functions := fs }

/-- What the store refers to is there: what encloses a heap scope, what is
mixed in, and what functions resolve their names in. -/
structure Closed (st : Store) : Prop where
  grounded : st.Grounded
  sources : ∀ (id : SourceId) d, st.sources[id]? = some (.scope d) → d.Below st.heaps.size
  closures : ∀ (f : FunctionId) function d, st.functions[f]? = some function →
    function.closure = some d → d.Below st.heaps.size

theorem heaps_beside (h : id < st.heaps.size) : (st.beside extra fs).heaps[id]? = st.heaps[id]? :=
  Array.getElem?_append_left h

theorem heaps_beside_ge (h : st.heaps.size ≤ id) :
    (st.beside extra fs).heaps[id]? = extra[id - st.heaps.size]? :=
  Array.getElem?_append_right h

/-! ## Looking -/

theorem publicMember?_beside (hd : d.Below st.heaps.size) :
    (st.beside extra fs).publicMember? d s = st.publicMember? d s := by
  match d with
  | ⟨_ :: _, _⟩ => rfl
  | ⟨[], .heap id⟩ =>
      simp only [publicMember?, heaps_beside (hd id rfl)]
      rfl
  | ⟨[], .global _⟩ => rfl

theorem sourceMember?_beside (hc : st.Closed) (id : SourceId) :
    (st.beside extra fs).sourceMember? id s = st.sourceMember? id s := by
  have hsources : (st.beside extra fs).sources = st.sources := rfl
  unfold sourceMember?
  rw [hsources]
  split
  · next d hd => exact publicMember?_beside (hc.sources id d hd)
  · rfl
  · rfl

theorem findMixin?_beside (hc : st.Closed) (mixins : List SourceId) :
    (st.beside extra fs).findMixin? mixins s = st.findMixin? mixins s := by
  unfold findMixin?
  simp only [sourceMember?_beside hc]

theorem findFrozen?_beside (hc : st.Closed) (f : FrozenScope) :
    (st.beside extra fs).findFrozen? s f = st.findFrozen? s f := by
  unfold findFrozen?
  rw [findMixin?_beside hc]
  rfl

theorem findHeap?_beside (hc : st.Closed) (id : HeapId) (h : HeapScope) :
    (st.beside extra fs).findHeap? id h s = st.findHeap? id h s := by
  unfold findHeap?
  rw [findMixin?_beside hc]
  rfl

theorem findGlobal?_beside (hc : st.Closed) (id : GlobalId) :
    (st.beside extra fs).findGlobal? id s = st.findGlobal? id s := by
  unfold findGlobal?
  simp only [findMixin?_beside hc]
  rfl

theorem resolveWithin_beside (hc : st.Closed) {hops : Nat} (hd : d.Below st.heaps.size) :
    (st.beside extra fs).resolveWithin s hops d = st.resolveWithin s hops d := by
  have hfrozen : (st.beside extra fs).findFrozen? s = st.findFrozen? s :=
    funext (findFrozen?_beside hc)
  induction hops generalizing d with
  | zero =>
      unfold resolveWithin
      rw [hfrozen]
      simp only [findGlobal?_beside hc]
  | succ hops ih =>
      unfold resolveWithin
      rw [hfrozen]
      simp only [findGlobal?_beside hc]
      cases d.frozen.findSome? (st.findFrozen? s) with
      | some slot => rfl
      | none =>
          cases ha : d.anchor with
          | global id => rfl
          | heap id =>
              have hid := hd id ha
              simp only [heaps_beside hid]
              cases hh : st.heaps[id]? with
              | none => rfl
              | some h =>
                  simp only [findHeap?_beside hc]
                  cases st.findHeap? id h s with
                  | some slot => rfl
                  | none =>
                      refine ih fun j hj => ?_
                      have := hc.grounded id h hh j hj
                      omega

theorem resolve_beside (hc : st.Closed) (hd : d.Below st.heaps.size) :
    (st.beside extra fs).resolve d s = st.resolve d s := by
  rw [resolve, resolveWithin_beside hc hd]
  refine hc.grounded.resolveWithin_eq hd ?_
  show st.heaps.size ≤ (st.heaps ++ extra).size
  rw [Array.size_append]
  omega

section

variable {pick : ScopeKind → Option Value} {missing : ErrorKind}

/-- The number of heap scopes that come first bounds this walk too. -/
theorem Grounded.escalateWithin_eq (h : st.Grounded) {n hops : Nat} (hd : d.Below n)
    (hn : n ≤ hops) :
    st.escalateWithin pick missing hops d = st.escalateWithin pick missing n d := by
  induction n using Nat.strong_induction_on generalizing d hops with
  | _ n ih =>
      cases hf : d.frozen.findSome? fun f => pick f.kind with
      | some v =>
          unfold escalateWithin
          simp only [hf]
      | none =>
          cases ha : d.anchor with
          | global id =>
              unfold escalateWithin
              simp only [hf, ha]
          | heap id =>
              have hid := hd id ha
              obtain ⟨n, rfl⟩ : ∃ j, n = j + 1 := ⟨n - 1, by omega⟩
              obtain ⟨hops, rfl⟩ : ∃ j, hops = j + 1 := ⟨hops - 1, by omega⟩
              unfold escalateWithin
              simp only [hf, ha]
              cases hheap : st.heaps[id]? with
              | none => rfl
              | some scope =>
                  simp only
                  have hbelow := h id scope hheap
                  have hle := Nat.le_of_lt_succ hid
                  rw [ih id hid hbelow (Nat.le_trans hle (Nat.le_of_succ_le_succ hn)),
                    ih id hid hbelow hle]

theorem escalateWithin_beside (hc : st.Closed) {hops : Nat} (hd : d.Below st.heaps.size) :
    (st.beside extra fs).escalateWithin pick missing hops d =
      st.escalateWithin pick missing hops d := by
  induction hops generalizing d with
  | zero =>
      unfold escalateWithin
      rfl
  | succ hops ih =>
      unfold escalateWithin
      cases d.frozen.findSome? fun f => pick f.kind with
      | some v => rfl
      | none =>
          cases ha : d.anchor with
          | global id => rfl
          | heap id =>
              have hid := hd id ha
              simp only [heaps_beside hid]
              cases hh : st.heaps[id]? with
              | none => rfl
              | some h =>
                  simp only
                  cases pick h.kind with
                  | some v => rfl
                  | none =>
                      refine ih fun j hj => ?_
                      have := hc.grounded id h hh j hj
                      omega

theorem escalate_beside (hc : st.Closed) (hd : d.Below st.heaps.size) :
    (st.beside extra fs).escalate pick missing d = st.escalate pick missing d := by
  rw [escalate, escalateWithin_beside hc hd]
  refine hc.grounded.escalateWithin_eq hd ?_
  show st.heaps.size ≤ (st.heaps ++ extra).size
  rw [Array.size_append]
  omega

end

/-! ## Listing -/

theorem ownListing_beside (hd : d.Below st.heaps.size) (p : Bool) :
    (st.beside extra fs).ownListing p d = st.ownListing p d := by
  match d with
  | ⟨_ :: _, _⟩ => rfl
  | ⟨[], .heap id⟩ =>
      simp only [ownListing, heaps_beside (hd id rfl)]
      rfl
  | ⟨[], .global _⟩ => rfl

theorem mixinsOf_beside (hd : d.Below st.heaps.size) :
    (st.beside extra fs).mixinsOf d = st.mixinsOf d := by
  rw [mixinsOf, ownListing_beside hd, mixinsOf]

theorem feeds_beside (hc : st.Closed) : (st.beside extra fs).Feeds = st.Feeds := by
  funext inner outer
  unfold Feeds
  refine propext (exists_congr fun d => and_congr_right fun hd => ?_)
  rw [mixinsOf_beside (hc.sources outer d hd)]

theorem symbolsWithin_beside (hc : st.Closed) (p : Bool) {depth : Nat}
    (hd : d.Below st.heaps.size) :
    (st.beside extra fs).symbolsWithin p depth d = st.symbolsWithin p depth d := by
  induction depth generalizing d with
  | zero => rw [symbolsWithin_zero, symbolsWithin_zero, ownListing_beside hd]
  | succ depth ih =>
      rw [symbolsWithin_succ, symbolsWithin_succ, ownListing_beside hd, mixinsOf_beside hd]
      congr 1
      refine List.flatMap_congr fun id _ => ?_
      have hsources : (st.beside extra fs).sources = st.sources := rfl
      unfold sourceWithin
      rw [hsources]
      split
      · next d' hd' => exact ih (hc.sources id d' hd')
      · rfl
      · rfl

theorem sourceSymbols_beside (hc : st.Closed) (p : Bool) (id : SourceId) :
    (st.beside extra fs).sourceSymbols p id = st.sourceSymbols p id := by
  have hsources : (st.beside extra fs).sources = st.sources := rfl
  unfold sourceSymbols
  rw [hsources]
  split
  · next d hd => exact symbolsWithin_beside hc p (hc.sources id d hd)
  · rfl
  · rfl

/-! ## Changing -/

theorem setHeap_beside (hid : id < st.heaps.size) (h : HeapScope) :
    (st.beside extra fs).setHeap id h = (st.setHeap id h).beside extra fs := by
  simp only [setHeap, beside, Array.setIfInBounds_append_left hid]

/-- A scope that was added is changed there. -/
theorem setHeap_beside_ge (hid : st.heaps.size ≤ id) (h : HeapScope) :
    (st.beside extra fs).setHeap id h =
      st.beside (extra.setIfInBounds (id - st.heaps.size) h) fs := by
  simp only [setHeap, beside, Array.setIfInBounds_append_right hid]

theorem addHeap_beside (h : HeapScope) :
    (st.beside extra fs).addHeap h =
      (st.heaps.size + extra.size, st.beside (extra.push h) fs) := by
  simp only [addHeap, beside, Array.size_append, Array.push_append]

theorem createSlot_beside (shape : ShapeId) :
    (st.beside extra fs).createSlot shape s =
      ((st.createSlot shape s).1, (st.createSlot shape s).2.beside extra fs) := by
  have hshapes : (st.beside extra fs).shapes = st.shapes := rfl
  unfold createSlot
  rw [hshapes]
  split
  · rfl
  · split <;> rfl

theorem assignGlobal_beside (id : GlobalId) (v : Value) :
    (st.beside extra fs).assignGlobal id s v =
      ((st.assignGlobal id s v).1, (st.assignGlobal id s v).2.beside extra fs) := by
  have hglobals : (st.beside extra fs).globals = st.globals := rfl
  unfold assignGlobal
  rw [hglobals]
  split
  · rfl
  · split
    · rfl
    · split <;> rfl

theorem declare_beside (hd : d.Below st.heaps.size) (a : Attributes) :
    (st.beside extra fs).declare d s a =
      ((st.declare d s a).1, (st.declare d s a).2.beside extra fs) := by
  match d with
  | ⟨_ :: _, _⟩ => rfl
  | ⟨[], .heap id⟩ =>
      have hid : id < st.heaps.size := hd id rfl
      obtain ⟨h, hh⟩ : ∃ h, st.heaps[id]? = some h := ⟨_, Array.getElem?_eq_getElem hid⟩
      have hh' : (st.beside extra fs).heaps[id]? = some h := (heaps_beside hid).trans hh
      show (st.beside extra fs).declare (.ofHeap id) s a =
        ((st.declare (.ofHeap id) s a).1, (st.declare (.ofHeap id) s a).2.beside extra fs)
      rw [declare_heap hh, declare_heap hh', createSlot_beside]
      have hheaps := st.heaps_createSlot h.shape s
      rcases hc : st.createSlot h.shape s with ⟨fault | i, st₁⟩
      · rfl
      · rw [hc] at hheaps
        simp only
        split
        · rw [setHeap_beside (hheaps ▸ hid)]
        · rfl
  | ⟨[], .global id⟩ =>
      have hglobals : (st.beside extra fs).globals = st.globals := rfl
      simp only [declare, hglobals]
      split
      · rfl
      · split <;> rfl

theorem assignPublic_beside (hd : d.Below st.heaps.size) (v : Value) :
    (st.beside extra fs).assignPublic d s v =
      ((st.assignPublic d s v).1, (st.assignPublic d s v).2.beside extra fs) := by
  match d with
  | ⟨_ :: _, _⟩ => rfl
  | ⟨[], .heap id⟩ =>
      have hid : id < st.heaps.size := hd id rfl
      have hslot : ∀ shape, (st.beside extra fs).slotOf? shape s = st.slotOf? shape s :=
        fun _ => rfl
      simp only [assignPublic, heaps_beside hid, hslot]
      cases st.heaps[id]? with
      | none => rfl
      | some h =>
          simp only
          cases (st.slotOf? h.shape s).bind fun i =>
            (h.members.get? i).map fun slot => (i, slot) with
          | none => rfl
          | some found =>
              obtain ⟨i, slot⟩ := found
              simp only
              cases slot.isPublic with
              | false => rfl
              | true =>
                  cases slot.assign v with
                  | error err => rfl
                  | ok slot => exact congrArg (Prod.mk _) (setHeap_beside hid _)
  | ⟨[], .global id⟩ => exact assignGlobal_beside id v

end Store

namespace SlotRef

/-- The slot is none of a pooled table, and if it is one of a heap scope then of
one of the first `n`. -/
def Below (n : Nat) : SlotRef → Prop
  | .pooled _ _ _ => False
  | .heap id _ _ => id < n
  | _ => True

end SlotRef

namespace Store

variable {st st' : Store} {extra : Array HeapScope} {fs : Functions} {d : DurableScope}
  {s : Symbol} {id : Nat} {slot : SlotRef}

theorem load_beside (hc : st.Closed) (hslot : slot.Below st.heaps.size) :
    (st.beside extra fs).load slot = st.load slot := by
  cases slot with
  | pooled t i x => cases hslot
  | heap id i x => simp only [load, heaps_beside (show id < st.heaps.size from hslot)]
  | frozen f i x => rfl
  | global id x => rfl
  | mixin source x => simp only [load, sourceMember?_beside hc]

theorem assign_beside (hc : st.Closed) (hslot : slot.Below st.heaps.size) (v : Value) :
    (st.beside extra fs).assign slot v =
      ((st.assign slot v).1, (st.assign slot v).2.beside extra fs) := by
  cases slot with
  | pooled t i x => cases hslot
  | heap id i x =>
      have hid : id < st.heaps.size := hslot
      obtain ⟨h, hh⟩ : ∃ h, st.heaps[id]? = some h := ⟨_, Array.getElem?_eq_getElem hid⟩
      have hh' : (st.beside extra fs).heaps[id]? = some h := (heaps_beside hid).trans hh
      rw [assign_heap hh, assign_heap hh']
      split
      · rw [setHeap_beside hid]
      · rfl
  | frozen f i x => rfl
  | global id x => exact assignGlobal_beside id v
  | mixin source x =>
      have hsources : (st.beside extra fs).sources = st.sources := rfl
      simp only [assign, assignSource, hsources]
      split
      · next d hd => exact assignPublic_beside (hc.sources source d hd) v
      · rfl

theorem mixin_beside (hd : d.Below st.heaps.size) (source : SourceId) :
    (st.beside extra fs).mixin d source =
      (st.mixin d source).map fun st' => st'.beside extra fs := by
  match d with
  | ⟨_ :: _, _⟩ => rfl
  | ⟨[], .heap id⟩ =>
      have hid : id < st.heaps.size := hd id rfl
      simp only [mixin, heaps_beside hid]
      cases st.heaps[id]? with
      | none => rfl
      | some h => exact congrArg Except.ok (setHeap_beside hid _)
  | ⟨[], .global id⟩ =>
      have hglobals : (st.beside extra fs).globals = st.globals := rfl
      simp only [mixin, hglobals]
      split <;> rfl

theorem nodeShape_beside (n : NodeId) (v : Visibility) :
    (st.beside extra fs).nodeShape n v =
      ((st.nodeShape n v).1, (st.nodeShape n v).2.beside extra fs) := rfl

/-- A walk from a scope that leads to one of the first heap scopes finds slots
of these and of no pooled table. -/
theorem Grounded.below_of_resolveWithin (h : st.Grounded) {hops n : Nat} (hd : d.Below n)
    (hr : st.resolveWithin s hops d = .ok slot) : slot.Below n := by
  cases slot with
  | pooled t i x => cases isPooled_of_resolveWithin hr
  | heap id i x => exact h.heap_lt hd hr
  | _ => trivial

/-! ## What does not change -/

/-- The heap scopes are as many as they were, with the same scopes around them,
and so are the sources, the functions and the flags. -/
structure Steady (st st' : Store) : Prop where
  heaps : st'.heaps.map (·.previous) = st.heaps.map (·.previous)
  sources : st'.sources = st.sources
  functions : st'.functions = st.functions
  flags : st'.flags = st.flags

theorem Steady.refl (st : Store) : st.Steady st := ⟨rfl, rfl, rfl, rfl⟩

theorem Steady.size (h : st.Steady st') : st'.heaps.size = st.heaps.size := by
  rw [← Array.size_map (f := (·.previous)), h.heaps, Array.size_map]

theorem Steady.setHeap (h : st.Steady st') {x y : HeapScope} (hx : st'.heaps[id]? = some x)
    (hy : y.previous = x.previous) : st.Steady (st'.setHeap id y) := by
  refine ⟨?_, h.sources, h.functions, h.flags⟩
  rw [← h.heaps]
  refine Array.ext_getElem? fun i => ?_
  rw [Array.getElem?_map, Array.getElem?_map, Store.setHeap, Array.getElem?_setIfInBounds]
  split
  · next hi =>
      subst hi
      rw [hx, if_pos (Array.getElem?_eq_some_iff.1 hx).1, Option.map_some, Option.map_some, hy]
  · rfl

theorem steady_createSlot (st : Store) (shape : ShapeId) (s : Symbol) :
    st.Steady (st.createSlot shape s).2 := by
  rcases st.createSlot_cases shape s with ⟨fault, he⟩ | ⟨sh, sh', i, -, -, he⟩
  · rw [he]
    exact .refl st
  · rw [he]
    exact ⟨rfl, rfl, rfl, rfl⟩

theorem steady_assignGlobal (st : Store) (id : GlobalId) (s : Symbol) (v : Value) :
    st.Steady (st.assignGlobal id s v).2 := by
  unfold assignGlobal
  split
  · exact .refl st
  · split
    · exact .refl st
    · split
      · exact .refl st
      · exact ⟨rfl, rfl, rfl, rfl⟩

theorem steady_declare (st : Store) (d : DurableScope) (s : Symbol) (a : Attributes) :
    st.Steady (st.declare d s a).2 := by
  match d with
  | ⟨_ :: _, _⟩ => exact .refl st
  | ⟨[], .heap id⟩ =>
      show st.Steady (st.declare (.ofHeap id) s a).2
      cases hh : st.heaps[id]? with
      | none =>
          simp only [declare, DurableScope.ofHeap, hh]
          exact .refl st
      | some h =>
          have hslot := st.steady_createSlot h.shape s
          have hheaps := st.heaps_createSlot h.shape s
          rw [declare_heap hh]
          rcases hc : st.createSlot h.shape s with ⟨fault | i, st₁⟩
          · rw [hc] at hslot
            exact hslot
          · rw [hc] at hslot hheaps
            have hh₁ : st₁.heaps[id]? = some h := hheaps ▸ hh
            simp only
            split
            · exact hslot.setHeap hh₁ rfl
            · exact hslot
  | ⟨[], .global id⟩ =>
      simp only [declare]
      split
      · exact .refl st
      · split
        · exact .refl st
        · exact ⟨rfl, rfl, rfl, rfl⟩

theorem steady_assignPublic (st : Store) (d : DurableScope) (s : Symbol) (v : Value) :
    st.Steady (st.assignPublic d s v).2 := by
  match d with
  | ⟨_ :: _, _⟩ => exact .refl st
  | ⟨[], .heap id⟩ =>
      simp only [assignPublic]
      split
      · exact .refl st
      · next h hh =>
          split
          · exact .refl st
          · split
            · split
              · exact .refl st
              · exact (Steady.refl st).setHeap hh rfl
            · exact .refl st
  | ⟨[], .global id⟩ => exact st.steady_assignGlobal id s v

theorem steady_assign (st : Store) (slot : SlotRef) (v : Value) :
    st.Steady (st.assign slot v).2 := by
  cases slot with
  | pooled t i x => exact .refl st
  | heap id i x =>
      cases hh : st.heaps[id]? with
      | none =>
          simp only [assign, assignHeap, hh]
          exact .refl st
      | some h =>
          rw [assign_heap hh]
          split
          · exact (Steady.refl st).setHeap hh rfl
          · exact .refl st
  | frozen f i x => exact .refl st
  | global id x => exact st.steady_assignGlobal id x v
  | mixin source x =>
      simp only [assign, assignSource]
      split
      · exact st.steady_assignPublic _ x v
      · exact .refl st

theorem steady_mixin {source : SourceId} (h : st.mixin d source = .ok st') : st.Steady st' := by
  match d with
  | ⟨_ :: _, _⟩ => cases h
  | ⟨[], .heap id⟩ =>
      simp only [mixin] at h
      split at h
      · next x hx =>
          cases h
          exact (Steady.refl st).setHeap hx rfl
      · cases h
        exact .refl st
  | ⟨[], .global id⟩ =>
      simp only [mixin] at h
      split at h
      · cases h
        exact ⟨rfl, rfl, rfl, rfl⟩
      · cases h
        exact .refl st

theorem Grounded.of_previous (hg : st.Grounded)
    (h : st'.heaps.map (·.previous) = st.heaps.map (·.previous)) : st'.Grounded := by
  intro id x hx
  have hprev : (st.heaps.map (·.previous))[id]? = some x.previous := by
    rw [← h, Array.getElem?_map, hx]
    rfl
  rw [Array.getElem?_map] at hprev
  obtain ⟨y, hy, hsame⟩ := Option.map_eq_some_iff.1 hprev
  rw [← hsame]
  exact hg id y hy

theorem Closed.steady (hc : st.Closed) (h : st.Steady st') : st'.Closed where
  grounded := hc.grounded.of_previous h.heaps
  sources := by
    rw [h.sources, h.size]
    exact hc.sources
  closures := by
    rw [h.functions, h.size]
    exact hc.closures

theorem Closed.addSource (hc : st.Closed) {source : MemberSource}
    (h : ∀ d, source = .scope d → d.Below st.heaps.size) : (st.addSource source).2.Closed where
  grounded := hc.grounded
  sources := by
    intro id d hd
    have hd : (st.sources.push source)[id]? = some (.scope d) := hd
    rw [Array.getElem?_push] at hd
    split at hd
    · exact h d (Option.some.inj hd)
    · exact hc.sources id d hd
  closures := hc.closures

theorem develops_nodeShape (st : Store) (n : NodeId) (v : Visibility) :
    st.Develops (st.nodeShape n v).2 := by
  simp only [nodeShape, Shapes.obtain]
  split
  · exact develops_of_shapes_eq rfl
  · constructor
    · intro id sh hsh
      refine ⟨[], [], sh, rfl, ?_⟩
      show (st.shapes.push .empty)[id]? = some sh
      rw [Array.getElem?_push, if_neg (Nat.ne_of_lt (Array.getElem?_eq_some_iff.1 hsh).1)]
      exact hsh
    · intro id sh hnone hsome
      have hsome : (st.shapes.push .empty)[id]? = some sh := hsome
      rw [Array.getElem?_push] at hsome
      split at hsome
      · cases hsome
        exact Shape.made_empty
      · rw [hnone] at hsome
        cases hsome

end Store

end ScriptCore

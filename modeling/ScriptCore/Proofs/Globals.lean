import ScriptCore.Proofs.Operation
import Mathlib.Data.List.Nodup

/-!
# Global scopes

A global scope has no shape: its members are found by symbol, in a list to which
a symbol is added when it is first declared. So a symbol is in the list once,
and what the list says about it is the same whether one looks for the symbol or
goes through all of them.

What an operation can do to the members of one global scope is little. It
declares a symbol there, or it assigns one, which it may reach from outside
through a scope that the global one was mixed into. All else leaves the members
alone.
-/

namespace ScriptCore

/-- Writing back what is there is no change. -/
theorem Array.setIfInBounds_self {α : Type} {xs : Array α} {i : Nat} {x : α}
    (hx : xs[i]? = some x) : xs.setIfInBounds i x = xs := by
  refine Array.ext_getElem? fun j => ?_
  rw [Array.getElem?_setIfInBounds]
  split
  · next hij =>
      subst hij
      rw [if_pos (Array.getElem?_eq_some_iff.1 hx).1, hx]
  · rfl

theorem Store.eq_empty_of_globals {st : Store} (h : st.globals = #[{}]) {id : GlobalId}
    {g : GlobalScope} (hg : st.globals[id]? = some g) : g = {} := by
  rw [h, Array.getElem?_singleton] at hg
  split at hg
  · exact (Option.some.inj hg).symm
  · cases hg

namespace GlobalScope

variable {g : GlobalScope} {s x : Symbol} {slot : Slot}

/-- Replacing a slot leaves the symbols as they are. -/
theorem fst_replace (s : Symbol) (slot : Slot) (m : Symbol × Slot) :
    (if m.1 = s then (s, slot) else m).1 = m.1 := by
  split
  · next hm => exact hm.symm
  · rfl

theorem get?_set (g : GlobalScope) (s : Symbol) (slot : Slot) (x : Symbol) :
    (g.set s slot).get? x = if x = s then some slot else g.get? x := by
  unfold set
  split
  · next hany =>
      have hfind : (g.members.map fun m => if m.1 = s then (s, slot) else m).find?
          (fun m => m.1 = x) = (g.members.find? fun m => m.1 = x).map
            fun m => if m.1 = s then (s, slot) else m := by
        rw [List.find?_map]
        congr 2
        funext m
        simp only [Function.comp, fst_replace]
      simp only [get?, hfind]
      cases hx : g.members.find? fun m => m.1 = x with
      | none =>
          have hne : x ≠ s := by
            rintro rfl
            obtain ⟨m, hm, hs⟩ := List.any_eq_true.1 hany
            exact List.find?_eq_none.1 hx m hm hs
          rw [if_neg hne]
          rfl
      | some m =>
          have hm : m.1 = x := by simpa using List.find?_some hx
          subst hm
          by_cases hs : m.1 = s
          · simp [hs]
          · simp [hs]
  · next hany =>
      have hnone : g.members.find? (fun m => m.1 = s) = none := by
        rw [List.find?_eq_none]
        intro m hm hs
        exact hany (List.any_eq_true.2 ⟨m, hm, hs⟩)
      simp only [get?, List.find?_append]
      by_cases hx : x = s
      · subst hx
        simp [hnone]
      · have hsx : ¬ s = x := fun h => hx h.symm
        simp [hx, hsx]

/-- No symbol is in the list twice. -/
def Distinct (g : GlobalScope) : Prop := (g.members.map Prod.fst).Nodup

theorem Distinct.set (h : g.Distinct) (s : Symbol) (slot : Slot) : (g.set s slot).Distinct := by
  unfold GlobalScope.set
  split
  · show ((g.members.map _).map Prod.fst).Nodup
    rw [List.map_map]
    have hsame : Prod.fst ∘ (fun m : Symbol × Slot => if m.1 = s then (s, slot) else m) =
        Prod.fst := funext (fst_replace s slot)
    rw [hsame]
    exact h
  · next hany =>
      show ((g.members ++ [(s, slot)]).map Prod.fst).Nodup
      rw [List.map_append]
      refine h.append (List.nodup_singleton s) ?_
      simpa using hany

theorem Distinct.get?_eq_some_iff (h : g.Distinct) :
    g.get? s = some slot ↔ (s, slot) ∈ g.members := by
  rw [get?, Option.map_eq_some_iff]
  constructor
  · rintro ⟨m, hm, rfl⟩
    have hs : m.1 = s := by simpa using List.find?_some hm
    exact hs ▸ List.mem_of_find?_eq_some hm
  · intro hmem
    obtain ⟨m, hm⟩ := Option.isSome_iff_exists.1
      (List.find?_isSome.2 ⟨(s, slot), hmem, by simp⟩ :
        (g.members.find? fun m => m.1 = s).isSome)
    have hs : m.1 = s := by simpa using List.find?_some hm
    have hsame : m = (s, slot) :=
      List.inj_on_of_nodup_map h (List.mem_of_find?_eq_some hm) hmem hs
    exact ⟨m, hm, by rw [hsame]⟩

theorem Distinct.mem_symbols (h : g.Distinct) (p : Bool) :
    s ∈ g.symbols p ↔ ∃ slot, g.get? s = some slot ∧ (p || slot.isPublic) = true := by
  rw [symbols, List.mem_mergeSort]
  simp only [h.get?_eq_some_iff, List.mem_map, List.mem_filter, Prod.exists, exists_and_right,
    exists_eq_right]

end GlobalScope

/-! ## What an operation does to them -/

namespace Store

variable {st st' : Store} {id : GlobalId} {g : GlobalScope}

theorem getElem?_setGlobal (hg : st.globals[id]? = some g) (j : GlobalId) (g' : GlobalScope) :
    (st.setGlobal j g').globals[id]? = some (if j = id then g' else g) := by
  rw [setGlobal, Array.getElem?_setIfInBounds]
  split
  · next hj =>
      subst hj
      rw [if_pos (Array.getElem?_eq_some_iff.1 hg).1]
  · exact hg

theorem globals_createSlot (st : Store) (shape : ShapeId) (s : Symbol) :
    (st.createSlot shape s).2.globals = st.globals := by
  unfold createSlot
  split
  · rfl
  · split <;> rfl

/-- A constant is not declared again; anything else is declared afresh. -/
theorem declare_global (hg : st.globals[id]? = some g) (s : Symbol) (a : Attributes) :
    st.declare (.ofGlobal id) s a =
      if ((g.get? s).getD .undeclared).isConst then
        (.raised (ErrorKind.duplicateDeclaration s), st)
      else (.done (.global id s), st.setGlobal id (g.set s (Slot.undeclared.declare a))) := by
  simp only [declare, DurableScope.ofGlobal, hg]
  rfl

theorem assignGlobal_of_some {slot : Slot} {s : Symbol} (hg : st.globals[id]? = some g)
    (hs : g.get? s = some slot) (v : Value) :
    st.assignGlobal id s v =
      match slot.assign v with
      | .error e => (.raised (ErrorKind.ofAssign s e), st)
      | .ok slot => (.done (), st.setGlobal id (g.set s slot)) := by
  cases hslot : slot.assign v <;> simp only [assignGlobal, hg, hs, hslot]

/-- The slot is that of a global member, in its own scope or mixed in from it. -/
def LeadsTo (st : Store) (slot : SlotRef) (id : GlobalId) (s : Symbol) : Prop :=
  slot = .global id s ∨
    ∃ source, slot = .mixin source s ∧ st.sources[source]? = some (.scope (.ofGlobal id))

theorem LeadsTo.assign_eq {slot : SlotRef} {s : Symbol} (h : st.LeadsTo slot id s) (v : Value) :
    st.assign slot v = st.assignGlobal id s v := by
  rcases h with rfl | ⟨source, rfl, hsource⟩
  · rfl
  · simp only [assign, assignSource, hsource, assignPublic, DurableScope.ofGlobal]

theorem LeadsTo.engine_assign_eq {slot : SlotRef} {s : Symbol} {f : Frame}
    (h : st.LeadsTo slot id s) (v : Value) :
    Engine.assign ⟨st, f⟩ slot v =
      ((st.assignGlobal id s v).1, ⟨(st.assignGlobal id s v).2, f⟩) := by
  rw [← h.assign_eq v]
  rcases h with rfl | ⟨source, rfl, -⟩ <;> rfl

end Store

theorem DurableScope.eq_ofGlobal {d : DurableScope} {id : GlobalId} (hfrozen : d.frozen = [])
    (hanchor : d.anchor = .global id) : d = .ofGlobal id := by
  cases d
  cases hfrozen
  cases hanchor
  rfl

namespace Store

variable {st st' : Store} {id : GlobalId}

theorem globals_declare (st : Store) (d : DurableScope) (s : Symbol) (a : Attributes) :
    (st.declare d s a).2.globals = st.globals ∨ ∃ id, d = .ofGlobal id := by
  unfold declare
  split
  · exact .inl rfl
  · refine .inl ?_
    split
    · rfl
    · next h _ =>
        have hshape := st.globals_createSlot h.shape s
        split
        · next he =>
            rw [he] at hshape
            exact hshape
        · next he =>
            rw [he] at hshape
            split
            · exact hshape
            · dsimp only
              split <;> exact hshape
  · next hfrozen hanchor => exact .inr ⟨_, DurableScope.eq_ofGlobal hfrozen hanchor⟩

theorem globals_assign (st : Store) (slot : SlotRef) (v : Value) :
    (st.assign slot v).2.globals = st.globals ∨ ∃ id s, st.LeadsTo slot id s := by
  cases slot with
  | pooled t i s => exact .inl rfl
  | frozen f i s => exact .inl rfl
  | global id s => exact .inr ⟨id, s, .inl rfl⟩
  | heap id i s =>
      refine .inl ?_
      show (st.assignHeap id i s v).2.globals = st.globals
      unfold assignHeap
      split
      · rfl
      · split
        · rfl
        · dsimp only
          split <;> rfl
  | mixin source s =>
      show (st.assignSource source s v).2.globals = st.globals ∨ _
      unfold assignSource
      split
      · next d hd =>
          unfold assignPublic
          split
          · exact .inl rfl
          · next id hfrozen hanchor =>
              rw [DurableScope.eq_ofGlobal hfrozen hanchor] at hd
              exact .inr ⟨id, s, .inr ⟨source, rfl, hd⟩⟩
          · refine .inl ?_
            split
            · rfl
            · split
              · rfl
              · split
                · split <;> rfl
                · rfl
      · exact .inl rfl

theorem globals_mixin {d : DurableScope} {source : SourceId} (h : st.mixin d source = .ok st') :
    st'.globals = st.globals ∨ ∃ (id : GlobalId) (g : GlobalScope), st.globals[id]? = some g ∧
      st' = st.setGlobal id { g with mixins := g.mixins ++ [source] } := by
  unfold mixin at h
  split at h
  · cases h
  · split at h <;> cases h <;> exact .inl rfl
  · next id _ _ =>
      split at h
      · next g hg =>
          cases h
          exact .inr ⟨id, g, hg, rfl⟩
      · cases h
        exact .inl rfl

end Store

namespace Op

/-- What an operation makes of a global scope: its members are as they were, or
one was declared, or one was assigned. -/
inductive Remakes (e : Engine) (id : GlobalId) (g : GlobalScope) : Op → GlobalScope → Prop
  | keeps (o : Op) {g' : GlobalScope} (hsame : g'.members = g.members) : Remakes e id g o g'
  | declare (s : Symbol) (a : Attributes)
      (hnew : ((g.get? s).getD .undeclared).isConst = false) :
      Remakes e id g (.declare (.ofGlobal id) s a) (g.set s (Slot.undeclared.declare a))
  | assign {slot : SlotRef} {s : Symbol} {x x' : Slot} {v : Value}
      (hslot : e.store.LeadsTo slot id s) (hs : g.get? s = some x) (hassign : x.assign v = .ok x') :
      Remakes e id g (.assign slot v) (g.set s x')

/-- An operation of the frame changes one global scope at most. -/
theorem globals_perform (e : Engine) (o : Op) (hshare : ∀ st, o ≠ .share st) :
    (o.perform e).store.globals = e.store.globals ∨
      ∃ (id : GlobalId) (g g' : GlobalScope), e.store.globals[id]? = some g ∧
        (o.perform e).store.globals = e.store.globals.setIfInBounds id g' ∧
        Remakes e id g o g' := by
  obtain ⟨store, frame⟩ := e
  cases o with
  | declare r s a =>
      show (Engine.declare ⟨store, frame⟩ r s a).2.store.globals = store.globals ∨ _
      cases r with
      | durable d =>
          rcases store.globals_declare d s a with hsame | ⟨id, rfl⟩
          · exact .inl hsame
          · cases hg : store.globals[id]? with
            | none =>
                refine .inl ?_
                simp only [Engine.declare, Store.declare, DurableScope.ofGlobal, hg]
            | some g =>
                have hdeclare := Store.declare_global hg s a
                by_cases hconst : ((g.get? s).getD .undeclared).isConst
                · rw [if_pos hconst] at hdeclare
                  refine .inl ?_
                  simp only [Engine.declare, hdeclare]
                · rw [if_neg hconst] at hdeclare
                  refine .inr ⟨id, g, _, hg, ?_, .declare s a (by simpa using hconst)⟩
                  simp only [perform, Engine.declare, hdeclare, Store.setGlobal]
      | pooled k =>
          refine .inl ?_
          simp only [Engine.declare]
          split
          · rfl
          · next own _ =>
              have hshape := store.globals_createSlot own.shape s
              split
              · next he =>
                  rw [he] at hshape
                  exact hshape
              · next he =>
                  rw [he] at hshape
                  split
                  · exact hshape
                  · split
                    · exact hshape
                    · split <;> exact hshape
  | assign slot v =>
      show (Engine.assign ⟨store, frame⟩ slot v).2.store.globals = store.globals ∨ _
      rcases store.globals_assign slot v with hsame | ⟨id, s, hslot⟩
      · refine .inl ?_
        cases slot with
        | pooled t i s =>
            simp only [Engine.assign]
            split
            · rfl
            · split
              · rfl
              · split <;> rfl
        | _ => exact hsame
      · have hassign := hslot.engine_assign_eq (f := frame) v
        cases hg : store.globals[id]? with
        | none =>
            refine .inl ?_
            rw [hassign]
            simp only [Store.assignGlobal, hg]
        | some g =>
            cases hs : g.get? s with
            | none =>
                refine .inl ?_
                rw [hassign]
                simp only [Store.assignGlobal, hg, hs]
            | some x =>
                have hglobal := Store.assignGlobal_of_some hg hs v
                cases hx : x.assign v with
                | error err =>
                    refine .inl ?_
                    rw [hassign, hglobal, hx]
                | ok x' =>
                    refine .inr ⟨id, g, _, hg, ?_, .assign hslot hs hx⟩
                    simp only [perform, hassign, hglobal, hx, Store.setGlobal]
  | mixin r source =>
      show (Engine.mixin ⟨store, frame⟩ r source).2.store.globals = store.globals ∨ _
      unfold Engine.mixin
      split
      · next d =>
          split
          · exact .inl rfl
          · next st hst =>
              rcases Store.globals_mixin hst with hsame | ⟨id, g, hg, hset⟩
              · exact .inl hsame
              · refine .inr ⟨id, g, { g with mixins := g.mixins ++ [store.sources.size] }, hg, ?_,
                  .keeps _ rfl⟩
                simp only [perform, Engine.mixin, hst, hset]
                rfl
      · split <;> exact .inl rfl
  | setLine r line =>
      refine .inl ?_
      show (Engine.setLine ⟨store, frame⟩ r line).2.store.globals = store.globals
      unfold Engine.setLine
      split
      · rfl
      · cases r <;> rfl
  | share st => exact absurd rfl (hshare st)
  | _ => exact .inl rfl

/-- The same, for one global scope. -/
theorem global_perform {e : Engine} {o : Op} {id : GlobalId} {g : GlobalScope}
    (hshare : ∀ st, o ≠ .share st) (hg : e.store.globals[id]? = some g) :
    ∃ g', (o.perform e).store.globals[id]? = some g' ∧ Remakes e id g o g' := by
  rcases globals_perform e o hshare with hsame | ⟨j, x, x', hx, hset, hremakes⟩
  · exact ⟨g, by rw [hsame]; exact hg, .keeps o rfl⟩
  · rw [hset, Array.getElem?_setIfInBounds]
    by_cases hj : j = id
    · subst hj
      rw [hg] at hx
      cases hx
      rw [if_pos rfl, if_pos (Array.getElem?_eq_some_iff.1 hg).1]
      exact ⟨x', rfl, hremakes⟩
    · rw [if_neg hj]
      exact ⟨g, hg, .keeps o rfl⟩

end Op

/-! ## Distinct symbols -/

namespace Store

/-- In no global scope is a symbol listed twice. -/
def Distinct (st : Store) : Prop :=
  ∀ (id : GlobalId) g, st.globals[id]? = some g → g.Distinct

end Store

theorem Op.Remakes.distinct {e : Engine} {id : GlobalId} {g g' : GlobalScope} {o : Op}
    (h : Remakes e id g o g') (hg : g.Distinct) : g'.Distinct := by
  cases h with
  | keeps _ hsame =>
      show (g'.members.map Prod.fst).Nodup
      rw [hsame]
      exact hg
  | declare s a _ => exact hg.set s _
  | assign _ _ _ => exact hg.set _ _

/-- What every remaking of a global scope preserves holds of all of them after an
operation. -/
theorem Op.globals_preserve {P : GlobalScope → Prop} {e : Engine} {o : Op}
    (hremakes : ∀ {id g g'}, Remakes e id g o g' → P g → P g')
    (h : ∀ (id : GlobalId) g, e.store.globals[id]? = some g → P g)
    (hshare : ∀ st, o = .share st → ∀ (id : GlobalId) g, st.globals[id]? = some g → P g) :
    ∀ (id : GlobalId) g, (o.perform e).store.globals[id]? = some g → P g := by
  by_cases ho : ∃ st, o = .share st
  · obtain ⟨st, rfl⟩ := ho
    exact hshare st rfl
  · intro id g' hg'
    rcases globals_perform e o fun st hst => ho ⟨st, hst⟩ with
      hsame | ⟨j, x, x', hx, hset, hremade⟩
    · rw [hsame] at hg'
      exact h id g' hg'
    · rw [hset, Array.getElem?_setIfInBounds] at hg'
      split at hg'
      · split at hg'
        · cases hg'
          exact hremakes hremade (h j x hx)
        · cases hg'
      · exact h id g' hg'

end ScriptCore

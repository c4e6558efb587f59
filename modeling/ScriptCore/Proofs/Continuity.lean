import ScriptCore.Proofs.Beside

/-!
# What no operation takes back

Members come and go, but some things about the shared state last. A heap scope
stays enclosed by what enclosed it when it was made, and a source of mixed-in
members stays at its position, since further sources go behind it. So a chain
that leaves the frame is the same later on, and a slot that was found through a
mixin still names the source it was found in. The termination flags are not a
frame's business at all: it reads its own and changes none.

Shared state also changes behind the back of a frame, when something else
works on it; of that, what is kept is assumed.
-/

namespace ScriptCore

namespace Store

variable {st st' st'' : Store}

/-- Heap scopes stay where they are in their chains, sources where they are in
the list, and flags as they are. -/
structure Continues (st st' : Store) : Prop where
  previous : st'.heaps.map (·.previous) = st.heaps.map (·.previous)
  sources : ∀ (id : SourceId) (source : MemberSource),
    st.sources[id]? = some source → st'.sources[id]? = some source
  flags : st'.flags = st.flags

theorem Continues.refl (st : Store) : st.Continues st := ⟨rfl, fun _ _ h => h, rfl⟩

theorem Continues.trans (h : st.Continues st') (h' : st'.Continues st'') : st.Continues st'' :=
  ⟨h'.previous.trans h.previous,
    fun id source hid => h'.sources id source (h.sources id source hid), h'.flags.trans h.flags⟩

theorem Steady.continues (h : st.Steady st') : st.Continues st' :=
  ⟨h.heaps, fun _ _ hid => h.sources ▸ hid, h.flags⟩

theorem continues_addSource (st : Store) (source : MemberSource) :
    st.Continues (st.addSource source).2 := by
  refine ⟨rfl, fun id source' hid => ?_, rfl⟩
  have hlt := (Array.getElem?_eq_some_iff.1 hid).1
  show (st.sources.push source)[id]? = some source'
  rw [Array.getElem?_push, if_neg (Nat.ne_of_lt hlt)]
  exact hid

end Store

/-! ## Operations -/

namespace Engine

variable {e : Engine}

theorem continues_declare (e : Engine) (r : ScopeRef) (s : Symbol) (a : Attributes) :
    e.store.Continues (e.declare r s a).2.store := by
  obtain ⟨store, frame⟩ := e
  unfold declare
  split
  · exact (store.steady_declare _ s a).continues
  · split
    · exact .refl store
    · next own _ =>
        have hcreate := (store.steady_createSlot own.shape s).continues
        dsimp only
        split
        · next fault st' he =>
            rw [he] at hcreate
            exact hcreate
        · next i st' he =>
            rw [he] at hcreate
            split
            · exact hcreate
            · split
              · exact hcreate
              · split <;> exact hcreate

theorem continues_assign (e : Engine) (ref : SlotRef) (v : Value) :
    e.store.Continues (e.assign ref v).2.store := by
  obtain ⟨store, frame⟩ := e
  unfold assign
  split
  · split
    · exact .refl store
    · dsimp only
      split
      · exact .refl store
      · split <;> exact .refl store
  · exact (store.steady_assign _ v).continues

theorem continues_mixin (e : Engine) (r : ScopeRef) (source : MemberSource) :
    e.store.Continues (e.mixin r source).2.store := by
  unfold mixin
  split
  · split
    · exact .refl e.store
    · next st' hst =>
        exact (Store.steady_mixin hst).continues.trans (st'.continues_addSource source)
  · split
    · exact .refl e.store
    · exact e.store.continues_addSource source

theorem setLine_store (e : Engine) (r : Option ScopeRef) (line : UInt32) :
    (e.setLine r line).2.store = e.store := by
  obtain ⟨store, frame⟩ := e
  unfold setLine
  split
  · rfl
  · cases r <;> rfl

end Engine

namespace Op

variable {e : Engine} {o : Op}

theorem continues_perform (e : Engine) (ho : ∀ st, o ≠ .share st) :
    e.store.Continues (o.perform e).store := by
  cases o with
  | declare r s a => exact e.continues_declare r s a
  | assign ref v => exact e.continues_assign ref v
  | mixin r source => exact e.continues_mixin r source
  | setLine r line =>
      show e.store.Continues (e.setLine r line).2.store
      rw [e.setLine_store r line]
      exact .refl e.store
  | share st => exact absurd rfl (ho st)
  | _ => exact .refl e.store

end Op

namespace Machine

variable {m : Machine} {os : List Op}

/-- What lasts as the shared state continues, and holds of what is put in its
place from elsewhere, lasts. -/
theorem lasts_run {P : Store → Prop} (hstep : ∀ st st' : Store, st.Continues st' → P st → P st')
    (h : P m.engine.store) (hshare : ∀ st, .share st ∈ os → P st) :
    P (m.run os).engine.store := by
  induction os generalizing m with
  | nil => exact h
  | cons o os ih =>
      refine ih ?_ fun st hst => hshare st (List.mem_cons_of_mem o hst)
      by_cases ho : ∃ st, o = .share st
      · obtain ⟨st, rfl⟩ := ho
        exact hshare st List.mem_cons_self
      · exact hstep _ _ (o.continues_perform m.engine fun st hst => ho ⟨st, hst⟩) h

theorem grounded_run (h : m.engine.store.Grounded)
    (hshare : ∀ st, .share st ∈ os → st.Grounded) : (m.run os).engine.store.Grounded :=
  lasts_run (fun _ _ hcont hg => hg.of_previous hcont.previous) h hshare

end Machine

end ScriptCore

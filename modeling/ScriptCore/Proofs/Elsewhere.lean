import ScriptCore.Proofs.Blocks

/-!
# Work elsewhere

An operation that is not addressed to a block leaves its shape and its slots
alone for as long as the block is there. For a block of a frame this is a matter
of who owns what: its table belongs to the scope, so it is in nobody's hands,
and no other scope has the same one. For a block on the heap it is a matter of
positions, since each operation writes at the position it was given.
-/

namespace ScriptCore

/-- What an operation asks of the members of the block. -/
def Block.addressed? (b : Block) (e : Engine) : Op → Option MemberAct
  | .declare r s a => if b.isAt r then some (.declare s a) else none
  | .assign slot v =>
    if b.holds slot then some (.assign slot.symbol v)
    else if b.feeds e slot then some (.assignPublic slot.symbol v)
    else none
  | _ => none

theorem Block.addressed?_declare {b : Block} {e : Engine} {r : ScopeRef} {s : Symbol}
    {a : Attributes} (h : b.addressed? e (.declare r s a) = none) : r ≠ b.scope := by
  rintro rfl
  rw [addressed?, if_pos (isAt_iff.2 rfl)] at h
  cases h

theorem Block.addressed?_assign {b : Block} {e : Engine} {slot : SlotRef} {v : Value}
    (h : b.addressed? e (.assign slot v) = none) : ¬ b.holds slot ∧ ¬ b.feeds e slot := by
  simp only [addressed?] at h
  split at h
  · cases h
  · next hholds =>
      split at h
      · cases h
      · next hfeeds => exact ⟨hholds, hfeeds⟩

theorem DurableScope.eq_ofHeap {d : DurableScope} {id : Nat} (hfrozen : d.frozen = [])
    (hanchor : d.anchor = .heap id) : d = .ofHeap id := by
  cases d
  cases hfrozen
  cases hanchor
  rfl

namespace Store

variable {st st' : Store} {id : Nat}

/-- The heap scope, if it is there, keeps its shape and its slots. -/
def KeepsHeap (st st' : Store) (id : HeapId) : Prop :=
  ∀ h, st.heaps[id]? = some h →
    ∃ h', st'.heaps[id]? = some h' ∧ h'.shape = h.shape ∧ h'.members = h.members

theorem keepsHeap_of_heaps_eq (h : st'.heaps = st.heaps) : st.KeepsHeap st' id := fun x hx =>
  ⟨x, h ▸ hx, rfl, rfl⟩

theorem KeepsHeap.refl (st : Store) (id : HeapId) : st.KeepsHeap st id := keepsHeap_of_heaps_eq rfl

theorem keepsHeap_setHeap {j : Nat} (hj : j ≠ id) (h : HeapScope) :
    st.KeepsHeap (st.setHeap j h) id := by
  intro x hx
  refine ⟨x, ?_, rfl, rfl⟩
  rw [setHeap, Array.getElem?_setIfInBounds, if_neg hj]
  exact hx

theorem keepsHeap_declare {d : DurableScope} (hd : d ≠ .ofHeap id) (s : Symbol) (a : Attributes) :
    st.KeepsHeap (st.declare d s a).2 id := by
  unfold declare
  split
  · exact .refl st id
  · next j hfrozen hanchor =>
      have hj : j ≠ id := fun hj => hd (hj ▸ DurableScope.eq_ofHeap hfrozen hanchor)
      split
      · exact .refl st id
      · next h _ =>
          have hheaps := st.heaps_createSlot h.shape s
          split
          · next fault st₁ he =>
              rw [he] at hheaps
              exact keepsHeap_of_heaps_eq hheaps
          · next i st₁ he =>
              rw [he] at hheaps
              have hset : ∀ h', st.KeepsHeap (st₁.setHeap j h') id := by
                intro h' x hx
                exact keepsHeap_setHeap hj h' x (hheaps ▸ hx)
              split
              · exact keepsHeap_of_heaps_eq hheaps
              · dsimp only
                split
                · exact hset _
                · exact hset _
  · split
    · exact .refl st id
    · dsimp only
      split
      · exact .refl st id
      · exact keepsHeap_of_heaps_eq rfl

theorem heaps_assignGlobal (st : Store) (g : GlobalId) (s : Symbol) (v : Value) :
    (st.assignGlobal g s v).2.heaps = st.heaps := by
  unfold assignGlobal
  split
  · rfl
  · split
    · rfl
    · split <;> rfl

theorem keepsHeap_assignPublic {d : DurableScope} (hd : d ≠ .ofHeap id) (s : Symbol) (v : Value) :
    st.KeepsHeap (st.assignPublic d s v).2 id := by
  unfold assignPublic
  split
  · exact .refl st id
  · exact keepsHeap_of_heaps_eq (heaps_assignGlobal st _ s v)
  · next j hfrozen hanchor =>
      have hj : j ≠ id := fun hj => hd (hj ▸ DurableScope.eq_ofHeap hfrozen hanchor)
      split
      · exact .refl st id
      · split
        · exact .refl st id
        · split
          · split
            · exact .refl st id
            · exact keepsHeap_setHeap hj _
          · exact .refl st id

theorem keepsHeap_assign {slot : SlotRef} (hslot : ∀ i s, slot ≠ .heap id i s)
    (hsource : ∀ source s, slot = .mixin source s →
      st.sources[source]? ≠ some (.scope (.ofHeap id))) (v : Value) :
    st.KeepsHeap (st.assign slot v).2 id := by
  cases slot with
  | heap j i s =>
      have hj : j ≠ id := by
        rintro rfl
        exact hslot i s rfl
      show st.KeepsHeap (st.assignHeap j i s v).2 id
      unfold assignHeap
      split
      · exact .refl st id
      · split
        · exact .refl st id
        · dsimp only
          split
          · exact keepsHeap_setHeap hj _
          · exact keepsHeap_setHeap hj _
  | frozen f i s => exact .refl st id
  | global g s => exact keepsHeap_of_heaps_eq (heaps_assignGlobal st g s v)
  | mixin source s =>
      show st.KeepsHeap (st.assignSource source s v).2 id
      unfold assignSource
      split
      · next d hd =>
          refine keepsHeap_assignPublic ?_ s v
          rintro rfl
          exact hsource source s rfl hd
      · exact .refl st id
  | pooled t i s => exact .refl st id

theorem keepsHeap_mixin {d : DurableScope} {source : SourceId} (h : st.mixin d source = .ok st') :
    st.KeepsHeap st' id := by
  unfold mixin at h
  split at h
  · cases h
  · next j _ _ =>
      split at h
      · next x hx =>
          cases h
          intro y hy
          by_cases hj : j = id
          · subst hj
            rw [hx] at hy
            cases hy
            exact ⟨_, getElem?_setHeap hx _, rfl, rfl⟩
          · exact keepsHeap_setHeap hj _ y hy
      · cases h
        exact .refl st id
  · split at h
    · cases h
      exact keepsHeap_of_heaps_eq rfl
    · cases h
      exact .refl st id

end Store

/-- Whatever is not addressed to a heap scope leaves its members alone. -/
theorem Op.keepsHeap_perform {e : Engine} {o : Op} {id : Nat}
    (hother : (Block.heap id).addressed? e o = none)
    (hshare : ∀ st, o = .share st → e.store.KeepsHeap st id) :
    e.store.KeepsHeap (o.perform e).store id := by
  cases o with
  | declare r s a =>
      have hat := Block.addressed?_declare hother
      show e.store.KeepsHeap (e.declare r s a).2.store id
      obtain ⟨store, frame⟩ := e
      cases r with
      | durable d =>
          refine Store.keepsHeap_declare ?_ s a
          rintro rfl
          exact hat rfl
      | pooled k =>
          simp only [Engine.declare]
          split
          · exact .refl store id
          · next own _ =>
              have hheaps := store.heaps_createSlot own.shape s
              split
              · next fault st he =>
                  rw [he] at hheaps
                  exact Store.keepsHeap_of_heaps_eq hheaps
              · next i st he =>
                  rw [he] at hheaps
                  split
                  · exact Store.keepsHeap_of_heaps_eq hheaps
                  · split
                    · exact Store.keepsHeap_of_heaps_eq hheaps
                    · split <;> exact Store.keepsHeap_of_heaps_eq hheaps
  | assign slot v =>
      obtain ⟨hholds, hfeeds⟩ := Block.addressed?_assign hother
      show e.store.KeepsHeap (e.assign slot v).2.store id
      have hslot : ∀ i s, slot ≠ .heap id i s := by
        intro i s hslot
        exact hholds (Block.holds_iff.2 ⟨i, s, hslot⟩)
      have hsource : ∀ source s, slot = .mixin source s →
          e.store.sources[source]? ≠ some (.scope (.ofHeap id)) := by
        intro source s hslot hsource
        exact hfeeds (Block.feeds_iff.2 ⟨source, s, _, hslot, hsource, rfl⟩)
      obtain ⟨store, frame⟩ := e
      cases slot with
      | pooled t i s =>
          simp only [Engine.assign]
          split
          · exact .refl store id
          · split
            · exact .refl store id
            · split <;> exact .refl store id
      | _ => exact Store.keepsHeap_assign hslot hsource v
  | mixin r source =>
      show e.store.KeepsHeap (e.mixin r source).2.store id
      unfold Engine.mixin
      split
      · split
        · exact .refl e.store id
        · next st hst =>
            have hkeeps : e.store.KeepsHeap st id := Store.keepsHeap_mixin hst
            exact hkeeps
      · split
        · exact .refl e.store id
        · exact Store.keepsHeap_of_heaps_eq rfl
  | setLine r line =>
      show e.store.KeepsHeap (e.setLine r line).2.store id
      obtain ⟨store, frame⟩ := e
      unfold Engine.setLine
      split
      · exact .refl store id
      · cases r <;> exact .refl store id
  | share st => exact hshare st rfl
  | _ => exact .refl e.store id

namespace Op

theorem table?_eq_some {o : Op} {t : PoolKey} (h : o.table? = some t) :
    (∃ h, o.consumes? = some h ∧ h.key = t) ∨ (∃ c, o = .editTable t c) ∨
      ∃ i s v, o = .assign (.pooled t i s) v := by
  cases o with
  | allocateFunction binding previous shape h' =>
      cases h
      exact .inl ⟨h', rfl, rfl⟩
  | freeTable h' =>
      cases h
      exact .inl ⟨h', rfl, rfl⟩
  | takeTable h' =>
      cases h
      exact .inl ⟨h', rfl, rfl⟩
  | editTable t' c =>
      cases h
      exact .inr (.inl ⟨c, rfl⟩)
  | assign slot v =>
      cases slot with
      | pooled t' i s =>
          cases h
          exact .inr (.inr ⟨i, s, v, rfl⟩)
      | _ => cases h
  | _ => cases h

end Op

namespace Machine

/-- What an operation does with state that is not its own. A table that is not
in a scope is edited by the one who holds it. What happens elsewhere to shared
state develops the shapes and may add to the heap, and the members of the
scopes on the heap are worked on by operations of the run. -/
structure Respects (m : Machine) (o : Op) : Prop where
  held : ∀ t c, o = .editTable t c →
    ∃ h ∈ m.held, h.key = t ∧ m.tableReleases t.index < h.issued + 4294967296
  develops : ∀ st, o = .share st → m.engine.store.Develops st
  heaps : ∀ st, o = .share st → ∀ id, m.engine.store.KeepsHeap st id

variable {m : Machine} {o : Op} {base : Nat} {k : PoolKey} {own : PooledScope}

/-- A scope that is not taken back keeps its shape and its table. -/
theorem Owned.scope?_after (hw : (m.after o).Owned) (hm : m.Tracked)
    (hown : m.engine.frame.scope? k = some own)
    (hlast : (m.after o).scopeReleases k.index = m.scopeReleases k.index) :
    ∃ own', (m.after o).engine.frame.scope? k = some own' ∧ own'.shape = own.shape ∧
      own'.members = own.members := by
  obtain ⟨item, hitem, -⟩ := Option.bind_eq_some_iff.1 hown
  obtain ⟨x, hx, -⟩ := Pool.get?_eq_some.1 hitem
  have hstep : (m.after o).scopeReleases k.index = m.scopeReleases k.index +
    m.engine.frame.scopes.recycled (o.perform m.engine).frame.scopes k.index := rfl
  obtain ⟨y, hy⟩ := (o.moves_perform m.engine).scopes.entry?_of_not_recycled hx (by omega)
  have hbooks : (m.after o).engine.frame.books.scopes k =
      some (y.depth, y.item.map (·.members)) := by
    show ((o.perform m.engine).frame.scopes.entry? k).map _ = _
    rw [hy]
    rfl
  obtain ⟨d, t, hv⟩ := hw.kept.scope k _ hbooks
  obtain ⟨own', hown', -⟩ := Option.map_eq_some_iff.1 (congrArg Prod.snd hv)
  have hafter : (m.after o).engine.frame.scope? k = some own' := by
    show ((o.perform m.engine).frame.scopes.get? k).bind id = _
    rw [Pool.get?, hy]
    exact hown'
  rcases Op.scope?_perform hm.sound hafter with ⟨own₀, hown₀, hsame⟩ | ⟨hnew, -⟩
  · rw [hown] at hown₀
    cases hown₀
    exact ⟨own', hafter, by rw [hsame], by rw [hsame]⟩
  · rw [Op.newScope?_fresh hm.sound hnew] at hx
    cases hx

/-- The table of a scope is in nobody's hands. -/
theorem Owned.table?_ne (hw : m.Owned) (hm : m.Tracked) (ho : Allows base m o)
    (hr : m.Respects o) (hown : m.engine.frame.scope? k = some own)
    (hassign : ∀ i s v, o ≠ .assign (.pooled own.members i s) v) :
    o.table? ≠ some own.members := by
  intro htable
  obtain ⟨d, hd⟩ := Frame.scopes_books_of_scope? hown
  -- a table that somebody holds is on the list of a depth, and this one is on none
  obtain ⟨hnone, -⟩ := hw.kept.members k d own.members hd
  rcases Op.table?_eq_some htable with ⟨h, hc, hkey⟩ | ⟨c, rfl⟩ | ⟨i, s, v, rfl⟩
  · have hfree := hw.unclaimed hm ho hc (by rw [hkey, hnone]; rfl)
    rw [hkey] at hfree
    exact hfree.2 k d hd
  · obtain ⟨h, hh, hkey, hyoung⟩ := hr.held _ c rfl
    rw [← hkey] at hyoung hnone
    have hlive : (m.engine.frame.tables.entry? h.key).isSome :=
      (isSome_entry?_iff _).2 (by rw [hnone]; rfl)
    have hcur := (hw.held h hh).current hm.tableCounts hyoung hlive
    obtain ⟨-, d', hd'⟩ := hw.listed h hh hcur
    rw [hnone] at hd'
    cases hd'
  · exact hassign i s v rfl

theorem Owned.sole (hw : m.Owned) {k' : PoolKey} {own' : PooledScope}
    (hown : m.engine.frame.scope? k = some own) (hown' : m.engine.frame.scope? k' = some own')
    (hmembers : own.members = own'.members) : k = k' := by
  obtain ⟨d, hd⟩ := Frame.scopes_books_of_scope? hown
  obtain ⟨d', hd'⟩ := Frame.scopes_books_of_scope? hown'
  rw [hmembers] at hd
  exact hw.kept.sole k k' d d' _ hd hd'

end Machine

namespace Block

/-- The block was not given back between the two. -/
def Lasts (b : Block) (m m' : Machine) : Prop :=
  match b with
  | pooled k _ => m'.scopeReleases k.index = m.scopeReleases k.index
  | heap _ => True

/-- Whatever is not addressed to a block leaves its members alone. -/
theorem Has.after_other {b : Block} {m : Machine} {o : Op} {base : Nat} {shape : ShapeId}
    {t : MemberTable} (h : b.Has m.engine shape t) (hm : m.Tracked) (hw : m.Owned)
    (ho : Machine.Allows base m o) (hr : m.Respects o) (hlast : b.Lasts m (m.after o))
    (hother : b.addressed? m.engine o = none) : b.Has (m.after o).engine shape t := by
  cases b with
  | pooled k table =>
      obtain ⟨own, hown, rfl, rfl, ht⟩ := h
      have hw' := hw.after hm ho
      obtain ⟨own', hown', hshape, hmembers⟩ := hw'.scope?_after hm hown hlast
      -- its scope is live after the operation, so the table is too
      obtain ⟨t', ht'⟩ := Option.isSome_iff_exists.1
        ((Frame.ownership_of_kept hw'.kept).members k own' hown')
      rw [hmembers] at ht'
      have hsame : t' = t := by
        refine Op.getTable_perform hm.sound ht ht' (hw.table?_ne hm ho hr hown ?_) ?_
        · rintro i s v rfl
          exact (addressed?_assign hother).1 (holds_iff.2 ⟨i, s, rfl⟩)
        · rintro k' s a own₁ rfl hown₁ hmembers₁
          have hk := hw.sole hown₁ hown hmembers₁
          exact addressed?_declare hother (hk ▸ rfl)
      exact ⟨own', hown', hshape, hmembers, hsame ▸ ht'⟩
  | heap id =>
      obtain ⟨h, hh, rfl, rfl⟩ := h
      obtain ⟨h', hh', hshape, hmembers⟩ :=
        Op.keepsHeap_perform hother (fun st hst => hr.heaps st hst id) h hh
      exact ⟨h', hh', hshape, hmembers⟩

end Block

end ScriptCore

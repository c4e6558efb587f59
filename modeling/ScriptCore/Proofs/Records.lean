import ScriptCore.Proofs.Gate
import ScriptCore.Proofs.Lineage

/-!
# What is recorded of a scope while it lives

A pooled scope is given its depth and its table when it is made, and neither
changes afterwards: an operation may give the scope back, but not hand its table
to another scope, nor move it to another depth. So a scope that a run does not
give back has the record it had, and a table that belongs to a scope belongs to
that scope for as long as it is not given back.

This is why it does not matter what an activation does before its depth ends.
What is on the list of a depth, and with it the table of a scope, is given back
when the depth ends, if it was not given back before.
-/

namespace ScriptCore

/-! ## One operation -/

namespace Frame

variable {f g : Frame} {k t : PoolKey} {v : Option Nat × Option PoolKey}

theorem books_scopes_of_scopes (h : g.scopes = f.scopes) : g.books.scopes = f.books.scopes := by
  funext k
  simp only [books, h]

theorem books_installScope (hf : f.Sound) (kind : ScopeKind) (previous : ScopeRef)
    (shape : ShapeId) (members : PoolKey) :
    (f.installScope kind previous shape members).2.books =
      (f.books.setScope f.scopes.nextKey (some (some f.depth, some members))).push
        (.scope f.scopes.nextKey) := by
  rw [installScope_eq, books_register, books_addScope hf]
  exact hf.depth_lt

/-- The records after a scope was made: there is one more. -/
theorem scopes_installScope (hf : f.Sound) {kind : ScopeKind} {previous : ScopeRef}
    {shape : ShapeId} (h : (f.installScope kind previous shape t).2.books.scopes k = some v) :
    f.books.scopes k = some v ∨
      f.books.scopes k = none ∧ k = f.scopes.nextKey ∧ v = (some f.depth, some t) := by
  have hmade : (f.books.setScope f.scopes.nextKey (some (some f.depth, some t))).scopes k =
      some v := by
    rw [books_installScope hf] at h
    exact h
  simp only [Books.setScope, Function.update_apply] at hmade
  split at hmade
  · next hk =>
      subst hk
      exact .inr ⟨books_scopes_eq_none.2 (Pool.acquire_fresh hf.scopes), rfl,
        (Option.some.inj hmade).symm⟩
  · exact .inl hmade

end Frame

namespace Op

variable {e : Engine} {o : Op} {k : PoolKey} {v : Option Nat × Option PoolKey}

/-- A scope was there before with the same record, or it was just made, at the
current depth, over a table that is new too or that the operation consumed. -/
theorem scopes_perform (hf : e.frame.Sound)
    (h : (o.perform e).frame.books.scopes k = some v) :
    e.frame.books.scopes k = some v ∨
      e.frame.books.scopes k = none ∧ ∃ t, v = (some e.frame.depth, some t) ∧
        (e.frame.books.tables t = none ∨ ∃ x, o.consumes? = some x ∧ x.key = t) := by
  have hsame : (o.perform e).frame.scopes = e.frame.scopes →
      e.frame.books.scopes k = some v := by
    intro hscopes
    rw [← Frame.books_scopes_of_scopes hscopes]
    exact h
  cases o with
  | allocateBlock previous shape =>
      have h : (e.frame.allocateBlock previous shape
        (e.store.shapeSize shape)).2.books.scopes k = some v := h
      have hacquire := Frame.touches_acquireTable (S := fun _ => False) (T := fun _ => False) hf
        (.inl rfl) (e.store.shapeSize shape)
      have hscopes := e.frame.acquireTable_scopes none (e.store.shapeSize shape)
      rcases e.frame.allocateBlock_cases previous shape (e.store.shapeSize shape) with
        hno | ⟨-, hdone⟩
      · rw [hno, Frame.books_scopes_of_scopes hscopes] at h
        exact .inl h
      · rw [hdone] at h
        rcases Frame.scopes_installScope hacquire.sound h with hold | ⟨hnone, -, hv⟩
        · rw [Frame.books_scopes_of_scopes hscopes] at hold
          exact .inl hold
        · rw [Frame.books_scopes_of_scopes hscopes] at hnone
          rw [hacquire.depth_eq] at hv
          exact .inr ⟨hnone, _, hv, .inl (Frame.nextTable_fresh hf)⟩
  | allocateFunction binding previous shape t =>
      have h : (e.frame.allocateFunction binding previous shape (e.store.shapeSize shape)
        t.key).2.books.scopes k = some v := h
      have hready := Frame.touches_readyTable (S := fun _ => True) (T := fun _ => True)
        (t := t.key) hf trivial (e.store.shapeSize shape)
      have hscopes := e.frame.readyTable_scopes t.key (e.store.shapeSize shape)
      rcases e.frame.allocateFunction_cases binding previous shape (e.store.shapeSize shape) t.key
        with ⟨hno, -⟩ | ⟨-, hdone⟩
      · rw [hno] at h
        exact .inl h
      · rw [hdone] at h
        rcases Frame.scopes_installScope hready.sound h with hold | ⟨hnone, -, hv⟩
        · rw [Frame.books_scopes_of_scopes hscopes] at hold
          exact .inl hold
        · rw [Frame.books_scopes_of_scopes hscopes] at hnone
          rw [hready.depth_eq] at hv
          exact .inr ⟨hnone, _, hv, .inr ⟨t, rfl, rfl⟩⟩
  | allocateTable n => exact .inl (hsame (Frame.allocateTable_scopes _ _))
  | freeTable t => exact .inl (hsame (Frame.freeTable_scopes _ _))
  | takeTable t => exact .inl (hsame (Frame.takeTable_scopes _ _))
  | freeScope r =>
      refine .inl ?_
      cases r with
      | durable d => exact h
      | pooled k' =>
          have h : (e.frame.freeScope (.pooled k')).2.books.scopes k = some v := h
          rw [(Frame.books_freeScope _ _).1] at h
          exact Books.scopes_of_free h
  | editTable t c => exact .inl h
  | declare r s a =>
      rw [perform, e.books_declare] at h
      exact .inl h
  | assign slot x =>
      rw [perform, e.books_assign] at h
      exact .inl h
  | mixin r source =>
      rw [perform, e.books_mixin] at h
      exact .inl h
  | setLine r line =>
      rw [perform, e.books_setLine] at h
      exact .inl h
  | reset =>
      have h : (e.frame.endDepth 0).books.scopes k = some v := h
      rw [Frame.books_endDepth] at h
      exact .inl (Books.scopes_of_reclaim h)
  | enter node r => exact .inl h
  | leave =>
      have h : (e.frame.endDepth e.frame.depth).books.scopes k = some v := h
      rw [Frame.books_endDepth] at h
      exact .inl (Books.scopes_of_reclaim h)
  | share st => exact .inl h

end Op

/-! ## Runs -/

namespace Machine

variable {m m' m'' : Machine} {o : Op} {os : List Op} {base : Nat} {k t : PoolKey}
  {home : Option Nat} {d : Nat} {v : Option Nat × Option PoolKey}

theorem LastsScope.trans (h : m.LastsScope m' k) (h' : m'.LastsScope m'' k) :
    m.LastsScope m'' k := ⟨h.1, h'.2.trans h.2⟩

theorem LastsTable.trans (h : m.LastsTable m' t) (h' : m'.LastsTable m'' t) :
    m.LastsTable m'' t := ⟨h.1, h'.2.trans h.2⟩

theorem LastsScope.cons (h : m.LastsScope (m.run (o :: os)) k) :
    (∃ v, (m.after o).engine.frame.books.scopes k = some v) ∧
      (m.after o).LastsScope (m.run (o :: os)) k := by
  have hle : (m.after o).scopeReleases k.index ≤ m.scopeReleases k.index := by
    rw [← h.2]
    exact scopeReleases_le_run os (m.after o) k.index
  have hlive : ((m.after o).engine.frame.scopes.entry? k).isSome :=
    (o.moves_perform m.engine).scopes.isSome_of_le h.1 hle
  refine ⟨Option.isSome_iff_exists.1 ((isSome_scopes_iff k).1 hlive), hlive, ?_⟩
  rw [h.2]
  exact Nat.le_antisymm (Nat.le_add_right _ _) hle

theorem LastsTable.append : ∀ {m : Machine} {os : List Op} {os' : List Op},
    m.LastsTable (m.run (os ++ os')) t →
      m.LastsTable (m.run os) t ∧ (m.run os).LastsTable (m.run (os ++ os')) t
  | _, [], _, h => ⟨⟨h.1, rfl⟩, h⟩
  | m, o :: os, os', h => by
      have h : m.LastsTable (m.run (o :: (os ++ os'))) t := h
      obtain ⟨⟨v, hv⟩, hrest⟩ := h.cons
      have hlive : ((m.after o).engine.frame.tables.entry? t).isSome := by
        rw [isSome_entry?_iff, hv]
        rfl
      obtain ⟨hmid, hend⟩ := LastsTable.append hrest
      exact ⟨(lastsTable_after h.1 hlive).trans hmid, hend⟩

/-- A scope that lasts keeps its record. -/
theorem books_scopes_run (hm : m.Tracked) (h : m.LastsScope (m.run os) k)
    (hv : m.engine.frame.books.scopes k = some v) :
    (m.run os).engine.frame.books.scopes k = some v := by
  induction os generalizing m with
  | nil => exact hv
  | cons o os ih =>
      obtain ⟨⟨v', hv'⟩, hrest⟩ := h.cons
      refine ih (hm.after o) hrest ?_
      rcases Op.scopes_perform hm.sound hv' with hold | ⟨hnone, -⟩
      · rw [hv] at hold
        rw [hv', hold]
      · rw [hv] at hnone
        cases hnone

/-- A table stays with its scope. -/
theorem owner_after (hm : m.Tracked) (hw : m.Owned) (ho : Allows base m o)
    (hk : m.engine.frame.books.scopes k = some (home, some t))
    (ht : ((m.after o).engine.frame.books.tables t).isSome) :
    (m.after o).engine.frame.books.scopes k = some (home, some t) := by
  have hw' := hw.after hm ho
  obtain ⟨hnone, hloose⟩ := hw.kept.members k home t hk
  have hkept : ∀ h, o.consumes? = some h → h.key ≠ t := by
    intro h hc hkey
    have hfree := hw.unclaimed hm ho hc (by rw [hkey, hnone]; rfl)
    rw [hkey] at hfree
    exact hfree.2 k home hk
  -- it still has no depth and is not lost, so some scope owns it
  obtain ⟨w, hwt⟩ := Option.isSome_iff_exists.1 ht
  have hsame : w = none := Op.tables_perform hm.sound hnone hwt hkept
  rw [hsame] at hwt
  have hloose' : .table t ∉ (m.after o).lost.map Allocation.table := by
    intro hmem
    obtain ⟨t', hlost, heq⟩ := List.mem_map.1 hmem
    cases heq
    rcases List.mem_append.1 hlost with hleak | hlost
    · rw [Op.leaked?_spec (Option.mem_toList.1 hleak), Frame.nextTable_fresh hm.sound] at hnone
      cases hnone
    · exact hloose (List.mem_map.2 ⟨t, hlost, rfl⟩)
  obtain ⟨k', home', hk'⟩ := hw'.kept.owner t hwt hloose'
  rcases Op.scopes_perform hm.sound hk' with hold | ⟨-, t', hv, hnew⟩
  · have hkk := hw.kept.sole k' k home' home t hold hk
    subst hkk
    rw [hk] at hold
    rw [hk', ← hold]
  · cases hv
    rcases hnew with hfresh | ⟨x, hx, hkey⟩
    · rw [hnone] at hfresh
      cases hfresh
    · exact absurd hkey (hkept x hx)

theorem owner_run (hm : m.Tracked) (hw : m.Owned) (hos : Lawful base m os)
    (h : m.LastsTable (m.run os) t) (hk : m.engine.frame.books.scopes k = some (home, some t)) :
    (m.run os).engine.frame.books.scopes k = some (home, some t) := by
  induction os generalizing m with
  | nil => exact hk
  | cons o os ih =>
      obtain ⟨⟨w, hwt⟩, hrest⟩ := h.cons
      refine ih (hm.after o) (hw.after hm hos.1) hos.2 hrest ?_
      exact owner_after hm hw hos.1 hk (Option.isSome_iff_exists.2 ⟨w, hwt⟩)

/-! ## The end of a depth -/

/-- The end of a depth, which for the host is a reset. -/
def exit (d : Nat) : Op := if d = 0 then .reset else .leave

theorem allows_exit (hd : m.engine.frame.depth = d) : Allows 0 m (exit d) := by
  unfold exit
  split
  · exact ⟨trivial, nofun, nofun⟩
  · exact ⟨by show 0 < m.engine.frame.depth; omega, nofun, nofun⟩

/-- Nothing is registered at a depth that has just ended. -/
theorem home?_after_exit (hw : m.Owned) (hd : m.engine.frame.depth = d) (k : PoolKey) :
    (m.after (exit d)).engine.frame.books.home? (.scope k) ≠ some d := by
  have hends : (exit d).ends? m.engine.frame = some d := by
    unfold exit
    split
    · next hzero => rw [hzero]; rfl
    · exact congrArg some hd
  have hreclaimed := hw.kept.home?_reclaim (a := .scope k) (d := d) (by simp)
  rw [Books.home?, ← (Op.books_of_ends hends).1] at hreclaimed
  exact hreclaimed

/-- Whatever an activation does until its depth ends, its end finds no scope
that was registered there before, and no table of such a scope: they have been
given back by then. -/
theorem reclaimed_at_exit (hm : m.Tracked) (hw : m.Owned)
    (hk : m.engine.frame.books.scopes k = some (some d, some t)) (hos : Lawful d m os)
    (hd : (m.run os).engine.frame.depth = d) :
    let m' := (m.run os).after (exit d)
    ¬ m.LastsScope m' k ∧ ¬ m.LastsTable m' t := by
  intro m'
  have hm' := hm.run os
  have hw' := hw.run hm hos
  have hrun : m' = m.run (os ++ [exit d]) := (run_append m os [exit d]).symm
  have hlawful : Lawful 0 m (os ++ [exit d]) :=
    lawful_append.2 ⟨hos.mono (Nat.zero_le _), allows_exit hd, trivial⟩
  have hgone : m'.engine.frame.books.scopes k ≠ some (some d, some t) := by
    intro hk'
    refine home?_after_exit hw' hd k ?_
    simp only [Books.home?]
    rw [show (m.run os).after (exit d) = m' from rfl, hk']
    rfl
  constructor
  · intro hlasts
    rw [hrun] at hlasts hgone
    exact hgone (books_scopes_run hm hlasts hk)
  · intro hlasts
    rw [hrun] at hlasts hgone
    exact hgone (owner_run hm hw hlawful hlasts hk)

end Machine

end ScriptCore

import ScriptCore.Proofs.Lineage

/-!
# The slots of a table

Two facts about the tables of a frame that have nothing to do with who owns
them. A table that is handed out is empty, however often its entry was used
before, because taking it back empties it and nothing reaches it until it is
handed out again. And while it is out, its slots change only in an operation
that is given the table, or a scope whose members it is; all others leave it as
it is or take it back.
-/

namespace ScriptCore

namespace Pool

variable {α : Type} {p : Pool α} {k : PoolKey} {P : α → Prop}

/-- What lies in the entries that are not handed out. -/
def Idle (P : α → Prop) (p : Pool α) : Prop :=
  ∀ (i : Nat) x, p.entries[i]? = some x → x.isLive = false → P x.item

theorem Idle.of_modify (h : p.Idle P) {q : Pool α} {i : Nat} {g : PoolEntry α → PoolEntry α}
    (hq : q.entries = p.entries.modify i g)
    (hg : ∀ x, p.entries[i]? = some x → (g x).isLive = false → P (g x).item) : q.Idle P := by
  intro j x hx hlive
  rw [hq, Array.getElem?_modify] at hx
  split at hx
  · next hij =>
      subst hij
      obtain ⟨x₀, hx₀, rfl⟩ := Option.map_eq_some_iff.1 hx
      exact hg x₀ hx₀ hlive
  · exact h j x hx hlive

/-- Work on an entry that is handed out does not reach the others. -/
theorem Idle.of_modify_live (h : p.Idle P) {q : Pool α} {g : PoolEntry α → PoolEntry α}
    (hk : (p.entry? k).isSome) (hq : q.entries = p.entries.modify k.index g)
    (hg : ∀ x, (g x).isLive = x.isLive) : q.Idle P := by
  obtain ⟨x, hx⟩ := Option.isSome_iff_exists.1 hk
  obtain ⟨hget, hlive, -⟩ := entry?_eq_some.1 hx
  refine h.of_modify hq fun y hy hdead => ?_
  rw [hget] at hy
  cases hy
  rw [hg, hlive] at hdead
  cases hdead

theorem Idle.modify (h : p.Idle P) (k : PoolKey) (f : α → α) : (p.modify k f).Idle P := by
  unfold Pool.modify
  split
  · next hk =>
      exact h.of_modify_live (g := fun e => { e with item := f e.item }) hk rfl fun _ => rfl
  · exact h

theorem Idle.detach (h : p.Idle P) (k : PoolKey) : (p.detach k).Idle P := by
  unfold Pool.detach
  split
  · next hk =>
      exact h.of_modify_live (g := fun e => { e with depth := none }) hk rfl fun _ => rfl
  · exact h

theorem Idle.release (h : p.Idle P) (k : PoolKey) {clear : α → α} (hclear : ∀ a, P (clear a)) :
    (p.release k clear).2.Idle P := by
  unfold Pool.release
  split
  · exact h
  · exact h.of_modify (g := fun e => ⟨e.generation + 1, false, none, clear e.item⟩) rfl
      fun x _ _ => hclear x.item

theorem Idle.acquire (h : p.Idle P) (d : Option Nat) (a : α) : (p.acquire d a).2.Idle P := by
  unfold Pool.acquire
  split
  · refine h.of_modify (g := fun e => { e with isLive := true, depth := d }) rfl fun x _ hdead => ?_
    cases hdead
  · intro i x hx hlive
    simp only [Array.getElem?_push] at hx
    split at hx
    · cases hx
      cases hlive
    · exact h i x hx hlive

/-- An entry that is handed out holds what lay in it, or what a new one gets. -/
theorem Idle.acquired (h : p.Idle P) (hp : p.WellKept) (d : Option Nat) {a : α} (ha : P a) :
    ∃ item, (p.acquire d a).2.get? p.nextKey = some item ∧ P item := by
  have hnext : ∀ x, (p.acquire d a).2.entries[p.nextKey.index]? = some x → P x.item := by
    intro x hx
    cases hfree : p.free with
    | cons i free =>
        obtain ⟨y, hy, hdead⟩ := (hp.mem_free i).1 (by simp [hfree])
        simp only [Pool.acquire, nextKey, hfree, Array.getElem?_modify, if_true, hy,
          Option.map_some] at hx
        cases hx
        exact h i y hy hdead
    | nil =>
        simp only [Pool.acquire, nextKey, hfree, Array.getElem?_push, if_true] at hx
        cases hx
        exact ha
  obtain ⟨x, hx, -⟩ := acquire_entry hp d a
  obtain ⟨hget, -, -⟩ := entry?_eq_some.1 hx
  exact ⟨x.item, get?_eq_some.2 ⟨x, hx, rfl⟩, hnext x hget⟩

theorem get?_of_release {clear : α → α} {k' : PoolKey} {a : α}
    (h : (p.release k clear).2.get? k' = some a) : p.get? k' = some a := by
  obtain ⟨x, hx, rfl⟩ := get?_eq_some.1 h
  rw [entry?_release] at hx
  split at hx
  · cases hx
  · exact get?_eq_some.2 ⟨x, hx, rfl⟩

theorem get?_modify (f : α → α) (k' : PoolKey) :
    (p.modify k f).get? k' = if k' = k then (p.get? k).map f else p.get? k' := by
  unfold get?
  rw [entry?_modify]
  split
  · rw [Option.map_map, Option.map_map]
    rfl
  · rfl

end Pool

/-! ## Tables are handed out empty -/

namespace Frame

variable {f g : Frame} {k t : PoolKey}

/-- The tables that are not handed out are empty. -/
def Swept (f : Frame) : Prop := f.tables.Idle fun table => table.slots = #[]

theorem swept_modifyTable (h : f.Swept) (t : PoolKey) (c : MemberTable → MemberTable) :
    (f.modifyTable t c).Swept :=
  Pool.Idle.modify h t c

theorem swept_releaseTable (h : f.Swept) (t : PoolKey) : (f.releaseTable t).2.Swept :=
  Pool.Idle.release h t fun _ => rfl

theorem swept_addTable (h : f.Swept) (v : Option Nat) : (f.addTable v).Swept :=
  Pool.Idle.acquire h v _

theorem swept_acquireTable (h : f.Swept) (v : Option Nat) (n : Nat) :
    (f.acquireTable v n).2.Swept := by
  rw [acquireTable_eq]
  split
  · exact swept_modifyTable (swept_addTable h v) _ _
  · exact swept_addTable h v

theorem swept_allocateTable (h : f.Swept) (n : Nat) : (f.allocateTable n).2.Swept := by
  have hacq := swept_acquireTable h (some f.depth) n
  unfold allocateTable
  split
  · next g he =>
      rw [he] at hacq
      exact hacq
  · next t g he =>
      rw [he] at hacq
      exact hacq

theorem swept_detachTable (h : f.Swept) (t : PoolKey) : (f.detachTable t).Swept := by
  unfold detachTable
  split
  · exact Pool.Idle.detach h t
  · exact h

theorem swept_freeTable (h : f.Swept) (t : PoolKey) : (f.freeTable t).2.Swept :=
  swept_releaseTable (swept_detachTable h t) t

theorem swept_takeTable (h : f.Swept) (t : PoolKey) : (f.takeTable t).2.Swept := by
  unfold takeTable
  split
  · exact h
  · exact swept_freeTable h t

theorem installScope_tables (f : Frame) (kind : ScopeKind) (previous : ScopeRef) (shape : ShapeId)
    (members : PoolKey) :
    (f.installScope kind previous shape members).2.tables = f.tables := by
  rw [installScope_eq]
  rfl

theorem swept_allocateBlock (h : f.Swept) (previous : ScopeRef) (shape : ShapeId) (n : Nat) :
    (f.allocateBlock previous shape n).2.Swept := by
  have hacq := swept_acquireTable h none n
  rcases f.allocateBlock_cases previous shape n with hno | ⟨-, hdone⟩
  · rw [hno]
    exact hacq
  · rw [hdone, Swept, installScope_tables]
    exact hacq

theorem swept_allocateFunction (h : f.Swept) (binding : FunctionBinding) (previous : ScopeRef)
    (shape : ShapeId) (n : Nat) (t : PoolKey) :
    (f.allocateFunction binding previous shape n t).2.Swept := by
  rcases f.allocateFunction_cases binding previous shape n t with ⟨hno, -⟩ | ⟨-, hdone⟩
  · rw [hno]
    exact h
  · rw [hdone, Swept, installScope_tables]
    exact swept_detachTable (swept_modifyTable h t _) t

theorem swept_release (h : f.Swept) (a : Allocation) : (f.release a).Swept := by
  cases a with
  | table t => exact swept_releaseTable h t
  | scope k =>
      show (f.releaseScope k).2.Swept
      rw [releaseScope_snd]
      cases f.scope? k with
      | none => exact h
      | some s => exact swept_releaseTable h s.members

theorem swept_freeScope (h : f.Swept) (r : ScopeRef) : (f.freeScope r).2.Swept := by
  cases r with
  | durable d => exact h
  | pooled k =>
      unfold freeScope
      simp only
      split
      · next d _ =>
          have hw : (f.withdraw d (.scope k)).Swept := h
          exact swept_release hw (.scope k)
      · exact swept_release h (.scope k)

theorem swept_endDepth (h : f.Swept) (d : Nat) : (f.endDepth d).Swept := by
  have hfold : ∀ (l : List Allocation) (g : Frame), g.Swept → (l.foldl release g).Swept := by
    intro l
    induction l with
    | nil => exact fun _ hg => hg
    | cons a l ih => exact fun g hg => ih _ (swept_release hg a)
  exact hfold _ _ h

/-! ## A table that is out keeps its slots -/

theorem getTable_of_release {a : Allocation} {m : MemberTable}
    (h : (f.release a).tables.get? t = some m) : f.tables.get? t = some m := by
  cases a with
  | table t' => exact Pool.get?_of_release h
  | scope k =>
      have h : (f.releaseScope k).2.tables.get? t = some m := h
      rw [releaseScope_snd] at h
      cases hs : f.scope? k with
      | none =>
          rw [hs] at h
          exact h
      | some s =>
          rw [hs] at h
          exact Pool.get?_of_release h

theorem getTable_of_endDepth {d : Nat} {m : MemberTable}
    (h : (f.endDepth d).tables.get? t = some m) : f.tables.get? t = some m := by
  have hfold : ∀ (l : List Allocation) (g : Frame),
      (l.foldl release g).tables.get? t = some m → g.tables.get? t = some m := by
    intro l
    induction l with
    | nil => exact fun _ hg => hg
    | cons a l ih => exact fun g hg => getTable_of_release (ih _ hg)
  exact hfold _ (f.modifyEntry d fun e => { e with allocations := [] }) h

theorem getTable_of_freeScope {r : ScopeRef} {m : MemberTable}
    (h : (f.freeScope r).2.tables.get? t = some m) : f.tables.get? t = some m := by
  cases r with
  | durable d => exact h
  | pooled k =>
      simp only [freeScope] at h
      split at h
      · next d _ => exact getTable_of_release (f := f.withdraw d (.scope k)) (a := .scope k) h
      · exact getTable_of_release (a := .scope k) h

/-- A table outside the footprint holds what it held. -/
theorem Touches.getTable_eq {S T : PoolKey → Prop} (h : Touches S T f g) {m : MemberTable}
    (hm : f.tables.get? t = some m) (ht : ¬ T t) : g.tables.get? t = some m := by
  obtain ⟨x, hx, rfl⟩ := Pool.get?_eq_some.1 hm
  exact Pool.get?_eq_some.2 ⟨x, h.tables t x hx ht, rfl⟩

end Frame

namespace Op

variable {e : Engine} {o : Op} {t : PoolKey} {m m' : MemberTable}

theorem swept_perform (h : e.frame.Swept) (o : Op) : (o.perform e).frame.Swept := by
  cases o with
  | allocateBlock previous shape => exact Frame.swept_allocateBlock h _ _ _
  | allocateTable n => exact Frame.swept_allocateTable h _
  | allocateFunction binding previous shape t => exact Frame.swept_allocateFunction h _ _ _ _ _
  | freeTable t => exact Frame.swept_freeTable h _
  | takeTable t => exact Frame.swept_takeTable h _
  | freeScope r => exact Frame.swept_freeScope h _
  | editTable t c => exact Frame.swept_modifyTable h _ _
  | declare r x a =>
      show (e.declare r x a).2.frame.Swept
      rcases e.declare_frame r x a with hd | ⟨k, own, c, -, -, hd⟩
      · exact hd ▸ h
      · exact hd ▸ Frame.swept_modifyTable h _ _
  | assign slot v =>
      show (e.assign slot v).2.frame.Swept
      rcases e.assign_frame slot v with hd | ⟨t, i, x, c, -, hd⟩
      · exact hd ▸ h
      · exact hd ▸ Frame.swept_modifyTable h _ _
  | mixin r source =>
      show (e.mixin r source).2.frame.Swept
      rcases e.mixin_frame r source with hd | ⟨k, c, -, -, hd⟩
      · exact hd ▸ h
      · rw [hd]
        exact h
  | setLine r line =>
      show (e.setLine r line).2.frame.Swept
      rcases e.setLine_frame r line with hd | ⟨c, -, hd⟩
      · exact hd ▸ h
      · rw [hd]
        exact h
  | reset => exact Frame.swept_endDepth h 0
  | enter node r => exact h
  | leave => exact Frame.swept_endDepth h e.frame.depth
  | share st => exact h

/-- An operation that is given neither a table nor the scope it belongs to
leaves its slots as they are, or takes it back. -/
theorem getTable_perform (hf : e.frame.Sound) (hm : e.frame.tables.get? t = some m)
    (hm' : (o.perform e).frame.tables.get? t = some m') (ht : o.table? ≠ some t)
    (hd : ∀ k x a own, o = .declare (.pooled k) x a → e.frame.scope? k = some own →
      own.members ≠ t) : m' = m := by
  have hkept : (o.perform e).frame.tables.get? t = some m → m' = m := fun h =>
    Option.some.inj (hm'.symm.trans h)
  have hsame : e.frame.tables.get? t = some m' → m' = m := fun h =>
    Option.some.inj (h.symm.trans hm)
  have hother : ∀ {t' : PoolKey} {c : MemberTable → MemberTable}, t' ≠ t →
      (e.frame.modifyTable t' c).tables.get? t = some m := by
    intro t' c hne
    rw [Frame.modifyTable, Pool.get?_modify, if_neg (Ne.symm hne)]
    exact hm
  have hnot : ∀ {t' : PoolKey}, o.table? = some t' → t' ≠ t := fun h heq => ht (heq ▸ h)
  cases o with
  | allocateBlock previous shape =>
      exact hkept ((Frame.touches_allocateBlock (S := fun _ => False) (T := fun _ => False)
        hf _ _ _).getTable_eq hm id)
  | allocateTable n =>
      exact hkept ((Frame.touches_allocateTable (S := fun _ => False) (T := fun _ => False)
        hf _).getTable_eq hm id)
  | allocateFunction binding previous shape h =>
      exact hkept ((Frame.touches_allocateFunction (S := fun _ => False)
        (T := fun t => h.key = t) hf rfl _ _ _ _).getTable_eq hm (hnot rfl))
  | freeTable h =>
      exact hkept ((Frame.touches_freeTable (S := fun _ => False) (T := fun t => h.key = t)
        hf rfl).getTable_eq hm (hnot rfl))
  | takeTable h =>
      exact hkept ((Frame.touches_takeTable (S := fun _ => False) (T := fun t => h.key = t)
        hf rfl).getTable_eq hm (hnot rfl))
  | freeScope r => exact hsame (Frame.getTable_of_freeScope hm')
  | editTable t' c => exact hkept (hother (hnot rfl))
  | declare r x a =>
      have hm' : (e.declare r x a).2.frame.tables.get? t = some m' := hm'
      rcases e.declare_frame r x a with hframe | ⟨k, own, c, rfl, hk, hframe⟩
      · rw [hframe] at hm'
        exact hsame hm'
      · rw [hframe, hother (hd k x a own rfl hk)] at hm'
        exact (Option.some.inj hm').symm
  | assign slot v =>
      have hm' : (e.assign slot v).2.frame.tables.get? t = some m' := hm'
      rcases e.assign_frame slot v with hframe | ⟨t', i, x, c, rfl, hframe⟩
      · rw [hframe] at hm'
        exact hsame hm'
      · rw [hframe, hother (hnot rfl)] at hm'
        exact (Option.some.inj hm').symm
  | mixin r source =>
      have hm' : (e.mixin r source).2.frame.tables.get? t = some m' := hm'
      rcases e.mixin_frame r source with hframe | ⟨k, c, -, -, hframe⟩
      · rw [hframe] at hm'
        exact hsame hm'
      · rw [hframe] at hm'
        exact hsame hm'
  | setLine r line =>
      have hm' : (e.setLine r line).2.frame.tables.get? t = some m' := hm'
      rcases e.setLine_frame r line with hframe | ⟨c, -, hframe⟩
      · rw [hframe] at hm'
        exact hsame hm'
      · rw [hframe] at hm'
        exact hsame hm'
  | reset => exact hsame (Frame.getTable_of_endDepth hm')
  | enter node r => exact hsame hm'
  | leave => exact hsame (Frame.getTable_of_endDepth (d := e.frame.depth) hm')
  | share st => exact hsame hm'

end Op

namespace Machine

theorem swept_start (store : Store) (config : FrameConfig) (global : GlobalId) (flag : FlagId) :
    (start store config global flag).engine.frame.Swept := by
  intro i x hx
  cases hx

theorem swept_run {m : Machine} (h : m.engine.frame.Swept) (os : List Op) :
    (m.run os).engine.frame.Swept := by
  induction os generalizing m with
  | nil => exact h
  | cons o os ih => exact ih (m := m.after o) (o.swept_perform h)

end Machine

end ScriptCore

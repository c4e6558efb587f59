import ScriptCore.Proofs.Footprint
import ScriptCore.Proofs.Requests

/-!
# The direction of an operation

No operation of a frame both takes entries back and hands entries out: what it
sends to the two pools is directed. So none can take one entry back twice, and
every generation moves by one at most.
-/

namespace ScriptCore.Frame

/-- From `f` to `g` entries of both pools were only taken back. -/
structure Settles (f g : Frame) : Prop where
  scopes : Pool.Settles f.scopes g.scopes
  tables : Pool.Settles f.tables g.tables

/-- From `f` to `g` entries of both pools were only handed out. -/
structure Grows (f g : Frame) : Prop where
  scopes : Pool.Grows f.scopes g.scopes
  tables : Pool.Grows f.tables g.tables

structure Moves (f g : Frame) : Prop where
  scopes : Pool.Moves f.scopes g.scopes
  tables : Pool.Moves f.tables g.tables

/-- From `f` to `g` both pools were sent requests in one direction. -/
structure Directed (d : Pool.Direction) (f g : Frame) : Prop where
  scopes : Pool.Directed d f.scopes g.scopes
  tables : Pool.Directed d f.tables g.tables

variable {d : Pool.Direction} {f g h : Frame} {k t : PoolKey}

theorem Settles.moves (h : Settles f g) : Moves f g := ⟨h.scopes.moves, h.tables.moves⟩

theorem Grows.moves (h : Grows f g) : Moves f g := ⟨h.scopes.moves, h.tables.moves⟩

theorem Directed.settles (h : Directed .back f g) : Settles f g :=
  ⟨h.scopes.settles, h.tables.settles⟩

theorem Directed.grows (h : Directed .out f g) : Grows f g := ⟨h.scopes.grows, h.tables.grows⟩

theorem Directed.moves (h : Directed d f g) : Moves f g := by
  cases d with
  | out => exact h.grows.moves
  | back => exact h.settles.moves

theorem Directed.refl (d : Pool.Direction) (f : Frame) : Directed d f f := ⟨.refl d _, .refl d _⟩

theorem Directed.trans (h₁ : Directed d f g) (h₂ : Directed d g h) : Directed d f h :=
  ⟨h₁.scopes.trans h₂.scopes, h₁.tables.trans h₂.tables⟩

/-! ## Either way -/

theorem directed_modifyTable (d : Pool.Direction) (f : Frame) (t : PoolKey)
    (c : MemberTable → MemberTable) : Directed d f (f.modifyTable t c) :=
  ⟨.refl d _, Pool.directed_serve f.tables (x := .modify t c) trivial⟩

theorem directed_modifyScopes (d : Pool.Direction) (f : Frame) (k : PoolKey)
    (c : Option PooledScope → Option PooledScope) :
    Directed d f { f with scopes := f.scopes.modify k c } :=
  ⟨Pool.directed_serve f.scopes (x := .modify k c) trivial, .refl d _⟩

theorem directed_detachTable (d : Pool.Direction) (f : Frame) (t : PoolKey) :
    Directed d f (f.detachTable t) := by
  unfold detachTable
  split
  · exact ⟨.refl d _, Pool.directed_serve f.tables (x := .detach t) trivial⟩
  · exact .refl d f

/-- Beginning an activation asks the pools for nothing. -/
theorem directed_enter (d : Pool.Direction) (f : Frame) (node : Node) (scope : ScopeRef) :
    Directed d f (f.enter node scope) :=
  ⟨.refl d _, .refl d _⟩

/-! ## Handing out -/

theorem directed_acquireTable (f : Frame) (v : Option Nat) (n : Nat) :
    Directed .out f (f.acquireTable v n).2 := by
  have hadd : Directed .out f (f.addTable v) :=
    ⟨.refl _ _, Pool.directed_serve f.tables (x := .acquire v _) rfl⟩
  rw [acquireTable_eq]
  split
  · exact hadd.trans (directed_modifyTable _ _ _ _)
  · exact hadd

theorem directed_allocateTable (f : Frame) (n : Nat) :
    Directed .out f (f.allocateTable n).2 := by
  have hacq := directed_acquireTable f (some f.depth) n
  unfold allocateTable
  split
  · next g he => rw [he] at hacq; exact hacq
  · next k g he => rw [he] at hacq; exact ⟨hacq.scopes, hacq.tables⟩

theorem directed_installScope (f : Frame) (kind : ScopeKind) (previous : ScopeRef)
    (shape : ShapeId) (members : PoolKey) :
    Directed .out f (f.installScope kind previous shape members).2 := by
  rw [installScope_eq]
  have hacq : Pool.Directed .out f.scopes (f.scopes.acquire (some f.depth) none).2 :=
    Pool.directed_serve f.scopes (x := .acquire (some f.depth) none) rfl
  have hfill := Pool.directed_serve (d := .out) (f.scopes.acquire (some f.depth) none).2
    (x := .modify f.scopes.nextKey fun _ => some { kind, previous, shape, members }) trivial
  exact ⟨hacq.trans hfill, .refl _ _⟩

theorem directed_allocateBlock (f : Frame) (previous : ScopeRef) (shape : ShapeId) (n : Nat) :
    Directed .out f (f.allocateBlock previous shape n).2 := by
  have hacq := directed_acquireTable f none n
  unfold allocateBlock
  split
  · next g he => rw [he] at hacq; exact hacq
  · next t g he => rw [he] at hacq; exact hacq.trans (directed_installScope g _ _ _ _)

theorem directed_allocateFunction (f : Frame) (binding : FunctionBinding) (previous : ScopeRef)
    (shape : ShapeId) (n : Nat) (t : PoolKey) :
    Directed .out f (f.allocateFunction binding previous shape n t).2 := by
  rcases f.allocateFunction_cases binding previous shape n t with ⟨h, -⟩ | ⟨-, h⟩
  · rw [h]
    exact .refl _ _
  · rw [h]
    have hmod := directed_modifyTable .out f t (·.ensureCapacity n)
    have hready : Directed .out f (f.readyTable t n) := hmod.trans (directed_detachTable _ _ t)
    exact hready.trans (directed_installScope _ _ _ _ _)

/-! ## Taking back -/

theorem directed_releaseTable (f : Frame) (t : PoolKey) :
    Directed .back f (f.releaseTable t).2 :=
  ⟨.refl _ _, Pool.directed_serve f.tables (x := .release t _) rfl⟩

theorem directed_freeTable (f : Frame) (t : PoolKey) : Directed .back f (f.freeTable t).2 :=
  (directed_detachTable .back f t).trans (directed_releaseTable _ t)

theorem directed_takeTable (f : Frame) (t : PoolKey) : Directed .back f (f.takeTable t).2 := by
  unfold takeTable
  split
  · exact .refl _ f
  · exact directed_freeTable f t

theorem directed_releaseScope (f : Frame) (k : PoolKey) :
    Directed .back f (f.releaseScope k).2 := by
  rw [releaseScope_snd]
  have hrel : Directed .back f { f with scopes := (f.scopes.release k fun _ => none).2 } :=
    ⟨Pool.directed_serve f.scopes (x := .release k _) rfl, .refl _ _⟩
  cases f.scope? k with
  | none => exact hrel
  | some s => exact hrel.trans (directed_releaseTable _ _)

theorem directed_freeScope (f : Frame) (r : ScopeRef) : Directed .back f (f.freeScope r).2 := by
  cases r with
  | durable d => exact .refl _ f
  | pooled k =>
      unfold freeScope
      simp only
      split
      · next d hd =>
          have h := directed_releaseScope (f.withdraw d (.scope k)) k
          exact ⟨h.scopes, h.tables⟩
      · exact directed_releaseScope f k

theorem directed_foldl_release (l : List Allocation) :
    ∀ f : Frame, Directed .back f (l.foldl release f) := by
  induction l with
  | nil => exact .refl _
  | cons a l ih =>
      intro f
      refine Directed.trans ?_ (ih _)
      cases a with
      | scope k => exact directed_releaseScope f k
      | table t => exact directed_releaseTable f t

theorem directed_reclaim (f : Frame) (d : Nat) : Directed .back f (f.reclaim d) := by
  have h := directed_foldl_release (f.books.listed d)
    (f.modifyEntry d fun e => { e with allocations := [] })
  exact ⟨h.scopes, h.tables⟩

theorem directed_endDepth (f : Frame) (d : Nat) : Directed .back f (f.endDepth d) :=
  let h := directed_reclaim f d
  ⟨h.scopes, h.tables⟩

theorem directed_leave (f : Frame) : Directed .back f f.leave :=
  let h := directed_endDepth f f.depth
  ⟨h.scopes, h.tables⟩

end ScriptCore.Frame

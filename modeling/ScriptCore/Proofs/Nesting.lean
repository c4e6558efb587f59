import ScriptCore.Proofs.Bodies
import ScriptCore.Proofs.Gate

/-!
# Bodies that begin activations

The gate restores the frame around a body that is a run at its own depth. Here
are the bodies that are, whatever state they begin in. An operation is one, if
it ends no activation and consumes no table; so is a node that is evaluated, if
its body is, since the gate leaves the depth that it entered; and so is a call,
which fills the table that it consumes itself. What is done after such a body
may depend on the whole session that the body left, so nothing is said about
control: loops, handlers and the choice of a callee are all of them choices of
what comes next.

Nodes within calls within nodes are covered by the induction alone. It has one
case for each way to begin an activation, and none of them looks into the bodies.
For the nodes of a program it is an induction on the levels that are left, since
they may evaluate one another.
-/

namespace ScriptCore

namespace Session

open Machine

/-- First a body, then what its outcome calls for. -/
def andThen (body : Body) (next : Outcome Completion → Body) : Body := fun s =>
  match body s with
  | (r, s) => next r s

/-- A change of the session by an operation at the current depth, if it changes
the engine at all. Tables are not consumed. -/
def IsStep (act : Session → Session) : Prop :=
  ∀ s, ∃ o : Op, o.Stays ∧ o.consumes? = none ∧ (act s).engine = o.perform s.engine

/-- Bodies put together from operations, nodes and calls. -/
inductive Composed : Body → Prop
  | stop (r : Outcome Completion) : Composed fun s => (r, s)
  /-- What is done is chosen by the session. -/
  | inspect {next : Session → Body} (hnext : ∀ s, Composed (next s)) : Composed fun s => next s s
  | operate {act : Session → Session} {next : Body} (hact : IsStep act) (hnext : Composed next) :
      Composed fun s => next (act s)
  | evaluate (node : Node) (scope : ScopeRef) {body : Body} {next : Outcome Completion → Body}
      (hbody : Composed body) (hnext : ∀ r, Composed (next r)) :
      Composed (andThen (gate node scope body) next)
  | call (f : FunctionId) (arguments : List Value) (this super : Option Value)
      {body : Node → ScopeRef → Body} {next : Outcome Completion → Body}
      (hbody : ∀ node scope, Composed (body node scope)) (hnext : ∀ r, Composed (next r)) :
      Composed (andThen
        (callWith (fun node scope => gate node scope (body node scope)) f arguments this super)
        next)

/-! ## They are runs -/

theorem isRun_andThen {body : Body} {next : Outcome Completion → Body} (hbody : IsRun body)
    (hnext : ∀ r, IsRun (next r)) : IsRun (andThen body next) := by
  intro s m hm hs
  obtain ⟨os, hos⟩ := hbody s m hm hs
  obtain ⟨os', hos'⟩ := hnext (body s).1 _ _ (hm.run os) hos.after
  exact ⟨_, hos.trans hos'⟩

/-- A step is a run of one operation. -/
theorem isRun_operate {act : Session → Session} {next : Body} (hact : IsStep act)
    (hnext : IsRun next) : IsRun fun s => next (act s) := by
  intro s m hm hs
  obtain ⟨o, hstays, hfree, hengine⟩ := hact s
  have hop : Works s (act s) m [o] := works_step o hm hstays hfree hs hengine
  obtain ⟨os, hos⟩ := hnext _ _ (hm.run [o]) hop.after
  exact ⟨_, hop.trans hos⟩

/-- Whoever allocated a table may consume it, also after filling it. -/
theorem consumable_filled {m : Machine} {n : Nat} {t : PoolKey} (hm : m.Tracked)
    (hnew : (Op.allocateTable n).newHeld? m.engine = some t)
    (change : MemberTable → MemberTable) :
    let m₁ := m.after (.allocateTable n)
    Consumable (m₁.after (.editTable t change)) ⟨t, m₁.tableReleases t.index⟩ := by
  intro m₁
  have hheld : Consumable m₁ ⟨t, m₁.tableReleases t.index⟩ := by
    refine ⟨List.mem_append_left _ (List.mem_map.2 ⟨t, ?_, rfl⟩), Nat.lt_add_of_pos_right ?_⟩
    · rw [hnew]
      exact List.mem_singleton_self t
    · decide
  have hlive : (m₁.engine.frame.books.tables t).isSome := by
    rw [show m₁.engine.frame.books.tables t = _ from (Op.newHeld?_spec hm.sound hnew).2.2]
    rfl
  have hbooks : (m₁.after (.editTable t change)).engine.frame.books = m₁.engine.frame.books :=
    m₁.engine.frame.books_modifyTable t change
  refine hheld.after rfl (Pool.recycled_eq_zero ((isSome_entry?_iff t).2 hlive) ?_)
  exact (isSome_entry?_iff t).2 (hbooks ▸ hlive)

/-- A call with values consumes a table that it allocated itself. -/
theorem isRun_callWith {eval : Node → ScopeRef → Body}
    (heval : ∀ node scope, IsRun (eval node scope)) (f : FunctionId) (arguments : List Value)
    (this super : Option Value) : IsRun (callWith eval f arguments this super) := by
  intro s m hm hs
  have hallocate : ∀ {t : Option PoolKey} {frame : Frame},
      s.engine.frame.allocateTable arguments.length = (t, frame) →
      Works s (s.modifyFrame fun _ => frame) m [.allocateTable arguments.length] := by
    intro t frame h
    refine works_step (.allocateTable arguments.length) hm trivial rfl hs ?_
    simp only [modifyFrame_eq, Op.perform, h]
  unfold callWith
  split
  · next frame h => exact ⟨_, hallocate h⟩
  · next t frame h =>
      have hnew : (Op.allocateTable arguments.length).newHeld? m.engine = some t := by
        rw [← hs, Op.newHeld?, h]
      have hfill : Works (s.modifyFrame fun _ => frame)
          (s.modifyFrame fun _ => frame.modifyTable t (·.pushAll arguments))
          (m.run [.allocateTable arguments.length]) [.editTable t (·.pushAll arguments)] :=
        works_step (.editTable t (·.pushAll arguments)) (hm.run _) trivial rfl
          (hallocate h).after rfl
      have hfilled := (hallocate h).trans hfill
      have hheld := consumable_filled hm hnew (·.pushAll arguments)
      obtain ⟨os, hos⟩ := works_call f this super (hm.run _) hfilled.after hheld heval
      exact ⟨_, hfilled.trans hos⟩

theorem Composed.isRun {body : Body} (h : Composed body) : IsRun body := by
  induction h with
  | stop r => exact fun _ _ _ hs => ⟨[], trivial, hs, hs, rfl⟩
  | inspect _ ih => exact fun s => ih s s
  | operate hact _ ih => exact isRun_operate hact ih
  | evaluate node scope _ _ ihbody ihnext =>
      exact isRun_andThen (isRun_gate ihbody node scope) ihnext
  | call f arguments this super _ _ ihbody ihnext =>
      refine isRun_andThen (isRun_callWith (fun node scope => ?_) f arguments this super) ihnext
      exact isRun_gate (ihbody node scope) node scope

/-! ## Programs -/

section

variable {α β : Type}

theorem isRun_map {x : Proc Session α} (hx : IsRun x) (f : α → β) : IsRun (x.map f) :=
  fun s m hm hs => hx s m hm hs

theorem isRun_panic : IsRun (Proc.panic : Proc Session α) :=
  fun _ _ _ hs => ⟨[], trivial, hs, hs, rfl⟩

theorem isRun_given {x : Option α} {f : α → Proc Session β} (hf : ∀ a, IsRun (f a)) :
    IsRun (Proc.given x f) := by
  cases x with
  | none => exact isRun_panic
  | some a => exact hf a

/-- What leaves an engine as one operation would is a run of this operation. -/
theorem isRun_of_step {x : Proc Session α} (o : Op) (hstays : o.Stays)
    (hfree : o.consumes? = none) (hx : ∀ s, (x s).2.engine = o.perform s.engine) : IsRun x :=
  fun s _ hm hs => ⟨_, works_step o hm hstays hfree hs (hx s)⟩

/-- To read is to leave the shared state as it is. -/
theorem isRun_of_read {x : Proc Session α} (hx : ∀ s, (x s).2.engine = s.engine) : IsRun x :=
  fun s _ hm hs => ⟨_, works_step (.share s.engine.store) hm trivial rfl hs (hx s)⟩

end

theorem isRun_block (r : ScopeRef) (shape : ShapeId) : IsRun (platform.block r shape) := by
  refine isRun_of_step (.allocateBlock r shape) trivial rfl fun s => ?_
  show (s.engine.block r shape).2 = _
  simp only [Engine.block, Op.perform]
  split
  · next h => rw [h]
  · next h => rw [h]

theorem isRun_nodeShape (n : NodeId) (v : Visibility) : IsRun (platform.nodeShape n v) :=
  fun s _ hm hs => ⟨_, works_step (.share (s.engine.store.nodeShape n v).2) hm trivial rfl hs rfl⟩

theorem isRun_setLine (r : Option ScopeRef) (line : UInt32) : IsRun (platform.setLine r line) :=
  isRun_of_step (.setLine r line) trivial rfl fun _ => rfl

/-- Each request is one operation, a read, a node or a call. -/
theorem isRun_perform {eval : References ScopeRef SlotRef → Node → ScopeRef → Body}
    (heval : ∀ refs node scope, IsRun (eval refs node scope))
    (refs : References ScopeRef SlotRef) (request : Request) :
    IsRun (request.perform platform eval refs) := by
  cases request with
  | declare i x a =>
      refine isRun_given fun r => isRun_map ?_ _
      exact isRun_of_step (.declare r x a) trivial rfl fun _ => rfl
  | resolve i x => exact isRun_given fun r => isRun_map (isRun_of_read fun _ => rfl) _
  | load i => exact isRun_given fun slot => isRun_map (isRun_of_read fun _ => rfl) _
  | assign i v =>
      refine isRun_given fun slot => isRun_map ?_ _
      exact isRun_of_step (.assign slot v) trivial rfl fun _ => rfl
  | mixin i source =>
      refine isRun_given fun r => isRun_given fun source => isRun_map ?_ _
      exact isRun_of_step (.mixin r source) trivial rfl fun _ => rfl
  | symbols i includePrivate =>
      exact isRun_given fun r => isRun_map (isRun_of_read fun _ => rfl) _
  | answer q i => exact isRun_given fun r => isRun_map (isRun_of_read fun _ => rfl) _
  | block i shape => exact isRun_given fun r => isRun_map (isRun_block r shape) _
  | nodeShape n v => exact isRun_map (isRun_nodeShape n v) _
  | setLine scope line =>
      cases scope with
      | none => exact isRun_map (isRun_setLine none line) _
      | some i => exact isRun_given fun r => isRun_map (isRun_setLine (some r) line) _
  | eval node i => exact isRun_given fun r => isRun_map (heval refs node r) _
  | call f arguments this super =>
      exact isRun_map (isRun_callWith (heval refs) f arguments this super) _

theorem isRun_routine {eval : References ScopeRef SlotRef → Node → ScopeRef → Body}
    (heval : ∀ refs node scope, IsRun (eval refs node scope)) (routine : Routine) :
    ∀ refs, IsRun (routine.run platform eval refs) := by
  induction routine with
  | finish c => exact fun _ _ _ _ hs => ⟨[], trivial, hs, hs, rfl⟩
  | throw kind => exact fun _ _ _ _ hs => ⟨[], trivial, hs, hs, rfl⟩
  | rethrow i =>
      exact fun refs => isRun_given fun e _ _ _ hs => ⟨[], trivial, hs, hs, rfl⟩
  | ask request next ih =>
      intro refs s m hm hs
      obtain ⟨os, hos⟩ := isRun_perform heval refs request s m hm hs
      simp only [Routine.run]
      split
      · next answer refs' s' h =>
          rw [h] at hos
          obtain ⟨os', hos'⟩ := ih answer refs' s' _ (hm.run os) hos.after
          exact ⟨_, hos.trans hos'⟩
      · next e s' h =>
          rw [h] at hos
          obtain ⟨os', hos'⟩ := ih _ (refs.addError e) s' _ (hm.run os) hos.after
          exact ⟨_, hos.trans hos'⟩
      · next s' h =>
          rw [h] at hos
          exact ⟨os, hos⟩

/-- Nodes of a program may evaluate one another and call functions: evaluating
one is a run for however many levels are left. -/
theorem isRun_activate (program : Node → Routine) : ∀ levels refs node scope,
    IsRun (platform.activate program levels refs node scope)
  | 0, _, node, scope => isRun_gate isRun_panic node scope
  | levels + 1, _, node, scope =>
    isRun_gate (isRun_routine (isRun_activate program levels) (program node) _) node scope

/-! ## The frame after the gate -/

/-- What the gate gives back after a body that did `os`: the frame as it was, but
for what the body leaked, and the outcome of the body. -/
structure GivenBack (s : Session) (m : Machine) (node : Node) (scope : ScopeRef) (body : Body)
    (os : List Op) : Prop where
  lawful : Lawful 0 m (.enter node scope :: os ++ [.leave])
  engine : (gate node scope body s).2.engine =
    (m.run (.enter node scope :: os ++ [.leave])).engine
  restored : m.Restored (m.run (.enter node scope :: os ++ [.leave])) s.engine.frame.depth
    ((m.after (.enter node scope)).leaks os)
  outcome : SameOutcome (s.admitted body (s.entered node scope)).1 (gate node scope body s).1

section

variable {store : Store} {config : FrameConfig} {global : GlobalId} {flag : FlagId}
  {os₀ : List Op} {s : Session}
  (hos : Lawful 0 (Machine.start store config global flag) os₀)
  (hs : s.engine = ((Machine.start store config global flag).run os₀).engine)
  (hd : s.engine.frame.depth < s.engine.frame.config.maxDepth)

include hos hs hd

theorem IsRun.given_back {body : Body} (hbody : IsRun body) (node : Node) (scope : ScopeRef) :
    ∃ os, GivenBack s ((Machine.start store config global flag).run os₀) node scope body os := by
  have hm := (tracked_start store config global flag).run os₀
  have hw := (owned_start store config global flag).run (tracked_start ..) hos
  obtain ⟨os, hworks⟩ := works_admitted hbody node scope hm hs
  have hlawful := (works_gate hs hd hworks).lawful.mono (Nat.zero_le _)
  obtain ⟨hengine, hrestored, -, houtcome⟩ := restored_gate hm hw hs hd hworks
  exact ⟨os, hlawful, hengine, hrestored, houtcome⟩

/-- The gate gives back the frame after every body that is put together from
operations, nodes and calls, however many activations began in between. -/
theorem composed_given_back {body : Body} (hbody : Composed body) (node : Node)
    (scope : ScopeRef) :
    ∃ os, GivenBack s ((Machine.start store config global flag).run os₀) node scope body os :=
  hbody.isRun.given_back hos hs hd node scope

/-- And after every node of every program, whose nodes may evaluate one another
and call functions as deep as the limit lets them. -/
theorem program_given_back (program : Node → Routine) (levels : Nat)
    (refs : References ScopeRef SlotRef) (node : Node) (scope : ScopeRef) :
    ∃ os, GivenBack s ((Machine.start store config global flag).run os₀) node scope
      ((program node).run platform (platform.activate program levels) (refs.addScope scope)) os :=
  (isRun_routine (isRun_activate program levels) (program node) _).given_back hos hs hd node scope

end

end Session

end ScriptCore

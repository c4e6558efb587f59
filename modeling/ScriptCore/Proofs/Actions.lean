import ScriptCore.Program.Run
import ScriptCore.Proofs.Levels

/-!
# What an action does to the engine

An action resolves its operands, reads, and asks the engine for an operation or two,
none of which begins or ends an activation. So the engine comes to what an action
leaves, also where that stopped halfway. `Steady` says so of anything that runs on a
session; a sequence is steady if its parts are, hence the lemmas here are one for each
operand, one for each operation of the engine that is used, and one for each helper
that chooses or repeats. The actions then are sequences of these.

Two functions of the frame are given the size of a shape that was read before. They
are operations of the engine only together with that read, since the operation looks
at the shape itself.
-/

namespace ScriptCore

namespace Engine

variable (e : Engine)

@[simp] theorem comesTo_declare (r : ScopeRef) (s : Symbol) (a : Attributes) :
    e.ComesTo (e.declare r s a).2 :=
  .of_stays e (o := .declare r s a) trivial

@[simp] theorem comesTo_assign (slot : SlotRef) (v : Value) : e.ComesTo (e.assign slot v).2 :=
  .of_stays e (o := .assign slot v) trivial

@[simp] theorem comesTo_mixin (r : ScopeRef) (source : MemberSource) :
    e.ComesTo (e.mixin r source).2 :=
  .of_stays e (o := .mixin r source) trivial

@[simp] theorem comesTo_setLine (r : Option ScopeRef) (line : UInt32) :
    e.ComesTo (e.setLine r line).2 :=
  .of_stays e (o := .setLine r line) trivial

@[simp] theorem comesTo_share (st : Store) : e.ComesTo { e with store := st } :=
  .of_stays e (o := .share st) trivial

@[simp] theorem comesTo_freeScope (r : ScopeRef) :
    e.ComesTo { e with frame := (e.frame.freeScope r).2 } :=
  .of_stays e (o := .freeScope r) trivial

@[simp] theorem comesTo_freeTable (t : PoolKey) :
    e.ComesTo { e with frame := (e.frame.freeTable t).2 } :=
  .of_stays e (o := .freeTable ⟨t, 0⟩) trivial

@[simp] theorem comesTo_takeTable (t : PoolKey) :
    e.ComesTo { e with frame := (e.frame.takeTable t).2 } :=
  .of_stays e (o := .takeTable ⟨t, 0⟩) trivial

@[simp] theorem comesTo_allocateTable (n : Nat) :
    e.ComesTo { e with frame := (e.frame.allocateTable n).2 } :=
  .of_stays e (o := .allocateTable n) trivial

@[simp] theorem comesTo_modifyTable (t : PoolKey) (c : MemberTable → MemberTable) :
    e.ComesTo { e with frame := e.frame.modifyTable t c } :=
  .of_stays e (o := .editTable t c) trivial

@[simp] theorem comesTo_reset : e.ComesTo { e with frame := e.frame.reset } :=
  .of_stays e (o := .reset) trivial

end Engine

/-! ## Steadiness -/

/-- The engine comes from what it found to what it leaves. -/
def Session.Steady {α : Type} (f : Session → α × Session) : Prop :=
  ∀ s : Session, s.engine.ComesTo (f s).2.engine

namespace Run

variable {α β : Type} {x : Run α} {f : α → Run β}

theorem run_bind (x : Run α) (f : α → Run β) (s : Session) :
    (x >>= f).run s =
      match x.run s with
      | (.ok a, s) => (f a).run s
      | (.error stop, s) => (.error stop, s) := by
  show (match x s with | (a, s) => ExceptT.bindCont f a s) = _
  show _ = match x s with | (.ok a, s) => f a s | (.error stop, s) => (.error stop, s)
  rcases x s with ⟨r, s'⟩
  cases r <;> rfl

/-- The engine comes from what it found to what it leaves, also if it stops. -/
def Steady (x : Run α) : Prop := Session.Steady fun s => x.run s

theorem comesTo_bind {s : Session} (hx : s.engine.ComesTo (x.run s).2.engine)
    (hf : ∀ a, Steady (f a)) : s.engine.ComesTo ((x >>= f).run s).2.engine := by
  rw [run_bind]
  rcases hr : x.run s with ⟨r, s'⟩
  rw [hr] at hx
  cases r with
  | ok a => exact hx.trans (hf a s')
  | error stop => exact hx

theorem steady_bind (hx : Steady x) (hf : ∀ a, Steady (f a)) : Steady (x >>= f) :=
  fun s => comesTo_bind (hx s) hf

theorem steady_of_engine (h : ∀ s : Session, (x.run s).2.engine = s.engine) : Steady x := by
  intro s
  show s.engine.ComesTo (x.run s).2.engine
  rw [h]
  exact .refl _

@[simp] theorem steady_pure (a : α) : Steady (pure a : Run α) := steady_of_engine fun _ => rfl

@[simp] theorem steady_bad (f : Fault) : Steady (bad f : Run α) := steady_of_engine fun _ => rfl

@[simp] theorem steady_raise (e : EvalError) : Steady (raise e : Run α) :=
  steady_of_engine fun _ => rfl

@[simp] theorem steady_panic : Steady (panic : Run α) := steady_of_engine fun _ => rfl

@[simp] theorem steady_get : Steady (get : Run Session) := steady_of_engine fun _ => rfl

@[simp] theorem steady_map (h : α → β) (hx : Steady x) : Steady (h <$> x) := by
  rw [map_eq_pure_bind]
  exact steady_bind hx fun _ => steady_pure _

@[simp] theorem steady_modify {h : Session → Session} (hh : ∀ s, (h s).engine = s.engine) :
    Steady (modify h : Run Unit) :=
  steady_of_engine hh

@[simp] theorem steady_onEngine {h : Engine → α × Engine} (hh : ∀ e : Engine, e.ComesTo (h e).2) :
    Steady (onEngine h) :=
  fun s => hh s.engine

@[simp] theorem steady_onFrame {h : Frame → α × Frame}
    (hh : ∀ e : Engine, e.ComesTo { e with frame := (h e.frame).2 }) : Steady (onFrame h) :=
  fun s => hh s.engine

@[simp] theorem steady_onStore (h : Store → α × Store) : Steady (onStore h) :=
  fun s => s.engine.comesTo_share (h s.engine.store).2

/-- A function of the frame that is given the size of a shape. -/
theorem steady_sized {shape : ShapeId} {h : Nat → Frame → α × Frame}
    (hh : ∀ e : Engine, e.ComesTo { e with frame := (h (e.store.shapeSize shape) e.frame).2 })
    (hf : ∀ a, Steady (f a)) :
    Steady (do
      let size := (← store).shapeSize shape
      let a ← onFrame (h size)
      f a) := by
  intro s
  exact comesTo_bind (x := onFrame (h (s.engine.store.shapeSize shape))) (hh s.engine) hf

@[simp] theorem steady_ofField (a : Field α) : Steady (ofField a) := by
  cases a <;> simp [ofField]
@[simp] theorem steady_orRaise (a : Except EvalError α) : Steady (orRaise a) := by
  cases a <;> simp [orRaise]
@[simp] theorem steady_orPanic (a : Option α) : Steady (orPanic a) := by
  cases a <;> simp [orPanic]
@[simp] theorem steady_ofOutcome (a : Outcome α) : Steady (ofOutcome a) := by
  cases a <;> simp [ofOutcome]
@[simp] theorem steady_engine : Steady engine := by simp [engine]
@[simp] theorem steady_store : Steady store := by simp [store]
@[simp] theorem steady_frame : Steady frame := by simp [frame]

@[simp] theorem steady_register (name : Field String) : Steady (register name) := by
  refine steady_bind (steady_ofField name) fun name => steady_bind steady_get fun s => ?_
  split <;> simp

@[simp] theorem steady_slotOperand (name : Field String) : Steady (slotOperand name) :=
  steady_bind (steady_register name) fun _ => by split <;> simp
@[simp] theorem steady_shapeOperand (name : Field String) : Steady (shapeOperand name) :=
  steady_bind (steady_register name) fun _ => by split <;> simp
@[simp] theorem steady_functionOperand (name : Field String) : Steady (functionOperand name) :=
  steady_bind (steady_register name) fun _ => by split <;> simp
@[simp] theorem steady_errorOperand (name : Field String) : Steady (errorOperand name) :=
  steady_bind (steady_register name) fun _ => by split <;> simp
@[simp] theorem steady_traceOperand (name : Field String) : Steady (traceOperand name) :=
  steady_bind (steady_register name) fun _ => by split <;> simp
@[simp] theorem steady_membersOperand (name : Field String) : Steady (membersOperand name) :=
  steady_bind (steady_register name) fun _ => by split <;> simp
@[simp] theorem steady_ownedOperand (name : Field String) : Steady (ownedOperand name) :=
  steady_bind (steady_register name) fun _ => by split <;> simp
@[simp] theorem steady_handleOperand (name : Field String) : Steady (handleOperand name) :=
  steady_bind (steady_register name) fun _ => by split <;> simp
@[simp] theorem steady_takeTableOperand (name : Field String) : Steady (takeTableOperand name) :=
  steady_bind (steady_register name) fun _ => by split <;> simp [Session.eraseRegister]
@[simp] theorem steady_shapeOrNew (name : Field (Option String)) : Steady (shapeOrNew name) :=
  steady_bind (steady_ofField name) fun _ => by split <;> simp
@[simp] theorem steady_nodeOperand (key : Field String) : Steady (nodeOperand key) := by
  refine steady_bind (steady_ofField key) fun key => steady_bind steady_get fun s => ?_
  split <;> simp
@[simp] theorem steady_scopeOperand (current : ScopeRef) (p : Field Place) :
    Steady (scopeOperand current p) := by
  refine steady_bind (steady_ofField p) fun p => ?_
  split
  · simp
  · simp
  · exact steady_bind (steady_register _) fun _ => by split <;> simp
@[simp] theorem steady_durableOperand (current : ScopeRef) (p : Field Place) :
    Steady (durableOperand current p) :=
  steady_bind (steady_scopeOperand current p) fun _ => by split <;> simp
@[simp] theorem steady_globalOperand (current : ScopeRef) (p : Field Place) :
    Steady (globalOperand current p) :=
  steady_bind (steady_durableOperand current p) fun _ => by split <;> simp


end Run

namespace Expr

mutual

theorem steady_eval (current : ScopeRef) : ∀ x : Expr, Run.Steady (x.eval current)
  | .literal v => by simp [eval]
  | .repeated text count => by simp [eval]
  | .register name => by
    rw [eval]
    exact Run.steady_bind (Run.steady_register _) fun _ => by split <;> simp
  | .member s => by
    rw [eval]
    refine Run.steady_bind (Run.steady_ofField s) fun s => ?_
    refine Run.steady_bind Run.steady_engine fun e => ?_
    exact Run.steady_bind (Run.steady_orRaise _) fun slot => Run.steady_orRaise _
  | .sum terms => by simp [eval, steady_evalAll current terms]
  | .array items => by simp [eval, steady_evalAll current items]
  | .fault f => by simp [eval]

theorem steady_evalAll (current : ScopeRef) : ∀ xs : List Expr,
    Run.Steady (evalAll current xs)
  | [] => by simp [evalAll]
  | x :: xs => by
    rw [evalAll]
    refine Run.steady_bind (steady_eval current x) fun v => ?_
    exact Run.steady_bind (steady_evalAll current xs) fun vs => Run.steady_pure _

end

attribute [simp] steady_eval steady_evalAll

@[simp] theorem steady_evalOption (current : ScopeRef) (x : Option Expr) :
    Run.Steady (evalOption current x) := by
  cases x <;> simp [evalOption]

end Expr

/-! ## Actions -/

namespace Perform

open Run

variable {α β : Type}

@[simp] theorem steady_createAll (symbols : List (Field Symbol)) :
    ∀ shape, Steady (createAll shape symbols) := by
  induction symbols with
  | nil => exact fun _ => steady_pure _
  | cons s rest ih =>
      intro shape
      refine steady_bind (steady_ofField s) fun s => ?_
      split
      · exact ih _
      · exact steady_panic

@[simp] theorem steady_fixedMembers (current : ScopeRef) (ms : List (Field Symbol × Expr)) :
    Steady (fixedMembers current ms) := by
  induction ms with
  | nil => exact steady_pure _
  | cons m rest ih =>
      refine steady_bind (steady_ofField m.1) fun s => ?_
      refine steady_bind (Expr.steady_eval current m.2) fun v => ?_
      exact steady_bind ih fun _ => steady_pure _

@[simp] theorem steady_mixinSource (current : ScopeRef) (scope : Field Place)
    (source : MixinOperand) : Steady (mixinSource current scope source) := by
  refine steady_bind (steady_scopeOperand current scope) fun scope => ?_
  have hmixin : ∀ source, Steady (do
      orRaise (← onEngine fun e => e.mixin scope source)
      return { reply := .ok } : Run Answer) := fun source =>
    steady_bind (steady_onEngine fun e => e.comesTo_mixin scope source) fun r =>
      steady_bind (steady_orRaise r) fun _ => steady_pure _
  cases source with
  | scope p => exact steady_bind (steady_map _ (steady_durableOperand current p)) hmixin
  | fixed ms =>
      refine steady_bind (steady_map _ ?_) hmixin
      exact steady_bind (steady_ofField ms) (steady_fixedMembers current)

@[simp] theorem steady_optionally {f : α → Run β} (hf : ∀ a, Steady (f a)) (x : Option α) :
    Steady (optionally f x) := by
  cases x <;> simp [optionally, hf]

@[simp] theorem steady_membersOf (r : ScopeRef) : Steady (membersOf r) := by
  unfold membersOf
  split
  · exact steady_bind steady_engine fun e => by simp
  · exact steady_pure _
  · exact steady_bind steady_store fun st => by split <;> simp
  · exact steady_bad _

@[simp] theorem steady_tableOperand (table : Field String) : Steady (tableOperand table) := by
  refine steady_bind (steady_register table) fun r => ?_
  split
  · exact steady_pure _
  · exact steady_bind steady_frame fun f => steady_orRaise _
  · exact steady_bad _

@[simp] theorem steady_onTable (table : Field String) (f : MemberTable → α × MemberTable) :
    Steady (onTable table f) := by
  refine steady_bind (steady_register table) fun r => ?_
  split
  · exact steady_bind (steady_modify fun _ => rfl) fun _ => steady_pure _
  · refine steady_bind steady_frame fun frame => steady_bind (steady_orRaise _) fun t => ?_
    exact steady_bind (steady_onFrame fun e => e.comesTo_modifyTable _ _) fun _ => steady_pure _
  · exact steady_bad _

@[simp] theorem steady_growTable (table : Field String) (needed : MemberTable → Nat)
    (f : MemberTable → α × MemberTable) : Steady (growTable table needed f) := by
  refine steady_bind (steady_map _ (steady_tableOperand table)) fun fits => ?_
  split
  · exact steady_onTable table f
  · exact steady_panic

@[simp] theorem steady_answerScope (r : ScopeRef) : Steady (answerScope r) :=
  steady_bind steady_get fun _ => steady_pure _

@[simp] theorem steady_allocateBlock (current : ScopeRef) (previous : Field Place)
    (shape : Field (Option String)) : Steady (allocateBlock current previous shape) := by
  refine steady_bind (steady_scopeOperand current previous) fun previous => ?_
  refine steady_bind (steady_shapeOrNew shape) fun shape => ?_
  refine steady_sized (h := fun n f => f.allocateBlock previous shape n) (fun e => ?_) fun k => ?_
  · exact .of_stays e (o := .allocateBlock previous shape) trivial
  · exact steady_bind (steady_orPanic k) fun k => steady_answerScope _

@[simp] theorem steady_allocateFunction (current : ScopeRef) (previous : Field Place)
    (function : Field String) (shape : Field (Option String)) (this super : Option Expr)
    (table : Field String) :
    Steady (allocateFunction current previous function shape this super table) := by
  refine steady_bind (steady_scopeOperand current previous) fun previous => ?_
  refine steady_bind (steady_functionOperand function) fun callee => ?_
  refine steady_bind (steady_shapeOrNew shape) fun shape => ?_
  refine steady_bind (Expr.steady_evalOption current this) fun this => ?_
  refine steady_bind (Expr.steady_evalOption current super) fun super => ?_
  refine steady_bind (steady_takeTableOperand table) fun t => ?_
  refine steady_sized
    (h := fun n f => f.allocateFunction ⟨callee, this, super⟩ previous shape n t)
    (fun e => ?_) fun k => ?_
  · exact .of_stays e (o := .allocateFunction ⟨callee, this, super⟩ previous shape ⟨t, 0⟩) trivial
  · exact steady_bind (steady_ofOutcome k) fun k => steady_answerScope _

end Perform

/-- An action is a sequence of operands, reads and operations, with a choice here and there. -/
theorem Run.steady_action (current : ScopeRef) (a : Action) : Steady (action current a) := by
  cases a <;> simp only [action, Perform.makeShape, Perform.createSlot, Perform.findSlot,
    Perform.inspectShape, Perform.nodeShape, Perform.heapBlock, Perform.heapFunction,
    Perform.newGlobal, Perform.escapeScope, Perform.enclosingScope, Perform.inspectScope,
    Perform.freeScope, Perform.listMembers, Perform.declareMember, Perform.bindMember,
    Perform.lookupMember, Perform.loadSlot, Perform.storeSlot, Perform.getMember,
    Perform.setMember, Perform.listSymbols, Perform.ask, Perform.sourceGet,
    Perform.sourceSet, Perform.sourceSymbols, Perform.defineGlobal, Perform.globalGet,
    Perform.globalSize, Perform.globalScope, Perform.declareIn, Perform.assignTo,
    Perform.resolveIn, Perform.loadFrom, Perform.allocateTable, Perform.ownTable,
    Perform.freeTable, Perform.takeTable, Perform.pushAll, Perform.referenceSlot, Perform.slotAt,
    Perform.declareAt, Perform.assignAt, Perform.clearAt, Perform.ensureRoom, Perform.resetTable,
    Perform.inspectTable, Perform.copyTable, Perform.equalTables, Perform.memberAt,
    Perform.memberArray, Perform.equalMembers, Perform.makeFunction, Perform.evaluate,
    Perform.present, Perform.compare, Perform.setLine, Perform.setLineAt,
    Perform.terminationHandle, Perform.raiseTermination, Perform.inspectFrame, Perform.takeTrace,
    Perform.inspectTrace, Perform.traceScope, Perform.errorTrace, Perform.attachTrace,
    Perform.debugText, Perform.traceReply]
  -- a part that no lemma above closes is a sequence again, or a choice
  all_goals
    repeat' first
      | (simp; done)
      | refine steady_bind ?_ fun _ => ?_
      | split

end ScriptCore

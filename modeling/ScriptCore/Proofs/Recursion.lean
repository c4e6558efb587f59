import ScriptCore.Proofs.Actions
import ScriptCore.Proofs.Gate

/-!
# Bounded recursion

What a list of instructions does with the hook for evaluating nodes shows only
where the hook is used, and it is used on what the engine comes to from the
beginning: at the same depth, under the same limit. Two hooks that agree there
make no difference, which is `Alike`.

That is what ends the recursion. Between two uses of the hook at one depth lies
nothing but the gate, which is one deeper each time and refuses at the limit, so
that the hook at the bottom of `limit - depth + 1` unfoldings is never used. It
takes that every activation leaves at the depth it began at, however it ends, since
otherwise the hook would be used at another depth than the one it is for.
-/

namespace ScriptCore

namespace Session

variable {α : Type} {e : Engine} {f g : Session → α × Session}

/-- On all that `e` comes to the two do the same, and it comes to what they leave. -/
def Alike (e : Engine) (f g : Session → α × Session) : Prop :=
  ∀ s : Session, e.ComesTo s.engine → f s = g s ∧ e.ComesTo (f s).2.engine

theorem Steady.alike (h : Steady f) : Alike e f f := fun s hs => ⟨rfl, hs.trans (h s)⟩

theorem steady_of_alike (h : ∀ e, Alike e f f) : Steady f := fun s => (h s.engine s (.refl _)).2

end Session

namespace Run

open Session

variable {α β : Type} {e : Engine} {x y : Run α} {f g : α → Run β}

def Alike (e : Engine) (x y : Run α) : Prop := Session.Alike e (fun s => x.run s) fun s => y.run s

theorem Steady.alike (h : Steady x) : Alike e x x := Session.Steady.alike h

theorem alike_bind (hx : Alike e x y) (hf : ∀ a, Alike e (f a) (g a)) :
    Alike e (x >>= f) (y >>= g) := by
  intro s hs
  obtain ⟨heq, hcomes⟩ := hx s hs
  simp only [run_bind] at heq hcomes ⊢
  rw [← heq]
  rcases hr : x.run s with ⟨r, s'⟩
  rw [hr] at hcomes
  cases r with
  | ok a => exact hf a s' hcomes
  | error stop => exact ⟨rfl, hcomes⟩

theorem alike_modifyGet {h h' : Session → α × Session} (hh : Session.Alike e h h') :
    Alike e (modifyGet h) (modifyGet h') := by
  intro s hs
  obtain ⟨heq, hcomes⟩ := hh s hs
  refine ⟨?_, hcomes⟩
  show (Except.ok (h s).1, (h s).2) = (Except.ok (h' s).1, (h' s).2)
  rw [heq]

theorem alike_body {h h' : Session → Outcome α × Session} (hh : Session.Alike e h h') :
    Alike e (body h) (body h') :=
  alike_bind (alike_modifyGet hh) fun r => (steady_ofOutcome r).alike

theorem alike_inner {h h' : Session → Flow × Session} (hh : Session.Alike e h h')
    (reply : Reply) : Alike e (inner h reply) (inner h' reply) := by
  refine alike_bind (alike_modifyGet hh) fun flow => ?_
  cases flow <;> exact Steady.alike (by simp)

end Run

namespace Session

variable {e : Engine}

/-- Neither the register for a result nor the log is part of the engine. -/
theorem engine_conclude (ctx : Context) (tag : Tag) (r : Except Stop Step) (s : Session) :
    (conclude ctx tag r s).2.engine = s.engine := by
  have hnoted : ∀ (s : Session) (x : StepResult),
      (if ctx.quiet then s else s.note tag.word x).engine = s.engine := by
    intro s x
    split <;> rfl
  cases r with
  | ok step =>
      simp only [conclude]
      split
      · exact (hnoted _ _).trans (by split <;> rfl)
      · exact (hnoted _ _).trans (by split <;> rfl)
  | error stop =>
      cases stop with
      | bad f => rfl
      | raised err =>
          simp only [conclude]
          split
          · exact hnoted _ _
          · exact hnoted _ _
      | panicked =>
          simp only [conclude]
          split
          · exact hnoted _ _
          · rfl

theorem alike_repeat {list list' : Session → Flow × Session} (h : Alike e list list') :
    ∀ n, Alike e (Flow.repeat list n) (Flow.repeat list' n)
  | 0, s, hs => ⟨rfl, hs⟩
  | n + 1, s, hs => by
    obtain ⟨heq, hcomes⟩ := h s hs
    simp only [Flow.repeat]
    rw [← heq]
    rcases hr : list s with ⟨flow, s'⟩
    rw [hr] at hcomes
    cases flow with
    | next => exact alike_repeat h n s' hcomes
    | finished c => exact ⟨rfl, hcomes⟩
    | raised e => exact ⟨rfl, hcomes⟩
    | panicked => exact ⟨rfl, hcomes⟩

theorem steady_heapCallScope (binding : FunctionBinding) (previous : DurableScope)
    (shape : ShapeId) (table : PoolKey) :
    Steady fun s => s.heapCallScope binding previous shape table := by
  intro s
  have htake := s.engine.comesTo_takeTable table
  unfold heapCallScope
  dsimp only
  split
  · exact htake
  · exact htake.trans (Engine.comesTo_share _ _)

theorem steady_pooledCallScope (binding : FunctionBinding) (previous : DurableScope)
    (shape : ShapeId) (table : PoolKey) :
    Steady fun s => s.pooledCallScope binding previous shape table := fun s =>
  .of_stays s.engine (o := .allocateFunction binding (.durable previous) shape ⟨table, 0⟩) trivial

/-- A call makes its scope, asks for the node once, and frees the scope. -/
theorem alike_call {eval eval' : Node → ScopeRef → Body}
    (h : ∀ node scope, Alike e (eval node scope) (eval' node scope)) (f : FunctionId)
    (table : PoolKey) (this super : Option Value) :
    Alike e (call eval f table this super) (call eval' f table this super) := by
  intro s hs
  unfold call
  cases s.engine.store.functions[f]? with
  | none => exact ⟨rfl, hs⟩
  | some function =>
      dsimp only
      have hshape : e.ComesTo (s.nodeShape function.body).2.engine :=
        hs.trans (s.engine.comesTo_share _)
      generalize s.nodeShape function.body = r at hshape ⊢
      obtain ⟨shape, s₁⟩ := r
      dsimp only at hshape ⊢
      -- the hook is used once, in the scope that was made, and is the last use of the session
      -- but for the release of a pooled scope
      split
      · have hscope := hshape.trans (steady_heapCallScope ⟨f, this, super⟩
          (function.closure.getD (.ofGlobal s₁.engine.frame.global)) shape table s₁)
        dsimp only at hscope
        generalize s₁.heapCallScope _ _ _ _ = r at hscope ⊢
        obtain ⟨r, s₂⟩ := r
        cases r with
        | error err => exact ⟨rfl, hscope⟩
        | ok scope =>
            obtain ⟨heq, hcomes⟩ := h function.body scope s₂ hscope
            dsimp only
            rw [← heq]
            exact ⟨rfl, hcomes⟩
      · have hscope := hshape.trans (steady_pooledCallScope ⟨f, this, super⟩
          (function.closure.getD (.ofGlobal s₁.engine.frame.global)) shape table s₁)
        dsimp only at hscope
        generalize s₁.pooledCallScope _ _ _ _ = r at hscope ⊢
        obtain ⟨r, s₂⟩ := r
        cases r with
        | raised err => exact ⟨rfl, hscope⟩
        | panicked => exact ⟨rfl, hscope⟩
        | done scope =>
            obtain ⟨heq, hcomes⟩ := h function.body scope s₂ hscope
            dsimp only
            rw [← heq]
            generalize eval function.body scope s₂ = r at hcomes ⊢
            obtain ⟨r, s₃⟩ := r
            cases r with
            | panicked => exact ⟨rfl, hcomes⟩
            | done c => exact ⟨rfl, hcomes.trans (s₃.engine.comesTo_freeScope scope)⟩
            | raised err => exact ⟨rfl, hcomes.trans (s₃.engine.comesTo_freeScope scope)⟩

end Session

/-! ## Instructions -/

namespace Instr

def tag : Instr → Tag
  | .act tag _ | .finish tag _ | .ite tag _ _ _ _ | .loop tag _ _ | .eval tag _ _
  | .call tag _ _ _ _ | .registry tag _ => tag

/-- What an instruction does before it is concluded. -/
def step (hooks : Hooks) (ctx : Context) : Instr → Run Step
  | .act _ a => do return { answer := ← Run.action ctx.scope a }
  | .finish _ e => do
    let c ← Run.ending ctx.scope e
    return { answer := { reply := .completion c }, finish := some c }
  | .ite _ a b thenList elseList => do
    let a ← a.eval ctx.scope
    let b ← b.eval ctx.scope
    let same := a.equal b
    Run.inner (if same then runList hooks ctx thenList else runList hooks ctx elseList) (.flag same)
  | .loop _ n list => do
    let n ← Run.ofField n
    Run.inner (Flow.repeat (runList hooks ctx list) n) (.count n)
  | .eval tag scope node => Run.evalInstr hooks ctx.scope tag scope node
  | .call tag callee this super arguments =>
    Run.callInstr hooks ctx.scope tag callee this super arguments
  | .registry _ ops => Run.registryInstr hooks ops

theorem run_eq (hooks : Hooks) (ctx : Context) (i : Instr) (s : Session) :
    i.run hooks ctx s =
      conclude ctx i.tag ((i.step hooks ctx).run s).1 ((i.step hooks ctx).run s).2 := by
  cases i <;> (unfold Instr.run; rfl)

end Instr

namespace Run

variable {e : Engine} {hooks hooks' : Hooks}

@[simp] theorem steady_calleeOperand (current : ScopeRef) (callee : Field String ⊕ Field Place) :
    Steady (calleeOperand current callee) := by
  cases callee with
  | inl name => exact steady_functionOperand name
  | inr place =>
      refine steady_bind (steady_scopeOperand current place) fun scope => ?_
      refine steady_bind steady_engine fun e => ?_
      exact steady_bind (steady_orRaise _) fun v => by split <;> simp

@[simp] theorem steady_argumentTable (current : ScopeRef) (arguments : Arguments) :
    Steady (argumentTable current arguments) := by
  cases arguments with
  | table name => exact steady_takeTableOperand name
  | values items =>
      refine steady_bind (steady_ofField items) fun items => ?_
      refine steady_bind (Expr.steady_evalAll current items) fun vs => ?_
      refine steady_bind (steady_onFrame fun e => e.comesTo_allocateTable _) fun k => ?_
      refine steady_bind (steady_orPanic k) fun k => ?_
      exact steady_onFrame fun e => e.comesTo_modifyTable _ _

@[simp] theorem steady_ending (current : ScopeRef) (ending : Ending) :
    Steady (Run.ending current ending) := by
  cases ending with
  | normal v => exact steady_bind (Expr.steady_eval current v) fun _ => steady_pure _
  | returned v => exact steady_bind (Expr.steady_eval current v) fun _ => steady_pure _
  | broke => exact steady_pure _
  | continued => exact steady_pure _

theorem alike_evalInstr (h : ∀ node scope, Session.Alike e (hooks.eval node scope)
    (hooks'.eval node scope)) (current : ScopeRef) (tag : Tag) (scope : Field Place)
    (node : Field String) :
    Alike e (evalInstr hooks current tag scope node) (evalInstr hooks' current tag scope node) := by
  refine alike_bind (steady_scopeOperand current scope).alike fun scope => ?_
  refine alike_bind (steady_nodeOperand node).alike fun node => ?_
  exact alike_bind (alike_body (h node scope)) fun c => (steady_pure _).alike

theorem alike_callInstr (h : ∀ node scope, Session.Alike e (hooks.eval node scope)
    (hooks'.eval node scope)) (current : ScopeRef) (tag : Tag)
    (callee : Field String ⊕ Field Place) (this super : Option Expr) (arguments : Arguments) :
    Alike e (callInstr hooks current tag callee this super arguments)
      (callInstr hooks' current tag callee this super arguments) := by
  refine alike_bind (steady_calleeOperand current callee).alike fun f => ?_
  refine alike_bind (Expr.steady_evalOption current this).alike fun this => ?_
  refine alike_bind (Expr.steady_evalOption current super).alike fun super => ?_
  refine alike_bind (steady_argumentTable current arguments).alike fun table => ?_
  exact alike_bind (alike_body (Session.alike_call h f table this super)) fun c =>
    (steady_pure _).alike

end Run

/-- Operations on threads change nothing of the frame that the session is on. -/
def RegistryHook.SparesFrame (registry : RegistryHook) : Prop :=
  ∀ op s, (registry op s).engine.frame = s.engine.frame

theorem RegistryHook.SparesFrame.runAll {registry : RegistryHook} (h : registry.SparesFrame)
    (ops : List RegistryInstr) (s : Session) :
    (registry.runAll ops s).engine.frame = s.engine.frame := by
  induction ops generalizing s with
  | nil => rfl
  | cons op ops ih => exact (ih (registry op s)).trans (h op s)

namespace Session

variable {e : Engine} {eval eval' : Node → ScopeRef → Body} {registry : RegistryHook}

theorem steady_registryInstr (h : registry.SparesFrame) (ops : List RegistryInstr) :
    Run.Steady (Run.registryInstr { eval, registry } ops) := by
  refine Run.steady_bind (fun s => ?_) fun _ => Run.steady_pure _
  have hframe := h.runAll ops s
  have hshare := s.engine.comesTo_share (registry.runAll ops s).engine.store
  rw [← hframe] at hshare
  exact hshare

mutual

/-- An instruction uses the hook on what its own engine comes to. -/
theorem alike_step (hr : registry.SparesFrame)
    (h : ∀ node scope, Alike e (eval node scope) (eval' node scope)) (ctx : Context) :
    ∀ i : Instr, Run.Alike e (i.step { eval, registry } ctx)
      (i.step { eval := eval', registry } ctx)
  | .act _ a => Run.alike_bind (Run.steady_action ctx.scope a).alike fun _ =>
      (Run.steady_pure _).alike
  | .finish _ ending => Run.alike_bind (Run.steady_ending ctx.scope ending).alike fun _ =>
      (Run.steady_pure _).alike
  | .ite _ a b thenList elseList => by
    refine Run.alike_bind (Expr.steady_eval ctx.scope a).alike fun a => ?_
    refine Run.alike_bind (Expr.steady_eval ctx.scope b).alike fun b => ?_
    refine Run.alike_inner ?_ _
    split
    · exact alike_runList hr h ctx thenList
    · exact alike_runList hr h ctx elseList
  | .loop _ n list => by
    refine Run.alike_bind (Run.steady_ofField n).alike fun n => ?_
    exact Run.alike_inner (alike_repeat (alike_runList hr h ctx list) n) _
  | .eval tag scope node => Run.alike_evalInstr h ctx.scope tag scope node
  | .call tag callee this super arguments =>
    Run.alike_callInstr h ctx.scope tag callee this super arguments
  | .registry _ ops => (steady_registryInstr hr ops).alike

theorem alike_runList (hr : registry.SparesFrame)
    (h : ∀ node scope, Alike e (eval node scope) (eval' node scope)) (ctx : Context) :
    ∀ list, Alike e (runList { eval, registry } ctx list)
      (runList { eval := eval', registry } ctx list)
  | [], s, hs => ⟨rfl, hs⟩
  | i :: rest, s, hs => by
    obtain ⟨heq, hcomes⟩ := alike_step hr h ctx i s hs
    dsimp only at heq hcomes
    simp only [runList, i.run_eq, ← heq]
    rw [← engine_conclude ctx i.tag] at hcomes
    generalize conclude ctx i.tag _ _ = r at hcomes ⊢
    obtain ⟨flow, s'⟩ := r
    cases flow with
    | next => exact alike_runList hr h ctx rest s' hcomes
    | finished c => exact ⟨rfl, hcomes⟩
    | raised e => exact ⟨rfl, hcomes⟩
    | panicked => exact ⟨rfl, hcomes⟩

end

end Session

/-! ## Operations on threads -/

namespace Registry

theorem answer_engine (op : RegistryInstr) (r : RegistryReply) (s : Session) :
    (answer op r s).engine = s.engine := rfl

theorem answerRemoved_engine (op : RegistryInstr) (s : Session)
    (r : Except EvalError (Option Frame × Threads)) :
    (answerRemoved op s r).engine = s.engine := by
  cases r <;> rfl

theorem within_frame (registry : RegistryHook) (op : RegistryInstr) (list : List Instr)
    (s : Session) : (within registry op list s).engine.frame = s.engine.frame := by
  unfold within
  split <;> rfl

/-- A thread works on its own frame, and the frame the session was on comes back after. -/
theorem sparesFrame_perform (nesting : Nat) : (perform nesting).SparesFrame := by
  intro op s
  cases op with
  | within list =>
      cases nesting with
      | zero => rfl
      | succ nesting => exact within_frame _ _ _ _
  | peer nodes ops => cases nesting <;> rfl
  | install config onProcessGlobal terminated =>
      cases config with
      | error f => simp only [perform, answer_engine]
      | ok config => simp only [perform, answerRemoved_engine]
  | terminateParent =>
      simp only [perform]
      split
      · rw [answer_engine]
      · rw [answer_engine]
  | _ => simp only [perform, answer_engine, answerRemoved_engine]

end Registry

/-! ## Evaluating nodes -/

namespace Session

/-- What a node does: its instructions, in the scope it is given. -/
def nodeBody (hooks : Hooks) (node : Node) (scope : ScopeRef) : Body := fun s =>
  let code := s.code[node.id]?.getD {}
  let ctx : Context := { scope, top := false, quiet := code.quiet }
  let (flow, s) := runList hooks ctx code.body s
  (flow.outcome, s)

/-- Evaluating nodes unfolded `n` times, with `base` where it is not unfolded further. -/
def unfolded (registry : RegistryHook) (base : Node → ScopeRef → Body) :
    (n : Nat) → Node → ScopeRef → Body
  | 0 => base
  | n + 1 => fun node scope =>
    gate node scope (nodeBody { eval := unfolded registry base n, registry } node scope)

variable {e : Engine} {eval eval' base : Node → ScopeRef → Body} {registry : RegistryHook}
  {node : Node} {scope : ScopeRef} {body body' : Body} {s : Session} {n : Nat}

theorem alike_nodeBody (hr : registry.SparesFrame)
    (h : ∀ node scope, Alike e (eval node scope) (eval' node scope)) (node : Node)
    (scope : ScopeRef) :
    Alike e (nodeBody { eval, registry } node scope)
      (nodeBody { eval := eval', registry } node scope) := by
  intro s hs
  obtain ⟨heq, hcomes⟩ := alike_runList hr h
    { scope, top := false, quiet := (s.code[node.id]?.getD {}).quiet }
    (s.code[node.id]?.getD {}).body s hs
  unfold nodeBody
  dsimp only
  rw [← heq]
  exact ⟨rfl, hcomes⟩

/-- At the limit the gate refuses, whatever the body is. -/
theorem gate_of_limit (hd : s.engine.frame.depth = s.engine.frame.config.maxDepth)
    (body : Body) :
    gate node scope body s =
      (.raised (ErrorKind.stackOverflow (s.engine.frame.config.maxDepth + 1)
        s.engine.frame.config.maxDepth), s) := by
  rw [gate, if_pos (Nat.le_of_eq hd.symm), hd]

/-- An activation has ended when the gate is done, whatever the body did on its own depth. -/
theorem steady_gate (h : Steady body) (node : Node) (scope : ScopeRef) :
    Steady (gate node scope body) := by
  intro s
  by_cases hd : s.engine.frame.depth < s.engine.frame.config.maxDepth
  · have hbody : (s.entered node scope).engine.ComesTo
        (s.admitted body (s.entered node scope)).2.engine := by
      unfold admitted
      split
      · exact h _
      · exact .refl _
    rw [(gate_eq hd).1]
    exact .of_activation node scope hd hbody
  · rw [gate, if_pos (Nat.not_lt.1 hd)]
    exact .refl _

/-- The gate makes of two bodies the same if they do the same one depth down. -/
theorem gate_congr (h : Alike (s.entered node scope).engine body body') :
    gate node scope body s = gate node scope body' s := by
  have hsame : s.admitted body (s.entered node scope) =
      s.admitted body' (s.entered node scope) := by
    unfold admitted
    split
    · exact (h (s.entered node scope) (.refl _)).1
    · rfl
  unfold admitted entered at hsame
  simp only [gate, StackBudget.run_eq]
  rw [hsame]

theorem steady_evalNode (hr : registry.SparesFrame) :
    ∀ levels node scope, Steady (evalNode registry levels node scope)
  | 0, node, scope => steady_gate (fun s => .refl s.engine) node scope
  | levels + 1, node, scope => by
    have hbody := steady_of_alike fun _ =>
      alike_nodeBody hr (fun node scope => (steady_evalNode hr levels node scope).alike) node scope
    exact steady_gate hbody node scope

/-- Unfolded more often than activations are left below the limit, the recursion has ended. -/
theorem unfolded_eq (hr : registry.SparesFrame) (base : Node → ScopeRef → Body)
    (hn : s.engine.frame.config.maxDepth - s.engine.frame.depth < n) (node : Node)
    (scope : ScopeRef) :
    unfolded registry base n node scope s =
      evalNode registry (s.engine.frame.config.maxDepth - s.engine.frame.depth) node scope s := by
  induction n generalizing s node scope with
  | zero => exact absurd hn (Nat.not_lt_zero _)
  | succ n ih =>
      by_cases hd : s.engine.frame.depth < s.engine.frame.config.maxDepth
      · have hlevels : s.engine.frame.config.maxDepth - s.engine.frame.depth =
            s.engine.frame.config.maxDepth - (s.engine.frame.depth + 1) + 1 := by omega
        rw [hlevels]
        refine gate_congr (alike_nodeBody hr (fun node scope s' hs' => ?_) node scope)
        -- the body uses the hook one depth down only, and there fewer activations are left
        have hdepth : s'.engine.frame.depth = s.engine.frame.depth + 1 := hs'.depth
        have hconfig : s'.engine.frame.config = s.engine.frame.config := hs'.config_eq
        have hinner := ih (s := s') (by rw [hdepth, hconfig]; omega) node scope
        rw [hdepth, hconfig] at hinner
        rw [hinner]
        exact ⟨rfl, hs'.trans (steady_evalNode hr _ node scope s')⟩
      · have hzero : s.engine.frame.config.maxDepth - s.engine.frame.depth = 0 := by omega
        have hlim := Nat.not_lt.1 hd
        simp only [hzero, unfolded, evalNode, gate, if_pos hlim]

/-- In all that a frame can come to, the depth and what is recorded of depths is within bounds.
The gate refuses at the limit, with the same error whatever the body, and else passes on what the
body makes of it. A list of instructions stays within that, comes back to its depth, and uses the
hook for nodes only there; so the recursion ends after as many unfoldings as there are activations
left, and one more for the refusal. -/
theorem recursion_is_bounded {config : FrameConfig} {s : Session}
    (hs : s.engine.Reached config) (nesting : Nat) :
    let f := s.engine.frame
    let limit := config.maxDepth
    let registry := Registry.perform nesting
    let eval := evalNode registry (limit - f.depth)
    f.config = config ∧ f.Leveled ∧
      (∀ node scope,
        ((∀ body, gate node scope body s =
            (.raised (ErrorKind.stackOverflow (limit + 1) limit), s)) ↔ f.depth = limit) ∧
          (f.depth ≠ limit → (s.entered node scope).engine.Reached config ∧
            ∀ body, SameOutcome (s.admitted body (s.entered node scope)).1
              (gate node scope body s).1)) ∧
      ∀ ctx list,
        let r := runList { eval, registry } ctx list s
        r.2.engine.Reached config ∧ r.2.engine.frame.depth = f.depth ∧
          (∀ eval', (∀ node scope s', s'.engine.Reached config →
              s'.engine.frame.depth = f.depth → eval' node scope s' = eval node scope s') →
            runList { eval := eval', registry } ctx list s = r) ∧
          ∀ base n, limit - f.depth < n →
            runList { eval := unfolded registry base n, registry } ctx list s = r := by
  intro f limit registry eval
  have hr : registry.SparesFrame := Registry.sparesFrame_perform nesting
  obtain ⟨-, hleveled, hconfig⟩ := hs.leveled
  have hconfig : s.engine.frame.config = config := hconfig
  have hlimit : s.engine.frame.config.maxDepth = limit := congrArg FrameConfig.maxDepth hconfig
  have hbelow : f.depth ≠ limit →
      s.engine.frame.depth < s.engine.frame.config.maxDepth := fun hne =>
    Nat.lt_of_le_of_ne hleveled.depth_le (hlimit.symm ▸ hne)
  refine ⟨hconfig, hleveled, fun node scope => ⟨⟨fun hall => ?_, fun heq body => ?_⟩,
    fun hne => ⟨hs.enter node scope (hbelow hne), fun body => (gate_eq (hbelow hne)).2⟩⟩,
    fun ctx list => ?_⟩
  · by_contra hne
    -- a body that completes at once is not refused
    have hsame : SameOutcome
        (s.admitted (fun s => (.done (.normal .null), s)) (s.entered node scope)).1
        (gate node scope (fun s => (.done (.normal .null), s)) s).1 := (gate_eq (hbelow hne)).2
    rw [hall] at hsame
    unfold admitted at hsame
    split at hsame <;> cases hsame
  · rw [gate_of_limit (hlimit.symm ▸ heq), hlimit]
  · intro r
    have hsteady : ∀ node scope, Steady (eval node scope) := steady_evalNode hr _
    have hlist : ∀ eval', (∀ node scope, Alike s.engine (eval node scope) (eval' node scope)) →
        r = runList { eval := eval', registry } ctx list s ∧ s.engine.ComesTo r.2.engine :=
      fun eval' hagree => alike_runList hr hagree ctx list s (.refl _)
    have hcomes := (hlist eval fun node scope => (hsteady node scope).alike).2
    refine ⟨hcomes.reached hs, hcomes.depth, fun eval' hagree => ?_, fun base n hn => ?_⟩
    · refine (hlist eval' fun node scope s' hs' => ?_).1.symm
      rw [hagree node scope s' (hs'.reached hs) hs'.depth]
      exact ⟨rfl, hs'.trans (hsteady node scope s')⟩
    · refine (hlist _ fun node scope s' hs' => ?_).1.symm
      have hlevels : s'.engine.frame.config.maxDepth - s'.engine.frame.depth = limit - f.depth := by
        rw [hs'.depth, hs'.config_eq, hlimit]
      rw [unfolded_eq hr base (by rw [hlevels]; exact hn), hlevels]
      exact ⟨rfl, hs'.trans (hsteady node scope s')⟩

/-- A node that does nothing but evaluate itself, under a limit of two. -/
theorem recursion_meets_the_limit :
    let config : FrameConfig := { maxDepth := 2 }
    let list : List Instr := [.eval { word := none } (.ok .current) (.ok "n")]
    let s : Session :=
      { engine := (Machine.start {} config 0 0).engine
        nodes := [("n", { id := 0 })]
        code := #[{ body := list }] }
    let registry := Registry.perform 0
    s.engine.Reached config ∧
      ∀ base, ∃ err, err.kind = .stackOverflow 3 2 ∧
        (runList { eval := unfolded registry base 3, registry }
          { scope := .ofGlobal 0, top := false } list s).1 = .raised err := by
  intro config list s registry
  have hs : s.engine.Reached config := ⟨{}, 0, 0, none, .refl⟩
  refine ⟨hs, fun base => ?_⟩
  obtain ⟨-, -, -, hlists⟩ := recursion_is_bounded hs 0
  obtain ⟨-, -, -, hends⟩ := hlists { scope := .ofGlobal 0, top := false } list
  rw [hends base 3 (by decide)]
  exact ⟨_, rfl, rfl⟩

end Session

end ScriptCore

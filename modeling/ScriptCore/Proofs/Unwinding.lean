import ScriptCore.Proofs.CallNames
import ScriptCore.Proofs.Gate
import ScriptCore.Proofs.Order

/-!
# Errors on their way out

A gate attaches a trace to a script error that has none, and to nothing else. So
an error gets its trace at the gate it passes first, which is the gate of the
activation it was raised in, and the gates further out pass it on as it is. That
holds of any bodies.

The trace lists what runs at that moment, which is before the depth of the
activation ends. That it has one record for each depth, the deepest first, is a
fact about runs: something runs at every depth below the host, since a depth
gets its evaluator when it begins and loses it only when it ends. What a body
does at its depth or deeper leaves the evaluators up to its depth alone.
-/

namespace ScriptCore

/-! ## What runs at each depth -/

namespace Frame

variable {f g : Frame} {d n i : Nat}

def evaluator? (f : Frame) (d : Nat) : Option Node := f.entries[d]?.bind (·.node)

/-- Something runs at each depth below the host. -/
def Staffed (f : Frame) : Prop := ∀ d, 0 < d → d ≤ f.depth → (f.evaluator? d).isSome

theorem evaluator?_eq_bind (f : Frame) (d : Nat) :
    f.evaluator? d = (f.activation? d).bind (·.1) := by
  rw [evaluator?, activation?, Option.bind_map]
  rfl

theorem evaluator?_of_activation? (h : g.activation? d = f.activation? d) :
    g.evaluator? d = f.evaluator? d := by
  rw [evaluator?_eq_bind, evaluator?_eq_bind, h]

theorem activation?_modifyEntry {n : Nat} {c : DepthEntry → DepthEntry} :
    (f.modifyEntry n c).activation? d =
      if n = d then f.entries[d]?.map fun e => (c e).activation else f.activation? d := by
  simp only [activation?, modifyEntry, Array.getElem?_modify]
  split
  · rw [Option.map_map]
    rfl
  · rfl

theorem evaluator?_enter (hf : f.Sound) (node : Node) (r : ScopeRef) :
    (f.enter node r).evaluator? (f.depth + 1) = some node := by
  have hlt := hf.depth_lt
  simp only [evaluator?, enter]
  split
  · rw [Array.getElem?_push, if_pos (by omega)]
    rfl
  · rw [Array.getElem?_modify, if_pos rfl, Array.getElem?_eq_getElem (by omega)]
    rfl

theorem getElem?_stackTo (hn : n < f.entries.size) (hi : i < n) :
    (f.stackTo n)[i]? = f.stackAt (n - i) := by
  induction n generalizing i with
  | zero => omega
  | succ n ih =>
      obtain ⟨a, ha⟩ := stackAt_of_lt hn
      rw [stackTo_succ, ha, Option.toList_some, List.singleton_append]
      cases i with
      | zero => exact ha.symm
      | succ i =>
          rw [List.getElem?_cons_succ, ih (by omega) (by omega)]
          congr 1
          omega

theorem Staffed.of_mem_stack (h : f.Staffed) {a : Option Node × UInt32} (ha : a ∈ f.stack) :
    a.1.isSome := by
  obtain ⟨d, hd, hat⟩ := List.mem_filterMap.1 ha
  rw [List.mem_reverse, List.mem_map] at hd
  obtain ⟨j, hj, rfl⟩ := hd
  have hsome := h (j + 1) (by omega) (List.mem_range.1 hj)
  obtain ⟨x, hx, rfl⟩ := Option.map_eq_some_iff.1 hat
  obtain ⟨entry, hentry, rfl⟩ := Option.map_eq_some_iff.1 hx
  rw [evaluator?, hentry] at hsome
  exact hsome

end Frame

/-- With an evaluator for each activation, the trace leaves none out. -/
theorem Stack.places_trace {stack : Stack} (h : ∀ a ∈ stack, a.1.isSome) :
    stack.trace.places.map (fun p => (some p.1, p.2)) = stack := by
  induction stack with
  | nil => rfl
  | cons a stack ih =>
      obtain ⟨node, hnode⟩ := Option.isSome_iff_exists.1 (h a List.mem_cons_self)
      obtain ⟨_, line⟩ := a
      obtain rfl : _ = some node := hnode
      exact congrArg ((some node, line) :: ·) (ih fun b hb => h b (List.mem_cons_of_mem _ hb))

/-- The trace has a record for each depth, the deepest first. -/
theorem Engine.trace_of_staffed {e : Engine} (hf : e.frame.Sound) (h : e.frame.Staffed) :
    e.trace.length = e.frame.depth ∧
      ∀ i < e.frame.depth, e.trace[i]?.map (fun r => (some r.node, r.line)) =
        e.frame.stackAt (e.frame.depth - i) := by
  have hstack : e.trace.map (fun r => (some r.node, r.line)) = e.frame.stack := by
    rw [← Stack.places_trace fun a ha => h.of_mem_stack ha, ← e.places_trace, Trace.places,
      List.map_map]
    rfl
  constructor
  · rw [← Frame.length_stack hf, ← hstack, List.length_map]
  · intro i hi
    rw [← List.getElem?_map, hstack]
    exact Frame.getElem?_stackTo hf.depth_lt hi

namespace Op

variable {e : Engine} {o : Op} {d : Nat}

/-- An operation leaves the activations up to the current depth as they are,
unless it ends that depth or sets its line. -/
theorem activation?_perform (hf : e.frame.Sound) (h0 : 0 < d) (hd : d ≤ e.frame.depth)
    (hleave : o = .leave → d < e.frame.depth) :
    (o.perform e).frame.activation? d = e.frame.activation? d ∨
      ∃ r line, o = .setLine r line ∧ (o.perform e).frame.activation? d =
        (e.frame.activation? d).map fun a => (a.1, line, r.or a.2.2) := by
  cases o with
  | setLine r line =>
      simp only [perform, Engine.setLine]
      split
      · exact .inl rfl
      · by_cases htop : e.frame.depth = d
        · refine .inr ⟨r, line, rfl, ?_⟩
          cases r with
          | none =>
              refine Frame.activation?_modifyEntry.trans ?_
              rw [if_pos htop, Frame.activation?, Option.map_map]
              rfl
          | some r =>
              refine Frame.activation?_modifyEntry.trans ?_
              rw [if_pos htop, Frame.activation?, Option.map_map]
              rfl
        · refine .inl ?_
          cases r with
          | none => exact Frame.activation?_modifyEntry.trans (if_neg htop)
          | some r => exact Frame.activation?_modifyEntry.trans (if_neg htop)
  | reset =>
      refine .inl (Frame.activation?_modifyEntry.trans ?_)
      rw [if_neg (by omega)]
      exact Frame.activation?_of_sketch (Frame.overlooks_sketch.reclaim _ 0) d
  | enter node r =>
      exact .inl ((Frame.shelters_enter hf (Nat.le_refl _) node r).activation d h0
        (Nat.lt_succ_of_le hd))
  | leave => exact .inl ((Frame.shelters_leave hf (Nat.le_refl _)).activation d h0 (hleave rfl))
  | _ => exact .inl (Frame.activation?_of_sketch (Frame.overlooks_sketch.perform e (by trivial)) d)

/-- An operation changes no evaluator up to the current depth, unless it ends
that depth. -/
theorem evaluator?_perform (hf : e.frame.Sound) (h0 : 0 < d) (hd : d ≤ e.frame.depth)
    (hleave : o = .leave → d < e.frame.depth) :
    (o.perform e).frame.evaluator? d = e.frame.evaluator? d := by
  rcases activation?_perform hf h0 hd hleave with h | ⟨r, line, -, h⟩
  · exact Frame.evaluator?_of_activation? h
  · rw [Frame.evaluator?_eq_bind, h, Option.bind_map, Frame.evaluator?_eq_bind]
    rfl

theorem staffed_perform (hf : e.frame.Sound) (h : e.frame.Staffed) (o : Op) :
    (o.perform e).frame.Staffed := by
  rcases o.stays_or with hs | ⟨node, r, rfl⟩ | rfl
  · intro d h0 hd
    rw [(touches_anything hf hs).depth_eq] at hd
    have hnot : o ≠ .leave := fun ho => by
      rw [ho] at hs
      exact hs
    rw [evaluator?_perform hf h0 hd fun ho => absurd ho hnot]
    exact h d h0 hd
  · intro d h0 hd
    rcases Nat.lt_or_eq_of_le hd with hlt | rfl
    · have hd : d ≤ e.frame.depth := Nat.le_of_lt_succ hlt
      have hnot : Op.enter node r ≠ .leave := nofun
      rw [evaluator?_perform hf h0 hd fun ho => absurd ho hnot]
      exact h d h0 hd
    · have hnode : (e.frame.enter node r).evaluator? (e.frame.depth + 1) = some node :=
        Frame.evaluator?_enter hf node r
      exact Option.isSome_iff_exists.2 ⟨node, hnode⟩
  · intro d h0 hd
    have hd : d ≤ e.frame.depth - 1 := hd
    rw [evaluator?_perform hf h0 (by omega) fun _ => by omega]
    exact h d h0 (by omega)

end Op

namespace Machine

variable {m : Machine} {os : List Op} {base d : Nat}

theorem staffed_run (hm : m.Tracked) (h : m.engine.frame.Staffed) (os : List Op) :
    (m.run os).engine.frame.Staffed := by
  induction os generalizing m with
  | nil => exact h
  | cons o os ih => exact ih (hm.after o) (Op.staffed_perform hm.sound h o)

theorem staffed_start (store : Store) (config : FrameConfig) (global : GlobalId)
    (flag : FlagId) : (start store config global flag).engine.frame.Staffed := by
  intro d h0 hd
  have hd : d ≤ 0 := hd
  omega

/-- A run of an activation at depth `base`, whatever it does with its tables. -/
def Nested (base : Nat) (m : Machine) : List Op → Prop
  | [] => True
  | o :: os => InDepth base m.engine.frame o ∧ Nested base (m.after o) os

/-- The run of an activation leaves the evaluators up to its depth alone. -/
theorem evaluator?_run (hm : m.Tracked) (hos : Nested base m os)
    (hb : base ≤ m.engine.frame.depth) (h0 : 0 < d) (hd : d ≤ base) :
    (m.run os).engine.frame.evaluator? d = m.engine.frame.evaluator? d := by
  induction os generalizing m with
  | nil => rfl
  | cons o os ih =>
      have hstep : (m.after o).engine.frame.evaluator? d = m.engine.frame.evaluator? d := by
        refine Op.evaluator?_perform hm.sound h0 (by omega) fun ho => ?_
        have hdepth := hos.1
        rw [ho] at hdepth
        exact Nat.lt_of_le_of_lt hd hdepth
      exact (ih (hm.after o) hos.2 (base_le_perform hm.sound hos.1 hb)).trans hstep

end Machine

/-! ## What a gate makes of an error -/

namespace EvalError

/-- The error as it leaves an activation that ended in this state. -/
def leaving (err : EvalError) (e : Engine) : EvalError :=
  if err.needsTrace then err.withTrace e.trace else err

variable {err : EvalError}

theorem needsTrace_iff : err.needsTrace = true ↔ err.category = .script ∧ err.trace = none := by
  simp [needsTrace, isCatchable]

theorem leaving_of_not (h : err.trace.isSome ∨ err.category ≠ .script) (e : Engine) :
    err.leaving e = err := by
  refine if_neg fun hneeds => ?_
  obtain ⟨hscript, hnone⟩ := needsTrace_iff.1 hneeds
  rw [hnone] at h
  exact h.elim nofun (absurd hscript)

theorem kind_leaving (err : EvalError) (e : Engine) : (err.leaving e).kind = err.kind := by
  unfold leaving
  split <;> rfl

theorem trace_leaving (hscript : err.category = .script) (hnone : err.trace = none) (e : Engine) :
    (err.leaving e).trace = some e.trace := by
  rw [leaving, if_pos (needsTrace_iff.2 ⟨hscript, hnone⟩), withTrace, hnone]
  rfl

theorem isSome_trace_leaving (e : Engine) (hscript : (err.leaving e).category = .script) :
    (err.leaving e).trace.isSome := by
  have hscript : err.category = .script := by
    rw [category, kind_leaving] at hscript
    exact hscript
  cases htrace : err.trace with
  | none => rw [trace_leaving hscript htrace]; rfl
  | some t =>
      rw [leaving_of_not (.inl (by rw [htrace]; rfl)), htrace]
      rfl

/-- Only the first gate changes the error. -/
theorem leaving_leaving (err : EvalError) (e e' : Engine) :
    (err.leaving e).leaving e' = err.leaving e := by
  by_cases hscript : (err.leaving e).category = .script
  · exact leaving_of_not (.inl (isSome_trace_leaving e hscript)) e'
  · exact leaving_of_not (.inr hscript) e'

end EvalError

namespace Session

open Machine

variable {s s' inner : Session} {node : Node} {scope : ScopeRef} {body : Body}
  {err err' : EvalError} {eval : Node → ScopeRef → Body} {f : FunctionId} {function : Function}
  {table : PoolKey} {this super : Option Value}

theorem gate_of_raised (hd : s.engine.frame.depth < s.engine.frame.config.maxDepth)
    (hbody : s.admitted body (s.entered node scope) = (.raised err, inner)) :
    gate node scope body s =
      (.raised (err.leaving inner.engine), inner.modifyFrame Frame.leave) := by
  have hlim : ¬ s.engine.frame.config.maxDepth ≤ s.engine.frame.depth := by omega
  simp only [admitted, entered] at hbody
  simp only [gate, if_neg hlim, StackBudget.run_eq, hbody]
  rfl

/-- A script error that leaves a gate has a trace, whatever the body. -/
theorem isSome_trace_of_gate (h : gate node scope body s = (.raised err, s'))
    (hscript : err.category = .script) : err.trace.isSome := by
  by_cases hd : s.engine.frame.depth < s.engine.frame.config.maxDepth
  · have hsame : SameOutcome (s.admitted body (s.entered node scope)).1
        (gate node scope body s).1 := (gate_eq hd).2
    rcases hr : s.admitted body (s.entered node scope) with ⟨o, inner⟩
    rw [hr, h] at hsame
    cases o with
    | done c => cases hsame
    | panicked => cases hsame
    | raised e =>
        rw [gate_of_raised hd hr] at h
        cases h
        exact EvalError.isSome_trace_leaving _ hscript
  · -- the gate refused, which no script can catch
    rw [gate, if_pos (Nat.not_lt.1 hd)] at h
    cases h
    cases hscript

/-- The error, with which a body ended in the state `inner`, on its way out. It
has passed the gate of that body, and then any number of gates and calls around
it, whose bodies let it pass. -/
inductive Unwinds (err : EvalError) (inner : Session) : Outcome Completion × Session → Prop
  | gate {node : Node} {scope : ScopeRef} {body : Body} {s : Session}
      (hd : s.engine.frame.depth < s.engine.frame.config.maxDepth)
      (hbody : s.admitted body (s.entered node scope) = (.raised err, inner)) :
      Unwinds err inner (gate node scope body s)
  | call {eval : Node → ScopeRef → Body} {f : FunctionId} {function : Function} {table : PoolKey}
      {this super : Option Value} {scope : ScopeRef} {s s' : Session}
      (hf : s.engine.store.functions[f]? = some function)
      (hscope : s.callScope f function table this super = (.done scope, s'))
      (hbody : Unwinds err inner (eval function.body scope s')) :
      Unwinds err inner (call eval f table this super s)
  | outward {node : Node} {scope : ScopeRef} {body : Body} {s s' : Session} {err' : EvalError}
      {r : Outcome Completion × Session} (hr : Unwinds err inner r) (hout : r.1 = .raised err')
      (hd : s.engine.frame.depth < s.engine.frame.config.maxDepth)
      (hbody : s.admitted body (s.entered node scope) = (.raised err', s')) :
      Unwinds err inner (gate node scope body s)

/-- However far out it comes, the error is as it left the first gate. -/
theorem Unwinds.fst {r : Outcome Completion × Session} (h : Unwinds err inner r) :
    r.1 = .raised (err.leaving inner.engine) := by
  induction h with
  | gate hd hbody => rw [gate_of_raised hd hbody]
  | call hf hscope _ ih =>
      rw [call_fst _ hf hscope, ih]
      rfl
  | outward _ hout hd hbody ih =>
      have herr := Outcome.raised.inj (hout.symm.trans ih)
      rw [gate_of_raised hd hbody, herr, EvalError.leaving_leaving]

/-- A script error without a trace gets one at the gate of the body that ended
with it: a record for each depth, the deepest first, with what runs there and
the current line. Any other error it passes as it is, and all further out pass
every error as it is. So every script error that leaves a gate has a trace. -/
theorem traces_are_attached_once {store : Store} {config : FrameConfig} {global : GlobalId}
    {flag : FlagId} {os₀ os : List Op}
    (hs : s.engine = ((Machine.start store config global flag).run os₀).engine)
    (hd : s.engine.frame.depth < s.engine.frame.config.maxDepth)
    (hbody : s.admitted body (s.entered node scope) = (.raised err, inner))
    (hrun : inner.engine = ((((Machine.start store config global flag).run os₀).after
      (.enter node scope)).run os).engine)
    (hnested : Nested (s.engine.frame.depth + 1)
      (((Machine.start store config global flag).run os₀).after (.enter node scope)) os)
    (hdepth : inner.engine.frame.depth = s.engine.frame.depth + 1) :
    let d := s.engine.frame.depth + 1
    ∃ out : EvalError, (gate node scope body s).1 = .raised out ∧ out.kind = err.kind ∧
      (err.category = .script → err.trace = none → ∃ t, out.trace = some t ∧ t.length = d ∧
        (∀ i < d, t[i]?.map (fun r => (some r.node, r.line)) =
          inner.engine.frame.stackAt (d - i)) ∧
        ∀ j, 0 < j → j ≤ d → inner.engine.frame.evaluator? j =
          (s.entered node scope).engine.frame.evaluator? j) ∧
      (err.trace.isSome ∨ err.category ≠ .script → out = err) ∧
      (∀ r, Unwinds err inner r → r.1 = .raised out) ∧
      ∀ (node : Node) (scope : ScopeRef) (body : Body) (s s' : Session) (out : EvalError),
        gate node scope body s = (.raised out, s') → out.category = .script → out.trace.isSome := by
  intro d
  have hm := (tracked_start store config global flag).run os₀
  have hstaffed := staffed_run (tracked_start store config global flag)
    (staffed_start store config global flag) (os₀ ++ .enter node scope :: os)
  have hframe : inner.engine.frame.Sound ∧ inner.engine.frame.Staffed := by
    rw [run_append] at hstaffed
    rw [hrun]
    exact ⟨((hm.after _).run os).sound, hstaffed⟩
  refine ⟨err.leaving inner.engine, by rw [gate_of_raised hd hbody], EvalError.kind_leaving ..,
    fun hscript hnone => ?_, fun hkeeps => EvalError.leaving_of_not hkeeps _,
    fun r hr => hr.fst, fun _ _ _ _ _ _ hgate hscript => isSome_trace_of_gate hgate hscript⟩
  have htrace := Engine.trace_of_staffed hframe.1 hframe.2
  rw [hdepth] at htrace
  refine ⟨_, EvalError.trace_leaving hscript hnone _, htrace.1, htrace.2, fun j h0 hj => ?_⟩
  -- the activation began at its own depth, and its body did not reach below
  have hentered : (s.entered node scope).engine =
      (((Machine.start store config global flag).run os₀).after (.enter node scope)).engine :=
    congrArg (fun e : Engine => Op.perform e (.enter node scope)) hs
  rw [hrun, hentered]
  refine evaluator?_run (hm.after _) hnested ?_ h0 hj
  rw [← hentered]
  exact Nat.le_refl _

/-- A body on line 7 of a node on line 3 raises an error, which the outer node
lets pass. -/
theorem trace_of_nested_activations :
    let s : Session := { engine := (Machine.start {} {} 0 0).engine }
    let outer : Node := { id := 0 }
    let inner : Node := { id := 1 }
    let onLine (line : UInt32) (s : Session) := s.modifyFrame fun f => f.setLine line
    let body : Body := fun s => (.raised ErrorKind.noThis, onLine 7 s)
    let nested : Body := fun s => gate inner (.ofGlobal 0) body (onLine 3 s)
    ∃ t, (gate outer (.ofGlobal 0) nested s).1 = .raised { kind := .noThis, trace := some t } ∧
      t.length = 2 ∧ t.map (·.line) = [7, 3] := by
  intro s outer inner onLine body nested
  let entered := onLine 3 (s.entered outer (.ofGlobal 0))
  let raised := onLine 7 (entered.entered inner (.ofGlobal 0))
  have hbody : entered.admitted body (entered.entered inner (.ofGlobal 0)) =
      (.raised ErrorKind.noThis, raised) := rfl
  have hd : entered.engine.frame.depth < entered.engine.frame.config.maxDepth := by
    decide +kernel
  obtain ⟨out, hout, hkind, htrace, -, hpasses, -⟩ := @traces_are_attached_once entered raised inner
    (.ofGlobal 0) body ErrorKind.noThis {} {} 0 0 [.enter outer (.ofGlobal 0), .setLine none 3]
    [.setLine none 7] rfl hd hbody rfl ⟨trivial, trivial⟩ rfl
  obtain ⟨t, ht, hlength, hrecords, -⟩ := htrace rfl rfl
  have hunwinds : Unwinds ErrorKind.noThis raised (gate outer (.ofGlobal 0) nested s) := by
    have hgate : Unwinds ErrorKind.noThis raised (gate inner (.ofGlobal 0) body entered) :=
      .gate hd hbody
    exact .outward hgate hout (by decide +kernel) (Prod.ext hout rfl)
  refine ⟨t, ?_, hlength, ?_⟩
  · rw [hpasses _ hunwinds]
    obtain ⟨kind, trace⟩ := out
    cases hkind
    cases ht
    rfl
  · obtain ⟨first, second, rfl⟩ := List.length_eq_two.1 hlength
    have hfirst : (some first.node, first.line) = (some inner, 7) :=
      Option.some.inj (hrecords 0 (by decide +kernel))
    have hsecond : (some second.node, second.line) = (some outer, 3) :=
      Option.some.inj (hrecords 1 (by decide +kernel))
    rw [List.map_cons, List.map_singleton, (Prod.mk.inj hfirst).2, (Prod.mk.inj hsecond).2]

end Session

end ScriptCore

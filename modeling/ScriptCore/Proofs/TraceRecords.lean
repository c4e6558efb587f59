import ScriptCore.Program.Action.State
import ScriptCore.Proofs.Unwinding

/-!
# What a trace records

A trace and the list of frames both walk the activations of a frame, deepest
first, and leave out what has no evaluator. In a frame that a run has reached
nothing is left out: an activation gets its evaluator and its scope when it
begins, setting its line keeps the one and never removes the other, and nothing
else reaches it until it ends. `Attended` says that of every depth below the
host, so that both lists have one item for each of them.

What a trace makes of the scopes is settled in `Memo`: each record has what
escaping the scope of its activation alone would give, whichever chains were
walked before.
-/

namespace ScriptCore

/-! ## Activations -/

namespace Frame

variable {f g : Frame} {d i : Nat}

/-- Something runs at the depth, in some scope. -/
def AttendedAt (f : Frame) (d : Nat) : Prop :=
  ∃ node line r, f.activation? d = some (some node, line, some r)

def Attended (f : Frame) : Prop := ∀ d, 0 < d → d ≤ f.depth → f.AttendedAt d

theorem AttendedAt.congr (hf : f.AttendedAt d) (h : g.activation? d = f.activation? d) :
    g.AttendedAt d := by
  obtain ⟨node, line, r, hact⟩ := hf
  exact ⟨node, line, r, h.trans hact⟩

theorem AttendedAt.relined (hf : f.AttendedAt d) {r : Option ScopeRef} {line : UInt32}
    (h : g.activation? d = (f.activation? d).map fun a => (a.1, line, r.or a.2.2)) :
    g.AttendedAt d := by
  obtain ⟨node, _, own, hact⟩ := hf
  rw [hact] at h
  cases r with
  | none => exact ⟨node, line, own, h⟩
  | some r => exact ⟨node, line, r, h⟩

theorem attendedAt_enter (hf : f.Sound) (node : Node) (r : ScopeRef) :
    (f.enter node r).AttendedAt (f.depth + 1) := by
  have hlt := hf.depth_lt
  refine ⟨node, 0, r, ?_⟩
  simp only [activation?, enter]
  split
  · rw [Array.getElem?_push, if_pos (by omega)]
    rfl
  · rw [Array.getElem?_modify, if_pos rfl, Array.getElem?_eq_getElem (by omega)]
    rfl

/-- The activations are those of the depths from the current one up to the first. -/
theorem activations_eq (hf : f.Sound) :
    f.activations = ((List.range f.depth).map (· + 1)).reverse.map fun d =>
      (d, f.entries[d]?.getD {}) := by
  refine List.filterMap_eq_map_iff_forall_eq_some.2 fun d hd => ?_
  rw [List.mem_reverse, List.mem_map] at hd
  obtain ⟨n, hn, rfl⟩ := hd
  have hlt := hf.depth_lt
  have hn := List.mem_range.1 hn
  rw [Array.getElem?_eq_getElem (by omega)]
  rfl

theorem length_activations (hf : f.Sound) : f.activations.length = f.depth := by
  rw [activations_eq hf, List.length_map, List.length_reverse, List.length_map, List.length_range]

theorem getElem?_activations (hf : f.Sound) (hi : i < f.depth) :
    f.activations[i]? = some (f.depth - i, f.entries[f.depth - i]?.getD {}) := by
  have hrange : ((List.range f.depth).map (· + 1)).reverse[i]? = some (f.depth - i) := by
    rw [List.getElem?_reverse (by simpa using hi), List.length_map, List.length_range,
      List.getElem?_map, List.getElem?_range (by omega), Option.map_some]
    congr 1
    omega
  rw [activations_eq hf, List.getElem?_map, hrange]
  rfl

/-- In an attended frame, a list with an item for each evaluator has one for each
depth. -/
theorem Attended.filterMap_activations {α : Type} (h : f.Attended) (hf : f.Sound)
    (item : Nat → DepthEntry → Node → α) :
    let items := f.activations.filterMap fun a => a.2.node.map (item a.1 a.2)
    items.length = f.depth ∧
      ∀ i < f.depth, ∃ entry node r, f.entries[f.depth - i]? = some entry ∧
        entry.node = some node ∧ entry.scope = some r ∧
        items[i]? = some (item (f.depth - i) entry node) := by
  have hentry : ∀ i < f.depth, ∃ entry node r, f.entries[f.depth - i]? = some entry ∧
      entry.node = some node ∧ entry.scope = some r := by
    intro i hi
    obtain ⟨node, line, r, hact⟩ := h (f.depth - i) (by omega) (by omega)
    obtain ⟨entry, hentry, heq⟩ := Option.map_eq_some_iff.1 hact
    exact ⟨entry, node, r, hentry, congrArg (·.1) heq, congrArg (·.2.2) heq⟩
  have hitems : f.activations.filterMap (fun a => a.2.node.map (item a.1 a.2)) =
      f.activations.map fun a => item a.1 a.2 (a.2.node.getD { id := 0 }) := by
    refine List.filterMap_eq_map_iff_forall_eq_some.2 fun a ha => ?_
    obtain ⟨i, hat⟩ := List.mem_iff_getElem?.1 ha
    have hi : i < f.depth := length_activations hf ▸ (List.getElem?_eq_some_iff.1 hat).1
    obtain ⟨entry, node, r, hentry, hnode, -⟩ := hentry i hi
    rw [getElem?_activations hf hi, hentry, Option.some.injEq] at hat
    rw [← hat, Option.getD_some, hnode]
    rfl
  intro items
  constructor
  · show (f.activations.filterMap _).length = _
    rw [hitems, List.length_map, length_activations hf]
  · intro i hi
    obtain ⟨entry, node, r, hentry, hnode, hscope⟩ := hentry i hi
    refine ⟨entry, node, r, hentry, hnode, hscope, ?_⟩
    show (f.activations.filterMap _)[i]? = _
    rw [hitems, List.getElem?_map, getElem?_activations hf hi, hentry, Option.getD_some,
      Option.map_some, hnode]
    rfl

end Frame

namespace Op

variable {e : Engine} {o : Op}

theorem attended_perform (hf : e.frame.Sound) (h : e.frame.Attended) (o : Op) :
    (o.perform e).frame.Attended := by
  have hkept : ∀ d, 0 < d → d ≤ e.frame.depth → (o = .leave → d < e.frame.depth) →
      (o.perform e).frame.AttendedAt d := by
    intro d h0 hd hleave
    rcases activation?_perform hf h0 hd hleave with hsame | ⟨r, line, -, hline⟩
    · exact (h d h0 hd).congr hsame
    · exact (h d h0 hd).relined hline
  rcases o.stays_or with hs | ⟨node, r, rfl⟩ | rfl
  · intro d h0 hd
    rw [(touches_anything hf hs).depth_eq] at hd
    refine hkept d h0 hd fun ho => ?_
    rw [ho] at hs
    exact hs.elim
  · intro d h0 hd
    rcases Nat.lt_or_eq_of_le hd with hlt | rfl
    · exact hkept d h0 (Nat.le_of_lt_succ hlt) nofun
    · exact Frame.attendedAt_enter hf node r
  · intro d h0 hd
    have hd : d ≤ e.frame.depth - 1 := hd
    exact hkept d h0 (by omega) fun _ => by omega

end Op

/-! ## Records -/

namespace Machine

theorem attended_start (store : Store) (config : FrameConfig) (global : GlobalId)
    (flag : FlagId) : (start store config global flag).engine.frame.Attended := by
  intro d h0 hd
  have hd : d ≤ 0 := hd
  omega

theorem attended_run {m : Machine} (hm : m.Tracked) (h : m.engine.frame.Attended)
    (os : List Op) : (m.run os).engine.frame.Attended := by
  induction os generalizing m with
  | nil => exact h
  | cons o os ih => exact ih (hm.after o) (Op.attended_perform hm.sound h o)

end Machine

namespace Engine

variable {e : Engine} {r : ScopeRef}

theorem toOption_escape (e : Engine) (r : ScopeRef) :
    ((e.escape r).toOption = none ↔ ∃ err, e.escape r = .error err) ∧
      ∀ d, (e.escape r).toOption = some d ↔ e.escape r = .ok d := by
  cases e.escape r with
  | error err => exact ⟨⟨fun _ => ⟨err, rfl⟩, fun _ => rfl⟩, fun d => ⟨nofun, nofun⟩⟩
  | ok d => exact ⟨⟨nofun, nofun⟩, fun d' => by simp [Except.toOption]⟩

theorem Freezes.of_live {own : PooledScope} {k : PoolKey} {base : DurableScope}
    (hown : e.frame.scope? k = some own) (hlive : (e.frame.tables.get? own.members).isSome)
    (hbase : e.Freezes own.previous base) : e.Freezes (.pooled k) (base.push (e.copy own)) :=
  .pooled hown hbase (freeze_eq_ok.2 ⟨hlive, rfl⟩)

/-- A scope cannot escape without the one around it. -/
theorem escape_of_gone {own : PooledScope} {k j : PoolKey} (hown : e.frame.scope? k = some own)
    (hprevious : own.previous = .pooled j) (hgone : e.frame.scope? j = none) :
    ∃ err, e.escape (.pooled k) = .error err := by
  cases hescape : e.escape (.pooled k) with
  | error err => exact ⟨err, rfl⟩
  | ok d =>
      obtain ⟨links, base, hchain, -⟩ := escape_eq_ok_iff.1 hescape
      cases hchain with
      | pooled hown' hlinks =>
          cases hown.symm.trans hown'
          rw [hprevious] at hlinks
          cases hlinks with
          | pooled hlive _ => cases hgone.symm.trans hlive

theorem trace_eq_filterMap (e : Engine) :
    e.trace = e.frame.activations.filterMap fun a => a.2.node.map fun node =>
      { node, line := a.2.line, scope := a.2.scope.bind fun r => (e.escape r).toOption } := by
  rw [e.trace_eq, List.filterMap_map]
  rfl

end Engine

/-- What a program is shown of an activation. -/
def Session.frameView (s : Session) (d : Nat) (entry : DepthEntry) (node : Node) : FrameView :=
  { node, line := entry.line, depth := d, scope := entry.scope.map s.view }

theorem Perform.inspectFrame_eq (s : Session) :
    ∃ info, Perform.inspectFrame.run s = (.ok { reply := .info info }, s) ∧
      info.frames = s.engine.frame.activations.filterMap fun a =>
        a.2.node.map (s.frameView a.1 a.2) :=
  ⟨_, rfl, rfl⟩

namespace Machine

/-- A trace and the list of frames have one item for each depth, the deepest
first, with what runs there and its line. The scope of a record is what escaping
the scope of that depth by itself gives, and it is left out where that fails. -/
theorem traces_escape_each_depth {store : Store} {config : FrameConfig} {global : GlobalId}
    {flag : FlagId} {os : List Op} {s : Session}
    (hs : s.engine = ((start store config global flag).run os).engine) :
    let e := s.engine
    let d := e.frame.depth
    ∃ reply info,
      Perform.takeTrace.run s = (.ok { reply, result := some (.trace e.trace) }, s) ∧
      Perform.inspectFrame.run s = (.ok { reply := .info info }, s) ∧
      e.trace.length = d ∧ info.frames.length = d ∧
      ∀ i < d, ∃ entry node r record,
        e.frame.entries[d - i]? = some entry ∧ entry.node = some node ∧ entry.scope = some r ∧
        e.trace[i]? = some record ∧ record.node = node ∧ record.line = entry.line ∧
        (record.scope = none ↔ ∃ err, e.escape r = .error err) ∧
        (∀ copy, record.scope = some copy ↔ e.escape r = .ok copy) ∧
        info.frames[i]? = some
          { node, line := entry.line, depth := d - i, scope := some (s.view r) } := by
  intro e d
  have hm := (tracked_start store config global flag).run os
  have hsound : e.frame.Sound := by
    show s.engine.frame.Sound
    rw [hs]
    exact hm.sound
  have hattended : e.frame.Attended := by
    show s.engine.frame.Attended
    rw [hs]
    exact attended_run (tracked_start ..) (attended_start store config global flag) os
  obtain ⟨info, hinfo, hframes⟩ := Perform.inspectFrame_eq s
  obtain ⟨hlength, hrecords⟩ := hattended.filterMap_activations hsound fun _ entry node =>
    ({ node, line := entry.line, scope := entry.scope.bind fun r => (e.escape r).toOption } :
      TraceRecord)
  obtain ⟨hlength', hviews⟩ := hattended.filterMap_activations hsound s.frameView
  rw [← e.trace_eq_filterMap] at hlength hrecords
  rw [← hframes] at hlength' hviews
  refine ⟨_, info, rfl, hinfo, hlength, hlength', fun i hi => ?_⟩
  obtain ⟨entry, node, r, hentry, hnode, hscope, hrecord⟩ := hrecords i hi
  obtain ⟨_, _, _, hentry', hnode', -, hview⟩ := hviews i hi
  cases hentry.symm.trans hentry'
  cases hnode.symm.trans hnode'
  refine ⟨entry, node, r, _, hentry, hnode, hscope, hrecord, rfl, rfl, ?_, ?_, ?_⟩
  · rw [hscope]
    exact (e.toOption_escape r).1
  · rw [hscope]
    exact (e.toOption_escape r).2
  · rw [hview, Session.frameView, hscope]
    rfl

/-- Two chains share their outer block, and one of them has lost the block in the
middle. The activation inside that chain has no scope in its record, and the
other keeps its own. -/
theorem trace_of_joined_chains :
    let m := start { shapes := #[.empty], globals := #[{}] } {} 0 0
    let os : List Op :=
      [.allocateBlock (.ofGlobal 0) 0, .allocateBlock (.pooled ⟨0, 0⟩) 0,
        .allocateBlock (.pooled ⟨1, 0⟩) 0, .allocateBlock (.pooled ⟨0, 0⟩) 0,
        .enter { id := 0 } (.pooled ⟨3, 0⟩), .enter { id := 1 } (.pooled ⟨2, 0⟩),
        .freeScope (.pooled ⟨1, 0⟩)]
    ∃ inner outer, (m.run os).engine.trace = [inner, outer] ∧ inner.scope = none ∧
      outer.scope.isSome := by
  intro m os
  have hshared : ((m.run os).engine.frame.scope? ⟨0, 0⟩).map (fun own =>
      (own.previous.key?, own.members)) = some (none, ⟨0, 0⟩) := by decide +kernel
  have hjoined : ((m.run os).engine.frame.scope? ⟨3, 0⟩).map (fun own =>
      (own.previous.key?, own.members)) = some (some ⟨0, 0⟩, ⟨3, 0⟩) := by decide +kernel
  have hcut : ((m.run os).engine.frame.scope? ⟨2, 0⟩).map (fun own =>
      (own.previous.key?, own.members)) = some (some ⟨1, 0⟩, ⟨2, 0⟩) := by decide +kernel
  have hgone : ((m.run os).engine.frame.scope? ⟨1, 0⟩).isNone := by decide +kernel
  have hlive : ((m.run os).engine.frame.tables.get? ⟨0, 0⟩).isSome ∧
      ((m.run os).engine.frame.tables.get? ⟨3, 0⟩).isSome := by decide +kernel
  have houter : ((m.run os).engine.frame.entries[1]?.bind (·.scope)).bind (·.key?) =
      some ⟨3, 0⟩ := by decide +kernel
  have hinner : ((m.run os).engine.frame.entries[2]?.bind (·.scope)).bind (·.key?) =
      some ⟨2, 0⟩ := by decide +kernel
  have hdepth : (m.run os).engine.frame.depth = 2 := by decide +kernel
  obtain ⟨_, info, -, -, hlength, -, hrecords⟩ :=
    @traces_escape_each_depth _ {} 0 0 os { engine := (m.run os).engine } rfl
  dsimp only at hlength hrecords
  generalize (m.run os).engine = e at *
  rw [hdepth] at hlength hrecords
  obtain ⟨shared, hshared, heq⟩ := Option.map_eq_some_iff.1 hshared
  obtain ⟨joined, hjoined, heq'⟩ := Option.map_eq_some_iff.1 hjoined
  obtain ⟨cut, hcut, heq''⟩ := Option.map_eq_some_iff.1 hcut
  obtain ⟨hglobal, hmembers⟩ := Prod.mk.inj heq
  obtain ⟨hto, hmembers'⟩ := Prod.mk.inj heq'
  obtain ⟨base, hbase⟩ := ScopeRef.key?_eq_none.1 hglobal
  have hcutoff := Engine.escape_of_gone hcut (ScopeRef.key?_eq_some.1 (Prod.mk.inj heq'').1)
    (Option.isNone_iff_eq_none.1 hgone)
  have hbase : e.Freezes shared.previous base := by
    rw [hbase]
    exact .durable base
  have hshared := Engine.Freezes.of_live hshared (hmembers ▸ hlive.1) hbase
  rw [← ScopeRef.key?_eq_some.1 hto] at hshared
  have hjoined := Engine.Freezes.of_live hjoined (hmembers' ▸ hlive.2) hshared
  obtain ⟨entry, _, r, inner, hentry, -, hscope, hfirst, -, -, hnone, -⟩ := hrecords 0 (by decide)
  obtain ⟨entry', _, r', outer, hentry', -, hscope', hsecond, -, -, -, hsome, -⟩ :=
    hrecords 1 (by decide)
  obtain rfl : r = .pooled ⟨2, 0⟩ := by
    rw [hentry, Option.bind_some, hscope] at hinner
    exact ScopeRef.key?_eq_some.1 hinner
  obtain rfl : r' = .pooled ⟨3, 0⟩ := by
    rw [hentry', Option.bind_some, hscope'] at houter
    exact ScopeRef.key?_eq_some.1 houter
  refine ⟨inner, outer, ?_, hnone.2 hcutoff, ?_⟩
  · obtain ⟨first, second, htrace⟩ := List.length_eq_two.1 hlength
    rw [htrace] at hfirst hsecond ⊢
    cases hfirst
    cases hsecond
    rfl
  · rw [(hsome _).2 (Engine.escape_eq_ok_iff.2 hjoined)]
    rfl

end Machine

end ScriptCore

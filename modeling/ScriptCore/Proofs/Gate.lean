import ScriptCore.Program.Gate
import ScriptCore.Proofs.Machine

/-!
# The gate restores the frame

An activation is a run between two operations of the gate, `enter` and
`leave`. It works at its own depth or deeper, so nothing of what it does reaches
the activations below; and what it allocates belongs to its depth or to a
deeper one. A body may well give back or move what belongs to a depth below.
What it cannot do is make something new live there, and this is what the
argument rests on: whatever is live at the end belongs to a depth the run never
worked at, so it has been live all along, in one and the same allocation.

`Shelters` says this for a run and is transitive. The gate adds the end of the
depth, after which nothing above it has an owner. The exception is again the
table of an allocation without room, which no depth gives back.

Evaluating a node and calling a function are runs themselves if the bodies are,
so a body may do both, to any depth.
-/

namespace ScriptCore

/-! ## What lasts through a run -/

namespace Pool

variable {α : Type} {p q : Pool α} {k : PoolKey}

/-- An entry that one key reaches before and after was not taken back. -/
theorem recycled_eq_zero (hp : (p.entry? k).isSome) (hq : (q.entry? k).isSome) :
    recycled p q k.index = 0 := by
  obtain ⟨e, he⟩ := Option.isSome_iff_exists.1 hp
  obtain ⟨e', he'⟩ := Option.isSome_iff_exists.1 hq
  obtain ⟨hget, -, hgen⟩ := entry?_eq_some.1 he
  obtain ⟨hget', -, hgen'⟩ := entry?_eq_some.1 he'
  simp [recycled, hget, hget', hgen, hgen']

/-- An entry is live after a move that did not raise its count. -/
theorem Moves.isSome_of_le {n : Nat} (h : Moves p q) (hp : (p.entry? k).isSome)
    (hle : n + recycled p q k.index ≤ n) : (q.entry? k).isSome := by
  obtain ⟨e, he⟩ := Option.isSome_iff_exists.1 hp
  exact Option.isSome_iff_exists.2 (h.entry?_of_not_recycled he (by omega))

end Pool

namespace Machine

/-- What `k` reaches in `m'` was allocated before `m` and not given back since. -/
def LastsScope (m m' : Machine) (k : PoolKey) : Prop :=
  (m.engine.frame.scopes.entry? k).isSome ∧
    m'.scopeReleases k.index = m.scopeReleases k.index

def LastsTable (m m' : Machine) (t : PoolKey) : Prop :=
  (m.engine.frame.tables.entry? t).isSome ∧
    m'.tableReleases t.index = m.tableReleases t.index

/-- From `m` to `m'` the depths below `n` were left alone, and what they own was
there from the start. -/
structure Shelters (n : Nat) (m m' : Machine) : Prop where
  frame : Frame.Shelters n m.engine.frame m'.engine.frame
  scopes : ∀ k d, d < n → m'.engine.frame.books.home? (.scope k) = some d → m.LastsScope m' k
  tables : ∀ t d, d < n → m'.engine.frame.books.TableAt t d → m.LastsTable m' t
  lost : ∀ t ∈ m.lost, t ∈ m'.lost ∧ m.LastsTable m' t

variable {m m' m'' : Machine} {n base : Nat} {o : Op} {os : List Op} {k t : PoolKey} {d : Nat}

theorem isSome_scope_of_home? (h : m.engine.frame.books.home? (.scope k) = some d) :
    (m.engine.frame.scopes.entry? k).isSome := by
  rw [Frame.home?_books_scope] at h
  obtain ⟨e, he, -⟩ := Pool.depthOf?_eq_some.1 h
  simp [he]

theorem Owned.isSome_table_of_tableAt (hw : m.Owned)
    (h : m.engine.frame.books.TableAt t d) : (m.engine.frame.tables.entry? t).isSome := by
  rw [isSome_entry?_iff]
  rcases h with h | ⟨k, hk⟩
  · simp [h]
  · simp [(hw.kept.members k _ t hk).1]

theorem Owned.isSome_of_mem_lost (hw : m.Owned) (ht : t ∈ m.lost) :
    (m.engine.frame.tables.entry? t).isSome := by
  rw [isSome_entry?_iff]
  exact hw.kept.live (.table t) (List.mem_map.2 ⟨t, ht, rfl⟩)

theorem Shelters.refl (hw : m.Owned) : Shelters n m m :=
  ⟨.refl _, fun _ _ _ h => ⟨isSome_scope_of_home? h, rfl⟩,
    fun _ _ _ h => ⟨hw.isSome_table_of_tableAt h, rfl⟩,
    fun _ h => ⟨h, hw.isSome_of_mem_lost h, rfl⟩⟩

theorem Shelters.trans (h₁ : Shelters n m m') (h₂ : Shelters n m' m'') : Shelters n m m'' where
  frame := h₁.frame.trans h₂.frame
  scopes := by
    intro k d hd hk
    obtain ⟨hlive, hrel⟩ := h₁.scopes k d hd (h₂.frame.spares.scopes k d hd hk)
    exact ⟨hlive, (h₂.scopes k d hd hk).2.trans hrel⟩
  tables := by
    intro t d hd ht
    obtain ⟨hlive, hrel⟩ := h₁.tables t d hd (h₂.frame.spares.tables t d hd ht)
    exact ⟨hlive, (h₂.tables t d hd ht).2.trans hrel⟩
  lost := by
    intro t ht
    obtain ⟨hmem, hlive, hrel⟩ := h₁.lost t ht
    obtain ⟨hmem', -, hrel'⟩ := h₂.lost t hmem
    exact ⟨hmem', hlive, hrel'.trans hrel⟩

theorem lastsScope_after (hlive : (m.engine.frame.scopes.entry? k).isSome)
    (hlive' : ((m.after o).engine.frame.scopes.entry? k).isSome) :
    m.LastsScope (m.after o) k := by
  have hzero := Pool.recycled_eq_zero hlive hlive'
  exact ⟨hlive, congrArg (m.scopeReleases k.index + ·) hzero⟩

theorem lastsTable_after (hlive : (m.engine.frame.tables.entry? t).isSome)
    (hlive' : ((m.after o).engine.frame.tables.entry? t).isSome) :
    m.LastsTable (m.after o) t := by
  have hzero := Pool.recycled_eq_zero hlive hlive'
  exact ⟨hlive, congrArg (m.tableReleases t.index + ·) hzero⟩

/-- What is live before and after a step has lasted through it. -/
theorem shelters_of_frame (hm : m.Tracked) (hw : m.Owned) (ho : Allows base m o)
    (hframe : Frame.Shelters n m.engine.frame (m.after o).engine.frame) :
    Shelters n m (m.after o) := by
  have hw' := hw.after hm ho
  refine ⟨hframe, fun k d hd hk => ?_, fun t d hd ht => ?_, fun t ht => ?_⟩
  · exact lastsScope_after (isSome_scope_of_home? (hframe.spares.scopes k d hd hk))
      (isSome_scope_of_home? hk)
  · exact lastsTable_after (hw.isSome_table_of_tableAt (hframe.spares.tables t d hd ht))
      (hw'.isSome_table_of_tableAt ht)
  · have hmem : t ∈ (m.after o).lost := List.mem_append_right _ ht
    exact ⟨hmem, lastsTable_after (hw.isSome_of_mem_lost ht) (hw'.isSome_of_mem_lost hmem)⟩

theorem shelters_after (hm : m.Tracked) (hw : m.Owned) (ho : Allows base m o)
    (hn : n ≤ m.engine.frame.depth) : Shelters n m (m.after o) :=
  shelters_of_frame hm hw ho (o.shelters_perform hm.sound hn)

/-- An operation in depth stays at the depth it belongs to or deeper. -/
theorem base_le_perform (hf : m.engine.frame.Sound) (ho : InDepth base m.engine.frame o)
    (hb : base ≤ m.engine.frame.depth) : base ≤ (m.after o).engine.frame.depth := by
  rcases o.stays_or with hs | ⟨node, r, rfl⟩ | rfl
  · have := (Op.touches_anything hf hs).depth_eq
    exact this ▸ hb
  · exact Nat.le_succ_of_le hb
  · have hlt : base < m.engine.frame.depth := ho
    show base ≤ m.engine.frame.depth - 1
    omega

/-- A run stays at the depth it belongs to or deeper. -/
theorem base_le_after (hm : m.Tracked) (ho : Allows base m o)
    (hb : base ≤ m.engine.frame.depth) : base ≤ (m.after o).engine.frame.depth :=
  base_le_perform hm.sound ho.depth hb

theorem shelters_run (hm : m.Tracked) (hw : m.Owned) (hos : Lawful base m os)
    (hb : base ≤ m.engine.frame.depth) : Shelters base m (m.run os) := by
  induction os generalizing m with
  | nil => exact .refl hw
  | cons o os ih =>
      have hstep := shelters_after hm hw hos.1 hb
      exact hstep.trans (ih (hm.after o) (hw.after hm hos.1) hos.2 (base_le_after hm hos.1 hb))

theorem tableReleases_le_run (os : List Op) :
    ∀ (m : Machine) (i : Nat), m.tableReleases i ≤ (m.run os).tableReleases i := by
  induction os with
  | nil => exact fun _ _ => Nat.le_refl _
  | cons o os ih => exact fun m i => Nat.le_trans (Nat.le_add_right _ _) (ih (m.after o) i)

/-- What lasts through a run lasts through its first operation and through the
rest. -/
theorem LastsTable.cons (h : m.LastsTable (m.run (o :: os)) t) :
    (∃ v, (m.after o).engine.frame.books.tables t = some v) ∧
      (m.after o).LastsTable (m.run (o :: os)) t := by
  -- no release in the whole run, so none in its first step
  have hle : (m.after o).tableReleases t.index ≤ m.tableReleases t.index := by
    rw [← h.2]
    exact tableReleases_le_run os (m.after o) t.index
  have hlive : ((m.after o).engine.frame.tables.entry? t).isSome :=
    (o.moves_perform m.engine).tables.isSome_of_le h.1 hle
  refine ⟨Option.isSome_iff_exists.1 ((isSome_entry?_iff t).1 hlive), hlive, ?_⟩
  rw [h.2]
  exact Nat.le_antisymm (Nat.le_add_right _ _) hle

/-- What a run leaks was not there before. -/
theorem not_lastsTable_of_leaks (hm : m.Tracked) (ht : t ∈ m.leaks os) :
    ¬ m.LastsTable (m.run os) t := by
  intro hlasts
  induction os generalizing m with
  | nil => exact List.not_mem_nil ht
  | cons o os ih =>
      rcases List.mem_append.1 ht with ht | ht
      · exact ih (hm.after o) ht hlasts.cons.2
      · have hlive := hlasts.1
        rw [Op.leaked?_spec (Option.mem_toList.1 ht), Pool.acquire_fresh hm.sound.tables] at hlive
        exact Bool.noConfusion hlive

theorem Lawful.mono {base' : Nat} (hos : Lawful base m os) (hb : base' ≤ base) :
    Lawful base' m os := by
  induction os generalizing m with
  | nil => exact trivial
  | cons o os ih =>
      refine ⟨⟨?_, hos.1.held, hos.1.young⟩, ih hos.2⟩
      have hdepth := hos.1.depth
      unfold InDepth at hdepth ⊢
      split
      · exact hdepth
      · exact Nat.lt_of_le_of_lt hb hdepth
      · exact trivial

/-- Once the current depth is sheltered, every live scope has lasted. -/
theorem lastsScope_of_live (hw' : m'.Owned)
    (hs : Shelters n m m') (hd : m'.engine.frame.depth < n)
    (hk : (m'.engine.frame.scopes.entry? k).isSome) : m.LastsScope m' k := by
  obtain ⟨x, hx⟩ := Option.isSome_iff_exists.1 hk
  have hbooks : m'.engine.frame.books.scopes k = some (x.depth, x.item.map (·.members)) := by
    simp [Frame.books, hx]
  obtain ⟨d, t, hv⟩ := hw'.kept.scope k _ hbooks
  rw [hv] at hbooks
  have hhome : m'.engine.frame.books.home? (.scope k) = some d := by
    simp [Books.home?, hbooks]
  have hle : d ≤ m'.engine.frame.depth := hw'.kept.home_le _ d hhome (by simp)
  exact hs.scopes k d (by omega) hhome

/-- And so has every live table that was not lost. -/
theorem lastsTable_of_live (hw' : m'.Owned) (hs : Shelters n m m')
    (hd : m'.engine.frame.depth < n) (ht : (m'.engine.frame.tables.entry? t).isSome)
    (hl : t ∉ m'.lost) : m.LastsTable m' t := by
  obtain ⟨v, hv⟩ := Option.isSome_iff_exists.1 ((isSome_entry?_iff t).1 ht)
  have hloose : .table t ∉ m'.lost.map Allocation.table := by simpa using hl
  cases v with
  | some d =>
      have hhome : m'.engine.frame.books.home? (.table t) = some d := by simp [Books.home?, hv]
      have hle : d ≤ m'.engine.frame.depth := hw'.kept.home_le _ d hhome hloose
      exact hs.tables t d (by omega) (.inl hv)
  | none =>
      obtain ⟨k, v, hk⟩ := hw'.kept.owner t hv hloose
      obtain ⟨d, t', hpair⟩ := hw'.kept.scope k _ hk
      rw [hpair] at hk
      injection hpair with hpair htt
      injection htt with htt
      subst htt
      have hhome : m'.engine.frame.books.home? (.scope k) = some d := by simp [Books.home?, hk]
      have hle : d ≤ m'.engine.frame.depth := hw'.kept.home_le _ d hhome (by simp)
      exact hs.tables t d (by omega) (.inr ⟨k, hk⟩)

end Machine

/-! ## The gate as a run -/

namespace Frame

/-- The entry of a depth that has ended is as good as new. -/
theorem entries_leave {f : Frame} (hf : f.Sound) : f.leave.entries[f.depth]? = some {} := by
  have htouch := touches_endDepth hf (.inl rfl) fun a _ => Op.covers_true f a
  have hlist : (f.endDepth f.depth).books.listed f.depth = [] := by
    rw [books_endDepth, Books.listed_reclaim, Function.update_self]
  have hlt := htouch.sound.depth_lt
  rw [htouch.depth_eq] at hlt
  show (f.endDepth f.depth).entries[f.depth]? = some {}
  simp only [endDepth, modifyEntry, Array.getElem?_modify, if_true, books, listed] at hlist ⊢
  cases he : (f.reclaim f.depth).entries[f.depth]? with
  | none =>
      rw [Array.getElem?_eq_none_iff] at he
      simp only [endDepth, modifyEntry, Array.size_modify] at hlt
      omega
  | some e =>
      rw [he] at hlist
      have hempty : e.allocations = [] := hlist
      simp [DepthEntry.clear, hempty]

end Frame

namespace Session

open Machine

/-- From `s` to `s'` the engine changed as by a run at the depth of `m`, which
every activation that began in between has left again. -/
structure Works (s s' : Session) (m : Machine) (os : List Op) : Prop where
  lawful : Lawful m.engine.frame.depth m os
  before : s.engine = m.engine
  after : s'.engine = (m.run os).engine
  depth : (m.run os).engine.frame.depth = m.engine.frame.depth

/-- The session in which a body starts. -/
def entered (s : Session) (node : Node) (scope : ScopeRef) : Session :=
  s.modifyFrame fun f => f.enter node scope

/-- A body that is given its stack runs, and one that is not panics. -/
def admitted (s : Session) (body : Body) : Body :=
  if s.engine.frame.config.isServable then body else fun s => (.panicked, s)

/-- An outcome with the trace an error may have got on its way. -/
def SameOutcome : Outcome Completion → Outcome Completion → Prop
  | .done c, r => r = .done c
  | .raised e, r => ∃ e', r = .raised e' ∧ e'.kind = e.kind
  | .panicked, r => r = .panicked

theorem gate_eq {node : Node} {scope : ScopeRef} {body : Body} {s : Session}
    (hd : s.engine.frame.depth < s.engine.frame.config.maxDepth) :
    let r := s.admitted body (s.entered node scope)
    (gate node scope body s).2 = r.2.modifyFrame Frame.leave ∧
      SameOutcome r.1 (gate node scope body s).1 := by
  have hlim : ¬ s.engine.frame.config.maxDepth ≤ s.engine.frame.depth := by omega
  rcases hr : s.admitted body (s.entered node scope) with ⟨o, s'⟩
  simp only [admitted, entered] at hr
  simp only [gate, if_neg hlim, StackBudget.run_eq, hr]
  cases o with
  | done c => exact ⟨rfl, rfl⟩
  | raised e =>
      refine ⟨rfl, _, rfl, ?_⟩
      split <;> rfl
  | panicked => exact ⟨rfl, rfl⟩

/-- An activation is a run too: its body between the two operations of the
gate. A body may therefore evaluate further nodes. -/
theorem works_gate {node : Node} {scope : ScopeRef} {body : Body} {s : Session} {m : Machine}
    {os : List Op} (hs : s.engine = m.engine)
    (hd : s.engine.frame.depth < s.engine.frame.config.maxDepth)
    (hbody : Works (s.entered node scope) (s.admitted body (s.entered node scope)).2
      (m.after (.enter node scope)) os) :
    Works s (gate node scope body s).2 m (.enter node scope :: os ++ [.leave]) := by
  have hrun : m.run (.enter node scope :: os ++ [.leave]) =
      ((m.after (.enter node scope)).run os).after .leave := by
    rw [run_append]
    rfl
  have hdepth : ((m.after (.enter node scope)).run os).engine.frame.depth =
      m.engine.frame.depth + 1 := hbody.depth
  refine ⟨⟨⟨hs ▸ hd, nofun, nofun⟩, lawful_append.2 ⟨?_, ⟨?_, nofun, nofun⟩, trivial⟩⟩,
    hs, ?_, ?_⟩
  · exact hbody.lawful.mono (Nat.le_succ _)
  · show m.engine.frame.depth < ((m.after (.enter node scope)).run os).engine.frame.depth
    omega
  · rw [(gate_eq hd).1, hrun, modifyFrame_eq]
    simp only [hbody.after]
    rfl
  · rw [hrun]
    show ((m.after (.enter node scope)).run os).engine.frame.depth - 1 = _
    omega

variable {s s' s'' : Session} {m : Machine} {os os' : List Op} {table : Handle}

theorem Works.trans (h : Works s s' m os) (h' : Works s' s'' (m.run os) os') :
    Works s s'' m (os ++ os') := by
  have hlawful := h'.lawful
  have hdepth := h'.depth
  rw [h.depth] at hlawful hdepth
  refine ⟨lawful_append.2 ⟨h.lawful, hlawful⟩, h.before, ?_, ?_⟩
  · rw [run_append, h'.after]
  · rw [run_append, hdepth]

/-- A table that its holder may consume. -/
def Consumable (m : Machine) (table : Handle) : Prop :=
  table ∈ m.held ∧ m.tableReleases table.key.index < table.issued + 4294967296

/-- An operation that stays at its depth is a run of its own. -/
theorem works_op (o : Op) (hm : m.Tracked) (ho : o.Stays)
    (hc : ∀ h ∈ o.consumes?, Consumable m h) (hs : s.engine = m.engine)
    (hs' : s'.engine = o.perform s.engine) : Works s s' m [o] := by
  have hdepth : InDepth m.engine.frame.depth m.engine.frame o := by
    cases o with
    | enter node scope => exact ho.elim
    | leave => exact ho.elim
    | _ => trivial
  refine ⟨⟨⟨hdepth, fun h hh => (hc h hh).1, fun h hh => (hc h hh).2⟩, trivial⟩, hs, ?_, ?_⟩
  · rw [hs', hs]
    rfl
  · exact (Op.touches_anything hm.sound ho).depth_eq

/-- An operation that consumes no table asks nothing of its caller. -/
theorem works_step (o : Op) (hm : m.Tracked) (ho : o.Stays) (hfree : o.consumes? = none)
    (hs : s.engine = m.engine) (hs' : s'.engine = o.perform s.engine) : Works s s' m [o] := by
  refine works_op o hm ho (fun h hh => ?_) hs hs'
  rw [hfree] at hh
  cases hh

/-- What neither consumes nor gives back a table leaves its holder the right. -/
theorem Consumable.after (h : Consumable m table) {o : Op} (hfree : o.consumes? = none)
    (hkept : m.engine.frame.tables.recycled (m.after o).engine.frame.tables table.key.index = 0) :
    Consumable (m.after o) table := by
  constructor
  · refine List.mem_append_right _ (List.mem_filter.2 ⟨h.1, ?_⟩)
    rw [hfree]
    exact decide_eq_true nofun
  · show m.tableReleases _ + m.engine.frame.tables.recycled (m.after o).engine.frame.tables _ < _
    rw [hkept]
    exact h.2

theorem Consumable.after_share (h : Consumable m table) (store : Store) :
    Consumable (m.run [.share store]) table :=
  h.after (o := .share store) rfl (Pool.recycled_self _ _)

theorem works_nodeShape (hm : m.Tracked) (hs : s.engine = m.engine) (node : Node) :
    ∃ store, Works s (s.nodeShape node).2 m [.share store] :=
  ⟨(s.engine.store.nodeShape node.id .all).2, works_op _ hm trivial nofun hs rfl⟩

theorem works_pooledCallScope (hm : m.Tracked) (hs : s.engine = m.engine)
    (hc : Consumable m table) (binding : FunctionBinding) (previous : DurableScope)
    (shape : ShapeId) :
    Works s (s.pooledCallScope binding previous shape table.key).2 m
      [.allocateFunction binding (.durable previous) shape table] := by
  refine works_op _ hm trivial ?_ hs rfl
  rintro h ⟨⟩
  exact hc

/-- The members move to the heap, and the entry of the table is given back. -/
theorem works_heapCallScope (hm : m.Tracked) (hs : s.engine = m.engine)
    (hc : Consumable m table) (binding : FunctionBinding) (previous : DurableScope)
    (shape : ShapeId) :
    ∃ os, Works s (s.heapCallScope binding previous shape table.key).2 m os := by
  have htake : Works s (s.modifyFrame fun f => (f.takeTable table.key).2) m
      [.takeTable table] := by
    refine works_op _ hm trivial ?_ hs rfl
    rintro h ⟨⟩
    exact hc
  have hengine : ∃ store, (s.heapCallScope binding previous shape table.key).2.engine =
      { store, frame := (s.engine.frame.takeTable table.key).2 } := by
    unfold heapCallScope
    dsimp only
    split
    · exact ⟨s.engine.store, rfl⟩
    · exact ⟨_, rfl⟩
  obtain ⟨store, hstore⟩ := hengine
  exact ⟨_, htake.trans (works_op (.share store) (hm.run _) trivial nofun htake.after hstore)⟩

/-- Wherever it begins, what is done is a run at the depth of the frame. -/
def IsRun {α : Type} (x : Session → Outcome α × Session) : Prop :=
  ∀ s m, Tracked m → s.engine = m.engine → ∃ os, Works s (x s).2 m os

theorem works_admitted {body : Body} (hbody : IsRun body) (node : Node) (scope : ScopeRef)
    (hm : m.Tracked) (hs : s.engine = m.engine) :
    ∃ os, Works (s.entered node scope) (s.admitted body (s.entered node scope)).2
      (m.after (.enter node scope)) os := by
  have hs₁ : (s.entered node scope).engine = (m.after (.enter node scope)).engine := by
    show Op.perform s.engine (.enter node scope) = _
    rw [hs]
    rfl
  unfold admitted
  split
  · exact hbody _ _ (hm.after _) hs₁
  · exact ⟨[], trivial, hs₁, hs₁, rfl⟩

/-- Evaluating a node is a run at any depth, if its body is: at the limit
nothing happens. -/
theorem isRun_gate {body : Body} (hbody : IsRun body) (node : Node) (scope : ScopeRef) :
    IsRun (gate node scope body) := by
  intro s m hm hs
  by_cases hd : s.engine.frame.depth < s.engine.frame.config.maxDepth
  · obtain ⟨os, hos⟩ := works_admitted hbody node scope hm hs
    exact ⟨_, works_gate hs hd hos⟩
  · refine ⟨[], trivial, hs, ?_, rfl⟩
    rw [gate, if_pos (Nat.not_lt.1 hd)]
    exact hs

/-- A call is a run, if evaluating its body is one: it makes the table of
arguments a scope, and gives a pooled one back unless the body panicked. -/
theorem works_call {eval : Node → ScopeRef → Body} (f : FunctionId) (this super : Option Value)
    (hm : m.Tracked) (hs : s.engine = m.engine) (hc : Consumable m table)
    (heval : ∀ node scope, IsRun (eval node scope)) :
    ∃ os, Works s (call eval f table.key this super s).2 m os := by
  unfold call
  split
  · exact ⟨[], trivial, hs, hs, rfl⟩
  · next function hf =>
      obtain ⟨store, hshape⟩ := works_nodeShape hm hs function.body
      have hm₁ := hm.run [.share store]
      have hc₁ := hc.after_share store
      generalize s.nodeShape function.body = r at hshape ⊢
      obtain ⟨shape, s₁⟩ := r
      dsimp only
      split
      · obtain ⟨os₁, hscope⟩ := works_heapCallScope hm₁ hshape.after hc₁ ⟨f, this, super⟩
          (function.closure.getD (.ofGlobal s₁.engine.frame.global)) shape
        have hscope := hshape.trans hscope
        split
        · next e s₂ heq =>
            rw [heq] at hscope
            exact ⟨_, hscope⟩
        · next scope s₂ heq =>
            rw [heq] at hscope
            obtain ⟨os₂, hrun⟩ := heval function.body scope s₂ _ (hm.run _) hscope.after
            exact ⟨_, hscope.trans hrun⟩
      · have hscope := hshape.trans (works_pooledCallScope hm₁ hshape.after hc₁ ⟨f, this, super⟩
          (function.closure.getD (.ofGlobal s₁.engine.frame.global)) shape)
        split
        · next e s₂ heq =>
            rw [heq] at hscope
            exact ⟨_, hscope⟩
        · next s₂ heq =>
            rw [heq] at hscope
            exact ⟨_, hscope⟩
        · next scope s₂ heq =>
            rw [heq] at hscope
            obtain ⟨os₂, hrun⟩ := heval function.body scope s₂ _ (hm.run _) hscope.after
            have hrun := hscope.trans hrun
            split
            · next s₃ heq =>
                rw [heq] at hrun
                exact ⟨_, hrun⟩
            · next s₃ _ heq =>
                rw [heq] at hrun
                exact ⟨_, hrun.trans (works_op (.freeScope scope) (hm.run _) trivial nofun
                  hrun.after rfl)⟩

end Session

/-! ## The frame after the gate -/

namespace Machine

/-- From `m` to `m'` the frame came back to its depth `d`. Everything live was
live all along, but for the tables leaked; the activations up to `d` are what
they were and have nothing more to give back; and the entry above is unused. -/
structure Restored (m m' : Machine) (d : Nat) (leaked : List PoolKey) : Prop where
  depth : m'.engine.frame.depth = d
  scopes : ∀ k, (m'.engine.frame.scopes.entry? k).isSome → m.LastsScope m' k
  tables : ∀ t, (m'.engine.frame.tables.entry? t).isSome → t ∉ leaked → m.LastsTable m' t
  leaked : ∀ t ∈ leaked, (m'.engine.frame.tables.entry? t).isSome ∧ ¬ m.LastsTable m' t
  activation : ∀ j, 0 < j → j ≤ d →
    m'.engine.frame.activation? j = m.engine.frame.activation? j
  listed : ∀ j ≤ d, m'.engine.frame.listed j ⊆ m.engine.frame.listed j
  above : m'.engine.frame.entries[d + 1]? = some {}

/-- Every live table was live all along exactly if none was leaked. -/
theorem Restored.leaked_eq_nil_iff {m m' : Machine} {d : Nat} {leaked : List PoolKey}
    (h : m.Restored m' d leaked) :
    (∀ t, (m'.engine.frame.tables.entry? t).isSome → m.LastsTable m' t) ↔ leaked = [] := by
  constructor
  · intro hall
    refine List.eq_nil_iff_forall_not_mem.2 fun t ht => ?_
    obtain ⟨hlive, hnot⟩ := h.leaked t ht
    exact hnot (hall t hlive)
  · intro hnil t ht
    exact h.tables t ht (by simp [hnil])

theorem leaks_activation (m : Machine) (node : Node) (scope : ScopeRef) (os : List Op) :
    m.leaks (.enter node scope :: os ++ [.leave]) = (m.after (.enter node scope)).leaks os := by
  show (m.after (.enter node scope)).leaks (os ++ [.leave]) ++ [] = _
  rw [leaks_append, List.append_nil]
  rfl

/-- An activation that has ended, whatever its body did. -/
theorem restored_activation {m : Machine} {node : Node} {scope : ScopeRef} {os : List Op}
    (hm : m.Tracked) (hw : m.Owned)
    (hos : Lawful m.engine.frame.depth m (.enter node scope :: os ++ [.leave]))
    (hbody : Lawful (m.engine.frame.depth + 1) (m.after (.enter node scope)) os)
    (hd : ((m.after (.enter node scope)).run os).engine.frame.depth =
      m.engine.frame.depth + 1) :
    m.Restored (m.run (.enter node scope :: os ++ [.leave])) m.engine.frame.depth
      ((m.after (.enter node scope)).leaks os) := by
  have hrun : m.run (.enter node scope :: os ++ [.leave]) =
      ((m.after (.enter node scope)).run os).after .leave := by
    rw [run_append]
    rfl
  have hw' := hw.run hm hos
  have henter : Allows m.engine.frame.depth m (.enter node scope) := hos.1
  have hleave := (lawful_append.1 hos.2).2.1
  have hm₁ := hm.after (.enter node scope)
  have hw₁ := hw.after hm henter
  have hm₂ := hm₁.run os
  have hw₂ := hw₁.run hm₁ hbody
  -- each part of the run shelters the depths up to the one it started from
  have hs : Shelters (m.engine.frame.depth + 1) m
      (m.run (.enter node scope :: os ++ [.leave])) := by
    rw [hrun]
    have h₁ := shelters_of_frame hm hw henter
      (Frame.shelters_enter hm.sound (Nat.le_refl _) node scope)
    have h₂ := shelters_run hm₁ hw₁ hbody (Nat.le_refl _)
    exact (h₁.trans h₂).trans (shelters_after hm₂ hw₂ hleave (Nat.le_of_eq hd.symm))
  have hdepth : (m.run (.enter node scope :: os ++ [.leave])).engine.frame.depth =
      m.engine.frame.depth := by
    rw [hrun]
    show ((m.after (.enter node scope)).run os).engine.frame.depth - 1 = _
    omega
  have hleaks := leaks_activation m node scope os
  have hlost := lost_run (.enter node scope :: os ++ [.leave]) m
  rw [hleaks] at hlost
  refine ⟨hdepth, fun k hk => ?_, fun t ht hn => ?_, fun t ht => ⟨?_, ?_⟩, fun j h0 hj => ?_,
    fun j hj => ?_, ?_⟩
  · exact lastsScope_of_live hw' hs (by omega) hk
  · by_cases hmem : t ∈ m.lost
    · exact (hs.lost t hmem).2
    · refine lastsTable_of_live hw' hs (by omega) ht ?_
      rw [hlost, List.mem_append, not_or]
      exact ⟨hn, hmem⟩
  · refine hw'.isSome_of_mem_lost ?_
    rw [hlost]
    exact List.mem_append_left _ ht
  · exact not_lastsTable_of_leaks hm (hleaks ▸ ht)
  · exact hs.frame.activation j h0 (by omega)
  · exact hs.frame.spares.listed j (by omega)
  · rw [hrun, ← hd]
    exact Frame.entries_leave hm₂.sound

end Machine

namespace Session

open Machine

/-- The gate around a body that is a run, in a frame that is in order. -/
theorem restored_gate {m : Machine} {os : List Op} {s : Session} {node : Node} {scope : ScopeRef}
    {body : Body} (hm : m.Tracked) (hw : m.Owned) (hs : s.engine = m.engine)
    (hd : s.engine.frame.depth < s.engine.frame.config.maxDepth)
    (hbody : Works (s.entered node scope) (s.admitted body (s.entered node scope)).2
      (m.after (.enter node scope)) os) :
    let m' := m.run (.enter node scope :: os ++ [.leave])
    let leaked := (m.after (.enter node scope)).leaks os
    (gate node scope body s).2.engine = m'.engine ∧
      m.Restored m' s.engine.frame.depth leaked ∧
      ((∀ t, (m'.engine.frame.tables.entry? t).isSome → m.LastsTable m' t) ↔ leaked = []) ∧
      SameOutcome (s.admitted body (s.entered node scope)).1 (gate node scope body s).1 := by
  intro m' leaked
  have hworks := works_gate hs hd hbody
  have hrestored : m.Restored m' s.engine.frame.depth leaked := by
    rw [hs]
    exact restored_activation hm hw hworks.lawful hbody.lawful hbody.depth
  exact ⟨hworks.after, hrestored, hrestored.leaked_eq_nil_iff, (gate_eq hd).2⟩

/-- The gate gives back the frame as it found it, at any depth below the limit
and whatever the body does and however it ends. The outcome is the body's; only
a trace is added to an error. A table that the body asked for and that had no
room is the one thing that may stay behind. -/
theorem gate_restores_frame {store : Store} {config : FrameConfig} {global : GlobalId}
    {flag : FlagId} {os₀ os : List Op} {s : Session} {node : Node} {scope : ScopeRef}
    {body : Body} (hos : Lawful 0 (Machine.start store config global flag) os₀)
    (hs : s.engine = ((Machine.start store config global flag).run os₀).engine)
    (hd : s.engine.frame.depth < s.engine.frame.config.maxDepth)
    (hbody : Works (s.entered node scope) (s.admitted body (s.entered node scope)).2
      (((Machine.start store config global flag).run os₀).after (.enter node scope)) os) :
    let m := (Machine.start store config global flag).run os₀
    let m' := m.run (.enter node scope :: os ++ [.leave])
    let leaked := (m.after (.enter node scope)).leaks os
    (gate node scope body s).2.engine = m'.engine ∧
      m.Restored m' s.engine.frame.depth leaked ∧
      ((∀ t, (m'.engine.frame.tables.entry? t).isSome → m.LastsTable m' t) ↔ leaked = []) ∧
      SameOutcome (s.admitted body (s.entered node scope)).1 (gate node scope body s).1 := by
  intro m m' leaked
  have hw : m.Owned := (owned_start store config global flag).run (tracked_start ..) hos
  exact restored_gate ((tracked_start ..).run os₀) hw hs hd hbody

/-- A body that allocates a scope and a table and then fails. -/
theorem gate_restores_frame_of_failure :
    let s : Session := { engine := (Machine.start {} {} 0 0).engine }
    let body : Body := fun s =>
      (.raised ErrorKind.noThis,
        s.modifyFrame fun f => ((f.allocateBlock (.ofGlobal 0) 0 0).2.allocateTable 2).2)
    let m := Machine.start {} {} 0 0
    let m' := m.run
      [.enter { id := 0 } (.ofGlobal 0), .allocateBlock (.ofGlobal 0) 0, .allocateTable 2, .leave]
    (gate { id := 0 } (.ofGlobal 0) body s).2.engine = m'.engine ∧
      m.Restored m' 0 [] := by
  intro s body m m'
  have hos : Lawful 0 m [] := trivial
  have hbody : Works (s.entered { id := 0 } (.ofGlobal 0))
      (s.admitted body (s.entered { id := 0 } (.ofGlobal 0))).2
      ((m.run []).after (.enter { id := 0 } (.ofGlobal 0)))
      [.allocateBlock (.ofGlobal 0) 0, .allocateTable 2] :=
    ⟨by decide +kernel, rfl, rfl, by decide +kernel⟩
  have hgate := gate_restores_frame (s := s) hos rfl (by decide) hbody
  exact ⟨hgate.1, hgate.2.1⟩

/-- A body that panics because there is no room for a table of 2^60 slots
leaves a table behind that was not there before. -/
theorem gate_leaves_table_without_room :
    let s : Session := { engine := (Machine.start {} {} 0 0).engine }
    let body : Body := fun s =>
      (.panicked, s.modifyFrame fun f => (f.allocateTable 1152921504606846976).2)
    (s.engine.frame.tables.entry? ⟨0, 0⟩).isNone ∧
      ((gate { id := 0 } (.ofGlobal 0) body s).2.engine.frame.tables.entry? ⟨0, 0⟩).isSome := by
  decide +kernel

end Session

end ScriptCore

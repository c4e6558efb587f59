import ScriptCore.Proofs.BlockMaps
import ScriptCore.Proofs.CallNames
import ScriptCore.Proofs.Ownership
import ScriptCore.Proofs.Records

/-!
# What a call leaves in the pools

A call consumes its table of arguments. The table becomes the members of a scope
that is registered with the caller, whose depth is not over when the call is, so
the call has to give this scope back itself. It does so after the gate, by the
key. That the key cannot reach anything else by then rests on what the gate
leaves: whatever lives after it was there before the body ran and was not given
back since, so if the key reaches something, it reaches the scope of the call,
and the arguments with it. A body that gave its scope back already is no matter.

A panic passes by the release. Then the scope may be left, with the arguments,
and it is on the list of the caller's depth, which gives both back when it ends.
On the heap nothing is left: the arguments moved there before the body began.
-/

namespace ScriptCore

/-! ## What an operation adds -/

namespace Frame

variable {f : Frame} {t t' : PoolKey}

theorem isSome_tables_readyTable (n : Nat) :
    ((f.readyTable t n).tables.entry? t').isSome = (f.tables.entry? t').isSome := by
  rw [readyTable, isSome_tables_detachTable]
  show (Pool.entry? (f.tables.modify t _) t').isSome = _
  rw [Pool.entry?_modify]
  split
  · next h => rw [h, Option.isSome_map]
  · rfl

/-- A table taken out of the pool is gone, and nothing came in its place. -/
theorem isSome_tables_takeTable (h : ((f.takeTable t).2.tables.entry? t').isSome) :
    t' ≠ t ∧ (f.tables.entry? t').isSome := by
  unfold takeTable at h
  split at h
  · next e he =>
      refine ⟨fun heq => ?_, h⟩
      rw [heq] at h
      simp only [getTable, Pool.get?] at he
      obtain ⟨x, hx⟩ := Option.isSome_iff_exists.1 h
      rw [hx] at he
      cases he
  · have h : (Pool.entry? ((f.detachTable t).tables.release t MemberTable.reset).2 t').isSome := h
    rw [Pool.entry?_release] at h
    split at h
    · cases h
    · next hne =>
        rw [isSome_tables_detachTable] at h
        exact ⟨hne, h⟩

end Frame

namespace Machine

variable {m m' m'' : Machine} {base : Nat} {o : Op} {os : List Op} {k t : PoolKey}
  {ks ks' ts ts' : List PoolKey}

/-- Apart from these scopes and tables, whatever lives in `m'` was there in `m`
and has not been given back since. -/
structure Adds (m m' : Machine) (ks ts : List PoolKey) : Prop where
  scopes : ∀ k, (m'.engine.frame.scopes.entry? k).isSome → k ∉ ks → m.LastsScope m' k
  tables : ∀ t, (m'.engine.frame.tables.entry? t).isSome → t ∉ ts → m.LastsTable m' t

theorem Adds.refl (m : Machine) : m.Adds m [] [] :=
  ⟨fun _ h _ => ⟨h, rfl⟩, fun _ h _ => ⟨h, rfl⟩⟩

theorem Adds.trans (h : m.Adds m' ks ts) (h' : m'.Adds m'' ks' ts') :
    m.Adds m'' (ks ++ ks') (ts ++ ts') where
  scopes := by
    intro k hk hne
    rw [List.mem_append, not_or] at hne
    have hlast := h'.scopes k hk hne.2
    exact (h.scopes k hlast.1 hne.1).trans hlast
  tables := by
    intro t ht hne
    rw [List.mem_append, not_or] at hne
    have hlast := h'.tables t ht hne.2
    exact (h.tables t hlast.1 hne.1).trans hlast

theorem adds_after
    (hk : ∀ k, ((m.after o).engine.frame.scopes.entry? k).isSome → k ∉ ks →
      (m.engine.frame.scopes.entry? k).isSome)
    (ht : ∀ t, ((m.after o).engine.frame.tables.entry? t).isSome → t ∉ ts →
      (m.engine.frame.tables.entry? t).isSome) : m.Adds (m.after o) ks ts :=
  ⟨fun k h hne => lastsScope_after (hk k h hne) h,
    fun t h hne => lastsTable_after (ht t h hne) h⟩

/-- Without the exceptions that are gone by now. -/
theorem Adds.drop_scope (h : m.Adds m' (k :: ks) ts)
    (hk : (m'.engine.frame.scopes.entry? k).isSome = false) : m.Adds m' ks ts := by
  refine ⟨fun k' hk' hne => h.scopes k' hk' ?_, h.tables⟩
  intro hmem
  rcases List.mem_cons.1 hmem with heq | hmem
  · rw [heq, hk] at hk'
    cases hk'
  · exact hne hmem

theorem Restored.adds {d : Nat} {leaked : List PoolKey} (h : m.Restored m' d leaked) :
    m.Adds m' [] leaked :=
  ⟨fun k hk _ => h.scopes k hk, h.tables⟩

theorem adds_share (store : Store) : m.Adds (m.after (.share store)) [] [] :=
  adds_after (fun _ h _ => h) fun _ h _ => h

theorem adds_takeTable (table : Handle) :
    m.Adds (m.after (.takeTable table)) [] [] ∧
      ((m.after (.takeTable table)).engine.frame.tables.entry? table.key).isSome = false := by
  refine ⟨adds_after (fun k h _ => ?_) fun t h _ => (Frame.isSome_tables_takeTable h).2, ?_⟩
  · have hscopes := Frame.takeTable_scopes m.engine.frame table.key
    have h : ((m.engine.frame.takeTable table.key).2.scopes.entry? k).isSome := h
    rw [hscopes] at h
    exact h
  · refine Bool.not_eq_true _ ▸ fun h => ?_
    exact (Frame.isSome_tables_takeTable h).1 rfl

theorem adds_freeScope (r : ScopeRef) : m.Adds (m.after (.freeScope r)) [] [] := by
  cases r with
  | durable d => exact adds_after (fun _ h _ => h) fun _ h _ => h
  | pooled k =>
      obtain ⟨hscopes, htables⟩ := m.engine.frame.books_freeScope k
      refine adds_after (fun k' h _ => ?_) fun t h _ => ?_
      · rw [isSome_scopes_iff] at h ⊢
        have h : ((m.engine.frame.freeScope (.pooled k)).2.books.scopes k').isSome := h
        obtain ⟨v, hv⟩ := Option.isSome_iff_exists.1 h
        rw [hscopes] at hv
        rw [Books.scopes_of_free hv]
        rfl
      · rw [isSome_entry?_iff] at h ⊢
        have h : ((m.engine.frame.freeScope (.pooled k)).2.books.tables t).isSome := h
        obtain ⟨v, hv⟩ := Option.isSome_iff_exists.1 h
        rw [htables] at hv
        rw [Books.tables_of_free hv]
        rfl

/-- A scope given back after a run takes along the members it had before it, if
these are still there. -/
theorem gone_with_scope (hm : m.Tracked) (hw : m.Owned) (hos : Lawful base m os)
    {home : Option Nat} (hk : m.engine.frame.books.scopes k = some (home, some t)) :
    let m' := m.run (os ++ [.freeScope (.pooled k)])
    (m'.engine.frame.scopes.entry? k).isSome = false ∧ ¬ m.LastsTable m' t := by
  intro m'
  have hrun : m' = (m.run os).after (.freeScope (.pooled k)) := run_append m os _
  obtain ⟨hscope, hmembers⟩ := (m.run os).gone_after_freeScope k
  refine ⟨hrun ▸ hscope, fun hlasts => ?_⟩
  obtain ⟨hfirst, hlast⟩ := hlasts.append
  have hgone := hmembers home t (owner_run hm hw hos hfirst hk)
  -- what lasts through the release is live after it
  have hlast : (m.run os).LastsTable ((m.run os).run [.freeScope (.pooled k)]) t := by
    rw [← run_append]
    exact hlast
  obtain ⟨v, hv⟩ := hlast.cons.1
  rw [← Bool.not_eq_true, isSome_entry?_iff, hv] at hgone
  exact hgone rfl

/-- A function scope that could not be made leaves the frame alone. One that was
made is what is new, over the table that was there. -/
theorem adds_allocateFunction (hm : m.Tracked) (binding : FunctionBinding) (previous : ScopeRef)
    (shape : ShapeId) (table : Handle) :
    let o : Op := .allocateFunction binding previous shape table
    let r := (m.engine.frame.allocateFunction binding previous shape
      (m.engine.store.shapeSize shape) table.key).1
    ((∀ k, r ≠ .done k) → m.Adds (m.after o) [] []) ∧
      ∀ k, r = .done k → m.Adds (m.after o) [k] [] ∧
        (m.after o).engine.frame.books.scopes k =
          some (some m.engine.frame.depth, some table.key) := by
  intro o r
  have hf := hm.sound
  have hready := Frame.touches_readyTable (S := fun _ => True) (T := fun _ => True)
    (t := table.key) hf trivial (m.engine.store.shapeSize shape)
  rcases m.engine.frame.allocateFunction_cases binding previous shape
    (m.engine.store.shapeSize shape) table.key with ⟨hsame, hno⟩ | ⟨-, hdone⟩
  · refine ⟨fun _ => ?_, fun k hk => absurd hk (hno k)⟩
    have hframe : (m.after o).engine.frame = m.engine.frame := hsame
    exact adds_after (fun k h _ => hframe ▸ h) fun t h _ => hframe ▸ h
  · have hr : r = .done m.engine.frame.scopes.nextKey := congrArg Prod.fst hdone
    have hframe : (m.after o).engine.frame = _ := congrArg Prod.snd hdone
    refine ⟨fun hno => absurd hr (hno _), fun k hk => ?_⟩
    rw [hr] at hk
    cases hk
    have hkey := Frame.readyTable_scopes m.engine.frame table.key (m.engine.store.shapeSize shape)
    refine ⟨adds_after (fun k h hne => ?_) (fun t h _ => ?_), ?_⟩
    · rw [isSome_scopes_iff] at h ⊢
      obtain ⟨v, hv⟩ := Option.isSome_iff_exists.1 h
      rw [hframe] at hv
      rcases Frame.scopes_installScope hready.sound hv with hold | ⟨-, hnew, -⟩
      · rw [← Frame.books_scopes_of_scopes hkey, hold]
        rfl
      · rw [hkey] at hnew
        exact absurd (List.mem_singleton.2 hnew) hne
    · have h : ((m.engine.frame.readyTable table.key
          (m.engine.store.shapeSize shape)).tables.entry? t).isSome := by
        rw [hframe] at h
        exact h
      rw [Frame.isSome_tables_readyTable] at h
      exact h
    · rw [hframe, Frame.books_installScope hready.sound, hkey, hready.depth_eq]
      exact Function.update_self ..

/-- A run that adds nothing but what it leaks adds nothing exactly if it leaks
nothing. -/
theorem lasts_iff_leaks_eq_nil (hm : m.Tracked) (hw : m.Owned) (hos : Lawful base m os)
    (hadds : m.Adds (m.run os) ks (m.leaks os)) :
    (∀ t, ((m.run os).engine.frame.tables.entry? t).isSome → m.LastsTable (m.run os) t) ↔
      m.leaks os = [] := by
  constructor
  · intro hall
    refine List.eq_nil_iff_forall_not_mem.2 fun t ht => not_lastsTable_of_leaks hm ht ?_
    have hlost : t ∈ (m.run os).lost := by
      rw [lost_run]
      exact List.mem_append_left _ ht
    exact hall t ((hw.run hm hos).isSome_of_mem_lost hlost)
  · intro hnil t ht
    refine hadds.tables t ht ?_
    rw [hnil]
    exact List.not_mem_nil

/-- The scope `k` is over the table `t`, and depth `d`, the current one, has yet
to give both back. It will, whatever happens there until it ends. -/
structure Awaits (m : Machine) (k t : PoolKey) (d : Nat) : Prop where
  depth : m.engine.frame.depth = d
  owned : m.engine.frame.OwnedBy t k
  live : (m.engine.frame.tables.entry? t).isSome
  listed : m.engine.frame.ListedOnce (.scope k) d
  reclaimed : ∀ os, Lawful d m os → (m.run os).engine.frame.depth = d →
    let m' := (m.run os).after (exit d)
    ¬ m.LastsScope m' k ∧ ¬ m.LastsTable m' t

theorem awaits_of_books {d : Nat} (hm : m.Tracked) (hw : m.Owned)
    (hd : m.engine.frame.depth = d)
    (hk : m.engine.frame.books.scopes k = some (some d, some t)) : m.Awaits k t d where
  depth := hd
  owned := Frame.ownedBy_iff.2 ⟨_, hk⟩
  live := by
    rw [isSome_entry?_iff, (hw.kept.members k _ t hk).1]
    rfl
  listed := Frame.listedOnce_of_kept hw.kept (by simp [Books.home?, hk]) (by simp)
  reclaimed := fun _ hos hend => reclaimed_at_exit hm hw hk hos hend

end Machine

/-! ## A call as a run -/

namespace Session

open Machine

variable {s s' : Session} {m : Machine} {os : List Op} {f : FunctionId} {function : Function}
  {table : Handle} {this super : Option Value} {scope : ScopeRef} {k t : PoolKey}

theorem callScope_heap (henc : function.enclosesFunctions = true) :
    let r := (s.nodeShape function.body).2.heapCallScope ⟨f, this, super⟩ (s.enclosing function)
      (s.shapeOf function) t
    s.callScope f function t this super = (.ofExcept r.1, r.2) := by
  unfold callScope
  exact if_pos henc

theorem callScope_pooled (henc : ¬ function.enclosesFunctions = true) :
    s.callScope f function t this super =
      (s.nodeShape function.body).2.pooledCallScope ⟨f, this, super⟩ (s.enclosing function)
        (s.shapeOf function) t := by
  unfold callScope
  exact if_neg henc

theorem heapCallScope_frame (binding : FunctionBinding) (previous : DurableScope)
    (shape : ShapeId) :
    (s.heapCallScope binding previous shape t).2.engine.frame =
      (s.engine.frame.takeTable t).2 := by
  unfold heapCallScope
  dsimp only
  split <;> rfl

/-- A call on the heap has no scope in the pool. -/
theorem key?_of_heap (henc : function.enclosesFunctions = true)
    (hscope : (s.callScope f function t this super).1 = .done scope) : scope.key? = none := by
  rw [callScope_heap henc] at hscope
  simp only [heapCallScope] at hscope
  split at hscope
  · cases hscope
  · cases hscope
    rfl

/-- With a live table a call gets its scope, unless there is no room in the pool
for the members of the function. -/
theorem callScope_of_live (f : FunctionId) (function : Function) (this super : Option Value)
    (hlive : (s.engine.frame.tables.entry? t).isSome) :
    (∃ scope s', s.callScope f function t this super = (.done scope, s')) ∨
      (∃ s', s.callScope f function t this super = (.panicked, s')) ∧
        ¬ function.enclosesFunctions = true := by
  obtain ⟨x, hx⟩ := Option.isSome_iff_exists.1 hlive
  have hget : s.engine.frame.getTable t = .ok x.item := by
    simp only [Frame.getTable, Pool.get?, hx, Option.map_some]
  by_cases hroom : function.enclosesFunctions = true ∨ x.item.fits (s.roomOf function) = true
  · exact .inl (callScope_done f this super hget hroom)
  · rw [not_or] at hroom
    have hnone : (s.engine.frame.allocateFunction ⟨f, this, super⟩
        (.durable (s.enclosing function)) (s.shapeOf function) (s.roomOf function) t).1 =
        .panicked := by
      simp only [Frame.allocateFunction, hget]
      rw [if_neg hroom.2]
    refine .inr ⟨⟨_, Prod.ext ?_ rfl⟩, hroom.1⟩
    rw [callScope_pooled hroom.1, pooledCallScope_eq, nodeShape_frame]
    exact congrArg (Outcome.map ScopeRef.pooled) hnone

/-- Once it has its scope, a call runs its body, and gives the scope back unless
the body panicked. -/
theorem call_of_scope (eval : Node → ScopeRef → Body)
    (hf : s.engine.store.functions[f]? = some function)
    (hscope : s.callScope f function table.key this super = (.done scope, s')) :
    let r := eval function.body scope s'
    call eval f table.key this super s =
      (r.1.map Completion.ofCall,
        if r.1.isPanicked then r.2 else r.2.modifyFrame fun f => (f.freeScope scope).2) := by
  intro r
  refine Prod.ext (call_fst eval hf hscope) ?_
  unfold callScope at hscope
  unfold call
  rw [hf]
  simp only at hscope ⊢
  split at hscope
  · next henc =>
      rw [if_pos henc]
      split
      · next err s₁ heq =>
          rw [heq] at hscope
          cases hscope
      · next scope' s₁ heq =>
          rw [heq] at hscope
          cases hscope
          -- a scope on the heap is not given back
          have hfst : (s.callScope f function table.key this super).1 = .done scope := by
            rw [callScope_heap henc]
            exact congrArg (fun r => Outcome.ofExcept (Prod.fst r)) heq
          obtain ⟨d, rfl⟩ := ScopeRef.key?_eq_none.1 (key?_of_heap henc hfst)
          show r.2 = _
          split <;> rfl
  · next henc =>
      rw [if_neg henc, hscope]
      simp only
      split
      · next s₁ heq =>
          rw [show r = (.panicked, s₁) from heq]
          rfl
      · next o s₁ hreturns heq =>
          have hnot : o.isPanicked = false := by
            cases o with
            | panicked => exact (hreturns rfl).elim
            | _ => rfl
          rw [show r = (o, s₁) from heq, hnot]
          rfl

/-- Without a scope there is no call. -/
theorem call_of_panicked (eval : Node → ScopeRef → Body)
    (hf : s.engine.store.functions[f]? = some function)
    (hscope : s.callScope f function table.key this super = (.panicked, s')) :
    call eval f table.key this super s = (.panicked, s') := by
  unfold callScope at hscope
  unfold call
  rw [hf]
  simp only at hscope ⊢
  split at hscope
  · next henc =>
      generalize Session.heapCallScope _ _ _ _ _ = x at hscope
      obtain ⟨o, s₁⟩ := x
      cases o <;> cases hscope
  · next henc => rw [if_neg henc, hscope]

/-- What a call does to the frame before its body begins. -/
def opening (s : Session) (f : FunctionId) (function : Function) (table : Handle)
    (this super : Option Value) : List Op :=
  if function.enclosesFunctions then
    [.takeTable table, .share (s.callScope f function table.key this super).2.engine.store]
  else
    [.share (s.nodeShape function.body).2.engine.store,
      .allocateFunction ⟨f, this, super⟩ (.durable (s.enclosing function)) (s.shapeOf function)
        table]

theorem works_opening (hm : m.Tracked) (hs : s.engine = m.engine) (hc : Consumable m table)
    (f : FunctionId) (function : Function) (this super : Option Value) :
    Works s (s.callScope f function table.key this super).2 m
      (s.opening f function table this super) := by
  by_cases henc : function.enclosesFunctions = true
  · have htake : Works s (s.modifyFrame fun f => (f.takeTable table.key).2) m
        [.takeTable table] := by
      refine works_op _ hm trivial (fun h hh => ?_) hs rfl
      cases hh
      exact hc
    rw [opening, if_pos henc]
    refine htake.trans (works_op (.share _) (hm.run _) trivial nofun htake.after ?_)
    show _ = ({ store := _, frame := (s.engine.frame.takeTable table.key).2 } : Engine)
    rw [callScope_heap henc, ← s.nodeShape_frame function.body, ← heapCallScope_frame]
  · have hshare : Works s (s.nodeShape function.body).2 m
        [.share (s.nodeShape function.body).2.engine.store] :=
      works_op _ hm trivial nofun hs rfl
    rw [opening, if_neg henc, callScope_pooled henc]
    exact hshare.trans (works_pooledCallScope (hm.run _) hshare.after (hc.after_share _) _ _ _)

theorem leaks_opening :
    m.leaks (s.opening f function table this super) = [] := by
  unfold opening
  split <;> rfl

theorem adds_opening_heap (henc : function.enclosesFunctions = true) :
    let m₁ := m.run (s.opening f function table this super)
    m.Adds m₁ [] [] ∧ (m₁.engine.frame.tables.entry? table.key).isSome = false := by
  intro m₁
  obtain ⟨hadds, hgone⟩ := m.adds_takeTable table
  have hrun : m₁ = (m.after (.takeTable table)).after
      (.share (s.callScope f function table.key this super).2.engine.store) := by
    show m.run (s.opening f function table this super) = _
    rw [opening, if_pos henc]
    rfl
  rw [hrun]
  exact ⟨hadds.trans (adds_share _), hgone⟩

/-- What is new is the scope of the call, on the list of the caller. -/
theorem adds_opening_pooled (hm : m.Tracked) (hs : s.engine = m.engine)
    (henc : ¬ function.enclosesFunctions = true) :
    let m₁ := m.run (s.opening f function table this super)
    let r := (s.callScope f function table.key this super).1
    ((∀ scope, r ≠ .done scope) → m.Adds m₁ [] []) ∧
      ∀ scope, r = .done scope → ∃ k, scope = .pooled k ∧ m.Adds m₁ [k] [] ∧
        m₁.engine.frame.books.scopes k = some (some m.engine.frame.depth, some table.key) := by
  intro m₁ r
  let m₀ := m.after (.share (s.nodeShape function.body).2.engine.store)
  have hmade := adds_allocateFunction (hm.after _ : m₀.Tracked) ⟨f, this, super⟩
    (.durable (s.enclosing function)) (s.shapeOf function) table
  have hrun : m₁ = m₀.after (.allocateFunction ⟨f, this, super⟩ (.durable (s.enclosing function))
      (s.shapeOf function) table) := by
    show m.run (s.opening f function table this super) = _
    rw [opening, if_neg henc]
    rfl
  have hr : r = (m₀.engine.frame.allocateFunction ⟨f, this, super⟩
      (.durable (s.enclosing function)) (s.shapeOf function)
      (m₀.engine.store.shapeSize (s.shapeOf function)) table.key).1.map .pooled := by
    show (s.callScope f function table.key this super).1 = _
    rw [callScope_pooled henc, pooledCallScope_eq, nodeShape_frame, hs]
    rfl
  rw [hrun]
  refine ⟨fun hno => (adds_share _).trans (hmade.1 fun k hk => ?_), fun scope hdone => ?_⟩
  · rw [hk] at hr
    exact hno _ hr
  · rw [hr] at hdone
    obtain ⟨k, hk, heq⟩ := Outcome.map_eq_done hdone
    obtain ⟨hadds, hbooks⟩ := hmade.2 k hk
    exact ⟨k, heq.symm, (adds_share _).trans hadds, hbooks⟩

/-! ## The activation of a call -/

/-- What evaluating a node does to the frame, given what its body does. At the
limit that is nothing. -/
def activation (s : Session) (node : Node) (scope : ScopeRef) (os : List Op) : List Op :=
  if s.engine.frame.depth < s.engine.frame.config.maxDepth then
    .enter node scope :: os ++ [.leave]
  else []

/-- How evaluating a node ends: at the limit with an error, else as its body. -/
def EndsAs (s : Session) (node : Node) (scope : ScopeRef) (body : Body)
    (o : Outcome Completion) : Prop :=
  if s.engine.frame.depth < s.engine.frame.config.maxDepth then
    SameOutcome (s.admitted body (s.entered node scope)).1 o
  else
    o = .raised (ErrorKind.stackOverflow (s.engine.frame.depth + 1)
      s.engine.frame.config.maxDepth)

theorem adds_activation {node : Node} {body : Body} (os : List Op) (hm : m.Tracked) (hw : m.Owned)
    (hs : s.engine = m.engine)
    (hbody : s.engine.frame.depth < s.engine.frame.config.maxDepth →
      Works (s.entered node scope) (s.admitted body (s.entered node scope)).2
        (m.after (.enter node scope)) os) :
    let os' := s.activation node scope os
    let r := gate node scope body s
    Works s r.2 m os' ∧ m.Adds (m.run os') [] (m.leaks os') ∧ s.EndsAs node scope body r.1 := by
  intro os' r
  by_cases hd : s.engine.frame.depth < s.engine.frame.config.maxDepth
  · have hos' : os' = .enter node scope :: os ++ [.leave] := if_pos hd
    have hworks := works_gate hs hd (hbody hd)
    have hrestored := restored_activation hm hw hworks.lawful (hbody hd).lawful (hbody hd).depth
    rw [hos', leaks_activation, EndsAs, if_pos hd]
    exact ⟨hworks, hrestored.adds, (gate_eq hd).2⟩
  · have hos' : os' = [] := if_neg hd
    have hr : r = (.raised (ErrorKind.stackOverflow (s.engine.frame.depth + 1)
        s.engine.frame.config.maxDepth), s) := by
      show gate node scope body s = _
      rw [gate, if_pos (Nat.not_lt.1 hd)]
    rw [hos', hr, EndsAs, if_neg hd]
    exact ⟨⟨trivial, hs, hs, rfl⟩, .refl m, rfl⟩

/-! ## Calls -/

/-- What a call does to the frame, given what its body does. The release comes
last, and a panic passes it by. -/
def callOps (s : Session) (f : FunctionId) (function : Function) (table : Handle)
    (this super : Option Value) (os : List Op) (panics : Bool) : List Op :=
  let r := s.callScope f function table.key this super
  s.opening f function table this super ++
    match r.1 with
    | .done scope =>
      r.2.activation function.body scope os ++ if panics then [] else [.freeScope scope]
    | _ => []

/-- The key of the scope of a call, if that is in the pool. -/
def callKey? (s : Session) (f : FunctionId) (function : Function) (table : PoolKey)
    (this super : Option Value) : Option PoolKey :=
  match (s.callScope f function table this super).1 with
  | .done scope => scope.key?
  | _ => none

/-- How a call ends: as its body, except that a return is the value of the call. -/
def CallEndsAs (s : Session) (f : FunctionId) (function : Function) (table : PoolKey)
    (this super : Option Value) (body : ScopeRef → Body) (o : Outcome Completion) : Prop :=
  match s.callScope f function table this super with
  | (.done scope, s') =>
    ∃ o', s'.EndsAs function.body scope (body scope) o' ∧ o = o'.map Completion.ofCall
  | (.raised _, _) => False
  | (.panicked, _) => o = .panicked

theorem isPanicked_map_ofCall (o : Outcome Completion) :
    (o.map Completion.ofCall).isPanicked = o.isPanicked := by
  cases o <;> rfl

/-- A call that got its scope, and was not stopped by a panic, gives it back, and
the arguments with it. -/
theorem settled_after_call (hm : m.Tracked) (hw : m.Owned) (hs : s.engine = m.engine)
    (hc : Consumable m table)
    (hscope : (s.callScope f function table.key this super).1 = .done scope)
    {base : Nat} {ts : List PoolKey}
    (hlawful : Lawful base (m.run (s.opening f function table this super)) os)
    (hadds : (m.run (s.opening f function table this super)).Adds
      ((m.run (s.opening f function table this super)).run os) [] ts) :
    let m' := m.run (s.opening f function table this super ++ (os ++ [.freeScope scope]))
    m.Adds m' [] ts ∧ ¬ m.LastsTable m' table.key := by
  intro m'
  have hopening := works_opening hm hs hc f function this super
  have hm₁ := hm.run (s.opening f function table this super)
  have hw₁ := hw.run hm hopening.lawful
  have hlasts : m.LastsTable m' table.key →
      (m.run (s.opening f function table this super)).LastsTable m' table.key :=
    fun h => h.append.2
  have hrest : (m.run (s.opening f function table this super)).Adds m' [] ts := by
    have hfree := hadds.trans (adds_freeScope scope)
    rw [List.append_nil, List.append_nil] at hfree
    show Adds _ (m.run (_ ++ (os ++ _))) _ _
    rw [run_append, run_append]
    exact hfree
  by_cases henc : function.enclosesFunctions = true
  · have hheap : m.Adds (m.run (s.opening f function table this super)) [] [] ∧ _ :=
      adds_opening_heap henc
    refine ⟨hheap.1.trans hrest, fun h => ?_⟩
    rw [(hlasts h).1] at hheap
    exact Bool.noConfusion hheap.2
  · obtain ⟨k, rfl, hopen, hbooks⟩ := (adds_opening_pooled hm hs henc).2 scope hscope
    obtain ⟨hk, ht⟩ := gone_with_scope hm₁ hw₁ hlawful hbooks
    rw [← run_append] at hk ht
    exact ⟨(hopen.trans hrest).drop_scope hk, fun h => ht (hlasts h)⟩

/-- A call that was stopped by a panic left its scope, if that was in the pool
and the body did not give it back, with the caller, who has yet to give it back. -/
theorem awaiting_after_panic (hm : m.Tracked) (hw : m.Owned) (hs : s.engine = m.engine)
    (hc : Consumable m table)
    (hscope : (s.callScope f function table.key this super).1 = .done scope)
    {s₁ : Session} (hworks : Works s₁ s' (m.run (s.opening f function table this super)) os)
    {ts : List PoolKey}
    (hadds : (m.run (s.opening f function table this super)).Adds
      ((m.run (s.opening f function table this super)).run os) [] ts) :
    let m' := m.run (s.opening f function table this super ++ os)
    m.Adds m' (s.callKey? f function table.key this super).toList ts ∧
      ∀ k ∈ s.callKey? f function table.key this super,
        (m'.engine.frame.scopes.entry? k).isSome →
        m'.Awaits k table.key m.engine.frame.depth := by
  intro m'
  have hopening := works_opening hm hs hc f function this super
  have hm₁ := hm.run (s.opening f function table this super)
  have hw₁ := hw.run hm hopening.lawful
  have hkey : s.callKey? f function table.key this super = scope.key? := by
    rw [callKey?, hscope]
  rw [hkey]
  have hrest : (m.run (s.opening f function table this super)).Adds m' [] ts := by
    show Adds _ (m.run (_ ++ os)) _ _
    rw [run_append]
    exact hadds
  by_cases henc : function.enclosesFunctions = true
  · have hopen : m.Adds (m.run (s.opening f function table this super)) [] [] :=
      (adds_opening_heap henc).1
    have hall := hopen.trans hrest
    rw [key?_of_heap henc hscope]
    exact ⟨hall, nofun⟩
  · obtain ⟨k, rfl, hopen, hbooks⟩ := (adds_opening_pooled hm hs henc).2 scope hscope
    refine ⟨hopen.trans hrest, fun k' hk' hlive => ?_⟩
    cases hk'
    have hrun : m' = (m.run (s.opening f function table this super)).run os := run_append ..
    have hkept := books_scopes_run hm₁ (hrun ▸ hrest.scopes k hlive List.not_mem_nil) hbooks
    have hdepth := hworks.depth
    rw [hopening.depth] at hdepth
    rw [← hrun] at hkept hdepth
    have hm' : m'.Tracked := hm.run _
    have hw' : m'.Owned := by
      rw [hrun]
      exact hw₁.run hm₁ hworks.lawful
    exact awaits_of_books hm' hw' hdepth hkept

theorem callOps_of_scope
    (hscope : s.callScope f function table.key this super = (.done scope, s')) (panics : Bool) :
    s.callOps f function table this super os panics = s.opening f function table this super ++
      (s'.activation function.body scope os ++ if panics then [] else [.freeScope scope]) := by
  rw [callOps, hscope]

theorem callOps_of_panicked
    (hscope : s.callScope f function table.key this super = (.panicked, s')) (panics : Bool) :
    s.callOps f function table this super os panics = s.opening f function table this super := by
  simp only [callOps, hscope, List.append_nil]

/-- What a call leaks is what its activation leaks. -/
theorem leaks_callOps (m : Machine)
    (hscope : s.callScope f function table.key this super = (.done scope, s')) (panics : Bool) :
    m.leaks (s.callOps f function table this super os panics) =
      (m.run (s.opening f function table this super)).leaks
        (s'.activation function.body scope os) := by
  rw [callOps_of_scope hscope, leaks_append, leaks_append, leaks_opening, List.append_nil]
  cases panics <;> rfl

/-- A call that has its scope is its opening, its activation, and the release of
the scope unless there was a panic. -/
theorem works_callOps {eval : Node → ScopeRef → Body} (hm : m.Tracked)
    (hf : s.engine.store.functions[f]? = some function)
    (hscope : s.callScope f function table.key this super = (.done scope, s'))
    (hopening : Works s s' m (s.opening f function table this super))
    (hact : Works s' (eval function.body scope s').2
      (m.run (s.opening f function table this super)) (s'.activation function.body scope os)) :
    let r := call eval f table.key this super s
    Works s r.2 m (s.callOps f function table this super os r.1.isPanicked) := by
  intro r
  have hcall := call_of_scope eval hf hscope
  have hpanics : r.1.isPanicked = (eval function.body scope s').1.isPanicked := by
    show (call eval f table.key this super s).1.isPanicked = _
    rw [hcall, isPanicked_map_ofCall]
  have hleft : r.2 = if (eval function.body scope s').1.isPanicked then
      (eval function.body scope s').2
    else (eval function.body scope s').2.modifyFrame fun f => (f.freeScope scope).2 :=
    congrArg Prod.snd hcall
  rw [callOps_of_scope hscope, hpanics, hleft]
  cases (eval function.body scope s').1.isPanicked with
  | true =>
      simp only [if_true, List.append_nil]
      exact hopening.trans hact
  | false =>
      exact hopening.trans (hact.trans
        (works_op (.freeScope scope) ((hm.run _).run _) trivial nofun hact.after rfl))

/-- A call leaves nothing behind in the pools. Whether its body completes, fails
or cannot be evaluated at that depth, whichever storage its scope has, and even
if the body gave that scope back and its entry was used again: what lives after
the call was there before, the table of arguments is gone, and only a return is
made the value of the call.

After a panic the scope may be left, and the arguments with it. Then they are on
the list of the caller's depth, and go with it. The one thing that no depth gives
back is a table that the body asked for and that had no room. -/
theorem calls_give_back_their_scope
    (hos : Lawful 0 (Machine.start store config global flag) os₀)
    (hs : s.engine = ((Machine.start store config global flag).run os₀).engine)
    (hf : s.engine.store.functions[f]? = some function)
    (hc : Consumable ((Machine.start store config global flag).run os₀) table)
    (hlive : (s.engine.frame.tables.entry? table.key).isSome)
    (hbody : ∀ scope s', s.callScope f function table.key this super = (.done scope, s') →
      s'.engine.frame.depth < s'.engine.frame.config.maxDepth →
      Works (s'.entered function.body scope)
        (s'.admitted (body scope) (s'.entered function.body scope)).2
        ((((Machine.start store config global flag).run os₀).run
          (s.opening f function table this super)).after (.enter function.body scope)) os) :
    let m := (Machine.start store config global flag).run os₀
    let r := call (fun node scope => gate node scope (body scope)) f table.key this super s
    let os' := s.callOps f function table this super os r.1.isPanicked
    let m' := m.run os'
    let k? := s.callKey? f function table.key this super
    Works s r.2 m os' ∧
      (r.1.isPanicked = false →
        m.Adds m' [] (m.leaks os') ∧ ¬ m.LastsTable m' table.key) ∧
      (r.1.isPanicked = true → m.Adds m' k?.toList (m.leaks os') ∧
        ∀ k ∈ k?, (m'.engine.frame.scopes.entry? k).isSome →
          m'.Awaits k table.key s.engine.frame.depth) ∧
      (function.enclosesFunctions = true → k? = none) ∧
      ((∀ t, (m'.engine.frame.tables.entry? t).isSome → m.LastsTable m' t) ↔
        m.leaks os' = []) ∧
      s.CallEndsAs f function table.key this super body r.1 := by
  intro m r os' m' k?
  have hm : m.Tracked := (tracked_start ..).run os₀
  have hw : m.Owned := (owned_start store config global flag).run (tracked_start ..) hos
  have hopening := works_opening hm hs hc f function this super
  have hm₁ := hm.run (s.opening f function table this super)
  have hw₁ := hw.run hm hopening.lawful
  have hnokey : function.enclosesFunctions = true → k? = none := by
    intro henc
    show s.callKey? f function table.key this super = none
    unfold callKey?
    split
    · next scope hscope => exact key?_of_heap henc hscope
    · rfl
  rcases callScope_of_live f function this super hlive with
    ⟨scope, s₁, hscope⟩ | ⟨⟨s₁, hscope⟩, henc⟩
  · have hfst := congrArg Prod.fst hscope
    rw [hscope] at hopening
    obtain ⟨hact, hadds, hends⟩ := adds_activation os hm₁ hw₁ hopening.after
      (hbody scope s₁ hscope)
    have hends : s.CallEndsAs f function table.key this super body r.1 := by
      rw [CallEndsAs, hscope]
      exact ⟨_, hends, congrArg Prod.fst (call_of_scope _ hf hscope)⟩
    have hworks : Works s r.2 m os' := works_callOps hm hf hscope hopening hact
    have hleaks : m.leaks os' = (m.run (s.opening f function table this super)).leaks
        (s₁.activation function.body scope os) := leaks_callOps m hscope _
    have hos' : os' = s.opening f function table this super ++
        (s₁.activation function.body scope os ++
          if r.1.isPanicked then [] else [.freeScope scope]) := callOps_of_scope hscope _
    cases hp : r.1.isPanicked with
    | false =>
        have hsettled := settled_after_call hm hw hs hc hfst hact.lawful hadds
        rw [hp] at hos'
        simp only [Bool.false_eq_true, if_false] at hos'
        rw [← hos', ← hleaks] at hsettled
        exact ⟨hworks, fun _ => hsettled, nofun, hnokey,
          lasts_iff_leaks_eq_nil hm hw hworks.lawful hsettled.1, hends⟩
    | true =>
        have hwait := awaiting_after_panic hm hw hs hc hfst hact hadds
        rw [hp] at hos'
        simp only [if_true, List.append_nil] at hos'
        rw [← hos', ← hleaks, ← hs] at hwait
        exact ⟨hworks, nofun, fun _ => hwait, hnokey,
          lasts_iff_leaks_eq_nil hm hw hworks.lawful hwait.1, hends⟩
  · -- the table has no room for the members and stays where it is
    have hr : r = (.panicked, s₁) := call_of_panicked _ hf hscope
    have hos' : os' = s.opening f function table this super := callOps_of_panicked hscope _
    have hkey : k? = none := by
      show s.callKey? f function table.key this super = none
      simp only [callKey?, hscope]
    have hadds : m.Adds m' [] (m.leaks os') := by
      show m.Adds (m.run os') [] (m.leaks os')
      rw [hos', leaks_opening]
      exact (adds_opening_pooled hm hs henc).1 fun scope hdone => by
        rw [hscope] at hdone
        cases hdone
    have hworks : Works s r.2 m os' := by
      rw [hos', hr]
      rw [hscope] at hopening
      exact hopening
    rw [hr, hkey]
    refine ⟨hr ▸ hworks, nofun, fun _ => ⟨hadds, nofun⟩, fun _ => rfl,
      lasts_iff_leaks_eq_nil hm hw hworks.lawful hadds, ?_⟩
    rw [CallEndsAs, hscope]

/-- A function without parameters, and a host that has a table to call it with. -/
def plainFunction : Function := { name := none, body := { id := 0 } }

def plainStore : Store :=
  { globals := #[{}], functions := #[plainFunction], nodeShapes := #[.empty] }

def plainCaller : Machine := (Machine.start plainStore {} 0 0).run [.allocateTable 2]

/-- A body that gives the scope of its call back, makes a block in its place, and
returns. -/
def scopeSwap (scope : ScopeRef) : Body := fun s =>
  (.done (.returned (.int 7)), s.modifyFrame fun f =>
    ((f.freeScope scope).2.allocateBlock f.globalScope 0 (s.engine.store.shapeSize 0)).2)

theorem call_whose_entry_was_reused :
    let s : Session := { engine := plainCaller.engine }
    let r := call (fun node scope => gate node scope (scopeSwap scope)) 0 ⟨0, 0⟩ none none s
    let os' := s.callOps 0 plainFunction ⟨⟨0, 0⟩, 0⟩ none none
      [.freeScope (.pooled ⟨0, 0⟩), .allocateBlock (.ofGlobal 0) 0] r.1.isPanicked
    let m' := plainCaller.run os'
    r.1 = .done (.normal (.int 7)) ∧ r.2.engine = m'.engine ∧
      plainCaller.Adds m' [] (plainCaller.leaks os') ∧ plainCaller.leaks os' = [] ∧
      ¬ plainCaller.LastsTable m' ⟨0, 0⟩ := by
  intro s r os' m'
  have hkey : s.callKey? 0 plainFunction ⟨0, 0⟩ none none = some ⟨0, 0⟩ := by decide +kernel
  have hpanics : r.1.isPanicked = false := by decide +kernel
  have hos : Lawful 0 (Machine.start plainStore {} 0 0) [.allocateTable 2] :=
    ⟨by decide +kernel, trivial⟩
  have hbody : ∀ scope s', s.callScope 0 plainFunction ⟨0, 0⟩ none none = (.done scope, s') →
      s'.engine.frame.depth < s'.engine.frame.config.maxDepth →
      Works (s'.entered plainFunction.body scope)
        (s'.admitted (scopeSwap scope) (s'.entered plainFunction.body scope)).2
        ((plainCaller.run (s.opening 0 plainFunction ⟨⟨0, 0⟩, 0⟩ none none)).after
          (.enter plainFunction.body scope))
        [.freeScope (.pooled ⟨0, 0⟩), .allocateBlock (.ofGlobal 0) 0] := by
    intro scope s' h _
    simp only [callKey?, h] at hkey
    cases ScopeRef.key?_eq_some.1 hkey
    cases congrArg Prod.snd h
    exact ⟨by decide +kernel, rfl, rfl, by decide +kernel⟩
  have hc : Consumable plainCaller ⟨⟨0, 0⟩, 0⟩ := ⟨by decide +kernel, by decide +kernel⟩
  obtain ⟨hworks, hsettled, -⟩ :=
    calls_give_back_their_scope (s := s) hos rfl rfl hc (by decide +kernel) hbody
  obtain ⟨hadds, hgone⟩ := hsettled hpanics
  exact ⟨rfl, hworks.after, hadds, by decide +kernel, hgone⟩

/-- A body that asks for a table of 2^60 slots panics, and then not only the scope
of the call is new: nobody has the key of that table. -/
theorem panic_leaves_table_beside_scope :
    let s : Session := { engine := plainCaller.engine }
    let body : Body := fun s =>
      (.panicked, s.modifyFrame fun f => (f.allocateTable 1152921504606846976).2)
    let r := call (fun node scope => gate node scope body) 0 ⟨0, 0⟩ none none s
    r.1 = .panicked ∧ (s.engine.frame.scopes.entry? ⟨0, 0⟩).isNone ∧
      (s.engine.frame.tables.entry? ⟨1, 0⟩).isNone ∧
      (r.2.engine.frame.scopes.entry? ⟨0, 0⟩).isSome ∧
      (r.2.engine.frame.tables.entry? ⟨1, 0⟩).isSome := by
  intro s body r
  refine ⟨rfl, ?_⟩
  decide +kernel

end Session

end ScriptCore

import ScriptCore.Proofs.Likeness

/-!
# Sessions follow worlds

A session that mirrors a world gives, whatever a body asks for, the answer that
the world gives, and mirrors it still: `Follows`. Every request follows, so a
body does, which is a tree of requests, and so do the bodies it starts.

There is one place where a session may fall behind. The scope of a call in the
frame is given room for all members that its shape has, at once, and on the
heap it is not. If the least capacity of the frame is more than can be
addressed there is room for none, and such a call panics.
-/

namespace ScriptCore

/-- The frame cannot give room to a single slot. -/
def Setting.Cramped (S : Setting) : Prop :=
  MemberTable.maxCapacity < S.config.leastCapacity

/-- The two ended alike, and what they leave mirror each other, with a seating
that may have grown and `n` activations. In a cramped frame the session may have
panicked instead. -/
def Agree (S : Setting) {α β : Type} (ρ : Seating) (Q : Seating → α → β → Prop) (n : Nat)
    (x : Outcome α × World) (y : Outcome β × Session) : Prop :=
  (∃ ρ', ρ.Within ρ' ∧ Mirrors S ρ' x.2 y.2.engine ∧ x.2.stack.length = n ∧
      x.1.Alike (Q ρ') y.1) ∨
    (S.Cramped ∧ y.1 = .panicked)

/-- From a session that mirrors a world, the two end alike. -/
def Follows (S : Setting) {α β : Type} (ρ : Seating) (Q : Seating → α → β → Prop)
    (x : Proc World α) (y : Proc Session β) : Prop :=
  ∀ w s, Mirrors S ρ w s.engine → Agree S ρ Q w.stack.length (x w) (y s)

variable {S : Setting} {ρ ρ' : Seating} {α β α' β' : Type} {Q : Seating → α → β → Prop}
  {Q' : Seating → α' → β' → Prop} {n : Nat} {x : Outcome α × World} {y : Outcome β × Session}

namespace Agree

theorem map {f : α → α'} {g : β → β'} (h : Agree S ρ Q n x y)
    (hmap : ∀ ρ', ρ.Within ρ' → ∀ a b, Q ρ' a b → Q' ρ' (f a) (g b)) :
    Agree S ρ Q' n (x.1.map f, x.2) (y.1.map g, y.2) := by
  rcases h with ⟨ρ', hle, hm, hn, halike⟩ | ⟨hcramped, hpanic⟩
  · exact .inl ⟨ρ', hle, hm, hn, halike.map (hmap ρ' hle)⟩
  · refine .inr ⟨hcramped, ?_⟩
    show y.1.map g = .panicked
    rw [hpanic]
    rfl

/-- What began with one seat more, when the scope of the seat is given back. -/
theorem freeing {k t : PoolKey} {outer : ScopeRef} {home m : Nat}
    {x : Outcome Completion × World} {y : Outcome Completion × Session}
    (hmade : ρ (.made m) = none) :
    Agree S (ρ.sit m (.pooled k t outer home)) (fun _ => Eq) n x y →
    Agree S ρ (fun _ => Eq) n (x.1.map Completion.ofCall, x.2)
      (match y with
      | (.panicked, s) => (.panicked, s)
      | (r, s) =>
        (r.map Completion.ofCall, s.modifyFrame fun f => (f.freeScope (.pooled k)).2)) := by
  have hwithin := Seating.within_sit hmade (.pooled k t outer home)
  intro h
  obtain ⟨a, w⟩ := x
  obtain ⟨b, s⟩ := y
  rcases h with ⟨ρ', hle, hm, hn, halike⟩ | ⟨hcramped, hpanic⟩
  · have hm := hm.restrict hle
    have hfree := hm.freeScope hmade
    cases halike with
    | done hq => exact .inl ⟨ρ, .refl ρ, hfree, hn, .done (congrArg _ hq)⟩
    | raised herr => exact .inl ⟨ρ, .refl ρ, hfree, hn, .raised herr⟩
    | panicked => exact .inl ⟨ρ, .refl ρ, hm.restrict hwithin, hn, .panicked⟩
  · obtain rfl : b = .panicked := hpanic
    exact .inr ⟨hcramped, rfl⟩

/-- What began with fewer seats. -/
theorem of_within (h : Agree S ρ' Q n x y) (hle : ρ.Within ρ') : Agree S ρ Q n x y := by
  rcases h with ⟨ρ'', hle', hm⟩ | hcramped
  · exact .inl ⟨ρ'', hle.trans hle', hm⟩
  · exact .inr hcramped

end Agree

namespace Follows

theorem panic : Follows S ρ Q .panic .panic := fun _ _ h =>
  .inl ⟨ρ, .refl ρ, h, rfl, .panicked⟩

theorem map {x : Proc World α} {y : Proc Session β} {f : α → α'} {g : β → β'}
    (h : Follows S ρ Q x y)
    (hmap : ∀ ρ', ρ.Within ρ' → ∀ a b, Q ρ' a b → Q' ρ' (f a) (g b)) :
    Follows S ρ Q' (x.map f) (y.map g) := fun w s hm => (h w s hm).map hmap

/-- What one side refers to, the other refers to as well. -/
theorem given {l : List α} {l' : List β} {R : α → β → Prop} (hl : List.Forall₂ R l l') (i : Nat)
    {x : α → Proc World α'} {y : β → Proc Session β'}
    (h : ∀ a b, R a b → Follows S ρ Q' (x a) (y b)) :
    Follows S ρ Q' (.given l[i]? x) (.given l'[i]? y) := by
  induction hl generalizing i with
  | nil => exact panic
  | cons hab _ ih =>
      cases i with
      | zero => exact h _ _ hab
      | succ i => exact ih i

/-- Questions that change nothing. -/
theorem read {f : World → Outcome α} {g : Engine → Outcome β}
    (h : ∀ w e, Mirrors S ρ w e → (f w).Alike (Q ρ) (g e)) :
    Follows S ρ Q (fun w => (f w, w)) (Session.onEngine fun e => (g e, e)) := fun w s hm =>
  .inl ⟨ρ, .refl ρ, hm, rfl, h w s.engine hm⟩

/-- What is done to the engine without a cell more. -/
theorem engine {f : Proc World α} {g : Engine → Outcome β × Engine}
    (h : ∀ w e, Mirrors S ρ w e → (f w).1.Alike (Q ρ) (g e).1 ∧ Mirrors S ρ (f w).2 (g e).2 ∧
      (f w).2.stack.length = w.stack.length) :
    Follows S ρ Q f (Session.onEngine g) := by
  intro w s hm
  obtain ⟨halike, hm', hstack⟩ := h w s.engine hm
  exact .inl ⟨ρ, .refl ρ, hm', hstack, halike⟩

end Follows

/-! ## Blocks and activations -/

theorem Mirrors.block {w : World} {s : Session} {p : Site} {r : ScopeRef}
    (h : Mirrors S ρ w s.engine) (hp : Stands S ρ p r) (shape : ShapeId) :
    Agree S ρ (Stands S) w.stack.length (World.block S p shape w)
      (Session.onEngine (fun e => e.block r shape) s) := by
  cases hroom : S.room (w.store.shapeSize shape) with
  | false =>
      obtain ⟨hpanic, hm⟩ := h.block_panicked r hroom
      refine .inl ⟨ρ, .refl ρ, ?_, ?_, ?_⟩
      · simp only [World.block, hroom]
        exact hm
      · simp only [World.block, hroom]
        rfl
      · simp only [World.block, hroom]
        show Outcome.Alike _ _ (s.engine.block r shape).1
        rw [hpanic]
        exact .panicked
  | true =>
      obtain ⟨k, t, hdone, hm⟩ := h.block_done p r hroom
      have hwithin := Seating.within_sit (h.unmade w.made (Nat.le_refl _))
        (.pooled k t r s.engine.frame.depth)
      refine .inl ⟨_, hwithin, ?_, ?_, ?_⟩
      · simp only [World.block, hroom]
        exact hm
      · simp only [World.block, hroom]
        rfl
      · simp only [World.block, hroom]
        show Outcome.Alike _ _ (s.engine.block r shape).1
        rw [hdone]
        exact .done (.pooled (Seating.sit_self ..) (hp.mono hwithin))

/-- An error that leaves an activation gets the same places on both sides. -/
theorem EvalError.Alike.attach {err err' : EvalError} (h : err.Alike err') {w : World} {e : Engine}
    (hm : Mirrors S ρ w e) :
    (w.attach err).Alike (if err'.needsTrace then err'.withTrace e.trace else err') := by
  obtain ⟨kind, trace⟩ := err
  obtain ⟨kind', trace'⟩ := err'
  obtain ⟨hkind, hplaces⟩ := h
  obtain rfl : kind = kind' := hkind
  have htrace : e.trace.places = w.stack.trace.places := by rw [e.places_trace, hm.stack]
  cases trace with
  | some t =>
      cases trace' with
      | none => cases hplaces
      | some t' =>
          have hnone : ∀ t, EvalError.needsTrace ⟨kind, some t⟩ = false := fun t => Bool.and_false _
          rw [World.attach, hnone, hnone]
          exact ⟨rfl, hplaces⟩
  | none =>
      cases trace' with
      | some t' => cases hplaces
      | none =>
          rw [World.attach]
          split
          · exact ⟨rfl, congrArg some htrace.symm⟩
          · exact ⟨rfl, rfl⟩

/-- Evaluating a node follows if its body does. -/
theorem Follows.gate {x : Proc World Completion} {y : Body}
    (h : Follows S ρ (fun _ => Eq) x y) (node : Node) (r : ScopeRef) :
    Follows S ρ (fun _ => Eq) (World.gate S node x) (Session.gate node r y) := by
  intro w s hm
  simp only [World.gate, Session.gate, hm.depth, hm.config]
  by_cases hlimit : S.config.maxDepth ≤ w.stack.length
  · rw [if_pos hlimit, if_pos hlimit]
    exact .inl ⟨ρ, .refl ρ, hm, rfl, .raised (.refl _)⟩
  · rw [if_neg hlimit, if_neg hlimit]
    have hbody : Follows S ρ (fun _ => Eq)
        (if S.config.isServable then x else .panic)
        (if S.config.isServable then y else fun s => (.panicked, s)) := by
      split
      · exact h
      · exact .panic
    have hagree := hbody (w.enter node) (s.modifyFrame fun f => f.enter node r) (hm.enter node r)
    rw [StackBudget.run_eq]
    generalize (if S.config.isServable then x else .panic) (w.enter node) = left at hagree ⊢
    generalize (if S.config.isServable then y else fun s => (.panicked, s))
      (s.modifyFrame fun f => f.enter node r) = right at hagree ⊢
    obtain ⟨a, w'⟩ := left
    obtain ⟨b, s'⟩ := right
    rcases hagree with ⟨ρ', hle, hm', hlength, halike⟩ | ⟨hcramped, hpanic⟩
    · have hm' : Mirrors S ρ' w' s'.engine := hm'
      have hdepth : s'.engine.frame.depth = w.stack.length + 1 := hm'.depth.trans hlength
      have hleave := (hm'.restrict hle).leave (by omega) fun c k t outer home hc => by
        have := hm.home_le hc
        have := hm.depth
        omega
      have htail : w'.leave.stack.length = w.stack.length := by
        show w'.stack.tail.length = _
        rw [List.length_tail, hlength]
        rfl
      cases halike with
      | done hq => exact .inl ⟨ρ, .refl ρ, hleave, htail, .done hq⟩
      | raised herr => exact .inl ⟨ρ, .refl ρ, hleave, htail, .raised (herr.attach hm')⟩
      | panicked => exact .inl ⟨ρ, .refl ρ, hleave, htail, .panicked⟩
    · obtain rfl : b = .panicked := hpanic
      exact .inr ⟨hcramped, rfl⟩

/-! ## Calls -/

/-- The scope that encloses the calls of a function lies outside the frame. -/
theorem Mirrors.below_enclosing {w : World} {e : Engine} (h : Mirrors S ρ w e) {f : FunctionId}
    {function : Function} (hf : w.store.functions[f]? = some function) :
    (function.closure.getD (.ofGlobal S.global)).Below S.heaps := by
  cases hclosure : function.closure with
  | none => exact nofun
  | some d => exact h.heaps ▸ h.closed.closures f function d hf hclosure

/-- A shape that is asked for is there from then on. -/
theorem Mirrors.nodeShape {w : World} {e : Engine} (h : Mirrors S ρ w e) (id : NodeId)
    (v : Visibility) :
    (e.store.nodeShape id v).1 = (w.store.nodeShape id v).1 ∧
      Mirrors S ρ { w with store := (w.store.nodeShape id v).2 }
        { e with store := (e.store.nodeShape id v).2 } := by
  obtain ⟨extra, fs, hst, -⟩ := h.store
  have hsteady : w.store.Steady (w.store.nodeShape id v).2 := ⟨rfl, rfl, rfl, rfl⟩
  have hm := h.steady hst hsteady (w.store.develops_nodeShape id v)
  rw [hst, Store.nodeShape_beside]
  exact ⟨rfl, hm⟩

/-- How bodies are evaluated: alike, wherever their scopes are. -/
def Evaluates (S : Setting) (ρ : Seating) (x : Node → Site → Proc World Completion)
    (y : Node → ScopeRef → Body) : Prop :=
  ∀ ρ', ρ.Within ρ' → ∀ node p r, Stands S ρ' p r →
    Follows S ρ' (fun _ => Eq) (x node p) (y node r)

namespace Evaluates

variable {x : Node → Site → Proc World Completion} {y : Node → ScopeRef → Body} {w : World}
  {s : Session} {t : PoolKey} {row : MemberTable} {d : DurableScope}

/-- The body of a call whose scope is on the heap. -/
theorem heapCall (h : Evaluates S ρ x y) (hm : Mirrors S ρ w s.engine)
    (hlent : s.engine.frame.Lent t) (htable : s.engine.frame.tables.get? t = some row)
    (binding : FunctionBinding) (hd : d.Below S.heaps) (shape : ShapeId) (node : Node) :
    ∃ scope s', s.heapCallScope binding d shape t = (.ok scope, s') ∧
      Agree S ρ (fun _ => Eq) w.stack.length
        (x node ⟨[.made w.made], d⟩
          (w.add { base := d } { kind := .function binding, shape, slots := row.slots }).2)
        (y node scope s') := by
  obtain ⟨g, htake, hm'⟩ := hm.takeTable { base := d } binding d shape hlent htable
  have hwithin := Seating.within_sit (hm.unmade w.made (Nat.le_refl _))
    (.heap s.engine.store.heaps.size d)
  have hscope : Stands S (ρ.sit w.made (.heap s.engine.store.heaps.size d))
      ⟨[.made w.made], d⟩ (.durable (.ofHeap s.engine.store.heaps.size)) :=
    .heap (Seating.sit_self ..) hd
  let s' : Session := { s with
    engine := ⟨(s.engine.store.addHeap ⟨.function binding, d, shape, row.clone, []⟩).2, g⟩ }
  refine ⟨_, s', ?_, (h _ hwithin node _ _ hscope _ s' hm').of_within hwithin⟩
  simp only [Session.heapCallScope, htake]
  rfl

/-- The body of a call whose scope is in the frame, and what is done to the
scope afterwards. -/
theorem pooledCall (h : Evaluates S ρ x y) (hm : Mirrors S ρ w s.engine)
    (hlent : s.engine.frame.Lent t) (htable : s.engine.frame.tables.get? t = some row)
    (binding : FunctionBinding) (hd : d.Below S.heaps) (shape : ShapeId) (node : Node) :
    Agree S ρ (fun _ => Eq) w.stack.length
      (((x node ⟨[.made w.made], d⟩).map Completion.ofCall)
        (w.add { base := d } { kind := .function binding, shape, slots := row.slots }).2)
      (match s.pooledCallScope binding d shape t with
      | (.raised e, s) => (.raised e, s)
      | (.panicked, s) => (.panicked, s)
      | (.done scope, s) =>
        match y node scope s with
        | (.panicked, s) => (.panicked, s)
        | (r, s) => (r.map Completion.ofCall, s.modifyFrame fun f => (f.freeScope scope).2)) := by
  have hgraded := Pool.All.get hm.orderly.graded htable
  rw [hm.config] at hgraded
  have hsize : s.engine.store.shapeSize shape ≤ MemberTable.ample := by
    obtain ⟨extra, fs, hst, -⟩ := hm.store
    rw [hst]
    exact hm.ordered.shapeSize_le shape
  rw [Session.pooledCallScope_eq]
  cases hfits : row.fits (s.engine.store.shapeSize shape) with
  | false =>
      have hcramped : S.Cramped := by
        have hno := (hgraded.roomed.fits_iff hsize).not.1 (by rw [hfits]; exact Bool.false_ne_true)
        simp only [Setting.Cramped]
        omega
      refine .inr ⟨hcramped, ?_⟩
      simp only [Frame.allocateFunction, Frame.getTable_of_get? htable, hfits]
      rfl
  | true =>
      obtain ⟨k, g, hdone, hm'⟩ := hm.allocateFunction { base := d } binding d shape hlent htable
        rfl hfits
      have hunmade := hm.unmade w.made (Nat.le_refl _)
      have hwithin := Seating.within_sit hunmade
        (.pooled k t (.durable d) s.engine.frame.depth)
      have hscope : Stands S (ρ.sit w.made (.pooled k t (.durable d) s.engine.frame.depth))
          ⟨[.made w.made], d⟩ (.pooled k) := .pooled (Seating.sit_self ..) (.base hd)
      let s' : Session := { s with engine := { s.engine with frame := g } }
      have hagree := h _ hwithin node _ _ hscope _ s' hm'
      rw [hdone]
      exact Agree.freeing hunmade hagree

/-- A call follows however its scope is stored. -/
theorem call (h : Evaluates S ρ x y) (hm : Mirrors S ρ w s.engine)
    (hlent : s.engine.frame.Lent t) (htable : s.engine.frame.tables.get? t = some row)
    (f : FunctionId) (this super : Option Value) :
    Agree S ρ (fun _ => Eq) w.stack.length (w.call S x f row.slots this super)
      (Session.call y f t this super s) := by
  obtain ⟨extra, fs, hst, hplain⟩ := hm.store
  have hfs : s.engine.store.functions = fs := by
    rw [hst]
    rfl
  unfold World.call Session.call
  rw [hfs]
  cases hf : w.store.functions[f]? with
  | none =>
      rw [Functions.getElem?_eq_none_of_plain hplain.symm hf]
      exact .inl ⟨ρ, .refl ρ, hm, rfl, .panicked⟩
  | some function =>
      obtain ⟨b, hf'⟩ := Functions.getElem?_of_plain hplain.symm hf
      have hd := hm.below_enclosing hf
      obtain ⟨hshape, hm'⟩ := hm.nodeShape function.body.id .all
      let s' : Session := { s with
        engine := { s.engine with store := (s.engine.store.nodeShape function.body.id .all).2 } }
      have hnode : s.nodeShape function.body =
          ((w.store.nodeShape function.body.id .all).1, s') := by
        rw [← hshape]
        rfl
      have hglobal : s'.engine.frame.global = S.global := hm.global
      have hm' : Mirrors S ρ { w with store := (w.store.nodeShape function.body.id .all).2 }
        s'.engine := hm'
      rw [hf']
      simp only [hnode, hglobal]
      cases b with
      | true =>
          obtain ⟨scope, s'', hscope, hagree⟩ := h.heapCall hm' hlent htable ⟨f, this, super⟩ hd
            (w.store.nodeShape function.body.id .all).1 function.body
          simp only [if_true, hscope]
          exact hagree.map fun _ _ _ _ hq => congrArg _ hq
      | false =>
          exact h.pooledCall hm' hlent htable ⟨f, this, super⟩ hd
            (w.store.nodeShape function.body.id .all).1 function.body

theorem callWith (h : Evaluates S ρ x y) (f : FunctionId) (arguments : List Value)
    (this super : Option Value) :
    Follows S ρ (fun _ => Eq) (World.callWith S x f arguments this super)
      (Session.callWith y f arguments this super) := by
  intro w s hm
  cases hroom : S.room arguments.length with
  | false =>
      obtain ⟨g, htable, hm'⟩ := hm.allocateTable_panicked hroom
      simp only [World.callWith, hroom, Session.callWith, htable]
      exact .inl ⟨ρ, .refl ρ, hm', rfl, .panicked⟩
  | true =>
      obtain ⟨t, g, row, htable, hm', hlent, hrow, hslots⟩ := hm.allocateTable_done hroom
      simp only [World.callWith, hroom, if_true, Session.callWith, htable, ← hslots]
      let s' : Session := { s with
        engine := { s.engine with frame := g.modifyTable t (·.pushAll arguments) } }
      exact h.call (s := s') hm' hlent hrow f this super

end Evaluates

/-! ## Bodies -/

namespace References

variable {refs : References Site Spot} {refs' : References ScopeRef SlotRef}

/-- Two bodies refer to the same: in the same order, what stands for each other. -/
structure Alike (S : Setting) (ρ : Seating) (refs : References Site Spot)
    (refs' : References ScopeRef SlotRef) : Prop where
  scopes : List.Forall₂ (Stands S ρ) refs.scopes refs'.scopes
  slots : List.Forall₂ (Marks S ρ) refs.slots refs'.slots
  errors : List.Forall₂ EvalError.Alike refs.errors refs'.errors
  durables : refs.durables = refs'.durables
  below : ∀ d ∈ refs.durables, d.Below S.heaps

namespace Alike

theorem mono (h : Alike S ρ refs refs') (hle : ρ.Within ρ') : Alike S ρ' refs refs' :=
  { h with
    scopes := h.scopes.imp fun _ _ hp => hp.mono hle
    slots := h.slots.imp fun _ _ hspot => hspot.mono hle }

theorem addScope (h : Alike S ρ refs refs') {p : Site} {r : ScopeRef} (hp : Stands S ρ p r) :
    Alike S ρ (refs.addScope p) (refs'.addScope r) :=
  { h with scopes := .cons hp h.scopes }

theorem addSlot (h : Alike S ρ refs refs') {spot : Spot} {slot : SlotRef}
    (hspot : Marks S ρ spot slot) : Alike S ρ (refs.addSlot spot) (refs'.addSlot slot) :=
  { h with slots := .cons hspot h.slots }

theorem addError (h : Alike S ρ refs refs') {err err' : EvalError} (herr : err.Alike err') :
    Alike S ρ (refs.addError err) (refs'.addError err') :=
  { h with errors := .cons herr h.errors }

theorem source? (h : Alike S ρ refs refs') (source : Source) :
    refs.source? source = refs'.source? source ∧
      ∀ m, refs.source? source = some m → ∀ d, m = .scope d → d.Below S.heaps := by
  cases source with
  | fixed members =>
      refine ⟨rfl, ?_⟩
      rintro m hm d rfl
      cases hm
  | durable i =>
      refine ⟨by rw [References.source?, References.source?, h.durables], ?_⟩
      rintro m hm d rfl
      obtain ⟨d', hd', hsame⟩ := Option.map_eq_some_iff.1 hm
      cases hsame
      exact h.below _ (List.mem_of_getElem? hd')

end Alike

end References

/-- What is told and what is referred to from then on. -/
def Told.Alike (S : Setting) (ρ : Seating) (x : Told × References Site Spot)
    (y : Told × References ScopeRef SlotRef) : Prop :=
  x.1 = y.1 ∧ x.2.Alike S ρ y.2

section

variable {refs : References Site Spot} {refs' : References ScopeRef SlotRef}
  {x : References Site Spot → Node → Site → Proc World Completion}
  {y : References ScopeRef SlotRef → Node → ScopeRef → Body}

/-- How a body starts others: alike, if it refers to the same. -/
def Starts (S : Setting) (x : References Site Spot → Node → Site → Proc World Completion)
    (y : References ScopeRef SlotRef → Node → ScopeRef → Body) : Prop :=
  ∀ ρ refs refs', refs.Alike S ρ refs' → Evaluates S ρ (x refs) (y refs')

/-- Whatever a body asks for, the session follows. -/
theorem Request.follows (h : Starts S x y) (hrefs : refs.Alike S ρ refs') (request : Request) :
    Follows S ρ (Told.Alike S) (request.perform (World.platform S) x refs)
      (request.perform Session.platform y refs') := by
  cases request with
  | declare i s a =>
      refine .given hrefs.scopes i fun p r hp => ?_
      refine Follows.map (.engine fun w e hm => hm.declare hp s a) fun ρ' hle spot slot hspot => ?_
      exact ⟨rfl, (hrefs.mono hle).addSlot hspot⟩
  | resolve i s =>
      refine .given hrefs.scopes i fun p r hp => ?_
      refine Follows.map (.read fun w e hm => hm.resolve hp s) fun ρ' hle spot slot hspot => ?_
      exact ⟨rfl, (hrefs.mono hle).addSlot hspot⟩
  | load i =>
      refine .given hrefs.slots i fun spot slot hspot => ?_
      refine Follows.map (Q := fun _ => Eq) (.read fun w e hm => ?_) fun ρ' hle v v' hv => ?_
      · rw [hm.load hspot]
        exact .done rfl
      · exact ⟨congrArg Told.value hv, hrefs.mono hle⟩
  | assign i v =>
      refine .given hrefs.slots i fun spot slot hspot => ?_
      refine Follows.map (Q := fun _ => Eq) (.engine fun w e hm => hm.assign hspot v)
        fun ρ' hle _ _ _ => ?_
      exact ⟨rfl, hrefs.mono hle⟩
  | mixin i source =>
      obtain ⟨hsame, hbelow⟩ := hrefs.source? source
      refine .given hrefs.scopes i fun p r hp => ?_
      rw [← hsame]
      cases hsource : refs.source? source with
      | none => exact .panic
      | some m =>
          refine Follows.map (Q := fun _ => Eq)
            (.engine fun w e hm => hm.mixin_site hp (hbelow m hsource)) fun ρ' hle _ _ _ => ?_
          exact ⟨rfl, hrefs.mono hle⟩
  | symbols i includePrivate =>
      refine .given hrefs.scopes i fun p r hp => ?_
      refine Follows.map (Q := fun _ => Eq) (.read fun w e hm => ?_) fun ρ' hle l l' hl => ?_
      · rw [hm.list hp]
        exact Outcome.alike_self _
      · exact ⟨congrArg Told.symbols hl, hrefs.mono hle⟩
  | answer q i =>
      refine .given hrefs.scopes i fun p r hp => ?_
      refine Follows.map (Q := fun _ => Eq) (.read fun w e hm => ?_) fun ρ' hle v v' hv => ?_
      · rw [hm.answer hp]
        exact Outcome.alike_self _
      · exact ⟨congrArg Told.value hv, hrefs.mono hle⟩
  | block i shape =>
      refine .given hrefs.scopes i fun p r hp => ?_
      refine Follows.map (fun w s hm => hm.block hp shape) fun ρ' hle p' r' hp' => ?_
      exact ⟨rfl, (hrefs.mono hle).addScope hp'⟩
  | nodeShape id v =>
      refine Follows.map (Q := fun _ => Eq) (.engine fun w e hm => ?_) fun ρ' hle id id' hid => ?_
      · obtain ⟨hid, hm'⟩ := hm.nodeShape id v
        exact ⟨.done hid.symm, hm', rfl⟩
      · exact ⟨congrArg Told.shape hid, hrefs.mono hle⟩
  | setLine scope line =>
      cases scope with
      | none =>
          refine Follows.map (Q := fun _ => Eq) (.engine fun w e hm => hm.setLine none line)
            fun ρ' hle _ _ _ => ?_
          exact ⟨rfl, hrefs.mono hle⟩
      | some i =>
          refine .given hrefs.scopes i fun p r hp => ?_
          refine Follows.map (Q := fun _ => Eq) (.engine fun w e hm => hm.setLine (some r) line)
            fun ρ' hle _ _ _ => ?_
          exact ⟨rfl, hrefs.mono hle⟩
  | eval node i =>
      refine .given hrefs.scopes i fun p r hp => ?_
      refine Follows.map (h ρ refs refs' hrefs ρ (.refl ρ) node p r hp) fun ρ' hle c c' hc => ?_
      exact ⟨congrArg Told.completion hc, hrefs.mono hle⟩
  | call f arguments this super =>
      refine Follows.map ((h ρ refs refs' hrefs).callWith f arguments this super)
        fun ρ' hle c c' hc => ?_
      exact ⟨congrArg Told.completion hc, hrefs.mono hle⟩

/-- A body follows, request by request. -/
theorem Routine.follows (h : Starts S x y) (routine : Routine) (hrefs : refs.Alike S ρ refs') :
    Follows S ρ (fun _ => Eq) (routine.run (World.platform S) x refs)
      (routine.run Session.platform y refs') := by
  induction routine generalizing ρ refs refs' with
  | finish c => exact fun w s hm => .inl ⟨ρ, .refl ρ, hm, rfl, .done rfl⟩
  | throw kind => exact fun w s hm => .inl ⟨ρ, .refl ρ, hm, rfl, .raised (.refl _)⟩
  | rethrow i =>
      refine .given hrefs.errors i fun err err' herr => ?_
      exact fun w s hm => .inl ⟨ρ, .refl ρ, hm, rfl, .raised herr⟩
  | ask request next ih =>
      intro w s hm
      have hagree := request.follows h hrefs w s hm
      simp only [Routine.run]
      generalize request.perform (World.platform S) x refs w = left at hagree ⊢
      generalize request.perform Session.platform y refs' s = right at hagree ⊢
      obtain ⟨a, w'⟩ := left
      obtain ⟨b, s'⟩ := right
      rcases hagree with ⟨ρ', hle, hm', hn, halike⟩ | ⟨hcramped, hpanic⟩
      · have hnext : ∀ (told : Told) refs refs', refs.Alike S ρ' refs' →
            Agree S ρ (fun _ => Eq) w.stack.length
              ((next told).run (World.platform S) x refs w')
              ((next told).run Session.platform y refs' s') := by
          intro told refs refs' hrefs
          have hagree := (ih told hrefs w' s' hm').of_within hle
          rw [show w'.stack.length = w.stack.length from hn] at hagree
          exact hagree
        cases halike with
        | @done told told' htold =>
            obtain ⟨told, refs₁⟩ := told
            obtain ⟨told', refs₁'⟩ := told'
            obtain ⟨rfl, hrefs₁⟩ : told = told' ∧ refs₁.Alike S ρ' refs₁' := htold
            exact hnext told refs₁ refs₁' hrefs₁
        | @raised err err' herr =>
            have htold : Told.failed err.kind err.places = .failed err'.kind err'.places := by
              rw [herr.kind, herr.places]
            simp only [htold]
            exact hnext _ _ _ ((hrefs.mono hle).addError herr)
        | panicked => exact .inl ⟨ρ', hle, hm', hn, .panicked⟩
      · obtain rfl : b = .panicked := hpanic
        exact .inr ⟨hcramped, rfl⟩

end

/-- Every node is evaluated alike, whatever its body does and however many
activations there may be. -/
theorem starts_activate (program : Node → Routine) (levels : Nat) :
    Starts S ((World.platform S).activate program levels)
      (Session.platform.activate program levels) := by
  induction levels with
  | zero =>
      intro ρ refs refs' hrefs ρ' hle node p r hp
      exact Follows.gate .panic node r
  | succ levels ih =>
      intro ρ refs refs' hrefs ρ' hle node p r hp
      exact Follows.gate ((program node).follows ih ((hrefs.mono hle).addScope hp)) node r

end ScriptCore

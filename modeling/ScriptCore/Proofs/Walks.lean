import ScriptCore.Proofs.Escape

/-!
# Walks outward come to an end

Three loops go from key to key through the live scopes of a frame: the one that
resolves a symbol, the one that asks for the receiver or the function of an
activation, and the one that collects what an escape has to copy. None of them
counts its steps. `Walk` is what such a loop does, as a relation with no bound
in it, so that a walk exists exactly if the loop ends.

What makes them end is not in the state of the frame. A link may name a key
that has been given back, and even the index the scope itself has taken over
since. But the key was given out before the scope was made, and a key is given
out once, so each link goes back in the list of all keys given out so far. The
number of entries of the pool, which bounds the functions `resolve`, `escalate`
and `pending`, is therefore never met.
-/

namespace ScriptCore

/-! ## Loops over pooled scopes -/

/-- A loop that goes from a scope to the one around it. -/
structure Loop (α : Type) where
  /-- At a pooled scope it stops with an answer, or passes the scope. -/
  visit : PoolKey → α ⊕ PooledScope
  /-- A durable scope ends it. -/
  finish : DurableScope → α
  /-- What a scope that was passed adds to the answer. -/
  note : PoolKey → PooledScope → α → α

namespace Loop

variable {α : Type} {l : Loop α} {r : ScopeRef} {ks : List PoolKey} {a : α}

/-- A run of the loop: the keys it visits, in order, and its answer. -/
inductive Walk (l : Loop α) : ScopeRef → List PoolKey → α → Prop
  | durable (d : DurableScope) : Walk l (.durable d) [] (l.finish d)
  | stops {k : PoolKey} {a : α} (hvisit : l.visit k = .inl a) : Walk l (.pooled k) [k] a
  | passes {k : PoolKey} {own : PooledScope} {ks : List PoolKey} {a : α}
      (hvisit : l.visit k = .inr own) (hrest : Walk l own.previous ks a) :
      Walk l (.pooled k) (k :: ks) (l.note k own a)

/-- The loop ends here with this answer and no other, and visits no key twice. -/
def Ends (l : Loop α) (r : ScopeRef) (a : α) : Prop :=
  ∃ ks, l.Walk r ks a ∧ ks.Nodup ∧ ∀ ks' a', l.Walk r ks' a' → ks' = ks ∧ a' = a

/-- The loop with a bound on the pooled scopes it visits. -/
def within (l : Loop α) (late : α) : Nat → ScopeRef → α
  | _, .durable d => l.finish d
  | 0, .pooled _ => late
  | hops + 1, .pooled k =>
    match l.visit k with
    | .inl a => a
    | .inr own => l.note k own (within l late hops own.previous)

theorem Walk.eq {ks' : List PoolKey} {a' : α} (h : l.Walk r ks a) (h' : l.Walk r ks' a') :
    ks' = ks ∧ a' = a := by
  induction h generalizing ks' a' with
  | durable d =>
      cases h'
      exact ⟨rfl, rfl⟩
  | stops hvisit =>
      cases h' with
      | stops hvisit' =>
          rw [hvisit] at hvisit'
          cases hvisit'
          exact ⟨rfl, rfl⟩
      | passes hvisit' _ =>
          rw [hvisit] at hvisit'
          cases hvisit'
  | passes hvisit _ ih =>
      cases h' with
      | stops hvisit' =>
          rw [hvisit] at hvisit'
          cases hvisit'
      | passes hvisit' hrest' =>
          rw [hvisit] at hvisit'
          cases hvisit'
          obtain ⟨rfl, rfl⟩ := ih hrest'
          exact ⟨rfl, rfl⟩

/-- All but the last scope of a walk were passed. -/
theorem Walk.passed (h : l.Walk r ks a) : ∀ k ∈ ks.dropLast, ∃ own, l.visit k = .inr own := by
  induction h with
  | durable d => exact nofun
  | stops hvisit => exact nofun
  | @passes k own ks a hvisit hrest ih =>
      intro j hj
      cases ks with
      | nil => cases hj
      | cons k' ks =>
          rcases List.mem_cons.1 hj with rfl | hj
          · exact ⟨own, hvisit⟩
          · exact ih j hj

/-- The bound does not matter once it covers the scopes that are live, if the
answer for being late is also the one for a scope that is not. -/
theorem Walk.within {live : PoolKey → Bool} {late : α}
    (hdead : ∀ k, live k = false → l.visit k = .inl late) (h : l.Walk r ks a) {hops : Nat}
    (hle : (ks.filter live).length ≤ hops) : l.within late hops r = a := by
  induction h generalizing hops with
  | durable d => cases hops <;> rfl
  | @stops k a hvisit =>
      cases hops with
      | succ hops => simp only [Loop.within, hvisit]
      | zero =>
          have hlive : live k = false := by simpa using hle
          rw [hdead k hlive] at hvisit
          exact Sum.inl.inj hvisit
  | @passes k own ks a hvisit hrest ih =>
      have hlive : live k = true := by
        by_contra hdown
        rw [hdead k (by simpa using hdown)] at hvisit
        cases hvisit
      rw [List.filter_cons_of_pos hlive, List.length_cons] at hle
      obtain ⟨hops, rfl⟩ : ∃ n, hops = n + 1 := ⟨hops - 1, by omega⟩
      simp only [Loop.within, hvisit]
      rw [ih (by omega)]

end Loop

/-! ## The three loops of a frame -/

namespace Engine

/-- The loop passes live scopes only. -/
def Follows {α : Type} (e : Engine) (l : Loop α) : Prop :=
  ∀ k own, l.visit k = .inr own → e.frame.scope? k = some own

/-- The loop that resolves a symbol. -/
def resolving (e : Engine) (s : Symbol) : Loop (Except EvalError SlotRef) where
  visit k :=
    match e.frame.getScope k with
    | .error err => .inl (.error err)
    | .ok own =>
      match e.ownIndex? own s with
      | .error err => .inl (.error err)
      | .ok (some i) => .inl (.ok (.pooled own.members i s))
      | .ok none =>
        match e.store.findMixin? own.mixins s with
        | some source => .inl (.ok (.mixin source s))
        | none => .inr own
  finish d := e.store.resolve d s
  note _ _ a := a

/-- The loop that asks for something of an activation. -/
def escalating (e : Engine) (pick : ScopeKind → Option Value) (missing : ErrorKind) :
    Loop (Except EvalError Value) where
  visit k :=
    match e.frame.getScope k with
    | .error err => .inl (.error err)
    | .ok own =>
      match pick own.kind with
      | some v => .inl (.ok v)
      | none => .inr own
  finish d := e.store.escalate pick missing d
  note _ _ a := a

/-- The loop that collects what has to be frozen, up to what the memo has. -/
def collecting (e : Engine) (memo : EscapeMemo) :
    Loop (Except EvalError (List (PoolKey × PooledScope) × DurableScope)) where
  visit k :=
    match memo[k]? with
    | some d => .inl (.ok ([], d))
    | none =>
      match e.frame.getScope k with
      | .error err => .inl (.error err)
      | .ok own => .inr own
  finish d := .ok ([], d)
  note k own a := a.map fun (links, base) => ((k, own) :: links, base)

variable {e : Engine} {k : PoolKey} {s : Symbol} {pick : ScopeKind → Option Value}
  {missing : ErrorKind} {memo : EscapeMemo}

theorem resolveWithin_eq_within (hops : Nat) (r : ScopeRef) :
    e.resolveWithin s hops r =
      (e.resolving s).within (.error (ErrorKind.staleHandle .scope)) hops r := by
  induction hops generalizing r with
  | zero => cases r <;> rfl
  | succ hops ih =>
      cases r with
      | durable d => rfl
      | pooled k =>
          simp only [resolveWithin, Loop.within, resolving]
          cases e.frame.getScope k with
          | error err => rfl
          | ok own =>
              dsimp only
              cases e.ownIndex? own s with
              | error err => rfl
              | ok found =>
                  cases found with
                  | some i => rfl
                  | none =>
                      dsimp only
                      cases e.store.findMixin? own.mixins s with
                      | some source => rfl
                      | none => exact ih own.previous

theorem escalateWithin_eq_within (hops : Nat) (r : ScopeRef) :
    e.escalateWithin pick missing hops r =
      (e.escalating pick missing).within (.error (ErrorKind.staleHandle .scope)) hops r := by
  induction hops generalizing r with
  | zero => cases r <;> rfl
  | succ hops ih =>
      cases r with
      | durable d => rfl
      | pooled k =>
          simp only [escalateWithin, Loop.within, escalating]
          cases e.frame.getScope k with
          | error err => rfl
          | ok own =>
              dsimp only
              cases pick own.kind with
              | some v => rfl
              | none => exact ih own.previous

theorem pending_eq_within (hops : Nat) (k : PoolKey) :
    e.pending memo hops k =
      (e.collecting memo).within (.error (ErrorKind.staleHandle .scope)) hops (.pooled k) := by
  induction hops generalizing k with
  | zero => rfl
  | succ hops ih =>
      simp only [pending, Loop.within]
      cases hmemo : memo[k]? with
      | some d => simp only [collecting, hmemo]
      | none =>
          cases hown : e.frame.getScope k with
          | error err => simp only [collecting, hmemo, hown]
          | ok own =>
              have hvisit : (e.collecting memo).visit k = .inr own := by
                simp only [collecting, hmemo, hown]
              rw [hvisit]
              dsimp only
              cases own.previous with
              | durable d => cases hops <;> rfl
              | pooled j =>
                  dsimp only
                  rw [ih]
                  cases (e.collecting memo).within _ hops (.pooled j) <;> rfl

theorem follows_resolving : e.Follows (e.resolving s) := by
  intro k own h
  simp only [resolving] at h
  split at h
  · cases h
  · next hown =>
      split at h
      · cases h
      · cases h
      · split at h
        · cases h
        · cases h
          exact scope?_of_getScope hown

theorem follows_escalating : e.Follows (e.escalating pick missing) := by
  intro k own h
  simp only [escalating] at h
  split at h
  · cases h
  · next hown =>
      split at h
      · cases h
      · cases h
        exact scope?_of_getScope hown

theorem follows_collecting : e.Follows (e.collecting memo) := by
  intro k own h
  simp only [collecting] at h
  split at h
  · cases h
  · split at h
    · cases h
    · next hown =>
        cases h
        exact scope?_of_getScope hown

theorem getScope_of_not_live (h : (e.frame.scope? k).isSome = false) :
    e.frame.getScope k = .error (ErrorKind.staleHandle .scope) := by
  rw [Option.isSome_eq_false_iff, Option.isNone_iff_eq_none] at h
  rw [Frame.getScope, h]

/-- A scope is enclosed by another one. -/
def Encloses (e : Engine) (j k : PoolKey) : Prop :=
  ∃ own, e.frame.scope? k = some own ∧ own.previous = .pooled j

end Engine

/-! ## Each link goes back in time -/

namespace Machine

variable {m : Machine} {issued : List PoolKey} {os : List Op} {α : Type} {l : Loop α}
  {r : ScopeRef} {ks : List PoolKey} {a : α}

/-- No key is given out twice. -/
theorem Lineage.nodup_issues (h : m.Lineage issued) (hm : m.Tracked) (hr : m.Rooted issued os)
    (hu : (m.run os).Unwrapped) (hnodup : issued.Nodup) : (m.issues issued os).Nodup := by
  induction os generalizing m issued with
  | nil => exact hnodup
  | cons o os ih =>
      have hu' : (m.after o).Unwrapped := fun i =>
        Nat.lt_of_le_of_lt (scopeReleases_le_run os (m.after o) i) (hu i)
      refine ih (h.after hm hr.1 hu') (hm.after o) hr.2 hu ?_
      cases hnew : o.newScope? m.engine with
      | none => exact hnodup
      | some k => exact List.nodup_cons.2 ⟨h.newScope?_not_mem hm hu' hnew, hnodup⟩

theorem Lineage.wellFounded (h : m.Lineage issued) : WellFounded m.engine.Encloses := by
  refine Subrelation.wf ?_ (measure fun k => issued.length - issued.idxOf k).wf
  rintro j k ⟨own, hown, hprev⟩
  obtain ⟨hj, hlt⟩ := h.older k own j hown hprev
  have hlast := List.idxOf_lt_length_of_mem hj
  show issued.length - issued.idxOf j < issued.length - issued.idxOf k
  omega

theorem Lineage.exists_walk (h : m.Lineage issued) (hl : m.engine.Follows l) (r : ScopeRef) :
    ∃ ks a, l.Walk r ks a := by
  cases r with
  | durable d => exact ⟨[], _, .durable d⟩
  | pooled k =>
      induction k using h.wellFounded.induction with
      | _ k ih =>
          cases hvisit : l.visit k with
          | inl a => exact ⟨[k], a, .stops hvisit⟩
          | inr own =>
              cases hprev : own.previous with
              | durable d => exact ⟨[k], _, .passes hvisit (hprev ▸ Loop.Walk.durable d)⟩
              | pooled j =>
                  obtain ⟨ks, a, hrest⟩ := ih j ⟨own, hl k own hvisit, hprev⟩
                  exact ⟨k :: ks, _, .passes hvisit (hprev ▸ hrest)⟩

/-- A walk visits older and older scopes. -/
theorem Lineage.pairwise_walk (h : m.Lineage issued) (hl : m.engine.Follows l)
    (hw : l.Walk r ks a) : ks.Pairwise fun k j => issued.idxOf k < issued.idxOf j := by
  induction hw with
  | durable d => exact .nil
  | stops hvisit => exact List.pairwise_singleton _ _
  | @passes k own ks a hvisit hrest ih =>
      refine List.pairwise_cons.2 ⟨?_, ih⟩
      have hnext : ∀ j, own.previous = .pooled j → issued.idxOf k < issued.idxOf j :=
        fun j hprev => (h.older k own j (hl k own hvisit) hprev).2
      generalize own.previous = prev at hrest hnext
      cases hrest with
      | durable d => exact nofun
      | stops hstop =>
          intro j hj
          rw [List.mem_singleton.1 hj]
          exact hnext _ rfl
      | passes hpass _ =>
          intro j hj
          rcases List.mem_cons.1 hj with rfl | hj
          · exact hnext _ rfl
          · exact Nat.lt_trans (hnext _ rfl) (List.rel_of_pairwise_cons ih hj)

theorem Lineage.nodup_walk (h : m.Lineage issued) (hl : m.engine.Follows l)
    (hw : l.Walk r ks a) : ks.Nodup := by
  refine (h.pairwise_walk hl hw).imp ?_
  rintro k j hlt rfl
  exact Nat.lt_irrefl _ hlt

/-- A loop that treats a scope that is gone like one too many ends before the
bound is met. -/
theorem Lineage.ends_within (h : m.Lineage issued) (hl : m.engine.Follows l) {late : α}
    (hdead : ∀ k, (m.engine.frame.scope? k).isSome = false → l.visit k = .inl late)
    (r : ScopeRef) : l.Ends r (l.within late m.engine.frame.scopes.entries.size r) := by
  obtain ⟨ks, a, hw⟩ := h.exists_walk hl r
  have hnodup := h.nodup_walk hl hw
  have hle : (ks.filter fun k => (m.engine.frame.scope? k).isSome).length ≤
      m.engine.frame.scopes.entries.size :=
    Engine.length_le_of_live (hnodup.filter _) fun k hk => (List.mem_filter.1 hk).2
  rw [hw.within hdead hle]
  exact ⟨ks, hw, hnodup, fun _ _ hw' => hw.eq hw'⟩

/-- One more hop is enough for any loop, since it stops where it does not pass. -/
theorem Lineage.ends_within_succ (h : m.Lineage issued) (hl : m.engine.Follows l) (late : α)
    (r : ScopeRef) : l.Ends r (l.within late (m.engine.frame.scopes.entries.size + 1) r) := by
  obtain ⟨ks, a, hw⟩ := h.exists_walk hl r
  have hnodup := h.nodup_walk hl hw
  have hpassed : ks.dropLast.length ≤ m.engine.frame.scopes.entries.size := by
    refine Engine.length_le_of_live (hnodup.sublist ks.dropLast_sublist) fun k hk => ?_
    obtain ⟨own, hvisit⟩ := hw.passed k hk
    rw [hl k own hvisit]
    rfl
  rw [List.length_dropLast] at hpassed
  have hle : (ks.filter fun _ => true).length ≤ m.engine.frame.scopes.entries.size + 1 := by
    rw [List.filter_true]
    omega
  rw [hw.within (fun _ hno => absurd hno (by decide)) hle]
  exact ⟨ks, hw, hnodup, fun _ _ hw' => hw.eq hw'⟩

/-- As long as no generation has wrapped around, and every scope that was to
enclose a new one had been given out, live or not: no key was given out twice;
a live scope was given out after the one it names as the one around it, also
where both have the same index; the scopes enclose one another in no circle;
and each of the three loops ends, wherever it begins, after visiting every
scope at most once, with the answer of the function that has a bound. The keys
given out are listed newest first. -/
theorem chain_walks_end {store : Store} {config : FrameConfig} {global : GlobalId}
    {flag : FlagId} {os : List Op} (hrooted : (start store config global flag).Rooted [] os)
    (hunwrapped : ((start store config global flag).run os).Unwrapped) :
    let e := ((start store config global flag).run os).engine
    let issued := (start store config global flag).issues [] os
    issued.Nodup ∧
      (∀ k own j, e.frame.scope? k = some own → own.previous = .pooled j →
        k ∈ issued ∧ j ∈ issued ∧ issued.idxOf k < issued.idxOf j) ∧
      (∀ k, ¬ Relation.TransGen e.Encloses k k) ∧
      (∀ r s, (e.resolving s).Ends r (e.resolve r s)) ∧
      (∀ pick missing r,
        (e.escalating pick missing).Ends r (e.escalate pick missing r)) ∧
      ∀ memo k,
        (e.collecting memo).Ends (.pooled k)
          (e.pending memo (e.frame.scopes.entries.size + 1) k) := by
  intro e issued
  have hm := tracked_start store config global flag
  have hstart := lineage_start store config global flag
  have h := hstart.run hm hrooted hunwrapped
  refine ⟨hstart.nodup_issues hm hrooted hunwrapped List.nodup_nil, ?_, ?_, ?_, ?_, ?_⟩
  · intro k own j hown hprev
    exact ⟨h.mem_issued k own hown, h.older k own j hown hprev⟩
  · intro k hcycle
    exact h.wellFounded.transGen.asymmetric k k hcycle hcycle
  · intro r s
    rw [Engine.resolve, Engine.resolveWithin_eq_within]
    refine h.ends_within Engine.follows_resolving (fun k hk => ?_) r
    simp only [Engine.resolving, Engine.getScope_of_not_live hk]
  · intro pick missing r
    rw [Engine.escalate, Engine.escalateWithin_eq_within]
    refine h.ends_within Engine.follows_escalating (fun k hk => ?_) r
    simp only [Engine.escalating, Engine.getScope_of_not_live hk]
  · intro memo k
    rw [Engine.pending_eq_within]
    exact h.ends_within_succ Engine.follows_collecting _ _

/-- A scope over the very index it has taken over, and one over that scope. -/
theorem chain_walks_end_of_reused :
    let m := start { shapes := #[.empty], globals := #[{}] } {} 0 0
    let os : List Op :=
      [.allocateBlock (.ofGlobal 0) 0, .freeScope (.pooled ⟨0, 0⟩),
        .allocateBlock (.pooled ⟨0, 0⟩) 0, .allocateBlock (.pooled ⟨0, 1⟩) 0]
    let e := (m.run os).engine
    m.Rooted [] os ∧ (m.run os).Unwrapped ∧
      m.issues [] os = [⟨1, 0⟩, ⟨0, 1⟩, ⟨0, 0⟩] ∧
      e.Encloses ⟨0, 1⟩ ⟨1, 0⟩ ∧ e.Encloses ⟨0, 0⟩ ⟨0, 1⟩ ∧
      (∀ k, ¬ Relation.TransGen e.Encloses k k) ∧
      ∀ s, (e.resolving s).Ends (.pooled ⟨1, 0⟩) (e.resolve (.pooled ⟨1, 0⟩) s) := by
  intro m os e
  have hrooted : m.Rooted [] os := by decide +kernel
  have hunwrapped : (m.run os).Unwrapped := by
    intro i
    have hle := scopeReleases_run_le os m i
    have hfew : m.scopeReleases i + os.length = 4 := rfl
    omega
  have hlinks : ∀ k j, (e.frame.scope? k).map (·.previous.key?) = some (some j) →
      e.Encloses j k := by
    intro k j h
    obtain ⟨own, hown, hprev⟩ := Option.map_eq_some_iff.1 h
    exact ⟨own, hown, ScopeRef.key?_eq_some.1 hprev⟩
  obtain ⟨-, -, hacyclic, hresolve, -⟩ := chain_walks_end hrooted hunwrapped
  exact ⟨hrooted, hunwrapped, by decide +kernel, hlinks _ _ (by decide +kernel),
    hlinks _ _ (by decide +kernel), hacyclic, hresolve _⟩

end Machine

end ScriptCore

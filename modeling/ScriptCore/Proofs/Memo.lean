import ScriptCore.Proofs.Escape

/-!
# The memo of a trace does not show

A trace escapes one scope after the other and notes every chain it has frozen,
so that a later walk may stop at a scope that an earlier one has passed. This
is sound because nothing changes in between: what is noted for a key is what
escaping that key alone would give. `Recalls` says that of a memo, and each walk
keeps it, also one that is cut short, since the scopes are frozen from the
outermost on and noted as soon as they are.

So a record has the scope that escaping the scope of its activation gives, and
none where that fails.
-/

namespace ScriptCore.Engine

variable {e : Engine} {r : ScopeRef} {k : PoolKey} {own : PooledScope} {d d' base : DurableScope}
  {links : List (PoolKey × PooledScope)} {memo : EscapeMemo} {hops : Nat}

/-! ## The frozen chain of a scope -/

/-- The chain of the scope ends, all of it has its slots, and its copy is `d`. -/
def Freezes (e : Engine) (r : ScopeRef) (d : DurableScope) : Prop :=
  ∃ links base, e.Chain r links base ∧
    (∀ l ∈ links, (e.frame.tables.get? l.2.members).isSome) ∧ d = e.frozenChain links base

theorem Freezes.durable (d : DurableScope) : e.Freezes (.durable d) d :=
  ⟨[], d, .durable d, nofun, rfl⟩

theorem Freezes.eq (h : e.Freezes r d) (h' : e.Freezes r d') : d = d' := by
  obtain ⟨links, base, hchain, -, rfl⟩ := h
  obtain ⟨links', base', hchain', -, rfl⟩ := h'
  obtain ⟨rfl, rfl⟩ := hchain.eq hchain'
  rfl

theorem freeze_eq_ok :
    e.freeze own base = .ok d ↔
      (e.frame.tables.get? own.members).isSome ∧ d = base.push (e.copy own) := by
  unfold freeze Frame.getTable copy
  cases e.frame.tables.get? own.members with
  | none => simp
  | some t => simp [eq_comm]

theorem Freezes.pooled (hown : e.frame.scope? k = some own) (h : e.Freezes own.previous base)
    (hfreeze : e.freeze own base = .ok d) : e.Freezes (.pooled k) d := by
  obtain ⟨links, bottom, hchain, hlive, rfl⟩ := h
  obtain ⟨htable, rfl⟩ := freeze_eq_ok.1 hfreeze
  refine ⟨(k, own) :: links, bottom, .pooled hown hchain, ?_, rfl⟩
  intro l hl
  rcases List.mem_cons.1 hl with rfl | hl
  · exact htable
  · exact hlive l hl

/-! ## A memo of right answers -/

/-- Whatever is noted for a key is the frozen chain of its scope. -/
def Recalls (e : Engine) (memo : EscapeMemo) : Prop :=
  ∀ k d, memo[k]? = some d → e.Freezes (.pooled k) d

theorem recalls_empty : e.Recalls ∅ := by
  intro k d h
  rw [Std.HashMap.getElem?_empty] at h
  cases h

theorem Recalls.insert (h : e.Recalls memo) (hk : e.Freezes (.pooled k) d) :
    e.Recalls (memo.insert k d) := by
  intro j d' hj
  rw [Std.HashMap.getElem?_insert] at hj
  split at hj
  · next heq =>
      rw [beq_iff_eq] at heq
      cases hj
      exact heq ▸ hk
  · exact h j d' hj

theorem freezeAll_concat (links : List (PoolKey × PooledScope)) (k : PoolKey) (own : PooledScope)
    (base : DurableScope) (memo : EscapeMemo) :
    e.freezeAll (links ++ [(k, own)]) base memo =
      match e.freezeAll links base memo with
      | (.error err, memo) => (.error err, memo)
      | (.ok d, memo) => e.freezeAll [(k, own)] d memo := by
  induction links generalizing base memo with
  | nil => rfl
  | cons l links ih =>
      obtain ⟨j, inner⟩ := l
      rw [List.cons_append, freezeAll, freezeAll]
      cases e.freeze inner base with
      | error err => rfl
      | ok d => exact ih d (memo.insert j d)

/-- Freezing one scope more is right if what lies outside of it is. -/
theorem freezeAll_singleton (hown : e.frame.scope? k = some own)
    (hbase : e.Freezes own.previous base) (hmemo : e.Recalls memo) :
    e.Recalls (e.freezeAll [(k, own)] base memo).2 ∧
      ∀ d, (e.freezeAll [(k, own)] base memo).1 = .ok d → e.Freezes (.pooled k) d := by
  rw [freezeAll]
  cases hfreeze : e.freeze own base with
  | error err =>
      refine ⟨hmemo, fun d hd => ?_⟩
      cases hd
  | ok d =>
      have hk := Freezes.pooled hown hbase hfreeze
      refine ⟨hmemo.insert hk, fun d' hd => ?_⟩
      cases hd
      exact hk

/-- Whatever a walk with a memo comes to is the frozen chain. -/
theorem freezes_of_pending (hmemo : e.Recalls memo)
    (h : e.pending memo hops k = .ok (links, base)) (noted : EscapeMemo)
    (hnoted : e.Recalls noted) :
    e.Recalls (e.freezeAll links.reverse base noted).2 ∧
      ∀ d, (e.freezeAll links.reverse base noted).1 = .ok d → e.Freezes (.pooled k) d := by
  induction hops generalizing k links base with
  | zero => cases h
  | succ hops ih =>
      simp only [pending] at h
      split at h
      · next found hfound =>
          cases h
          refine ⟨hnoted, fun d hd => ?_⟩
          cases hd
          exact hmemo k _ hfound
      · split at h
        · cases h
        · next own hown =>
            have hown := scope?_of_getScope hown
            split at h
            · next bottom hprev =>
                cases h
                exact freezeAll_singleton hown (hprev ▸ Freezes.durable base) hnoted
            · next j hprev =>
                split at h
                · cases h
                · next rest bottom hrest =>
                    cases h
                    obtain ⟨hafter, hinner⟩ := ih hrest
                    rw [List.reverse_cons, freezeAll_concat]
                    split
                    · next err after heq =>
                        rw [heq] at hafter
                        refine ⟨hafter, fun d hd => ?_⟩
                        cases hd
                    · next outer after heq =>
                        rw [heq] at hafter hinner
                        exact freezeAll_singleton hown (hprev ▸ hinner outer rfl) hafter

/-- And the walk comes to an end where the chain has one. -/
theorem pending_of_chain {bottom : DurableScope} (h : e.Chain (.pooled k) links bottom)
    (hlive : ∀ l ∈ links, (e.frame.tables.get? l.2.members).isSome) (hle : links.length ≤ hops)
    (memo : EscapeMemo) :
    ∃ links' base, e.pending memo hops k = .ok (links', base) ∧
      ∀ noted, ∃ d, (e.freezeAll links'.reverse base noted).1 = .ok d := by
  induction hops generalizing k links with
  | zero =>
      cases h with
      | pooled hown hlinks => exact absurd hle (by simp)
  | succ hops ih =>
      cases h with
      | @pooled _ own links _ hown hlinks =>
          have hfreeze : ∀ base, ∃ d, e.freeze own base = .ok d := fun base =>
            ⟨_, freeze_eq_ok.2 ⟨hlive (k, own) List.mem_cons_self, rfl⟩⟩
          have hlast : ∀ base noted, ∃ d, (e.freezeAll [(k, own)] base noted).1 = .ok d := by
            intro base noted
            obtain ⟨d, hd⟩ := hfreeze base
            rw [freezeAll, hd]
            exact ⟨d, rfl⟩
          simp only [pending, getScope_of_scope? hown]
          split
          · next found _ => exact ⟨[], found, rfl, fun noted => ⟨found, rfl⟩⟩
          · split
            · next outer _ => exact ⟨_, outer, rfl, hlast outer⟩
            · next j hprev =>
                obtain ⟨rest, base, hrest, hall⟩ := ih (hprev ▸ hlinks)
                  (fun l hl => hlive l (List.mem_cons_of_mem _ hl)) (Nat.le_of_succ_le_succ hle)
                refine ⟨(k, own) :: rest, base, by rw [hrest], fun noted => ?_⟩
                rw [List.reverse_cons, freezeAll_concat]
                obtain ⟨d, hd⟩ := hall noted
                split
                · next heq =>
                    rw [heq] at hd
                    cases hd
                · next outer after _ => exact hlast outer after

theorem freezeChain_spec (hmemo : e.Recalls memo) (k : PoolKey) :
    e.Recalls (e.freezeChain k memo).2 ∧
      ∀ d, (e.freezeChain k memo).1 = .ok d ↔ e.Freezes (.pooled k) d := by
  have hsound : e.Recalls (e.freezeChain k memo).2 ∧
      ∀ d, (e.freezeChain k memo).1 = .ok d → e.Freezes (.pooled k) d := by
    unfold freezeChain
    split
    · exact ⟨hmemo, nofun⟩
    · next links base hpending => exact freezes_of_pending hmemo hpending memo hmemo
  refine ⟨hsound.1, fun d => ⟨hsound.2 d, fun hd => ?_⟩⟩
  obtain ⟨links, base, hchain, hlive, -⟩ := id hd
  obtain ⟨links', base', hpending, hall⟩ :=
    pending_of_chain hchain hlive (Nat.le_succ_of_le hchain.length_le) memo
  obtain ⟨d', hd'⟩ := hall memo
  have hok : (e.freezeChain k memo).1 = .ok d' := by
    rw [freezeChain, hpending]
    exact hd'
  rw [hok, hd.eq (hsound.2 d' hok)]

theorem escape_eq_ok_iff : e.escape r = .ok d ↔ e.Freezes r d := by
  cases r with
  | durable d' =>
      constructor
      · intro h
        cases h
        exact .durable d
      · intro h
        rw [h.eq (.durable d')]
        rfl
  | pooled k => exact (freezeChain_spec recalls_empty k).2 d

/-! ## Traces -/

/-- The record of an activation by itself. -/
def recordOf? (e : Engine) (entry : DepthEntry) : Option TraceRecord :=
  entry.node.map fun node =>
    { node, line := entry.line, scope := entry.scope.bind fun r => (e.escape r).toOption }

theorem toOption_freezeChain (hmemo : e.Recalls memo) (k : PoolKey) :
    (e.freezeChain k memo).1.toOption = (e.escape (.pooled k)).toOption := by
  have hok : ∀ {x : Except EvalError DurableScope} {d : DurableScope},
      x.toOption = some d ↔ x = .ok d := by
    intro x d
    cases x <;> simp [Except.toOption]
  ext d
  rw [hok, hok, (freezeChain_spec hmemo k).2, escape_eq_ok_iff]

theorem record_spec (hmemo : e.Recalls memo) (records : List TraceRecord) (entry : DepthEntry) :
    (e.record (records, memo) entry).1 = (e.recordOf? entry).toList ++ records ∧
      e.Recalls (e.record (records, memo) entry).2 := by
  unfold record recordOf?
  cases entry.node with
  | none => exact ⟨rfl, hmemo⟩
  | some node =>
      cases hscope : entry.scope with
      | none => exact ⟨rfl, hmemo⟩
      | some r =>
          cases r with
          | durable d => exact ⟨rfl, hmemo⟩
          | pooled k =>
              simp only [escapeNoting, toOption_freezeChain hmemo k]
              exact ⟨rfl, (freezeChain_spec hmemo k).1⟩

theorem foldl_record (entries : List DepthEntry) :
    ∀ (records : List TraceRecord) (memo : EscapeMemo), e.Recalls memo →
      (entries.foldl e.record (records, memo)).1 =
        (entries.filterMap e.recordOf?).reverse ++ records := by
  induction entries with
  | nil => exact fun _ _ _ => rfl
  | cons entry entries ih =>
      intro records memo hmemo
      obtain ⟨hrecords, hmemo'⟩ := record_spec hmemo records entry
      rw [List.foldl_cons, ← Prod.mk.eta (p := e.record (records, memo) entry),
        ih _ _ hmemo', hrecords]
      cases hr : e.recordOf? entry with
      | none => rw [List.filterMap_cons_none hr, Option.toList_none, List.nil_append]
      | some record =>
          rw [List.filterMap_cons_some hr, List.reverse_cons, Option.toList_some, List.append_assoc]

/-- A trace records each activation as it would be recorded by itself. -/
theorem trace_eq (e : Engine) :
    e.trace = (e.frame.activations.map (·.2)).filterMap e.recordOf? := by
  rw [trace, foldl_record _ _ _ recalls_empty, List.append_nil, List.reverse_reverse]

end ScriptCore.Engine

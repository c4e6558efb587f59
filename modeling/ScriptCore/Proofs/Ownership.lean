import ScriptCore.Frame.Escape
import ScriptCore.Proofs.Machine

/-!
# Who owns what

The ownership of pooled storage, said of the frame itself. A scope is on the
list of the depth its entry records, once, and on no other. A table is on such
a list or is the members of one scope, never both. Whatever is on a list is
live, and so are the members of a live scope, so that no operation that starts
from a live scope ever finds its table gone.

There is one way for a table to end up with neither owner. An allocation takes
its table from the pool first and makes room in it afterwards; if there is no
room it stops there, and the table stays live, with no depth and no scope to
give it back. `lost` lists these, and they are all there is: a frame has none
exactly if every allocation had room.
-/

namespace ScriptCore

namespace Frame

/-- Of all lists the allocation is on that of depth `d`, once. -/
def ListedOnce (f : Frame) (a : Allocation) (d : Nat) : Prop :=
  ∀ j, (f.listed j).count a = if j = d then 1 else 0

def Unlisted (f : Frame) (a : Allocation) : Prop := ∀ j, a ∉ f.listed j

def IsLive (f : Frame) : Allocation → Prop
  | .scope k => (f.scopes.entry? k).isSome
  | .table t => (f.tables.entry? t).isSome

/-- The table is the members of the live scope `k`. -/
def OwnedBy (f : Frame) (t k : PoolKey) : Prop := ∃ s, f.scope? k = some s ∧ s.members = t

/-- The table is given back by the depth its entry records, and by no scope. -/
def OfDepth (f : Frame) (t : PoolKey) (x : PoolEntry MemberTable) : Prop :=
  (∃ d, x.depth = some d ∧ d ≤ f.depth ∧ f.ListedOnce (.table t) d) ∧ ∀ k, ¬ f.OwnedBy t k

/-- The table is given back with its scope, and by no depth. -/
def OfScope (f : Frame) (t : PoolKey) : Prop := f.Unlisted (.table t) ∧ ∃! k, f.OwnedBy t k

def OfNobody (f : Frame) (t : PoolKey) : Prop :=
  f.Unlisted (.table t) ∧ ∀ k, ¬ f.OwnedBy t k

/-- Everything live has one owner, apart from the tables that were lost. -/
structure Ownership (f : Frame) (lost : List PoolKey) : Prop where
  scope : ∀ k x, f.scopes.entry? k = some x →
    ∃ d, x.depth = some d ∧ d ≤ f.depth ∧ f.ListedOnce (.scope k) d
  table : ∀ t x, f.tables.entry? t = some x → t ∉ lost → f.OfDepth t x ∨ f.OfScope t
  lost : ∀ t ∈ lost, (f.tables.entry? t).isSome ∧ f.OfNobody t
  listed : ∀ d a, a ∈ f.listed d → f.IsLive a
  members : ∀ k s, f.scope? k = some s → (f.tables.get? s.members).isSome

variable {f : Frame} {lost : List PoolKey} {k t : PoolKey} {a : Allocation} {d : Nat}

theorem ownedBy_iff : f.OwnedBy t k ↔ ∃ v, f.books.scopes k = some (v, some t) := by
  constructor
  · rintro ⟨s, hs, rfl⟩
    exact scopes_books_of_scope? hs
  · rintro ⟨v, hv⟩
    simp only [books, Option.map_eq_some_iff, Prod.mk.injEq] at hv
    obtain ⟨x, hx, -, s, hs, hst⟩ := hv
    exact ⟨s, by simp [scope?, Pool.get?, hx, hs], hst⟩

theorem listedOnce_of_kept {loose : List Allocation} (h : f.books.Kept loose)
    (ha : f.books.home? a = some d) (hl : a ∉ loose) : f.ListedOnce a d := by
  intro j
  have hnd : (f.listed j).Nodup := h.nodup j
  have hmem : a ∈ f.listed j ↔ _ := h.mem_listed a j
  rw [hnd.count]
  by_cases hj : j = d
  · rw [if_pos (hmem.2 ⟨hj ▸ ha, hl⟩), if_pos hj]
  · have hnot : a ∉ f.listed j := by
      intro hm
      exact hj (Option.some.inj ((hmem.1 hm).1.symm.trans ha))
    rw [if_neg hnot, if_neg hj]

theorem unlisted_of_home?_none {loose : List Allocation} (h : f.books.Kept loose)
    (ha : f.books.home? a = none) : f.Unlisted a := by
  intro j hm
  have := ((h.mem_listed a j).1 hm).1
  rw [ha] at this
  cases this

theorem ownership_of_kept (h : f.books.Kept (lost.map .table)) : f.Ownership lost where
  scope := by
    intro k x hx
    have hk : f.books.scopes k = some (x.depth, x.item.map (·.members)) := by simp [books, hx]
    obtain ⟨d, t, hv⟩ := h.scope k _ hk
    have hd : x.depth = some d := congrArg Prod.fst hv
    have hhome : f.books.home? (.scope k) = some d := by simp [Books.home?, hk, hd]
    have hloose : .scope k ∉ lost.map Allocation.table := by simp
    exact ⟨d, hd, h.home_le _ d hhome hloose, listedOnce_of_kept h hhome hloose⟩
  table := by
    intro t x hx hlost
    have ht : f.books.tables t = some x.depth := by simp [books, hx]
    have hloose : .table t ∉ lost.map Allocation.table := by simpa using hlost
    cases hd : x.depth with
    | some d =>
        rw [hd] at ht
        have hhome : f.books.home? (.table t) = some d := by simp [Books.home?, ht]
        refine .inl ⟨⟨d, hd, h.home_le _ d hhome hloose, listedOnce_of_kept h hhome hloose⟩,
          fun k hk => ?_⟩
        obtain ⟨v, hv⟩ := ownedBy_iff.1 hk
        have := (h.members k v t hv).1
        rw [ht] at this
        cases this
    | none =>
        rw [hd] at ht
        have hhome : f.books.home? (.table t) = none := by simp [Books.home?, ht]
        obtain ⟨k, v, hk⟩ := h.owner t ht hloose
        refine .inr ⟨unlisted_of_home?_none h hhome, k, ownedBy_iff.2 ⟨v, hk⟩, fun k' hk' => ?_⟩
        obtain ⟨v', hv'⟩ := ownedBy_iff.1 hk'
        exact h.sole k' k v' v t hv' hk
  lost := by
    intro t ht
    have hloose : .table t ∈ lost.map Allocation.table := List.mem_map.2 ⟨t, ht, rfl⟩
    refine ⟨?_, fun j hm => ((h.mem_listed _ j).1 hm).2 hloose, fun k hk => ?_⟩
    · have := h.live _ hloose
      simpa [Books.Live, books] using this
    · obtain ⟨v, hv⟩ := ownedBy_iff.1 hk
      exact (h.members k v t hv).2 hloose
  listed := by
    intro d a ha
    have hlive := Books.live_of_home? ((h.mem_listed a d).1 ha).1
    cases a <;> simpa [Books.Live, books, IsLive] using hlive
  members := by
    intro k s hs
    obtain ⟨v, hv⟩ := scopes_books_of_scope? hs
    have ht := (h.members k v s.members hv).1
    obtain ⟨x, hx, -⟩ := Option.map_eq_some_iff.1 ht
    simp [Pool.get?, hx]

/-- Each table has a depth or a scope exactly if none was lost. -/
theorem Ownership.lost_eq_nil_iff (h : f.Ownership lost) :
    (∀ t x, f.tables.entry? t = some x → f.OfDepth t x ∨ f.OfScope t) ↔ lost = [] := by
  constructor
  · intro hall
    refine List.eq_nil_iff_forall_not_mem.2 fun t ht => ?_
    obtain ⟨hlive, hun, hno⟩ := h.lost t ht
    obtain ⟨x, hx⟩ := Option.isSome_iff_exists.1 hlive
    rcases hall t x hx with ⟨⟨d, -, -, honce⟩, -⟩ | ⟨-, k, hk, -⟩
    · have hcount := honce d
      rw [if_pos rfl] at hcount
      exact hun d (List.count_pos_iff.1 (by omega))
    · exact hno k hk
  · intro hlost t x hx
    exact h.table t x hx (by simp [hlost])

end Frame

/-! ## The members of a scope are found -/

/-- An error that does not blame a stale table. -/
def EvalError.SparesTable (err : EvalError) : Prop := err.kind ≠ .staleHandle .memberTable

theorem Store.sparesTable_resolveWithin {st : Store} {s : Symbol} {hops : Nat}
    {d : DurableScope} {err : EvalError} (h : st.resolveWithin s hops d = .error err) :
    err.SparesTable := by
  have hmissing : EvalError.SparesTable (ErrorKind.noSuchMember s) := nofun
  induction hops generalizing d with
  | zero =>
      unfold resolveWithin at h
      split at h
      · cases h
      · split at h
        · split at h
          · cases h
          · cases h; exact hmissing
        · cases h; exact hmissing
  | succ hops ih =>
      unfold resolveWithin at h
      split at h
      · cases h
      · split at h
        · split at h
          · cases h
          · cases h; exact hmissing
        · split at h
          · split at h
            · cases h
            · next heq _ _ _ =>
                rw [Nat.succ.injEq] at heq
                exact ih (heq ▸ h)
          · cases h; exact hmissing

namespace Engine

/-- No operation on a pooled scope reports that its table is gone. -/
structure FindsMembers (e : Engine) : Prop where
  declare : ∀ k s a err, (e.declare (.pooled k) s a).1 = .raised err → err.SparesTable
  resolve : ∀ r s err, e.resolve r s = .error err → err.SparesTable
  symbols : ∀ k p err, e.symbols (.pooled k) p = .error err → err.SparesTable
  scopeTable : ∀ k err, e.scopeTable k = .error err → err.SparesTable
  escape : ∀ k err, e.escape (.pooled k) = .error err → err.SparesTable

variable {e : Engine}

theorem sparesTable_of_getScope {f : Frame} {k : PoolKey} {err : EvalError}
    (h : f.getScope k = .error err) : err.SparesTable := by
  simp only [Frame.getScope] at h
  split at h
  · cases h
  · cases h
    rintro ⟨⟩

section

variable (hm : ∀ k s, e.frame.scope? k = some s → (e.frame.tables.get? s.members).isSome)
include hm

theorem getTable_of_getScope {k : PoolKey} {own : PooledScope}
    (h : e.frame.getScope k = .ok own) : ∃ t, e.frame.getTable own.members = .ok t := by
  obtain ⟨t, ht⟩ := Option.isSome_iff_exists.1 (hm k own (scope?_of_getScope h))
  exact ⟨t, by simp [Frame.getTable, ht]⟩

theorem sparesTable_declare {k : PoolKey} {s : Symbol} {a : Attributes} {err : EvalError}
    (h : (e.declare (.pooled k) s a).1 = .raised err) : err.SparesTable := by
  unfold declare at h
  simp only at h
  split at h
  · next err' herr =>
      cases h
      exact sparesTable_of_getScope herr
  · next own hown =>
      obtain ⟨t, ht⟩ := getTable_of_getScope hm hown
      rw [ht] at h
      split at h
      · cases h
      · simp only at h
        split at h
        · cases h
        · split at h
          · cases h
            exact nofun
          · cases h

theorem sparesTable_resolveWithin {r : ScopeRef} {s : Symbol} {hops : Nat} {err : EvalError}
    (h : e.resolveWithin s hops r = .error err) : err.SparesTable := by
  induction hops generalizing r with
  | zero =>
      cases r with
      | durable d => exact Store.sparesTable_resolveWithin h
      | pooled k =>
          cases h
          exact nofun
  | succ hops ih =>
      cases r with
      | durable d => exact Store.sparesTable_resolveWithin h
      | pooled k =>
          simp only [resolveWithin] at h
          split at h
          · next err' herr =>
              cases h
              exact sparesTable_of_getScope herr
          · next own hown =>
              obtain ⟨t, ht⟩ := getTable_of_getScope hm hown
              simp only [ownIndex?, ht] at h
              split at h
              · next herr => split at herr <;> cases herr
              · cases h
              · split at h
                · cases h
                · exact ih h

theorem sparesTable_symbols {k : PoolKey} {p : Bool} {err : EvalError}
    (h : e.symbols (.pooled k) p = .error err) : err.SparesTable := by
  simp only [symbols] at h
  cases hown : e.frame.getScope k with
  | error err' =>
      rw [hown] at h
      cases h
      exact sparesTable_of_getScope hown
  | ok own =>
      obtain ⟨t, ht⟩ := getTable_of_getScope hm hown
      rw [hown] at h
      simp only [bind, Except.bind, ht] at h
      cases h

theorem sparesTable_scopeTable {k : PoolKey} {err : EvalError}
    (h : e.scopeTable k = .error err) : err.SparesTable := by
  simp only [scopeTable] at h
  cases hown : e.frame.getScope k with
  | error err' =>
      rw [hown] at h
      cases h
      exact sparesTable_of_getScope hown
  | ok own =>
      obtain ⟨t, ht⟩ := getTable_of_getScope hm hown
      rw [hown] at h
      simp only [bind, Except.bind, ht] at h
      cases h

end

/-- The scopes on the way outward are live. -/
theorem pending_live {memo : EscapeMemo} {hops : Nat} {k : PoolKey}
    {links : List (PoolKey × PooledScope)} {base : DurableScope}
    (h : e.pending memo hops k = .ok (links, base)) :
    ∀ l ∈ links, e.frame.getScope l.1 = .ok l.2 := by
  induction hops generalizing k links base with
  | zero => cases h
  | succ hops ih =>
      simp only [pending] at h
      split at h
      · cases h
        exact nofun
      · split at h
        · cases h
        · next own hown =>
            split at h
            · cases h
              intro l hl
              rw [List.mem_singleton.1 hl]
              exact hown
            · split at h
              · cases h
              · next links' base' hrest =>
                  cases h
                  intro l hl
                  rcases List.mem_cons.1 hl with rfl | hl
                  · exact hown
                  · exact ih hrest l hl

theorem sparesTable_pending {memo : EscapeMemo} {hops : Nat} {k : PoolKey} {err : EvalError}
    (h : e.pending memo hops k = .error err) : err.SparesTable := by
  induction hops generalizing k with
  | zero =>
      cases h
      exact nofun
  | succ hops ih =>
      simp only [pending] at h
      split at h
      · cases h
      · split at h
        · next herr =>
            cases h
            exact sparesTable_of_getScope herr
        · split at h
          · cases h
          · split at h
            · next herr =>
                cases h
                exact ih herr
            · cases h

section

variable (hm : ∀ k s, e.frame.scope? k = some s → (e.frame.tables.get? s.members).isSome)
include hm

/-- Freezing live scopes does not fail. -/
theorem freezeAll_ok {links : List (PoolKey × PooledScope)} (base : DurableScope)
    (memo : EscapeMemo) (hlive : ∀ l ∈ links, e.frame.getScope l.1 = .ok l.2) :
    ∃ d, (e.freezeAll links base memo).1 = .ok d := by
  induction links generalizing base memo with
  | nil => exact ⟨base, rfl⟩
  | cons l links ih =>
      obtain ⟨k, own⟩ := l
      obtain ⟨t, ht⟩ := getTable_of_getScope hm (hlive (k, own) List.mem_cons_self)
      simp only [freezeAll, freeze, ht]
      exact ih _ _ fun l hl => hlive l (List.mem_cons_of_mem _ hl)

theorem sparesTable_escape {k : PoolKey} {err : EvalError}
    (h : e.escape (.pooled k) = .error err) : err.SparesTable := by
  simp only [escape, freezeChain] at h
  split at h
  · next err' herr =>
      cases h
      exact sparesTable_pending herr
  · next links base hlinks =>
      have hlive := pending_live hlinks
      have hrev : ∀ l ∈ links.reverse, e.frame.getScope l.1 = .ok l.2 := fun l hl =>
        hlive l (List.mem_reverse.1 hl)
      obtain ⟨d, hd⟩ := freezeAll_ok hm base ∅ hrev
      rw [hd] at h
      cases h

theorem findsMembers_of_members : e.FindsMembers where
  declare := fun _ _ _ _ h => sparesTable_declare hm h
  resolve := fun _ _ _ h => sparesTable_resolveWithin hm h
  symbols := fun _ _ _ h => sparesTable_symbols hm h
  scopeTable := fun _ _ h => sparesTable_scopeTable hm h
  escape := fun _ _ h => sparesTable_escape hm h

end

end Engine

/-! ## Every run -/

namespace Machine

/-- The owners of everything live, after any run from a new frame. Only a table
that was lost for want of room has none, so each table has one exactly if the
run leaked nothing. -/
theorem ownership_of_run {store : Store} {config : FrameConfig} {global : GlobalId}
    {flag : FlagId} {os : List Op} (hos : Lawful 0 (start store config global flag) os) :
    let m := (start store config global flag).run os
    let f := m.engine.frame
    f.Ownership m.lost ∧ m.engine.FindsMembers ∧
      ((∀ t x, f.tables.entry? t = some x → f.OfDepth t x ∨ f.OfScope t) ↔
        (start store config global flag).leaks os = []) := by
  intro m f
  have howned : m.Owned := (owned_start store config global flag).run (tracked_start ..) hos
  have hown : f.Ownership m.lost := Frame.ownership_of_kept howned.kept
  refine ⟨hown, Engine.findsMembers_of_members hown.members, hown.lost_eq_nil_iff.trans ?_⟩
  have hlost : m.lost = (start store config global flag).leaks os ++ [] := lost_run os _
  rw [hlost, List.append_nil]

/-- A table of the host is moved into a scope one depth down, which a block
encloses and which is freed before its depth ends. -/
theorem ownership_of_nested_run :
    let m := start {} {} 0 0
    let os : List Op :=
      [.allocateTable 2, .enter { id := 0 } (.ofGlobal 0),
        .allocateFunction ⟨0, none, none⟩ (.ofGlobal 0) 0 ⟨⟨0, 0⟩, 0⟩,
        .allocateBlock (.pooled ⟨0, 0⟩) 0, .freeScope (.pooled ⟨0, 0⟩), .leave]
    Lawful 0 m os ∧ (m.run os).engine.frame.Ownership (m.run os).lost := by
  intro m os
  have hos : Lawful 0 m os := by decide +kernel
  exact ⟨hos, (ownership_of_run hos).1⟩

/-- A host that asks for a table of 2^60 slots is left with a table that has no
owner. -/
theorem no_owner_without_room :
    ¬ ∀ os, Lawful 0 (start {} {} 0 0) os →
      let f := ((start {} {} 0 0).run os).engine.frame
      ∀ t x, f.tables.entry? t = some x → f.OfDepth t x ∨ f.OfScope t := by
  intro hall
  have hos : Lawful 0 (start {} {} 0 0) [.allocateTable 1152921504606846976] := by
    decide +kernel
  have howned := (owned_start {} {} 0 0).run (tracked_start ..) hos
  have hlost := (Frame.ownership_of_kept howned.kept).lost_eq_nil_iff.1 (hall _ hos)
  have hone : ((start {} {} 0 0).run [.allocateTable 1152921504606846976]).lost = [⟨0, 0⟩] := by
    decide +kernel
  rw [hone] at hlost
  cases hlost

end Machine

end ScriptCore

import ScriptCore.Proofs.Lineage
import ScriptCore.Proofs.Listing
import ScriptCore.Proofs.Ownership
import Mathlib.Data.List.Perm.Subperm

/-!
# Escaping preserves meaning

A scope and its escape are read by two walks. One goes from key to key through
the frame, with a bound on its steps; the other goes along a list of copies and
then on from where the frozen part ends. `Chain` is what they have in common:
the live scopes from a reference outward and the durable scope below them. The
keys of a chain are distinct, since a chain is determined by where it begins,
so the bounds of the walks are never met.

The escape is the chain with each link replaced by its copy. A copy finds a
member where the scope finds it, in the same slot or through the same mixin,
so the two walks stop at the same link with the same value, or both go on to
the durable part, which they share.
-/

namespace ScriptCore

/-! ## Chains -/

namespace Engine

variable {e : Engine} {r : ScopeRef} {k : PoolKey} {own : PooledScope}
  {links : List (PoolKey × PooledScope)} {base : DurableScope} {s : Symbol}

/-- The live scopes from a reference outward, innermost first, and the durable
scope that encloses them. -/
inductive Chain (e : Engine) : ScopeRef → List (PoolKey × PooledScope) → DurableScope → Prop
  | durable (d : DurableScope) : Chain e (.durable d) [] d
  | pooled {k : PoolKey} {own : PooledScope} {links : List (PoolKey × PooledScope)}
      {base : DurableScope} (hown : e.frame.scope? k = some own)
      (hlinks : Chain e own.previous links base) : Chain e (.pooled k) ((k, own) :: links) base

/-- A durable scope is reached from here through live scopes. -/
def Anchored (e : Engine) (r : ScopeRef) : Prop := ∃ links base, e.Chain r links base

/-- The scope is on the way outward, as far as the scopes before it are live. -/
inductive OnChain (e : Engine) : ScopeRef → PoolKey → Prop
  | here (k : PoolKey) : OnChain e (.pooled k) k
  | outward {k j : PoolKey} {own : PooledScope} (hown : e.frame.scope? k = some own)
      (hj : OnChain e own.previous j) : OnChain e (.pooled k) j

theorem Chain.eq {links' : List (PoolKey × PooledScope)} {base' : DurableScope}
    (h : e.Chain r links base) (h' : e.Chain r links' base') : links' = links ∧ base' = base := by
  induction h generalizing links' base' with
  | durable d =>
      cases h'
      exact ⟨rfl, rfl⟩
  | pooled hown hlinks ih =>
      cases h' with
      | pooled hown' hlinks' =>
          rw [hown] at hown'
          cases hown'
          obtain ⟨rfl, rfl⟩ := ih hlinks'
          exact ⟨rfl, rfl⟩

theorem Chain.live (h : e.Chain r links base) : ∀ l ∈ links, e.frame.scope? l.1 = some l.2 := by
  induction h with
  | durable d => exact nofun
  | pooled hown hlinks ih =>
      intro l hl
      rcases List.mem_cons.1 hl with rfl | hl
      · exact hown
      · exact ih l hl

/-- From each link on a chain is a chain, and not a longer one. -/
theorem Chain.from_link (h : e.Chain r links base) {l : PoolKey × PooledScope} (hl : l ∈ links) :
    ∃ tail, e.Chain (.pooled l.1) tail base ∧ tail.length ≤ links.length := by
  induction h with
  | durable d => cases hl
  | pooled hown hlinks ih =>
      rcases List.mem_cons.1 hl with rfl | hl
      · exact ⟨_, .pooled hown hlinks, Nat.le_refl _⟩
      · obtain ⟨tail, htail, hle⟩ := ih hl
        exact ⟨tail, htail, Nat.le_succ_of_le hle⟩

theorem Chain.nodup (h : e.Chain r links base) : (links.map (·.1)).Nodup := by
  induction h with
  | durable d => exact List.nodup_nil
  | @pooled k own links base hown hlinks ih =>
      refine List.nodup_cons.2 ⟨fun hmem => ?_, ih⟩
      obtain ⟨l, hl, hk⟩ := List.mem_map.1 hmem
      obtain ⟨tail, htail, hle⟩ := hlinks.from_link hl
      rw [hk] at htail
      obtain ⟨rfl, -⟩ := Chain.eq (.pooled hown hlinks) htail
      rw [List.length_cons] at hle
      omega

/-- Distinct live scopes are no more than the pool has entries. -/
theorem length_le_of_live {ks : List PoolKey} (hnodup : ks.Nodup)
    (hlive : ∀ k ∈ ks, (e.frame.scope? k).isSome) : ks.length ≤ e.frame.scopes.entries.size := by
  have hentry : ∀ k ∈ ks, ∃ x, e.frame.scopes.entry? k = some x := by
    intro k hk
    obtain ⟨own, hown⟩ := Option.isSome_iff_exists.1 (hlive k hk)
    obtain ⟨item, hitem, -⟩ := Option.bind_eq_some_iff.1 hown
    obtain ⟨x, hx, -⟩ := Pool.get?_eq_some.1 hitem
    exact ⟨x, hx⟩
  have hindices : (ks.map PoolKey.index).Nodup := by
    rw [List.nodup_map_iff_inj_on hnodup]
    intro k hk j hj hindex
    obtain ⟨x, hx⟩ := hentry k hk
    obtain ⟨y, hy⟩ := hentry j hj
    exact Pool.eq_of_live_of_index hy hx hindex
  have hsub : ks.map PoolKey.index ⊆ List.range e.frame.scopes.entries.size := by
    intro i hi
    obtain ⟨k, hk, rfl⟩ := List.mem_map.1 hi
    obtain ⟨x, hx⟩ := hentry k hk
    obtain ⟨hget, -, -⟩ := Pool.entry?_eq_some.1 hx
    exact List.mem_range.2 (Array.getElem?_eq_some_iff.1 hget).1
  have := (List.subperm_of_subset hindices hsub).length_le
  rwa [List.length_map, List.length_range] at this

/-- A chain has no more links than the pool has entries. -/
theorem Chain.length_le (h : e.Chain r links base) :
    links.length ≤ e.frame.scopes.entries.size := by
  rw [← List.length_map (f := (·.1))]
  refine length_le_of_live h.nodup fun k hk => ?_
  obtain ⟨l, hl, rfl⟩ := List.mem_map.1 hk
  rw [h.live l hl]
  rfl

/-! ## The walk that collects a chain -/

theorem getScope_of_scope? {f : Frame} (h : f.scope? k = some own) : f.getScope k = .ok own := by
  rw [Frame.getScope, h]

theorem Chain.of_pending {hops : Nat} (h : e.pending ∅ hops k = .ok (links, base)) :
    e.Chain (.pooled k) links base := by
  induction hops generalizing k links base with
  | zero => cases h
  | succ hops ih =>
      simp only [pending, Std.HashMap.getElem?_empty] at h
      split at h
      · cases h
      · next own hown =>
          have hown := scope?_of_getScope hown
          split at h
          · next d hprev =>
              cases h
              exact .pooled hown (hprev ▸ .durable _)
          · next j hprev =>
              split at h
              · cases h
              · next links' base' hrest =>
                  cases h
                  exact .pooled hown (hprev ▸ ih hrest)

theorem Chain.pending (h : e.Chain (.pooled k) links base) {hops : Nat}
    (hle : links.length ≤ hops) : e.pending ∅ hops k = .ok (links, base) := by
  induction hops generalizing k links with
  | zero =>
      cases h with
      | pooled hown hlinks => exact absurd hle (by simp)
  | succ hops ih =>
      cases h with
      | @pooled _ own links _ hown hlinks =>
          simp only [Engine.pending, Std.HashMap.getElem?_empty, getScope_of_scope? hown]
          have hle : links.length ≤ hops := Nat.le_of_succ_le_succ hle
          split
          · next d hprev =>
              rw [hprev] at hlinks
              cases hlinks
              rfl
          · next j hprev =>
              rw [hprev] at hlinks
              rw [ih hlinks hle]

theorem pending_error {hops : Nat} {err : EvalError} (h : e.pending ∅ hops k = .error err) :
    err = ErrorKind.staleHandle .scope := by
  induction hops generalizing k with
  | zero =>
      cases h
      rfl
  | succ hops ih =>
      simp only [pending, Std.HashMap.getElem?_empty, Frame.getScope] at h
      split at h
      · next err' hget =>
          split at hget
          · cases hget
          · cases hget
            cases h
            rfl
      · split at h
        · cases h
        · split at h
          · next hrest =>
              cases h
              exact ih hrest
          · cases h

/-! ## Copies -/

/-- The frozen copy of a pooled scope. -/
def copy (e : Engine) (own : PooledScope) : FrozenScope where
  kind := own.kind
  shape := own.shape
  members := ((e.frame.tables.get? own.members).getD default).freeze
  mixins := own.mixins

/-- The durable scope that stands for a chain. -/
def frozenChain (e : Engine) (links : List (PoolKey × PooledScope)) (base : DurableScope) :
    DurableScope :=
  { base with frozen := links.map (fun l => e.copy l.2) ++ base.frozen }

/-- A pooled scope lists its own symbols first, then those of its mixins. -/
theorem symbols_pooled {t : MemberTable} (hown : e.frame.scope? k = some own)
    (ht : e.frame.getTable own.members = .ok t) (p : Bool) :
    e.symbols (.pooled k) p = .ok (e.store.declaredSymbols own.shape t.slots p ++
      own.mixins.flatMap (e.store.sourceSymbols p)) := by
  simp only [symbols, getScope_of_scope? hown, bind, Except.bind, ht]
  rfl

section

variable (hm : ∀ k own, e.frame.scope? k = some own → (e.frame.tables.get? own.members).isSome)
include hm

theorem getTable_of_scope? (h : e.frame.scope? k = some own) :
    ∃ t, e.frame.getTable own.members = .ok t ∧ (e.copy own).members.slots = t.slots := by
  obtain ⟨t, ht⟩ := Option.isSome_iff_exists.1 (hm k own h)
  refine ⟨t, by rw [Frame.getTable, ht], ?_⟩
  rw [copy, ht]
  rfl

theorem freeze_eq (h : e.frame.scope? k = some own) (base : DurableScope) :
    e.freeze own base = .ok (base.push (e.copy own)) := by
  obtain ⟨t, ht⟩ := Option.isSome_iff_exists.1 (hm k own h)
  simp only [freeze, Frame.getTable, ht, copy, Option.getD_some]

theorem freezeAll_eq (hlive : ∀ l ∈ links, e.frame.scope? l.1 = some l.2) (base : DurableScope)
    (memo : EscapeMemo) :
    (e.freezeAll links base memo).1 = .ok (e.frozenChain links.reverse base) := by
  induction links generalizing base memo with
  | nil => rfl
  | cons l links ih =>
      obtain ⟨k, own⟩ := l
      rw [freezeAll, freeze_eq hm (hlive (k, own) List.mem_cons_self)]
      simp only
      rw [ih fun l hl => hlive l (List.mem_cons_of_mem _ hl)]
      simp [frozenChain, DurableScope.push]

theorem Chain.escape (h : e.Chain r links base) : e.escape r = .ok (e.frozenChain links base) := by
  cases h with
  | durable d => rfl
  | @pooled k own links base hown hlinks =>
      have hchain : e.Chain (.pooled k) ((k, own) :: links) base := .pooled hown hlinks
      have hpending := hchain.pending (Nat.le_succ_of_le hchain.length_le)
      have hlive : ∀ l ∈ ((k, own) :: links).reverse, e.frame.scope? l.1 = some l.2 :=
        fun l hl => hchain.live l (List.mem_reverse.1 hl)
      simp only [Engine.escape, freezeChain, hpending]
      rw [freezeAll_eq hm hlive, List.reverse_reverse]

/-- A scope escapes exactly if its chain ends, and to the copies of that chain. -/
theorem escape_eq_ok {d : DurableScope} :
    e.escape r = .ok d ↔ ∃ links base, e.Chain r links base ∧ d = e.frozenChain links base := by
  constructor
  · intro h
    cases r with
    | durable d' =>
        cases h
        exact ⟨[], d, .durable d, rfl⟩
    | pooled k =>
        have hcopy := h
        simp only [Engine.escape, freezeChain] at hcopy
        split at hcopy
        · cases hcopy
        · next links base hpending =>
            have hchain := Chain.of_pending hpending
            rw [hchain.escape hm] at h
            cases h
            exact ⟨links, base, hchain, rfl⟩
  · rintro ⟨links, base, hchain, rfl⟩
    exact hchain.escape hm

omit hm in
theorem escape_error_of_not_anchored (h : ¬ e.Anchored r) :
    e.escape r = .error (ErrorKind.staleHandle .scope) := by
  cases r with
  | durable d => exact absurd ⟨[], d, .durable d⟩ h
  | pooled k =>
      simp only [Engine.escape, freezeChain]
      split
      · next err herr => rw [pending_error herr]
      · next links base hpending => exact absurd ⟨links, base, .of_pending hpending⟩ h

end

/-! ## What the two walks find -/

/-- The value a symbol has in a scope. -/
def read (e : Engine) (r : ScopeRef) (s : Symbol) : Except EvalError Value :=
  (e.resolve r s).bind e.load

theorem load_of_not_pooled {slot : SlotRef} (h : slot.isPooled = false) :
    e.load slot = .ok (e.store.load slot) := by
  cases slot with
  | pooled t i x => cases h
  | _ => rfl

theorem ownIndex?_eq {t : MemberTable} (ht : e.frame.getTable own.members = .ok t) :
    e.ownIndex? own s = .ok (e.store.ownIndex? own.shape t.slots s) := by
  unfold ownIndex? Store.ownIndex?
  cases e.store.slotOf? own.shape s with
  | none => rfl
  | some i =>
      simp only [ht, Option.filter_some]
      rfl

end Engine

namespace Store

variable {st : Store} {d : DurableScope} {s : Symbol} {f : FrozenScope}

/-- The value a symbol has in a durable scope. -/
def read (st : Store) (d : DurableScope) (s : Symbol) : Except EvalError Value :=
  (st.resolve d s).map st.load

theorem resolveWithin_push {hops : Nat} :
    st.resolveWithin s hops (d.push f) =
      match st.findFrozen? s f with
      | some slot => .ok slot
      | none => st.resolveWithin s hops d := by
  cases hf : st.findFrozen? s f with
  | some slot =>
      unfold resolveWithin
      simp only [DurableScope.push, List.findSome?_cons, hf]
  | none =>
      simp only
      cases hops <;>
      · unfold resolveWithin
        simp only [DurableScope.push, List.findSome?_cons, hf]

theorem escalateWithin_push {pick : ScopeKind → Option Value} {missing : ErrorKind} {hops : Nat} :
    st.escalateWithin pick missing hops (d.push f) =
      match pick f.kind with
      | some v => .ok v
      | none => st.escalateWithin pick missing hops d := by
  cases hf : pick f.kind with
  | some v =>
      unfold escalateWithin
      simp only [DurableScope.push, List.findSome?_cons, hf]
  | none =>
      simp only
      cases hops <;>
      · unfold escalateWithin
        simp only [DurableScope.push, List.findSome?_cons, hf]

theorem resolveWithin_error {hops : Nat} {err : EvalError}
    (h : st.resolveWithin s hops d = .error err) : err = ErrorKind.noSuchMember s := by
  induction hops generalizing d with
  | zero =>
      unfold resolveWithin at h
      split at h
      · cases h
      · split at h
        · split at h <;> cases h
          rfl
        · cases h
          rfl
  | succ hops ih =>
      unfold resolveWithin at h
      split at h
      · cases h
      · split at h
        · split at h <;> cases h
          rfl
        · split at h
          · split at h
            · cases h
            · next heq _ _ _ =>
                rw [Nat.succ.injEq] at heq
                exact ih (heq ▸ h)
          · cases h
            rfl

theorem read_error {err : EvalError} (h : st.read d s = .error err) :
    err = ErrorKind.noSuchMember s := by
  unfold read resolve at h
  cases hr : st.resolveWithin s st.heaps.size d with
  | ok slot =>
      rw [hr] at h
      cases h
  | error err' =>
      rw [hr] at h
      cases h
      exact resolveWithin_error hr

end Store

namespace Engine

variable {e : Engine} {r : ScopeRef} {k : PoolKey} {own : PooledScope}
  {links : List (PoolKey × PooledScope)} {base : DurableScope} {s : Symbol}

theorem frozenChain_cons :
    e.frozenChain ((k, own) :: links) base = (e.frozenChain links base).push (e.copy own) := rfl

section

variable (hm : ∀ k own, e.frame.scope? k = some own → (e.frame.tables.get? own.members).isSome)
include hm

/-- A symbol means the same in a chain and in its copy. -/
theorem Chain.read_within (h : e.Chain r links base) {hops : Nat} (hle : links.length ≤ hops) :
    (e.resolveWithin s hops r).bind e.load = e.store.read (e.frozenChain links base) s := by
  induction h generalizing hops with
  | durable d =>
      have hdurable : e.resolveWithin s hops (.durable d) = e.store.resolve d s := by
        cases hops <;> rfl
      rw [hdurable]
      show _ = (e.store.resolve d s).map e.store.load
      cases hr : e.store.resolve d s with
      | error err => rfl
      | ok slot => exact load_of_not_pooled (Store.isPooled_of_resolveWithin hr)
  | @pooled k own links base hown hlinks ih =>
      obtain ⟨n, rfl⟩ : ∃ n, hops = n + 1 := ⟨hops - 1, by rw [List.length_cons] at hle; omega⟩
      obtain ⟨t, ht, hslots⟩ := getTable_of_scope? hm hown
      have hrest := ih (Nat.le_of_succ_le_succ hle)
      have hshape : (e.copy own).shape = own.shape := rfl
      rw [frozenChain_cons]
      simp only [resolveWithin, getScope_of_scope? hown, ownIndex?_eq ht, Store.read,
        Store.resolve, Store.resolveWithin_push, Store.findFrozen?, hslots, hshape]
      cases e.store.ownIndex? own.shape t.slots s with
      | some i =>
          show e.load (.pooled own.members i s) = .ok (e.store.load (.frozen (e.copy own) i s))
          simp only [load, ht, Store.load, MemberTable.get?, FrozenMembers.get?, hslots]
      | none =>
          have hmixins : (e.copy own).mixins = own.mixins := rfl
          rw [hmixins]
          cases e.store.findMixin? own.mixins s with
          | some source => rfl
          | none => exact hrest

omit hm in
theorem Chain.escalate_within (h : e.Chain r links base) (pick : ScopeKind → Option Value)
    (missing : ErrorKind) {hops : Nat} (hle : links.length ≤ hops) :
    e.escalateWithin pick missing hops r =
      e.store.escalate pick missing (e.frozenChain links base) := by
  induction h generalizing hops with
  | durable d => cases hops <;> rfl
  | @pooled k own links base hown hlinks ih =>
      obtain ⟨n, rfl⟩ : ∃ n, hops = n + 1 := ⟨hops - 1, by rw [List.length_cons] at hle; omega⟩
      have hrest := ih (Nat.le_of_succ_le_succ hle)
      rw [frozenChain_cons]
      simp only [escalateWithin, getScope_of_scope? hown, Store.escalate,
        Store.escalateWithin_push]
      have hkind : (e.copy own).kind = own.kind := rfl
      rw [hkind]
      cases pick own.kind with
      | some v => rfl
      | none => exact hrest

/-- The listing of a scope has an end: nothing mixed into it is mixed into
itself. -/
def ListingEnds (e : Engine) (r : ScopeRef) : Prop :=
  ∀ k own, r = .pooled k → e.frame.scope? k = some own →
    ∀ id ∈ own.mixins, Acc e.store.Feeds id

theorem Chain.symbols (h : e.Chain r links base) (hend : e.ListingEnds r) (p : Bool) :
    e.symbols r p = .ok (e.store.symbols (e.frozenChain links base) p) := by
  cases h with
  | durable d => rfl
  | @pooled k own links base hown hlinks =>
      obtain ⟨t, ht, hslots⟩ := getTable_of_scope? hm hown
      have hlisting : e.store.ownListing p (e.frozenChain ((k, own) :: links) base) =
          (e.store.declaredSymbols own.shape t.slots p, own.mixins) := by
        rw [← hslots]
        rfl
      have hmixins : e.store.mixinsOf (e.frozenChain ((k, own) :: links) base) = own.mixins := rfl
      have hsymbols := e.store.symbols_eq (p := p) (e.frozenChain ((k, own) :: links) base)
        (hmixins ▸ hend k own rfl hown)
      rw [hsymbols, hlisting, hmixins, symbols_pooled hown ht]

end

/-- A scope and a durable one cannot be told apart by reading. -/
structure SameMeaning (e : Engine) (r : ScopeRef) (d : DurableScope) : Prop where
  read : ∀ s, (∃ v, e.read r s = .ok v ∧ e.store.read d s = .ok v) ∨
    e.read r s = .error (ErrorKind.noSuchMember s) ∧
      e.store.read d s = .error (ErrorKind.noSuchMember s)
  this : e.this r = e.store.escalate ScopeKind.this? .noThis d
  super : e.super r = e.store.escalate (ScopeKind.super? e.store.functions) .noSuper d
  callee : e.callee r = e.store.escalate ScopeKind.callee? .noCallee d
  symbols : e.ListingEnds r → ∀ p, e.symbols r p = .ok (e.store.symbols d p)

theorem Chain.sameMeaning (h : e.Chain r links base)
    (hm : ∀ k own, e.frame.scope? k = some own → (e.frame.tables.get? own.members).isSome) :
    e.SameMeaning r (e.frozenChain links base) where
  read := by
    intro s
    have hread : e.read r s = e.store.read (e.frozenChain links base) s :=
      h.read_within hm h.length_le
    cases hs : e.store.read (e.frozenChain links base) s with
    | ok v => exact .inl ⟨v, hread.trans hs, rfl⟩
    | error err =>
        have herr := Store.read_error hs
        subst herr
        exact .inr ⟨hread.trans hs, rfl⟩
  this := h.escalate_within _ _ h.length_le
  super := h.escalate_within _ _ h.length_le
  callee := h.escalate_within _ _ h.length_le
  symbols := fun hend p => h.symbols hm hend p

end Engine

/-! ## Every run -/

namespace Machine

variable {m : Machine} {issued : List PoolKey} {r : ScopeRef}

/-- Where each scope is enclosed by an older one, a chain ends as soon as all of
it is live. -/
theorem Lineage.anchored_iff (h : m.Lineage issued) :
    m.engine.Anchored r ↔ ∀ k, m.engine.OnChain r k → (m.engine.frame.scope? k).isSome := by
  constructor
  · rintro ⟨links, base, hchain⟩ k hk
    induction hk generalizing links with
    | here k =>
        cases hchain with
        | pooled hown hlinks => simp [hown]
    | outward hown _ ih =>
        cases hchain with
        | pooled hown' hlinks =>
            rw [hown] at hown'
            cases hown'
            exact ih _ hlinks
  · -- on the number of scopes that are older
    suffices hstep : ∀ n k, issued.length - issued.idxOf k = n →
        (∀ j, m.engine.OnChain (.pooled k) j → (m.engine.frame.scope? j).isSome) →
        m.engine.Anchored (.pooled k) by
      intro hlive
      cases r with
      | durable d => exact ⟨[], d, .durable d⟩
      | pooled k => exact hstep _ k rfl hlive
    intro n
    induction n using Nat.strong_induction_on with
    | _ n ih =>
        intro k hn hlive
        obtain ⟨own, hown⟩ := Option.isSome_iff_exists.1 (hlive k (.here k))
        cases hprev : own.previous with
        | durable d => exact ⟨_, d, .pooled hown (hprev ▸ Engine.Chain.durable d)⟩
        | pooled j =>
            obtain ⟨hj, hlt⟩ := h.older k own j hown hprev
            have hsize := List.idxOf_lt_length_of_mem hj
            obtain ⟨links, base, hchain⟩ := ih _ (by omega) j rfl fun i hi =>
              hlive i (.outward hown (hprev ▸ hi))
            exact ⟨_, base, .pooled hown (hprev ▸ hchain)⟩

/-- In every run a scope escapes exactly if its chain leads through live scopes
to a durable one, and to something that means the same in that state; if not,
the error is that of a stale scope. Where no scope was named before it was given
out and no generation has wrapped around, a chain of live scopes always leads to
a durable one. -/
theorem escape_preserves_meaning {store : Store} {config : FrameConfig} {global : GlobalId}
    {flag : FlagId} {os : List Op} (hos : Lawful 0 (start store config global flag) os)
    (r : ScopeRef) :
    let m := (start store config global flag).run os
    let e := m.engine
    ((∃ d, e.escape r = .ok d) ↔ e.Anchored r) ∧
      (¬ e.Anchored r → e.escape r = .error (ErrorKind.staleHandle .scope)) ∧
      ((start store config global flag).Rooted [] os → m.Unwrapped →
        (e.Anchored r ↔ ∀ k, e.OnChain r k → (e.frame.scope? k).isSome)) ∧
      ∀ d, e.escape r = .ok d → e.SameMeaning r d := by
  intro m e
  have hm : (start store config global flag).Tracked := tracked_start ..
  have howned : m.Owned := (owned_start store config global flag).run hm hos
  have hmembers := (Frame.ownership_of_kept howned.kept).members
  refine ⟨⟨?_, ?_⟩, Engine.escape_error_of_not_anchored, ?_, ?_⟩
  · rintro ⟨d, hd⟩
    obtain ⟨links, base, hchain, -⟩ := (Engine.escape_eq_ok hmembers).1 hd
    exact ⟨links, base, hchain⟩
  · rintro ⟨links, base, hchain⟩
    exact ⟨_, hchain.escape hmembers⟩
  · intro hrooted hunwrapped
    exact ((lineage_start store config global flag).run hm hrooted hunwrapped).anchored_iff
  · intro d hd
    obtain ⟨links, base, hchain, rfl⟩ := (Engine.escape_eq_ok hmembers).1 hd
    exact hchain.sameMeaning hmembers

/-- A block escapes together with the block around it, and is cut off once that
one is freed. -/
theorem escape_of_nested_block :
    let m := start { shapes := #[.empty], globals := #[{}] } {} 0 0
    let os : List Op :=
      [.allocateBlock (.ofGlobal 0) 0, .declare (.pooled ⟨0, 0⟩) ⟨500, by decide⟩ .exposed,
        .allocateBlock (.pooled ⟨0, 0⟩) 0]
    let cut := os ++ [.freeScope (.pooled ⟨0, 0⟩)]
    Lawful 0 m os ∧ m.Rooted [] os ∧ (m.run os).Unwrapped ∧
      (∃ d, (m.run os).engine.escape (.pooled ⟨1, 0⟩) = .ok d ∧
        (m.run os).engine.SameMeaning (.pooled ⟨1, 0⟩) d) ∧
      Lawful 0 m cut ∧
      (m.run cut).engine.escape (.pooled ⟨1, 0⟩) = .error (ErrorKind.staleHandle .scope) := by
  intro m os cut
  have hos : Lawful 0 m os := by decide +kernel
  have hcut : Lawful 0 m cut := by decide +kernel
  have hrooted : m.Rooted [] os := by decide +kernel
  have hunwrapped : (m.run os).Unwrapped := by
    intro i
    have hle := scopeReleases_run_le os m i
    have hfew : m.scopeReleases i + os.length = 3 := rfl
    omega
  have hinner : ((m.run os).engine.frame.scope? ⟨1, 0⟩).map (·.previous.key?) =
      some (some ⟨0, 0⟩) := by
    decide +kernel
  have houter : ((m.run os).engine.frame.scope? ⟨0, 0⟩).map (·.previous.key?) = some none := by
    decide +kernel
  have hlive : ∀ k, (m.run os).engine.OnChain (.pooled ⟨1, 0⟩) k →
      ((m.run os).engine.frame.scope? k).isSome := by
    intro k hk
    cases hk with
    | here => simpa using congrArg Option.isSome hinner
    | outward hown hk =>
        rw [hown, Option.map_some, Option.some.injEq, ScopeRef.key?_eq_some] at hinner
        rw [hinner] at hk
        cases hk with
        | here => simpa using congrArg Option.isSome houter
        | outward hown hk =>
            rw [hown, Option.map_some, Option.some.injEq, ScopeRef.key?_eq_none] at houter
            obtain ⟨d, hd⟩ := houter
            rw [hd] at hk
            cases hk
  have hcutoff : ¬ (m.run cut).engine.Anchored (.pooled ⟨1, 0⟩) := by
    have hinner' : ((m.run cut).engine.frame.scope? ⟨1, 0⟩).map (·.previous.key?) =
        some (some ⟨0, 0⟩) := by
      decide +kernel
    have hgone : ((m.run cut).engine.frame.scope? ⟨0, 0⟩).isNone := by decide +kernel
    rintro ⟨links, base, hchain⟩
    cases hchain with
    | pooled hown hlinks =>
        rw [hown, Option.map_some, Option.some.injEq, ScopeRef.key?_eq_some] at hinner'
        rw [hinner'] at hlinks
        cases hlinks with
        | pooled hown _ =>
            rw [hown] at hgone
            cases hgone
  obtain ⟨hiff, -, hanchored, hmeaning⟩ := escape_preserves_meaning hos (.pooled ⟨1, 0⟩)
  obtain ⟨d, hd⟩ := hiff.2 ((hanchored hrooted hunwrapped).2 hlive)
  exact ⟨hos, hrooted, hunwrapped, ⟨d, hd, hmeaning d hd⟩, hcut,
    (escape_preserves_meaning hcut (.pooled ⟨1, 0⟩)).2.1 hcutoff⟩

end Machine

end ScriptCore

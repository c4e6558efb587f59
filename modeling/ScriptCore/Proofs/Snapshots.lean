import ScriptCore.Proofs.Memo
import ScriptCore.Proofs.OwnMembers

/-!
# Snapshots are stable

A snapshot has its members for itself and shares its shape with whoever goes on
running. It finds a member through the shape, so what others do to the shape
could show in it. It does not as long as the snapshot has no slot that the
shape had not given to a symbol by then: the symbols that come later get
numbers behind all of these. Only the arguments of a call can be more than the
symbols of their shape, so it takes a function scope to find otherwise.

That a snapshot cannot be changed is a matter of its kind, and needs no run.
-/

namespace ScriptCore

/-- Whatever was declared in the snapshot when the engine was `e` is declared in
`e'`, and nothing else; and there it refuses to be changed. -/
structure FrozenScope.Stays (f : FrozenScope) (e e' : Engine) : Prop where
  index : ∀ s, e'.store.ownIndex? f.shape f.members.slots s =
    e.store.ownIndex? f.shape f.members.slots s
  own : ∀ s, e'.store.own? f.shape f.members.slots s = e.store.own? f.shape f.members.slots s
  symbols : ∀ p, e'.store.declaredSymbols f.shape f.members.slots p =
    e.store.declaredSymbols f.shape f.members.slots p
  declare : ∀ outer anchor s a, e'.declare (.durable ⟨f :: outer, anchor⟩) s a =
    (.raised (ErrorKind.durableMutation (some s)), e')
  mixin : ∀ outer anchor source, e'.mixin (.durable ⟨f :: outer, anchor⟩) source =
    (.error (ErrorKind.durableMutation none), e')
  assign : ∀ i s v, e'.assign (.frozen f i s) v =
    (.raised (ErrorKind.durableMutation (some s)), e')

theorem FrozenScope.stays_of_develops {f : FrozenScope} {e e' : Engine}
    (ho : e.store.Ordered) (hd : e.store.Develops e'.store)
    (hsize : f.members.size ≤ e.store.shapeSize f.shape) : f.Stays e e' := by
  obtain ⟨l, hl⟩ := ho.numbers f.shape
  obtain ⟨l', hl', hpre⟩ := hl.develop hd
  have hsize : f.members.slots.size ≤ l.length := by
    rw [← hl.shapeSize]
    exact hsize
  exact {
    index := fun s => hl.ownIndex?_later hl' hpre hsize
    own := fun s => hl.own?_later hl' hpre hsize
    symbols := by
      intro p
      rw [hl.declaredSymbols, hl'.declaredSymbols, Store.shown_later hpre hsize]
    declare := fun _ _ _ _ => rfl
    mixin := fun _ _ _ => rfl
    assign := fun _ _ _ => rfl }

namespace Engine

/-- The durable scope is the copy of the chain of `r` in `e`, and those of its
scopes that had no more slots than symbols are still the same in `e'`. -/
def KeepsCopies (e e' : Engine) (r : ScopeRef) (d : DurableScope) : Prop :=
  ∃ links base, e.Chain r links base ∧ d = e.frozenChain links base ∧
    ∀ l ∈ links, ∃ t, e.frame.getTable l.2.members = .ok t ∧ (e.copy l.2).members = t.freeze ∧
      (t.size ≤ e.store.shapeSize l.2.shape → (e.copy l.2).Stays e e')

theorem Freezes.keepsCopies {e e' : Engine} {r : ScopeRef} {d : DurableScope}
    (h : e.Freezes r d) (ho : e.store.Ordered) (hd : e.store.Develops e'.store) :
    e.KeepsCopies e' r d := by
  obtain ⟨links, base, hchain, hlive, rfl⟩ := h
  refine ⟨links, base, hchain, rfl, fun l hl => ?_⟩
  obtain ⟨t, ht⟩ := Option.isSome_iff_exists.1 (hlive l hl)
  have hcopy : (e.copy l.2).members = t.freeze := by
    rw [copy, ht]
    rfl
  refine ⟨t, by rw [Frame.getTable, ht], hcopy, fun hsize => ?_⟩
  refine FrozenScope.stays_of_develops ho hd ?_
  rw [hcopy]
  exact hsize

/-- In particular the innermost of them. -/
theorem KeepsCopies.innermost {e e' : Engine} {k : PoolKey} {d : DurableScope} {own : PooledScope}
    {t : MemberTable} (h : e.KeepsCopies e' (.pooled k) d) (hown : e.frame.scope? k = some own)
    (ht : e.frame.tables.get? own.members = some t)
    (hsize : t.size ≤ e.store.shapeSize own.shape) :
    ∃ f outer, d.frozen = f :: outer ∧ f.members = t.freeze ∧ f.Stays e e' := by
  obtain ⟨links, base, hchain, rfl, hlinks⟩ := h
  cases hchain with
  | @pooled _ own' links _ hown' hrest =>
      rw [hown] at hown'
      cases hown'
      obtain ⟨t', ht', hcopy, hstays⟩ := hlinks (k, own) List.mem_cons_self
      rw [Frame.getTable, ht] at ht'
      cases ht'
      exact ⟨_, _, rfl, hcopy, hstays hsize⟩

end Engine

namespace Machine

theorem sharing_append {m : Machine} {os os' : List Op} :
    m.Sharing (os ++ os') ↔ m.Sharing os ∧ (m.run os).Sharing os' := by
  induction os generalizing m with
  | nil => exact (and_iff_right trivial).symm
  | cons o os ih => exact (and_congr_right fun _ => ih).trans and_assoc.symm

/-- Whatever escapes in a run, alone or with a trace, is made of copies that the
rest of the run does not change, and that nothing done to them changes; of a
scope with more slots than symbols this is not said. -/
theorem snapshots_are_stable {store : Store} {config : FrameConfig} {global : GlobalId}
    {flag : FlagId} {os later : List Op} (hstore : store.Ordered)
    (hos : (start store config global flag).Sharing (os ++ later)) :
    let m := (start store config global flag).run os
    let e := m.engine
    let e' := (m.run later).engine
    (∀ r d, e.escape r = .ok d → e.KeepsCopies e' r d) ∧
      ∀ record ∈ e.trace, ∀ d, record.scope = some d → ∃ r, e.KeepsCopies e' r d := by
  intro m e e'
  obtain ⟨hos, hlater⟩ := sharing_append.1 hos
  have ho : e.store.Ordered := hstore.develop hos.develops
  have hd : e.store.Develops e'.store := hlater.develops
  constructor
  · intro r d hescape
    exact (Engine.escape_eq_ok_iff.1 hescape).keepsCopies ho hd
  · intro record hrecord d hscope
    rw [Engine.trace_eq] at hrecord
    obtain ⟨entry, -, hentry⟩ := List.mem_filterMap.1 hrecord
    obtain ⟨node, -, rfl⟩ := Option.map_eq_some_iff.1 hentry
    obtain ⟨r, -, hr⟩ := Option.bind_eq_some_iff.1 hscope
    refine ⟨r, (Engine.escape_eq_ok_iff.1 ?_).keepsCopies ho hd⟩
    cases hescape : e.escape r with
    | error err =>
        rw [hescape] at hr
        cases hr
    | ok d' =>
        rw [hescape] at hr
        cases hr
        rfl

/-- A block escapes with one member; then the shape is given more symbols, in
another block, and the first block is freed. -/
theorem snapshot_of_block_is_stable :
    let m := start { shapes := #[.empty], globals := #[{}] } {} 0 0
    let os : List Op :=
      [.allocateBlock (.ofGlobal 0) 0, .declare (.pooled ⟨0, 0⟩) ⟨500, by decide⟩ .exposed]
    let later : List Op :=
      [.allocateBlock (.ofGlobal 0) 0, .declare (.pooled ⟨1, 0⟩) ⟨501, by decide⟩ .exposed,
        .freeScope (.pooled ⟨0, 0⟩)]
    m.Sharing (os ++ later) ∧
      ∃ d f outer, (m.run os).engine.escape (.pooled ⟨0, 0⟩) = .ok d ∧ d.frozen = f :: outer ∧
        f.members.size = 1 ∧ f.Stays (m.run os).engine ((m.run os).run later).engine := by
  intro m os later
  have hstore := Store.ordered_of_made Shape.made_empty #[{}]
  have hos : m.Sharing (os ++ later) :=
    ⟨nofun, nofun, nofun, nofun, nofun, trivial⟩
  have hscope : ((m.run os).engine.frame.scope? ⟨0, 0⟩).map
      (fun own => (own.previous.key?, own.shape, own.members)) = some (none, 0, ⟨0, 0⟩) := by
    decide +kernel
  have htable : ((m.run os).engine.frame.tables.get? ⟨0, 0⟩).map (·.size) = some 1 := by
    decide +kernel
  have hshape : (m.run os).engine.store.shapeSize 0 = 1 := by
    decide +kernel
  obtain ⟨own, hown, hview⟩ := Option.map_eq_some_iff.1 hscope
  obtain ⟨t, ht, hsize⟩ := Option.map_eq_some_iff.1 htable
  rw [Prod.mk.injEq, Prod.mk.injEq, ScopeRef.key?_eq_none] at hview
  obtain ⟨⟨bottom, hprevious⟩, hid, hmembers⟩ := hview
  rw [← hmembers] at ht
  have houter : (m.run os).engine.Freezes own.previous bottom := by
    rw [hprevious]
    exact .durable bottom
  have hfreeze : (m.run os).engine.freeze own bottom = .ok _ :=
    Engine.freeze_eq_ok.2 ⟨Option.isSome_iff_exists.2 ⟨t, ht⟩, rfl⟩
  have hescape := Engine.escape_eq_ok_iff.2 (.pooled hown houter hfreeze)
  have hkeeps : (m.run os).engine.KeepsCopies ((m.run os).run later).engine (.pooled ⟨0, 0⟩) _ :=
    (@snapshots_are_stable _ {} 0 0 os later hstore hos).1 _ _ hescape
  have hfew : t.size ≤ (m.run os).engine.store.shapeSize own.shape := by
    rw [hid, hsize]
    exact Nat.le_of_eq hshape.symm
  obtain ⟨f, outer, hfrozen, hcopy, hstays⟩ := hkeeps.innermost hown ht hfew
  refine ⟨hos, _, f, outer, hescape, hfrozen, ?_, hstays⟩
  rw [hcopy]
  exact hsize

end Machine

end ScriptCore

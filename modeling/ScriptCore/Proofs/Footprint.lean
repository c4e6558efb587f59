import ScriptCore.Proofs.FrameBooks

/-!
# What an operation of a frame leaves alone

Two things decide whether an activation can be trusted with a frame: it does
not change what runs at the depths below its own, and it does not allocate
anything on their behalf. `Touches` says both for one operation, and names the
only scopes and tables whose entries it may change. It is transitive, so the
footprint of an operation is put together from those of the few changes it
consists of: one list of one depth, or one entry of one pool.

A table that is handed out is not in the footprint, since its key reached
nothing before.
-/

namespace ScriptCore

/-- What runs at a depth, and where. -/
def DepthEntry.activation (e : DepthEntry) : Option Node × UInt32 × Option ScopeRef :=
  (e.node, e.line, e.scope)

namespace Frame

def activation? (f : Frame) (d : Nat) : Option (Option Node × UInt32 × Option ScopeRef) :=
  f.entries[d]?.map (·.activation)

/-- The pools are in order, and the current depth has an entry. -/
structure Sound (f : Frame) : Prop where
  scopes : f.scopes.WellKept
  tables : f.tables.WellKept
  depth_lt : f.depth < f.entries.size

/-- From `f` to `g` the frame worked at its depth, and of what was live it
changed no scope but those of `S` and no table but those of `T`. -/
structure Touches (S T : PoolKey → Prop) (f g : Frame) : Prop where
  depth_eq : g.depth = f.depth
  config_eq : g.config = f.config
  sound : g.Sound
  spares : Books.Spares f.depth f.books g.books
  activation : ∀ d, 0 < d → d ≠ f.depth → g.activation? d = f.activation? d
  scopes : ∀ k e, f.scopes.entry? k = some e → ¬ S k → g.scopes.entry? k = some e
  tables : ∀ t e, f.tables.entry? t = some e → ¬ T t → g.tables.entry? t = some e

variable {f g h : Frame} {S T S' T' : PoolKey → Prop} {k t : PoolKey}

namespace Touches

theorem refl (hf : f.Sound) : Touches S T f f :=
  ⟨rfl, rfl, hf, .refl _, fun _ _ _ => rfl, fun _ _ he _ => he, fun _ _ he _ => he⟩

theorem trans (h₁ : Touches S T f g) (h₂ : Touches S T g h) : Touches S T f h where
  depth_eq := h₂.depth_eq.trans h₁.depth_eq
  config_eq := h₂.config_eq.trans h₁.config_eq
  sound := h₂.sound
  spares := h₁.spares.trans (h₁.depth_eq ▸ h₂.spares)
  activation := by
    intro d h0 hd
    rw [h₂.activation d h0 (h₁.depth_eq ▸ hd), h₁.activation d h0 hd]
  scopes := fun k e he hk => h₂.scopes k e (h₁.scopes k e he hk) hk
  tables := fun t e he ht => h₂.tables t e (h₁.tables t e he ht) ht

theorem mono (h : Touches S T f g) (hS : ∀ k, S k → S' k) (hT : ∀ t, T t → T' t) :
    Touches S' T' f g :=
  { h with
    scopes := fun k e he hk => h.scopes k e he fun hs => hk (hS k hs)
    tables := fun t e he ht => h.tables t e he fun hs => ht (hT t hs) }

/-- What the books say of a table outside the footprint. -/
theorem tables_books {v : Option Nat} (h : Touches S T f g) (hv : f.books.tables t = some v)
    (ht : ¬ T t) : g.books.tables t = some v := by
  obtain ⟨x, hx, hxv⟩ := Option.map_eq_some_iff.1 hv
  simp only [books, h.tables t x hx ht, Option.map_some, hxv]

end Touches

/-! ## One list -/

/-- A change of one entry that leaves the activation as it is, or that belongs
to the current depth or to the host. -/
theorem touches_modifyEntry {d : Nat} {c : DepthEntry → DepthEntry} (hf : f.Sound)
    (hspares : Books.Spares f.depth f.books (f.modifyEntry d c).books)
    (hc : (∀ e, (c e).activation = e.activation) ∨ d = f.depth ∨ d = 0) :
    Touches S T f (f.modifyEntry d c) where
  depth_eq := rfl
  config_eq := rfl
  sound := ⟨hf.scopes, hf.tables, by simpa [modifyEntry] using hf.depth_lt⟩
  spares := hspares
  activation := by
    intro j h0 hj
    simp only [activation?, modifyEntry, Array.getElem?_modify]
    split
    · next hdj =>
        have hact : ∀ e, (c e).activation = e.activation := by
          rcases hc with hc | hc | hc
          · exact hc
          · omega
          · omega
        rw [Option.map_map]
        congr 1
        funext e
        exact hact e
    · rfl
  scopes := fun _ _ he _ => he
  tables := fun _ _ he _ => he

theorem touches_register (hf : f.Sound) (a : Allocation) : Touches S T f (f.register a) := by
  refine touches_modifyEntry hf ?_ (.inl fun _ => rfl)
  have hb := books_register hf.depth_lt a
  rw [register] at hb
  rw [hb]
  exact .push _ a (Nat.le_refl _)

theorem touches_withdraw (hf : f.Sound) (d : Nat) (a : Allocation) :
    Touches S T f (f.withdraw d a) := by
  refine touches_modifyEntry hf ?_ (.inl fun _ => rfl)
  have hb := books_withdraw f d a
  rw [withdraw] at hb
  rw [hb]
  exact .strike _ d a

theorem touches_wipe (hf : f.Sound) (d : Nat) :
    Touches S T f (f.modifyEntry d fun e => { e with allocations := [] }) := by
  refine touches_modifyEntry hf ?_ (.inl fun _ => rfl)
  rw [books_wipe]
  exact .wipe _ d

/-- The activation of the current depth is its own affair, and so is that of
the host. -/
theorem touches_activation {d : Nat} {c : DepthEntry → DepthEntry} (hf : f.Sound)
    (hc : ∀ e, (c e).allocations = e.allocations) (hd : d = f.depth ∨ d = 0) :
    Touches S T f (f.modifyEntry d c) := by
  refine touches_modifyEntry hf ?_ (.inr hd)
  rw [books_modifyEntry hc]
  exact .refl _

/-! ## One entry of a pool -/

theorem touches_tables {p : Pool MemberTable} (hf : f.Sound) (hp : p.WellKept)
    (hspares : Books.Spares f.depth f.books { f with tables := p }.books)
    (htables : ∀ t e, f.tables.entry? t = some e → ¬ T t → p.entry? t = some e) :
    Touches S T f { f with tables := p } :=
  ⟨rfl, rfl, ⟨hf.scopes, hp, hf.depth_lt⟩, hspares, fun _ _ _ => rfl, fun _ _ he _ => he,
    htables⟩

theorem touches_scopes {p : Pool (Option PooledScope)} (hf : f.Sound) (hp : p.WellKept)
    (hspares : Books.Spares f.depth f.books { f with scopes := p }.books)
    (hscopes : ∀ k e, f.scopes.entry? k = some e → ¬ S k → p.entry? k = some e) :
    Touches S T f { f with scopes := p } :=
  ⟨rfl, rfl, ⟨hp, hf.tables, hf.depth_lt⟩, hspares, fun _ _ _ => rfl, hscopes,
    fun _ _ he _ => he⟩

theorem touches_modifyTable (hf : f.Sound) (ht : T t) (c : MemberTable → MemberTable) :
    Touches S T f (f.modifyTable t c) := by
  refine touches_tables hf (hf.tables.modify t c) ?_ fun t' e he ht' => ?_
  · rw [books_modifyTables]
    exact .refl _
  · have hne : t' ≠ t := fun h => ht' (h ▸ ht)
    rw [Pool.entry?_modify, if_neg hne]
    exact he

theorem releaseTable_snd (f : Frame) (t : PoolKey) :
    (f.releaseTable t).2 = { f with tables := (f.tables.release t MemberTable.reset).2 } := rfl

theorem touches_releaseTable (hf : f.Sound) (ht : T t) :
    Touches S T f (f.releaseTable t).2 := by
  rw [releaseTable_snd]
  refine touches_tables hf (hf.tables.release t _) ?_ fun t' e he ht' => ?_
  · rw [books_releaseTables]
    exact .setTable _ t (by simp)
  · have hne : t' ≠ t := fun h => ht' (h ▸ ht)
    rw [Pool.entry?_release, if_neg hne]
    exact he

theorem touches_detach (hf : f.Sound) (ht : T t) :
    Touches S T f { f with tables := f.tables.detach t } := by
  refine touches_tables hf (hf.tables.detach t) ?_ fun t' e he ht' => ?_
  · cases hb : f.books.tables t with
    | none =>
        have hn := books_tables_eq_none.1 hb
        have hsame : f.tables.detach t = f.tables := by simp [Pool.detach, hn]
        rw [hsame]
        exact .refl _
    | some v =>
        rw [books_detachTables hb]
        exact .setTable _ t (by simp)
  · have hne : t' ≠ t := fun h => ht' (h ▸ ht)
    rw [Pool.entry?_detach, if_neg hne]
    exact he

theorem touches_releaseScopes (hf : f.Sound) (hk : S k) :
    Touches S T f { f with scopes := (f.scopes.release k fun _ => none).2 } := by
  refine touches_scopes hf (hf.scopes.release k _) ?_ fun k' e he hk' => ?_
  · rw [books_releaseScopes]
    exact .setScope _ k (by simp)
  · have hne : k' ≠ k := fun h => hk' (h ▸ hk)
    rw [Pool.entry?_release, if_neg hne]
    exact he

theorem touches_modifyScopes (hf : f.Sound) (hk : S k) {c : PooledScope → PooledScope}
    (hc : ∀ s, (c s).members = s.members) :
    Touches S T f { f with scopes := f.scopes.modify k (Option.map c) } := by
  refine touches_scopes hf (hf.scopes.modify k _) ?_ fun k' e he hk' => ?_
  · rw [books_modifyScopes f k hc]
    exact .refl _
  · have hne : k' ≠ k := fun h => hk' (h ▸ hk)
    rw [Pool.entry?_modify, if_neg hne]
    exact he

/-! ## Tables -/

/-- The frame after a table was handed out, whether or not there is room in it. -/
def addTable (f : Frame) (v : Option Nat) : Frame :=
  { f with tables := (f.tables.acquire v (.withMinCapacity f.config.minTableCapacity)).2 }

theorem acquireTable_eq (f : Frame) (v : Option Nat) (n : Nat) :
    f.acquireTable v n =
      if ((f.addTable v).tables.get? f.tables.nextKey).any (·.fits n) then
        (some f.tables.nextKey, (f.addTable v).modifyTable f.tables.nextKey (·.ensureCapacity n))
      else (none, f.addTable v) := by
  simp only [acquireTable, onTables_eq, Pool.acquire_fst, addTable, modifyTable]
  split
  · next hfit => simp only [hfit, if_true]
  · next hfit => simp only [hfit, Bool.false_eq_true, if_false]

/-- A table is the next of the pool, or there was no room for it. -/
theorem acquireTable_fst (f : Frame) (v : Option Nat) (n : Nat) :
    (f.acquireTable v n).1 = none ∨ (f.acquireTable v n).1 = some f.tables.nextKey := by
  rw [acquireTable_eq]
  split
  · exact .inr rfl
  · exact .inl rfl

theorem touches_addTable (hf : f.Sound) {v : Option Nat} (hv : v = none ∨ v = some f.depth) :
    Touches S T f (f.addTable v) := by
  refine touches_tables hf (hf.tables.acquire v _) ?_ fun t e he _ => ?_
  · rw [books_acquireTables hf.tables]
    refine .setTable _ _ fun d hd => ?_
    rcases hv with rfl | rfl
    · cases hd
    · injection hd with hd
      injection hd with hd
      exact Nat.le_of_eq hd
  · have hne : t ≠ f.tables.nextKey := by
      rintro rfl
      rw [Pool.acquire_fresh hf.tables] at he
      cases he
    rw [Pool.entry?_acquire_of_ne hf.tables hne]
    exact he

theorem touches_acquireTable (hf : f.Sound) {v : Option Nat}
    (hv : v = none ∨ v = some f.depth) (n : Nat) :
    Touches S T f (f.acquireTable v n).2 := by
  have hfresh : ¬ (f.tables.entry? f.tables.nextKey).isSome := by
    simp [Pool.acquire_fresh hf.tables]
  have hadd := touches_addTable (S := S) (T := T) hf hv
  rw [acquireTable_eq]
  split
  · -- the room is made in an entry that was not live before
    have hmod := touches_modifyTable (S := S) (T := fun t => T t ∨ t = f.tables.nextKey)
      hadd.sound (.inr rfl) (·.ensureCapacity n)
    have hboth := (hadd.mono (fun _ h => h) fun _ h => .inl h).trans hmod
    refine { hboth with tables := fun t e he ht => hboth.tables t e he ?_ }
    rintro (h | rfl)
    · exact ht h
    · exact hfresh (by simp [he])
  · exact hadd

theorem touches_allocateTable (hf : f.Sound) (n : Nat) : Touches S T f (f.allocateTable n).2 := by
  have hacq := touches_acquireTable (S := S) (T := T) hf (.inr rfl) n
  unfold allocateTable
  split
  · next g he => rw [he] at hacq; exact hacq
  · next k g he =>
      rw [he] at hacq
      exact hacq.trans (touches_register hacq.sound _)

theorem touches_detachTable (hf : f.Sound) (ht : T t) : Touches S T f (f.detachTable t) := by
  unfold detachTable
  split
  · next d hd =>
      have hdet := touches_detach (S := S) hf ht
      exact hdet.trans (touches_withdraw hdet.sound d _)
  · exact .refl hf

theorem touches_freeTable (hf : f.Sound) (ht : T t) : Touches S T f (f.freeTable t).2 := by
  have hdet := touches_detachTable (S := S) hf ht
  exact hdet.trans (touches_releaseTable hdet.sound ht)

theorem touches_takeTable (hf : f.Sound) (ht : T t) : Touches S T f (f.takeTable t).2 := by
  unfold takeTable
  split
  · exact .refl hf
  · exact touches_freeTable hf ht

/-! ## Scopes -/

/-- The frame after a scope was handed out and filled in, before its depth
knows about it. -/
def addScope (f : Frame) (s : PooledScope) : Frame :=
  { f with
    scopes := (f.scopes.acquire (some f.depth) none).2.modify f.scopes.nextKey fun _ => some s }

theorem installScope_eq (f : Frame) (kind : ScopeKind) (previous : ScopeRef) (shape : ShapeId)
    (members : PoolKey) :
    f.installScope kind previous shape members =
      (f.scopes.nextKey,
        (f.addScope { kind, previous, shape, members }).register (.scope f.scopes.nextKey)) := by
  simp only [installScope, onScopes_eq, addScope, Pool.acquire_fst]

theorem touches_addScope (hf : f.Sound) (s : PooledScope) : Touches S T f (f.addScope s) := by
  have hp := (hf.scopes.acquire (some f.depth) none).modify f.scopes.nextKey fun _ => some s
  refine touches_scopes hf hp ?_ fun k e he _ => ?_
  · rw [books_acquireScopes hf.scopes]
    refine .setScope _ _ fun d t hd => ?_
    injection hd with hd
    injection hd with hd
    injection hd with hd
    exact Nat.le_of_eq hd
  · have hne : k ≠ f.scopes.nextKey := by
      rintro rfl
      rw [Pool.acquire_fresh hf.scopes] at he
      cases he
    rw [Pool.entry?_modify, if_neg hne, Pool.entry?_acquire_of_ne hf.scopes hne]
    exact he

theorem touches_installScope (hf : f.Sound) (kind : ScopeKind) (previous : ScopeRef)
    (shape : ShapeId) (members : PoolKey) :
    Touches S T f (f.installScope kind previous shape members).2 := by
  rw [installScope_eq]
  have hadd := touches_addScope (S := S) (T := T) hf { kind, previous, shape, members }
  exact hadd.trans (touches_register hadd.sound _)

theorem touches_allocateBlock (hf : f.Sound) (previous : ScopeRef) (shape : ShapeId) (n : Nat) :
    Touches S T f (f.allocateBlock previous shape n).2 := by
  have hacq := touches_acquireTable (S := S) (T := T) hf (.inl rfl) n
  unfold allocateBlock
  split
  · next g he => rw [he] at hacq; exact hacq
  · next t g he =>
      rw [he] at hacq
      exact hacq.trans (touches_installScope hacq.sound _ _ _ _)

/-- The frame after a table was given the room of a shape and taken off its
list. -/
def readyTable (f : Frame) (t : PoolKey) (n : Nat) : Frame :=
  (f.modifyTable t (·.ensureCapacity n)).detachTable t

theorem readyTable_scopes (f : Frame) (t : PoolKey) (n : Nat) :
    (f.readyTable t n).scopes = f.scopes := by
  unfold readyTable detachTable
  split <;> rfl

/-- A function scope is refused without any effect, or it is made over the
table that is then ready for it. -/
theorem allocateFunction_cases (f : Frame) (binding : FunctionBinding) (previous : ScopeRef)
    (shape : ShapeId) (n : Nat) (t : PoolKey) :
    ((f.allocateFunction binding previous shape n t).2 = f ∧
        ∀ k, (f.allocateFunction binding previous shape n t).1 ≠ .done k) ∨
      ((f.tables.get? t).isSome ∧
        f.allocateFunction binding previous shape n t =
          (.done f.scopes.nextKey,
            ((f.readyTable t n).installScope (.function binding) previous shape t).2)) := by
  unfold allocateFunction getTable
  cases hget : f.tables.get? t with
  | none => exact .inl ⟨rfl, nofun⟩
  | some table =>
      simp only
      split
      · refine .inr ⟨rfl, ?_⟩
        rw [← readyTable, installScope_eq, readyTable_scopes]
      · exact .inl ⟨rfl, nofun⟩

theorem touches_readyTable (hf : f.Sound) (ht : T t) (n : Nat) :
    Touches S T f (f.readyTable t n) := by
  have hmod := touches_modifyTable (S := S) hf ht (·.ensureCapacity n)
  exact hmod.trans (touches_detachTable hmod.sound ht)

theorem touches_allocateFunction (hf : f.Sound) (ht : T t) (binding : FunctionBinding)
    (previous : ScopeRef) (shape : ShapeId) (n : Nat) :
    Touches S T f (f.allocateFunction binding previous shape n t).2 := by
  rcases f.allocateFunction_cases binding previous shape n t with ⟨h, -⟩ | ⟨-, h⟩
  · rw [h]
    exact .refl hf
  · rw [h]
    have hready := touches_readyTable (S := S) hf ht n
    exact hready.trans (touches_installScope hready.sound _ _ _ _)

theorem releaseScope_snd (f : Frame) (k : PoolKey) :
    (f.releaseScope k).2 =
      let g := { f with scopes := (f.scopes.release k fun _ => none).2 }
      match f.scope? k with
      | some s => (g.releaseTable s.members).2
      | none => g := by
  simp only [releaseScope, onScopes_eq, Pool.release_fst, scope?]
  cases f.scopes.get? k with
  | none => rfl
  | some o => cases o <;> rfl

theorem touches_releaseScope (hf : f.Sound) (hk : S k)
    (ht : ∀ s, f.scope? k = some s → T s.members) : Touches S T f (f.releaseScope k).2 := by
  rw [releaseScope_snd]
  have hrel := touches_releaseScopes (T := T) hf hk
  cases hs : f.scope? k with
  | none => exact hrel
  | some s => exact hrel.trans (touches_releaseTable hrel.sound (ht s hs))

theorem touches_freeScope (hf : f.Sound) (hk : S k)
    (ht : ∀ s, f.scope? k = some s → T s.members) :
    Touches S T f (f.freeScope (.pooled k)).2 := by
  unfold freeScope
  simp only
  split
  · next d hd =>
      have hw := touches_withdraw (S := S) (T := T) hf d (.scope k)
      exact hw.trans (touches_releaseScope hw.sound hk ht)
  · exact touches_releaseScope hf hk ht

/-! ## Depths -/

/-- The footprint of an allocation: itself, and the table of a scope. -/
def Covers (S T : PoolKey → Prop) (f : Frame) : Allocation → Prop
  | .scope k => S k ∧ ∀ s, f.scope? k = some s → T s.members
  | .table t => T t

theorem touches_release (hf : f.Sound) {a : Allocation} (ha : Covers S T f a) :
    Touches S T f (f.release a) := by
  cases a with
  | scope k => exact touches_releaseScope hf ha.1 ha.2
  | table t => exact touches_releaseTable hf ha

/-- Giving things back makes no scope. -/
theorem scope?_of_release {a : Allocation} {s : PooledScope}
    (hs : (f.release a).scope? k = some s) : f.scope? k = some s := by
  cases a with
  | table t => exact hs
  | scope k' =>
      have hscopes : (f.release (.scope k')).scopes = (f.scopes.release k' fun _ => none).2 := by
        simp only [release, releaseScope_snd]
        split <;> rfl
      simp only [scope?, Pool.get?, hscopes, Pool.entry?_release] at hs ⊢
      split at hs
      · cases hs
      · exact hs

theorem touches_foldl_release : ∀ {l : List Allocation} {f : Frame}, f.Sound →
    (∀ a ∈ l, Covers S T f a) → Touches S T f (l.foldl release f) := by
  intro l
  induction l with
  | nil => intro f hf _; exact .refl hf
  | cons a l ih =>
      intro f hf ha
      have hrel := touches_release hf (ha a List.mem_cons_self)
      refine hrel.trans (ih hrel.sound fun c hc => ?_)
      have hcov := ha c (List.mem_cons_of_mem _ hc)
      cases c with
      | table t => exact hcov
      | scope k => exact ⟨hcov.1, fun s hs => hcov.2 s (scope?_of_release hs)⟩

theorem touches_reclaim (hf : f.Sound) (d : Nat)
    (ha : ∀ a ∈ f.books.listed d, Covers S T f a) : Touches S T f (f.reclaim d) := by
  have hw := touches_wipe (S := S) (T := T) hf d
  refine hw.trans (touches_foldl_release hw.sound fun a hm => ?_)
  have hcov := ha a hm
  cases a <;> exact hcov

/-- Gives back what a depth has and forgets its activation: all of a reset, and
what the end of an activation does before it goes one depth up. -/
def endDepth (f : Frame) (d : Nat) : Frame := (f.reclaim d).modifyEntry d DepthEntry.clear

theorem touches_endDepth {d : Nat} (hf : f.Sound) (hd : d = f.depth ∨ d = 0)
    (ha : ∀ a ∈ f.books.listed d, Covers S T f a) : Touches S T f (f.endDepth d) := by
  have hrec := touches_reclaim hf d ha
  refine hrec.trans (touches_activation hrec.sound (fun _ => rfl) ?_)
  rw [hrec.depth_eq]
  exact hd

end Frame

end ScriptCore

import ScriptCore.Frame.Escape
import ScriptCore.Proofs.Machine

/-!
# Stale handles never alias

A key is the index of an entry and a generation, and both are used again: the
index at once, the generation after 2^32 releases. So what a key reaches is a
matter of history. A handle is therefore a key together with the number of
releases of its index at the time it was given out, and `Current` says that
this is still the number: nothing was given back since. The number is no choice
of this file. Whatever a frame gives back, early or at the end of a depth, is one
release more of its index, and it tells whoever asked for it.

A handle that was current at some point of a run is current or stale at its
end, and while fewer than 2^32 releases lie between, the generation tells the
two apart. A stale one is refused by every operation, and nothing changes. A
current one reaches the entry of its own allocation, which is then in nobody
else's reach: the operations that change an entry change that of the key they
are given, or the table of the scope they are given, and two current handles
never share an index.
-/

namespace ScriptCore

/-! ## Refusal -/

namespace Engine

/-- Every operation on the pooled scope `k` fails, and changes nothing. -/
structure RefusesScope (e : Engine) (k : PoolKey) : Prop where
  resolve : ∀ s, e.resolve (.pooled k) s = .error (ErrorKind.staleHandle .scope)
  declare : ∀ s a, e.declare (.pooled k) s a = (.raised (ErrorKind.staleHandle .scope), e)
  this : e.this (.pooled k) = .error (ErrorKind.staleHandle .scope)
  super : e.super (.pooled k) = .error (ErrorKind.staleHandle .scope)
  callee : e.callee (.pooled k) = .error (ErrorKind.staleHandle .scope)
  mixin : ∀ source, e.mixin (.pooled k) source = (.error (ErrorKind.staleHandle .scope), e)
  symbols : ∀ p, e.symbols (.pooled k) p = .error (ErrorKind.staleHandle .scope)
  scopeTable : e.scopeTable k = .error (ErrorKind.staleHandle .scope)
  escape : e.escape (.pooled k) = .error (ErrorKind.staleHandle .scope)
  free : e.frame.freeScope (.pooled k) = (false, e.frame)

/-- Every operation on the pooled table `t` or a slot of it fails, and changes
nothing. -/
structure RefusesTable (e : Engine) (t : PoolKey) : Prop where
  get : e.frame.getTable t = .error (ErrorKind.staleHandle .memberTable)
  edit : ∀ c, e.frame.modifyTable t c = e.frame
  load : ∀ i s, e.load (.pooled t i s) = .error (ErrorKind.staleHandle .memberTable)
  assign : ∀ i s v,
    e.assign (.pooled t i s) v = (.raised (ErrorKind.staleHandle .memberTable), e)
  take : e.frame.takeTable t = (.error (ErrorKind.staleHandle .memberTable), e.frame)
  free : e.frame.freeTable t = (false, e.frame)
  allocateFunction : ∀ binding previous shape n,
    e.frame.allocateFunction binding previous shape n t =
      (.raised (ErrorKind.staleHandle .memberTable), e.frame)

variable {e : Engine} {k t : PoolKey}

theorem refusesScope_of_entry (h : e.frame.scopes.entry? k = none) : e.RefusesScope k := by
  have hget : e.frame.getScope k = .error (ErrorKind.staleHandle .scope) := by
    simp [Frame.getScope, Frame.scope?, Pool.get?, h]
  -- a walk outward fails at its first step, or had no step to make
  have hescalate : ∀ pick missing,
      e.escalate pick missing (.pooled k) = .error (ErrorKind.staleHandle .scope) := by
    intro pick missing
    unfold escalate
    cases e.frame.scopes.entries.size with
    | zero => rfl
    | succ n => simp only [escalateWithin, hget]
  refine ⟨fun s => ?_, fun s a => ?_, hescalate _ _, hescalate _ _, hescalate _ _,
    fun source => ?_, fun p => ?_, ?_, ?_, ?_⟩
  · unfold resolve
    cases e.frame.scopes.entries.size with
    | zero => rfl
    | succ n => simp only [resolveWithin, hget]
  · simp only [declare, hget]
  · simp only [mixin, hget]
  · simp only [symbols, hget]
    rfl
  · simp only [scopeTable, hget]
    rfl
  · simp only [escape, freezeChain, pending, Std.HashMap.getElem?_empty, hget]
  · have hdepth : e.frame.scopes.depthOf? k = none := by simp [Pool.depthOf?, h]
    simp only [Frame.freeScope, hdepth, Frame.releaseScope, Frame.onScopes_eq,
      Pool.release_of_none h]

theorem refusesTable_of_entry (h : e.frame.tables.entry? t = none) : e.RefusesTable t := by
  have hget : e.frame.getTable t = .error (ErrorKind.staleHandle .memberTable) := by
    simp [Frame.getTable, Pool.get?, h]
  have hdepth : e.frame.tables.depthOf? t = none := by simp [Pool.depthOf?, h]
  refine ⟨hget, fun c => ?_, fun i s => ?_, fun i s v => ?_, ?_, ?_,
    fun binding previous shape n => ?_⟩
  · simp [Frame.modifyTable, Pool.modify, h]
  · simp only [load, hget]
  · simp only [assign, hget]
  · simp only [Frame.takeTable, hget]
  · simp only [Frame.freeTable, Frame.detachTable, hdepth, Frame.releaseTable,
      Frame.onTables_eq, Pool.release_of_none h, Option.isSome_none]
  · simp only [Frame.allocateFunction, hget]

end Engine

/-! ## What is given out is live -/

namespace Frame

variable {f : Frame} {k t : PoolKey}

theorem acquireTable_scopes (f : Frame) (v : Option Nat) (n : Nat) :
    (f.acquireTable v n).2.scopes = f.scopes := by
  rw [acquireTable_eq]
  split <;> rfl

theorem installScope_live (hf : f.Sound) (kind : ScopeKind) (previous : ScopeRef)
    (shape : ShapeId) (members : PoolKey) :
    ((f.installScope kind previous shape members).2.scopes.entry? f.scopes.nextKey).isSome := by
  rw [installScope_eq]
  show ((f.addScope _).scopes.entry? f.scopes.nextKey).isSome
  obtain ⟨e, he, -⟩ := Pool.acquire_entry hf.scopes (some f.depth) none
  simp only [addScope, Pool.entry?_modify, if_true, he, Option.map_some, Option.isSome_some]

theorem allocateBlock_some (hf : f.Sound) {previous : ScopeRef} {shape : ShapeId} {n : Nat}
    (h : (f.allocateBlock previous shape n).1 = some k) :
    ((f.allocateBlock previous shape n).2.scopes.entry? k).isSome := by
  have hscopes := acquireTable_scopes f none n
  have hsound := (touches_acquireTable (S := fun _ => False) (T := fun _ => False) hf
    (.inl rfl) n).sound
  unfold allocateBlock at h ⊢
  split at h
  · cases h
  · next t g he =>
      rw [he] at hscopes hsound
      have hscopes : g.scopes = f.scopes := hscopes
      have hins := installScope_live hsound .block previous shape t
      have hk : (g.installScope .block previous shape t).1 = k := Option.some.inj h
      rw [installScope_eq, hscopes] at hk
      have hk : f.scopes.nextKey = k := hk
      subst hk
      rw [hscopes] at hins
      exact hins

theorem allocateFunction_done (hf : f.Sound) {binding : FunctionBinding} {previous : ScopeRef}
    {shape : ShapeId} {n : Nat}
    (h : (f.allocateFunction binding previous shape n t).1 = .done k) :
    ((f.allocateFunction binding previous shape n t).2.scopes.entry? k).isSome := by
  rcases f.allocateFunction_cases binding previous shape n t with ⟨-, hno⟩ | ⟨-, hdone⟩
  · exact absurd h (hno k)
  · have hready := touches_readyTable (S := fun _ => True) (T := fun _ => True) (t := t) hf
      trivial n
    have hins := installScope_live hready.sound (.function binding) previous shape t
    rw [hdone] at h ⊢
    have hk : f.scopes.nextKey = k := by injection h
    subst hk
    rw [readyTable_scopes] at hins
    exact hins

theorem isSome_of_getTable {table : MemberTable} (h : f.getTable t = .ok table) :
    (f.tables.entry? t).isSome := by
  simp only [getTable] at h
  split at h
  · next m hm =>
      obtain ⟨x, hx, -⟩ := Pool.get?_eq_some.1 hm
      simp [hx]
  · cases h

end Frame

namespace Op

/-- The scope an operation hands out. -/
def newScope? (e : Engine) : Op → Option PoolKey
  | allocateBlock previous shape =>
    (e.frame.allocateBlock previous shape (e.store.shapeSize shape)).1
  | allocateFunction binding previous shape t =>
    match
      (e.frame.allocateFunction binding previous shape (e.store.shapeSize shape) t.key).1
    with
    | .done k => some k
    | _ => none
  | _ => none

theorem newScope?_live {e : Engine} {o : Op} {k : PoolKey} (hf : e.frame.Sound)
    (h : o.newScope? e = some k) : ((o.perform e).frame.scopes.entry? k).isSome := by
  cases o with
  | allocateBlock previous shape => exact Frame.allocateBlock_some hf h
  | allocateFunction binding previous shape table =>
      simp only [newScope?] at h
      split at h
      · next k' hdone =>
          injection h with h
          subst h
          exact Frame.allocateFunction_done hf hdone
      · cases h
  | _ => cases h

end Op

namespace SlotRef

def isPooled : SlotRef → Bool
  | .pooled _ _ _ => true
  | _ => false

end SlotRef

namespace Store

variable {st : Store} {s : Symbol} {slot : SlotRef}

theorem isPooled_of_mixin {mixins : List SourceId}
    (h : (st.findMixin? mixins s).map (SlotRef.mixin · s) = some slot) :
    slot.isPooled = false := by
  obtain ⟨id, -, rfl⟩ := Option.map_eq_some_iff.1 h
  rfl

theorem isPooled_of_findFrozen {f : FrozenScope} (h : st.findFrozen? s f = some slot) :
    slot.isPooled = false := by
  unfold findFrozen? at h
  split at h
  · cases h
    rfl
  · exact isPooled_of_mixin h

theorem isPooled_of_findHeap {id : HeapId} {x : HeapScope} (h : st.findHeap? id x s = some slot) :
    slot.isPooled = false := by
  unfold findHeap? at h
  split at h
  · cases h
    rfl
  · exact isPooled_of_mixin h

theorem isPooled_of_findGlobal {id : GlobalId} (h : st.findGlobal? id s = some slot) :
    slot.isPooled = false := by
  unfold findGlobal? at h
  obtain ⟨g, -, hg⟩ := Option.bind_eq_some_iff.1 h
  split at hg
  · cases hg
    rfl
  · exact isPooled_of_mixin hg

/-- A durable chain never leads to a slot of a pooled table. -/
theorem isPooled_of_resolveWithin {hops : Nat} {d : DurableScope}
    (h : st.resolveWithin s hops d = .ok slot) : slot.isPooled = false := by
  induction hops generalizing d with
  | zero =>
      unfold resolveWithin at h
      split at h
      · next hf =>
          cases h
          obtain ⟨f, -, hf⟩ := List.exists_of_findSome?_eq_some hf
          exact isPooled_of_findFrozen hf
      · split at h
        · split at h
          · next hg =>
              cases h
              exact isPooled_of_findGlobal hg
          · cases h
        · cases h
  | succ hops ih =>
      unfold resolveWithin at h
      split at h
      · next hf =>
          cases h
          obtain ⟨f, -, hf⟩ := List.exists_of_findSome?_eq_some hf
          exact isPooled_of_findFrozen hf
      · split at h
        · split at h
          · next hg =>
              cases h
              exact isPooled_of_findGlobal hg
          · cases h
        · split at h
          · split at h
            · next hh =>
                cases h
                exact isPooled_of_findHeap hh
            · next heq _ _ _ =>
                rw [Nat.succ.injEq] at heq
                exact ih (heq ▸ h)
          · cases h

end Store

namespace Engine

variable {e : Engine} {r : ScopeRef} {s s' : Symbol} {t : PoolKey} {i : Nat}

/-- A slot that a symbol resolves to is in a live table. -/
theorem isSome_of_resolveWithin {hops : Nat}
    (h : e.resolveWithin s hops r = .ok (.pooled t i s')) :
    (e.frame.tables.entry? t).isSome := by
  induction hops generalizing r with
  | zero =>
      cases r with
      | durable d => cases Store.isPooled_of_resolveWithin h
      | pooled k => cases h
  | succ hops ih =>
      cases r with
      | durable d => cases Store.isPooled_of_resolveWithin h
      | pooled k =>
          simp only [resolveWithin] at h
          split at h
          · cases h
          · next own hown =>
              split at h
              · cases h
              · next j hj =>
                  cases h
                  simp only [ownIndex?] at hj
                  split at hj
                  · cases hj
                  · split at hj
                    · cases hj
                    · next table htable => exact Frame.isSome_of_getTable htable
              · split at h
                · cases h
                · exact ih h

/-- Where a symbol resolves to, told by the parts of the slot. -/
theorem resolve_eq_of_place {x : Symbol}
    (h : (match e.resolve r s with
      | .ok (.pooled t i x) => some (t, i, x)
      | _ => none) = some (t, i, x)) : e.resolve r s = .ok (.pooled t i x) := by
  split at h
  · next heq =>
      cases h
      exact heq
  · cases h

theorem isPooled_of_store_declare {st : Store} {d : DurableScope} {a : Attributes}
    {slot : SlotRef} (h : (st.declare d s a).1 = .done slot) : slot.isPooled = false := by
  unfold Store.declare at h
  split at h
  · cases h
  · split at h
    · cases h
    · split at h
      · cases h
      · simp only at h
        split at h
        · cases h
        · split at h
          · cases h
          · cases h
            rfl
  · split at h
    · cases h
    · simp only at h
      split at h
      · cases h
      · cases h
        rfl

/-- A slot that was declared is in a table that was live. -/
theorem isSome_of_declare {a : Attributes}
    (h : (e.declare r s a).1 = .done (.pooled t i s')) :
    (e.frame.tables.entry? t).isSome := by
  obtain ⟨store, frame⟩ := e
  unfold declare at h
  cases r with
  | durable d => cases isPooled_of_store_declare h
  | pooled k =>
      simp only at h
      split at h
      · cases h
      · split at h
        · cases h
        · split at h
          · cases h
          · next table htable =>
              split at h
              · cases h
              · split at h
                · cases h
                · cases h
                  exact Frame.isSome_of_getTable htable

/-- And still is. -/
theorem isSome_tables_declare {a : Attributes} (h : (e.frame.tables.entry? t).isSome) :
    ((e.declare r s a).2.frame.tables.entry? t).isSome := by
  rcases e.declare_frame r s a with hd | ⟨k, own, c, -, -, hd⟩
  · rw [hd]
    exact h
  · rw [hd]
    show (Pool.entry? (e.frame.tables.modify own.members c) t).isSome
    rw [Pool.entry?_modify]
    split
    · next ht =>
        rw [ht] at h
        simpa using h
    · exact h

end Engine

/-! ## What giving back answers, and what it leaves -/

namespace Frame

variable {f : Frame} {k t t' : PoolKey}

theorem isSome_tables_detachTable (f : Frame) (t t' : PoolKey) :
    ((f.detachTable t).tables.entry? t').isSome = (f.tables.entry? t').isSome := by
  unfold detachTable
  split
  · show (Pool.entry? (f.tables.detach t) t').isSome = _
    rw [Pool.entry?_detach]
    split
    · next h => rw [h, Option.isSome_map]
    · rfl
  · rfl

theorem freeTable_fst (f : Frame) (t : PoolKey) :
    (f.freeTable t).1 = (f.tables.entry? t).isSome := by
  show ((f.detachTable t).tables.release t MemberTable.reset).1.isSome = _
  rw [Pool.isSome_release, isSome_tables_detachTable]

theorem freeTable_gone (f : Frame) (t : PoolKey) :
    (f.freeTable t).2.tables.entry? t = none := by
  show Pool.entry? ((f.detachTable t).tables.release t MemberTable.reset).2 t = none
  rw [Pool.entry?_release, if_pos rfl]

/-- What was taken out of the pool was there, and was given back. -/
theorem takeTable_of_ok {table : MemberTable} (h : (f.takeTable t).1 = .ok table) :
    (f.tables.entry? t).isSome ∧ (f.takeTable t).2 = (f.freeTable t).2 := by
  unfold takeTable at h ⊢
  split at h
  · cases h
  · next hget => exact ⟨isSome_of_getTable hget, rfl⟩

theorem releaseScope_fst (f : Frame) (k : PoolKey) :
    (f.releaseScope k).1 = (f.scopes.entry? k).isSome := by
  rw [← Pool.isSome_release fun _ => none]
  simp only [releaseScope, onScopes_eq]
  split
  · next h => rw [h]; rfl
  · next h => rw [h]; rfl
  · next h => rw [h]; rfl

theorem freeScope_fst (f : Frame) (k : PoolKey) :
    (f.freeScope (.pooled k)).1 = (f.scopes.entry? k).isSome := by
  simp only [freeScope]
  split
  · exact releaseScope_fst _ k
  · exact releaseScope_fst f k

end Frame

namespace Op

/-- What an end of a depth writes into the books. -/
theorem books_of_ends {e : Engine} {o : Op} {d : Nat} (h : o.ends? e.frame = some d) :
    (o.perform e).frame.books.scopes = (e.frame.books.reclaim d).scopes ∧
      (o.perform e).frame.books.tables = (e.frame.books.reclaim d).tables := by
  cases o with
  | reset =>
      cases h
      have hbooks : (reset.perform e).frame.books = _ := e.frame.books_endDepth 0
      rw [hbooks]
      exact ⟨rfl, rfl⟩
  | leave =>
      cases h
      have hbooks : (leave.perform e).frame.books = _ := e.frame.books_leave
      rw [hbooks]
      exact ⟨rfl, rfl⟩
  | _ => cases h

end Op

/-! ## Handles along a run -/

namespace Machine

/-- The handle is that of the scope its key reaches. -/
def CurrentScope (m : Machine) (h : Handle) : Prop :=
  (m.engine.frame.scopes.entry? h.key).isSome ∧ h.issued = m.scopeReleases h.key.index

/-- The handle is that of the table its key reaches. -/
def CurrentTable (m : Machine) (h : Handle) : Prop :=
  (m.engine.frame.tables.entry? h.key).isSome ∧ h.issued = m.tableReleases h.key.index

/-- The handle was that of a scope at some point of the run. -/
def GaveScope (m : Machine) (os : List Op) (h : Handle) : Prop :=
  ∃ os₁ os₂, os = os₁ ++ os₂ ∧ (m.run os₁).CurrentScope h

/-- The handle was that of a table at some point of the run. -/
def GaveTable (m : Machine) (os : List Op) (h : Handle) : Prop :=
  ∃ os₁ os₂, os = os₁ ++ os₂ ∧ (m.run os₁).CurrentTable h

variable {m : Machine} {os : List Op} {h : Handle}

theorem issuedScope_run (os : List Op) : ∀ {m : Machine},
    h.Issued m.scopeReleases m.engine.frame.scopes →
    h.Issued (m.run os).scopeReleases (m.run os).engine.frame.scopes := by
  induction os with
  | nil => exact id
  | cons o os ih =>
      intro m hi
      exact ih (m := m.after o) (hi.move (o.moves_perform m.engine).scopes)

theorem issuedTable_run (os : List Op) : ∀ {m : Machine},
    h.Issued m.tableReleases m.engine.frame.tables →
    h.Issued (m.run os).tableReleases (m.run os).engine.frame.tables := by
  induction os with
  | nil => exact id
  | cons o os ih =>
      intro m hi
      exact ih (m := m.after o) (hi.move (o.moves_perform m.engine).tables)

theorem GaveScope.issued (hm : m.Tracked) (hg : m.GaveScope os h) :
    h.Issued (m.run os).scopeReleases (m.run os).engine.frame.scopes := by
  obtain ⟨os₁, os₂, rfl, hlive, hcur⟩ := hg
  obtain ⟨k, n⟩ := h
  have hcur : n = (m.run os₁).scopeReleases k.index := hcur
  subst hcur
  rw [run_append]
  exact issuedScope_run os₂ (Handle.issued_of_live (hm.run os₁).scopeCounts hlive)

theorem GaveTable.issued (hm : m.Tracked) (hg : m.GaveTable os h) :
    h.Issued (m.run os).tableReleases (m.run os).engine.frame.tables := by
  obtain ⟨os₁, os₂, rfl, hlive, hcur⟩ := hg
  obtain ⟨k, n⟩ := h
  have hcur : n = (m.run os₁).tableReleases k.index := hcur
  subst hcur
  rw [run_append]
  exact issuedTable_run os₂ (Handle.issued_of_live (hm.run os₁).tableCounts hlive)

/-- The keys that are given out, by themselves or in a slot, are those of
current handles. -/
structure GivesOut (m : Machine) : Prop where
  scope : ∀ o k, o.newScope? m.engine = some k →
    (m.after o).CurrentScope ⟨k, (m.after o).scopeReleases k.index⟩
  table : ∀ o t, o.newHeld? m.engine = some t →
    (m.after o).CurrentTable ⟨t, (m.after o).tableReleases t.index⟩
  resolved : ∀ r s t i s', m.engine.resolve r s = .ok (.pooled t i s') →
    m.CurrentTable ⟨t, m.tableReleases t.index⟩
  declared : ∀ r s a t i s', (m.engine.declare r s a).1 = .done (.pooled t i s') →
    (m.after (.declare r s a)).CurrentTable
      ⟨t, (m.after (.declare r s a)).tableReleases t.index⟩

/-- Of the handles that were given out, each is current or, once its index was
taken back, refused; and no two current handles share an index. -/
structure Distinguishes (gaveScope gaveTable : Handle → Prop) (m : Machine) : Prop where
  staleScope : ∀ h, gaveScope h → h.issued < m.scopeReleases h.key.index →
    m.scopeReleases h.key.index < h.issued + 4294967296 → m.engine.RefusesScope h.key
  staleTable : ∀ h, gaveTable h → h.issued < m.tableReleases h.key.index →
    m.tableReleases h.key.index < h.issued + 4294967296 → m.engine.RefusesTable h.key
  currentScope : ∀ h, gaveScope h → h.issued = m.scopeReleases h.key.index → m.CurrentScope h
  currentTable : ∀ h, gaveTable h → h.issued = m.tableReleases h.key.index → m.CurrentTable h
  soleScope : ∀ h h', m.CurrentScope h → m.CurrentScope h' → h.key.index = h'.key.index → h = h'
  soleTable : ∀ h h', m.CurrentTable h → m.CurrentTable h' → h.key.index = h'.key.index → h = h'

/-- The key that an operation is given, if any, is that of a handle of another
allocation than `own`, given out before and not too old. -/
def Foreign (gave : Handle → Prop) (releases : Nat → Nat) (used : Option PoolKey)
    (own : Handle) : Prop :=
  ∀ k, used = some k →
    ∃ h, h.key = k ∧ gave h ∧ releases k.index < h.issued + 4294967296 ∧ h ≠ own

/-- An operation that is given none of their handles leaves a scope with its
table, and a table by itself, as they are, unless it ends their depth. -/
structure Separates (gaveScope gaveTable : Handle → Prop) (m : Machine) : Prop where
  scope : ∀ (o : Op) h s, m.CurrentScope h → m.engine.frame.scope? h.key = some s →
    Foreign gaveScope m.scopeReleases o.scope? h →
    Foreign gaveTable m.tableReleases o.table? ⟨s.members, m.tableReleases s.members.index⟩ →
    (∀ d, o.ends? m.engine.frame = some d → m.engine.frame.scopes.depthOf? h.key ≠ some d) →
    (o.perform m.engine).frame.scopes.entry? h.key = m.engine.frame.scopes.entry? h.key ∧
      (o.perform m.engine).frame.tables.entry? s.members =
        m.engine.frame.tables.entry? s.members
  table : ∀ (o : Op) h, m.CurrentTable h →
    Foreign gaveTable m.tableReleases o.table? h →
    (∀ k s, o.scope? = some k → m.engine.frame.scope? k = some s → s.members ≠ h.key) →
    (∀ d, o.ends? m.engine.frame = some d → ¬ m.engine.frame.books.TableAt h.key d) →
    (o.perform m.engine).frame.tables.entry? h.key = m.engine.frame.tables.entry? h.key

theorem givesOut (hm : m.Tracked) : m.GivesOut where
  scope := fun _ _ hk => ⟨Op.newScope?_live hm.sound hk, rfl⟩
  table := by
    intro o t ht
    obtain ⟨-, -, hlist⟩ := Op.newHeld?_spec hm.sound ht
    exact ⟨(isSome_entry?_iff (m := m.after o) t).2 (Option.isSome_iff_exists.2 ⟨_, hlist⟩), rfl⟩
  resolved := fun _ _ _ _ _ hr => ⟨Engine.isSome_of_resolveWithin hr, rfl⟩
  declared := fun _ _ _ _ _ _ hd =>
    ⟨Engine.isSome_tables_declare (Engine.isSome_of_declare hd), rfl⟩

theorem eq_of_current {α : Type} {p : Pool α} {n : Nat → Nat} {h h' : Handle}
    (hl : (p.entry? h.key).isSome) (hl' : (p.entry? h'.key).isSome)
    (hn : h.issued = n h.key.index) (hn' : h'.issued = n h'.key.index)
    (hi : h.key.index = h'.key.index) : h = h' := by
  obtain ⟨e, he⟩ := Option.isSome_iff_exists.1 hl
  obtain ⟨e', he'⟩ := Option.isSome_iff_exists.1 hl'
  have hk : h.key = h'.key := Pool.eq_of_live_of_index he' he hi
  have hissued : h.issued = h'.issued := by rw [hn, hn', hk]
  cases h; cases h'
  simp_all

theorem distinguishes (hm : m.Tracked) (os : List Op) :
    (m.run os).Distinguishes (m.GaveScope os) (m.GaveTable os) where
  staleScope := fun _ hg hgone hyoung => Engine.refusesScope_of_entry
    ((hg.issued hm).stale (hm.run os).scopeCounts hgone hyoung)
  staleTable := fun _ hg hgone hyoung => Engine.refusesTable_of_entry
    ((hg.issued hm).stale (hm.run os).tableCounts hgone hyoung)
  currentScope := fun _ hg hcur => ⟨(hg.issued hm).live hcur, hcur⟩
  currentTable := fun _ hg hcur => ⟨(hg.issued hm).live hcur, hcur⟩
  soleScope := fun _ _ hc hc' hi => eq_of_current hc.1 hc'.1 hc.2 hc'.2 hi
  soleTable := fun _ _ hc hc' hi => eq_of_current hc.1 hc'.1 hc.2 hc'.2 hi

/-- A handle of another allocation has another key. -/
theorem Foreign.ne {α : Type} {p : Pool α} {n : Nat → Nat} {gave : Handle → Prop}
    {used : Option PoolKey} {own : Handle} (hf : Foreign gave n used own)
    (hc : Pool.Counts n p) (hgave : ∀ h, gave h → h.Issued n p)
    (hlive : (p.entry? own.key).isSome) (hcur : own.issued = n own.key.index) :
    used ≠ some own.key := by
  intro hused
  obtain ⟨h, hk, hg, hyoung, hne⟩ := hf own.key hused
  rw [← hk] at hyoung
  have hown : own.Issued n p := by
    obtain ⟨k, i⟩ := own
    have hcur : i = n k.index := hcur
    subst hcur
    exact Handle.issued_of_live hc hlive
  exact hne ((hgave h hg).eq_of_key hown hc hyoung hcur hk)

theorem separates (hm : m.Tracked) {os : List Op} (hw : (m.run os).Owned) :
    (m.run os).Separates (m.GaveScope os) (m.GaveTable os) where
  scope := by
    intro o h s hcur hs hscope htable hends
    have hm' := hm.run os
    obtain ⟨v, hv⟩ := Frame.scopes_books_of_scope? hs
    have hmembers := (hw.kept.members h.key v s.members hv).1
    have hlive : ((m.run os).engine.frame.tables.entry? s.members).isSome :=
      (isSome_entry?_iff _).2 (by simp [hmembers])
    have hne := hscope.ne hm'.scopeCounts (fun g hg => hg.issued hm) hcur.1 hcur.2
    have hne' := htable.ne hm'.tableCounts (fun g hg => hg.issued hm) hlive rfl
    obtain ⟨x, hx⟩ := Option.isSome_iff_exists.1 hcur.1
    obtain ⟨y, hy⟩ := Option.isSome_iff_exists.1 hlive
    constructor
    · rw [hx]
      refine Op.entry_scopes_perform hm'.sound hw.kept hx ?_
      rintro (hk | ⟨d, hd, hhome⟩)
      · exact hne hk
      · exact hends d hd (Frame.home?_books_scope ▸ hhome)
    · rw [hy]
      refine Op.entry_tables_perform hm'.sound hw.kept hy ?_
      rintro (ht | ⟨k, s', hk, hs', heq⟩ | ⟨d, hd, hat⟩)
      · exact hne' ht
      · -- no other scope has the same members
        obtain ⟨v', hv'⟩ := Frame.scopes_books_of_scope? hs'
        rw [heq] at hv'
        have hkey := hw.kept.sole k h.key v' v s.members hv' hv
        exact hne (hkey ▸ hk)
      · rcases hat with hat | ⟨k, hk⟩
        · rw [hmembers] at hat
          cases hat
        · have hkey := hw.kept.sole k h.key _ v s.members hk hv
          rw [hkey] at hk
          refine hends d hd ?_
          rw [← Frame.home?_books_scope]
          simp [Books.home?, hk]
  table := by
    intro o h hcur htable hscope hends
    have hm' := hm.run os
    have hne := htable.ne hm'.tableCounts (fun g hg => hg.issued hm) hcur.1 hcur.2
    obtain ⟨y, hy⟩ := Option.isSome_iff_exists.1 hcur.1
    rw [hy]
    refine Op.entry_tables_perform hm'.sound hw.kept hy ?_
    rintro (ht | ⟨k, s, hk, hs, heq⟩ | ⟨d, hd, hat⟩)
    · exact hne ht
    · exact hscope k s hk hs heq
    · exact hends d hd hat

/-! ## What is given back is counted -/

section Counting

variable {o : Op} {k t : PoolKey}

theorem scopeReleases_of_gone (hk : (m.engine.frame.scopes.entry? k).isSome)
    (hgone : (m.after o).engine.frame.scopes.entry? k = none) :
    (m.after o).scopeReleases k.index = m.scopeReleases k.index + 1 :=
  congrArg (m.scopeReleases k.index + ·)
    ((o.moves_perform m.engine).scopes.recycled_of_gone hk hgone)

theorem tableReleases_of_gone (ht : (m.engine.frame.tables.entry? t).isSome)
    (hgone : (m.after o).engine.frame.tables.entry? t = none) :
    (m.after o).tableReleases t.index = m.tableReleases t.index + 1 :=
  congrArg (m.tableReleases t.index + ·)
    ((o.moves_perform m.engine).tables.recycled_of_gone ht hgone)

/-- After its release a scope is gone, and the members it had with it. -/
theorem gone_after_freeScope (k : PoolKey) :
    ((m.after (.freeScope (.pooled k))).engine.frame.scopes.entry? k).isSome = false ∧
      ∀ v t, m.engine.frame.books.scopes k = some (v, some t) →
        ((m.after (.freeScope (.pooled k))).engine.frame.tables.entry? t).isSome = false := by
  obtain ⟨hscopes, htables⟩ := m.engine.frame.books_freeScope k
  constructor
  · refine Bool.not_eq_true _ ▸ fun h => ?_
    rw [isSome_scopes_iff] at h
    have h : ((m.engine.frame.freeScope (.pooled k)).2.books.scopes k).isSome := h
    rw [hscopes] at h
    simp only [Books.free] at h
    split at h
    · simp [Books.setScope, Books.setTable] at h
    · simp [Books.setScope] at h
  · intro v t hk
    refine Bool.not_eq_true _ ▸ fun h => ?_
    rw [isSome_entry?_iff] at h
    have h : ((m.engine.frame.freeScope (.pooled k)).2.books.tables t).isSome := h
    rw [htables, Books.free_of_scope hk] at h
    simp [Books.setTable] at h

end Counting

/-- Whatever a current handle reaches can be given back, and whoever is told
that it was given back finds one release more of its index. -/
structure CountsFrees (m : Machine) : Prop where
  freesScope : ∀ h, m.CurrentScope h → (m.engine.frame.freeScope (.pooled h.key)).1 = true
  freesTable : ∀ h, m.CurrentTable h → (m.engine.frame.freeTable h.key).1 = true
  freedScope : ∀ k, (m.engine.frame.freeScope (.pooled k)).1 = true →
    (m.after (.freeScope (.pooled k))).scopeReleases k.index = m.scopeReleases k.index + 1
  freedTable : ∀ h : Handle, (m.engine.frame.freeTable h.key).1 = true →
    (m.after (.freeTable h)).tableReleases h.key.index = m.tableReleases h.key.index + 1
  takenTable : ∀ (h : Handle) table, (m.engine.frame.takeTable h.key).1 = .ok table →
    (m.after (.takeTable h)).tableReleases h.key.index = m.tableReleases h.key.index + 1

/-- The members of a scope are given back with it, and the end of a depth gives
back every scope of the depth and every table, but for those that allocations
leaked. -/
structure CountsEnds (m : Machine) : Prop where
  members : ∀ k s, m.engine.frame.scope? k = some s →
    (m.after (.freeScope (.pooled k))).tableReleases s.members.index =
      m.tableReleases s.members.index + 1
  scope : ∀ (o : Op) d k, o.ends? m.engine.frame = some d →
    m.engine.frame.scopes.depthOf? k = some d →
    (m.after o).scopeReleases k.index = m.scopeReleases k.index + 1
  table : ∀ (o : Op) d t, o.ends? m.engine.frame = some d →
    m.engine.frame.books.TableAt t d → t ∉ m.lost →
    (m.after o).tableReleases t.index = m.tableReleases t.index + 1

theorem countsFrees (m : Machine) : m.CountsFrees where
  freesScope := fun h hcur => (m.engine.frame.freeScope_fst h.key).trans hcur.1
  freesTable := fun h hcur => (m.engine.frame.freeTable_fst h.key).trans hcur.1
  freedScope := by
    intro k hfreed
    rw [Frame.freeScope_fst] at hfreed
    exact scopeReleases_of_gone hfreed (by simpa using (m.gone_after_freeScope k).1)
  freedTable := by
    intro h hfreed
    rw [Frame.freeTable_fst] at hfreed
    exact tableReleases_of_gone (o := .freeTable h) hfreed (m.engine.frame.freeTable_gone h.key)
  takenTable := by
    intro h table htaken
    obtain ⟨hlive, htake⟩ := Frame.takeTable_of_ok htaken
    refine tableReleases_of_gone (o := .takeTable h) hlive ?_
    show (m.engine.frame.takeTable h.key).2.tables.entry? h.key = none
    rw [htake]
    exact m.engine.frame.freeTable_gone h.key

theorem countsEnds (hw : m.Owned) : m.CountsEnds where
  members := by
    intro k s hs
    obtain ⟨v, hv⟩ := Frame.scopes_books_of_scope? hs
    have hmembers := (hw.kept.members k v s.members hv).1
    refine tableReleases_of_gone (o := .freeScope (.pooled k)) ?_ ?_
    · rw [isSome_entry?_iff, hmembers]
      rfl
    · simpa using (m.gone_after_freeScope k).2 v s.members hv
  scope := by
    intro o d k hends hhome
    rw [← Frame.home?_books_scope] at hhome
    refine scopeReleases_of_gone ((isSome_scopes_iff k).2 (Books.live_of_home? hhome)) ?_
    show (o.perform m.engine).frame.scopes.entry? k = none
    rw [← Frame.books_scopes_eq_none, (Op.books_of_ends hends).1]
    exact hw.kept.scopes_reclaim hhome (by simp)
  table := by
    intro o d t hends hat hlost
    have hlive : (m.engine.frame.books.tables t).isSome := by
      rcases hat with hat | ⟨k, hk⟩
      · rw [hat]
        rfl
      · rw [(hw.kept.members k _ t hk).1]
        rfl
    refine tableReleases_of_gone ((isSome_entry?_iff t).2 hlive) ?_
    show (o.perform m.engine).frame.tables.entry? t = none
    rw [← Frame.books_tables_eq_none, (Op.books_of_ends hends).2]
    exact hw.kept.tables_reclaim hat (by simpa using hlost) (by simp)

/-! ## Every run -/

/-- In every run, whatever key is given out is that of a current handle, and
every handle given out before is current or refused by all operations. It is
current until it is given back: whatever is given back, alone, with its scope or
at the end of its depth, is one release more of its index. As long as tables are
consumed by their holders, a current handle is also the only way to what it
reaches: operations through other handles leave that as it is. -/
theorem stale_handles_never_alias (store : Store) (config : FrameConfig) (global : GlobalId)
    (flag : FlagId) (os : List Op) :
    let m := start store config global flag
    (m.run os).GivesOut ∧ (m.run os).Distinguishes (m.GaveScope os) (m.GaveTable os) ∧
      (m.run os).CountsFrees ∧
      (Lawful 0 m os →
        (m.run os).Separates (m.GaveScope os) (m.GaveTable os) ∧ (m.run os).CountsEnds) := by
  intro m
  have hm : m.Tracked := tracked_start store config global flag
  have hw : m.Owned := owned_start store config global flag
  refine ⟨givesOut (hm.run os), distinguishes hm os, countsFrees _, fun hos => ?_⟩
  have hw' := hw.run hm hos
  exact ⟨separates hm hw', countsEnds hw'⟩

/-- A block and a table are given back and their entries handed out again. The
first handles are refused, and so is the slot that a name resolved to in the
first block; nothing done with them reaches the second block or table. -/
theorem stale_handles_refused_after_reuse :
    let m := start { shapes := #[.empty], globals := #[{}] } {} 0 0
    let x : Symbol := ⟨500, by decide⟩
    let first : List Op :=
      [.allocateBlock (.ofGlobal 0) 0, .allocateTable 2, .declare (.pooled ⟨0, 0⟩) x {}]
    let os : List Op := first ++
      [.freeScope (.pooled ⟨0, 0⟩), .freeTable ⟨⟨1, 0⟩, 0⟩, .allocateTable 2,
        .allocateBlock (.ofGlobal 0) 0]
    Lawful 0 m os ∧
      (m.run first).engine.resolve (.pooled ⟨0, 0⟩) x = .ok (.pooled ⟨0, 0⟩ 0 x) ∧
      (m.run os).engine.RefusesScope ⟨0, 0⟩ ∧
      (m.run os).engine.load (.pooled ⟨0, 0⟩ 0 x) =
        .error (ErrorKind.staleHandle .memberTable) ∧
      (m.run os).engine.RefusesTable ⟨1, 0⟩ ∧
      (m.run os).CurrentScope ⟨⟨0, 1⟩, 1⟩ ∧ (m.run os).CurrentTable ⟨⟨1, 1⟩, 1⟩ ∧
      (m.run os).Separates (m.GaveScope os) (m.GaveTable os) := by
  intro m x first os
  have hos : Lawful 0 m os := by decide +kernel
  obtain ⟨-, htold, -, hlawful⟩ :=
    stale_handles_never_alias { shapes := #[.empty], globals := #[{}] } {} 0 0 os
  have hplace : (m.run first).engine.resolve (.pooled ⟨0, 0⟩) x = .ok (.pooled ⟨0, 0⟩ 0 x) :=
    Engine.resolve_eq_of_place (by decide +kernel)
  have hscope : m.GaveScope os ⟨⟨0, 0⟩, 0⟩ :=
    ⟨first, _, rfl, by decide +kernel, by decide +kernel⟩
  have htable : m.GaveTable os ⟨⟨1, 0⟩, 0⟩ :=
    ⟨first, _, rfl, by decide +kernel, by decide +kernel⟩
  have hslot : m.GaveTable os ⟨⟨0, 0⟩, 0⟩ :=
    ⟨first, _, rfl, Engine.isSome_of_resolveWithin hplace, by decide +kernel⟩
  have hblock : (m.run os).engine.RefusesScope ⟨0, 0⟩ :=
    htold.staleScope _ hscope (by decide +kernel) (by decide +kernel)
  have hmembers : (m.run os).engine.RefusesTable ⟨0, 0⟩ :=
    htold.staleTable _ hslot (by decide +kernel) (by decide +kernel)
  have hfreed : (m.run os).engine.RefusesTable ⟨1, 0⟩ :=
    htold.staleTable _ htable (by decide +kernel) (by decide +kernel)
  exact ⟨hos, hplace, hblock, hmembers.load 0 x, hfreed, ⟨by decide +kernel, by decide +kernel⟩,
    ⟨by decide +kernel, by decide +kernel⟩, (hlawful hos).1⟩

end Machine

end ScriptCore

import ScriptCore.Proofs.Footprint

/-!
# Every operation keeps the books

The equations of `FrameBooks` turn an operation into entries, and the lemmas
about `Kept` say what each entry makes loose or settles. Here the two are put
together, one lemma for each operation: the loose allocations after it are
those before it, and one more if a table was handed out for which there was no
room.

The operations that consume a table need to know that it is nobody else's: not
the members of a scope, and not loose. `Unclaimed` says that. A stale key
claims nothing, so they may be given one.
-/

namespace ScriptCore

namespace Books

/-- A table that is neither loose nor the members of a scope. -/
structure Unclaimed (b : Books) (loose : List Allocation) (t : PoolKey) : Prop where
  not_loose : .table t ∉ loose
  not_members : ∀ k d, b.scopes k ≠ some (d, some t)

variable {b : Books} {loose : List Allocation} {t k : PoolKey}

theorem Kept.table_not_loose (h : b.Kept loose) (ht : b.tables t = none) :
    .table t ∉ loose := by
  intro hm
  have := h.live _ hm
  simp [Live, ht] at this

/-- A live table that nobody else claims is on the list of a depth. -/
theorem Kept.home_of_unclaimed (h : b.Kept loose) (hu : b.Unclaimed loose t) {v : Option Nat}
    (ht : b.tables t = some v) : ∃ d, b.home? (.table t) = some d := by
  cases v with
  | some d => exact ⟨d, by simp [home?, ht]⟩
  | none =>
      obtain ⟨k, d, hk⟩ := h.owner t ht hu.not_loose
      exact absurd hk (hu.not_members k d)

theorem setScope_eq_self (h : b.scopes k = none) : b.setScope k none = b := by
  rw [setScope, ← h, Function.update_eq_self]

theorem setTable_eq_self (h : b.tables t = none) : b.setTable t none = b := by
  rw [setTable, ← h, Function.update_eq_self]

end Books

namespace Frame

variable {f : Frame} {loose : List Allocation} {k t : PoolKey}

/-! ## Tables -/

theorem books_modifyTable (f : Frame) (t : PoolKey) (c : MemberTable → MemberTable) :
    (f.modifyTable t c).books = f.books :=
  books_modifyTables f t c

theorem books_releaseTable (f : Frame) (t : PoolKey) :
    (f.releaseTable t).2.books = f.books.setTable t none :=
  books_releaseTables f t MemberTable.reset

theorem books_addTable (hf : f.Sound) (v : Option Nat) :
    (f.addTable v).books = f.books.setTable f.tables.nextKey (some v) :=
  books_acquireTables hf.tables v (.withMinCapacity f.config.minTableCapacity)

theorem books_acquireTable (hf : f.Sound) (v : Option Nat) (n : Nat) :
    (f.acquireTable v n).2.books = f.books.setTable f.tables.nextKey (some v) := by
  rw [acquireTable_eq]
  split
  · exact (books_modifyTable _ _ _).trans (books_addTable hf v)
  · exact books_addTable hf v

theorem nextTable_fresh (hf : f.Sound) : f.books.tables f.tables.nextKey = none :=
  books_tables_eq_none.2 (Pool.acquire_fresh hf.tables)

theorem kept_acquireTable (hf : f.Sound) (h : f.books.Kept loose) (v : Option Nat) (n : Nat) :
    (f.acquireTable v n).2.books.Kept (.table f.tables.nextKey :: loose) := by
  rw [books_acquireTable hf]
  exact h.addTable (nextTable_fresh hf) v

/-- A table for which there is no room was handed out all the same, and is on
no list. -/
theorem kept_allocateTable (hf : f.Sound) (h : f.books.Kept loose) (n : Nat) :
    (f.allocateTable n).2.books.Kept
      (if (f.allocateTable n).1.isNone then .table f.tables.nextKey :: loose else loose) := by
  have hacq := kept_acquireTable hf h (some f.depth) n
  have hbooks := books_acquireTable hf (some f.depth) n
  have htouch := touches_acquireTable (S := fun _ => False) (T := fun _ => False) hf (.inr rfl) n
  have hfst := acquireTable_fst f (some f.depth) n
  unfold allocateTable
  split
  · next g he =>
      rw [he] at hacq
      exact hacq
  · next t g he =>
      rw [he] at hacq hbooks htouch hfst
      have ht : t = f.tables.nextKey := by
        rcases hfst with hfst | hfst
        · cases hfst
        · exact Option.some.inj hfst
      subst ht
      show (g.register _).books.Kept loose
      rw [books_register htouch.sound.depth_lt]
      refine hacq.push ?_ (h.table_not_loose (nextTable_fresh hf))
      have hd : g.books.depth = f.depth := htouch.depth_eq
      rw [hd, show g.books = _ from hbooks]
      simp [Books.home?, Books.setTable]

theorem books_detachTable {d : Nat} (hd : f.books.home? (.table t) = some d) :
    (f.detachTable t).books = (f.books.strike d (.table t)).setTable t (some none) := by
  have hdepth : f.tables.depthOf? t = some d := by rw [← home?_books_table]; exact hd
  obtain ⟨v, hv, -⟩ := Option.bind_eq_some_iff.1 hd
  simp only [detachTable, hdepth]
  rw [books_withdraw, books_detachTables hv]
  rfl

/-- A table taken off its list is loose, and of no depth. -/
theorem kept_detachTable (h : f.books.Kept loose) (hu : f.books.Unclaimed loose t)
    {v : Option Nat} (ht : f.books.tables t = some v) :
    (f.detachTable t).books.Kept (.table t :: loose) ∧
      (f.detachTable t).books.tables t = some none := by
  obtain ⟨d, hd⟩ := h.home_of_unclaimed hu ht
  rw [books_detachTable hd]
  exact ⟨(h.strike hd hu.not_loose).setLooseTable none, by simp [Books.setTable]⟩

theorem detachTable_of_stale (ht : f.books.tables t = none) : f.detachTable t = f := by
  have hnone : f.tables.depthOf? t = none := by
    rw [← home?_books_table]
    simp [Books.home?, ht]
  simp only [detachTable, hnone]

theorem kept_freeTable (h : f.books.Kept loose)
    (hu : (f.books.tables t).isSome → f.books.Unclaimed loose t) :
    (f.freeTable t).2.books.Kept loose := by
  rw [freeTable, books_releaseTable]
  cases ht : f.books.tables t with
  | none =>
      rw [detachTable_of_stale ht, Books.setTable_eq_self ht]
      exact h
  | some v =>
      have hu := hu (by simp [ht])
      exact (kept_detachTable h hu ht).1.dropTable hu.not_loose

theorem kept_takeTable (h : f.books.Kept loose)
    (hu : (f.books.tables t).isSome → f.books.Unclaimed loose t) :
    (f.takeTable t).2.books.Kept loose := by
  unfold takeTable
  split
  · exact h
  · exact kept_freeTable h hu

/-! ## Scopes -/

theorem books_addScope (hf : f.Sound) (s : PooledScope) :
    (f.addScope s).books =
      f.books.setScope f.scopes.nextKey (some (some f.depth, some s.members)) :=
  books_acquireScopes hf.scopes f.depth s

/-- A new scope settles the loose table it is made over. -/
theorem kept_installScope (hf : f.Sound) (h : f.books.Kept (.table t :: loose))
    (hl : .table t ∉ loose) (ht : f.books.tables t = some none) (hs : ∀ k, .scope k ∉ loose)
    (kind : ScopeKind) (previous : ScopeRef) (shape : ShapeId) :
    (f.installScope kind previous shape t).2.books.Kept loose := by
  have hfresh : f.books.scopes f.scopes.nextKey = none :=
    books_scopes_eq_none.2 (Pool.acquire_fresh hf.scopes)
  have hadd := h.addScope hl ht hfresh f.depth
  rw [installScope_eq, books_register, books_addScope hf]
  · refine hadd.push ?_ (hs _)
    simp [Books.home?, Books.setScope, books]
  · exact hf.depth_lt

theorem kept_allocateBlock (hf : f.Sound) (h : f.books.Kept loose) (hs : ∀ k, .scope k ∉ loose)
    (previous : ScopeRef) (shape : ShapeId) (n : Nat) :
    (f.allocateBlock previous shape n).2.books.Kept
      (if (f.allocateBlock previous shape n).1.isNone then .table f.tables.nextKey :: loose
        else loose) := by
  have hacq := kept_acquireTable hf h none n
  have hbooks := books_acquireTable hf none n
  have htouch := touches_acquireTable (S := fun _ => False) (T := fun _ => False) hf (.inl rfl) n
  have hfst := acquireTable_fst f none n
  unfold allocateBlock
  split
  · next g he =>
      rw [he] at hacq
      exact hacq
  · next t g he =>
      rw [he] at hacq hbooks htouch hfst
      have ht : t = f.tables.nextKey := by
        rcases hfst with hfst | hfst
        · cases hfst
        · exact Option.some.inj hfst
      subst ht
      refine kept_installScope htouch.sound hacq (h.table_not_loose (nextTable_fresh hf)) ?_ hs
        _ _ _
      rw [show g.books = _ from hbooks]
      simp [Books.setTable]

theorem kept_allocateFunction (hf : f.Sound) (h : f.books.Kept loose)
    (hs : ∀ k, .scope k ∉ loose)
    (hu : (f.books.tables t).isSome → f.books.Unclaimed loose t) (binding : FunctionBinding)
    (previous : ScopeRef) (shape : ShapeId) (n : Nat) :
    (f.allocateFunction binding previous shape n t).2.books.Kept loose := by
  rcases f.allocateFunction_cases binding previous shape n t with ⟨hsame, -⟩ | ⟨hget, hdone⟩
  · rw [hsame]
    exact h
  · rw [hdone]
    have hready := touches_readyTable (S := fun _ => True) (T := fun _ => True) (t := t) hf
      trivial n
    obtain ⟨v, hv⟩ : ∃ v, f.books.tables t = some v := by
      obtain ⟨m, hm⟩ := Option.isSome_iff_exists.1 hget
      obtain ⟨e, he, -⟩ := Pool.get?_eq_some.1 hm
      exact ⟨e.depth, by simp [books, he]⟩
    have hu := hu (by simp [hv])
    have hbooks := books_modifyTable f t (·.ensureCapacity n)
    have hkept := kept_detachTable (hbooks ▸ h) (hbooks ▸ hu) (hbooks ▸ hv)
    exact kept_installScope hready.sound hkept.1 hu.not_loose hkept.2 hs _ _ _

theorem books_release (f : Frame) (a : Allocation) : (f.release a).books = f.books.free a := by
  cases a with
  | table t => exact books_releaseTable f t
  | scope k =>
      show (f.releaseScope k).2.books = _
      rw [releaseScope_snd]
      simp only [Books.free, books, scope?, Pool.get?]
      cases he : f.scopes.entry? k with
      | none => exact books_releaseScopes f k
      | some e =>
          cases hi : e.item with
          | none =>
              simp only [Option.map_some, hi, Option.bind_some, id]
              exact books_releaseScopes f k
          | some s =>
              simp only [Option.map_some, hi, Option.bind_some, id]
              exact (books_releaseTable _ _).trans (by rw [books_releaseScopes]; rfl)

/-- Whenever a scope is given back, its table goes with it. -/
theorem books_freeScope (f : Frame) (k : PoolKey) :
    (f.freeScope (.pooled k)).2.books.scopes = (f.books.free (.scope k)).scopes ∧
      (f.freeScope (.pooled k)).2.books.tables = (f.books.free (.scope k)).tables := by
  simp only [freeScope]
  split
  · next d _ =>
      have hbooks : (f.withdraw d (.scope k)).books = f.books.strike d (.scope k) :=
        books_withdraw f d (.scope k)
      have hrelease := books_release (f.withdraw d (.scope k)) (.scope k)
      rw [hbooks] at hrelease
      show ((f.withdraw d (.scope k)).release (.scope k)).books.scopes = _ ∧
        ((f.withdraw d (.scope k)).release (.scope k)).books.tables = _
      rw [hrelease]
      simp only [Books.free, Books.strike]
      split <;> exact ⟨rfl, rfl⟩
  · have hrelease := books_release f (.scope k)
    exact ⟨congrArg Books.scopes hrelease, congrArg Books.tables hrelease⟩

theorem kept_freeScope (h : f.books.Kept loose) (hs : ∀ k, .scope k ∉ loose) (r : ScopeRef) :
    (f.freeScope r).2.books.Kept loose := by
  cases r with
  | durable d => exact h
  | pooled k =>
      simp only [freeScope, ← home?_books_scope]
      cases hv : f.books.scopes k with
      | none =>
          have hfree : f.books.free (.scope k) = f.books := by
            simp only [Books.free, hv, Books.setScope_eq_self hv]
          have hhome : f.books.home? (.scope k) = none := by simp [Books.home?, hv]
          rw [hhome]
          show (f.release (.scope k)).books.Kept loose
          rw [books_release, hfree]
          exact h
      | some v =>
          obtain ⟨d, t, rfl⟩ := h.scope k v hv
          have hhome : f.books.home? (.scope k) = some d := by simp [Books.home?, hv]
          rw [hhome]
          show ((f.withdraw d (.scope k)).release (.scope k)).books.Kept loose
          rw [books_release, books_withdraw]
          exact (h.strike hhome (hs k)).free (hs k)

/-! ## Depths -/

theorem books_foldl_release (l : List Allocation) :
    ∀ f : Frame, (l.foldl release f).books = l.foldl Books.free f.books := by
  induction l with
  | nil => intro f; rfl
  | cons a l ih => intro f; rw [List.foldl_cons, List.foldl_cons, ih, books_release]

theorem books_reclaim (f : Frame) (d : Nat) : (f.reclaim d).books = f.books.reclaim d := by
  show (List.foldl release _ (f.books.listed d)).books = _
  rw [books_foldl_release, books_wipe]
  rfl

theorem books_endDepth (f : Frame) (d : Nat) : (f.endDepth d).books = f.books.reclaim d := by
  rw [endDepth, books_modifyEntry (g := DepthEntry.clear) fun _ => rfl, books_reclaim]

theorem kept_endDepth (h : f.books.Kept loose) (d : Nat) : (f.endDepth d).books.Kept loose := by
  rw [books_endDepth]
  exact h.reclaim d

theorem books_leave (f : Frame) :
    f.leave.books = { f.books.reclaim f.depth with depth := f.depth - 1 } := by
  rw [← books_endDepth]
  rfl

theorem kept_leave (h : f.books.Kept loose) : f.leave.books.Kept loose := by
  have hdepth : (f.books.reclaim f.depth).depth = f.depth := Books.depth_reclaim _ _
  have hlist : (f.books.reclaim f.depth).listed (f.books.reclaim f.depth).depth = [] := by
    rw [hdepth, Books.listed_reclaim, Function.update_self]
  have hup := (h.reclaim f.depth).shallower hlist
  rw [hdepth] at hup
  rw [books_leave]
  exact hup

theorem books_enter (hf : f.Sound) (node : Node) (scope : ScopeRef) :
    (f.enter node scope).books = { f.books with depth := f.depth + 1 } := by
  have hlt := hf.depth_lt
  ext1
  · rfl
  · funext j
    simp only [books, listed, enter]
    split
    · -- the entry is new, and its list is empty
      rw [Array.getElem?_push]
      split
      · next hj =>
          have hn : f.entries[j]? = none := by
            rw [Array.getElem?_eq_none_iff]
            omega
          rw [hn]
          rfl
      · rfl
    · rw [Array.getElem?_modify]
      split
      · rw [Option.map_map]
        rfl
      · rfl
  · rfl
  · rfl

theorem kept_enter (hf : f.Sound) (h : f.books.Kept loose) (node : Node) (scope : ScopeRef) :
    (f.enter node scope).books.Kept loose := by
  rw [books_enter hf]
  exact h.deeper

end Frame

end ScriptCore

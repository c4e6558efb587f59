import ScriptCore.Proofs.Books
import ScriptCore.Proofs.PoolMap

/-!
# What frame operations write into the books

Each operation of a frame is read as a sequence of entries in its books. The
equations of the first half say so for the elementary ones; the second half
follows the operations through them and shows that each leaves the books as
kept as it found them, with one more loose table where an allocation runs out
of room.
-/

namespace ScriptCore.Frame

/-- The list of a depth. -/
def listed (f : Frame) (d : Nat) : List Allocation :=
  (f.entries[d]?.map (·.allocations)).getD []

/-- The books of a frame. -/
def books (f : Frame) : Books where
  depth := f.depth
  listed := f.listed
  scopes k := (f.scopes.entry? k).map fun e => (e.depth, e.item.map (·.members))
  tables t := (f.tables.entry? t).map (·.depth)

variable {f : Frame} {k t : PoolKey} {a : Allocation} {d : Nat}

theorem books_tables_eq_none : f.books.tables t = none ↔ f.tables.entry? t = none := by
  simp [books]

theorem books_scopes_eq_none : f.books.scopes k = none ↔ f.scopes.entry? k = none := by
  simp [books]

theorem home?_books_scope : f.books.home? (.scope k) = f.scopes.depthOf? k := by
  simp only [Books.home?, books, Pool.depthOf?]
  cases f.scopes.entry? k <;> rfl

theorem home?_books_table : f.books.home? (.table t) = f.tables.depthOf? t := by
  simp only [Books.home?, books, Pool.depthOf?]
  cases f.tables.entry? t <;> rfl

theorem scopes_books_of_scope? {s : PooledScope} (h : f.scope? k = some s) :
    ∃ v, f.books.scopes k = some (v, some s.members) := by
  simp only [scope?, Pool.get?, Option.bind_eq_some_iff, Option.map_eq_some_iff] at h
  obtain ⟨i, ⟨x, hx, hi⟩, his⟩ := h
  simp only [id] at his
  subst his
  exact ⟨x.depth, by simp [books, hx, hi]⟩

/-! ## The lists -/

theorem books_modifyEntry {g : DepthEntry → DepthEntry}
    (hg : ∀ e, (g e).allocations = e.allocations) : (f.modifyEntry d g).books = f.books := by
  ext1
  · rfl
  · funext j
    simp only [books, listed, modifyEntry, Array.getElem?_modify]
    split
    · cases f.entries[j]? with
      | none => rfl
      | some e => simp [hg]
    · rfl
  · rfl
  · rfl

theorem books_modifyList {g : List Allocation → List Allocation}
    (hg : d < f.entries.size ∨ g [] = []) :
    (f.modifyEntry d fun e => { e with allocations := g e.allocations }).books =
      { f.books with listed := Function.update f.books.listed d (g (f.books.listed d)) } := by
  ext1
  · rfl
  · funext j
    simp only [books, listed, modifyEntry, Array.getElem?_modify]
    by_cases hj : d = j
    · subst hj
      rw [if_pos rfl, Function.update_self]
      cases he : f.entries[d]? with
      | none =>
          rw [Array.getElem?_eq_none_iff] at he
          exact (hg.resolve_left (by omega)).symm
      | some e => rfl
    · rw [if_neg hj, Function.update_of_ne (Ne.symm hj)]
      rfl
  · rfl
  · rfl

theorem books_register (h : f.depth < f.entries.size) (a : Allocation) :
    (f.register a).books = f.books.push a :=
  books_modifyList (g := (a :: ·)) (.inl h)

theorem books_withdraw (f : Frame) (d : Nat) (a : Allocation) :
    (f.withdraw d a).books = f.books.strike d a :=
  books_modifyList (g := a.withdraw) (.inr rfl)

theorem books_wipe (f : Frame) (d : Nat) :
    (f.modifyEntry d fun e => { e with allocations := [] }).books = f.books.wipe d :=
  books_modifyList (g := fun _ => []) (.inr rfl)

/-! ## The pools -/

theorem books_acquireTables (h : f.tables.WellKept) (v : Option Nat) (fresh : MemberTable) :
    { f with tables := (f.tables.acquire v fresh).2 }.books =
      f.books.setTable f.tables.nextKey (some v) := by
  ext1
  · rfl
  · rfl
  · rfl
  · funext t
    simp only [books, Books.setTable, Function.update_apply]
    split
    · next ht =>
        subst ht
        obtain ⟨e, he, hd⟩ := Pool.acquire_entry h v fresh
        simp [he, hd]
    · next ht => rw [Pool.entry?_acquire_of_ne h ht]

theorem books_modifyTables (f : Frame) (t : PoolKey) (g : MemberTable → MemberTable) :
    { f with tables := f.tables.modify t g }.books = f.books := by
  ext1
  · rfl
  · rfl
  · rfl
  · funext t'
    simp only [books, Pool.entry?_modify]
    split
    · next ht => rw [ht, Option.map_map]; rfl
    · rfl

theorem books_releaseTables (f : Frame) (t : PoolKey) (clear : MemberTable → MemberTable) :
    { f with tables := (f.tables.release t clear).2 }.books = f.books.setTable t none := by
  ext1
  · rfl
  · rfl
  · rfl
  · funext t'
    simp only [books, Pool.entry?_release, Books.setTable, Function.update_apply]
    split <;> rfl

theorem books_detachTables {v : Option Nat} (h : f.books.tables t = some v) :
    { f with tables := f.tables.detach t }.books = f.books.setTable t (some none) := by
  obtain ⟨e, he, -⟩ := Option.map_eq_some_iff.1 h
  ext1
  · rfl
  · rfl
  · rfl
  · funext t'
    simp only [books, Pool.entry?_detach, Books.setTable, Function.update_apply]
    split
    · simp [he]
    · rfl

/-- A scope handed out and filled in. -/
theorem books_acquireScopes (h : f.scopes.WellKept) (d : Nat) (s : PooledScope) :
    { f with
      scopes := (f.scopes.acquire (some d) none).2.modify f.scopes.nextKey fun _ => some s
    }.books = f.books.setScope f.scopes.nextKey (some (some d, some s.members)) := by
  ext1
  · rfl
  · rfl
  · funext k
    simp only [books, Pool.entry?_modify, Books.setScope, Function.update_apply]
    split
    · obtain ⟨e, he, hd⟩ := Pool.acquire_entry h (some d) none
      simp only [he, Option.map_some, hd]
    · next hk => rw [Pool.entry?_acquire_of_ne h hk]
  · rfl

theorem books_releaseScopes (f : Frame) (k : PoolKey) :
    { f with scopes := (f.scopes.release k fun _ => none).2 }.books =
      f.books.setScope k none := by
  ext1
  · rfl
  · rfl
  · funext k'
    simp only [books, Pool.entry?_release, Books.setScope, Function.update_apply]
    split <;> rfl
  · rfl

/-- A change of a scope that keeps its member table is no matter of the books. -/
theorem books_modifyScopes (f : Frame) (k : PoolKey) {g : PooledScope → PooledScope}
    (hg : ∀ s, (g s).members = s.members) :
    { f with scopes := f.scopes.modify k (Option.map g) }.books = f.books := by
  ext1
  · rfl
  · rfl
  · funext k'
    simp only [books, Pool.entry?_modify]
    split
    · next hk =>
        rw [hk, Option.map_map]
        congr 1
        funext e
        simp [Function.comp_def, hg]
    · rfl
  · rfl

end ScriptCore.Frame

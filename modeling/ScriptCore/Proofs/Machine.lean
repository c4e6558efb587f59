import ScriptCore.Proofs.Operation

/-!
# Runs of a frame

A frame forgets how often an index was taken back and who was given which
table. `Machine` keeps that beside it, together with the tables that allocations
leaked. None of it feeds back into the engine; `after` performs the operation
and brings the record up to date.

Two invariants hold along a run. `Tracked` needs nothing of the caller: it says
that the generation of an entry is the number of its releases, so that a handle
reaches its entry for as long as this number is the one it was issued with.
`Owned` is about runs in which a table is consumed by the one who holds it,
once, and before its index was taken back 2^32 times: the books are kept, and
whatever table somebody holds is on a list.
-/

namespace ScriptCore

/-! ## Handles -/

namespace Handle

/-- The handle was issued by a pool whose entries were taken back `n` times. -/
structure Issued {α : Type} (n : Nat → Nat) (p : Pool α) (h : Handle) : Prop where
  generation : h.key.generation = UInt32.ofNat h.issued
  le : h.issued ≤ n h.key.index
  live : h.issued = n h.key.index → (p.entry? h.key).isSome

variable {α : Type} {n : Nat → Nat} {p q : Pool α} {h h' : Handle}

theorem Issued.move (hi : h.Issued n p) (hm : Pool.Moves p q) :
    h.Issued (fun i => n i + Pool.recycled p q i) q := by
  have hle := hi.le
  refine ⟨hi.generation, Nat.le_add_right_of_le hle, fun heq => ?_⟩
  obtain ⟨e, he⟩ := Option.isSome_iff_exists.1 (hi.live (by omega))
  obtain ⟨e', he'⟩ := hm.entry?_of_not_recycled he (by omega)
  simp [he']

/-- A handle that reaches something, and is not too old, is current. -/
theorem Issued.current (hi : h.Issued n p) (hc : Pool.Counts n p)
    (hyoung : n h.key.index < h.issued + 4294967296) (hl : (p.entry? h.key).isSome) :
    h.issued = n h.key.index := by
  obtain ⟨e, he⟩ := Option.isSome_iff_exists.1 hl
  obtain ⟨hget, -, hgen⟩ := Pool.entry?_eq_some.1 he
  refine Pool.eq_of_ofNat_eq hi.le hyoung ?_
  rw [← hi.generation, ← hgen, hc.generation _ e hget]

/-- Once its entry was taken back, a handle reaches nothing. -/
theorem Issued.stale (hi : h.Issued n p) (hc : Pool.Counts n p)
    (hgone : h.issued < n h.key.index) (hyoung : n h.key.index < h.issued + 4294967296) :
    p.entry? h.key = none := by
  cases he : p.entry? h.key with
  | none => rfl
  | some e =>
      have := hi.current hc hyoung (by simp [he])
      omega

/-- Of the handles that are not too old, only one reaches a live entry. -/
theorem Issued.eq_of_key (hi : h.Issued n p) (hi' : h'.Issued n p) (hc : Pool.Counts n p)
    (hyoung : n h.key.index < h.issued + 4294967296) (hcur : h'.issued = n h'.key.index)
    (hk : h.key = h'.key) : h = h' := by
  have hlive : (p.entry? h.key).isSome := by
    rw [hk]
    exact hi'.live hcur
  have hissued := hi.current hc hyoung hlive
  have : h.issued = h'.issued := by rw [hissued, hcur, hk]
  cases h; cases h'
  simp_all

/-- The handle of what a key reaches. -/
theorem issued_of_live {k : PoolKey} (hc : Pool.Counts n p) (hl : (p.entry? k).isSome) :
    Issued n p ⟨k, n k.index⟩ := by
  obtain ⟨e, he⟩ := Option.isSome_iff_exists.1 hl
  obtain ⟨hget, -, hgen⟩ := Pool.entry?_eq_some.1 he
  refine ⟨?_, Nat.le_refl _, fun _ => hl⟩
  show k.generation = UInt32.ofNat (n k.index)
  rw [← hgen, hc.generation _ e hget]

end Handle

/-! ## What an operation hands out -/

namespace Op

/-- The table an operation hands out to whoever asked for one. -/
def newHeld? (e : Engine) : Op → Option PoolKey
  | allocateTable size => (e.frame.allocateTable size).1
  | _ => none

end Op

namespace Frame

variable {f : Frame} {k t : PoolKey}

theorem acquireTable_live (hf : f.Sound) (v : Option Nat) (n : Nat) :
    (f.acquireTable v n).2.books.tables f.tables.nextKey = some v := by
  rw [books_acquireTable hf]
  simp [Books.setTable]

theorem allocateTable_some (hf : f.Sound) {n : Nat} (h : (f.allocateTable n).1 = some t) :
    t = f.tables.nextKey ∧ (f.allocateTable n).2.books.tables t = some (some f.depth) := by
  have hlive := acquireTable_live hf (some f.depth) n
  have hfst := acquireTable_fst f (some f.depth) n
  unfold allocateTable at h ⊢
  split at h
  · cases h
  · next t' g he =>
      rw [he] at hlive hfst
      have ht : t' = f.tables.nextKey := Option.some.inj (hfst.resolve_left nofun)
      have hh : t' = t := Option.some.inj h
      subst hh
      subst ht
      exact ⟨rfl, hlive⟩

end Frame

namespace Op

variable {e : Engine} {o : Op} {k t : PoolKey}

/-- A table that somebody is given is on the list of the current depth. -/
theorem newHeld?_spec (hf : e.frame.Sound) (h : o.newHeld? e = some t) :
    t = e.frame.tables.nextKey ∧ o.leaked? e = none ∧
      (o.perform e).frame.books.tables t = some (some e.frame.depth) := by
  cases o with
  | allocateTable size =>
      have h : (e.frame.allocateTable size).1 = some t := h
      obtain ⟨hnext, hlist⟩ := Frame.allocateTable_some hf h
      exact ⟨hnext, by simp [leaked?, h], hlist⟩
  | _ => cases h

theorem leaked?_spec (h : o.leaked? e = some t) : t = e.frame.tables.nextKey := by
  cases o with
  | allocateBlock previous shape =>
      simp only [leaked?] at h
      split at h
      · exact (Option.some.inj h).symm
      · cases h
  | allocateTable size =>
      simp only [leaked?] at h
      split at h
      · exact (Option.some.inj h).symm
      · cases h
  | _ => cases h

end Op

/-! ## Machines -/

/-- An engine, and what a run of its frame has to remember. -/
structure Machine where
  engine : Engine
  /-- How often the entry at each index was taken back. -/
  scopeReleases : Nat → Nat
  tableReleases : Nat → Nat
  /-- The tables that were given to somebody and not consumed yet. -/
  held : List Handle
  /-- The tables of allocations that ran out of room. -/
  lost : List PoolKey

namespace Machine

/-- A new frame that works on some shared state. -/
def start (store : Store) (config : FrameConfig) (global : GlobalId) (flag : FlagId) :
    Machine where
  engine := { store, frame := { config, global, flag } }
  scopeReleases _ := 0
  tableReleases _ := 0
  held := []
  lost := []

def after (m : Machine) (o : Op) : Machine :=
  let e := o.perform m.engine
  let scopeReleases i := m.scopeReleases i + m.engine.frame.scopes.recycled e.frame.scopes i
  let tableReleases i := m.tableReleases i + m.engine.frame.tables.recycled e.frame.tables i
  { engine := e
    scopeReleases
    tableReleases
    held :=
      (o.newHeld? m.engine).toList.map (fun t => ⟨t, tableReleases t.index⟩) ++
        m.held.filter fun h => o.consumes? ≠ some h
    lost := (o.leaked? m.engine).toList ++ m.lost }

def run (m : Machine) (os : List Op) : Machine := os.foldl after m

/-- The tables that allocations of a run leaked for want of room. -/
def leaks (m : Machine) : List Op → List PoolKey
  | [] => []
  | o :: os => (m.after o).leaks os ++ (o.leaked? m.engine).toList

theorem run_append (m : Machine) (os os' : List Op) : m.run (os ++ os') = (m.run os).run os' :=
  List.foldl_append

theorem leaks_append (os os' : List Op) :
    ∀ m : Machine, m.leaks (os ++ os') = (m.run os).leaks os' ++ m.leaks os := by
  induction os with
  | nil => intro m; exact (List.append_nil _).symm
  | cons o os ih =>
      intro m
      show (m.after o).leaks (os ++ os') ++ _ = _
      rw [ih, List.append_assoc]
      rfl

theorem lost_run (os : List Op) : ∀ m : Machine, (m.run os).lost = m.leaks os ++ m.lost := by
  induction os with
  | nil => intro m; rfl
  | cons o os ih =>
      intro m
      show ((m.after o).run os).lost = _
      rw [ih, leaks, List.append_assoc]
      rfl

/-- The frame is in order, and its generations count the releases. -/
structure Tracked (m : Machine) : Prop where
  sound : m.engine.frame.Sound
  scopeCounts : Pool.Counts m.scopeReleases m.engine.frame.scopes
  tableCounts : Pool.Counts m.tableReleases m.engine.frame.tables

theorem tracked_start (store : Store) (config : FrameConfig) (global : GlobalId)
    (flag : FlagId) : (start store config global flag).Tracked :=
  ⟨⟨Pool.wellKept_empty, Pool.wellKept_empty, Nat.one_pos⟩, Pool.counts_empty,
    Pool.counts_empty⟩

theorem Tracked.after {m : Machine} (hm : m.Tracked) (o : Op) : (m.after o).Tracked := by
  have hmoves := o.moves_perform m.engine
  exact ⟨o.sound_perform hm.sound, hm.scopeCounts.move hmoves.scopes,
    hm.tableCounts.move hmoves.tables⟩

theorem Tracked.run {m : Machine} (hm : m.Tracked) (os : List Op) : (m.run os).Tracked := by
  induction os generalizing m with
  | nil => exact hm
  | cons o os ih => exact ih (hm.after o)

/-! ## Runs that keep to the rules -/

/-- The current depth stays between that of the activation the run belongs to
and the limit. -/
def InDepth (base : Nat) (f : Frame) (o : Op) : Prop :=
  match o with
  | .enter _ _ => f.depth < f.config.maxDepth
  | .leave => base < f.depth
  | _ => True

/-- What the operations ask of a caller. A table is consumed by the one who
holds it, and before its index was taken back 2^32 times. -/
structure Allows (base : Nat) (m : Machine) (o : Op) : Prop where
  depth : InDepth base m.engine.frame o
  held : ∀ h ∈ o.consumes?, h ∈ m.held
  young : ∀ h ∈ o.consumes?, m.tableReleases h.key.index < h.issued + 4294967296

/-- A run of an activation at depth `base`, or of the host. -/
def Lawful (base : Nat) (m : Machine) : List Op → Prop
  | [] => True
  | o :: os => Allows base m o ∧ Lawful base (m.after o) os

instance (base : Nat) (f : Frame) : (o : Op) → Decidable (InDepth base f o)
  | .enter _ _ => inferInstanceAs (Decidable (f.depth < f.config.maxDepth))
  | .leave => inferInstanceAs (Decidable (base < f.depth))
  | .allocateBlock .. | .allocateTable .. | .allocateFunction .. | .freeTable ..
  | .takeTable .. | .freeScope .. | .editTable .. | .declare .. | .assign .. | .mixin ..
  | .setLine .. | .reset | .share .. => inferInstanceAs (Decidable True)

instance (base : Nat) (m : Machine) (o : Op) : Decidable (Allows base m o) :=
  decidable_of_iff
    (InDepth base m.engine.frame o ∧ (∀ h ∈ o.consumes?, h ∈ m.held) ∧
      ∀ h ∈ o.consumes?, m.tableReleases h.key.index < h.issued + 4294967296)
    ⟨fun ⟨hd, hh, hy⟩ => ⟨hd, hh, hy⟩, fun h => ⟨h.depth, h.held, h.young⟩⟩

instance decidableLawful (base : Nat) :
    (m : Machine) → (os : List Op) → Decidable (Lawful base m os)
  | _, [] => inferInstanceAs (Decidable True)
  | m, o :: os =>
    have := decidableLawful base (m.after o) os
    inferInstanceAs (Decidable (Allows base m o ∧ Lawful base (m.after o) os))

theorem lawful_append {base : Nat} {m : Machine} {os os' : List Op} :
    Lawful base m (os ++ os') ↔ Lawful base m os ∧ Lawful base (m.run os) os' := by
  induction os generalizing m with
  | nil => exact (and_iff_right trivial).symm
  | cons o os ih =>
      have hrest := ih (m := m.after o)
      constructor
      · rintro ⟨ho, hos⟩
        exact ⟨⟨ho, (hrest.1 hos).1⟩, (hrest.1 hos).2⟩
      · rintro ⟨⟨ho, hos⟩, hos'⟩
        exact ⟨ho, hrest.2 ⟨hos, hos'⟩⟩

/-- Everything live has an owner, apart from the tables that were lost, and a
table in somebody's hands is on a list until it is given back. -/
structure Owned (m : Machine) : Prop where
  kept : m.engine.frame.books.Kept (m.lost.map .table)
  held : ∀ h ∈ m.held, h.Issued m.tableReleases m.engine.frame.tables
  listed : ∀ h ∈ m.held, h.issued = m.tableReleases h.key.index →
    h.key ∉ m.lost ∧ ∃ d, m.engine.frame.books.tables h.key = some (some d)

theorem owned_start (store : Store) (config : FrameConfig) (global : GlobalId)
    (flag : FlagId) : (start store config global flag).Owned where
  kept := .of_empty (fun _ => rfl) (fun _ => rfl) fun d => by cases d <;> rfl
  held := nofun
  listed := nofun

variable {m : Machine} {o : Op} {base : Nat}

theorem isSome_entry?_iff (t : PoolKey) :
    (m.engine.frame.tables.entry? t).isSome ↔ (m.engine.frame.books.tables t).isSome := by
  simp [Frame.books]

theorem isSome_scopes_iff (k : PoolKey) :
    (m.engine.frame.scopes.entry? k).isSome ↔ (m.engine.frame.books.scopes k).isSome := by
  simp [Frame.books]

/-- What is consumed is nobody else's. -/
theorem Owned.unclaimed (hm : m.Tracked) (hw : m.Owned) (ho : Allows base m o) {h : Handle}
    (hc : o.consumes? = some h) (hlive : (m.engine.frame.books.tables h.key).isSome) :
    m.engine.frame.books.Unclaimed (m.lost.map .table) h.key := by
  have hheld := ho.held h hc
  have hcur := (hw.held h hheld).current hm.tableCounts (ho.young h hc)
    ((isSome_entry?_iff _).2 hlive)
  obtain ⟨hlost, d, hd⟩ := hw.listed h hheld hcur
  refine ⟨by simpa using hlost, fun k d' hk => ?_⟩
  obtain ⟨hnone, -⟩ := hw.kept.members k d' h.key hk
  rw [hd] at hnone
  cases hnone

theorem Owned.kept_after (hm : m.Tracked) (hw : m.Owned) (ho : Allows base m o) :
    (m.after o).engine.frame.books.Kept ((m.after o).lost.map .table) := by
  have hk := Op.kept_perform (o := o) hm.sound hw.kept (by simp)
    fun h hc hlive => hw.unclaimed hm ho hc hlive
  rw [← List.map_append] at hk
  exact hk

/-- A table that stays in somebody's hands stays on its list. -/
theorem Owned.listed_after (hm : m.Tracked) (hw : m.Owned) (ho : Allows base m o) {h : Handle}
    (hh : h ∈ m.held) (hne : o.consumes? ≠ some h)
    (hcur : h.issued = (m.after o).tableReleases h.key.index) :
    h.key ∉ (m.after o).lost ∧
      ∃ d, (m.after o).engine.frame.books.tables h.key = some (some d) := by
  have hissued := hw.held h hh
  have hissued' := hissued.move (o.moves_perform m.engine).tables
  -- it was current before, and it is live now
  have hbefore : h.issued = m.tableReleases h.key.index := by
    have hle := hissued.le
    have hcur : h.issued = m.tableReleases h.key.index + _ := hcur
    omega
  obtain ⟨v, hv⟩ := Option.isSome_iff_exists.1 ((isSome_entry?_iff (m := m.after o) _).1
    (hissued'.live hcur))
  obtain ⟨hlost, d, hd⟩ := hw.listed h hh hbefore
  constructor
  · intro hmem
    rcases List.mem_append.1 hmem with hmem | hmem
    · have hnext := Op.leaked?_spec (Option.mem_toList.1 hmem)
      have hfresh := Frame.nextTable_fresh hm.sound
      rw [← hnext, hd] at hfresh
      cases hfresh
    · exact hlost hmem
  · have hother : ∀ h', o.consumes? = some h' → h'.key ≠ h.key := by
      intro h' hc hk
      have hissued₀ := hw.held h' (ho.held h' hc)
      have := hissued₀.eq_of_key hissued hm.tableCounts (ho.young h' hc) hbefore hk
      exact hne (this ▸ hc)
    have hsame := Op.tables_perform hm.sound hd hv hother
    exact ⟨d, by rw [hv, hsame]⟩

theorem Owned.after (hm : m.Tracked) (hw : m.Owned) (ho : Allows base m o) :
    (m.after o).Owned where
  kept := hw.kept_after hm ho
  held := by
    intro h hh
    rcases List.mem_append.1 hh with hh | hh
    · obtain ⟨t, ht, rfl⟩ := List.mem_map.1 hh
      obtain ⟨-, -, hlist⟩ := Op.newHeld?_spec hm.sound (Option.mem_toList.1 ht)
      refine Handle.issued_of_live (hm.after o).tableCounts ?_
      exact (isSome_entry?_iff (m := m.after o) t).2 (Option.isSome_iff_exists.2 ⟨_, hlist⟩)
    · exact (hw.held h (List.mem_filter.1 hh).1).move (o.moves_perform m.engine).tables
  listed := by
    intro h hh hcur
    rcases List.mem_append.1 hh with hh | hh
    · obtain ⟨t, ht, rfl⟩ := List.mem_map.1 hh
      obtain ⟨hnext, hleak, hlist⟩ := Op.newHeld?_spec hm.sound (Option.mem_toList.1 ht)
      refine ⟨fun hmem => ?_, _, hlist⟩
      have hmem : t ∈ m.lost := by simpa [Machine.after, hleak] using hmem
      have hlive := hw.kept.live (.table t) (List.mem_map.2 ⟨t, hmem, rfl⟩)
      have hfresh := Frame.nextTable_fresh hm.sound
      rw [← hnext] at hfresh
      simp [Books.Live, hfresh] at hlive
    · obtain ⟨hh, hne⟩ := List.mem_filter.1 hh
      exact hw.listed_after hm ho hh (by simpa using hne) hcur

theorem Owned.run {os : List Op} (hm : m.Tracked) (hw : m.Owned) (hos : Lawful base m os) :
    (m.run os).Owned := by
  induction os generalizing m with
  | nil => exact hw
  | cons o os ih => exact ih (hm.after o) (hw.after hm hos.1) hos.2

end Machine

end ScriptCore

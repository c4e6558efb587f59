import ScriptCore.Proofs.StaleHandles

/-!
# A scope encloses only younger scopes

The scope that encloses a new one is named by a key, and a key can only be
named once it was given out. So what a live scope is enclosed by is older than
the scope itself, and a walk outward goes back in time. That is why a chain of
live scopes ends: it cannot come back to a scope it has passed.

The age of a scope is its place in the list of all keys given out so far,
newest first. A key is on that list once as long as no generation wraps
around, which takes 2^32 releases of one index.
-/

namespace ScriptCore

namespace ScopeRef

variable {r : ScopeRef} {k : PoolKey}

def key? : ScopeRef → Option PoolKey
  | .pooled k => some k
  | .durable _ => none

theorem key?_eq_some : r.key? = some k ↔ r = .pooled k := by
  cases r <;> simp [key?]

theorem key?_eq_none : r.key? = none ↔ ∃ d, r = .durable d := by
  cases r <;> simp [key?]

end ScopeRef

/-! ## The scopes of a frame after an operation -/

namespace Frame

variable {f : Frame} {k : PoolKey} {s : PooledScope}

theorem scope?_installScope (hf : f.Sound) (kind : ScopeKind) (previous : ScopeRef)
    (shape : ShapeId) (members k : PoolKey) :
    (f.installScope kind previous shape members).2.scope? k =
      if k = f.scopes.nextKey then some { kind, previous, shape, members } else f.scope? k := by
  rw [installScope_eq]
  show (Pool.get? (f.addScope _).scopes k).bind id = _
  simp only [addScope, Pool.get?, Pool.entry?_modify]
  split
  · obtain ⟨x, hx, -⟩ := Pool.acquire_entry hf.scopes (some f.depth) none
    rw [hx]
    rfl
  · next hk =>
      rw [Pool.entry?_acquire_of_ne hf.scopes hk]
      rfl

/-- A block is made over the next table, or there is no room for one. -/
theorem allocateBlock_cases (f : Frame) (previous : ScopeRef) (shape : ShapeId) (n : Nat) :
    f.allocateBlock previous shape n = (none, (f.acquireTable none n).2) ∨
      (f.acquireTable none n).1 = some f.tables.nextKey ∧
        f.allocateBlock previous shape n =
          (some f.scopes.nextKey,
            ((f.acquireTable none n).2.installScope .block previous shape
              f.tables.nextKey).2) := by
  have hscopes := acquireTable_scopes f none n
  have hfst := acquireTable_fst f none n
  unfold allocateBlock
  split
  · next g he =>
      rw [he]
      exact .inl rfl
  · next t g he =>
      rw [he] at hscopes hfst ⊢
      have ht : t = f.tables.nextKey := Option.some.inj (hfst.resolve_left nofun)
      have hscopes : g.scopes = f.scopes := hscopes
      subst ht
      refine .inr ⟨rfl, ?_⟩
      simp only [installScope_eq]
      rw [hscopes]

theorem scope?_of_foldl_release {l : List Allocation} (hs : (l.foldl release f).scope? k = some s) :
    f.scope? k = some s := by
  induction l generalizing f with
  | nil => exact hs
  | cons a l ih => exact scope?_of_release (ih hs)

theorem scope?_of_endDepth {d : Nat} (hs : (f.endDepth d).scope? k = some s) :
    f.scope? k = some s := by
  have hwiped := scope?_of_foldl_release
    (f := f.modifyEntry d fun e => { e with allocations := [] }) hs
  exact hwiped

theorem scope?_of_freeScope {r : ScopeRef} (hs : (f.freeScope r).2.scope? k = some s) :
    f.scope? k = some s := by
  cases r with
  | durable d => exact hs
  | pooled k' =>
      simp only [freeScope] at hs
      split at hs
      · next d _ =>
          have hw := scope?_of_release (f := f.withdraw d (.scope k')) (a := .scope k') hs
          exact hw
      · exact scope?_of_release (a := .scope k') hs

theorem freeTable_scopes (f : Frame) (t : PoolKey) : (f.freeTable t).2.scopes = f.scopes := by
  unfold freeTable detachTable
  split <;> rfl

theorem takeTable_scopes (f : Frame) (t : PoolKey) : (f.takeTable t).2.scopes = f.scopes := by
  unfold takeTable
  split
  · rfl
  · exact freeTable_scopes f t

theorem allocateTable_scopes (f : Frame) (n : Nat) : (f.allocateTable n).2.scopes = f.scopes := by
  have hacq := acquireTable_scopes f (some f.depth) n
  unfold allocateTable
  split
  · next g he =>
      rw [he] at hacq
      exact hacq
  · next t g he =>
      rw [he] at hacq
      exact hacq

end Frame

namespace Op

variable {e : Engine} {o : Op} {k : PoolKey} {s : PooledScope}

/-- The scope that will enclose the one an operation makes. -/
def previous? : Op → Option ScopeRef
  | allocateBlock previous _ | allocateFunction _ previous _ _ => some previous
  | _ => none

/-- Its key, if it is a pooled one. -/
def previousKey? (o : Op) : Option PoolKey := o.previous?.bind ScopeRef.key?

/-- A live scope is the one that was just made, or it was there before; then all
that may have changed are its mixins. -/
theorem scope?_perform (hf : e.frame.Sound) (h : (o.perform e).frame.scope? k = some s) :
    (∃ s₀, e.frame.scope? k = some s₀ ∧ s = { s₀ with mixins := s.mixins }) ∨
      o.newScope? e = some k ∧ o.previous? = some s.previous := by
  have hold : e.frame.scope? k = some s →
      (∃ s₀, e.frame.scope? k = some s₀ ∧ s = { s₀ with mixins := s.mixins }) ∨
        o.newScope? e = some k ∧ o.previous? = some s.previous := fun hs => .inl ⟨s, hs, rfl⟩
  have hsame : (o.perform e).frame.scopes = e.frame.scopes → e.frame.scope? k = some s := by
    intro hscopes
    rwa [Frame.scope?, hscopes] at h
  cases o with
  | allocateBlock previous shape =>
      have h : (e.frame.allocateBlock previous shape (e.store.shapeSize shape)).2.scope? k =
        some s := h
      rcases e.frame.allocateBlock_cases previous shape (e.store.shapeSize shape) with
        hno | ⟨-, hdone⟩
      · rw [hno, Frame.scope?, Frame.acquireTable_scopes] at h
        exact hold h
      · have hacq := Frame.touches_acquireTable (S := fun _ => False) (T := fun _ => False) hf
          (.inl rfl) (e.store.shapeSize shape)
        rw [hdone, Frame.scope?_installScope hacq.sound, Frame.acquireTable_scopes] at h
        split at h
        · next hk =>
            cases h
            refine .inr ⟨?_, rfl⟩
            rw [newScope?, hdone, hk]
        · rw [Frame.scope?, Frame.acquireTable_scopes] at h
          exact hold h
  | allocateFunction binding previous shape t =>
      have h : (e.frame.allocateFunction binding previous shape (e.store.shapeSize shape)
        t.key).2.scope? k = some s := h
      rcases e.frame.allocateFunction_cases binding previous shape (e.store.shapeSize shape) t.key
        with ⟨hno, -⟩ | ⟨-, hdone⟩
      · rw [hno] at h
        exact hold h
      · have hready := Frame.touches_readyTable (S := fun _ => True) (T := fun _ => True)
          (t := t.key) hf trivial (e.store.shapeSize shape)
        rw [hdone, Frame.scope?_installScope hready.sound, Frame.readyTable_scopes] at h
        split at h
        · next hk =>
            cases h
            refine .inr ⟨?_, rfl⟩
            rw [newScope?, hdone, hk]
        · rw [Frame.scope?, Frame.readyTable_scopes] at h
          exact hold h
  | allocateTable n => exact hold (hsame (Frame.allocateTable_scopes _ _))
  | freeTable t => exact hold (hsame (Frame.freeTable_scopes _ _))
  | takeTable t => exact hold (hsame (Frame.takeTable_scopes _ _))
  | freeScope r => exact hold (Frame.scope?_of_freeScope h)
  | editTable t c => exact hold h
  | declare r x a =>
      refine hold (hsame ?_)
      rcases e.declare_frame r x a with hd | ⟨k', own, c, -, -, hd⟩ <;>
        exact (congrArg Frame.scopes hd).trans rfl
  | assign slot v =>
      refine hold (hsame ?_)
      rcases e.assign_frame slot v with hd | ⟨t, i, x, c, -, hd⟩ <;>
        exact (congrArg Frame.scopes hd).trans rfl
  | mixin r source =>
      have h : (e.mixin r source).2.frame.scope? k = some s := h
      unfold Engine.mixin at h
      split at h
      · split at h <;> exact hold h
      · next k' =>
          split at h
          · exact hold h
          · simp only [Frame.scope?, Pool.get?, Pool.entry?_modify] at h
            split at h
            · next hk =>
                subst hk
                simp only [Option.map_map, Option.bind_eq_some_iff, Option.map_eq_some_iff] at h
                obtain ⟨item, ⟨x, hx, rfl⟩, hitem⟩ := h
                obtain ⟨s₀, hs₀, rfl⟩ := Option.map_eq_some_iff.1 hitem
                refine .inl ⟨s₀, ?_, rfl⟩
                simp [Frame.scope?, Pool.get?, hx, hs₀]
            · exact hold h
  | setLine r line =>
      refine hold (hsame ?_)
      rcases e.setLine_frame r line with hd | ⟨c, -, hd⟩ <;>
        exact (congrArg Frame.scopes hd).trans rfl
  | reset => exact hold (Frame.scope?_of_endDepth h)
  | enter node r => exact hold h
  | leave =>
      have h : (e.frame.endDepth e.frame.depth).scope? k = some s := h
      exact hold (Frame.scope?_of_endDepth h)
  | share st => exact hold h

/-- The scope an operation makes was not there before. -/
theorem newScope?_fresh (hf : e.frame.Sound) (h : o.newScope? e = some k) :
    e.frame.scopes.entry? k = none := by
  have hfresh := Pool.acquire_fresh hf.scopes
  cases o with
  | allocateBlock previous shape =>
      rcases e.frame.allocateBlock_cases previous shape (e.store.shapeSize shape) with
        hno | ⟨-, hdone⟩
      · rw [newScope?, hno] at h
        cases h
      · rw [newScope?, hdone] at h
        cases h
        exact hfresh
  | allocateFunction binding previous shape t =>
      simp only [newScope?] at h
      rcases e.frame.allocateFunction_cases binding previous shape (e.store.shapeSize shape) t.key
        with ⟨-, hno⟩ | ⟨-, hdone⟩
      · split at h
        · next k' hk' => exact absurd hk' (hno k')
        · cases h
      · rw [hdone] at h
        cases h
        exact hfresh
  | _ => cases h

end Op

/-! ## The scopes of a chain are older and older -/

namespace Machine

/-- Every scope that is to enclose a new one was given out before. -/
def Rooted (m : Machine) (issued : List PoolKey) : List Op → Prop
  | [] => True
  | o :: os =>
    (∀ k ∈ o.previousKey?, k ∈ issued) ∧
      (m.after o).Rooted ((o.newScope? m.engine).toList ++ issued) os

instance decidableRooted :
    (m : Machine) → (issued : List PoolKey) → (os : List Op) → Decidable (m.Rooted issued os)
  | _, _, [] => inferInstanceAs (Decidable True)
  | m, issued, o :: os =>
    have := decidableRooted (m.after o) ((o.newScope? m.engine).toList ++ issued) os
    inferInstanceAs (Decidable ((∀ k ∈ o.previousKey?, k ∈ issued) ∧ Rooted _ _ os))

/-- The keys of all scopes that a run gives out, newest first. -/
def issues (m : Machine) (issued : List PoolKey) : List Op → List PoolKey
  | [] => issued
  | o :: os => (m.after o).issues ((o.newScope? m.engine).toList ++ issued) os

/-- No index was taken back so often that its generation wrapped around. -/
def Unwrapped (m : Machine) : Prop := ∀ i, m.scopeReleases i < 4294967296

/-- What a live scope is enclosed by was given out before it. -/
structure Lineage (m : Machine) (issued : List PoolKey) : Prop where
  handles : ∀ k ∈ issued,
    Handle.Issued m.scopeReleases m.engine.frame.scopes ⟨k, k.generation.toNat⟩
  mem_issued : ∀ k own, m.engine.frame.scope? k = some own → k ∈ issued
  older : ∀ k own j, m.engine.frame.scope? k = some own → own.previous = .pooled j →
    j ∈ issued ∧ issued.idxOf k < issued.idxOf j

theorem lineage_start (store : Store) (config : FrameConfig) (global : GlobalId) (flag : FlagId) :
    (start store config global flag).Lineage [] where
  handles := nofun
  mem_issued := nofun
  older := nofun

variable {m : Machine} {issued : List PoolKey} {o : Op} {k : PoolKey}

theorem scopeReleases_le_run (os : List Op) :
    ∀ (m : Machine) (i : Nat), m.scopeReleases i ≤ (m.run os).scopeReleases i := by
  induction os with
  | nil => exact fun _ _ => Nat.le_refl _
  | cons o os ih => exact fun m i => Nat.le_trans (Nat.le_add_right _ _) (ih (m.after o) i)

/-- Each operation takes an entry back once at most. -/
theorem scopeReleases_run_le (os : List Op) :
    ∀ (m : Machine) (i : Nat), (m.run os).scopeReleases i ≤ m.scopeReleases i + os.length := by
  induction os with
  | nil => exact fun _ _ => Nat.le_refl _
  | cons o os ih =>
      intro m i
      have hrest := ih (m.after o) i
      have hone : m.engine.frame.scopes.recycled (o.perform m.engine).frame.scopes i ≤ 1 := by
        unfold Pool.recycled
        split
        · split <;> omega
        · omega
      have hstep : (m.after o).scopeReleases i = m.scopeReleases i +
        m.engine.frame.scopes.recycled (o.perform m.engine).frame.scopes i := rfl
      show ((m.after o).run os).scopeReleases i ≤ m.scopeReleases i + (os.length + 1)
      omega

/-- A scope that is made gets a key that was not given out before. -/
theorem Lineage.newScope?_not_mem (h : m.Lineage issued) (hm : m.Tracked)
    (hu : (m.after o).Unwrapped) (hk : o.newScope? m.engine = some k) : k ∉ issued := by
  intro hmem
  have hissued := h.handles k hmem
  have hfresh := Op.newScope?_fresh hm.sound hk
  obtain ⟨x, hx⟩ := Option.isSome_iff_exists.1 (Op.newScope?_live hm.sound hk)
  obtain ⟨hget, -, hgen⟩ := Pool.entry?_eq_some.1 hx
  have hcount := (hm.after o).scopeCounts.generation k.index x hget
  have hreleases : k.generation.toNat = (m.after o).scopeReleases k.index := by
    rw [← hgen, hcount, UInt32.toNat_ofNat', Nat.mod_eq_of_lt (hu k.index)]
  -- it was the key of the entry even before, which was not live then
  have hle : k.generation.toNat ≤ m.scopeReleases k.index := hissued.le
  have hstep : (m.after o).scopeReleases k.index = m.scopeReleases k.index + _ := rfl
  have hlive := hissued.live (by show k.generation.toNat = m.scopeReleases k.index; omega)
  rw [hfresh] at hlive
  cases hlive

theorem Lineage.after (h : m.Lineage issued) (hm : m.Tracked)
    (ho : ∀ k ∈ o.previousKey?, k ∈ issued) (hu : (m.after o).Unwrapped) :
    (m.after o).Lineage ((o.newScope? m.engine).toList ++ issued) where
  handles := by
    intro k hk
    rcases List.mem_append.1 hk with hk | hk
    · have hlive := Op.newScope?_live hm.sound (Option.mem_toList.1 hk)
      have hissued := Handle.issued_of_live (hm.after o).scopeCounts hlive
      have hgen : k.generation.toNat = (m.after o).scopeReleases k.index := by
        rw [hissued.generation]
        exact (UInt32.toNat_ofNat').trans (Nat.mod_eq_of_lt (hu k.index))
      rw [hgen]
      exact hissued
    · exact (h.handles k hk).move (o.moves_perform m.engine).scopes
  mem_issued := by
    intro k own hown
    rcases Op.scope?_perform hm.sound hown with ⟨s₀, hs₀, -⟩ | ⟨hnew, -⟩
    · exact List.mem_append_right _ (h.mem_issued k s₀ hs₀)
    · exact List.mem_append_left _ (Option.mem_toList.2 hnew)
  older := by
    intro k own j hown hprev
    have hkeep : ∀ i ∈ issued, ((o.newScope? m.engine).toList ++ issued).idxOf i =
        (o.newScope? m.engine).toList.length + issued.idxOf i := by
      intro i hi
      refine List.idxOf_append_of_notMem fun hnew => ?_
      exact h.newScope?_not_mem hm hu (Option.mem_toList.1 hnew) hi
    rcases Op.scope?_perform hm.sound hown with ⟨s₀, hs₀, hsame⟩ | ⟨hnew, hprev'⟩
    · have hprev₀ : s₀.previous = .pooled j := by
        rw [hsame] at hprev
        exact hprev
      obtain ⟨hj, hlt⟩ := h.older k s₀ j hs₀ hprev₀
      refine ⟨List.mem_append_right _ hj, ?_⟩
      rw [hkeep k (h.mem_issued k s₀ hs₀), hkeep j hj]
      omega
    · rw [hprev] at hprev'
      have hj := ho j (by rw [Op.previousKey?, hprev']; rfl)
      refine ⟨List.mem_append_right _ hj, ?_⟩
      rw [hkeep j hj, hnew, Option.toList_some, List.singleton_append, List.idxOf_cons_self,
        List.length_singleton]
      omega

theorem Lineage.run {os : List Op} (h : m.Lineage issued) (hm : m.Tracked)
    (hr : m.Rooted issued os) (hu : (m.run os).Unwrapped) :
    (m.run os).Lineage (m.issues issued os) := by
  induction os generalizing m issued with
  | nil => exact h
  | cons o os ih =>
      have hu' : (m.after o).Unwrapped := fun i =>
        Nat.lt_of_le_of_lt (scopeReleases_le_run os (m.after o) i) (hu i)
      exact ih (h.after hm hr.1 hu') (hm.after o) hr.2 hu

end Machine

end ScriptCore

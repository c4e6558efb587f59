import Mathlib.Logic.Relation
import ScriptCore.Proofs.Order

/-!
# Depths and their entries

A frame has an entry for each of its depths and may have some left over from
deeper ones, never more than the limit allows. What a pool entry records of a
depth is a depth that was the current one when it was handed out, so it has an
entry too, also after that depth has ended: entries are not given up again. This
covers the tables that were lost for want of room, which are on no list and
still record where they were asked for.

`Leveled` says so of a frame, and every operation that begins an activation only
below the limit keeps it. So it holds of all that a new frame can come to, in the
middle of an activation as at its end. `ComesTo` is for the latter: one activation
may bring the engine there, and it is at the same depth again.
-/

namespace ScriptCore

/-! ## Recorded depths -/

namespace Books

/-- From `b` to `c` no depth was recorded but `n`. -/
def RecordsOnly (n : Nat) (b c : Books) : Prop :=
  ∀ a d, c.home? a = some d → b.home? a = some d ∨ d = n

namespace RecordsOnly

variable {b c e : Books} {n : Nat}

theorem refl (b : Books) : RecordsOnly n b b := fun _ _ => .inl

theorem trans (h₁ : RecordsOnly n b c) (h₂ : RecordsOnly n c e) : RecordsOnly n b e :=
  fun a d hd => (h₂ a d hd).elim (h₁ a d) .inr

theorem push (b : Books) (a : Allocation) : RecordsOnly n b (b.push a) :=
  fun c _ hd => .inl (home?_push b a c ▸ hd)

theorem strike (b : Books) (d : Nat) (a : Allocation) : RecordsOnly n b (b.strike d a) :=
  fun c _ hd => .inl (home?_strike b d a c ▸ hd)

theorem wipe (b : Books) (d : Nat) : RecordsOnly n b (b.wipe d) :=
  fun c _ hd => .inl (home?_wipe b d c ▸ hd)

theorem setTable (b : Books) (t : PoolKey) {v : Option (Option Nat)}
    (hv : ∀ d, v = some (some d) → d = n) : RecordsOnly n b (b.setTable t v) := by
  intro a d hd
  by_cases ha : a = .table t
  · subst ha
    simp only [home?, Books.setTable, Function.update_self] at hd
    obtain ⟨w, rfl, hw⟩ := Option.bind_eq_some_iff.1 hd
    exact .inr (hv d (congrArg some hw))
  · exact .inl (home?_setTable_of_ne ha ▸ hd)

theorem setScope (b : Books) (k : PoolKey) {v : Option (Option Nat × Option PoolKey)}
    (hv : ∀ d t, v = some (some d, t) → d = n) : RecordsOnly n b (b.setScope k v) := by
  intro a d hd
  by_cases ha : a = .scope k
  · subst ha
    simp only [home?, Books.setScope, Function.update_self] at hd
    obtain ⟨⟨w, t⟩, rfl, hw⟩ := Option.bind_eq_some_iff.1 hd
    simp only at hw
    exact .inr (hv d t (by rw [hw]))
  · exact .inl (home?_setScope_of_ne ha ▸ hd)

theorem free (b : Books) (a : Allocation) : RecordsOnly n b (b.free a) := by
  unfold Books.free
  split
  · split
    · exact (setScope (v := none) b _ nofun).trans (setTable _ _ nofun)
    · exact setScope b _ nofun
  · exact setTable b _ nofun

theorem reclaim (b : Books) (d : Nat) : RecordsOnly n b (b.reclaim d) := by
  have hfold : ∀ (l : List Allocation) (c : Books), RecordsOnly n c (l.foldl Books.free c) := by
    intro l
    induction l with
    | nil => exact refl
    | cons a l ih => exact fun c => (free c a).trans (ih _)
  exact (wipe b d).trans (hfold _ _)

end RecordsOnly

end Books

namespace Frame

variable {f : Frame} {n : Nat}

theorem recordsOnly_acquireTable (hf : f.Sound) {v : Option Nat}
    (hv : v = none ∨ v = some f.depth) (n : Nat) :
    Books.RecordsOnly f.depth f.books (f.acquireTable v n).2.books := by
  rw [books_acquireTable hf]
  refine .setTable _ _ fun d hd => ?_
  rcases hv with rfl | rfl
  · cases hd
  · cases hd
    rfl

theorem recordsOnly_register (hf : f.Sound) (a : Allocation) :
    Books.RecordsOnly n f.books (f.register a).books := by
  rw [books_register hf.depth_lt]
  exact .push _ _

theorem recordsOnly_allocateTable (hf : f.Sound) (n : Nat) :
    Books.RecordsOnly f.depth f.books (f.allocateTable n).2.books := by
  have hacq := recordsOnly_acquireTable hf (.inr rfl) n
  have htouch := touches_acquireTable (S := fun _ => False) (T := fun _ => False) hf (.inr rfl) n
  unfold allocateTable
  split
  · next g he =>
      rw [he] at hacq
      exact hacq
  · next t g he =>
      rw [he] at hacq htouch
      exact hacq.trans (recordsOnly_register htouch.sound _)

theorem recordsOnly_detachTable (f : Frame) (t : PoolKey) :
    Books.RecordsOnly n f.books (f.detachTable t).books := by
  cases hd : f.books.home? (.table t) with
  | none =>
      rw [home?_books_table] at hd
      simp only [detachTable, hd]
      exact .refl _
  | some d =>
      rw [books_detachTable hd]
      exact (Books.RecordsOnly.strike _ _ _).trans (.setTable _ _ fun d hd => by cases hd)

theorem recordsOnly_release (f : Frame) (a : Allocation) :
    Books.RecordsOnly n f.books (f.release a).books := by
  rw [books_release]
  exact .free _ _

theorem recordsOnly_freeTable (f : Frame) (t : PoolKey) :
    Books.RecordsOnly n f.books (f.freeTable t).2.books :=
  (recordsOnly_detachTable f t).trans (recordsOnly_release _ (.table t))

theorem recordsOnly_installScope (hf : f.Sound) (kind : ScopeKind) (previous : ScopeRef)
    (shape : ShapeId) (members : PoolKey) :
    Books.RecordsOnly f.depth f.books
      (f.installScope kind previous shape members).2.books := by
  have htouch := touches_addScope (S := fun _ => False) (T := fun _ => False) hf
    { kind, previous, shape, members }
  rw [installScope_eq]
  refine .trans ?_ (recordsOnly_register htouch.sound _)
  rw [books_addScope hf]
  refine .setScope _ _ fun d t hd => ?_
  cases hd
  rfl

theorem recordsOnly_endDepth (f : Frame) (d : Nat) :
    Books.RecordsOnly n f.books (f.endDepth d).books := by
  rw [books_endDepth]
  exact .reclaim _ _

end Frame

namespace Op

variable {e : Engine} {o : Op}

/-- An operation records no depth but the current one. -/
theorem recordsOnly_perform (hf : e.frame.Sound) (o : Op) :
    Books.RecordsOnly e.frame.depth e.frame.books (o.perform e).frame.books := by
  have hsame : ∀ {b : Books}, b = e.frame.books → Books.RecordsOnly e.frame.depth e.frame.books b :=
    fun h => h ▸ .refl _
  cases o with
  | allocateBlock previous shape =>
      have hacq := Frame.recordsOnly_acquireTable hf (.inl rfl) (e.store.shapeSize shape)
      have htouch := Frame.touches_acquireTable (S := fun _ => False) (T := fun _ => False) hf
        (.inl rfl) (e.store.shapeSize shape)
      simp only [perform]
      rcases e.frame.allocateBlock_cases previous shape (e.store.shapeSize shape) with h | ⟨-, h⟩
      · rw [h]
        exact hacq
      · rw [h]
        exact hacq.trans
          (htouch.depth_eq ▸ Frame.recordsOnly_installScope htouch.sound _ _ _ _)
  | allocateTable n => exact Frame.recordsOnly_allocateTable hf n
  | allocateFunction binding previous shape t =>
      have htouch := Frame.touches_readyTable (S := fun _ => True) (T := fun _ => True)
        (t := t.key) hf trivial (e.store.shapeSize shape)
      have hready : Books.RecordsOnly e.frame.depth e.frame.books
          (e.frame.readyTable t.key (e.store.shapeSize shape)).books := by
        refine .trans ?_ (Frame.recordsOnly_detachTable _ _)
        exact hsame (Frame.books_modifyTable _ _ _)
      simp only [perform]
      rcases e.frame.allocateFunction_cases binding previous shape (e.store.shapeSize shape) t.key
        with ⟨h, -⟩ | ⟨-, h⟩
      · exact hsame (congrArg Frame.books h)
      · rw [h]
        exact hready.trans
          (htouch.depth_eq ▸ Frame.recordsOnly_installScope htouch.sound _ _ _ _)
  | freeTable t => exact Frame.recordsOnly_freeTable _ _
  | takeTable t =>
      simp only [perform, Frame.takeTable]
      split
      · exact .refl _
      · exact Frame.recordsOnly_freeTable _ _
  | freeScope r =>
      cases r with
      | durable d => exact .refl _
      | pooled k =>
          simp only [perform, Frame.freeScope]
          split
          · next d _ =>
              refine .trans ?_ (Frame.recordsOnly_release _ (.scope k))
              rw [Frame.books_withdraw]
              exact .strike _ _ _
          · exact Frame.recordsOnly_release _ (.scope k)
  | editTable t c => exact hsame (Frame.books_modifyTable _ _ _)
  | declare r s a => exact hsame (e.books_declare r s a)
  | assign slot v => exact hsame (e.books_assign slot v)
  | mixin r source => exact hsame (e.books_mixin r source)
  | setLine r line => exact hsame (e.books_setLine r line)
  | reset => exact Frame.recordsOnly_endDepth _ 0
  | enter node r =>
      intro a d hd
      have hbooks := Frame.books_enter hf node r
      refine .inl ?_
      rw [show (perform e (enter node r)).frame.books = _ from hbooks] at hd
      cases a <;> exact hd
  | leave =>
      refine .trans (Frame.recordsOnly_endDepth e.frame e.frame.depth) fun a d hd => .inl ?_
      cases a <;> exact hd
  | share st => exact .refl _

end Op

/-! ## Levels -/

namespace Frame

variable {f g : Frame}

/-- The current depth is within the limit, each depth has an entry, and so has each depth that is
recorded anywhere. -/
structure Leveled (f : Frame) : Prop where
  depth_le : f.depth ≤ f.config.maxDepth
  depth_lt : f.depth + 1 ≤ f.entries.size
  size_le : f.entries.size ≤ f.config.maxDepth + 1
  home_lt : ∀ a d, f.books.home? a = some d → d < f.entries.size

/-- How deep a frame is, how deep it may be, and how deep it has been. -/
def levels (f : Frame) : Nat × FrameConfig × Nat := (f.depth, f.config, f.entries.size)

theorem levels_modifyEntry (f : Frame) (d : Nat) (c : DepthEntry → DepthEntry) :
    (f.modifyEntry d c).levels = f.levels := by
  simp only [levels, modifyEntry, Array.size_modify]

theorem overlooks_levels : Overlooks levels where
  scopes _ _ := rfl
  tables _ _ := rfl
  lists f d c _ := f.levels_modifyEntry d c

theorem levels_endDepth (f : Frame) (d : Nat) : (f.endDepth d).levels = f.levels :=
  (levels_modifyEntry _ _ _).trans (overlooks_levels.reclaim f d)

end Frame

namespace Op

variable {e : Engine} {o : Op}

theorem levels_perform (e : Engine) (ho : o.Stays) :
    (o.perform e).frame.levels = e.frame.levels := by
  cases o with
  | setLine r line =>
      rcases e.setLine_frame r line with h | ⟨c, -, h⟩
      · exact congrArg Frame.levels h
      · exact (congrArg Frame.levels h).trans (Frame.levels_modifyEntry _ _ _)
  | reset => exact Frame.levels_endDepth _ 0
  | enter node r => exact ho.elim
  | leave => exact ho.elim
  | _ => exact Frame.overlooks_levels.perform e (by trivial)

theorem config_perform (e : Engine) (o : Op) : (o.perform e).frame.config = e.frame.config := by
  rcases o.stays_or with ho | ⟨node, r, rfl⟩ | rfl
  · exact congrArg (·.2.1) (levels_perform e ho)
  · rfl
  · exact congrArg (·.2.1) (Frame.levels_endDepth e.frame e.frame.depth)

/-- An operation keeps the levels, if it begins an activation only below the limit. -/
theorem leveled_perform {base : Nat} (hf : e.frame.Sound) (h : e.frame.Leveled)
    (ho : Machine.InDepth base e.frame o) : (o.perform e).frame.Leveled := by
  have hrecords := recordsOnly_perform hf o
  have hconfig := config_perform e o
  have hlimit := h.size_le
  have hdepth := h.depth_lt
  have hhome : ∀ n, e.frame.entries.size ≤ n → ∀ a d,
      (o.perform e).frame.books.home? a = some d → d < n := by
    intro n hn a d hd
    rcases hrecords a d hd with hold | rfl
    · exact Nat.lt_of_lt_of_le (h.home_lt a d hold) hn
    · omega
  rcases o.stays_or with hs | ⟨node, r, rfl⟩ | rfl
  · obtain ⟨hsame, -, hsize⟩ : (o.perform e).frame.depth = e.frame.depth ∧
        (o.perform e).frame.config = e.frame.config ∧
        (o.perform e).frame.entries.size = e.frame.entries.size := by
      simpa [Frame.levels] using levels_perform e hs
    exact ⟨by rw [hsame, hconfig]; exact h.depth_le, by rw [hsame, hsize]; exact hdepth,
      by rw [hsize, hconfig]; exact hlimit, hhome _ (by rw [hsize])⟩
  · have hbelow : e.frame.depth < e.frame.config.maxDepth := ho
    have hsize : (perform e (.enter node r)).frame.entries.size =
        max e.frame.entries.size (e.frame.depth + 2) := by
      simp only [perform, Frame.enter]
      split
      · rw [Array.size_push]
        omega
      · rw [Array.size_modify]
        omega
    refine ⟨hbelow, ?_, ?_, hhome _ (by rw [hsize]; omega)⟩
    · show e.frame.depth + 1 + 1 ≤ _
      rw [hsize]
      omega
    · rw [hsize, hconfig]
      omega
  · have hsize : (perform e .leave).frame.entries.size = e.frame.entries.size :=
      congrArg (·.2.2) (Frame.levels_endDepth e.frame e.frame.depth)
    have hsame : (perform e .leave).frame.depth = e.frame.depth - 1 := rfl
    have hle := h.depth_le
    exact ⟨by rw [hsame, hconfig]; omega, by rw [hsame, hsize]; omega,
      by rw [hsize, hconfig]; exact hlimit, hhome _ (by rw [hsize])⟩

end Op

/-! ## What a frame can come to -/

namespace Engine

variable {e e' e'' : Engine} {base base' : Nat} {config : FrameConfig} {o : Op}

/-- An operation of an activation at depth `base` or of one inside it. -/
def Advance (base : Nat) (e e' : Engine) : Prop :=
  ∃ o : Op, Machine.InDepth base e.frame o ∧ o.perform e = e'

/-- What becomes of a new frame with these limits. -/
def Reached (config : FrameConfig) (e : Engine) : Prop :=
  ∃ store global flag registered,
    Relation.ReflTransGen (Advance 0) { store, frame := { config, global, flag, registered } } e

/-- What `e` may come to within one activation, all that began inside it having ended. -/
structure ComesTo (e e' : Engine) : Prop where
  steps : Relation.ReflTransGen (Advance e.frame.depth) e e'
  depth : e'.frame.depth = e.frame.depth

theorem Advance.mono (h : Advance base e e') (hb : base' ≤ base) : Advance base' e e' := by
  obtain ⟨o, ho, rfl⟩ := h
  refine ⟨o, ?_, rfl⟩
  unfold Machine.InDepth at ho ⊢
  split
  · exact ho
  · exact Nat.lt_of_le_of_lt hb ho
  · trivial

theorem Advance.mono_steps (h : Relation.ReflTransGen (Advance base) e e') (hb : base' ≤ base) :
    Relation.ReflTransGen (Advance base') e e' :=
  Relation.ReflTransGen.mono (fun _ _ hstep => hstep.mono hb) _ _ h

theorem Advance.config_eq (h : Advance base e e') : e'.frame.config = e.frame.config := by
  obtain ⟨o, -, rfl⟩ := h
  exact Op.config_perform e o

namespace ComesTo

theorem refl (e : Engine) : e.ComesTo e := ⟨.refl, rfl⟩

theorem trans (h : e.ComesTo e') (h' : e'.ComesTo e'') : e.ComesTo e'' :=
  ⟨h.steps.trans (h.depth ▸ h'.steps), h'.depth.trans h.depth⟩

/-- An operation that begins and ends no activation. -/
theorem of_stays (e : Engine) (ho : o.Stays) : e.ComesTo (o.perform e) := by
  have hdepth : Machine.InDepth e.frame.depth e.frame o := by
    cases o with
    | enter node r => exact ho.elim
    | leave => exact ho.elim
    | _ => trivial
  exact ⟨.single ⟨o, hdepth, rfl⟩, congrArg (·.1) (Op.levels_perform e ho)⟩

/-- An activation that begins, goes on and ends. -/
theorem of_activation (node : Node) (r : ScopeRef)
    (hd : e.frame.depth < e.frame.config.maxDepth)
    (h : (Op.perform e (.enter node r)).ComesTo e') :
    e.ComesTo (Op.perform e' .leave) := by
  have hdepth : e'.frame.depth = e.frame.depth + 1 := h.depth
  -- what it does in between keeps to its own depth, so to that of its caller as well
  refine ⟨?_, ?_⟩
  · refine (Relation.ReflTransGen.single ⟨.enter node r, hd, rfl⟩).trans ?_
    refine .tail (Advance.mono_steps h.steps (Nat.le_succ _)) ⟨.leave, ?_, rfl⟩
    show e.frame.depth < e'.frame.depth
    omega
  · show e'.frame.depth - 1 = _
    omega

theorem config_eq (h : e.ComesTo e') : e'.frame.config = e.frame.config := by
  obtain ⟨hsteps, -⟩ := h
  induction hsteps with
  | refl => rfl
  | tail _ hstep ih => exact hstep.config_eq.trans ih

theorem reached (h : e.ComesTo e') (he : e.Reached config) : e'.Reached config := by
  obtain ⟨store, global, flag, registered, hsteps⟩ := he
  exact ⟨store, global, flag, registered,
    hsteps.trans (Advance.mono_steps h.steps (Nat.zero_le _))⟩

end ComesTo

namespace Reached

theorem enter (h : e.Reached config) (node : Node) (r : ScopeRef)
    (hd : e.frame.depth < e.frame.config.maxDepth) :
    (Op.perform e (.enter node r)).Reached config := by
  obtain ⟨store, global, flag, registered, hsteps⟩ := h
  exact ⟨store, global, flag, registered, hsteps.tail ⟨.enter node r, hd, rfl⟩⟩

theorem leveled (h : e.Reached config) :
    e.frame.Sound ∧ e.frame.Leveled ∧ e.frame.config = config := by
  obtain ⟨store, global, flag, registered, hsteps⟩ := h
  induction hsteps with
  | refl =>
      refine ⟨⟨Pool.wellKept_empty, Pool.wellKept_empty, Nat.one_pos⟩, ?_, rfl⟩
      refine ⟨Nat.zero_le _, Nat.le_refl 1, Nat.le_add_left 1 _, fun a d hd => ?_⟩
      cases a <;> cases hd
  | tail _ hstep ih =>
      obtain ⟨hsound, hleveled, hconfig⟩ := ih
      have hconfig' := hstep.config_eq
      obtain ⟨o, ho, rfl⟩ := hstep
      exact ⟨o.sound_perform hsound, Op.leveled_perform hsound hleveled ho,
        hconfig'.trans hconfig⟩

end Reached

end Engine

end ScriptCore

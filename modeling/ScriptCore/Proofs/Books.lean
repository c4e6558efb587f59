import ScriptCore.Frame.Basic
import Mathlib.Data.List.Count
import Mathlib.Logic.Function.Basic

/-!
# The books of a frame

Who gives a pooled scope or table back is written down three times: on the
list of a depth, in the depth that its pool entry records, and, for a table,
as the members of the scope that owns it. `Books` is these three records and
nothing else, and `Kept` says that they agree.

Within an operation they agree only up to a few allocations that are between
owners: a table just handed out, a scope already off its list and not yet back
in its pool. `Kept` therefore carries them as a list, the loose ones, and each
elementary entry in the books either makes one allocation loose or settles the
first loose one. An operation of a frame is a sequence of such entries that
settles whatever it made loose. The one exception is an allocation that runs
out of room: its table stays loose for good.
-/

namespace ScriptCore

namespace Allocation

theorem replace_perm {a b : Allocation} : ∀ {l : List Allocation}, a ∈ l →
    (l.replace a b).Perm (b :: l.erase a)
  | [], h => absurd h List.not_mem_nil
  | c :: l, h => by
      by_cases hc : c = a
      · subst hc
        simp
      · have hmem : a ∈ l := by
          rcases List.mem_cons.1 h with h | h
          · exact absurd h.symm hc
          · exact h
        have hne : (c == a) = false := by simp [hc]
        have hne' : (a == c) = false := by simp [Ne.symm hc]
        rw [List.replace_cons, hne', List.erase_cons, hne]
        exact ((replace_perm hmem).cons c).trans (.swap b c _)

/-- Taking an allocation off a list reorders the rest and drops nothing else. -/
theorem withdraw_perm (a : Allocation) (l : List Allocation) :
    (a.withdraw l).Perm (l.erase a) := by
  cases l with
  | nil => exact .refl _
  | cons newest rest =>
      simp only [withdraw]
      split
      · next h => simp [h]
      · next h =>
          have hne : (newest == a) = false := by simp [h]
          rw [List.erase_cons, hne]
          split
          · next hmem => exact replace_perm (by simpa using hmem)
          · next hmem =>
              have hmem : a ∉ rest := by simpa using hmem
              simp [List.erase_of_not_mem hmem]

theorem mem_withdraw {a c : Allocation} {l : List Allocation} (hl : l.Nodup) :
    c ∈ a.withdraw l ↔ c ≠ a ∧ c ∈ l := by
  rw [(withdraw_perm a l).mem_iff, hl.mem_erase_iff]

theorem nodup_withdraw {a : Allocation} {l : List Allocation} (hl : l.Nodup) :
    (a.withdraw l).Nodup :=
  (withdraw_perm a l).nodup_iff.2 (hl.erase a)

end Allocation

/-- What the lists and pools of a frame say about who owns what. -/
@[ext]
structure Books where
  depth : Nat
  /-- The list of each depth. -/
  listed : Nat → List Allocation
  /-- The depth and the member table of each live scope. -/
  scopes : PoolKey → Option (Option Nat × Option PoolKey)
  /-- The depth of each live table, if it belongs to one. -/
  tables : PoolKey → Option (Option Nat)

namespace Books

/-- The depth recorded with a live allocation. -/
def home? (b : Books) : Allocation → Option Nat
  | .scope k => (b.scopes k).bind (·.1)
  | .table t => (b.tables t).bind id

def Live (b : Books) : Allocation → Prop
  | .scope k => (b.scopes k).isSome
  | .table t => (b.tables t).isSome

theorem live_of_home? {b : Books} {a : Allocation} {d : Nat} (h : b.home? a = some d) :
    b.Live a := by
  cases a with
  | scope k =>
      obtain ⟨v, hv, -⟩ := Option.bind_eq_some_iff.1 h
      simp [Live, hv]
  | table t =>
      obtain ⟨v, hv, -⟩ := Option.bind_eq_some_iff.1 h
      simp [Live, hv]

/-! ## Entries -/

/-- Puts an allocation on the list of the current depth. -/
def push (b : Books) (a : Allocation) : Books :=
  { b with listed := Function.update b.listed b.depth (a :: b.listed b.depth) }

/-- Takes an allocation off the list of a depth. -/
def strike (b : Books) (d : Nat) (a : Allocation) : Books :=
  { b with listed := Function.update b.listed d (a.withdraw (b.listed d)) }

/-- Empties the list of a depth. -/
def wipe (b : Books) (d : Nat) : Books :=
  { b with listed := Function.update b.listed d [] }

def setScope (b : Books) (k : PoolKey) (v : Option (Option Nat × Option PoolKey)) : Books :=
  { b with scopes := Function.update b.scopes k v }

def setTable (b : Books) (t : PoolKey) (v : Option (Option Nat)) : Books :=
  { b with tables := Function.update b.tables t v }

/-- Gives an allocation back, a scope together with its table. -/
def free (b : Books) : Allocation → Books
  | .scope k =>
    match b.scopes k with
    | some (_, some t) => (b.setScope k none).setTable t none
    | _ => b.setScope k none
  | .table t => b.setTable t none

/-- Gives back everything on the list of a depth. -/
def reclaim (b : Books) (d : Nat) : Books := (b.listed d).foldl free (b.wipe d)

theorem free_of_scope {b : Books} {k t : PoolKey} {v : Option Nat}
    (h : b.scopes k = some (v, some t)) :
    b.free (.scope k) = (b.setScope k none).setTable t none := by
  simp only [free, h]

@[simp] theorem listed_free (b : Books) (a : Allocation) : (b.free a).listed = b.listed := by
  unfold free
  split
  · split <;> rfl
  · rfl

@[simp] theorem depth_free (b : Books) (a : Allocation) : (b.free a).depth = b.depth := by
  unfold free
  split
  · split <;> rfl
  · rfl

theorem listed_foldl_free (l : List Allocation) :
    ∀ b : Books, (l.foldl free b).listed = b.listed := by
  induction l with
  | nil => intro b; rfl
  | cons a l ih => intro b; rw [List.foldl_cons, ih, listed_free]

theorem depth_foldl_free (l : List Allocation) :
    ∀ b : Books, (l.foldl free b).depth = b.depth := by
  induction l with
  | nil => intro b; rfl
  | cons a l ih => intro b; rw [List.foldl_cons, ih, depth_free]

theorem listed_reclaim (b : Books) (d : Nat) :
    (b.reclaim d).listed = Function.update b.listed d [] := by
  rw [reclaim, listed_foldl_free]
  rfl

theorem depth_reclaim (b : Books) (d : Nat) : (b.reclaim d).depth = b.depth := by
  rw [reclaim, depth_foldl_free]
  rfl

/-- Giving things back changes the record of no table that stays. -/
theorem tables_of_free {b : Books} {a : Allocation} {t : PoolKey} {v : Option Nat}
    (h : (b.free a).tables t = some v) : b.tables t = some v := by
  have hset : ∀ (c : Books) (t' : PoolKey), (c.setTable t' none).tables t = some v →
      c.tables t = some v := by
    intro c t' hc
    simp only [setTable, Function.update_apply] at hc
    split at hc
    · cases hc
    · exact hc
  unfold free at h
  split at h
  · split at h
    · exact hset _ _ h
    · exact h
  · exact hset _ _ h

theorem tables_of_reclaim {b : Books} {d : Nat} {t : PoolKey} {v : Option Nat}
    (h : (b.reclaim d).tables t = some v) : b.tables t = some v := by
  have hfold : ∀ (l : List Allocation) (c : Books), (l.foldl free c).tables t = some v →
      c.tables t = some v := by
    intro l
    induction l with
    | nil => exact fun _ hc => hc
    | cons a l ih => exact fun c hc => tables_of_free (ih _ hc)
  exact hfold (b.listed d) (b.wipe d) h

/-- Giving things back changes the record of no scope that stays. -/
theorem scopes_of_free {b : Books} {a : Allocation} {k : PoolKey}
    {v : Option Nat × Option PoolKey} (h : (b.free a).scopes k = some v) : b.scopes k = some v := by
  have hset : ∀ k', (b.setScope k' none).scopes k = some v → b.scopes k = some v := by
    intro k' hc
    simp only [setScope, Function.update_apply] at hc
    split at hc
    · cases hc
    · exact hc
  unfold free at h
  split at h
  · split at h
    · exact hset _ h
    · exact hset _ h
  · exact h

theorem scopes_of_reclaim {b : Books} {d : Nat} {k : PoolKey}
    {v : Option Nat × Option PoolKey} (h : (b.reclaim d).scopes k = some v) :
    b.scopes k = some v := by
  have hfold : ∀ (l : List Allocation) (c : Books), (l.foldl free c).scopes k = some v →
      c.scopes k = some v := by
    intro l
    induction l with
    | nil => exact fun _ hc => hc
    | cons a l ih => exact fun c hc => scopes_of_free (ih _ hc)
  exact hfold (b.listed d) (b.wipe d) h

@[simp] theorem home?_push (b : Books) (a c : Allocation) : (b.push a).home? c = b.home? c := by
  cases c <;> rfl

@[simp] theorem home?_strike (b : Books) (d : Nat) (a c : Allocation) :
    (b.strike d a).home? c = b.home? c := by
  cases c <;> rfl

@[simp] theorem home?_wipe (b : Books) (d : Nat) (c : Allocation) :
    (b.wipe d).home? c = b.home? c := by
  cases c <;> rfl

theorem home?_setScope_of_ne {b : Books} {k : PoolKey} {v} {a : Allocation}
    (h : a ≠ .scope k) : (b.setScope k v).home? a = b.home? a := by
  cases a with
  | scope k' =>
      have hk : k' ≠ k := fun hk => h (hk ▸ rfl)
      simp [home?, setScope, hk]
  | table t => rfl

theorem home?_setTable_of_ne {b : Books} {t : PoolKey} {v} {a : Allocation}
    (h : a ≠ .table t) : (b.setTable t v).home? a = b.home? a := by
  cases a with
  | scope k => rfl
  | table t' =>
      have ht : t' ≠ t := fun ht => h (ht ▸ rfl)
      simp [home?, setTable, ht]

theorem live_setScope_of_ne {b : Books} {k : PoolKey} {v} {a : Allocation}
    (h : a ≠ .scope k) : (b.setScope k v).Live a ↔ b.Live a := by
  cases a with
  | scope k' =>
      have hk : k' ≠ k := fun hk => h (hk ▸ rfl)
      simp [Live, setScope, hk]
  | table t => rfl

theorem live_setTable_of_ne {b : Books} {t : PoolKey} {v} {a : Allocation}
    (h : a ≠ .table t) : (b.setTable t v).Live a ↔ b.Live a := by
  cases a with
  | scope k => rfl
  | table t' =>
      have ht : t' ≠ t := fun ht => h (ht ▸ rfl)
      simp [Live, setTable, ht]

/-! ## Agreement -/

/-- The records agree, apart from the loose allocations. -/
structure Kept (b : Books) (loose : List Allocation) : Prop where
  scope : ∀ k v, b.scopes k = some v → ∃ d t, v = (some d, some t)
  /-- An allocation is on the list of its own depth and on no other. -/
  mem_listed : ∀ a d, a ∈ b.listed d ↔ b.home? a = some d ∧ a ∉ loose
  nodup : ∀ d, (b.listed d).Nodup
  home_le : ∀ a d, b.home? a = some d → a ∉ loose → d ≤ b.depth
  live : ∀ a ∈ loose, b.Live a
  /-- A table of no depth has a scope that owns it. -/
  owner : ∀ t, b.tables t = some none → .table t ∉ loose → ∃ k d, b.scopes k = some (d, some t)
  members : ∀ k d t, b.scopes k = some (d, some t) → b.tables t = some none ∧ .table t ∉ loose
  sole : ∀ k k' d d' t, b.scopes k = some (d, some t) → b.scopes k' = some (d', some t) → k = k'

namespace Kept

variable {b : Books} {loose : List Allocation} {a : Allocation} {d : Nat} {k t : PoolKey}

theorem of_empty (hs : ∀ k, b.scopes k = none) (ht : ∀ t, b.tables t = none)
    (hl : ∀ d, b.listed d = []) : b.Kept [] where
  scope := fun k v hk => nomatch (hs k).symm.trans hk
  mem_listed := by
    intro a d
    have ha : b.home? a = none := by cases a <;> simp [home?, hs, ht]
    simp [hl, ha]
  nodup := fun d => (hl d).symm ▸ List.nodup_nil
  home_le := by
    intro a d ha
    cases a <;> simp [home?, hs, ht] at ha
  live := nofun
  owner := fun t hn => nomatch (ht t).symm.trans hn
  members := fun k d t hk => nomatch (hs k).symm.trans hk
  sole := fun k k' d d' t hk => nomatch (hs k).symm.trans hk

/-- The members of a scope have no depth of their own. -/
theorem ne_members (h : b.Kept loose) (ha : b.home? a = some d) {d' : Option Nat}
    (hk : b.scopes k = some (d', some t)) : a ≠ .table t := by
  rintro rfl
  obtain ⟨ht, -⟩ := h.members k d' t hk
  simp [home?, ht] at ha

theorem strike (h : b.Kept loose) (ha : b.home? a = some d) (hl : a ∉ loose) :
    (b.strike d a).Kept (a :: loose) where
  scope := h.scope
  mem_listed := by
    intro c j
    rw [home?_strike, List.mem_cons, not_or]
    by_cases hj : j = d
    · subst hj
      simp only [Books.strike, Function.update_self, Allocation.mem_withdraw (h.nodup j),
        h.mem_listed]
      tauto
    · simp only [Books.strike, Function.update_of_ne hj, h.mem_listed]
      refine and_congr_right fun hc => ⟨fun hn => ⟨?_, hn⟩, And.right⟩
      rintro rfl
      exact hj (Option.some.inj (hc.symm.trans ha))
  nodup := by
    intro j
    by_cases hj : j = d
    · subst hj
      simp only [Books.strike, Function.update_self]
      exact Allocation.nodup_withdraw (h.nodup j)
    · simp only [Books.strike, Function.update_of_ne hj]
      exact h.nodup j
  home_le := by
    intro c j hc hn
    rw [home?_strike] at hc
    exact h.home_le c j hc fun hm => hn (List.mem_cons_of_mem _ hm)
  live := by
    intro c hc
    rcases List.mem_cons.1 hc with rfl | hc
    · exact live_of_home? ((home?_strike b d c c).trans ha)
    · have := h.live c hc
      cases c <;> exact this
  owner := fun t ht hn => h.owner t ht fun hm => hn (List.mem_cons_of_mem _ hm)
  members := by
    intro k j t hk
    obtain ⟨ht, hn⟩ := h.members k j t hk
    refine ⟨ht, fun hm => ?_⟩
    rcases List.mem_cons.1 hm with hm | hm
    · exact h.ne_members ha hk hm.symm
    · exact hn hm
  sole := h.sole

theorem push (h : b.Kept (a :: loose)) (ha : b.home? a = some b.depth) (hl : a ∉ loose) :
    (b.push a).Kept loose where
  scope := h.scope
  mem_listed := by
    intro c j
    have hc := h.mem_listed c j
    rw [List.mem_cons, not_or] at hc
    rw [home?_push]
    by_cases hj : j = b.depth
    · subst hj
      simp only [Books.push, Function.update_self, List.mem_cons, hc]
      by_cases hca : c = a
      · subst hca
        simp [ha, hl]
      · simp [hca]
    · simp only [Books.push, Function.update_of_ne hj, hc]
      refine and_congr_right fun hh => ⟨And.right, fun hn => ⟨?_, hn⟩⟩
      rintro rfl
      exact hj (Option.some.inj (hh.symm.trans ha))
  nodup := by
    intro j
    by_cases hj : j = b.depth
    · subst hj
      simp only [Books.push, Function.update_self]
      refine List.nodup_cons.2 ⟨fun hm => ?_, h.nodup _⟩
      exact ((h.mem_listed a b.depth).1 hm).2 List.mem_cons_self
    · simp only [Books.push, Function.update_of_ne hj]
      exact h.nodup j
  home_le := by
    intro c j hc hn
    rw [home?_push] at hc
    by_cases hca : c = a
    · rw [hca, ha] at hc
      injection hc with hc
      exact Nat.le_of_eq hc.symm
    · exact h.home_le c j hc (by simp [hca, hn])
  live := by
    intro c hc
    have := h.live c (List.mem_cons_of_mem _ hc)
    cases c <;> exact this
  owner := by
    intro t ht hn
    refine h.owner t ht fun hm => ?_
    rcases List.mem_cons.1 hm with rfl | hm
    · have ht : b.tables t = some none := ht
      simp [home?, ht] at ha
    · exact hn hm
  members := by
    intro k j t hk
    obtain ⟨ht, hn⟩ := h.members k j t hk
    exact ⟨ht, fun hm => hn (List.mem_cons_of_mem _ hm)⟩
  sole := h.sole

theorem wipe (h : b.Kept loose) (d : Nat) : (b.wipe d).Kept (b.listed d ++ loose) where
  scope := h.scope
  mem_listed := by
    intro a j
    rw [home?_wipe, List.mem_append, not_or]
    by_cases hj : j = d
    · subst hj
      simp only [Books.wipe, Function.update_self, h.mem_listed]
      have : a ∉ ([] : List Allocation) := List.not_mem_nil
      tauto
    · simp only [Books.wipe, Function.update_of_ne hj, h.mem_listed]
      refine and_congr_right fun ha => ⟨fun hn => ⟨fun hd => ?_, hn⟩, And.right⟩
      exact hj (Option.some.inj (ha.symm.trans hd.1))
  nodup := by
    intro j
    by_cases hj : j = d
    · subst hj
      simp only [Books.wipe, Function.update_self]
      exact List.nodup_nil
    · simp only [Books.wipe, Function.update_of_ne hj]
      exact h.nodup j
  home_le := by
    intro a j ha hn
    rw [home?_wipe] at ha
    exact h.home_le a j ha fun hm => hn (List.mem_append_right _ hm)
  live := by
    intro a ha
    have hb : b.Live a := by
      rcases List.mem_append.1 ha with ha | ha
      · exact live_of_home? ((h.mem_listed a d).1 ha).1
      · exact h.live a ha
    cases a <;> exact hb
  owner := fun t ht hn => h.owner t ht fun hm => hn (List.mem_append_right _ hm)
  members := by
    intro k j t hk
    obtain ⟨ht, hn⟩ := h.members k j t hk
    refine ⟨ht, fun hm => ?_⟩
    rcases List.mem_append.1 hm with hm | hm
    · exact h.ne_members ((h.mem_listed _ d).1 hm).1 hk rfl
    · exact hn hm
  sole := h.sole

/-- A table handed out is loose at first. -/
theorem addTable (h : b.Kept loose) (ht : b.tables t = none) (v : Option Nat) :
    (b.setTable t (some v)).Kept (.table t :: loose) where
  scope := h.scope
  mem_listed := by
    intro a j
    have ha := h.mem_listed a j
    show a ∈ b.listed j ↔ _
    rw [List.mem_cons, not_or, ha]
    by_cases hat : a = .table t
    · subst hat
      simp [home?, ht]
    · rw [home?_setTable_of_ne hat]
      simp [hat]
  nodup := h.nodup
  home_le := by
    intro a j ha hn
    rw [List.mem_cons, not_or] at hn
    rw [home?_setTable_of_ne hn.1] at ha
    exact h.home_le a j ha hn.2
  live := by
    intro a ha
    by_cases hat : a = .table t
    · subst hat
      simp [Live, setTable]
    · rw [live_setTable_of_ne hat]
      exact h.live a ((List.mem_cons.1 ha).resolve_left hat)
  owner := by
    intro t' ht' hn
    rw [List.mem_cons, not_or] at hn
    have hne : t' ≠ t := fun he => hn.1 (he ▸ rfl)
    simp only [setTable, Function.update_of_ne hne] at ht'
    exact h.owner t' ht' hn.2
  members := by
    intro k j t' hk
    obtain ⟨ht', hn⟩ := h.members k j t' hk
    have hne : t' ≠ t := by
      rintro rfl
      rw [ht] at ht'
      cases ht'
    simp only [setTable, Function.update_of_ne hne]
    exact ⟨ht', by simp [hne, hn]⟩
  sole := h.sole

/-- The record of a loose table may change as long as the table stays live. -/
theorem setLooseTable (h : b.Kept (.table t :: loose)) (v : Option Nat) :
    (b.setTable t (some v)).Kept (.table t :: loose) where
  scope := h.scope
  mem_listed := by
    intro a j
    have ha := h.mem_listed a j
    show a ∈ b.listed j ↔ _
    rw [ha]
    by_cases hat : a = .table t
    · simp [hat]
    · rw [home?_setTable_of_ne hat]
  nodup := h.nodup
  home_le := by
    intro a j ha hn
    have hat : a ≠ .table t := fun he => hn (he ▸ List.mem_cons_self)
    rw [home?_setTable_of_ne hat] at ha
    exact h.home_le a j ha hn
  live := by
    intro a ha
    by_cases hat : a = .table t
    · subst hat
      simp [Live, setTable]
    · rw [live_setTable_of_ne hat]
      exact h.live a ha
  owner := by
    intro t' ht' hn
    have hne : t' ≠ t := fun he => hn (he ▸ List.mem_cons_self)
    simp only [setTable, Function.update_of_ne hne] at ht'
    exact h.owner t' ht' hn
  members := by
    intro k j t' hk
    obtain ⟨ht', hn⟩ := h.members k j t' hk
    have hne : t' ≠ t := fun he => hn (he ▸ List.mem_cons_self)
    simp only [setTable, Function.update_of_ne hne]
    exact ⟨ht', hn⟩
  sole := h.sole

theorem dropTable (h : b.Kept (.table t :: loose)) (hl : .table t ∉ loose) :
    (b.setTable t none).Kept loose where
  scope := h.scope
  mem_listed := by
    intro a j
    have ha := h.mem_listed a j
    show a ∈ b.listed j ↔ _
    rw [ha, List.mem_cons, not_or]
    by_cases hat : a = .table t
    · subst hat
      simp [home?, setTable]
    · rw [home?_setTable_of_ne hat]
      simp [hat]
  nodup := h.nodup
  home_le := by
    intro a j ha hn
    have hat : a ≠ .table t := by
      rintro rfl
      simp [home?, setTable] at ha
    rw [home?_setTable_of_ne hat] at ha
    exact h.home_le a j ha (by simp [hat, hn])
  live := by
    intro a ha
    have hat : a ≠ .table t := fun he => hl (he ▸ ha)
    rw [live_setTable_of_ne hat]
    exact h.live a (List.mem_cons_of_mem _ ha)
  owner := by
    intro t' ht' hn
    have hne : t' ≠ t := by
      rintro rfl
      simp [setTable] at ht'
    simp only [setTable, Function.update_of_ne hne] at ht'
    exact h.owner t' ht' (by simp [hne, hn])
  members := by
    intro k j t' hk
    obtain ⟨ht', hn⟩ := h.members k j t' hk
    rw [List.mem_cons, not_or] at hn
    have hne : t' ≠ t := fun he => hn.1 (he ▸ rfl)
    simp only [setTable, Function.update_of_ne hne]
    exact ⟨ht', hn.2⟩
  sole := h.sole

/-- A new scope takes over a loose table of no depth and is loose itself. -/
theorem addScope (h : b.Kept (.table t :: loose)) (hl : .table t ∉ loose)
    (ht : b.tables t = some none) (hk : b.scopes k = none) (d : Nat) :
    (b.setScope k (some (some d, some t))).Kept (.scope k :: loose) where
  scope := by
    intro k' v hv
    by_cases hkk : k' = k
    · subst hkk
      simp only [setScope, Function.update_self, Option.some.injEq] at hv
      exact ⟨d, t, hv.symm⟩
    · simp only [setScope, Function.update_of_ne hkk] at hv
      exact h.scope k' v hv
  mem_listed := by
    intro a j
    have ha := h.mem_listed a j
    show a ∈ b.listed j ↔ _
    rw [ha, List.mem_cons, List.mem_cons, not_or, not_or]
    by_cases hak : a = .scope k
    · subst hak
      simp [home?, hk]
    · rw [home?_setScope_of_ne hak]
      by_cases hat : a = .table t
      · subst hat
        simp [home?, ht]
      · simp [hak, hat]
  nodup := h.nodup
  home_le := by
    intro a j ha hn
    rw [List.mem_cons, not_or] at hn
    rw [home?_setScope_of_ne hn.1] at ha
    refine h.home_le a j ha ?_
    rw [List.mem_cons, not_or]
    refine ⟨?_, hn.2⟩
    rintro rfl
    simp [home?, ht] at ha
  live := by
    intro a ha
    by_cases hak : a = .scope k
    · subst hak
      simp [Live, setScope]
    · rw [live_setScope_of_ne hak]
      have ha := (List.mem_cons.1 ha).resolve_left hak
      exact h.live a (List.mem_cons_of_mem _ ha)
  owner := by
    intro t' ht' hn
    rw [List.mem_cons, not_or] at hn
    by_cases hne : t' = t
    · exact ⟨k, some d, by simp [setScope, hne]⟩
    · obtain ⟨k', d', hk'⟩ := h.owner t' ht' (by simp [hne, hn.2])
      have hkk : k' ≠ k := by
        rintro rfl
        rw [hk] at hk'
        cases hk'
      exact ⟨k', d', by simpa [setScope, hkk] using hk'⟩
  members := by
    intro k' j t' hk'
    by_cases hkk : k' = k
    · subst hkk
      simp only [setScope, Function.update_self, Option.some.injEq, Prod.mk.injEq] at hk'
      rw [← hk'.2]
      exact ⟨ht, by simp [hl]⟩
    · simp only [setScope, Function.update_of_ne hkk] at hk'
      obtain ⟨ht', hn⟩ := h.members k' j t' hk'
      rw [List.mem_cons, not_or] at hn
      exact ⟨ht', by simp [hn.2]⟩
  sole := by
    -- nobody else owns the table: it was loose
    have hfresh : ∀ k' d', b.scopes k' ≠ some (d', some t) := fun k' d' hk' =>
      (h.members k' d' t hk').2 List.mem_cons_self
    intro k₁ k₂ d₁ d₂ t' h₁ h₂
    simp only [setScope, Function.update_apply] at h₁ h₂
    split at h₁ <;> split at h₂
    · next e₁ e₂ => rw [e₁, e₂]
    · next e₁ _ =>
        simp only [Option.some.injEq, Prod.mk.injEq] at h₁
        rw [← h₁.2] at h₂
        exact absurd h₂ (hfresh k₂ d₂)
    · next _ e₂ =>
        simp only [Option.some.injEq, Prod.mk.injEq] at h₂
        rw [← h₂.2] at h₁
        exact absurd h₁ (hfresh k₁ d₁)
    · exact h.sole k₁ k₂ d₁ d₂ t' h₁ h₂

/-- A loose scope that goes leaves its table loose. -/
theorem dropScope (h : b.Kept (.scope k :: loose)) (hl : .scope k ∉ loose)
    {v : Option Nat} (hk : b.scopes k = some (v, some t)) :
    (b.setScope k none).Kept (.table t :: loose) where
  scope := by
    intro k' v' hv
    by_cases hkk : k' = k
    · simp [setScope, hkk] at hv
    · simp only [setScope, Function.update_of_ne hkk] at hv
      exact h.scope k' v' hv
  mem_listed := by
    intro a j
    obtain ⟨ht, -⟩ := h.members k v t hk
    have ha := h.mem_listed a j
    show a ∈ b.listed j ↔ _
    rw [ha, List.mem_cons, List.mem_cons, not_or, not_or]
    by_cases hak : a = .scope k
    · subst hak
      simp [home?, setScope]
    · rw [home?_setScope_of_ne hak]
      by_cases hat : a = .table t
      · subst hat
        simp [home?, ht]
      · simp [hak, hat]
  nodup := h.nodup
  home_le := by
    intro a j ha hn
    rw [List.mem_cons, not_or] at hn
    have hak : a ≠ .scope k := by
      rintro rfl
      simp [home?, setScope] at ha
    rw [home?_setScope_of_ne hak] at ha
    exact h.home_le a j ha (by simp [hak, hn.2])
  live := by
    intro a ha
    rcases List.mem_cons.1 ha with rfl | ha
    · have ht := (h.members k v t hk).1
      simp [Live, setScope, ht]
    · have hak : a ≠ .scope k := fun he => hl (he ▸ ha)
      rw [live_setScope_of_ne hak]
      exact h.live a (List.mem_cons_of_mem _ ha)
  owner := by
    intro t' ht' hn
    rw [List.mem_cons, not_or] at hn
    obtain ⟨k', d', hk'⟩ := h.owner t' ht' (by simp [hn.2])
    have hkk : k' ≠ k := by
      rintro rfl
      rw [hk] at hk'
      simp only [Option.some.injEq, Prod.mk.injEq] at hk'
      exact hn.1 (hk'.2 ▸ rfl)
    exact ⟨k', d', by simpa [setScope, hkk] using hk'⟩
  members := by
    intro k' j t' hk'
    have hkk : k' ≠ k := by
      rintro rfl
      simp [setScope] at hk'
    simp only [setScope, Function.update_of_ne hkk] at hk'
    obtain ⟨ht', hn⟩ := h.members k' j t' hk'
    rw [List.mem_cons, not_or] at hn
    refine ⟨ht', ?_⟩
    rw [List.mem_cons, not_or]
    refine ⟨fun he => ?_, hn.2⟩
    injection he with he
    rw [he] at hk'
    exact hkk (h.sole k' k j v t hk' hk)
  sole := by
    intro k₁ k₂ d₁ d₂ t' h₁ h₂
    simp only [setScope, Function.update_apply] at h₁ h₂
    split at h₁
    · cases h₁
    · split at h₂
      · cases h₂
      · exact h.sole k₁ k₂ d₁ d₂ t' h₁ h₂

/-- Giving back the first loose allocation settles it. -/
theorem free (h : b.Kept (a :: loose)) (hl : a ∉ loose) : (b.free a).Kept loose := by
  cases a with
  | table t => exact h.dropTable hl
  | scope k =>
      obtain ⟨v, hv⟩ := Option.isSome_iff_exists.1 (h.live _ List.mem_cons_self)
      obtain ⟨d, t, rfl⟩ := h.scope k v hv
      rw [free_of_scope hv]
      obtain ⟨-, hn⟩ := h.members k (some d) t hv
      exact (h.dropScope hl hv).dropTable fun hm => hn (List.mem_cons_of_mem _ hm)

theorem foldl_free : ∀ {l : List Allocation} {b : Books}, b.Kept (l ++ loose) → l.Nodup →
    (∀ a ∈ l, a ∉ loose) → (l.foldl Books.free b).Kept loose := by
  intro l
  induction l with
  | nil => intro b h _ _; exact h
  | cons a l ih =>
      intro b h hl hd
      rw [List.nodup_cons] at hl
      have ha : a ∉ l ++ loose := by
        rw [List.mem_append, not_or]
        exact ⟨hl.1, hd a List.mem_cons_self⟩
      exact ih (Kept.free h ha) hl.2 fun c hc => hd c (List.mem_cons_of_mem _ hc)

theorem reclaim (h : b.Kept loose) (d : Nat) : (b.reclaim d).Kept loose :=
  foldl_free (h.wipe d) (h.nodup d) fun a ha => ((h.mem_listed a d).1 ha).2

/-- One depth more. -/
theorem deeper (h : b.Kept loose) : { b with depth := b.depth + 1 }.Kept loose :=
  { h with home_le := fun a d ha hn => Nat.le_succ_of_le (h.home_le a d ha hn) }

/-- One depth less, once the list of the current one is empty. -/
theorem shallower (h : b.Kept loose) (hd : b.listed b.depth = []) :
    { b with depth := b.depth - 1 }.Kept loose :=
  { h with
    home_le := by
      intro a d ha hn
      have hle := h.home_le a d ha hn
      have hne : d ≠ b.depth := by
        rintro rfl
        have hm := (h.mem_listed a b.depth).2 ⟨ha, hn⟩
        rw [hd] at hm
        exact List.not_mem_nil hm
      show d ≤ b.depth - 1
      omega }

/-- Nothing is at home at a depth that was reclaimed. -/
theorem home?_reclaim (h : b.Kept loose) (ha : a ∉ loose) : (b.reclaim d).home? a ≠ some d := by
  intro hhome
  have hlisted := ((h.reclaim d).mem_listed a d).2 ⟨hhome, ha⟩
  rw [listed_reclaim, Function.update_self] at hlisted
  exact List.not_mem_nil hlisted

theorem scopes_reclaim (h : b.Kept loose) (hk : b.home? (.scope k) = some d)
    (hl : .scope k ∉ loose) : (b.reclaim d).scopes k = none := by
  cases hv : (b.reclaim d).scopes k with
  | none => rfl
  | some v =>
      refine absurd ?_ (h.home?_reclaim (d := d) hl)
      rw [home?, scopes_of_reclaim hv] at hk
      rw [home?, hv, hk]

end Kept

/-! ## Depths below -/

/-- A table is given back when depth `d` ends, by itself or with its scope. -/
def TableAt (b : Books) (t : PoolKey) (d : Nat) : Prop :=
  b.tables t = some (some d) ∨ ∃ k, b.scopes k = some (some d, some t)

/-- A table goes with its depth or with its scope. -/
theorem Kept.tables_reclaim {b : Books} {loose : List Allocation} {t : PoolKey} {d : Nat}
    (h : b.Kept loose) (ht : b.TableAt t d) (hl : .table t ∉ loose)
    (hs : ∀ k, .scope k ∉ loose) : (b.reclaim d).tables t = none := by
  cases hv : (b.reclaim d).tables t with
  | none => rfl
  | some v =>
      have hold := tables_of_reclaim hv
      rcases ht with ht | ⟨k, hk⟩
      · rw [ht] at hold
        refine absurd ?_ (h.home?_reclaim (d := d) hl)
        rw [home?, hv, ← hold]
        rfl
      · -- the scope that owns it after all this owned it before
        rw [(h.members k _ t hk).1] at hold
        rw [← hold] at hv
        obtain ⟨k', d', hk'⟩ := (h.reclaim d).owner t hv hl
        have hkey := h.sole k' k _ _ t (scopes_of_reclaim hk') hk
        rw [hkey, h.scopes_reclaim (by simp [home?, hk]) (hs k)] at hk'
        cases hk'

/-- From `b` to `c` nothing was allocated for a depth below `n`, and nothing
came onto the list of one. -/
structure Spares (n : Nat) (b c : Books) : Prop where
  listed : ∀ d, d < n → c.listed d ⊆ b.listed d
  scopes : ∀ k d, d < n → c.home? (.scope k) = some d → b.home? (.scope k) = some d
  tables : ∀ t d, d < n → c.TableAt t d → b.TableAt t d

namespace Spares

variable {b c e : Books} {n : Nat}

theorem refl (b : Books) : Spares n b b :=
  ⟨fun _ _ => List.Subset.refl _, fun _ _ _ h => h, fun _ _ _ h => h⟩

theorem trans (h₁ : Spares n b c) (h₂ : Spares n c e) : Spares n b e :=
  ⟨fun d hd => List.Subset.trans (h₂.listed d hd) (h₁.listed d hd),
    fun k d hd h => h₁.scopes k d hd (h₂.scopes k d hd h),
    fun t d hd h => h₁.tables t d hd (h₂.tables t d hd h)⟩

theorem mono {n' : Nat} (h : Spares n b c) (hn : n' ≤ n) : Spares n' b c :=
  ⟨fun d hd => h.listed d (by omega), fun k d hd => h.scopes k d (by omega),
    fun t d hd => h.tables t d (by omega)⟩

theorem push (b : Books) (a : Allocation) (hn : n ≤ b.depth) : Spares n b (b.push a) := by
  refine ⟨fun d hd => ?_, fun _ _ _ h => h, fun _ _ _ h => h⟩
  have hne : d ≠ b.depth := by omega
  simp only [Books.push, Function.update_of_ne hne]
  exact List.Subset.refl _

theorem strike (b : Books) (d : Nat) (a : Allocation) : Spares n b (b.strike d a) := by
  refine ⟨fun j _ c hc => ?_, fun _ _ _ h => h, fun _ _ _ h => h⟩
  simp only [Books.strike, Function.update_apply] at hc
  split at hc
  · next hj =>
      rw [(Allocation.withdraw_perm a _).mem_iff] at hc
      rw [hj]
      exact List.mem_of_mem_erase hc
  · exact hc

theorem wipe (b : Books) (d : Nat) : Spares n b (b.wipe d) := by
  refine ⟨fun j _ c hc => ?_, fun _ _ _ h => h, fun _ _ _ h => h⟩
  simp only [Books.wipe, Function.update_apply] at hc
  split at hc
  · exact absurd hc List.not_mem_nil
  · exact hc

theorem setTable (b : Books) (t : PoolKey) {v : Option (Option Nat)}
    (hv : ∀ d, v = some (some d) → n ≤ d) : Spares n b (b.setTable t v) := by
  refine ⟨fun _ _ => List.Subset.refl _, fun _ _ _ h => h, fun t' d hd h => ?_⟩
  rcases h with h | h
  · simp only [Books.setTable, Function.update_apply] at h
    split at h
    · have := hv d h
      omega
    · exact .inl h
  · exact .inr h

theorem setScope (b : Books) (k : PoolKey) {v : Option (Option Nat × Option PoolKey)}
    (hv : ∀ d t, v = some (some d, t) → n ≤ d) : Spares n b (b.setScope k v) := by
  refine ⟨fun _ _ => List.Subset.refl _, fun k' d hd h => ?_, fun t d hd h => ?_⟩
  · obtain ⟨⟨v', t⟩, hs, hd'⟩ := Option.bind_eq_some_iff.1 h
    simp only at hd'
    subst hd'
    simp only [Books.setScope, Function.update_apply] at hs
    split at hs
    · have := hv d t hs
      omega
    · simp [home?, hs]
  · rcases h with h | ⟨k', hs⟩
    · exact .inl h
    · simp only [Books.setScope, Function.update_apply] at hs
      split at hs
      · have := hv d (some t) hs
        omega
      · exact .inr ⟨k', hs⟩

theorem setDepth (b : Books) (d : Nat) : Spares n b { b with depth := d } :=
  ⟨fun _ _ => List.Subset.refl _, fun _ _ _ h => h, fun _ _ _ h => h⟩

end Spares

end Books

end ScriptCore

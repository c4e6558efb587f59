import ScriptCore.Pool
import Mathlib.Data.List.Nodup

/-!
# Pools as partial maps

Seen from outside a pool is the partial map `entry?` from keys to live
entries, and every operation is a point update of that map: handing out adds
one key, taking back removes one, and the other two change one entry. Only
handing out needs to know anything about the free list, namely that it holds
exactly the entries that are not live; `WellKept` says so, and every operation
keeps it.

Below the map lies the generation of each entry, which is what tells two
owners of one index apart. It moves by one when the entry is taken back and
otherwise stays. `Settles` and `Grows` say this for requests made one after the
other: the first for such as only take entries back, the second for such as
only hand them out. Neither moves a generation twice, so counting the moves
counts the releases.
-/

namespace ScriptCore.Pool

variable {α : Type} {p q r : Pool α} {k k' : PoolKey} {e : PoolEntry α}

theorem entry?_eq_some :
    p.entry? k = some e ↔
      p.entries[k.index]? = some e ∧ e.isLive = true ∧ e.generation = k.generation := by
  simp [Option.filter_eq_some_iff, entry?]

theorem entry?_eq_none_of_getElem? (h : p.entries[k.index]? = none) : p.entry? k = none := by
  simp [h, entry?]

/-- Two keys of one index that both reach an entry are the same key. -/
theorem eq_of_live_of_index {e' : PoolEntry α} (h : p.entry? k = some e)
    (h' : p.entry? k' = some e') (hi : k'.index = k.index) : k' = k := by
  obtain ⟨he, -, hg⟩ := entry?_eq_some.1 h
  obtain ⟨he', -, hg'⟩ := entry?_eq_some.1 h'
  rw [hi, he] at he'
  injection he' with he'
  cases k; cases k'
  simp_all

theorem get?_eq_some {a : α} : p.get? k = some a ↔ ∃ e, p.entry? k = some e ∧ e.item = a := by
  simp [get?]

theorem depthOf?_eq_some {d : Nat} :
    p.depthOf? k = some d ↔ ∃ e, p.entry? k = some e ∧ e.depth = some d := by
  simp [depthOf?, Option.bind_eq_some_iff]

/-! ## The free list -/

/-- The free list holds exactly the entries that are not live, each once. -/
structure WellKept (p : Pool α) : Prop where
  nodup : p.free.Nodup
  mem_free : ∀ i, i ∈ p.free ↔ ∃ e, p.entries[i]? = some e ∧ e.isLive = false

theorem wellKept_empty : (empty : Pool α).WellKept :=
  ⟨List.nodup_nil, by simp [empty]⟩

/-! ## Changing one entry -/

/-- What a change of one live entry does to the map. -/
theorem entry?_of_modify {g : PoolEntry α → PoolEntry α} (h : p.entry? k = some e)
    (hq : q.entries = p.entries.modify k.index g) (k' : PoolKey) :
    q.entry? k' =
      if k'.index = k.index then
        (some (g e)).filter fun e => e.isLive && e.generation == k'.generation
      else p.entry? k' := by
  obtain ⟨he, -, -⟩ := entry?_eq_some.1 h
  simp only [hq, entry?, Array.getElem?_modify]
  by_cases hi : k'.index = k.index
  · rw [if_pos hi, if_pos hi.symm, hi, he]
    rfl
  · rw [if_neg hi, if_neg (Ne.symm hi)]

/-- A change that leaves an entry live, in its generation, is a point update. -/
theorem entry?_of_modify_keeping {g : PoolEntry α → PoolEntry α} (h : p.entry? k = some e)
    (hq : q.entries = p.entries.modify k.index g) (hl : (g e).isLive = e.isLive)
    (hg : (g e).generation = e.generation) (k' : PoolKey) :
    q.entry? k' = if k' = k then some (g e) else p.entry? k' := by
  obtain ⟨-, hlive, hgen⟩ := entry?_eq_some.1 h
  rw [entry?_of_modify h hq]
  by_cases hk : k' = k
  · subst hk
    simp [Option.filter, hl, hg, hlive, hgen]
  · rw [if_neg hk]
    by_cases hi : k'.index = k.index
    · rw [if_pos hi]
      have hnone : p.entry? k' = none := by
        cases h' : p.entry? k' with
        | none => rfl
        | some e' => exact absurd (eq_of_live_of_index h h' hi) hk
      have hne : e.generation ≠ k'.generation := by
        intro heq
        apply hk
        cases k; cases k'
        simp_all
      simp [Option.filter, hl, hg, hlive, hne, hnone]
    · rw [if_neg hi]

theorem entry?_modify (f : α → α) (k' : PoolKey) :
    entry? (p.modify k f) k' =
      if k' = k then (p.entry? k).map fun e => { e with item := f e.item }
      else p.entry? k' := by
  unfold modify
  cases h : p.entry? k with
  | none =>
      simp only [Option.isSome_none, Bool.false_eq_true, if_false, Option.map_none]
      split
      · next hk => rw [hk, h]
      · rfl
  | some e =>
      simp only [Option.isSome_some, if_true, Option.map_some]
      exact entry?_of_modify_keeping (g := fun e => { e with item := f e.item })
        h rfl rfl rfl k'

theorem entry?_detach (k' : PoolKey) :
    entry? (p.detach k) k' =
      if k' = k then (p.entry? k).map fun e => { e with depth := none }
      else p.entry? k' := by
  unfold detach
  cases h : p.entry? k with
  | none =>
      simp only [Option.isSome_none, Bool.false_eq_true, if_false, Option.map_none]
      split
      · next hk => rw [hk, h]
      · rfl
  | some e =>
      simp only [Option.isSome_some, if_true, Option.map_some]
      exact entry?_of_modify_keeping (g := fun e => { e with depth := none })
        h rfl rfl rfl k'

/-! ## Taking back -/

theorem release_fst (clear : α → α) : (p.release k clear).1 = p.get? k := by
  unfold release
  split
  · next h => exact h.symm
  · next item h => exact h.symm

/-- A release answers with something exactly if the key reaches something. -/
theorem isSome_release (clear : α → α) : (p.release k clear).1.isSome = (p.entry? k).isSome := by
  rw [release_fst, get?, Option.isSome_map]

theorem release_of_none (h : p.entry? k = none) (clear : α → α) :
    p.release k clear = (none, p) := by
  have hn : p.get? k = none := by simp [get?, h]
  simp only [release, hn]

theorem entry?_release (clear : α → α) (k' : PoolKey) :
    entry? (p.release k clear).2 k' = if k' = k then none else p.entry? k' := by
  cases h : p.entry? k with
  | none =>
      rw [release_of_none h]
      split
      · next hk => rw [hk]; exact h
      · rfl
  | some e =>
      have hs : p.get? k = some e.item := by simp [get?, h]
      simp only [release, hs]
      rw [entry?_of_modify (g := fun e => ⟨e.generation + 1, false, none, clear e.item⟩) h rfl]
      by_cases hi : k'.index = k.index
      · rw [if_pos hi]
        split
        · simp [Option.filter]
        · next hk =>
            cases h' : p.entry? k' with
            | none => simp [Option.filter]
            | some e' => exact absurd (eq_of_live_of_index h h' hi) hk
      · have hk : k' ≠ k := fun hk => hi (hk ▸ rfl)
        rw [if_neg hi, if_neg hk]

/-! ## Handing out -/

/-- The key that will be handed out next. -/
def nextKey (p : Pool α) : PoolKey :=
  match p.free with
  | i :: _ => ⟨i, (p.entries[i]?.map (·.generation)).getD 0⟩
  | [] => ⟨p.entries.size, 0⟩

theorem acquire_fst (d : Option Nat) (a : α) : (p.acquire d a).1 = p.nextKey := by
  simp only [acquire, nextKey]
  cases p.free <;> rfl

theorem acquire_fresh (hp : p.WellKept) : p.entry? p.nextKey = none := by
  unfold nextKey
  split
  · next i free hf =>
      obtain ⟨e, he, hl⟩ := (hp.mem_free i).1 (by simp [hf])
      simp [he, hl, entry?]
  · next hf => exact entry?_eq_none_of_getElem? (by simp)

theorem acquire_entry (hp : p.WellKept) (d : Option Nat) (a : α) :
    ∃ e, entry? (p.acquire d a).2 p.nextKey = some e ∧ e.depth = d := by
  rw [← acquire_fst d a]
  unfold acquire
  split
  · next i free hf =>
      obtain ⟨e, he, -⟩ := (hp.mem_free i).1 (by simp [hf])
      refine ⟨{ e with isLive := true, depth := d }, ?_, rfl⟩
      simp [entry?_eq_some, Array.getElem?_modify, he]
  · next hf =>
      refine ⟨{ generation := 0, isLive := true, depth := d, item := a }, ?_, rfl⟩
      simp [entry?_eq_some]

theorem entry?_acquire_of_ne (hp : p.WellKept) {d : Option Nat} {a : α}
    (hk : k' ≠ p.nextKey) : entry? (p.acquire d a).2 k' = p.entry? k' := by
  rw [← acquire_fst d a] at hk
  revert hk
  unfold acquire
  split
  · next i free hf =>
      intro hk
      obtain ⟨e, he, hl⟩ := (hp.mem_free i).1 (by simp [hf])
      simp only [Array.getElem?_modify, entry?]
      by_cases hi : i = k'.index
      · subst hi
        have hg : e.generation ≠ k'.generation := by
          intro heq
          apply hk
          simp [he, heq]
        simp [he, hl, hg, Option.filter]
      · rw [if_neg hi]
  · next hf =>
      intro hk
      simp only [Array.getElem?_push, entry?]
      by_cases hi : k'.index = p.entries.size
      · have hg : (0 : UInt32) ≠ k'.generation := by
          intro heq
          apply hk
          cases k'
          simp_all
        simp [hi, hg, Option.filter]
      · rw [if_neg hi]

/-! ## Every operation keeps the free list right -/

theorem WellKept.of_entries_free (hp : p.WellKept) {i : Nat}
    {g : PoolEntry α → PoolEntry α} (hq : q.entries = p.entries.modify i g)
    (hfree : q.free = p.free) (hg : ∀ e, (g e).isLive = e.isLive) : q.WellKept := by
  refine ⟨hfree ▸ hp.nodup, fun j => ?_⟩
  rw [hfree, hp.mem_free, hq, Array.getElem?_modify]
  split
  · next hij =>
      constructor
      · rintro ⟨e, he, hl⟩
        exact ⟨g e, by simp [he], by rw [hg, hl]⟩
      · rintro ⟨e, he, hl⟩
        obtain ⟨e', he', rfl⟩ := Option.map_eq_some_iff.1 he
        exact ⟨e', he', by rw [← hg, hl]⟩
  · exact Iff.rfl

theorem WellKept.modify (hp : p.WellKept) (k : PoolKey) (f : α → α) :
    (p.modify k f).WellKept := by
  unfold Pool.modify
  split
  · exact hp.of_entries_free (g := fun e => { e with item := f e.item }) rfl rfl fun _ => rfl
  · exact hp

theorem WellKept.detach (hp : p.WellKept) (k : PoolKey) : (p.detach k).WellKept := by
  unfold Pool.detach
  split
  · exact hp.of_entries_free (g := fun e => { e with depth := none }) rfl rfl fun _ => rfl
  · exact hp

theorem WellKept.release (hp : p.WellKept) (k : PoolKey) (clear : α → α) :
    (p.release k clear).2.WellKept := by
  cases h : p.entry? k with
  | none => rw [release_of_none h]; exact hp
  | some e =>
      have hs : p.get? k = some e.item := by simp [get?, h]
      obtain ⟨he, hlive, -⟩ := entry?_eq_some.1 h
      simp only [Pool.release, hs]
      have hnot : k.index ∉ p.free := by
        intro hmem
        obtain ⟨e', he', hl'⟩ := (hp.mem_free _).1 hmem
        rw [he] at he'
        injection he' with he'
        rw [← he', hlive] at hl'
        exact Bool.noConfusion hl'
      refine ⟨List.nodup_cons.2 ⟨hnot, hp.nodup⟩, fun j => ?_⟩
      simp only [List.mem_cons, hp.mem_free, Array.getElem?_modify]
      by_cases hj : k.index = j
      · subst hj
        simp [he]
      · simp [hj, Ne.symm hj]

theorem WellKept.acquire (hp : p.WellKept) (d : Option Nat) (a : α) :
    (p.acquire d a).2.WellKept := by
  unfold Pool.acquire
  split
  · next i free hf =>
      have hnd := hp.nodup
      rw [hf, List.nodup_cons] at hnd
      refine ⟨hnd.2, fun j => ?_⟩
      have hmem := hp.mem_free j
      rw [hf, List.mem_cons] at hmem
      simp only [Array.getElem?_modify]
      by_cases hij : i = j
      · subst hij
        constructor
        · intro hj
          exact absurd hj hnd.1
        · rintro ⟨e, he, hl⟩
          obtain ⟨e', -, rfl⟩ := Option.map_eq_some_iff.1 (by simpa using he)
          simp at hl
      · rw [if_neg hij, ← hmem]
        simp [Ne.symm hij]
  · next hf =>
      refine ⟨by simp [hf], fun j => ?_⟩
      have hmem := hp.mem_free j
      rw [hf] at hmem ⊢
      simp only [Array.getElem?_push]
      constructor
      · intro hj
        exact absurd hj List.not_mem_nil
      · rintro ⟨e, he, hl⟩
        split at he
        · injection he with he
          rw [← he] at hl
          exact absurd hl (by simp)
        · exact absurd (hmem.2 ⟨e, he, hl⟩) List.not_mem_nil

/-! ## Generations -/

/-- Whether an operation that led from `p` to `q` took back the entry at an
index: one if it did, since the entry is then in another generation. -/
def recycled (p q : Pool α) (i : Nat) : Nat :=
  match p.entries[i]?, q.entries[i]? with
  | some e, some e' => if e'.generation = e.generation then 0 else 1
  | _, _ => 0

theorem recycled_self (p : Pool α) (i : Nat) : recycled p p i = 0 := by
  unfold recycled
  split <;> simp_all

/-- From `p` to `q` entries were only taken back, each at most once. -/
structure Settles (p q : Pool α) : Prop where
  size_eq : q.entries.size = p.entries.size
  entry : ∀ (i : Nat) (e : PoolEntry α), p.entries[i]? = some e →
    ∃ e' : PoolEntry α, q.entries[i]? = some e' ∧
    ((e'.generation = e.generation ∧ e'.isLive = e.isLive) ∨
      (e.isLive = true ∧ e'.isLive = false ∧ e'.generation = e.generation + 1))

/-- From `p` to `q` entries were only handed out. -/
structure Grows (p q : Pool α) : Prop where
  entry : ∀ (i : Nat) (e : PoolEntry α), p.entries[i]? = some e →
    ∃ e' : PoolEntry α, q.entries[i]? = some e' ∧
    e'.generation = e.generation ∧ (e.isLive = true → e'.isLive = true)
  new : ∀ (i : Nat) (e : PoolEntry α), p.entries[i]? = none →
    q.entries[i]? = some e → e.generation = 0

/-- What the two have in common: a generation moves by one or not at all, and
an entry whose generation stays does not cease to be live. -/
structure Moves (p q : Pool α) : Prop where
  entry : ∀ (i : Nat) (e : PoolEntry α), p.entries[i]? = some e →
    ∃ e' : PoolEntry α, q.entries[i]? = some e' ∧
    ((e'.generation = e.generation ∧ (e.isLive = true → e'.isLive = true)) ∨
      e'.generation = e.generation + 1)
  new : ∀ (i : Nat) (e : PoolEntry α), p.entries[i]? = none →
    q.entries[i]? = some e → e.generation = 0

theorem Settles.refl (p : Pool α) : Settles p p :=
  ⟨rfl, fun _ e h => ⟨e, h, .inl ⟨rfl, rfl⟩⟩⟩

theorem Settles.trans (h₁ : Settles p q) (h₂ : Settles q r) : Settles p r := by
  refine ⟨h₂.size_eq.trans h₁.size_eq, fun i e he => ?_⟩
  obtain ⟨e₁, he₁, c₁⟩ := h₁.entry i e he
  obtain ⟨e₂, he₂, c₂⟩ := h₂.entry i e₁ he₁
  refine ⟨e₂, he₂, ?_⟩
  rcases c₁ with ⟨hg, hl⟩ | ⟨hl, hd, hg⟩
  · rw [hg, hl] at c₂
    exact c₂
  · -- an entry taken back is not live, so it is not taken back again
    rcases c₂ with ⟨hg', hl'⟩ | ⟨hl', -, -⟩
    · exact .inr ⟨hl, by rw [hl', hd], by rw [hg', hg]⟩
    · rw [hd] at hl'
      exact Bool.noConfusion hl'

theorem Settles.moves (h : Settles p q) : Moves p q := by
  refine ⟨fun i e he => ?_, fun i e hn he => ?_⟩
  · obtain ⟨e', he', ⟨hg, hl⟩ | ⟨-, -, hg⟩⟩ := h.entry i e he
    · exact ⟨e', he', .inl ⟨hg, fun hlive => hl.trans hlive⟩⟩
    · exact ⟨e', he', .inr hg⟩
  · have hi := (Array.getElem?_eq_some_iff.1 he).1
    rw [Array.getElem?_eq_none_iff] at hn
    have := h.size_eq
    omega

theorem Grows.refl (p : Pool α) : Grows p p :=
  ⟨fun _ e h => ⟨e, h, rfl, id⟩, fun _ _ hn he => absurd (hn.symm.trans he) nofun⟩

theorem Grows.trans (h₁ : Grows p q) (h₂ : Grows q r) : Grows p r := by
  refine ⟨fun i e he => ?_, fun i e hn he => ?_⟩
  · obtain ⟨e₁, he₁, hg₁, hl₁⟩ := h₁.entry i e he
    obtain ⟨e₂, he₂, hg₂, hl₂⟩ := h₂.entry i e₁ he₁
    exact ⟨e₂, he₂, hg₂.trans hg₁, fun hl => hl₂ (hl₁ hl)⟩
  · cases hq : q.entries[i]? with
    | none => exact h₂.new i e hq he
    | some e₁ =>
        obtain ⟨e₂, he₂, hg₂, -⟩ := h₂.entry i e₁ hq
        rw [he] at he₂
        injection he₂ with he₂
        rw [he₂, hg₂]
        exact h₁.new i e₁ hn hq

theorem Grows.moves (h : Grows p q) : Moves p q :=
  ⟨fun i e he =>
    let ⟨e', he', hg, hl⟩ := h.entry i e he
    ⟨e', he', .inl ⟨hg, hl⟩⟩, h.new⟩

/-- A change of one entry that keeps its generation and liveness does both. -/
theorem settles_grows_of_modify {i : Nat} {g : PoolEntry α → PoolEntry α}
    (hq : q.entries = p.entries.modify i g) (hgen : ∀ e, (g e).generation = e.generation)
    (hlive : ∀ e, (g e).isLive = e.isLive) : Settles p q ∧ Grows p q := by
  have hentry : ∀ (j : Nat) (e : PoolEntry α), p.entries[j]? = some e →
      ∃ e', q.entries[j]? = some e' ∧ e'.generation = e.generation ∧ e'.isLive = e.isLive := by
    intro j e he
    rw [hq, Array.getElem?_modify, he]
    split
    · exact ⟨g e, rfl, hgen e, hlive e⟩
    · exact ⟨e, rfl, rfl, rfl⟩
  refine ⟨⟨by simp [hq], fun j e he => ?_⟩, ⟨fun j e he => ?_, fun j e hn he => ?_⟩⟩
  · obtain ⟨e', he', hg, hl⟩ := hentry j e he
    exact ⟨e', he', .inl ⟨hg, hl⟩⟩
  · obtain ⟨e', he', hg, hl⟩ := hentry j e he
    exact ⟨e', he', hg, fun h => hl.trans h⟩
  · rw [hq, Array.getElem?_modify, hn] at he
    split at he <;> simp at he

theorem settles_grows_modify (p : Pool α) (k : PoolKey) (f : α → α) :
    Settles p (p.modify k f) ∧ Grows p (p.modify k f) := by
  unfold modify
  split
  · exact settles_grows_of_modify (g := fun e => { e with item := f e.item }) rfl
      (fun _ => rfl) fun _ => rfl
  · exact ⟨.refl p, .refl p⟩

theorem settles_grows_detach (p : Pool α) (k : PoolKey) :
    Settles p (p.detach k) ∧ Grows p (p.detach k) := by
  unfold detach
  split
  · exact settles_grows_of_modify (g := fun e => { e with depth := none }) rfl
      (fun _ => rfl) fun _ => rfl
  · exact ⟨.refl p, .refl p⟩

theorem settles_release (p : Pool α) (k : PoolKey) (clear : α → α) :
    Settles p (p.release k clear).2 := by
  cases h : p.entry? k with
  | none => rw [release_of_none h]; exact .refl p
  | some e =>
      have hs : p.get? k = some e.item := by simp [get?, h]
      obtain ⟨he, hlive, -⟩ := entry?_eq_some.1 h
      simp only [release, hs]
      refine ⟨by simp, fun i e' he' => ?_⟩
      simp only [Array.getElem?_modify, he']
      split
      · next hi =>
          subst hi
          rw [he] at he'
          injection he' with he'
          subst he'
          exact ⟨_, rfl, .inr ⟨hlive, rfl, rfl⟩⟩
      · exact ⟨e', rfl, .inl ⟨rfl, rfl⟩⟩

theorem grows_acquire (p : Pool α) (d : Option Nat) (a : α) :
    Grows p (p.acquire d a).2 := by
  unfold acquire
  split
  · next i free hf =>
      refine ⟨fun j e he => ?_, fun j e hn he => ?_⟩
      · simp only [Array.getElem?_modify, he]
        split
        · exact ⟨_, rfl, rfl, fun _ => rfl⟩
        · exact ⟨e, rfl, rfl, id⟩
      · simp only [Array.getElem?_modify, hn] at he
        split at he <;> simp at he
  · next hf =>
      refine ⟨fun j e he => ⟨e, ?_, rfl, id⟩, fun j e hn he => ?_⟩
      · have hj := (Array.getElem?_eq_some_iff.1 he).1
        simp only [Array.getElem?_push]
        rw [if_neg (by omega)]
        exact he
      · simp only [Array.getElem?_push, hn] at he
        split at he
        · injection he with he
          rw [← he]
        · cases he

theorem Moves.recycled_eq (h : Moves p q) {i : Nat} (he : p.entries[i]? = some e) :
    ∃ e', q.entries[i]? = some e' ∧
      ((recycled p q i = 0 ∧ e'.generation = e.generation ∧
          (e.isLive = true → e'.isLive = true)) ∨
        (recycled p q i = 1 ∧ e'.generation = e.generation + 1)) := by
  obtain ⟨e', he', ⟨hg, hl⟩ | hg⟩ := h.entry i e he
  · exact ⟨e', he', .inl ⟨by simp [recycled, he, he', hg], hg, hl⟩⟩
  · exact ⟨e', he', .inr ⟨by simp [recycled, he, he', hg], hg⟩⟩

/-- A live entry that was not taken back is still live. -/
theorem Moves.entry?_of_not_recycled (h : Moves p q) (hk : p.entry? k = some e)
    (hr : recycled p q k.index = 0) : ∃ e', q.entry? k = some e' := by
  obtain ⟨he, hlive, hgen⟩ := entry?_eq_some.1 hk
  obtain ⟨e', he', ⟨-, hg, hl⟩ | ⟨h1, -⟩⟩ := h.recycled_eq he
  · exact ⟨e', entry?_eq_some.2 ⟨he', hl hlive, hg.trans hgen⟩⟩
  · omega

/-- A live entry that is not live any more was taken back. -/
theorem Moves.recycled_of_gone (h : Moves p q) (hk : (p.entry? k).isSome)
    (hgone : q.entry? k = none) : recycled p q k.index = 1 := by
  obtain ⟨e, he⟩ := Option.isSome_iff_exists.1 hk
  obtain ⟨-, -, ⟨hzero, -⟩ | ⟨hone, -⟩⟩ := h.recycled_eq (entry?_eq_some.1 he).1
  · obtain ⟨e', he'⟩ := h.entry?_of_not_recycled he hzero
    rw [hgone] at he'
    cases he'
  · exact hone

/-- `n i` is how often the entry at index `i` was taken back so far: the
generation is that number, wrapped around. -/
structure Counts (n : Nat → Nat) (p : Pool α) : Prop where
  generation : ∀ (i : Nat) (e : PoolEntry α), p.entries[i]? = some e →
    e.generation = UInt32.ofNat (n i)
  beyond : ∀ i, p.entries[i]? = none → n i = 0

theorem counts_empty : Counts (fun _ => 0) (empty : Pool α) :=
  ⟨fun _ _ h => by simp [empty] at h, fun _ _ => rfl⟩

theorem Counts.move {n : Nat → Nat} (hn : Counts n p) (h : Moves p q) :
    Counts (fun i => n i + recycled p q i) q := by
  refine ⟨fun i e he => ?_, fun i hq => ?_⟩
  · cases hp : p.entries[i]? with
    | none =>
        rw [h.new i e hp he, hn.beyond i hp]
        simp [recycled, hp]
    | some e₀ =>
        have hg₀ := hn.generation i e₀ hp
        obtain ⟨e', he', ⟨hr, hg, -⟩ | ⟨hr, hg⟩⟩ := h.recycled_eq hp
        all_goals
          rw [he] at he'
          injection he' with he'
          rw [he', hg, hg₀, hr]
        · rfl
        · rw [UInt32.ofNat_add]
          rfl
  · cases hp : p.entries[i]? with
    | none => simp [recycled, hp, hn.beyond i hp]
    | some e₀ =>
        obtain ⟨e', he', -⟩ := h.recycled_eq hp
        rw [hq] at he'
        cases he'

/-- Between two counts less than 2^32 apart the wrapped count tells whether
anything happened. -/
theorem eq_of_ofNat_eq {a b : Nat} (hab : a ≤ b) (hlt : b < a + 4294967296)
    (h : UInt32.ofNat a = UInt32.ofNat b) : a = b := by
  have := congrArg UInt32.toNat h
  simp only [UInt32.toNat_ofNat'] at this
  omega

end ScriptCore.Pool

import ScriptCore.Proofs.Machine
import Mathlib.Data.List.Induction
import Mathlib.Order.Bounds.Basic

/-!
# A pool is as large as it had to be

A pool makes an entry only when none is free, that is when all it has are live.
So each new entry is a new highest number of live ones, and the number of
entries is the highest number there ever was. The argument needs nothing of the
keys: a stale or repeated one releases nothing, and puts nothing on the free
list twice.

What holds at each single state is an account (`Tallied`): the entries there
are, the live ones, and how many requests were for handing out and for taking
back. The highest number is about a history and comes from one equation for one
step, that the entries after it are as many as before or as many as are live
now, whichever is more. For a request this is plain, and for an operation of a
frame it holds because the operation is directed: going back it makes no entry,
and going out it leaves no fewer entries live than there were on the way.
-/

namespace ScriptCore

/-- What grows to the size of the moment, if that is more, is the greatest size there was. -/
theorem isGreatest_prefixes {ρ : Type} {size : List ρ → Nat} (peak : List ρ → Nat)
    (hstart : peak [] = size [])
    (hstep : ∀ l a, peak (l ++ [a]) = max (peak l) (size (l ++ [a]))) (l : List ρ) :
    IsGreatest {n | ∃ before, before <+: l ∧ size before = n} (peak l) := by
  induction l using List.reverseRecOn with
  | nil =>
      refine ⟨⟨[], List.prefix_refl [], hstart.symm⟩, ?_⟩
      rintro n ⟨before, hbefore, rfl⟩
      rw [List.prefix_nil.1 hbefore, hstart]
  | append_singleton l a ih =>
      obtain ⟨⟨highest, hhighest, hsize⟩, hbound⟩ := ih
      have hgrown := hstep l a
      constructor
      · rcases Nat.le_total (peak l) (size (l ++ [a])) with hle | hle
        · exact ⟨l ++ [a], List.prefix_refl _, by omega⟩
        · exact ⟨highest, hhighest.trans (List.prefix_append l [a]), by omega⟩
      · rintro n ⟨before, hbefore, rfl⟩
        rcases List.prefix_concat_iff.1 hbefore with rfl | hbefore
        · omega
        · have := hbound ⟨before, hbefore, rfl⟩
          omega

namespace Pool

variable {α : Type} {p q : Pool α} {x : Request α}

/-! ## Live entries -/

def liveCount (p : Pool α) : Nat := p.entries.countP (·.isLive)

/-- An entry is live or on the free list, and there only once. -/
theorem WellKept.liveCount_add_free (hp : p.WellKept) :
    p.liveCount + p.free.length = p.entries.size := by
  have hperm : p.free.Perm (p.entries.toList.findIdxs fun e => !e.isLive) := by
    refine (List.perm_ext_iff_of_nodup hp.nodup List.nodup_findIdxs).2 fun i => ?_
    rw [hp.mem_free, List.mem_findIdxs_iff_exists_getElem_pos]
    constructor
    · rintro ⟨e, he, hdead⟩
      obtain ⟨hlt, hget⟩ := Array.getElem?_eq_some_iff.1 he
      exact ⟨hlt, by simp [hget, hdead]⟩
    · rintro ⟨hlt, hdead⟩
      exact ⟨p.entries[i], Array.getElem?_eq_getElem hlt, by simpa using hdead⟩
  have hsplit := List.length_eq_countP_add_countP (fun e : PoolEntry α => e.isLive)
    (l := p.entries.toList)
  rw [hperm.length_eq, List.length_findIdxs, liveCount, ← Array.countP_toList]
  simpa using hsplit.symm

theorem WellKept.live_eq_liveCount (hp : p.WellKept) : p.live = p.liveCount := by
  have := hp.liveCount_add_free
  unfold live
  omega

/-! ## The account of a pool -/

/-- The number of entries a request asks for. -/
def Request.asked : Request α → Nat
  | .acquire _ _ => 1
  | _ => 0

/-- The number of entries a request gives back to `p`. -/
def returned (p : Pool α) : Request α → Nat
  | .release key clear => if (p.release key clear).1.isSome then 1 else 0
  | _ => 0

/-- How often an entry was asked for. -/
def allAsked : List (Request α) → Nat
  | [] => 0
  | x :: rs => x.asked + allAsked rs

/-- How often an entry was given back, beginning at `p`. -/
def allReturned (p : Pool α) : List (Request α) → Nat
  | [] => 0
  | x :: rs => p.returned x + (p.serve x).allReturned rs

/-- What a request does to the numbers of a pool, by how many entries it hands
out and takes back. -/
inductive Effect (p q : Pool α) : (asked returned : Nat) → Prop
  | reuses (size : q.entries.size = p.entries.size) (free : q.free.length + 1 = p.free.length)
      (created : q.created = p.created) (reused : q.reused = p.reused + 1) : Effect p q 1 0
  | makes (size : q.entries.size = p.entries.size + 1) (full : p.free = [])
      (free : q.free = []) (created : q.created = p.created + 1)
      (reused : q.reused = p.reused) : Effect p q 1 0
  | takesBack (size : q.entries.size = p.entries.size) (free : q.free.length = p.free.length + 1)
      (created : q.created = p.created) (reused : q.reused = p.reused) : Effect p q 0 1
  | leaves (size : q.entries.size = p.entries.size) (free : q.free = p.free)
      (created : q.created = p.created) (reused : q.reused = p.reused) : Effect p q 0 0

theorem effect_serve (p : Pool α) (x : Request α) :
    Effect p (p.serve x) x.asked (p.returned x) := by
  cases x with
  | acquire depth fresh =>
      simp only [serve, acquire]
      split
      · next i free hfree =>
          exact .reuses (Array.size_modify ..) (by rw [hfree]; rfl) rfl rfl
      · next hfree => exact .makes (Array.size_push ..) hfree hfree rfl rfl
  | release key clear =>
      cases hitem : p.get? key with
      | none =>
          simp only [serve, returned, release, hitem]
          exact .leaves rfl rfl rfl rfl
      | some item =>
          simp only [serve, returned, release, hitem]
          exact .takesBack (Array.size_modify ..) rfl rfl rfl
  | detach key =>
      simp only [serve, detach]
      split
      · exact .leaves (Array.size_modify ..) rfl rfl rfl
      · exact .leaves rfl rfl rfl rfl
  | get key => exact .leaves rfl rfl rfl rfl
  | modify key change =>
      simp only [serve, modify]
      split
      · exact .leaves (Array.size_modify ..) rfl rfl rfl
      · exact .leaves rfl rfl rfl rfl

namespace Effect

variable {m n : Nat}

theorem created (h : Effect p q m n) (hp : p.created = p.entries.size) :
    q.created = q.entries.size := by
  cases h <;> omega

theorem created_reused (h : Effect p q m n) :
    q.created + q.reused = p.created + p.reused + m := by
  cases h <;> omega

/-- Who is not asked for an entry makes none. -/
theorem created_eq (h : Effect p q 0 n) : q.created = p.created := by
  cases h <;> assumption

theorem live (h : Effect p q m n) (hp : p.WellKept) (hq : q.WellKept) :
    q.live + n = p.live + m := by
  have := hp.liveCount_add_free
  have := hq.liveCount_add_free
  unfold Pool.live
  cases h with
  | reuses hsize hfree => omega
  | makes hsize hfull hfree => rw [hfull, hfree, List.length_nil]; omega
  | takesBack hsize hfree => omega
  | leaves hsize hfree => rw [hfree]; omega

/-- A request makes an entry only if all are live. -/
theorem created_eq_max (h : Effect p q m n) (hp : p.created = p.entries.size) :
    q.created = max p.created q.live := by
  unfold Pool.live
  cases h with
  | makes hsize hfull hfree => rw [hfree, List.length_nil]; omega
  | _ => omega

end Effect

/-- The numbers of a pool after so many entries were asked for and given back. -/
structure Tallied (p : Pool α) (asked returned : Nat) : Prop where
  kept : p.WellKept
  created : p.created = p.entries.size
  created_reused : p.created + p.reused = asked
  live : p.live + returned = asked

variable {m n : Nat}

theorem tallied_empty : (empty : Pool α).Tallied 0 0 :=
  ⟨wellKept_empty, rfl, rfl, rfl⟩

theorem Tallied.serve (h : p.Tallied m n) (x : Request α) :
    (p.serve x).Tallied (m + x.asked) (n + p.returned x) := by
  have heffect := p.effect_serve x
  have hlive := heffect.live h.kept (h.kept.serve x)
  have hsum := heffect.created_reused
  refine ⟨h.kept.serve x, heffect.created h.created, ?_, ?_⟩
  · have := h.created_reused
    omega
  · have := h.live
    omega

theorem Tallied.serveAll (h : p.Tallied m n) (rs : List (Request α)) :
    (p.serveAll rs).Tallied (m + allAsked rs) (n + p.allReturned rs) := by
  induction rs generalizing p m n with
  | nil => exact h
  | cons x rs ih =>
      have hrest := ih (h.serve x)
      rw [Nat.add_assoc, Nat.add_assoc] at hrest
      exact hrest

theorem Tallied.live_le_created (h : p.Tallied m n) : p.live ≤ p.created := by
  rw [h.created]
  exact Nat.sub_le _ _

/-- What is given back is what the key names, if it names a live entry. -/
theorem isSome_release_iff {key : PoolKey} {clear : α → α} :
    (p.release key clear).1.isSome ↔
      ∃ e, p.entries[key.index]? = some e ∧ e.isLive = true ∧ e.generation = key.generation := by
  rw [isSome_release, Option.isSome_iff_exists]
  exact exists_congr fun e => entry?_eq_some

/-- The entry that is handed out next is not live. -/
theorem not_live_nextKey {e : PoolEntry α} (hp : p.WellKept)
    (he : p.entries[p.nextKey.index]? = some e) : e.isLive = false := by
  unfold nextKey at he
  split at he
  · next i free hfree =>
      obtain ⟨e', he', hdead⟩ := (hp.mem_free i).1 (by simp [hfree])
      rw [he'] at he
      cases he
      exact hdead
  · next hfree =>
      rw [Array.getElem?_eq_none (Nat.le_refl _)] at he
      cases he

/-! ## The highest number of live entries -/

/-- A pool that has come from an empty one by requests. -/
def Served (p : Pool α) : Prop := ∃ rs, (empty : Pool α).serveAll rs = p

theorem Served.tallied (h : p.Served) : ∃ m n, p.Tallied m n := by
  obtain ⟨rs, rfl⟩ := h
  exact ⟨_, _, tallied_empty.serveAll rs⟩

theorem Served.serve (h : p.Served) (x : Request α) : (p.serve x).Served := by
  obtain ⟨rs, rfl⟩ := h
  exact ⟨rs ++ [x], serveAll_append _ rs [x]⟩

theorem Served.created_serve (h : p.Served) (x : Request α) :
    (p.serve x).created = max p.created (p.serve x).live := by
  obtain ⟨m, n, htallied⟩ := h.tallied
  exact (p.effect_serve x).created_eq_max htallied.created

theorem Served.live_le_created (h : p.Served) : p.live ≤ p.created := by
  obtain ⟨m, n, htallied⟩ := h.tallied
  exact htallied.live_le_created

variable {d : Direction}

theorem Directed.served (h : Directed d p q) (hp : p.Served) : q.Served :=
  h.induction hp fun _ x _ hp' => hp'.serve x

theorem Directed.created_eq (h : Directed .back p q) : q.created = p.created := by
  refine h.induction (P := fun q => q.created = p.created) rfl fun p' x hx hp' => ?_
  have heffect := p'.effect_serve x
  have hnone : x.asked = 0 := by
    cases x with
    | acquire depth fresh => cases hx
    | _ => rfl
  rw [hnone] at heffect
  rw [heffect.created_eq, hp']

theorem live_le_serve (hp : p.Served) (hx : x.Towards .out) : p.live ≤ (p.serve x).live := by
  obtain ⟨m, n, htallied⟩ := hp.tallied
  have hlive := (p.effect_serve x).live htallied.kept (htallied.kept.serve x)
  have hnone : p.returned x = 0 := by
    cases x with
    | release key clear => cases hx
    | _ => rfl
  omega

/-- Of a directed list it is enough to look at the end: there are as many
entries as before or as are live then. -/
theorem Directed.created_eq_max (h : Directed d p q) (hp : p.Served) :
    q.created = max p.created q.live := by
  cases d with
  | back =>
      have hsame := h.created_eq
      have hle := (h.served hp).live_le_created
      omega
  | out =>
      have hboth : q.Served ∧ q.created = max p.created q.live := by
        have hle := hp.live_le_created
        refine h.induction (P := fun q => q.Served ∧ q.created = max p.created q.live)
          ⟨hp, by omega⟩ fun p' x hx hp' => ⟨hp'.1.serve x, ?_⟩
        have hmade := hp'.1.created_serve x
        have hlive := live_le_serve hp'.1 hx
        have := hp'.2
        omega
      exact hboth.2

theorem isGreatest_created (rs : List (Request α)) :
    IsGreatest {n | ∃ before, before <+: rs ∧ ((empty : Pool α).serveAll before).live = n}
      ((empty : Pool α).serveAll rs).created := by
  refine isGreatest_prefixes (fun rs => ((empty : Pool α).serveAll rs).created) rfl
    (fun rs x => ?_) rs
  rw [serveAll_append]
  exact Served.created_serve ⟨rs, rfl⟩ x

end Pool

namespace Machine

/-! ## The pools of a frame -/

variable {α : Type} {m : Machine}

/-- The same of one of the pools of a frame, over the operations of a run. -/
theorem isGreatest_created_run {pool : Frame → Pool α} (hstart : pool m.engine.frame = .empty)
    (hpool : ∀ {d f g}, Frame.Directed d f g → Pool.Directed d (pool f) (pool g))
    (os : List Op) :
    IsGreatest {n | ∃ before, before <+: os ∧ (pool (m.run before).engine.frame).liveCount = n}
      (pool (m.run os).engine.frame).created := by
  have hserved : ∀ os, (pool (m.run os).engine.frame).Served := by
    intro os
    induction os using List.reverseRecOn with
    | nil => exact ⟨[], hstart.symm⟩
    | append_singleton os o ih =>
        obtain ⟨d, hdirected⟩ := o.directed_perform (m.run os).engine
        rw [run_append]
        exact (hpool hdirected).served ih
  have hlive : ∀ os, (pool (m.run os).engine.frame).live =
      (pool (m.run os).engine.frame).liveCount := by
    intro os
    obtain ⟨asked, returned, htallied⟩ := (hserved os).tallied
    exact htallied.kept.live_eq_liveCount
  simp only [← hlive]
  refine isGreatest_prefixes (fun os => (pool (m.run os).engine.frame).created) ?_
    (fun os o => ?_) os
  · show (pool m.engine.frame).created = (pool m.engine.frame).live
    rw [hstart]
    rfl
  · obtain ⟨d, hdirected⟩ := o.directed_perform (m.run os).engine
    rw [run_append]
    exact (hpool hdirected).created_eq_max (hserved os)

/-- A pool never has more entries than were live at one time. Whatever keys it
is given, the entries that are not live are on the free list, each once; the
live ones are those asked for and not given back, and what a live key names is
given back; it has made as many entries as it has, and as were live at the
highest; the others asked for were entries it had already; and what it hands out
was not live. So the numbers a frame reports
as made are the highest numbers of scopes and of tables that were live at one
time of its run. -/
theorem created_is_peak_demand (rs : List (Pool.Request α)) (store : Store)
    (config : FrameConfig) (global : GlobalId) (flag : FlagId) (os : List Op) :
    (let p := (Pool.empty : Pool α).serveAll rs
     p.free.Nodup ∧ (∀ i, i ∈ p.free ↔ ∃ e, p.entries[i]? = some e ∧ e.isLive = false) ∧
      p.live = p.liveCount ∧ p.live + (Pool.empty : Pool α).allReturned rs = Pool.allAsked rs ∧
      (∀ key clear, (p.release key clear).1.isSome ↔
        ∃ e, p.entries[key.index]? = some e ∧ e.isLive = true ∧ e.generation = key.generation) ∧
      p.created = p.entries.size ∧
      IsGreatest {n | ∃ before, before <+: rs ∧ ((Pool.empty : Pool α).serveAll before).live = n}
        p.created ∧
      p.created + p.reused = Pool.allAsked rs ∧
      ∀ depth fresh e, p.entries[(p.acquire depth fresh).1.index]? = some e →
        e.isLive = false) ∧
      let m := start store config global flag
      let stats := (m.run os).engine.frame.stats
      IsGreatest
          {n | ∃ before, before <+: os ∧ (m.run before).engine.frame.scopes.liveCount = n}
          stats.scopesCreated ∧
        IsGreatest
          {n | ∃ before, before <+: os ∧ (m.run before).engine.frame.tables.liveCount = n}
          stats.tablesCreated := by
  refine ⟨?_, ?_, ?_⟩
  · have htallied := (Pool.tallied_empty (α := α)).serveAll rs
    have hlive := htallied.live
    have hsum := htallied.created_reused
    rw [Nat.zero_add] at hlive hsum
    rw [Nat.zero_add] at hlive
    refine ⟨htallied.kept.nodup, htallied.kept.mem_free, htallied.kept.live_eq_liveCount, hlive,
      fun key clear => Pool.isSome_release_iff, htallied.created, Pool.isGreatest_created rs, hsum,
      fun depth fresh e he => ?_⟩
    rw [Pool.acquire_fst] at he
    exact Pool.not_live_nextKey htallied.kept he
  · exact isGreatest_created_run rfl (fun h => h.scopes) os
  · exact isGreatest_created_run rfl (fun h => h.tables) os

/-- An entry given back twice is free once: of the two that are asked for next
one is new. -/
example :
    let p := (Pool.empty : Pool Nat).serveAll
      [.acquire none 0, .release ⟨0, 0⟩ id, .release ⟨0, 0⟩ id, .acquire none 0, .acquire none 0]
    (p.live, p.created, p.reused) = (2, 2, 1) := by decide

end Machine

end ScriptCore

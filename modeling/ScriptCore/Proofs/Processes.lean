import ScriptCore.Proofs.Registrations

/-!
# Threads at work

A `Process` is the threads together with the frames that are not in their
places: those that are lent out, those in the hands of the host, and those that
are gone. The threads and the host take turns, and as a thread is back to its
own only when it gives its frame back, anything may happen in between, also
what it does itself.

`Consistent` says that the frames are registered as they should be, and that a
place says when its frame is lent out. Each event changes what one thread has,
if that, by moves that keep the registrations in order. So it lasts, and what
the registry says of a thread, who can be told to stop and when a frame is to
be had can be read off.
-/

namespace ScriptCore

/-! ## A process -/

def ThreadSlot.held? : ThreadSlot → Option Installed
  | .holding i => some i
  | _ => none

structure Process where
  threads : Threads := {}
  store : Store := {}
  /-- The frames that threads run on at the moment. -/
  lent : ThreadId → Option Installed := fun _ => none
  /-- The frames in the hands of the host. -/
  detached : List Frame := []
  /-- The frames that are gone, whose flags somebody may still have. -/
  dropped : List Frame := []

/-- A step of some thread, or of the host. What a thread does with its frame
begins with `borrow` and ends with `giveBack`. -/
inductive Event where
  | make (config : FrameConfig) (global : GlobalId)
  | borrow (id : ThreadId)
  /-- What else changes the shared state is no work on a frame. -/
  | work (id : ThreadId) (operation : Op) (own : ∀ st, operation ≠ .share st)
  | giveBack (id : ThreadId)
  /-- The frame to install, and the one to drop, is named by its position. -/
  | install (id : ThreadId) (n : Nat)
  | remove (id : ThreadId)
  | drop (n : Nat)
  | terminate (id : ThreadId)
  | forget
  | finish (id : ThreadId)

namespace Process

/-- The frame in a thread's place, as it is once it is dropped. -/
def evicted (p : Process) (id : ThreadId) : List Frame :=
  (p.threads.slot id).held?.toList.map fun i => (p.threads.detach i.frame).1

/-- The host drops one of its frames. -/
def discard (p : Process) (n : Nat) : Process :=
  match p.detached[n]? with
  | none => p
  | some f =>
    let (f, threads) := p.threads.detach f
    { p with threads, detached := p.detached.eraseIdx n, dropped := f :: p.dropped }

/-- A frame that is refused is dropped. A thread does not end while it runs on
its frame. -/
def after (p : Process) : Event → Process
  | .make config global =>
    let (flag, store) := p.store.addFlag false
    { p with store, detached := { config, global, flag } :: p.detached }
  | .borrow id =>
    match p.threads.borrow p.store id with
    | .error _ => p
    | .ok (i, threads, store) =>
      { p with
        threads, store
        lent := Function.update p.lent id (some i)
        dropped :=
          if (p.threads.slot id).held?.any (·.epoch = p.threads.epoch) then p.dropped
          else p.evicted id ++ p.dropped }
  | .work id operation _ =>
    match p.lent id with
    | none => p
    | some i =>
      let e := operation.perform ⟨p.store, i.frame⟩
      { p with
        store := e.store
        lent := Function.update p.lent id (some { i with frame := e.frame }) }
  | .giveBack id =>
    match p.lent id with
    | none => p
    | some i =>
      { p with threads := p.threads.giveBack id i, lent := Function.update p.lent id none }
  | .install id n =>
    match p.detached[n]? with
    | none => p
    | some f =>
      match p.threads.install id f with
      | .error _ => p.discard n
      | .ok (previous, threads) =>
        { p with threads, detached := previous.toList ++ p.detached.eraseIdx n }
  | .remove id =>
    match p.threads.take id with
    | .error _ => p
    | .ok (f, threads) => { p with threads, detached := f.toList ++ p.detached }
  | .drop n => p.discard n
  | .terminate id => { p with store := (p.threads.terminate p.store id).2 }
  | .forget => { p with threads := p.threads.forget }
  | .finish id =>
    match p.lent id with
    | some _ => p
    | none => { p with threads := p.threads.finish id, dropped := p.evicted id ++ p.dropped }

def run (p : Process) (events : List Event) : Process := events.foldl after p

/-- The frame of a thread, in place or lent out. -/
def frame? (p : Process) (id : ThreadId) : Option Installed :=
  (p.lent id).or (p.threads.slot id).held?

/-- A thread has this frame, and it was put in place in the current epoch. -/
def Current (p : Process) (id : ThreadId) (i : Installed) : Prop :=
  p.frame? id = some i ∧ i.epoch = p.threads.epoch

def place? (p : Process) (id : ThreadId) : Option (Badge × Nat) :=
  (p.frame? id).map fun i => (i.frame.badge, i.epoch)

/-- The place of a thread says that its frame is lent out if it is. -/
def Lends (p : Process) (id : ThreadId) : Prop :=
  ∀ n, p.threads.slot id = .lent n ↔ ∃ i, p.lent id = some i ∧ i.epoch = n

structure Consistent (p : Process) : Prop where
  registration : Registration p.threads.epoch p.threads.flag? p.place?
    ((p.detached ++ p.dropped).map Frame.badge) p.store.flags.size
  lends : ∀ id, p.Lends id

variable {p : Process} {id : ThreadId} {i : Installed} {f : Frame} {n : Nat} {s : ThreadSlot}

theorem Lends.lent_eq_none (h : p.Lends id) (hslot : ∀ n, p.threads.slot id ≠ .lent n) :
    p.lent id = none := by
  cases hlent : p.lent id with
  | none => rfl
  | some i => exact absurd ((h i.epoch).2 ⟨i, hlent, rfl⟩) (hslot i.epoch)

theorem Lends.ne_lent (h : p.Lends id) (hlent : p.lent id = none) (n : Nat) :
    p.threads.slot id ≠ .lent n := by
  intro hslot
  obtain ⟨i, hi, -⟩ := (h n).1 hslot
  rw [hlent] at hi
  cases hi

theorem place?_of_lent (hlent : p.lent id = some i) :
    p.place? id = some (i.frame.badge, i.epoch) := by
  rw [place?, frame?, hlent, Option.some_or, Option.map_some]

theorem place?_of_idle (hlent : p.lent id = none) :
    p.place? id = (p.threads.slot id).held?.map fun i => (i.frame.badge, i.epoch) := by
  rw [place?, frame?, hlent, Option.none_or]

theorem evicted_of_holding (hslot : p.threads.slot id = .holding i)
    (hi : i.frame.registered = some id) :
    p.evicted id = [{ i.frame with registered := none }] := by
  rw [evicted, hslot]
  simp only [ThreadSlot.held?, Option.toList_some, List.map_cons, List.map_nil,
    Threads.detach_eq p.threads hi]

theorem perm_eraseIdx {l : List Frame} (h : l[n]? = some f) : l.Perm (f :: l.eraseIdx n) := by
  obtain ⟨hn, rfl⟩ := List.getElem?_eq_some_iff.1 h
  exact (List.getElem_cons_eraseIdx_perm hn).symm

namespace Consistent

theorem start (store : Store) : Consistent { store } where
  registration := Registration.empty 0 store.flags.size
  lends _ _ := ⟨nofun, nofun⟩

/-- A thread with an empty place has no frame. -/
theorem vacant (h : p.Consistent) (hslot : p.threads.slot id = .vacant) :
    p.lent id = none ∧ p.place? id = none := by
  have hlent := (h.lends id).lent_eq_none (by rw [hslot]; exact nofun)
  refine ⟨hlent, ?_⟩
  rw [place?_of_idle hlent, hslot]
  rfl

/-- A frame in its place is not lent out, is noted for its thread, and has the
registration of the thread if there is one. -/
theorem holding (h : p.Consistent) (hslot : p.threads.slot id = .holding i) :
    p.lent id = none ∧ p.place? id = some (i.frame.badge, i.epoch) ∧
      i.frame.registered = some id ∧
      ∀ flag, p.threads.flag? id = some flag → flag = i.frame.flag := by
  have hlent := (h.lends id).lent_eq_none (by rw [hslot]; exact nofun)
  have hplace : p.place? id = some (i.frame.badge, i.epoch) := by
    rw [place?_of_idle hlent, hslot]
    rfl
  exact ⟨hlent, hplace, h.registration.registered id _ _ hplace, h.registration.flag_eq hplace⟩

theorem unregistered (h : p.Consistent) (hf : f ∈ p.detached) : f.registered = none :=
  h.registration.unregistered f.badge (List.mem_map_of_mem (List.mem_append_left p.dropped hf))

/-! ## One thread at a time -/

section

variable {t : Threads} {st : Store} {lent : ThreadId → Option Installed}
  {detached dropped : List Frame}

/-- What holds of the places of all other threads is not affected. -/
theorem change (h : p.Consistent) (id : ThreadId)
    (hslot : ∀ j, j ≠ id → t.slot j = p.threads.slot j)
    (hlent : ∀ j, j ≠ id → lent j = p.lent j)
    (hlends : Lends ⟨t, st, lent, detached, dropped⟩ id)
    (hreg : Registration t.epoch t.flag?
      (Function.update p.place? id (place? ⟨t, st, lent, detached, dropped⟩ id))
      ((detached ++ dropped).map Frame.badge) st.flags.size) :
    Consistent ⟨t, st, lent, detached, dropped⟩ where
  registration := by
    have hupdate : Function.update p.place? id (place? ⟨t, st, lent, detached, dropped⟩ id) =
        place? ⟨t, st, lent, detached, dropped⟩ := by
      funext j
      by_cases hj : j = id
      · rw [hj, Function.update_self]
      · rw [Function.update_of_ne hj]
        show p.place? j = ((lent j).or (t.slot j).held?).map _
        rw [hslot j hj, hlent j hj]
        rfl
    exact hupdate ▸ hreg
  lends j := by
    by_cases hj : j = id
    · exact hj ▸ hlends
    · have hold := h.lends j
      rw [Lends, ← hslot j hj, ← hlent j hj] at hold
      exact hold

/-- A thread has a frame in its place, or none. -/
theorem idle (h : p.Consistent) (hslot : ∀ j, t.slot j = if j = id then s else p.threads.slot j)
    (hs : ∀ n, s ≠ .lent n) (hlent : lent id = none) (hother : ∀ j, j ≠ id → lent j = p.lent j)
    (hreg : Registration t.epoch t.flag?
      (Function.update p.place? id (s.held?.map fun i => (i.frame.badge, i.epoch)))
      ((detached ++ dropped).map Frame.badge) st.flags.size) :
    Consistent ⟨t, st, lent, detached, dropped⟩ := by
  have hself : t.slot id = s := by rw [hslot, if_pos rfl]
  refine h.change id (fun j hj => by rw [hslot, if_neg hj]) hother (fun n => ?_) ?_
  · refine ⟨fun hn => absurd (hself.symm.trans hn) (hs n), ?_⟩
    rintro ⟨i, hi, -⟩
    rw [show lent id = some i from hi] at hlent
    cases hlent
  · have hplace := place?_of_idle (p := ⟨t, st, lent, detached, dropped⟩) hlent
    rw [hplace, hself]
    exact hreg

/-- A thread runs on its frame. -/
theorem running (h : p.Consistent)
    (hslot : ∀ j, t.slot j = if j = id then .lent i.epoch else p.threads.slot j)
    (hlent : lent id = some i) (hother : ∀ j, j ≠ id → lent j = p.lent j)
    (hreg : Registration t.epoch t.flag?
      (Function.update p.place? id (some (i.frame.badge, i.epoch)))
      ((detached ++ dropped).map Frame.badge) st.flags.size) :
    Consistent ⟨t, st, lent, detached, dropped⟩ := by
  have hself : t.slot id = .lent i.epoch := by rw [hslot, if_pos rfl]
  refine h.change id (fun j hj => by rw [hslot, if_neg hj]) hother (fun n => ?_) ?_
  · constructor
    · intro hn
      exact ⟨i, hlent, ThreadSlot.lent.inj (hself.symm.trans hn)⟩
    · rintro ⟨i', hi', rfl⟩
      rw [Option.some.inj (hlent.symm.trans hi')] at hself
      exact hself
  · have hplace := place?_of_lent (p := ⟨t, st, lent, detached, dropped⟩) hlent
    rw [hplace]
    exact hreg

end

/-! ## What each event keeps -/

theorem make (h : p.Consistent) (config : FrameConfig) (global : GlobalId) :
    (p.after (.make config global)).Consistent where
  registration := by
    show Registration _ _ _ (⟨p.store.flags.size, none⟩ :: (p.detached ++ p.dropped).map _)
      (p.store.flags.push false).size
    rw [Array.size_push]
    exact h.registration.make
  lends := h.lends

theorem forget (h : p.Consistent) : (p.after .forget).Consistent where
  registration := h.registration.forget
  lends := h.lends

theorem terminate (h : p.Consistent) (id : ThreadId) :
    (p.after (.terminate id)).Consistent where
  registration := by
    have hsize : (p.threads.terminate p.store id).2.flags.size = p.store.flags.size := by
      unfold Threads.terminate
      split
      · exact Array.size_setIfInBounds
      · rfl
    show Registration _ _ _ _ (p.threads.terminate p.store id).2.flags.size
    rw [hsize]
    exact h.registration
  lends := h.lends

theorem discard (h : p.Consistent) (n : Nat) : (p.discard n).Consistent := by
  unfold Process.discard
  cases hf : p.detached[n]? with
  | none => exact h
  | some f =>
      simp only [Threads.detach_of_unregistered _ (h.unregistered (List.mem_of_getElem? hf))]
      refine ⟨h.registration.perm (List.Perm.map _ ?_), h.lends⟩
      exact ((perm_eraseIdx hf).append_right p.dropped).trans List.perm_middle.symm

/-- Taking a frame out of its place leaves things in order, and the place empty. -/
theorem take (h : p.Consistent) (id : ThreadId) (hslot : ∀ n, p.threads.slot id ≠ .lent n) :
    ∃ f t, p.threads.take id = .ok (f, t) ∧ t.slot id = .vacant ∧
      Consistent { p with threads := t, detached := f.toList ++ p.detached } := by
  cases hs : p.threads.slot id with
  | lent n => exact absurd hs (hslot n)
  | vacant => exact ⟨none, p.threads, Threads.take_of_vacant hs, hs, h⟩
  | holding i =>
      obtain ⟨hlent, hplace, hi, hflag⟩ := h.holding hs
      have hvacant : ∀ j, ((p.threads.setSlot id .vacant).deregister id i.frame.flag).slot j =
          if j = id then .vacant else p.threads.slot j := by
        intro j
        rw [Threads.slot_deregister, Threads.slot_setSlot]
      have hupdate : ((p.threads.setSlot id .vacant).deregister id i.frame.flag).flag? =
          Function.update p.threads.flag? id none := Threads.flag?_deregister hflag
      refine ⟨_, _, Threads.take_of_holding hs hi, (hvacant id).trans (if_pos rfl), ?_⟩
      refine h.idle hvacant nofun hlent (fun _ _ => rfl) ?_
      rw [Threads.epoch_deregister, hupdate]
      exact h.registration.vacate hplace

/-- Putting a frame of the host in an empty place leaves things in order. -/
theorem put {rest : List Frame} (h : p.Consistent) (hslot : p.threads.slot id = .vacant)
    (hrest : p.detached.Perm (f :: rest)) :
    Consistent { p with threads := p.threads.put id f, detached := rest } := by
  obtain ⟨hlent, -⟩ := h.vacant hslot
  have hflag : (p.threads.put id f).flag? =
      Function.update p.threads.flag? id (some f.flag) := p.threads.flag?_register id f.flag
  refine h.idle (Threads.slot_setSlot _ id · _) nofun hlent (fun _ _ => rfl) ?_
  rw [hflag]
  exact (h.registration.perm ((hrest.append_right p.dropped).map Frame.badge)).place id

theorem install (h : p.Consistent) (id : ThreadId) (n : Nat) :
    (p.after (.install id n)).Consistent := by
  unfold after
  cases hf : p.detached[n]? with
  | none =>
      simp only [hf]
      exact h
  | some f =>
      cases hs : p.threads.slot id with
      | lent m =>
          simp only [hf, Threads.install_of_lent hs]
          exact h.discard n
      | vacant | holding =>
          obtain ⟨previous, t, htake, hvacant, ht⟩ := h.take id (by rw [hs]; exact nofun)
          simp only [hf, Threads.install_of_take htake]
          have hperm := (perm_eraseIdx hf).append_left previous.toList
          exact ht.put hvacant (hperm.trans List.perm_middle)

theorem remove (h : p.Consistent) (id : ThreadId) : (p.after (.remove id)).Consistent := by
  unfold after
  cases hs : p.threads.slot id with
  | lent n =>
      simp only [Threads.take_of_lent hs]
      exact h
  | vacant | holding =>
      obtain ⟨f, t, htake, -, ht⟩ := h.take id (by rw [hs]; exact nofun)
      simp only [htake]
      exact ht

/-- The frame in a thread's place is dropped. -/
theorem evict (h : p.Consistent) (hslot : p.threads.slot id = .holding i) :
    Registration p.threads.epoch (Function.update p.threads.flag? id none)
      (Function.update p.place? id none)
      ((p.detached ++ (p.evicted id ++ p.dropped)).map Frame.badge) p.store.flags.size := by
  obtain ⟨-, hplace, hi, -⟩ := h.holding hslot
  have hperm : (p.detached ++ { i.frame with registered := none } :: p.dropped).Perm
      ({ i.frame with registered := none } :: (p.detached ++ p.dropped)) := List.perm_middle
  rw [evicted_of_holding hslot hi]
  exact (h.registration.vacate hplace).perm (hperm.symm.map Frame.badge)

/-- A fresh frame is lent out, once there is none in the way. -/
theorem borrow_fresh {t : Threads} {dropped : List Frame} (h : p.Consistent)
    (hslot : t.slot = p.threads.slot) (hepoch : t.epoch = p.threads.epoch)
    (hreg : Registration p.threads.epoch t.flag? (Function.update p.place? id none)
      ((p.detached ++ dropped).map Frame.badge) p.store.flags.size) :
    Consistent
      { p with
        threads := (t.lendFresh p.store id).2.1
        store := (t.lendFresh p.store id).2.2
        lent := Function.update p.lent id (some (t.lendFresh p.store id).1)
        dropped } := by
  have hflag : (t.lendFresh p.store id).2.1.flag? =
      Function.update t.flag? id (some p.store.flags.size) := t.flag?_register id _
  refine h.running (i := (t.lendFresh p.store id).1) (fun j => ?_) (Function.update_self ..)
    (fun j hj => Function.update_of_ne hj ..) ?_
  · rw [← hslot]
    exact Threads.slot_setSlot _ id j _
  · have hplaced := hreg.make.place id
    rw [Function.update_idem] at hplaced
    rw [hflag]
    show Registration t.epoch _ (Function.update p.place? id (some (_, t.epoch))) _
      (p.store.flags.push false).size
    rw [hepoch, Array.size_push]
    exact hplaced

theorem borrow (h : p.Consistent) (id : ThreadId) : (p.after (.borrow id)).Consistent := by
  unfold after
  cases hs : p.threads.slot id with
  | lent n =>
      simp only [Threads.borrow_of_lent hs]
      exact h
  | vacant =>
      obtain ⟨-, hplace⟩ := h.vacant hs
      simp only [Threads.borrow_of_vacant hs, hs, evicted]
      refine h.borrow_fresh rfl rfl ?_
      rw [← hplace, Function.update_eq_self]
      exact h.registration
  | holding i =>
      obtain ⟨hlent, hplace, hi, hflag⟩ := h.holding hs
      by_cases hepoch : i.epoch = p.threads.epoch
      · simp only [Threads.borrow_of_current hs hepoch, hs, ThreadSlot.held?, Option.any_some,
          hepoch, decide_true, if_true]
        refine h.running (hepoch ▸ Threads.slot_setSlot _ id · _) (Function.update_self ..)
          (fun j hj => Function.update_of_ne hj ..) ?_
        rw [← hplace, Function.update_eq_self]
        exact h.registration
      · simp only [Threads.borrow_of_old hs hi hepoch, hs, ThreadSlot.held?, Option.any_some,
          hepoch, decide_false, Bool.false_eq_true, if_false]
        refine h.borrow_fresh (p.threads.slot_deregister id _) (p.threads.epoch_deregister id _) ?_
        rw [Threads.flag?_deregister hflag]
        exact h.evict hs

theorem giveBack (h : p.Consistent) (id : ThreadId) : (p.after (.giveBack id)).Consistent := by
  unfold after
  cases hlent : p.lent id with
  | none =>
      simp only [hlent]
      exact h
  | some i =>
      simp only [hlent]
      refine h.idle (Threads.slot_setSlot _ id · _) nofun (Function.update_self ..)
        (fun j hj => Function.update_of_ne hj ..) ?_
      rw [show (ThreadSlot.holding i).held? = some i from rfl, Option.map_some,
        ← place?_of_lent hlent, Function.update_eq_self]
      exact h.registration

theorem finish (h : p.Consistent) (id : ThreadId) : (p.after (.finish id)).Consistent := by
  unfold after
  cases hlent : p.lent id with
  | some i =>
      simp only [hlent]
      exact h
  | none =>
      simp only [hlent]
      cases hs : p.threads.slot id with
      | lent n => exact absurd hs ((h.lends id).ne_lent hlent n)
      | vacant =>
          obtain ⟨-, hplace⟩ := h.vacant hs
          rw [Threads.finish_of_vacant hs, evicted, hs]
          refine h.idle (p.threads.slot_clear id) nofun hlent (fun _ _ => rfl) ?_
          show Registration _ _ (Function.update p.place? id none) _ _
          rw [← hplace, Function.update_eq_self]
          exact h.registration
      | holding i =>
          obtain ⟨-, -, hi, hflag⟩ := h.holding hs
          rw [Threads.finish_of_holding hs hi]
          refine h.idle (s := .vacant) (fun j => ?_) nofun hlent (fun _ _ => rfl) ?_
          · rw [Threads.slot_clear, Threads.slot_deregister]
          · show Registration (p.threads.deregister id i.frame.flag).epoch
              (p.threads.deregister id i.frame.flag).flag? _ _ _
            rw [Threads.epoch_deregister, Threads.flag?_deregister hflag]
            exact h.evict hs

theorem work (h : p.Consistent) (id : ThreadId) (o : Op) (ho : ∀ st, o ≠ .share st) :
    (p.after (.work id o ho)).Consistent := by
  unfold after
  cases hlent : p.lent id with
  | none =>
      simp only [hlent]
      exact h
  | some i =>
      have hslot := (h.lends id i.epoch).2 ⟨i, hlent, rfl⟩
      have hflags := (o.continues_perform ⟨p.store, i.frame⟩ ho).flags
      simp only [hlent]
      refine h.running (fun j => ?_) (Function.update_self ..)
        (fun j hj => Function.update_of_ne hj ..) ?_
      · split
        · next hj => rw [hj, hslot]
        · rfl
      · simp only [hflags, o.badge_perform]
        rw [← place?_of_lent hlent, Function.update_eq_self]
        exact h.registration

end Consistent

/-- Whatever happens, things are left in order. -/
theorem Consistent.after (h : p.Consistent) (event : Event) : (p.after event).Consistent := by
  cases event with
  | make config global => exact h.make config global
  | borrow id => exact h.borrow id
  | work id o ho => exact h.work id o ho
  | giveBack id => exact h.giveBack id
  | install id n => exact h.install id n
  | remove id => exact h.remove id
  | drop n => exact h.discard n
  | terminate id => exact h.terminate id
  | forget => exact h.forget
  | finish id => exact h.finish id

theorem Consistent.run (h : p.Consistent) (events : List Event) : (p.run events).Consistent := by
  induction events generalizing p with
  | nil => exact h
  | cons event events ih => exact ih (h.after event)

/-! ## Epochs -/

theorem epoch_discard (p : Process) (n : Nat) : (p.discard n).threads.epoch = p.threads.epoch := by
  unfold discard
  cases p.detached[n]? with
  | none => rfl
  | some f => exact p.threads.epoch_detach f

theorem epoch_le_after (p : Process) (event : Event) :
    p.threads.epoch ≤ (p.after event).threads.epoch := by
  cases event with
  | make | terminate => exact Nat.le_refl _
  | forget => exact Nat.le_succ _
  | drop n => exact Nat.le_of_eq (p.epoch_discard n).symm
  | borrow id =>
      cases hb : p.threads.borrow p.store id with
      | error => simp only [after, hb, Nat.le_refl]
      | ok r =>
          obtain ⟨i, t, st⟩ := r
          simp only [after, hb]
          exact Nat.le_of_eq (Threads.epoch_borrow hb).symm
  | work id | giveBack id =>
      cases hlent : p.lent id <;> simp [after, hlent, Threads.giveBack, Threads.setSlot]
  | install id n =>
      cases hf : p.detached[n]? with
      | none => simp only [after, hf, Nat.le_refl]
      | some f =>
          cases hi : p.threads.install id f with
          | error =>
              simp only [after, hf, hi]
              exact Nat.le_of_eq (p.epoch_discard n).symm
          | ok r =>
              obtain ⟨previous, t⟩ := r
              simp only [after, hf, hi]
              exact Nat.le_of_eq (Threads.epoch_install hi).symm
  | remove id =>
      cases ht : p.threads.take id with
      | error => simp only [after, ht, Nat.le_refl]
      | ok r =>
          obtain ⟨f, t⟩ := r
          simp only [after, ht]
          exact Nat.le_of_eq (Threads.epoch_take ht).symm
  | finish id =>
      cases hlent : p.lent id with
      | some i => simp only [after, hlent, Nat.le_refl]
      | none =>
          simp only [after, hlent]
          exact Nat.le_of_eq (p.threads.epoch_finish id).symm

/-- Epochs only go up. -/
theorem epoch_le_run (p : Process) (events : List Event) :
    p.threads.epoch ≤ (p.run events).threads.epoch := by
  induction events generalizing p with
  | nil => exact Nat.le_refl _
  | cons event events ih => exact Nat.le_trans (p.epoch_le_after event) (ih _)

/-! ## What follows for a thread -/

/-- The place of a thread, the registry, and what can be done to its frame agree. -/
structure Agrees (p : Process) (id : ThreadId) : Prop where
  registered : p.threads.isRegistered id = true ↔ ∃ i, p.Current id i
  flag : ∀ i, p.Current id i → p.threads.flag? id = some i.frame.flag
  told : (p.threads.terminate p.store id).1 = true ↔ ∃ i, p.Current id i
  raised : ∀ flag, (p.threads.terminate p.store id).2.isRaised flag = true ↔
    p.store.isRaised flag = true ∨ ∃ i, p.Current id i ∧ i.frame.flag = flag
  /-- Neither a frame that was taken out of its place, whether it still exists or
  not, nor one of another thread or another epoch is told to stop. -/
  spared : ∀ f : Frame, (f ∈ p.detached ∨ f ∈ p.dropped ∨ ∃ j i, p.frame? j = some i ∧
      i.frame = f ∧ (j ≠ id ∨ i.epoch ≠ p.threads.epoch)) →
    (p.threads.terminate p.store id).2.isRaised f.flag = p.store.isRaised f.flag
  /-- While it runs on its frame, a thread cannot have it again or exchange it. -/
  busy : ∀ i, p.lent id = some i →
    p.threads.borrow p.store id = .error ErrorKind.frameBusy ∧
    p.threads.take id = .error ErrorKind.frameBusy ∧
    (∀ f, p.threads.install id f = .error ErrorKind.frameBusy) ∧
    p.after (.borrow id) = p ∧ p.after (.remove id) = p ∧
    ∀ n, (p.after (.install id n)).threads = p.threads ∧ (p.after (.install id n)).lent = p.lent
  /-- Otherwise it gets one of the current epoch. -/
  lends : p.lent id = none → ∃ i t st, p.threads.borrow p.store id = .ok (i, t, st) ∧
    i.epoch = p.threads.epoch
  /-- Once all are forgotten, nobody is registered, and a frame that was put in
place before is never current again. -/
  forgotten : (p.after .forget).threads.isRegistered id = false ∧
    ∀ i later j i', p.frame? id = some i → ((p.after .forget).run later).Current j i' →
      i.epoch < i'.epoch

namespace Consistent

theorem flag?_iff (h : p.Consistent) (id : ThreadId) (flag : FlagId) :
    p.threads.flag? id = some flag ↔ ∃ i, p.Current id i ∧ i.frame.flag = flag := by
  rw [h.registration.flag_iff]
  simp only [place?, Option.map_eq_some_iff, Prod.mk.injEq]
  constructor
  · rintro ⟨b, ⟨i, hi, rfl, hepoch⟩, hflag⟩
    exact ⟨i, ⟨hi, hepoch⟩, hflag⟩
  · rintro ⟨i, ⟨hi, hepoch⟩, hflag⟩
    exact ⟨_, ⟨i, hi, rfl, hepoch⟩, hflag⟩

theorem isRegistered_iff (h : p.Consistent) (id : ThreadId) :
    p.threads.isRegistered id = true ↔ ∃ i, p.Current id i := by
  rw [Threads.isRegistered, Option.isSome_iff_exists]
  simp only [h.flag?_iff]
  exact ⟨fun ⟨_, i, hi, _⟩ => ⟨i, hi⟩, fun ⟨i, hi⟩ => ⟨_, i, hi, rfl⟩⟩

theorem flag_lt (h : p.Consistent) {flag : FlagId} (hflag : p.threads.flag? id = some flag) :
    flag < p.store.flags.size := by
  obtain ⟨b, hb, rfl⟩ := (h.registration.flag_iff id flag).1 hflag
  exact h.registration.place_lt id b _ hb

theorem isRaised_terminate (h : p.Consistent) (id : ThreadId) (flag : FlagId) :
    (p.threads.terminate p.store id).2.isRaised flag = true ↔
      p.store.isRaised flag = true ∨ p.threads.flag? id = some flag := by
  unfold Threads.terminate
  cases hflag : p.threads.flag? id with
  | none => simp
  | some own =>
      have hlt := h.flag_lt hflag
      simp only [Store.isRaised, Store.raiseFlag, Array.getElem?_setIfInBounds, Option.some.injEq]
      by_cases hsame : own = flag
      · simp [hsame, hsame ▸ hlt]
      · simp [hsame]

/-- A frame in the hands of the host, or gone, has no registration. -/
theorem flag?_ne_of_host (h : p.Consistent) (hf : f ∈ p.detached ++ p.dropped) :
    p.threads.flag? id ≠ some f.flag := by
  intro hflag
  obtain ⟨b, hb, hsame⟩ := (h.registration.flag_iff id f.flag).1 hflag
  exact h.registration.apart_host id b _ hb f.badge (List.mem_map_of_mem hf) hsame

theorem flag?_ne_of_frame {j : ThreadId} (h : p.Consistent) (hi : p.frame? j = some i)
    (hother : j ≠ id ∨ i.epoch ≠ p.threads.epoch) : p.threads.flag? id ≠ some i.frame.flag := by
  intro hflag
  obtain ⟨b, hb, hsame⟩ := (h.registration.flag_iff id i.frame.flag).1 hflag
  have hj : p.place? j = some (i.frame.badge, i.epoch) := by
    rw [place?, hi, Option.map_some]
  have hid := h.registration.apart j id i.frame.badge b _ _ hj hb hsame.symm
  rw [hid, hb] at hj
  exact hother.elim (fun hne => hne hid) fun hne =>
    hne (congrArg Prod.snd (Option.some.inj hj)).symm

theorem lends_current (h : p.Consistent) (hlent : p.lent id = none) :
    ∃ i t st, p.threads.borrow p.store id = .ok (i, t, st) ∧ i.epoch = p.threads.epoch := by
  cases hs : p.threads.slot id with
  | lent n => exact absurd hs ((h.lends id).ne_lent hlent n)
  | vacant => exact ⟨_, _, _, Threads.borrow_of_vacant hs p.store, rfl⟩
  | holding i =>
      by_cases hepoch : i.epoch = p.threads.epoch
      · exact ⟨i, _, _, Threads.borrow_of_current hs hepoch p.store, hepoch⟩
      · exact ⟨_, _, _, Threads.borrow_of_old hs (h.holding hs).2.2.1 hepoch p.store,
          p.threads.epoch_deregister id i.frame.flag⟩

theorem epoch_le (h : p.Consistent) (hi : p.frame? id = some i) : i.epoch ≤ p.threads.epoch := by
  refine h.registration.epoch_le id i.frame.badge i.epoch ?_
  rw [place?, hi, Option.map_some]

theorem agrees (h : p.Consistent) (id : ThreadId) : p.Agrees id where
  registered := h.isRegistered_iff id
  flag i hi := (h.flag?_iff id i.frame.flag).2 ⟨i, hi, rfl⟩
  told := by
    rw [← h.isRegistered_iff, Threads.terminate, Threads.isRegistered]
    cases p.threads.flag? id <;> simp
  raised flag := by rw [h.isRaised_terminate, h.flag?_iff]
  spared f hf := by
    have hno : p.threads.flag? id ≠ some f.flag := by
      rcases hf with hf | hf | ⟨j, i, hi, rfl, hother⟩
      · exact h.flag?_ne_of_host (List.mem_append_left p.dropped hf)
      · exact h.flag?_ne_of_host (List.mem_append_right p.detached hf)
      · exact h.flag?_ne_of_frame hi hother
    rw [Bool.eq_iff_iff, h.isRaised_terminate]
    exact or_iff_left hno
  busy i hlent := by
    have hs := (h.lends id i.epoch).2 ⟨i, hlent, rfl⟩
    refine ⟨Threads.borrow_of_lent hs p.store, Threads.take_of_lent hs,
      Threads.install_of_lent hs, ?_, ?_, fun n => ?_⟩
    · simp only [Process.after, Threads.borrow_of_lent hs]
    · simp only [Process.after, Threads.take_of_lent hs]
    · cases hf : p.detached[n]? with
      | none => simp only [Process.after, hf, and_self]
      | some f =>
          have hun := h.unregistered (List.mem_of_getElem? hf)
          simp only [Process.after, hf, Threads.install_of_lent hs, Process.discard,
            Threads.detach_of_unregistered _ hun, and_self]
  lends := h.lends_current
  forgotten := by
    refine ⟨rfl, fun i later j i' hi hcurrent => ?_⟩
    have hold := h.epoch_le hi
    have hnew : (p.after .forget).threads.epoch = p.threads.epoch + 1 := rfl
    have hlater := (p.after .forget).epoch_le_run later
    rw [hcurrent.2]
    omega

end Consistent

/-- In whatever order the threads and the host do what they do, a thread is
registered if and only if it has a frame of the current epoch, with the flag of
that frame. Once all frames are forgotten nobody is registered, and none of them
is current again unless it is put in place anew. -/
theorem registry_follows_frames (store : Store) (events : List Event) (id : ThreadId) :
    (run { store } events).Agrees id :=
  ((Consistent.start store).run events).agrees id

/-- A frame is put in place and forgotten. Its thread is registered no more; when
it asks for a frame it gets a new one, and told to stop it is that one that is. -/
theorem registry_follows_frames_past_reset :
    let p := run {} [.make .default 0, .install 3 0, .forget]
    let p' := run {} [.make .default 0, .install 3 0, .forget, .borrow 3]
    p.threads.isRegistered 3 = false ∧ (p.threads.terminate p.store 3).1 = false ∧
      p'.threads.isRegistered 3 = true ∧ (p'.threads.terminate p'.store 3).2.isRaised 1 = true ∧
      (p'.threads.terminate p'.store 3).2.isRaised 0 = false := by
  intro p p'
  have hforgotten := (registry_follows_frames {} [.make .default 0, .install 3 0] 3).forgotten.1
  have hp := registry_follows_frames {} [.make .default 0, .install 3 0, .forget] 3
  have hp' := registry_follows_frames {} [.make .default 0, .install 3 0, .forget, .borrow 3] 3
  have hnone : ¬ ∃ i, p.Current 3 i := by
    rw [← hp.registered]
    exact Bool.eq_false_iff.1 hforgotten
  have hfresh : p'.Current 3
      ⟨{ config := .default, global := 0, flag := 1, registered := some 3 }, 1⟩ := ⟨rfl, rfl⟩
  have hold : ({ config := .default, global := 0, flag := 0 } : Frame) ∈ p'.dropped :=
    List.mem_singleton.2 rfl
  exact ⟨hforgotten, Bool.eq_false_iff.2 (hp.told.not.2 hnone), hp'.registered.2 ⟨_, hfresh⟩,
    (hp'.raised 1).2 (.inr ⟨_, hfresh, rfl⟩), hp'.spared _ (.inr (.inl hold))⟩

/-- A frame that is dropped late does not take the registration of its successor. -/
example :
    (run {} [.make .default 0, .install 3 0, .make .default 0, .install 3 0,
      .drop 0]).threads.flag? 3 = some 1 := rfl

end Process

end ScriptCore

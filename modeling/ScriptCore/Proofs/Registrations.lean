import ScriptCore.Threads
import ScriptCore.Proofs.Continuity
import ScriptCore.Proofs.Order
import Mathlib.Logic.Function.Basic

/-!
# The registry and the frames in place

Three things are kept apart and changed at different moments: what each thread
has in its place, the registry of termination flags, and the epoch. A frame
also notes the thread it was registered for, and it takes the registration back
when it leaves its place or is dropped, which may be long after the registry
was emptied or another frame was put in its place. Only the flag tells then
whether the registration is its own.

That this is enough rests on who has a frame: either it is that of one thread
or the host has it, no two have the same flag, and the host's are registered
for nobody. `Registration` says so, and it is kept by a handful of moves: a
frame is made, put in place or taken out of its place, and all are forgotten.
-/

namespace ScriptCore

/-! ## Places and registrations, by thread -/

namespace Threads

section

variable {α : Type} {id j : ThreadId}

theorem lookup_filter (l : List (ThreadId × α)) (id j : ThreadId) :
    (l.filter fun p => p.1 != id).lookup j = if j = id then none else l.lookup j := by
  induction l with
  | nil => split <;> rfl
  | cons p l ih =>
      obtain ⟨k, a⟩ := p
      by_cases hk : k = id
      · rw [List.filter_cons_of_neg (by simpa using hk), ih, List.lookup_cons]
        split
        · rfl
        · next hj => rw [beq_false_of_ne (hk ▸ hj)]
      · rw [List.filter_cons_of_pos (by simpa using hk), List.lookup_cons, List.lookup_cons, ih]
        by_cases hj : j = k
        · simp only [hj, beq_self_eq_true, if_neg hk]
        · rw [beq_false_of_ne hj]

theorem lookup_cons_filter (l : List (ThreadId × α)) (id j : ThreadId) (a : α) :
    ((id, a) :: l.filter fun p => p.1 != id).lookup j = if j = id then some a else l.lookup j := by
  rw [List.lookup_cons, lookup_filter]
  by_cases hj : j = id
  · simp only [hj, beq_self_eq_true, if_true]
  · rw [beq_false_of_ne hj, if_neg hj, if_neg hj]

end

variable {t : Threads} {id j : ThreadId} {f : Frame} {i : Installed} {n : Nat}

theorem slot_setSlot (t : Threads) (id j : ThreadId) (s : ThreadSlot) :
    (t.setSlot id s).slot j = if j = id then s else t.slot j := by
  rw [slot, setSlot, lookup_cons_filter]
  split <;> rfl

theorem flag?_register (t : Threads) (id : ThreadId) (flag : FlagId) :
    (t.register id flag).flag? = Function.update t.flag? id (some flag) := by
  funext j
  rw [flag?, register, lookup_cons_filter, Function.update_apply]
  rfl

/-- A registration is taken back if it is that of the frame. -/
theorem flag?_deregister {flag : FlagId} (h : ∀ fl, t.flag? id = some fl → fl = flag) :
    (t.deregister id flag).flag? = Function.update t.flag? id none := by
  funext j
  rw [Function.update_apply]
  unfold deregister
  split
  · rw [flag?, lookup_filter]
    rfl
  · next hno =>
      split
      · next hj =>
          subst hj
          cases hfl : t.flag? j with
          | none => rfl
          | some fl => exact absurd (h fl hfl ▸ hfl) hno
      · rfl

theorem slots_deregister (t : Threads) (id : ThreadId) (flag : FlagId) :
    (t.deregister id flag).slots = t.slots := by
  unfold deregister
  split <;> rfl

theorem slot_deregister (t : Threads) (id : ThreadId) (flag : FlagId) :
    (t.deregister id flag).slot = t.slot := by
  funext j
  rw [slot, slots_deregister]
  rfl

theorem epoch_deregister (t : Threads) (id : ThreadId) (flag : FlagId) :
    (t.deregister id flag).epoch = t.epoch := by
  unfold deregister
  split <;> rfl

theorem detach_eq (t : Threads) (h : f.registered = some id) :
    t.detach f = ({ f with registered := none }, t.deregister id f.flag) := by
  rw [detach, h]

theorem detach_of_unregistered (t : Threads) (h : f.registered = none) : t.detach f = (f, t) := by
  rw [detach, h]

theorem epoch_detach (t : Threads) (f : Frame) : (t.detach f).2.epoch = t.epoch := by
  unfold detach
  split
  · exact t.epoch_deregister _ _
  · rfl

theorem take_of_lent (h : t.slot id = .lent n) : t.take id = .error ErrorKind.frameBusy := by
  rw [take, h]

theorem take_of_vacant (h : t.slot id = .vacant) : t.take id = .ok (none, t) := by
  rw [take, h]

theorem take_of_holding (h : t.slot id = .holding i) (hi : i.frame.registered = some id) :
    t.take id = .ok (some { i.frame with registered := none },
      (t.setSlot id .vacant).deregister id i.frame.flag) := by
  rw [take, h]
  simp only [detach_eq _ hi]

theorem install_of_lent (h : t.slot id = .lent n) (f : Frame) :
    t.install id f = .error ErrorKind.frameBusy := by
  rw [install, take_of_lent h]

/-- The place of a thread with a frame registered for it. -/
def put (t : Threads) (id : ThreadId) (f : Frame) : Threads :=
  (t.register id f.flag).setSlot id (.holding ⟨{ f with registered := some id }, t.epoch⟩)

theorem install_of_take {previous : Option Frame} {t' : Threads}
    (h : t.take id = .ok (previous, t')) (f : Frame) :
    t.install id f = .ok (previous, t'.put id f) := by
  rw [install, h]
  rfl

theorem borrow_of_lent (h : t.slot id = .lent n) (st : Store) :
    t.borrow st id = .error ErrorKind.frameBusy := by
  rw [borrow, h]

theorem borrow_of_current (h : t.slot id = .holding i) (hi : i.epoch = t.epoch) (st : Store) :
    t.borrow st id = .ok (i, t.setSlot id (.lent i.epoch), st) := by
  simp only [borrow, h, if_pos hi]

/-- A fresh frame that is lent out at once. -/
def lendFresh (t : Threads) (st : Store) (id : ThreadId) : Installed × Threads × Store :=
  (⟨{ config := .default, global := processGlobal, flag := st.flags.size, registered := some id },
      t.epoch⟩,
    (t.register id st.flags.size).setSlot id (.lent t.epoch), (st.addFlag false).2)

theorem borrow_of_vacant (h : t.slot id = .vacant) (st : Store) :
    t.borrow st id = .ok (t.lendFresh st id) := by
  rw [borrow, h]
  rfl

theorem borrow_of_old (h : t.slot id = .holding i) (hi : i.frame.registered = some id)
    (hold : i.epoch ≠ t.epoch) (st : Store) :
    t.borrow st id = .ok ((t.deregister id i.frame.flag).lendFresh st id) := by
  simp only [borrow, h, if_neg hold, detach_eq t hi]
  rfl

/-- Whatever a thread has in its place is gone. -/
def clear (t : Threads) (id : ThreadId) : Threads :=
  { t with slots := t.slots.filter fun p => p.1 != id }

theorem slot_clear (t : Threads) (id j : ThreadId) :
    (t.clear id).slot j = if j = id then .vacant else t.slot j := by
  rw [slot, clear, lookup_filter]
  split <;> rfl

theorem finish_of_vacant (h : t.slot id = .vacant) : t.finish id = t.clear id := by
  rw [finish, h]
  rfl

theorem finish_of_holding (h : t.slot id = .holding i) (hi : i.frame.registered = some id) :
    t.finish id = (t.deregister id i.frame.flag).clear id := by
  simp only [finish, h, detach_eq t hi]
  rfl

/-! None of these begins an epoch. -/

variable {t' : Threads} {previous : Option Frame}

theorem epoch_take (h : t.take id = .ok (previous, t')) : t'.epoch = t.epoch := by
  unfold take at h
  split at h
  · cases h
  · cases h
    rfl
  · next i _ =>
      cases h
      exact epoch_detach _ i.frame

theorem epoch_install (h : t.install id f = .ok (previous, t')) : t'.epoch = t.epoch := by
  cases htake : t.take id with
  | error e =>
      rw [install, htake] at h
      cases h
  | ok r =>
      obtain ⟨previous', t''⟩ := r
      rw [install_of_take htake] at h
      cases h
      show t''.epoch = t.epoch
      exact epoch_take htake

theorem epoch_borrow {st st' : Store} (h : t.borrow st id = .ok (i, t', st')) :
    t'.epoch = t.epoch := by
  cases hs : t.slot id with
  | lent n =>
      rw [borrow_of_lent hs] at h
      cases h
  | vacant =>
      rw [borrow_of_vacant hs] at h
      cases h
      rfl
  | holding j =>
      by_cases hepoch : j.epoch = t.epoch
      · rw [borrow_of_current hs hepoch] at h
        cases h
        rfl
      · simp only [borrow, hs, if_neg hepoch] at h
        cases h
        exact t.epoch_detach j.frame

theorem epoch_finish (t : Threads) (id : ThreadId) : (t.finish id).epoch = t.epoch := by
  simp only [finish]
  split
  · next i _ => exact t.epoch_detach i.frame
  · rfl

end Threads

/-! ## Who has which frame -/

/-- What the registry knows a frame by. -/
structure Badge where
  flag : FlagId
  registered : Option ThreadId

def Frame.badge (f : Frame) : Badge := ⟨f.flag, f.registered⟩

theorem Frame.overlooks_badge : Overlooks badge :=
  ⟨fun _ _ => rfl, fun _ _ => rfl, fun _ _ _ _ => rfl⟩

/-- Work on a frame leaves it the flag and the registration. -/
theorem Op.badge_perform (e : Engine) (o : Op) : (o.perform e).frame.badge = e.frame.badge := by
  have h := Frame.overlooks_badge
  cases o with
  | allocateBlock previous shape => exact h.allocateBlock e.frame previous shape _
  | allocateTable n => exact h.allocateTable e.frame n
  | allocateFunction binding previous shape t =>
      exact h.allocateFunction e.frame binding previous shape _ t.key
  | freeTable t => exact h.freeTable e.frame t.key
  | takeTable t => exact h.takeTable e.frame t.key
  | freeScope r => exact h.freeScope e.frame r
  | declare r s a =>
      rcases e.declare_frame r s a with hf | ⟨k, own, c, -, -, hf⟩ <;>
        exact (congrArg Frame.badge hf).trans rfl
  | assign slot v =>
      rcases e.assign_frame slot v with hf | ⟨t, i, s, c, -, hf⟩ <;>
        exact (congrArg Frame.badge hf).trans rfl
  | mixin r source =>
      rcases e.mixin_frame r source with hf | ⟨k, c, -, -, hf⟩ <;>
        exact (congrArg Frame.badge hf).trans rfl
  | setLine r line =>
      rcases e.setLine_frame r line with hf | ⟨c, -, hf⟩ <;>
        exact (congrArg Frame.badge hf).trans rfl
  | reset => exact h.reclaim e.frame 0
  | leave => exact h.reclaim e.frame e.frame.depth
  | editTable | enter | share => rfl

/-- The frames in place, given with their epochs, and those of the host are all
different; the former are noted for their threads, and those of the current
epoch are registered. -/
structure Registration (epoch : Nat) (flag? : ThreadId → Option FlagId)
    (place? : ThreadId → Option (Badge × Nat)) (host : List Badge) (count : Nat) : Prop where
  flag_iff : ∀ id flag, flag? id = some flag ↔ ∃ b, place? id = some (b, epoch) ∧ b.flag = flag
  epoch_le : ∀ id b n, place? id = some (b, n) → n ≤ epoch
  registered : ∀ id b n, place? id = some (b, n) → b.registered = some id
  unregistered : ∀ b ∈ host, b.registered = none
  apart : ∀ id j b b' n n', place? id = some (b, n) → place? j = some (b', n') →
    b.flag = b'.flag → id = j
  apart_host : ∀ id b n, place? id = some (b, n) → ∀ b' ∈ host, b.flag ≠ b'.flag
  nodup : (host.map Badge.flag).Nodup
  place_lt : ∀ id b n, place? id = some (b, n) → b.flag < count
  host_lt : ∀ b ∈ host, b.flag < count

theorem update_eq_some {α β : Type} [DecidableEq α] {g : α → Option β} {a a' : α} {o : Option β}
    {b : β} : Function.update g a o a' = some b ↔ a' = a ∧ o = some b ∨ a' ≠ a ∧ g a' = some b := by
  rw [Function.update_apply]
  split
  · next h => simp [h]
  · next h => simp [h]

theorem update_none_eq_some {α β : Type} [DecidableEq α] {g : α → Option β} {a a' : α} {b : β} :
    Function.update g a none a' = some b ↔ a' ≠ a ∧ g a' = some b := by
  simp [update_eq_some]

namespace Registration

variable {epoch count n : Nat} {flag? : ThreadId → Option FlagId}
  {place? : ThreadId → Option (Badge × Nat)} {host host' : List Badge} {id : ThreadId} {b : Badge}

theorem empty (epoch count : Nat) :
    Registration epoch (fun _ => none) (fun _ => none) [] count where
  flag_iff _ _ := ⟨nofun, nofun⟩
  epoch_le := nofun
  registered := nofun
  unregistered := nofun
  apart := nofun
  apart_host := nofun
  nodup := List.nodup_nil
  place_lt := nofun
  host_lt := nofun

/-- The host makes a frame with a flag of its own. -/
theorem make (h : Registration epoch flag? place? host count) :
    Registration epoch flag? place? (⟨count, none⟩ :: host) (count + 1) where
  flag_iff := h.flag_iff
  epoch_le := h.epoch_le
  registered := h.registered
  unregistered := List.forall_mem_cons.2 ⟨rfl, h.unregistered⟩
  apart := h.apart
  apart_host id b n hb :=
    List.forall_mem_cons.2 ⟨Nat.ne_of_lt (h.place_lt id b n hb), h.apart_host id b n hb⟩
  nodup := by
    refine List.nodup_cons.2 ⟨fun hmem => ?_, h.nodup⟩
    obtain ⟨b, hb, hsame⟩ := List.mem_map.1 hmem
    exact absurd hsame (Nat.ne_of_lt (h.host_lt b hb))
  place_lt id b n hb := Nat.lt_succ_of_lt (h.place_lt id b n hb)
  host_lt := List.forall_mem_cons.2
    ⟨Nat.lt_succ_self count, fun b hb => Nat.lt_succ_of_lt (h.host_lt b hb)⟩

/-- The frames of the host are in no order. -/
theorem perm (h : Registration epoch flag? place? host count) (hperm : host.Perm host') :
    Registration epoch flag? place? host' count where
  flag_iff := h.flag_iff
  epoch_le := h.epoch_le
  registered := h.registered
  unregistered b hb := h.unregistered b (hperm.mem_iff.2 hb)
  apart := h.apart
  apart_host id b n hb b' hb' := h.apart_host id b n hb b' (hperm.mem_iff.2 hb')
  nodup := (hperm.map _).nodup_iff.1 h.nodup
  place_lt := h.place_lt
  host_lt b hb := h.host_lt b (hperm.mem_iff.2 hb)

/-- A frame of the host is put in an empty place. -/
theorem place (h : Registration epoch flag? place? (b :: host) count) (id : ThreadId) :
    Registration epoch (Function.update flag? id (some b.flag))
      (Function.update place? id (some (⟨b.flag, some id⟩, epoch))) host count where
  flag_iff j flag := by
    simp only [update_eq_some, h.flag_iff]
    constructor
    · rintro (⟨hj, hflag⟩ | ⟨hj, b', hb', hflag⟩)
      · exact ⟨_, .inl ⟨hj, rfl⟩, Option.some.inj hflag⟩
      · exact ⟨b', .inr ⟨hj, hb'⟩, hflag⟩
    · rintro ⟨b', ⟨hj, hb'⟩ | ⟨hj, hb'⟩, hflag⟩
      · cases hb'
        exact .inl ⟨hj, congrArg some hflag⟩
      · exact .inr ⟨hj, b', hb', hflag⟩
  epoch_le j b' n hb' := by
    rcases update_eq_some.1 hb' with ⟨-, hnew⟩ | ⟨-, hold⟩
    · cases hnew
      exact Nat.le_refl epoch
    · exact h.epoch_le j b' n hold
  registered j b' n hb' := by
    rcases update_eq_some.1 hb' with ⟨hj, hnew⟩ | ⟨-, hold⟩
    · cases hnew
      rw [hj]
    · exact h.registered j b' n hold
  unregistered b' hb' := h.unregistered b' (List.mem_cons_of_mem b hb')
  apart j k b' b'' n n' hb' hb'' hsame := by
    rcases update_eq_some.1 hb' with ⟨hj, hnew⟩ | ⟨hj, hold⟩ <;>
      rcases update_eq_some.1 hb'' with ⟨hk, hnew'⟩ | ⟨hk, hold'⟩
    · rw [hj, hk]
    · cases hnew
      exact absurd hsame.symm (h.apart_host k b'' n' hold' b List.mem_cons_self)
    · cases hnew'
      exact absurd hsame (h.apart_host j b' n hold b List.mem_cons_self)
    · exact h.apart j k b' b'' n n' hold hold' hsame
  apart_host j b' n hb' b'' hb'' := by
    rcases update_eq_some.1 hb' with ⟨-, hnew⟩ | ⟨-, hold⟩
    · cases hnew
      exact fun hsame => (List.nodup_cons.1 h.nodup).1 (List.mem_map.2 ⟨b'', hb'', hsame.symm⟩)
    · exact h.apart_host j b' n hold b'' (List.mem_cons_of_mem b hb'')
  nodup := (List.nodup_cons.1 h.nodup).2
  place_lt j b' n hb' := by
    rcases update_eq_some.1 hb' with ⟨-, hnew⟩ | ⟨-, hold⟩
    · cases hnew
      exact h.host_lt b List.mem_cons_self
    · exact h.place_lt j b' n hold
  host_lt b' hb' := h.host_lt b' (List.mem_cons_of_mem b hb')

/-- A frame is taken out of its place and handed to the host. -/
theorem vacate (h : Registration epoch flag? place? host count) (hb : place? id = some (b, n)) :
    Registration epoch (Function.update flag? id none) (Function.update place? id none)
      (⟨b.flag, none⟩ :: host) count where
  flag_iff j flag := by
    simp only [update_none_eq_some, h.flag_iff]
    constructor
    · rintro ⟨hj, b', hb', hflag⟩
      exact ⟨b', ⟨hj, hb'⟩, hflag⟩
    · rintro ⟨b', ⟨hj, hb'⟩, hflag⟩
      exact ⟨hj, b', hb', hflag⟩
  epoch_le j b' n hb' := h.epoch_le j b' n (update_none_eq_some.1 hb').2
  registered j b' n hb' := h.registered j b' n (update_none_eq_some.1 hb').2
  unregistered := List.forall_mem_cons.2 ⟨rfl, h.unregistered⟩
  apart j k b' b'' n n' hb' hb'' :=
    h.apart j k b' b'' n n' (update_none_eq_some.1 hb').2 (update_none_eq_some.1 hb'').2
  apart_host j b' n' hb' := by
    obtain ⟨hj, hb'⟩ := update_none_eq_some.1 hb'
    exact List.forall_mem_cons.2
      ⟨fun hsame => hj (h.apart j id b' b n' n hb' hb hsame), h.apart_host j b' n' hb'⟩
  nodup := by
    refine List.nodup_cons.2 ⟨fun hmem => ?_, h.nodup⟩
    obtain ⟨b', hb', hsame⟩ := List.mem_map.1 hmem
    exact h.apart_host id b n hb b' hb' hsame.symm
  place_lt j b' n hb' := h.place_lt j b' n (update_none_eq_some.1 hb').2
  host_lt := List.forall_mem_cons.2 ⟨h.place_lt id b n hb, h.host_lt⟩

/-- All are forgotten; the frames stay where they are. -/
theorem forget (h : Registration epoch flag? place? host count) :
    Registration (epoch + 1) (fun _ => none) place? host count where
  flag_iff id flag := by
    refine ⟨nofun, ?_⟩
    rintro ⟨b, hb, -⟩
    exact absurd (h.epoch_le id b _ hb) (Nat.not_succ_le_self epoch)
  epoch_le id b n hb := Nat.le_succ_of_le (h.epoch_le id b n hb)
  registered := h.registered
  unregistered := h.unregistered
  apart := h.apart
  apart_host := h.apart_host
  nodup := h.nodup
  place_lt := h.place_lt
  host_lt := h.host_lt

/-- The registration of a frame in place is its own, if there is one. -/
theorem flag_eq (h : Registration epoch flag? place? host count) (hb : place? id = some (b, n)) :
    ∀ flag, flag? id = some flag → flag = b.flag := by
  intro flag hflag
  obtain ⟨b', hb', hsame⟩ := (h.flag_iff id flag).1 hflag
  rw [hb] at hb'
  cases hb'
  exact hsame.symm

end Registration

end ScriptCore

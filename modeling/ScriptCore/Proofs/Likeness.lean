import ScriptCore.Proofs.Mirrors

/-!
# Worlds and engines answer alike

What an engine answers that mirrors a world. A scope is reached through a
reference and a member through a slot, so first it is said which references
stand for which sites, and which slots mark which spots. Then every request
about scopes and members is shown to be answered as the world answers it,
whichever way the scope in question is kept, and to leave the two mirroring
each other.
-/

namespace ScriptCore

/-! ## What stands for what -/

/-- The reference leads to the scopes that keep the cells of the site, one after
the other, and then to its base. -/
inductive Stands (S : Setting) (ρ : Seating) : Site → ScopeRef → Prop
  | base {d : DurableScope} (hd : d.Below S.heaps) : Stands S ρ ⟨[], d⟩ (.durable d)
  | pooled {c : CellId} {cs : List CellId} {d : DurableScope} {k t : PoolKey} {outer : ScopeRef}
      {home : Nat} (hc : ρ c = some (.pooled k t outer home))
      (houter : Stands S ρ ⟨cs, d⟩ outer) : Stands S ρ ⟨c :: cs, d⟩ (.pooled k)
  | heap {c : CellId} {id : HeapId} {d : DurableScope} (hc : ρ c = some (.heap id d))
      (hd : d.Below S.heaps) : Stands S ρ ⟨[c], d⟩ (.durable (.ofHeap id))

/-- The slot is where the member at the spot is kept. -/
inductive Marks (S : Setting) (ρ : Seating) : Spot → SlotRef → Prop
  | cell {c : CellId} {seat : Seat} {i : Nat} (hc : ρ c = some seat)
      (hi : i + 1 ≤ MemberTable.ample) (s : Symbol) : Marks S ρ (.cell c i s) (seat.slot i s)
  | shared {slot : SlotRef} (hslot : slot.Below S.heaps) : Marks S ρ (.shared slot) slot

theorem Stands.mono {S : Setting} {ρ ρ' : Seating} {p : Site} {r : ScopeRef}
    (h : Stands S ρ p r) (hle : ρ.Within ρ') : Stands S ρ' p r := by
  induction h with
  | base hd => exact .base hd
  | pooled hc _ ih => exact .pooled (hle _ _ hc) ih
  | heap hc hd => exact .heap (hle _ _ hc) hd

theorem Marks.mono {S : Setting} {ρ ρ' : Seating} {spot : Spot} {slot : SlotRef}
    (h : Marks S ρ spot slot) (hle : ρ.Within ρ') : Marks S ρ' spot slot := by
  cases h with
  | cell hc hi s => exact .cell (hle _ _ hc) hi s
  | shared hslot => exact .shared hslot

namespace EvalError

/-- The errors are of the same kind and come from the same places. -/
structure Alike (err err' : EvalError) : Prop where
  kind : err.kind = err'.kind
  places : err.places = err'.places

theorem Alike.refl (err : EvalError) : err.Alike err := ⟨rfl, rfl⟩

end EvalError

namespace Outcome

variable {α β : Type}

/-- Both ended the same way, with results that `Q` relates. -/
inductive Alike (Q : α → β → Prop) : Outcome α → Outcome β → Prop
  | done {a : α} {b : β} (h : Q a b) : Alike Q (.done a) (.done b)
  | raised {err err' : EvalError} (h : err.Alike err') : Alike Q (.raised err) (.raised err')
  | panicked : Alike Q .panicked .panicked

theorem Alike.map {Q : α → β → Prop} {α' β' : Type} {Q' : α' → β' → Prop} {f : α → α'}
    {g : β → β'} {x : Outcome α} {y : Outcome β} (h : x.Alike Q y)
    (hmap : ∀ a b, Q a b → Q' (f a) (g b)) : (x.map f).Alike Q' (y.map g) := by
  cases h with
  | done h => exact .done (hmap _ _ h)
  | raised h => exact .raised h
  | panicked => exact .panicked

theorem alike_self (x : Outcome α) : x.Alike Eq x := by
  cases x with
  | done a => exact .done rfl
  | raised err => exact .raised (.refl err)
  | panicked => exact .panicked

end Outcome

/-! ## Walks outward -/

theorem SlotRef.Below.isPooled {slot : SlotRef} {n : Nat} (h : slot.Below n) :
    slot.isPooled = false := by
  cases slot with
  | pooled t i s => cases h
  | _ => rfl

/-- Outside the frame, assigning is the store's. -/
theorem Engine.assign_of_not_pooled {e : Engine} {slot : SlotRef} (h : slot.isPooled = false)
    (v : Value) :
    e.assign slot v =
      ((e.store.assign slot v).1, { e with store := (e.store.assign slot v).2 }) := by
  cases slot with
  | pooled t i s => cases h
  | _ => rfl

namespace Store

variable {st : Store} {extra : Array HeapScope} {fs : Functions} {id : Nat} {h : HeapScope}

/-- A member that was declared is where it was declared. -/
theorem below_of_declare {d : DurableScope} {n : Nat} (hd : d.Below n) {s : Symbol}
    {a : Attributes} {slot : SlotRef} (h : (st.declare d s a).1 = .done slot) : slot.Below n := by
  match d with
  | ⟨_ :: _, _⟩ => cases h
  | ⟨[], .heap id⟩ =>
      have h : (st.declare (.ofHeap id) s a).1 = .done slot := h
      cases hh : st.heaps[id]? with
      | none =>
          simp only [declare, DurableScope.ofHeap, hh] at h
          cases h
      | some x =>
          rw [declare_heap hh] at h
          split at h
          · cases h
          · split at h
            · next i st' _ hfits =>
                obtain ⟨rfl, -⟩ := MemberTable.declareAt_done h
                exact hd id rfl
            · cases h
  | ⟨[], .global id⟩ =>
      simp only [declare] at h
      split at h
      · cases h
      · split at h
        · cases h
        · cases h
          exact trivial

/-- Past a scope that was added a walk goes on among those there were. -/
theorem resolve_added (hc : st.Closed) (hid : st.heaps.size ≤ id)
    (hh : (st.beside extra fs).heaps[id]? = some h) (hd : h.previous.Below st.heaps.size)
    (s : Symbol) :
    (st.beside extra fs).resolve (.ofHeap id) s =
      match st.findHeap? id h s with
      | some slot => .ok slot
      | none => st.resolve h.previous s := by
  have hlt : id < (st.beside extra fs).heaps.size := (Array.getElem?_eq_some_iff.1 hh).1
  obtain ⟨n, hn⟩ : ∃ n, (st.beside extra fs).heaps.size = n + 1 :=
    ⟨(st.beside extra fs).heaps.size - 1, by omega⟩
  rw [resolve, hn]
  conv_lhs => unfold resolveWithin
  simp only [DurableScope.ofHeap, List.findSome?_nil, hh, findHeap?_beside hc]
  cases st.findHeap? id h s with
  | some slot => rfl
  | none =>
      show (st.beside extra fs).resolveWithin s n h.previous = _
      rw [resolveWithin_beside hc hd]
      exact hc.grounded.resolveWithin_eq hd (by omega)

theorem escalate_added (hc : st.Closed) (hid : st.heaps.size ≤ id)
    (hh : (st.beside extra fs).heaps[id]? = some h) (hd : h.previous.Below st.heaps.size)
    (pick : ScopeKind → Option Value) (missing : ErrorKind) :
    (st.beside extra fs).escalate pick missing (.ofHeap id) =
      match pick h.kind with
      | some v => .ok v
      | none => st.escalate pick missing h.previous := by
  have hlt : id < (st.beside extra fs).heaps.size := (Array.getElem?_eq_some_iff.1 hh).1
  obtain ⟨n, hn⟩ : ∃ n, (st.beside extra fs).heaps.size = n + 1 :=
    ⟨(st.beside extra fs).heaps.size - 1, by omega⟩
  rw [escalate, hn]
  conv_lhs => unfold escalateWithin
  simp only [DurableScope.ofHeap, List.findSome?_nil, hh]
  cases pick h.kind with
  | some v => rfl
  | none =>
      show (st.beside extra fs).escalateWithin pick missing n h.previous = _
      rw [escalateWithin_beside hc hd]
      exact hc.grounded.escalateWithin_eq hd (by omega)

end Store

namespace Mirrors

variable {S : Setting} {ρ : Seating} {w : World} {e : Engine} {p : Site} {r : ScopeRef}

theorem chain (h : Mirrors S ρ w e) (hp : Stands S ρ p r) : e.Anchored r := by
  induction hp with
  | base hd => exact ⟨[], _, .durable _⟩
  | heap hc hd => exact ⟨[], _, .durable _⟩
  | pooled hc houter ih =>
      obtain ⟨cell, row, -, ⟨hscope, -⟩, -⟩ := h.seats _ _ hc
      obtain ⟨links, d, hlinks⟩ := ih
      exact ⟨_, d, .pooled hscope hlinks⟩

/-- What is found in one cell, the engine finds in its seat. -/
theorem marks_of_find? (h : Mirrors S ρ w e) {c : CellId} {seat : Seat} (hc : ρ c = some seat)
    {cell : Cell} (hcell : w.cells c = some cell) (s : Symbol) :
    match w.store.ownIndex? cell.shape cell.slots s with
    | some i => w.find? s c = some (.cell c i s) ∧ Marks S ρ (.cell c i s) (seat.slot i s)
    | none => w.find? s c =
        (w.store.findMixin? cell.mixins s).map fun id => .shared (.mixin id s) := by
  cases hi : w.store.ownIndex? cell.shape cell.slots s with
  | none => simp only [World.find?, hcell, Option.bind_some, hi]
  | some i =>
      simp only [World.find?, hcell, Option.bind_some, hi, true_and]
      exact .cell hc (h.ordered.slotOf?_lt (Option.filter_eq_some_iff.1 hi).1) s

theorem resolve_within (h : Mirrors S ρ w e) (hp : Stands S ρ p r) (s : Symbol) {hops : Nat}
    {links : List (PoolKey × PooledScope)} {base : DurableScope} (hchain : e.Chain r links base)
    (hle : links.length ≤ hops) :
    (Outcome.ofExcept (w.resolve p s)).Alike (Marks S ρ)
      (.ofExcept (e.resolveWithin s hops r)) := by
  obtain ⟨extra, fs, hst, -⟩ := h.store
  have hbase : ∀ {d : DurableScope}, d.Below S.heaps →
      (Outcome.ofExcept ((w.store.resolve d s).map Spot.shared)).Alike (Marks S ρ)
        (.ofExcept (w.store.resolve d s)) := by
    intro d hd
    cases hres : w.store.resolve d s with
    | error err => exact .raised (.refl err)
    | ok slot => exact .done (.shared (h.closed.grounded.below_of_resolveWithin hd hres))
  induction hp generalizing hops links with
  | base hd =>
      rw [Engine.resolveWithin, hst, Store.resolve_beside h.closed (h.heaps.symm ▸ hd)]
      exact hbase hd
  | heap hc hd =>
      obtain ⟨cell, row, hcell, ⟨hid, hheap, -⟩, hslots⟩ := h.seats _ _ hc
      rw [hst] at hheap
      rw [Engine.resolveWithin, hst, Store.resolve_added h.closed (h.heaps.symm ▸ hid) hheap
        (h.heaps.symm ▸ hd)]
      have hmarks := h.marks_of_find? hc hcell s
      simp only [Store.findHeap?, hslots]
      cases hi : w.store.ownIndex? cell.shape cell.slots s with
      | some i =>
          rw [hi] at hmarks
          simp only [World.resolve, List.findSome?_cons, hmarks.1]
          exact .done hmarks.2
      | none =>
          rw [hi] at hmarks
          simp only [World.resolve, List.findSome?_cons, hmarks, List.findSome?_nil]
          cases w.store.findMixin? cell.mixins s with
          | some source => exact .done (.shared trivial)
          | none => exact hbase hd
  | @pooled c cs d k t outer home hc houter ih =>
      obtain ⟨cell, row, hcell, ⟨hscope, -, htable⟩, hslots⟩ := h.seats _ _ hc
      cases hchain with
      | pooled hown hlinks =>
          rw [hscope] at hown
          cases hown
          obtain ⟨n, rfl⟩ : ∃ n, hops = n + 1 := by
            cases hops with
            | zero => cases hle
            | succ n => exact ⟨n, rfl⟩
          have hih := ih hlinks (Nat.le_of_succ_le_succ hle)
          have hmarks := h.marks_of_find? hc hcell s
          have hindex : e.ownIndex? ⟨cell.kind, outer, cell.shape, t, cell.mixins⟩ s =
              .ok (w.store.ownIndex? cell.shape cell.slots s) := by
            rw [Engine.ownIndex?_eq (Frame.getTable_of_get? htable), hst, hslots]
            rfl
          have hmixin : e.store.findMixin? cell.mixins s = w.store.findMixin? cell.mixins s := by
            rw [hst, Store.findMixin?_beside h.closed]
          rw [Engine.resolveWithin]
          simp only [Engine.getScope_of_scope? hscope, hindex, hmixin]
          cases hi : w.store.ownIndex? cell.shape cell.slots s with
          | some i =>
              rw [hi] at hmarks
              simp only [World.resolve, List.findSome?_cons, hmarks.1]
              exact .done hmarks.2
          | none =>
              rw [hi] at hmarks
              simp only [World.resolve, List.findSome?_cons, hmarks]
              cases w.store.findMixin? cell.mixins s with
              | some source => exact .done (.shared trivial)
              | none => exact hih

theorem resolve (h : Mirrors S ρ w e) (hp : Stands S ρ p r) (s : Symbol) :
    (Outcome.ofExcept (w.resolve p s)).Alike (Marks S ρ) (.ofExcept (e.resolve r s)) := by
  obtain ⟨links, base, hchain⟩ := h.chain hp
  exact h.resolve_within hp s hchain hchain.length_le

theorem escalate_within (h : Mirrors S ρ w e) (hp : Stands S ρ p r)
    (pick : ScopeKind → Option Value) (missing : ErrorKind) {hops : Nat}
    {links : List (PoolKey × PooledScope)} {base : DurableScope} (hchain : e.Chain r links base)
    (hle : links.length ≤ hops) :
    e.escalateWithin pick missing hops r =
      match p.cells.findSome? fun c => (w.cells c).bind fun cell => pick cell.kind with
      | some v => .ok v
      | none => w.store.escalate pick missing p.base := by
  obtain ⟨extra, fs, hst, -⟩ := h.store
  induction hp generalizing hops links with
  | base hd =>
      rw [Engine.escalateWithin, hst, Store.escalate_beside h.closed (h.heaps.symm ▸ hd)]
      rfl
  | heap hc hd =>
      obtain ⟨cell, row, hcell, ⟨hid, hheap, -⟩, -⟩ := h.seats _ _ hc
      rw [hst] at hheap
      rw [Engine.escalateWithin, hst, Store.escalate_added h.closed (h.heaps.symm ▸ hid) hheap
        (h.heaps.symm ▸ hd)]
      simp only [List.findSome?_cons, hcell, Option.bind_some, List.findSome?_nil]
      cases pick cell.kind <;> rfl
  | pooled hc houter ih =>
      obtain ⟨cell, row, hcell, ⟨hscope, -⟩, -⟩ := h.seats _ _ hc
      cases hchain with
      | pooled hown hlinks =>
          rw [hscope] at hown
          cases hown
          obtain ⟨n, rfl⟩ : ∃ n, hops = n + 1 := by
            cases hops with
            | zero => cases hle
            | succ n => exact ⟨n, rfl⟩
          have hih := ih hlinks (Nat.le_of_succ_le_succ hle)
          rw [Engine.escalateWithin]
          simp only [Engine.getScope_of_scope? hscope, List.findSome?_cons, hcell,
            Option.bind_some, hih]
          cases pick cell.kind <;> rfl

theorem answer (h : Mirrors S ρ w e) (hp : Stands S ρ p r) (q : Question) :
    e.answer q r = w.answer q p := by
  obtain ⟨extra, fs, hst, hplain⟩ := h.store
  have hpick : q.pick e.store.functions = q.pick w.store.functions := by
    rw [hst]
    exact Functions.pick_of_plain hplain q
  obtain ⟨links, base, hchain⟩ := h.chain hp
  rw [Engine.answer_eq, Engine.escalate, hpick,
    h.escalate_within hp _ _ hchain hchain.length_le]
  rfl

/-! ## Listings -/

/-- A scope lists what it has itself, then what is mixed in. -/
theorem listing (h : Mirrors S ρ w e) (hp : Stands S ρ p r) (includePrivate : Bool) :
    e.mixinsOf r = (w.ownListing p includePrivate).2 ∧
      (e.Listable r → e.symbols r includePrivate = .ok ((w.ownListing p includePrivate).1 ++
        (e.mixinsOf r).flatMap (e.store.sourceSymbols includePrivate))) := by
  obtain ⟨extra, fs, hst, -⟩ := h.store
  have hdurable : ∀ d, r = .durable d →
      e.store.ownListing includePrivate d = w.ownListing p includePrivate →
      e.mixinsOf r = (w.ownListing p includePrivate).2 ∧
        (e.Listable r → e.symbols r includePrivate = .ok ((w.ownListing p includePrivate).1 ++
          (e.mixinsOf r).flatMap (e.store.sourceSymbols includePrivate))) := by
    rintro d rfl hlist
    have hmixins : e.mixinsOf (.durable d) = (w.ownListing p includePrivate).2 := by
      show (e.store.ownListing true d).2 = _
      rw [← hlist, Store.ownListing_snd, Store.ownListing_snd]
    refine ⟨hmixins, fun hend => ?_⟩
    rw [Engine.symbols, e.store.symbols_eq d hend, hlist]
    rfl
  cases hp with
  | base hd =>
      refine hdurable _ rfl ?_
      rw [hst, Store.ownListing_beside (h.heaps.symm ▸ hd)]
      rfl
  | heap hc hd =>
      obtain ⟨cell, row, hcell, ⟨hid, hheap, -⟩, hslots⟩ := h.seats _ _ hc
      refine hdurable _ rfl ?_
      rw [hst] at hheap ⊢
      simp only [Store.ownListing, DurableScope.ofHeap, hheap, World.ownListing, hcell, hslots]
      rfl
  | @pooled c cs d k t outer home hc houter =>
      obtain ⟨cell, row, hcell, ⟨hscope, -, htable⟩, hslots⟩ := h.seats _ _ hc
      have hmixins : e.mixinsOf (.pooled k) = cell.mixins := by
        rw [Engine.mixinsOf, hscope]
        rfl
      refine ⟨by rw [hmixins]; simp only [World.ownListing, hcell], fun _ => ?_⟩
      rw [Engine.symbols_pooled hscope (Frame.getTable_of_get? htable)]
      simp only [World.ownListing, hcell, hmixins, hst, hslots]
      rfl

theorem list (h : Mirrors S ρ w e) (hp : Stands S ρ p r) (includePrivate : Bool) :
    e.list r includePrivate = w.list p includePrivate := by
  obtain ⟨extra, fs, hst, -⟩ := h.store
  obtain ⟨hmixins, hsymbols⟩ := h.listing hp includePrivate
  have hfeeds : e.store.Feeds = w.store.Feeds := by rw [hst, Store.feeds_beside h.closed]
  have hsource : e.store.sourceSymbols includePrivate = w.store.sourceSymbols includePrivate := by
    funext id
    rw [hst, Store.sourceSymbols_beside h.closed]
  unfold Engine.list World.list
  simp only
  by_cases hend : e.Listable r
  · have hend' : ∀ id ∈ (w.ownListing p includePrivate).2, Acc w.store.Feeds id := by
      rw [← hmixins, ← hfeeds]
      exact hend
    rw [if_pos hend, if_pos hend', hsymbols hend, hmixins, hsource]
    rfl
  · have hend' : ¬ ∀ id ∈ (w.ownListing p includePrivate).2, Acc w.store.Feeds id := by
      rw [← hmixins, ← hfeeds]
      exact hend
    rw [if_neg hend, if_neg hend']

/-! ## Members -/

theorem load (h : Mirrors S ρ w e) {spot : Spot} {slot : SlotRef} (hspot : Marks S ρ spot slot) :
    e.load slot = .ok (w.load spot) := by
  obtain ⟨extra, fs, hst, -⟩ := h.store
  cases hspot with
  | shared hslot =>
      rw [Engine.load_of_not_pooled hslot.isPooled, hst,
        Store.load_beside h.closed (h.heaps.symm ▸ hslot)]
      rfl
  | @cell c seat i hc hi s =>
      obtain ⟨cell, row, hcell, hrow, hslots⟩ := h.seats _ _ hc
      cases seat with
      | pooled k t outer home =>
          simp only [Seat.slot, Engine.load, Frame.getTable_of_get? hrow.2.2, World.load, hcell,
            MemberTable.get?, hslots, Option.bind_some]
      | heap id outer =>
          simp only [Seat.slot, Engine.load, Store.load, hrow.2.1, World.load, hcell,
            MemberTable.get?, hslots, Option.bind_some]

/-- A store that changed, but for what encloses, feeds and calls. -/
theorem steady (h : Mirrors S ρ w e) {extra : Array HeapScope} {fs : Functions} {st : Store}
    (he : e.store = w.store.beside extra fs) (hsteady : w.store.Steady st)
    (hdevelops : w.store.Develops st) :
    Mirrors S ρ { w with store := st } { e with store := st.beside extra fs } :=
  h.withStore he (h.closed.steady hsteady) (h.ordered.develop hdevelops) hsteady.size
    hsteady.functions

theorem declare_cell (h : Mirrors S ρ w e) {c : CellId} {seat : Seat} (hc : ρ c = some seat)
    (p : Site) (hp : p.cells.head? = some c) (s : Symbol) (a : Attributes) :
    (World.declare S p s a w).1.Alike (Marks S ρ) (e.declare seat.scope s a).1 ∧
      Mirrors S ρ (World.declare S p s a w).2 (e.declare seat.scope s a).2 ∧
      (World.declare S p s a w).2.stack.length = w.stack.length := by
  obtain ⟨cell, row, hcell, hrow, hslots⟩ := h.seats c seat hc
  obtain ⟨extra, fs, hst, -⟩ := h.store
  obtain ⟨cs, hcs⟩ : ∃ cs, p.cells = c :: cs := List.head?_eq_some_iff.1 hp
  have hdeclare := hrow.declare_eq hst s a
  have hsteady := w.store.steady_createSlot cell.shape s
  have hdevelops := w.store.develops_createSlot cell.shape s
  rw [hdeclare]
  simp only [World.declare, hcs, hcell]
  rcases hcreate : w.store.createSlot cell.shape s with ⟨fault | i, st⟩
  · rw [hcreate] at hsteady hdevelops
    exact ⟨.panicked, h.steady hst hsteady hdevelops, rfl⟩
  · have hi : i + 1 ≤ MemberTable.ample := h.ordered.createSlot_lt (by rw [hcreate])
    have hheaps := w.store.heaps_createSlot cell.shape s
    rw [hcreate] at hsteady hdevelops hheaps
    have hmirrors := h.steady hst hsteady hdevelops
    simp only [h.fits hrow hi]
    cases hroom : S.room (i + 1) with
    | false => exact ⟨.panicked, hmirrors, rfl⟩
    | true =>
        have hfits : row.fits (i + 1) = true := (h.fits hrow hi).trans hroom
        have hrow' : seat.Keeps S { e with store := st.beside extra fs } cell row := by
          cases seat with
          | pooled k t outer home => exact hrow
          | heap id outer =>
              obtain ⟨hid, hheap, hroomed⟩ := hrow
              rw [hst] at hheap
              refine ⟨hid, ?_, hroomed⟩
              show (st.heaps ++ extra)[id]? = _
              rw [hheaps]
              exact hheap
        have hput := hmirrors.put hc hcell hrow' (row.writes_declareAt i s a) hi hfits
        obtain ⟨hfst, hsnd⟩ := MemberTable.declareAt_congr
          (show (MemberTable.ofSlots cell.slots).slots = row.slots from hslots.symm) i s a
        rw [← hsnd] at hput
        refine ⟨?_, hput, rfl⟩
        simp only [if_true, hfst]
        cases (row.declareAt i s a).1 with
        | error err => exact .raised (.refl err)
        | ok _ => exact .done (.cell hc hi s)

theorem declare (h : Mirrors S ρ w e) (hp : Stands S ρ p r) (s : Symbol) (a : Attributes) :
    (World.declare S p s a w).1.Alike (Marks S ρ) (e.declare r s a).1 ∧
      Mirrors S ρ (World.declare S p s a w).2 (e.declare r s a).2 ∧
      (World.declare S p s a w).2.stack.length = w.stack.length := by
  cases hp with
  | heap hc hd => exact h.declare_cell hc _ rfl s a
  | pooled hc houter => exact h.declare_cell hc _ rfl s a
  | @base d hd =>
      obtain ⟨extra, fs, hst, -⟩ := h.store
      have hmirrors := h.steady hst (w.store.steady_declare d s a) (w.store.develops_declare d s a)
      rw [Engine.declare, hst, Store.declare_beside (h.heaps.symm ▸ hd)]
      refine ⟨?_, hmirrors, rfl⟩
      simp only [World.declare]
      cases hdone : (w.store.declare d s a).1 with
      | done slot => exact .done (.shared (Store.below_of_declare hd hdone))
      | raised err => exact .raised (.refl err)
      | panicked => exact .panicked

theorem assign (h : Mirrors S ρ w e) {spot : Spot} {slot : SlotRef} (hspot : Marks S ρ spot slot)
    (v : Value) :
    (World.assign S spot v w).1.Alike Eq (e.assign slot v).1 ∧
      Mirrors S ρ (World.assign S spot v w).2 (e.assign slot v).2 ∧
      (World.assign S spot v w).2.stack.length = w.stack.length := by
  obtain ⟨extra, fs, hst, -⟩ := h.store
  cases hspot with
  | shared hslot =>
      have hmirrors := h.steady hst (w.store.steady_assign slot v)
        (Store.develops_of_shapes_eq (w.store.shapes_assign slot v))
      rw [Engine.assign_of_not_pooled hslot.isPooled, hst,
        Store.assign_beside h.closed (h.heaps.symm ▸ hslot)]
      exact ⟨Outcome.alike_self _, hmirrors, rfl⟩
  | @cell c seat i hc hi s =>
      obtain ⟨cell, row, hcell, hrow, hslots⟩ := h.seats _ _ hc
      have hassign : e.assign (seat.slot i s) v =
          if row.fits (i + 1) then
            (.ofExcept (row.assignAt i s v).1, seat.put e cell (row.assignAt i s v).2)
          else (.panicked, e) := by
        cases seat with
        | pooled k t outer home => rw [Seat.slot, Engine.assign_pooled hrow.2.2]; rfl
        | heap id outer =>
            simp only [Seat.slot, Engine.assign, Store.assign_heap hrow.2.1]
            cases row.fits (i + 1) <;> rfl
      rw [hassign]
      simp only [World.assign, hcell, h.fits hrow hi]
      cases hroom : S.room (i + 1) with
      | false => exact ⟨.panicked, h, rfl⟩
      | true =>
          have hfits : row.fits (i + 1) = true := (h.fits hrow hi).trans hroom
          have hput := h.put hc hcell hrow (row.writes_assignAt i s v) hi hfits
          obtain ⟨hfst, hsnd⟩ := MemberTable.assignAt_congr
            (show (MemberTable.ofSlots cell.slots).slots = row.slots from hslots.symm) i s v
          rw [← hsnd] at hput
          refine ⟨?_, hput, rfl⟩
          simp only [if_true, hfst]
          exact Outcome.alike_self _

/-! ## Sources and lines -/

theorem mixin_site (h : Mirrors S ρ w e) (hp : Stands S ρ p r) {source : MemberSource}
    (hsource : ∀ d, source = .scope d → d.Below S.heaps) :
    (World.mixin p source w).1.Alike Eq (.ofExcept (e.mixin r source).1) ∧
      Mirrors S ρ (World.mixin p source w).2 (e.mixin r source).2 ∧
      (World.mixin p source w).2.stack.length = w.stack.length := by
  have hcell : ∀ {c : CellId} {seat : Seat} (p : Site), ρ c = some seat →
      p.cells.head? = some c →
      (World.mixin p source w).1.Alike Eq (.ofExcept (e.mixin seat.scope source).1) ∧
        Mirrors S ρ (World.mixin p source w).2 (e.mixin seat.scope source).2 ∧
        (World.mixin p source w).2.stack.length = w.stack.length := by
    intro c seat p hc hp
    obtain ⟨cs, hcs⟩ := List.head?_eq_some_iff.1 hp
    obtain ⟨cell, row, hcell, -⟩ := h.seats c seat hc
    obtain ⟨hok, hmirrors⟩ := h.mixin hc hcell hsource
    rw [hok]
    simp only [World.mixin, hcs, hcell]
    exact ⟨.done rfl, hmirrors, rfl⟩
  cases hp with
  | heap hc hd => exact hcell _ hc rfl
  | pooled hc houter => exact hcell _ hc rfl
  | @base d hd =>
      obtain ⟨extra, fs, hst, -⟩ := h.store
      have hsize : e.store.sources.size = w.store.sources.size := by rw [hst]; rfl
      simp only [World.mixin, Engine.mixin, hsize]
      rw [hst, Store.mixin_beside (h.heaps.symm ▸ hd)]
      cases hmixin : w.store.mixin d w.store.sources.size with
      | error err => exact ⟨.raised (.refl err), h, rfl⟩
      | ok st =>
          have hsteady := Store.steady_mixin hmixin
          have hordered : st.Ordered :=
            h.ordered.develop (Store.develops_of_shapes_eq (Store.shapes_mixin hmixin))
          have hclosed : (st.addSource source).2.Closed := by
            refine (h.closed.steady hsteady).addSource fun d' hd' => ?_
            rw [hsteady.size, h.heaps]
            exact hsource d' hd'
          exact ⟨.done rfl, h.withStore hst hclosed hordered hsteady.size hsteady.functions, rfl⟩

theorem setLine (h : Mirrors S ρ w e) (r : Option ScopeRef) (line : UInt32) :
    (World.setLine S line w).1.Alike Eq (.ofExcept (e.setLine r line).1) ∧
      Mirrors S ρ (World.setLine S line w).2 (e.setLine r line).2 ∧
      (World.setLine S line w).2.stack.length = w.stack.length := by
  obtain ⟨extra, fs, hst, -⟩ := h.store
  have hraised : e.isTerminated = w.store.isRaised S.flag := by
    rw [Engine.isTerminated, hst, h.flag]
    rfl
  cases hflag : w.store.isRaised S.flag with
  | true =>
      rw [hflag] at hraised
      simp only [World.setLine, hflag, Engine.setLine, hraised, if_true]
      exact ⟨.raised (.refl _), h, trivial⟩
  | false =>
      rw [hflag] at hraised
      obtain ⟨c, hc, hset⟩ : ∃ c : DepthEntry → DepthEntry,
          (∀ x, ((c x).node, (c x).line) = (x.node, line)) ∧ e.setLine r line =
            (.ok (), { e with frame := e.frame.modifyEntry e.frame.depth c }) := by
        cases r with
        | none =>
            refine ⟨fun x => { x with line }, fun _ => rfl, ?_⟩
            simp only [Engine.setLine, hraised]
            rfl
        | some scope =>
            refine ⟨fun x => { x with scope := some scope, line }, fun _ => rfl, ?_⟩
            simp only [Engine.setLine, hraised]
            rfl
      have hmirrors := h.perform (.setLine r line) (h.orderly.perform_of_none rfl)
        (by rw [Op.perform, hset]; rfl) (by rw [Op.perform, hset])
        fun _ seat _ => Mirrors.avoids_of_none rfl rfl rfl seat
      simp only [Op.perform, hset, Frame.stack_modifyEntry h.orderly.sound hc, ← h.stack]
        at hmirrors
      simp only [World.setLine, hflag, hset]
      exact ⟨.done rfl, hmirrors, w.stack.length_setLine line⟩

end Mirrors

end ScriptCore

import ScriptCore.Proofs.Lineage

/-!
# The order in which a depth gives things back

A depth gives back what is on its list from the newest on, and a pool hands out
first what it got back last. So the order on the list is what a program sees: if
it is the order of allocation, the next activation is handed the same entries in
the same order again.

The list keeps that order as long as things come onto it in front. What is given
back early, or is handed over to a scope, leaves a gap, and the newest
allocation moves into it. `relist` is what an operation does to the list of a
depth, given how an allocation is taken off; with `Allocation.withdraw` it is
what the frame does, and with `List.erase` it is the order of allocation.
`inOrder` follows the latter through a run. Both lists have the same elements.
They agree up to the first time that something other than one of the two newest
allocations is taken off: the newest leaves no gap, and the one before it leaves
a gap that is already in front.
-/

namespace ScriptCore

/-! ## Taking an allocation off a list -/

namespace Allocation

variable {a : Allocation} {l l' : List Allocation}

/-- Taking off keeps the order just if nothing older than the two newest goes. -/
theorem withdraw_eq_erase_iff (hl : l.Nodup) (ha : a ∈ l) :
    a.withdraw l = l.erase a ↔ a ∈ l.take 2 := by
  cases l with
  | nil => exact absurd ha List.not_mem_nil
  | cons newest rest =>
      by_cases hnewest : newest = a
      · subst hnewest
        simp [withdraw]
      · have hrest : a ∈ rest := (List.mem_cons.1 ha).resolve_left (Ne.symm hnewest)
        cases rest with
        | nil => exact absurd hrest List.not_mem_nil
        | cons second rest =>
            by_cases hsecond : second = a
            · subst hsecond
              simp [withdraw, hnewest]
            · have hne : newest ≠ second := by
                rintro rfl
                exact (List.nodup_cons.1 hl).1 List.mem_cons_self
              have hgone : ¬ a ∈ [newest, second] := by
                simp [Ne.symm hnewest, Ne.symm hsecond]
              refine iff_of_false (fun heq => ?_) (by simpa using hgone)
              have hbeq : (a == second) = false := by simp [Ne.symm hsecond]
              rw [withdraw, if_neg hnewest, if_pos (by simpa using hrest), List.replace_cons, hbeq,
                List.erase_cons_tail (by simpa using hnewest)] at heq
              exact hne (List.cons.inj heq).1.symm

theorem withdraw_perm_erase (a : Allocation) (h : l.Perm l') : (a.withdraw l).Perm (l'.erase a) :=
  (withdraw_perm a l).trans (h.erase a)

end Allocation

/-! ## What an operation does to a list -/

namespace Op

/-- What an operation takes off the list of a depth that goes on, with the depth. -/
def strikes? (e : Engine) : Op → Option (Nat × Allocation)
  | freeTable t | takeTable t => (e.frame.tables.depthOf? t.key).map (·, .table t.key)
  | freeScope (.pooled k) => (e.frame.scopes.depthOf? k).map (·, .scope k)
  | allocateFunction binding previous shape t =>
    match (e.frame.allocateFunction binding previous shape (e.store.shapeSize shape) t.key).1 with
    | .done _ => (e.frame.tables.depthOf? t.key).map (·, .table t.key)
    | _ => none
  | _ => none

/-- What an operation puts on the list of the current depth. -/
def registers? (e : Engine) : Op → Option Allocation
  | allocateBlock previous shape =>
    (e.frame.allocateBlock previous shape (e.store.shapeSize shape)).1.map .scope
  | allocateTable size => (e.frame.allocateTable size).1.map .table
  | allocateFunction binding previous shape t =>
    match (e.frame.allocateFunction binding previous shape (e.store.shapeSize shape) t.key).1 with
    | .done k => some (.scope k)
    | _ => none
  | _ => none

/-- What becomes of the list of a depth, which has the newest first, given how an allocation is
taken off a list. -/
def relist (take : Allocation → List Allocation → List Allocation) (e : Engine) (o : Op) (d : Nat)
    (l : List Allocation) : List Allocation :=
  if o.ends? e.frame = some d then []
  else
    let struck :=
      match o.strikes? e with
      | some (d', a) => if d = d' then take a l else l
      | none => l
    match o.registers? e with
    | some a => if d = e.frame.depth then a :: struck else struck
    | none => struck

end Op

namespace Frame

variable {f : Frame} {d : Nat}

theorem listed_register (hf : f.Sound) (a : Allocation) (d : Nat) :
    (f.register a).listed d = if d = f.depth then a :: f.listed d else f.listed d := by
  have hbooks := congrArg (fun b : Books => b.listed d) (books_register hf.depth_lt a)
  refine hbooks.trans ?_
  by_cases hd : d = f.depth
  · rw [if_pos hd, hd]
    exact Function.update_self ..
  · rw [if_neg hd]
    exact Function.update_of_ne hd ..

theorem listed_withdraw (f : Frame) (d' : Nat) (a : Allocation) (d : Nat) :
    (f.withdraw d' a).listed d = if d = d' then a.withdraw (f.listed d) else f.listed d := by
  have hbooks := congrArg (fun b : Books => b.listed d) (books_withdraw f d' a)
  refine hbooks.trans ?_
  by_cases hd : d = d'
  · rw [if_pos hd, hd]
    exact Function.update_self ..
  · rw [if_neg hd]
    exact Function.update_of_ne hd ..

theorem listed_release (f : Frame) (a : Allocation) (d : Nat) :
    (f.release a).listed d = f.listed d := by
  have hbooks := congrArg (fun b : Books => b.listed d) (books_release f a)
  rw [Books.listed_free] at hbooks
  exact hbooks

theorem listed_detachTable (f : Frame) (t : PoolKey) (d : Nat) :
    (f.detachTable t).listed d =
      match (f.tables.depthOf? t).map (·, Allocation.table t) with
      | some (d', a) => if d = d' then a.withdraw (f.listed d) else f.listed d
      | none => f.listed d := by
  unfold detachTable
  split
  · next d' hd =>
      rw [hd]
      exact listed_withdraw _ d' _ d
  · next hd => rw [hd]; rfl

theorem listed_endDepth (f : Frame) (d' d : Nat) :
    (f.endDepth d').listed d = if d' = d then [] else f.listed d := by
  have hbooks := congrArg (fun b : Books => b.listed d) (books_endDepth f d')
  refine hbooks.trans ?_
  simp only [Books.listed_reclaim, Function.update_apply, eq_comm (a := d')]
  rfl

theorem listed_installScope (hf : f.Sound) (kind : ScopeKind) (previous : ScopeRef)
    (shape : ShapeId) (members : PoolKey) (d : Nat) :
    (f.installScope kind previous shape members).2.listed d =
      if d = f.depth then .scope f.scopes.nextKey :: f.listed d else f.listed d := by
  rw [installScope_eq]
  exact listed_register
    (touches_addScope (S := fun _ => False) (T := fun _ => False) hf _).sound _ d

end Frame

namespace Op

variable {e : Engine} {d : Nat}

theorem listed_perform (hf : e.frame.Sound) (o : Op) (d : Nat) :
    (o.perform e).frame.listed d = o.relist Allocation.withdraw e d (e.frame.listed d) := by
  have hsame : ∀ {g : Frame}, g.books = e.frame.books → g.listed d = e.frame.listed d :=
    fun h => congrArg (fun b : Books => b.listed d) h
  cases o with
  | allocateBlock previous shape =>
      simp only [perform, relist, ends?, strikes?, registers?]
      rcases e.frame.allocateBlock_cases previous shape (e.store.shapeSize shape) with h | ⟨-, h⟩
      · rw [h]
        rfl
      · have hacq := Frame.touches_acquireTable (S := fun _ => False) (T := fun _ => False) hf
          (.inl rfl) (e.store.shapeSize shape)
        rw [h]
        refine (Frame.listed_installScope hacq.sound _ _ _ _ d).trans ?_
        rfl
  | allocateTable n =>
      simp only [perform, relist, ends?, strikes?, registers?, Frame.allocateTable]
      have hacq := Frame.touches_acquireTable (S := fun _ => False) (T := fun _ => False) hf
        (.inr rfl) n
      have hlist : (e.frame.acquireTable (some e.frame.depth) n).2.listed d = e.frame.listed d :=
        rfl
      have hdepth := hacq.depth_eq
      split
      · next g he =>
          rw [he] at hlist
          exact hlist
      · next t g he =>
          rw [he] at hlist hacq hdepth
          refine (Frame.listed_register hacq.sound _ d).trans ?_
          rw [hlist, hdepth]
          rfl
  | allocateFunction binding previous shape t =>
      simp only [perform, relist, ends?, strikes?, registers?]
      rcases e.frame.allocateFunction_cases binding previous shape (e.store.shapeSize shape) t.key
        with ⟨hsame, hno⟩ | ⟨-, h⟩
      · rw [hsame]
        cases hout : (e.frame.allocateFunction binding previous shape (e.store.shapeSize shape)
            t.key).1 with
        | done k => exact absurd hout (hno k)
        | raised err => rfl
        | panicked => rfl
      · have hready := Frame.touches_readyTable (S := fun _ => True) (T := fun _ => True)
          (t := t.key) hf trivial (e.store.shapeSize shape)
        have hhome : (e.frame.modifyTable t.key (·.ensureCapacity
            (e.store.shapeSize shape))).tables.depthOf? t.key =
            e.frame.tables.depthOf? t.key := by
          rw [← Frame.home?_books_table, Frame.books_modifyTable, Frame.home?_books_table]
        have hlist := Frame.listed_detachTable (e.frame.modifyTable t.key (·.ensureCapacity
          (e.store.shapeSize shape))) t.key d
        rw [hhome] at hlist
        rw [h]
        refine (Frame.listed_installScope hready.sound _ _ _ _ d).trans ?_
        rw [hready.depth_eq, Frame.readyTable_scopes, Frame.readyTable, hlist]
        rfl
  | freeTable t => exact e.frame.listed_detachTable t.key d
  | takeTable t =>
      simp only [perform, Frame.takeTable]
      split
      · next err hget =>
          -- a table that is not there has no depth
          have hnone : e.frame.tables.depthOf? t.key = none := by
            rw [Frame.getTable] at hget
            split at hget
            · cases hget
            · next hnot =>
                rw [Pool.get?, Option.map_eq_none_iff] at hnot
                rw [Pool.depthOf?, hnot]
                rfl
          simp only [relist, ends?, strikes?, registers?, hnone]
          rfl
      · exact e.frame.listed_detachTable t.key d
  | freeScope r =>
      cases r with
      | durable scope => rfl
      | pooled k =>
          simp only [perform, Frame.freeScope, relist, ends?, strikes?, registers?]
          split
          · next d' hd =>
              rw [hd]
              exact (Frame.listed_release _ (.scope k) d).trans (Frame.listed_withdraw _ _ _ d)
          · next hd =>
              rw [hd]
              exact Frame.listed_release _ (.scope k) d
  | editTable t c => rfl
  | declare r s a => exact hsame (e.books_declare r s a)
  | assign slot v => exact hsame (e.books_assign slot v)
  | mixin r source => exact hsame (e.books_mixin r source)
  | setLine r line => exact hsame (e.books_setLine r line)
  | reset =>
      refine (e.frame.listed_endDepth 0 d).trans ?_
      simp only [relist, ends?, Option.some.injEq]
      split <;> rfl
  | enter node r =>
      exact congrArg (fun b : Books => b.listed d) (Frame.books_enter hf node r)
  | leave =>
      refine (e.frame.listed_endDepth e.frame.depth d).trans ?_
      simp only [relist, ends?, Option.some.injEq]
      split <;> rfl
  | share st => rfl

/-- Two lists stay related, if taking off and putting on relate them. -/
theorem relist_rel {R : List Allocation → List Allocation → Prop}
    {take take' : Allocation → List Allocation → List Allocation} {o : Op}
    {l l' : List Allocation} (h : R l l') (hnil : R [] [])
    (htake : ∀ a, o.strikes? e = some (d, a) → R (take a l) (take' a l'))
    (hcons : ∀ a {l l'}, R l l' → R (a :: l) (a :: l')) :
    R (o.relist take e d l) (o.relist take' e d l') := by
  have hstruck : R
      (match o.strikes? e with
        | some (d', a) => if d = d' then take a l else l
        | none => l)
      (match o.strikes? e with
        | some (d', a) => if d = d' then take' a l' else l'
        | none => l') := by
    cases hs : o.strikes? e with
    | none => exact h
    | some s =>
        obtain ⟨d', a⟩ := s
        simp only
        split
        · next hd => exact htake a (hd ▸ hs)
        · exact h
  unfold relist
  split
  · exact hnil
  · cases o.registers? e with
    | none => exact hstruck
    | some a =>
        simp only
        split
        · exact hcons a hstruck
        · exact hstruck

theorem ends?_of_strikes? {o : Op} {s : Nat × Allocation} (h : o.strikes? e = some s) :
    o.ends? e.frame = none := by
  cases o with
  | reset => cases h
  | leave => cases h
  | _ => rfl

/-- What is put on a list does not hide how something was taken off it. -/
theorem relist_eq_iff {take take' : Allocation → List Allocation → List Allocation} {o : Op}
    {a : Allocation} {l : List Allocation} (h : o.strikes? e = some (d, a)) :
    o.relist take e d l = o.relist take' e d l ↔ take a l = take' a l := by
  simp only [relist, ends?_of_strikes? h, h, if_true]
  rw [if_neg nofun, if_neg nofun]
  cases o.registers? e with
  | none => exact Iff.rfl
  | some c =>
      simp only
      split
      · exact List.cons_inj_right c
      · exact Iff.rfl

/-- What an operation ends goes back to the pools. -/
theorem pools_of_ends? {o : Op} (h : o.ends? e.frame = some d) :
    (o.perform e).frame.scopes = (e.frame.endDepth d).scopes ∧
      (o.perform e).frame.tables = (e.frame.endDepth d).tables := by
  cases o with
  | reset =>
      cases h
      exact ⟨rfl, rfl⟩
  | leave =>
      cases h
      exact ⟨rfl, rfl⟩
  | _ => cases h

end Op

/-! ## What the pools get back -/

namespace Pool

variable {α : Type} {p : Pool α} {k : PoolKey}

/-- The indices that are handed out to requests one after the other. -/
def handed (p : Pool α) : List (Option Nat × α) → List Nat
  | [] => []
  | (depth, fresh) :: requests =>
    (p.acquire depth fresh).1.index :: (p.acquire depth fresh).2.handed requests

/-- What is free is handed out from the front of the list on. -/
theorem handed_eq_take {front rest : List Nat} (h : p.free = front ++ rest)
    (requests : List (Option Nat × α)) (hle : requests.length ≤ front.length) :
    p.handed requests = front.take requests.length := by
  induction requests generalizing p front with
  | nil => rfl
  | cons request requests ih =>
      obtain ⟨depth, fresh⟩ := request
      cases front with
      | nil => cases hle
      | cons i front =>
          have hnext : (p.acquire depth fresh).1.index = i := by simp [acquire, h]
          have hfree : (p.acquire depth fresh).2.free = front ++ rest := by simp [acquire, h]
          rw [handed, hnext, ih hfree (Nat.le_of_succ_le_succ hle)]
          rfl

theorem free_release (hk : (p.entry? k).isSome) (clear : α → α) :
    (p.release k clear).2.free = k.index :: p.free := by
  obtain ⟨x, hx⟩ := Option.isSome_iff_exists.1 hk
  simp [release, get?, hx]

end Pool

namespace Allocation

def scopeIndex? : Allocation → Option Nat
  | .scope k => some k.index
  | .table _ => none

end Allocation

/-- The table that goes back with an allocation, by its index. -/
def Books.tableIndex? (b : Books) : Allocation → Option Nat
  | .scope k => ((b.scopes k).bind (·.2)).map (·.index)
  | .table t => some t.index

namespace Frame

variable {f : Frame} {loose : List Allocation} {a : Allocation} {d : Nat}

theorem free_release (h : f.books.Kept (a :: loose)) :
    (f.release a).scopes.free = a.scopeIndex?.toList ++ f.scopes.free ∧
      (f.release a).tables.free = (f.books.tableIndex? a).toList ++ f.tables.free := by
  have hlive := h.live a List.mem_cons_self
  cases a with
  | table t =>
      have hentry : (f.tables.entry? t).isSome := by simpa [Books.Live, books] using hlive
      exact ⟨rfl, Pool.free_release hentry _⟩
  | scope k =>
      obtain ⟨v, hv⟩ := Option.isSome_iff_exists.1 hlive
      obtain ⟨d, t, rfl⟩ := h.scope k v hv
      obtain ⟨x, hx, hitem⟩ := Option.map_eq_some_iff.1 hv
      obtain ⟨s, hs, rfl⟩ := Option.map_eq_some_iff.1 (Prod.mk.inj hitem).2
      have hscope : f.scope? k = some s := by
        rw [scope?, Pool.get?, hx, Option.map_some, Option.bind_some, hs]
        rfl
      have htable : (f.tables.entry? s.members).isSome := by
        have hmembers := (h.members k _ _ hv).1
        obtain ⟨y, hy, -⟩ := Option.map_eq_some_iff.1 hmembers
        rw [hy]
        rfl
      have hfree := Pool.free_release (Option.isSome_iff_exists.2 ⟨x, hx⟩) fun _ => none
      simp only [release, releaseScope_snd, hscope]
      refine ⟨hfree, (Pool.free_release htable _).trans ?_⟩
      rw [Books.tableIndex?, hv]
      rfl

theorem tableIndex?_free {b : Books} {c : Allocation} (hne : c ≠ a) :
    (b.free a).tableIndex? c = b.tableIndex? c := by
  cases c with
  | table t => rfl
  | scope k =>
      have hscopes : (b.free a).scopes k = b.scopes k := by
        cases a with
        | table t => rfl
        | scope j =>
            have hkj : k ≠ j := fun h => hne (h ▸ rfl)
            simp only [Books.free]
            split
            · exact Function.update_of_ne hkj ..
            · exact Function.update_of_ne hkj ..
      rw [Books.tableIndex?, Books.tableIndex?, hscopes]

/-- What is given back goes onto the free lists, one after the other. -/
theorem free_foldl_release : ∀ {l : List Allocation} {f : Frame}, f.books.Kept (l ++ loose) →
    l.Nodup → (∀ a ∈ l, a ∉ loose) →
    (l.foldl release f).scopes.free =
        (l.filterMap Allocation.scopeIndex?).reverse ++ f.scopes.free ∧
      (l.foldl release f).tables.free =
        (l.filterMap f.books.tableIndex?).reverse ++ f.tables.free := by
  intro l
  induction l with
  | nil => exact fun _ _ _ => ⟨rfl, rfl⟩
  | cons a l ih =>
      intro f h hl hd
      obtain ⟨ha, hl⟩ := List.nodup_cons.1 hl
      obtain ⟨hscopes, htables⟩ := free_release h
      have hrest : (f.release a).books.Kept (l ++ loose) := by
        rw [books_release]
        exact h.free fun hmem => (List.mem_append.1 hmem).elim ha (hd a List.mem_cons_self)
      obtain ⟨hscopes', htables'⟩ := ih hrest hl fun c hc => hd c (List.mem_cons_of_mem _ hc)
      have hsame : l.filterMap (f.release a).books.tableIndex? =
          l.filterMap f.books.tableIndex? := by
        refine List.filterMap_congr fun c hc => ?_
        rw [books_release]
        exact tableIndex?_free fun heq => ha (heq ▸ hc)
      constructor
      · rw [List.foldl_cons, hscopes', hscopes]
        cases h : a.scopeIndex? with
        | none => rw [List.filterMap_cons_none h]; rfl
        | some i => rw [List.filterMap_cons_some h, List.reverse_cons, List.append_assoc]; rfl
      · rw [List.foldl_cons, htables', htables, hsame]
        cases h : f.books.tableIndex? a with
        | none => rw [List.filterMap_cons_none h]; rfl
        | some i => rw [List.filterMap_cons_some h, List.reverse_cons, List.append_assoc]; rfl

theorem free_endDepth (h : f.books.Kept loose) (d : Nat) :
    (f.endDepth d).scopes.free =
        ((f.listed d).filterMap Allocation.scopeIndex?).reverse ++ f.scopes.free ∧
      (f.endDepth d).tables.free =
        ((f.listed d).filterMap f.books.tableIndex?).reverse ++ f.tables.free := by
  have hwipe := h.wipe d
  rw [← books_wipe] at hwipe
  exact free_foldl_release hwipe (h.nodup d) fun a ha => ((h.mem_listed a d).1 ha).2

end Frame

/-! ## The list of a depth along a run -/

namespace Machine

variable {m : Machine} {os : List Op} {base d : Nat} {l : List Allocation}

/-- What is left of `l` and of what a run has put on the list of a depth, the newest first, in the
order in which it came there. -/
def inOrder (d : Nat) (m : Machine) : List Op → List Allocation → List Allocation
  | [], l => l
  | o :: os, l => inOrder d (m.after o) os (o.relist (fun a l => l.erase a) m.engine d l)

/-- Only the two newest allocations of a depth are taken off its list. -/
def TakesNewest (d : Nat) (m : Machine) : List Op → Prop
  | [] => True
  | o :: os =>
    (∀ s ∈ o.strikes? m.engine, s.1 = d → s.2 ∈ (m.engine.frame.listed d).take 2) ∧
      TakesNewest d (m.after o) os

instance decidableTakesNewest (d : Nat) :
    (m : Machine) → (os : List Op) → Decidable (TakesNewest d m os)
  | _, [] => inferInstanceAs (Decidable True)
  | m, o :: os =>
    have := decidableTakesNewest d (m.after o) os
    inferInstanceAs (Decidable
      ((∀ s ∈ o.strikes? m.engine, s.1 = d → s.2 ∈ (m.engine.frame.listed d).take 2) ∧
        TakesNewest d (m.after o) os))

theorem inOrder_append (os os' : List Op) : ∀ (m : Machine) (l : List Allocation),
    m.inOrder d (os ++ os') l = (m.run os).inOrder d os' (m.inOrder d os l) := by
  induction os with
  | nil => exact fun _ _ => rfl
  | cons o os ih => exact fun m l => ih (m.after o) _

/-- The list has what is still allocated, in whatever order. -/
theorem listed_perm_inOrder (hm : m.Tracked) (h : (m.engine.frame.listed d).Perm l)
    (os : List Op) : ((m.run os).engine.frame.listed d).Perm (m.inOrder d os l) := by
  induction os generalizing m l with
  | nil => exact h
  | cons o os ih =>
      refine ih (hm.after o) ?_
      show ((o.perform m.engine).frame.listed d).Perm _
      rw [Op.listed_perform hm.sound]
      exact Op.relist_rel h (.refl _) (fun a _ => Allocation.withdraw_perm_erase a h)
        fun a _ _ h => h.cons a

theorem Owned.nodup_listed (hw : m.Owned) (d : Nat) : (m.engine.frame.listed d).Nodup :=
  hw.kept.nodup d

/-- What an operation takes off the list of a depth is on it. -/
theorem Owned.mem_listed (hm : m.Tracked) (hw : m.Owned) {o : Op} (ho : Allows base m o)
    {a : Allocation} (h : o.strikes? m.engine = some (d, a)) : a ∈ m.engine.frame.listed d := by
  have hscope : ∀ {k : PoolKey}, m.engine.frame.scopes.depthOf? k = some d →
      .scope k ∈ m.engine.frame.listed d := fun {k} hk =>
    (hw.kept.mem_listed (.scope k) d).2 ⟨Frame.home?_books_scope.trans hk, by simp⟩
  have htable : ∀ {t : Handle}, o.consumes? = some t →
      (m.engine.frame.tables.depthOf? t.key).map (·, Allocation.table t.key) = some (d, a) →
      a ∈ m.engine.frame.listed d := by
    intro t ht hs
    obtain ⟨d', hd, heq⟩ := Option.map_eq_some_iff.1 hs
    cases heq
    have hhome : m.engine.frame.books.home? (.table t.key) = some d :=
      Frame.home?_books_table.trans hd
    have hfree := hw.unclaimed hm ho ht (Books.live_of_home? hhome)
    exact (hw.kept.mem_listed (.table t.key) d).2 ⟨hhome, hfree.not_loose⟩
  cases o with
  | freeTable t => exact htable rfl h
  | takeTable t => exact htable rfl h
  | freeScope r =>
      cases r with
      | durable scope => cases h
      | pooled k =>
          obtain ⟨d', hd, heq⟩ := Option.map_eq_some_iff.1 h
          cases heq
          exact hscope hd
  | allocateFunction binding previous shape t =>
      simp only [Op.strikes?] at h
      split at h
      · exact htable rfl h
      · cases h
  | _ => cases h

/-- The list of a depth is in order as long as only the two newest are taken off. -/
theorem listed_eq_inOrder (hm : m.Tracked) (hw : m.Owned) (hos : Lawful base m os)
    (h : m.engine.frame.listed d = l) (hnewest : TakesNewest d m os) :
    (m.run os).engine.frame.listed d = m.inOrder d os l := by
  induction os generalizing m l with
  | nil => exact h
  | cons o os ih =>
      refine ih (hm.after o) (hw.after hm hos.1) hos.2 ?_ hnewest.2
      show (o.perform m.engine).frame.listed d = _
      rw [Op.listed_perform hm.sound]
      refine Op.relist_rel h rfl (fun a ha => ?_) fun a _ _ h => congrArg (a :: ·) h
      have hmem := hnewest.1 (d, a) ha rfl
      rw [h] at hmem ⊢
      exact (Allocation.withdraw_eq_erase_iff (h ▸ hw.nodup_listed d) (List.mem_of_mem_take hmem)).2
        hmem

/-- The end of a depth gives back what is left on its list, in the order of the list, and the pools
hand it out again from the last on. Those are the allocations of the depth that were not given back
yet, and they are in the order of allocation if, since the list was last empty, nothing was taken
off it but one of the two newest. At the first time something older is taken off, they are not. -/
theorem exits_release_newest_first {store : Store} {config : FrameConfig} {global : GlobalId}
    {flag : FlagId} {os : List Op} {o : Op} {d : Nat}
    (hos : Lawful 0 (start store config global flag) os)
    (hend : o.ends? ((start store config global flag).run os).engine.frame = some d) :
    let m := start store config global flag
    let f := (m.run os).engine.frame
    let g := ((m.run os).after o).engine.frame
    let order := m.inOrder d os []
    (f.listed d).Perm order ∧ order.Nodup ∧
      g.scopes.free = ((f.listed d).filterMap Allocation.scopeIndex?).reverse ++ f.scopes.free ∧
      g.tables.free = ((f.listed d).filterMap f.books.tableIndex?).reverse ++ f.tables.free ∧
      (f.listed d = order →
        (∀ requests, requests.length ≤ (order.filterMap Allocation.scopeIndex?).length →
          g.scopes.handed requests =
            (order.filterMap Allocation.scopeIndex?).reverse.take requests.length) ∧
        ∀ requests, requests.length ≤ (order.filterMap f.books.tableIndex?).length →
          g.tables.handed requests =
            (order.filterMap f.books.tableIndex?).reverse.take requests.length) ∧
      (∀ before since, os = before ++ since → (m.run before).engine.frame.listed d = [] →
        TakesNewest d (m.run before) since → f.listed d = order) ∧
      ∀ early a, f.listed d = order → Allows 0 (m.run os) early →
        early.strikes? (m.run os).engine = some (d, a) →
        (((m.run os).after early).engine.frame.listed d = m.inOrder d (os ++ [early]) [] ↔
          a ∈ order.take 2) := by
  intro m f g order
  have hm := (tracked_start store config global flag).run os
  have hw := (owned_start store config global flag).run (tracked_start ..) hos
  have hperm : (f.listed d).Perm order :=
    listed_perm_inOrder (tracked_start store config global flag) (.of_eq (by cases d <;> rfl)) os
  have hnodup : order.Nodup := hperm.nodup_iff.1 (hw.nodup_listed d)
  obtain ⟨hscopes, htables⟩ := Op.pools_of_ends? hend
  obtain ⟨hfree, hfree'⟩ := Frame.free_endDepth hw.kept d
  have hscopes : g.scopes.free = _ := (congrArg Pool.free hscopes).trans hfree
  have htables : g.tables.free = _ := (congrArg Pool.free htables).trans hfree'
  refine ⟨hperm, hnodup, hscopes, htables, fun heq => ⟨fun requests hle => ?_,
    fun requests hle => ?_⟩, ?_, ?_⟩
  · rw [heq] at hscopes
    exact Pool.handed_eq_take hscopes requests (by rwa [List.length_reverse])
  · rw [heq] at htables
    exact Pool.handed_eq_take htables requests (by rwa [List.length_reverse])
  · rintro before since rfl hempty hnewest
    have hbefore := (tracked_start store config global flag).run before
    have hlawful := lawful_append.1 hos
    have howned := (owned_start store config global flag).run (tracked_start ..) hlawful.1
    have horder : m.inOrder d before [] = [] := by
      have hperm := listed_perm_inOrder (tracked_start store config global flag)
        (.of_eq (by cases d <;> rfl)) before (d := d) (l := [])
      rw [hempty] at hperm
      exact hperm.nil_eq.symm
    show (m.run (before ++ since)).engine.frame.listed d = m.inOrder d (before ++ since) []
    rw [run_append, inOrder_append, horder]
    exact listed_eq_inOrder hbefore howned hlawful.2 hempty hnewest
  · intro early a heq ho hstrikes
    have hmem : a ∈ f.listed d := hw.mem_listed hm ho hstrikes
    rw [heq] at hmem
    have hafter : ((m.run os).after early).engine.frame.listed d =
        early.relist Allocation.withdraw (m.run os).engine d order := by
      rw [← heq]
      exact Op.listed_perform hm.sound early d
    have hiff : early.relist Allocation.withdraw (m.run os).engine d order =
        early.relist (fun a l => l.erase a) (m.run os).engine d order ↔
          a.withdraw order = order.erase a := Op.relist_eq_iff hstrikes
    rw [inOrder_append, hafter, ← Allocation.withdraw_eq_erase_iff hnodup hmem]
    exact hiff

/-- Two tables and a block, of which the second table is given back early: the first table and that
of the block are handed out again in their old order. -/
theorem exit_after_early_release :
    let m := start { shapes := #[.empty], globals := #[{}] } {} 0 0
    let os : List Op :=
      [.enter { id := 0 } (.ofGlobal 0), .allocateTable 0, .allocateTable 0,
        .allocateBlock (.ofGlobal 0) 0, .freeTable ⟨⟨1, 0⟩, 0⟩]
    Lawful 0 m os ∧ m.inOrder 1 os [] = [.scope ⟨0, 0⟩, .table ⟨0, 0⟩] ∧
      ∀ x, ((m.run os).after .leave).engine.frame.tables.handed [(none, x), (none, x)] =
        [0, 2] := by
  intro m os
  have hos : Lawful 0 m os := by decide +kernel
  have horder : m.inOrder 1 os [] = [.scope ⟨0, 0⟩, .table ⟨0, 0⟩] := by decide +kernel
  have hindices : (m.inOrder 1 os []).filterMap (m.run os).engine.frame.books.tableIndex? =
      [2, 0] := by
    decide +kernel
  obtain ⟨-, -, -, -, hhanded, hnewest, -⟩ :=
    @exits_release_newest_first _ {} 0 0 os .leave 1 hos (by decide +kernel)
  have hsame := hnewest [] os rfl (by decide +kernel) (by decide +kernel)
  refine ⟨hos, horder, fun x => ?_⟩
  have hhanded := (hhanded hsame).2 [(none, x), (none, x)]
  rw [hindices] at hhanded
  exact hhanded (Nat.le_refl 2)

/-- Three tables, of which the oldest is given back early: the newest has filled its place, and so
the other two are given back in the order of allocation and handed out in the reverse of it. -/
theorem reset_releases_oldest_first :
    let m := start { shapes := #[.empty], globals := #[{}] } {} 0 0
    let os : List Op :=
      [.allocateTable 0, .allocateTable 0, .allocateTable 0, .freeTable ⟨⟨0, 0⟩, 0⟩]
    let order := m.inOrder 0 os []
    let f := (m.run os).engine.frame
    Lawful 0 m os ∧ Op.ends? f .reset = some 0 ∧ order = [.table ⟨2, 0⟩, .table ⟨1, 0⟩] ∧
      f.listed 0 = [.table ⟨1, 0⟩, .table ⟨2, 0⟩] ∧
      ∀ x, ((m.run os).after .reset).engine.frame.tables.handed [(some 0, x), (some 0, x)] =
          [2, 1] ∧
        ((m.run os).after .reset).engine.frame.tables.handed [(some 0, x), (some 0, x)] ≠
          (order.filterMap f.books.tableIndex?).reverse := by
  intro m os order f
  have hindices : (order.filterMap f.books.tableIndex?).reverse = [1, 2] := by decide +kernel
  have hfree : ((m.run os).after .reset).engine.frame.tables.free = [2, 1] ++ [0] := by
    decide +kernel
  refine ⟨by decide +kernel, rfl, by decide +kernel, by decide +kernel, fun x => ?_⟩
  have hhanded : ((m.run os).after .reset).engine.frame.tables.handed
      [(some 0, x), (some 0, x)] = [2, 1] := Pool.handed_eq_take hfree _ (Nat.le_refl 2)
  refine ⟨hhanded, ?_⟩
  rw [hhanded, hindices]
  decide

end Machine

end ScriptCore

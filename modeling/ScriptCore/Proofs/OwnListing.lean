import Mathlib.Data.List.Sort
import ScriptCore.Proofs.CallNames
import ScriptCore.Proofs.ListedNames

/-!
# The order of a listing

The members of a scope are listed by their numbers: slots, where the scope has a
shape, and ids in a global scope. The shape is gone through in the order of its
buckets, and the numbers are looked up one by one and sorted afterwards, so the
order of the buckets could only show if two symbols had one number. None have:
an order in which each symbol comes before or after every other leaves one list
for a set of symbols. Everything else follows from this. In particular two
shapes that give the same numbers have the same listings, whatever their buckets
are and however they came by them.
-/

namespace ScriptCore

/-! ## Global scopes -/

namespace GlobalScope

variable {g g' : GlobalScope} {s : Symbol} {slot : Slot}

/-- What has a slot in the scope has been declared there. -/
def Declared (g : GlobalScope) : Prop := ∀ s slot, g.get? s = some slot → slot.isDeclared

theorem Declared.set (h : g.Declared) (hslot : slot.isDeclared) : (g.set s slot).Declared := by
  intro x y hx
  rw [get?_set] at hx
  split at hx
  · cases hx
    exact hslot
  · exact h x y hx

theorem Distinct.symbols_pairwise (h : g.Distinct) (p : Bool) :
    (g.symbols p).Pairwise fun a b => a.toNat < b.toNat := by
  have hsorted : (g.symbols p).Pairwise fun a b => a.toNat ≤ b.toNat :=
    Store.pairwise_mergeSort_key Symbol.toNat _
  have hnodup : (g.symbols p).Nodup := by
    refine (List.mergeSort_perm _ _).nodup_iff.2 ?_
    exact List.Nodup.sublist (List.filter_sublist.map Prod.fst) h
  refine (hsorted.and hnodup).imp fun {a b} hab => ?_
  exact Nat.lt_of_le_of_ne hab.1 fun heq => hab.2 (Symbol.toNat_inj.1 heq)

end GlobalScope

theorem Op.Remakes.declared {e : Engine} {id : GlobalId} {g g' : GlobalScope} {o : Op}
    (h : Remakes e id g o g') (hg : g.Declared) : g'.Declared := by
  cases h with
  | keeps _ hsame =>
      intro s slot hs
      rw [GlobalScope.get?, hsame] at hs
      exact hg s slot hs
  | declare s a _ => exact hg.set rfl
  | assign _ hs hassign =>
      refine hg.set ?_
      rw [Slot.isDeclared_assign hassign]
      exact hg _ _ hs

/-! ## Durable scopes -/

namespace Store

variable {st st' : Store} {d : DurableScope} {shape : ShapeId} {slots : Array Slot}
  {l : List Symbol} {s : Symbol} {slot : Slot}

/-- What has a slot in a global scope has been declared there. -/
def Declared (st : Store) : Prop :=
  ∀ (id : GlobalId) g, st.globals[id]? = some g → g.Declared

/-- The number by which the innermost scope of a chain lists a symbol. -/
def number? (st : Store) (d : DurableScope) (s : Symbol) : Option Nat :=
  match d.frozen, d.anchor with
  | f :: _, _ => st.slotOf? f.shape s
  | [], .heap id => st.heaps[id]?.bind fun h => st.slotOf? h.shape s
  | [], .global _ => some s.toNat

theorem Numbers.declaredSymbols_pairwise (h : st.Numbers shape l) (p : Bool) :
    (st.declaredSymbols shape slots p).Pairwise fun a b =>
      ∃ i ∈ st.slotOf? shape a, ∃ j ∈ st.slotOf? shape b, i < j := by
  rw [h.declaredSymbols, shown, List.pairwise_filterMap]
  refine (pairwise_zipIdx l).imp_of_mem fun {n n'} hn hn' hlt a ha b hb => ?_
  have hnumber : ∀ (n : Symbol × Nat) (a : Symbol), n ∈ l.zipIdx →
      (if Shows slots p n.2 then some n.1 else none) = some a → st.slotOf? shape a = some n.2 := by
    intro n a hn ha
    split at ha
    · cases ha
      exact h.slotOf?_eq_some_iff.2 (List.mem_zipIdx_iff_getElem?.1 hn)
    · cases ha
  exact ⟨n.2, hnumber n a hn ha, n'.2, hnumber n' b hn' hb, hlt⟩

theorem ownListing_pairwise (ho : st.Ordered) (hd : st.Distinct) (p : Bool) (d : DurableScope) :
    (st.ownListing p d).1.Pairwise fun a b =>
      ∃ i ∈ st.number? d a, ∃ j ∈ st.number? d b, i < j := by
  match d with
  | ⟨f :: _, _⟩ =>
      obtain ⟨l, hl⟩ := ho.numbers f.shape
      exact hl.declaredSymbols_pairwise p
  | ⟨[], .heap id⟩ =>
      simp only [ownListing, number?]
      cases hh : st.heaps[id]? with
      | none => exact .nil
      | some h =>
          obtain ⟨l, hl⟩ := ho.numbers h.shape
          exact hl.declaredSymbols_pairwise p
  | ⟨[], .global id⟩ =>
      simp only [ownListing, number?]
      cases hg : st.globals[id]? with
      | none => exact .nil
      | some g =>
          refine ((hd id g hg).symbols_pairwise p).imp fun {a b} hab => ?_
          exact ⟨_, rfl, _, rfl, hab⟩

/-- A scope lists its own members first. -/
theorem symbols_eq_append (st : Store) (d : DurableScope) (p : Bool) :
    ∃ mixed, st.symbols d p = (st.ownListing p d).1 ++ mixed ∧
      (st.mixinsOf d = [] → mixed = []) := by
  unfold symbols
  cases st.sources.size with
  | zero => exact ⟨[], by rw [symbolsWithin_zero, List.append_nil], fun _ => rfl⟩
  | succ n =>
      refine ⟨_, st.symbolsWithin_succ p n d, fun hmixins => ?_⟩
      rw [hmixins, List.flatMap_nil]

theorem isDeclared_of_own? (h : st.own? shape slots s = some slot) : slot.isDeclared := by
  obtain ⟨i, hi, hslot⟩ := own?_eq_some h
  have hdecl := (Option.filter_eq_some_iff.1 hi).2
  rwa [hslot] at hdecl

theorem own?_congr (h : st'.slotOf? shape s = st.slotOf? shape s) :
    st'.own? shape slots s = st.own? shape slots s := by
  unfold own? ownIndex?
  rw [h]

end Store

/-! ## A scope of either provenance -/

namespace Engine

variable {e : Engine} {r : ScopeRef} {s : Symbol} {slot : Slot}

/-- The number by which a scope lists a symbol. -/
def number? (e : Engine) (r : ScopeRef) (s : Symbol) : Option Nat :=
  match r with
  | .durable d => e.store.number? d s
  | .pooled k => (e.frame.scope? k).bind fun own => e.store.slotOf? own.shape s

/-- The scope lists the one symbol before the other. -/
def Precedes (e : Engine) (r : ScopeRef) (a b : Symbol) : Prop :=
  ∃ i ∈ e.number? r a, ∃ j ∈ e.number? r b, i < j

theorem Precedes.asymm {a b : Symbol} (h : e.Precedes r a b) : ¬ e.Precedes r b a := by
  obtain ⟨i, hi, j, hj, hij⟩ := h
  rintro ⟨j', hj', i', hi', hji⟩
  cases hi.symm.trans hi'
  cases hj.symm.trans hj'
  exact Nat.lt_asymm hij hji

/-- There is one way to list a set of symbols. -/
theorem listing_unique {l l' : List Symbol} (h : l.Pairwise (e.Precedes r))
    (h' : l'.Pairwise (e.Precedes r)) (hmem : ∀ s, s ∈ l ↔ s ∈ l') : l = l' := by
  have hasymm : Std.Asymm (e.Precedes r) := ⟨fun _ _ => Precedes.asymm⟩
  exact h.eq_of_mem_iff h' hmem

/-- The scope lists these symbols, and after them what is mixed into it. -/
def ListsOwn (e : Engine) (r : ScopeRef) (p : Bool) (l : List Symbol) : Prop :=
  ∃ mixed, e.symbols r p = .ok (l ++ mixed) ∧ (e.mixinsOf r = [] → mixed = [])

theorem ListsOwn.symbols {p : Bool} {l : List Symbol} (h : e.ListsOwn r p l)
    (hmixins : e.mixinsOf r = []) : e.symbols r p = .ok l := by
  obtain ⟨mixed, hsymbols, hmixed⟩ := h
  rw [hsymbols, hmixed hmixins, List.append_nil]

/-- A scope lists its own members by their numbers. -/
theorem lists_own (ho : e.store.Ordered) (hd : e.store.Distinct) (hr : e.Present r) (p : Bool) :
    ∃ l, e.ListsOwn r p l ∧ l.Pairwise (e.Precedes r) ∧
      ∀ s, s ∈ l ↔ ∃ slot, e.ownMember? r s = some slot ∧ (p || slot.isPublic) = true := by
  cases r with
  | durable d =>
      obtain ⟨mixed, hsymbols, hmixed⟩ := e.store.symbols_eq_append d p
      exact ⟨_, ⟨mixed, congrArg Except.ok hsymbols, hmixed⟩, e.store.ownListing_pairwise ho hd p d,
        fun s => Store.mem_ownListing ho hd p⟩
  | pooled k =>
      obtain ⟨own, t, hown, ht⟩ := hr
      obtain ⟨l, hl⟩ := ho.numbers own.shape
      refine ⟨_, ⟨_, symbols_pooled hown (Frame.getTable_of_get? ht) p, fun hmixins => ?_⟩, ?_,
        fun s => ?_⟩
      · have hnone : own.mixins = [] := by
          simpa only [mixinsOf, hown, Option.map_some, Option.getD_some] using hmixins
        rw [hnone, List.flatMap_nil]
      · refine (hl.declaredSymbols_pairwise p).imp fun {a b} hab => ?_
        simpa only [Precedes, number?, hown, Option.bind_some] using hab
      · rw [hl.mem_declaredSymbols]
        simp only [ownMember?, hown, ht, Option.bind_eq_bind, Option.bind_some]

/-- A member of a scope is declared. -/
theorem isDeclared_of_ownMember? (hd : e.store.Declared) (h : e.ownMember? r s = some slot) :
    slot.isDeclared := by
  match r with
  | .pooled k =>
      simp only [ownMember?, Option.bind_eq_bind, Option.bind_eq_some_iff] at h
      obtain ⟨own, -, t, -, hslot⟩ := h
      exact Store.isDeclared_of_own? hslot
  | .durable ⟨f :: _, _⟩ => exact Store.isDeclared_of_own? h
  | .durable ⟨[], .heap id⟩ =>
      obtain ⟨x, -, hslot⟩ := Option.bind_eq_some_iff.1 h
      exact Store.isDeclared_of_own? hslot
  | .durable ⟨[], .global id⟩ =>
      obtain ⟨g, hg, hslot⟩ := Option.bind_eq_some_iff.1 h
      exact hd id g hg s slot hslot

section Shapes

variable {shapes : Shapes}

theorem ownMember?_withShapes
    (h : ∀ id x, (e.withShapes shapes).store.slotOf? id x = e.store.slotOf? id x) :
    (e.withShapes shapes).ownMember? r s = e.ownMember? r s := by
  have hown : ∀ shape slots, (e.withShapes shapes).store.own? shape slots s =
      e.store.own? shape slots s := fun shape _ => Store.own?_congr (h shape s)
  match r with
  | .pooled k => simp only [ownMember?, hown]; rfl
  | .durable ⟨f :: _, _⟩ => exact hown _ _
  | .durable ⟨[], .heap id⟩ => simp only [ownMember?, Store.ownMember?, hown]; rfl
  | .durable ⟨[], .global id⟩ => rfl

theorem number?_withShapes
    (h : ∀ id x, (e.withShapes shapes).store.slotOf? id x = e.store.slotOf? id x) :
    (e.withShapes shapes).number? r s = e.number? r s := by
  match r with
  | .pooled k => simp only [number?, h]; rfl
  | .durable ⟨f :: _, _⟩ => exact h _ _
  | .durable ⟨[], .heap id⟩ => simp only [number?, Store.number?, h]; rfl
  | .durable ⟨[], .global id⟩ => rfl

/-- What a scope lists of its own depends on the numbers that the shapes give,
and on nothing else about them. -/
theorem lists_own_withShapes (hd : e.store.Distinct) (hr : e.Present r) {p : Bool}
    {l : List Symbol} (hpairwise : l.Pairwise (e.Precedes r))
    (hmem : ∀ s, s ∈ l ↔ ∃ slot, e.ownMember? r s = some slot ∧ (p || slot.isPublic) = true)
    (hshapes : (e.withShapes shapes).store.Ordered)
    (h : ∀ id x, (e.withShapes shapes).store.slotOf? id x = e.store.slotOf? id x) :
    (e.withShapes shapes).ListsOwn r p l := by
  have hd' : (e.withShapes shapes).store.Distinct := hd
  have hr' : (e.withShapes shapes).Present r := by
    cases r <;> exact hr
  obtain ⟨l', hl', hpairwise', hmem'⟩ := lists_own hshapes hd' hr' p
  -- both are in the order of the same numbers and have the same symbols
  have heq : l' = l := by
    refine listing_unique (hpairwise'.imp fun {a b} hab => ?_) hpairwise fun s => ?_
    · simpa only [Precedes, number?_withShapes h] using hab
    · rw [hmem', hmem]
      simp only [ownMember?_withShapes h]
  rwa [heq] at hl'

end Shapes

end Engine

/-! ## Every run -/

namespace Machine

/-- In every run, a scope lists its own members by their slots, and by the ids
of the symbols where it is a global scope: each symbol it has declared, once,
and of these the public ones if only those are asked for. Other shapes that give
the same slots lead to the same listings. -/
theorem own_members_are_listed_in_order {store : Store} {config : FrameConfig} {global : GlobalId}
    {flag : FlagId} {os : List Op} (hos : Lawful 0 (start store config global flag) os)
    (hsharing : (start store config global flag).Sharing os) (hordered : store.Ordered)
    (hdistinct : store.Distinct) (hdeclared : store.Declared)
    (hshare : ∀ st, .share st ∈ os → st.Distinct ∧ st.Declared) (r : ScopeRef)
    (hlive : ∀ k ∈ r.key?,
      (((start store config global flag).run os).engine.frame.scope? k).isSome) :
    let e := ((start store config global flag).run os).engine
    ∃ all shown : List Symbol,
      (e.ListsOwn r true all ∧ e.ListsOwn r false shown) ∧
      (∀ s, s ∈ all ↔ ∃ slot, e.ownMember? r s = some slot ∧ slot.isDeclared) ∧
      all.Nodup ∧ all.Pairwise (e.Precedes r) ∧
      shown = all.filter (fun s => (e.ownMember? r s).any Slot.isPublic) ∧
      ∀ shapes : Shapes, (e.withShapes shapes).store.Ordered →
        (∀ id s, (e.withShapes shapes).store.slotOf? id s = e.store.slotOf? id s) →
        (e.withShapes shapes).ListsOwn r true all ∧
          (e.withShapes shapes).ListsOwn r false shown := by
  intro e
  have hm := tracked_start store config global flag
  have howned := (owned_start store config global flag).run hm hos
  have ho : e.store.Ordered := hordered.develop hsharing.develops
  have hd : e.store.Distinct := distinct_run hdistinct fun st hst => (hshare st hst).1
  have hdecl : e.store.Declared :=
    globals_run Op.Remakes.declared hdeclared fun st hst => (hshare st hst).2
  have hr : e.Present r := howned.present hlive
  obtain ⟨all, hall, hpairwise, hmem⟩ := Engine.lists_own ho hd hr true
  obtain ⟨shown, hshown, hpairwise', hmem'⟩ := Engine.lists_own ho hd hr false
  refine ⟨all, shown, ⟨hall, hshown⟩, fun s => ?_, ?_, hpairwise, ?_,
    fun shapes hshapes hsame => ?_⟩
  · rw [hmem]
    simp only [Bool.true_or, and_true]
    constructor
    · rintro ⟨slot, hslot⟩
      exact ⟨slot, hslot, Engine.isDeclared_of_ownMember? hdecl hslot⟩
    · rintro ⟨slot, hslot, -⟩
      exact ⟨slot, hslot⟩
  · refine hpairwise.imp fun {a b} hab heq => ?_
    subst heq
    exact hab.asymm hab
  · refine Engine.listing_unique hpairwise' (hpairwise.filter _) fun s => ?_
    rw [hmem', List.mem_filter, hmem, Option.any_eq_true]
    constructor
    · rintro ⟨slot, hslot, hpublic⟩
      exact ⟨⟨slot, hslot, rfl⟩, slot, hslot, hpublic⟩
    · rintro ⟨-, slot, hslot, hpublic⟩
      exact ⟨slot, hslot, hpublic⟩
  · exact ⟨Engine.lists_own_withShapes hd hr hpairwise hmem hshapes hsame,
      Engine.lists_own_withShapes hd hr hpairwise' hmem' hshapes hsame⟩

/-- Two blocks of one shape declare three symbols in turns, so that the first has
a slot it has not declared between two that it has. -/
def turns : List Op :=
  [.allocateBlock (.durable (.ofGlobal 0)) 0, .allocateBlock (.durable (.ofGlobal 0)) 0,
    .declare (.pooled ⟨0, 0⟩) ⟨512, by decide⟩ .exposed,
    .declare (.pooled ⟨1, 0⟩) ⟨513, by decide⟩ .exposed,
    .declare (.pooled ⟨0, 0⟩) ⟨514, by decide⟩ {}]

theorem own_members_are_listed_in_order_of_turns :
    let m := start { shapes := #[.empty], globals := #[{}] } {} 0 0
    let e := (m.run turns).engine
    let r : ScopeRef := .pooled ⟨0, 0⟩
    Lawful 0 m turns ∧ m.Sharing turns ∧ (e.frame.scope? ⟨0, 0⟩).isSome ∧
      ∃ all shown : List Symbol,
        (e.symbols r true = .ok all ∧ e.symbols r false = .ok shown) ∧
        all.Pairwise (e.Precedes r) ∧ e.Precedes r ⟨512, by decide⟩ ⟨514, by decide⟩ ∧
        (⟨512, by decide⟩ ∈ all ∧ ⟨513, by decide⟩ ∉ all ∧ ⟨514, by decide⟩ ∈ all) ∧
        ⟨512, by decide⟩ ∈ shown ∧ ⟨514, by decide⟩ ∉ shown := by
  intro m e r
  have hos : Lawful 0 m turns := by decide +kernel
  have hsharing : m.Sharing turns := ⟨nofun, nofun, nofun, nofun, nofun, trivial⟩
  have hlive : (e.frame.scope? ⟨0, 0⟩).isSome := by decide +kernel
  have hmixins : e.mixinsOf r = [] := by decide +kernel
  have hdeclared : m.engine.store.Declared := by
    intro id g hg s slot hs
    rw [Store.eq_empty_of_globals rfl hg] at hs
    cases hs
  obtain ⟨all, shown, ⟨hall, hshown⟩, hmem, -, hpairwise, hfilter, -⟩ :=
    own_members_are_listed_in_order hos hsharing (Store.ordered_of_made Shape.made_empty #[{}])
      distinct_blocks hdeclared (by simp [turns]) r (by rintro k ⟨⟩; exact hlive)
  have hmember : ∀ s, s ∈ all ↔ (e.ownMember? r s).any Slot.isDeclared := by
    intro s
    rw [hmem, Option.any_eq_true]
  have hx : ⟨512, by decide⟩ ∈ all := (hmember _).2 (by decide +kernel)
  have hslots : e.number? r ⟨512, by decide⟩ = some 0 ∧ e.number? r ⟨514, by decide⟩ = some 2 := by
    decide +kernel
  refine ⟨hos, hsharing, hlive, all, shown, ⟨hall.symbols hmixins, hshown.symbols hmixins⟩,
    hpairwise, ⟨0, hslots.1, 2, hslots.2, by decide⟩, ⟨hx, ?_, (hmember _).2 (by decide +kernel)⟩,
    ?_, ?_⟩
  · rw [hmember]
    decide +kernel
  · rw [hfilter, List.mem_filter]
    exact ⟨hx, by decide +kernel⟩
  · rw [hfilter, List.mem_filter]
    exact fun h => absurd h.2 (by decide +kernel)

end Machine

end ScriptCore

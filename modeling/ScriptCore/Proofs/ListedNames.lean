import ScriptCore.Proofs.Blocks
import ScriptCore.Proofs.Globals

/-!
# The names a scope lists and the names it answers to

Two questions are asked of one scope, without those around it: which public
names it has, and what a name stands for. Both look at its own members first
and then at what was mixed into it, wherever the scope lives and however its
members are kept.

They part one level further in. A source that is listed lists what was mixed
into it as well; a source that is asked for a name knows only its own members.
So the listing has a name that the scope cannot resolve exactly if the name is
public in a source of a source, and neither in the scope nor in a source of its
own.
-/

namespace ScriptCore

namespace Store

variable {st : Store} {d : DurableScope} {s : Symbol} {shape : ShapeId} {slots : Array Slot}
  {l : List Symbol} {id : SourceId}

/-! ## The scope itself -/

/-- What the innermost scope of a chain has declared a symbol to be. -/
def ownMember? (st : Store) (d : DurableScope) (s : Symbol) : Option Slot :=
  match d.frozen, d.anchor with
  | f :: _, _ => st.own? f.shape f.members.slots s
  | [], .heap id => st.heaps[id]?.bind fun h => st.own? h.shape h.members.slots s
  | [], .global id => st.globals[id]?.bind (·.get? s)

/-- Where the innermost scope of a chain has a symbol: among its own members, or
through a mixin. -/
def findOwn? (st : Store) (d : DurableScope) (s : Symbol) : Option SlotRef :=
  match d.frozen, d.anchor with
  | f :: _, _ => st.findFrozen? s f
  | [], .heap id => st.heaps[id]?.bind fun h => st.findHeap? id h s
  | [], .global id => st.findGlobal? id s

theorem Numbers.mem_declaredSymbols (h : st.Numbers shape l) (p : Bool) :
    s ∈ st.declaredSymbols shape slots p ↔
      ∃ slot, st.own? shape slots s = some slot ∧ (p || slot.isPublic) = true := by
  rw [h.declaredSymbols, shown, List.mem_filterMap]
  simp only [h.own?_eq_some_iff]
  constructor
  · rintro ⟨n, hn, hs⟩
    split at hs
    · next hshows =>
        cases hs
        obtain ⟨slot, hslot, hvisible⟩ := (Option.any_eq_true _ _).1 hshows
        obtain ⟨hdecl, hpublic⟩ := Bool.and_eq_true_iff.1 hvisible
        exact ⟨slot, ⟨n.2, List.mem_zipIdx_iff_getElem?.1 hn, hslot, hdecl⟩, hpublic⟩
    · cases hs
  · rintro ⟨slot, ⟨i, hi, hslot, hdecl⟩, hpublic⟩
    refine ⟨(s, i), List.mem_zipIdx_iff_getElem?.2 hi, if_pos ?_⟩
    exact (Option.any_eq_true _ _).2 ⟨slot, hslot, Bool.and_eq_true_iff.2 ⟨hdecl, hpublic⟩⟩

/-- A slot that is public is declared, so it need not be asked. -/
theorem publicValue?_eq (st : Store) (shape : ShapeId) (slots : Array Slot) (s : Symbol) :
    st.publicValue? shape slots s =
      ((st.own? shape slots s).filter Slot.isPublic).map Slot.value := by
  unfold publicValue? own? ownIndex?
  congr 1
  cases st.slotOf? shape s with
  | none => rfl
  | some i =>
      simp only [Option.bind_some, Option.filter_some]
      cases hslot : slots[i]? with
      | none => rfl
      | some slot =>
          cases hattr : slot.attributes <;>
            simp [Slot.isPublic, Slot.isDeclared, hattr, hslot]

theorem mem_ownListing (ho : st.Ordered) (hd : st.Distinct) (p : Bool) :
    s ∈ (st.ownListing p d).1 ↔
      ∃ slot, st.ownMember? d s = some slot ∧ (p || slot.isPublic) = true := by
  match d with
  | ⟨f :: _, _⟩ =>
      obtain ⟨l, hl⟩ := ho.numbers f.shape
      exact hl.mem_declaredSymbols p
  | ⟨[], .heap id⟩ =>
      simp only [ownListing, ownMember?]
      cases hh : st.heaps[id]? with
      | none => simp
      | some h =>
          obtain ⟨l, hl⟩ := ho.numbers h.shape
          exact hl.mem_declaredSymbols p
  | ⟨[], .global id⟩ =>
      simp only [ownListing, ownMember?]
      cases hg : st.globals[id]? with
      | none => simp
      | some g => exact (hd id g hg).mem_symbols p

/-- What is public of a scope is what it has declared to be. -/
theorem publicMember?_eq (st : Store) (d : DurableScope) (s : Symbol) :
    st.publicMember? d s = ((st.ownMember? d s).filter Slot.isPublic).map Slot.value := by
  match d with
  | ⟨f :: _, _⟩ => exact st.publicValue?_eq f.shape f.members.slots s
  | ⟨[], .heap id⟩ =>
      simp only [publicMember?, ownMember?]
      cases st.heaps[id]? with
      | none => rfl
      | some h => exact st.publicValue?_eq h.shape h.members.slots s
  | ⟨[], .global id⟩ => rfl

theorem isSome_publicMember? :
    (st.publicMember? d s).isSome ↔ (st.ownMember? d s).any Slot.isPublic := by
  rw [publicMember?_eq, Option.isSome_map, Option.isSome_filter]

/-! ## What is mixed in -/

/-- What is mixed into a source. -/
def sourceMixins (st : Store) (id : SourceId) : List SourceId :=
  match st.sources[id]? with
  | some (.scope d) => st.mixinsOf d
  | _ => []

theorem feeds_iff {j : SourceId} : st.Feeds j id ↔ j ∈ st.sourceMixins id := by
  constructor
  · rintro ⟨d, hd, hj⟩
    rw [sourceMixins, hd]
    exact hj
  · intro hj
    unfold sourceMixins at hj
    split at hj
    · next d hd => exact ⟨d, hd, hj⟩
    · cases hj

/-- Where each source has only older ones mixed into it, the nesting ends. -/
theorem wellFounded_feeds (st : Store)
    (h : ∀ id ∈ List.range st.sources.size, ∀ j ∈ st.sourceMixins id, j < id) :
    WellFounded st.Feeds := by
  refine Subrelation.wf ?_ Nat.lt_wfRel.wf
  intro j id hfeeds
  have hmem := feeds_iff.1 hfeeds
  obtain ⟨d, hd, -⟩ := hfeeds
  exact h id (List.mem_range.2 (Array.getElem?_eq_some_iff.1 hd).1) j hmem

/-- Nothing is further in than a source that has no mixins. -/
theorem eq_of_sourceMixins_nil {j : SourceId} (hid : st.sourceMixins id = [])
    (hj : Relation.ReflTransGen st.Feeds j id) : j = id := by
  rcases hj.cases_tail with heq | ⟨i, -, hi⟩
  · exact heq.symm
  · rw [feeds_iff, hid] at hi
    cases hi

/-- A source lists what it has itself and what any source further in has. -/
theorem mem_sourceSymbols (ho : st.Ordered) (hd : st.Distinct) (hacc : Acc st.Feeds id) :
    s ∈ st.sourceSymbols false id ↔
      ∃ j, Relation.ReflTransGen st.Feeds j id ∧ (st.sourceMember? j s).isSome := by
  induction hacc with
  | intro id hacc ih =>
      -- without mixins of its own a source lists what it has
      have hleaf : st.sourceMixins id = [] →
          (s ∈ st.sourceSymbols false id ↔ (st.sourceMember? id s).isSome) →
          (s ∈ st.sourceSymbols false id ↔
            ∃ j, Relation.ReflTransGen st.Feeds j id ∧ (st.sourceMember? j s).isSome) := by
        intro hid hown
        constructor
        · exact fun hmem => ⟨id, .refl, hown.1 hmem⟩
        · rintro ⟨j, hj, hsome⟩
          rw [eq_of_sourceMixins_nil hid hj] at hsome
          exact hown.2 hsome
      cases hid : st.sources[id]? with
      | none =>
          refine hleaf ?_ ?_
          · rw [sourceMixins, hid]
          · simp [sourceSymbols, sourceMember?, hid]
      | some source =>
          cases source with
          | fixed ms =>
              refine hleaf ?_ ?_
              · rw [sourceMixins, hid]
              · simp [sourceSymbols, sourceMember?, hid]
          | scope d =>
              have hfeeds : ∀ j, st.Feeds j id ↔ j ∈ st.mixinsOf d := by
                intro j
                rw [feeds_iff, sourceMixins, hid]
              have hown : (st.sourceMember? id s).isSome ↔ s ∈ (st.ownListing false d).1 := by
                rw [sourceMember?, hid, mem_ownListing ho hd]
                simp only [Bool.false_or, isSome_publicMember?, Option.any_eq_true]
              have hlisting : st.sourceSymbols false id = (st.ownListing false d).1 ++
                  (st.mixinsOf d).flatMap (st.sourceSymbols false) := by
                rw [← st.symbols_eq d fun j hj => hacc j ((hfeeds j).2 hj), sourceSymbols, hid]
              rw [hlisting, List.mem_append, List.mem_flatMap, ← hown]
              constructor
              · rintro (hsome | ⟨j, hj, hmem⟩)
                · exact ⟨id, .refl, hsome⟩
                · obtain ⟨i, hi, hsome⟩ := (ih j ((hfeeds j).2 hj)).1 hmem
                  exact ⟨i, hi.tail ((hfeeds j).2 hj), hsome⟩
              · rintro ⟨i, hi, hsome⟩
                rcases hi.cases_tail with rfl | ⟨j, hij, hj⟩
                · exact .inl hsome
                · exact .inr ⟨j, (hfeeds j).1 hj, (ih j hj).2 ⟨i, hij, hsome⟩⟩

end Store

/-! ## A scope of either provenance -/

namespace Engine

variable {e : Engine} {r : ScopeRef} {s : Symbol}

/-- What a scope has declared a symbol to be. -/
def ownMember? (e : Engine) (r : ScopeRef) (s : Symbol) : Option Slot :=
  match r with
  | .durable d => e.store.ownMember? d s
  | .pooled k => do
    let own ← e.frame.scope? k
    let table ← e.frame.tables.get? own.members
    e.store.own? own.shape table.slots s

/-- What is mixed into a scope. -/
def mixinsOf (e : Engine) : ScopeRef → List SourceId
  | .durable d => e.store.mixinsOf d
  | .pooled k => ((e.frame.scope? k).map (·.mixins)).getD []

/-- Where a scope has a symbol, without the scopes around it: among its own
members, or through a mixin. -/
def findOwn? (e : Engine) (r : ScopeRef) (s : Symbol) : Option SlotRef :=
  match r with
  | .durable d => e.store.findOwn? d s
  | .pooled k => do
    let own ← e.frame.scope? k
    match e.ownIndex? own s with
    | .error _ => none
    | .ok (some i) => some (.pooled own.members i s)
    | .ok none => (e.store.findMixin? own.mixins s).map (.mixin · s)

/-- The slot is that of a public member. -/
def isPublic (e : Engine) : SlotRef → Bool
  | .pooled t i _ => (e.frame.tables.get? t).any fun t => (t.get? i).any Slot.isPublic
  | .heap id i _ => e.store.heaps[id]?.any fun h => (h.members.get? i).any Slot.isPublic
  | .frozen f i _ => (f.members.get? i).any Slot.isPublic
  | .global id s => e.store.globals[id]?.any fun g => (g.get? s).any Slot.isPublic
  | .mixin source s => (e.store.sourceMember? source s).isSome

/-- The scope resolves the symbol to a public member. -/
def Answers (e : Engine) (r : ScopeRef) (s : Symbol) : Prop :=
  ∃ slot, e.findOwn? r s = some slot ∧ e.isPublic slot = true

/-- The symbol is public in a mixin of the scope, and the scope has a member of
its own under the name that is not. -/
def Shadows (e : Engine) (r : ScopeRef) (s : Symbol) : Prop :=
  (∃ slot, e.ownMember? r s = some slot ∧ slot.isPublic = false) ∧
    ∃ id ∈ e.mixinsOf r, (e.store.sourceMember? id s).isSome

/-- The symbol is public in a source that was mixed into a mixin of the scope,
directly or through others. -/
def Buries (e : Engine) (r : ScopeRef) (s : Symbol) : Prop :=
  ∃ id ∈ e.mixinsOf r, ∃ j, Relation.TransGen e.store.Feeds j id ∧
    (e.store.sourceMember? j s).isSome

/-- The scope is there, with its table if it has one in the frame. -/
def Present (e : Engine) : ScopeRef → Prop
  | .durable _ => True
  | .pooled k => ∃ own t, e.frame.scope? k = some own ∧ e.frame.tables.get? own.members = some t

end Engine

namespace Store

variable {st : Store} {shape : ShapeId} {slots : Array Slot} {s : Symbol} {slot : Slot}

theorem own?_eq_some (h : st.own? shape slots s = some slot) :
    ∃ i, st.ownIndex? shape slots s = some i ∧ slots[i]? = some slot :=
  Option.bind_eq_some_iff.1 h

theorem ownIndex?_of_own?_none (h : st.own? shape slots s = none) :
    st.ownIndex? shape slots s = none := by
  cases hi : st.ownIndex? shape slots s with
  | none => rfl
  | some i =>
      have hslot := (Option.filter_eq_some_iff.1 hi).2
      rw [own?, hi, Option.bind_some] at h
      rw [h] at hslot
      cases hslot

end Store

namespace Engine

variable {e : Engine} {r : ScopeRef} {s : Symbol} {slot : Slot}

/-- A member of its own is what the scope resolves a symbol to. -/
theorem findOwn?_of_own (h : e.ownMember? r s = some slot) :
    ∃ ref, e.findOwn? r s = some ref ∧ e.isPublic ref = slot.isPublic := by
  match r with
  | .pooled k =>
      simp only [ownMember?, Option.bind_eq_bind, Option.bind_eq_some_iff] at h
      obtain ⟨own, hown, t, ht, hslot⟩ := h
      obtain ⟨i, hi, hget⟩ := Store.own?_eq_some hslot
      have hindex := ownIndex?_eq (s := s) (Frame.getTable_of_get? ht)
      rw [hi] at hindex
      refine ⟨.pooled own.members i s, ?_, ?_⟩
      · simp only [findOwn?, hown, hindex, Option.bind_eq_bind, Option.bind_some]
      · simp only [isPublic, ht, Option.any_some, MemberTable.get?, hget]
  | .durable ⟨f :: _, _⟩ =>
      obtain ⟨i, hi, hget⟩ := Store.own?_eq_some h
      refine ⟨.frozen f i s, ?_, ?_⟩
      · simp only [findOwn?, Store.findOwn?, Store.findFrozen?, hi]
      · simp only [isPublic, FrozenMembers.get?, hget, Option.any_some]
  | .durable ⟨[], .heap id⟩ =>
      simp only [ownMember?, Store.ownMember?, Option.bind_eq_some_iff] at h
      obtain ⟨x, hx, hslot⟩ := h
      obtain ⟨i, hi, hget⟩ := Store.own?_eq_some hslot
      refine ⟨.heap id i s, ?_, ?_⟩
      · simp only [findOwn?, Store.findOwn?, hx, Option.bind_some, Store.findHeap?, hi]
      · simp only [isPublic, hx, Option.any_some, MemberTable.get?, hget]
  | .durable ⟨[], .global id⟩ =>
      simp only [ownMember?, Store.ownMember?, Option.bind_eq_some_iff] at h
      obtain ⟨g, hg, hslot⟩ := h
      refine ⟨.global id s, ?_, ?_⟩
      · simp only [findOwn?, Store.findOwn?, Store.findGlobal?, hg, Option.bind_some, hslot]
      · simp only [isPublic, hg, Option.any_some, hslot]

/-- Without one it is the first mixin that has the name. -/
theorem findOwn?_of_none (hr : e.Present r) (h : e.ownMember? r s = none) :
    e.findOwn? r s = (e.store.findMixin? (e.mixinsOf r) s).map (.mixin · s) := by
  match r with
  | .pooled k =>
      obtain ⟨own, t, hown, ht⟩ := hr
      simp only [ownMember?, hown, ht, Option.bind_eq_bind, Option.bind_some] at h
      have hindex := ownIndex?_eq (s := s) (Frame.getTable_of_get? ht)
      rw [Store.ownIndex?_of_own?_none h] at hindex
      simp only [findOwn?, mixinsOf, hown, hindex, Option.bind_eq_bind, Option.bind_some,
        Option.map_some, Option.getD_some]
  | .durable ⟨f :: _, _⟩ =>
      simp only [findOwn?, Store.findOwn?, Store.findFrozen?, Store.ownIndex?_of_own?_none h]
      rfl
  | .durable ⟨[], .heap id⟩ =>
      simp only [ownMember?, Store.ownMember?] at h
      simp only [findOwn?, Store.findOwn?, mixinsOf, Store.mixinsOf, Store.ownListing]
      cases hx : e.store.heaps[id]? with
      | none => rfl
      | some x =>
          rw [hx, Option.bind_some] at h
          simp only [Option.bind_some, Store.findHeap?, Store.ownIndex?_of_own?_none h]
  | .durable ⟨[], .global id⟩ =>
      simp only [ownMember?, Store.ownMember?] at h
      simp only [findOwn?, Store.findOwn?, Store.findGlobal?, mixinsOf, Store.mixinsOf,
        Store.ownListing]
      cases hg : e.store.globals[id]? with
      | none => rfl
      | some g =>
          rw [hg, Option.bind_some] at h
          simp only [Option.bind_some, h]

theorem resolve_durable (e : Engine) (d : DurableScope) (s : Symbol) :
    e.resolve (.durable d) s = e.store.resolve d s := by
  unfold resolve
  cases e.frame.scopes.entries.size <;> rfl

/-- What a scope has, with or without the scopes around it, is the same. -/
theorem resolve_of_findOwn? {ref : SlotRef} (h : e.findOwn? r s = some ref) :
    e.resolve r s = .ok ref := by
  match r with
  | .pooled k =>
      simp only [findOwn?, Option.bind_eq_bind, Option.bind_eq_some_iff] at h
      obtain ⟨own, hown, h⟩ := h
      obtain ⟨n, hn⟩ : ∃ n, e.frame.scopes.entries.size = n + 1 := by
        have hlt : ([k] : List PoolKey).length ≤ e.frame.scopes.entries.size := by
          refine length_le_of_live (List.nodup_singleton k) fun j hj => ?_
          rw [List.mem_singleton.1 hj, hown]
          rfl
        exact ⟨_, (Nat.succ_pred_eq_of_pos hlt).symm⟩
      simp only [resolve, hn, resolveWithin, getScope_of_scope? hown]
      cases hi : e.ownIndex? own s with
      | error err =>
          rw [hi] at h
          cases h
      | ok found =>
          rw [hi] at h
          cases found with
          | some i =>
              cases h
              rfl
          | none =>
              obtain ⟨source, hsource, rfl⟩ := Option.map_eq_some_iff.1 h
              simp only [hsource]
  | .durable ⟨f :: frozen, anchor⟩ =>
      have h : e.store.findFrozen? s f = some ref := h
      have hpush : e.store.resolve (DurableScope.push ⟨frozen, anchor⟩ f) s = .ok ref := by
        rw [Store.resolve, Store.resolveWithin_push, h]
      rw [resolve_durable]
      exact hpush
  | .durable ⟨[], .heap id⟩ =>
      simp only [findOwn?, Store.findOwn?, Option.bind_eq_some_iff] at h
      obtain ⟨x, hx, h⟩ := h
      obtain ⟨n, hn⟩ : ∃ n, e.store.heaps.size = n + 1 :=
        ⟨_, (Nat.succ_pred_eq_of_pos
          (Nat.zero_lt_of_lt (Array.getElem?_eq_some_iff.1 hx).1)).symm⟩
      rw [resolve_durable]
      simp only [Store.resolve, hn, Store.resolveWithin, List.findSome?_nil, hx, h]
  | .durable ⟨[], .global id⟩ =>
      simp only [findOwn?, Store.findOwn?] at h
      rw [resolve_durable, Store.resolve]
      unfold Store.resolveWithin
      simp only [List.findSome?_nil, h]

/-- The names that count are those of public members and of mixins. -/
theorem answers_or_shadows (hr : e.Present r) :
    e.Answers r s ∨ e.Shadows r s ↔
      (e.ownMember? r s).any Slot.isPublic ∨
        ∃ id ∈ e.mixinsOf r, (e.store.sourceMember? id s).isSome := by
  cases hown : e.ownMember? r s with
  | some slot =>
      obtain ⟨ref, href, hpublic⟩ := findOwn?_of_own hown
      have hanswers : e.Answers r s ↔ slot.isPublic = true := by
        rw [← hpublic]
        constructor
        · rintro ⟨ref', href', hpublic'⟩
          rw [href] at href'
          cases href'
          exact hpublic'
        · exact fun hpublic' => ⟨ref, href, hpublic'⟩
      rw [hanswers, Option.any_some]
      cases hslot : slot.isPublic with
      | true => simp
      | false =>
          constructor
          · rintro (habsurd | ⟨-, hmixin⟩)
            · cases habsurd
            · exact .inr hmixin
          · rintro (habsurd | hmixin)
            · cases habsurd
            · exact .inr ⟨⟨slot, hown, hslot⟩, hmixin⟩
  | none =>
      have hfind := findOwn?_of_none hr hown
      constructor
      · rintro (⟨ref, href, -⟩ | ⟨⟨slot, hslot, -⟩, -⟩)
        · rw [hfind] at href
          obtain ⟨id, hid, -⟩ := Option.map_eq_some_iff.1 href
          exact .inr ⟨id, List.mem_of_find?_eq_some hid, by simpa using List.find?_some hid⟩
        · rw [hown] at hslot
          cases hslot
      · rintro (habsurd | ⟨id, hid, hsome⟩)
        · cases habsurd
        · have hmixin : (e.store.findMixin? (e.mixinsOf r) s).isSome :=
            List.find?_isSome.2 ⟨id, hid, hsome⟩
          obtain ⟨source, hsource⟩ := Option.isSome_iff_exists.1 hmixin
          have hpublic : (e.store.sourceMember? source s).isSome = true := by
            simpa using List.find?_some hsource
          rw [hsource] at hfind
          exact .inl ⟨.mixin source s, hfind, hpublic⟩

/-- The listing of a scope is its own public names and those of its mixins. -/
theorem mem_symbols (ho : e.store.Ordered) (hd : e.store.Distinct) (hr : e.Present r)
    (hacc : ∀ id ∈ e.mixinsOf r, Acc e.store.Feeds id) :
    ∃ l, e.symbols r false = .ok l ∧ ∀ s, s ∈ l ↔
      (e.ownMember? r s).any Slot.isPublic ∨
        ∃ id ∈ e.mixinsOf r, s ∈ e.store.sourceSymbols false id := by
  cases r with
  | durable d =>
      refine ⟨_, rfl, fun s => ?_⟩
      rw [e.store.symbols_eq d hacc, List.mem_append, List.mem_flatMap,
        Store.mem_ownListing ho hd, Option.any_eq_true]
      simp only [Bool.false_or]
      rfl
  | pooled k =>
      obtain ⟨own, t, hown, ht⟩ := hr
      obtain ⟨l, hl⟩ := ho.numbers own.shape
      refine ⟨_, symbols_pooled hown (Frame.getTable_of_get? ht) false, fun s => ?_⟩
      rw [List.mem_append, List.mem_flatMap, hl.mem_declaredSymbols, Option.any_eq_true]
      simp only [Bool.false_or, ownMember?, mixinsOf, hown, ht, Option.bind_eq_bind,
        Option.bind_some, Option.map_some, Option.getD_some]

/-- A name is listed if the scope answers to it, or if it would but for a member
of its own that is not public, or if it is buried in the mixins of a mixin. -/
theorem listed_iff (ho : e.store.Ordered) (hd : e.store.Distinct) (hr : e.Present r)
    (hacc : ∀ id ∈ e.mixinsOf r, Acc e.store.Feeds id) :
    ∃ l, e.symbols r false = .ok l ∧
      ∀ s, s ∈ l ↔ (e.Answers r s ∨ e.Shadows r s) ∨ e.Buries r s := by
  obtain ⟨l, hl, hmem⟩ := mem_symbols ho hd hr hacc
  refine ⟨l, hl, fun s => ?_⟩
  rw [hmem s, answers_or_shadows hr, or_assoc]
  refine or_congr_right ?_
  constructor
  · rintro ⟨id, hid, hs⟩
    obtain ⟨j, hj, hsome⟩ := (Store.mem_sourceSymbols ho hd (hacc id hid)).1 hs
    rcases Relation.reflTransGen_iff_eq_or_transGen.1 hj with rfl | hj
    · exact .inl ⟨_, hid, hsome⟩
    · exact .inr ⟨id, hid, j, hj, hsome⟩
  · rintro (⟨id, hid, hsome⟩ | ⟨id, hid, j, hj, hsome⟩)
    · exact ⟨id, hid, (Store.mem_sourceSymbols ho hd (hacc id hid)).2 ⟨id, .refl, hsome⟩⟩
    · have hlisted := (Store.mem_sourceSymbols ho hd (hacc id hid)).2
        ⟨j, hj.to_reflTransGen, hsome⟩
      exact ⟨id, hid, hlisted⟩

end Engine

/-! ## Every run -/

namespace Machine

variable {m : Machine} {os : List Op} {r : ScopeRef}

theorem globals_run {P : GlobalScope → Prop}
    (hremakes : ∀ {e id g o g'}, Op.Remakes e id g o g' → P g → P g')
    (h : ∀ (id : GlobalId) g, m.engine.store.globals[id]? = some g → P g)
    (hshare : ∀ st, .share st ∈ os → ∀ (id : GlobalId) g, st.globals[id]? = some g → P g) :
    ∀ (id : GlobalId) g, (m.run os).engine.store.globals[id]? = some g → P g := by
  induction os generalizing m with
  | nil => exact h
  | cons o os ih =>
      refine ih ?_ fun st hst => hshare st (List.mem_cons_of_mem _ hst)
      exact Op.globals_preserve hremakes h fun st hst => hshare st (hst ▸ List.mem_cons_self)

theorem distinct_run (h : m.engine.store.Distinct) (hshare : ∀ st, .share st ∈ os → st.Distinct) :
    (m.run os).engine.store.Distinct :=
  globals_run Op.Remakes.distinct h hshare

theorem Owned.present (h : m.Owned) (hr : ∀ k ∈ r.key?, (m.engine.frame.scope? k).isSome) :
    m.engine.Present r := by
  cases r with
  | durable d => trivial
  | pooled k =>
      obtain ⟨own, hown⟩ := Option.isSome_iff_exists.1 (hr k rfl)
      obtain ⟨t, ht⟩ := Option.isSome_iff_exists.1
        ((Frame.ownership_of_kept h.kept).members k own hown)
      exact ⟨own, t, hown, ht⟩

/-- In every run, the public names that a scope lists are those it answers to,
those it would answer to but for a member of its own that is not public, and
those that are public only further in, in the mixins of a mixin. So the listing
agrees with what the scope resolves, up to shadowing, exactly if no name of the
last sort is missing from the first two. -/
theorem listing_has_buried_names {store : Store} {config : FrameConfig} {global : GlobalId}
    {flag : FlagId} {os : List Op} (hos : Lawful 0 (start store config global flag) os)
    (hsharing : (start store config global flag).Sharing os) (hordered : store.Ordered)
    (hdistinct : store.Distinct) (hshare : ∀ st, .share st ∈ os → st.Distinct) (r : ScopeRef)
    (hlive : ∀ k ∈ r.key?,
      (((start store config global flag).run os).engine.frame.scope? k).isSome)
    (hacyclic : ∀ id ∈ ((start store config global flag).run os).engine.mixinsOf r,
      Acc ((start store config global flag).run os).engine.store.Feeds id) :
    let e := ((start store config global flag).run os).engine
    (∀ s slot, e.findOwn? r s = some slot → e.resolve r s = .ok slot) ∧
      ∃ l, e.symbols r false = .ok l ∧
        ∀ s, (s ∈ l ↔ (e.Answers r s ∨ e.Shadows r s) ∨ e.Buries r s) ∧
          ((s ∈ l ↔ e.Answers r s ∨ e.Shadows r s) ↔
            (e.Buries r s → e.Answers r s ∨ e.Shadows r s)) := by
  intro e
  have hm := tracked_start store config global flag
  have howned := (owned_start store config global flag).run hm hos
  have ho : e.store.Ordered := hordered.develop hsharing.develops
  have hd : e.store.Distinct := distinct_run hdistinct hshare
  refine ⟨fun s slot hslot => Engine.resolve_of_findOwn? hslot, ?_⟩
  obtain ⟨l, hl, hmem⟩ := Engine.listed_iff ho hd (howned.present hlive) hacyclic
  refine ⟨l, hl, fun s => ⟨hmem s, ?_⟩⟩
  rw [hmem s]
  constructor
  · exact fun h hburied => h.1 (.inr hburied)
  · exact fun h => ⟨fun hs => hs.elim id h, .inl⟩

/-- Three blocks on the heap of a new frame. -/
def blocks : Machine :=
  let h : HeapScope := { kind := .block, previous := .ofGlobal 0, shape := 0, members := .empty }
  start { shapes := #[.empty], heaps := #[h, h, h], globals := #[{}] } {} 0 0

/-- The third has a public name and is mixed into the second, and the second is
mixed into the first. -/
def nesting : List Op :=
  [.declare (.durable (.ofHeap 2)) ⟨500, by decide⟩ .exposed,
    .mixin (.durable (.ofHeap 1)) (.scope (.ofHeap 2)),
    .mixin (.durable (.ofHeap 0)) (.scope (.ofHeap 1))]

theorem ordered_blocks : blocks.engine.store.Ordered :=
  Store.ordered_of_made Shape.made_empty #[{}]

theorem distinct_blocks : blocks.engine.store.Distinct := by
  intro id g hg
  rw [Store.eq_empty_of_globals rfl hg]
  exact List.nodup_nil

theorem sharing_nesting : blocks.Sharing nesting := ⟨nofun, nofun, nofun, trivial⟩

theorem wellFounded_nesting : WellFounded (blocks.run nesting).engine.store.Feeds :=
  Store.wellFounded_feeds _ (by decide +kernel)

/-- The first block buries the name. -/
theorem buries_nesting :
    (blocks.run nesting).engine.Buries (.durable (.ofHeap 0)) ⟨500, by decide⟩ := by
  have hmixins : (blocks.run nesting).engine.mixinsOf (.durable (.ofHeap 0)) = [1] := by
    decide +kernel
  have hinner : (blocks.run nesting).engine.store.Feeds 0 1 :=
    Store.feeds_iff.2 (by decide +kernel)
  exact ⟨1, by rw [hmixins]; exact List.mem_singleton_self 1, 0, .single hinner, by decide +kernel⟩

theorem listing_of_nested_blocks :
    let e := (blocks.run nesting).engine
    let r : ScopeRef := .durable (.ofHeap 0)
    Lawful 0 blocks nesting ∧ blocks.Sharing nesting ∧ WellFounded e.store.Feeds ∧
      e.Buries r ⟨500, by decide⟩ ∧ ∃ l, e.symbols r false = .ok l ∧ ⟨500, by decide⟩ ∈ l := by
  intro e r
  have hos : Lawful 0 blocks nesting := by decide +kernel
  obtain ⟨-, l, hl, hmem⟩ := listing_has_buried_names hos sharing_nesting ordered_blocks
    distinct_blocks (by simp [nesting]) r nofun fun id _ => wellFounded_nesting.apply id
  exact ⟨hos, sharing_nesting, wellFounded_nesting, buries_nesting, l, hl,
    (hmem _).1.2 (.inr buries_nesting)⟩

/-- The first of the three blocks lists a name that it does not resolve, and no
member of its own is in the way. -/
theorem buried_name_is_not_resolved :
    let e := (blocks.run nesting).engine
    let r : ScopeRef := .durable (.ofHeap 0)
    ¬ ∀ l, e.symbols r false = .ok l → ∀ s, s ∈ l ↔ e.Answers r s ∨ e.Shadows r s := by
  intro e r hclaim
  have ho : e.store.Ordered := ordered_blocks.develop sharing_nesting.develops
  have hd : e.store.Distinct := distinct_run distinct_blocks (by simp [nesting])
  have hpresent : e.Present r := trivial
  obtain ⟨l, hl, hmem⟩ := Engine.listed_iff ho hd hpresent
    fun id _ => wellFounded_nesting.apply id
  have hlisted := (hmem ⟨500, by decide⟩).2 (.inr buries_nesting)
  have hresolved := (Engine.answers_or_shadows hpresent).1 ((hclaim l hl _).1 hlisted)
  have hnone : ¬ ((e.ownMember? r ⟨500, by decide⟩).any Slot.isPublic ∨
      ∃ id ∈ e.mixinsOf r, (e.store.sourceMember? id ⟨500, by decide⟩).isSome) := by
    decide +kernel
  exact hnone hresolved

end Machine

end ScriptCore

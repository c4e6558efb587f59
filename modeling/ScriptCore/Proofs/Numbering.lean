import ScriptCore.Proofs.Machine
import ScriptCore.Proofs.Threshold

/-!
# Shared shapes only grow

Activations that share a shape disagree about everything but the numbers of
its symbols. Each may have a symbol created, at any time and in any order, and
what keeps them from being in each other's way is that the list a shape stands
for is only appended to. So a number that was given once is good for as long as
the shape is there, whoever asked for it.

`Develops` says this of the shapes of a store, between any two moments. Every
operation of a frame keeps to it. What other threads and the host do to shared
state is a step of its own, `share`; of these steps it has to be assumed, and
it is all that is assumed of them.
-/

namespace ScriptCore

/-! ## One shape -/

namespace Shape

variable {s s' s'' : Shape} {l : List Symbol} {x : Symbol} {i : Nat}

theorem Lists.get?_eq_some_iff (h : s.Lists l) : s.get? x = some i ↔ l[i]? = some x :=
  h.holds.get?_eq_some_iff.trans mem_numbered

/-- The shape gives each symbol of the list its position, and its load leaves
room in every bucket array. -/
structure Numbers (s : Shape) (l : List Symbol) : Prop where
  lists : s.Lists l
  load : ∀ c ∈ Capacity.primes, threshold c s.load < c

theorem numbers_of_new
    (hnew : s = empty ∨ ∃ requested load, ofCapacity? requested load = .ok s) :
    s.Numbers [] := by
  refine ⟨lists_of_new hnew, threshold_lt ?_⟩
  rcases hnew with rfl | ⟨requested, load, hok⟩
  · decide +kernel
  · obtain ⟨rfl, hload, -⟩ := ofCapacity?_eq_ok hok
    exact hload

/-- Creating a symbol appends to the list at most, and answers with a position
that has the symbol. -/
theorem Numbers.create (h : s.Numbers l) (hcreate : s.create x = .ok (i, s')) :
    ∃ l', s'.Numbers l' ∧ l <+: l' ∧ l'[i]? = some x := by
  by_cases hx : x ∈ l
  · rw [h.lists.create_of_mem hx] at hcreate
    cases hcreate
    exact ⟨l, h, List.prefix_rfl, List.getElem?_idxOf hx⟩
  · rcases h.lists.create_of_not_mem h.load hx with ⟨s₁, hok, hload, hlists⟩ | ⟨last, herr, -⟩
    · rw [hcreate] at hok
      cases hok
      refine ⟨l ++ [x], ⟨hlists, hload ▸ h.load⟩, List.prefix_append _ _, ?_⟩
      exact List.getElem?_concat_length
    · rw [hcreate] at herr
      cases herr

theorem createAll_cons_ok {syms : List Symbol} {slots : List Nat}
    (h : s.createAll (x :: syms) = .ok (slots, s'')) :
    ∃ i s' rest, s.create x = .ok (i, s') ∧ s'.createAll syms = .ok (rest, s'') ∧
      slots = i :: rest := by
  rw [createAll] at h
  cases hc : s.create x with
  | error f =>
      rw [hc] at h
      cases h
  | ok p =>
      obtain ⟨i, s'⟩ := p
      rw [hc] at h
      cases hr : s'.createAll syms with
      | error f =>
          simp only [bind, Except.bind, hr] at h
          cases h
      | ok q =>
          simp only [bind, Except.bind, hr] at h
          cases h
          exact ⟨i, s', q.1, rfl, hr, rfl⟩

theorem Numbers.createAll {syms : List Symbol} {slots : List Nat} (h : s.Numbers l)
    (hall : s.createAll syms = .ok (slots, s')) : ∃ l', s'.Numbers l' ∧ l <+: l' := by
  induction syms generalizing s l slots with
  | nil =>
      cases hall
      exact ⟨l, h, List.prefix_rfl⟩
  | cons x syms ih =>
      obtain ⟨i, s₁, rest, hcreate, hrest, -⟩ := createAll_cons_ok hall
      obtain ⟨l₁, h₁, hpre, -⟩ := h.create hcreate
      obtain ⟨l₂, h₂, hpre'⟩ := ih h₁ hrest
      exact ⟨l₂, h₂, hpre.trans hpre'⟩

theorem createAll_append {syms more : List Symbol} {slots slots' : List Nat}
    (h : s.createAll syms = .ok (slots, s')) (h' : s'.createAll more = .ok (slots', s'')) :
    s.createAll (syms ++ more) = .ok (slots ++ slots', s'') := by
  induction syms generalizing s slots with
  | nil =>
      cases h
      exact h'
  | cons x syms ih =>
      obtain ⟨i, s₁, rest, hcreate, hrest, rfl⟩ := createAll_cons_ok h
      have hall := ih hrest
      rw [List.cons_append, createAll, hcreate]
      simp only [bind, Except.bind, hall]
      rfl

theorem createAll_singleton (h : s.create x = .ok (i, s')) : s.createAll [x] = .ok ([i], s') := by
  rw [createAll, h]
  rfl

/-- Shapes as they come about: made empty, and then asked for symbols. -/
def Made (s : Shape) : Prop :=
  ∃ s₀ syms slots, (s₀ = empty ∨ ∃ requested load, ofCapacity? requested load = .ok s₀) ∧
    s₀.createAll syms = .ok (slots, s)

theorem made_empty : empty.Made := ⟨empty, [], [], .inl rfl, rfl⟩

theorem Made.numbers (h : s.Made) : ∃ l, s.Numbers l := by
  obtain ⟨s₀, syms, slots, hnew, hall⟩ := h
  obtain ⟨l, hl, -⟩ := (numbers_of_new hnew).createAll hall
  exact ⟨l, hl⟩

theorem Made.createAll {syms : List Symbol} {slots : List Nat} (h : s.Made)
    (hall : s.createAll syms = .ok (slots, s')) : s'.Made := by
  obtain ⟨s₀, syms₀, slots₀, hnew, hall₀⟩ := h
  exact ⟨s₀, _, _, hnew, createAll_append hall₀ hall⟩

end Shape

/-! ## The shapes of a store -/

namespace Store

variable {st st' st'' : Store} {id : ShapeId} {l : List Symbol} {x : Symbol}

/-- Every shape of the store came about as shapes do. -/
def Ordered (st : Store) : Prop := ∀ (id : ShapeId) sh, st.shapes[id]? = some sh → sh.Made

theorem ordered_of_made {sh : Shape} (h : sh.Made) (globals : Array GlobalScope) :
    Ordered { shapes := #[sh], globals } := by
  intro id sh' hsh
  obtain ⟨hlt, rfl⟩ := Array.getElem?_eq_some_iff.1 hsh
  have hid : id = 0 := Nat.lt_one_iff.1 hlt
  subst hid
  exact h

/-- From one store to the other, shapes were asked for symbols and new shapes
were made. -/
structure Develops (st st' : Store) : Prop where
  old : ∀ (id : ShapeId) sh, st.shapes[id]? = some sh →
    ∃ syms slots sh', sh.createAll syms = .ok (slots, sh') ∧ st'.shapes[id]? = some sh'
  new : ∀ (id : ShapeId) sh, st.shapes[id]? = none → st'.shapes[id]? = some sh → sh.Made

theorem develops_of_shapes_eq (h : st'.shapes = st.shapes) : st.Develops st' where
  old := fun _ sh hsh => ⟨[], [], sh, rfl, h ▸ hsh⟩
  new := by
    intro id sh hnone hsome
    rw [h, hnone] at hsome
    cases hsome

theorem Develops.refl (st : Store) : st.Develops st := develops_of_shapes_eq rfl

theorem Develops.trans (h : st.Develops st') (h' : st'.Develops st'') : st.Develops st'' where
  old := by
    intro id sh hsh
    obtain ⟨syms, slots, sh₁, hall, hsh₁⟩ := h.old id sh hsh
    obtain ⟨syms', slots', sh₂, hall', hsh₂⟩ := h'.old id sh₁ hsh₁
    exact ⟨_, _, sh₂, Shape.createAll_append hall hall', hsh₂⟩
  new := by
    intro id sh hnone hsome
    cases hmid : st'.shapes[id]? with
    | none => exact h'.new id sh hmid hsome
    | some sh₁ =>
        obtain ⟨syms, slots, sh₂, hall, hsh₂⟩ := h'.old id sh₁ hmid
        rw [hsome] at hsh₂
        cases hsh₂
        exact (h.new id sh₁ hnone hmid).createAll hall

theorem Ordered.develop (ho : st.Ordered) (h : st.Develops st') : st'.Ordered := by
  intro id sh hsh
  cases hold : st.shapes[id]? with
  | none => exact h.new id sh hold hsh
  | some sh₀ =>
      obtain ⟨syms, slots, sh₁, hall, hsh₁⟩ := h.old id sh₀ hold
      rw [hsh] at hsh₁
      cases hsh₁
      exact (ho id sh₀ hold).createAll hall

/-- The shape at a position numbers the list; where there is none, it numbers
nothing. -/
def Numbers (st : Store) (id : ShapeId) (l : List Symbol) : Prop :=
  (∃ sh, st.shapes[id]? = some sh ∧ sh.Numbers l) ∨ st.shapes[id]? = none ∧ l = []

theorem Ordered.numbers (ho : st.Ordered) (id : ShapeId) : ∃ l, st.Numbers id l := by
  cases h : st.shapes[id]? with
  | none => exact ⟨[], .inr ⟨h, rfl⟩⟩
  | some sh =>
      obtain ⟨l, hl⟩ := (ho id sh h).numbers
      exact ⟨l, .inl ⟨sh, h, hl⟩⟩

theorem Numbers.slotOf?_eq_some_iff (h : st.Numbers id l) {i : Nat} :
    st.slotOf? id x = some i ↔ l[i]? = some x := by
  unfold slotOf?
  rcases h with ⟨sh, hsh, hl⟩ | ⟨hnone, rfl⟩
  · rw [hsh]
    exact hl.lists.get?_eq_some_iff
  · rw [hnone]
    simp

theorem Numbers.shapeSize (h : st.Numbers id l) : st.shapeSize id = l.length := by
  unfold Store.shapeSize
  rcases h with ⟨sh, hsh, hl⟩ | ⟨hnone, rfl⟩
  · rw [hsh]
    exact hl.lists.size
  · rw [hnone]
    rfl

/-- As the store develops, numbers are added and none is taken back. -/
theorem Numbers.develop (h : st.Numbers id l) (hd : st.Develops st') :
    ∃ l', st'.Numbers id l' ∧ l <+: l' := by
  rcases h with ⟨sh, hsh, hl⟩ | ⟨hnone, rfl⟩
  · obtain ⟨syms, slots, sh', hall, hsh'⟩ := hd.old id sh hsh
    obtain ⟨l', hl', hpre⟩ := hl.createAll hall
    exact ⟨l', .inl ⟨sh', hsh', hl'⟩, hpre⟩
  · cases hsome : st'.shapes[id]? with
    | none => exact ⟨[], .inr ⟨hsome, rfl⟩, List.prefix_rfl⟩
    | some sh =>
        obtain ⟨l', hl'⟩ := (hd.new id sh hnone hsome).numbers
        exact ⟨l', .inl ⟨sh, hsome, hl'⟩, List.nil_prefix⟩

/-! ## What an operation does to the shapes -/

/-- A symbol that is created in a shape of the store changes this one shape; a
shape that cannot take it stays as it is. -/
theorem createSlot_cases (st : Store) (id : ShapeId) (x : Symbol) :
    (∃ fault, st.createSlot id x = (.error fault, st)) ∨
      ∃ sh sh' i, st.shapes[id]? = some sh ∧ sh.create x = .ok (i, sh') ∧
        st.createSlot id x = (.ok i, { st with shapes := st.shapes.setIfInBounds id sh' }) := by
  unfold createSlot
  cases hsh : st.shapes[id]? with
  | none => exact .inl ⟨_, rfl⟩
  | some sh =>
      simp only
      cases hc : sh.create x with
      | error fault => exact .inl ⟨fault, rfl⟩
      | ok p => exact .inr ⟨sh, p.2, p.1, rfl, hc, rfl⟩

theorem getElem?_shapes_setIfInBounds {sh : Shape} (hsh : st.shapes[id]? = some sh) (sh' : Shape) :
    (st.shapes.setIfInBounds id sh')[id]? = some sh' := by
  rw [Array.getElem?_setIfInBounds, if_pos rfl, if_pos (Array.getElem?_eq_some_iff.1 hsh).1]

theorem develops_createSlot (st : Store) (id : ShapeId) (x : Symbol) :
    st.Develops (st.createSlot id x).2 := by
  rcases st.createSlot_cases id x with ⟨fault, he⟩ | ⟨sh, sh', i, hsh, hcreate, he⟩
  · rw [he]
    exact .refl st
  · rw [he]
    constructor
    · intro j old hold
      by_cases hj : id = j
      · subst hj
        rw [hsh] at hold
        cases hold
        exact ⟨[x], [i], sh', Shape.createAll_singleton hcreate,
          getElem?_shapes_setIfInBounds hsh sh'⟩
      · refine ⟨[], [], old, rfl, ?_⟩
        simp only [Array.getElem?_setIfInBounds, if_neg hj]
        exact hold
    · intro j new hnone hsome
      have hj : id ≠ j := by
        rintro rfl
        rw [hsh] at hnone
        cases hnone
      simp only [Array.getElem?_setIfInBounds, if_neg hj] at hsome
      rw [hnone] at hsome
      cases hsome

theorem Numbers.createSlot {i : Nat} (h : st.Numbers id l)
    (hcreate : (st.createSlot id x).1 = .ok i) :
    ∃ l', (st.createSlot id x).2.Numbers id l' ∧ l <+: l' ∧ l'[i]? = some x := by
  rcases st.createSlot_cases id x with ⟨fault, he⟩ | ⟨sh, sh', j, hsh, hj, he⟩
  · rw [he] at hcreate
    cases hcreate
  · rw [he] at hcreate ⊢
    cases hcreate
    rcases h with ⟨sh₀, hsh₀, hl⟩ | ⟨hnone, -⟩
    · rw [hsh] at hsh₀
      cases hsh₀
      obtain ⟨l', hl', hpre, hget⟩ := hl.create hj
      exact ⟨l', .inl ⟨sh', getElem?_shapes_setIfInBounds hsh sh', hl'⟩, hpre, hget⟩
    · rw [hsh] at hnone
      cases hnone

/-- A symbol that has a number keeps it. -/
theorem Numbers.createSlot_of_mem {i : Nat} (h : st.Numbers id l) (hi : l[i]? = some x) :
    (st.createSlot id x).1 = .ok i := by
  rcases h with ⟨sh, hsh, hl⟩ | ⟨-, rfl⟩
  · have hx : x ∈ l := List.mem_of_getElem? hi
    have hsame : some (l.idxOf x) = some i :=
      (hl.lists.get?_eq_some_iff.2 (List.getElem?_idxOf hx)).symm.trans
        (hl.lists.get?_eq_some_iff.2 hi)
    unfold Store.createSlot
    simp only [hsh, hl.lists.create_of_mem hx, Option.some.inj hsame]
  · cases hi

theorem develops_declare (st : Store) (d : DurableScope) (x : Symbol) (a : Attributes) :
    st.Develops (st.declare d x a).2 := by
  unfold declare
  split
  · exact .refl st
  · split
    · exact .refl st
    · next id h hid =>
        have hcreate := st.develops_createSlot h.shape x
        split
        · next fault st₁ he =>
            rw [he] at hcreate
            exact hcreate
        · next i st₁ he =>
            rw [he] at hcreate
            split
            · exact hcreate
            · dsimp only
              split
              · exact hcreate.trans (develops_of_shapes_eq rfl)
              · exact hcreate.trans (develops_of_shapes_eq rfl)
  · split
    · exact .refl st
    · dsimp only
      split
      · exact .refl st
      · exact develops_of_shapes_eq rfl

theorem shapes_assign (st : Store) (slot : SlotRef) (v : Value) :
    (st.assign slot v).2.shapes = st.shapes := by
  have hheap : ∀ id i x, (st.assignHeap id i x v).2.shapes = st.shapes := by
    intro id i x
    unfold assignHeap
    split
    · rfl
    · split
      · rfl
      · dsimp only
        split <;> rfl
  have hglobal : ∀ id x, (st.assignGlobal id x v).2.shapes = st.shapes := by
    intro id x
    unfold assignGlobal
    split
    · rfl
    · split
      · rfl
      · split <;> rfl
  have hpublic : ∀ d x, (st.assignPublic d x v).2.shapes = st.shapes := by
    intro d x
    unfold assignPublic
    split
    · rfl
    · exact hglobal _ x
    · split
      · rfl
      · split
        · rfl
        · split
          · split <;> rfl
          · rfl
  cases slot with
  | heap id i x => exact hheap id i x
  | global id x => exact hglobal id x
  | mixin id x =>
      show (st.assignSource id x v).2.shapes = st.shapes
      unfold assignSource
      split
      · exact hpublic _ x
      · rfl
  | frozen f i x => rfl
  | pooled t i x => rfl

theorem shapes_mixin {d : DurableScope} {source : SourceId} (h : st.mixin d source = .ok st') :
    st'.shapes = st.shapes := by
  unfold mixin at h
  split at h
  · cases h
  · split at h <;> cases h <;> rfl
  · split at h <;> cases h <;> rfl

end Store

namespace Op

/-- An operation of the frame develops the shapes, whatever it is. Of a change
of shared state from elsewhere this is assumed. -/
theorem develops_perform (e : Engine) (o : Op)
    (hshare : ∀ st, o = .share st → e.store.Develops st) :
    e.store.Develops (o.perform e).store := by
  cases o with
  | declare r x a =>
      show e.store.Develops (e.declare r x a).2.store
      obtain ⟨store, frame⟩ := e
      unfold Engine.declare
      split
      · exact store.develops_declare _ x a
      · split
        · exact .refl store
        · next own _ =>
            have hcreate := store.develops_createSlot own.shape x
            dsimp only
            split
            · next fault st₁ he =>
                rw [he] at hcreate
                exact hcreate
            · next i st₁ he =>
                rw [he] at hcreate
                split
                · exact hcreate
                · split
                  · exact hcreate
                  · split <;> exact hcreate
  | assign slot v =>
      show e.store.Develops (e.assign slot v).2.store
      obtain ⟨store, frame⟩ := e
      unfold Engine.assign
      split
      · split
        · exact .refl store
        · dsimp only
          split
          · exact .refl store
          · split <;> exact .refl store
      · exact Store.develops_of_shapes_eq (store.shapes_assign _ v)
  | mixin r source =>
      show e.store.Develops (e.mixin r source).2.store
      unfold Engine.mixin
      split
      · split
        · exact .refl e.store
        · next st hst =>
            have hshapes : st.shapes = e.store.shapes := Store.shapes_mixin hst
            exact Store.develops_of_shapes_eq hshapes
      · split
        · exact .refl e.store
        · exact Store.develops_of_shapes_eq rfl
  | setLine r line =>
      show e.store.Develops (e.setLine r line).2.store
      obtain ⟨store, frame⟩ := e
      unfold Engine.setLine
      split
      · exact .refl store
      · cases r <;> exact .refl store
  | share st => exact hshare st rfl
  | _ => exact .refl e.store

end Op

/-! ## Every run -/

namespace Machine

/-- What happens to shared state outside the frame develops its shapes. -/
def Sharing (m : Machine) : List Op → Prop
  | [] => True
  | o :: os => (∀ st, o = .share st → m.engine.store.Develops st) ∧ (m.after o).Sharing os

variable {m : Machine} {os : List Op}

theorem Sharing.develops (h : m.Sharing os) : m.engine.store.Develops (m.run os).engine.store := by
  induction os generalizing m with
  | nil => exact .refl _
  | cons o os ih => exact (o.develops_perform m.engine h.1).trans (ih h.2)

end Machine

end ScriptCore

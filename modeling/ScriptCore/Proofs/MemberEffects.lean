import ScriptCore.Proofs.Records
import ScriptCore.Proofs.Writes

/-!
# What declaring and storing change

In every state that a run leads to, declaring a symbol and storing in a slot
change one member each, and what is refused changes nothing. That a write
reaches one storage is so in every state. What takes a run is that a storage is
one member, and that a slot which somebody holds is in its row.

The first rests on who owns what, since a table that two scopes had would show
one slot under two names. The second is about slots that were found at some
time and used at another. The row they are in belongs to a scope and only gets
longer while it lasts; once the scope is given back, the key of the table is
stale. And where a slot names a source and a symbol, the shape of the source
has a number for the symbol, and keeps it.
-/

namespace ScriptCore

/-! ## Rows get longer -/

theorem MemberTable.Writes.le_size {t t' : MemberTable} {i : Nat} (h : t.Writes i t') :
    t.size ≤ t'.size := by
  have hrow := t.size_materialize i
  rcases h with rfl | ⟨slot, rfl⟩
  · omega
  · rw [size_setSlot]
    omega

namespace Block

variable {b : Block} {m : Machine} {o : Op} {os : List Op} {base : Nat} {shape : ShapeId}
  {t : MemberTable}

/-- One operation makes the row of a block longer, if it does anything to it. -/
theorem Has.grows_after (h : b.Has m.engine shape t) (hm : m.Tracked) (hw : m.Owned)
    (ho : Machine.Allows base m o) (hr : m.Respects o) (hlast : b.Lasts m (m.after o)) :
    ∃ t', b.Has (m.after o).engine shape t' ∧ t.size ≤ t'.size := by
  cases haddressed : b.addressed? m.engine o with
  | none => exact ⟨t, h.after_other hm hw ho hr hlast haddressed, Nat.le_refl _⟩
  | some act =>
      cases o with
      | declare r s a =>
          simp only [addressed?] at haddressed
          split at haddressed
          · next hat =>
              obtain rfl := isAt_iff.1 hat
              obtain ⟨-, ⟨-, -, hhas⟩ | ⟨i, -, -, hhas⟩⟩ := h.declare s a
              · exact ⟨t, hhas, Nat.le_refl _⟩
              · exact ⟨_, hhas, (t.writes_declareAt i s a).le_size⟩
          · cases haddressed
      | assign ref v =>
          simp only [addressed?] at haddressed
          split at haddressed
          · next hholds =>
              obtain ⟨i, s, rfl⟩ := holds_iff.1 hholds
              cases hfits : t.fits (i + 1) with
              | true =>
                  obtain ⟨-, -, hhas⟩ := h.assign hfits s v
                  exact ⟨_, hhas, (t.writes_assignAt i s v).le_size⟩
              | false =>
                  have hsame := h.assign_of_full hfits s v
                  refine ⟨t, ?_, Nat.le_refl _⟩
                  show b.Has (m.engine.assign (b.slot i s) v).2 shape t
                  rw [hsame]
                  exact h
          · split at haddressed
            · next hfeeds =>
                obtain ⟨source, s, d, rfl, hsource, hd⟩ := feeds_iff.1 hfeeds
                obtain ⟨-, ⟨i, -, -, -, -, hhas⟩ | ⟨-, -, hhas⟩⟩ := h.assignPublic hsource hd s v
                · exact ⟨_, hhas, (t.writes_assignAt i s v).le_size⟩
                · exact ⟨t, hhas, Nat.le_refl _⟩
            · cases haddressed
      | _ => cases haddressed

theorem Has.grows_run (h : b.Has m.engine shape t) (hm : m.Tracked) (hw : m.Owned)
    (hos : Machine.Lawful base m os) (hr : m.Respectful os) (hlast : b.Lasts m (m.run os)) :
    ∃ t', b.Has (m.run os).engine shape t' ∧ t.size ≤ t'.size := by
  induction os generalizing m t with
  | nil => exact ⟨t, h, Nat.le_refl _⟩
  | cons o os ih =>
      obtain ⟨hone, hrest⟩ := hlast.cons
      obtain ⟨t₁, h₁, hle⟩ := h.grows_after hm hw hos.1 hr.1 hone
      obtain ⟨t₂, h₂, hle'⟩ := ih h₁ (hm.after o) (hw.after hm hos.1) hos.2 hr.2 hrest
      exact ⟨t₂, h₂, Nat.le_trans hle hle'⟩

end Block

namespace Machine

variable {m : Machine} {o : Op} {os past later : List Op} {base : Nat} {k t : PoolKey}
  {home : Option Nat}

/-- While a table lasts, so does the scope it belongs to. -/
theorem lastsScope_of_lastsTable (hm : m.Tracked) (hw : m.Owned) (hos : Lawful base m os)
    (h : m.LastsTable (m.run os) t)
    (hk : m.engine.frame.books.scopes k = some (home, some t)) : m.LastsScope (m.run os) k := by
  have hlive : (m.engine.frame.scopes.entry? k).isSome := by
    rw [isSome_scopes_iff, hk]
    rfl
  induction os generalizing m with
  | nil => exact ⟨hlive, rfl⟩
  | cons o os ih =>
      obtain ⟨⟨w, hwt⟩, hrest⟩ := h.cons
      have hk' := owner_after hm hw hos.1 hk (Option.isSome_iff_exists.2 ⟨w, hwt⟩)
      have hlive' : ((m.after o).engine.frame.scopes.entry? k).isSome := by
        rw [isSome_scopes_iff, hk']
        rfl
      have hlater := ih (hm.after o) (hw.after hm hos.1) hos.2 hrest hk' hlive'
      exact (lastsScope_after hlive hlive').trans hlater

end Machine

/-! ## Slots that were found -/

namespace Engine

variable {e : Engine} {r : ScopeRef} {s : Symbol} {ref : SlotRef} {d : DurableScope}

/-- The shape of a source has a number for what is public in it. -/
theorem isSome_slotOf?_of_public {shape : ShapeId} {st : Store}
    (hshape : st.shapeOf? d = some shape) (h : (st.publicMember? d s).isSome) :
    (st.slotOf? shape s).isSome := by
  have hrow : ∀ slots, (st.publicValue? shape slots s).isSome → (st.slotOf? shape s).isSome := by
    intro slots hvalue
    rw [Store.publicValue?] at hvalue
    cases hi : st.slotOf? shape s with
    | none => rw [hi] at hvalue; cases hvalue
    | some i => rfl
  obtain ⟨_ | ⟨f, frozen⟩, id | id⟩ := d
  · obtain ⟨x, hx, rfl⟩ := Option.map_eq_some_iff.1 hshape
    simp only [Store.publicMember?, hx, Option.bind_some] at h
    exact hrow _ h
  · cases hshape
  all_goals
    cases hshape
    exact hrow _ h

theorem backed_of_resolve (h : e.resolve r s = .ok ref) : e.Backed ref := by
  have hlt : ∀ {shape : ShapeId} {row : MemberTable} {i : Nat},
      e.store.ownIndex? shape row.slots s = some i → i < row.size := by
    intro shape row i hi
    obtain ⟨slot, hslot, -⟩ := (Option.any_eq_true _ _).1 (Option.filter_eq_some_iff.1 hi).2
    exact (Array.getElem?_eq_some_iff.1 hslot).1
  cases ref with
  | pooled t i x =>
      obtain ⟨-, k, own, row, -, -, ht, hi⟩ := own_of_resolve h
      intro row' ht'
      rw [ht] at ht'
      cases ht'
      exact hlt hi
  | heap id i x =>
      obtain ⟨-, y, hid, hi⟩ := own_of_resolve_heap h
      intro y' hid'
      rw [hid] at hid'
      cases hid'
      exact hlt hi
  | mixin source x =>
      obtain ⟨rfl, hsome⟩ := exposed_of_resolve h
      intro d shape hsource hshape
      simp only [Store.sourceMember?, hsource] at hsome
      exact isSome_slotOf?_of_public hshape hsome
  | frozen f i x => trivial
  | global id x => trivial

end Engine

namespace Machine

variable {m : Machine} {o : Op} {os past later : List Op} {base : Nat} {ref : SlotRef}

/-- What an operation does with state that is not its own, sources of mixed-in
members included: what happens to these elsewhere leaves them where they are. -/
structure Observes (m : Machine) (o : Op) : Prop extends m.Respects o where
  sources : ∀ st, o = .share st → ∀ (id : SourceId) source,
    m.engine.store.sources[id]? = some source → st.sources[id]? = some source

def Observant (m : Machine) : List Op → Prop
  | [] => True
  | o :: os => m.Observes o ∧ (m.after o).Observant os

theorem observant_append :
    m.Observant (past ++ later) ↔ m.Observant past ∧ (m.run past).Observant later := by
  induction past generalizing m with
  | nil => exact (and_iff_right trivial).symm
  | cons o os ih => exact (and_congr_right fun _ => ih).trans and_assoc.symm

theorem Observant.respectful (h : m.Observant os) : m.Respectful os := by
  induction os generalizing m with
  | nil => trivial
  | cons o os ih => exact ⟨h.1.toRespects, ih h.2⟩

theorem Observes.source {id : SourceId} {source : MemberSource} (h : m.Observes o)
    (hid : m.engine.store.sources[id]? = some source) :
    (m.after o).engine.store.sources[id]? = some source := by
  by_cases hshare : ∃ st, o = .share st
  · obtain ⟨st, rfl⟩ := hshare
    exact h.sources st rfl id source hid
  · exact (o.continues_perform m.engine fun st hst => hshare ⟨st, hst⟩).sources id source hid

theorem Observant.source {id : SourceId} {source : MemberSource} (h : m.Observant os)
    (hid : m.engine.store.sources[id]? = some source) :
    (m.run os).engine.store.sources[id]? = some source := by
  induction os generalizing m with
  | nil => exact hid
  | cons o os ih => exact ih h.2 (h.1.source hid)

/-- A lookup has found the slot at some point of the run, and if it is one of a
table, the index of the table was not taken back 2^32 times since. The slot that
a declaration answers with is found by a lookup right after. -/
def Knows (m : Machine) (os : List Op) (ref : SlotRef) : Prop :=
  ∃ past later, os = past ++ later ∧ (∃ r s, (m.run past).engine.resolve r s = .ok ref) ∧
    ∀ t i s, ref = .pooled t i s →
      (m.run os).tableReleases t.index < (m.run past).tableReleases t.index + 4294967296

/-- A slot that was found is backed for as long as it is known. -/
theorem Knows.backed (h : m.Knows os ref) (hm : m.Tracked) (hw : m.Owned)
    (hord : m.engine.store.Ordered) (hos : Lawful base m os) (hobs : m.Observant os) :
    (m.run os).engine.Backed ref := by
  obtain ⟨past, later, rfl, ⟨r, s, hres⟩, hyoung⟩ := h
  obtain ⟨hpast, hlater⟩ := lawful_append.1 hos
  obtain ⟨hobspast, hobslater⟩ := observant_append.1 hobs
  have hm' := hm.run past
  have hw' := hw.run hm hpast
  have hbacked := Engine.backed_of_resolve hres
  rw [run_append] at hyoung ⊢
  cases ref with
  | frozen f i x => trivial
  | global id x => trivial
  | pooled t i x =>
      obtain ⟨-, k, own, row, hown, rfl, ht, -⟩ := Engine.own_of_resolve hres
      intro row' ht'
      -- the table is live before and after, and not too old, so it has lasted
      have hlive := Frame.isSome_of_getTable (Frame.getTable_of_get? ht)
      have hlive' := Frame.isSome_of_getTable (Frame.getTable_of_get? ht')
      have hissued := issuedTable_run later (Handle.issued_of_live hm'.tableCounts hlive)
      have hcurrent := hissued.current (hm'.run later).tableCounts (hyoung _ i x rfl) hlive'
      have hlast : (m.run past).LastsTable ((m.run past).run later) own.members :=
        ⟨hlive, hcurrent.symm⟩
      obtain ⟨home, hk⟩ := Frame.scopes_books_of_scope? hown
      have hscope := lastsScope_of_lastsTable hm' hw' hlater hlast hk
      have hhas : (Block.pooled k own.members).Has (m.run past).engine own.shape row :=
        ⟨own, hown, rfl, rfl, ht⟩
      obtain ⟨row'', ⟨-, -, -, -, ht''⟩, hle⟩ :=
        hhas.grows_run hm' hw' hlater hobslater.respectful hscope.2
      rw [ht'] at ht''
      cases ht''
      exact Nat.lt_of_lt_of_le (hbacked row ht) hle
  | heap id i x =>
      obtain ⟨-, y, hid, -⟩ := Engine.own_of_resolve_heap hres
      intro z hz
      have hhas : (Block.heap id).Has (m.run past).engine y.shape y.members := ⟨y, hid, rfl, rfl⟩
      obtain ⟨row, ⟨z', hz', -, hrow⟩, hle⟩ :=
        hhas.grows_run hm' hw' hlater hobslater.respectful trivial
      rw [hz] at hz'
      cases hz'
      rw [hrow]
      exact Nat.lt_of_lt_of_le (hbacked y hid) hle
  | mixin source x =>
      obtain ⟨-, hsome⟩ := Engine.exposed_of_resolve hres
      intro d shape hsource hshape
      have hord' := hord.develop hobspast.respectful.sharing.develops
      have hdevelops := hobslater.respectful.sharing.develops
      -- the source is still the one it was, and so is its shape
      have hsource' : (m.run past).engine.store.sources[source]? = some (.scope d) := by
        cases hold : (m.run past).engine.store.sources[source]? with
        | none =>
            simp only [Store.sourceMember?, hold] at hsome
            cases hsome
        | some src =>
            rw [hobslater.source hold] at hsource
            exact hsource
      have hshape' : (m.run past).engine.store.shapeOf? d = some shape := by
        obtain ⟨_ | ⟨f, frozen⟩, id | id⟩ := d
        · cases hid : (m.run past).engine.store.heaps[id]? with
          | none =>
              simp only [Store.sourceMember?, hsource', Store.publicMember?, hid] at hsome
              cases hsome
          | some y =>
              have hhas : (Block.heap id).Has (m.run past).engine y.shape y.members :=
                ⟨y, hid, rfl, rfl⟩
              obtain ⟨row, ⟨z, hz, hsame, -⟩, -⟩ :=
                hhas.grows_run hm' hw' hlater hobslater.respectful trivial
              simp only [Store.shapeOf?, hz, Option.map_some, hsame] at hshape
              simp only [Store.shapeOf?, hid, Option.map_some, hshape]
        · cases hshape
        all_goals exact hshape
      obtain ⟨i, hi⟩ := Option.isSome_iff_exists.1 (hbacked d shape hsource' hshape')
      rw [hdevelops.slotOf? hord' hi]
      rfl

end Machine

/-! ## The effect -/

theorem Outcome.eq_of_isDone {o : Outcome Unit} (h : o.isDone = true) : o = .done () := by
  cases o with
  | done a => rfl
  | raised err => cases h
  | panicked => cases h

namespace Engine

variable {e e' : Engine} {r : ScopeRef} {s : Symbol} {ref : SlotRef} {p : Storage} {slot : Slot}
  {a : Attributes} {v : Value} {err : EvalError} {known : SlotRef → Prop}

/-- A slot that a lookup finds reads what is stored. -/
theorem load_of_resolve (h : e.resolve r s = .ok ref) (hp : e.storage? ref = some p)
    (hslot : e.slotIn? p = some slot) : e.load ref = .ok slot.value := by
  refine load_of_slotIn? hp hslot fun source x href => ?_
  subst href
  obtain ⟨rfl, hsome⟩ := exposed_of_resolve h
  simp only [storage?] at hp
  split at hp
  · next d hd =>
      have hfrozen := Store.frozen_eq_nil_of_storageOf? hp
      simp only [Store.sourceMember?, hd, publicMember?_eq_slotIn? hfrozen, hp, Option.bind_some,
        hslot, Option.isSome_map, Option.isSome_filter, Option.any_some] at hsome
      exact hsome
  · cases hp

/-- A slot that is backed is numbered as it was when symbols were only added. -/
theorem Backed.numbersAlike (hb : e.Backed ref) (ho : e.store.Ordered)
    (hd : e.store.Develops e'.store) : e.NumbersAlike e' ref := by
  intro source s d shape href hsource hshape
  subst href
  obtain ⟨i, hi⟩ := Option.isSome_iff_exists.1 (hb d shape hsource hshape)
  rw [hi, hd.slotOf? ho hi]

/-- A symbol was declared in a scope. It is looked up there, whatever else has
the name, and starts over with its attributes and no value. -/
structure Declared (e e' : Engine) (known : SlotRef → Prop) (r : ScopeRef) (s : Symbol)
    (a : Attributes) (ref : SlotRef) (p : Storage) : Prop where
  storage : e'.storage? ref = some p
  stored : e'.slotIn? p = some { attributes := some a }
  resolve : e'.resolve r s = .ok ref
  load : e'.load ref = .ok .undefined
  elsewhere : ∀ q, q ≠ p → e'.slotIn? q = e.slotIn? q
  loads : ∀ other, known other → e.storage? other ≠ some p → e'.load other = e.load other
  lookups : ∀ r' x, x ≠ s → e'.resolve r' x = e.resolve r' x

/-- A value was stored in a slot. It is read through the slot, unless that was
found in a source where the member is not public any more, and through whatever
a new lookup finds of the member. -/
structure Stored (e e' : Engine) (ref : SlotRef) (v : Value) (p : Storage) : Prop where
  storage : e.storage? ref = some p
  stored : ∃ slot slot', e.slotIn? p = some slot ∧ slot.assign v = .ok slot' ∧
    e'.slotIn? p = some slot'
  load : (∀ source x, ref = .mixin source x → (e.slotIn? p).any Slot.isPublic = true) →
    e'.load ref = .ok v
  fresh : ∀ r x ref', e'.resolve r x = .ok ref' → e'.storage? ref' = some p →
    e'.load ref' = .ok v
  elsewhere : ∀ q, q ≠ p → e'.slotIn? q = e.slotIn? q
  loads : ∀ other, e.storage? other ≠ some p → e'.load other = e.load other
  lookups : ∀ r x, e'.resolve r x = e.resolve r x

theorem declared_of_declare (ho : e.store.Ordered)
    (hsole : ∀ k k' own own', e.frame.scope? k = some own → e.frame.scope? k' = some own' →
      own.members = own'.members → k = k')
    (hknown : ∀ other, known other → e.Backed other)
    (h : e.declare r s a = (.done ref, e')) : ∃ p, e.Declared e' known r s a ref p := by
  obtain ⟨p, hstorage, hplace, hwrote, hresolve, hnum⟩ := wrote_of_declare ho h
  have hdevelops := Op.develops_perform e (.declare r s a) nofun
  simp only [Op.perform, h] at hdevelops
  refine ⟨p, hstorage, hwrote.here, hresolve, load_of_resolve hresolve hstorage hwrote.here,
    hwrote.elsewhere, ?_, ?_⟩
  · intro other hother hne
    exact hwrote.load ((hknown other hother).numbersAlike ho hdevelops) hne
  · intro r' x hx
    refine hwrote.resolve (hnum · x hx) (fun r'' hr'' => ?_) r'
    -- the storage that was written is that of the symbol, in whichever scope
    have hsole' : ∀ k k' own own', e'.frame.scope? k = some own → e'.frame.scope? k' = some own' →
        own.members = own'.members → k = k' := by
      intro k k' own own' hown hown'
      rw [hwrote.scope?] at hown hown'
      exact hsole k k' own own' hown hown'
    rw [← hwrote.storageOf? (hnum · x hx)] at hr''
    exact absurd hr'' (storageOf?_ne (ho.develop hdevelops) hsole' hplace hx r'')

theorem value_of_assign {slot' : Slot} (h : slot.assign v = .ok slot') :
    slot'.value = v ∧ slot'.attributes = slot.attributes := by
  unfold Slot.assign at h
  split at h
  · cases h
  · split at h
    · split at h
      · cases h
      · cases h
        exact ⟨rfl, rfl⟩
    · cases h
      exact ⟨rfl, rfl⟩

theorem stored_of_assign (h : e.assign ref v = (.done (), e')) : ∃ p, e.Stored e' ref v p := by
  obtain ⟨p, slot, slot', hstorage, hassigned⟩ := assigned_of_assign h
  obtain ⟨hvalue, hattr⟩ := value_of_assign hassigned.assign
  have hnum : ∀ shape x, e'.store.slotOf? shape x = e.store.slotOf? shape x := by
    intro shape x
    rw [Store.slotOf?, hassigned.shapes, Store.slotOf?]
  have hlike : ∀ other, e.NumbersAlike e' other := fun _ _ x _ shape _ _ _ => hnum shape x
  refine ⟨p, hstorage, ⟨slot, slot', hassigned.before, hassigned.assign, hassigned.here⟩, ?_, ?_,
    hassigned.elsewhere, fun other hne => hassigned.load (hlike other) hne, ?_⟩
  · intro hpublic
    have hstorage' := (hassigned.storage? (hlike ref)).trans hstorage
    rw [← hvalue]
    refine load_of_slotIn? hstorage' hassigned.here fun source x href => ?_
    have hslot := hpublic source x href
    rw [hassigned.before, Option.any_some, Slot.isPublic] at hslot
    rw [Slot.isPublic, hattr, hslot]
  · intro r x ref' hres hplace
    rw [← hvalue]
    exact load_of_resolve hres hplace hassigned.here
  · intro r x
    refine hassigned.toWrote.resolve (hnum · x) (fun _ _ => ?_) r
    rw [hassigned.here, hassigned.before, Option.map_some, Option.map_some, hattr]

/-- What a refused declaration leaves as it is. -/
theorem Refused.unchanged (h : e.Refused e' r s) (ho : e.store.Ordered)
    (hdevelops : e.store.Develops e'.store) :
    (∀ other, e.Backed other → e'.load other = e.load other) ∧
      ∀ r' x, x ≠ s → e'.resolve r' x = e.resolve r' x := by
  obtain ⟨store', frame'⟩ := e'
  obtain ⟨hframe, hstore, hnum, -⟩ := h
  simp only at hframe hstore
  subst hframe
  have houtline : e.SameOutline ⟨store', e.frame⟩ := by
    rw [hstore]
    exact ⟨rfl, rfl, rfl, rfl⟩
  have hslots : ∀ p, slotIn? ⟨store', e.frame⟩ p = e.slotIn? p := by
    intro p
    rw [hstore]
    cases p <;> rfl
  constructor
  · intro other hb
    exact houtline.load (hb.numbersAlike ho hdevelops) fun p _ => hslots p
  · intro r' x hx
    refine LooksAlike.resolve ⟨houtline, (hnum · x hx), fun _ p _ => ?_⟩ r'
    rw [hslots p]

/-- Every operation on members changes one of them or nothing. -/
structure ChangesOneMember (e : Engine) (known : SlotRef → Prop) : Prop where
  declared : ∀ r s a ref e', e.declare r s a = (.done ref, e') →
    ∃ p, e.Declared e' known r s a ref p
  stored : ∀ ref v e', e.assign ref v = (.done (), e') → ∃ p, e.Stored e' ref v p
  /-- The exception is a declaration that runs into a constant under no name. -/
  notDeclared : ∀ r s a err e', e.declare r s a = (.raised err, e') → e.Refused e' r s ∧
    (∀ other, known other → e'.load other = e.load other) ∧
    ∀ r' x, x ≠ s → e'.resolve r' x = e.resolve r' x
  notStored : ∀ ref v err e', known ref → e.assign ref v = (.raised err, e') → e' = e
  notMixed : ∀ r source err e', e.mixin r source = (.error err, e') → e' = e
  notSet : ∀ r line err e', e.setLine r line = (.error err, e') → e' = e
  notTaken : ∀ t err f, e.frame.takeTable t = (.error err, f) → f = e.frame
  notAllocated : ∀ binding previous shape n t err f,
    e.frame.allocateFunction binding previous shape n t = (.raised err, f) → f = e.frame

end Engine

namespace Machine

/-- In every state that a run leads to, a declaration that is done and a store
that is done change one member, and whatever is refused changes nothing, apart
from a declaration that runs into a constant which the shape of its scope has no
name for. -/
theorem members_change_one_at_a_time {store : Store} {config : FrameConfig} {global : GlobalId}
    {flag : FlagId} {os : List Op} (hstore : store.Ordered)
    (hos : Lawful 0 (start store config global flag) os)
    (hobs : (start store config global flag).Observant os) :
    ((start store config global flag).run os).engine.ChangesOneMember
      ((start store config global flag).Knows os) := by
  have hm := tracked_start store config global flag
  have hw := owned_start store config global flag
  have hw' := hw.run hm hos
  have hord := hstore.develop hobs.respectful.sharing.develops
  have hbacked : ∀ ref, (start store config global flag).Knows os ref →
      ((start store config global flag).run os).engine.Backed ref :=
    fun _ href => href.backed hm hw hstore hos hobs
  constructor
  · intro r s a ref e' h
    exact Engine.declared_of_declare hord (fun _ _ _ _ h₁ h₂ => hw'.sole h₁ h₂) hbacked h
  · intro ref v e' h
    exact Engine.stored_of_assign h
  · intro r s a err e' h
    have hrefused := Engine.refused_of_declare hord (Frame.ownership_of_kept hw'.kept).members h
    have hdevelops := Op.develops_perform ((start store config global flag).run os).engine
      (.declare r s a) nofun
    simp only [Op.perform, h] at hdevelops
    obtain ⟨hloads, hlookups⟩ := hrefused.unchanged hord hdevelops
    exact ⟨hrefused, fun other hother => hloads other (hbacked other hother), hlookups⟩
  · intro ref v err e' href h
    exact Engine.eq_of_assign_raised (hbacked ref href) h
  · intro r source err e' h
    exact Engine.eq_of_mixin_error h
  · intro r line err e' h
    exact Engine.eq_of_setLine_error h
  · intro t err f h
    exact Frame.eq_of_takeTable_error h
  · intro binding previous shape n t err f h
    exact Frame.eq_of_allocateFunction_raised h

/-- A block on the heap stores through a mixed-in member, and declares a name
over another one like it. -/
theorem declaration_over_mixed_in_name :
    let here := ScopeRef.durable (.ofHeap 0)
    let x : Symbol := ⟨500, by decide⟩
    let os := composed (.ofHeap 1) x
    let e := (mixing.run os).engine
    let assigned := (e.assign (.mixin 0 x) (.int 7)).2
    let declared := (e.declare here x .exposed).2
    Lawful 0 mixing os ∧ e.resolve here x = .ok (.mixin 0 x) ∧
      assigned.load (.mixin 0 x) = .ok (.int 7) ∧ assigned.resolve here x = .ok (.mixin 0 x) ∧
      declared.resolve here x = .ok (.heap 0 0 x) ∧
      declared.load (.heap 0 0 x) = .ok .undefined ∧
      declared.load (.mixin 0 x) = e.load (.mixin 0 x) := by
  intro here x os e assigned declared
  have hstore : mixing.engine.store.Ordered := Store.ordered_of_made Shape.made_empty #[{}, {}]
  have hos : Lawful 0 mixing os := by decide +kernel
  have hobs : mixing.Observant os :=
    ⟨⟨⟨nofun, nofun, nofun⟩, nofun⟩, ⟨⟨nofun, nofun, nofun⟩, nofun⟩, trivial⟩
  have heffect : e.ChangesOneMember (mixing.Knows os) :=
    members_change_one_at_a_time hstore hos hobs
  have hmixed : e.resolve here x = .ok (.mixin 0 x) :=
    resolve_composed (by decide +kernel) (by decide +kernel)
  have hknown : mixing.Knows os (.mixin 0 x) := ⟨os, [], rfl, ⟨here, x, hmixed⟩, nofun⟩
  have hthere : e.storage? (.mixin 0 x) = some (.heap 1 0) := by decide +kernel
  have hstored : (e.assign (.mixin 0 x) (.int 7)).1 = .done () :=
    Outcome.eq_of_isDone (by decide +kernel)
  have hdeclared : (e.declare here x .exposed).1 = .done (.heap 0 0 x) :=
    Outcome.eq_of_place (by decide +kernel)
  obtain ⟨p, hp⟩ := heffect.stored (.mixin 0 x) (.int 7) assigned (Prod.ext hstored rfl)
  obtain ⟨q, hq⟩ := heffect.declared here x .exposed (.heap 0 0 x) declared (Prod.ext hdeclared rfl)
  have hpublic : (e.slotIn? p).any Slot.isPublic = true := by
    cases hp.storage.symm.trans hthere
    decide +kernel
  have hother : e.storage? (.mixin 0 x) ≠ some q := by
    have hplace : some (Storage.heap 0 0) = some q := hq.storage
    cases hplace
    rw [hthere]
    exact nofun
  exact ⟨hos, hmixed, hp.load fun _ _ _ => hpublic, (hp.lookups here x).trans hmixed, hq.resolve,
    hq.load, hq.loads _ hknown hother⟩

/-- A constant that a call was given under no name stands in the way of a
declaration. That is refused, but its symbol is found from then on. -/
theorem refused_declaration_makes_name :
    let start := start { shapes := #[.empty], globals := #[{}] } {} 0 0
    let x : Symbol := ⟨500, by decide⟩
    let os : List Op :=
      [.allocateTable 1,
        .editTable ⟨0, 0⟩ fun t =>
          (t.materialize 0).setSlot 0 (Slot.undeclared.declare { isConst := true }),
        .allocateFunction ⟨0, none, none⟩ (.durable (.ofGlobal 0)) 0 ⟨⟨0, 0⟩, 0⟩]
    let e := (start.run os).engine
    let e' := (e.declare (.pooled ⟨0, 0⟩) x .exposed).2
    Lawful 0 start os ∧ start.Observant os ∧
      (∃ err, (e.declare (.pooled ⟨0, 0⟩) x .exposed).1 = .raised err) ∧
      e'.resolve (.pooled ⟨0, 0⟩) x = .ok (.pooled ⟨0, 0⟩ 0 x) ∧
      ¬ ∀ r s, e'.resolve r s = e.resolve r s := by
  intro start x os e e'
  have hos : Lawful 0 start os := by decide +kernel
  have hobs : start.Observant os := by
    refine ⟨⟨⟨nofun, nofun, nofun⟩, nofun⟩, ⟨⟨?_, nofun, nofun⟩, nofun⟩,
      ⟨⟨nofun, nofun, nofun⟩, nofun⟩, trivial⟩
    intro t c ho
    cases ho
    exact ⟨⟨⟨0, 0⟩, 0⟩, by decide +kernel, rfl, by decide +kernel⟩
  have hrefused : (e.declare (.pooled ⟨0, 0⟩) x .exposed).1.isDone = false := by decide +kernel
  have hgoeson : (e.declare (.pooled ⟨0, 0⟩) x .exposed).1.isPanicked = false := by decide +kernel
  have hmissing : (e.resolve (.pooled ⟨0, 0⟩) x).isOk = false := by decide +kernel
  have hfound : e'.resolve (.pooled ⟨0, 0⟩) x = .ok (.pooled ⟨0, 0⟩ 0 x) :=
    Engine.resolve_eq_of_place (by decide +kernel)
  refine ⟨hos, hobs, ?_, hfound, ?_⟩
  · cases hanswer : (e.declare (.pooled ⟨0, 0⟩) x .exposed).1 with
    | raised err => exact ⟨err, rfl⟩
    | done ref => rw [hanswer] at hrefused; cases hrefused
    | panicked => rw [hanswer] at hgoeson; cases hgoeson
  · intro hsame
    rw [← hsame, hfound] at hmissing
    cases hmissing

end Machine

end ScriptCore

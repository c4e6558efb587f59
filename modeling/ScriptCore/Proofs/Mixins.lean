import ScriptCore.Proofs.Continuity
import ScriptCore.Proofs.ListedNames

/-!
# What is seen and changed through a mixin

A slot that is found through a mixin names the source and the symbol, and
nothing of what the source had under the symbol then. So each access looks the
member up again, and a member that is no longer public reads as undefined.

Assignments look the member up again as well, but only the scopes on the heap
ask again whether it is public. A global scope, once it was found to have a
public member, lets an assignment through a mixin change that member for good,
also after it was declared again with other attributes; what it refuses then is
only what it refuses everybody.
-/

namespace ScriptCore

theorem Slot.isDeclared_of_isPublic {slot : Slot} (h : slot.isPublic = true) :
    slot.isDeclared = true := by
  unfold isPublic at h
  unfold isDeclared
  cases hattr : slot.attributes with
  | none => rw [hattr] at h; cases h
  | some a => rfl

namespace Store

variable {st : Store} {d : DurableScope} {s : Symbol} {v : Value} {id : SourceId}

/-! ## The source a slot was found in -/

theorem exposed_of_findMixin? {mixins : List SourceId} {ref : SlotRef}
    (h : (st.findMixin? mixins s).map (SlotRef.mixin · s) = some ref) :
    ∃ id, ref = .mixin id s ∧ (st.sourceMember? id s).isSome := by
  obtain ⟨id, hid, rfl⟩ := Option.map_eq_some_iff.1 h
  exact ⟨id, rfl, by simpa using List.find?_some hid⟩

theorem exposed_of_resolve {x : Symbol} (h : st.resolve d s = .ok (.mixin id x)) :
    x = s ∧ (st.sourceMember? id s).isSome := by
  have hmixin : ∀ {mixins : List SourceId},
      (st.findMixin? mixins s).map (SlotRef.mixin · s) = some (.mixin id x) →
        x = s ∧ (st.sourceMember? id s).isSome := by
    intro mixins hfound
    obtain ⟨id', href, hsome⟩ := exposed_of_findMixin? hfound
    cases href
    exact ⟨rfl, hsome⟩
  rcases found_of_resolveWithin h with ⟨f, hf⟩ | ⟨g, hg⟩ | ⟨j, x, -, hh⟩
  · unfold findFrozen? at hf
    split at hf
    · cases hf
    · exact hmixin hf
  · unfold findGlobal? at hg
    obtain ⟨_, -, hg⟩ := Option.bind_eq_some_iff.1 hg
    split at hg
    · cases hg
    · exact hmixin hg
  · unfold findHeap? at hh
    split at hh
    · cases hh
    · exact hmixin hh

/-! ## Assignment from outside -/

section

variable {shape : ShapeId} {slots : Array Slot} {i : Nat} {slot slot' : Slot}

theorem slotOf?_of_own? (h : st.own? shape slots s = some slot) :
    ∃ i, st.slotOf? shape s = some i ∧ slots[i]? = some slot := by
  obtain ⟨i, hi, hget⟩ := own?_eq_some h
  exact ⟨i, (Option.filter_eq_some_iff.1 hi).1, hget⟩

theorem own?_of_declared (hi : st.slotOf? shape s = some i) (hget : slots[i]? = some slot)
    (hdecl : slot.isDeclared = true) : st.own? shape slots s = some slot := by
  have hindex : st.ownIndex? shape slots s = some i := by
    rw [ownIndex?, hi, Option.filter_some, if_pos]
    rw [hget]
    exact hdecl
  rw [own?, hindex, Option.bind_some, hget]

/-- The scope takes the value for its member `slot`, which becomes `slot'`. It
asks whether the member is public unless it is a global one. -/
structure Takes (st : Store) (d : DurableScope) (s : Symbol) (v : Value) (slot slot' : Slot) :
    Prop where
  unfrozen : d.frozen = []
  member : st.ownMember? d s = some slot
  assigned : slot.assign v = .ok slot'
  shown : slot.isPublic = true ∨ ∃ id, d.anchor = .global id

theorem Takes.assignPublic (h : st.Takes d s v slot slot') :
    ∃ st', st.assignPublic d s v = (.done (), st') ∧ st'.ownMember? d s = some slot' := by
  obtain ⟨hunfrozen, hmember, hassigned, hshown⟩ := h
  match d, hunfrozen with
  | ⟨[], .global id⟩, _ =>
      obtain ⟨g, hg, hslot⟩ := Option.bind_eq_some_iff.1 hmember
      refine ⟨st.setGlobal id (g.set s slot'), ?_, ?_⟩
      · simp only [Store.assignPublic, assignGlobal_of_some hg hslot v, hassigned]
      · have hlt := (Array.getElem?_eq_some_iff.1 hg).1
        simp only [ownMember?, setGlobal, Array.getElem?_setIfInBounds, if_pos hlt,
          Option.bind_some, GlobalScope.get?_set, if_true]
  | ⟨[], .heap id⟩, _ =>
      have hpublic : slot.isPublic = true := hshown.resolve_right (by rintro ⟨_, ⟨⟩⟩)
      obtain ⟨h, hh, hown⟩ := Option.bind_eq_some_iff.1 hmember
      obtain ⟨i, hi, hget⟩ := slotOf?_of_own? hown
      have hget : h.members.get? i = some slot := hget
      refine ⟨st.setHeap id { h with members := h.members.setSlot i slot' }, ?_, ?_⟩
      · simp only [Store.assignPublic, hh, hi, Option.bind_some, hget, Option.map_some,
          if_pos hpublic, hassigned]
      · have hlt := (Array.getElem?_eq_some_iff.1 hget).1
        have hdecl : slot'.isDeclared = true := by
          rw [Slot.isDeclared_assign hassigned]
          exact Slot.isDeclared_of_isPublic hpublic
        simp only [ownMember?, getElem?_setHeap hh, Option.bind_some]
        refine own?_of_declared (i := i) hi ?_ hdecl
        simp only [MemberTable.setSlot, Array.getElem?_setIfInBounds, if_pos hlt, if_true]

theorem assignPublic_of_not_takes (h : ∀ slot slot', ¬ st.Takes d s v slot slot') :
    ∃ err, st.assignPublic d s v = (.raised err, st) := by
  match d with
  | ⟨f :: frozen, anchor⟩ => exact ⟨_, rfl⟩
  | ⟨[], .global id⟩ =>
      simp only [assignPublic, assignGlobal]
      split
      · exact ⟨_, rfl⟩
      · next g hg =>
          split
          · exact ⟨_, rfl⟩
          · next slot hslot =>
              split
              · exact ⟨_, rfl⟩
              · next slot' hassigned =>
                  have hmember : st.ownMember? ⟨[], .global id⟩ s = some slot := by
                    simp only [ownMember?, hg, Option.bind_some, hslot]
                  exact absurd ⟨rfl, hmember, hassigned, .inr ⟨id, rfl⟩⟩ (h slot slot')
  | ⟨[], .heap id⟩ =>
      simp only [assignPublic]
      split
      · exact ⟨_, rfl⟩
      · next x hx =>
          split
          · exact ⟨_, rfl⟩
          · next i slot hfound =>
              obtain ⟨j, hj, hget⟩ := Option.bind_eq_some_iff.1 hfound
              obtain ⟨slot, hget, heq⟩ := Option.map_eq_some_iff.1 hget
              cases heq
              split
              · next hpublic =>
                  split
                  · exact ⟨_, rfl⟩
                  · next slot' hassigned =>
                      have hmember : st.ownMember? ⟨[], .heap id⟩ s = some slot := by
                        simp only [ownMember?, hx, Option.bind_some]
                        exact own?_of_declared hj hget (Slot.isDeclared_of_isPublic hpublic)
                      exact absurd ⟨rfl, hmember, hassigned, .inl hpublic⟩ (h slot slot')
              · exact ⟨_, rfl⟩

end

end Store

namespace Engine

variable {e : Engine} {r : ScopeRef} {s x : Symbol} {id : SourceId} {d : DurableScope}

theorem exposed_of_resolve (h : e.resolve r s = .ok (.mixin id x)) :
    x = s ∧ (e.store.sourceMember? id s).isSome := by
  rcases found_of_resolveWithin h with ⟨d, hd⟩ | ⟨mixins, hmixin⟩ | ⟨k, own, i, -, -, hslot⟩
  · exact Store.exposed_of_resolve hd
  · obtain ⟨id', href, hsome⟩ := Store.exposed_of_findMixin? hmixin
    cases href
    exact ⟨rfl, hsome⟩
  · cases hslot

theorem load_mixin (hsource : e.store.sources[id]? = some (.scope d)) (s : Symbol) :
    e.load (.mixin id s) =
      .ok (((e.store.ownMember? d s).filter Slot.isPublic).elim .undefined Slot.value) := by
  show Except.ok ((e.store.sourceMember? id s).getD .undefined) = _
  rw [Store.sourceMember?, hsource]
  dsimp only
  rw [Store.publicMember?_eq]
  cases (e.store.ownMember? d s).filter Slot.isPublic <;> rfl

theorem assign_mixin (hsource : e.store.sources[id]? = some (.scope d)) (s : Symbol) (v : Value) :
    e.assign (.mixin id s) v =
      ((e.store.assignPublic d s v).1, ⟨(e.store.assignPublic d s v).2, e.frame⟩) := by
  show ((e.store.assignSource id s v).1, Engine.mk (e.store.assignSource id s v).2 e.frame) = _
  rw [Store.assignSource, hsource]

end Engine

/-! ## Every run -/

namespace Machine

variable {m : Machine} {os : List Op} {id : SourceId} {source : MemberSource}

theorem source_run (h : m.engine.store.sources[id]? = some source)
    (hshare : ∀ st, .share st ∈ os → st.sources[id]? = some source) :
    (m.run os).engine.store.sources[id]? = some source :=
  lasts_run (P := fun st => st.sources[id]? = some source)
    (fun _ _ hcont => hcont.sources id source) h hshare

/-- Whatever happened since a slot was found through a mixin: it reads the
member of the source if that is public now, and as undefined otherwise. It is
assigned by a scope that takes the value, or nothing changes. So nothing is
changed that is not public now, unless the source is a global scope: there the
member is assigned whenever it would take the value from the scope itself. -/
theorem mixin_slots_keep_to_public_members {store : Store} {config : FrameConfig}
    {global : GlobalId} {flag : FlagId} {before later : List Op} {r : ScopeRef} {s x : Symbol}
    {id : SourceId} {d : DurableScope}
    (hfound : ((start store config global flag).run before).engine.resolve r s =
      .ok (.mixin id x))
    (hsource : ((start store config global flag).run before).engine.store.sources[id]? =
      some (.scope d))
    (hshare : ∀ st, .share st ∈ later → st.sources[id]? = some (.scope d)) :
    let found := ((start store config global flag).run before).engine
    let e := ((start store config global flag).run (before ++ later)).engine
    let member := e.store.ownMember? d s
    x = s ∧ (found.store.ownMember? d s).any Slot.isPublic ∧
      e.load (.mixin id x) = .ok ((member.filter Slot.isPublic).elim .undefined Slot.value) ∧
      (∀ v, (∃ err, e.assign (.mixin id x) v = (.raised err, e)) ∨
        ∃ slot slot' e', e.store.Takes d s v slot slot' ∧
          e.assign (.mixin id x) v = (.done (), e') ∧ e'.store.ownMember? d s = some slot') ∧
      ∀ v, member.any Slot.isPublic = false →
        ((∃ err, e.assign (.mixin id x) v = (.raised err, e)) ↔
          ¬ ∃ g slot slot', d = .ofGlobal g ∧ member = some slot ∧ slot.assign v = .ok slot') := by
  intro found e member
  obtain ⟨rfl, hexposed⟩ := Engine.exposed_of_resolve hfound
  have hpublic : (found.store.ownMember? d x).any Slot.isPublic := by
    rw [← Store.isSome_publicMember?]
    rw [Store.sourceMember?, hsource] at hexposed
    exact hexposed
  have hkept : e.store.sources[id]? = some (.scope d) := by
    show ((start store config global flag).run (before ++ later)).engine.store.sources[id]? = _
    rw [run_append]
    exact source_run hsource hshare
  have hrefused : ∀ v, (∀ slot slot', ¬ e.store.Takes d x v slot slot') →
      ∃ err, e.assign (.mixin id x) v = (.raised err, e) := by
    intro v hno
    obtain ⟨err, herr⟩ := Store.assignPublic_of_not_takes hno
    refine ⟨err, ?_⟩
    rw [Engine.assign_mixin hkept, herr]
  have htaken : ∀ v slot slot', e.store.Takes d x v slot slot' →
      ∃ e', e.assign (.mixin id x) v = (.done (), e') ∧ e'.store.ownMember? d x = some slot' := by
    intro v slot slot' htakes
    obtain ⟨st', hdone, hmember⟩ := htakes.assignPublic
    refine ⟨⟨st', e.frame⟩, ?_, hmember⟩
    rw [Engine.assign_mixin hkept, hdone]
  refine ⟨rfl, hpublic, Engine.load_mixin hkept x, fun v => ?_, fun v hhidden => ⟨?_, ?_⟩⟩
  · by_cases htakes : ∃ slot slot', e.store.Takes d x v slot slot'
    · obtain ⟨slot, slot', htakes⟩ := htakes
      obtain ⟨e', hdone, hmember⟩ := htaken v slot slot' htakes
      exact .inr ⟨slot, slot', e', htakes, hdone, hmember⟩
    · exact .inl (hrefused v fun slot slot' h => htakes ⟨slot, slot', h⟩)
  · rintro ⟨err, herr⟩ ⟨g, slot, slot', rfl, hmember, hassigned⟩
    obtain ⟨e', hdone, -⟩ := htaken v slot slot' ⟨rfl, hmember, hassigned, .inr ⟨g, rfl⟩⟩
    rw [hdone] at herr
    cases herr
  · intro hno
    refine hrefused v fun slot slot' htakes => ?_
    rcases htakes.shown with hshown | ⟨g, hg⟩
    · have hmember : member = some slot := htakes.member
      rw [hmember, Option.any_some, hshown] at hhidden
      cases hhidden
    · exact hno ⟨g, slot, slot', DurableScope.eq_ofGlobal htakes.unfrozen hg, htakes.member,
        htakes.assigned⟩

/-- Two blocks on the heap of a frame with two global scopes. -/
def mixing : Machine :=
  let h : HeapScope := { kind := .block, previous := .ofGlobal 0, shape := 0, members := .empty }
  start { shapes := #[.empty], heaps := #[h, h], globals := #[{}, {}] } {} 0 0

/-- The scope has a public name, and is mixed into the first block. -/
def composed (d : DurableScope) (x : Symbol) : List Op :=
  [.declare (.durable d) x .exposed, .mixin (.durable (.ofHeap 0)) (.scope d)]

/-- The name is declared again, and is private now. -/
def hidden (d : DurableScope) (x : Symbol) : List Op :=
  [.declare (.durable d) x { isPrivate := true }]

theorem resolve_composed {d : DurableScope} {x : Symbol}
    (hnone : ((mixing.run (composed d x)).engine.ownMember? (.durable (.ofHeap 0)) x).isNone)
    (hmixin : (mixing.run (composed d x)).engine.store.findMixin?
      ((mixing.run (composed d x)).engine.mixinsOf (.durable (.ofHeap 0))) x = some 0) :
    (mixing.run (composed d x)).engine.resolve (.durable (.ofHeap 0)) x = .ok (.mixin 0 x) := by
  have hpresent : (mixing.run (composed d x)).engine.Present (.durable (.ofHeap 0)) := trivial
  refine Engine.resolve_of_findOwn? ?_
  rw [Engine.findOwn?_of_none hpresent (Option.isNone_iff_eq_none.1 hnone), hmixin]
  rfl

/-- A block that hides a name again, after it was found there through a mixin. -/
theorem mixin_slot_of_hidden_member :
    let d := DurableScope.ofHeap 1
    let found := (mixing.run (composed d ⟨500, by decide⟩)).engine
    let e := (mixing.run (composed d ⟨500, by decide⟩ ++ hidden d ⟨500, by decide⟩)).engine
    found.resolve (.durable (.ofHeap 0)) ⟨500, by decide⟩ = .ok (.mixin 0 ⟨500, by decide⟩) ∧
      found.store.sources[0]? = some (.scope d) ∧
      e.load (.mixin 0 ⟨500, by decide⟩) = .ok .undefined ∧
      ∀ v, ∃ err, e.assign (.mixin 0 ⟨500, by decide⟩) v = (.raised err, e) := by
  intro d found e
  have hfound := resolve_composed (d := d) (x := ⟨500, by decide⟩) (by decide +kernel)
    (by decide +kernel)
  have hsource : found.store.sources[0]? = some (.scope d) := rfl
  have hown : ∀ st, .share st ∈ hidden d ⟨500, by decide⟩ →
      st.sources[0]? = some (.scope d) := by simp [hidden]
  obtain ⟨-, -, hload, -, hassign⟩ := mixin_slots_keep_to_public_members hfound hsource hown
  have hfiltered : ((e.store.ownMember? d ⟨500, by decide⟩).filter Slot.isPublic).isNone := by
    decide +kernel
  have hhidden : (e.store.ownMember? d ⟨500, by decide⟩).any Slot.isPublic = false := by
    decide +kernel
  have hundefined : Except.ok (((e.store.ownMember? d ⟨500, by decide⟩).filter Slot.isPublic).elim
      Value.undefined Slot.value) = (.ok .undefined : Except EvalError Value) := by
    rw [Option.isNone_iff_eq_none.1 hfiltered]
    rfl
  refine ⟨hfound, hsource, hload.trans hundefined, fun v => (hassign v hhidden).2 ?_⟩
  rintro ⟨g, slot, slot', hd, -⟩
  have hanchor : Anchor.heap 1 = .global g := congrArg DurableScope.anchor hd
  cases hanchor

/-- A global scope that hides a name again still lets a slot found through a
mixin assign it. -/
theorem hidden_global_member_is_assigned :
    let d := DurableScope.ofGlobal 1
    let found := (mixing.run (composed d ⟨500, by decide⟩)).engine
    let e := (mixing.run (composed d ⟨500, by decide⟩ ++ hidden d ⟨500, by decide⟩)).engine
    found.resolve (.durable (.ofHeap 0)) ⟨500, by decide⟩ = .ok (.mixin 0 ⟨500, by decide⟩) ∧
      (e.store.ownMember? d ⟨500, by decide⟩).any Slot.isPublic = false ∧
      ¬ ∃ err, e.assign (.mixin 0 ⟨500, by decide⟩) (.int 7) = (.raised err, e) := by
  intro d found e
  refine ⟨resolve_composed (by decide +kernel) (by decide +kernel), by decide +kernel, ?_⟩
  rintro ⟨err, herr⟩
  have htaken : (e.store.ownMember? d ⟨500, by decide⟩).any
      (fun slot => (slot.assign (.int 7)).toOption.isSome) = true := by decide +kernel
  obtain ⟨slot, hslot, hassigned⟩ := (Option.any_eq_true _ _).1 htaken
  cases hassign : slot.assign (.int 7) with
  | error refusal => rw [hassign] at hassigned; cases hassigned
  | ok slot' =>
      obtain ⟨st', hdone, -⟩ := Store.Takes.assignPublic ⟨rfl, hslot, hassign, .inr ⟨1, rfl⟩⟩
      rw [Engine.assign_mixin (d := d) rfl, hdone] at herr
      cases herr

end Machine

end ScriptCore

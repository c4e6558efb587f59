import ScriptCore.Proofs.Globals

/-!
# Definitions of globals

To define a global is to declare it public and then to assign it. The
declaration drops what the member held, and only the assignment looks at the
value, so a definition is all or nothing except for the undefined value. For a
symbol that is no constant that definition fails with the declaration done: the
member is public and undefined from then on, whatever it was before.

This shows in every case but one, in which the member was public, undefined and
no constant already. So the exception is exact, and it is the only one, in every
state that requests to global scopes lead to.
-/

namespace ScriptCore

namespace GlobalScope

variable {g : GlobalScope} {s : Symbol} {slot : Slot}

theorem mixins_set (g : GlobalScope) (s : Symbol) (slot : Slot) :
    (g.set s slot).mixins = g.mixins := by
  simp only [set]
  split <;> rfl

/-- The second slot replaces the first. -/
theorem set_set (g : GlobalScope) (s : Symbol) (first slot : Slot) :
    (g.set s first).set s slot = g.set s slot := by
  by_cases hany : (g.members.any fun m => m.1 = s) = true
  · have hagain : ((g.members.map fun m => if m.1 = s then (s, first) else m).any
        fun m => m.1 = s) = true := by
      simpa only [List.any_map, Function.comp_def, fst_replace] using hany
    simp only [set, hany, hagain, if_true, List.map_map]
    congr 1
    refine List.map_congr_left fun m _ => ?_
    by_cases hm : m.1 = s
    · simp only [Function.comp, if_pos hm, if_true]
    · simp only [Function.comp, if_neg hm]
  · have hnone : ∀ m ∈ g.members, m.1 ≠ s := by
      intro m hm hs
      exact hany (List.any_eq_true.2 ⟨m, hm, by simpa using hs⟩)
    have hkept : (g.members.map fun m => if m.1 = s then (s, slot) else m) = g.members :=
      (List.map_congr_left fun m hm => if_neg (hnone m hm)).trans (List.map_id _)
    simp [set, hany, hkept]

/-- Putting back the slot that is there is no change. -/
theorem Distinct.set_self (h : g.Distinct) (hs : g.get? s = some slot) : g.set s slot = g := by
  have hmem : (s, slot) ∈ g.members := h.get?_eq_some_iff.1 hs
  have hkept : (g.members.map fun m => if m.1 = s then (s, slot) else m) = g.members := by
    refine (List.map_congr_left fun m hm => ?_).trans (List.map_id _)
    split
    · next hms => exact (List.inj_on_of_nodup_map h hm hmem hms).symm
    · rfl
  have hany : (g.members.any fun m => m.1 = s) = true :=
    List.any_eq_true.2 ⟨(s, slot), hmem, by simp⟩
  simp only [GlobalScope.set, hany, if_true, hkept]

theorem Distinct.set_eq_self_iff (h : g.Distinct) : g.set s slot = g ↔ g.get? s = some slot := by
  constructor
  · intro hset
    rw [← hset, get?_set, if_pos rfl]
  · exact h.set_self

/-- A symbol that is declared already makes the scope no longer. -/
theorem size_set (g : GlobalScope) (s : Symbol) (slot : Slot) :
    (g.set s slot).size = if (g.get? s).isSome then g.size else g.size + 1 := by
  have hknown : (g.get? s).isSome = g.members.any fun m => m.1 = s := by
    rw [get?, Option.isSome_map, List.isSome_find?]
  rw [hknown, set]
  split
  · exact List.length_map ..
  · exact List.length_append ..

end GlobalScope

/-! ## Requests to global scopes -/

/-- What is asked of a global scope. -/
inductive GlobalRequest where
  | define (s : Symbol) (v : Value)
  | declare (s : Symbol) (a : Attributes)
  | assign (s : Symbol) (v : Value)
  | mixin (source : SourceId)

namespace Store

variable {st : Store} {id : GlobalId} {g : GlobalScope} {s : Symbol} {v : Value}

def ask (st : Store) (id : GlobalId) : GlobalRequest → Store
  | .define s v => (st.define id s v).2
  | .declare s a => (st.declare (.ofGlobal id) s a).2
  | .assign s v => (st.assignGlobal id s v).2
  | .mixin source => (st.mixin (.ofGlobal id) source).toOption.getD st

/-- The shared state after these requests, each to a global scope of its own. -/
def asked (st : Store) (requests : List (GlobalId × GlobalRequest)) : Store :=
  requests.foldl (fun st r => st.ask r.1 r.2) st

theorem setGlobal_setGlobal (st : Store) (id : GlobalId) (g g' : GlobalScope) :
    (st.setGlobal id g).setGlobal id g' = st.setGlobal id g' := by
  simp only [setGlobal, Array.setIfInBounds_setIfInBounds]

theorem setGlobal_eq_self_iff (hg : st.globals[id]? = some g) {g' : GlobalScope} :
    st.setGlobal id g' = st ↔ g' = g := by
  have hthere := getElem?_setGlobal hg id g'
  rw [if_pos rfl] at hthere
  constructor
  · intro hsame
    rw [hsame, hg] at hthere
    exact (Option.some.inj hthere).symm
  · rintro rfl
    rw [setGlobal, Array.setIfInBounds_self hg]

/-- A definition refuses a constant before it does anything, and the undefined
value after it has declared the symbol. -/
theorem define_eq (hg : st.globals[id]? = some g) (s : Symbol) (v : Value) :
    st.define id s v =
      if ((g.get? s).getD .undeclared).isConst then
        (.raised (ErrorKind.duplicateDeclaration s), st)
      else if v.isUndefined then
        (.raised (ErrorKind.undefinedAssignment s),
          st.setGlobal id (g.set s (Slot.undeclared.declare .exposed)))
      else (.done (), st.setGlobal id (g.set s (.ofValue v))) := by
  have hdeclare := declare_global hg s .exposed
  by_cases hconst : ((g.get? s).getD .undeclared).isConst
  · rw [if_pos hconst] at hdeclare
    simp only [define, hdeclare, if_pos hconst]
  · rw [if_neg hconst] at hdeclare
    simp only [define, hdeclare, if_neg hconst]
    have hg' := getElem?_setGlobal hg id (g.set s (Slot.undeclared.declare .exposed))
    rw [if_pos rfl] at hg'
    have hs : (g.set s (Slot.undeclared.declare .exposed)).get? s =
        some (Slot.undeclared.declare .exposed) := by
      rw [GlobalScope.get?_set, if_pos rfl]
    rw [assignGlobal_of_some hg' hs]
    by_cases hv : v.isUndefined
    · simp only [Slot.assign, if_pos hv, ErrorKind.ofAssign]
    · have hopen : (Slot.undeclared.declare .exposed).isConst = false := rfl
      simp only [Slot.assign, if_neg hv, hopen, Bool.false_eq_true, if_false,
        setGlobal_setGlobal, GlobalScope.set_set]
      rfl

theorem Distinct.setGlobal (h : st.Distinct) (id : GlobalId) (hg : g.Distinct) :
    (st.setGlobal id g).Distinct := by
  intro j x hx
  rw [Store.setGlobal, Array.getElem?_setIfInBounds] at hx
  split at hx
  · split at hx
    · cases hx
      exact hg
    · cases hx
  · exact h j x hx

theorem Distinct.ask (h : st.Distinct) (id : GlobalId) (r : GlobalRequest) :
    (st.ask id r).Distinct := by
  cases hg : st.globals[id]? with
  | none =>
      have hsame : st.ask id r = st := by
        cases r <;>
          simp [Store.ask, define, declare, assignGlobal, mixin, DurableScope.ofGlobal, hg,
            Except.toOption]
      rw [hsame]
      exact h
  | some g =>
      have hset (s : Symbol) (slot : Slot) : (st.setGlobal id (g.set s slot)).Distinct :=
        h.setGlobal id ((h id g hg).set s slot)
      cases r with
      | define s v =>
          rw [Store.ask, define_eq hg]
          split
          · exact h
          · split <;> exact hset s _
      | declare s a =>
          rw [Store.ask, declare_global hg]
          split
          · exact h
          · exact hset s _
      | assign s v =>
          cases hs : g.get? s with
          | none =>
              simp only [Store.ask, assignGlobal, hg, hs]
              exact h
          | some slot =>
              rw [Store.ask, assignGlobal_of_some hg hs]
              split
              · exact h
              · exact hset s _
      | mixin source =>
          simp only [Store.ask, mixin, DurableScope.ofGlobal, hg, Except.toOption, Option.getD_some]
          exact h.setGlobal id (h id g hg)

theorem Distinct.asked (h : st.Distinct) (requests : List (GlobalId × GlobalRequest)) :
    (st.asked requests).Distinct := by
  induction requests generalizing st with
  | nil => exact h
  | cons r rs ih => exact ih (h.ask r.1 r.2)

/-! ## All or nothing -/

/-- In the second state this member of the global scope is this slot, and all
else is as in the first. -/
def SetsOnly (st st' : Store) (id : GlobalId) (g : GlobalScope) (s : Symbol) (slot : Slot) :
    Prop :=
  ∃ g', st' = st.setGlobal id g' ∧ st'.globals[id]? = some g' ∧ g'.mixins = g.mixins ∧
    g'.get? s = some slot ∧ (∀ x, x ≠ s → g'.get? x = g.get? x) ∧
    g'.size = if (g.get? s).isSome then g.size else g.size + 1

theorem setsOnly_set (hg : st.globals[id]? = some g) (s : Symbol) (slot : Slot) :
    SetsOnly st (st.setGlobal id (g.set s slot)) id g s slot := by
  refine ⟨g.set s slot, rfl, ?_, g.mixins_set s slot, ?_, fun x hx => ?_, g.size_set s slot⟩
  · rw [getElem?_setGlobal hg, if_pos rfl]
  · rw [GlobalScope.get?_set, if_pos rfl]
  · rw [GlobalScope.get?_set, if_neg hx]

/-- A definition of the symbol with this value fails and is seen to have been
tried: the symbol is no constant, the value is the undefined one, and the member
is not public and undefined already. -/
structure Blanks (g : GlobalScope) (s : Symbol) (v : Value) : Prop where
  not_const : ((g.get? s).getD .undeclared).isConst = false
  isUndefined : v.isUndefined = true
  shows : g.get? s ≠ some (Slot.undeclared.declare .exposed)

/-- How a definition can end. -/
inductive Defines (st : Store) (id : GlobalId) (g : GlobalScope) (s : Symbol) (v : Value) :
    Outcome Unit → Store → Prop
  | refused (hconst : ((g.get? s).getD .undeclared).isConst = true) :
      Defines st id g s v (.raised (ErrorKind.duplicateDeclaration s)) st
  | idle (hconst : ((g.get? s).getD .undeclared).isConst = false) (hv : v.isUndefined = true)
      (hs : g.get? s = some (Slot.undeclared.declare .exposed)) :
      Defines st id g s v (.raised (ErrorKind.undefinedAssignment s)) st
  | blanked {st' : Store} (h : Blanks g s v) (hne : st' ≠ st)
      (hset : SetsOnly st st' id g s (Slot.undeclared.declare .exposed)) :
      Defines st id g s v (.raised (ErrorKind.undefinedAssignment s)) st'
  | defined {st' : Store} (hconst : ((g.get? s).getD .undeclared).isConst = false)
      (hv : v.isUndefined = false) (hset : SetsOnly st st' id g s (.ofValue v)) :
      Defines st id g s v (.done ()) st'

theorem defines (hst : st.Distinct) (hg : st.globals[id]? = some g) (s : Symbol) (v : Value) :
    Defines st id g s v (st.define id s v).1 (st.define id s v).2 := by
  rw [define_eq hg]
  split
  · next hconst => exact .refused hconst
  · next hconst =>
      have hopen : ((g.get? s).getD .undeclared).isConst = false := by simpa using hconst
      split
      · next hv =>
          by_cases hs : g.get? s = some (Slot.undeclared.declare .exposed)
          · have hsame := (setGlobal_eq_self_iff hg).2 ((hst id g hg).set_self hs)
            rw [hsame]
            exact .idle hopen hv hs
          · refine .blanked ⟨hopen, hv, hs⟩ ?_ (setsOnly_set hg s _)
            intro hsame
            exact hs ((hst id g hg).set_eq_self_iff.1 ((setGlobal_eq_self_iff hg).1 hsame))
      · next hv => exact .defined hopen (by simpa using hv) (setsOnly_set hg s _)

/-- In every state, a definition that fails changes nothing exactly if it does
not blank the member. Where it does, it leaves the member public and undefined,
and all else as it was. One that succeeds makes the member public with the
value, and all else stays. It never panics, and it succeeds unless the member is
a constant or the value the undefined one. -/
theorem failed_definition_shows_iff_it_blanks {st₀ : Store} (hst : st₀.Distinct)
    (requests : List (GlobalId × GlobalRequest)) {id : GlobalId} {g : GlobalScope}
    (hg : (st₀.asked requests).globals[id]? = some g) (s : Symbol) (v : Value) :
    let st := st₀.asked requests
    let o := (st.define id s v).1
    let st' := (st.define id s v).2
    (((∃ e, o = .raised e) → st' = st) ↔ ¬ Blanks g s v) ∧
      (Blanks g s v → o = .raised (ErrorKind.undefinedAssignment s) ∧
        SetsOnly st st' id g s (Slot.undeclared.declare .exposed)) ∧
      (o = .done () → SetsOnly st st' id g s (.ofValue v)) ∧
      (o = .done () ↔
        ((g.get? s).getD .undeclared).isConst = false ∧ v.isUndefined = false) ∧
      o ≠ .panicked := by
  intro st o st'
  have hends : Defines st id g s v o st' := defines (hst.asked requests) hg s v
  generalize o = o at hends ⊢
  generalize st' = st' at hends ⊢
  cases hends with
  | refused hconst =>
      have hblanks : ¬ Blanks g s v := fun h => by simpa [hconst] using h.1
      refine ⟨⟨fun _ => hblanks, fun _ _ => rfl⟩, fun h => absurd h hblanks, nofun, ?_, nofun⟩
      simp [hconst]
  | idle hconst hv hs =>
      have hblanks : ¬ Blanks g s v := fun h => h.shows hs
      refine ⟨⟨fun _ => hblanks, fun _ _ => rfl⟩, fun h => absurd h hblanks, nofun, ?_, nofun⟩
      simp [hv]
  | blanked hblanks hne hset =>
      refine ⟨⟨fun h => absurd (h ⟨_, rfl⟩) hne, fun h => absurd hblanks h⟩,
        fun _ => ⟨rfl, hset⟩, nofun, ?_, nofun⟩
      simp [hblanks.isUndefined]
  | defined hconst hv hset =>
      have hblanks : ¬ Blanks g s v := fun h => by simpa [hv] using h.isUndefined
      exact ⟨⟨fun _ => hblanks, fun _ => nofun⟩, fun h => absurd h hblanks, fun _ => hset,
        ⟨fun _ => ⟨hconst, hv⟩, fun _ => rfl⟩, nofun⟩

/-- A constant, a member with a value, and one that is public and undefined. -/
def threeMembers : List (GlobalId × GlobalRequest) :=
  [(0, .declare ⟨540, by decide⟩ { isPublic := true, isConst := true }),
    (0, .define ⟨541, by decide⟩ (.int 5)), (0, .declare ⟨542, by decide⟩ .exposed)]

theorem distinct_oneGlobal : Distinct { globals := #[{}] } := by
  intro id g hg
  rw [Store.eq_empty_of_globals rfl hg]
  exact List.nodup_nil

/-- Of the three only the one with a value is blanked. -/
theorem undefined_definition_blanks_valued_member :
    let st := ({ globals := #[{}] } : Store).asked threeMembers
    let drop (s : Symbol) := (st.define 0 s .undefined).2
    Distinct { globals := #[{}] } ∧ ∃ g, st.globals[0]? = some g ∧
      SetsOnly st (drop ⟨541, by decide⟩) 0 g ⟨541, by decide⟩
        (Slot.undeclared.declare .exposed) ∧
      drop ⟨540, by decide⟩ = st ∧ drop ⟨542, by decide⟩ = st := by
  intro st drop
  have hg : st.globals[0]? = some st.globals[0] := rfl
  have hfails (s : Symbol) :=
    failed_definition_shows_iff_it_blanks distinct_oneGlobal threeMembers hg s .undefined
  refine ⟨distinct_oneGlobal, st.globals[0], hg, ?_, ?_, ?_⟩
  · refine ((hfails _).2.1 ⟨by decide, rfl, fun hs => ?_⟩).2
    have hvalue := congrArg (Option.map fun slot => slot.value.isUndefined) hs
    exact absurd hvalue (by decide)
  · exact (hfails ⟨540, by decide⟩).1.2 (fun h => absurd h.not_const (by decide)) ⟨_, rfl⟩
  · exact (hfails ⟨542, by decide⟩).1.2 (fun h => h.shows rfl) ⟨_, rfl⟩

/-- A definition that fails takes the member's value away. -/
theorem failed_definition_drops_value :
    let st := ({ globals := #[{}] } : Store).asked [(0, .define ⟨500, by decide⟩ (.int 5))]
    ¬ ((∃ e, (st.define 0 ⟨500, by decide⟩ .undefined).1 = .raised e) →
      (st.define 0 ⟨500, by decide⟩ .undefined).2 = st) := by
  intro st hclaim
  have hsame := hclaim ⟨_, rfl⟩
  have hvalue : ((st.globals[0]?.bind (·.get? ⟨500, by decide⟩)).any
    fun slot => slot.value.isUndefined) = false := by decide
  rw [← hsame] at hvalue
  exact absurd hvalue (by decide)

end Store

end ScriptCore

import ScriptCore.Proofs.Continuity
import ScriptCore.Proofs.Walks
import ScriptCore.Proofs.ListedNames

/-!
# What a chain answers

Whatever is asked of a scope is asked of its chain: the scope, the one around
it, and so on, first through the frame and then through what outlives it. The
answer is that of the first link that has one. Four questions are asked this
way, and each is two loops, one that follows keys and one that follows shared
scopes, both with a bound on their steps.

`Searches` says of such a pair of loops what one step does, and nothing else
about them is used. Since a chain determines what comes after each link, it
passes no link twice; so it has no more live scopes than the pool has entries
and no more heap scopes than there are, and the bounds are not met.

The one thing a chain can lack is its end: a link into the frame may be stale.
Then that link is the last, and the loops say so instead of saying that nothing
was found.
-/

namespace ScriptCore

/-! ## The chain of a scope -/

namespace Engine

variable {e : Engine} {r r' : ScopeRef} {links : List ScopeRef} {k : PoolKey} {d : DurableScope}
  {s : Symbol}

/-- The scope around a scope. There is none around a global scope, and none can
be reached from a key that is stale. -/
def enclosing? (e : Engine) : ScopeRef → Option ScopeRef
  | .pooled k => (e.frame.scope? k).map (·.previous)
  | .durable d => (e.store.enclosing? d).map .durable

/-- The scope was in the frame and is not there any more. -/
def isStale (e : Engine) : ScopeRef → Bool
  | .pooled k => (e.frame.scope? k).isNone
  | .durable _ => false

/-- The chain of a scope, as far as it can be followed. -/
inductive Outward (e : Engine) : ScopeRef → List ScopeRef → Prop
  | last {r : ScopeRef} (hend : e.enclosing? r = none) : Outward e r [r]
  | link {r r' : ScopeRef} {links : List ScopeRef} (hnext : e.enclosing? r = some r')
      (hrest : Outward e r' links) : Outward e r (r :: links)

namespace Outward

theorem eq {links' : List ScopeRef} (h : e.Outward r links) (h' : e.Outward r links') :
    links' = links := by
  induction h generalizing links' with
  | last hend =>
      cases h' with
      | last => rfl
      | link hnext' _ => rw [hend] at hnext'; cases hnext'
  | link hnext _ ih =>
      cases h' with
      | last hend' => rw [hnext] at hend'; cases hend'
      | link hnext' hrest' =>
          rw [hnext] at hnext'
          cases hnext'
          rw [ih hrest']

/-- What comes from a link on is the chain of that link. -/
theorem from_link {before after : List ScopeRef} (h : e.Outward r (before ++ r' :: after)) :
    e.Outward r' (r' :: after) := by
  induction before generalizing r with
  | nil =>
      cases h with
      | last hend => exact .last hend
      | link hnext hrest => exact .link hnext hrest
  | cons l before ih =>
      rw [List.cons_append] at h
      generalize hlinks : before ++ r' :: after = links at h
      cases h with
      | last => exact absurd hlinks (List.append_ne_nil_of_right_ne_nil _ (List.cons_ne_nil _ _))
      | link _ hrest =>
          rw [← hlinks] at hrest
          exact ih hrest

theorem nodup (h : e.Outward r links) : links.Nodup := by
  induction h with
  | last => exact List.nodup_singleton _
  | @link r r' links hnext hrest ih =>
      refine List.nodup_cons.2 ⟨fun hmem => ?_, ih⟩
      obtain ⟨before, after, rfl⟩ := List.append_of_mem hmem
      have hsame := hrest.from_link.eq (.link hnext hrest)
      have hlength := congrArg List.length hsame
      simp only [List.length_cons, List.length_append] at hlength
      omega

/-- Nothing comes after a stale link. -/
theorem after_stale {before after : List ScopeRef} (h : e.Outward r (before ++ r' :: after))
    (hstale : e.isStale r' = true) : after = [] := by
  cases r' with
  | durable d => cases hstale
  | pooled k =>
      have hk : e.frame.scope? k = none := Option.isNone_iff_eq_none.1 hstale
      cases h.from_link with
      | last => rfl
      | link hnext _ => simp only [enclosing?, hk, Option.map_none, reduceCtorEq] at hnext

end Outward

/-! ## Every scope has a chain -/

/-- Along heap scopes the position goes down; in between, the frozen part does. -/
theorem exists_outward_of_below (hg : e.store.Grounded) {n : Nat} (hd : d.Below n) :
    ∃ links, e.Outward (.durable d) links := by
  induction n using Nat.strong_induction_on generalizing d with
  | _ n ih =>
      obtain ⟨frozen, anchor⟩ := d
      induction frozen with
      | nil =>
          cases anchor with
          | global id => exact ⟨_, .last rfl⟩
          | heap id =>
              cases hid : e.store.heaps[id]? with
              | none =>
                  refine ⟨_, .last ?_⟩
                  simp only [enclosing?, Store.enclosing?, hid, Option.map_none]
              | some h =>
                  obtain ⟨links, hlinks⟩ := ih id (hd id rfl) (hg id h hid)
                  refine ⟨_, .link ?_ hlinks⟩
                  simp only [enclosing?, Store.enclosing?, hid, Option.map_some]
      | cons f frozen ih' =>
          obtain ⟨links, hlinks⟩ := ih' hd
          exact ⟨_, .link rfl hlinks⟩

theorem exists_outward_durable (hg : e.store.Grounded) (d : DurableScope) :
    ∃ links, e.Outward (.durable d) links := by
  cases ha : d.anchor with
  | global id => exact exists_outward_of_below hg (n := 0) fun id' h => by rw [ha] at h; cases h
  | heap id =>
      refine exists_outward_of_below hg (n := id + 1) fun id' h => ?_
      rw [ha] at h
      cases h
      exact Nat.lt_succ_self id

theorem exists_outward (hg : e.store.Grounded) (hwf : WellFounded e.Encloses) (r : ScopeRef) :
    ∃ links, e.Outward r links := by
  cases r with
  | durable d => exact exists_outward_durable hg d
  | pooled k =>
      induction k using hwf.induction with
      | _ k ih =>
          cases hown : e.frame.scope? k with
          | none => exact ⟨_, .last (by simp only [enclosing?, hown, Option.map_none])⟩
          | some own =>
              have hnext : e.enclosing? (.pooled k) = some own.previous := by
                simp only [enclosing?, hown, Option.map_some]
              cases hprev : own.previous with
              | durable d =>
                  obtain ⟨links, hlinks⟩ := exists_outward_durable hg d
                  exact ⟨_, .link hnext (hprev ▸ hlinks)⟩
              | pooled j =>
                  obtain ⟨links, hlinks⟩ := ih j ⟨own, hown, hprev⟩
                  exact ⟨_, .link hnext (hprev ▸ hlinks)⟩

/-! ## Searches -/

section

variable {α : Type} {ask : ScopeRef → Option α} {missing : EvalError}
  {inner : Nat → DurableScope → Except EvalError α}
  {outer : Nat → ScopeRef → Except EvalError α}

/-- Two loops that ask link after link, one of them through keys and the other,
which the first ends in, through shared scopes. -/
structure Searches (e : Engine) (ask : ScopeRef → Option α) (missing : EvalError)
    (inner : Nat → DurableScope → Except EvalError α)
    (outer : Nat → ScopeRef → Except EvalError α) : Prop where
  leaves : ∀ hops d, outer hops (.durable d) = inner e.store.heaps.size d
  late : ∀ k, outer 0 (.pooled k) = .error (ErrorKind.staleHandle .scope)
  stale : ∀ hops k, e.frame.scope? k = none →
    outer (hops + 1) (.pooled k) = .error (ErrorKind.staleHandle .scope)
  silent : ∀ k, e.frame.scope? k = none → ask (.pooled k) = none
  pooled : ∀ hops k own, e.frame.scope? k = some own →
    outer (hops + 1) (.pooled k) = (ask (.pooled k)).elim (outer hops own.previous) .ok
  frozen : ∀ hops f d,
    inner hops (d.push f) = (ask (.durable (d.push f))).elim (inner hops d) .ok
  heap : ∀ hops (id : HeapId) h, e.store.heaps[id]? = some h →
    inner (hops + 1) (.ofHeap id) = (ask (.durable (.ofHeap id))).elim (inner hops h.previous) .ok
  ends : ∀ hops d, e.store.enclosing? d = none →
    inner hops d = (ask (.durable d)).elim (.error missing) .ok

/-- The answer of a chain whose links answer what `ask` says. -/
def answerAlong (e : Engine) (ask : ScopeRef → Option α) (missing : EvalError)
    (links : List ScopeRef) : Except EvalError α :=
  (links.findSome? ask).elim
    (.error (if links.any e.isStale then ErrorKind.staleHandle .scope else missing)) .ok

theorem answerAlong_cons (hr : e.isStale r = false) :
    e.answerAlong ask missing (r :: links) =
      (ask r).elim (e.answerAlong ask missing links) .ok := by
  unfold answerAlong
  rw [List.findSome?_cons, List.any_cons, hr, Bool.false_or]
  cases ask r <;> rfl

/-- The key of a live scope in the frame. -/
def liveKey? (e : Engine) (r : ScopeRef) : Option PoolKey :=
  r.key?.filter fun k => (e.frame.scope? k).isSome

/-- The position of a heap scope. -/
def heapId? (e : Engine) : ScopeRef → Option HeapId
  | .durable ⟨[], .heap id⟩ => if id < e.store.heaps.size then some id else none
  | _ => none

theorem Searches.inner_eq (h : e.Searches ask missing inner outer) (hc : e.Outward r links)
    (hr : r = .durable d) {hops : Nat} (hhops : (links.filterMap e.heapId?).length ≤ hops) :
    inner hops d = e.answerAlong ask missing links := by
  induction hc generalizing d hops with
  | last hend =>
      subst hr
      rw [h.ends hops d (Option.map_eq_none_iff.1 hend), answerAlong_cons rfl]
      rfl
  | link hnext _ ih =>
      subst hr
      rw [answerAlong_cons rfl]
      obtain ⟨d', hd', rfl⟩ := Option.map_eq_some_iff.1 hnext
      match d with
      | ⟨f :: frozen, anchor⟩ =>
          cases hd'
          rw [← ih rfl hhops]
          exact h.frozen hops f ⟨frozen, anchor⟩
      | ⟨[], .global id⟩ => cases hd'
      | ⟨[], .heap id⟩ =>
          obtain ⟨x, hx, rfl⟩ := Option.map_eq_some_iff.1 hd'
          have hid : e.heapId? (.durable ⟨[], .heap id⟩) = some id :=
            if_pos (Array.getElem?_eq_some_iff.1 hx).1
          rw [List.filterMap_cons_some hid, List.length_cons] at hhops
          obtain ⟨hops, rfl⟩ : ∃ n, hops = n + 1 := ⟨hops - 1, by omega⟩
          rw [← ih rfl (Nat.le_of_succ_le_succ hhops)]
          exact h.heap hops id x hx

theorem Searches.outer_eq (h : e.Searches ask missing inner outer) (hc : e.Outward r links)
    {hops : Nat} (hkeys : (links.filterMap e.liveKey?).length ≤ hops)
    (hheaps : (links.filterMap e.heapId?).length ≤ e.store.heaps.size) :
    outer hops r = e.answerAlong ask missing links := by
  induction hc generalizing hops with
  | @last r hend =>
      cases r with
      | durable d => rw [h.leaves, h.inner_eq (.last hend) rfl hheaps]
      | pooled k =>
          have hk : e.frame.scope? k = none := Option.map_eq_none_iff.1 hend
          have hanswer : e.answerAlong ask missing [.pooled k] =
              .error (ErrorKind.staleHandle .scope) := by
            simp [answerAlong, h.silent k hk, isStale, hk]
          rw [hanswer]
          cases hops with
          | zero => exact h.late k
          | succ hops => exact h.stale hops k hk
  | @link r r' links hnext hrest ih =>
      cases r with
      | durable d => rw [h.leaves, h.inner_eq (.link hnext hrest) rfl hheaps]
      | pooled k =>
          obtain ⟨own, hown, rfl⟩ := Option.map_eq_some_iff.1 hnext
          have hlive : e.liveKey? (.pooled k) = some k := by
            simp [liveKey?, ScopeRef.key?, hown]
          rw [List.filterMap_cons_some hlive, List.length_cons] at hkeys
          obtain ⟨hops, rfl⟩ : ∃ n, hops = n + 1 := ⟨hops - 1, by omega⟩
          rw [h.pooled hops k own hown, answerAlong_cons (by simp [isStale, hown])]
          rw [ih (Nat.le_of_succ_le_succ hkeys) hheaps]

/-! ## The bounds are not met -/

theorem length_liveKeys_le (hnodup : links.Nodup) :
    (links.filterMap e.liveKey?).length ≤ e.frame.scopes.entries.size := by
  have hspec : ∀ r k, e.liveKey? r = some k ↔ r = .pooled k ∧ (e.frame.scope? k).isSome := by
    intro r k
    rw [liveKey?, Option.filter_eq_some_iff, ScopeRef.key?_eq_some]
  refine length_le_of_live (hnodup.filterMap fun r r' k hr hr' => ?_) fun k hk => ?_
  · rw [((hspec r k).1 hr).1, ((hspec r' k).1 hr').1]
  · obtain ⟨r, -, hr⟩ := List.mem_filterMap.1 hk
    exact ((hspec r k).1 hr).2

theorem length_heapIds_le (hnodup : links.Nodup) :
    (links.filterMap e.heapId?).length ≤ e.store.heaps.size := by
  have hspec : ∀ (r : ScopeRef) (id : HeapId), e.heapId? r = some id →
      r = .durable (.ofHeap id) ∧ id < e.store.heaps.size := by
    intro r id h
    unfold heapId? at h
    split at h
    · split at h
      · next hlt => cases h; exact ⟨rfl, hlt⟩
      · cases h
    · cases h
  have hids : (links.filterMap e.heapId?).Nodup := by
    refine hnodup.filterMap fun r r' id hr hr' => ?_
    rw [(hspec r id hr).1, (hspec r' id hr').1]
  have hsub : links.filterMap e.heapId? ⊆ List.range e.store.heaps.size := by
    intro id hid
    obtain ⟨r, -, hr⟩ := List.mem_filterMap.1 hid
    exact List.mem_range.2 (hspec r id hr).2
  have hle := (List.subperm_of_subset hids hsub).length_le
  rwa [List.length_range] at hle

theorem Searches.eq_answerAlong (h : e.Searches ask missing inner outer) (hc : e.Outward r links) :
    outer e.frame.scopes.entries.size r = e.answerAlong ask missing links :=
  h.outer_eq hc (length_liveKeys_le hc.nodup) (length_heapIds_le hc.nodup)

/-! ## What the answer of a chain is -/

/-- The answer is the first that a link gives. Without one it is that a link is
stale, or that there is none. -/
structure AnswersAlong (e : Engine) (links : List ScopeRef) (Gives : ScopeRef → α → Prop)
    (missing : EvalError) (x : Except EvalError α) : Prop where
  found : ∀ a, x = .ok a ↔ ∃ before link after, links = before ++ link :: after ∧
    (∀ l ∈ before, ∀ b, ¬ Gives l b) ∧ Gives link a
  stale : x = .error (ErrorKind.staleHandle .scope) ↔
    ∃ before k after, links = before ++ .pooled k :: after ∧
      (∀ l ∈ before, ∀ b, ¬ Gives l b) ∧ e.frame.scope? k = none
  unfound : x = .error missing ↔ (∀ l ∈ links, ∀ b, ¬ Gives l b) ∧
    ∀ k, .pooled k ∈ links → (e.frame.scope? k).isSome
  nothing_else : ∀ err, x = .error err → err = ErrorKind.staleHandle .scope ∨ err = missing

theorem any_isStale :
    links.any e.isStale = true ↔ ∃ k, .pooled k ∈ links ∧ e.frame.scope? k = none := by
  rw [List.any_eq_true]
  constructor
  · rintro ⟨r, hr, hstale⟩
    cases r with
    | durable d => cases hstale
    | pooled k => exact ⟨k, hr, Option.isNone_iff_eq_none.1 hstale⟩
  · rintro ⟨k, hk, hnone⟩
    exact ⟨_, hk, Option.isNone_iff_eq_none.2 hnone⟩

theorem answerAlong_eq_ok {a : α} : e.answerAlong ask missing links = .ok a ↔
    ∃ before link after, links = before ++ link :: after ∧
      (∀ l ∈ before, ask l = none) ∧ ask link = some a := by
  have hanswer : e.answerAlong ask missing links = .ok a ↔ links.findSome? ask = some a := by
    unfold answerAlong
    cases links.findSome? ask <;> simp
  rw [hanswer, List.findSome?_eq_some_iff]
  refine exists_congr fun before => exists_congr fun link => exists_congr fun after => ?_
  rw [and_comm (a := ask link = some a)]

theorem answerAlong_eq_error {err : EvalError} (h : e.answerAlong ask missing links = .error err) :
    (∀ l ∈ links, ask l = none) ∧
      (links.any e.isStale = true ∧ err = ErrorKind.staleHandle .scope ∨
        links.any e.isStale = false ∧ err = missing) := by
  unfold answerAlong at h
  cases hfound : links.findSome? ask with
  | some a => rw [hfound] at h; cases h
  | none =>
      rw [hfound] at h
      refine ⟨List.findSome?_eq_none_iff.1 hfound, ?_⟩
      cases hstale : links.any e.isStale with
      | true => rw [hstale] at h; cases h; exact .inl ⟨rfl, rfl⟩
      | false => rw [hstale] at h; cases h; exact .inr ⟨rfl, rfl⟩

theorem answerAlong_of_silent (h : ∀ l ∈ links, ask l = none) : e.answerAlong ask missing links =
    .error (if links.any e.isStale then ErrorKind.staleHandle .scope else missing) := by
  rw [answerAlong, List.findSome?_eq_none_iff.2 h]
  rfl

theorem Outward.answersAlong (hc : e.Outward r links) {Gives : ScopeRef → α → Prop}
    (hgives : ∀ l a, Gives l a ↔ ask l = some a)
    (hsilent : ∀ k, e.frame.scope? k = none → ask (.pooled k) = none)
    (hmissing : missing ≠ ErrorKind.staleHandle .scope) :
    e.AnswersAlong links Gives missing (e.answerAlong ask missing links) := by
  have hnone : ∀ l, (∀ b, ¬ Gives l b) ↔ ask l = none := by
    intro l
    rw [Option.eq_none_iff_forall_ne_some]
    exact forall_congr' fun b => not_congr (hgives l b)
  refine ⟨fun a => ?_, ?_, ?_, fun err herr => ?_⟩
  · simp only [hnone]
    simp only [hgives]
    exact answerAlong_eq_ok
  · simp only [hnone]
    constructor
    · intro herr
      obtain ⟨hall, ⟨hstale, -⟩ | ⟨-, heq⟩⟩ := answerAlong_eq_error herr
      · obtain ⟨k, hk, hgone⟩ := any_isStale.1 hstale
        obtain ⟨before, after, rfl⟩ := List.append_of_mem hk
        exact ⟨before, k, after, rfl, fun l hl => hall l (List.mem_append_left _ hl), hgone⟩
      · exact absurd heq.symm hmissing
    · rintro ⟨before, k, after, rfl, hbefore, hgone⟩
      -- the stale link is the last, so those before it are all the others
      have hafter : after = [] := hc.after_stale (Option.isNone_iff_eq_none.2 hgone)
      subst hafter
      have hstale : (before ++ [ScopeRef.pooled k]).any e.isStale = true :=
        any_isStale.2 ⟨k, List.mem_append_right before List.mem_cons_self, hgone⟩
      rw [answerAlong_of_silent, if_pos hstale]
      intro l hl
      rcases List.mem_append.1 hl with hl | hl
      · exact hbefore l hl
      · rw [List.mem_singleton.1 hl]
        exact hsilent k hgone
  · simp only [hnone]
    constructor
    · intro herr
      obtain ⟨hall, ⟨-, heq⟩ | ⟨hlive, -⟩⟩ := answerAlong_eq_error herr
      · exact absurd heq hmissing
      · refine ⟨hall, fun k hk => ?_⟩
        rw [Option.isSome_iff_ne_none]
        intro hgone
        rw [any_isStale.2 ⟨k, hk, hgone⟩] at hlive
        cases hlive
    · rintro ⟨hall, hlive⟩
      rw [answerAlong_of_silent hall, if_neg]
      rintro hstale
      obtain ⟨k, hk, hgone⟩ := any_isStale.1 hstale
      have hsome := hlive k hk
      rw [hgone] at hsome
      cases hsome
  · obtain ⟨-, ⟨-, heq⟩ | ⟨-, heq⟩⟩ := answerAlong_eq_error herr
    · exact .inl heq
    · exact .inr heq

end

/-! ## Names -/

/-- Where the storage of a scope has a symbol declared. -/
def ownSlot? (e : Engine) (r : ScopeRef) (s : Symbol) : Option SlotRef :=
  match r with
  | .pooled k => do
    let own ← e.frame.scope? k
    let table ← e.frame.tables.get? own.members
    let i ← e.store.ownIndex? own.shape table.slots s
    return .pooled own.members i s
  | .durable ⟨f :: _, _⟩ => (e.store.ownIndex? f.shape f.members.slots s).map (.frozen f · s)
  | .durable ⟨[], .heap id⟩ => do
    let h ← e.store.heaps[id]?
    let i ← e.store.ownIndex? h.shape h.members.slots s
    return .heap id i s
  | .durable ⟨[], .global id⟩ => do
    let g ← e.store.globals[id]?
    let _ ← g.get? s
    return .global id s

/-- Where the storage has a symbol, told by the parts of the slot. -/
theorem ownSlot?_eq_of_place {x : Symbol} {t : PoolKey} {i : Nat}
    (h : (match e.ownSlot? r s with
      | some (.pooled t i x) => some (t, i, x)
      | _ => none) = some (t, i, x)) : e.ownSlot? r s = some (.pooled t i x) := by
  split at h
  · next heq =>
      cases h
      exact heq
  · cases h

/-- A source shows its own public members, and no others. -/
def Exposes (e : Engine) (id : SourceId) (s : Symbol) : Prop :=
  match e.store.sources[id]? with
  | some (.scope d) => ∃ slot, e.store.ownMember? d s = some slot ∧ slot.isPublic = true
  | some (.fixed members) => ∃ v, (s, v) ∈ members
  | none => False

/-- A link has a symbol if it declares it, else through the first of its mixins
that exposes it. -/
inductive Names (e : Engine) (s : Symbol) (r : ScopeRef) : SlotRef → Prop
  | own {slot : SlotRef} (hown : e.ownSlot? r s = some slot) : Names e s r slot
  | mixin {before after : List SourceId} {id : SourceId} (hown : e.ownSlot? r s = none)
      (hmixins : e.mixinsOf r = before ++ id :: after)
      (hbefore : ∀ j ∈ before, ¬ e.Exposes j s) (hid : e.Exposes id s) :
      Names e s r (.mixin id s)

theorem exposes_iff {id : SourceId} :
    e.Exposes id s ↔ (e.store.sourceMember? id s).isSome = true := by
  unfold Exposes Store.sourceMember?
  cases e.store.sources[id]? with
  | none => simp
  | some source =>
      cases source with
      | scope d =>
          dsimp only
          rw [Store.isSome_publicMember?, Option.any_eq_true]
      | fixed members =>
          dsimp only
          rw [Option.isSome_map, List.find?_isSome]
          simp

theorem Names.of_first_mixin {id : SourceId} {after : List SourceId}
    (hown : e.ownSlot? r s = none) (hmixins : e.mixinsOf r = id :: after)
    (hid : (e.store.sourceMember? id s).isSome = true) : e.Names s r (.mixin id s) :=
  .mixin hown (show e.mixinsOf r = [] ++ id :: after from hmixins) nofun (exposes_iff.2 hid)

theorem not_names (hown : e.ownSlot? r s = none)
    (hmixins : ∀ id ∈ e.mixinsOf r, ¬ (e.store.sourceMember? id s).isSome = true)
    (slot : SlotRef) : ¬ e.Names s r slot := by
  rintro (hslot | ⟨-, hall, -, hid⟩)
  · rw [hown] at hslot
    cases hslot
  · refine hmixins _ ?_ (exposes_iff.1 hid)
    rw [hall]
    exact List.mem_append_right _ List.mem_cons_self

section

variable (hm : ∀ k own, e.frame.scope? k = some own → (e.frame.tables.get? own.members).isSome)
include hm

theorem findOwn?_eq (r : ScopeRef) (s : Symbol) : e.findOwn? r s =
    (e.ownSlot? r s).or ((e.store.findMixin? (e.mixinsOf r) s).map (.mixin · s)) := by
  match r with
  | .pooled k =>
      simp only [findOwn?, ownSlot?, mixinsOf]
      cases hown : e.frame.scope? k with
      | none => rfl
      | some own =>
          obtain ⟨t, ht⟩ := Option.isSome_iff_exists.1 (hm k own hown)
          simp only [Option.bind_eq_bind, Option.bind_some, ht,
            ownIndex?_eq (Frame.getTable_of_get? ht)]
          cases e.store.ownIndex? own.shape t.slots s <;> rfl
  | .durable ⟨f :: frozen, anchor⟩ =>
      simp only [findOwn?, Store.findOwn?, Store.findFrozen?, ownSlot?]
      cases e.store.ownIndex? f.shape f.members.slots s <;> rfl
  | .durable ⟨[], .heap id⟩ =>
      simp only [findOwn?, Store.findOwn?, Store.findHeap?, ownSlot?, mixinsOf, Store.mixinsOf,
        Store.ownListing]
      cases e.store.heaps[id]? with
      | none => rfl
      | some h =>
          simp only [Option.bind_eq_bind, Option.bind_some]
          cases e.store.ownIndex? h.shape h.members.slots s <;> rfl
  | .durable ⟨[], .global id⟩ =>
      simp only [findOwn?, Store.findOwn?, Store.findGlobal?, ownSlot?, mixinsOf, Store.mixinsOf,
        Store.ownListing]
      cases e.store.globals[id]? with
      | none => rfl
      | some g =>
          simp only [Option.bind_eq_bind, Option.bind_some]
          cases g.get? s <;> rfl

theorem names_iff {slot : SlotRef} : e.Names s r slot ↔ e.findOwn? r s = some slot := by
  rw [findOwn?_eq hm]
  constructor
  · rintro (hown | ⟨hown, hmixins, hbefore, hid⟩)
    · rw [hown, Option.some_or]
    · rw [hown, Option.none_or, Store.findMixin?, hmixins, List.find?_append]
      have hnone := List.find?_eq_none.2 fun j hj => mt exposes_iff.2 (hbefore j hj)
      simp only [hnone, Option.none_or, List.find?_cons, exposes_iff.1 hid, Option.map_some]
  · intro h
    cases hown : e.ownSlot? r s with
    | some slot' =>
        rw [hown, Option.some_or] at h
        cases h
        exact .own hown
    | none =>
        rw [hown, Option.none_or] at h
        obtain ⟨id, hid, rfl⟩ := Option.map_eq_some_iff.1 h
        obtain ⟨hexposed, before, after, hmixins, hbefore⟩ := List.find?_eq_some_iff_append.1 hid
        refine .mixin hown hmixins (fun j hj hexposes => ?_) (exposes_iff.2 hexposed)
        have := hbefore j hj
        rw [exposes_iff.1 hexposes] at this
        cases this

theorem searches_resolve (s : Symbol) :
    e.Searches (e.findOwn? · s) (ErrorKind.noSuchMember s) (e.store.resolveWithin s)
      (e.resolveWithin s) where
  leaves hops d := by cases hops <;> rfl
  late _ := rfl
  stale hops k hk := by simp only [resolveWithin, Frame.getScope, hk]
  silent k hk := by simp only [findOwn?, hk, Option.bind_eq_bind, Option.bind_none]
  pooled hops k own hown := by
    obtain ⟨t, ht⟩ := Option.isSome_iff_exists.1 (hm k own hown)
    simp only [resolveWithin, findOwn?, getScope_of_scope? hown, hown, Option.bind_eq_bind,
      Option.bind_some, ownIndex?_eq (Frame.getTable_of_get? ht)]
    cases e.store.ownIndex? own.shape t.slots s with
    | some i => rfl
    | none => cases e.store.findMixin? own.mixins s <;> rfl
  frozen hops f d := by
    rw [Store.resolveWithin_push]
    show _ = (e.store.findFrozen? s f).elim _ _
    cases e.store.findFrozen? s f <;> rfl
  heap hops id h hid := by
    conv_lhs => unfold Store.resolveWithin
    simp only [DurableScope.ofHeap, List.findSome?_nil, hid, findOwn?, Store.findOwn?,
      Option.bind_some]
    cases e.store.findHeap? id h s <;> rfl
  ends hops d hd := by
    obtain ⟨frozen, anchor⟩ := d
    cases frozen with
    | cons f frozen => cases hd
    | nil =>
        cases anchor with
        | heap id =>
            have hid : e.store.heaps[id]? = none := Option.map_eq_none_iff.1 hd
            unfold Store.resolveWithin
            simp only [List.findSome?_nil, hid, findOwn?, Store.findOwn?, Option.bind_none]
            rfl
        | global id =>
            unfold Store.resolveWithin
            simp only [List.findSome?_nil, findOwn?, Store.findOwn?]
            cases e.store.findGlobal? id s <;> rfl

end

/-! ## Activations -/

/-- The kind of a scope; none for a global one, and for one that is stale. -/
def kind? (e : Engine) : ScopeRef → Option ScopeKind
  | .pooled k => (e.frame.scope? k).map (·.kind)
  | .durable d => e.store.kind? d

/-- The super of an activation is the bound one if both it and a receiver are
bound, else the function the callee overrides, else null. -/
inductive Supers (e : Engine) (b : FunctionBinding) : Value → Prop
  | bound {receiver v : Value} (hthis : b.this = some receiver) (hsuper : b.super = some v) :
      Supers e b v
  | overridden {f : FunctionId} (hfree : b.this = none ∨ b.super = none)
      (hf : e.store.functions[b.callee]?.bind Function.overridden = some f) :
      Supers e b (.function f)
  | null (hfree : b.this = none ∨ b.super = none)
      (hf : e.store.functions[b.callee]?.bind Function.overridden = none) : Supers e b .null

/-- The scope is that of an activation with a bound receiver. -/
def GivesThis (e : Engine) (r : ScopeRef) (v : Value) : Prop :=
  ∃ b, e.kind? r = some (.function b) ∧ b.this = some v

def GivesCallee (e : Engine) (r : ScopeRef) (v : Value) : Prop :=
  ∃ b, e.kind? r = some (.function b) ∧ v = .function b.callee

def GivesSuper (e : Engine) (r : ScopeRef) (v : Value) : Prop :=
  ∃ b, e.kind? r = some (.function b) ∧ e.Supers b v

theorem superValue_of_free {fs : Functions} {b : FunctionBinding}
    (h : b.this = none ∨ b.super = none) : b.superValue fs =
      ((fs[b.callee]?.bind Function.overridden).map Value.function).getD .null := by
  unfold FunctionBinding.superValue
  split
  · next hthis hsuper =>
      rcases h with h | h
      · rw [h] at hthis; cases hthis
      · rw [h] at hsuper; cases hsuper
  · cases fs[b.callee]?.bind Function.overridden <;> rfl

theorem supers_iff {b : FunctionBinding} {v : Value} :
    e.Supers b v ↔ b.superValue e.store.functions = v := by
  constructor
  · intro h
    cases h with
    | bound hthis hsuper => rw [FunctionBinding.superValue, hthis, hsuper]
    | overridden hfree hf => rw [superValue_of_free hfree, hf]; rfl
    | null hfree hf => rw [superValue_of_free hfree, hf]; rfl
  · rintro rfl
    by_cases hfree : b.this = none ∨ b.super = none
    · rw [superValue_of_free hfree]
      cases hf : e.store.functions[b.callee]?.bind Function.overridden with
      | none => exact .null hfree hf
      | some f => exact .overridden hfree hf
    · obtain ⟨hthis, hsuper⟩ := not_or.1 hfree
      obtain ⟨receiver, hthis⟩ := Option.ne_none_iff_exists'.1 hthis
      obtain ⟨v, hsuper⟩ := Option.ne_none_iff_exists'.1 hsuper
      rw [FunctionBinding.superValue, hthis, hsuper]
      exact .bound hthis hsuper

/-- What a scope answers, if activations answer what `pick` says. -/
def pick? (e : Engine) (pick : ScopeKind → Option Value) (r : ScopeRef) : Option Value :=
  (e.kind? r).bind pick

theorem givesThis_iff (v : Value) : e.GivesThis r v ↔ e.pick? ScopeKind.this? r = some v := by
  rw [pick?, Option.bind_eq_some_iff]
  constructor
  · rintro ⟨b, hb, hv⟩
    exact ⟨.function b, hb, hv⟩
  · rintro ⟨kind, hkind, hv⟩
    cases kind with
    | block => cases hv
    | function b => exact ⟨b, hkind, hv⟩

theorem givesCallee_iff (v : Value) :
    e.GivesCallee r v ↔ e.pick? ScopeKind.callee? r = some v := by
  rw [pick?, Option.bind_eq_some_iff]
  constructor
  · rintro ⟨b, hb, rfl⟩
    exact ⟨.function b, hb, rfl⟩
  · rintro ⟨kind, hkind, hv⟩
    cases kind with
    | block => cases hv
    | function b => exact ⟨b, hkind, (Option.some.inj hv).symm⟩

theorem givesSuper_iff (v : Value) :
    e.GivesSuper r v ↔ e.pick? (ScopeKind.super? e.store.functions) r = some v := by
  rw [pick?, Option.bind_eq_some_iff]
  constructor
  · rintro ⟨b, hb, hv⟩
    exact ⟨.function b, hb, congrArg some (supers_iff.1 hv)⟩
  · rintro ⟨kind, hkind, hv⟩
    cases kind with
    | block => cases hv
    | function b => exact ⟨b, hkind, supers_iff.2 (Option.some.inj hv)⟩

theorem searches_escalate (pick : ScopeKind → Option Value) (missing : ErrorKind) :
    e.Searches (e.pick? pick) missing (e.store.escalateWithin pick missing)
      (e.escalateWithin pick missing) where
  leaves hops d := by cases hops <;> rfl
  late _ := rfl
  stale hops k hk := by simp only [escalateWithin, Frame.getScope, hk]
  silent k hk := by simp only [pick?, kind?, hk, Option.map_none, Option.bind_none]
  pooled hops k own hown := by
    simp only [escalateWithin, getScope_of_scope? hown, pick?, kind?, hown, Option.map_some,
      Option.bind_some]
    cases pick own.kind <;> rfl
  frozen hops f d := by
    rw [Store.escalateWithin_push]
    show _ = (pick f.kind).elim _ _
    cases pick f.kind <;> rfl
  heap hops id h hid := by
    conv_lhs => unfold Store.escalateWithin
    simp only [DurableScope.ofHeap, List.findSome?_nil, hid, pick?, kind?, Store.kind?,
      Option.map_some, Option.bind_some]
    cases pick h.kind <;> rfl
  ends hops d hd := by
    obtain ⟨frozen, anchor⟩ := d
    cases frozen with
    | cons f frozen => cases hd
    | nil =>
        cases anchor with
        | heap id =>
            have hid : e.store.heaps[id]? = none := Option.map_eq_none_iff.1 hd
            unfold Store.escalateWithin
            simp only [List.findSome?_nil, hid, pick?, kind?, Store.kind?, Option.map_none,
              Option.bind_none, Option.elim_none]
        | global id =>
            unfold Store.escalateWithin
            rfl

theorem Outward.escalate_along (hc : e.Outward r links) {pick : ScopeKind → Option Value}
    {missing : ErrorKind} {Gives : ScopeRef → Value → Prop}
    (hgives : ∀ l v, Gives l v ↔ e.pick? pick l = some v)
    (hmissing : (missing : EvalError) ≠ ErrorKind.staleHandle .scope) :
    e.AnswersAlong links Gives missing (e.escalate pick missing r) := by
  have hsearch := searches_escalate (e := e) pick missing
  rw [escalate, hsearch.eq_answerAlong hc]
  exact hc.answersAlong hgives hsearch.silent hmissing

end Engine

/-! ## Every run -/

namespace Machine

/-- In every run in which scopes are enclosed by scopes that were there, each
scope has a chain. A chain is the only one and passes no scope twice. A symbol
resolves to what the first link that has it has it as, and what an activation is
asked for is answered by the first activation that has it. A search that finds
nothing says that a link is stale if one is, and otherwise that there is
nothing. -/
theorem resolution_follows_chain {store : Store} {config : FrameConfig} {global : GlobalId}
    {flag : FlagId} {os : List Op} (hos : Lawful 0 (start store config global flag) os)
    (r : ScopeRef) :
    let m := (start store config global flag).run os
    let e := m.engine
    (store.Grounded → (∀ st, .share st ∈ os → st.Grounded) →
      (start store config global flag).Rooted [] os → m.Unwrapped → ∃ links, e.Outward r links) ∧
    ∀ links, e.Outward r links →
      links.Nodup ∧ (∀ links', e.Outward r links' → links' = links) ∧
      (∀ s, e.AnswersAlong links (e.Names s) (ErrorKind.noSuchMember s) (e.resolve r s)) ∧
      e.AnswersAlong links e.GivesCallee ErrorKind.noCallee (e.callee r) ∧
      e.AnswersAlong links e.GivesSuper ErrorKind.noSuper (e.super r) ∧
      e.AnswersAlong links e.GivesThis ErrorKind.noThis (e.this r) := by
  intro m e
  have hm := tracked_start store config global flag
  have howned := (owned_start store config global flag).run hm hos
  have hmembers := (Frame.ownership_of_kept howned.kept).members
  constructor
  · intro hgrounded hshare hrooted hunwrapped
    have hlineage := (lineage_start store config global flag).run hm hrooted hunwrapped
    exact Engine.exists_outward (grounded_run hgrounded hshare) hlineage.wellFounded r
  · intro links hc
    refine ⟨hc.nodup, fun links' h' => hc.eq h', fun s => ?_, ?_, ?_, ?_⟩
    · have hsearch := Engine.searches_resolve hmembers s
      rw [Engine.resolve, hsearch.eq_answerAlong hc]
      exact hc.answersAlong (fun l slot => Engine.names_iff hmembers) hsearch.silent (by simp)
    · exact hc.escalate_along (fun l v => Engine.givesCallee_iff v) (by simp)
    · exact hc.escalate_along (fun l v => Engine.givesSuper_iff v) (by simp)
    · exact hc.escalate_along (fun l v => Engine.givesThis_iff v) (by simp)

/-- An activation over a block that is gone. It declares one name, and has
another from a source that names both: the first resolves to its own slot, the
second to the source. It answers for its function, and what it does not answer
ends at the stale link. -/
theorem resolution_follows_broken_chain :
    let m := start { shapes := #[.empty], globals := #[{}] } {} 0 0
    let x : Symbol := ⟨500, by decide⟩
    let y : Symbol := ⟨501, by decide⟩
    let z : Symbol := ⟨502, by decide⟩
    let os : List Op :=
      [.allocateBlock (.ofGlobal 0) 0, .allocateTable 0,
        .allocateFunction ⟨0, none, none⟩ (.pooled ⟨0, 0⟩) 0 ⟨⟨1, 0⟩, 0⟩,
        .declare (.pooled ⟨1, 0⟩) x {}, .mixin (.pooled ⟨1, 0⟩) (.fixed [(x, .null), (y, .null)]),
        .freeScope (.pooled ⟨0, 0⟩)]
    let e := (m.run os).engine
    Lawful 0 m os ∧ m.Rooted [] os ∧ (m.run os).Unwrapped ∧ m.engine.store.Grounded ∧
      e.resolve (.pooled ⟨1, 0⟩) x = .ok (.pooled ⟨1, 0⟩ 0 x) ∧
      e.resolve (.pooled ⟨1, 0⟩) y = .ok (.mixin 0 y) ∧
      e.resolve (.pooled ⟨1, 0⟩) z = .error (ErrorKind.staleHandle .scope) ∧
      e.callee (.pooled ⟨1, 0⟩) = .ok (.function 0) ∧
      e.this (.pooled ⟨1, 0⟩) = .error (ErrorKind.staleHandle .scope) := by
  intro m x y z os e
  have hos : Lawful 0 m os := by decide +kernel
  have hrooted : m.Rooted [] os := by decide +kernel
  have hunwrapped : (m.run os).Unwrapped := by
    intro i
    have hle := scopeReleases_run_le os m i
    have hfew : m.scopeReleases i + os.length = 6 := rfl
    omega
  have hgrounded : m.engine.store.Grounded := by
    intro id h hid
    cases hid
  obtain ⟨hchain, hanswers⟩ := resolution_follows_chain hos (.pooled ⟨1, 0⟩)
  obtain ⟨links, hc⟩ := hchain hgrounded (by simp [os]) hrooted hunwrapped
  obtain ⟨-, honly, hnames, hcallee, -, hthis⟩ := hanswers links hc
  have hgone : e.frame.scope? ⟨0, 0⟩ = none := Option.isNone_iff_eq_none.1 (by decide +kernel)
  have hlink : e.enclosing? (.pooled ⟨1, 0⟩) = some (.pooled ⟨0, 0⟩) := by
    have hkey : (e.frame.scope? ⟨1, 0⟩).map (·.previous.key?) = some (some ⟨0, 0⟩) := by
      decide +kernel
    obtain ⟨own, hown, hprev⟩ := Option.map_eq_some_iff.1 hkey
    rw [Engine.enclosing?, hown, Option.map_some, ScopeRef.key?_eq_some.1 hprev]
  have hlast : e.enclosing? (.pooled ⟨0, 0⟩) = none := by
    rw [Engine.enclosing?, hgone, Option.map_none]
  obtain rfl := honly _ (.link hlink (.last hlast))
  have hown : e.ownSlot? (.pooled ⟨1, 0⟩) x = some (.pooled ⟨1, 0⟩ 0 x) :=
    Engine.ownSlot?_eq_of_place (by decide +kernel)
  have hfree : ∀ s ∈ [y, z], e.ownSlot? (.pooled ⟨1, 0⟩) s = none := by
    have hnone : ∀ s ∈ [y, z], (e.ownSlot? (.pooled ⟨1, 0⟩) s).isNone := by decide +kernel
    exact fun s hs => Option.isNone_iff_eq_none.1 (hnone s hs)
  have hmixins : e.mixinsOf (.pooled ⟨1, 0⟩) = [0] := by decide +kernel
  have hshown : (e.store.sourceMember? 0 y).isSome = true := by decide +kernel
  have hhidden : ¬ (e.store.sourceMember? 0 z).isSome = true := by decide +kernel
  have hgives : e.pick? ScopeKind.callee? (.pooled ⟨1, 0⟩) = some (.function 0) := by
    obtain ⟨v, hv, hfunction⟩ := (Option.any_eq_true _ _).1 (show
      (e.pick? ScopeKind.callee? (.pooled ⟨1, 0⟩)).any (·.equal (.function 0)) = true by
        decide +kernel)
    rw [hv]
    cases v <;> simp_all [Value.equal]
  have hsilent : e.pick? ScopeKind.this? (.pooled ⟨1, 0⟩) = none := by decide +kernel
  refine ⟨hos, hrooted, hunwrapped, hgrounded, ((hnames x).found _).2 ?_,
    ((hnames y).found _).2 ?_, (hnames z).stale.2 ?_, (hcallee.found _).2 ?_, hthis.stale.2 ?_⟩
  · exact ⟨[], _, _, rfl, nofun, .own hown⟩
  · exact ⟨[], _, _, rfl, nofun, .of_first_mixin (hfree y (by simp)) hmixins hshown⟩
  · refine ⟨[.pooled ⟨1, 0⟩], ⟨0, 0⟩, [], rfl, fun l hl slot hz => ?_, hgone⟩
    rw [List.mem_singleton.1 hl] at hz
    refine Engine.not_names (hfree z (by simp)) (fun id hid => ?_) slot hz
    rw [hmixins, List.mem_singleton] at hid
    exact hid ▸ hhidden
  · exact ⟨[], _, _, rfl, nofun, (Engine.givesCallee_iff _).2 hgives⟩
  · refine ⟨[.pooled ⟨1, 0⟩], ⟨0, 0⟩, [], rfl, fun l hl v hv => ?_, hgone⟩
    rw [List.mem_singleton.1 hl, Engine.givesThis_iff, hsilent] at hv
    cases hv

end Machine

end ScriptCore

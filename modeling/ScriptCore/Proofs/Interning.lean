import ScriptCore.Interner
import ScriptCore.Proofs.ShapeOrder

/-!
# Names and ids determine each other

An interner holds the same numbering twice: a list that is read by position and
a map that is read by name. The invariant is that both are one list of names,
which is only ever appended to; then either direction undoes the other, and what
is appended later leaves what was read before as it is.

Ids end where 32 bits end. The list has room for one name for each id there is
from `firstInterned` on, and that it never holds more is part of the invariant:
it is what makes the position of every listed name an id.
-/

namespace ScriptCore

namespace Symbol

variable {s : Symbol} {n : Nat}

theorem ofNat?_eq_some : ofNat? n = some s ↔ s.toNat = n := by
  constructor
  · intro h
    unfold ofNat? ofId? at h
    split at h
    · next hlt =>
        split at h
        · cases h
          exact Nat.mod_eq_of_lt hlt
        · cases h
    · cases h
  · rintro rfl
    exact ofNat?_toNat s

theorem exists_toNat (hpos : 0 < n) (hlt : n < idBound) : ∃ s : Symbol, s.toNat = n := by
  have htoNat : (UInt32.ofNat n).toNat = n := Nat.mod_eq_of_lt hlt
  refine ⟨⟨UInt32.ofNat n, fun hzero => ?_⟩, htoNat⟩
  rw [hzero] at htoNat
  exact absurd htoNat (Nat.ne_of_lt hpos)

end Symbol

namespace Interner

variable {t : Interner} {l : List String} {name : String} {s : Symbol} {i : Nat}

/-- The number of names that there are ids for. -/
def room : Nat := Symbol.idBound - Symbol.firstInterned

theorem symbolAt?_eq_some : symbolAt? i = some s ↔ s.toNat = Symbol.firstInterned + i :=
  Symbol.ofNat?_eq_some

theorem exists_symbolAt? (hi : i < room) : ∃ s, symbolAt? i = some s := by
  unfold room at hi
  obtain ⟨s, hs⟩ := Symbol.exists_toNat (n := Symbol.firstInterned + i)
    (by unfold Symbol.firstInterned; omega) (by omega)
  exact ⟨s, symbolAt?_eq_some.2 hs⟩

theorem symbolAt?_eq_none (hi : room ≤ i) : symbolAt? i = none := by
  cases hs : symbolAt? i with
  | none => rfl
  | some s =>
      have hlt := s.toNat_lt
      have hat := symbolAt?_eq_some.1 hs
      unfold room at hi
      omega

theorem getElem?_concat_eq_some {new : String} :
    (l ++ [new])[i]? = some name ↔ l[i]? = some name ∨ i = l.length ∧ new = name := by
  rw [List.getElem?_append]
  split
  · next hlt => simp [Nat.ne_of_lt hlt]
  · next hge =>
      have hnone : l[i]? = none := List.getElem?_eq_none (Nat.not_lt.1 hge)
      simp only [hnone, List.getElem?_singleton, reduceCtorEq, false_or]
      split
      · simp only [Option.some.injEq, iff_and_self]
        omega
      · simp only [reduceCtorEq, false_iff]
        omega

/-! ## The list of an interner -/

/-- An interner whose list and map are the two directions of one numbering. -/
structure Lists (t : Interner) (l : List String) : Prop where
  names : t.names = l.toArray
  ids : ∀ name s, t.ids[name]? = some s ↔
    ∃ i, s.toNat = Symbol.firstInterned + i ∧ l[i]? = some name
  fits : l.length ≤ room

namespace Lists

theorem size (h : t.Lists l) : t.size = l.length := by
  rw [Interner.size, h.names, List.size_toArray]

theorem getElem? (h : t.Lists l) (i : Nat) : t.names[i]? = l[i]? := by
  rw [h.names, List.getElem?_toArray]

theorem lookup?_eq_some (h : t.Lists l) :
    t.lookup? s = some name ↔ ∃ i, s.toNat = Symbol.firstInterned + i ∧ l[i]? = some name := by
  unfold lookup? Symbol.isReserved
  rw [h.getElem?]
  constructor
  · intro hs
    split at hs
    · cases hs
    · next hreserved =>
        have hle : Symbol.firstInterned ≤ s.toNat := by simpa using hreserved
        exact ⟨s.toNat - Symbol.firstInterned, by omega, hs⟩
  · rintro ⟨i, hat, hi⟩
    have hle : ¬ (decide (s.toNat < Symbol.firstInterned)) = true := by
      simp only [decide_eq_true_eq]
      omega
    rw [if_neg hle, hat, Nat.add_sub_cancel_left]
    exact hi

theorem get?_eq_some (h : t.Lists l) :
    t.get? name = some s ↔ ∃ i, s.toNat = Symbol.firstInterned + i ∧ l[i]? = some name :=
  h.ids name s

theorem get?_eq_some_iff_lookup? (h : t.Lists l) :
    t.get? name = some s ↔ t.lookup? s = some name := by
  rw [h.get?_eq_some, h.lookup?_eq_some]

/-- Every listed name has an id. -/
theorem exists_get? (h : t.Lists l) (hi : l[i]? = some name) :
    ∃ s, s.toNat = Symbol.firstInterned + i ∧ t.get? name = some s := by
  have hlt : i < l.length := (List.getElem?_eq_some_iff.1 hi).1
  obtain ⟨s, hs⟩ := exists_symbolAt? (Nat.lt_of_lt_of_le hlt h.fits)
  have hat := symbolAt?_eq_some.1 hs
  exact ⟨s, hat, h.get?_eq_some.2 ⟨i, hat, hi⟩⟩

theorem get?_eq_none (h : t.Lists l) : t.get? name = none ↔ name ∉ l := by
  constructor
  · intro hnone hmem
    obtain ⟨i, hi⟩ := List.getElem?_of_mem hmem
    obtain ⟨s, -, hs⟩ := h.exists_get? hi
    rw [hnone] at hs
    cases hs
  · intro hnot
    cases hs : t.get? name with
    | none => rfl
    | some s =>
        obtain ⟨i, -, hi⟩ := h.get?_eq_some.1 hs
        exact absurd (List.mem_of_getElem? hi) hnot

theorem lookup?_eq_none (h : t.Lists l) :
    t.lookup? s = none ↔
      s.toNat < Symbol.firstInterned ∨ Symbol.firstInterned + l.length ≤ s.toNat := by
  rw [← not_iff_not, ← ne_eq, Option.ne_none_iff_exists']
  constructor
  · rintro ⟨name, hname⟩
    obtain ⟨i, hat, hi⟩ := h.lookup?_eq_some.1 hname
    have hlt := (List.getElem?_eq_some_iff.1 hi).1
    omega
  · intro hrange
    have hlt : s.toNat - Symbol.firstInterned < l.length := by omega
    exact ⟨_, h.lookup?_eq_some.2 ⟨_, by omega, List.getElem?_eq_getElem hlt⟩⟩

/-! ## One call -/

/-- The new name goes to the end of the list, where the map sends it; no other
name is there, so what the map says of the others is still right. -/
theorem append (h : t.Lists l) (hnew : name ∉ l) (hs : symbolAt? l.length = some s) :
    (⟨t.ids.insert name s, t.names.push name⟩ : Interner).Lists (l ++ [name]) where
  names := by rw [h.names, List.push_toArray]
  ids other u := by
    have hat := symbolAt?_eq_some.1 hs
    simp only [Std.HashMap.getElem?_insert, getElem?_concat_eq_some]
    split
    · next hsame =>
        obtain rfl := eq_of_beq hsame
        constructor
        · intro hu
          cases hu
          exact ⟨l.length, hat, .inr ⟨rfl, rfl⟩⟩
        · rintro ⟨i, hi, hold | ⟨rfl, -⟩⟩
          · exact absurd (List.mem_of_getElem? hold) hnew
          · rw [Symbol.toNat_inj.1 (hat.trans hi.symm)]
    · next hother =>
        have hne : name ≠ other := fun heq => hother (beq_iff_eq.2 heq)
        simp only [h.ids, hne, and_false, or_false]
  fits := by
    have hlt := s.toNat_lt
    rw [symbolAt?_eq_some.1 hs] at hlt
    rw [List.length_append]
    unfold room
    simp only [List.length_singleton]
    omega

theorem intern_of_not_mem (h : t.Lists l) (hnew : name ∉ l) (hroom : l.length < room) :
    ∃ s t', t.intern name = .ok (s, t') ∧ s.toNat = Symbol.firstInterned + l.length ∧
      t'.Lists (l ++ [name]) := by
  obtain ⟨s, hs⟩ := exists_symbolAt? hroom
  refine ⟨s, ⟨t.ids.insert name s, t.names.push name⟩, ?_, symbolAt?_eq_some.1 hs, h.append hnew hs⟩
  simp only [intern, h.get?_eq_none.2 hnew, h.size, hs]

theorem intern_of_full (h : t.Lists l) (hnew : name ∉ l) (hfull : room ≤ l.length) :
    t.intern name = .error (.exhausted l.length) := by
  simp only [intern, h.get?_eq_none.2 hnew, h.size, symbolAt?_eq_none hfull]

end Lists

theorem intern_of_get? (hs : t.get? name = some s) : t.intern name = .ok (s, t) := by
  rw [intern, hs]

theorem after_of_ok {t' : Interner} (h : t.intern name = .ok (s, t')) : t.after name = t' := by
  rw [after, h]

theorem after_of_error {err : InternError} (h : t.intern name = .error err) :
    t.after name = t := by
  rw [after, h]

theorem run_concat (t : Interner) (names : List String) (name : String) :
    t.run (names ++ [name]) = (t.run names).after name := List.foldl_concat ..

/-! ## A sequence of calls -/

/-- The names that have an id after a sequence of calls on a fresh interner. -/
def interned (seen : List String) : List String := seen.eraseDups.take room

theorem lists_empty : empty.Lists (interned []) := by
  refine ⟨rfl, fun name s => ?_, Nat.zero_le room⟩
  simp [empty, interned]

theorem interned_concat_of_mem {seen : List String} (h : name ∈ interned seen) :
    interned (seen ++ [name]) = interned seen := by
  have hmem : name ∈ seen := List.mem_eraseDups.1 (List.mem_of_mem_take h)
  rw [interned, eraseDups_concat_of_mem hmem, interned]

theorem interned_concat_of_full {seen : List String} (h : room ≤ (interned seen).length) :
    interned (seen ++ [name]) = interned seen := by
  obtain ⟨rest, hrest⟩ : seen.eraseDups <+: (seen ++ [name]).eraseDups := eraseDups_append_prefix
  have hlong : room ≤ seen.eraseDups.length := by
    rw [interned, List.length_take] at h
    omega
  rw [interned, ← hrest, List.take_append_of_le_length hlong, interned]

theorem interned_concat_of_not_mem {seen : List String} (hnew : name ∉ interned seen)
    (hroom : (interned seen).length < room) :
    interned (seen ++ [name]) = interned seen ++ [name] := by
  have hshort : seen.eraseDups.length < room := by
    rw [interned, List.length_take] at hroom
    omega
  have hall : interned seen = seen.eraseDups := List.take_of_length_le hshort.le
  have hfresh : name ∉ seen := fun hmem => hnew (hall ▸ List.mem_eraseDups.2 hmem)
  rw [hall, interned, eraseDups_concat_of_not_mem hfresh, List.take_of_length_le]
  rw [List.length_append]
  exact hshort

theorem Lists.after {seen : List String} (h : t.Lists (interned seen)) (name : String) :
    (t.after name).Lists (interned (seen ++ [name])) := by
  by_cases hmem : name ∈ interned seen
  · obtain ⟨i, hi⟩ := List.getElem?_of_mem hmem
    obtain ⟨s, -, hs⟩ := h.exists_get? hi
    rw [interned_concat_of_mem hmem, after_of_ok (intern_of_get? hs)]
    exact h
  · by_cases hroom : (interned seen).length < room
    · obtain ⟨s, t', hok, -, hlists⟩ := h.intern_of_not_mem hmem hroom
      rw [interned_concat_of_not_mem hmem hroom, after_of_ok hok]
      exact hlists
    · have hfull := Nat.not_lt.1 hroom
      rw [interned_concat_of_full hfull, after_of_error (h.intern_of_full hmem hfull)]
      exact h

theorem lists_run (seen : List String) : (empty.run seen).Lists (interned seen) := by
  induction seen using List.reverseRecOn with
  | nil => exact lists_empty
  | append_singleton seen name ih =>
      rw [run_concat]
      exact ih.after name

theorem interned_prefix_append (seen later : List String) :
    interned seen <+: interned (seen ++ later) :=
  eraseDups_append_prefix.take room

/-! ## The correspondence -/

/-- What an interner with the given names answers, and what the next call does to it. -/
structure Corresponds (t : Interner) (known : List String) : Prop where
  size : t.size = known.length
  id_at : ∀ i name, known[i]? = some name →
    ∃ s, s.toNat = Symbol.firstInterned + i ∧ t.get? name = some s
  get_none : ∀ name, t.get? name = none ↔ name ∉ known
  lookup_get : ∀ name ∈ known, (t.get? name).bind t.lookup? = some name
  get_lookup : ∀ name s, t.get? name = some s → (t.lookup? s).bind t.get? = some s
  lookup_none : ∀ s, t.lookup? s = none ↔
    s.toNat < Symbol.firstInterned ∨ Symbol.firstInterned + t.size ≤ s.toNat
  again : ∀ name s, t.get? name = some s → t.intern name = .ok (s, t)
  minted : ∀ name, name ∉ known → Symbol.firstInterned + t.size ≤ Symbol.idBound - 1 →
    ∃ s, s.toNat = Symbol.firstInterned + t.size ∧ t.intern name = .ok (s, t.after name)
  refused : ∀ name err, t.intern name = .error err ↔
    name ∉ known ∧ Symbol.idBound - 1 < Symbol.firstInterned + t.size ∧ err = .exhausted t.size
  refused_unchanged : ∀ name err, t.intern name = .error err → t.after name = t

theorem lt_room : i < room ↔ Symbol.firstInterned + i ≤ Symbol.idBound - 1 := by
  unfold room Symbol.idBound
  omega

theorem Lists.refused (h : t.Lists l) (err : InternError) :
    t.intern name = .error err ↔ name ∉ l ∧
      Symbol.idBound - 1 < Symbol.firstInterned + t.size ∧ err = .exhausted t.size := by
  rw [← Nat.not_le, ← lt_room, h.size]
  constructor
  · intro herr
    have hnew : name ∉ l := by
      rw [← h.get?_eq_none]
      cases hs : t.get? name with
      | none => rfl
      | some s => rw [intern_of_get? hs] at herr; cases herr
    have hfull : ¬ l.length < room := by
      intro hroom
      obtain ⟨s, t', hok, -⟩ := h.intern_of_not_mem hnew hroom
      rw [hok] at herr
      cases herr
    rw [h.intern_of_full hnew (Nat.not_lt.1 hfull)] at herr
    cases herr
    exact ⟨hnew, hfull, rfl⟩
  · rintro ⟨hnew, hfull, rfl⟩
    exact h.intern_of_full hnew (Nat.not_lt.1 hfull)

theorem Lists.corresponds (h : t.Lists l) : t.Corresponds l where
  size := h.size
  id_at _ _ hi := h.exists_get? hi
  get_none _ := h.get?_eq_none
  lookup_get name hmem := by
    obtain ⟨i, hi⟩ := List.getElem?_of_mem hmem
    obtain ⟨s, -, hs⟩ := h.exists_get? hi
    rw [hs]
    exact h.get?_eq_some_iff_lookup?.1 hs
  get_lookup name s hs := by
    rw [h.get?_eq_some_iff_lookup?.1 hs]
    exact hs
  lookup_none _ := by
    rw [h.size]
    exact h.lookup?_eq_none
  again _ _ := intern_of_get?
  minted name hnew hroom := by
    rw [← lt_room, h.size] at hroom
    obtain ⟨s, t', hok, hat, -⟩ := h.intern_of_not_mem hnew hroom
    rw [h.size, after_of_ok hok]
    exact ⟨s, hat, hok⟩
  refused _ err := h.refused err
  refused_unchanged _ _ := after_of_error

/-- Whatever was interned, names and ids determine each other, and what is
interned later changes nothing about them. -/
theorem names_and_ids_correspond (seen later : List String) :
    (empty.run seen).Corresponds (interned seen) ∧
      (∀ name s, (empty.run seen).get? name = some s →
        (empty.run (seen ++ later)).get? name = some s) ∧
      ∀ s name, (empty.run seen).lookup? s = some name →
        (empty.run (seen ++ later)).lookup? s = some name := by
  have hseen := lists_run seen
  have hlater := lists_run (seen ++ later)
  have hkept : ∀ s name, (empty.run seen).lookup? s = some name →
      (empty.run (seen ++ later)).lookup? s = some name := by
    intro s name hs
    obtain ⟨i, hat, hi⟩ := hseen.lookup?_eq_some.1 hs
    have hlt := (List.getElem?_eq_some_iff.1 hi).1
    refine hlater.lookup?_eq_some.2 ⟨i, hat, ?_⟩
    rw [← hi, List.getElem?_eq_getElem hlt]
    exact List.prefix_iff_getElem?.1 (interned_prefix_append seen later) i hlt
  refine ⟨hseen.corresponds, fun name s hs => ?_, hkept⟩
  exact hlater.get?_eq_some_iff_lookup?.2 (hkept s name (hseen.get?_eq_some_iff_lookup?.1 hs))

end Interner

end ScriptCore

import ScriptCore.Proofs.Primes
import ScriptCore.Shape.Buckets
import Mathlib.Data.Int.GCD
import Mathlib.Data.List.Nodup
import Mathlib.Data.List.Perm.Basic

/-!
# Buckets that hold what was put into them

A walk from the home of a symbol ends where the symbol is, or at the first
empty bucket. Two things have to be known of it. The first is that it does not
go round in circles: the number of buckets is prime and the stride is smaller,
so the walk passes every bucket, and it can only be exhausted if none is empty.
The second is that what was placed is found again, although later symbols are
placed on the same way. It is: a bucket that a walk passed was taken already,
and stays taken, so a new symbol never comes to stand in between.

`Holds` puts this together for a bucket array and the entries placed into it,
and both ways of filling one keep it: placing an entry, and placing all entries
of another array in the order they happen to have there.
-/

namespace ScriptCore

namespace Buckets

variable {b : Buckets} {s t : Symbol} {left i j k n m slot : Nat}

/-! ## The walk -/

theorem probeFrom_found (h : probeFrom b s left i n = (.found j slot, m)) :
    b[j]? = some (some ⟨s, slot⟩) := by
  induction left generalizing i n with
  | zero => simp [probeFrom] at h
  | succ left ih =>
      unfold probeFrom at h
      split at h
      · next e he =>
          split at h
          · next hs =>
              simp only [Prod.mk.injEq, Probe.found.injEq] at h
              obtain ⟨⟨rfl, rfl⟩, -⟩ := h
              rw [he, ← hs]
          · exact ih h
      · simp at h

theorem probeFrom_vacant (h : probeFrom b s left i n = (.vacant j, m)) (hi : i < b.size) :
    b[j]? = some none := by
  induction left generalizing i n with
  | zero => simp [probeFrom] at h
  | succ left ih =>
      unfold probeFrom at h
      split at h
      · split at h
        · simp at h
        · exact ih h (Nat.mod_lt _ (by omega))
      · next hno =>
          simp only [Prod.mk.injEq, Probe.vacant.injEq] at h
          obtain ⟨rfl, -⟩ := h
          rw [Array.getElem?_eq_getElem hi] at hno ⊢
          cases hb : b[i] with
          | none => rfl
          | some e => exact absurd (by rw [hb]) (hno e)

/-- A walk that is exhausted found every bucket on its way taken. -/
theorem probeFrom_exhausted (h : probeFrom b s left i n = (.exhausted, m)) (hi : i < b.size) :
    ∀ k < left, ∃ e, b[(i + k * stride b.size s) % b.size]? = some (some e) := by
  induction left generalizing i n with
  | zero => intro k hk; omega
  | succ left ih =>
      unfold probeFrom at h
      split at h
      · next e he =>
          split at h
          · simp at h
          · intro k hk
            cases k with
            | zero =>
                rw [Nat.zero_mul, Nat.add_zero, Nat.mod_eq_of_lt hi]
                exact ⟨e, he⟩
            | succ k =>
                obtain ⟨e', he'⟩ := ih h (Nat.mod_lt _ (by omega)) k (by omega)
                refine ⟨e', ?_⟩
                rw [← he', Nat.mod_add_mod]
                congr 2
                rw [Nat.add_mul]
                omega
      · simp at h

/-! ## All the way round -/

theorem stride_pos (c : Nat) (s : Symbol) : 0 < stride c s := by
  unfold stride
  omega

theorem stride_lt {c : Nat} (hc : 2 < c) (s : Symbol) : stride c s < c := by
  have := Nat.mod_lt s.toNat (show 0 < c - 2 by omega)
  unfold stride
  omega

theorem home_lt {c : Nat} (hc : 0 < c) (s : Symbol) : home c s < c := Nat.mod_lt _ hc

/-- With a prime number of buckets the walk comes to each of them. -/
theorem exists_step {c i d : Nat} (hc : c.Prime) (hd : 0 < d) (hdc : d < c) (hi : i < c)
    (hj : j < c) : ∃ k < c, (i + k * d) % c = j := by
  have hco : Nat.Coprime d c := (Nat.coprime_of_lt_prime (by omega) hdc hc).symm
  -- as many steps as it takes to cover the distance from `i` to `j`
  obtain ⟨k, hk, hkd⟩ := Nat.exists_mul_mod_eq_of_coprime (j + (c - i)) hco hc.ne_zero
  refine ⟨k, hk, ?_⟩
  calc (i + k * d) % c = (i + d * k % c) % c := by rw [Nat.add_mod_mod, Nat.mul_comm]
    _ = (i + (j + (c - i))) % c := by rw [hkd, Nat.add_mod_mod]
    _ = (j + c) % c := by congr 1; omega
    _ = j := by rw [Nat.add_mod_right, Nat.mod_eq_of_lt hj]

/-- A walk is exhausted only if no bucket is empty. -/
theorem probe_exhausted (hb : b.size.Prime) (hb3 : 2 < b.size)
    (h : (b.probe s).1 = .exhausted) (hj : j < b.size) : ∃ e, b[j]? = some (some e) := by
  have hhome : home b.size s < b.size := home_lt (by omega) s
  obtain ⟨k, hk, hkj⟩ :=
    exists_step hb (stride_pos b.size s) (stride_lt hb3 s) hhome hj
  rw [← hkj]
  exact probeFrom_exhausted (Prod.ext h rfl) hhome k hk

/-! ## Placing an entry -/

/-- The walk to an empty bucket leads to what is put there. -/
theorem probeFrom_set_vacant (h : probeFrom b s left i n = (.vacant j, m)) (hi : i < b.size) :
    probeFrom (b.setIfInBounds j (some ⟨s, slot⟩)) s left i n = (.found j slot, m) := by
  have hj := probeFrom_vacant h hi
  have hjlt : j < b.size := (Array.getElem?_eq_some_iff.1 hj).1
  induction left generalizing i n with
  | zero => simp [probeFrom] at h
  | succ left ih =>
      unfold probeFrom at h ⊢
      split at h
      · next e he =>
          have hne : j ≠ i := by
            rintro rfl
            rw [hj] at he
            cases he
          split at h
          · simp at h
          · next hs =>
              rw [Array.getElem?_setIfInBounds_ne hne, he]
              simp only [hs, if_false, Array.size_setIfInBounds]
              exact ih h (Nat.mod_lt _ (by omega))
      · simp only [Prod.mk.injEq, Probe.vacant.injEq] at h
        obtain ⟨rfl, rfl⟩ := h
        simp [hjlt]

/-- A walk that found its symbol finds it still when an empty bucket is taken. -/
theorem probeFrom_set_found {v : Option Bucket} (hj : b[j]? = some none)
    (h : probeFrom b t left i n = (.found k slot, m)) :
    probeFrom (b.setIfInBounds j v) t left i n = (.found k slot, m) := by
  induction left generalizing i n with
  | zero => simp [probeFrom] at h
  | succ left ih =>
      unfold probeFrom at h ⊢
      split at h
      · next e he =>
          have hne : j ≠ i := by
            rintro rfl
            rw [hj] at he
            cases he
          rw [Array.getElem?_setIfInBounds_ne hne, he]
          simp only [Array.size_setIfInBounds]
          split at h
          · next hs =>
              rw [if_pos hs]
              exact h
          · next hs =>
              rw [if_neg hs]
              exact ih h
      · simp at h

theorem probe_set_vacant (hj : (b.probe s).1 = .vacant j) (hb : 0 < b.size) :
    probe (b.setIfInBounds j (some ⟨s, slot⟩)) s = (.found j slot, (b.probe s).2) := by
  unfold probe
  rw [Array.size_setIfInBounds]
  exact probeFrom_set_vacant (Prod.ext hj rfl) (home_lt hb s)

theorem probe_set_found {v : Option Bucket} (hj : b[j]? = some none)
    (h : (b.probe t).1 = .found k slot) : probe (b.setIfInBounds j v) t = b.probe t := by
  have hwalk : b.probe t = (.found k slot, (b.probe t).2) := Prod.ext h rfl
  rw [hwalk, probe, Array.size_setIfInBounds]
  exact probeFrom_set_found hj hwalk

/-- The walk of each symbol ends at its entry. -/
def Findable (b : Buckets) : Prop :=
  ∀ (i : Nat) (e : Bucket), b[i]? = some (some e) → (b.probe e.symbol).1 = .found i e.slot

theorem Findable.set_vacant (h : b.Findable) (hj : (b.probe s).1 = .vacant j) (hb : 0 < b.size) :
    Findable (b.setIfInBounds j (some ⟨s, slot⟩)) := by
  have hempty : b[j]? = some none := probeFrom_vacant (Prod.ext hj rfl) (home_lt hb s)
  intro i e he
  by_cases hij : j = i
  · subst hij
    obtain rfl : ⟨s, slot⟩ = e := by
      simpa [(Array.getElem?_eq_some_iff.1 hempty).1] using he
    rw [probe_set_vacant hj hb]
  · rw [Array.getElem?_setIfInBounds_ne hij] at he
    have hfound := h i e he
    rw [probe_set_found hempty hfound, hfound]

/-! ## What an array holds -/

def entries (b : Buckets) : List Bucket := b.toList.filterMap id

theorem mem_entries {e : Bucket} : e ∈ b.entries ↔ ∃ i : Nat, b[i]? = some (some e) := by
  rw [entries, List.mem_filterMap]
  simp only [id_eq, exists_eq_right]
  rw [List.mem_iff_getElem?]
  simp only [Array.getElem?_toList]

/-- The entries of an array are `es` in some order, no symbol is among them twice, and the walk
of each of their symbols ends at its entry. -/
structure Holds (b : Buckets) (es : List Bucket) : Prop where
  perm : b.entries.Perm es
  nodup : (es.map Bucket.symbol).Nodup
  found : ∀ (i : Nat) (e : Bucket), b[i]? = some (some e) → (b.probe e.symbol).1 = .found i e.slot

namespace Holds

variable {es fs : List Bucket}

theorem congr (h : Holds b es) (hp : es.Perm fs) : Holds b fs where
  perm := h.perm.trans hp
  nodup := (hp.map Bucket.symbol).nodup_iff.1 h.nodup
  found := h.found

theorem mem_iff (h : Holds b es) {e : Bucket} : e ∈ es ↔ ∃ i : Nat, b[i]? = some (some e) := by
  rw [← h.perm.mem_iff, mem_entries]

theorem get?_eq_some_iff (h : Holds b es) : b.get? s = some n ↔ ⟨s, n⟩ ∈ es := by
  unfold get?
  constructor
  · intro hget
    split at hget
    · next i slot hp =>
        obtain rfl : slot = n := by simpa using hget
        exact h.mem_iff.2 ⟨i, probeFrom_found (Prod.ext hp rfl)⟩
    · cases hget
  · intro hmem
    obtain ⟨i, hi⟩ := h.mem_iff.1 hmem
    rw [h.found i _ hi]

theorem get?_eq_none_iff (h : Holds b es) : b.get? s = none ↔ s ∉ es.map Bucket.symbol := by
  rw [Option.eq_none_iff_forall_ne_some, List.mem_map, not_exists]
  constructor
  · rintro hall e ⟨he, rfl⟩
    exact hall e.slot (h.get?_eq_some_iff.2 he)
  · intro hall n hn
    exact hall ⟨s, n⟩ ⟨h.get?_eq_some_iff.1 hn, rfl⟩

end Holds

theorem holds_empty (c : Nat) : Holds (empty c) [] where
  perm := by simp [entries, empty]
  nodup := List.nodup_nil
  found := by
    intro i e he
    simp [empty, Array.getElem?_replicate] at he

/-- Without an empty bucket there are as many entries as buckets. -/
theorem length_entries_of_full (h : ∀ j < b.size, ∃ e, b[j]? = some (some e)) :
    b.entries.length = b.size := by
  have hall : ∀ o ∈ b.toList, (id o).isSome := by
    intro o ho
    obtain ⟨j, hj⟩ := List.mem_iff_getElem?.1 ho
    rw [Array.getElem?_toList] at hj
    obtain ⟨e, he⟩ := h j (Array.getElem?_eq_some_iff.1 hj).1
    rw [hj, Option.some.injEq] at he
    rw [he]
    rfl
  rw [entries, List.length_filterMap_eq_countP, List.countP_eq_length.2 hall, Array.length_toList]

theorem entries_set_vacant {e : Bucket} (hj : b[j]? = some none) :
    (entries (b.setIfInBounds j (some e))).Perm (e :: b.entries) := by
  have hlist : ∀ (l : List (Option Bucket)) (j : Nat), l[j]? = some none →
      ((l.set j (some e)).filterMap id).Perm (e :: l.filterMap id) := by
    intro l
    induction l with
    | nil => intro j hj; simp at hj
    | cons o l ih =>
        intro j hj
        cases j with
        | zero =>
            obtain rfl : o = none := by simpa using hj
            exact List.Perm.refl _
        | succ j =>
            have hl := ih j (by simpa using hj)
            cases o with
            | none => exact hl
            | some f => exact (hl.cons f).trans (List.Perm.swap e f _)
  rw [entries, Array.toList_setIfInBounds]
  exact hlist b.toList j (by rw [Array.getElem?_toList, hj])

/-! ## Filling an array -/

namespace Holds

variable {es fs : List Bucket}

/-- A new symbol finds an empty bucket as long as there is one. -/
theorem probe_vacant (h : Holds b es) (hb : b.size ∈ Capacity.primes) (hlen : es.length < b.size)
    (hs : s ∉ es.map Bucket.symbol) : ∃ i, (b.probe s).1 = .vacant i := by
  cases hp : (b.probe s).1 with
  | vacant i => exact ⟨i, rfl⟩
  | found i slot =>
      have hmem := h.mem_iff.2 ⟨i, probeFrom_found (Prod.ext hp rfl)⟩
      exact absurd (List.mem_map_of_mem hmem) hs
  | exhausted =>
      have hfull := length_entries_of_full fun j hj =>
        probe_exhausted (Capacity.prime_of_mem hb) (Capacity.two_lt_of_mem hb) hp hj
      have := h.perm.length_eq
      omega

theorem insert (h : Holds b es) (slot : Nat) (hb : b.size ∈ Capacity.primes)
    (hlen : es.length < b.size) (hs : s ∉ es.map Bucket.symbol) :
    ∃ b', b.insert s slot = .ok b' ∧ b'.size = b.size ∧ Holds b' (⟨s, slot⟩ :: es) := by
  obtain ⟨i, hp⟩ := h.probe_vacant hb hlen hs
  have hpos : 0 < b.size := by
    have := Capacity.two_lt_of_mem hb
    omega
  have hi : b[i]? = some none := probeFrom_vacant (Prod.ext hp rfl) (home_lt hpos s)
  refine ⟨b.setIfInBounds i (some ⟨s, slot⟩), ?_, Array.size_setIfInBounds, ?_, ?_, ?_⟩
  · rw [Buckets.insert, hp]
  · exact (entries_set_vacant hi).trans (h.perm.cons _)
  · rw [List.map_cons]
    exact List.nodup_cons.2 ⟨hs, h.nodup⟩
  · exact Findable.set_vacant h.found hp hpos

/-- Placing all entries of a list of buckets, one after the other. -/
theorem insertAll {os : List (Option Bucket)} (h : Holds b es) (hb : b.size ∈ Capacity.primes)
    (hlen : (os.filterMap id ++ es).length ≤ b.size)
    (hnodup : ((os.filterMap id ++ es).map Bucket.symbol).Nodup) :
    ∃ b', os.foldlM (fun b o =>
        match o with
        | some e => Buckets.insert b e.symbol e.slot
        | none => .ok b) b = .ok b' ∧
      b'.size = b.size ∧ Holds b' (os.filterMap id ++ es) := by
  induction os generalizing b es with
  | nil => exact ⟨b, rfl, rfl, h⟩
  | cons o os ih =>
      cases o with
      | none => exact ih h hb hlen hnodup
      | some e =>
          -- the entry moves from the front of the rest to the front of what is placed
          have hp : (e :: (os.filterMap id ++ es)).Perm (os.filterMap id ++ e :: es) :=
            List.perm_middle.symm
          have hnodup' := (hp.map Bucket.symbol).nodup_iff.1 hnodup
          have hlen' : (os.filterMap id ++ e :: es).length ≤ b.size := hp.length_eq ▸ hlen
          have hnew : e.symbol ∉ es.map Bucket.symbol := by
            rw [List.map_append, List.map_cons] at hnodup'
            exact (List.nodup_cons.1 hnodup'.of_append_right).1
          have hroom : es.length < b.size := by
            simp only [List.length_append, List.length_cons] at hlen'
            omega
          obtain ⟨b₁, hins, hsize, hh⟩ := h.insert e.slot hb hroom hnew
          obtain ⟨b₂, hfold, hsize', hh'⟩ :=
            ih hh (hsize ▸ hb) (hsize ▸ hlen') hnodup'
          refine ⟨b₂, ?_, hsize'.trans hsize, hh'.congr hp.symm⟩
          rw [List.foldlM_cons]
          simp only [hins]
          exact hfold

theorem rehash {c : Nat} (h : Holds b es) (hc : c ∈ Capacity.primes) (hlen : es.length ≤ c) :
    ∃ b', b.rehash c = .ok b' ∧ b'.size = c ∧ Holds b' es := by
  have hsize : (Buckets.empty c).size = c := Array.size_replicate
  have hp : (b.toList.filterMap id ++ []).Perm es := by
    rw [List.append_nil]
    exact h.perm
  obtain ⟨b', hfold, hsize', hh⟩ := (holds_empty c).insertAll (hsize.symm ▸ hc)
    (by rw [hp.length_eq, hsize]; exact hlen) ((hp.map Bucket.symbol).nodup_iff.2 h.nodup)
  exact ⟨b', hfold, hsize'.trans hsize, hh.congr hp⟩

end Holds

end Buckets

end ScriptCore

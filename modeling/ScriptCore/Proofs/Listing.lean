import ScriptCore.Scope.Durable
import Mathlib.Data.Finset.Card
import Mathlib.Logic.Relation

/-!
# The bound on a listing is never met

A listing follows mixins into their sources and the mixins of those. It is cut
off at a depth that is the number of sources, and this file shows that the
cut-off does not show: where the nesting ends at all, each level of it uses up
one source, which cannot come again further in. So any depth that is at least
the number of the other sources gives the same listing.

A source that is mixed into itself, directly or through others, is what the
condition leaves out; listing it has no end.
-/

namespace ScriptCore.Store

variable {st : Store} {p : Bool} {d : DurableScope} {id : SourceId} {n : Nat}

/-- What is mixed into the innermost scope of a chain. -/
def mixinsOf (st : Store) (d : DurableScope) : List SourceId := (st.ownListing true d).2

/-- The members of source `inner` are listed with those of source `outer`. -/
def Feeds (st : Store) (inner outer : SourceId) : Prop :=
  ∃ d, st.sources[outer]? = some (.scope d) ∧ inner ∈ st.mixinsOf d

/-- The symbols of a source, mixins nested at most `depth` deep. -/
def sourceWithin (st : Store) (p : Bool) (depth : Nat) (id : SourceId) : List Symbol :=
  match st.sources[id]? with
  | some (.scope d) => st.symbolsWithin p depth d
  | some (.fixed ms) => ms.map (·.1)
  | none => []

theorem ownListing_snd (p : Bool) (d : DurableScope) : (st.ownListing p d).2 = st.mixinsOf d := by
  unfold mixinsOf ownListing
  split
  · rfl
  · split <;> rfl
  · split <;> rfl

theorem symbolsWithin_zero (p : Bool) (d : DurableScope) :
    st.symbolsWithin p 0 d = (st.ownListing p d).1 := by
  rw [symbolsWithin]

theorem symbolsWithin_succ (p : Bool) (depth : Nat) (d : DurableScope) :
    st.symbolsWithin p (depth + 1) d =
      (st.ownListing p d).1 ++ (st.mixinsOf d).flatMap (st.sourceWithin p depth) := by
  rw [symbolsWithin, ← ownListing_snd p d]
  rfl

/-- A source whose nesting ends is not mixed into itself. -/
theorem not_transGen_self (hacc : Acc st.Feeds id) : ¬ Relation.TransGen st.Feeds id id := by
  have htrans := hacc.transGen
  clear hacc
  induction htrans with
  | intro id _ ih => exact fun hself => ih id hself hself

theorem sourceWithin_of_none (h : st.sources[id]? = none) : st.sourceWithin p n id = [] := by
  rw [sourceWithin, h]

/-- One level more does not show once the sources further in are covered. -/
theorem sourceWithin_succ (hacc : Acc st.Feeds id) (inner : Finset SourceId)
    (hinner : ∀ j, Relation.TransGen st.Feeds j id → st.sources[j]? ≠ none → j ∈ inner)
    (hn : inner.card ≤ n) : st.sourceWithin p (n + 1) id = st.sourceWithin p n id := by
  induction hacc generalizing inner n with
  | intro id hacc ih =>
      simp only [sourceWithin]
      cases hid : st.sources[id]? with
      | none => rfl
      | some source =>
          cases source with
          | fixed ms => rfl
          | scope d =>
              have hfeeds : ∀ j ∈ st.mixinsOf d, st.Feeds j id := fun j hj => ⟨d, hid, hj⟩
              show st.symbolsWithin p (n + 1) d = st.symbolsWithin p n d
              rw [symbolsWithin_succ]
              cases n with
              | zero =>
                  -- nothing is left, so all that is mixed in is missing
                  have hnone : ∀ j ∈ st.mixinsOf d, st.sourceWithin p 0 j = [] := by
                    intro j hj
                    refine sourceWithin_of_none (by_contra fun hsome => ?_)
                    have hmem := hinner j (.single (hfeeds j hj)) hsome
                    exact absurd (Finset.card_pos.2 ⟨j, hmem⟩) (by omega)
                  rw [symbolsWithin_zero, List.flatMap_eq_nil_iff.2 hnone, List.append_nil]
              | succ n =>
                  rw [symbolsWithin_succ]
                  congr 1
                  refine List.flatMap_congr fun j hj => ?_
                  by_cases hsome : st.sources[j]? = none
                  · rw [sourceWithin_of_none hsome, sourceWithin_of_none hsome]
                  · have hmem := hinner j (.single (hfeeds j hj)) hsome
                    refine ih j (hfeeds j hj) (inner.erase j) (fun i hi hsome' => ?_) ?_
                    · -- what is further in than `j` is not `j`
                      have hne : i ≠ j := by
                        rintro rfl
                        exact not_transGen_self (hacc i (hfeeds i hj)) hi
                      exact Finset.mem_erase.2 ⟨hne, hinner i (hi.tail (hfeeds j hj)) hsome'⟩
                    · have := Finset.card_erase_of_mem hmem
                      omega

/-- The number of sources bounds the nesting with one level to spare. -/
theorem sourceSymbols_eq (hacc : Acc st.Feeds id) (hn : st.sources.size = n + 1) :
    st.sourceSymbols p id = st.sourceWithin p n id := by
  have hfull : st.sourceSymbols p id = st.sourceWithin p st.sources.size id := rfl
  by_cases hid : st.sources[id]? = none
  · rw [hfull, sourceWithin_of_none hid, sourceWithin_of_none hid]
  · have hlt : id < st.sources.size := by
      rw [Array.getElem?_eq_none_iff] at hid
      exact Nat.not_le.1 hid
    rw [hfull, hn]
    refine sourceWithin_succ hacc ((Finset.range st.sources.size).erase id)
      (fun j hj hsome => ?_) ?_
    · have hne : j ≠ id := by
        rintro rfl
        exact not_transGen_self hacc hj
      rw [ne_eq, Array.getElem?_eq_none_iff] at hsome
      exact Finset.mem_erase.2 ⟨hne, Finset.mem_range.2 (Nat.not_le.1 hsome)⟩
    · rw [Finset.card_erase_of_mem (Finset.mem_range.2 hlt), Finset.card_range]
      omega

/-- The listing of a scope is its own symbols and the listings of its mixins. -/
theorem symbols_eq (d : DurableScope) (hacc : ∀ id ∈ st.mixinsOf d, Acc st.Feeds id) :
    st.symbols d p =
      (st.ownListing p d).1 ++ (st.mixinsOf d).flatMap (st.sourceSymbols p) := by
  unfold symbols
  cases hn : st.sources.size with
  | zero =>
      have hnone : ∀ id ∈ st.mixinsOf d, st.sourceSymbols p id = [] := by
        intro id _
        have hid : st.sources[id]? = none := Array.getElem?_eq_none (by omega)
        rw [sourceSymbols, hid]
      rw [symbolsWithin_zero, List.flatMap_eq_nil_iff.2 hnone, List.append_nil]
  | succ n =>
      rw [symbolsWithin_succ]
      congr 1
      exact List.flatMap_congr fun id hid => (sourceSymbols_eq (hacc id hid) hn).symm

end ScriptCore.Store

import ScriptCore.Proofs.Schedule

/-!
# Going through the symbols of a shape

A cursor goes through one bucket array, from the first bucket to the last. Each
symbol is in one bucket, so it is met once, and after the last bucket nothing
comes any more. What is less obvious is what others may do to the shape in the
meantime, and the two things they can do differ. A symbol that is placed in the
array is met if its bucket is still to come. A shape that grows leaves the array
as it is for good, so from then on nothing that is created shows, however much
it is and whatever becomes of it.

A `Listing` is a shape with one cursor, and `run` is what the cursor answers
while symbols are created between its steps.
-/

namespace ScriptCore

namespace Buckets

variable {b : Buckets} {position : Nat}

/-- The symbols from a position on. -/
def symbolsFrom (b : Buckets) (position : Nat) : List Symbol :=
  (b.toList.drop position).filterMap (Option.map Bucket.symbol)

theorem symbolsFrom_of_le (h : b.size ≤ position) : b.symbolsFrom position = [] := by
  rw [symbolsFrom, List.drop_eq_nil_of_le h]
  rfl

theorem symbolsFrom_step {o : Option Bucket} (h : b[position]? = some o) :
    b.symbolsFrom position =
      (o.map Bucket.symbol).toList ++ b.symbolsFrom (position + 1) := by
  obtain ⟨hlt, hget⟩ := Array.getElem?_eq_some_iff.1 h
  rw [symbolsFrom, List.drop_eq_getElem_cons hlt, Array.getElem_toList, hget, symbolsFrom]
  cases o <;> rfl

end Buckets

namespace Cursor

variable {b : Buckets} {c : Cursor} {s s' : Shape}

/-- The cursor is within its array. -/
def Within (c : Cursor) : Prop := c.position ≤ c.buckets.size

/-- The symbols still to come, as the array is now. -/
def pending (c : Cursor) : List Symbol := c.buckets.symbolsFrom c.position

theorem advance_spec {left position : Nat} (h : position + left = b.size) :
    ∃ answer later, advance b left position = (answer, later) ∧ later ≤ b.size ∧
      position + answer.toList.length ≤ later ∧ answer = (b.symbolsFrom position).head? ∧
      b.symbolsFrom later = (b.symbolsFrom position).tail := by
  induction left generalizing position with
  | zero =>
      have hnone : b.symbolsFrom position = [] := Buckets.symbolsFrom_of_le (by omega)
      exact ⟨none, position, rfl, by omega, Nat.le_refl _, by rw [hnone]; rfl, by rw [hnone]; rfl⟩
  | succ left ih =>
      have hlt : position < b.size := by omega
      have hget := Array.getElem?_eq_getElem hlt
      unfold advance
      cases ho : b[position] with
      | none =>
          rw [ho] at hget
          have hskip : b.symbolsFrom position = b.symbolsFrom (position + 1) :=
            b.symbolsFrom_step hget
          have hleft : position + 1 + left = b.size := by omega
          obtain ⟨answer, later, heq, hsize, hle, hhead, htail⟩ := ih hleft
          refine ⟨answer, later, by rw [hget]; exact heq, hsize, by omega, ?_, ?_⟩
          · rw [hskip, hhead]
          · rw [hskip, htail]
      | some e =>
          rw [ho] at hget
          have hmeet : b.symbolsFrom position = e.symbol :: b.symbolsFrom (position + 1) :=
            b.symbolsFrom_step hget
          refine ⟨some e.symbol, position + 1, by rw [hget], hlt, Nat.le_refl _, ?_, ?_⟩
          · rw [hmeet]
            rfl
          · rw [hmeet]
            rfl

/-- Asking once takes the first of the symbols still to come, if there is one. -/
theorem next_spec (h : c.Within) :
    c.next.2.Within ∧ c.next.1 = c.pending.head? ∧ c.next.2.pending = c.pending.tail ∧
      c.next.2.remaining + c.next.1.toList.length ≤ c.remaining := by
  have hleft : c.position + (c.buckets.size - c.position) = c.buckets.size := by
    rw [Within] at h
    omega
  obtain ⟨answer, later, heq, hsize, hle, hhead, htail⟩ := advance_spec hleft
  rw [next, heq]
  refine ⟨hsize, hhead, htail, ?_⟩
  show c.buckets.size - later + answer.toList.length ≤ c.buckets.size - c.position
  omega

end Cursor

/-- A shape and a cursor that goes through it. -/
structure Listing where
  shape : Shape
  cursor : Cursor

namespace Listing

/-- What happens during a listing. -/
inductive Step where
  | next
  | create (sym : Symbol)

def Step.isNext : Step → Bool
  | .next => true
  | .create _ => false

def start (s : Shape) : Listing := ⟨s, .start s⟩

/-- The cursor follows the shape. A symbol that finds no room changes nothing. -/
def create (l : Listing) (x : Symbol) : Listing :=
  match l.shape.create x with
  | .ok (_, s) => ⟨s, l.cursor.follow s⟩
  | .error _ => l

/-- The answers of the cursor, and what comes of the two. -/
def run (l : Listing) : List Step → List (Option Symbol) × Listing
  | [] => ([], l)
  | .next :: steps =>
    let r := l.cursor.next
    let rest := run { l with cursor := r.2 } steps
    (r.1 :: rest.1, rest.2)
  | .create x :: steps => run (l.create x) steps

/-- The first symbol that is created makes the shape grow. -/
def GrowsFirst (s : Shape) : List Step → Prop
  | [] => True
  | .next :: steps => GrowsFirst s steps
  | .create x :: _ => ∃ i s', s.create x = .ok (i, s') ∧ s.growths < s'.growths

variable {l : Listing} {s : Shape} {steps : List Step} {x : Symbol}

/-- The cursor is in the array that the shape has, or in one that it has left. -/
structure Pinned (l : Listing) : Prop where
  within : l.cursor.Within
  generation : l.cursor.generation ≤ l.shape.growths
  buckets : l.cursor.generation = l.shape.growths → l.cursor.buckets = l.shape.buckets

theorem pinned_start (s : Shape) : (start s).Pinned := ⟨Nat.zero_le _, Nat.le_refl _, fun _ => rfl⟩

/-- A shape that has not grown has as many buckets as before. -/
theorem create_growths {i : Nat} {s' : Shape} (h : s.create x = .ok (i, s')) :
    s.growths ≤ s'.growths ∧ (s'.growths = s.growths → s'.buckets.size = s.buckets.size) := by
  rcases Shape.create_cases h with ⟨-, rfl⟩ | ⟨-, -, htakes⟩
  · exact ⟨Nat.le_refl _, fun _ => rfl⟩
  · cases htakes with
    | within _ hplaced => exact ⟨Nat.le_refl _, fun _ => Buckets.size_insert hplaced⟩
    | moved => exact ⟨Nat.le_succ _, fun h => absurd h (Nat.succ_ne_self _)⟩

/-- What is created leaves the cursor its place, and its array the size. -/
theorem Pinned.create (h : l.Pinned) (x : Symbol) :
    (l.create x).Pinned ∧ (l.create x).cursor.remaining = l.cursor.remaining := by
  unfold Listing.create
  split
  · next i s' hcreate =>
      obtain ⟨hle, hsize⟩ := create_growths hcreate
      by_cases hg : s'.growths = l.cursor.generation
      · -- the cursor was in the shape's array, and the array was filled in place
        have hcurrent : l.cursor.generation = l.shape.growths :=
          Nat.le_antisymm h.generation (hg ▸ hle)
        have hsame : s'.buckets.size = l.cursor.buckets.size := by
          rw [h.buckets hcurrent]
          exact hsize (hg.trans hcurrent)
        have hwithin : l.cursor.position ≤ s'.buckets.size := hsame ▸ h.within
        simp only [Cursor.follow, if_pos hg]
        exact ⟨⟨hwithin, Nat.le_of_eq hg.symm, fun _ => rfl⟩, by rw [Cursor.remaining, hsame]; rfl⟩
      · -- the shape has left the cursor's array, now or before
        simp only [Cursor.follow, if_neg hg]
        have hlt : l.cursor.generation ≤ s'.growths := Nat.le_trans h.generation hle
        exact ⟨⟨h.within, hlt, fun heq => absurd heq.symm hg⟩, trivial⟩
  · exact ⟨h, rfl⟩

theorem Pinned.next (h : l.Pinned) : Pinned { l with cursor := l.cursor.next.2 } :=
  ⟨(Cursor.next_spec h.within).1, h.generation, h.buckets⟩

theorem Pinned.run (h : l.Pinned) (steps : List Step) : (l.run steps).2.Pinned := by
  induction steps generalizing l with
  | nil => exact h
  | cons step steps ih =>
      cases step with
      | next => exact ih h.next
      | create x => exact ih (h.create x).1

/-- No more symbols come than the cursor has buckets left, whatever is created
on the way. -/
theorem Pinned.answers_le (h : l.Pinned) (steps : List Step) :
    (l.run steps).1.countP Option.isSome ≤ l.cursor.remaining := by
  induction steps generalizing l with
  | nil => exact Nat.zero_le _
  | cons step steps ih =>
      cases step with
      | next =>
          obtain ⟨-, -, -, hleft⟩ := Cursor.next_spec h.within
          have hrest : _ ≤ l.cursor.next.2.remaining := ih h.next
          have hanswer : l.cursor.next.1.toList.length =
              if l.cursor.next.1.isSome then 1 else 0 := by
            cases l.cursor.next.1 <;> rfl
          simp only [Listing.run, List.countP_cons]
          omega
      | create x =>
          obtain ⟨hcreate, hsame⟩ := h.create x
          rw [← hsame]
          exact ih hcreate

/-! ## After the shape has grown -/

theorem head?_cons_range (p : List Symbol) (n : Nat) :
    p.head? :: (List.range n).map (p.tail[·]?) = (List.range (n + 1)).map (p[·]?) := by
  rw [List.range_succ_eq_map, List.map_cons, List.map_map, List.head?_eq_getElem?]
  congr 1
  exact List.map_congr_left fun i _ => List.getElem?_tail

theorem left_create (hleft : l.cursor.generation < l.shape.growths) (x : Symbol) :
    (l.create x).cursor = l.cursor ∧ l.cursor.generation < (l.create x).shape.growths := by
  unfold Listing.create
  split
  · next i s' hcreate =>
      have hlt := Nat.lt_of_lt_of_le hleft (create_growths hcreate).1
      exact ⟨if_neg (Nat.ne_of_gt hlt), hlt⟩
  · exact ⟨rfl, hleft⟩

/-- A cursor whose array the shape has left answers with what is in it. -/
theorem Pinned.answers_of_left (h : l.Pinned) (hleft : l.cursor.generation < l.shape.growths)
    (steps : List Step) :
    (l.run steps).1 = (List.range (steps.countP Step.isNext)).map (l.cursor.pending[·]?) := by
  induction steps generalizing l with
  | nil => rfl
  | cons step steps ih =>
      cases step with
      | next =>
          obtain ⟨-, hhead, htail, -⟩ := Cursor.next_spec h.within
          rw [List.countP_cons_of_pos rfl, ← head?_cons_range, ← hhead, ← htail]
          exact congrArg _ (ih h.next hleft)
      | create x =>
          obtain ⟨hsame, hleft'⟩ := left_create hleft x
          have hrest := ih (h.create x).1 (hsame ▸ hleft')
          rw [hsame] at hrest
          rw [List.countP_cons_of_neg Bool.false_ne_true]
          exact hrest

/-- Until something is created, and from the first growth on, a cursor answers
with what was in the array. -/
theorem Pinned.answers_of_growsFirst (h : l.Pinned) (hgrows : GrowsFirst l.shape steps) :
    (l.run steps).1 = (List.range (steps.countP Step.isNext)).map (l.cursor.pending[·]?) := by
  induction steps generalizing l with
  | nil => rfl
  | cons step steps ih =>
      cases step with
      | next =>
          obtain ⟨-, hhead, htail, -⟩ := Cursor.next_spec h.within
          rw [List.countP_cons_of_pos rfl, ← head?_cons_range, ← hhead, ← htail]
          exact congrArg _ (ih h.next hgrows)
      | create x =>
          obtain ⟨i, s', hcreate, hlt⟩ := hgrows
          have hgrown := Nat.lt_of_le_of_lt h.generation hlt
          have hafter : l.create x = ⟨s', l.cursor⟩ := by
            simp only [Listing.create, hcreate, Cursor.follow, if_neg (Nat.ne_of_gt hgrown)]
          have hpinned := (h.create x).1
          rw [hafter] at hpinned
          rw [List.countP_cons_of_neg Bool.false_ne_true, Listing.run, hafter]
          exact hpinned.answers_of_left hgrown steps

theorem growsFirst_of_nexts (h : ∀ step ∈ steps, step.isNext) : GrowsFirst s steps := by
  induction steps with
  | nil => trivial
  | cons step steps ih =>
      cases step with
      | next => exact ih fun step hstep => h step (List.mem_cons_of_mem _ hstep)
      | create x => exact absurd (h _ List.mem_cons_self) Bool.false_ne_true

end Listing

namespace Shape

/-- A cursor meets each symbol of a shape once, and then nothing, however often
it is asked. At every point of a listing it is within its array and has at least
as many buckets left as symbols will come, whatever is created meanwhile; and if
the first symbol that is created makes the shape grow, it answers as it would
have done without. -/
theorem symbols_are_met_once {s₀ s : Shape} {requested : Nat} {load : Binary64}
    {syms : List Symbol} {slots : List Nat} (hnew : New requested load s₀)
    (hrun : s₀.createAll syms = .ok (slots, s)) :
    (∀ n, ((Listing.start s).run (.replicate n .next)).1 = (List.range n).map (s.symbols[·]?)) ∧
      s.symbols.Perm syms.eraseDups ∧ s.symbols.length = s.size ∧
      (∀ x, x ∈ s.symbols ↔ (s.get? x).isSome) ∧
      ∀ before, let l := ((Listing.start s).run before).2
        l.cursor.position ≤ l.cursor.buckets.size ∧
          ∀ steps, (l.run steps).1.countP Option.isSome ≤ l.cursor.remaining ∧
            (Listing.GrowsFirst l.shape steps →
              (l.run steps).1 = (l.run (steps.filter Listing.Step.isNext)).1) := by
  have hlists := (hnew.run hrun).1
  have hperm := hlists.symbols_perm
  have hstart := Listing.pinned_start s
  refine ⟨fun n => ?_, hperm, hperm.length_eq.trans hlists.size.symm, fun x => ?_, fun before => ?_⟩
  · have hnexts : ∀ step ∈ List.replicate n Listing.Step.next, step.isNext := by
      intro step hstep
      rw [List.eq_of_mem_replicate hstep]
      rfl
    rw [hstart.answers_of_growsFirst (Listing.growsFirst_of_nexts hnexts),
      List.countP_eq_length.2 hnexts, List.length_replicate]
    rfl
  · rw [hperm.mem_iff, hlists.get?_eq]
    split <;> simp [*]
  · have hpinned := hstart.run before
    refine ⟨hpinned.within, fun steps => ⟨hpinned.answers_le steps, fun hgrows => ?_⟩⟩
    have hnexts : ∀ step ∈ steps.filter Listing.Step.isNext, step.isNext := fun step hstep =>
      (List.mem_filter.1 hstep).2
    rw [hpinned.answers_of_growsFirst hgrows,
      hpinned.answers_of_growsFirst (Listing.growsFirst_of_nexts hnexts),
      List.countP_eq_length.2 hnexts, List.countP_eq_length_filter]

/-- Two of three buckets are taken, so the third symbol makes the shape grow; the
cursor goes on through the three. -/
theorem symbols_are_met_once_past_growth :
    let syms : List Symbol := [⟨502, by decide⟩, ⟨505, by decide⟩]
    let steps : List Listing.Step :=
      [.next, .create ⟨508, by decide⟩, .next, .create ⟨511, by decide⟩, .next, .next]
    New 0 defaultLoad (ofCapacity 0 defaultLoad) ∧ ∃ slots s,
      (ofCapacity 0 defaultLoad).createAll syms = .ok (slots, s) ∧ s.symbols.Perm syms ∧
        Listing.GrowsFirst s steps ∧
        ((Listing.start s).run steps).1 =
          ((Listing.start s).run (steps.filter Listing.Step.isNext)).1 := by
  intro syms steps
  have hnew : New 0 defaultLoad (ofCapacity 0 defaultLoad) := by
    refine .inl ?_
    rw [ofCapacity?, if_pos (by decide +kernel)]
  have hvalue : ((ofCapacity 0 defaultLoad).createAll syms).toOption.any fun r =>
      (r.2.create ⟨508, by decide⟩).toOption.any fun q => r.2.growths < q.2.growths := by
    decide +kernel
  obtain ⟨⟨slots, s⟩, hrun, hgrown⟩ := exists_ok_of_any hvalue
  obtain ⟨⟨i, s'⟩, hcreate, hlt⟩ := exists_ok_of_any hgrown
  have hgrows : Listing.GrowsFirst s steps := ⟨i, s', hcreate, of_decide_eq_true hlt⟩
  obtain ⟨-, hperm, -, -, hany⟩ := symbols_are_met_once hnew hrun
  exact ⟨hnew, slots, s, hrun, hperm, hgrows, ((hany []).2 steps).2 hgrows⟩

/-- Without growth, what is created before the cursor comes by is met. -/
example : ((Listing.start empty).run [.create ⟨502, by decide⟩, .next, .next]).1 =
    [some ⟨502, by decide⟩, none] := by
  decide +kernel

end Shape

end ScriptCore

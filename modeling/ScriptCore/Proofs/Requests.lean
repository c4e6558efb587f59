import ScriptCore.Proofs.PoolMap

/-!
# Requests to a pool

Whatever happens to a pool is a list of requests, served one after the other.
A list is directed if it does not mix handing out with taking back: `out` asks
for entries only, `back` only returns them, and the requests that do neither go
either way. The lists that an operation of a frame sends to its pools are all of
this kind, which is why it is worth a name. In a directed list nothing can be
taken back twice, or handed out and be free again at the end; so the generations
move by one at most, and the number of live entries is at its highest at one of
the two ends.
-/

namespace ScriptCore.Pool

inductive Request (α : Type) where
  | acquire (depth : Option Nat) (fresh : α)
  | release (key : PoolKey) (clear : α → α)
  | detach (key : PoolKey)
  | get (key : PoolKey)
  | modify (key : PoolKey) (change : α → α)

variable {α : Type} {p q r : Pool α}

/-- The pool after a request, with the answer left out. -/
def serve (p : Pool α) : Request α → Pool α
  | .acquire depth fresh => (p.acquire depth fresh).2
  | .release key clear => (p.release key clear).2
  | .detach key => p.detach key
  | .get _ => p
  | .modify key change => p.modify key change

def serveAll (p : Pool α) (rs : List (Request α)) : Pool α := rs.foldl serve p

theorem serveAll_append (p : Pool α) (rs rs' : List (Request α)) :
    p.serveAll (rs ++ rs') = (p.serveAll rs).serveAll rs' :=
  List.foldl_append

theorem WellKept.serve (hp : p.WellKept) (x : Request α) : (p.serve x).WellKept := by
  cases x with
  | acquire depth fresh => exact hp.acquire depth fresh
  | release key clear => exact hp.release key clear
  | detach key => exact hp.detach key
  | get key => exact hp
  | modify key change => exact hp.modify key change

/-! ## Directed lists -/

inductive Direction where
  | out
  | back

/-- The request does not go the other way. -/
def Request.Towards (d : Direction) : Request α → Prop
  | .acquire _ _ => d = .out
  | .release _ _ => d = .back
  | .detach _ | .get _ | .modify _ _ => True

/-- From `p` to `q` by requests in one direction. -/
def Directed (d : Direction) (p q : Pool α) : Prop :=
  ∃ rs : List (Request α), (∀ x ∈ rs, x.Towards d) ∧ p.serveAll rs = q

variable {d : Direction}

theorem Directed.refl (d : Direction) (p : Pool α) : Directed d p p :=
  ⟨[], nofun, rfl⟩

theorem Directed.trans (h₁ : Directed d p q) (h₂ : Directed d q r) : Directed d p r := by
  obtain ⟨rs, hrs, rfl⟩ := h₁
  obtain ⟨rs', hrs', rfl⟩ := h₂
  refine ⟨rs ++ rs', fun x hx => ?_, serveAll_append p rs rs'⟩
  exact (List.mem_append.1 hx).elim (hrs x) (hrs' x)

theorem directed_serve (p : Pool α) {x : Request α} (hx : x.Towards d) :
    Directed d p (p.serve x) :=
  ⟨[x], by simpa using hx, rfl⟩

/-- What each request in a direction preserves, a list of them preserves. -/
theorem Directed.induction {P : Pool α → Prop} (h : Directed d p q) (hp : P p)
    (hstep : ∀ p x, Request.Towards d x → P p → P (p.serve x)) : P q := by
  obtain ⟨rs, hrs, rfl⟩ := h
  induction rs generalizing p with
  | nil => exact hp
  | cons x rs ih =>
      exact ih (hstep p x (hrs x List.mem_cons_self) hp) fun y hy =>
        hrs y (List.mem_cons_of_mem x hy)

theorem Directed.settles (h : Directed .back p q) : Settles p q := by
  refine h.induction (.refl p) fun p' x hx hp => hp.trans ?_
  cases x with
  | acquire depth fresh => cases hx
  | release key clear => exact settles_release p' key clear
  | detach key => exact (settles_grows_detach p' key).1
  | get key => exact .refl p'
  | modify key change => exact (settles_grows_modify p' key change).1

theorem Directed.grows (h : Directed .out p q) : Grows p q := by
  refine h.induction (.refl p) fun p' x hx hp => hp.trans ?_
  cases x with
  | acquire depth fresh => exact grows_acquire p' depth fresh
  | release key clear => cases hx
  | detach key => exact (settles_grows_detach p' key).2
  | get key => exact .refl p'
  | modify key change => exact (settles_grows_modify p' key change).2

end ScriptCore.Pool

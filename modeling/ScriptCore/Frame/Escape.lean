import ScriptCore.Frame.Chain
import Std.Data.HashMap

/-!
# Escaping

What must outlive a depth is copied. Escaping a pooled scope freezes its chain up to the first
durable scope; a durable scope is its own escape. A trace escapes the scope of every activation, and
keeps the frozen chains it has made so far in a memo, because the scopes of a stack usually share
most of their chains.
-/

namespace ScriptCore

/-- Frozen chains made so far, by the key of their innermost scope. -/
abbrev EscapeMemo := Std.HashMap PoolKey DurableScope

namespace Engine

/-- The pooled scopes from `k` outward that still have to be frozen, innermost first, and the
durable scope below them. Passes at most `hops` pooled scopes. -/
def pending (e : Engine) (memo : EscapeMemo) :
    Nat → PoolKey → Except EvalError (List (PoolKey × PooledScope) × DurableScope)
  | 0, _ => .error (ErrorKind.staleHandle .scope)
  | hops + 1, k =>
    match memo[k]? with
    | some d => .ok ([], d)
    | none =>
      match e.frame.getScope k with
      | .error err => .error err
      | .ok own =>
        match own.previous with
        | .durable d => .ok ([(k, own)], d)
        | .pooled next =>
          match pending e memo hops next with
          | .error err => .error err
          | .ok (links, base) => .ok ((k, own) :: links, base)

/-- Freezes one pooled scope on top of a durable one. -/
def freeze (e : Engine) (own : PooledScope) (base : DurableScope) : Except EvalError DurableScope :=
  match e.frame.getTable own.members with
  | .error err => .error err
  | .ok table =>
    .ok (base.push
      { kind := own.kind, shape := own.shape, members := table.freeze, mixins := own.mixins })

/-- Freezes pooled scopes one on top of the other, outermost first, and notes each in the memo. -/
def freezeAll (e : Engine) :
    List (PoolKey × PooledScope) → DurableScope → EscapeMemo →
      Except EvalError DurableScope × EscapeMemo
  | [], base, memo => (.ok base, memo)
  | (k, own) :: links, base, memo =>
    match e.freeze own base with
    | .error err => (.error err, memo)
    | .ok d => freezeAll e links d (memo.insert k d)

/-- The frozen chain of a pooled scope, with the memo it leaves. -/
def freezeChain (e : Engine) (k : PoolKey) (memo : EscapeMemo) :
    Except EvalError DurableScope × EscapeMemo :=
  match e.pending memo (e.frame.scopes.entries.size + 1) k with
  | .error err => (.error err, memo)
  | .ok (links, base) => e.freezeAll links.reverse base memo

/-- A scope that stays valid after every depth has ended. -/
def escape (e : Engine) : ScopeRef → Except EvalError DurableScope
  | .durable d => .ok d
  | .pooled k => (e.freezeChain k ∅).1

/-- Escapes a scope with a memo. A scope that is gone has no escape. -/
def escapeNoting (e : Engine) (memo : EscapeMemo) : ScopeRef → Option DurableScope × EscapeMemo
  | .durable d => (some d, memo)
  | .pooled k =>
    let (r, memo) := e.freezeChain k memo
    (r.toOption, memo)

/-- Adds an activation to a trace under construction. -/
def record (e : Engine) (acc : List TraceRecord × EscapeMemo) (entry : DepthEntry) :
    List TraceRecord × EscapeMemo :=
  let (records, memo) := acc
  match entry.node with
  | none => (records, memo)
  | some node =>
    match entry.scope with
    | none => ({ node, line := entry.line, scope := none } :: records, memo)
    | some scope =>
      let (d, memo) := e.escapeNoting memo scope
      ({ node, line := entry.line, scope := d } :: records, memo)

/-- The activations of the frame as they are now. -/
def trace (e : Engine) : Trace :=
  ((e.frame.activations.map (·.2)).foldl e.record ([], ∅)).1.reverse

end Engine

end ScriptCore

import ScriptCore.Store

/-!
# Texts of scopes and slot references

A scope is described by its kind and its values, without the scopes around it, so the text is finite
also where scopes refer to each other.
-/

namespace ScriptCore

namespace PoolKey

def debug (k : PoolKey) : String :=
  Text.record "PoolKey"
    [("index", toString k.index), ("generation", toString k.generation.toNat)] false

end PoolKey

namespace ScopeKind

def label : ScopeKind → String
  | .block => "block"
  | .function _ => "function"

def debug (fs : Functions) : ScopeKind → String
  | .block => "Block"
  | .function b =>
    "Function(" ++ Text.record "FunctionBinding"
      [("callee", fs.debug b.callee),
       ("this", Text.optional (b.this.map (·.debug fs))),
       ("super_", Text.optional (b.super.map (·.debug fs)))] false ++ ")"

end ScopeKind

namespace Store

def debugScope (st : Store) (d : DurableScope) : String :=
  let text (name : String) (kind : ScopeKind) (members : String) : String :=
    Text.record name [("kind", kind.debug st.functions), ("members", members)] true
  match d.frozen, d.anchor with
  | f :: _, _ => text "ScopeSnapshot" f.kind (f.members.debug st.functions)
  | [], .heap id =>
    match st.heaps[id]? with
    | some h => text "HeapScope" h.kind (h.members.debug st.functions)
    | none => ""
  | [], .global id =>
    let size := (st.globals[id]?.map GlobalScope.size).getD 0
    Text.record "GlobalScope" [("members", toString size)] true

def debugScopeRef (st : Store) : ScopeRef → String
  | .pooled k => "Pooled(ScopeHandle(" ++ k.debug ++ "))"
  | .durable d => "Durable(" ++ st.debugScope d ++ ")"

end Store

namespace SlotRef

def debug : SlotRef → String
  | .pooled table i s =>
    "Pooled(" ++ Text.record "PooledSlot"
      [("table", table.debug), ("index", toString i), ("symbol", s.debug)] false ++ ")"
  | .heap _ _ s => "Durable(Heap(" ++ s.debug ++ "))"
  | .frozen _ _ s => "Durable(Snapshot(" ++ s.debug ++ "))"
  | .global _ s => "Durable(Global(" ++ s.debug ++ "))"
  | .mixin _ s => "Durable(Mixin(" ++ s.debug ++ "))"

end SlotRef

end ScriptCore

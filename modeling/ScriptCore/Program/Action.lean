import ScriptCore.Program.Action.Member
import ScriptCore.Program.Action.Shape
import ScriptCore.Program.Action.State
import ScriptCore.Program.Action.Table

/-!
# Carrying out actions

One equation for each action of a program; an operation that could not be read is a fault of the
program.
-/

namespace ScriptCore

/-- Carries out an action in the current scope. -/
def Run.action (current : ScopeRef) : Action → Run Answer
  | .throw v => do Run.raise (ErrorKind.thrown (← v.eval current))
  | .rethrow err => do Run.raise (← Run.errorOperand err)
  | .panic => Run.panic
  | .makeShape capacity load symbols => Perform.makeShape capacity load symbols
  | .createSlot shape s => Perform.createSlot shape s
  | .findSlot shape s => Perform.findSlot shape s
  | .inspectShape shape => Perform.inspectShape shape
  | .nodeShape node v => Perform.nodeShape node v
  | .allocateBlock previous shape => Perform.allocateBlock current previous shape
  | .allocateFunction previous function shape this super table =>
    Perform.allocateFunction current previous function shape this super table
  | .heapBlock previous shape => Perform.heapBlock current previous shape
  | .heapFunction previous this super table function shape =>
    Perform.heapFunction current previous this super table function shape
  | .newGlobal => Perform.newGlobal
  | .escape scope => Perform.escapeScope current scope
  | .enclosing scope => Perform.enclosingScope current scope
  | .inspectScope scope => Perform.inspectScope current scope
  | .freeScope scope => Perform.freeScope current scope
  | .members scope => Perform.listMembers current scope
  | .declare scope s a => Perform.declareMember current scope s a
  | .bind scope s a v => Perform.bindMember current scope s a v
  | .lookup scope s => Perform.lookupMember current scope s
  | .load slot => Perform.loadSlot slot
  | .store v slot => Perform.storeSlot current v slot
  | .get scope s => Perform.getMember current scope s
  | .set scope s v => Perform.setMember current scope s v
  | .symbols scope includePrivate => Perform.listSymbols current scope includePrivate
  | .this scope => Perform.ask current scope Engine.this
  | .super scope => Perform.ask current scope Engine.super
  | .callee scope => Perform.ask current scope Engine.callee
  | .mixin scope source => Perform.mixinSource current scope source
  | .sourceGet scope s => Perform.sourceGet current scope s
  | .sourceSet v scope s => Perform.sourceSet current v scope s
  | .sourceSymbols scope includePrivate => Perform.sourceSymbols current scope includePrivate
  | .define scope s v => Perform.defineGlobal current scope s v
  | .globalGet scope s => Perform.globalGet current scope s
  | .globalSize scope => Perform.globalSize current scope
  | .allocateTable size => Perform.allocateTable size
  | .ownTable minCapacity => Perform.ownTable minCapacity
  | .freeTable table => Perform.freeTable table
  | .takeTable table => Perform.takeTable table
  | .push vs table => Perform.pushAll current vs table
  | .reference i table => Perform.referenceSlot i table
  | .slotAt i table => Perform.slotAt i table
  | .declareAt i a table => Perform.declareAt i a table
  | .assignAt i v table => Perform.assignAt current i v table
  | .clearAt i table => Perform.clearAt i table
  | .ensureRoom n table => Perform.ensureRoom n table
  | .resetTable table => Perform.resetTable table
  | .inspectTable table => Perform.inspectTable table
  | .copyTable table => Perform.copyTable table
  | .equalTables x y => Perform.equalTables x y
  | .memberAt members i => Perform.memberAt members i
  | .memberArray members => Perform.memberArray members
  | .equalMembers x y => Perform.equalMembers x y
  | .makeFunction node name overridden closure encloses =>
    Perform.makeFunction current node name overridden closure encloses
  | .evaluate v => Perform.evaluate current v
  | .present v => Perform.present current v
  | .equal a b => Perform.compare current a b
  | .setLine line => Perform.setLine line
  | .setLineAt scope line => Perform.setLineAt current scope line
  | .config => do return { reply := .config (← Run.frame).config }
  | .isProcessGlobal => do return { reply := .flag ((← Run.frame).global == processGlobal) }
  | .resetFrame => do
    Run.onFrame fun f => ((), f.reset)
    return { reply := .nothing }
  | .handle => Perform.terminationHandle
  | .terminate h => Perform.raiseTermination h
  | .info => Perform.inspectFrame
  | .trace => Perform.takeTrace
  | .inspectTrace t => Perform.inspectTrace t
  | .traceScope t i => Perform.traceScope t i
  | .inspectError err => do return { reply := .error (← Run.errorOperand err) }
  | .errorTrace err => Perform.errorTrace err
  | .attachTrace t err => Perform.attachTrace t err
  | .debug x => Perform.debugText current x
  | .malformed f => Run.bad f

end ScriptCore

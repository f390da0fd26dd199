import Embedding.Console.State

/-!
# Running console commands

A command takes what it needs from registers, acts, and leaves its results in registers. Whatever
else it made is released when it is done, so that the handles of the host are those that registers
own.
-/

namespace Embedding.Console

open ConsoleM
open HostM (holding)
open Product (ofValue ofValues ofOption ofStep)

def SessionCommand.run (s : SessionId) (command : SessionCommand) : ConsoleM Product := do
  let session := (← getThe Console).world.session s
  if !session.owned then skip
  match command with
  | .stage => return .ofText session.stage.display
  | .capabilities =>
    let c := session.capabilities
    return .ofView (.list [.bool c.multiplicity, .bool c.threadSafe])
  | .config => return { reply := .config session.config }
  | .listing => return .ofText session.listing
  | .liveHandles => return .ofNat session.liveHandles
  | .start =>
    act s.start
    return .unit
  | .shutDown =>
    act s.shutDown
    return .unit
  | .disown =>
    modify fun c => { c with world := c.world.disown s }
    return .unit
  | .load package =>
    let p ← act (s.load package)
    return { reply := .view (.text p.name), items := [("", .package p)] }
  | .get name => act do ofValue (← s.getGlobal name)
  | .set name v =>
    withValue v (s.setGlobal name)
    return .unit
  | .eval source => act do ofValues (← s.eval source)
  | .function name => act do ofValue (.callable (← s.function name))
  | .call name args => withValues args fun args => do ofValues (← s.call name args)
  | .toForeign v => return .ofHandle (← withValue v s.toForeign)
  | .toHost on =>
    let h ← need on fun
      | .handle h => some h
      | _ => none
    act do ofValue (← s.toHost h)
  | .newArray items =>
    let items ← values items
    act do ofValue (.array (← s.newArray items))
  | .newHash entries =>
    let entries ← pairs entries
    act do ofValue (.hash (← s.newHash entries))
  | .fix operation answer =>
    if s ∉ (← getThe Console).fixable then skip
    if let some operation := operation then
      modify fun c => { c with world := c.world.update s fun session =>
        { session with engine := session.engine.fix operation answer } }
    return .unit

def HandleCommand.run (on : String) (command : HandleCommand) : ConsoleM Product := do
  let h ← need on fun
    | .handle h => some h
    | _ => none
  match command with
  | .refcount => return .ofNat (← act h.refcount)
  | .kind => return .ofText (← act h.kind).display
  | .flags => return .ofView (.flags (← act h.flags))
  | .identity => return .ofView (.address (← act h.identity))
  | .intoRaw =>
    modify fun c => { c with registers := c.registers.erase on }
    return .ofView (.ofCell (← act h.intoRaw))

def ArrayCommand.run (on : String) (command : ArrayCommand) : ConsoleM Product := do
  let a ← need on fun
    | .value (.array a) => some a
    | _ => none
  match command with
  | .get index => act do ofValue (← a.get index)
  | .set index v =>
    let v ← value v
    act (a.set index v)
    return .unit
  | .length => return .ofNat (← act a.length)
  | .isEmpty => return .ofBool ((← act a.length) = 0)
  | .push v =>
    let v ← value v
    act (a.push v)
    return .unit
  | .pop => act do ofOption (← a.pop)
  | .clear =>
    act a.clear
    return .unit
  | .toList => act do ofValues (← a.toList)
  | .cursor => return .ofItem (.arrayCursor (← act a.cursor))
  | .container =>
    act (HostM.clone [a.cell])
    return .ofItem (.container (.array a))

def HashCommand.run (on : String) (command : HashCommand) : ConsoleM Product := do
  let h ← need on fun
    | .value (.hash h) => some h
    | _ => none
  match command with
  | .get key => act do ofValue (← h.get key)
  | .set key v =>
    let v ← value v
    act (h.set key v)
    return .unit
  | .length => return .ofNat (← act h.length)
  | .isEmpty => return .ofBool ((← act h.length) = 0)
  | .contains key => return .ofBool (← act (h.contains key))
  | .delete key => act do ofOption (← h.delete key)
  | .clear =>
    act h.clear
    return .unit
  | .keys => return .ofView (.list ((← act h.keys).map .text))
  | .toDict => act do ofValue (.mapping (← h.toDict))
  | .cursor => return .ofItem (.hashCursor (← act h.cursor))
  | .container =>
    act (HostM.clone [h.cell])
    return .ofItem (.container (.hash h))

def ContainerCommand.run (on : String) (command : ContainerCommand) : ConsoleM Product := do
  let container? : Item → Option Container
    | .container c => some c
    | _ => none
  let c ← need on container?
  match command with
  | .get key => act do ofValue (← c.get key)
  | .set key v =>
    let v ← value v
    act (c.set key v)
    return .unit
  | .length => return .ofNat (← act c.length)
  | .isEmpty => return .ofBool ((← act c.length) = 0)
  | .cursor => return .ofItem (.cursor (← act c.cursor))
  | .equal other => return .ofBool (← act (c.equal (← need other container?)))

def CallableCommand.run (on : String) (command : CallableCommand) : ConsoleM Product := do
  let c ← need on fun
    | .value (.callable c) => some c
    | _ => none
  match command with
  | .call args none => withValues args fun args => do ofValues (← c.call args)
  | .call args (some keywords) =>
    let keywords ← dict keywords []
    let args ← orRelease (Value.handlesOfEntries keywords) (values args)
    act <| holding (Value.handlesOfItems args ++ Value.handlesOfEntries keywords) do
      ofValues (← c.callWithKeywords args keywords)
  | .callOne args => withValues args fun args => do ofValue (← c.callOne args)
  | .info => return { reply := .callable c.methodName? }

def ObjectCommand.run (on : String) (command : ObjectCommand) : ConsoleM Product := do
  let o ← need on fun
    | .value (.object o) => some o
    | _ => none
  match command with
  | .className => return .ofText o.className
  | .method name => act do ofValue (.callable (← o.method name))
  | .call name args => withValues args fun args => do ofValues (← o.callMethod name args)
  | .isa parent => return .ofBool (← act (o.isa parent))
  | .can name => act do ofOption ((← o.can name).map .callable)
  | .identity => return .ofView (.address (← act o.identity))

def NamespaceCommand.run (on : String) (command : NamespaceCommand) : ConsoleM Product := do
  let p ← need on fun
    | .package p => some p
    | _ => none
  match command with
  | .name => return .ofText p.name
  | .function symbol => act do ofValue (.callable (← p.function symbol))
  | .call symbol args => withValues args fun args => do ofValues (← p.call symbol args)
  | .method symbol => act do ofValue (.callable (← p.method symbol))
  | .callMethod symbol args => withValues args fun args => do ofValues (← p.callMethod symbol args)
  | .construct args => withValues args fun args => do ofValue (← p.construct args)
  | .get symbol => act do ofValue (← p.getVariable symbol)
  | .set symbol v =>
    withValue v (p.setVariable symbol)
    return .unit

/-- Takes a step of a cursor, which stays in its register. -/
def nextItem (on : String) : Item → ConsoleM Product
  | .arrayCursor c => do
    let (item, c) ← act c.next
    setRegister on (.arrayCursor c)
    match item with
    | none => return .ofView (.list [])
    | some (.ok v) => act (ofStep [] v)
    | some (.error e) => throw (.failed e)
  | .hashCursor c => do
    let (entry, c) ← act c.next
    setRegister on (.hashCursor c)
    match entry with
    | none => return .ofView (.list [])
    | some (.ok (key, v)) => act (ofStep [.text key] v)
    | some (.error e) => throw (.failed e)
  | .cursor c => do
    let (item, c) ← act c.next
    setRegister on (.cursor c)
    match item with
    | none => return .ofView (.list [])
    | some (.ok (.index index, v)) => act (ofStep [.int index] v)
    | some (.ok (.name key, v)) => act (ofStep [.text key] v)
    | some (.error e) => throw (.failed e)
  | _ => skip

def Command.run : Command → ConsoleM Product
  | .session s command => command.run s
  | .handle on command => command.run on
  | .array on command => command.run on
  | .hash on command => command.run on
  | .container on command => command.run on
  | .callable on command => command.run on
  | .object on command => command.run on
  | .package on command => command.run on
  | .drop on => do
    let item ← need on some
    modify fun c =>
      { c with world := item.release c.world, registers := c.registers.erase on }
    return .unit
  | .copy on => do
    let v ← need on value?
    act do
      HostM.clone v.handles
      ofValue v
  | .describe on => do return { reply := .description (.ofValue (← need on value?)) }
  | .inspect on depth => do return .ofView (← act ((← need on value?).inspect depth))
  | .equal a b => do
    let a ← value a
    let b ← orRelease a.handles (value b)
    return .ofBool (← act (holding (a.handles ++ b.handles) (a.equal b)))
  | .extract on type => do
    let a ← act ((← need on value?).extract type)
    return .ofView (← act (holding (type.handles a) (type.toValue a).view))
  | .listing on => do return .ofText (← need on Item.listing?)
  | .handleOf on => do
    let h ← need on Item.handle?
    act (HostM.clone [h])
    return .ofHandle h
  | .next on => do nextItem on (← need on some)
  | .error on => do return { reply := ← act (errorReply (← need on error?)) }
  | .errorWithoutValue on => do
    let e ← need on error?
    act (HostM.clone e.handles)
    act (HostM.release e.handles)
    return { reply := ← act (errorReply e.withoutValue), items := [("", .error e.withoutValue)] }
  | .errorValue on => do
    let v := (← need on error?).value?
    act do
      if let some v := v then HostM.clone v.handles
      ofOption v
where
  value? : Item → Option Value
    | .value v => some v
    | _ => none
  error? : Item → Option HostError
    | .error e => some e
    | _ => none

/-! ## Lines -/

/-- Puts the items of a product into registers, or releases them if there are none to receive them. -/
def keep (into : Option String) (items : List (String × Item)) : ConsoleM Unit :=
  items.forM fun (suffix, item) =>
    match into with
    | some name => store (name ++ suffix) item
    | none => modify fun c => { c with world := item.release c.world }

def Line.run (line : Line) : StateM Console Reply := do
  match ← line.command.run.run with
  | .ok product =>
    let _ ← (keep line.into product.items).run
    return product.reply
  | .error .skipped => return .skipped
  | .error (.failed e) =>
    let view ← (act e.view).run
    match line.errorInto with
    | some name => let _ ← (store name (.error e)).run
    | none => let _ ← (act (HostM.release e.handles)).run
    return .failed (match view with
      | .ok view => view
      | .error _ => .nothing)

def run (lines : List Line) : StateM Console (List Reply) := lines.mapM Line.run

end Embedding.Console

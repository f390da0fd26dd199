import Embedding.Proofs.Console.Steps
import Embedding.Proofs.Host.Refusals

/-!
# After a session was shut down

Every operation that needs the interpreter of a session is refused once the session is shut down, and
leaves the interpreter alone. Some operations look at their arguments before they come to the
interpreter, and may fail there for another reason.
-/

namespace Embedding

open Console

variable {α : Type} {x : HostM α} {s : SessionId} {operation : String}
  {args : HostM (List Handle)} {w : World} {steps : List Step}

/-- The symbol that a name in a package stands for. -/
def Namespace.slot (p : Namespace) (name : String) : Slot :=
  (Name.parseGlobal (Name.qualifyIn p.name name)).1

/-- An operation that needs the interpreter of a session: what it is refused as when the interpreter
is gone, and what it looks at and takes over before. -/
inductive Demand :
    SessionId → {α : Type} → String → HostM (List Handle) → HostM α → Prop
  | start (s : SessionId) : Demand s "initialize" (giving []) s.start
  | load (s : SessionId) (package : String) : Demand s "load" (giving []) (s.load package)
  | getGlobal (s : SessionId) (name : String) : Demand s "get_global" (giving []) (s.getGlobal name)
  | setGlobal (s : SessionId) (name : String) (v : Value) :
    Demand s "set_global" (giving []) (s.setGlobal name v)
  | eval (s : SessionId) (source : String) : Demand s "eval" (giving []) (s.eval source)
  | function (s : SessionId) (name : String) : Demand s "function" (giving []) (s.function name)
  | callNamed (s : SessionId) (name : String) (args : List Value) :
    Demand s "function" (giving []) (s.call name args)
  | toForeign (s : SessionId) (v : Value) : Demand s crossing (giving []) (s.toForeign v)
  | toHost (h : Handle) : Demand h.session "to_host" (giving []) (h.session.toHost h)
  | newArray (s : SessionId) (items : List Value) :
    Demand s "new_array" (giving (Value.handlesOfItems items)) (s.newArray items)
  | newHash (s : SessionId) (entries : List (String × Value)) :
    Demand s "new_hash" (giving (Value.handlesOfEntries entries)) (s.newHash entries)
  | namespaceFunction (p : Namespace) (name : String) :
    Demand p.session "function" (giving []) (p.function name)
  | namespaceCall (p : Namespace) (name : String) (args : List Value) :
    Demand p.session "function" (giving []) (p.call name args)
  | namespaceMethod (p : Namespace) (name : String) :
    Demand p.session "class method" (giving []) (p.method name)
  | namespaceCallMethod (p : Namespace) (name : String) (args : List Value) :
    Demand p.session "class method" (giving []) (p.callMethod name args)
  | construct (p : Namespace) (args : List Value) :
    Demand p.session "class method" (giving []) (p.construct args)
  | getVariable (p : Namespace) (name : String) :
    Demand p.session "get_global" (giving []) (p.getVariable name)
  | setVariable (p : Namespace) (name : String) (v : Value) :
    Demand p.session (assignment (p.slot name)) (assigning p.session v (p.slot name))
      (p.setVariable name v)
  | arrayGet (a : ArrayView) (index : Nat) :
    Demand a.cell.session "array get" (giving []) (a.get index)
  | arraySet (a : ArrayView) (index : Nat) (v : Value) :
    Demand a.cell.session crossing (taking v.handles (v.screen a.cell.session)) (a.set index v)
  | arrayLength (a : ArrayView) : Demand a.cell.session "array length" (giving []) a.length
  | arrayPush (a : ArrayView) (v : Value) :
    Demand a.cell.session "array length" (giving v.handles) (a.push v)
  | arrayPop (a : ArrayView) : Demand a.cell.session "array pop" (giving []) a.pop
  | arrayClear (a : ArrayView) : Demand a.cell.session "array clear" (giving []) a.clear
  | arrayToList (a : ArrayView) : Demand a.cell.session "array length"
      (do HostM.clone [a.cell]; giving [a.cell]) a.toList
  | hashGet (h : HashView) (key : String) : Demand h.cell.session "hash get" (giving []) (h.get key)
  | hashSet (h : HashView) (key : String) (v : Value) :
    Demand h.cell.session crossing (taking v.handles (v.screen h.cell.session)) (h.set key v)
  | hashLength (h : HashView) : Demand h.cell.session "hash length" (giving []) h.length
  | hashContains (h : HashView) (key : String) :
    Demand h.cell.session "hash exists" (giving []) (h.contains key)
  | hashDelete (h : HashView) (key : String) :
    Demand h.cell.session "hash delete" (giving []) (h.delete key)
  | hashClear (h : HashView) : Demand h.cell.session "hash clear" (giving []) h.clear
  | hashToDict (h : HashView) : Demand h.cell.session "hash iterate"
      (do HostM.clone [h.cell]; giving [h.cell]) h.toDict
  | hashKeys (h : HashView) : Demand h.cell.session "hash iterate"
      (do HostM.clone [h.cell]; giving [h.cell]) h.keys
  | containerGet (c : Container) (key : Key) :
    Demand c.cell.session c.reading (taking [] (c.find key)) (c.get key)
  | containerSet (c : Container) (key : Key) (v : Value) : Demand c.cell.session crossing
      (taking v.handles (do c.find key; v.screen c.cell.session)) (c.set key v)
  | containerLength (c : Container) : Demand c.cell.session c.counting (giving []) c.length
  | call (c : Callable) (args : List Value) : Demand c.anchor.session (c.calling args)
      (taking [] (Value.screenFirst c.anchor.session args)) (c.call args)
  | callOne (c : Callable) (args : List Value) : Demand c.anchor.session (c.calling args)
      (taking [] (Value.screenFirst c.anchor.session args)) (c.callOne args)
  | callWithKeywords (c : Callable) (args : List Value) (keywords : Dict Value) :
    Demand c.anchor.session (c.calling (Callable.flatten args keywords)) (do
      HostM.clone (Value.handlesOfItems (Callable.flatten args keywords))
      taking (Value.handlesOfItems (Callable.flatten args keywords))
        (Value.screenFirst c.anchor.session (Callable.flatten args keywords)))
      (c.callWithKeywords args keywords)
  | callMethod (o : ObjectView) (name : String) (args : List Value) :
    Demand o.reference.session (Callable.calling (.method o.reference name) args) (do
      HostM.clone [o.reference]
      taking [o.reference] (Value.screenFirst o.reference.session args))
      (o.callMethod name args)
  | isa (o : ObjectView) (className : String) : Demand o.reference.session crossing
      (do HostM.clone [o.reference]; giving [o.reference]) (o.isa className)
  | can (o : ObjectView) (name : String) : Demand o.reference.session crossing
      (do HostM.clone [o.reference]; giving [o.reference]) (o.can name)
  | objectIdentity (o : ObjectView) :
    Demand o.reference.session "identity" (giving []) o.identity
  | refcount (h : Handle) : Demand h.session "refcount" (giving []) h.refcount
  | kind (h : Handle) : Demand h.session "kind" (giving []) h.kind
  | flags (h : Handle) : Demand h.session "flags" (giving []) h.flags
  | identity (h : Handle) : Demand h.session "identity" (giving []) h.identity

theorem Demand.refused (hx : Demand s operation args x) : Refused s operation args x := by
  cases hx with
  | start s => exact refused_start s
  | load s => exact refused_ready s "load" _
  | getGlobal s => exact refused_ready s "get_global" _
  | setGlobal s => exact refused_ready s "set_global" _
  | eval s => exact refused_ready s "eval" _
  | function s => exact refused_ready s "function" _
  | callNamed s => exact (refused_ready s "function" _).bind _
  | toForeign s => exact refused_ready s crossing _
  | toHost h => exact refused_toHost h
  | newArray s items => exact refused_newArray s items
  | newHash s entries => exact refused_newHash s entries
  | namespaceFunction p => exact refused_lookUpSub p.session _
  | namespaceCall p => exact (refused_lookUpSub p.session _).bind _
  | namespaceMethod p => exact (refused_cross p.session "class method" _).bind _
  | namespaceCallMethod p => exact ((refused_cross p.session "class method" _).bind _).bind _
  | construct p => exact ((refused_cross p.session "class method" _).bind _).bind _
  | getVariable p => exact refused_readGlobal p.session _
  | setVariable p name v => exact refused_writeGlobal p.session _ v
  | arraySet a index v => exact refused_arraySet a index v
  | arrayPush a v => exact refused_arrayPush a v
  | arrayToList a => exact refused_arrayToList a
  | hashSet h key v => exact refused_hashSet h key v
  | hashToDict h => exact refused_hashToDict h
  | hashKeys h => exact refused_hashToKeys h
  | containerGet c key => exact refused_containerGet c key
  | containerSet c key v => exact refused_containerSet c key v
  | containerLength c => exact refused_containerLength c
  | call c args => exact refused_call c args
  | callOne c args => exact (refused_call c args).bind _
  | callWithKeywords c args keywords => exact refused_callWithKeywords c args keywords
  | callMethod o name args => exact refused_callMethod o name args
  | isa o className => exact (refused_askMethod o "isa" className).bind _
  | can o name => exact (refused_askMethod o "can" name).bind _
  | arrayLength | arrayClear | hashLength | hashContains | hashClear | refcount | kind | flags
  | identity | objectIdentity => exact refused_cross _ _ _
  | arrayGet | arrayPop | hashGet | hashDelete => exact (refused_cross _ _ _).bind _

theorem Demand.lasts (hx : Demand s operation args x) : Lasts args := by
  cases hx with
  | setVariable p name v => exact lasts_assigning p.session v _
  | arraySet | hashSet => exact lasts_taking (lasts_screen ..)
  | arrayToList | hashToDict | hashKeys | isa | can =>
    exact (lasts_clone _).bind fun _ => lasts_giving _
  | containerGet c key => exact lasts_taking (lasts_find c key)
  | containerSet c key v => exact lasts_taking ((lasts_find c key).bind fun _ => lasts_screen ..)
  | call | callOne => exact lasts_taking (lasts_screenFirst ..)
  | callWithKeywords | callMethod =>
    exact (lasts_clone _).bind fun _ => lasts_taking (lasts_screenFirst ..)
  | _ => exact lasts_giving _

theorem World.EndedOn.create {engine : Engine} (engine' : Engine) (config : Config)
    (hw : w.EndedOn s engine) : (w.create engine' config).EndedOn s engine := by
  refine hw.of_session ?_
  rw [World.session_create, if_neg]
  exact Nat.ne_of_lt (World.lt_of_stage_ne (by rw [hw.stage]; nofun))

/-- A session that was shut down stays so whatever a console does, and every operation that needs its
interpreter is refused there: it does nothing but look at its arguments and release what it was
given. -/
theorem refused_after_shutDown (hstage : ((after steps).world.session s).stage = .shutDown)
    (more : List Step) :
    (after (steps ++ more)).world.EndedOn s ((after steps).world.session s).engine ∧
      ∀ {α : Type} {operation : String} {args : HostM (List Handle)} {x : HostM α},
        Demand s operation args x →
          x.run (after (steps ++ more)).world =
              (refusing operation args).run (after (steps ++ more)).world ∧
            (x.run (after (steps ++ more)).world).2.EndedOn s
              ((after steps).world.session s).engine := by
  have hended : (after (steps ++ more)).world.EndedOn s ((after steps).world.session s).engine := by
    rw [after_append]
    exact ((lasting_endedOn s _).foldl World.EndedOn.create more (after_fixable steps)
      ⟨hstage, rfl⟩).2
  refine ⟨hended, fun hx => ?_⟩
  have hrun := hx.refused _ hended.stage
  rw [hrun]
  exact ⟨rfl, (lasts_refusing hx.lasts).endedOn hended⟩

/-- A package is loaded, and then the session is shut down. -/
def bereaved : List Step := [
  .create { interpreter := { setup := Setup.provide {} { name := "P" } } } {},
  .line { command := .session ⟨0⟩ (.load "P"), into := some "p" },
  .line { command := .session ⟨0⟩ .shutDown }]

theorem refused_after_shutDown_bereaved :
    ((after bereaved).world.session ⟨0⟩).stage = .shutDown ∧
      ((SessionId.load ⟨0⟩ "P").run (after bereaved).world).1 = .error (ended "load") := by
  have hstage : ((after bereaved).world.session ⟨0⟩).stage = .shutDown := by decide +kernel
  have hrefused := ((refused_after_shutDown hstage []).2 (.load ⟨0⟩ "P")).1
  exact ⟨hstage, congrArg Prod.fst (hrefused.trans (run_refusing_giving ..))⟩

/-- An assignment to a subroutine fails over the symbol before it is noticed that the session was shut
down. -/
theorem not_ended_after_shutDown : ((after bereaved).world.session ⟨0⟩).stage = .shutDown ∧
    ¬ ∃ operation reason, ((Namespace.setVariable ⟨⟨0⟩, "P"⟩ "&f" (.int 1)).run
      (after bereaved).world).1 = .error (.lifecycle operation reason) := by
  refine ⟨by decide +kernel, fun ⟨_, _, hended⟩ => ?_⟩
  have hcode : ((Namespace.setVariable ⟨⟨0⟩, "P"⟩ "&f" (.int 1)).run (after bereaved).world).1 =
      .error (.conversion "int" "subroutine" "subroutines cannot be assigned from the host") := by
    rfl
  exact nomatch hcode.symm.trans hended

end Embedding

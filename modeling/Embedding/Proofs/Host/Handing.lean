import Embedding.Proofs.Host.Sessions

/-!
# Handing values to a session

The operations by which a host hands values, or handles, to a session. The values may have views of other
sessions in them at any depth, and each operation does to those no more than it may do to any session that
it only looks at.
-/

namespace Embedding

/-- An operation, with the handles that it borrows and takes over, and those in what it gives. -/
structure Deal (α : Type) where
  run : HostM α
  borrowed : List Handle
  taken : List Handle := []
  given : α → List Handle
  /-- The hashes that it may iterate over. -/
  walked : List Handle := []

/-- The operations on a session that are handed values. -/
inductive Handing : SessionId → {α : Type} → Deal α → Prop
  | setGlobal (s : SessionId) (name : String) (v : Value) : Handing s {
    run := s.setGlobal name v
    borrowed := v.handles
    given := fun _ => []
    walked := v.walked (Name.parseGlobal name).1 }
  | setVariable (p : Namespace) (name : String) (v : Value) : Handing p.session {
    run := p.setVariable name v
    borrowed := v.handles
    given := fun _ => []
    walked := v.walked (Name.parseGlobal (Name.qualifyIn p.name name)).1 }
  | toForeign (s : SessionId) (v : Value) : Handing s {
    run := s.toForeign v
    borrowed := v.handles
    given := fun h => [h] }
  | toHost (s : SessionId) (h : Handle) : Handing s {
    run := s.toHost h
    borrowed := [h]
    given := Value.handles }
  | newArray (s : SessionId) (items : List Value) : Handing s {
    run := s.newArray items
    borrowed := []
    taken := Value.handlesOfItems items
    given := fun a => [a.cell] }
  | newHash (s : SessionId) (entries : List (String × Value)) : Handing s {
    run := s.newHash entries
    borrowed := []
    taken := Value.handlesOfEntries entries
    given := fun h => [h.cell] }
  | arraySet (a : ArrayView) (index : Nat) (v : Value) : Handing a.cell.session {
    run := a.set index v
    borrowed := [a.cell]
    taken := v.handles
    given := fun _ => [] }
  | arrayPush (a : ArrayView) (v : Value) : Handing a.cell.session {
    run := a.push v
    borrowed := [a.cell]
    taken := v.handles
    given := fun _ => [] }
  | hashSet (h : HashView) (key : String) (v : Value) : Handing h.cell.session {
    run := h.set key v
    borrowed := [h.cell]
    taken := v.handles
    given := fun _ => [] }
  | containerSet (c : Container) (key : Key) (v : Value) : Handing c.cell.session {
    run := c.set key v
    borrowed := [c.cell]
    taken := v.handles
    given := fun _ => [] }
  | call (c : Callable) (args : List Value) : Handing c.anchor.session {
    run := c.call args
    borrowed := c.anchor :: Value.handlesOfItems args
    given := Value.handlesOfItems }
  | callOne (c : Callable) (args : List Value) : Handing c.anchor.session {
    run := c.callOne args
    borrowed := c.anchor :: Value.handlesOfItems args
    given := Value.handles }
  | callWithKeywords (c : Callable) (args : List Value) (keywords : Dict Value) :
    Handing c.anchor.session {
      run := c.callWithKeywords args keywords
      borrowed := c.anchor :: (Value.handlesOfItems args ++ Value.handlesOfEntries keywords)
      given := Value.handlesOfItems }
  | callMethod (o : ObjectView) (name : String) (args : List Value) : Handing o.reference.session {
    run := o.callMethod name args
    borrowed := o.reference :: Value.handlesOfItems args
    given := Value.handlesOfItems }
  | sessionCall (s : SessionId) (name : String) (args : List Value) : Handing s {
    run := s.call name args
    borrowed := Value.handlesOfItems args
    given := Value.handlesOfItems }
  | namespaceCall (p : Namespace) (name : String) (args : List Value) : Handing p.session {
    run := p.call name args
    borrowed := Value.handlesOfItems args
    given := Value.handlesOfItems }
  | namespaceCallMethod (p : Namespace) (name : String) (args : List Value) : Handing p.session {
    run := p.callMethod name args
    borrowed := Value.handlesOfItems args
    given := Value.handlesOfItems }
  | namespaceConstruct (p : Namespace) (args : List Value) : Handing p.session {
    run := p.construct args
    borrowed := Value.handlesOfItems args
    given := Value.handles }
  /-- Values are compared on behalf of any session. -/
  | equal (s : SessionId) (x y : Value) : Handing s {
    run := x.equal y
    borrowed := x.handles ++ y.handles
    given := fun _ => [] }

variable {may : Permission} {I : World → List Handle → Prop} {s : SessionId} {α : Type} {d : Deal α}

/-- Anything may be asked of the session that is handed values, and of the others only what shows their
values: one case for each operation. -/
theorem Handing.accounts (hhanding : Handing s d) (haffairs : Affairs may I) [Glances may] [Free may s]
    (hturns : Turns may d.walked) : Accounts I d.borrowed d.run d.taken d.given := by
  cases hhanding with
  | setGlobal s name v =>
    have : Turns may (v.walked (Name.parseGlobal name).1) := hturns
    exact haffairs.accounts_setGlobal name v
  | setVariable p name v =>
    have : Turns may (v.walked (Name.parseGlobal (Name.qualifyIn p.name name)).1) := hturns
    exact haffairs.accounts_writeGlobal (Name.qualifyIn p.name name) v
  | toForeign s v => exact haffairs.accounts_toForeign v
  | toHost s h => exact haffairs.accounts_toHost h
  | newArray s items => exact haffairs.accounts_newArray items
  | newHash s entries => exact haffairs.accounts_newHash entries
  | arraySet a index v => exact haffairs.accounts_arraySet a index v
  | arrayPush a v => exact haffairs.accounts_arrayPush a v
  | hashSet h key v => exact haffairs.accounts_hashSet h key v
  | containerSet c key v => exact haffairs.accounts_containerSet c key v
  | call c args => exact haffairs.accounts_call c args
  | callOne c args => exact haffairs.accounts_callOne c args
  | callWithKeywords c args keywords => exact haffairs.accounts_callWithKeywords c args keywords
  | callMethod o name args => exact haffairs.accounts_objectCall o name args
  | sessionCall s name args => exact haffairs.accounts_sessionCall name args
  | namespaceCall p name args => exact haffairs.accounts_namespaceCall p name args
  | namespaceCallMethod p name args => exact haffairs.accounts_namespaceCallMethod p name args
  | namespaceConstruct p args => exact haffairs.accounts_namespaceConstruct p args
  | equal s x y => exact haffairs.accounts_equal x y

end Embedding

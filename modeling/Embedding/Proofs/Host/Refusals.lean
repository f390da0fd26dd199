import Embedding.Host.Session
import Embedding.Proofs.Host.Steady

/-!
# Refusals

What a session that was shut down makes of an operation. It looks at the arguments as far as the
operation does so before it asks the interpreter, releases what it was given with them, and refuses.
-/

namespace Embedding

open HostM (holding orRelease)

variable {α β : Type} {x : HostM α} {f : α → HostM β} {s t : SessionId} {operation : String}
  {args look : HostM (List Handle)} {hs : List Handle} {w w' : World}

/-- Why a session that was shut down refuses. -/
def ended (operation : String) : HostError :=
  .lifecycle operation "the interpreter session has been shut down"

/-- Looks at the arguments, releases what was given with them, and refuses. -/
def refusing (operation : String) (args : HostM (List Handle)) : HostM α := do
  let given ← args
  HostM.release given
  throw (ended operation)

/-- In a session that was shut down, nothing is left of the operation but the look at its
arguments. -/
def Refused (s : SessionId) (operation : String) (args : HostM (List Handle)) (x : HostM α) : Prop :=
  ∀ w, (w.session s).stage = .shutDown → x.run w = (refusing operation args).run w

/-- Nothing is asked, and what is taken over is given up if a look at it fails. -/
def taking (hs : List Handle) (look : HostM Unit) : HostM (List Handle) := do
  orRelease hs look
  return hs

/-- The handles are given up, and nothing is looked at. -/
def giving (hs : List Handle) : HostM (List Handle) := taking hs (pure ())

/-- Refuses a value that cannot cross to the session, whatever state the session is in. -/
def Value.screen (s : SessionId) : Value → HostM Unit
  | .array view => ensureOwn s (.array view) view.cell
  | .hash view => ensureOwn s (.hash view) view.cell
  | .callable (.code cell) => ensureOwn s (.callable (.code cell)) cell
  | .callable (.method ..) =>
    throw (.conversion "bound method" "foreign value"
      "a method bound to its receiver has no interpreter representation")
  | .object view => ensureOwn s (.object view) view.reference
  | _ => return

/-! ## Refusals along an operation -/

theorem run_refusing (operation : String) (args : HostM (List Handle)) (w : World) :
    (refusing operation args : HostM α).run w = match args.run w with
      | (.ok given, w') => (.error (ended operation), w'.releaseAll given)
      | (.error e, w') => (.error e, w') := by
  rw [refusing, run_bind]
  rcases args.run w with ⟨_ | given, w'⟩ <;> rfl

theorem run_refusing_giving (operation : String) (hs : List Handle) (w : World) :
    (refusing operation (giving hs) : HostM α).run w =
      (.error (ended operation), w.releaseAll hs) := by
  rw [run_refusing]
  rfl

theorem Refused.bind (hx : Refused s operation args x) (f : α → HostM β) :
    Refused s operation args (x >>= f) := by
  intro w hw
  rw [run_bind, hx w hw, run_refusing, run_refusing]
  rcases args.run w with ⟨_ | given, w'⟩ <;> rfl

theorem Refused.orRelease (hx : Refused s operation args x) (hs : List Handle) :
    Refused s operation (do return (← HostM.orRelease hs args) ++ hs) (HostM.orRelease hs x) := by
  intro w hw
  rw [run_refusing, HostM.run_orRelease, hx w hw, run_refusing, run_bind, HostM.run_orRelease]
  rcases args.run w with ⟨_ | given, w'⟩
  · rfl
  · exact congrArg (Prod.mk _) (World.releaseAll_append w' given hs).symm

theorem Refused.holding (hx : Refused s operation args x) (hs : List Handle) :
    Refused s operation (do return (← HostM.orRelease hs args) ++ hs) (HostM.holding hs x) := by
  intro w hw
  rw [← hx.orRelease hs w hw, HostM.run_holding, HostM.run_orRelease, hx w hw, run_refusing]
  rcases args.run w with ⟨_ | given, w'⟩ <;> rfl

theorem Refused.holding_taking {look : HostM Unit} (hx : Refused s operation (taking [] look) x)
    (hs : List Handle) : Refused s operation (taking hs look) (HostM.holding hs x) := by
  intro w hw
  rw [hx.holding hs w hw, run_refusing, run_refusing]
  unfold taking
  simp only [run_bind, HostM.run_orRelease]
  rcases look.run w with ⟨_ | _, w'⟩ <;> rfl

theorem Refused.orRelease_taking {look : HostM Unit} (hx : Refused s operation (taking [] look) x)
    (hs : List Handle) : Refused s operation (taking hs look) (HostM.orRelease hs x) := by
  intro w hw
  rw [← hx.holding_taking hs w hw, HostM.run_orRelease, HostM.run_holding, hx w hw, run_refusing]
  rcases (taking [] look).run w with ⟨_ | _, w'⟩ <;> rfl

theorem refused_cross (s : SessionId) (operation : String) {shape : Shape}
    (request : Request Handle shape) :
    Refused s operation (giving []) (cross s operation request) := by
  intro w hw
  rw [cross, crossWith_eq, run_bind_error (by rw [run_ensureLive, hw]; rfl)]
  rfl

theorem refused_ready (s : SessionId) (operation : String) (x : HostM α) :
    Refused s operation (giving []) (do s.ensureReady operation; x) := by
  intro w hw
  have hready : (s.ensureReady operation).run w = (.error (ended operation), w) := by
    unfold SessionId.ensureReady HostM.session
    rw [bind_assoc, run_get_bind, pure_bind, hw]
    exact (run_ensureLive s operation w).trans (by rw [hw]; rfl)
  rw [run_bind_error hready]
  rfl

/-! ## Values -/

theorem refused_ensureOwn {v : Value} {h : Handle} (hx : Refused s operation (giving []) x) :
    Refused s operation (taking [] (ensureOwn s v h)) (do ensureOwn s v h; x) := by
  intro w hw
  unfold ensureOwn
  split
  · exact hx w hw
  · rfl

theorem refused_newCell (s : SessionId) (v : Value) :
    Refused s crossing (taking [] (v.screen s)) (newCell s v) := by
  have hnew {shape : Shape} (request : Request Handle shape) := refused_cross s crossing request
  unfold newCell Value.screen
  rcases v with _ | _ | _ | _ | _ | _ | items | entries | view | view | (cell | ⟨receiver, name⟩) | view
  · exact hnew _
  · exact hnew _
  · exact hnew _
  · exact hnew _
  · exact hnew _
  · exact hnew _
  · exact (hnew _).bind _
  · exact (hnew _).bind _
  · exact refused_ensureOwn (hnew _)
  · exact refused_ensureOwn (hnew _)
  · exact refused_ensureOwn (hnew _)
  · exact fun w _ => rfl
  · exact refused_ensureOwn ((hnew _).bind _)

/-- Refuses the first of some values if it cannot cross to the session. -/
def Value.screenFirst (s : SessionId) : List Value → HostM Unit
  | [] => return
  | v :: _ => v.screen s

/-! ## What lasts -/

/-- Whatever lasts in a world goes on through the operation. -/
structure Lasts (x : HostM α) : Prop where
  preserves : ∀ J : World → Prop, Lasting J → Preserves J x

theorem Accounts.lasts {b taken : List Handle} {given : α → List Handle}
    (hx : ∀ I : World → List Handle → Prop, Books I → Accounts I b x taken given) : Lasts x :=
  ⟨fun _ hlasting => (hx _ hlasting.books).preserves⟩

theorem Lasts.endedOn (hx : Lasts x) {engine : Engine} (hw : w.EndedOn s engine) :
    (x.run w).2.EndedOn s engine := hx.preserves _ (lasting_endedOn s engine) w hw

theorem Lasts.stage (hx : Lasts x) (hw : (w.session s).stage = .shutDown) :
    ((x.run w).2.session s).stage = .shutDown := (hx.endedOn ⟨hw, rfl⟩).stage

theorem Lasts.bind (hx : Lasts x) (hf : ∀ a, Lasts (f a)) : Lasts (x >>= f) :=
  ⟨fun J hlasting => (hx.preserves J hlasting).bind fun a => (hf a).preserves J hlasting⟩

theorem lasts_pure (a : α) : Lasts (pure a : HostM α) := ⟨fun _ _ => preserves_pure a⟩

theorem lasts_throw (e : HostError) : Lasts (throw e : HostM α) := ⟨fun _ _ => preserves_throw e⟩

theorem lasts_clone (hs : List Handle) : Lasts (HostM.clone hs) :=
  Accounts.lasts fun _ hbooks => hbooks.accounts_clone (List.Subset.refl hs)

theorem lasts_release (hs : List Handle) : Lasts (HostM.release hs) :=
  Accounts.lasts fun _ hbooks => hbooks.accounts_release (b := []) hs

theorem Lasts.orRelease (hx : Lasts x) (hs : List Handle) : Lasts (HostM.orRelease hs x) := by
  refine ⟨fun J hlasting w hJ => ?_⟩
  have hx := hx.preserves J hlasting w hJ
  rw [HostM.run_orRelease]
  generalize x.run w = p at hx ⊢
  rcases p with ⟨_ | _, w'⟩
  · exact (lasts_release hs).preserves J hlasting w' hx
  · exact hx

theorem lasts_taking {hs : List Handle} {look : HostM Unit} (hlook : Lasts look) :
    Lasts (taking hs look) := (hlook.orRelease hs).bind fun _ => lasts_pure hs

theorem lasts_giving (hs : List Handle) : Lasts (giving hs) := lasts_taking (lasts_pure ())

theorem lasts_refusing (hargs : Lasts args) : Lasts (refusing operation args : HostM α) :=
  hargs.bind fun given => (lasts_release given).bind fun _ => lasts_throw _

theorem lasts_ensureOwn (s : SessionId) (v : Value) (h : Handle) : Lasts (ensureOwn s v h) := by
  unfold ensureOwn
  split
  · exact lasts_pure ()
  · exact lasts_throw _

theorem lasts_screen (s : SessionId) (v : Value) : Lasts (v.screen s) := by
  unfold Value.screen
  split
  · exact lasts_ensureOwn ..
  · exact lasts_ensureOwn ..
  · exact lasts_ensureOwn ..
  · exact lasts_throw _
  · exact lasts_ensureOwn ..
  · exact lasts_pure ()

theorem lasts_screenFirst (s : SessionId) (vs : List Value) : Lasts (Value.screenFirst s vs) := by
  cases vs with
  | nil => exact lasts_pure ()
  | cons v vs => exact lasts_screen s v

theorem lasts_arrayItems (v : Value) : Lasts (arrayItems v) :=
  Accounts.lasts fun _ hbooks => hbooks.accounts_arrayItems v

theorem lasts_hashEntries (v : Value) : Lasts (hashEntries v) :=
  Accounts.lasts fun _ hbooks => hbooks.accounts_hashEntries v

theorem Refused.after {y : HostM β} {f : β → HostM α} {args : β → HostM (List Handle)}
    (hf : ∀ b, Refused s operation (args b) (f b)) (hy : Lasts y) :
    Refused s operation (y >>= args) (y >>= f) := by
  intro w hw
  have hw' := hy.stage hw
  rw [run_bind, run_refusing, run_bind]
  generalize y.run w = p at hw' ⊢
  rcases p with ⟨_ | b, w'⟩
  · rfl
  · dsimp only
    rw [hf b w' hw', run_refusing]

/-! ## Sessions and namespaces -/

theorem refused_start (s : SessionId) : Refused s "initialize" (giving []) s.start := by
  intro w hw
  unfold SessionId.start HostM.session
  rw [bind_assoc, run_get_bind, pure_bind, hw]
  rfl

theorem refused_value (h : Handle) : Refused h.session "to_host" (giving []) h.value :=
  (refused_cross h.session "to_host" (.kind h)).bind _

theorem refused_toHost (h : Handle) :
    Refused h.session "to_host" (giving []) (h.session.toHost h) := by
  rw [SessionId.toHost, if_pos rfl]
  exact refused_value h

theorem refused_newArray (s : SessionId) (items : List Value) : Refused s "new_array"
    (giving (Value.handlesOfItems items)) (s.newArray items) :=
  ((refused_ready s "new_array" _).orRelease_taking _).bind _

theorem refused_newHash (s : SessionId) (entries : List (String × Value)) : Refused s "new_hash"
    (giving (Value.handlesOfEntries entries)) (s.newHash entries) :=
  ((refused_ready s "new_hash" _).orRelease_taking _).bind _

theorem refused_lookUpSub (s : SessionId) (name : String) :
    Refused s "function" (giving []) (lookUpSub s name) := (refused_cross s "function" _).bind _

theorem refused_readGlobal (s : SessionId) (name : String) :
    Refused s "get_global" (giving []) (readGlobal s name) := (refused_cross s "get_global" _).bind _

/-- What an assignment looks at, and the handles that it takes over. -/
def assigning (s : SessionId) (v : Value) : Slot → HostM (List Handle)
  | .scalar => taking [] (v.screen s)
  | .array => do giving (Value.handlesOfItems (← arrayItems v))
  | .hash => do giving (Value.handlesOfEntries (← hashEntries v))
  | .code =>
    throw (.conversion v.typeName "subroutine" "subroutines cannot be assigned from the host")

/-- What an assignment is refused as. -/
def assignment : Slot → String
  | .scalar => crossing
  | _ => "set_global"

theorem lasts_assigning (s : SessionId) (v : Value) : ∀ slot, Lasts (assigning s v slot)
  | .scalar => lasts_taking (lasts_screen s v)
  | .array => (lasts_arrayItems v).bind fun _ => lasts_giving _
  | .hash => (lasts_hashEntries v).bind fun _ => lasts_giving _
  | .code => lasts_throw _

theorem refused_createGlobal (s : SessionId) (slot : Slot) (qualified : String) :
    Refused s "set_global" (giving []) (createGlobal s slot qualified) :=
  (refused_cross s "set_global" _).bind _

theorem refused_writeGlobal (s : SessionId) (name : String) (v : Value) :
    Refused s (assignment (Name.parseGlobal name).1) (assigning s v (Name.parseGlobal name).1)
      (writeGlobal s name v) := by
  unfold writeGlobal
  generalize Name.parseGlobal name = symbol
  obtain ⟨slot, qualified⟩ := symbol
  cases slot with
  | scalar => exact (refused_newCell s v).bind _
  | array =>
    refine Refused.after (fun items => ?_) (lasts_arrayItems v)
    exact (((refused_createGlobal s .array qualified).bind _).orRelease_taking _).bind _
  | hash =>
    refine Refused.after (fun entries => ?_) (lasts_hashEntries v)
    exact (((refused_createGlobal s .hash qualified).bind _).orRelease_taking _).bind _
  | code => exact fun w _ => rfl

/-! ## Arrays and hashes -/

theorem refused_arraySet (a : ArrayView) (index : Nat) (v : Value) :
    Refused a.cell.session crossing (taking v.handles (v.screen a.cell.session)) (a.set index v) :=
  ((refused_newCell a.cell.session v).holding_taking v.handles).bind _

theorem refused_arrayLength (a : ArrayView) :
    Refused a.cell.session "array length" (giving []) a.length := refused_cross _ _ _

theorem refused_arrayPush (a : ArrayView) (v : Value) :
    Refused a.cell.session "array length" (giving v.handles) (a.push v) :=
  ((refused_arrayLength a).orRelease_taking v.handles).bind _

/-- The bound on the number of items is no bound that keeps a walk from its first step. -/
theorem run_itemBound (h : Handle) (w : World) :
    ∃ n, (HostM.itemBound h).run w = (.ok (n + 1), w) := by
  unfold HostM.itemBound
  rw [run_get_bind]
  dsimp only
  split <;> exact ⟨_, rfl⟩

theorem refused_arrayWalk (fuel : Nat) (c : ArrayCursor) :
    Refused c.array.cell.session "array length" (giving []) (ArrayCursor.toList (fuel + 1) c) := by
  intro w hw
  have hlength := refused_arrayLength c.array w hw
  have hnext : c.next.run w =
      (.ok (some (.error (ended "array length")), { c with position := none }), w) := by
    unfold ArrayCursor.next
    rw [run_bind_ok (HostM.run_attempt _ w), hlength]
    rfl
  rw [ArrayCursor.toList, run_bind_ok hnext]
  rfl

/-- A view that is read as a whole is cloned first, and its clone is released. -/
theorem refused_arrayToList (a : ArrayView) :
    Refused a.cell.session "array length" (do HostM.clone [a.cell]; giving [a.cell]) a.toList := by
  intro w hw
  obtain ⟨n, hbound⟩ := run_itemBound a.cell w
  have hwalk := (refused_arrayWalk n { array := a }).holding_taking [a.cell]
  rw [ArrayView.toList, run_bind_ok hbound]
  exact Refused.after (fun _ => hwalk) (lasts_clone [a.cell]) w hw

theorem refused_hashSet (h : HashView) (key : String) (v : Value) :
    Refused h.cell.session crossing (taking v.handles (v.screen h.cell.session)) (h.set key v) :=
  ((refused_newCell h.cell.session v).holding_taking v.handles).bind _

theorem run_hashNext (h : HashView) (hw : (w.session h.cell.session).stage = .shutDown) :
    (HashCursor.next { hash := h }).run w =
      (.ok (some (.error (ended "hash iterate")), { hash := h, walk := .ended }), w) := by
  have hstep : Refused h.cell.session "hash iterate" (giving []) (HashCursor.step { hash := h }) :=
    (refused_cross h.cell.session "hash iterate" (.hashRewind h.cell)).bind _
  rw [HashCursor.next, if_neg nofun, run_bind_ok (HostM.run_attempt _ w), hstep w hw]
  rfl

theorem refused_hashEntries (fuel : Nat) (h : HashView) : Refused h.cell.session "hash iterate"
    (giving []) (HashCursor.toEntries (fuel + 1) { hash := h }) := by
  intro w hw
  rw [HashCursor.toEntries, run_bind_ok (run_hashNext h hw)]
  rfl

theorem refused_hashKeys (fuel : Nat) (h : HashView) : Refused h.cell.session "hash iterate"
    (giving []) (HashCursor.toKeys (fuel + 1) { hash := h }) := by
  intro w hw
  rw [HashCursor.toKeys, run_bind_ok (run_hashNext h hw)]
  rfl

theorem refused_hashToDict (h : HashView) :
    Refused h.cell.session "hash iterate" (do HostM.clone [h.cell]; giving [h.cell]) h.toDict := by
  intro w hw
  obtain ⟨n, hbound⟩ := run_itemBound h.cell w
  have hwalk := ((refused_hashEntries n h).bind (HashView.collect · [])).holding_taking [h.cell]
  rw [HashView.toDict, run_bind_ok hbound]
  exact Refused.after (fun _ => hwalk) (lasts_clone [h.cell]) w hw

theorem refused_hashToKeys (h : HashView) :
    Refused h.cell.session "hash iterate" (do HostM.clone [h.cell]; giving [h.cell]) h.keys := by
  intro w hw
  obtain ⟨n, hbound⟩ := run_itemBound h.cell w
  have hwalk := (refused_hashKeys n h).holding_taking [h.cell]
  rw [HashView.keys, run_bind_ok hbound]
  exact Refused.after (fun _ => hwalk) (lasts_clone [h.cell]) w hw

/-! ## Containers of either sort -/

/-- What a container makes of a key before it asks the interpreter. -/
def Container.find (c : Container) (key : Key) : HostM Unit :=
  match c with
  | .array _ => discard (ofExcept key.toIndex)
  | .hash _ => return

def Container.reading : Container → String
  | .array _ => "array get"
  | .hash _ => "hash get"

def Container.counting : Container → String
  | .array _ => "array length"
  | .hash _ => "hash length"

theorem lasts_find (c : Container) (key : Key) : Lasts (c.find key) := by
  unfold Container.find
  split
  · cases key.toIndex with
    | ok index => exact lasts_pure ()
    | error e => exact lasts_throw e
  · exact lasts_pure ()

theorem refused_containerGet (c : Container) (key : Key) :
    Refused c.cell.session c.reading (taking [] (c.find key)) (c.get key) := by
  cases c with
  | array a =>
    simp only [Container.find, Container.get]
    cases key.toIndex with
    | ok index => exact (refused_cross a.cell.session "array get" _).bind _
    | error e => exact fun w _ => rfl
  | hash h => exact (refused_cross h.cell.session "hash get" _).bind _

theorem refused_containerSet (c : Container) (key : Key) (v : Value) :
    Refused c.cell.session crossing
      (taking v.handles (do c.find key; v.screen c.cell.session)) (c.set key v) := by
  cases c with
  | array a =>
    simp only [Container.find, Container.set]
    cases key.toIndex with
    | ok index => exact refused_arraySet a index v
    | error e => exact fun w _ => rfl
  | hash h => exact refused_hashSet h key.toName v

theorem refused_containerLength (c : Container) :
    Refused c.cell.session c.counting (giving []) c.length := by
  cases c <;> exact refused_cross _ _ _

/-! ## Calls -/

/-- What a call is refused as: without arguments it comes to the interpreter at once. -/
def Callable.calling (c : Callable) : List Value → String
  | [] => match c with
    | .code _ => "call"
    | .method .. => "method call"
  | _ :: _ => crossing

theorem refused_call (c : Callable) (args : List Value) : Refused c.anchor.session
    (c.calling args) (taking [] (Value.screenFirst c.anchor.session args)) (c.call args) := by
  cases args with
  | nil =>
    intro w hw
    have hinvoke : Refused c.anchor.session (c.calling []) (giving []) (c.invoke []) := by
      cases c with
      | code cell => exact (refused_cross cell.session "call" _).bind _
      | method receiver name => exact (refused_cross receiver.session "method call" _).bind _
    exact (hinvoke.holding_taking []) w hw
  | cons v vs => exact ((refused_newCell c.anchor.session v).bind _).bind _

theorem refused_callWithKeywords (c : Callable) (args : List Value) (keywords : Dict Value) :
    let flat := Callable.flatten args keywords
    Refused c.anchor.session (c.calling flat) (do
      HostM.clone (Value.handlesOfItems flat)
      taking (Value.handlesOfItems flat) (Value.screenFirst c.anchor.session flat))
      (c.callWithKeywords args keywords) :=
  Refused.after (fun _ => (refused_call c _).holding_taking _) (lasts_clone _)

theorem refused_method (o : ObjectView) {operation : String} {look : HostM Unit} (name : String)
    {f : Callable → HostM α} (hf : Refused o.reference.session operation (taking [] look)
      (f (.method o.reference name))) :
    Refused o.reference.session operation (do
      HostM.clone [o.reference]
      taking [o.reference] look)
      (do
        let c ← o.method name
        holding [c.anchor] (f c)) := by
  have hcalled := hf.holding_taking [o.reference]
  exact Refused.after (fun _ => hcalled) (lasts_clone [o.reference])

theorem refused_callMethod (o : ObjectView) (name : String) (args : List Value) :
    Refused o.reference.session (Callable.calling (.method o.reference name) args) (do
      HostM.clone [o.reference]
      taking [o.reference] (Value.screenFirst o.reference.session args))
      (o.callMethod name args) :=
  refused_method o name (refused_call (.method o.reference name) args)

theorem refused_askMethod (o : ObjectView) (name argument : String) :
    Refused o.reference.session crossing (do
      HostM.clone [o.reference]
      giving [o.reference])
      (o.askMethod name argument) :=
  refused_method o name ((refused_call (.method o.reference name) [.text argument]).bind _)

end Embedding

import Embedding.Host.Session
import Embedding.Proofs.Console.Runs
import Embedding.Proofs.Heap.Bonds
import Embedding.Proofs.Host.Arrivals
import Embedding.Proofs.Host.Onward

/-!
# Receivers

The view of an object owns a reference of its own, and a method of a package owns a text with its name.
The main statement is that they stand for the same object or class however the host goes on, as long as
nothing is assigned to the cell itself. A method that is called on it can do that, for the receiver is its
first argument, and then the view is one of something else.
-/

namespace Embedding

open Heap

variable {origin w w' : World} {hs : List Handle} {s : SessionId} {setup : Setup} {h h' : Heap}
  {shape : Shape} {read : Handle → HostM Value} {operation : String} {request : Request Handle shape}
  {σ : List CellId} {packages : String → Prop}

/-! ## Crossings that succeed -/

namespace Heap

theorem deref_eq_ok {c t : CellId} (hrun : (deref c).run h = (.ok t, h')) :
    h.target c = .ok t ∧ h.Grows h' := by
  have hgrows := deref_grows h c
  unfold Ends at hgrows
  rw [hrun] at hgrows
  obtain ⟨target, htarget, hend⟩ := run_query_bind_eq_ok hrun
  obtain ⟨_, _, -, hreturn⟩ := run_bind_eq_ok hend
  cases hreturn
  exact ⟨htarget, hgrows⟩

theorem className_eq_some {c t : CellId} {className : String} (hclass : h.className c = .ok (some className))
    (ht : h.target c = .ok t) : ∃ x, h.cell? t = some x ∧ x.package = some className := by
  unfold Heap.className at hclass
  rw [ht] at hclass
  dsimp only [bind, Except.bind] at hclass
  cases hkind : h.kind c with
  | error e => rw [hkind] at hclass; cases hclass
  | ok kind =>
    rw [hkind] at hclass
    dsimp only at hclass
    split at hclass
    · cases hx : h.cell t with
      | error e => rw [hx] at hclass; cases hclass
      | ok x =>
        rw [hx] at hclass
        exact ⟨x, cell_eq_ok_iff.1 hx, Except.ok.inj hclass⟩
    · cases hclass

theorem newRef_eq_ok {t c : CellId} (hrun : (newRef t).run h = (.ok c, h')) :
    ∃ g, h.Grows g ∧ g.allocate (.scalar (.ofRef t)) = (c, h') := by
  obtain ⟨_, g, hretain, halloc⟩ := run_bind_eq_ok hrun
  have hg := retain_grows h t
  rw [hretain] at hg
  cases halloc
  exact ⟨g, hg, rfl⟩

end Heap

theorem Reached.arrived (hreach : Reached origin w hs) (hfresh : origin.Fresh)
    (hstage : (w.session s).stage = .initialized) : ∃ h, Arrived origin s w hs h := by
  obtain ⟨h, hr, -⟩ := (hreach.leaky hfresh).runsOn hstage
  exact ⟨h, hreach, hr⟩

theorem Arrived.crossed {answer : Answer Handle shape} (ha : Arrived origin s w hs h)
    (hrun : (crossWith read s operation request).run w = (.ok answer, w')) (hplain : request.isPlain = true)
    (hcells : ∀ h ∈ request.cells, h.session = s) (hsub : request.cells ⊆ hs) :
    ∃ a h', (Heap.answer (origin.session s).engine.interpreter.setup (request.map Handle.cell)).run h =
        (.ok a, h') ∧ answer = a.map (fun c => ⟨s, c⟩) ∧ Arrived origin s w' (answer.stakes ++ hs) h' := by
  have hnext := ha.reach.exchange request ha.runs.stage hplain hcells hsub (crossWith_ok hrun)
  have hexchanged : exchanged s (.ok answer) (.ok none) = answer.stakes := List.append_nil _
  rw [hexchanged] at hnext
  obtain ⟨a, h', hanswer, hmap, rfl⟩ := ha.runs.crossed hrun
  exact ⟨a, h', hanswer, hmap, hnext, ha.runs.put h' _⟩

theorem Reached.stage_release {c d : Handle} (hreach : Reached origin w (d :: hs)) (hfresh : origin.Fresh)
    (hc : c ∈ hs) (hstage : (w.session c.session).stage = .initialized) :
    ((w.release d).session c.session).stage = .initialized := by
  have hcount := ((hreach.release.leaky hfresh) c.session).count
  refine (World.Attended.release (.inl hstage) hcount).resolve_right fun hnil => ?_
  have hcell := mem_cellsOf hc
  rw [hnil] at hcell
  cases hcell

/-! ## How a host gets receivers -/

def World.receiverClass? (w : World) (c : Handle) : Option String :=
  ((w.session c.session).engine.interpreter.heap.bind fun h => (h.receiverClass c.cell).toOption).join

/-- A host gets a receiver with the view of an object, or binds a method to the name of a package. A method
that it binds to a view has a clone of the view's handle. -/
inductive World.Receives (w : World) (hs : List Handle) : Handle → String → World → Prop
  | object {h : Handle} {o : ObjectView} {depth : Nat} {w' : World} : h ∈ hs →
    (valueWithin depth h).run w = (.ok (.object o), w') → Receives w hs o.reference o.className w'
  | package {p : Namespace} {name : String} {c : Callable} {w' : World} :
    (p.method name).run w = (.ok c, w') → Receives w hs c.anchor p.name w'

/-- A reference, or a text with the name of the class. -/
def Scalar.Receives (s : Scalar) (className : String) : Prop :=
  (∃ t, s = .ofRef t) ∨ s = .ofText className

theorem World.receives_value {c : Handle} {o : ObjectView} {depth : Nat} (hc : c ∈ hs)
    (hvalue : ((valueWithin depth c).run w).1 = .ok (.object o)) :
    w.Receives hs o.reference o.className ((valueWithin depth c).run w).2 :=
  .object hc (Prod.ext hvalue rfl)

theorem Bound.made {g : Heap} (hs : h.Sound σ) (hg : h.Grows g) {value : Scalar}
    (htarget : ∀ t, value.ref = some t → ∃ x package, h.cell? t = some x ∧ x.package = some package ∧
      packages package) :
    Bound (g.allocate (.scalar value)).1 value packages (g.allocate (.scalar value)).2 where
  old := by simp [Heap.allocate]
  unnamed name he := by
    have hname : h.symbol? .scalar name = some ⟨g.cells.size⟩ := by
      rw [Heap.symbol?, ← hg.symbols]
      exact he
    obtain ⟨x, hx, -⟩ := hs.named.sorts .scalar name _ hname
    exact absurd (lt_of_cell? hx) (Nat.not_lt.2 hg.size)
  holds x hx := by
    rw [Heap.cell?_allocate, if_pos rfl] at hx
    cases hx
    exact .inl rfl
  target t ht := by
    obtain ⟨x, package, hx, hpackage, hin⟩ := htarget t ht
    obtain ⟨n, hgrown⟩ := hg.cells t x hx
    have hlt : t.index < g.cells.size := lt_of_cell? hgrown
    refine ⟨by simp only [Heap.allocate, Array.size_push]; omega, fun y hy => ?_⟩
    rw [Heap.cell?_allocate, if_neg (fun e => by simp [e, Heap.allocate] at hlt), hgrown] at hy
    cases hy
    exact ⟨package, hpackage, hin⟩

/-- A receiver that is held stands for its target or itself, and has the class that it had or one of the
packages. -/
theorem Bound.receiver {cell : CellId} {value : Scalar} {className : String} (hs : h.Sound σ)
    (hmem : cell ∈ σ) (hb : Bound cell value packages h) (hvalue : value.Receives className)
    (hin : packages className) : h.identity cell = .ok (value.ref.getD cell) ∧
      ∃ package, h.receiverClass cell = .ok (some package) ∧ packages package := by
  obtain ⟨x, hx⟩ := exists_cell (hs.isLive hmem)
  rcases hvalue with ⟨t, rfl⟩ | rfl
  · obtain ⟨s, hcontent, href, -⟩ := hb.scalar hx
    have hchild : t ∈ x.content.children := by
      rw [hcontent, Content.children, href]
      exact List.mem_singleton.2 rfl
    obtain ⟨y, hy⟩ := exists_cell (hs.isLive_child hx hchild)
    exact hb.object hx rfl hy
  · obtain ⟨hidentity, hclass⟩ := hb.named hx rfl rfl
    rw [Utf8.decodeLossy_encode] at hclass
    exact ⟨hidentity, className, hclass, hin⟩

/-- Only a reference has the view of an object as its value. -/
theorem scalarValueWith_isView {h : Handle} {v : Value}
    (hrun : (scalarValueWith (crossWith read) h).run w = (.ok v, w')) : v.isView = false := by
  obtain ⟨flags, w₁, -, hrest⟩ := run_bind_eq_ok hrun
  split at hrest
  · obtain ⟨n, w₂, -, hend⟩ := run_bind_eq_ok hrest
    cases hend
    rfl
  split at hrest
  · obtain ⟨n, w₂, -, hend⟩ := run_bind_eq_ok hrest
    cases hend
    rfl
  split at hrest
  · obtain ⟨x, w₂, -, hend⟩ := run_bind_eq_ok hrest
    cases hend
    rfl
  split at hrest
  · obtain ⟨bytes, w₂, -, hend⟩ := run_bind_eq_ok hrest
    split at hend
    · split at hend <;> cases hend
      rfl
    · cases hend
      rfl
  · cases hrest
    rfl

theorem valueWithin_object {depth : Nat} {h : Handle} {o : ObjectView}
    (hrun : (valueWithin depth h).run w = (.ok (.object o), w')) : ∃ read w₁,
      (crossWith read h.session "to_host" (.kind h)).run w = (.ok .ref, w₁) ∧
      (referenceValueWith (crossWith read) h).run w₁ = (.ok (.object o), w') := by
  cases depth with
  | zero => cases hrun
  | succ depth =>
    obtain ⟨kind, w₁, hkind, hrest⟩ := run_bind_eq_ok hrun
    cases kind with
    | ref => exact ⟨_, w₁, hkind, hrest⟩
    | scalar => exact nomatch scalarValueWith_isView hrest
    | array | hash | code =>
      obtain ⟨_, w₂, -, hend⟩ := run_bind_eq_ok hrest
      cases hend
    | undef | glob => cases hrest

/-- A view of an object is made in three crossings: one finds the class, one the target, and one makes a
reference to that. -/
theorem referenceValueWith_object {h : Handle} {o : ObjectView}
    (hrun : (referenceValueWith (crossWith read) h).run w = (.ok (.object o), w')) :
    ∃ target w₁ w₂ w₃,
      (crossWith read h.session "to_host" (.className h)).run w = (.ok (some o.className), w₁) ∧
      (crossWith read h.session "to_host" (.deref h)).run w₁ = (.ok target, w₂) ∧
      (crossWith read h.session "to_host" (.newRef target)).run w₂ = (.ok o.reference, w₃) ∧
      w' = w₃.release target := by
  obtain ⟨className, w₁, hclass, hrest⟩ := run_bind_eq_ok hrun
  cases className with
  | some className =>
    obtain ⟨target, w₂, hderef, hview⟩ := run_bind_eq_ok hrest
    rw [HostM.run_holding] at hview
    cases hmake : (do
        let reference ← crossWith read h.session "to_host" (.newRef target)
        return Value.object ⟨reference, className⟩ : HostM Value).run w₂ with
    | mk r w₃ =>
      rw [hmake] at hview
      cases hview
      obtain ⟨reference, w₄, hnew, hend⟩ := run_bind_eq_ok hmake
      cases hend
      exact ⟨target, w₁, w₂, w₃, hclass, hderef, hnew, rfl⟩
  | none =>
    obtain ⟨target, w₂, hderef, hview⟩ := run_bind_eq_ok hrest
    rw [HostM.run_orRelease] at hview
    split at hview
    · next v w₃ hmake =>
      obtain ⟨kind, w₄, -, hend⟩ := run_bind_eq_ok hmake
      cases hview
      cases kind <;> cases hend
    · cases hview

/-- The reference that a view of an object owns is bound, before the handle in the target is given back. -/
theorem Reached.objectView {c : Handle} {depth : Nat} {o : ObjectView} (hfresh : origin.Fresh)
    (hreach : Reached origin w hs) (hc : c ∈ hs)
    (hrun : (valueWithin depth c).run w = (.ok (.object o), w')) : ∃ t w₁ h,
      Arrived origin c.session w₁ (o.reference :: ⟨c.session, t⟩ :: hs) h ∧
      o.reference.session = c.session ∧ w' = w₁.release ⟨c.session, t⟩ ∧
      ∀ packages, packages o.className → Bound o.reference.cell (.ofRef t) packages h := by
  obtain ⟨read, w₀, hkind, href⟩ := valueWithin_object hrun
  obtain ⟨target, w₁, w₂, w₃, hclass, hderef, hnew, rfl⟩ := referenceValueWith_object href
  have hcells : ∀ d ∈ [c], d.session = c.session := fun d hd => by rw [List.mem_singleton.1 hd]
  have hsub : [c] ⊆ hs := List.cons_subset.2 ⟨hc, List.nil_subset hs⟩
  obtain ⟨h, ha⟩ := hreach.arrived hfresh (crossWith_initialized hkind)
  obtain ⟨_, h₀, -, -, ha₀⟩ := ha.crossed hkind rfl hcells hsub
  obtain ⟨_, h₁, hanswer, rfl, ha₁⟩ := ha₀.crossed hclass rfl hcells hsub
  obtain ⟨hclassName, rfl⟩ := Prod.mk.inj hanswer
  obtain ⟨t, h₂, hanswer, rfl, ha₂⟩ := ha₁.crossed hderef rfl hcells hsub
  obtain ⟨ht, hg⟩ := deref_eq_ok hanswer
  obtain ⟨r, h₃, hanswer, hreference, ha₃⟩ := ha₂.crossed hnew rfl
    (fun d hd => by rw [List.mem_singleton.1 hd]; rfl)
    (List.cons_subset.2 ⟨List.mem_cons_self .., List.nil_subset _⟩)
  obtain ⟨g, hg', halloc⟩ := newRef_eq_ok hanswer
  have halloc : g.allocate (.scalar (.ofRef t)) = (r, h₃) := halloc
  obtain ⟨x, hx, hpackage⟩ := className_eq_some hclassName ht
  obtain ⟨n, hx₂⟩ := hg.cells t x hx
  obtain ⟨lost, hs⟩ := ha₂.leaky hfresh
  refine ⟨t, w₃, h₃, ha₃, by rw [hreference]; rfl, rfl, fun packages hin => ?_⟩
  have hmade : Bound (g.allocate (.scalar (.ofRef t))).1 (.ofRef t) packages
      (g.allocate (.scalar (.ofRef t))).2 := Bound.made hs hg' fun _ ht => by
    cases ht
    exact ⟨_, o.className, hx₂, hpackage, hin⟩
  rw [halloc] at hmade
  rw [hreference]
  exact hmade

/-- What a host receives is bound to its target, or to the class that it names. -/
theorem World.Receives.bound {c : Handle} {className : String} (hfresh : origin.Fresh)
    (hreach : Reached origin w hs) (hreceives : w.Receives hs c className w') :
    Reached origin w' (c :: hs) ∧ ∃ value : Scalar, value.Receives className ∧ ∀ packages, packages className →
      w'.Bears c.session (origin.session c.session).engine.interpreter.setup
        (Bound c.cell value packages) := by
  cases hreceives with
  | @package p name c w' hrun =>
    obtain ⟨receiver, w₁, hcross, hend⟩ := run_bind_eq_ok hrun
    cases hend
    obtain ⟨h, ha⟩ := hreach.arrived hfresh (crossWith_initialized hcross)
    obtain ⟨a, h', hnew, rfl, ha'⟩ := ha.crossed hcross rfl nofun nofun
    obtain ⟨lost, hs⟩ := ha.leaky hfresh
    refine ⟨ha'.reach, .ofText p.name, .inr rfl, fun packages _ => ⟨h', ha'.runs, ?_⟩⟩
    cases hnew
    exact Bound.made hs (.refl h) nofun
  | @object c o depth w' hc hrun =>
    obtain ⟨t, w₁, h, ha, hsession, rfl, hbound⟩ := hreach.objectView hfresh hc hrun
    have hreach₁ : Reached origin w₁ (⟨c.session, t⟩ :: o.reference :: hs) := ha.reach.perm (.swap ..)
    have hstage := hreach₁.stage_release hfresh (List.mem_cons_self ..) (hsession ▸ ha.runs.stage)
    refine ⟨hreach₁.release, .ofRef t, .inl ⟨t, rfl⟩, fun packages hin => ?_⟩
    rw [hsession] at hstage ⊢
    have hstable := stable_bound o.reference.cell (.ofRef t) packages
    have hrelease : Step c.session (.binding o.reference.cell (some t) packages) w₁
      (⟨c.session, t⟩ :: o.reference :: hs) (w₁.release ⟨c.session, t⟩) (o.reference :: hs) := .release
    exact hstable.step (allBodies_true _) ⟨h, ha.runs, hbound packages hin⟩ hrelease hstage

/-! ## Receivers keep their meaning -/

/-- The main statement: a receiver has one identity as long as it is held and its session runs, whatever
the host and the subs that it calls do, but for assignments to the cell itself. Its class becomes another
one only when its target is blessed into that. -/
theorem receiver_keeps (hfresh : origin.Fresh) (hreach : Reached origin w hs) {c : Handle}
    {className : String} (hreceives : w.Receives hs c className w') :
    ∃ target : Option CellId, (c.identity.run w').1 = .ok (target.getD c.cell) ∧
      ∀ (packages : String → Prop) {w'' hs'}, packages className →
        Onward c.session (.binding c.cell target packages) w' (c :: hs) w'' hs' → c ∈ hs' →
        (c.identity.run w'').1 = .ok (target.getD c.cell) ∧
          ∃ package, w''.receiverClass? c = some package ∧ packages package := by
  obtain ⟨hreach', value, hvalue, hbound⟩ := hreceives.bound hfresh hreach
  have hkeeps (packages : String → Prop) {w'' hs'} (hin : packages className)
      (honward : Onward c.session (.binding c.cell value.ref packages) w' (c :: hs) w'' hs')
      (hc : c ∈ hs') : (c.identity.run w'').1 = .ok (value.ref.getD c.cell) ∧
        ∃ package, w''.receiverClass? c = some package ∧ packages package := by
    have hstable := stable_bound c.cell value packages
    obtain ⟨h, hr, hb⟩ := hstable.onward (allBodies_true _) (hbound packages hin) honward
    have ha : Arrived origin c.session w'' hs' h := ⟨hreach'.onward honward, hr⟩
    obtain ⟨⟨lost, hs⟩, hq, -⟩ := ha.good hfresh hc rfl
    obtain ⟨hidentity, package, hclass, hin⟩ :=
      hb.receiver hs (List.mem_append_right lost (mem_cellsOf hc)) hvalue hin
    refine ⟨?_, package, ?_, hin⟩
    · have hanswer : (Heap.answer (origin.session c.session).engine.interpreter.setup
          ((Request.identity c).map Handle.cell)).run h = (.ok (value.ref.getD c.cell), h) :=
        Prod.ext hidentity rfl
      have hcells : ∀ d ∈ (Request.identity c).cells, d.session = c.session := fun d hd => by
        rw [List.mem_singleton.1 hd]
      have hcross := (ha.cross "identity" (.identity c) rfl hcells
        (List.cons_subset.2 ⟨hc, List.nil_subset _⟩) hanswer hq).1
      exact congrArg Prod.fst hcross
    · rw [World.receiverClass?, hr.engine]
      simp [hclass, Except.toOption]
  refine ⟨value.ref, ?_, hkeeps⟩
  exact (hkeeps (fun _ => True) trivial .refl (List.mem_cons_self ..)).1

/-! ## Methods that assign -/

/-- Assigns a number to the first cell. -/
def assignNumber : List CellId → Proc (List CellId)
  | c :: _ => do
    let number ← Proc.perform (.newInt 5)
    Proc.perform (.assign c number)
    return []
  | [] => return []

/-- One method assigns to its argument, and one to the receiver. -/
def setters : Package where
  name := "P"
  subs := [
    ("new", fun _ => do
      let hash ← Proc.perform (.newHash [])
      return [← Proc.perform (.bless hash "P")]),
    ("set", fun call => assignNumber (call.args.drop 1)),
    ("rebind", fun call => assignNumber call.args)]

open Console

def built : List Line := [
  { command := .session ⟨0⟩ (.load "P"), into := some "p" },
  { command := .package "p" (.construct []), into := some "o" },
  { command := .handleOf "o", into := some "h" },
  { command := .session ⟨0⟩ (.toForeign (.int 1)), into := some "x" }]

def builtConsole : Console := (run built (.single (Setup.preload {} setters))).2

theorem reached_built : Reached (Console.single (Setup.preload {} setters)).world builtConsole.world
    builtConsole.handles := by
  rw [builtConsole]
  exact reached_run (fresh_single _) built

def viewedWorld : World := ((valueWithin 1 ⟨⟨0⟩, ⟨13⟩⟩).run builtConsole.world).2

def Value.object? : Value → Option ObjectView
  | .object o => some o
  | _ => none

theorem receives_built : builtConsole.world.Receives builtConsole.handles ⟨⟨0⟩, ⟨15⟩⟩ "P" viewedWorld := by
  have hview : ((valueWithin 1 ⟨⟨0⟩, ⟨13⟩⟩).run builtConsole.world).1.toOption.bind Value.object? =
      some ⟨⟨⟨0⟩, ⟨15⟩⟩, "P"⟩ := by decide +kernel
  rw [viewedWorld]
  obtain ⟨v, hv, hobject⟩ := Option.bind_eq_some_iff.1 hview
  cases v with
  | object o =>
    obtain rfl : o = ⟨⟨⟨0⟩, ⟨15⟩⟩, "P"⟩ := Option.some.inj hobject
    exact World.receives_value (by decide +kernel) (eq_ok_of_toOption hv)
  | _ => cases hobject

def settingCall : Request Handle .cells := .call (.method ⟨⟨0⟩, ⟨15⟩⟩ "set") [⟨⟨0⟩, ⟨14⟩⟩] .list

def setWorld : World := ((exchange ⟨0⟩ settingCall).run viewedWorld).2

theorem onward_set : ∃ hs', ⟨⟨0⟩, ⟨15⟩⟩ ∈ hs' ∧ Onward ⟨0⟩ (.binding ⟨15⟩ (some ⟨10⟩) (· = "P")) viewedWorld
    (⟨⟨0⟩, ⟨15⟩⟩ :: builtConsole.handles) setWorld hs' := by
  have hpermitted : (viewedWorld.session ⟨0⟩).engine.interpreter.heap.all fun h =>
      decide (CallPermitted (.binding ⟨15⟩ (some ⟨10⟩) (· = "P")) maxDepth (.method ⟨15⟩ "set") [⟨14⟩]
        .list h) := by decide +kernel
  obtain ⟨⟨outcome, pending⟩, w', hrun⟩ := exchange_ends ⟨0⟩ settingCall viewedWorld
  have hw' : setWorld = w' := by rw [setWorld, hrun]
  have hstep : Step ⟨0⟩ (.binding ⟨15⟩ (some ⟨10⟩) (· = "P")) viewedWorld
      (⟨⟨0⟩, ⟨15⟩⟩ :: builtConsole.handles) setWorld
      (exchanged ⟨0⟩ outcome pending ++ ⟨⟨0⟩, ⟨15⟩⟩ :: builtConsole.handles) := by
    refine .exchange settingCall (by decide +kernel) rfl (by decide +kernel) (by decide +kernel) ?_ (hw' ▸ hrun)
    intro _ setup h hr
    rw [hr.engine, Option.all_some, decide_eq_true_eq] at hpermitted
    exact hpermitted
  exact ⟨_, List.mem_append_right _ (List.mem_cons_self ..), .step .refl hstep (by decide +kernel)⟩

theorem receiver_keeps_set : ((⟨⟨0⟩, ⟨15⟩⟩ : Handle).identity.run setWorld).1 = .ok ⟨10⟩ ∧
    setWorld.receiverClass? ⟨⟨0⟩, ⟨15⟩⟩ = some "P" := by
  obtain ⟨target, hidentity, hkeeps⟩ := receiver_keeps (fresh_single _).world reached_built receives_built
  have hten : ((⟨⟨0⟩, ⟨15⟩⟩ : Handle).identity.run viewedWorld).1.toOption = some ⟨10⟩ := by decide +kernel
  rw [hidentity] at hten
  obtain rfl : target = some ⟨10⟩ := by
    cases target with
    | none => cases hten
    | some t => exact hten
  obtain ⟨hs', hc, honward⟩ := onward_set
  obtain ⟨hidentity, package, hclass, rfl⟩ := hkeeps (· = "P") rfl honward hc
  exact ⟨hidentity, hclass⟩

def viewed : ObjectView := ⟨⟨⟨0⟩, ⟨15⟩⟩, "P"⟩

def reboundWorld : World := ((viewed.callMethod "rebind" []).run viewedWorld).2

/-- A method that assigns to its receiver makes the view one of something else. -/
theorem rebound_by_method : ∃ (w w' w'' : World) (hs : List Handle) (o : ObjectView) (results : List Value),
    Reached (Console.single (Setup.preload {} setters)).world w hs ∧
      w.Receives hs o.reference o.className w' ∧ (o.callMethod "rebind" []).run w' = (.ok results, w'') ∧
      (w''.session o.reference.session).stage = .initialized ∧
      (o.identity.run w').1.toOption = some ⟨10⟩ ∧ (o.identity.run w'').1.toOption = some ⟨15⟩ := by
  have hcall : ((viewed.callMethod "rebind" []).run viewedWorld).1.toOption.isSome = true := by
    decide +kernel
  have hstage : (reboundWorld.session ⟨0⟩).stage = .initialized := by decide +kernel
  have hbefore : (viewed.identity.run viewedWorld).1.toOption = some ⟨10⟩ := by decide +kernel
  have hafter : (viewed.identity.run reboundWorld).1.toOption = some ⟨15⟩ := by decide +kernel
  obtain ⟨results, hresults⟩ := Option.isSome_iff_exists.1 hcall
  have hrun : (viewed.callMethod "rebind" []).run viewedWorld = (.ok results, reboundWorld) := by
    rw [reboundWorld, ← eq_ok_of_toOption hresults]
    exact (Prod.eta _).symm
  exact ⟨_, viewedWorld, reboundWorld, _, viewed, results, reached_built, receives_built, hrun, hstage,
    hbefore, hafter⟩

end Embedding

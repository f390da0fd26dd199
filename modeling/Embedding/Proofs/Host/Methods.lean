import Embedding.Host.Call
import Embedding.Proofs.Heap.Can
import Embedding.Proofs.Host.Arrivals
import Embedding.Proofs.Host.Calls
import Embedding.Proofs.Host.Seeing

/-!
# The host asks for methods

How the answer of `can` reaches the host, and how a call that finds no sub is reported.
-/

namespace Embedding

open Heap
open HostM (holding)

variable {origin w w' w₁ : World} {s : SessionId} {setup : Setup} {g h h' : Heap} {a c d v e : CellId}
  {σ τ : List CellId} {n : Nat} {x : Cell} {u : Value} {className method : String} {hs : List Handle}
  {found : Option CellId}

/-! ## Invariants of worlds that are reached -/

theorem Reached.invariant {l : Latitude} {K : Heap → Prop} (hreach : Reached origin w hs)
    (hfresh : origin.Fresh) (hK : Stable l K) (hfree : l.Free)
    (hall : ∀ s, (origin.session s).engine.interpreter.setup.AllBodies l.body) (hinitial : K .initial) :
    Balanced origin (fun _ h σ => h.Leaky σ ∧ K h) w hs := by
  refine hreach.holds (primitives_balanced (fun s => ?_) ?_) hfresh.balanced
  · refine (discipline_leaky _).and_preserved (fun request h hh => ?_) (hK.boot (hall s) _) hinitial
    exact hK.answer (hall s) request hh (hfree.request _ request h)
  · exact fun _ _ _ _ hgood => ⟨hgood.1.lose, hgood.2⟩

theorem Arrived.invariant {l : Latitude} {K : Heap → Prop} (ha : Arrived origin s w hs h)
    (hfresh : origin.Fresh) (hK : Stable l K) (hfree : l.Free)
    (hall : ∀ s, (origin.session s).engine.interpreter.setup.AllBodies l.body) (hinitial : K .initial) :
    K h := by
  obtain ⟨h', hr, -, hh⟩ := (ha.reach.invariant hfresh hK hfree hall hinitial).runsOn ha.runs.stage
  exact ha.unique hr ▸ hh

theorem Arrived.unlisted (ha : Arrived origin s w hs h) (hfresh : origin.Fresh) : Unlisted ⟨1⟩ h :=
  ha.invariant hfresh (stable_unlisted ⟨1⟩) Latitude.free_all (fun _ => allBodies_true _) unlisted_initial

/-! ## The answer of `can` -/

/-- What the host is told of what is found. A sub that is blessed is an object to the host. -/
def Heap.canAnswer (h : Heap) (s : SessionId) : Option CellId → Except HostError (Option Callable)
  | none => .ok none
  | some d =>
    match (h.cell? d).bind Cell.package with
    | none => .ok (some (.code ⟨s, d⟩))
    | some _ => .error (.mismatch "callable" "object")

def Heap.FindsSub (h : Heap) (found : Option CellId) : Prop :=
  ∀ d ∈ found, ∃ x name body, h.cell? d = some x ∧ x.content = .code name body

theorem Heap.Sound.findsSub (hs : h.Sound σ) (className method : String) :
    h.FindsSub (h.resolveMethod className method) := by
  intro d hd
  obtain ⟨_, hname⟩ := symbol?_of_resolveMethod hd
  exact hs.code_of_symbol? hname

theorem Heap.Rewritten.canAnswer (hw : Rewritten e h h') (hfound : h.FindsSub found)
    (hfound' : h'.FindsSub found) : h'.canAnswer s found = h.canAnswer s found := by
  cases found with
  | none => rfl
  | some d =>
    obtain ⟨x, _, _, hx, -⟩ := hfound d rfl
    obtain ⟨x', _, _, hx', -⟩ := hfound' d rfl
    have hpackage := (hw.cells hx hx').2.1
    simp only [Heap.canAnswer, hx, hx', Option.bind_some, hpackage]

theorem toText_allocate (h : Heap) (text : String) :
    (h.allocate (.scalar (.ofText text))).2.toText (h.allocate (.scalar (.ofText text))).1 = .ok text := by
  have hbytes := toBytes_text (scalar_allocate h (.ofText text)) rfl
  rw [Heap.toText, hbytes]
  exact congrArg Except.ok (Utf8.decodeLossy_encode text)

section
variable (hk : w.KeptOn s setup g)
include hk

theorem run_value_can (hq : h.Quiet) (hs : h.Sound σ) (hv : h.scalar v = .ok (canScalar found))
    (hfound : h.FindsSub found) :
    ∃ u w', (Handle.value ⟨s, v⟩).run (w.put s h n) = (.ok u, w') ∧
      ∀ w, ((u.extract (.option .callable)).run w).1 = h.canAnswer s found := by
  cases found with
  | none => exact ⟨.nothing, _, run_value_plain hk hq (reads?_of_scalar hv), fun _ => rfl⟩
  | some d =>
    obtain ⟨x, name, body, hx, hcode⟩ := hfound d rfl
    cases hpackage : x.package with
    | none =>
      have hview : viewOf ⟨s, d⟩ x.content.kind = some (.callable (.code ⟨s, d⟩)) := by rw [hcode]; rfl
      refine ⟨_, _, run_value_target hk hq hv hx hpackage (run_retain hx) hview, fun _ => ?_⟩
      rw [Heap.canAnswer, hx, Option.bind_some, hpackage]
      rfl
    | some package =>
      obtain ⟨_, _, hvalue, -⟩ := run_value_object hk (n := n) hq hs hv rfl hx hpackage
      refine ⟨_, _, hvalue, fun _ => ?_⟩
      rw [Heap.canAnswer, hx, Option.bind_some, hpackage]
      rfl

theorem run_textArgument (hq : h.Quiet) (text : String) :
    (newCells s [.text text]).run (w.put s h n) =
      (.ok [⟨s, (h.allocate (.scalar (.ofText text))).1⟩],
        w.put s (h.allocate (.scalar (.ofText text))).2 (n + 1)) := by
  have hquiet : (h.allocate (.scalar (.ofText text))).2.Quiet := hq.grows (grows_allocate h _)
  have hcell := hk.run_cross (n := n) crossing (.newBytes (Utf8.encode text) true) rfl hquiet
  rw [newCells]
  exact (run_bind_ok hcell).trans rfl

end

theorem Heap.HasCan.rewritten (hcan : h.HasCan className) (hw : Rewritten e h h') (hs : h.Sound σ)
    (hs' : h'.Sound τ) (hu : Unlisted e h) : h'.HasCan className := by
  obtain ⟨u, x, name, hresolve, hx, hcode⟩ := hcan
  have hresolve' : h'.resolveMethod className "can" = some u :=
    (hw.resolveMethod hs hs' hu className "can").trans hresolve
  obtain ⟨x', _, _, hx', -⟩ := hs'.findsSub className "can" u hresolve'
  have hne := hw.ne_of_content hx fun s => by rw [hcode]; nofun
  exact ⟨u, x', name, hresolve', hx', ((hw.cells hx hx').1 hne).trans hcode⟩

/-! ## Calls, step by step -/

theorem run_call {k : Callable} {args : List Value} {cells : List Handle}
    {r : Except HostError (List Value)} (hargs : (newCells k.anchor.session args).run w = (.ok cells, w₁))
    (hinvoke : (k.invoke cells).run w₁ = (r, w')) : (k.call args).run w = (r, w'.releaseAll cells) := by
  rw [Callable.call, run_bind_ok hargs, HostM.run_holding, hinvoke]

theorem run_callOne {k : Callable} {args : List Value} (hcall : (k.call args).run w = (.ok [u], w')) :
    (k.callOne args).run w = (.ok u, w') := by
  rw [Callable.callOne, run_bind_ok hcall]
  rfl

theorem World.KeptOn.run_askMethod {o : ObjectView} {name text : String} (hk : w.KeptOn s setup h)
    (ho : o.reference = ⟨s, c⟩) (hretain : (Heap.retain c).run h = (.ok (), g)) (hq : g.Quiet)
    (hcall : (Heap.call (.method c name) [(g.allocate (.scalar (.ofText text))).1] .list).run
      (g.allocate (.scalar (.ofText text))).2 = (.ok [v], h'))
    (hq' : h'.Quiet) (hvalue : (Handle.value ⟨s, v⟩).run (w.put s h' 3) = (.ok u, w')) :
    ∃ w₁, (o.askMethod name text).run w = (.ok u, w₁) := by
  have hbound : (o.method name).run w = (.ok (.method ⟨s, c⟩ name), w.put s g 1) := by
    have hclone := hk.clone (n := 0) hretain
    rw [hk.put_self, ← ho] at hclone
    rw [← hclone, ← ho]
    rfl
  have hargs := run_textArgument hk (n := 1) hq text
  have hcross := hk.run_cross (n := 2) "method call"
    (.call (.method ⟨s, c⟩ name) [⟨s, (g.allocate (.scalar (.ofText text))).1⟩] .list) hcall hq'
  have hvalues : (valuesOf [⟨s, v⟩]).run (w.put s h' 3) = (.ok [u], w') := by
    rw [valuesOf, run_bind_ok hvalue]
    rfl
  have hinvoke : ((Callable.method ⟨s, c⟩ name).invoke [⟨s, (g.allocate (.scalar (.ofText text))).1⟩]).run
      (w.put s (g.allocate (.scalar (.ofText text))).2 2) = (.ok [u], w'.releaseAll [⟨s, v⟩]) := by
    rw [Callable.invoke, run_bind_ok hcross]
    exact run_holding_ok hvalues
  have hcalled : ((Callable.method ⟨s, c⟩ name).callOne [.text text]).run (w.put s g 1) = (.ok u, _) :=
    run_callOne (run_call hargs hinvoke)
  rw [ObjectView.askMethod, run_bind_ok hbound]
  exact ⟨_, run_holding_ok hcalled⟩

/-- The method that an object is asked with has a count of its own on the object, and the name of the
method that it is asked for is a new cell. -/
theorem Heap.Sound.run_askCan (hs : h.Sound σ) (hu : Unlisted e h) (hq : h.Quiet) (hc : c ∈ σ)
    (hclass : h.className c = .ok (some className)) (hcan : h.HasCan className) (method : String) :
    ∃ g v h', (Heap.retain c).run h = (.ok (), g) ∧ g.Quiet ∧
      (Heap.call (.method c "can") [(g.allocate (.scalar (.ofText method))).1] .list).run
        (g.allocate (.scalar (.ofText method))).2 = (.ok [v], h') ∧
      h'.Quiet ∧ (∃ τ, h'.Sound τ) ∧ h'.scalar v = .ok (canScalar (h.resolveMethod className method)) ∧
      h'.FindsSub (h.resolveMethod className method) ∧
      ∀ s, h'.canAnswer s (h.resolveMethod className method) =
        h.canAnswer s (h.resolveMethod className method) := by
  obtain ⟨_, g, hretain, -, hs₁⟩ := gives_retain (hs.isLive hc) _ hs
  have hg₁ := retain_grows h c
  have hu₁ := (stable_unlisted e).retain c h hu
  rw [hretain] at hg₁ hu₁
  let a := (g.allocate (.scalar (.ofText method))).1
  let h₂ := (g.allocate (.scalar (.ofText method))).2
  have hs₂ : h₂.Sound (a :: c :: σ) := Sound.allocate hs₁
  have hg : h.Grows h₂ := hg₁.trans (grows_allocate g _)
  have hu₂ : Unlisted e h₂ := (stable_unlisted e).newScalar trivial g hu₁
  have hae : a ≠ e := by
    rintro rfl
    exact Nat.lt_irrefl g.cells.size hu₁.old
  have hw : Rewritten e h h₂ := hu.rewritten hq hs₂ hg.firm
  have hc₂ : h₂.className c = .ok (some className) :=
    hw.className_ok hq hu hs hs₂ hc (.tail _ (.head _)) hclass
  obtain ⟨v, h₃, hcall, hs₃, hw₃, hq₃, hv⟩ := hs₂.run_callCan 99999 hu₂ (hq.grows hg)
    (.tail _ (.head _)) (.head _) hae hc₂ (toText_allocate g method) (hcan.rewritten hw hs hs₂ hu)
  -- what is found is the same before the call, when it starts, and when it has returned
  have hsame := hw.resolveMethod hs hs₂ hu className method
  have hsame₃ := (hw₃.resolveMethod hs₂ hs₃ hu₂ className method).trans hsame
  have hfound := hs.findsSub className method
  have hfound₂ := hsame ▸ hs₂.findsSub className method
  have hfound₃ := hsame₃ ▸ hs₃.findsSub className method
  rw [hsame] at hv
  refine ⟨g, v, h₃, hretain, hq.grows hg₁, hcall, hq₃, ⟨_, hs₃⟩, hv, hfound₃, fun s => ?_⟩
  rw [hw₃.canAnswer hfound₂ hfound₃, hw.canAnswer hfound hfound₂]

/-- What a host is told that asks an object whether it has a method: what the method is resolved to. -/
theorem Arrived.run_can {o : ObjectView} (hfresh : origin.Fresh)
    (ha : Arrived origin o.reference.session w hs h) (ho : o.reference ∈ hs)
    (hclass : h.className o.reference.cell = .ok (some className)) (hcan : h.HasCan className)
    (method : String) :
    ((o.can method).run w).1 = h.canAnswer o.reference.session (h.resolveMethod className method) := by
  have hk := ha.keptOn hfresh ho rfl
  obtain ⟨⟨lost, hs₀⟩, hq, -⟩ := ha.good hfresh ho rfl
  have hc : o.reference.cell ∈ lost ++ cellsOf o.reference.session hs :=
    List.mem_append_right lost (mem_cellsOf ho)
  obtain ⟨g, v, h', hretain, hq₁, hcall, hq', ⟨τ, hs'⟩, hv, hfound, hsame⟩ :=
    hs₀.run_askCan (ha.unlisted hfresh) hq hc hclass hcan method
  obtain ⟨u, w', hvalue, hextract⟩ := run_value_can hk (n := 3) hq' hs' hv hfound
  obtain ⟨w₁, hask⟩ := hk.run_askMethod rfl hretain hq₁ hcall hq' hvalue
  rw [ObjectView.can, run_bind_ok hask, HostM.run_holding, ← hsame]
  exact hextract _

/-! ## Calls that find nothing -/

theorem trimNewlines_quoted (text : String) : Blank.trimNewlines (text ++ "\"") = text ++ "\"" := by
  simp [Blank.trimNewlines, Blank.dropEndWhile, String.toList_append]

theorem trimNewlines_unlocated (method className : String) :
    Blank.trimNewlines (unlocated method className) = unlocated method className :=
  trimNewlines_quoted _

/-- The error of foreign code that died with a message is what the crossing is answered with. -/
theorem World.KeptOn.run_cross_died {shape : Shape} {message : String} (hk : w.KeptOn s setup h)
    (hs : h.Sound σ) (operation : String) (request : Request Handle shape) (hplain : request.isPlain = true)
    (hanswer : (Heap.answer setup (request.map Handle.cell)).run h = (.error (.died a), h'))
    (he : h'.errorCell = .ok e) (hne : a ≠ e) (ha : h'.scalar a = .ok (.ofText message)) :
    ((cross s operation request).run w).1 =
      .error (.runtime (Blank.trimNewlines message) (some (.text message))) := by
  obtain ⟨r, h₁, pending, h₂, w₂, hanswer', htake, hexchange, hreports⟩ :=
    run_cross_reports hk.toRunsOn ⟨[], hs⟩ hplain operation
  obtain ⟨rfl, rfl⟩ := Prod.mk.inj (hanswer.symm.trans hanswer')
  have hplain' := (isPlain_map Handle.cell request).trans hplain
  obtain ⟨-, leak, hs₁, -⟩ :=
    (tracks_answer setup _ (released?_of_isPlain hplain') h σ hs).of_run hanswer
  rw [due_of_isPlain hplain'] at hs₁
  obtain ⟨o, h₂', htake', hs₂, hq₂, -⟩ := quiet_takeError hs₁
  obtain ⟨ho, rfl⟩ := Prod.mk.inj (htake.symm.trans htake')
  -- the look at the pending error spares the cell that the caller received
  have hfirm := hs₁.firm_takeError he
  rw [htake] at hfirm
  have ha₂ : h₂.scalar a = .ok (.ofText message) :=
    hfirm.scalar_ok ha (fun _ hsame => hsame hne) (hs₂.isLive (List.mem_append_right _ (.head _)))
  obtain ⟨n, rfl⟩ : ∃ n, w₂ = w.put s h₂ n := by
    have := hexchange.symm.trans (hk.run_exchange hanswer htake)
    exact ⟨_, (Prod.mk.inj this).2⟩
  obtain ⟨bytes, hbytes, hresult⟩ := hreports.dies a rfl
  have hread : h₂.reads? a = some (.text message) := (reads?_of_scalar ha₂).trans (Value.plain?_scalar rfl)
  rw [hresult, run_value_plain hk hq₂ hread]
  rw [toBytes_text ha₂ rfl] at hbytes
  obtain rfl := Except.ok.inj hbytes
  exact congrArg (fun text => Except.error (HostError.runtime (Blank.trimNewlines text)
    (some (Value.text message)))) (Utf8.decodeLossy_encode message)

theorem World.RunsOn.run_cross_congr {shape : Shape} (hr : w.RunsOn s setup h) (operation : String)
    (request request' : Request Handle shape)
    (heq : (Heap.answer setup (request.map Handle.cell)).run h =
      (Heap.answer setup (request'.map Handle.cell)).run h) :
    (cross s operation request).run w = (cross s operation request').run w := by
  rw [cross, cross, hr.run_crossWith _ operation rfl rfl, hr.run_crossWith _ operation heq.symm rfl]

/-- A call of the sub in the cell, in place of a method of the object. -/
def ObjectView.enter (o : ObjectView) (sub : CellId) (cells : List Handle) : HostM (List Value) := do
  let results ← cross o.reference.session "method call"
    (.call (.code ⟨o.reference.session, sub⟩) (o.reference :: cells) .list)
  holding results do valuesOf results

def unfound (method className : String) : HostError :=
  .runtime (unlocated method className) (some (.text (unlocated method className)))

/-- A call of a method for which that sub is found, if any. -/
def ObjectView.dispatch (o : ObjectView) (className method : String) (args : List Value) (w : World)
    (found : Option CellId) : Except HostError (List Value) :=
  match (newCells o.reference.session args).run (w.clone o.reference) with
  | (.ok cells, w₁) =>
    match found with
    | some d => ((o.enter d cells).run w₁).1
    | none => .error (unfound method className)
  | (.error e, _) => .error e

theorem run_callMethod_invoke (o : ObjectView) (method : String) (args : List Value) (w : World) :
    ((o.callMethod method args).run w).1 =
      match (newCells o.reference.session args).run (w.clone o.reference) with
      | (.ok cells, w₁) => (((Callable.method o.reference method).invoke cells).run w₁).1
      | (.error e, _) => .error e := by
  have hmethod : (o.method method).run w = (.ok (.method o.reference method), w.clone o.reference) := rfl
  rw [ObjectView.callMethod, run_bind_ok hmethod, HostM.run_holding, Callable.call]
  change (((newCells o.reference.session args >>= fun cells =>
    holding cells ((Callable.method o.reference method).invoke cells)).run (w.clone o.reference)).1) = _
  cases hargs : (newCells o.reference.session args).run (w.clone o.reference) with
  | mk r w₁ =>
    cases r with
    | error e => rw [run_bind_error hargs]
    | ok cells => rw [run_bind_ok hargs, HostM.run_holding]

theorem Arrived.arguments {r : Handle} {args : List Value} (ha : Arrived origin s w hs h)
    (hfresh : origin.Fresh) (hr : r ∈ hs) (hsession : r.session = s)
    (hargs : Value.handlesOfItems args ⊆ hs) :
    Ends (newCells s args) (w.clone r) fun q w₁ => ∃ h₁,
      Arrived origin s w₁ (hostStakes id q ++ r :: hs) h₁ ∧ h.Firm Unchanged h₁ := by
  have hclone : Ends (HostM.clone [r]) w _ := (show Arrived origin s w ([] ++ hs) h from ha).copying hfresh
    hr hsession (List.cons_subset.2 ⟨hr, List.nil_subset _⟩) fun hdealing =>
      hdealing.accounts_clone (List.Subset.refl _)
  obtain ⟨h₁, ha₁, hfirm₁, -⟩ := hclone
  have hcells : Ends (newCells s args) (w.clone r) _ :=
    (show Arrived origin s (w.clone r) ([] ++ r :: hs) h₁ from ha₁).copying hfresh (.head _) hsession
      (List.subset_cons_of_subset r hargs) fun hdealing => hdealing.accounts_newCells args
  obtain ⟨h₂, ha₂, hfirm₂, -⟩ := hcells
  exact ⟨h₂, ha₂, hfirm₁.unchanged hfirm₂⟩

theorem Arrived.run_callMethod {o : ObjectView} (hfresh : origin.Fresh)
    (ha : Arrived origin o.reference.session w hs h) (ho : o.reference ∈ hs)
    (hclass : h.className o.reference.cell = .ok (some className)) (method : String) {args : List Value}
    (hargs : Value.handlesOfItems args ⊆ hs) :
    ((o.callMethod method args).run w).1 =
      o.dispatch className method args w (h.methodOf className method) := by
  obtain ⟨⟨lost, hs₀⟩, hq, -⟩ := ha.good hfresh ho rfl
  have hu := ha.unlisted hfresh
  have hc : o.reference.cell ∈ lost ++ cellsOf o.reference.session hs :=
    List.mem_append_right lost (mem_cellsOf ho)
  have hends := ha.arguments hfresh ho rfl hargs
  rw [run_callMethod_invoke, ObjectView.dispatch]
  cases hcells : (newCells o.reference.session args).run (w.clone o.reference) with
  | mk q w₁ =>
    obtain ⟨h₁, ha₁, hfirm⟩ := hends.of_run hcells
    cases q with
    | error e => rfl
    | ok cells =>
      have ho₁ : o.reference ∈ cells ++ o.reference :: hs := by simp
      obtain ⟨⟨lost₁, hs₁⟩, -, -⟩ := ha₁.good hfresh ho₁ rfl
      have hw : Rewritten ⟨1⟩ h h₁ := hu.rewritten hq hs₁ hfirm
      have hc₁ : o.reference.cell ∈ lost₁ ++ cellsOf o.reference.session (cells ++ o.reference :: hs) :=
        List.mem_append_right lost₁ (mem_cellsOf ho₁)
      have hclass₁ := hw.className_ok hq hu hs₀ hs₁ hc hc₁ hclass
      -- the arguments change nothing that the look for the method depends on
      have hmethod := hw.methodOf hs₀ hs₁ hu className method
      have hu₁ : h₁.errorCell = .ok ⟨1⟩ := (errorCell_congr hfirm.symbols).trans hu.errorCell
      cases hm : h.methodOf className method with
      | none =>
        obtain ⟨x, h₂, hdie, he, hne, hx⟩ := hs₁.run_callWithin_missing hu₁ hclass₁ (hmethod.trans hm) 99999
          (cells.map Handle.cell) .list
        have hdied := (ha₁.keptOn hfresh ho₁ rfl).run_cross_died hs₁ "method call"
          (.call (.method o.reference method) cells .list) rfl hdie he hne hx
        rw [trimNewlines_unlocated] at hdied
        dsimp only
        rw [Callable.invoke, run_bind_error (Prod.ext hdied rfl)]
        rfl
      | some d =>
        have hsame := hs₁.run_callWithin_method hclass₁ (hmethod.trans hm) maxDepth
          (cells.map Handle.cell) .list
        have hcross := ha₁.runs.run_cross_congr "method call"
          (.call (.method o.reference method) cells .list)
          (.call (.code ⟨o.reference.session, d⟩) (o.reference :: cells) .list) hsame
        dsimp only
        rw [Callable.invoke, ObjectView.enter, run_bind, run_bind, hcross]

end Embedding

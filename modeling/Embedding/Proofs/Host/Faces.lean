import Embedding.Proofs.Host.References

/-!
# Faces of cells

Whenever a host reads a cell, the value is decided by the scalar that is in it and by the kind and the class
of what that refers to. The reading of an object differs from time to time in the reference alone that the
object gets of its own.
-/

namespace Embedding

open Heap
open HostM (holding)

/-- What decides the value that the host gets of a cell. -/
inductive Face
  | scalar (x : Scalar) (target : Option (Kind × Option String))
  | other (kind : Kind)

def Heap.face (h : Heap) : Content → Face
  | .scalar x => .scalar x (x.ref.bind h.appearance?)
  | content => .other content.kind

def Heap.face? (h : Heap) (c : CellId) : Option Face := (h.cell? c).map fun x => h.face x.content

def World.target? (w : World) (c : Handle) : Option CellId :=
  (w.session c.session).engine.interpreter.heap.bind fun h => (h.target c.cell).toOption

/-- The view of a cell, or why a reference to it does not cross. -/
def viewOrRefusal (cell : Handle) (kind : Kind) : Except HostError Value :=
  match viewOf cell kind with
  | some u => .ok u
  | none => .error (.conversion s!"{kind.refName} reference" "host value"
      "only array, hash, code and blessed references cross the bridge")

/-- How a reading of the cell may end. -/
def Face.Reads (c : Handle) (ending : Except HostError Value × World) : Face → Prop
  | .other kind => ending.1 = match viewOf c kind with
    | some u => .ok u
    | none => .error (.conversion "GLOB" "host value" "globs have no host representation")
  | .scalar x look =>
    match x.ref with
    | none => ending.1 = x.seen
    | some t =>
      match look with
      | some (_, some package) => ∃ a, ending.1 = .ok (.object ⟨⟨c.session, a⟩, package⟩) ∧
          ending.2.target? ⟨c.session, a⟩ = some t
      | some (kind, none) => ending.1 = viewOrRefusal ⟨c.session, t⟩ kind
      | none => False

/-- A value of one world is one of another, or they are references to one object. -/
def Value.Agrees (v : Value) (w : World) (u : Value) (w' : World) : Prop :=
  u = v ∨ ∃ a b package t, v = .object ⟨a, package⟩ ∧ u = .object ⟨b, package⟩ ∧ a.session = b.session ∧
    w.target? a = some t ∧ w'.target? b = some t

variable {w w' : World} {s : SessionId} {setup : Setup} {g h h' : Heap} {c d : CellId} {σ τ : List CellId}
  {n : Nat} {face : Face} {v : Value}

theorem Face.Reads.agrees {cell : Handle} {r r' : Except HostError Value} (hr : face.Reads cell (r, w))
    (hr' : face.Reads cell (r', w')) (hv : r = .ok v) : ∃ u, r' = .ok u ∧ v.Agrees w u w' := by
  have hsame (he : r' = r) : ∃ u, r' = .ok u ∧ v.Agrees w u w' := ⟨v, he.trans hv, .inl rfl⟩
  cases face with
  | other kind => exact hsame (hr'.trans hr.symm)
  | scalar x look =>
    unfold Face.Reads at hr hr'
    dsimp only at hr hr'
    cases href : x.ref with
    | none =>
      rw [href] at hr hr'
      exact hsame (hr'.trans hr.symm)
    | some t =>
      rw [href] at hr hr'
      rcases look with _ | ⟨kind, _ | package⟩
      · exact hr.elim
      · exact hsame (hr'.trans hr.symm)
      · obtain ⟨a, ha, hta⟩ := hr
        obtain ⟨b, hb, htb⟩ := hr'
        cases hv.symm.trans ha
        exact ⟨_, hb, .inr ⟨_, _, package, t, rfl, rfl, rfl, hta, htb⟩⟩

/-! ## Faces stay -/

theorem Heap.face?_eq_some_iff : h.face? c = some face ↔ ∃ x, h.cell? c = some x ∧ h.face x.content = face :=
  Option.map_eq_some_iff

theorem Heap.Turned.appearance? {S : List CellId} (ht : Turned S g h) (c : CellId) :
    h.appearance? c = g.appearance? c := by
  rcases ht.same c with he | ⟨n, p, e, i, j, hg, hh⟩
  · rw [Heap.appearance?, Heap.appearance?, he]
  · rw [Heap.appearance?, Heap.appearance?, hg, hh]
    rfl

theorem Heap.Turned.face? {S : List CellId} (ht : Turned S g h) (c : CellId) : h.face? c = g.face? c := by
  have hface (content : Content) : h.face content = g.face content := by
    cases content with
    | scalar x => simp only [Heap.face, funext ht.appearance?]
    | _ => rfl
  rcases ht.same c with he | ⟨n, p, e, i, j, hg, hh⟩
  · simp only [Heap.face?, he, hface]
  · rw [Heap.face?, Heap.face?, hg, hh]
    rfl

theorem Heap.Firm.appearance? (hf : h.Firm Turning h') (hlive : h.isLive c) (hlive' : h'.isLive c) :
    h'.appearance? c = h.appearance? c := by
  obtain ⟨x, hx⟩ := exists_cell hlive
  obtain ⟨x', hx'⟩ := exists_cell hlive'
  obtain ⟨y, hy, hturn, hpackage⟩ := hf.cells c x' (lt_of_cell? hx) hx'
  cases hx.symm.trans hy
  rw [Heap.appearance?, Heap.appearance?, hx, hx', Option.map_some, Option.map_some, hpackage,
    turning_kind hturn]

theorem Heap.Firm.face? (hf : h.Firm Turning h') (hs : h.Sound σ) (hs' : h'.Sound τ) (hlive : h.isLive c)
    (hlive' : h'.isLive c) : h'.face? c = h.face? c := by
  obtain ⟨x, hx⟩ := exists_cell hlive
  obtain ⟨x', hx'⟩ := exists_cell hlive'
  obtain ⟨y, hy, hturn, -⟩ := hf.cells c x' (lt_of_cell? hx) hx'
  cases hx.symm.trans hy
  rw [Heap.face?, Heap.face?, hx, hx', Option.map_some, Option.map_some]
  obtain hequal | ⟨entries, i, j, hhash, hhash'⟩ := hturn
  · rw [hequal]
    cases hcontent : x.content with
    | scalar z =>
      cases href : z.ref with
      | none => simp only [Heap.face, href, Option.bind_none]
      | some t =>
        have hchild : t ∈ x.content.children := by
          rw [hcontent]
          exact Option.mem_toList.2 href
        have ht := hf.appearance? (hs.isLive_child hx hchild) (hs'.isLive_child hx' (hequal ▸ hchild))
        simp only [Heap.face, href, Option.bind_some, ht]
    | _ => rfl
  · rw [hhash, hhash']
    rfl

/-! ## Readings -/

theorem presents_eq_viewOrRefusal (cell : Handle) (kind : Kind) :
    kind.presents = (viewOrRefusal cell kind).map fun _ => () := by
  cases kind <;> rfl

section
variable (hk : w.KeptOn s setup g)
include hk

theorem World.KeptOn.target? (h : Heap) (n : Nat) (c : CellId) :
    (w.put s h n).target? ⟨s, c⟩ = (h.target c).toOption := by
  rw [World.target?, (hk.put h n).engine]
  rfl

theorem run_held_face (hq : h.Quiet) (hs : h.Sound (d :: σ)) (hface : h.face? d = some face) :
    face.Reads ⟨s, d⟩ ((holding [⟨s, d⟩] (Handle.value ⟨s, d⟩)).run (w.put s h (n + 1))) := by
  obtain ⟨x, hx, rfl⟩ := face?_eq_some_iff.1 hface
  have hkind : h.kind d = .ok x.content.kind := by
    rw [Heap.kind, cell_ok hx]
    rfl
  have hasked := run_ask_cell hk (n := n + 1) hq "to_host" (.kind ⟨s, d⟩) rfl (congrArg (·, h) hkind)
  cases hcontent : x.content with
  | scalar y =>
    have hscalar : h.scalar d = .ok y := scalar_eq_ok_iff.2 ⟨x, hx, hcontent⟩
    unfold Heap.face Face.Reads
    dsimp only
    cases href : y.ref with
    | none =>
      dsimp only
      rw [HostM.run_holding, run_value_scalar hk hq hscalar href]
    | some t =>
      obtain ⟨r, h', hrun, hreads⟩ := run_held_reference hk (n := n) hq hs (target_ref hscalar href)
      obtain ⟨z, hz, hreturns⟩ := hreads.returns
      rw [hrun, Option.bind_some, Heap.appearance?, hz, Option.map_some]
      unfold Cell.Returns Cell.presentsTarget Cell.SeenAs at hreturns
      cases hpackage : z.package with
      | some package =>
        rw [hpackage] at hreturns
        obtain ⟨_, rfl, ⟨a, rfl⟩, htarget⟩ := hreturns
        exact ⟨a, rfl, (hk.target? h' _ a).trans htarget⟩
      | none =>
        rw [hpackage] at hreturns
        dsimp only at hreturns ⊢
        rw [presents_eq_viewOrRefusal ⟨s, t⟩] at hreturns
        unfold viewOrRefusal at hreturns ⊢
        cases hview : viewOf ⟨s, t⟩ z.content.kind with
        | some u =>
          rw [hview] at hreturns
          obtain ⟨u', rfl, hu', -⟩ := hreturns
          cases hu'
          rfl
        | none =>
          rw [hview] at hreturns
          exact hreturns
  | _ =>
    rw [hcontent] at hasked
    unfold Heap.face Face.Reads
    rw [HostM.run_holding, Handle.value, valueWith, run_bind_ok hasked]
    rfl

theorem run_fetched_face (operation : String) (request : Request Handle .cellIfAny) (hq : h.Quiet)
    (hs : h.Sound σ) (hlive : h.isLive d) (hface : h.face? d = some face)
    (hanswer : (Heap.answer setup (request.map Handle.cell)).run h =
      (do retain d; return some d : HeapM (Option CellId)).run h) :
    face.Reads ⟨s, d⟩ ((do
      let found ← cross s operation request
      Value.ofOption <$> takeValue? found : HostM Value).run (w.put s h n)) := by
  obtain ⟨_, h₁, hretain, -, hs₁⟩ := gives_retain hlive σ hs
  have hg := retain_grows h d
  rw [hretain] at hg
  have hcross : (cross s operation request).run (w.put s h n) =
      (.ok (some ⟨s, d⟩), w.put s h₁ (n + 1)) :=
    hk.run_cross operation request (hanswer.trans ((run_bind_ok hretain).trans rfl)) (hq.grows hg)
  have hf : h.Firm Turning h₁ := (firm_refl (fun _ _ => .inl rfl) h).unchanged hg.firm
  have hface₁ : h₁.face? d = some face :=
    (hf.face? hs hs₁ hlive (hs₁.isLive (.head _))).trans hface
  rw [run_bind_ok hcross, ofOption_takeValue?]
  exact run_held_face hk (hq.grows hg) hs₁ hface₁

end

end Embedding

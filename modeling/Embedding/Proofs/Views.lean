import Embedding.Proofs.Heap.Gone
import Embedding.Proofs.Host.Seeing
import Embedding.Proofs.Receivers

/-!
# Views that a host has

A view of an array, a hash or a sub owns a handle in that cell. However a host gets such a view and
whatever it does as long as it has it, the cell is of the view's sort while its session runs.
-/

namespace Embedding

open Heap

variable {origin w w' : World} {hs hs' : List Handle} {s t : SessionId} {l : Latitude} {setup : Setup}
  {h h' : Heap} {slot : Slot} {v : Value} {c : Handle} {read : Handle → HostM Value} {operation : String}
  {kind : Kind}

/-! ## Sorts of views -/

/-- The sort of the cell that a view is of. The cell of an object or of a bound method is a receiver. -/
def Value.sort? : Value → Option Slot
  | .array _ => some .array
  | .hash _ => some .hash
  | .callable (.code _) => some .code
  | _ => none

theorem Value.isView_of_sort? (hv : v.sort? = some slot) : v.isView = true := by
  cases v with
  | array | hash | callable => rfl
  | _ => cases hv

/-- The sort of cells of the kind, as far as there are views of them. -/
def Kind.sort? : Kind → Option Slot
  | .array => some .array
  | .hash => some .hash
  | .code => some .code
  | _ => none

theorem Scalar.sort?_kind (x : Scalar) : x.kind.sort? = none := by
  unfold Scalar.kind
  split
  · rfl
  · split <;> rfl

theorem Heap.hasSort_of_kind {d : CellId} (hd : h.kind d = .ok kind) (hsort : kind.sort? = some slot) :
    h.HasSort slot d := by
  obtain ⟨x, hx, rfl⟩ : ∃ x, h.cell? d = some x ∧ x.content.kind = kind := by
    cases hx : h.cell? d with
    | none => rw [kind_freed (Option.not_isSome_iff_eq_none.2 hx)] at hd; cases hd
    | some x => rw [Heap.kind, cell_ok hx] at hd; exact ⟨x, rfl, Except.ok.inj hd⟩
  refine ⟨x, hx, ?_⟩
  cases hcontent : x.content with
  | scalar y =>
    rw [hcontent] at hsort
    cases (Scalar.sort?_kind y).symm.trans hsort
  | _ => rw [hcontent] at hsort; exact hsort

/-- While its session runs, the cell of the view is of the view's sort. -/
def World.Fits (w : World) (v : Value) : Prop :=
  ∀ slot, v.sort? = some slot → ∀ c ∈ v.handles, (w.session c.session).stage = .initialized →
    ∀ h, (w.session c.session).engine.interpreter.heap = some h → h.HasSort slot c.cell

theorem World.RunsOn.heap_eq (hr : w.RunsOn s setup h)
    (hh' : (w.session s).engine.interpreter.heap = some h') : h = h' :=
  Option.some.inj ((congrArg (·.interpreter.heap) hr.engine).symm.trans hh')

theorem World.RunsOn.fits (hr : w.RunsOn c.session setup h) (hv : v.handles = [c])
    (hsort : ∀ slot, v.sort? = some slot → h.HasSort slot c.cell) : w.Fits v := by
  intro slot hslot d hd _ h' hh'
  rw [hv, List.mem_singleton] at hd
  subst hd
  exact hr.heap_eq hh' ▸ hsort slot hslot

/-- A cell stands for itself, if it is no reference. -/
def Content.referent (c : CellId) : Content → CellId
  | .scalar x => x.ref.getD c
  | _ => c

theorem Heap.identity_eq {d : CellId} {x : Cell} (hx : h.cell? d = some x) :
    h.identity d = .ok (x.content.referent d) := by
  unfold Heap.identity
  rw [Heap.kind, cell_ok hx]
  dsimp only [bind, Except.bind]
  cases hcontent : x.content with
  | scalar y =>
    have hscalar : h.scalar d = .ok y := scalar_eq_ok_iff.2 ⟨x, hx, hcontent⟩
    change (if y.kind = .ref then h.target d else .ok d) = _
    cases href : y.ref with
    | some a =>
      rw [kind_ref href, if_pos rfl, target_ref hscalar href, Content.referent, href]
      rfl
    | none =>
      have hkind : y.kind ≠ .ref := by
        have hflag : ¬ y.flags.ref = true := by simp [Scalar.flags, href]
        rw [Scalar.kind, if_neg hflag]
        split <;> decide
      rw [if_neg hkind, Content.referent, href]
      rfl
  | _ => rfl

theorem Heap.HasSort.identity {d : CellId} (hd : h.HasSort slot d) (hslot : slot ≠ .scalar) :
    h.identity d = .ok d := by
  obtain ⟨x, hx, hsort⟩ := hd
  rw [identity_eq hx]
  cases hcontent : x.content with
  | scalar y =>
    rw [hcontent] at hsort
    exact absurd (Option.some.inj hsort).symm hslot
  | _ => rfl

/-! ## How a host gets views -/

/-- The request makes a cell of the sort. -/
inductive Request.Opens : Request Handle .cell → Slot → Prop
  | array : Opens .newArray .array
  | hash : Opens .newHash .hash

/-- The views that a host comes to have. A receiver may be any handle; a view of a cell comes as the value
of another cell, with a new cell or by a name. -/
inductive Viewing (origin : World) : World → List Handle → Value → Prop
  | receiver {w : World} {hs : List Handle} {v : Value} : Reached origin w hs → v.isView = true →
    v.sort? = none → v.handles ⊆ hs → Viewing origin w hs v
  | value {w w' : World} {hs : List Handle} {v : Value} {c : Handle} {depth : Nat} : Reached origin w hs →
    c ∈ hs → v.isView = true → (valueWithin depth c).run w = (.ok v, w') →
    Viewing origin w' (v.handles ++ hs) v
  | opened {w w' : World} {hs : List Handle} {v : Value} {c : Handle} {s : SessionId} {operation : String}
    {request : Request Handle .cell} {slot : Slot} : Reached origin w hs → request.Opens slot →
    (cross s operation request).run w = (.ok c, w') → v.sort? = some slot → v.handles = [c] →
    Viewing origin w' (c :: hs) v
  | symbol {w w' : World} {hs : List Handle} {v : Value} {c : Handle} {s : SessionId} {operation name : String}
    {slot : Slot} {create : Bool} : Reached origin w hs →
    (globalCell s operation slot name create).run w = (.ok (some c), w') → v.sort? = some slot →
    v.handles = [c] → Viewing origin w' (c :: hs) v
  /-- The host goes on and keeps the view. -/
  | step {w w' : World} {hs hs' : List Handle} {v : Value} {s : SessionId} : Viewing origin w hs v →
    Step s .all w hs w' hs' → v.handles ⊆ hs' → Viewing origin w' hs' v

/-! ## Views stay what they are -/

theorem World.stage_of_shutDown (hbegun : (w.session t).stage ≠ .uninitialized)
    (hstage : ((w.shutDown s).session t).stage = .initialized) : (w.session t).stage = .initialized := by
  by_cases ht : t = s
  · subst ht
    exact nomatch hstage.symm.trans (World.stage_shutDown (World.lt_of_stage_ne hbegun))
  · rwa [World.session_shutDown_of_ne ht] at hstage

theorem World.stage_of_shutDownUnkept (hbegun : (w.session t).stage ≠ .uninitialized)
    (hstage : ((w.shutDownUnkept s).session t).stage = .initialized) :
    (w.session t).stage = .initialized := by
  unfold World.shutDownUnkept at hstage
  split at hstage
  · exact hstage
  · exact World.stage_of_shutDown hbegun hstage

theorem Step.stage_initialized (hstep : Step s l w hs w' hs')
    (hbegun : (w.session t).stage ≠ .uninitialized) (hstage : (w'.session t).stage = .initialized) :
    (w.session t).stage = .initialized := by
  cases hstep with
  | perm _ => exact hstage
  | clone _ => rwa [World.clone, World.stage_adopt, World.stage_retain] at hstage
  | retain _ => rwa [World.stage_retain] at hstage
  | @release c _ =>
    have hdrop := World.stage_drop (t := t) w c
    exact hdrop ▸ World.stage_of_shutDownUnkept (w := w.drop c) (hdrop ▸ hbegun) hstage
  | @exchange _ _ u _ _ _ _ hrunning _ _ _ _ hrun =>
    have hlt : u.index < w.sessions.size := World.lt_of_stage_ne (by rw [hrunning]; decide)
    obtain ⟨e, n, -, rfl⟩ := exchange_refit hlt hrun
    refine (World.stage_update ?_).symm.trans hstage
    exact fun _ => rfl
  | claim u =>
    have hupdate : ((w.update u fun session => { session with claims := true }).session t).stage =
        (w.session t).stage := World.stage_update fun _ => rfl
    exact hupdate.symm.trans hstage
  | construct u hidle hrun =>
    have ht : t ≠ u := fun e => hbegun (e ▸ hidle)
    rwa [session_construct_of_ne hrun ht] at hstage
  | abandon u hrun =>
    cases hrun
    by_cases ht : t = u
    · subst ht
      rw [World.stage_ended (World.lt_of_stage_ne hbegun)] at hstage
      split at hstage <;> cases hstage
    · rwa [World.session_ended_of_ne ht] at hstage
  | shutDown u => exact World.stage_of_shutDown hbegun hstage
  | disown u =>
    have hupdate : ((w.update u fun session => { session with owned := false }).session t).stage =
        (w.session t).stage := World.stage_update fun _ => rfl
    exact hupdate ▸ World.stage_of_shutDownUnkept (hupdate ▸ hbegun) hstage
  | bindNamespace u =>
    refine (World.stage_update ?_).symm.trans hstage
    exact fun _ => rfl
  | unbindNamespace u =>
    have hupdate : ((w.update u fun session =>
        { session with namespaces := session.namespaces - 1 }).session t).stage =
        (w.session t).stage := World.stage_update fun _ => rfl
    exact hupdate ▸ World.stage_of_shutDownUnkept (hupdate ▸ hbegun) hstage

/-- Where there is latitude for everything, it makes no difference which session is meant. -/
theorem Step.free (hstep : Step s .all w hs w' hs') (t : SessionId) : Step t .all w hs w' hs' := by
  cases hstep with
  | perm hp => exact .perm hp
  | clone hh => exact .clone hh
  | release => exact .release
  | retain hh => exact .retain hh
  | exchange request hstage hplain hcells hsub _ hrun =>
    exact .exchange request hstage hplain hcells hsub
      (fun _ _ _ _ => Latitude.free_all.request _ _ _) hrun
  | claim u => exact .claim u
  | construct u hstage hrun => exact .construct u hstage hrun
  | abandon u hrun => exact .abandon u hrun
  | shutDown u => exact .shutDown u
  | disown u => exact .disown u
  | bindNamespace u => exact .bindNamespace u
  | unbindNamespace u => exact .unbindNamespace u

/-- Cells keep their sorts, and the cell of a handle that the host keeps stays live. -/
theorem World.Fits.step (hfits : w.Fits v) (hfresh : origin.Fresh) (hreach : Reached origin w hs)
    (hstep : Step s .all w hs w' hs') (hv : v.handles ⊆ hs) (hv' : v.handles ⊆ hs') : w'.Fits v := by
  intro slot hslot c hc hstage h' hh'
  have hbegun := (hreach.leaky hfresh).stage_ne (hv hc)
  obtain ⟨h, hr, -⟩ := (hreach.leaky hfresh).runsOn (hstep.stage_initialized hbegun hstage)
  have hsort := hfits slot hslot c hc hr.stage h (by rw [hr.engine])
  obtain ⟨g, hg, hev⟩ := (stable_evolves h).step (allBodies_true _) ⟨h, hr, .refl h⟩
    (hstep.free c.session) hstage
  obtain ⟨g', hg', lost, hs'⟩ := ((hreach.step hstep).leaky hfresh).runsOn hstage
  obtain rfl := hg.heap_eq hh'
  obtain rfl := hg'.heap_eq hh'
  exact hsort.evolves hev (hs'.isLive (List.mem_append_right lost (mem_cellsOf (hv' hc))))

/-! ## How views fit when they come -/

theorem Reached.answered_kind (hreach : Reached origin w hs) (hfresh : origin.Fresh) (hc : c ∈ hs)
    (hrun : (crossWith read c.session operation (.kind c)).run w = (.ok kind, w')) :
    ∃ h, Arrived origin c.session w' hs h ∧ h.kind c.cell = .ok kind := by
  obtain ⟨h, ha⟩ := hreach.arrived hfresh (crossWith_initialized hrun)
  obtain ⟨found, h', hanswer, rfl, ha'⟩ := ha.crossed hrun rfl
    (fun d hd => by rw [List.mem_singleton.1 hd]) (List.cons_subset.2 ⟨hc, List.nil_subset hs⟩)
  obtain ⟨hkind, rfl⟩ := Prod.mk.inj hanswer
  exact ⟨h, ha', hkind⟩

theorem Reached.fits_kind (hreach : Reached origin w hs) (hfresh : origin.Fresh) (hc : c ∈ hs)
    (hrun : (crossWith read c.session operation (.kind c)).run w = (.ok kind, w'))
    (hv : v.handles = [c]) (hsort : v.sort? = kind.sort?) : w'.Fits v := by
  obtain ⟨h, ha, hkind⟩ := hreach.answered_kind hfresh hc hrun
  exact ha.runs.fits hv fun slot hslot => hasSort_of_kind hkind (hsort ▸ hslot)

/-- What a reference to a cell of a sort is seen as, three crossings later. -/
theorem referenceValueWith_sort (hrun : (referenceValueWith (crossWith read) c).run w = (.ok v, w'))
    (hslot : v.sort? = some slot) : ∃ target w₁ w₂ kind,
      (crossWith read c.session "to_host" (.className c)).run w = (.ok none, w₁) ∧
      (crossWith read c.session "to_host" (.deref c)).run w₁ = (.ok target, w₂) ∧
      (crossWith read target.session "kind" (.kind target)).run w₂ = (.ok kind, w') ∧
      v.handles = [target] ∧ v.sort? = kind.sort? := by
  obtain ⟨className, w₁, hclass, hrest⟩ := run_bind_eq_ok hrun
  cases className with
  | some className =>
    obtain ⟨target, w₂, -, hview⟩ := run_bind_eq_ok hrest
    obtain ⟨w₃, hmake⟩ := HostM.holding_ok hview
    obtain ⟨reference, w₄, -, hend⟩ := run_bind_eq_ok hmake
    cases hend
    cases hslot
  | none =>
    obtain ⟨target, w₂, hderef, hview⟩ := run_bind_eq_ok hrest
    obtain ⟨kind, w₃, hkind, hend⟩ := run_bind_eq_ok (HostM.orRelease_ok hview)
    cases kind <;> cases hend
    all_goals exact ⟨target, w₁, w₂, _, hclass, hderef, hkind, rfl, rfl⟩

theorem Reached.value (hreach : Reached origin w hs) (hc : c ∈ hs) {depth : Nat}
    (hrun : (valueWithin depth c).run w = (.ok v, w')) : Reached origin w' (v.handles ++ hs) :=
  (trade_reached.accounts_valueWithin depth c w hs (List.cons_subset.2 ⟨hc, List.nil_subset hs⟩)
    hreach).of_run hrun

theorem Reached.fits_value (hreach : Reached origin w hs) (hfresh : origin.Fresh) (hc : c ∈ hs)
    {depth : Nat} (hrun : (valueWithin depth c).run w = (.ok v, w')) : w'.Fits v := by
  intro slot hslot
  refine (?_ : w'.Fits v) slot hslot
  cases depth with
  | zero => cases hrun
  | succ depth =>
    obtain ⟨kind, w₁, hkind, hrest⟩ := run_bind_eq_ok hrun
    obtain ⟨h, ha, -⟩ := hreach.answered_kind hfresh hc hkind
    -- a cell with a sort is seen by a clone of the handle
    have hclone {u : Value} (hu : u.handles = [c]) (hsort : u.sort? = kind.sort?) :
        (w₁.clone c).Fits u := by
      refine (hreach.fits_kind hfresh hc hkind hu hsort).step hfresh ha.reach
        (.clone hc : Step c.session _ w₁ hs (w₁.clone c) (c :: hs)) ?_ ?_
      · rw [hu]
        exact List.cons_subset.2 ⟨hc, List.nil_subset hs⟩
      · rw [hu]
        exact List.cons_subset.2 ⟨List.mem_cons_self .., List.nil_subset _⟩
    cases kind with
    | scalar => cases (scalarValueWith_isView hrest).symm.trans (Value.isView_of_sort? hslot)
    | ref =>
      obtain ⟨target, w₂, w₃, kind, hclass, hderef, htarget, hv, hsort⟩ :=
        referenceValueWith_sort hrest hslot
      have hcells : ∀ d ∈ [c], d.session = c.session := fun d hd => by rw [List.mem_singleton.1 hd]
      have hsub : [c] ⊆ hs := List.cons_subset.2 ⟨hc, List.nil_subset hs⟩
      obtain ⟨_, h₁, -, -, ha₁⟩ := ha.crossed hclass rfl hcells hsub
      obtain ⟨_, h₂, -, -, ha₂⟩ := ha₁.crossed hderef rfl hcells hsub
      exact ha₂.reach.fits_kind hfresh (List.mem_cons_self ..) htarget hv hsort
    | array | hash | code =>
      obtain ⟨_, w₂, hrunclone, hend⟩ := run_bind_eq_ok hrest
      cases hrunclone
      cases hend
      exact hclone rfl rfl
    | undef =>
      cases hrest
      cases hslot
    | glob => cases hrest

theorem Heap.hasSort_opens {request : Request Handle .cell} {d : CellId} (hopens : request.Opens slot)
    (hrun : (Heap.answer setup (request.map Handle.cell)).run h = (.ok d, h')) : h'.HasSort slot d := by
  cases hopens with
  | array =>
    cases hrun
    exact ⟨_, (cell?_allocate h (.array #[]) _).trans (if_pos rfl), rfl⟩
  | hash =>
    cases hrun
    exact ⟨_, (cell?_allocate h (.hash [] 0) _).trans (if_pos rfl), rfl⟩

theorem Reached.opens {request : Request Handle .cell} (hreach : Reached origin w hs)
    (hfresh : origin.Fresh) (hopens : request.Opens slot)
    (hrun : (cross s operation request).run w = (.ok c, w')) :
    Reached origin w' (c :: hs) ∧ ∃ h, w'.RunsOn c.session (origin.session s).engine.interpreter.setup h ∧
      h.HasSort slot c.cell := by
  obtain ⟨h, ha⟩ := hreach.arrived hfresh (crossWith_initialized hrun)
  have hplain : request.isPlain = true := by cases hopens <;> rfl
  have hcells : request.cells = [] := by cases hopens <;> rfl
  obtain ⟨d, h', hanswer, rfl, ha'⟩ := ha.crossed hrun hplain (by rw [hcells]; nofun)
    (hcells ▸ List.nil_subset hs)
  exact ⟨ha'.reach, h', ha'.runs, hasSort_opens hopens hanswer⟩

theorem Reached.names {name : String} {create : Bool} (hreach : Reached origin w hs)
    (hfresh : origin.Fresh) (hrun : (globalCell s operation slot name create).run w = (.ok (some c), w')) :
    Reached origin w' (c :: hs) ∧ ∃ h, w'.RunsOn c.session (origin.session s).engine.interpreter.setup h ∧
      h.HasSort slot c.cell := by
  obtain ⟨h, ha⟩ := hreach.arrived hfresh (crossWith_initialized hrun)
  obtain ⟨found, h', hanswer, hfound, ha'⟩ := ha.crossed hrun rfl nofun nofun
  obtain ⟨lost, hs'⟩ := ha.leaky hfresh
  obtain ⟨o, h₁, hglobal, -, hs₁, hnamed, -⟩ := global_spec hs' slot name create
  cases hglobal.symm.trans hanswer
  cases found with
  | none => cases hfound
  | some d =>
    cases hfound
    exact ⟨ha'.reach, h', ha'.runs, hs₁.hasSort (hnamed d rfl)⟩

namespace Viewing

theorem reached (hfresh : origin.Fresh) (hv : Viewing origin w hs v) :
    Reached origin w hs ∧ v.handles ⊆ hs := by
  induction hv with
  | receiver hreach _ _ hsub => exact ⟨hreach, hsub⟩
  | value hreach hc _ hrun => exact ⟨hreach.value hc hrun, List.subset_append_left ..⟩
  | opened hreach hopens hrun _ hv =>
    exact ⟨(hreach.opens hfresh hopens hrun).1, hv ▸ List.cons_subset_cons _ (List.nil_subset _)⟩
  | symbol hreach hrun _ hv =>
    exact ⟨(hreach.names hfresh hrun).1, hv ▸ List.cons_subset_cons _ (List.nil_subset _)⟩
  | step _ hstep hsub ih => exact ⟨ih.1.step hstep, hsub⟩

/-- The main statement: a view fits its cell as long as the host has it. -/
theorem fits (hfresh : origin.Fresh) (hv : Viewing origin w hs v) : w.Fits v := by
  induction hv with
  | receiver _ _ hsort _ => exact fun slot hslot => nomatch hsort.symm.trans hslot
  | value hreach hc _ hrun => exact hreach.fits_value hfresh hc hrun
  | opened hreach hopens hrun hsort hv =>
    obtain ⟨-, h, hr, hopened⟩ := hreach.opens hfresh hopens hrun
    exact hr.fits hv fun slot hslot => Option.some.inj (hsort.symm.trans hslot) ▸ hopened
  | symbol hreach hrun hsort hv =>
    obtain ⟨-, h, hr, hnamed⟩ := hreach.names hfresh hrun
    exact hr.fits hv fun slot hslot => Option.some.inj (hsort.symm.trans hslot) ▸ hnamed
  | step hv hstep hsub ih =>
    obtain ⟨hreach, hheld⟩ := hv.reached hfresh
    exact ih.step hfresh hreach hstep hheld hsub

end Viewing

end Embedding

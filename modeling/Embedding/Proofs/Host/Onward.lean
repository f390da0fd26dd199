import Embedding.Proofs.Heap.Latitude
import Embedding.Proofs.Host.Watch

/-!
# Going on while a session runs

From a world that it has come to, a host goes on by primitive operations, and one session runs all the
time. What that session is asked for keeps to a latitude. An invariant of its heap that goes on through all
that there is latitude for then goes on with the host.
-/

namespace Embedding

/-- One primitive operation of a host. The requests to the session keep to the latitude. -/
inductive Step (s : SessionId) (l : Latitude) : World → List Handle → World → List Handle → Prop
  | perm {w hs hs'} : hs.Perm hs' → Step s l w hs w hs'
  | clone {w hs h} : h ∈ hs → Step s l w hs (w.clone h) (h :: hs)
  | release {w h hs} : Step s l w (h :: hs) (w.release h) hs
  | retain {w hs h} : h ∈ hs → Step s l w hs (w.retain h) hs
  | exchange {w w' hs t shape outcome pending} (request : Request Handle shape) :
    (w.session t).stage = .initialized → request.isPlain = true →
    (∀ h ∈ request.cells, h.session = t) → request.cells ⊆ hs →
    (t = s → ∀ setup heap, w.RunsOn s setup heap →
      (request.map Handle.cell).Permitted l setup heap) →
    (exchange t request).run w = (.ok (outcome, pending), w') →
    Step s l w hs w' (exchanged t outcome pending ++ hs)
  | claim {w hs} (t) : Step s l w hs
    { w.update t fun session => { session with claims := true } with claimed := true } hs
  | construct {w w' hs r} (t : SessionId) : (w.session t).stage = .uninitialized →
    t.construct.run w = (r, w') → Step s l w hs w' hs
  | abandon {w w' hs r} (t : SessionId) : t.abandon.run w = (r, w') → Step s l w hs w' hs
  | shutDown {w hs} (t) : Step s l w hs (w.shutDown t) hs
  | disown {w hs} (t) : Step s l w hs (w.disown t) hs
  | bindNamespace {w hs} (t) : Step s l w hs (w.bindNamespace t) hs
  | unbindNamespace {w hs} (t) : Step s l w hs (w.unbindNamespace t) hs

/-- The worlds that a host comes to from a world while the session goes on running. -/
inductive Onward (s : SessionId) (l : Latitude) (w : World) (hs : List Handle) :
    World → List Handle → Prop
  | refl : Onward s l w hs w hs
  | step {w₁ hs₁ w₂ hs₂} : Onward s l w hs w₁ hs₁ → Step s l w₁ hs₁ w₂ hs₂ →
    (w₂.session s).stage = .initialized → Onward s l w hs w₂ hs₂

variable {origin w w' : World} {hs hs' : List Handle} {s t : SessionId} {l : Latitude}

theorem Reached.step (hreach : Reached origin w hs) (hstep : Step s l w hs w' hs') :
    Reached origin w' hs' := by
  cases hstep with
  | perm hp => exact hreach.perm hp
  | clone hh => exact hreach.clone hh
  | release => exact hreach.release
  | retain hh => exact hreach.retain hh
  | exchange request hstage hplain hcells hsub _ hrun =>
    exact hreach.exchange request hstage hplain hcells hsub hrun
  | claim t => exact hreach.claim t
  | construct t hstage hrun => exact hreach.construct t hstage hrun
  | abandon t hrun => exact hreach.abandon t hrun
  | shutDown t => exact hreach.shutDown t
  | disown t => exact hreach.disown t
  | bindNamespace t => exact hreach.bindNamespace t
  | unbindNamespace t => exact hreach.unbindNamespace t

theorem Reached.onward (hreach : Reached origin w hs) (honward : Onward s l w hs w' hs') :
    Reached origin w' hs' := by
  induction honward with
  | refl => exact hreach
  | step _ hstep _ ih => exact ih.step hstep

/-! ## What goes on in the heap -/

/-- The session runs on a heap with the property. -/
def World.Bears (s : SessionId) (setup : Setup) (I : Heap → Prop) (w : World) : Prop :=
  ∃ h, w.RunsOn s setup h ∧ I h

namespace World.Bears

variable {setup : Setup} {I : Heap → Prop} {shape : Shape}

theorem of_eq (hw : w.Bears s setup I) (hstage : (w'.session s).stage = (w.session s).stage)
    (hengine : (w'.session s).engine = (w.session s).engine) : w'.Bears s setup I := by
  obtain ⟨h, hr, hI⟩ := hw
  exact ⟨h, ⟨hstage.trans hr.stage, hengine.trans hr.engine⟩, hI⟩

theorem of_session (hw : w.Bears s setup I) (hsession : w'.session s = w.session s) :
    w'.Bears s setup I := hw.of_eq (by rw [hsession]) (by rw [hsession])

theorem update (hw : w.Bears s setup I) (t : SessionId) {f : Session → Session}
    (hstage : ∀ x, (f x).stage = x.stage) (hengine : ∀ x, (f x).engine = x.engine) :
    (w.update t f).Bears s setup I :=
  hw.of_eq (World.session_update_keeps Session.stage hstage)
    (World.session_update_keeps Session.engine hengine)

theorem ask (hw : w.Bears s setup I) {request : Request CellId shape}
    (hanswer : Preserves I (Heap.answer setup request)) (t : SessionId) :
    (w.ask t request).2.Bears s setup I := by
  by_cases ht : s = t
  · subst ht
    obtain ⟨h, hr, hI⟩ := hw
    rw [hr.ask]
    exact ⟨_, hr.put _ 0, hanswer h hI⟩
  · exact hw.of_session (World.session_ask_of_ne request ht)

theorem shutDown (hw : w.Bears s setup I)
    (hstage : ((w.shutDown t).session s).stage = .initialized) : (w.shutDown t).Bears s setup I := by
  by_cases ht : s = t
  · subst ht
    obtain ⟨h, hr, -⟩ := hw
    exact nomatch hstage.symm.trans (World.stage_shutDown hr.lt)
  · exact hw.of_session (World.session_shutDown_of_ne ht)

theorem shutDownUnkept (hw : w.Bears s setup I)
    (hstage : ((w.shutDownUnkept t).session s).stage = .initialized) :
    (w.shutDownUnkept t).Bears s setup I := by
  unfold World.shutDownUnkept at hstage ⊢
  by_cases hkept : (w.session t).isKept = true
  · rwa [if_pos hkept]
  · rw [if_neg hkept] at hstage ⊢
    exact hw.shutDown hstage

end World.Bears

namespace Heap.Stable

variable {I : Heap → Prop} {setup : Setup} (hI : Stable l I) (hall : setup.AllBodies l.body)
include hI hall

theorem exchange {h h₁ h₂ : Heap} {shape : Shape} {request : Request CellId shape}
    {r : Except Fault (Answer CellId shape)} {pending : Except Fault (Option CellId)} (hh : I h)
    (hpermitted : request.Permitted l setup h) (hanswer : (Heap.answer setup request).run h = (r, h₁))
    (htake : Heap.takeError.run h₁ = (pending, h₂)) : I h₂ := by
  have hh₁ := hI.answer hall request hh hpermitted
  rw [hanswer] at hh₁
  have hh₂ := hI.takeError h₁ hh₁
  rwa [htake] at hh₂

/-- One case for each operation: what concerns the heap of the session is a count, or an exchange that
keeps to the latitude. -/
theorem step (hw : w.Bears s setup I) (hstep : Step s l w hs w' hs')
    (hstage : (w'.session s).stage = .initialized) : w'.Bears s setup I := by
  have hretain (c : Handle) (hw : w.Bears s setup I) : (w.retain c).Bears s setup I := by
    unfold World.retain
    split
    · exact hw.ask (show Preserves I (Heap.answer setup (.retain c.cell)) from hI.retain c.cell) c.session
    · exact hw
  cases hstep with
  | perm _ => exact hw
  | @clone _ c _ => exact (hretain c hw).update c.session (fun _ => rfl) fun _ => rfl
  | retain _ => exact hretain _ hw
  | @release c _ =>
    have hdrop : (w.drop c).Bears s setup I := by
      have hcount := hw.update c.session (f := fun session =>
        { session with liveHandles := session.liveHandles - 1 }) (fun _ => rfl) fun _ => rfl
      unfold World.drop World.giveBack
      split
      · exact hcount.ask (show Preserves I (Heap.answer setup (.release c.cell)) from hI.release c.cell) c.session
      · exact hcount
    exact hdrop.shutDownUnkept hstage
  | @exchange _ _ t _ outcome pending request hrunning _ _ _ hpermitted hrun =>
    by_cases ht : t = s
    · subst ht
      obtain ⟨h, hr, hh⟩ := hw
      cases hanswer : (Heap.answer setup (request.map Handle.cell)).run h with
      | mk r h₁ =>
        cases htake : Heap.takeError.run h₁ with
        | mk e h₂ =>
          rw [hr.run_exchange hanswer htake] at hrun
          cases hrun
          exact ⟨h₂, hr.put h₂ _, hI.exchange hall hh (hpermitted rfl setup h hr) hanswer htake⟩
    · have hlt : t.index < w.sessions.size := World.lt_of_stage_ne (by rw [hrunning]; nofun)
      obtain ⟨e, n, -, rfl⟩ := exchange_refit hlt hrun
      exact hw.of_session (World.session_update_of_ne _ _ ht)
  | claim t =>
    have hclaims := hw.update t (f := fun session => { session with claims := true }) (fun _ => rfl)
      fun _ => rfl
    exact hclaims.of_session rfl
  | construct t hidle hrun =>
    have ht : s ≠ t := by
      rintro rfl
      obtain ⟨h, hr, -⟩ := hw
      exact nomatch hidle.symm.trans hr.stage
    exact hw.of_session (session_construct_of_ne hrun ht)
  | abandon t hrun =>
    cases hrun
    by_cases ht : s = t
    · subst ht
      obtain ⟨h, hr, -⟩ := hw
      rw [World.stage_ended hr.lt] at hstage
      split at hstage <;> cases hstage
    · exact hw.of_session (World.session_ended_of_ne ht)
  | shutDown t => exact hw.shutDown hstage
  | disown t =>
    exact (hw.update t (f := fun session => { session with owned := false }) (fun _ => rfl) fun _ =>
      rfl).shutDownUnkept hstage
  | bindNamespace t => exact hw.update t (fun _ => rfl) fun _ => rfl
  | unbindNamespace t =>
    exact (hw.update t (f := fun session => { session with namespaces := session.namespaces - 1 })
      (fun _ => rfl) fun _ => rfl).shutDownUnkept hstage

theorem onward (hw : w.Bears s setup I) (honward : Onward s l w hs w' hs') : w'.Bears s setup I := by
  induction honward with
  | refl => exact hw
  | step _ hstep hstage ih => exact hI.step hall ih hstep hstage

end Heap.Stable

end Embedding

import Embedding.Proofs.Host.Balance

/-!
# Reached worlds

What the primitive operations of a host lead to. All operations of a host are made of them, so an
invariant that goes on through each of them holds in every world that a host can reach, and at every
point of an operation.
-/

namespace Embedding

/-- The worlds that a host reaches from the origin, each with the handles that it owns there. -/
inductive Reached (origin : World) : World → List Handle → Prop
  | start : Reached origin origin []
  | perm {w hs hs'} : Reached origin w hs → hs.Perm hs' → Reached origin w hs'
  | clone {w hs h} : Reached origin w hs → h ∈ hs → Reached origin (w.clone h) (h :: hs)
  | release {w h hs} : Reached origin w (h :: hs) → Reached origin (w.release h) hs
  /-- A count that no handle stands for. -/
  | retain {w hs h} : Reached origin w hs → h ∈ hs → Reached origin (w.retain h) hs
  /-- A request to a running interpreter, and the look at the pending error after it. -/
  | exchange {w w' hs s shape outcome pending} (request : Request Handle shape) :
    (w.session s).stage = .initialized → request.isPlain = true →
    (∀ h ∈ request.cells, h.session = s) → request.cells ⊆ hs → Reached origin w hs →
    (exchange s request).run w = (.ok (outcome, pending), w') →
    Reached origin w' (exchanged s outcome pending ++ hs)
  | claim {w hs} (s) : Reached origin w hs → Reached origin
    { w.update s fun session => { session with claims := true } with claimed := true } hs
  | construct {w w' hs r} (s : SessionId) : (w.session s).stage = .uninitialized →
    Reached origin w hs → s.construct.run w = (r, w') → Reached origin w' hs
  | abandon {w w' hs r} (s : SessionId) : Reached origin w hs → s.abandon.run w = (r, w') →
    Reached origin w' hs
  | shutDown {w hs} (s) : Reached origin w hs → Reached origin (w.shutDown s) hs
  | disown {w hs} (s) : Reached origin w hs → Reached origin (w.disown s) hs
  | bindNamespace {w hs} (s) : Reached origin w hs → Reached origin (w.bindNamespace s) hs
  | unbindNamespace {w hs} (s) : Reached origin w hs → Reached origin (w.unbindNamespace s) hs

variable {origin w w' : World} {hs : List Handle} {s : SessionId}

theorem construct_handles {r : Except HostError Unit} (hrun : s.construct.run w = (r, w')) :
    hostStakes (fun _ => []) r = [] := by
  unfold SessionId.construct HostM.session at hrun
  rw [bind_assoc, run_get_bind, pure_bind, run_bind, run_ask] at hrun
  generalize w.ask s _ = p at hrun
  obtain ⟨_ | _, w₁⟩ := p <;> cases hrun <;> rfl

theorem Reached.ends_construct (hreach : Reached origin w hs)
    (hstage : (w.session s).stage = .uninitialized) :
    Ends s.construct w fun r w' => Reached origin w' (hostStakes (fun _ => []) r ++ hs) := by
  unfold Ends
  cases hrun : s.construct.run w with
  | mk r w' =>
    dsimp only
    rw [construct_handles hrun]
    exact hreach.construct s hstage hrun

theorem trade_reached : Trade (Reached origin) where
  perm := .perm
  clone := .clone
  release := .release
  exchange request _ := .exchange request

theorem books_reached : Books (Reached origin) where
  toDealing := trade_reached
  start _ hreach := trade_reached.ends_start_of_steps (.claim _)
    (fun hstage hreach => hreach.ends_construct hstage) (fun hreach => hreach.abandon _ rfl) hreach
  shutDown _ := .shutDown _
  disown _ := .disown _
  bindNamespace _ := .bindNamespace _
  unbindNamespace _ := .unbindNamespace _

/-- What goes on through all primitive operations holds wherever they lead to. -/
theorem Reached.holds {I : World → List Handle → Prop} (hreach : Reached origin w hs)
    (hprimitives : Primitives Anything I) (hstart : I origin []) : I w hs := by
  induction hreach with
  | start => exact hstart
  | perm _ hp ih => exact hprimitives.perm ih hp
  | clone _ hh ih => exact hprimitives.clone ih hh
  | release _ ih => exact hprimitives.release ih
  | retain _ hh ih => exact hprimitives.retain ih hh
  | exchange request hstage hplain hcells hsub _ hrun ih =>
    exact hprimitives.exchange request trivial hstage hplain hcells hsub ih hrun
  | claim s _ ih => exact hprimitives.claim s ih
  | construct s hstage _ hrun ih =>
    have hI := (hprimitives.construct s hstage ih).of_run hrun
    rwa [construct_handles hrun] at hI
  | abandon s _ hrun ih => exact (hprimitives.abandon s ih).of_run hrun
  | shutDown s _ ih => exact hprimitives.shutDown inferInstance ih
  | disown s _ ih => exact hprimitives.disown inferInstance ih
  | bindNamespace s _ ih => exact hprimitives.bindNamespace inferInstance ih
  | unbindNamespace s _ ih => exact hprimitives.unbindNamespace inferInstance ih

variable {Good : SessionId → Heap → List CellId → Prop}

section
variable {may : Permission} {asked : SessionId → Asking}
  (hregime : ∀ s, Regime (asked s) (origin.session s).engine.interpreter.setup (Good s))
include hregime

/-- Counts without handles are no matter to what may lose sight of stakes. -/
theorem Balanced.retain
    (hlose : ∀ s h c σ, Good s h (c :: σ) → Good s h σ) : Retains (Balanced origin Good) := by
  intro w hs h hI hh
  unfold World.retain
  split
  · next hstage =>
    obtain ⟨heap, hr, hgood⟩ := hI.runsOn hstage
    have hretain := hlose _ _ _ _ ((hregime h.session).retain hgood (mem_cellsOf hh))
    have hput := hI.put hr (show Good h.session _ ([] ++ cellsOf h.session hs) from hretain)
    rw [hr.ask]
    exact hput
  · exact hI

theorem primitives_of_regime [Reads may]
    (hmay : ∀ {shape : Shape} {s : SessionId} {request : Request Handle shape},
      may s request → asked s (request.map Handle.cell))
    (hboot : ∀ s {h}, (Heap.boot (origin.session s).engine.interpreter.setup
      (origin.session s).config.interpreterArgs).run .initial = (.ok (), h) → Good s h [])
    (hlose : ∀ s h c σ, Good s h (c :: σ) → Good s h σ) : Primitives may (Balanced origin Good) where
  toAffairs := affairs_balanced hregime hmay hboot
  claim s hI := hI.claim s
  construct s hstage hI := hI.ends_construct (hboot s) hstage
  abandon s hI := hI.abandon s
  retain := Balanced.retain hregime hlose

end

theorem primitives_balanced (hdisc : ∀ s, Discipline (origin.session s) (Good s))
    (hlose : ∀ s h c σ, Good s h (c :: σ) → Good s h σ) : Primitives Anything (Balanced origin Good) :=
  primitives_of_regime (fun s => (hdisc s).toRegime) (fun _ => trivial) (fun s _ => (hdisc s).boot) hlose

end Embedding

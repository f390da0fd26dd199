import Embedding.Console.Step
import Embedding.Proofs.Console.Runs
import Embedding.Proofs.Host.Steady

/-!
# Accounts of steps

What goes on through the operations of a host, and when a session is created, holds after any steps
of a console.
-/

namespace Embedding

open Console

variable {I : World → List Handle → Prop} {P : Engine → Prop} {steps more : List Step} {c : Console}

/-- The step creates no session on an engine of another kind. -/
def Console.Step.Creates (P : Engine → Prop) : Step → Prop
  | .create engine _ => P engine
  | .line _ => True

theorem Console.after_append (steps more : List Step) :
    after (steps ++ more) = more.foldl Step.run (after steps) := List.foldl_append

theorem Books.foldl_ends (hbooks : Books I) (hretains : Retains I)
    (hcreate : ∀ {w hs engine} config, P engine → I w hs → I (w.create engine config) hs) :
    ∀ (steps : List Step) {c : Console}, (∀ step ∈ steps, step.Creates P) → c.fixable = [] →
      I c.world c.handles → (steps.foldl Step.run c).fixable = [] ∧
        I (steps.foldl Step.run c).world (steps.foldl Step.run c).handles
  | [], _, _, hfixable, hI => ⟨hfixable, hI⟩
  | .create engine config :: steps, c, hsteps, hfixable, hI =>
    foldl_ends hbooks hretains hcreate steps (fun step hstep => hsteps step (.tail _ hstep)) hfixable
      (hcreate config (hsteps _ (.head _)) hI)
  | .line line :: steps, c, hsteps, hfixable, hI => by
    have hline : line.command.keepsHandles = true ∨ Retains I := .inr hretains
    obtain ⟨hfixable', hI'⟩ := hbooks.line_ends hline hfixable hI
    exact foldl_ends hbooks hretains hcreate steps (fun step hstep => hsteps step (.tail _ hstep))
      hfixable' hI'

theorem Books.after_ends (hbooks : Books I) (hretains : Retains I)
    (hcreate : ∀ {w hs engine} config, P engine → I w hs → I (w.create engine config) hs)
    (hsteps : ∀ step ∈ steps, step.Creates P) (hI : I {} []) :
    (after steps).fixable = [] ∧ I (after steps).world (after steps).handles :=
  hbooks.foldl_ends hretains hcreate steps hsteps rfl hI

theorem Lasting.foldl {J : World → Prop} (hlasting : Lasting J)
    (hcreate : ∀ {w} engine config, J w → J (w.create engine config)) (steps : List Step)
    (hfixable : c.fixable = []) (hJ : J c.world) :
    (steps.foldl Step.run c).fixable = [] ∧ J (steps.foldl Step.run c).world :=
  hlasting.books.foldl_ends (P := fun _ => True) hlasting.retains
    (fun config _ hJ => hcreate _ config hJ) steps
    (fun step _ => by cases step <;> exact trivial) hfixable hJ

theorem Console.after_fixable (steps : List Step) : (after steps).fixable = [] :=
  (lasting_true.foldl (fun _ _ _ => trivial) steps rfl trivial).1

end Embedding

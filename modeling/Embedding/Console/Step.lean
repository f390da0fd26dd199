import Embedding.Console.Run

/-!
# Steps of a console

A console starts without sessions. It makes new ones in between the lines that it carries out.
-/

namespace Embedding.Console

inductive Step
  | create (engine : Engine) (config : Config)
  | line (line : Line)

def Step.run (c : Console) : Step → Console
  | .create engine config => { c with world := c.world.create engine config }
  | .line l => (l.run c).2

def after (steps : List Step) : Console := steps.foldl Step.run {}

end Embedding.Console

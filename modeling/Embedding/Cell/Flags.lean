/-!
# Flags of a scalar

The flags say which of its representations a scalar holds, and how to take them.
-/

namespace Embedding

structure Flags where
  int : Bool := false
  num : Bool := false
  text : Bool := false
  /-- The string is text. -/
  utf8 : Bool := false
  truth : Bool := false
  ref : Bool := false
  deriving DecidableEq

namespace Flags

def empty : Flags := {}

def all : Flags := ⟨true, true, true, true, true, true⟩

def inter (f g : Flags) : Flags :=
  ⟨f.int && g.int, f.num && g.num, f.text && g.text, f.utf8 && g.utf8, f.truth && g.truth,
    f.ref && g.ref⟩

def union (f g : Flags) : Flags :=
  ⟨f.int || g.int, f.num || g.num, f.text || g.text, f.utf8 || g.utf8, f.truth || g.truth,
    f.ref || g.ref⟩

def complement (f : Flags) : Flags := ⟨!f.int, !f.num, !f.text, !f.utf8, !f.truth, !f.ref⟩

def diff (f g : Flags) : Flags := f.inter g.complement

def contains (f g : Flags) : Bool := f.inter g = g

def isEmpty (f : Flags) : Bool := f = empty

def isNumeric (f : Flags) : Bool := f.int || f.num

end Flags

end Embedding

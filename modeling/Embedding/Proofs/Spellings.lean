import Embedding.Proofs.Globals

/-!
# Names on their way down

A host takes the sigil off a name and qualifies the rest, and the heap qualifies what it is asked for once
more. Native code asks the heap for the name as it is spelt. The main statement is that both mean the same
symbol, unless the name begins with two double colons: then each of the host and the heap takes one of them
off.
-/

namespace Embedding

open Heap Console
open HostM (holding)

namespace Name

def bare (name : String) : String := String.ofList (splitSigil name.toList).2

/-- Two double colons are in front of the symbol. -/
def Doubled (name : String) : Prop := "::::".toList <+: (splitSigil name.toList).2

variable {name : String} {cs : List Char}

theorem parseGlobal_snd (name : String) : (parseGlobal name).2 = qualify (bare name) := by
  rw [qualify, bare, String.toList_ofList]
  rfl

theorem bare_of_unmarked (hname : (splitSigil name.toList).1 = none) : bare name = name := by
  have hrest : (splitSigil name.toList).2 = name.toList := by
    generalize name.toList = cs at hname ⊢
    fun_cases splitSigil cs <;> first | rfl | cases hname
  rw [bare, hrest, String.ofList_toList]

theorem stripMain_eq_self_iff : stripMain cs = cs ↔ ¬ "::".toList <+: cs := by
  fun_cases stripMain cs with
  | case1 rest =>
    refine iff_of_false (fun e => ?_) fun hnot => hnot ⟨rest, rfl⟩
    have := congrArg List.length e
    simp only [List.length_cons] at this
    omega
  | case2 _ hother => exact iff_of_true rfl fun ⟨rest, e⟩ => hother rest e.symm

/-- A name is qualified for good, unless there still is a double colon in front of it. -/
theorem qualify_within_iff : qualify (within "main" cs) = within "main" cs ↔ ¬ "::".toList <+: cs := by
  refine ⟨fun hsame ⟨rest, hcs⟩ => ?_, fun hcs => qualify_within (stripMain_eq_self_iff.2 hcs)⟩
  subst hcs
  have hpackage : hasPackage ("::".toList ++ rest) = true := rfl
  have hstrip : stripMain ("::".toList ++ rest) = rest := rfl
  rw [within, if_pos hpackage, qualify, String.toList_ofList, hstrip] at hsame
  have hchars : (within "main" rest).toList = "::".toList ++ rest := by rw [hsame, String.toList_ofList]
  rw [within] at hchars
  split at hchars
  · rw [String.toList_ofList] at hchars
    have := congrArg List.length hchars
    rw [List.length_append] at this
    exact absurd this (by simp)
  · -- the qualified name begins with a letter
    rw [String.toList_append, String.toList_append] at hchars
    exact absurd (List.cons.inj hchars).1 (by decide)

theorem doubled_iff : Doubled name ↔ "::".toList <+: stripMain (splitSigil name.toList).2 := by
  rw [Doubled]
  generalize (splitSigil name.toList).2 = cs
  fun_cases stripMain cs with
  | case1 rest => exact ⟨fun ⟨r, e⟩ => ⟨r, by simpa using e⟩, fun ⟨r, e⟩ => ⟨r, by simpa using e⟩⟩
  | case2 _ hother =>
    exact iff_of_false (fun ⟨r, e⟩ => hother _ e.symm) fun ⟨r, e⟩ => hother r e.symm

/-- Qualifying a second time changes the names with two double colons in front, and no others. -/
theorem qualify_parseGlobal_iff (name : String) :
    qualify (parseGlobal name).2 = (parseGlobal name).2 ↔ ¬ Doubled name := by
  rw [doubled_iff]
  exact qualify_within_iff

theorem qualifyIn_of_hasPackage (package : String) (hname : hasPackage (splitSigil name.toList).2 = true) :
    qualifyIn package name = name := by
  have hjoined : ∀ cs, hasPackage (splitSigil cs).2 = true →
      qualifyIn package (String.ofList cs) = String.ofList cs := fun cs hcs => by
    simp only [qualifyIn, String.toList_ofList, within, if_pos hcs]
    fun_cases splitSigil cs <;> simp [sigil, String.ofList_cons]
  have := hjoined name.toList hname
  rwa [String.ofList_toList] at this

end Name

variable {name other : String} {s : SessionId} {slot : Slot} {h h' : Heap} {c : CellId}

/-! ## What is asked of the heap -/

theorem Heap.global_congr (hname : Name.qualify name = Name.qualify other) (slot : Slot) (create : Bool) :
    Heap.global slot name create = Heap.global slot other create := by
  unfold Heap.global
  rw [hname]

theorem Heap.qualify_eq_of_global
    (hsame : Heap.global .scalar name false = Heap.global .scalar other false) :
    Name.qualify name = Name.qualify other := by
  -- a heap where only the first of the two is there
  let content : Content := .scalar .undef
  let h : Heap := ({} : Heap).declare .scalar (Name.qualify name) content
  have hold : h.symbol? .scalar (Name.qualify name) = some (({} : Heap).allocate content).1 :=
    (symbol?_define ..).trans (if_pos ⟨rfl, rfl⟩)
  have hcell : h.cell? (({} : Heap).allocate content).1 = some ⟨1, none, content⟩ :=
    (cell?_allocate ..).trans (if_pos rfl)
  have hrun := (run_global_old false hold).trans (run_bind_ok (run_retain hcell))
  refine Decidable.byContradiction fun hne => ?_
  have hnew : h.symbol? .scalar (Name.qualify other) = none := by
    refine (symbol?_define ..).trans ((if_neg fun e => hne e.2).trans ?_)
    rfl
  rw [hsame, run_global_none hnew rfl] at hrun
  cases hrun

theorem Heap.symbol?_of_global {create : Bool} (hrun : (Heap.global slot name create).run h = (.ok (some c), h')) :
    h'.symbol? slot (Name.qualify name) = some c := by
  have hkept {g : Heap} {d : CellId} (hrun : (do retain d; return some d : HeapM _).run g = (.ok (some c), h'))
      (hd : g.symbol? slot (Name.qualify name) = some d) : h'.symbol? slot (Name.qualify name) = some c := by
    obtain ⟨_, g', hretain, hreturn⟩ := run_bind_eq_ok hrun
    cases hreturn
    have hsymbols := (retain_grows g c).symbols
    rw [hretain] at hsymbols
    rw [symbol?, hsymbols]
    exact hd
  cases hold : h.symbol? slot (Name.qualify name) with
  | some d => exact hkept ((run_global_old create hold).symm.trans hrun) hold
  | none =>
    cases hf : if create then Content.fresh? slot else none with
    | none =>
      rw [run_global_none hold hf] at hrun
      cases hrun
    | some content =>
      obtain rfl : create = true := by cases create <;> simp_all
      exact hkept ((run_global_new hold hf).symm.trans hrun) ((symbol?_define ..).trans (if_pos ⟨rfl, rfl⟩))

/-- The cell that native code has of a variable is the one that the heap has under the qualified name. -/
theorem Frame.symbol?_of_global {f f' : Frame} (hrun : (Frame.global name).run f = (.ok c, f')) :
    f'.heap.symbol? .scalar (Name.qualify name) = some c := by
  obtain ⟨o, f₁, hfound, hrun⟩ := run_bind_eq_ok hrun
  obtain ⟨r, f₂, hheap, hanswer⟩ := run_bind_eq_ok hfound
  rw [run_onHeap] at hheap
  cases hheap
  cases hglobal : ((Heap.global .scalar name true).run f.heap).1 with
  | error e =>
    rw [hglobal] at hanswer
    cases hanswer
  | ok a =>
    rw [hglobal] at hanswer
    cases hanswer
    cases o with
    | none => cases hrun
    | some d =>
      cases hrun
      exact Heap.symbol?_of_global (Prod.ext hglobal rfl)

/-! ## What the host asks for -/

theorem World.ask_global_congr (hname : Name.qualify name = Name.qualify other) (s : SessionId) (slot : Slot)
    (create : Bool) : World.ask s (.global slot name create) = World.ask s (.global slot other create) := by
  have hperform : Interpreter.perform (.global slot name create) =
      Interpreter.perform (.global slot other create) := by
    funext i
    obtain ⟨setup, heap⟩ := i
    cases heap with
    | none => rfl
    | some h =>
      dsimp only [Interpreter.perform, Heap.answer]
      rw [Heap.global_congr hname]
  have hengine : Engine.perform (.global slot name create) = Engine.perform (.global slot other create) := by
    unfold Engine.perform
    rw [hperform]
    rfl
  funext w
  rw [World.ask_eq, World.ask_eq, Session.ask, Session.ask, hengine]

theorem globalCell_congr (hname : Name.qualify name = Name.qualify other) (s : SessionId)
    (operation : String) (slot : Slot) (create : Bool) :
    globalCell s operation slot name create = globalCell s operation slot other create := by
  unfold globalCell cross crossWith HostM.ask
  dsimp only [Request.map]
  rw [World.ask_global_congr hname]

/-- The value of the symbol that the interpreter is asked for under the name. -/
def readSymbol (s : SessionId) (slot : Slot) (name : String) : HostM Value := do
  let cell ← globalCell s "get_global" slot name false
  match slot with
  | .scalar => Value.ofOption <$> takeValue? cell
  | .array => return Value.ofOption (cell.map fun h => .array ⟨h⟩)
  | .hash => return Value.ofOption (cell.map fun h => .hash ⟨h⟩)
  | .code => return Value.ofOption (cell.map fun h => .callable (.code h))

theorem readGlobal_eq (s : SessionId) (name : String) :
    readGlobal s name = readSymbol s (Name.parseGlobal name).1 (Name.parseGlobal name).2 := rfl

/-- The host and native code mean one symbol by a name: the heap leaves the host's name as it is, and the
host may as well ask for the name as it is spelt. -/
structure SpeltAlike (name : String) : Prop where
  fixed : Name.qualify (Name.parseGlobal name).2 = (Name.parseGlobal name).2
  asks : ∀ slot create, Heap.global slot (Name.parseGlobal name).2 create =
    Heap.global slot (Name.bare name) create
  reads : ∀ s, readGlobal s name = readSymbol s (Name.parseGlobal name).1 (Name.bare name)
  native : ∀ f c f', (Name.parseGlobal name).1 = .scalar →
    (Frame.global (Name.bare name)).run f = (.ok c, f') → f'.heap.named? name = some c

theorem speltAlike_of_not_doubled (hname : ¬ Name.Doubled name) : SpeltAlike name := by
  have hfixed := (Name.qualify_parseGlobal_iff name).2 hname
  have hsame : Name.qualify (Name.parseGlobal name).2 = Name.qualify (Name.bare name) :=
    hfixed.trans (Name.parseGlobal_snd name)
  refine ⟨hfixed, Heap.global_congr hsame, fun s => ?_, fun f c f' hslot hrun => ?_⟩
  · rw [readGlobal_eq, readSymbol, readSymbol, globalCell_congr hsame]
  · rw [named?, hslot, hsame]
    exact Frame.symbol?_of_global hrun

/-- A name is qualified in the same way by the host and by the heap. What the host asks the heap for is
qualified a second time there, which is the symbol that native code has under the name exactly if the name
has no two double colons in front. A name with a package is the same from inside every package. -/
theorem spelt_alike (name : String) :
    (Name.parseGlobal name).2 = Name.qualify (Name.bare name) ∧
      ((Name.splitSigil name.toList).1 = none → Name.bare name = name) ∧
      (SpeltAlike name ↔ ¬ Name.Doubled name) ∧
      (Heap.global .scalar (Name.parseGlobal name).2 false = Heap.global .scalar (Name.bare name) false ↔
        ¬ Name.Doubled name) ∧
      (∀ s w, (World.session w s).stage = .initialized →
        (SessionId.getGlobal s name).run w = (readGlobal s name).run w) ∧
      (Name.hasPackage (Name.splitSigil name.toList).2 = true →
        ∀ s package, Namespace.getVariable ⟨s, package⟩ name = readGlobal s name) := by
  refine ⟨Name.parseGlobal_snd name, Name.bare_of_unmarked,
    ⟨fun halike => (Name.qualify_parseGlobal_iff name).1 halike.fixed, speltAlike_of_not_doubled⟩,
    ⟨fun hsame => ?_, fun hname => (speltAlike_of_not_doubled hname).asks .scalar false⟩,
    fun s w hstage => ?_, fun hname s package => ?_⟩
  · rw [← Name.qualify_parseGlobal_iff, Heap.qualify_eq_of_global hsame, Name.parseGlobal_snd]
  · rw [SessionId.getGlobal, run_bind_ok (run_ensureReady hstage "get_global")]
  · rw [Namespace.getVariable, Name.qualifyIn_of_hasPackage package hname]

/-! ## Two double colons -/

/-- The sub `P::f` assigns 5 to a variable. -/
def emphatic : Setup :=
  Setup.preload {} {
    name := "P"
    subs := [("f", fun _ => do
      let five ← Proc.perform (.newInt 5)
      Proc.perform (.setGlobal "::::x" five)
      return [])] }

def emphaticConsole : Console := (run [
  { command := .session ⟨0⟩ .start },
  { command := .session ⟨0⟩ (.call "P::f" []) }] (.single emphatic)).2

/-- The host finds nothing under the name that a sub has just assigned to. -/
theorem spelt_apart :
    Name.parseGlobal "::::x" = (.scalar, "::x") ∧ Name.qualify "::x" = "main::x" ∧
      Name.qualify "::::x" = "::x" ∧
      ((emphaticConsole.world.session ⟨0⟩).engine.interpreter.heap.bind fun h =>
        (h.symbol? .scalar (Name.qualify "::::x")).map fun c => (h.toInt c).toOption) = some (some 5) ∧
      ((SessionId.getGlobal ⟨0⟩ "::::x").run emphaticConsole.world).1 = .ok .nothing := by
  have hread : ((SessionId.getGlobal ⟨0⟩ "::::x").run emphaticConsole.world).1.toOption.map
      Value.isNothing = some true := by decide +kernel
  obtain ⟨v, hv, hnothing⟩ := Option.map_eq_some_iff.1 hread
  have hv := eq_ok_of_toOption hv
  cases v with
  | nothing => exact ⟨by decide +kernel, by decide +kernel, by decide +kernel, by decide +kernel, hv⟩
  | _ => cases hnothing

end Embedding

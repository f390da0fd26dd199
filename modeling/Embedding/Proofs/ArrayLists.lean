import Embedding.Proofs.Console.Runs
import Embedding.Proofs.Host.Displays
import Embedding.Proofs.Host.Lists
import Mathlib.Data.List.Perm.Subperm

/-!
# Arrays are lists

A host works on an array of plain data through any number of views of it. No operation fails, and
each answers as it would on a list of values.
-/

namespace Embedding

open Heap

/-- What can be done to an array, or to a list. -/
inductive ListOp
  | get (i : Nat)
  | set (i : Nat) (v : Value)
  | push (v : Value)
  | pop
  | clear
  | length
  | isEmpty
  | toList

inductive ListAnswer
  | value (v : Value)
  | popped (v : Option Value)
  | done
  | length (n : Nat)
  | isEmpty (b : Bool)
  | list (vs : List Value)

def ListAnswer.handles : ListAnswer → List Handle
  | .value v => v.handles
  | .popped v => Value.handlesOfItems v.toList
  | .list vs => Value.handlesOfItems vs
  | .done | .length _ | .isEmpty _ => []

namespace ListOp

def onList : ListOp → List Value → ListAnswer × List Value
  | .get i, vs => (.value (vs[i]?.getD .nothing), vs)
  | .set i v, vs => (.done, Value.storeAt vs i v)
  | .push v, vs => (.done, vs ++ [v])
  | .pop, vs => (.popped vs.getLast?, vs.dropLast)
  | .clear, _ => (.done, [])
  | .length, vs => (.length vs.length, vs)
  | .isEmpty, vs => (.isEmpty (vs.length = 0), vs)
  | .toList, vs => (.list vs, vs)

def onArray (a : ArrayView) : ListOp → HostM ListAnswer
  | .get i => .value <$> a.get i
  | .set i v => (fun _ => .done) <$> a.set i v
  | .push v => (fun _ => .done) <$> a.push v
  | .pop => .popped <$> a.pop
  | .clear => (fun _ => .done) <$> a.clear
  | .length => .length <$> a.length
  | .isEmpty => (fun n => .isEmpty (n = 0)) <$> a.length
  | .toList => .list <$> a.toList

/-- The value that is stored, if one is, has no parts. -/
def StoresPlain : ListOp → Prop
  | .set _ v | .push v => v.scalar?.isSome
  | _ => True

instance : DecidablePred StoresPlain
  | .set _ v | .push v => inferInstanceAs (Decidable (v.scalar?.isSome = true))
  | .get _ | .pop | .clear | .length | .isEmpty | .toList => .isTrue trivial

def taken : ListOp → List Handle
  | .set _ v | .push v => v.handles
  | _ => []

end ListOp

/-- What a host does that works on an array. A further view of the array is a clone of one that it
has, or what it finds under a global name. -/
inductive ArrayDeed
  | op (o : ListOp)
  | clone
  | find (name : String)
  | release

/-- A host at work on an array, with the handles that it has. -/
structure ArrayWork where
  world : World
  handles : List Handle
  array : ArrayView

namespace ArrayWork

def act (t : ArrayWork) : ArrayDeed → List (Except HostError ListAnswer) × ArrayWork
  | .op o =>
    let (r, world) := (o.onArray t.array).run t.world
    ([r], { t with world, handles := hostStakes ListAnswer.handles r ++ t.handles.diff o.taken })
  | .clone =>
    ([], { t with world := t.world.clone t.array.cell, handles := t.array.cell :: t.handles })
  | .find name =>
    let (r, world) := (t.array.cell.session.getGlobal name).run t.world
    ([], { t with world, handles := hostStakes Value.handles r ++ t.handles })
  | .release =>
    ([], { t with world := t.world.release t.array.cell, handles := t.handles.erase t.array.cell })

def run (t : ArrayWork) (deeds : List ArrayDeed) : ArrayWork :=
  deeds.foldl (fun t deed => (t.act deed).2) t

def answers : ArrayWork → List ArrayDeed → List (Except HostError ListAnswer)
  | _, [] => []
  | t, deed :: deeds => (t.act deed).1 ++ answers (t.act deed).2 deeds

/-- The host stores plain data, and keeps a view of the array. -/
def Keeps (t : ArrayWork) : ArrayDeed → Prop
  | .op o => o.StoresPlain
  | .clone | .find _ => True
  | .release => t.array.cell ∈ t.handles.erase t.array.cell

def KeepsAll : ArrayWork → List ArrayDeed → Prop
  | _, [] => True
  | t, deed :: deeds => t.Keeps deed ∧ KeepsAll (t.act deed).2 deeds

instance (t : ArrayWork) : DecidablePred t.Keeps
  | .op o => inferInstanceAs (Decidable o.StoresPlain)
  | .clone | .find _ => .isTrue trivial
  | .release => inferInstanceAs (Decidable (_ ∈ _))

instance decidableKeepsAll : ∀ t deeds, Decidable (KeepsAll t deeds)
  | _, [] => .isTrue trivial
  | t, deed :: deeds =>
    have := decidableKeepsAll (t.act deed).2 deeds
    inferInstanceAs (Decidable (t.Keeps deed ∧ KeepsAll (t.act deed).2 deeds))

end ArrayWork

/-- The same operations on a list: the answers, and the list in the end. -/
def listAnswers : List Value → List ArrayDeed → List ListAnswer × List Value
  | vs, [] => ([], vs)
  | vs, .op o :: deeds =>
    let (answer, vs) := o.onList vs
    let (answers, vs) := listAnswers vs deeds
    (answer :: answers, vs)
  | vs, _ :: deeds => listAnswers vs deeds

def World.list? (w : World) (a : ArrayView) : Option (List Value) := do
  let h ← (w.session a.cell.session).engine.interpreter.heap
  (← (h.items a.cell.cell).toOption).toList.mapM h.reads?

variable {origin w : World} {a : ArrayView} {hs : List Handle} {h : Heap} {vs : List Value}

theorem mapM_eq_some_iff {α β : Type} {f : α → Option β} {as : List α} {bs : List β} :
    as.mapM f = some bs ↔ as.map f = bs.map some := by
  induction as generalizing bs with
  | nil => cases bs <;> simp
  | cons a as ih =>
    cases bs with
    | nil => cases ha : f a <;> cases hrest : as.mapM f <;> simp [ha, hrest]
    | cons b bs =>
      cases ha : f a <;> cases hrest : as.mapM f <;> simp_all [← ih]

/-- The host has come to a world in which the session of the array runs, and holds the array, which
shows the list. -/
structure Shows (origin : World) (a : ArrayView) (w : World) (hs : List Handle) (h : Heap)
    (vs : List Value) : Prop where
  arrived : Arrived origin a.cell.session w hs h
  mem : a.cell ∈ hs
  lists : h.Lists a.cell.cell vs

theorem Value.handles_of_scalar? {v : Value} (hv : v.scalar?.isSome) : v.handles = [] := by
  obtain ⟨x, hx⟩ := Option.isSome_iff_exists.mp hv
  exact Scalar.plain?_handles (Value.plain?_scalar hx)

theorem ListOp.taken_eq_nil {o : ListOp} (ho : o.StoresPlain) : o.taken = [] := by
  cases o with
  | set i v => exact Value.handles_of_scalar? ho
  | push v => exact Value.handles_of_scalar? ho
  | _ => rfl

theorem ListOp.accounts {I : World → List Handle → Prop} (hdealing : Trade I) (a : ArrayView)
    (o : ListOp) : Accounts I [a.cell] (o.onArray a) o.taken ListAnswer.handles := by
  cases o with
  | get i => exact (hdealing.accounts_arrayGet a i).map fun _ => rfl
  | set i v => exact (hdealing.accounts_arraySet a i v).map fun _ => rfl
  | push v => exact (hdealing.accounts_arrayPush a v).map fun _ => rfl
  | pop => exact (hdealing.accounts_arrayPop a).map fun _ => rfl
  | clear => exact (hdealing.accounts_arrayClear a).map fun _ => rfl
  | length => exact (hdealing.accounts_arrayLength a).map fun _ => rfl
  | isEmpty => exact (hdealing.accounts_arrayLength a).map fun _ => rfl
  | toList => exact (hdealing.accounts_arrayToList a).map fun _ => rfl

theorem Shows.displays (hh : Shows origin a w hs h vs) :
    Displays (·.Lists a.cell.cell vs) origin a.cell w hs h := ⟨hh.arrived, hh.mem, hh.lists⟩

theorem Displays.shows (hh : Displays (·.Lists a.cell.cell vs) origin a.cell w hs h) :
    Shows origin a w hs h vs := ⟨hh.arrived, hh.mem, hh.shown⟩

theorem abiding_lists (a : CellId) (vs : List Value) : Heap.Abiding a (·.Lists a vs) :=
  fun _ _ _ hl hf hs hlive => hl.firm hf hs hlive fun _ _ _ => id

section
variable (hfresh : origin.Fresh)
include hfresh

theorem Shows.run_onArray (hh : Shows origin a w hs h vs) {o : ListOp} (ho : o.StoresPlain) :
    ∃ h', (o.onArray a).run w = (.ok (o.onList vs).1, w.put a.cell.session h' 0) ∧
      h'.Lists a.cell.cell (o.onList vs).2 := by
  obtain ⟨⟨s, c⟩⟩ := a
  have hk := hh.arrived.keptOn hfresh hh.mem rfl
  obtain ⟨⟨lost, hsound⟩, hq, -⟩ := hh.arrived.good hfresh hh.mem rfl
  have hc : c ∈ lost ++ cellsOf s hs := List.mem_append_right _ (mem_cellsOf hh.mem)
  have hself : w.put s h 0 = w := hh.arrived.runs.put_self
  have hl := hh.lists
  cases o with
  | get i =>
    obtain ⟨h', hrun, hf, hs'⟩ := run_plainGet hk (n := 0) hq hsound hl i
    rw [hself] at hrun
    exact ⟨h', run_map_ok _ hrun, hl.unchanged hf hs' (hs'.isLive hc)⟩
  | set i v =>
    obtain ⟨x, hx⟩ := Option.isSome_iff_exists.mp ho
    obtain ⟨h', hrun, hs', hl'⟩ := run_plainSet hk (n := 0) hq hsound hc hl hx i
    rw [hself] at hrun
    exact ⟨h', run_map_ok _ hrun, hl'⟩
  | push v =>
    obtain ⟨x, hx⟩ := Option.isSome_iff_exists.mp ho
    obtain ⟨h', hrun, hs', hl'⟩ := run_plainPush hk (n := 0) hq hsound hc hl hx
    rw [hself] at hrun
    exact ⟨h', run_map_ok _ hrun, hl'⟩
  | pop =>
    obtain ⟨h', hrun, hs', hl'⟩ := run_plainPop hk (n := 0) hq hsound hc hl
    rw [hself] at hrun
    exact ⟨h', run_map_ok _ hrun, hl'⟩
  | clear =>
    obtain ⟨h', hrun, hs', hl'⟩ := run_plainClear hk (n := 0) hq hsound hc hl
    rw [hself] at hrun
    exact ⟨h', run_map_ok _ hrun, hl'⟩
  | length =>
    have hrun := run_plainLength hk (n := 0) hq hl
    rw [hself] at hrun
    exact ⟨h, hself.symm ▸ run_map_ok _ hrun, hl⟩
  | isEmpty =>
    have hrun := run_plainLength hk (n := 0) hq hl
    rw [hself] at hrun
    exact ⟨h, hself.symm ▸ run_map_ok _ hrun, hl⟩
  | toList =>
    obtain ⟨h', hrun, hf, hs'⟩ := run_plainToList hk (n := 0) hq hsound hc hl
    rw [hself] at hrun
    exact ⟨h', run_map_ok _ hrun, hl.unchanged hf hs' (hs'.isLive hc)⟩

end

/-! ## Deeds -/

section
variable {t : ArrayWork} {deeds : List ArrayDeed}

theorem ArrayWork.step_act (hfresh : origin.Fresh) (hh : Shows origin t.array t.world t.handles h vs)
    {deed : ArrayDeed} (hkeeps : t.Keeps deed) :
    (t.act deed).2.array = t.array ∧
      (t.act deed).1 = (listAnswers vs [deed]).1.map .ok ∧
      ∃ h', Shows origin t.array (t.act deed).2.world (t.act deed).2.handles h'
        (listAnswers vs [deed]).2 := by
  cases deed with
  | op o =>
    obtain ⟨h', hrun, hl⟩ := hh.run_onArray hfresh hkeeps
    have htaken := o.taken_eq_nil hkeeps
    have hh' := (hh.displays.after (fun hdealing => htaken ▸ o.accounts hdealing t.array) hrun hl).shows
    refine ⟨rfl, ?_, h', ?_⟩
    · simp only [ArrayWork.act, hrun]
      rfl
    · simp only [ArrayWork.act, hrun, htaken, List.diff_nil]
      exact hh'
  | clone =>
    obtain ⟨h', hh'⟩ := Displays.clone hfresh (abiding_lists _ vs) hh.displays
    exact ⟨rfl, rfl, h', hh'.shows⟩
  | find name =>
    obtain ⟨h', hh'⟩ := Displays.find hfresh (abiding_lists _ vs) hh.displays name
    exact ⟨rfl, rfl, h', hh'.shows⟩
  | release =>
    have hh₁ := hh.displays.perm (List.perm_cons_erase hh.mem)
    obtain ⟨h', hh'⟩ := Displays.release hfresh (abiding_lists _ vs) hh₁ hkeeps
    exact ⟨rfl, rfl, h', hh'.shows⟩

theorem listAnswers_cons (vs : List Value) (deed : ArrayDeed) (deeds : List ArrayDeed) :
    listAnswers vs (deed :: deeds) =
      ((listAnswers vs [deed]).1 ++ (listAnswers (listAnswers vs [deed]).2 deeds).1,
        (listAnswers (listAnswers vs [deed]).2 deeds).2) := by
  cases deed <;> rfl

/-- Over all deeds the array answers as the list does, and shows it in the end. -/
theorem Shows.run (hfresh : origin.Fresh) (hh : Shows origin t.array t.world t.handles h vs)
    (hkeeps : t.KeepsAll deeds) :
    t.answers deeds = (listAnswers vs deeds).1.map .ok ∧
      ∃ h', Shows origin t.array (t.run deeds).world (t.run deeds).handles h'
        (listAnswers vs deeds).2 := by
  induction deeds generalizing t h vs with
  | nil => exact ⟨rfl, h, hh⟩
  | cons deed deeds ih =>
    obtain ⟨harray, hanswer, h₁, hh₁⟩ := ArrayWork.step_act hfresh hh hkeeps.1
    rw [← harray] at hh₁
    obtain ⟨hanswers, h', hh'⟩ := ih hh₁ hkeeps.2
    rw [harray] at hh'
    rw [listAnswers_cons]
    refine ⟨?_, h', hh'⟩
    rw [ArrayWork.answers, hanswer, hanswers, List.map_append]

theorem Shows.list? (hh : Shows origin a w hs h vs) : w.list? a = some vs := by
  obtain ⟨items, hitems, hmap⟩ := hh.lists
  rw [World.list?, hh.arrived.runs.engine]
  change (do (← (h.items a.cell.cell).toOption).toList.mapM h.reads?) = some vs
  rw [hitems]
  exact mapM_eq_some_iff.mpr hmap

theorem Shows.of_list? (hfresh : origin.Fresh) (hreach : Reached origin w hs) (hmem : a.cell ∈ hs)
    (hstage : (w.session a.cell.session).stage = .initialized) (hlist : w.list? a = some vs) :
    ∃ h, Shows origin a w hs h vs := by
  obtain ⟨h, hr, -⟩ := (hreach.leaky hfresh).runsOn hstage
  refine ⟨h, ⟨hreach, hr⟩, hmem, ?_⟩
  rw [World.list?, hr.engine] at hlist
  change (do (← (h.items a.cell.cell).toOption).toList.mapM h.reads?) = some vs at hlist
  cases hitems : h.items a.cell.cell with
  | error e => rw [hitems] at hlist; cases hlist
  | ok items =>
    rw [hitems] at hlist
    exact ⟨items, hitems, mapM_eq_some_iff.mp hlist⟩

/-- Whatever a host does to an array of plain data, through any of its views of it, no operation
fails, each answers as on the list that the array showed at first, and in the end the array shows
what the list has become. -/
theorem array_is_list (hfresh : origin.Fresh) (hreach : Reached origin t.world t.handles)
    (hmem : t.array.cell ∈ t.handles)
    (hstage : (t.world.session t.array.cell.session).stage = .initialized)
    (hlist : t.world.list? t.array = some vs) (hkeeps : t.KeepsAll deeds) :
    t.answers deeds = (listAnswers vs deeds).1.map .ok ∧
      (t.run deeds).world.list? t.array = some (listAnswers vs deeds).2 := by
  obtain ⟨h, hh⟩ := Shows.of_list? hfresh hreach hmem hstage hlist
  obtain ⟨hanswers, h', hh'⟩ := hh.run hfresh hkeeps
  exact ⟨hanswers, hh'.list?⟩

end

open Console

theorem eq_map_int {vs : List Value} {ns : List Int64} (hvs : vs.map Value.int? = ns.map some) :
    vs = ns.map .int := by
  induction ns generalizing vs with
  | nil => exact List.map_eq_nil_iff.mp hvs
  | cons n ns ih =>
    obtain ⟨v, vs, rfl, hv, hvs⟩ := List.map_eq_cons_iff.mp hvs
    rw [List.map_cons, ← ih hvs]
    cases v <;> cases hv
    rfl

def couple : List Line :=
  [{ command := .session ⟨0⟩ (.newArray [.int 1, .int 2]), into := some "a" }]

def Console.arrayWork (c : Console) (array : ArrayView) : ArrayWork := ⟨c.world, c.handles, array⟩

theorem Reached.arrayWork {c : Console} (hreach : Reached origin c.world c.handles)
    (array : ArrayView) : Reached origin (c.arrayWork array).world (c.arrayWork array).handles :=
  hreach

def coupleWork : ArrayWork := (run couple (.single {})).2.arrayWork ⟨⟨⟨0⟩, ⟨5⟩⟩⟩

/-- A store past the end while a second view of the array is there. -/
def stretching : List ArrayDeed :=
  [.op (.get 7), .clone, .op (.set 3 (.int 9)), .find "@b", .release, .op .pop, .op .length]

theorem array_is_list_stretching :
    coupleWork.answers stretching =
      [.ok (.value .nothing), .ok .done, .ok (.popped (some (.int 9))), .ok (.length 3)] ∧
    (coupleWork.run stretching).world.list? coupleWork.array =
      some [.int 1, .int 2, .nothing] := by
  have hints : (coupleWork.world.list? coupleWork.array).map (·.map Value.int?) =
      some [some 1, some 2] := by decide +kernel
  obtain ⟨vs, hlist, hvs⟩ := Option.map_eq_some_iff.mp hints
  have hvs : vs = [1, 2].map .int := eq_map_int hvs
  rw [hvs] at hlist
  have hlists := array_is_list (t := coupleWork) (fresh_single {}).world
    ((reached_run (fresh_single {}) couple).arrayWork _) (by decide +kernel) (by decide +kernel)
    hlist (show coupleWork.KeepsAll stretching by decide +kernel)
  have hlist : listAnswers ([1, 2].map Value.int) stretching =
      ([.value .nothing, .done, .popped (some (.int 9)), .length 3],
        [.int 1, .int 2, .nothing]) := rfl
  rw [hlist] at hlists
  exact hlists

end Embedding

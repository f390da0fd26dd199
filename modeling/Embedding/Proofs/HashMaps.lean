import Embedding.Proofs.Console.Runs
import Embedding.Proofs.Host.Displays
import Embedding.Proofs.Host.Maps
import Mathlib.Data.List.Perm.Subperm

/-!
# Hashes are dictionaries

A host works on a hash of plain data through any number of views of it. No operation fails, and each
answers as it would on a dictionary that keeps its entries in the order in which their keys arrived.
-/

namespace Embedding

open Heap

/-- What can be done to a hash, or to a dictionary. -/
inductive DictOp
  | get (key : String)
  | set (key : String) (v : Value)
  | delete (key : String)
  | contains (key : String)
  | clear
  | length
  | isEmpty
  | keys
  | toDict

inductive DictAnswer
  | value (v : Value)
  | deleted (v : Option Value)
  | done
  | contains (b : Bool)
  | length (n : Nat)
  | isEmpty (b : Bool)
  | keys (keys : List String)
  | dict (d : Dict Value)

def DictAnswer.handles : DictAnswer → List Handle
  | .value v => v.handles
  | .deleted v => Value.handlesOfItems v.toList
  | .dict d => Value.handlesOfEntries d
  | .done | .contains _ | .length _ | .isEmpty _ | .keys _ => []

namespace DictOp

def onDict : DictOp → Dict Value → DictAnswer × Dict Value
  | .get key, d => (.value ((d.get? key).getD .nothing), d)
  | .set key v, d => (.done, d.insert key v)
  | .delete key, d => (.deleted (d.get? key), d.erase key)
  | .contains key, d => (.contains (d.contains key), d)
  | .clear, _ => (.done, [])
  | .length, d => (.length d.length, d)
  | .isEmpty, d => (.isEmpty (d.length = 0), d)
  | .keys, d => (.keys d.keys, d)
  | .toDict, d => (.dict d, d)

def onHash (hash : HashView) : DictOp → HostM DictAnswer
  | .get key => .value <$> hash.get key
  | .set key v => (fun _ => .done) <$> hash.set key v
  | .delete key => .deleted <$> hash.delete key
  | .contains key => .contains <$> hash.contains key
  | .clear => (fun _ => .done) <$> hash.clear
  | .length => .length <$> hash.length
  | .isEmpty => (fun n => .isEmpty (n = 0)) <$> hash.length
  | .keys => .keys <$> hash.keys
  | .toDict => .dict <$> hash.toDict

def StoresPlain : DictOp → Prop
  | .set _ v => v.scalar?.isSome
  | _ => True

instance : DecidablePred StoresPlain
  | .set _ v => inferInstanceAs (Decidable (v.scalar?.isSome = true))
  | .get _ | .delete _ | .contains _ | .clear | .length | .isEmpty | .keys | .toDict => .isTrue trivial

def taken : DictOp → List Handle
  | .set _ v => v.handles
  | _ => []

end DictOp

/-- What a host does that works on a hash. A further view of the hash is a clone of one that it has, or
what it finds under a global name. -/
inductive HashDeed
  | op (o : DictOp)
  | clone
  | find (name : String)
  | release

/-- A host at work on a hash, with the handles that it has. -/
structure HashWork where
  world : World
  handles : List Handle
  hash : HashView

namespace HashWork

def act (t : HashWork) : HashDeed → List (Except HostError DictAnswer) × HashWork
  | .op o =>
    let (r, world) := (o.onHash t.hash).run t.world
    ([r], { t with world, handles := hostStakes DictAnswer.handles r ++ t.handles.diff o.taken })
  | .clone => ([], { t with world := t.world.clone t.hash.cell, handles := t.hash.cell :: t.handles })
  | .find name =>
    let (r, world) := (t.hash.cell.session.getGlobal name).run t.world
    ([], { t with world, handles := hostStakes Value.handles r ++ t.handles })
  | .release =>
    ([], { t with world := t.world.release t.hash.cell, handles := t.handles.erase t.hash.cell })

def run (t : HashWork) (deeds : List HashDeed) : HashWork :=
  deeds.foldl (fun t deed => (t.act deed).2) t

def answers : HashWork → List HashDeed → List (Except HostError DictAnswer)
  | _, [] => []
  | t, deed :: deeds => (t.act deed).1 ++ answers (t.act deed).2 deeds

/-- The host stores plain data, and keeps a view of the hash. -/
def Keeps (t : HashWork) : HashDeed → Prop
  | .op o => o.StoresPlain
  | .clone | .find _ => True
  | .release => t.hash.cell ∈ t.handles.erase t.hash.cell

def KeepsAll : HashWork → List HashDeed → Prop
  | _, [] => True
  | t, deed :: deeds => t.Keeps deed ∧ KeepsAll (t.act deed).2 deeds

instance (t : HashWork) : DecidablePred t.Keeps
  | .op o => inferInstanceAs (Decidable o.StoresPlain)
  | .clone | .find _ => .isTrue trivial
  | .release => inferInstanceAs (Decidable (_ ∈ _))

instance decidableKeepsAll : ∀ t deeds, Decidable (KeepsAll t deeds)
  | _, [] => .isTrue trivial
  | t, deed :: deeds =>
    have := decidableKeepsAll (t.act deed).2 deeds
    inferInstanceAs (Decidable (t.Keeps deed ∧ KeepsAll (t.act deed).2 deeds))

end HashWork

/-- The same operations on a dictionary: the answers, and the dictionary in the end. -/
def dictAnswers : Dict Value → List HashDeed → List DictAnswer × Dict Value
  | d, [] => ([], d)
  | d, .op o :: deeds =>
    let (answer, d) := o.onDict d
    let (answers, d) := dictAnswers d deeds
    (answer :: answers, d)
  | d, _ :: deeds => dictAnswers d deeds

def World.dict? (w : World) (hash : HashView) : Option (Dict Value) := do
  let h ← (w.session hash.cell.session).engine.interpreter.heap
  (← (h.entries hash.cell.cell).toOption).mapM fun p => (h.reads? p.2).map (p.1, ·)

variable {origin w : World} {hash : HashView} {hs : List Handle} {h : Heap} {d : Dict Value}

theorem mapM_eq_some_iff_mapValues {α β : Type} {f : α → Option β} {as : Dict α} {bs : Dict β} :
    as.mapM (fun p => (f p.2).map (p.1, ·)) = some bs ↔ as.mapValues f = bs.mapValues some := by
  induction as generalizing bs with
  | nil => cases bs <;> simp [Dict.mapValues]
  | cons p as ih =>
    obtain ⟨key, a⟩ := p
    cases bs with
    | nil => cases ha : f a <;> cases hrest : as.mapM fun p => (f p.2).map (p.1, ·) <;>
        simp [ha, hrest, Dict.mapValues]
    | cons q bs =>
      obtain ⟨key', b⟩ := q
      have ih := @ih bs
      simp only [Dict.mapValues] at ih
      cases ha : f a <;> cases hrest : as.mapM fun p => (f p.2).map (p.1, ·) <;>
        simp_all [Dict.mapValues]

/-- The host has come to a world in which the session of the hash runs, and holds the hash, which
shows the dictionary. -/
abbrev ShowsDict (origin : World) (hash : HashView) (w : World) (hs : List Handle) (h : Heap)
    (d : Dict Value) : Prop := Displays (·.Maps hash.cell.cell d) origin hash.cell w hs h

theorem abiding_maps (a : CellId) (d : Dict Value) : Heap.Abiding a (·.Maps a d) :=
  fun _ _ _ hm hf hs hlive => hm.firm hf hs hlive

theorem DictOp.taken_eq_nil {o : DictOp} (ho : o.StoresPlain) : o.taken = [] := by
  cases o with
  | set key v =>
    obtain ⟨x, hx⟩ := Option.isSome_iff_exists.mp ho
    exact Scalar.plain?_handles (Value.plain?_scalar hx)
  | _ => rfl

theorem DictOp.accounts {I : World → List Handle → Prop} (hdealing : Trade I) (hash : HashView)
    (o : DictOp) : Accounts I [hash.cell] (o.onHash hash) o.taken DictAnswer.handles := by
  cases o with
  | get key => exact (hdealing.accounts_hashGet hash key).map fun _ => rfl
  | set key v => exact (hdealing.accounts_hashSet hash key v).map fun _ => rfl
  | delete key => exact (hdealing.accounts_hashDelete hash key).map fun _ => rfl
  | contains key =>
    have hcontains : Accounts I [hash.cell] (hash.contains key) [] fun _ => [] :=
      hdealing.on (.hashContains hash.cell key) rfl rfl
    exact hcontains.map fun _ => rfl
  | clear =>
    have hclear : Accounts I [hash.cell] hash.clear [] fun _ => [] :=
      hdealing.upon (.hashClear hash.cell) rfl rfl
    exact hclear.map fun _ => rfl
  | length =>
    have hlength : Accounts I [hash.cell] hash.length [] fun _ => [] :=
      hdealing.on (.hashLength hash.cell) rfl rfl
    exact hlength.map fun _ => rfl
  | isEmpty =>
    have hlength : Accounts I [hash.cell] hash.length [] fun _ => [] :=
      hdealing.on (.hashLength hash.cell) rfl rfl
    exact hlength.map fun _ => rfl
  | keys => exact (hdealing.accounts_hashKeys hash).map fun _ => rfl
  | toDict => exact (hdealing.accounts_hashToDict hash).map fun _ => rfl

theorem ShowsDict.run_onHash (hfresh : origin.Fresh) (hh : ShowsDict origin hash w hs h d)
    {o : DictOp} (ho : o.StoresPlain) :
    ∃ h', (o.onHash hash).run w = (.ok (o.onDict d).1, w.put hash.cell.session h' 0) ∧
      h'.Maps hash.cell.cell (o.onDict d).2 := by
  obtain ⟨⟨s, c⟩⟩ := hash
  have hk := hh.arrived.keptOn hfresh hh.mem rfl
  obtain ⟨⟨lost, hsound⟩, hq, hkeyed⟩ := hh.arrived.good hfresh hh.mem rfl
  have hc : c ∈ lost ++ cellsOf s hs := List.mem_append_right _ (mem_cellsOf hh.mem)
  have hself : w.put s h 0 = w := hh.arrived.runs.put_self
  obtain ⟨i, hm⟩ := hh.shown
  cases o with
  | get key =>
    obtain ⟨h', hrun, -, hm'⟩ := run_hashGet_plain hk (n := 0) hq hsound hc hm key
    rw [hself] at hrun
    exact ⟨h', run_map_ok _ hrun, hm'.maps⟩
  | set key v =>
    obtain ⟨x, hx⟩ := Option.isSome_iff_exists.mp ho
    obtain ⟨h', hrun, -, hm'⟩ := run_hashSet_plain hk (n := 0) hq hsound hc hm hx key
    rw [hself] at hrun
    exact ⟨h', run_map_ok _ hrun, hm'.maps⟩
  | delete key =>
    obtain ⟨h', hrun, -, hm'⟩ := run_hashDelete_plain hk (n := 0) hq hsound hc hm key
    rw [hself] at hrun
    exact ⟨h', run_map_ok _ hrun, hm'.maps⟩
  | contains key =>
    have hrun := run_hashContains_plain hk (n := 0) hq hm key
    rw [hself] at hrun
    exact ⟨h, hself.symm ▸ run_map_ok _ hrun, hm.maps⟩
  | clear =>
    obtain ⟨h', hrun, -, hm'⟩ := run_hashClear_plain hk (n := 0) hq hsound hc hm
    rw [hself] at hrun
    exact ⟨h', run_map_ok _ hrun, hm'.maps⟩
  | length =>
    have hrun := run_hashLength_plain hk (n := 0) hq hm
    rw [hself] at hrun
    exact ⟨h, hself.symm ▸ run_map_ok _ hrun, hm.maps⟩
  | isEmpty =>
    have hrun := run_hashLength_plain hk (n := 0) hq hm
    rw [hself] at hrun
    exact ⟨h, hself.symm ▸ run_map_ok _ hrun, hm.maps⟩
  | keys =>
    obtain ⟨h', hrun, -, hm'⟩ := run_hashKeys_plain hk (n := 0) hq hsound hc hm
    rw [hself] at hrun
    exact ⟨h', run_map_ok _ hrun, hm'⟩
  | toDict =>
    obtain ⟨h', hrun, -, hm'⟩ := run_hashToDict_plain hk (n := 0) hq hsound hc hm (hm.nodup hkeyed)
    rw [hself] at hrun
    exact ⟨h', run_map_ok _ hrun, hm'⟩

/-! ## Deeds -/

section
variable {t : HashWork} {deeds : List HashDeed}

theorem HashWork.step_act (hfresh : origin.Fresh) (hh : ShowsDict origin t.hash t.world t.handles h d)
    {deed : HashDeed} (hkeeps : t.Keeps deed) :
    (t.act deed).2.hash = t.hash ∧ (t.act deed).1 = (dictAnswers d [deed]).1.map .ok ∧
      ∃ h', ShowsDict origin t.hash (t.act deed).2.world (t.act deed).2.handles h'
        (dictAnswers d [deed]).2 := by
  have habiding := abiding_maps t.hash.cell.cell d
  cases deed with
  | op o =>
    obtain ⟨h', hrun, hm⟩ := hh.run_onHash hfresh hkeeps
    have htaken := o.taken_eq_nil hkeeps
    have hh' := hh.after (Q := (·.Maps t.hash.cell.cell (o.onDict d).2))
      (fun hdealing => htaken ▸ o.accounts hdealing t.hash) hrun hm
    refine ⟨rfl, ?_, h', ?_⟩
    · simp only [HashWork.act, hrun]
      rfl
    · simp only [HashWork.act, hrun, htaken, List.diff_nil]
      exact hh'
  | clone =>
    obtain ⟨h', hh'⟩ := Displays.clone hfresh habiding hh
    exact ⟨rfl, rfl, h', hh'⟩
  | find name =>
    obtain ⟨h', hh'⟩ := Displays.find hfresh habiding hh name
    exact ⟨rfl, rfl, h', hh'⟩
  | release =>
    have hh₁ := hh.perm (List.perm_cons_erase hh.mem)
    obtain ⟨h', hh'⟩ := Displays.release hfresh habiding hh₁ hkeeps
    exact ⟨rfl, rfl, h', hh'⟩

theorem dictAnswers_cons (d : Dict Value) (deed : HashDeed) (deeds : List HashDeed) :
    dictAnswers d (deed :: deeds) =
      ((dictAnswers d [deed]).1 ++ (dictAnswers (dictAnswers d [deed]).2 deeds).1,
        (dictAnswers (dictAnswers d [deed]).2 deeds).2) := by
  cases deed <;> rfl

/-- Over all deeds the hash answers as the dictionary does, and shows it in the end. -/
theorem ShowsDict.run (hfresh : origin.Fresh) (hh : ShowsDict origin t.hash t.world t.handles h d)
    (hkeeps : t.KeepsAll deeds) :
    t.answers deeds = (dictAnswers d deeds).1.map .ok ∧
      ∃ h', ShowsDict origin t.hash (t.run deeds).world (t.run deeds).handles h'
        (dictAnswers d deeds).2 := by
  induction deeds generalizing t h d with
  | nil => exact ⟨rfl, h, hh⟩
  | cons deed deeds ih =>
    obtain ⟨hhash, hanswer, h₁, hh₁⟩ := HashWork.step_act hfresh hh hkeeps.1
    rw [← hhash] at hh₁
    obtain ⟨hanswers, h', hh'⟩ := ih hh₁ hkeeps.2
    rw [hhash] at hh'
    rw [dictAnswers_cons]
    refine ⟨?_, h', hh'⟩
    rw [HashWork.answers, hanswer, hanswers, List.map_append]

theorem ShowsDict.dict? (hh : ShowsDict origin hash w hs h d) : w.dict? hash = some d := by
  obtain ⟨i, entries, hhash, hmap⟩ := hh.shown
  rw [World.dict?, hh.arrived.runs.engine]
  change (do (← (h.entries hash.cell.cell).toOption).mapM fun p => (h.reads? p.2).map (p.1, ·)) = some d
  rw [entries_ok hhash]
  exact mapM_eq_some_iff_mapValues.mpr hmap

theorem ShowsDict.of_dict? (hfresh : origin.Fresh) (hreach : Reached origin w hs)
    (hmem : hash.cell ∈ hs) (hstage : (w.session hash.cell.session).stage = .initialized)
    (hdict : w.dict? hash = some d) : ∃ h, ShowsDict origin hash w hs h d := by
  obtain ⟨h, hr, -⟩ := (hreach.leaky hfresh).runsOn hstage
  refine ⟨h, ⟨hreach, hr⟩, hmem, ?_⟩
  rw [World.dict?, hr.engine] at hdict
  change (do (← (h.entries hash.cell.cell).toOption).mapM fun p => (h.reads? p.2).map (p.1, ·)) =
    some d at hdict
  cases hhash : h.hash hash.cell.cell with
  | error e =>
    rw [Heap.entries, hhash] at hdict
    cases hdict
  | ok p =>
    rw [entries_ok hhash] at hdict
    exact ⟨p.2, p.1, hhash, mapM_eq_some_iff_mapValues.mp hdict⟩

/-- Whatever a host does to a hash of plain data, through any of its views of it, no operation fails,
each answers as on the dictionary that the hash showed at first, and in the end the hash shows what the
dictionary has become. Where the iteration of the hash was does not matter. -/
theorem hash_is_dict (hfresh : origin.Fresh) (hreach : Reached origin t.world t.handles)
    (hmem : t.hash.cell ∈ t.handles)
    (hstage : (t.world.session t.hash.cell.session).stage = .initialized)
    (hdict : t.world.dict? t.hash = some d) (hkeeps : t.KeepsAll deeds) :
    t.answers deeds = (dictAnswers d deeds).1.map .ok ∧
      (t.run deeds).world.dict? t.hash = some (dictAnswers d deeds).2 := by
  obtain ⟨h, hh⟩ := ShowsDict.of_dict? hfresh hreach hmem hstage hdict
  obtain ⟨hanswers, h', hh'⟩ := hh.run hfresh hkeeps
  exact ⟨hanswers, hh'.dict?⟩

end

open Console

theorem eq_mapValues_int {d : Dict Value} {ns : Dict Int64}
    (hd : d.mapValues Value.int? = ns.mapValues some) : d = ns.mapValues .int := by
  induction ns generalizing d with
  | nil => exact List.map_eq_nil_iff.mp hd
  | cons p ns ih =>
    obtain ⟨⟨key, v⟩, rest, rfl, hv, hrest⟩ := List.map_eq_cons_iff.mp hd
    rw [ih hrest]
    cases v <;> cases hv
    rfl

def trodden : List Line := [
  { command := .session ⟨0⟩ (.newHash [("a", .int 1), ("b", .int 2)]), into := some "h" },
  { command := .hash "h" .cursor, into := some "c" },
  { command := .next "c" }]

def Console.hashWork (c : Console) (hash : HashView) : HashWork := ⟨c.world, c.handles, hash⟩

theorem Reached.hashWork {c : Console} (hreach : Reached origin c.world c.handles) (hash : HashView) :
    Reached origin (c.hashWork hash).world (c.hashWork hash).handles := hreach

def troddenWork : HashWork := (run trodden (.single {})).2.hashWork ⟨⟨⟨0⟩, ⟨5⟩⟩⟩

/-- A key keeps its place when it is stored again, and comes last when it was deleted before. -/
def reordering : List HashDeed :=
  [.op (.set "a" (.int 3)), .clone, .op (.delete "b"), .find "%x", .op (.set "b" .nothing), .release,
    .op .keys, .op (.get "c"), .op .length]

theorem hash_is_dict_reordering :
    troddenWork.answers reordering =
      [.ok .done, .ok (.deleted (some (.int 2))), .ok .done, .ok (.keys ["a", "b"]),
        .ok (.value .nothing), .ok (.length 2)] ∧
    (troddenWork.run reordering).world.dict? troddenWork.hash =
      some [("a", .int 3), ("b", .nothing)] := by
  have hints : (troddenWork.world.dict? troddenWork.hash).map (·.mapValues Value.int?) =
      some [("a", some 1), ("b", some 2)] := by decide +kernel
  obtain ⟨d, hdict, hd⟩ := Option.map_eq_some_iff.mp hints
  have hd : d = Dict.mapValues .int [("a", 1), ("b", 2)] := eq_mapValues_int hd
  rw [hd] at hdict
  have hdicts := hash_is_dict (t := troddenWork) (fresh_single {}).world
    ((reached_run (fresh_single {}) trodden).hashWork _) (by decide +kernel) (by decide +kernel)
    hdict (show troddenWork.KeepsAll reordering by decide +kernel)
  have hanswers : dictAnswers (Dict.mapValues Value.int [("a", 1), ("b", 2)]) reordering =
      ([.done, .deleted (some (.int 2)), .done, .keys ["a", "b"], .value .nothing, .length 2],
        [("a", .int 3), ("b", .nothing)]) := rfl
  rw [hanswers] at hdicts
  exact hdicts

end Embedding

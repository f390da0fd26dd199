import Embedding.Proofs.Host.Filling
import Embedding.Proofs.RoundTrip

/-!
# Extraction does not depend on where data lives

What can be taken from plain data can be taken from what the host sees of the data when it has crossed
to an interpreter, where lists and mappings are views at every level, and what cannot be taken from
the one cannot be taken from the other.
-/

namespace Embedding

open Heap Console
open HostM (holding)

namespace HostType

/-- The types whose values are no containers and may not be missing. -/
def isScalar : HostType → Bool
  | .unit | .bool | .int64 | .int32 | .size | .float | .text | .bytes => true
  | _ => false

/-- The types of plain data. -/
def isData : HostType → Bool
  | .option t | .list t | .map t => t.isData
  | t => t.isScalar

theorem handles_list {t : HostType} (ht : ∀ a : t.Carrier, t.handles a = []) :
    ∀ as : List t.Carrier, HostType.handles (.list t) as = []
  | [] => rfl
  | a :: as => by
    have hrest : Value.handlesOfItems (as.map t.toValue) = [] := handles_list ht as
    change (t.toValue a).handles ++ Value.handlesOfItems (as.map t.toValue) = []
    rw [hrest, List.append_nil]
    exact ht a

theorem handles_of_isData : ∀ {t : HostType}, t.isData = true → ∀ a : t.Carrier, t.handles a = []
  | .unit, _, _ | .bool, _, _ | .int64, _, _ | .int32, _, _ | .size, _, _ | .float, _, _ => rfl
  | .text, _, _ | .bytes, _, _ => rfl
  | .option _, _, none => rfl
  | .option t, h, some a => handles_of_isData (t := t) h a
  | .list t, h, as => handles_list (handles_of_isData (t := t) h) as
  | .map t, h, entries => by
    have hvalues := handles_list (handles_of_isData (t := t) h) (entries.map Prod.snd)
    change Value.handlesOfEntries (entries.map fun e => (e.1, t.toValue e.2)) = []
    rw [← handlesOfItems_values, List.map_map, ← hvalues]
    change _ = Value.handlesOfItems ((entries.map Prod.snd).map t.toValue)
    rw [List.map_map]
    rfl

end HostType

variable {α β : Type} {origin w w' w₁ w₂ : World} {hs : List Handle} {s : SessionId} {setup : Setup}
  {g h start : Heap} {t : HostType} {v u : Value} {vs us : List Value} {ds es σ T : List CellId} {n : Nat}

/-! ## Items and entries -/

section
variable {f : Value → HostM t.Carrier}

theorem run_extractItems_cons {a : t.Carrier} {r : Except HostError (List t.Carrier)}
    (hdata : t.isData = true) (hhead : (f v).run w = (.ok a, w₁))
    (htail : (extractItems t f vs).run w₁ = (r, w₂)) :
    (extractItems t f (v :: vs)).run w = (r.map (a :: ·), w₂) := by
  rw [extractItems, run_bind_ok hhead, run_bind, HostM.run_orRelease, htail,
    HostType.handles_of_isData hdata]
  cases r <;> rfl

theorem run_extractItems_error {e : HostError} (hhead : (f v).run w = (.error e, w₁)) :
    (extractItems t f (v :: vs)).run w = (.error e, w₁) := by
  rw [extractItems, run_bind_error hhead]

theorem run_extractEntries : ∀ (entries : List (String × Value)) (w : World),
    (extractEntries t f entries).run w =
      (((extractItems t f (Dict.values entries)).run w).1.map ((Dict.keys entries).zip ·),
        ((extractItems t f (Dict.values entries)).run w).2)
  | [], _ => rfl
  | (key, v) :: entries, w => by
    rw [extractEntries, show Dict.values ((key, v) :: entries) = v :: Dict.values entries from rfl,
      extractItems, run_bind, run_bind]
    rcases (f v).run w with ⟨_ | a, w₁⟩
    · rfl
    dsimp only
    rw [run_bind, run_bind, HostM.run_orRelease, HostM.run_orRelease, run_extractEntries entries w₁]
    rcases (extractItems t f (Dict.values entries)).run w₁ with ⟨_ | _, w₂⟩ <;> rfl

end

/-! ## What is seen is taken as the data -/

/-- From what is seen of plain data a value of the type is taken as it is from the data, or not at all
as from the data, and the counts that were lent are lent afterwards. -/
def ExtractsAlike (w : World) (s : SessionId) (t : HostType) : Prop :=
  ∀ {v u ds T g h es n}, Seen s g v u ds T → v.Plain → g.Quiet → Lent g h es → ∃ r r' g' h',
    (∀ w₀, (v.extract t).run w₀ = (r, w₀)) ∧
      (u.extract t).run (w.put s h n) = (r', w.put s h' n) ∧ r'.toOption = r.toOption ∧
        Turned T g g' ∧ Lent g' h' es

theorem toOption_map {ε : Type} (r : Except ε α) (f : α → β) :
    (r.map f).toOption = r.toOption.map f := by
  cases r <;> rfl

theorem exists_error_of_toOption {ε : Type} {r : Except ε α} (hr : r.toOption = none) :
    ∃ e, r = .error e := by
  cases r with
  | error e => exact ⟨e, rfl⟩
  | ok a => cases hr

section
variable (hscalar : t.isScalar = true)
include hscalar

theorem run_extract_scalar (v : Value) : ∃ r, ∀ w, (v.extract t).run w = (r, w) := by
  cases t with
  | unit => cases v <;> exact ⟨_, fun _ => rfl⟩
  | bool => exact ⟨_, run_ofExcept v.toBool⟩
  | int64 => exact ⟨_, run_ofExcept v.toInt64⟩
  | int32 => exact ⟨_, run_ofExcept v.toInt32⟩
  | size => exact ⟨_, run_ofExcept v.toSize⟩
  | float => exact ⟨_, run_ofExcept (v.require "float" Value.float?)⟩
  | text => exact ⟨_, run_ofExcept v.toText⟩
  | bytes => exact ⟨_, run_ofExcept (v.require "bytes" Value.bytes?)⟩
  | _ => cases hscalar

theorem extract_scalar_none (hv : v.scalar? = none) (w : World) :
    ((v.extract t).run w).1.toOption = none := by
  cases t with
  | unit | bool | int64 | int32 | size | float | text | bytes => cases v <;> first | rfl | cases hv
  | _ => cases hscalar

theorem extractsAlike_scalar : ExtractsAlike w s t := by
  intro v u ds T g h es n hseen _ _ hl
  obtain ⟨r, hr⟩ := run_extract_scalar hscalar v
  obtain ⟨r', hr'⟩ := run_extract_scalar hscalar u
  have hv : ((v.extract t).run w).1.toOption = r.toOption := by rw [hr]
  have hu : ((u.extract t).run w).1.toOption = r'.toOption := by rw [hr']
  refine ⟨r, r', g, h, hr, hr' _, ?_, .refl T g, hl⟩
  rw [← hv, ← hu]
  cases hseen with
  | leaf => rfl
  | list | mapping => rw [extract_scalar_none hscalar rfl, extract_scalar_none hscalar rfl]

end

theorem extract_option (hv : v ≠ .nothing) : v.extract (.option t) = some <$> v.extract t := by
  cases v <;> first | rfl | exact absurd rfl hv

theorem Seen.nothing_iff (hseen : Seen s g v u ds T) : u = .nothing ↔ v = .nothing := by
  cases hseen with
  | leaf => exact .rfl
  | list | mapping => exact ⟨nofun, nofun⟩

theorem extractsAlike_option (ht : ExtractsAlike w s t) : ExtractsAlike w s (.option t) := by
  intro v u ds T g h es n hseen hplain hq hl
  by_cases hnothing : v = .nothing
  · have hu := hseen.nothing_iff.2 hnothing
    subst hnothing hu
    exact ⟨.ok none, .ok none, g, h, fun _ => rfl, rfl, rfl, .refl T g, hl⟩
  · obtain ⟨r, r', g', h', hr, hr', hsame, hturned, hl'⟩ := ht (n := n) hseen hplain hq hl
    rw [extract_option hnothing, extract_option (mt hseen.nothing_iff.1 hnothing)]
    refine ⟨r.map some, r'.map some, g', h', fun w₀ => ?_, ?_, ?_, hturned, hl'⟩
    · rw [run_map, hr]
    · rw [run_map, hr']
    · rw [toOption_map, toOption_map, hsame]

theorem run_extractItems (hdata : t.isData = true) (ht : ExtractsAlike w s t) :
    ∀ {vs us ds T g h es n}, SeenItems s g vs us ds T → Value.PlainItems vs → g.Quiet → Lent g h es →
      ∃ r r' g' h', (∀ w₀, (extractItems t (Value.extract t) vs).run w₀ = (r, w₀)) ∧
        (extractItems t (Value.extract t) us).run (w.put s h n) = (r', w.put s h' n) ∧
          r'.toOption = r.toOption ∧ Turned T g g' ∧ Lent g' h' es
  | _, _, _, _, g, h, es, n, .nil, _, _, hl =>
    ⟨.ok [], .ok [], g, h, fun _ => rfl, rfl, rfl, .refl _ g, hl⟩
  | v :: vs, u :: us, _, _, g, h, es, n, .cons c hv hvs, hplain, hq, hl => by
    obtain ⟨r, r', g₁, h₁, hr, hr', hsame, hturned, hl₁⟩ := ht (n := n) hv hplain.1 hq hl
    cases r with
    | error e =>
      obtain ⟨e', rfl⟩ := exists_error_of_toOption hsame
      refine ⟨.error e, .error e', g₁, h₁, fun w₀ => run_extractItems_error (hr w₀),
        run_extractItems_error hr', rfl, hturned.mono fun x hx => ?_, hl₁⟩
      exact .tail _ (List.mem_append_left _ hx)
    | ok a =>
      obtain rfl := eq_ok_of_toOption hsame
      obtain ⟨rs, rs', g₂, h₂, hrs, hrs', hsame', hturned', hl₂⟩ := run_extractItems hdata ht (n := n)
        (hvs.turned hturned.same) hplain.2 (hturned.quiet hq) hl₁
      refine ⟨_, _, g₂, h₂, fun w₀ => run_extractItems_cons hdata (hr w₀) (hrs w₀),
        run_extractItems_cons hdata hr' hrs', ?_, (hturned.mono fun x hx => ?_).trans
          (hturned'.mono fun x hx => ?_), hl₂⟩
      · rw [toOption_map, toOption_map, hsame']
      · exact .tail _ (List.mem_append_left _ hx)
      · exact .tail _ (List.mem_append_right _ hx)

/-! ## Views of items -/

theorem handles_scalar {x : Scalar} (hv : v.scalar? = some x) : v.handles = [] := by
  cases v <;> first | rfl | cases hv

theorem SeenItems.handles (hseen : SeenItems s g vs us ds T) :
    Value.handlesOfItems us = ds.map fun c => ⟨s, c⟩ := by
  induction hseen with
  | nil => rfl
  | cons c hv _ ih =>
    rw [Value.handlesOfItems, ih, List.map_append]
    congr 1
    cases hv with
    | leaf hs => exact handles_scalar hs
    | list | mapping => rfl

theorem SeenItems.counted (hseen : SeenItems s g vs us ds T) :
    ∀ d ∈ ds, ∃ x, g.cell? d = some x ∧ 1 ≤ x.refcount := by
  induction hseen with
  | nil => nofun
  | cons c hv _ ih =>
    intro d hd
    rcases List.mem_append.1 hd with hd | hd
    · cases hv with
      | leaf => cases hd
      | list ha hpos | mapping ha hpos =>
        obtain rfl := List.mem_singleton.1 hd
        exact ⟨_, ha, hpos⟩
    · exact ih d hd

theorem World.KeptOn.releaseAll_lent (hk : w.KeptOn s setup start) : ∀ {ds h},
    (∀ d ∈ ds, ∃ x, g.cell? d = some x ∧ 1 ≤ x.refcount) → Lent g h (ds ++ es) →
      ∃ h', (w.put s h (n + ds.length)).releaseAll (ds.map fun c => ⟨s, c⟩) = w.put s h' n ∧
        Lent g h' es
  | [], h, _, hl => ⟨h, rfl, hl⟩
  | d :: ds, h, hcounted, hl => by
    obtain ⟨x, hx, hpos⟩ := hcounted d (.head _)
    obtain ⟨h₁, hrelease, hl₁⟩ := hl.run_release hx hpos
    obtain ⟨h₂, hrest, hl₂⟩ := hk.releaseAll_lent (fun e he => hcounted e (.tail _ he)) hl₁
    refine ⟨h₂, ?_, hl₂⟩
    rw [← hrest, List.map_cons, List.length_cons, ← Nat.add_assoc, World.releaseAll, List.foldl_cons,
      hk.release hrelease]
    rfl

section
variable (hk : w.KeptOn s setup start) (hdata : t.isData = true) (ht : ExtractsAlike w s t)
include hk hdata ht

theorem extractsAlike_list : ExtractsAlike w s (.list t) := by
  intro v u ds T g h es n hseen hplain hq hl
  cases hseen with
  | leaf hs =>
    obtain ⟨e, he⟩ : ∃ e, ∀ w₀, (v.extract (.list t)).run w₀ = (.error e, w₀) := by
      cases v <;> first | exact ⟨_, fun _ => rfl⟩ | cases hs
    exact ⟨_, _, g, h, he, he _, rfl, .refl _ g, hl⟩
  | mapping => exact ⟨_, _, g, h, fun _ => rfl, rfl, rfl, .refl _ g, hl⟩
  | @list items a m p cs T ha hpos hitems =>
    -- the items are seen, taken and given back
    obtain ⟨us, ds, h₁, hread, hseen, hl₁⟩ := run_arrayToList hk ha (n := n) hq hl hpos hitems
    obtain ⟨r, r', g', h₂, hr, hr', hsame, hturned, hl₂⟩ :=
      run_extractItems hdata ht (n := n + ds.length) hseen hplain hq hl₁
    obtain ⟨h₃, hrelease, hl₃⟩ :=
      hk.releaseAll_lent (n := n) (hseen.turned hturned.same).counted hl₂
    refine ⟨r, r', g', h₃, hr, ?_, hsame, hturned.mono fun x hx => .tail _ hx, hl₃⟩
    rw [Value.extract, run_bind_ok hread, HostM.run_holding, hr', hseen.handles, hrelease]

theorem extractsAlike_map : ExtractsAlike w s (.map t) := by
  intro v u ds T g h es n hseen hplain hq hl
  cases hseen with
  | leaf hs =>
    obtain ⟨e, he⟩ : ∃ e, ∀ w₀, (v.extract (.map t)).run w₀ = (.error e, w₀) := by
      cases v <;> first | exact ⟨_, fun _ => rfl⟩ | cases hs
    exact ⟨_, _, g, h, he, he _, rfl, .refl _ g, hl⟩
  | list => exact ⟨_, _, g, h, fun _ => rfl, rfl, rfl, .refl _ g, hl⟩
  | @mapping entries a m p d cursor T ha hpos hkeys hitems =>
    obtain ⟨g₁, seen, ds, h₁, hread, hturned, hkeys', hseen, hl₁⟩ :=
      run_hashToDict hk (n := n) hq hl ha hpos hkeys hplain.1 hitems
    obtain ⟨r, r', g₂, h₂, hr, hr', hsame, hturned', hl₂⟩ := run_extractItems hdata ht
      (n := n + ds.length) hseen (plainItems_values hplain.2) (hturned.quiet hq) hl₁
    obtain ⟨h₃, hrelease, hl₃⟩ :=
      hk.releaseAll_lent (n := n) (hseen.turned hturned'.same).counted hl₂
    refine ⟨r.map ((Dict.keys entries).zip ·), r'.map ((Dict.keys seen).zip ·), g₂, h₃, fun w₀ => ?_, ?_,
      ?_, (hturned.mono fun x hx => ?_).trans (hturned'.mono fun x hx => .tail _ hx), hl₃⟩
    · rw [Value.extract, run_extractEntries, hr]
    · rw [Value.extract, run_bind_ok hread, HostM.run_holding, run_extractEntries, hr',
        ← handlesOfItems_values, ← Dict.values, hseen.handles, hrelease]
    · rw [toOption_map, toOption_map, hsame, hkeys']
    · exact List.mem_singleton.1 hx ▸ .head _

end

theorem extractsAlike (hk : w.KeptOn s setup start) :
    ∀ {t : HostType}, t.isData = true → ExtractsAlike w s t
  | .unit, _ | .bool, _ | .int64, _ | .int32, _ | .size, _ | .float, _ | .text, _ | .bytes, _ =>
    extractsAlike_scalar rfl
  | .option t, hdata => extractsAlike_option (extractsAlike hk (t := t) hdata)
  | .list t, hdata => extractsAlike_list hk (t := t) hdata (extractsAlike hk (t := t) hdata)
  | .map t, hdata => extractsAlike_map hk (t := t) hdata (extractsAlike hk (t := t) hdata)

/-! ## Crossing before extraction -/

/-- The value crosses to the interpreter and is seen, and a value of the type is taken from what is seen
if and only if it is taken from the value itself, and then it is the same. -/
def ExtractsCrossed (w : World) (s : SessionId) (t : HostType) (v : Value) : Prop :=
  ∃ c w₁ u w₂, (s.toForeign v).run w = (.ok c, w₁) ∧ (s.toHost c).run w₁ = (.ok u, w₂) ∧
    ∀ a, ((u.extract t).run w₂).1 = .ok a ↔ ((v.extract t).run w).1 = .ok a

theorem toOption_eq_some_iff {ε : Type} {r : Except ε α} {a : α} : r.toOption = some a ↔ r = .ok a :=
  ⟨eq_ok_of_toOption, fun h => by rw [h]; rfl⟩

theorem World.KeptOn.extractsCrossed (hk : w.KeptOn s setup h) (hq : h.Quiet) (hdata : t.isData = true)
    (hplain : v.Plain) : ExtractsCrossed w s t v := by
  obtain ⟨c, x, T, g, hnew, hp⟩ := run_newCell hk hplain (n := 0) hq
  have hq' := hp.toKeeps.quiet hq
  obtain ⟨u, ds, h₁, hvalue, hseen, hl₁⟩ :=
    run_value hk (n := 1) hq' (lent_refl g) hp.hasContent hp.encodes.carries
  obtain ⟨r, r', g', h₂, hr, hr', hsame, -, -⟩ :=
    extractsAlike hk hdata (n := 1 + ds.length) hseen hplain hq' hl₁
  rw [hk.put_self] at hnew
  refine ⟨⟨s, c⟩, w.put s g 1, u, w.put s h₁ (1 + ds.length), (run_toForeign hk.stage v).trans hnew, ?_,
    fun a => ?_⟩
  · rw [SessionId.toHost, if_pos rfl, hvalue]
  · rw [hr', hr, ← toOption_eq_some_iff, ← toOption_eq_some_iff, hsame]

/-- Wherever a host has come, extraction gives the same from plain data as from the data that has
crossed, if and only if no error is pending, and none is when no interpreter starts with one. -/
theorem extraction_crosses (hfresh : origin.Fresh) (hreach : Reached origin w hs)
    (hstage : (w.session s).stage = .initialized) (hkept : (w.session s).isKept = true)
    (hdata : t.isData = true) (hplain : v.Plain) :
    ∃ h, (w.session s).engine.interpreter.heap = some h ∧ (ExtractsCrossed w s t v ↔ ¬ h.Pending) ∧
      (h.Pending → ∃ e w', (s.toForeign v).run w = (.error e, w')) ∧
      ((∀ i, (origin.session i).StartsQuietly) → ¬ h.Pending) := by
  obtain ⟨h, hr, hl⟩ := (hreach.leaky hfresh).runsOn hstage
  have hheap : (w.session s).engine.interpreter.heap = some h := by rw [hr.engine]
  have hfails (hp : h.Pending) : ∃ e w', (s.toForeign v).run w = (.error e, w') := by
    rw [run_toForeign hstage]
    exact run_newCell_pending hr hl hp hplain
  refine ⟨h, hheap, ⟨fun ⟨c, w₁, _, _, hrun, _⟩ hp => ?_, fun hnot => ?_⟩, hfails, fun hquiet => ?_⟩
  · obtain ⟨e, w', hrun'⟩ := hfails hp
    rw [hrun] at hrun'
    cases hrun'
  · obtain ⟨lost, hs⟩ := hl
    exact World.KeptOn.extractsCrossed ⟨hr, hkept⟩ (hs.quiet_iff.2 hnot) hdata hplain
  · exact (reached_not_pending_iff hfresh).2 hquiet w hs s h hreach hstage hheap

/-- Lists of mappings to lists of integers that may be missing. -/
def rowsType : HostType := .list (.map (.list (.option .int64)))

def rows : Value := .list [.mapping [("b", .list [.int 1, .nothing]), ("a", .list [])]]

theorem extraction_crosses_rows : rows.Plain ∧ ExtractsCrossed (started {}) ⟨0⟩ rowsType rows ∧
    ((rows.extract rowsType).run (started {})).1 = .ok [[("b", [some 1, none]), ("a", [])]] := by
  have hplain : rows.Plain := by
    simp [rows, Value.Plain, Value.PlainItems, Value.PlainEntries, Dict.keys]
  have hquiet (t : SessionId) : ((Console.single {}).world.session t).StartsQuietly := by
    rcases session_single {} t with ht | ht <;> rw [ht]
    · exact Session.startsQuietly_of_quiet
        ⟨⟨1⟩, Heap.isTrue_errorCell (by decide +kernel) (by decide +kernel)⟩
    · exact startsQuietly_default
  obtain ⟨h, -, hcrosses, -, hnot⟩ := extraction_crosses (t := rowsType) (fresh_single {}).world
    (reached_run (fresh_single {}) [{ command := .session ⟨0⟩ .start }])
    (s := ⟨0⟩) (by decide +kernel) (by decide +kernel) rfl hplain
  exact ⟨hplain, hcrosses.2 (hnot hquiet), rfl⟩

/-- Where the start of an interpreter leaves an error behind, an integer is taken from an integer and not
from one that crosses, since none crosses. -/
theorem not_extracted_after_start : ¬ ∀ w hs, Reached leavingConsole.world w hs →
    (w.session ⟨0⟩).stage = .initialized → ExtractsCrossed w ⟨0⟩ .int64 (.int 1) := by
  intro hcrosses
  obtain ⟨c, w₁, _, _, hrun, -⟩ := hcrosses _ _ (reached_run (fresh_single _)
    [{ command := .session ⟨0⟩ .start }]) (by decide +kernel)
  have hfails : ((SessionId.toForeign ⟨0⟩ (.int 1)).run (started (Setup.preload {} leaving))).1.isOk =
      false := by decide +kernel
  rw [show (SessionId.toForeign ⟨0⟩ (.int 1)).run (started (Setup.preload {} leaving)) = _ from hrun]
    at hfails
  cases hfails

end Embedding

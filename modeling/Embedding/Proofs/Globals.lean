import Embedding.Proofs.Console.Runs
import Embedding.Proofs.Host.Assigning

/-!
# Globals that are read back

What a host has assigned to a variable is read back by every name that stands for the variable, and no
cell but its own was written. Names that are spelled in different ways may stand for one variable.
-/

namespace Embedding

open Heap Console
open HostM (holding)

/-! ## Spellings -/

namespace Name

/-- The table, and the name in it, that a name with or without a sigil stands for. -/
def resolve (name : String) : Slot × String := ((parseGlobal name).1, qualify (parseGlobal name).2)

/-- Neither a sigil nor a double colon is in front of the symbol. -/
structure Stripped (symbol : List Char) : Prop where
  sigil : splitSigil symbol = (none, symbol)
  colons : stripMain symbol = symbol

/-- What the name of a symbol may begin with behind the sigil. -/
inductive Begins (symbol : List Char) : List Char → Prop
  | alone : Begins symbol []
  | colons : Begins symbol "::".toList
  | main : ¬ hasPackage symbol = true → Begins symbol "main::".toList
  | colonsMain : ¬ hasPackage symbol = true → Begins symbol "::main::".toList

/-- The ways to spell a variable. A scalar needs no sigil. -/
inductive Spells (slot : Slot) (symbol : List Char) : String → Prop
  | marked {front} : Begins symbol front → Spells slot symbol (.ofList (sigil slot :: (front ++ symbol)))
  | unmarked {front} : slot = .scalar → Begins symbol front → Spells slot symbol (.ofList (front ++ symbol))

variable {slot : Slot} {symbol front : List Char} {name : String}

theorem within_main (symbol : List Char) :
    within "main" ("main::".toList ++ symbol) = "main" ++ "::" ++ String.ofList symbol := by
  have hpackage : hasPackage ("main::".toList ++ symbol) = true := rfl
  rw [within, if_pos hpackage, String.ofList_append, String.ofList_toList]
  rfl

theorem within_begin (hstrip : Stripped symbol) (hbegin : Begins symbol front) :
    within "main" (stripMain (front ++ symbol)) = within "main" symbol := by
  have hmain (hpackage : ¬ hasPackage symbol = true) :
      within "main" ("main::".toList ++ symbol) = within "main" symbol := by
    rw [within_main, within, if_neg hpackage]
  cases hbegin with
  | alone => rw [List.nil_append, hstrip.colons]
  | colons => rfl
  | main hpackage => exact hmain hpackage
  | colonsMain hpackage => exact hmain hpackage

theorem qualify_within (hcolons : stripMain symbol = symbol) :
    qualify (within "main" symbol) = within "main" symbol := by
  by_cases hpackage : hasPackage symbol = true
  · rw [within, if_pos hpackage, qualify, String.toList_ofList, hcolons, within, if_pos hpackage]
  · have hname : within "main" symbol = String.ofList ("main::".toList ++ symbol) := by
      rw [within, if_neg hpackage, String.ofList_append, String.ofList_toList]
      rfl
    have hmain : stripMain ("main::".toList ++ symbol) = "main::".toList ++ symbol := rfl
    rw [hname, qualify, String.toList_ofList, hmain, within_main, ← hname, within, if_neg hpackage]

theorem resolve_begin {o : Option Slot} (hstrip : Stripped symbol) (hbegin : Begins symbol front)
    (hsplit : splitSigil name.toList = (o, front ++ symbol)) :
    resolve name = (o.getD .scalar, within "main" symbol) := by
  rw [resolve, parseGlobal, hsplit]
  dsimp only
  rw [within_begin hstrip hbegin, qualify_within hstrip.colons]

theorem Spells.resolve (hstrip : Stripped symbol) (hname : Spells slot symbol name) :
    resolve name = (slot, within "main" symbol) := by
  cases hname with
  | marked hbegin =>
    refine resolve_begin (o := some slot) hstrip hbegin ?_
    rw [String.toList_ofList]
    cases slot <;> rfl
  | unmarked hscalar hbegin =>
    subst hscalar
    refine resolve_begin (o := none) hstrip hbegin ?_
    rw [String.toList_ofList]
    cases hbegin with
    | alone => exact hstrip.sigil
    | _ => rfl

end Name

/-- The value is read of the variable of the name, with all that is in it. Only the places of iterations
over hashes in it are others afterwards. -/
def ReadsAs (w : World) (s : SessionId) (h : Heap) (name : String) (v : Value) : Prop :=
  ∀ depth, v.height ≤ depth → ∃ T h', Turned T h h' ∧
    (do materialize depth (← s.getGlobal name) : HostM Value).run w = (.ok v, w.put s h' 0)

variable {origin w w' : World} {hs : List Handle} {s : SessionId} {setup : Setup} {h h' : Heap}
  {v : Value} {c : CellId} {content : Content} {σ T : List CellId} {name qualified : String} {slot : Slot}
  {n : Nat}

/-! ## Reading -/

theorem Heap.Turned.of_lent_nil {g : Heap} (ht : Turned T h g) (hl : Lent g h' []) : Turned T h h' where
  size := hl.size.trans ht.size
  symbols := hl.symbols.trans ht.symbols
  loaded := hl.loaded.trans ht.loaded
  same x := by
    rw [hl.cell_nil]
    exact ht.same x
  outside x hx := (hl.cell_nil x).trans (ht.outside x hx)

section
variable (hk : w.KeptOn s setup h)
include hk

theorem run_readGlobal (hq : h.Quiet) (hs : h.Sound σ) (hnamed : h.named? name = some c)
    (hc : h.HasContent c content) (hv : ContentCarries h v content T) : ∃ u ds T' h',
      (readGlobal s name).run (w.put s h n) = (.ok u, w.put s h' (n + ds.length)) ∧
        Seen s h v u ds T' ∧ Lent h h' ds := by
  unfold named? at hnamed
  unfold readGlobal
  generalize Name.parseGlobal name = parsed at hnamed ⊢
  obtain ⟨slot, qualified⟩ := parsed
  obtain ⟨m, p, hx, hpos⟩ := id hc
  obtain ⟨h₁, hretain, hl⟩ := (lent_refl h).run_retain hx
  have hanswer : (Heap.answer setup (.global slot qualified false)).run h = (.ok (some c), h₁) :=
    (run_global_old false hnamed).trans ((run_bind_ok hretain).trans rfl)
  have hcross : (globalCell s "get_global" slot qualified false).run (w.put s h n) =
      (.ok (some ⟨s, c⟩), w.put s h₁ (n + 1)) :=
    hk.run_cross "get_global" (.global slot qualified false) hanswer (hl.quiet hq)
  -- the cell is of the sort that the table of the variable says
  obtain ⟨y, hy, hslot⟩ := hs.hasSort hnamed
  obtain rfl := Option.some.inj (hx.symm.trans hy)
  dsimp only
  rw [run_bind_ok hcross]
  cases hv with
  | scalar hv =>
    obtain rfl : Slot.scalar = slot := Option.some.inj hslot
    obtain ⟨u, ds, h₂, hfound, hseen, hl₂⟩ := run_found hk (n := n) hq hl hc hv
    rw [List.append_nil] at hl₂
    exact ⟨u, ds, T, h₂, run_map_ok Value.ofOption (run_map_ok some hfound), hseen, hl₂⟩
  | array hitems =>
    obtain rfl : Slot.array = slot := Option.some.inj hslot
    exact ⟨_, [c], c :: T, h₁, rfl, .list hx hpos hitems, hl⟩
  | hash hkeys hitems =>
    obtain rfl : Slot.hash = slot := Option.some.inj hslot
    exact ⟨_, [c], c :: T, h₁, rfl, .mapping hx hpos hkeys hitems, hl⟩

theorem readsAs_of_carries (hq : h.Quiet) (hs : h.Sound σ) (hnamed : h.named? name = some c)
    (hc : h.HasContent c content) (hv : ContentCarries h v content T) (hplain : v.Plain) :
    ReadsAs w s h name v := by
  intro depth hheight
  obtain ⟨u, ds, T', h₁, hread, hseen, hl⟩ := run_readGlobal hk (n := 0) hq hs hnamed hc hv
  rw [hk.put_self] at hread
  rw [← List.append_nil ds] at hl
  obtain ⟨g, h₂, hback, hturned, hl'⟩ := readsBack hk depth (n := 0) hseen hplain hheight hq hl
  refine ⟨T', h₂, hturned.of_lent_nil hl', ?_⟩
  rw [SessionId.getGlobal, bind_assoc, run_bind_ok (run_ensureReady hk.stage "get_global"),
    run_bind_ok hread, hback]

end

/-! ## Assigned variables -/

theorem plain_assigned (slot : Slot) (hplain : v.Plain) : (v.assigned slot).Plain := by
  cases slot with
  | scalar | code => exact hplain
  | array =>
    cases v with
    | nothing => exact trivial
    | _ => exact hplain
  | hash =>
    cases v with
    | nothing => exact ⟨List.nodup_nil, trivial⟩
    | _ => exact hplain

/-- An assignment of plain data that succeeds writes the cell of one variable, which may be new. By
whatever name the variable is read, the data is there, and a variable that does not reach the cell has
stayed as it was. -/
theorem globals_read_back (hfresh : origin.Fresh) (hreach : Reached origin w hs)
    (hstage : (w.session s).stage = .initialized) (hkept : (w.session s).isKept = true)
    (hplain : v.Plain) (hname : Name.resolve name = (slot, qualified))
    (hrun : (s.setGlobal name v).run w = (.ok (), w')) :
    ∃ h h' c, (w.session s).engine.interpreter.heap = some h ∧ w' = w.put s h' 0 ∧
      h.Assigned h' slot qualified c ∧
      (∀ name', Name.resolve name' = (slot, qualified) → ReadsAs w' s h' name' (v.assigned slot)) ∧
      (∀ name', Name.resolve name' ≠ (slot, qualified) → ¬ h.Comprises name' c → h.Stays h' name') ∧
      ∀ symbol, Name.Stripped symbol → Name.Spells slot symbol name →
        ∀ name', Name.Spells slot symbol name' → ReadsAs w' s h' name' (v.assigned slot) := by
  obtain ⟨h, hr, lost, hsound⟩ := (hreach.leaky hfresh).runsOn hstage
  have hk : w.KeptOn s _ h := ⟨hr, hkept⟩
  rw [SessionId.setGlobal, run_bind_ok (run_ensureReady hstage "set_global")] at hrun
  obtain ⟨h', c, rfl, htakes⟩ := writeGlobal_ok hk hsound hplain hrun
  obtain ⟨rfl, rfl⟩ := Prod.mk.inj hname
  obtain ⟨content, T, hc, hv⟩ := htakes.carries
  have hreads (name' : String) (hname' : Name.resolve name' = Name.resolve name) :
      ReadsAs (w.put s h' 0) s h' name' (v.assigned (Name.parseGlobal name).1) := by
    obtain ⟨hslot, hqualified⟩ := Prod.mk.inj hname'
    have hnamed : h'.named? name' = some c := by
      rw [named?, hslot, hqualified]
      exact htakes.assigned.named
    exact readsAs_of_carries (hk.again h' 0) htakes.quiet htakes.sound hnamed hc hv (plain_assigned _ hplain)
  refine ⟨h, h', c, by rw [hr.engine], rfl, htakes.assigned, hreads, fun name' hother hnot => ?_,
    fun symbol hstrip hspells name' hspells' => hreads name' ?_⟩
  · exact htakes.assigned.stays hsound htakes.sound (fun e => hother (Prod.ext e.1 e.2)) hnot
  · rw [hspells'.resolve hstrip, hspells.resolve hstrip]

def namedArray : List Line := [{ command := .session ⟨0⟩ (.set "@a" (.list [.int 1, .int 2])) }]

theorem globals_read_back_nested :
    let w := (run namedArray (.single {})).2.world
    ∃ w' h h' c, (SessionId.setGlobal ⟨0⟩ "@::a" (.list [nested])).run w = (.ok (), w') ∧
      (w.session ⟨0⟩).engine.interpreter.heap = some h ∧ Assigned h h' .array "main::a" c ∧
      ReadsAs w' ⟨0⟩ h' "@main::a" (.list [nested]) := by
  have hreach := reached_run (fresh_single {}) namedArray
  have hstage : ((run namedArray (.single {})).2.world.session ⟨0⟩).stage = .initialized := by
    decide +kernel
  have hkept : ((run namedArray (.single {})).2.world.session ⟨0⟩).isKept = true := by decide +kernel
  have hplain : (Value.list [nested]).Plain := by
    simp [nested, Value.Plain, Value.PlainItems, Value.PlainEntries, Dict.keys]
  have hok : ((SessionId.setGlobal ⟨0⟩ "@::a" (.list [nested])).run
      (run namedArray (.single {})).2.world).1.toOption = some () := by decide +kernel
  have hname : Name.resolve "@::a" = (.array, "main::a") := by decide +kernel
  have hspelt : Name.resolve "@main::a" = (.array, "main::a") := by decide +kernel
  generalize (run namedArray (.single {})).2 = c at hreach hstage hkept hok ⊢
  cases hrun : (SessionId.setGlobal ⟨0⟩ "@::a" (.list [nested])).run c.world with
  | mk r w' =>
    rw [hrun] at hok
    obtain rfl := eq_ok_of_toOption hok
    obtain ⟨h, h', d, hheap, -, hassigned, hreads, -⟩ :=
      globals_read_back (fresh_single {}).world hreach hstage hkept hplain hname hrun
    exact ⟨w', h, h', d, hrun, hheap, hassigned, hreads _ hspelt⟩

end Embedding

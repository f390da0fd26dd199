import Embedding.Host.Session
import Embedding.Proofs.Heap.Maps
import Embedding.Proofs.Heap.Stocked
import Embedding.Proofs.Heap.Variables
import Embedding.Proofs.Host.Drafting
import Embedding.Proofs.Host.Filling
import Embedding.Proofs.Host.Planting
import Embedding.Proofs.Host.Seeing
import Embedding.Proofs.RoundTrip

/-!
# Variables are assigned

A host that assigns plain data to a variable makes trees of cells of it, and puts copies of their roots
into the cell of the variable.
-/

namespace Embedding

open Heap
open HostM (holding orRelease)

/-- What is read back of a value that was assigned to a variable. An array or a hash that gets no value is
empty. -/
def Value.assigned : Slot → Value → Value
  | .array, .nothing => .list []
  | .hash, .nothing => .mapping []
  | _, v => v

variable {w w' : World} {s : SessionId} {setup : Setup} {g h h' h₁ : Heap} {v : Value}
  {vs us : List Value} {a c : CellId} {content : Content} {σ T : List CellId} {n : Nat} {slot : Slot}
  {name qualified : String}

/-- The heap after the contents of one cell were written, while no error was left behind. -/
structure Heap.Wrote (h : Heap) (c : CellId) (σ : List CellId) (h' : Heap) : Prop where
  quiet : h'.Quiet
  sound : h'.Sound σ
  firm : h.Firm (Besides c) h'

theorem Heap.wrote_refl (hq : h.Quiet) (hs : h.Sound σ) (c : CellId) : h.Wrote c σ h :=
  ⟨hq, hs, firm_refl (fun _ _ _ => rfl) h⟩

theorem Heap.Wrote.trans (h₀ : h.Wrote c σ h₁) (h₂ : h₁.Wrote c σ h') : h.Wrote c σ h' :=
  ⟨h₂.quiet, h₂.sound, h₀.firm.besides_trans h₂.firm⟩

/-! ## Trees with stakes -/

mutual

theorem handles_plain : ∀ {v : Value}, v.Plain → v.handles = []
  | .list _, hv => handlesOfItems_plain hv
  | .mapping _, hv => handlesOfEntries_plain hv.2
  | .nothing, _ | .bool _, _ | .int _, _ | .float _, _ | .text _, _ | .bytes _, _ => rfl

theorem handlesOfItems_plain : ∀ {vs : List Value}, Value.PlainItems vs → Value.handlesOfItems vs = []
  | [], _ => rfl
  | _ :: _, hvs => by rw [Value.handlesOfItems, handles_plain hvs.1, handlesOfItems_plain hvs.2]; rfl

theorem handlesOfEntries_plain : ∀ {entries : List (String × Value)}, Value.PlainEntries entries →
    Value.handlesOfEntries entries = []
  | [], _ => rfl
  | (_, _) :: _, hvs => by
    rw [Value.handlesOfEntries, handles_plain hvs.1, handlesOfEntries_plain hvs.2]
    rfl

end

section
variable (hk : w.KeptOn s setup g)
include hk

theorem World.KeptOn.again (h : Heap) (n : Nat) : (w.put s h n).KeptOn s setup h :=
  ⟨hk.put h n, hk.isKept_put h n⟩

/-- Plain data becomes a tree, in whose root the host has a stake. -/
theorem run_newTree (hplain : v.Plain) (hq : h.Quiet) (hs : h.Sound σ) : ∃ c x T h',
    (newCell s v).run (w.put s h n) = (.ok ⟨s, c⟩, w.put s h' (n + 1)) ∧ h.Planted h' v c x T ∧
      h'.Quiet ∧ h'.Sound (c :: σ) := by
  obtain ⟨c, x, T, h', hrun, hp⟩ := run_newCell hk hplain (n := n) hq
  have hnone : ∀ a ∈ v.handles, a.session = s → h.isLive a.cell := by
    rw [handles_plain hplain]
    exact fun a ha => absurd ha List.not_mem_nil
  have hdrafts := drafts_newCell (hk.again h n) hq hs.exact hnone (List.Subset.refl σ)
    (draft_refl hs) (n := 0)
  rw [(hk.again h n).put_self] at hdrafts
  obtain ⟨h'', hworld, hd, -⟩ := hdrafts.of_run hrun
  have hr : (w.put s h' (n + 1)).RunsOn s setup h'' := hworld ▸ (hk.again h n).put h'' _
  obtain rfl : h' = h'' := by
    cases (hk.put h' (n + 1)).engine.symm.trans hr.engine
    rfl
  exact ⟨c, x, T, h', hrun, hp, hp.toKeeps.quiet hq, hd.sound⟩

/-! ## Filling containers -/

theorem run_stocking (operation : String) (request : Handle → Request Handle .nothing)
    (content' : CellId → Content) (hplain : v.Plain) (hq : h.Quiet) (hs : h.Sound σ)
    (ha : a ∈ σ) (hst : h.Stocked us a content T) (hscalar : content.slot? ≠ some .scalar)
    (hchildren : ∀ d, (content' d).children = content.children ++ [d])
    (hslot : ∀ d, (content' d).slot? = content.slot?)
    (hstore : ∀ {h₁ h₂ : Heap} {c d : CellId}, h₁.HasContent a content →
      (copy c).run h₁ = (.ok d, h₂) → h₂.HasContent a content →
      (Heap.answer setup ((request ⟨s, c⟩).map Handle.cell)).run h₁ = (setContent a (content' d)).run h₂) :
    ∃ h' d T', (do
        let item ← holding v.handles (newCell s v)
        holding [item] (cross s operation (request item)) : HostM Unit).run (w.put s h n) =
          (.ok (), w.put s h' n) ∧
      h.Wrote a σ h' ∧ h'.Stocked (us ++ [v]) a (content' d) T' := by
  obtain ⟨c, x, U, h₁, hnew, hp, hq₁, hs₁⟩ := run_newTree hk (n := n) hplain hq hs
  obtain ⟨d, h₂, h₃, h₄, hstoring, hf, hst'⟩ := hst.add hp hs₁ ha hchildren hslot
  have hown : h₁.HasContent a content := by
    obtain ⟨k, p, hx, hpos⟩ := hst.own
    exact ⟨k, p, (hp.old a (lt_of_cell? hx)).trans hx, hpos⟩
  have hq₃ : h₃.Quiet := by
    obtain ⟨_, _, hx, -⟩ := hown
    exact hq₁.writes hs₁ hstoring.sound hx hscalar hstoring.written
  have hcross := hk.run_cross (n := n + 1) operation (request ⟨s, c⟩)
    ((hstore hown hstoring.copied hstoring.own).trans hstoring.set) hq₃
  have hq₄ := hq₃.shrinks hstoring.shrinks hstoring.sound'
  refine ⟨h₄, d, _, ?_, ⟨hq₄, hstoring.sound', hf⟩, hst'⟩
  rw [handles_plain hplain, run_bind_ok (run_holding_ok hnew)]
  exact hk.run_holding hcross hstoring.released

theorem run_pushPlain {cs : Array CellId} (hplain : v.Plain) (hq : h.Quiet) (hs : h.Sound σ)
    (ha : a ∈ σ) (hst : h.Stocked us a (.array cs) T) :
    ∃ h' cs' T', (ArrayView.push ⟨⟨s, a⟩⟩ v).run (w.put s h n) = (.ok (), w.put s h' n) ∧
      h.Wrote a σ h' ∧ h'.Stocked (us ++ [v]) a (.array cs') T' := by
  have hlength : (ArrayView.length ⟨⟨s, a⟩⟩).run (w.put s h n) = (.ok cs.size, w.put s h n) :=
    run_ask_cell hk hq "array length" (.arrayLength ⟨s, a⟩) rfl
      (congrArg (·, h) (arrayLength_ok hst.own.items))
  obtain ⟨h', d, T', hrun, hrest⟩ := run_stocking hk (n := n) "array set" (.arrayStore ⟨s, a⟩ cs.size ·)
    (fun d => .array (cs.push d)) hplain hq hs ha hst (by simp [Content.slot?])
    (fun d => by simp [Content.children]) (fun _ => rfl)
    (fun hown hcopy hown' => run_arrayStore_end hown.items hcopy hown'.items)
  refine ⟨h', cs.push d, T', ?_, hrest⟩
  rw [ArrayView.push, run_bind_ok (run_orRelease_ok hlength)]
  exact hrun

theorem run_pushAll : ∀ (vs : List Value) {h us cs T}, Value.PlainItems vs → h.Quiet → h.Sound σ →
    a ∈ σ → h.Stocked us a (.array cs) T →
    ∃ h' cs' T', (ArrayView.pushAll ⟨⟨s, a⟩⟩ vs).run (w.put s h n) = (.ok (), w.put s h' n) ∧
      h.Wrote a σ h' ∧ h'.Stocked (us ++ vs) a (.array cs') T'
  | [], h, us, cs, T, _, hq, hs, _, hst => ⟨h, cs, T, rfl, wrote_refl hq hs a, by rwa [List.append_nil]⟩
  | v :: vs, h, us, cs, T, hplain, hq, hs, ha, hst => by
    obtain ⟨h₁, cs₁, T₁, hpush, hw₁, hst₁⟩ := run_pushPlain hk (n := n) hplain.1 hq hs ha hst
    obtain ⟨h₂, cs₂, T₂, hrest, hw₂, hst₂⟩ := run_pushAll vs hplain.2 hw₁.quiet hw₁.sound ha hst₁
    rw [List.append_assoc] at hst₂
    refine ⟨h₂, cs₂, T₂, ?_, hw₁.trans hw₂, hst₂⟩
    rw [ArrayView.pushAll, run_bind_ok (HostM.run_attempt_eq hpush)]
    exact hrest

theorem run_setPlain {entries : Dict CellId} {i : Nat} {key : String} (hplain : v.Plain) (hq : h.Quiet)
    (hs : h.Sound σ) (ha : a ∈ σ) (hst : h.Stocked us a (.hash entries i) T)
    (hkey : entries.get? key = none) :
    ∃ h' d T', (HashView.set ⟨⟨s, a⟩⟩ key v).run (w.put s h n) = (.ok (), w.put s h' n) ∧
      h.Wrote a σ h' ∧ h'.Stocked (us ++ [v]) a (.hash (entries ++ [(key, d)]) i) T' :=
  run_stocking hk "hash set" (.hashStore ⟨s, a⟩ key ·)
    (fun d => .hash (entries ++ [(key, d)]) i) hplain hq hs ha hst (by simp [Content.slot?])
    (fun d => by simp [Content.children, Dict.values]) (fun _ => rfl)
    (fun hown hcopy hown' => run_hashStore_new hown.hash hcopy hown'.hash hkey)

theorem run_setAll : ∀ (rest done : List (String × Value)) {h entries i T}, Value.PlainEntries rest →
    (Dict.keys (done ++ rest)).Nodup → h.Quiet → h.Sound σ → a ∈ σ →
    Dict.keys entries = Dict.keys done → h.Stocked (Dict.values done) a (.hash entries i) T →
    ∃ h' entries' T', (HashView.setAll ⟨⟨s, a⟩⟩ rest).run (w.put s h n) = (.ok (), w.put s h' n) ∧
      h.Wrote a σ h' ∧ Dict.keys entries' = Dict.keys (done ++ rest) ∧
      h'.Stocked (Dict.values (done ++ rest)) a (.hash entries' i) T'
  | [], done, h, entries, i, T, _, _, hq, hs, _, hkeys, hst =>
    ⟨h, entries, T, rfl, wrote_refl hq hs a, by rwa [List.append_nil], by rwa [List.append_nil]⟩
  | (key, v) :: rest, done, h, entries, i, T, hplain, hnodup, hq, hs, ha, hkeys, hst => by
    have hkey : Dict.get? entries key = none := by
      rw [Dict.get?_eq_none_iff, hkeys]
      rw [Dict.keys, List.map_append, List.nodup_append] at hnodup
      exact fun hm => hnodup.2.2 key hm key (.head _) rfl
    obtain ⟨h₁, d, T₁, hset, hw₁, hst₁⟩ := run_setPlain hk (n := n) hplain.1 hq hs ha hst hkey
    have hvalues : Dict.values done ++ [v] = Dict.values (done ++ [(key, v)]) := by simp [Dict.values]
    have hkeys₁ : Dict.keys (entries ++ [(key, d)]) = Dict.keys (done ++ [(key, v)]) := by
      simpa [Dict.keys] using hkeys
    rw [hvalues] at hst₁
    rw [List.append_cons] at hnodup ⊢
    obtain ⟨h₂, entries₂, T₂, hrest, hw₂, hkeys₂, hst₂⟩ :=
      run_setAll rest _ hplain.2 hnodup hw₁.quiet hw₁.sound ha hkeys₁ hst₁
    refine ⟨h₂, entries₂, T₂, ?_, hw₁.trans hw₂, hkeys₂, hst₂⟩
    rw [HashView.setAll, run_bind_ok (HostM.run_attempt_eq hset)]
    exact hrest

/-! ## Assignments that succeed -/

theorem run_createGlobal_ok {t : Handle} (hs : h.Sound σ) (hslot : slot ≠ .code)
    (hrun : (createGlobal s slot qualified).run (w.put s h n) = (.ok t, w')) :
    ∃ c h₁, t = ⟨s, c⟩ ∧ w' = w.put s h₁ (n + 1) ∧ h₁.Quiet ∧ h₁.Sound (c :: σ) ∧
      h.Assigned h₁ slot (Name.qualify qualified) c := by
  obtain ⟨c, h₁, hanswer, hs₁, -, -, hassigned⟩ := run_global_create hs hslot qualified
  obtain ⟨o, w₁, hcross, hrest⟩ := run_bind_eq_ok hrun
  obtain ⟨hq₁, rfl, rfl⟩ := run_cross_ok (.global slot qualified true) (hk.put h n)
    ⟨[], hs⟩ rfl hanswer hs₁ hcross
  rw [World.put_put] at hrest
  cases hrest
  exact ⟨c, h₁, rfl, rfl, hq₁, hs₁, hassigned⟩

end

/-- The variable has been assigned the value: its cell carries it, and no other cell was written. -/
structure Takes (h h' : Heap) (slot : Slot) (qualified : String) (v : Value) (c : CellId)
    (σ : List CellId) : Prop where
  quiet : h'.Quiet
  sound : h'.Sound σ
  assigned : h.Assigned h' slot qualified c
  carries : ∃ content T, h'.HasContent c content ∧ ContentCarries h' (v.assigned slot) content T

section
variable (hk : w.KeptOn s setup h)
include hk

/-- An error that is pending would have kept the value from becoming a cell. -/
theorem quiet_of_newCell {source : Handle} (hs : h.Sound σ) (hplain : v.Plain)
    (hnew : (newCell s v).run w = (.ok source, w')) : h.Quiet :=
  hs.quiet_or_pending.resolve_right fun hp => by
    obtain ⟨e, w₁, herror⟩ := run_newCell_pending hk.toRunsOn ⟨[], hs⟩ hp hplain
    rw [hnew] at herror
    cases herror

theorem takes_scalar (hs : h.Sound σ) (hplain : v.Plain)
    (hrun : (do
      let source ← newCell s v
      holding [source] do
        let target ← createGlobal s .scalar qualified
        holding [target] do cross s "set_global" (.assign target source) : HostM Unit).run w =
          (.ok (), w')) :
    ∃ h' c, w' = w.put s h' 0 ∧ Takes h h' .scalar (Name.qualify qualified) v c σ := by
  obtain ⟨source, w₁, hnew, hrest⟩ := run_bind_eq_ok hrun
  have hq := quiet_of_newCell hk hs hplain hnew
  obtain ⟨c, x, T, h₁, hnew', hp, -, hs₁⟩ := run_newTree hk (n := 0) hplain hq hs
  rw [hk.put_self] at hnew'
  obtain ⟨hsource, rfl⟩ := Prod.mk.inj (hnew.symm.trans hnew')
  obtain rfl := Except.ok.inj hsource
  obtain ⟨w₂, hinner⟩ := HostM.holding_ok hrest
  obtain ⟨target, w₃, hcreate, hassign⟩ := run_bind_eq_ok hinner
  obtain ⟨a, h₂, rfl, rfl, -, hs₂, ha₂⟩ := run_createGlobal_ok hk hs₁ (by simp) hcreate
  obtain ⟨w₄, hcross⟩ := HostM.holding_ok hassign
  obtain ⟨h₃, hanswer, hs₃, ha₃, hscalar⟩ := hp.run_assign hs ha₂ hs₂ (.head _) (.tail _ (.head _))
  have hanswer' : (Heap.answer setup (.assign a c)).run h₂ = (.ok (), h₃) := hanswer
  obtain ⟨hq₃, -, rfl⟩ := run_cross_ok (.assign ⟨s, a⟩ ⟨s, c⟩) (hk.put h₂ 2) ⟨[], hs₂⟩ rfl
    hanswer' hs₃ hcross
  rw [World.put_put] at hcross
  -- both handles are released
  obtain ⟨h₄, hrelease, hfirst, hs₄⟩ := hs₃.run_release
  obtain ⟨h₅, hrelease', hsecond, hs₅⟩ := hs₄.run_release
  have hshrinks := hfirst.trans hsecond
  obtain ⟨-, rfl⟩ := Prod.mk.inj (hassign.symm.trans (hk.run_holding hcross hrelease))
  obtain ⟨-, rfl⟩ := Prod.mk.inj (hrest.symm.trans (hk.run_holding hinner hrelease'))
  have ha₅ := ha₃.unchanged hshrinks.firm
  have hlive : h₅.isLive a := by
    obtain ⟨z, hz, -⟩ := hs₅.named.sorts _ _ _ ha₅.named
    exact isLive_of_cell? hz
  obtain ⟨hown, hcarries⟩ := hp.carries hs ha₅ hs₅ (hshrinks.scalar_ok hscalar hlive)
  exact ⟨h₅, a, rfl, hq₃.shrinks hshrinks hs₅, hs₅, hp.toKeeps.firm.assigned ha₅, _, T, hown, hcarries⟩

theorem takes_filled {ι : Type} {F : Filling ι} {items : List ι} (empty : Content)
    (hslot : F.slot ≠ .code) (hs : h.Sound σ)
    (hclear : ∀ {h₁ c}, h₁.Quiet → h₁.Sound (c :: σ) → h₁.HasSort F.slot c → ∃ h₂,
      (F.clear ⟨s, c⟩).run (w.put s h₁ 1) = (.ok (), w.put s h₂ 1) ∧ h₁.Wrote c (c :: σ) h₂ ∧
        h₂.HasContent c empty)
    (hfill : ∀ {h₁ c}, h₁.Quiet → h₁.Sound (c :: σ) → h₁.HasContent c empty → ∃ h₂ content T,
      (F.fill ⟨s, c⟩ items).run (w.put s h₁ 1) = (.ok (), w.put s h₂ 1) ∧ h₁.Wrote c (c :: σ) h₂ ∧
        h₂.HasContent c content ∧ ContentCarries h₂ (v.assigned F.slot) content T)
    (hrun : (F.refill s qualified items).run w = (.ok (), w')) :
    ∃ h' c, w' = w.put s h' 0 ∧ Takes h h' F.slot (Name.qualify qualified) v c σ := by
  rw [Filling.refill] at hrun
  obtain ⟨target, w₁, htarget, hrest⟩ := run_bind_eq_ok hrun
  obtain ⟨t, w₂, hcreate, hcleared⟩ := run_bind_eq_ok (HostM.orRelease_ok htarget)
  have hcreate' : (createGlobal s F.slot qualified).run (w.put s h 0) = (.ok t, w₂) := by
    rwa [hk.put_self]
  obtain ⟨c, h₁, rfl, rfl, hq₁, hs₁, ha₁⟩ := run_createGlobal_ok hk hs hslot hcreate'
  obtain ⟨h₂, hclear, hw₂, hempty⟩ := hclear hq₁ hs₁ (hs₁.hasSort ha₁.named)
  rw [run_bind_ok (run_orRelease_ok hclear)] at hcleared
  cases hcleared
  obtain ⟨h₃, content, T, hfill, hw₃, hown, hcarries⟩ := hfill hw₂.quiet hw₂.sound hempty
  obtain ⟨h₄, hrelease, hshrinks, hs₄⟩ := hw₃.sound.run_release
  obtain ⟨-, rfl⟩ := Prod.mk.inj (hrest.symm.trans (hk.run_holding hfill hrelease))
  have ha₄ := ((ha₁.besides hw₂.firm).besides hw₃.firm).unchanged hshrinks.firm
  obtain ⟨y, hy, -⟩ := hs₄.hasSort ha₄.named
  have hown₄ := hown.shrinks hshrinks hs₄ (isLive_of_cell? hy)
  have hlive : ∀ d ∈ content.children, h₄.isLive d := by
    obtain ⟨_, _, hx, -⟩ := hown₄
    exact fun d => hs₄.isLive_child hx
  refine ⟨h₄, c, rfl, hw₃.quiet.shrinks hshrinks hs₄, hs₄, ha₄, content, T, hown₄, ?_⟩
  exact hcarries.shrinks hshrinks hs₄ hlive

omit hk in
theorem arrayItems_plain {items : List Value} (hplain : v.Plain)
    (hrun : (arrayItems v).run w = (.ok items, w')) :
    w' = w ∧ Value.PlainItems items ∧ v.assigned .array = .list items := by
  cases v with
  | list items =>
    rw [arrayItems, handlesOfItems_plain hplain] at hrun
    cases hrun
    exact ⟨rfl, hplain, rfl⟩
  | nothing =>
    cases hrun
    exact ⟨rfl, trivial, rfl⟩
  | array _ => cases hplain
  | _ => cases hrun

omit hk in
theorem hashEntries_plain {entries : List (String × Value)} (hplain : v.Plain)
    (hrun : (hashEntries v).run w = (.ok entries, w')) :
    w' = w ∧ (Dict.keys entries).Nodup ∧ Value.PlainEntries entries ∧
      v.assigned .hash = .mapping entries := by
  cases v with
  | mapping entries =>
    rw [hashEntries, handlesOfEntries_plain hplain.2] at hrun
    cases hrun
    exact ⟨rfl, hplain.1, hplain.2, rfl⟩
  | nothing =>
    cases hrun
    exact ⟨rfl, List.nodup_nil, trivial, rfl⟩
  | hash _ => cases hplain
  | _ => cases hrun

theorem run_clearing {h₂ : Heap} (operation : String) (request : Request Handle .nothing)
    (hq : h₁.Quiet) (hs : h₁.Sound σ) (hc : h₁.HasSort slot c) (hslot : slot ≠ .scalar)
    (hanswer : (Heap.answer setup (request.map Handle.cell)).run h₁ = (.ok (), h₂))
    (hs₂ : h₂.Sound σ) (hf : h₁.Firm (Besides c) h₂) :
    (cross s operation request).run (w.put s h₁ n) = (.ok (), w.put s h₂ n) ∧ h₁.Wrote c σ h₂ := by
  obtain ⟨x, hx, hsort⟩ := hc
  have hq₂ : h₂.Quiet := hq.writes hs hs₂ hx (by rw [hsort]; simp [hslot]) hf
  exact ⟨hk.run_cross operation request hanswer hq₂, hq₂, hs₂, hf⟩

theorem takes_array {items : List Value} (hs : h.Sound σ) (hplain : Value.PlainItems items)
    (hvalue : v.assigned .array = .list items)
    (hrun : (pushing.refill s qualified items).run w = (.ok (), w')) :
    ∃ h' c, w' = w.put s h' 0 ∧ Takes h h' .array (Name.qualify qualified) v c σ := by
  refine takes_filled (F := pushing) hk (.array #[]) (by simp [pushing]) hs ?_ ?_ hrun
  · intro h₁ c hq₁ hs₁ hsort
    obtain ⟨cs, hcs⟩ := hsort.items
    obtain ⟨h₂, hanswer, hs₂, hf, hempty⟩ := run_arrayClear hcs hs₁ (.head _)
    obtain ⟨hrun, hw⟩ := run_clearing hk "array clear" (.arrayClear ⟨s, c⟩) hq₁ hs₁ hsort (by simp [pushing])
      hanswer hs₂ hf
    exact ⟨h₂, hrun, hw, hs₂.hasItems hempty⟩
  · intro h₁ c hq₁ hs₁ hempty
    have hst : h₁.Stocked [] c (.array #[]) [] := ⟨hempty, .nil, List.not_mem_nil⟩
    obtain ⟨h₂, cs, T, hfill, hw, hst'⟩ := run_pushAll hk (n := 1) items hplain hq₁ hs₁ (.head _) hst
    refine ⟨h₂, .array cs, T, hfill, hw, hst'.own, ?_⟩
    rw [show pushing.slot = .array from rfl, hvalue]
    exact .array hst'.items

theorem takes_hash {entries : List (String × Value)} (hs : h.Sound σ)
    (hnodup : (Dict.keys entries).Nodup) (hplain : Value.PlainEntries entries)
    (hvalue : v.assigned .hash = .mapping entries)
    (hrun : (setting.refill s qualified entries).run w = (.ok (), w')) :
    ∃ h' c, w' = w.put s h' 0 ∧ Takes h h' .hash (Name.qualify qualified) v c σ := by
  refine takes_filled (F := setting) hk (.hash [] 0) (by simp [setting]) hs ?_ ?_ hrun
  · intro h₁ c hq₁ hs₁ hsort
    obtain ⟨d, i, hd⟩ := hsort.hash
    obtain ⟨h₂, hanswer, hs₂, hf, hempty⟩ := run_hashClear hd hs₁ (.head _)
    obtain ⟨hrun, hw⟩ := run_clearing hk "hash clear" (.hashClear ⟨s, c⟩) hq₁ hs₁ hsort (by simp [setting])
      hanswer hs₂ hf
    exact ⟨h₂, hrun, hw, hs₂.hasHash hempty⟩
  · intro h₁ c hq₁ hs₁ hempty
    have hst : h₁.Stocked (Dict.values ([] : List (String × Value))) c (.hash [] 0) [] :=
      ⟨hempty, .nil, List.not_mem_nil⟩
    obtain ⟨h₂, d, T, hfill, hw, hkeys, hst'⟩ :=
      run_setAll hk (n := 1) entries [] hplain hnodup hq₁ hs₁ (.head _) rfl hst
    refine ⟨h₂, .hash d 0, T, hfill, hw, hst'.own, ?_⟩
    rw [show setting.slot = .hash from rfl, hvalue]
    exact .hash hkeys hst'.items

theorem writeGlobal_ok (hs : h.Sound σ) (hplain : v.Plain)
    (hrun : (writeGlobal s name v).run w = (.ok (), w')) :
    ∃ h' c, w' = w.put s h' 0 ∧ Takes h h' (Name.parseGlobal name).1
      (Name.qualify (Name.parseGlobal name).2) v c σ := by
  rw [writeGlobal] at hrun
  cases hname : Name.parseGlobal name with
  | mk slot qualified =>
    rw [hname] at hrun
    cases slot with
    | scalar => exact takes_scalar hk hs hplain hrun
    | array =>
      obtain ⟨items, w₁, hitems, hrest⟩ := run_bind_eq_ok hrun
      obtain ⟨rfl, hplain', hvalue⟩ := arrayItems_plain hplain hitems
      have hrefill := run_refilling (f := ArrayView.mk) (g := ArrayView.cell) (fun _ => rfl)
        (Value.handlesOfItems items) (createGlobal s .array qualified) ArrayView.clear (·.pushAll items) w₁
      exact takes_array hk hs hplain' hvalue (hrefill.symm.trans hrest)
    | hash =>
      obtain ⟨entries, w₁, hentries, hrest⟩ := run_bind_eq_ok hrun
      obtain ⟨rfl, hnodup, hplain', hvalue⟩ := hashEntries_plain hplain hentries
      have hrefill := run_refilling (f := HashView.mk) (g := HashView.cell) (fun _ => rfl)
        (Value.handlesOfEntries entries) (createGlobal s .hash qualified) HashView.clear (·.setAll entries) w₁
      exact takes_hash hk hs hnodup hplain' hvalue (hrefill.symm.trans hrest)
    | code => cases hrun

end

end Embedding

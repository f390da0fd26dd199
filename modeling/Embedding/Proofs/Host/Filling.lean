import Embedding.Proofs.Heap.Variables
import Embedding.Proofs.Host.Arrivals
import Embedding.Proofs.Host.Calls

/-!
# Filling containers

A container is filled item by item, up to the first that cannot become a cell of its session. What is
in it then is what the items before that one put there.
-/

namespace Embedding

open Heap
open HostM (holding orRelease)

variable {origin w w' : World} {hs σ : List Handle} {s : SessionId} {h : Heap} {slot : Slot}
  {c : Handle} {e : HostError}

/-! ## Writing -/

theorem Arrived.run_length {a : ArrayView} (ha : Arrived origin a.cell.session w hs h)
    (hfresh : origin.Fresh) (hmem : a.cell ∈ hs) : a.length.run w = match h.items a.cell.cell with
      | .ok items => (.ok items.size, w)
      | .error fault => (.error (fault.toHostError "array length"), w) := by
  obtain ⟨-, hq, -⟩ := ha.good hfresh hmem rfl
  have hlength : (query (·.arrayLength a.cell.cell)).run h = (h.arrayLength a.cell.cell, h) := run_query ..
  cases hitems : h.items a.cell.cell with
  | ok items =>
    rw [arrayLength_ok hitems] at hlength
    obtain ⟨hrun, -⟩ := ha.cross "array length" (.arrayLength a.cell) rfl
      (fun c hc => by rw [List.mem_singleton.1 hc]) (List.cons_subset.2 ⟨hmem, List.nil_subset _⟩)
      hlength hq
    exact hrun.trans (congrArg (Prod.mk _) ha.runs.put_self)
  | error fault =>
    have harray : h.arrayLength a.cell.cell = .error fault := by
      rw [arrayLength, hitems]
      rfl
    rw [harray] at hlength
    exact ha.cross_error "array length" (.arrayLength a.cell) hlength hq
      fun _ he => by cases he; exact deathless_items h a.cell.cell fault hitems

theorem Arrived.run_push {a : ArrayView} {items : Array CellId} (ha : Arrived origin a.cell.session w hs h)
    (hfresh : origin.Fresh) (hmem : a.cell ∈ hs) (hitems : h.items a.cell.cell = .ok items) (v : Value) :
    (a.push v).run w = (a.set items.size v).run w := by
  have hlength := ha.run_length hfresh hmem
  rw [hitems] at hlength
  rw [ArrayView.push, run_bind_ok (run_orRelease_ok hlength)]

section
variable (hfresh : origin.Fresh)
include hfresh

/-- A request that writes into a container and gives nothing. -/
theorem Anchored.run_write {c : CellId} (ha : Anchored origin s w hs h) (hq : h.Quiet)
    (operation : String) (request : Request Handle .nothing)
    (hplain : request.isPlain = true) (hcells : ∀ a ∈ request.cells, a.session = s)
    (hsub : request.cells ⊆ hs) (hc : h.HasSort slot c) (hslot : slot ≠ .scalar)
    (hgives : Gives (Heap.answer (origin.session s).engine.interpreter.setup
      (request.map Handle.cell)) h [] fun _ => [])
    (hfirm : Preserves (h.Firm (Besides c)) (Heap.answer
      (origin.session s).engine.interpreter.setup (request.map Handle.cell))) :
    ∃ h₁, (cross s operation request).run w = (.ok (), w.put s h₁ 0) ∧
      Anchored origin s (w.put s h₁ 0) hs h₁ ∧ h.Evolves h₁ ∧ h₁.Quiet := by
  obtain ⟨lost, hs'⟩ := ha.leaky hfresh
  obtain ⟨h₁, hanswer, hev, hq₁⟩ := hc.run_writing hslot hs' hq hgives hfirm
  obtain ⟨hrun, ha₁⟩ := ha.cross operation request hplain hcells hsub hanswer hq₁
  exact ⟨h₁, hrun, ha.put ha₁, hev, hq₁⟩

theorem Anchored.run_createGlobal (ha : Anchored origin s w hs h) (hq : h.Quiet) (hslot : slot ≠ .code)
    (qualified : String) : ∃ c h₁,
      (createGlobal s slot qualified).run w = (.ok ⟨s, c⟩, w.put s h₁ 1) ∧
      Anchored origin s (w.put s h₁ 1) (⟨s, c⟩ :: hs) h₁ ∧ h₁.Quiet ∧ h.Evolves h₁ ∧
      h₁.symbol? slot (Name.qualify qualified) = some c ∧
      (h.symbol? slot (Name.qualify qualified) = some c ∨
        h.symbol? slot (Name.qualify qualified) = none ∧ h.cells.size ≤ c.index) := by
  obtain ⟨lost, hs'⟩ := ha.leaky hfresh
  obtain ⟨c, h₁, hanswer, -, hev, hq₁, hassigned⟩ := run_global_create hs' hslot qualified
  obtain ⟨hrun, ha₁⟩ := ha.cross "set_global" (.global slot qualified true) rfl nofun
    (List.nil_subset hs) hanswer (hq₁ hq)
  refine ⟨c, h₁, ?_, ha.put ha₁, hq₁ hq, hev, hassigned.named, hassigned.own⟩
  rw [createGlobal, globalCell, run_bind_ok hrun]
  rfl

theorem Anchored.leaves {α : Type} {x : HostM α} {taken b : List Handle} {given : α → List Handle}
    {r : Except HostError α} (ha : Anchored origin s w (taken ++ σ) h) (hq : h.Quiet) (hb : b ⊆ σ)
    (hx : ∀ {may : Permission} {I}, Dealing may I → ∀ [Looks may] [Makes may s I],
      Accounts I b x taken given) (hrun : x.run w = (r, w')) :
    ∃ h', Anchored origin s w' (hostStakes given r ++ σ) h' ∧ h.Firm Turning h' ∧ h'.Quiet ∧
      ∀ name, h.Stays h' name := by
  have hends : Ends x w _ := ha.browsing hfresh hq hb hx
  obtain ⟨h', ha', hf, hq'⟩ := hends.of_run hrun
  obtain ⟨lost, hs⟩ := ha.leaky hfresh
  obtain ⟨lost', hs'⟩ := ha'.leaky hfresh
  exact ⟨h', ha', hf, hq', hf.stays hs hs'⟩

/-! ## Storing an item -/

/-- A value is stored as soon as there is a cell with it. -/
theorem Anchored.store_error {operation : String} {v : Value}
    (ha : Anchored origin s w (v.handles ++ σ) h) (request : Handle → Request Handle .nothing)
    (hcσ : c ∈ σ) (hsession : c.session = s)
    (hc : h.HasSort slot c.cell) (hslot : slot ≠ .scalar)
    (hplain : ∀ item, (request item).isPlain = true) (hcells : ∀ item, (request item).cells = [c, item])
    (hgives : ∀ {h : Heap} item, h.HasSort slot c.cell → h.isLive item.cell → Gives (Heap.answer
      (origin.session s).engine.interpreter.setup ((request item).map Handle.cell)) h [] fun _ => [])
    (hfirm : ∀ (h : Heap) item, Preserves (h.Firm (Besides c.cell)) (Heap.answer
      (origin.session s).engine.interpreter.setup ((request item).map Handle.cell)))
    (hrun : (do
      let item ← holding v.handles (newCell s v)
      holding [item] (cross s operation (request item)) : HostM Unit).run w = (.error e, w')) :
    (holding v.handles (newCell s v)).run w = (.error e, w') := by
  obtain ⟨-, hq, -⟩ := ha.good hfresh (List.mem_append_right _ hcσ) hsession
  have hends : Ends (holding v.handles (newCell s v)) w _ :=
    ha.browsing hfresh hq (List.nil_subset σ) fun hdealing =>
      hdealing.holding v.handles ((hdealing.accounts_newCell v).mono (List.subset_append_left ..))
  cases hnew : (holding v.handles (newCell s v)).run w with
  | mk r w₁ =>
    obtain ⟨h₁, ha₁, hf, hq₁⟩ := hends.of_run hnew
    cases r with
    | error e' =>
      rw [run_bind_error hnew] at hrun
      cases hrun
      rfl
    | ok item =>
      -- there is a cell with the value, so the store cannot fail
      exfalso
      obtain ⟨w₀, hitem⟩ := HostM.holding_ok hnew
      obtain ⟨lost, hs₁⟩ := ha₁.leaky hfresh
      have hmem : c ∈ [item] ++ σ := List.mem_append_right _ hcσ
      have hlive {a : Handle} (ha : a ∈ [item] ++ σ) (hs : a.session = s) : h₁.isLive a.cell :=
        hs₁.isLive (List.mem_append_right lost (hs ▸ mem_cellsOf ha))
      have hitem' : item ∈ [item] ++ σ := List.mem_cons_self ..
      have hc₁ : h₁.HasSort slot c.cell := by
        obtain ⟨x, hx, hsort⟩ := hc
        obtain ⟨x', hx'⟩ := exists_cell (hlive hmem hsession)
        obtain ⟨y, hy, hturning, -⟩ := hf.cells _ x' (lt_of_cell? hx) hx'
        obtain rfl := Option.some.inj (hx.symm.trans hy)
        exact ⟨x', hx', (turning_slot? hturning).trans hsort⟩
      obtain ⟨h₂, hcross, -⟩ := ha₁.run_write hfresh hq₁ operation (request item) (hplain item)
        (by simp [hcells, hsession, newCell_session hitem])
        (by rw [hcells]; exact List.cons_subset.2 ⟨hmem, List.cons_subset.2 ⟨hitem', List.nil_subset _⟩⟩)
        hc₁ hslot (hgives item hc₁ (hlive hitem' (newCell_session hitem))) (hfirm h₁ item)
      rw [run_bind_ok hnew, HostM.run_holding, hcross] at hrun
      cases hrun

theorem Anchored.push_error {v : Value} (ha : Anchored origin s w (v.handles ++ σ) h) (hcσ : c ∈ σ)
    (hsession : c.session = s) (hc : h.HasSort .array c.cell)
    (hrun : (ArrayView.push ⟨c⟩ v).run w = (.error e, w')) :
    (holding v.handles (newCell s v)).run w = (.error e, w') := by
  subst hsession
  obtain ⟨items, hitems⟩ := hc.items
  rw [ha.run_push hfresh (List.mem_append_right _ hcσ) hitems] at hrun
  refine ha.store_error hfresh (fun item => .arrayStore c items.size item) hcσ rfl hc nofun
    (fun _ => rfl) (fun _ => rfl) (fun item hc hlive => ?_)
    (fun h item => preserves_arrayStore h c.cell items.size item.cell) hrun
  obtain ⟨items', hitems'⟩ := hc.items
  exact gives_arrayStore hitems' hlive items.size

theorem Anchored.set_error {key : String} {v : Value} (ha : Anchored origin s w (v.handles ++ σ) h)
    (hcσ : c ∈ σ) (hsession : c.session = s) (hc : h.HasSort .hash c.cell)
    (hrun : (HashView.set ⟨c⟩ key v).run w = (.error e, w')) :
    (holding v.handles (newCell s v)).run w = (.error e, w') := by
  subst hsession
  refine ha.store_error hfresh (fun item => .hashStore c key item) hcσ rfl hc nofun
    (fun _ => rfl) (fun _ => rfl) (fun item hc hlive => ?_)
    (fun h item => preserves_hashStore h c.cell key item.cell) hrun
  obtain ⟨entries, cursor, hhash⟩ := hc.hash
  exact gives_hashStore hhash hlive key

end

/-! ## Item by item -/

/-- How the containers of one sort are filled with items that have values. -/
structure Filling (ι : Type) where
  slot : Slot
  value : ι → Value
  handles : List ι → List Handle
  clear : Handle → HostM Unit
  store : Handle → ι → HostM Unit
  fill : Handle → List ι → HostM Unit

/-- Makes or empties the variable of a qualified name, and fills it. -/
def Filling.refill {ι : Type} (F : Filling ι) (s : SessionId) (qualified : String) (items : List ι) :
    HostM Unit := do
  let target ← orRelease (F.handles items) do
    let target ← createGlobal s F.slot qualified
    orRelease [target] (F.clear target)
    return target
  holding [target] (F.fill target items)

/-- The items are stored one after another, up to the first whose value cannot become a cell. All are
taken over. -/
structure Filling.Lawful {ι : Type} (F : Filling ι) : Prop where
  handles_eq : ∀ items, F.handles items = Value.handlesOfItems (items.map F.value)
  fill_nil : ∀ c, F.fill c [] = pure ()
  fill_cons : ∀ c item items, F.fill c (item :: items) = do
    match ← (F.store c item).attempt with
    | .ok () => F.fill c items
    | .error e =>
      HostM.release (F.handles items)
      throw e
  accounts : ∀ {may : Permission} {I} {c : Handle}, Dealing may I → ∀ [Looks may] [Free may c.session]
    items, Accounts I [c] (F.fill c items) (F.handles items) fun _ => []
  run_clear : ∀ {origin w hs s h c}, origin.Fresh → Anchored origin s w hs h → h.Quiet → c ∈ hs →
    c.session = s → h.HasSort F.slot c.cell → ∃ h₁, (F.clear c).run w = (.ok (), w.put s h₁ 0) ∧
      Anchored origin s (w.put s h₁ 0) hs h₁ ∧ h.Evolves h₁ ∧ h₁.Quiet
  store_error : ∀ {origin w w' σ s h c e item}, origin.Fresh →
    Anchored origin s w ((F.value item).handles ++ σ) h → c ∈ σ → c.session = s →
    h.HasSort F.slot c.cell → (F.store c item).run w = (.error e, w') →
    (holding (F.value item).handles (newCell s (F.value item))).run w = (.error e, w')

def pushing : Filling Value where
  slot := .array
  value := id
  handles := Value.handlesOfItems
  clear c := ArrayView.clear ⟨c⟩
  store c := ArrayView.push ⟨c⟩
  fill c := ArrayView.pushAll ⟨c⟩

def setting : Filling (String × Value) where
  slot := .hash
  value := Prod.snd
  handles := Value.handlesOfEntries
  clear c := HashView.clear ⟨c⟩
  store c entry := HashView.set ⟨c⟩ entry.1 entry.2
  fill c := HashView.setAll ⟨c⟩

theorem lawful_pushing : pushing.Lawful where
  handles_eq items := by rw [show items.map pushing.value = items from List.map_id items]; rfl
  fill_nil _ := rfl
  fill_cons _ _ _ := rfl
  accounts hdealing _ _ items := hdealing.accounts_arrayPushAll _ items
  run_clear {_ _ _ _ _ c} hfresh ha hq hmem hsession hc := by
    subst hsession
    obtain ⟨items, hitems⟩ := hc.items
    exact ha.run_write hfresh hq "array clear" (.arrayClear c) rfl (by simp [Request.cells])
      (by simpa [Request.cells] using hmem) hc nofun (gives_arrayClear hitems)
      (preserves_arrayClear _ c.cell)
  store_error hfresh ha hcσ hsession hc hrun := ha.push_error hfresh hcσ hsession hc hrun

theorem handlesOfItems_values (entries : List (String × Value)) :
    Value.handlesOfItems (entries.map Prod.snd) = Value.handlesOfEntries entries := by
  induction entries with
  | nil => rfl
  | cons entry entries ih =>
    obtain ⟨key, v⟩ := entry
    exact congrArg (v.handles ++ ·) ih

theorem lawful_setting : setting.Lawful where
  handles_eq entries := (handlesOfItems_values entries).symm
  fill_nil _ := rfl
  fill_cons _ _ _ := rfl
  accounts hdealing _ _ items := hdealing.accounts_hashSetAll _ items
  run_clear {_ _ _ _ _ c} hfresh ha hq hmem hsession hc := by
    subst hsession
    obtain ⟨entries, cursor, hhash⟩ := hc.hash
    exact ha.run_write hfresh hq "hash clear" (.hashClear c) rfl (by simp [Request.cells])
      (by simpa [Request.cells] using hmem) hc nofun (gives_hashClear hhash)
      (preserves_hashClear _ c.cell)
  store_error hfresh ha hcσ hsession hc hrun := ha.set_error hfresh hcσ hsession hc hrun

section
variable {ι : Type} {F : Filling ι} (hF : F.Lawful) {items : List ι}
include hF

theorem Filling.Lawful.handles_append (before after : List ι) :
    F.handles (before ++ after) = F.handles before ++ F.handles after := by
  rw [hF.handles_eq, hF.handles_eq, hF.handles_eq, List.map_append, handlesOfItems_append]

theorem Filling.Lawful.handles_cons (item : ι) (items : List ι) :
    F.handles (item :: items) = (F.value item).handles ++ F.handles items := by
  rw [hF.handles_eq, hF.handles_eq]
  rfl

/-- A filling that fails has stored the items before the one that it fails at. -/
theorem Filling.Lawful.fill_error (hrun : (F.fill c items).run w = (.error e, w')) :
    ∃ before item after w₁ w₂, items = before ++ item :: after ∧
      (F.fill c before).run w = (.ok (), w₁) ∧ (F.store c item).run w₁ = (.error e, w₂) ∧
      w' = w₂.releaseAll (F.handles after) := by
  induction items generalizing w with
  | nil =>
    rw [hF.fill_nil] at hrun
    cases hrun
  | cons item items ih =>
    rw [hF.fill_cons, run_bind_ok (HostM.run_attempt _ w)] at hrun
    cases hstore : (F.store c item).run w with
    | mk r w₁ =>
      rw [hstore] at hrun
      cases r with
      | error e' =>
        cases hrun
        exact ⟨[], item, items, w, w₁, rfl, by rw [hF.fill_nil]; rfl, hstore, rfl⟩
      | ok u =>
        obtain ⟨before, item', after, w₂, w₃, rfl, hbefore, hitem, hw'⟩ := ih hrun
        refine ⟨item :: before, item', after, w₂, w₃, rfl, ?_, hitem, hw'⟩
        rw [hF.fill_cons, run_bind_ok (HostM.run_attempt _ w), hstore]
        exact hbefore

/-- The filling stops at the first item whose value cannot become a cell, and fails as that does. The
variable is as the items before that one leave it. -/
def StopsAt (s : SessionId) (value : ι → Value) (fill : List ι → HostM Unit) (items : List ι)
    (w : World) (e : HostError) (h' : Heap) (name : String) : Prop :=
  ∃ before item after, items = before ++ item :: after ∧
    (∃ w₁ w₂, (newCell s (value item)).run w₁ = (.error e, w₂)) ∧
    ∃ w₁ h₁, (fill before).run w = (.ok (), w₁) ∧
      (w₁.session s).engine.interpreter.heap = some h₁ ∧ h₁.Stays h' name

theorem Filling.Lawful.stopsAt (hfresh : origin.Fresh)
    (ha : Anchored origin s w (F.handles items ++ c :: σ) h) (hsession : c.session = s)
    (hc : h.HasSort F.slot c.cell) (hrun : (holding [c] (F.fill c items)).run w = (.error e, w'))
    (name : String) : ∃ h', Anchored origin s w' (e.handles ++ σ) h' ∧
      StopsAt s F.value (fun items => holding [c] (F.fill c items)) items w e h' name := by
  rw [HostM.run_holding] at hrun
  obtain ⟨he, rfl⟩ := Prod.mk.inj hrun
  obtain ⟨before, item, after, w₁, w₂, rfl, hbefore, hstore, hend⟩ :=
    hF.fill_error (show (F.fill c items).run w = (.error e, ((F.fill c items).run w).2) from Prod.ext he rfl)
  -- after the items before, the host still holds those from there on and the container
  rw [hF.handles_append, hF.handles_cons, List.append_assoc, List.append_assoc] at ha
  have hmem : c ∈ (F.value item).handles ++ (F.handles after ++ c :: σ) := by simp
  have hfilled : Ends (F.fill c before) w _ :=
    ha.acting hfresh (List.cons_subset.2 ⟨hmem, List.nil_subset _⟩) fun hdealing => by
      subst hsession
      exact hF.accounts hdealing before
  obtain ⟨h₁, ha₁, hev⟩ := hfilled.of_run hbefore
  obtain ⟨-, hq₁, -⟩ := ha₁.good hfresh hmem hsession
  obtain ⟨lost₁, hs₁⟩ := ha₁.leaky hfresh
  have hc₁ : h₁.HasSort F.slot c.cell := by
    refine hc.evolves hev (hs₁.isLive (List.mem_append_right lost₁ ?_))
    exact hsession ▸ mem_cellsOf hmem
  have hnew := hF.store_error hfresh ha₁ (List.mem_append_right _ (List.mem_cons_self ..)) hsession hc₁
    hstore
  -- from there, one run ends the failed filling, and one ends the filling with the items before
  let failed := holding [c] (holding (F.handles after)
    (holding (F.value item).handles (newCell s (F.value item))))
  have hfailed : failed.run w₁ = (.error e, ((F.fill c (before ++ item :: after)).run w).2.releaseAll [c]) := by
    simp only [failed]
    rw [HostM.run_holding, HostM.run_holding, hnew, hend]
  have hall : Anchored origin s w₁ (([] ++ (F.value item).handles ++ F.handles after ++ [c]) ++ σ) h₁ := by
    simpa [hostStakes] using ha₁
  obtain ⟨h', ha', -, -, hstays'⟩ := hall.leaves hfresh hq₁ (List.nil_subset σ) (fun hdealing =>
    hdealing.holding [c] (hdealing.holding (F.handles after) (hdealing.holding (F.value item).handles
      ((hdealing.accounts_newCell _).mono (List.subset_append_left ..))))) hfailed
  have hlast : Anchored origin s w₁ ([c] ++ ((F.value item).handles ++ (F.handles after ++ σ))) h₁ := by
    refine ha₁.perm (List.perm_iff_count.2 fun a => ?_)
    simp only [hostStakes, List.count_append, List.count_cons, List.count_nil]
    omega
  obtain ⟨h₂, ha₂, -, -, hstays₂⟩ := hlast.leaves hfresh hq₁ (List.nil_subset _)
    (fun hdealing => hdealing.accounts_release [c])
    (HostM.run_release [c] w₁)
  obtain ⟨w₀, hvalue⟩ : ∃ w₀, (newCell s (F.value item)).run w₁ = (.error e, w₀) := by
    rw [HostM.run_holding] at hnew
    obtain ⟨he, -⟩ := Prod.mk.inj hnew
    exact ⟨_, Prod.ext he rfl⟩
  refine ⟨h', ha', before, item, after, rfl, ⟨w₁, w₀, hvalue⟩, w₁.releaseAll [c], h₂, ?_, ?_, ?_⟩
  · rw [HostM.run_holding, hbefore]
  · rw [ha₂.runs.engine]
  · exact (hstays₂ name).between (hstays' name)

theorem Filling.Lawful.refill_stopsAt (hfresh : origin.Fresh) {qualified : String}
    (hslot : F.slot ≠ .code) (ha : Anchored origin s w (F.handles items ++ σ) h) (hq : h.Quiet)
    (hrun : (F.refill s qualified items).run w = (.error e, w')) (name : String) :
    ∃ h', Anchored origin s w' (e.handles ++ σ) h' ∧
      StopsAt s F.value (F.refill s qualified) items w e h' name := by
  -- the variable is made and emptied whatever the items are
  obtain ⟨c, h₁, hcreate, ha₁, hq₁, -, hnamed, -⟩ := ha.run_createGlobal hfresh hq hslot qualified
  obtain ⟨lost, hs₁⟩ := ha₁.leaky hfresh
  have hc₁ : h₁.HasSort F.slot c := hs₁.hasSort hnamed
  have hmem : (⟨s, c⟩ : Handle) ∈ ⟨s, c⟩ :: (F.handles items ++ σ) := List.mem_cons_self ..
  obtain ⟨h₂, hclear, ha₂, hev, -⟩ := hF.run_clear hfresh ha₁ hq₁ hmem rfl hc₁
  obtain ⟨lost₂, hs₂⟩ := ha₂.leaky hfresh
  have hc₂ : h₂.HasSort F.slot c :=
    hc₁.evolves hev (hs₂.isLive (List.mem_append_right lost₂ (mem_cellsOf hmem)))
  let w₂ := (w.put s h₁ 1).put s h₂ 0
  have hrefill (items : List ι) : (F.refill s qualified items).run w =
      (holding [⟨s, c⟩] (F.fill ⟨s, c⟩ items)).run w₂ := by
    have htarget : (orRelease (F.handles items) (do
        let target ← createGlobal s F.slot qualified
        orRelease [target] (F.clear target)
        return target)).run w = (.ok ⟨s, c⟩, w₂) := by
      rw [HostM.run_orRelease, run_bind_ok hcreate, run_bind, HostM.run_orRelease, hclear]
      rfl
    rw [Filling.refill, run_bind_ok htarget]
  rw [hrefill] at hrun
  have ha₂' : Anchored origin s w₂ (F.handles items ++ ⟨s, c⟩ :: σ) h₂ := ha₂.perm List.perm_middle.symm
  obtain ⟨h', ha', before, item, after, hitems, hvalue, w₃, h₃, hbefore, hstays⟩ :=
    hF.stopsAt hfresh ha₂' rfl hc₂ hrun name
  exact ⟨h', ha', before, item, after, hitems, hvalue, w₃, h₃, (hrefill before).trans hbefore, hstays⟩

end

theorem run_refilling {α : Type} {f : Handle → α} {g : α → Handle} (hg : ∀ c, g (f c) = c)
    (taken : List Handle) (create : HostM Handle) (clear fill : α → HostM Unit) (w : World) :
    (do
      let target ← orRelease taken (do
        let target := f (← create)
        orRelease [g target] (clear target)
        return target)
      holding [g target] (fill target) : HostM Unit).run w =
    (do
      let target ← orRelease taken (do
        let target ← create
        orRelease [target] (clear (f target))
        return target)
      holding [target] (fill (f target)) : HostM Unit).run w := by
  rw [run_bind, run_bind, HostM.run_orRelease, HostM.run_orRelease, run_bind, run_bind]
  cases create.run w with
  | mk r w₁ =>
    cases r with
    | error e => rfl
    | ok c =>
      dsimp only
      rw [hg, run_bind, run_bind, HostM.run_orRelease]
      rcases (clear (f c)).run w₁ with ⟨_ | _, w₂⟩
      · rfl
      · dsimp only
        rw [run_pure, run_pure]
        dsimp only
        rw [hg]

end Embedding

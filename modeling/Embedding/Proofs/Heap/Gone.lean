import Embedding.Proofs.Heap.Latitude
import Embedding.Proofs.Heap.Methods
import Embedding.Proofs.Heap.Variables
import Mathlib.Logic.Relation

/-!
# Cells that are gone

Whatever a host does, even if it gives back more counts than it has, a live cell has a count, and the
number of a cell that was freed is never the number of another one. Every operation looks at the cells that
it works on before it changes anything.
-/

namespace Embedding

namespace Heap

/-- Every live cell has a count. -/
def Counted (h : Heap) : Prop := ∀ c x, h.cell? c = some x → 1 ≤ x.refcount

/-- The number was given out, and its cell was freed. -/
def Gone (h : Heap) (c : CellId) : Prop := c.index < h.cells.size ∧ ¬ h.isLive c

/-- The cascade of `drop` without the allowances that it makes: there is no result if a cell to take a count
from has none, or if the depth is used up before the cascade has ended. -/
def drop? : (depth : Nat) → Heap → CellId → Option Heap
  | 0, h, c => if (h.cell? c).isSome then none else some h
  | depth + 1, h, c =>
    match h.cell? c with
    | none => some h
    | some cell =>
      match cell.refcount with
      | 0 => none
      | 1 => cell.content.children.foldlM (drop? depth) (h.setCell c none)
      | n + 2 => some (h.setCell c (some { cell with refcount := n + 1 }))

variable {h h' : Heap} {c : CellId} {x : Cell}

/-! ## Counts -/

theorem Counted.setCell (hh : h.Counted) {new : Option Cell} (hnew : ∀ y, new = some y → 1 ≤ y.refcount) :
    (h.setCell c new).Counted := by
  intro d y hy
  rw [cell?_setCell] at hy
  split at hy
  · exact hnew y hy
  · exact hh d y hy

theorem Counted.free (hh : h.Counted) (c : CellId) : (h.setCell c none).Counted := hh.setCell nofun

theorem Counted.write (hh : h.Counted) {y : Cell} (hy : 1 ≤ y.refcount) :
    (h.setCell c (some y)).Counted := by
  refine hh.setCell ?_
  rintro _ ⟨⟩
  exact hy

theorem Counted.rewrite (hh : h.Counted) (hx : h.cell? c = some x) {y : Cell}
    (hy : y.refcount = x.refcount) : (h.setCell c (some y)).Counted :=
  hh.write (hy ▸ hh c x hx)

/-- A cascade takes counts from cells that have them, and ends before the depth is used up, since every level
frees a cell. Cells that are gone already are passed over. -/
theorem Counted.drop_aux : ∀ (depth : Nat) {h : Heap} {c : CellId}, h.Counted → h.liveCells ≤ depth →
    h.drop? depth c = some (h.drop depth c) ∧ (h.drop depth c).Counted ∧
      (h.drop depth c).liveCells ≤ h.liveCells
  | 0, h, c, hh, hn => by
    have hnone : h.cell? c = none := by
      cases hc : h.cell? c with
      | none => rfl
      | some x =>
        have := liveCells_free hc
        omega
    exact ⟨by simp [drop?, drop, hnone], hh, Nat.le_refl _⟩
  | depth + 1, h, c, hh, hn => by
    have hall : ∀ (cs : List CellId) (h : Heap), h.Counted → h.liveCells ≤ depth →
        cs.foldlM (drop? depth) h = some (cs.foldl (Heap.drop depth) h) ∧
          (cs.foldl (Heap.drop depth) h).Counted ∧
            (cs.foldl (Heap.drop depth) h).liveCells ≤ h.liveCells := by
      intro cs
      induction cs with
      | nil => exact fun h hh _ => ⟨rfl, hh, Nat.le_refl _⟩
      | cons d cs ih =>
        intro h hh hn
        obtain ⟨hrun, hh', hn'⟩ := Counted.drop_aux depth (c := d) hh hn
        obtain ⟨hrun', hh'', hn''⟩ := ih _ hh' (Nat.le_trans hn' hn)
        refine ⟨?_, hh'', Nat.le_trans hn'' hn'⟩
        rw [List.foldlM_cons, hrun]
        exact hrun'
    cases hc : h.cell? c with
    | none => exact ⟨by simp [drop?, drop, hc], by rwa [drop_freed _ hc], Nat.le_of_eq (by rw [drop_freed _ hc])⟩
    | some x =>
      have hpos := hh c x hc
      rcases Nat.lt_or_ge 1 x.refcount with hx | hx
      · rw [drop_other hc hx]
        obtain ⟨n, hcount⟩ : ∃ n, x.refcount = n + 2 := ⟨x.refcount - 2, by omega⟩
        refine ⟨?_, hh.write ?_, Nat.le_of_eq (liveCells_recount hc _)⟩
        · simp [drop?, hc, hcount]
        · exact Nat.le_sub_one_of_lt hx
      · rw [drop_last hc hx]
        have hlive := liveCells_free hc
        obtain ⟨hrun, hh', hn'⟩ := hall x.content.children (h.setCell c none) (hh.free c) (by omega)
        have hone : x.refcount = 1 := Nat.le_antisymm hx hpos
        exact ⟨by simp [drop?, hc, hone, hrun], hh', by omega⟩

theorem Counted.drop?_eq (hh : h.Counted) (c : CellId) :
    h.drop? h.cells.size c = some (h.drop h.cells.size c) :=
  (Counted.drop_aux _ hh (liveCells_le_size h)).1

theorem stable_counted : Stable .all Counted where
  allocate {h content} hh _ _ := by
    intro d y hy
    rw [cell?_allocate] at hy
    split at hy
    · cases hy
      exact Nat.le_refl 1
    · exact hh d y hy
  recount hh _ n hn := hh.write hn
  drop {h} hh _ := (Counted.drop_aux _ hh (liveCells_le_size h)).2.1
  setContainer hh hx _ _ := hh.rewrite hx rfl
  setScalar hh hx _ _ _ _ := hh.rewrite hx rfl
  setNumified hh hx _ := hh.rewrite hx rfl
  setPackage hh hx _ := hh.rewrite hx rfl
  define hh _ _ _ _ := hh
  made _ := trivial
  named _ _ := trivial
  load hh _ := hh

theorem counted_initial : Counted .initial := by
  intro c x hc
  obtain ⟨-, rfl⟩ := initial_cell? hc
  exact Nat.le_refl 1

/-! ## Numbers -/

theorem slot?_becomes {old new : Content} (hb : old.Becomes new) : new.slot? = old.slot? := by
  cases hb <;> rfl

theorem stable_evolves (base : Heap) : Stable .all base.Evolves where
  allocate hev _ _ := hev.trans (grows_allocate _ _).evolves
  recount hev hx n _ := hev.trans (grows_recount hx n).evolves
  drop hev c := hev.trans (shrinks_drop _ _ c).evolves
  setContainer hev hx hb _ := hev.trans (evolves_setContent hx (slot?_becomes hb))
  setScalar hev hx hs _ _ _ := hev.trans (evolves_setContent hx (by rw [hs]; rfl))
  setNumified hev hx hs := hev.trans (evolves_setContent hx (by rw [hs]; rfl))
  setPackage hev hx _ := hev.trans (evolves_setContent hx rfl)
  define hev _ _ _ hfree := hev.trans (evolves_define hfree)
  made _ := trivial
  named _ _ := trivial
  load hev _ := ⟨hev.size, hev.sorts, hev.symbols⟩

theorem Evolves.gone (hev : h.Evolves h') (hc : h.Gone c) : h'.Gone c := by
  refine ⟨Nat.lt_of_lt_of_le hc.1 hev.size, fun hlive => hc.2 ?_⟩
  obtain ⟨x', hx'⟩ := exists_cell hlive
  obtain ⟨x, hx, -⟩ := hev.sorts c x' hx' hc.1
  exact isLive_of_cell? hx

theorem Evolves.isLive_or_gone (hev : h.Evolves h') (hc : h.isLive c) : h'.isLive c ∨ h'.Gone c := by
  obtain ⟨x, hx⟩ := exists_cell hc
  by_cases hlive : h'.isLive c
  · exact .inl hlive
  · exact .inr ⟨Nat.lt_of_lt_of_le (lt_of_cell? hx) hev.size, hlive⟩

/-! ## Courses -/

/-- What goes on while an interpreter runs, one thing after the other: a request is answered, a body starts,
or a body does something. -/
inductive Happens (setup : Setup) : Heap → Heap → Prop
  | answer {s : Shape} (request : Request CellId s) (h : Heap) :
    Happens setup h ((answer setup request).run h).2
  | enter (h : Heap) : Happens setup h (startFrame h).heap
  | act (depth : Nat) {s : Shape} (action : Action s) (f : Frame) : Happens setup f.heap
      ((Frame.perform (fun target args => callWithin depth target args .list) action).run f).2.heap

/-- The heap is what the other one has become. -/
def Leads (setup : Setup) (h h' : Heap) : Prop := Relation.ReflTransGen (Happens setup) h h'

/-- The same where nothing is brought but scalars of one sort. -/
inductive HappensWith (V : Scalar → Prop) (setup : Setup) : Heap → Heap → Prop
  | answer {s : Shape} (request : Request CellId s) (h : Heap) : (∀ x ∈ request.brought?, V x) →
    HappensWith V setup h ((answer setup request).run h).2
  | enter (h : Heap) : HappensWith V setup h (startFrame h).heap
  | act (depth : Nat) {s : Shape} (action : Action s) (f : Frame) : HappensWith V setup f.heap
      ((Frame.perform (fun target args => callWithin depth target args .list) action).run f).2.heap

def LeadsWith (V : Scalar → Prop) (setup : Setup) (h h' : Heap) : Prop :=
  Relation.ReflTransGen (HappensWith V setup) h h'

section
variable {V W : Scalar → Prop} {setup : Setup}

theorem HappensWith.mono (hVW : ∀ bytes utf8, V (.ofBytes bytes utf8) → W (.ofBytes bytes utf8))
    (hstep : HappensWith V setup h h') : HappensWith W setup h h' := by
  cases hstep with
  | answer request _ hbrought =>
    refine .answer request h fun x hx => ?_
    obtain ⟨bytes, utf8, rfl⟩ := Request.exists_of_brought hx
    exact hVW bytes utf8 (hbrought _ hx)
  | enter => exact .enter h
  | act depth action f => exact .act depth action f

theorem LeadsWith.mono (hVW : ∀ bytes utf8, V (.ofBytes bytes utf8) → W (.ofBytes bytes utf8))
    (hlead : LeadsWith V setup h h') : LeadsWith W setup h h' := by
  induction hlead with
  | refl => exact .refl
  | tail _ hstep ih => exact ih.tail (hstep.mono hVW)

theorem Happens.happensWith (hV : ∀ {s : Shape} (request : Request CellId s), ∀ x ∈ request.brought?, V x)
    (hstep : Happens setup h h') : HappensWith V setup h h' := by
  cases hstep with
  | answer request => exact .answer request h (hV request)
  | enter => exact .enter h
  | act depth action f => exact .act depth action f

theorem Leads.leadsWith (hV : ∀ {s : Shape} (request : Request CellId s), ∀ x ∈ request.brought?, V x)
    (hlead : Leads setup h h') : LeadsWith V setup h h' := by
  induction hlead with
  | refl => exact .refl
  | tail _ hstep ih => exact ih.tail (hstep.happensWith hV)

theorem Stable.happensWith {I : Heap → Prop} (hI : Stable .all I V) (hstep : HappensWith V setup h h')
    (hh : I h) : I h' := by
  cases hstep with
  | answer request _ hbrought =>
    exact hI.answer_of (allBodies_true setup) request hbrought hh (Latitude.free_all.request setup request h)
  | enter => exact hI.clearError h hh
  | act depth action f =>
    refine hI.on_perform action hh (Latitude.free_all.permits action f.heap) (fun _ _ _ _ => trivial) ?_
    rintro ⟨target, args⟩ -
    exact hI.callWithin depth target args .list hh (Latitude.free_all.callPermitted depth target args .list _)

theorem Stable.leadsWith {I : Heap → Prop} (hI : Stable .all I V) (hlead : LeadsWith V setup h h')
    (hh : I h) : I h' := by
  induction hlead with
  | refl => exact hh
  | tail _ hstep ih => exact hI.happensWith hstep ih

end

theorem Stable.leads {I : Heap → Prop} (hI : Stable .all I) {setup : Setup} (hlead : Leads setup h h')
    (hh : I h) : I h' := hI.leadsWith (hlead.leadsWith fun _ _ _ => trivial) hh

theorem Leads.evolves {setup : Setup} (hlead : Leads setup h h') : h.Evolves h' :=
  (stable_evolves h).leads hlead (.refl h)

end Heap

/-! ## Working on cells -/

/-- The request works on the cell, and what else it works on is there and of the right sort. The arguments of
a call are only handed on. -/
def Request.WorksOn (h : Heap) (c : CellId) : {s : Shape} → Request CellId s → Prop
  | _, .call target _ _ => c ∈ targetCells target
  | _, .assign dst src => c = dst ∨ c = src ∧ h.HasSort .scalar dst
  | _, .arrayStore array _ value => c = array ∨ c = value ∧ h.HasSort .array array
  | _, .hashStore hash _ value => c = hash ∨ c = value ∧ h.HasSort .hash hash
  | _, request => c ∈ request.cells

namespace Heap

variable {α β : Type} {h : Heap} {c : CellId}

section
variable (hc : ¬ h.isLive c)
include hc

theorem cell_bind_freed (k : Cell → Except Fault α) : (h.cell c >>= k) = .error (.freed c) := by
  rw [cell_of_not_live hc]
  rfl

theorem kind_freed : h.kind c = .error (.freed c) := cell_bind_freed hc _

theorem scalar_freed : h.scalar c = .error (.freed c) := cell_bind_freed hc _

theorem items_freed : h.items c = .error (.freed c) := cell_bind_freed hc _

theorem hash_freed : h.hash c = .error (.freed c) := cell_bind_freed hc _

theorem entries_freed : h.entries c = .error (.freed c) := by
  rw [entries, hash_freed hc]
  rfl

theorem target_freed : h.target c = .error (.freed c) := cell_bind_freed hc _

omit hc in
theorem run_query_error {f : Heap → Except Fault α} {k : α → HeapM β} {e : Fault} (hf : f h = .error e) :
    (query f >>= k).run h = (.error e, h) := run_bind_error (by rw [run_query, hf])

theorem scalar_bind_freed (k : Embedding.Scalar → Except Fault α) :
    (h.scalar c >>= k) = .error (.freed c) := by
  rw [scalar_freed hc]
  rfl

theorem kind_bind_freed (k : Kind → Except Fault α) : (h.kind c >>= k) = .error (.freed c) := by
  rw [kind_freed hc]
  rfl

theorem entries_bind_freed (k : Dict CellId → Except Fault α) :
    (h.entries c >>= k) = .error (.freed c) := by
  rw [entries_freed hc]
  rfl

theorem run_resolve_freed {target : Target CellId} (ht : c ∈ Request.targetCells target) :
    (resolve target).run h = (.error (.freed c), h) := by
  cases target with
  | code d =>
    obtain rfl := List.mem_singleton.1 ht
    exact run_query_error (kind_freed hc)
  | named name => cases ht
  | method invocant name =>
    obtain rfl := List.mem_singleton.1 ht
    exact run_bind_error (run_query_error (kind_freed hc))

theorem run_callWithin_freed {depth : Nat} {target : Target CellId} (ht : c ∈ Request.targetCells target)
    (args : List CellId) (context : Context) :
    (callWithin (depth + 1) target args context).run h = (.error (.freed c), h) := by
  rw [callWithin_succ]
  exact run_bind_error (run_resolve_freed hc ht)

/-- An operation that works on a cell which is not there says so and leaves everything as it was. -/
theorem run_answer_freed (setup : Setup) {s : Shape} {request : Request CellId s}
    (hworks : request.WorksOn h c) : (answer setup request).run h = (.error (.freed c), h) := by
  have hquery {α : Type} {f : Heap → Except Fault α} (hf : f h = .error (.freed c)) :
      (query f).run h = (.error (.freed c), h) := by rw [run_query, hf]
  have hmem {d : CellId} (hd : c ∈ [d]) : c = d := List.mem_singleton.1 hd
  cases request with
  | call target args context => exact run_callWithin_freed hc hworks args context
  | assign dst src =>
    rcases hworks with rfl | ⟨rfl, x, hx, hslot⟩
    · exact run_query_error (scalar_freed hc)
    · obtain ⟨s, hs⟩ := scalar_of_slot? hx hslot
      exact run_assign_freed hs hc
  | arrayStore array index value =>
    rcases hworks with rfl | ⟨rfl, harray⟩
    · refine run_query_error ?_
      rw [arrayLength, items_freed hc]
      rfl
    · obtain ⟨items, hitems⟩ := harray.items
      exact run_arrayStore_freed hitems hc index
  | hashStore hash key value =>
    rcases hworks with rfl | ⟨rfl, hhash⟩
    · exact run_query_error (hash_freed hc)
    · obtain ⟨entries, cursor, hentries⟩ := hhash.hash
      exact run_hashStore_freed hentries hc key
  | retain d =>
    obtain rfl := hmem hworks
    exact run_retain_freed hc
  | release d =>
    obtain rfl := hmem hworks
    exact run_query_error (cell_of_not_live hc)
  | newRef d =>
    obtain rfl := hmem hworks
    exact run_bind_error (run_retain_freed hc)
  | deref d =>
    obtain rfl := hmem hworks
    exact run_query_error (target_freed hc)
  | refcount d | toBytes d =>
    obtain rfl := hmem hworks
    exact hquery (cell_bind_freed hc _)
  | kind d =>
    obtain rfl := hmem hworks
    exact hquery (kind_freed hc)
  | flags d | toInt d | toNum d =>
    obtain rfl := hmem hworks
    exact hquery (scalar_bind_freed hc _)
  | className d | identity d =>
    obtain rfl := hmem hworks
    exact hquery (kind_bind_freed hc _)
  | arrayLength d =>
    obtain rfl := hmem hworks
    refine hquery ?_
    rw [arrayLength, items_freed hc]
    rfl
  | hashLength d | hashContains d _ =>
    obtain rfl := hmem hworks
    exact hquery (entries_bind_freed hc _)
  | arrayFetch d _ | arrayPop d | arrayClear d =>
    obtain rfl := hmem hworks
    exact run_query_error (items_freed hc)
  | hashFetch d _ =>
    obtain rfl := hmem hworks
    exact run_query_error (entries_freed hc)
  | hashDelete d _ | hashClear d | hashRewind d | hashNext d =>
    obtain rfl := hmem hworks
    exact run_query_error (hash_freed hc)
  | construct _ | eval _ _ | require _ | takeError | newUndef | newBool _ | newInt _ | newNum _
  | newBytes _ _ | newArray | newHash | global _ _ _ => cases hworks

end

end Heap

end Embedding

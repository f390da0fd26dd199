import Embedding.Proofs.Counts
import Embedding.Proofs.Heap.Visits

/-!
# Stakes given back

A host gives its stakes back in whatever order its values go away. Each release frees another part of
the heap, depending on what was released before. The main statement is that in the end the heap is the
same, whichever order was taken: a cell that survived in one order only would be held by others of that
sort, and cells that hold one another survive in every order.
-/

namespace Embedding

namespace Heap

variable {g h h' : Heap} {cs ds σ : List CellId}

theorem ext_of_cell? (hsize : h'.cells.size = h.cells.size) (hcells : ∀ c, h'.cell? c = h.cell? c)
    (hsymbols : h'.symbols = h.symbols) (hloaded : h'.loaded = h.loaded) : h' = h := by
  obtain ⟨cells, symbols, loaded⟩ := h
  obtain ⟨cells', symbols', loaded'⟩ := h'
  obtain rfl : symbols' = symbols := hsymbols
  obtain rfl : loaded' = loaded := hloaded
  have hcells : cells' = cells := by
    refine Array.ext hsize fun i hi' hi => ?_
    simpa [cell?, hi, hi'] using hcells ⟨i⟩
  rw [hcells]

/-- What releases have left of a heap. -/
structure Released (g h : Heap) : Prop where
  visited : Visited [] g h
  shrinks : g.Shrinks h

theorem released_refl (he : g.Exact σ) : Released g g := ⟨visited_refl he [], .refl g⟩

theorem Released.release {c : CellId} (hr : Released g h) (he : h.Exact (c :: σ)) :
    ∃ h', (release c).run h = (.ok (), h') ∧ Released g h' ∧ h'.Exact σ := by
  have hrun := run_release (he.held c (List.mem_append_right _ (List.mem_cons_self ..)))
  have hvisited := hr.visited.release he
  rw [hrun] at hvisited
  exact ⟨_, hrun, ⟨hvisited, hr.shrinks.trans (shrinks_drop _ h c)⟩, he.drop⟩

theorem Released.releaseAll (hr : Released g h) (he : h.Exact (cs ++ σ)) :
    ∃ h', (releaseAll cs).run h = (.ok (), h') ∧ Released g h' ∧ h'.Exact σ := by
  induction cs generalizing h with
  | nil => exact ⟨h, rfl, hr, he⟩
  | cons c cs ih =>
    obtain ⟨h₁, hrun, hr₁, he₁⟩ := hr.release he
    obtain ⟨h₂, hrun', hr₂, he₂⟩ := ih hr₁ he₁
    exact ⟨h₂, (run_bind_ok hrun).trans hrun', hr₂, he₂⟩

theorem Released.unique (hg : g.Exact (cs ++ σ)) (hr : Released g h) (he : h.Exact σ)
    (hr' : Released g h') (he' : h'.Exact σ) : h' = h := by
  have hlive : ∀ c ∈ σ, g.isLive c := fun c hc =>
    hg.held c (List.mem_append_right _ (List.mem_append_right cs hc))
  have hsame := hr.visited.spares hg hlive he hr'.visited he'
  exact ext_of_cell? (hr'.shrinks.size.trans hr.shrinks.size.symm)
    (fun c => hsame.outside c (List.not_mem_nil)) hsame.symbols
    (hr'.shrinks.loaded.trans hr.shrinks.loaded.symm)

/-- Stakes can be given back in any order: every release succeeds, and the heap that they lead to is the
same. Its cells are cells of the first heap with what they held there, their counts are those of their
holders, and what holds itself from within has stayed. -/
theorem releases_commute (he : h.Exact (cs ++ σ)) : ∃ h',
    (∀ ds, ds.Perm cs → (releaseAll ds).run h = (.ok (), h')) ∧ h'.Exact σ ∧ h.Shrinks h' ∧
      ∀ P, h.Knot P → ∀ c, P c → h'.isLive c := by
  obtain ⟨h', -, hr, he'⟩ := (released_refl he).releaseAll he
  refine ⟨h', fun ds hp => ?_, he', hr.shrinks, hr.visited.knots⟩
  obtain ⟨h'', hrun, hr', he''⟩ := (released_refl he).releaseAll (he.perm (hp.symm.append_right σ))
  rw [hrun, hr.unique he he' hr' he'']

end Heap

/-- An interpreter with an array that holds a reference to itself, and with two references besides. -/
def tied : Interpreter :=
  let start := ((⟨{}, none⟩ : Interpreter).perform (.construct [])).2
  let array := (start.perform .newArray).2
  let reference := (array.perform (.newRef ⟨5⟩)).2
  let stored := (reference.perform (.arrayStore ⟨5⟩ 0 ⟨6⟩)).2
  (stored.perform (.newRef ⟨5⟩)).2

def tiedStakes : List CellId := [⟨8⟩, ⟨6⟩, ⟨5⟩]

theorem runs_tied : Runs {} tied tiedStakes := by
  have hstart := (Runs.start : Runs {} _ _).request (.construct []) nofun fun _ _ => trivial
  have harray := hstart.request .newArray nofun fun _ _ => trivial
  have href := harray.request (.newRef ⟨5⟩) nofun fun _ _ => trivial
  have hstored := href.request (.arrayStore ⟨5⟩ 0 ⟨6⟩) nofun fun _ _ => trivial
  exact (hstored.request (.newRef ⟨5⟩) nofun fun _ _ => trivial).of_eq (by decide +kernel)

/-- Once all stakes are back, in any order, the array and its item still hold each other, and the other
references are gone. -/
theorem releases_commute_tied : ∃ h h', tied.heap = some h ∧ h.Exact (tiedStakes ++ []) ∧
    (∀ ds : List CellId, ds.Perm tiedStakes → (Heap.releaseAll ds).run h = (.ok (), h')) ∧
      h'.isLive ⟨5⟩ ∧ h'.isLive ⟨7⟩ ∧ ¬ h'.isLive ⟨6⟩ := by
  obtain ⟨h, hh⟩ : ∃ h, tied.heap = some h := Option.isSome_iff_exists.1 (by decide +kernel)
  have hexact : h.Exact (tiedStakes ++ []) := (runs_tied.heap_sound hh).exact
  have hheld (c d : CellId) (hcd : (tied.heap.bind (·.cell? c)).map (·.content.children) = some [d]) :
      ∃ x, h.cell? c = some x ∧ d ∈ x.content.children := by
    rw [hh] at hcd
    obtain ⟨x, hx, hchildren⟩ := Option.map_eq_some_iff.1 hcd
    exact ⟨x, hx, by simp [hchildren]⟩
  have hknot : h.Knot fun c => c = ⟨5⟩ ∨ c = ⟨7⟩ := by
    rintro c (rfl | rfl)
    · obtain ⟨x, hx, hmem⟩ := hheld ⟨7⟩ ⟨5⟩ (by decide +kernel)
      exact ⟨⟨7⟩, x, .inr rfl, hx, hmem⟩
    · obtain ⟨x, hx, hmem⟩ := hheld ⟨5⟩ ⟨7⟩ (by decide +kernel)
      exact ⟨⟨5⟩, x, .inl rfl, hx, hmem⟩
  obtain ⟨h', hrun, -, -, hstays⟩ := Heap.releases_commute hexact
  have hgone : (tied.heap.bind fun h => ((Heap.releaseAll tiedStakes).run h).2.cell? ⟨6⟩).isNone := by
    decide +kernel
  rw [hh, Option.bind_some, hrun _ (.refl _)] at hgone
  refine ⟨h, h', hh, hexact, hrun, hstays _ hknot _ (.inl rfl), hstays _ hknot _ (.inr rfl), ?_⟩
  simpa [Heap.isLive] using hgone

end Embedding

import Embedding.Proofs.Host.Reading

/-!
# Steps of a calm session

While no error is pending and something keeps the session alive, every step of the host comes down
to what it does to the heap and to the number of handles.
-/

namespace Embedding

variable {α β : Type} {w w' : World} {s : SessionId} {setup : Setup} {g h h' : Heap} {c : CellId}
  {n : Nat} {shape : Shape}

/-- A world in which the session runs and is kept alive. -/
structure World.KeptOn (w : World) (s : SessionId) (setup : Setup) (h : Heap) : Prop extends
    w.RunsOn s setup h where
  kept : (w.session s).isKept = true

/-! ## Handles -/

theorem World.KeptOn.run_cross (hk : w.KeptOn s setup g) (operation : String)
    (request : Request Handle shape) {answer : Answer CellId shape}
    (hanswer : (Heap.answer setup (request.map Handle.cell)).run h = (.ok answer, h')) (hq : h'.Quiet) :
    (cross s operation request).run (w.put s h n) =
      (.ok (answer.map fun c => ⟨s, c⟩), w.put s h' (n + answer.stakes.length)) := by
  have hr := hk.put h n
  have hlength : (HostM.stakesOf (handled s (.ok answer))).length = answer.stakes.length := by
    simp only [handled, Except.map, HostM.stakesOf, Answer.stakes_map, List.length_map]
  rw [cross, hr.run_crossWith_quiet hanswer hq (Heap.deathless_ok answer), World.put_put, hlength]
  rfl

theorem World.KeptOn.run_cross_error (hk : w.KeptOn s setup g) (operation : String)
    (request : Request Handle shape) {fault : Fault}
    (hanswer : (Heap.answer setup (request.map Handle.cell)).run h = (.error fault, h')) (hq : h'.Quiet)
    (hdied : fault.diedValue? = none) : (cross s operation request).run (w.put s h n) =
      (.error (fault.toHostError operation), w.put s h' n) := by
  rw [cross, (hk.put h n).run_crossWith_quiet hanswer hq (Heap.deathless_error hdied), World.put_put]
  rfl

theorem World.KeptOn.isKept_put (hk : w.KeptOn s setup g) (h : Heap) (n : Nat) :
    ((w.put s h n).session s).isKept = true := by
  have hkept := hk.kept
  rw [World.put, World.session_update _ _ _ _ hk.lt, if_pos rfl]
  simp only [Session.isKept, Bool.or_eq_true, decide_eq_true_eq] at hkept ⊢
  rcases hkept with (howned | hhandles) | hnamespaces
  · exact .inl (.inl howned)
  · exact .inl (.inr (by omega))
  · exact .inr hnamespaces

theorem World.KeptOn.release (hk : w.KeptOn s setup g) (hrun : (Heap.release c).run h = (.ok (), h')) :
    (w.put s h (n + 1)).release ⟨s, c⟩ = w.put s h' n := by
  have hcount : ((w.put s h (n + 1)).update s fun session =>
      { session with liveHandles := session.liveHandles - 1 }) = w.put s h n := by
    rw [World.put, World.update_update]
    exact World.update_congr rfl
  have hback : (w.put s h n).giveBack ⟨s, c⟩ = w.put s h' n := by
    have hr := hk.put h n
    have hanswer : (Heap.answer setup (.release c)).run h = (.ok (), h') := hrun
    rw [World.giveBack, if_pos hr.stage, hr.ask, hanswer, World.put_put]
    rfl
  rw [World.release, hcount, hback, World.shutDownUnkept, if_pos (hk.isKept_put h' n)]

theorem World.KeptOn.clone (hk : w.KeptOn s setup g) (hrun : (Heap.retain c).run h = (.ok (), h')) :
    (w.put s h n).clone ⟨s, c⟩ = w.put s h' (n + 1) := by
  have hr := hk.put h n
  have hanswer : (Heap.answer setup (.retain c)).run h = (.ok (), h') := hrun
  rw [World.clone, World.retain, if_pos hr.stage, hr.ask, hanswer, World.adopt_put, World.put_put]

theorem run_holding_ok {x : HostM α} {a : α} {hs : List Handle} (hx : x.run w = (.ok a, w')) :
    (HostM.holding hs x).run w = (.ok a, w'.releaseAll hs) := by
  rw [HostM.run_holding, hx]

theorem run_orRelease_eq {x : HostM α} {hs : List Handle} : ∀ {p : Except HostError α × World},
    x.run w = p → (HostM.orRelease hs x).run w = match p with
      | (.ok a, w') => (.ok a, w')
      | (.error e, w') => (.error e, w'.releaseAll hs)
  | _, rfl => HostM.run_orRelease hs x w

theorem run_orRelease_ok {x : HostM α} {a : α} {hs : List Handle} (hx : x.run w = (.ok a, w')) :
    (HostM.orRelease hs x).run w = (.ok a, w') := by
  rw [HostM.run_orRelease, hx]

theorem World.KeptOn.run_holding (hk : w.KeptOn s setup g) {x : HostM α} {a : α}
    (hx : x.run w' = (.ok a, w.put s h (n + 1))) (hrun : (Heap.release c).run h = (.ok (), h')) :
    (HostM.holding [⟨s, c⟩] x).run w' = (.ok a, w.put s h' n) := by
  rw [run_holding_ok hx, World.releaseAll, List.foldl_cons, List.foldl_nil, hk.release hrun]

theorem run_map_ok {x : HostM α} {a : α} (f : α → β) (hx : x.run w = (.ok a, w')) :
    (f <$> x).run w = (.ok (f a), w') := by
  rw [map_eq_pure_bind, run_bind_ok hx]
  rfl

end Embedding

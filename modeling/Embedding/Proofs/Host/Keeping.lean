import Embedding.Proofs.Host.Order
import Embedding.Proofs.Host.Reached

/-!
# Sessions that are kept

A session that is not shut down is kept alive. A start that has to be abandoned finds no handles but
the ones that came in on the way, so it is the owner or a namespace that keeps the session until then.
-/

namespace Embedding

variable {I : World → List Handle → Prop} {w w' : World} {hs : List Handle} {log : List Event}
  {s t : SessionId}

/-- Every session that is not shut down is kept alive. -/
def World.Kept (w : World) : Prop := ∀ s, s.index < w.sessions.size →
  (w.session s).stage ≠ .shutDown → (w.session s).isKept = true

/-- Something other than handles keeps the session alive. -/
def Session.anchored (x : Session) : Bool := x.owned || x.namespaces ≠ 0

theorem Session.isKept_of_anchored {x : Session} (hx : x.anchored = true) : x.isKept = true := by
  simp only [Session.anchored, Session.isKept, Bool.or_eq_true] at hx ⊢
  exact hx.elim (fun h => .inl (.inl h)) .inr

theorem Session.anchored_of_isKept {x : Session} (hx : x.isKept = true) (hn : x.liveHandles = 0) :
    x.anchored = true := by
  simpa [Session.anchored, Session.isKept, hn] using hx

theorem Session.isKept_adopt {x : Session} {n : Nat} (hx : x.isKept = true) :
    ({ x with liveHandles := x.liveHandles + n } : Session).isKept = true := by
  simp only [Session.isKept, Bool.or_eq_true, decide_eq_true_eq] at hx ⊢
  rcases hx with (howned | hhandles) | hnamespaces
  · exact .inl (.inl howned)
  · exact .inl (.inr (by omega))
  · exact .inr hnamespaces

/-! ## Kept through requests -/

theorem World.Kept.change (hw : w.Kept) (hsize : w'.sessions.size = w.sessions.size)
    (hchange : ∀ t, (w'.session t).stage ≠ .shutDown → (w.session t).stage ≠ .shutDown ∧
      ((w.session t).isKept = true → (w'.session t).isKept = true)) : w'.Kept := by
  intro t ht hstage
  obtain ⟨hstage, hkept⟩ := hchange t hstage
  exact hkept (hw t (hsize ▸ ht) hstage)

theorem receptive_kept : Receptive World.Kept where
  ask {w s _} request _ hw := hw.change (World.size_ask request) fun t hstage => by
    rw [World.stage_ask] at hstage
    exact ⟨hstage, fun h => (World.ask_keeps Session.isKept (fun _ _ => rfl) request).trans h⟩
  adopt {w} s n hw := hw.change (World.size_update ..) fun t hstage => by
    rw [World.stage_adopt] at hstage
    refine ⟨hstage, fun h => ?_⟩
    by_cases hs : s.index < w.sessions.size
    · rw [World.adopt, World.session_update _ _ _ _ hs]
      split
      · next e => subst e; exact Session.isKept_adopt h
      · exact h
    · rwa [World.adopt, World.session_update_out hs]

theorem World.Kept.shutDownUnkept (hw : w.Kept) (hsize : w'.sessions.size = w.sessions.size)
    (hothers : ∀ t, t ≠ s → w'.session t = w.session t) : (w'.shutDownUnkept s).Kept := by
  unfold World.shutDownUnkept
  split
  · next hkept =>
    intro t ht hstage
    by_cases e : t = s
    · exact e ▸ hkept
    · rw [hothers t e] at hstage ⊢
      exact hw t (hsize ▸ ht) hstage
  · intro t ht hstage
    rw [World.size_shutDown] at ht
    by_cases e : t = s
    · subst e
      exact absurd (World.stage_shutDown ht) hstage
    · rw [World.session_shutDown_of_ne e, hothers t e] at hstage ⊢
      exact hw t (hsize ▸ ht) hstage

theorem World.Kept.shutDown (hw : w.Kept) (s : SessionId) : (w.shutDown s).Kept := by
  intro t ht hstage
  rw [World.size_shutDown] at ht
  by_cases e : t = s
  · subst e
    exact absurd (World.stage_shutDown ht) hstage
  · rw [World.session_shutDown_of_ne e] at hstage ⊢
    exact hw t ht hstage

theorem World.session_drop_of_ne {h : Handle} (ht : t ≠ h.session) :
    (w.drop h).session t = w.session t := by
  unfold World.drop World.giveBack
  split
  · rw [World.session_ask_of_ne _ ht, World.session_update_of_ne _ _ (Ne.symm ht)]
  · rw [World.session_update_of_ne _ _ (Ne.symm ht)]

theorem World.size_drop (w : World) (h : Handle) :
    (w.drop h).sessions.size = w.sessions.size := by
  unfold World.drop World.giveBack
  split
  · rw [World.size_ask, World.size_update]
  · rw [World.size_update]

theorem trade_kept : Trade fun w _ => w.Kept where
  perm hw _ := hw
  clone hw _ := receptive_kept.clone _ hw
  release hw := hw.shutDownUnkept (World.size_drop ..) fun _ ht => World.session_drop_of_ne ht
  exchange request _ hstage _ _ _ hw hrun := (receptive_kept.exchange request hstage hw).of_run hrun

theorem World.Kept.bindNamespace (hw : w.Kept) (s : SessionId) : (w.bindNamespace s).Kept :=
  hw.change (World.size_update ..) fun t hstage => by
    unfold World.bindNamespace at *
    by_cases ht : s = t
    · subst ht
      by_cases hs : s.index < w.sessions.size
      · rw [World.session_update _ _ _ _ hs, if_pos rfl] at *
        refine ⟨hstage, fun _ => ?_⟩
        simp [Session.isKept]
      · rw [World.session_update_out hs] at *
        exact ⟨hstage, fun h => h⟩
    · rw [World.session_update_of_ne _ _ ht] at *
      exact ⟨hstage, fun h => h⟩

/-! ## Histories that go on -/

/-- A history that has made its calls has gone on to the world. -/
def Extended (log : List Event) (w : World) (hs : List Handle) : Prop :=
  ∃ later, History w hs (later ++ log)

namespace Extended

theorem next {hs' : List Handle} (he : Extended log w hs) (calls : List Event)
    (hnext : ∀ {log}, History w hs log → History w' hs' (calls ++ log)) : Extended log w' hs' := by
  obtain ⟨later, hhistory⟩ := he
  exact ⟨calls ++ later, by rw [List.append_assoc]; exact hnext hhistory⟩

theorem inOrder (he : Extended log w hs) : w.Orderly hs := by
  obtain ⟨later, hhistory⟩ := he
  exact hhistory.inOrder.sessions

theorem shutDown (he : Extended log w hs) (s : SessionId) : Extended log (w.shutDown s) hs :=
  he.next (w.ending s) fun h => h.shutDown s

theorem shutDownUnkept (he : Extended log w hs) (s : SessionId) :
    Extended log (w.shutDownUnkept s) hs := by
  unfold World.shutDownUnkept
  split
  · exact he
  · exact he.shutDown s

theorem reown (he : Extended log w hs) (s : SessionId) (owned : Session → Bool)
    (namespaces : Session → Nat) : Extended log (w.update s fun session =>
      { session with owned := owned session, namespaces := namespaces session }) hs :=
  he.next [] fun h => h.reown s owned namespaces

end Extended

theorem trade_extended : Trade (Extended log) where
  perm he hp := he.next [] fun h => h.perm hp
  clone {w _ h} he hh := he.next (w.counting h) fun hhistory => hhistory.clone hh
  release {w h _} he := (he.next (w.counting h) fun hhistory => hhistory.drop).shutDownUnkept _
  exchange request _ hstage _ hcells hsub he hrun :=
    he.next [_, _] fun h => h.exchange request hstage hcells hsub hrun

/-! ## The start -/

theorem Dealing.and {may : Permission} {J : World → List Handle → Prop}
    (hI : Dealing may I) (hJ : Dealing may J) :
    Dealing may fun w hs => I w hs ∧ J w hs where
  perm h hp := ⟨hI.perm h.1 hp, hJ.perm h.2 hp⟩
  clone h hh := ⟨hI.clone h.1 hh, hJ.clone h.2 hh⟩
  release h := ⟨hI.release h.1, hJ.release h.2⟩
  exchange request hmay hstage hplain hcells hsub h hrun :=
    ⟨hI.exchange request hmay hstage hplain hcells hsub h.1 hrun,
      hJ.exchange request hmay hstage hplain hcells hsub h.2 hrun⟩

/-- The session runs, and does not depend on its handles for that. -/
def World.RunsAnchored (s : SessionId) (w : World) : Prop :=
  (w.session s).stage = .initialized ∧ (w.session s).anchored = true

theorem World.RunsAnchored.of_eq (hw : w.RunsAnchored s)
    (hstage : (w'.session s).stage = (w.session s).stage)
    (hanchored : (w'.session s).anchored = (w.session s).anchored) : w'.RunsAnchored s :=
  ⟨hstage.trans hw.1, hanchored.trans hw.2⟩

theorem steady_runsAnchored (s : SessionId) : Steady (World.RunsAnchored s) where
  ask request _ hw := hw.of_eq (World.stage_ask request)
    (World.ask_keeps Session.anchored (fun _ _ => rfl) request)
  count t n hw := hw.of_eq (World.session_update_keeps Session.stage fun _ => rfl)
    (World.session_update_keeps Session.anchored fun _ => rfl)
  shutDownUnkept {w} t hw := by
    unfold World.shutDownUnkept
    split
    · exact hw
    · next hkept =>
      -- a session that nothing keeps is another one
      have ht : s ≠ t := fun e => hkept (e ▸ Session.isKept_of_anchored hw.2)
      have hsession : (w.shutDown t).session s = w.session s := World.session_shutDown_of_ne ht
      exact hw.of_eq (by rw [hsession]) (by rw [hsession])

/-- A history that has gone on to a world in which the sessions are kept. -/
abbrev Going (log : List Event) (w : World) (hs : List Handle) : Prop := Extended log w hs ∧ w.Kept

theorem run_start_out (hs : ¬ s.index < w.sessions.size) : s.start.run w = (.ok (), w) := by
  have hsession := World.session_out hs
  obtain ⟨h, -, hperform⟩ := run_boot {} (default : Session).config.interpreterArgs
  have hclaim : s.takeClaim.run w = (.ok (), w) := by
    unfold SessionId.takeClaim HostM.session
    rw [bind_assoc, run_get_bind, pure_bind, hsession]
    rfl
  have hconstruct : s.construct.run w = (.ok (), w) := by
    rw [run_construct_eq, World.opening, World.ask_eq, hsession, World.ask_session rfl hperform]
    dsimp only
    rw [World.session_update_out hs, World.setStage, World.session_update_out hs]
  unfold SessionId.start HostM.session
  rw [bind_assoc, run_get_bind, pure_bind, hsession]
  change (do s.takeClaim; s.construct; s.preload []).run w = _
  rw [run_bind_ok hclaim, run_bind_ok hconstruct]
  rfl

theorem Going.anchored (hg : Going log w hs) (hlt : s.index < w.sessions.size)
    (hstage : (w.session s).stage = .uninitialized) : (w.session s).anchored = true :=
  Session.anchored_of_isKept (hg.2 s hlt (by rw [hstage]; nofun)) ((hg.1.inOrder s).idle hstage)

theorem Going.construct (hg : Going log w hs) (hlt : s.index < w.sessions.size)
    (hstage : (w.session s).stage = .uninitialized) :
    Ends s.construct w fun r w' => match r with
      | .ok _ => Going log w' hs ∧ w'.RunsAnchored s
      | .error e => Going log w' (e.handles ++ hs) := by
  unfold Ends
  cases hrun : s.construct.run w with
  | mk r w' =>
    have hkeeps : (w'.session s).anchored = (w.session s).anchored :=
      construct_keeps Session.anchored (fun _ _ => rfl) (fun _ _ => rfl) (fun _ => rfl) hrun
    have hkept : ∀ t, ((w'.session t).isKept = (w.session t).isKept) := fun t =>
      construct_keeps Session.isKept (fun _ _ => rfl) (fun _ _ => rfl) (fun _ => rfl) hrun
    rcases r with e | ⟨⟩
    · have hstages := (hg.1.inOrder.construct_error hstage hlt hrun).2
      have hhandles : e.handles = [] := construct_handles hrun
      dsimp only
      rw [hhandles]
      refine ⟨hg.1.next [] fun h => h.refuse s hlt hstage hrun, hg.2.change (size_construct hrun) ?_⟩
      exact fun t hnot => ⟨by rwa [← hstages t], fun h => (hkept t).trans h⟩
    · have hstage' := (hg.1.inOrder.construct_ok hstage hlt hrun).2
      refine ⟨⟨hg.1.next [_] fun h => h.construct s hlt hstage hrun,
        hg.2.change (size_construct hrun) fun t hnot => ⟨?_, fun h => (hkept t).trans h⟩⟩,
        hstage', hkeeps.trans (hg.anchored hlt hstage)⟩
      by_cases ht : t = s
      · rw [ht, hstage]
        nofun
      · rwa [session_construct_of_ne hrun ht] at hnot

theorem Going.abandon (hg : Going log w hs) (hruns : w.RunsAnchored s) :
    Ends s.abandon w fun _ w' => Going log w' hs := by
  refine ⟨hg.1.next [_] fun h => h.abandon s hruns.1 rfl, ?_⟩
  refine hg.2.change (World.size_ended ..) fun t hnot => ?_
  by_cases ht : t = s
  · subst ht
    have hanchored : ((t.abandon.run w).2.session t).anchored = (w.session t).anchored :=
      World.ended_keeps Session.anchored (fun _ => rfl) (fun _ => rfl) (fun _ _ => rfl) _
    exact ⟨by rw [hruns.1]; nofun, fun _ => Session.isKept_of_anchored (hanchored.trans hruns.2)⟩
  · have hsession : (s.abandon.run w).2.session t = w.session t := World.session_ended_of_ne ht
    rw [hsession] at hnot ⊢
    exact ⟨hnot, fun h => h⟩

theorem Going.claim (hg : Going log w hs) (s : SessionId) : Going log
    { w.update s fun session => { session with claims := true } with claimed := true } hs := by
  let claiming (session : Session) : Session := { session with claims := true }
  have hkept : (w.update s claiming).Kept := hg.2.change (World.size_update ..) fun t hnot => by
    have hstage : ((w.update s claiming).session t).stage = (w.session t).stage :=
      World.session_update_keeps Session.stage fun _ => rfl
    have hkept : ((w.update s claiming).session t).isKept = (w.session t).isKept :=
      World.session_update_keeps Session.isKept fun _ => rfl
    exact ⟨by rwa [← hstage], fun h => hkept.trans h⟩
  exact ⟨hg.1.next [] fun h => h.claim s, hkept⟩

theorem Going.start (hg : Going log w hs) (s : SessionId) :
    Ends s.start w fun r w' => Going log w' (hostStakes (fun _ => []) r ++ hs) := by
  by_cases hlt : s.index < w.sessions.size
  · let I (w : World) (hs : List Handle) : Prop := Going log w hs ∧ s.index < w.sessions.size
    have hgoing : Trade (Going log) := trade_extended.and trade_kept
    -- while packages are loaded, the owner or a namespace is still there, as it was at the launch
    refine (hgoing.and (steady_runsAnchored s).trade).ends_start (fun h => h.1)
      (fun h => Going.abandon h.1 h.2) (fun hstage => ?_) hg
    have hclaim : I { w.update s fun session => { session with claims := true } with
        claimed := true } hs := ⟨hg.claim s, lt_of_lt_of_eq hlt (World.size_update ..).symm⟩
    refine (ends_takeClaim (I := I) ⟨hg, hlt⟩ hclaim).bind (fun _ w₁ h => ?_) fun _ _ h => h.1.1
    exact Going.construct h.1.1 h.1.2 (h.2.trans hstage)
  · exact ends_of_run (run_start_out hlt) hg

theorem books_going : Books (Going log) where
  toDealing := trade_extended.and trade_kept
  start {_ _ s} _ hg := hg.start s
  shutDown {_ _ s} _ hg := ⟨hg.1.shutDown s, hg.2.shutDown s⟩
  disown {_ _ s} _ hg := ⟨(hg.1.reown s (fun _ => false) Session.namespaces).shutDownUnkept s,
    hg.2.shutDownUnkept (World.size_update ..) fun _ ht => World.session_update_of_ne _ _ (Ne.symm ht)⟩
  bindNamespace {_ _ s} _ hg := ⟨hg.1.reown s Session.owned (·.namespaces + 1), hg.2.bindNamespace s⟩
  unbindNamespace {_ _ s} _ hg := ⟨(hg.1.reown s Session.owned (·.namespaces - 1)).shutDownUnkept s,
    hg.2.shutDownUnkept (World.size_update ..) fun _ ht => World.session_update_of_ne _ _ (Ne.symm ht)⟩

end Embedding

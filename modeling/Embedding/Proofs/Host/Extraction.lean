import Embedding.Console.View
import Embedding.Host.Extraction
import Embedding.Proofs.Host.Containers

/-!
# Accounts of extraction, equality and views

Values are lent to whoever compares them or looks at them, and what is extracted from a value is
owned besides it.
-/

namespace Embedding

variable {α β : Type} {may : Permission} {I : World → List Handle → Prop} {b : List Handle}
  {w w' : World}

/-! ## Extraction -/

/-- A result whose error owns nothing. -/
def Bare (r : Except HostError α) : Prop := ∀ e, r = .error e → e.handles = []

theorem bare_ok (a : α) : Bare (.ok a) := nofun

theorem bare_error {e : HostError} (he : e.handles = []) : Bare (.error e : Except HostError α) :=
  fun _ h => by cases h; exact he

theorem Bare.bind {r : Except HostError α} {k : α → Except HostError β} (hr : Bare r)
    (hk : ∀ a, Bare (k a)) : Bare (r >>= k) := by
  cases r with
  | error e => exact bare_error (hr e rfl)
  | ok a => exact hk a

theorem Bare.accounts {r : Except HostError α} {given : α → List Handle} (hr : Bare r)
    (hg : ∀ a, given a = []) : Accounts I b (ofExcept r : HostM α) [] given := by
  cases r with
  | ok a => exact accounts_pure (hg a)
  | error e =>
    have hthrow : Accounts I b (throw e : HostM α) e.handles given := accounts_throw e
    rwa [hr e rfl] at hthrow

theorem bare_toInt64 (v : Value) : Bare v.toInt64 := by
  cases v with
  | float x =>
    unfold Value.toInt64
    dsimp only
    split
    · exact bare_ok _
    · exact bare_error rfl
  | int _ | bool _ => exact bare_ok _
  | _ => exact bare_error rfl

theorem bare_toInt32 (v : Value) : Bare v.toInt32 :=
  (bare_toInt64 v).bind fun n => by
    split
    · exact bare_ok _
    · exact bare_error rfl

theorem bare_toSize (v : Value) : Bare v.toSize :=
  (bare_toInt64 v).bind fun n => by
    split
    · exact bare_ok _
    · exact bare_error rfl

theorem bare_toBool (v : Value) : Bare v.toBool := by
  cases v <;> first | exact bare_ok _ | exact bare_error rfl

theorem bare_toText (v : Value) : Bare v.toText := by
  cases v with
  | bytes bs =>
    unfold Value.toText
    dsimp only
    split
    · exact bare_ok _
    · exact bare_error rfl
  | text s => exact bare_ok s
  | _ => exact bare_error rfl

theorem bare_require (expected : String) (read : Value → Option α) (v : Value) :
    Bare (v.require expected read) := by
  unfold Value.require
  split
  · exact bare_ok _
  · exact bare_error rfl

namespace Dealing

variable (hdealing : Dealing may I) [Looks may]
include hdealing

section
variable {t : HostType} {f : Value → HostM t.Carrier}
  (hf : ∀ v, Accounts I v.handles (f v) [] t.handles)
include hf

omit [Looks may] in
theorem accounts_extractItems : ∀ vs : List Value, Accounts I (Value.handlesOfItems vs)
    (extractItems t f vs) [] fun as => Value.handlesOfItems (as.map t.toValue)
  | [] => accounts_pure rfl
  | v :: vs => by
    refine ((hf v).mono (List.subset_append_left ..)).bind fun a _ _ _ => ?_
    have hrest : Accounts I (t.handles a ++ (v.handles ++ Value.handlesOfItems vs))
        (extractItems t f vs) [] fun as => Value.handlesOfItems (as.map t.toValue) :=
      (accounts_extractItems vs).mono fun _ hm => by simp [hm]
    refine (hdealing.orRelease (t.handles a) hrest).bind fun as _ _ _ => ?_
    exact hdealing.weaken (accounts_pure rfl) List.perm_append_comm fun _ _ _ _ => .refl _

omit [Looks may] in
theorem accounts_extractEntries (entries : List (String × Value)) :
    Accounts I (Value.handlesOfEntries entries) (extractEntries t f entries) []
      fun as => Value.handlesOfEntries (as.map fun e => (e.1, t.toValue e.2)) := by
  induction entries with
  | nil => exact accounts_pure rfl
  | cons entry entries ih =>
    obtain ⟨key, v⟩ := entry
    refine ((hf v).mono (List.subset_append_left ..)).bind fun a _ _ _ => ?_
    have hrest : Accounts I (t.handles a ++ (v.handles ++ Value.handlesOfEntries entries))
        (extractEntries t f entries) []
        fun as => Value.handlesOfEntries (as.map fun e => (e.1, t.toValue e.2)) :=
      ih.mono fun _ hm => by simp [hm]
    refine (hdealing.orRelease (t.handles a) hrest).bind fun as _ _ _ => ?_
    exact hdealing.weaken (accounts_pure rfl) List.perm_append_comm fun _ _ _ _ => .refl _

end

omit [Looks may] in
theorem accounts_cloneOf {a : α} {given : α → List Handle} (hs : List Handle) (hg : given a = hs) :
    Accounts I hs (do HostM.clone hs; return a) [] given :=
  (hdealing.accounts_clone (List.Subset.refl hs)).bind fun _ _ _ _ => accounts_pure hg

omit [Looks may] in
theorem accounts_extractCallable (v : Value) :
    Accounts I v.handles (v.extract .callable) [] HostType.callable.handles := by
  cases v with
  | callable target => exact hdealing.accounts_cloneOf [target.anchor] rfl
  | _ => exact accounts_throw _

omit hdealing [Looks may] in
theorem accounts_extractOption {t : HostType}
    (ht : ∀ v : Value, Accounts I v.handles (v.extract t) [] t.handles) (v : Value) :
    Accounts I v.handles (v.extract (.option t)) [] (HostType.option t).handles := by
  cases v with
  | nothing => exact accounts_pure rfl
  | _ => exact (ht _).map fun _ => rfl

theorem accounts_extract (t : HostType) : ∀ v : Value,
    Accounts I v.handles (v.extract t) [] t.handles := by
  induction t with
  | unit => intro v; cases v <;> exact accounts_pure rfl
  | bool => exact fun v => (bare_toBool v).accounts fun _ => rfl
  | int64 => exact fun v => (bare_toInt64 v).accounts fun _ => rfl
  | int32 => exact fun v => (bare_toInt32 v).accounts fun _ => rfl
  | size => exact fun v => (bare_toSize v).accounts fun _ => rfl
  | float => exact fun v => (bare_require _ _ v).accounts fun _ => rfl
  | text => exact fun v => (bare_toText v).accounts fun _ => rfl
  | bytes => exact fun v => (bare_require _ _ v).accounts fun _ => rfl
  | value => exact fun v => hdealing.accounts_cloneOf v.handles rfl
  | array =>
    intro v
    cases v with
    | array view => exact hdealing.accounts_cloneOf [view.cell] rfl
    | _ => exact accounts_throw _
  | hash =>
    intro v
    cases v with
    | hash view => exact hdealing.accounts_cloneOf [view.cell] rfl
    | _ => exact accounts_throw _
  | callable => exact hdealing.accounts_extractCallable
  | object =>
    intro v
    cases v with
    | object view => exact hdealing.accounts_cloneOf [view.reference] rfl
    | _ => exact accounts_throw _
  | option t ih => exact accounts_extractOption ih
  | list t ih =>
    intro v
    cases v with
    | list items => exact hdealing.accounts_extractItems ih items
    | array view =>
      refine (hdealing.accounts_arrayToList view).bind fun items _ _ _ => ?_
      exact hdealing.holding (Value.handlesOfItems items)
        ((hdealing.accounts_extractItems ih items).mono (List.subset_append_left ..))
    | _ => exact accounts_throw _
  | map t ih =>
    intro v
    cases v with
    | mapping entries => exact hdealing.accounts_extractEntries ih entries
    | hash view =>
      refine (hdealing.accounts_hashToDict view).bind fun entries _ _ _ => ?_
      exact hdealing.holding (Value.handlesOfEntries entries)
        ((hdealing.accounts_extractEntries ih entries).mono (List.subset_append_left ..))
    | _ => exact accounts_throw _

end Dealing

/-! ## Equality -/

namespace Dealing

variable (hdealing : Dealing may I)
include hdealing

theorem accounts_toOption {x : HostM α} {taken : List Handle} {given : α → List Handle}
    (hx : Accounts I b x taken given) :
    Accounts I b x.toOption taken fun o => o.elim [] given := by
  refine hx.attempt.bind fun r _ _ _ => ?_
  cases r with
  | ok a => exact accounts_pure rfl
  | error e => exact (hdealing.accounts_release e.handles).bind fun _ _ _ _ => accounts_pure rfl

variable [Glances may]

theorem accounts_identity (h : Handle) :
    Accounts I [h] h.identity.toOption [] fun _ => [] := by
  refine hdealing.weaken (hdealing.accounts_toOption (hdealing.on (.identity h) rfl rfl)) (.refl _) ?_
  rintro (_ | _) _ _ _ <;> exact .refl _

theorem accounts_sameReferent (x y : Handle) :
    Accounts I [x, y] (x.sameReferent y) [] fun _ => [] :=
  ((hdealing.accounts_identity x).mono (by simp)).bind fun _ _ _ _ =>
    ((hdealing.accounts_identity y).mono (by simp)).bind fun _ _ _ _ => accounts_pure rfl

theorem accounts_sameCell (x y : Handle) : Accounts I [x, y] (x.sameCell y) [] fun _ => [] := by
  unfold Handle.sameCell
  split
  · exact accounts_pure rfl
  · exact hdealing.accounts_sameReferent x y

theorem accounts_callableEqual (x y : Callable) :
    Accounts I [x.anchor, y.anchor] (x.equal y) [] fun _ => [] := by
  cases x with
  | code c =>
    cases y with
    | code d => exact hdealing.accounts_sameCell c d
    | method r n => exact accounts_pure rfl
  | method r m =>
    cases y with
    | code d => exact accounts_pure rfl
    | method q n =>
      unfold Callable.equal
      dsimp only
      split
      · exact hdealing.accounts_sameReferent r q
      · exact accounts_pure rfl

theorem accounts_containerEqual (x y : Container) :
    Accounts I [x.cell, y.cell] (x.equal y) [] fun _ => [] := by
  cases x <;> cases y <;> first | exact hdealing.accounts_sameCell _ _ | exact accounts_pure rfl

omit hdealing [Glances may] in
theorem handles_subset_of_get? {entries : Dict Value} {key : String} {v : Value}
    (hv : entries.get? key = some v) : v.handles ⊆ Value.handlesOfEntries entries := by
  induction entries with
  | nil => cases hv
  | cons p entries ih =>
    obtain ⟨k, x⟩ := p
    simp only [Dict.get?] at hv
    split at hv
    · obtain rfl := Option.some.inj hv
      exact List.subset_append_left ..
    · exact fun _ hm => List.mem_append_right _ (ih hv hm)

end Dealing

namespace Dealing

mutual

theorem accounts_equal (hdealing : Dealing may I) [Glances may] : ∀ x y : Value,
    Accounts I (x.handles ++ y.handles) (x.equal y) [] fun _ => []
  | .list xs, y => by
    cases y with
    | list ys =>
      unfold Value.equal
      split
      · exact accounts_equalItems hdealing xs ys
      · exact accounts_pure rfl
    | _ => exact accounts_pure rfl
  | .mapping xs, y => by
    cases y with
    | mapping ys =>
      unfold Value.equal
      split
      · exact accounts_equalEntries hdealing xs ys
      · exact accounts_pure rfl
    | _ => exact accounts_pure rfl
  | .array x, y => by
    cases y with
    | array y => exact hdealing.accounts_sameCell x.cell y.cell
    | _ => exact accounts_pure rfl
  | .hash x, y => by
    cases y with
    | hash y => exact hdealing.accounts_sameCell x.cell y.cell
    | _ => exact accounts_pure rfl
  | .callable x, y => by
    cases y with
    | callable y => exact hdealing.accounts_callableEqual x y
    | _ => exact accounts_pure rfl
  | .object x, y => by
    cases y with
    | object y => exact hdealing.accounts_sameReferent x.reference y.reference
    | _ => exact accounts_pure rfl
  | .nothing, y | .bool _, y | .int _, y | .float _, y | .text _, y | .bytes _, y => by
    cases y <;> exact accounts_pure rfl

theorem accounts_equalItems (hdealing : Dealing may I) [Glances may] : ∀ xs ys : List Value,
    Accounts I (Value.handlesOfItems xs ++ Value.handlesOfItems ys) (Value.equalItems xs ys) []
      fun _ => []
  | [], ys => by cases ys <;> exact accounts_pure rfl
  | _ :: _, [] => accounts_pure rfl
  | x :: xs, y :: ys => by
    refine ((accounts_equal hdealing x y).mono ?_).bind fun same _ _ _ => ?_
    · intro a hm
      simp only [Value.handlesOfItems, List.mem_append] at hm ⊢
      exact hm.imp .inl .inl
    · split
      · refine (accounts_equalItems hdealing xs ys).mono fun a hm => ?_
        simp only [Value.handlesOfItems, List.mem_append] at hm ⊢
        exact hm.imp .inr .inr
      · exact accounts_pure rfl

theorem accounts_equalEntries (hdealing : Dealing may I) [Glances may] :
    ∀ (xs : List (String × Value)) (ys : Dict Value), Accounts I (Value.handlesOfEntries xs ++ Value.handlesOfEntries ys) (Value.equalEntries xs ys) []
      fun _ => []
  | [], _ => accounts_pure rfl
  | (key, x) :: xs, ys => by
    unfold Value.equalEntries
    cases hy : ys.get? key with
    | none => exact accounts_pure rfl
    | some y =>
      refine ((accounts_equal hdealing x y).mono ?_).bind fun same _ _ _ => ?_
      · intro a hm
        simp only [Value.handlesOfEntries, List.mem_append] at hm ⊢
        exact hm.imp .inl fun h => handles_subset_of_get? hy h
      · split
        · refine (accounts_equalEntries hdealing xs ys).mono fun a hm => ?_
          simp only [Value.handlesOfEntries, List.mem_append] at hm ⊢
          exact hm.imp_left .inr
        · exact accounts_pure rfl

end

/-! ## Views -/

mutual

theorem accounts_view (hdealing : Dealing may I) [Looks may] : ∀ v : Value,
    Accounts I v.handles v.view [] fun _ => []
  | .nothing | .bool _ | .int _ | .float _ | .text _ | .bytes _ | .array _ | .hash _
  | .callable (.code _) | .callable (.method ..) => accounts_pure rfl
  | .list items => (accounts_viewItems hdealing items).bind fun _ _ _ _ => accounts_pure rfl
  | .mapping entries => (accounts_viewEntries hdealing entries).bind fun _ _ _ _ => accounts_pure rfl
  | .object o => (hdealing.accounts_identity o.reference).bind fun _ _ _ _ => accounts_pure rfl

theorem accounts_viewItems (hdealing : Dealing may I) [Looks may] : ∀ vs : List Value,
    Accounts I (Value.handlesOfItems vs) (Value.viewItems vs) [] fun _ => []
  | [] => accounts_pure rfl
  | v :: vs =>
    ((accounts_view hdealing v).mono (List.subset_append_left ..)).bind fun _ _ _ _ =>
      ((accounts_viewItems hdealing vs).mono (List.subset_append_right ..)).bind fun _ _ _ _ =>
        accounts_pure rfl

theorem accounts_viewEntries (hdealing : Dealing may I) [Looks may] : ∀ entries : List (String × Value),
    Accounts I (Value.handlesOfEntries entries) (Value.viewEntries entries) [] fun _ => []
  | [] => accounts_pure rfl
  | (_, v) :: entries =>
    ((accounts_view hdealing v).mono (List.subset_append_left ..)).bind fun _ _ _ _ =>
      ((accounts_viewEntries hdealing entries).mono (List.subset_append_right ..)).bind
        fun _ _ _ _ => accounts_pure rfl

end

variable (hdealing : Dealing may I) [Looks may]
include hdealing

theorem accounts_errorView (e : HostError) : Accounts I e.handles e.view [] fun _ => [] := by
  unfold HostError.view HostError.handles
  cases e.value? with
  | none => exact Accounts.bind (accounts_pure rfl) fun _ _ _ _ => accounts_pure rfl
  | some v =>
    exact Accounts.bind ((hdealing.accounts_view v).map fun _ => rfl) fun _ _ _ _ => accounts_pure rfl

theorem accounts_orView {read : HostM α} {given : α → List Handle} {look : α → HostM View}
    (hread : Accounts I b read [] given)
    (hlook : ∀ a, Accounts I b (look a) (given a) fun _ => []) :
    Accounts I b (HostM.orView read look) [] fun _ => [] := by
  refine hread.attempt.bind fun r _ _ _ => ?_
  cases r with
  | ok a => exact hlook a
  | error e =>
    exact hdealing.holding e.handles ((hdealing.accounts_errorView e).mono (List.subset_append_left ..))

omit hdealing in
theorem accounts_mapItems {f : Value → HostM β}
    (hf : ∀ v, Accounts I v.handles (f v) [] fun _ => []) : ∀ vs : List Value,
    Accounts I (Value.handlesOfItems vs) (vs.mapM f) [] fun _ => []
  | [] => accounts_pure rfl
  | v :: vs => by
    rw [List.mapM_cons]
    exact ((hf v).mono (List.subset_append_left ..)).bind fun _ _ _ _ =>
      ((accounts_mapItems hf vs).mono (List.subset_append_right ..)).bind fun _ _ _ _ =>
        accounts_pure rfl

omit hdealing in
theorem accounts_mapEntries {f : String × Value → HostM β}
    (hf : ∀ entry, Accounts I (entryHandles entry) (f entry) [] fun _ => []) :
    ∀ entries : List (String × Value),
      Accounts I (Value.handlesOfEntries entries) (entries.mapM f) [] fun _ => []
  | [] => accounts_pure rfl
  | entry :: entries => by
    rw [List.mapM_cons]
    exact ((hf entry).mono (List.subset_append_left ..)).bind fun _ _ _ _ =>
      ((accounts_mapEntries hf entries).mono (List.subset_append_right ..)).bind fun _ _ _ _ =>
        accounts_pure rfl

theorem accounts_inspect (depth : Nat) : ∀ v : Value,
    Accounts I v.handles (v.inspect depth) [] fun _ => [] := by
  induction depth with
  | zero =>
    intro v
    cases v with
    | array _ | hash _ => exact accounts_pure rfl
    | _ => exact hdealing.accounts_view _
  | succ depth ih =>
    intro v
    cases v with
    | array a =>
      refine hdealing.accounts_orView (hdealing.accounts_arrayToList a) fun items => ?_
      have hitems : Accounts I (Value.handlesOfItems items ++ [a.cell])
          (items.mapM (Value.inspect depth)) [] fun _ => [] :=
        (accounts_mapItems ih items).mono (List.subset_append_left ..)
      exact hdealing.holding _ (hitems.bind fun _ _ _ _ => accounts_pure rfl)
    | hash h =>
      refine hdealing.accounts_orView (hdealing.accounts_hashToDict h) fun entries => ?_
      have hentries : Accounts I (Value.handlesOfEntries entries ++ [h.cell])
          (entries.mapM fun entry => do return (entry.1, ← Value.inspect depth entry.2)) []
          fun _ => [] :=
        (accounts_mapEntries (fun entry => (ih entry.2).bind fun _ _ _ _ => accounts_pure rfl)
          entries).mono (List.subset_append_left ..)
      exact hdealing.holding _ (hentries.bind fun _ _ _ _ => accounts_pure rfl)
    | _ => exact hdealing.accounts_view _

end Dealing

/-! ### Looking never fails -/

theorem unfailing_toOption (x : HostM α) : Unfailing x.toOption :=
  (unfailing_attempt x).bind fun r => by
    cases r with
    | ok a => exact unfailing_pure _
    | error e => exact (unfailing_release _).bind fun _ => unfailing_pure _

mutual

theorem unfailing_view : ∀ v : Value, Unfailing v.view
  | .nothing | .bool _ | .int _ | .float _ | .text _ | .bytes _ | .array _ | .hash _
  | .callable (.code _) | .callable (.method ..) => unfailing_pure _
  | .list items => (unfailing_viewItems items).bind fun _ => unfailing_pure _
  | .mapping entries => (unfailing_viewEntries entries).bind fun _ => unfailing_pure _
  | .object o => (unfailing_toOption o.identity).bind fun _ => unfailing_pure _

theorem unfailing_viewItems : ∀ vs : List Value, Unfailing (Value.viewItems vs)
  | [] => unfailing_pure _
  | v :: vs => (unfailing_view v).bind fun _ => (unfailing_viewItems vs).bind fun _ => unfailing_pure _

theorem unfailing_viewEntries : ∀ entries : List (String × Value),
    Unfailing (Value.viewEntries entries)
  | [] => unfailing_pure _
  | (_, v) :: entries =>
    (unfailing_view v).bind fun _ => (unfailing_viewEntries entries).bind fun _ => unfailing_pure _

end

theorem unfailing_errorView (e : HostError) : Unfailing e.view := by
  unfold HostError.view
  cases e.value? with
  | none => exact (unfailing_pure _).bind fun _ => unfailing_pure _
  | some v => exact ((unfailing_view v).map _).bind fun _ => unfailing_pure _

end Embedding

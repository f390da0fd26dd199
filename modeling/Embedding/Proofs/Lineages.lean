import Mathlib.Data.Finset.Card
import Mathlib.Logic.Relation
import Embedding.Proofs.Heap.Sound

/-!
# Lineages

Packages list their parents in arrays, so the parents of classes are a graph of any shape: two ways
may lead to one class, and a class may be its own ancestor. The order in which methods are looked for
is described here without depth or steps, and the searches, which count both, are shown to end and to
agree with it.
-/

namespace Embedding

variable {parents : String → List String}

/-! ## Depth first, left to right -/

/-- The classes met so far, those to go through, and the classes met in the end: each class before
its parents, a parent with all of its own before the next, and none a second time. -/
inductive DepthFirst (parents : String → List String) :
    List String → List String → List String → Prop
  | done {met : List String} : DepthFirst parents met [] met
  | again {met cs out : List String} {c : String} :
      c ∈ met → DepthFirst parents met cs out → DepthFirst parents met (c :: cs) out
  | enter {met cs mid out : List String} {c : String} :
      c ∉ met → DepthFirst parents (met ++ [c]) (parents c) mid → DepthFirst parents mid cs out →
      DepthFirst parents met (c :: cs) out

/-- From a class to a class by any number of steps to a parent. -/
abbrev Ancestor (parents : String → List String) : String → String → Prop :=
  Relation.ReflTransGen fun c p => p ∈ parents c

namespace DepthFirst
variable {met todo out out' : List String}

theorem unique (h : DepthFirst parents met todo out) (h' : DepthFirst parents met todo out') :
    out' = out := by
  induction h generalizing out' with
  | done => cases h'; rfl
  | again hc _ ih =>
    cases h' with
    | again _ h' => exact ih h'
    | enter hn => exact absurd hc hn
  | enter hn _ _ ih₁ ih₂ =>
    cases h' with
    | again hc => exact absurd hc hn
    | enter _ h₁ h₂ =>
      have hmid := ih₁ h₁
      subst hmid
      exact ih₂ h₂

theorem grows (h : DepthFirst parents met todo out) : met <+: out := by
  induction h with
  | done => exact List.prefix_rfl
  | again _ _ ih => exact ih
  | enter _ _ _ ih₁ ih₂ => exact ((List.prefix_append _ _).trans ih₁).trans ih₂

theorem nodup (h : DepthFirst parents met todo out) (hmet : met.Nodup) : out.Nodup := by
  induction h with
  | done => exact hmet
  | again _ _ ih => exact ih hmet
  | enter hn _ _ ih₁ ih₂ =>
    apply ih₂
    apply ih₁
    rw [← List.concat_eq_append]
    exact hmet.concat hn

theorem mem_out (h : DepthFirst parents met todo out) : ∀ c ∈ todo, c ∈ out := by
  induction h with
  | done => intro c hc; cases hc
  | again hc hrest ih =>
    intro d hd
    cases hd with
    | head => exact hrest.grows.subset hc
    | tail _ hd => exact ih d hd
  | enter _ h₁ h₂ _ ih₂ =>
    intro d hd
    cases hd with
    | head => exact (h₁.grows.trans h₂.grows).subset (by simp)
    | tail _ hd => exact ih₂ d hd

theorem ancestor (h : DepthFirst parents met todo out) :
    ∀ t ∈ out, t ∈ met ∨ ∃ c ∈ todo, Ancestor parents c t := by
  induction h with
  | done => intro t ht; exact .inl ht
  | again _ _ ih =>
    intro t ht
    obtain hmet | ⟨c, hc, hct⟩ := ih t ht
    · exact .inl hmet
    · exact .inr ⟨c, .tail _ hc, hct⟩
  | @enter met cs mid out c _ _ _ ih₁ ih₂ =>
    intro t ht
    obtain hmid | ⟨d, hd, hdt⟩ := ih₂ t ht
    · obtain hmet | ⟨p, hp, hpt⟩ := ih₁ t hmid
      · obtain hmet | hself := List.mem_append.mp hmet
        · exact .inl hmet
        · exact .inr ⟨c, .head _, List.mem_singleton.mp hself ▸ .refl⟩
      · exact .inr ⟨c, .head _, .head hp hpt⟩
    · exact .inr ⟨d, .tail _ hd, hdt⟩

theorem closed (h : DepthFirst parents met todo out) :
    ∀ t ∈ out, t ∈ met ∨ ∀ p ∈ parents t, p ∈ out := by
  induction h with
  | done => intro t ht; exact .inl ht
  | again _ _ ih => exact ih
  | @enter met cs mid out c _ h₁ h₂ ih₁ ih₂ =>
    intro t ht
    obtain hmid | hp := ih₂ t ht
    · obtain hmet | hp := ih₁ t hmid
      · obtain hmet | hself := List.mem_append.mp hmet
        · exact .inl hmet
        · rw [List.mem_singleton.mp hself]
          exact .inr fun p hp => h₂.grows.subset (h₁.mem_out p hp)
      · exact .inr fun p hpt => h₂.grows.subset (hp p hpt)
    · exact .inr hp

theorem mem_iff {c : String} (h : DepthFirst parents [] [c] out) (t : String) :
    t ∈ out ↔ Ancestor parents c t := by
  constructor
  · intro ht
    obtain hmet | ⟨d, hd, hdt⟩ := h.ancestor t ht
    · cases hmet
    · rwa [List.mem_singleton.mp hd] at hdt
  · intro hct
    induction hct with
    | refl => exact h.mem_out c (.head _)
    | tail _ hp ih =>
      obtain hmet | hall := h.closed _ ih
      · cases hmet
      · exact hall _ hp

end DepthFirst

/-! ## Ends

The classes that can be met are finitely many. What is left of them goes down with every class that
is entered, which bounds the depth of a search and the length of a list of pending classes. -/

def unmet (classes met : List String) : Nat := (classes.toFinset \ met.toFinset).card

/-- Classes whose parents are among them. -/
def Closed (parents : String → List String) (classes : List String) : Prop :=
  ∀ c ∈ classes, parents c ⊆ classes

section
variable {classes met todo : List String}

theorem unmet_mono {met' : List String} (h : met ⊆ met') : unmet classes met' ≤ unmet classes met := by
  apply Finset.card_le_card
  apply Finset.sdiff_subset_sdiff (Finset.Subset.refl _)
  intro c hc
  simp only [List.mem_toFinset] at hc ⊢
  exact h hc

theorem unmet_lt {met' : List String} {c : String} (hc : c ∈ classes) (hnew : c ∉ met)
    (hsub : met ⊆ met') (hmem : c ∈ met') : unmet classes met' < unmet classes met := by
  apply Finset.card_lt_card
  refine Finset.ssubset_iff_subset_ne.mpr ⟨?_, ?_⟩
  · apply Finset.sdiff_subset_sdiff (Finset.Subset.refl _)
    intro d hd
    simp only [List.mem_toFinset] at hd ⊢
    exact hsub hd
  · intro heq
    have hold : c ∈ classes.toFinset \ met.toFinset := by simp [hc, hnew]
    rw [← heq] at hold
    simp [hmem] at hold

theorem unmet_le : unmet classes met ≤ classes.length :=
  (Finset.card_le_card Finset.sdiff_subset).trans classes.toFinset_card_le

/-- However the classes list each other, going through them comes to an end. -/
theorem DepthFirst.exists_out (hclosed : Closed parents classes) (htodo : todo ⊆ classes) :
    ∃ out, DepthFirst parents met todo out := by
  induction hn : unmet classes met using Nat.strongRecOn generalizing met todo with
  | _ n ih =>
    subst hn
    -- The parents of a class that is entered meet fewer unmet classes, the rest of the list no more.
    have hrest : ∀ met' : List String, met <+: met' → ∃ out, DepthFirst parents met' todo out := by
      intro met' hmet'
      induction todo generalizing met' with
      | nil => exact ⟨met', .done⟩
      | cons c cs ihcs =>
        have hc : c ∈ classes := htodo (.head _)
        have hcs : cs ⊆ classes := fun _ hd => htodo (.tail _ hd)
        by_cases hmem : c ∈ met'
        · obtain ⟨out, hout⟩ := ihcs hcs met' hmet'
          exact ⟨out, .again hmem hout⟩
        · have hgrow : met' <+: met' ++ [c] := List.prefix_append _ _
          have hless : unmet classes (met' ++ [c]) < unmet classes met :=
            (unmet_lt hc hmem hgrow.subset (by simp)).trans_le (unmet_mono hmet'.subset)
          obtain ⟨mid, hmid⟩ := ih _ hless (hclosed c hc) rfl
          obtain ⟨out, hout⟩ := ihcs hcs mid ((hmet'.trans hgrow).trans hmid.grows)
          exact ⟨out, .enter hmem hmid hout⟩
    exact hrest met List.prefix_rfl

end

/-! ## Without leaving out

The order leaves out a class that was met on another way, with all that is behind it. Going every way
to its end meets the same classes for the first time in the same order. -/

/-- The classes on all ways through some classes, in order, where a way ends before it comes to a class
that it has been through. -/
inductive Ways (parents : String → List String) : List String → List String → List String → Prop
  | done {way : List String} : Ways parents way [] []
  | round {way cs rest : List String} {c : String} :
      c ∈ way → Ways parents way cs rest → Ways parents way (c :: cs) rest
  | enter {way cs behind rest : List String} {c : String} :
      c ∉ way → Ways parents (c :: way) (parents c) behind → Ways parents way cs rest →
      Ways parents way (c :: cs) (c :: behind ++ rest)

theorem Ways.exists_all {classes way todo : List String} (hclosed : Closed parents classes)
    (htodo : todo ⊆ classes) : ∃ all, Ways parents way todo all := by
  induction hn : unmet classes way using Nat.strongRecOn generalizing way todo with
  | _ n ih =>
    subst hn
    induction todo with
    | nil => exact ⟨[], .done⟩
    | cons c cs ihcs =>
      have hc : c ∈ classes := htodo (.head _)
      obtain ⟨rest, hrest⟩ := ihcs fun _ hd => htodo (.tail _ hd)
      by_cases hround : c ∈ way
      · exact ⟨rest, .round hround hrest⟩
      · have hless : unmet classes (c :: way) < unmet classes way :=
          unmet_lt hc hround (List.subset_cons_self _ _) (.head _)
        obtain ⟨behind, hbehind⟩ := ih _ hless (hclosed c hc) rfl
        exact ⟨_, .enter hround hbehind hrest⟩

/-- Every class that was met has its parents among those that were met, but for classes on the way. -/
def Settled (parents : String → List String) (way met : List String) : Prop :=
  ∀ c ∈ met, c ∈ way ∨ ∀ p ∈ parents c, p ∈ met

def meet (met : List String) (c : String) : List String := if c ∈ met then met else met ++ [c]

theorem foldl_meet_of_subset {met cs : List String} (h : cs ⊆ met) : cs.foldl meet met = met := by
  induction cs with
  | nil => rfl
  | cons c cs ih =>
    rw [List.foldl_cons, meet, if_pos (h (.head _))]
    exact ih fun _ hd => h (.tail _ hd)

theorem Ways.subset_met {way todo all met : List String} (h : Ways parents way todo all)
    (hsettled : Settled parents way met) (htodo : ∀ c ∈ todo, c ∈ way ∨ c ∈ met) : all ⊆ met := by
  induction h with
  | done => exact List.nil_subset _
  | round _ _ ih => exact ih hsettled fun d hd => htodo d (.tail _ hd)
  | enter hc _ _ ih₁ ih₂ =>
    have hmet := (htodo _ (.head _)).resolve_left hc
    have hparents := (hsettled _ hmet).resolve_left hc
    have hbehind := ih₁ (fun d hd => (hsettled d hd).imp_left (.tail _))
      fun p hp => .inr (hparents p hp)
    have hrest := ih₂ hsettled fun d hd => htodo d (.tail _ hd)
    exact List.append_subset.mpr ⟨List.cons_subset.mpr ⟨hmet, hbehind⟩, hrest⟩

theorem DepthFirst.settled {way met todo out : List String} (h : DepthFirst parents met todo out)
    (hsettled : Settled parents way met) : Settled parents way out := by
  intro c hc
  obtain hmet | hparents := h.closed c hc
  · exact (hsettled c hmet).imp_right fun hp p hpc => h.grows.subset (hp p hpc)
  · exact .inr hparents

/-- What is met is what stands on the ways, each class where it stands first. -/
theorem DepthFirst.eq_foldl_ways {way met todo out all : List String} (h : DepthFirst parents met todo out)
    (hways : Ways parents way todo all) (hway : way ⊆ met) (hsettled : Settled parents way met) :
    out = all.foldl meet met := by
  induction h generalizing way all with
  | done => cases hways; rfl
  | again hc _ ih =>
    cases hways with
    | round _ hways => exact ih hways hway hsettled
    | enter hnew h₁ h₂ =>
      have hbehind := h₁.subset_met (fun d hd => (hsettled d hd).imp_left (.tail _))
        fun p hp => .inr ((hsettled _ hc).resolve_left hnew p hp)
      rw [List.foldl_append, foldl_meet_of_subset (List.cons_subset.mpr ⟨hc, hbehind⟩)]
      exact ih h₂ hway hsettled
  | @enter met cs mid out c hc h₁ h₂ ih₁ ih₂ =>
    cases hways with
    | round hround => exact absurd (hway hround) hc
    | @enter _ _ behind rest _ _ hways₁ hways₂ =>
      have hopen : Settled parents (c :: way) (met ++ [c]) := by
        intro d hd
        obtain hd | hd := List.mem_append.mp hd
        · exact (hsettled d hd).imp (.tail _) fun hp p hpd => List.mem_append_left _ (hp p hpd)
        · exact .inl (List.mem_singleton.mp hd ▸ .head _)
      have hentered : c :: way ⊆ met ++ [c] :=
        List.cons_subset.mpr ⟨by simp, fun d hd => List.mem_append_left _ (hway hd)⟩
      have hmid := ih₁ hways₁ hentered hopen
      -- The class that was entered is settled once its parents have been gone through.
      have hclosed : Settled parents way mid := by
        intro d hd
        obtain hon | hparents := h₁.settled hopen d hd
        · cases hon with
          | head => exact .inr h₁.mem_out
          | tail _ hon => exact .inl hon
        · exact .inr hparents
      have hout := ih₂ hways₂ (fun d hd => h₁.grows.subset (List.mem_append_left _ (hway hd))) hclosed
      rw [hout, hmid, List.foldl_append, List.foldl_cons, meet, if_neg hc]

theorem findSome?_meet {α : Type} (found : String → Option α) (met : List String) (c : String) :
    (meet met c).findSome? found = (met.findSome? found <|> found c) := by
  unfold meet
  split
  · rename_i hc
    cases hmet : met.findSome? found with
    | some a => rfl
    | none => exact (List.findSome?_eq_none_iff.mp hmet c hc).symm
  · rw [List.findSome?_append]
    cases met.findSome? found <;> cases hc : found c <;> simp [hc]

theorem findSome?_foldl_meet {α : Type} (found : String → Option α) (all met : List String) :
    (all.foldl meet met).findSome? found = (met.findSome? found <|> all.findSome? found) := by
  induction all generalizing met with
  | nil => simp
  | cons c cs ih =>
    rw [List.foldl_cons, ih, findSome?_meet, List.findSome?_cons]
    cases met.findSome? found <;> cases found c <;> rfl

/-- The first class that has something is the same on all ways. -/
theorem DepthFirst.findSome?_ways {α : Type} {todo out all : List String}
    (h : DepthFirst parents [] todo out) (hways : Ways parents [] todo all)
    (found : String → Option α) : out.findSome? found = all.findSome? found := by
  rw [h.eq_foldl_ways hways (List.nil_subset _) (fun c hc => by cases hc), findSome?_foldl_meet]
  rfl

/-! ## The search for a method -/

namespace Heap

section
variable {α : Type} {found : String → Option α} {depth : Nat} {met todo out : List String} {c : String}

theorem search_again (hc : c ∈ met) :
    (search parents found (depth + 1) c).run met = some (none, met) := by
  simp [search, hc]

theorem search_found {a : α} (hc : c ∉ met) (ha : found c = some a) :
    (search parents found (depth + 1) c).run met = some (some a, met ++ [c]) := by
  simp [search, hc, ha]

theorem search_enter (hc : c ∉ met) (hnone : found c = none) :
    (search parents found (depth + 1) c).run met =
      ((parents c).findSomeM? (search parents found depth)).run (met ++ [c]) := by
  simp [search, hc, hnone]

theorem searchAll_cons (cs : List String) :
    ((c :: cs).findSomeM? (search parents found depth)).run met =
      ((search parents found depth c).run met).bind fun r =>
        match r.1 with
        | some a => some (some a, r.2)
        | none => (cs.findSomeM? (search parents found depth)).run r.2 := by
  rw [List.findSomeM?, StateT.run_bind]
  congr 1
  funext r
  obtain ⟨_ | a, met'⟩ := r <;> rfl

/-- A search through classes finds the first of those that are met that has something. If none has,
it has met all of them. -/
theorem searchAll_depthFirst {classes : List String} (h : DepthFirst parents met todo out)
    (hclosed : Closed parents classes) (htodo : todo ⊆ classes) (hdepth : unmet classes met < depth) :
    ∃ new, out = met ++ new ∧
      ((∃ a met', new.findSome? found = some a ∧
          (todo.findSomeM? (search parents found depth)).run met = some (some a, met')) ∨
        (new.findSome? found = none ∧
          (todo.findSomeM? (search parents found depth)).run met = some (none, out))) := by
  induction h generalizing depth with
  | done => exact ⟨[], (List.append_nil _).symm, .inr ⟨rfl, rfl⟩⟩
  | again hc _ ih =>
    obtain ⟨d, rfl⟩ : ∃ d, depth = d + 1 := ⟨depth - 1, by omega⟩
    rw [searchAll_cons, search_again hc]
    exact ih (fun _ hd => htodo (.tail _ hd)) hdepth
  | @enter met cs mid out c hc h₁ h₂ ih₁ ih₂ =>
    obtain ⟨d, rfl⟩ : ∃ d, depth = d + 1 := ⟨depth - 1, by omega⟩
    have hmem : c ∈ classes := htodo (.head _)
    have hmet : met <+: mid := (List.prefix_append _ _).trans h₁.grows
    have hless : unmet classes (met ++ [c]) < unmet classes met :=
      unmet_lt hmem hc (List.subset_append_left _ _) (by simp)
    have hdepth₁ : unmet classes (met ++ [c]) < d := by omega
    obtain ⟨new₁, rfl, hfirst⟩ := ih₁ (hclosed c hmem) hdepth₁
    obtain ⟨new₂, rfl, hrest⟩ := ih₂ (fun _ hd => htodo (.tail _ hd))
      ((unmet_mono hmet.subset).trans_lt hdepth)
    refine ⟨c :: new₁ ++ new₂, by simp, ?_⟩
    rw [searchAll_cons]
    cases hown : found c with
    | some a =>
      rw [search_found hc hown]
      exact .inl ⟨a, _, by simp [hown], rfl⟩
    | none =>
      rw [search_enter hc hown]
      obtain ⟨a, met', ha, hrun⟩ | ⟨hnone, hrun⟩ := hfirst
      · rw [hrun]
        exact .inl ⟨a, met', by simp [hown, ha], rfl⟩
      · rw [hrun]
        simpa [hown, hnone] using hrest

end

/-! ## The search for an ancestor -/

/-- None of the visited classes is the target, and their parents are visited or pending. -/
def Explored (parents : String → List String) (target : String) (visited pending : List String) :
    Prop :=
  ∀ v ∈ visited, v ≠ target ∧ ∀ p ∈ parents v, p ∈ visited ∨ p ∈ pending

/-- The target is an ancestor of a class that is pending or visited. -/
def Within (parents : String → List String) (target : String) (visited pending : List String) : Prop :=
  ∃ c, (c ∈ pending ∨ c ∈ visited) ∧ Ancestor parents c target

section
variable {target c : String} {visited pending classes : List String} {steps most : Nat}

theorem Explored.again (h : Explored parents target visited (c :: pending)) (hc : c ∈ visited) :
    Explored parents target visited pending := by
  intro v hv
  refine ⟨(h v hv).1, ?_⟩
  intro p hp
  obtain hold | hpend := (h v hv).2 p hp
  · exact .inl hold
  · cases hpend with
    | head => exact .inl hc
    | tail _ hpend => exact .inr hpend

theorem Explored.enter (h : Explored parents target visited (c :: pending)) (hc : c ≠ target) :
    Explored parents target (c :: visited) ((parents c).reverse ++ pending) := by
  intro v hv
  cases hv with
  | head => exact ⟨hc, fun p hp => .inr (List.mem_append_left _ (List.mem_reverse.mpr hp))⟩
  | tail _ hv =>
    refine ⟨(h v hv).1, ?_⟩
    intro p hp
    obtain hold | hpend := (h v hv).2 p hp
    · exact .inl (.tail _ hold)
    · cases hpend with
      | head => exact .inl (.head _)
      | tail _ hpend => exact .inr (List.mem_append_right _ hpend)

theorem Explored.not_within (h : Explored parents target visited []) :
    ¬ Within parents target visited [] := by
  rintro ⟨v, hv, hreach⟩
  have hall : ∀ t, Ancestor parents v t → t ∈ visited := by
    intro t ht
    induction ht with
    | refl => exact hv.resolve_left List.not_mem_nil
    | tail _ hp ih => exact ((h _ ih).2 _ hp).resolve_right List.not_mem_nil
  exact (h target (hall target hreach)).1 rfl

theorem within_again (hc : c ∈ visited) :
    Within parents target visited pending ↔ Within parents target visited (c :: pending) := by
  constructor
  · rintro ⟨d, hd, hreach⟩
    exact ⟨d, hd.imp_left (.tail _), hreach⟩
  · rintro ⟨d, hd | hd, hreach⟩
    · cases hd with
      | head => exact ⟨_, .inr hc, hreach⟩
      | tail _ hd => exact ⟨d, .inl hd, hreach⟩
    · exact ⟨d, .inr hd, hreach⟩

theorem within_enter :
    Within parents target (c :: visited) ((parents c).reverse ++ pending) ↔
      Within parents target visited (c :: pending) := by
  constructor
  · rintro ⟨d, hd | hd, hreach⟩
    · obtain hp | hd := List.mem_append.mp hd
      · exact ⟨c, .inl (.head _), .head (List.mem_reverse.mp hp) hreach⟩
      · exact ⟨d, .inl (.tail _ hd), hreach⟩
    · cases hd with
      | head => exact ⟨_, .inl (.head _), hreach⟩
      | tail _ hd => exact ⟨d, .inr hd, hreach⟩
  · rintro ⟨d, hd | hd, hreach⟩
    · cases hd with
      | head => exact ⟨_, .inr (.head _), hreach⟩
      | tail _ hd => exact ⟨d, .inl (List.mem_append_right _ hd), hreach⟩
    · exact ⟨d, .inr (.tail _ hd), hreach⟩

/-- With enough steps the search comes to an end, and tells whether the target is an ancestor. Every
class that is entered pays for the parents that come with it. -/
theorem reaches_spec (hclosed : Closed parents classes) (hmost : ∀ c, (parents c).length ≤ most)
    (hpending : pending ⊆ classes) (hexplored : Explored parents target visited pending)
    (hsteps : pending.length + unmet classes visited * (most + 1) < steps) :
    ∃ b, reaches parents target steps visited pending = some b ∧
      (b = true ↔ Within parents target visited pending) := by
  induction steps generalizing visited pending with
  | zero => omega
  | succ steps ih =>
    cases pending with
    | nil =>
      refine ⟨false, rfl, ?_⟩
      simp [hexplored.not_within]
    | cons c pending =>
      have hc : c ∈ classes := hpending (.head _)
      have htail : pending ⊆ classes := fun _ hd => hpending (.tail _ hd)
      rw [List.length_cons] at hsteps
      unfold reaches
      by_cases htarget : c = target
      · refine ⟨true, if_pos htarget, ?_⟩
        exact ⟨fun _ => ⟨c, .inl (.head _), htarget ▸ .refl⟩, fun _ => rfl⟩
      rw [if_neg htarget]
      by_cases hagain : c ∈ visited
      · rw [if_pos hagain]
        obtain ⟨b, hrun, hb⟩ := ih htail (hexplored.again hagain) (by omega)
        exact ⟨b, hrun, hb.trans (within_again hagain)⟩
      · rw [if_neg hagain]
        have hsub : (parents c).reverse ++ pending ⊆ classes := by
          intro d hd
          obtain hd | hd := List.mem_append.mp hd
          · exact hclosed c hc (List.mem_reverse.mp hd)
          · exact htail hd
        have hless : unmet classes (c :: visited) + 1 ≤ unmet classes visited :=
          unmet_lt hc hagain (List.subset_cons_self _ _) (.head _)
        have hpaid := Nat.mul_le_mul_right (most + 1) hless
        have hlength := hmost c
        obtain ⟨b, hrun, hb⟩ := ih hsub (hexplored.enter htarget) (by
          rw [List.length_append, List.length_reverse]
          rw [Nat.add_mul] at hpaid
          omega)
        exact ⟨b, hrun, hb.trans within_enter⟩

end

/-! ## The classes of a heap -/

variable {h : Heap}

def names (h : Heap) : List String := h.symbols.arrays.values.flatMap h.strings

theorem classBound_eq (h : Heap) : h.classBound = h.names.length + 2 := by
  have hfold : ∀ (arrays : List CellId) (n : Nat),
      arrays.foldl (fun n array => n + (h.strings array).length) n =
        (arrays.flatMap h.strings).length + n := by
    intro arrays
    induction arrays with
    | nil => intro n; simp
    | cons array arrays ih =>
      intro n
      rw [List.foldl_cons, ih, List.flatMap_cons, List.length_append]
      omega
  exact hfold _ 2

theorem parents_eq (h : Heap) (c : String) :
    h.parents c = [] ∨ ∃ array ∈ h.symbols.arrays.values, h.parents c = h.strings array := by
  unfold parents arrayStrings
  cases hsymbol : h.symbol? .array (Name.qualify (Name.member c "ISA")) with
  | none => exact .inl rfl
  | some array => exact .inr ⟨array, mem_values_of_get? hsymbol, rfl⟩

theorem parents_subset (h : Heap) (c : String) : h.parents c ⊆ h.names := by
  obtain hnone | ⟨array, hmem, heq⟩ := h.parents_eq c
  · rw [hnone]
    exact List.nil_subset _
  · rw [heq]
    intro p hp
    exact List.mem_flatMap.mpr ⟨array, hmem, hp⟩

theorem parents_length_le (h : Heap) (c : String) : (h.parents c).length ≤ h.names.length := by
  obtain hnone | ⟨array, hmem, heq⟩ := h.parents_eq c
  · simp [hnone]
  · obtain ⟨before, after, hsplit⟩ := List.append_of_mem hmem
    rw [heq, names, hsplit, List.flatMap_append, List.flatMap_cons]
    simp only [List.length_append]
    omega

theorem closed_names (h : Heap) (c : String) : Closed h.parents (c :: h.names) :=
  fun d _ => List.subset_cons_of_subset c (h.parents_subset d)

theorem unmet_names_le (h : Heap) (c : String) :
    unmet (c :: h.names) [] ≤ h.names.length + 1 := by
  have hle : unmet (c :: h.names) [] ≤ (c :: h.names).length := unmet_le
  rwa [List.length_cons] at hle

theorem exists_depthFirst (h : Heap) (className : String) :
    ∃ order, DepthFirst h.parents [] [className] order :=
  DepthFirst.exists_out (h.closed_names className) (by simp)

/-- The search for a method comes to an end, and gives what the first class in the order has that has
anything. -/
theorem search_eq {α : Type} (found : String → Option α) {className : String} {order : List String}
    (horder : DepthFirst h.parents [] [className] order) :
    (search h.parents found h.classBound className).run' [] = some (order.findSome? found) := by
  have hle := h.unmet_names_le className
  have hdepth : unmet (className :: h.names) [] < h.classBound := by
    rw [classBound_eq]
    omega
  obtain ⟨new, rfl, hends⟩ := searchAll_depthFirst horder (h.closed_names className) (by simp) hdepth
  have hone : ∀ r met', ([className].findSomeM? (search h.parents found h.classBound)).run [] =
      some (r, met') → (search h.parents found h.classBound className).run' [] = some r := by
    intro r met' hrun
    rw [searchAll_cons] at hrun
    obtain ⟨⟨r', met''⟩, hsearch, hrest⟩ := Option.bind_eq_some_iff.mp hrun
    rw [StateT.run'_eq, hsearch]
    cases r' <;> simp_all
  obtain ⟨a, met', ha, hrun⟩ | ⟨hnone, hrun⟩ := hends
  · rw [ha]
    exact hone _ _ hrun
  · rw [hnone]
    exact hone _ _ hrun

theorem reaches_eq (h : Heap) (className ancestor : String) :
    ∃ b, reaches h.parents ancestor (h.classBound ^ 2) [] [className] = some b ∧
      (b = true ↔ Ancestor h.parents className ancestor) := by
  have hle := Nat.mul_le_mul_right (h.names.length + 1) (h.unmet_names_le className)
  have hsteps : [className].length + unmet (className :: h.names) [] * (h.names.length + 1) <
      h.classBound ^ 2 := by
    rw [classBound_eq, List.length_singleton]
    refine lt_of_le_of_lt (Nat.add_le_add_left hle 1) ?_
    simp only [Nat.pow_two, Nat.add_mul, Nat.mul_add]
    omega
  have hexplored : Explored h.parents ancestor [] [className] := fun v hv => by cases hv
  obtain ⟨b, hrun, hb⟩ := reaches_spec (h.closed_names className) h.parents_length_le (by simp)
    hexplored hsteps
  refine ⟨b, hrun, hb.trans ?_⟩
  constructor
  · rintro ⟨c, hc | hc, hreach⟩
    · rwa [List.mem_singleton.mp hc] at hreach
    · cases hc
  · intro hreach
    exact ⟨className, .inl (.head _), hreach⟩

theorem derivesFrom_iff (h : Heap) (className ancestor : String) :
    h.derivesFrom className ancestor = true ↔ Ancestor h.parents className ancestor := by
  obtain ⟨b, hrun, hb⟩ := h.reaches_eq className ancestor
  rw [derivesFrom, hrun]
  exact hb

theorem resolveMethod_eq {className : String} {order : List String} (method : String)
    (horder : DepthFirst h.parents [] [className] order) :
    h.resolveMethod className method =
      (order.findSome? (h.ownMethod method) <|> h.ownMethod method "UNIVERSAL") := by
  rw [resolveMethod, search_eq _ horder]
  rfl

/-- Nothing is missed by not looking at a class twice: going every way from the class up to its end,
the same sub comes first. -/
theorem resolveMethod_ways (h : Heap) (className : String) :
    ∃ all, Ways h.parents [] [className] all ∧ ∀ method, h.resolveMethod className method =
      (all.findSome? (h.ownMethod method) <|> h.ownMethod method "UNIVERSAL") := by
  obtain ⟨order, horder⟩ := h.exists_depthFirst className
  obtain ⟨all, hall⟩ : ∃ all, Ways h.parents [] [className] all :=
    Ways.exists_all (h.closed_names className) (by simp)
  refine ⟨all, hall, ?_⟩
  intro method
  rw [resolveMethod_eq method horder, horder.findSome?_ways hall]

/-- Whatever the parents of classes are, the two searches come to an end. Methods are looked for in
one order, depth first and from left to right, in which every ancestor stands once, and the first
class that has the method gives it. That class is an ancestor. -/
theorem methods_in_order (h : Heap) (className : String) :
    ∃ order, (∀ order', DepthFirst h.parents [] [className] order' ↔ order' = order) ∧
      order.Nodup ∧ (∀ c, c ∈ order ↔ Ancestor h.parents className c) ∧
      (∀ method,
        (search h.parents (h.ownMethod method) h.classBound className).run' [] ≠ none ∧
        h.resolveMethod className method =
          (order.findSome? (h.ownMethod method) <|> h.ownMethod method "UNIVERSAL")) ∧
      (∀ ancestor, reaches h.parents ancestor (h.classBound ^ 2) [] [className] ≠ none ∧
        (h.derivesFrom className ancestor = true ↔ Ancestor h.parents className ancestor)) ∧
      ∀ method sub, order.findSome? (h.ownMethod method) = some sub →
        ∃ before owner after, order = before ++ owner :: after ∧
          (∀ c ∈ before, h.ownMethod method c = none) ∧ h.ownMethod method owner = some sub ∧
          h.derivesFrom className owner = true := by
  obtain ⟨order, horder⟩ := h.exists_depthFirst className
  refine ⟨order, ?_, horder.nodup List.nodup_nil, horder.mem_iff, ?_, ?_, ?_⟩
  · intro order'
    exact ⟨horder.unique, fun heq => heq ▸ horder⟩
  · intro method
    refine ⟨?_, resolveMethod_eq method horder⟩
    rw [search_eq _ horder]
    exact Option.some_ne_none _
  · intro ancestor
    obtain ⟨b, hrun, -⟩ := h.reaches_eq className ancestor
    exact ⟨by rw [hrun]; exact Option.some_ne_none _, h.derivesFrom_iff className ancestor⟩
  · intro method sub hfirst
    obtain ⟨before, owner, after, hsplit, hown, hbefore⟩ := List.findSome?_eq_some_iff.mp hfirst
    refine ⟨before, owner, after, hsplit, hbefore, hown, ?_⟩
    rw [derivesFrom_iff, ← horder.mem_iff]
    exact hsplit ▸ List.mem_append_right _ (.head _)

end Heap

end Embedding

import Embedding.Proofs.Heap.Planting

/-!
# Data that cells carry

What a scalar has for its value is read off the cells that it leads to, however many places hold those.
A reference is read as a list or a mapping if its container is no object.
-/

namespace Embedding.Heap

def HasContent (h : Heap) (c : CellId) (content : Content) : Prop :=
  ∃ n p, h.cell? c = some ⟨n, p, content⟩ ∧ 1 ≤ n

mutual

/-- The scalar carries the value, by way of the cells `T`. -/
inductive Carries (h : Heap) : Value → Embedding.Scalar → (T : List CellId) → Prop
  | leaf {v s} : v.scalar? = some s → Carries h v s []
  | list {items a n cs T} : h.cell? a = some ⟨n, none, .array cs⟩ → 1 ≤ n →
    CarriesItems h items cs.toList T → Carries h (.list items) (.ofRef a) (a :: T)
  | mapping {entries a n d cursor T} : h.cell? a = some ⟨n, none, .hash d cursor⟩ → 1 ≤ n →
    Dict.keys d = Dict.keys entries → CarriesItems h (Dict.values entries) (Dict.values d) T →
    Carries h (.mapping entries) (.ofRef a) (a :: T)

/-- The cells are scalars that carry the values. -/
inductive CarriesItems (h : Heap) : List Value → List CellId → (T : List CellId) → Prop
  | nil : CarriesItems h [] [] []
  | cons {v vs c cs s T U} : h.HasContent c (.scalar s) → Carries h v s T → CarriesItems h vs cs U →
    CarriesItems h (v :: vs) (c :: cs) (c :: T ++ U)

end

/-- A cell with the content carries the value. -/
inductive ContentCarries (h : Heap) : Value → Content → (T : List CellId) → Prop
  | scalar {v s T} : Carries h v s T → ContentCarries h v (.scalar s) T
  | array {items cs T} : CarriesItems h items cs.toList T → ContentCarries h (.list items) (.array cs) T
  | hash {entries d cursor T} : Dict.keys d = Dict.keys entries →
    CarriesItems h (Dict.values entries) (Dict.values d) T →
    ContentCarries h (.mapping entries) (.hash d cursor) T

/-- Those of the cells that are left have the contents that they had. -/
def Untouched (T : List CellId) (h h' : Heap) : Prop :=
  ∀ c ∈ T, ∀ x', h'.cell? c = some x' →
    ∃ x, h.cell? c = some x ∧ x'.content = x.content ∧ x'.package = x.package

variable {h h' : Heap} {v : Value} {vs us : List Value} {s : Embedding.Scalar} {c d : CellId}
  {cs ds σ T U : List CellId} {x : Cell} {content : Content} {same : Sameness}

/-! ## Contents -/

theorem HasContent.isLive (hc : h.HasContent c content) : h.isLive c := by
  obtain ⟨n, p, hx, -⟩ := hc
  exact isLive_of_cell? hx

theorem HasContent.scalar {s : Embedding.Scalar} (hc : h.HasContent c (.scalar s)) : h.scalar c = .ok s := by
  obtain ⟨_, _, hx, -⟩ := hc
  exact scalar_eq_ok_iff.2 ⟨_, hx, rfl⟩

theorem HasContent.items {items : Array CellId} (hc : h.HasContent c (.array items)) :
    h.items c = .ok items := by
  obtain ⟨_, _, hx, -⟩ := hc
  exact items_eq_ok_iff.2 ⟨_, hx, rfl⟩

theorem HasContent.hash {entries : Dict CellId} {i : Nat} (hc : h.HasContent c (.hash entries i)) :
    h.hash c = .ok (entries, i) := by
  obtain ⟨_, _, hx, -⟩ := hc
  exact hash_eq_ok_iff.2 ⟨_, hx, rfl⟩

theorem HasContent.turned {s : Embedding.Scalar} (hc : h.HasContent c (.scalar s))
    (ho : SameCell (h.cell? c) (h'.cell? c)) : h'.HasContent c (.scalar s) := by
  obtain ⟨n, p, hx, hn⟩ := hc
  exact ⟨n, p, ho.of_scalar hx, hn⟩

theorem Sound.hasContent (hs : h.Sound σ) (hx : h.cell? c = some x) : h.HasContent c x.content :=
  ⟨x.refcount, x.package, hx, (hs.exact.counts c x hx).2⟩

theorem Sound.hasItems {items : Array CellId} (hs : h.Sound σ) (hc : h.items c = .ok items) :
    h.HasContent c (.array items) := by
  obtain ⟨x, hx, hcontent⟩ := items_eq_ok_iff.1 hc
  exact hcontent ▸ hs.hasContent hx

theorem Sound.hasHash {entries : Dict CellId} {i : Nat} (hs : h.Sound σ)
    (hc : h.hash c = .ok (entries, i)) : h.HasContent c (.hash entries i) := by
  obtain ⟨x, hx, hcontent⟩ := hash_eq_ok_iff.1 hc
  exact hcontent ▸ hs.hasContent hx

/-! ## Trees -/

mutual

theorem Encodes.carries : ∀ {v s T}, Encodes h v s T → Carries h v s T
  | _, _, _, .leaf hs => .leaf hs
  | _, _, _, .list ha hitems => .list ha (Nat.le_refl 1) hitems.carries
  | _, _, _, .mapping ha hkeys hitems => .mapping ha (Nat.le_refl 1) hkeys hitems.carries

theorem EncodesItems.carries : ∀ {vs cs T}, EncodesItems h vs cs T → CarriesItems h vs cs T
  | _, _, _, .nil => .nil
  | _, _, _, .cons hc hv hvs => .cons ⟨1, none, hc, Nat.le_refl 1⟩ hv.carries hvs.carries

end

theorem Planted.hasContent {base : Heap} (hp : base.Planted h v c s T) : h.HasContent c (.scalar s) :=
  ⟨1, none, hp.root, Nat.le_refl 1⟩

/-! ## Frames -/

mutual

theorem Carries.turned : ∀ {v s T}, Carries h v s T →
    (∀ x, SameCell (h.cell? x) (h'.cell? x)) → Carries h' v s T
  | _, _, _, .leaf hs, _ => .leaf hs
  | _, _, _, .list ha hn hitems, hsame => .list ((hsame _).of_array ha) hn (hitems.turned hsame)
  | _, _, _, .mapping ha hn hkeys hitems, hsame => by
    obtain ⟨j, hj⟩ := (hsame _).of_hash ha
    exact .mapping hj hn hkeys (hitems.turned hsame)

theorem CarriesItems.turned : ∀ {vs cs T}, CarriesItems h vs cs T →
    (∀ x, SameCell (h.cell? x) (h'.cell? x)) → CarriesItems h' vs cs T
  | _, _, _, .nil, _ => .nil
  | _, _, _, .cons hc hv hvs, hsame =>
    .cons (hc.turned (hsame _)) (hv.turned hsame) (hvs.turned hsame)

end

mutual

theorem Carries.isLive : ∀ {v s T}, Carries h v s T → ∀ x ∈ T, h.isLive x
  | _, _, _, .list ha _ hitems, x, hx => by
    rcases List.mem_cons.1 hx with rfl | hx
    · exact isLive_of_cell? ha
    · exact hitems.isLive x hx
  | _, _, _, .mapping ha _ _ hitems, x, hx => by
    rcases List.mem_cons.1 hx with rfl | hx
    · exact isLive_of_cell? ha
    · exact hitems.isLive x hx

theorem CarriesItems.isLive : ∀ {vs cs T}, CarriesItems h vs cs T → ∀ x ∈ T, h.isLive x
  | _, _, _, .cons hc hv hvs, x, hx => by
    rcases List.mem_cons.1 hx with rfl | hx
    · exact hc.isLive
    · rcases List.mem_append.1 hx with hx | hx
      · exact hv.isLive x hx
      · exact hvs.isLive x hx

end

theorem Untouched.mono (hT : Untouched T h h') (hsub : ∀ c ∈ U, c ∈ T) : Untouched U h h' :=
  fun c hc => hT c (hsub c hc)

theorem Firm.untouched (hf : h.Firm same h') (hlive : ∀ c ∈ T, h.isLive c)
    (hsame : ∀ c ∈ T, ∀ x y, same c x y → y = x) : Untouched T h h' := by
  intro c hc x' hx'
  obtain ⟨y, hy⟩ := exists_cell (hlive c hc)
  obtain ⟨x, hx, hs, hpackage⟩ := hf.cells c x' (lt_of_cell? hy) hx'
  exact ⟨x, hx, hsame c hc _ _ hs, hpackage⟩

theorem Untouched.cell (hT : Untouched T h h') (hs : h'.Sound σ) (hc : c ∈ T)
    (hx : h.cell? c = some x) (hlive : h'.isLive c) :
    ∃ n, h'.cell? c = some ⟨n, x.package, x.content⟩ ∧ 1 ≤ n := by
  obtain ⟨x', hx'⟩ := exists_cell hlive
  obtain ⟨y, hy, hcontent, hpackage⟩ := hT c hc x' hx'
  obtain rfl := Option.some.inj (hx.symm.trans hy)
  refine ⟨x'.refcount, ?_, (hs.exact.counts c x' hx').2⟩
  rw [hx', ← hcontent, ← hpackage]

mutual

/-- A value is carried on as long as its root is live: what a live cell holds is live. -/
theorem Carries.untouched (hs : h'.Sound σ) : ∀ {v s T}, Carries h v s T → Untouched T h h' →
    (∀ a ∈ s.ref.toList, h'.isLive a) → Carries h' v s T
  | _, _, _, .leaf hv, _, _ => .leaf hv
  | _, _, _, .list ha _ hitems, hT, hlive => by
    obtain ⟨n, hn, hpos⟩ := hT.cell hs (.head _) ha (hlive _ (.head _))
    exact .list hn hpos (hitems.untouched hs (hT.mono fun _ => .tail _) fun _ => hs.isLive_child hn)
  | _, _, _, .mapping ha _ hkeys hitems, hT, hlive => by
    obtain ⟨n, hn, hpos⟩ := hT.cell hs (.head _) ha (hlive _ (.head _))
    exact .mapping hn hpos hkeys
      (hitems.untouched hs (hT.mono fun _ => .tail _) fun _ => hs.isLive_child hn)

theorem CarriesItems.untouched (hs : h'.Sound σ) : ∀ {vs cs T}, CarriesItems h vs cs T →
    Untouched T h h' → (∀ c ∈ cs, h'.isLive c) → CarriesItems h' vs cs T
  | _, _, _, .nil, _, _ => .nil
  | _, _, _, .cons hc hv hvs, hT, hlive => by
    obtain ⟨m, p, hc, -⟩ := hc
    obtain ⟨n, hn, hpos⟩ := hT.cell hs (.head _) hc (hlive _ (.head _))
    refine .cons ⟨n, p, hn, hpos⟩ (hv.untouched hs (hT.mono fun _ hx => ?_) fun _ => hs.isLive_child hn)
      (hvs.untouched hs (hT.mono fun _ hx => ?_) fun _ hx => hlive _ (.tail _ hx))
    · exact .tail _ (List.mem_append_left _ hx)
    · exact .tail _ (List.mem_append_right _ hx)

end

theorem ContentCarries.untouched (hv : ContentCarries h v content T) (hs : h'.Sound σ)
    (hT : Untouched T h h') (hlive : ∀ c ∈ content.children, h'.isLive c) :
    ContentCarries h' v content T := by
  cases hv with
  | scalar hv => exact .scalar (hv.untouched hs hT hlive)
  | array hitems => exact .array (hitems.untouched hs hT hlive)
  | hash hkeys hitems => exact .hash hkeys (hitems.untouched hs hT hlive)

theorem ContentCarries.isLive (hv : ContentCarries h v content T) : ∀ x ∈ T, h.isLive x := by
  cases hv with
  | scalar hv => exact hv.isLive
  | array hitems => exact hitems.isLive
  | hash _ hitems => exact hitems.isLive

theorem ContentCarries.shrinks (hv : ContentCarries h v content T) (hg : h.Shrinks h')
    (hs : h'.Sound σ) (hlive : ∀ c ∈ content.children, h'.isLive c) : ContentCarries h' v content T :=
  hv.untouched hs (hg.firm.untouched hv.isLive fun _ _ _ _ => id) hlive

theorem CarriesItems.append (hvs : CarriesItems h vs cs T) (hus : CarriesItems h us ds U) :
    CarriesItems h (vs ++ us) (cs ++ ds) (T ++ U) := by
  induction vs generalizing cs T with
  | nil =>
    cases hvs
    exact hus
  | cons v vs ih =>
    cases hvs with
    | cons hc hv hvs =>
      have := CarriesItems.cons hc hv (ih hvs)
      rwa [List.cons_append, List.append_assoc]

theorem CarriesItems.length (hvs : CarriesItems h vs cs T) : cs.length = vs.length := by
  induction vs generalizing cs T with
  | nil =>
    cases hvs
    rfl
  | cons v vs ih =>
    cases hvs with
    | cons _ _ hvs => simp [ih hvs]

end Embedding.Heap

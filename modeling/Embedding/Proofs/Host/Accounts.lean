import Embedding.Host.Lifecycle
import Embedding.Proofs.Heap.Values
import Embedding.Proofs.Host.Crossing

/-!
# Accounts of host operations

A host operation uses handles that it borrows, takes over others, and hands over the handles in its
result, whether that is a value or an error. `Accounts I borrowed x taken given` says so relative to
an invariant `I` of the world and of the list of all handles. What an invariant must be good for is
collected in `Stock`, `Dealing` and `Affairs`; the accounts of all operations follow from that, each as far as its
requests are permitted.
-/

namespace Embedding

variable {α β : Type}

/-- The handles in the result of an operation. -/
def hostStakes (given : α → List Handle) : Except HostError α → List Handle
  | .ok a => given a
  | .error e => e.handles

def Accounts (I : World → List Handle → Prop) (borrowed : List Handle) (x : HostM α)
    (taken : List Handle) (given : α → List Handle) : Prop :=
  ∀ w σ, borrowed ⊆ σ → I w (taken ++ σ) → Ends x w fun r w' => I w' (hostStakes given r ++ σ)

/-- Whether the stakes of a request are those in its answer. -/
def Request.isPlain {κ : Type} : {s : Shape} → Request κ s → Bool
  | _, .retain _ | _, .release _ => false
  | _, _ => true

/-- An invariant of the world and of the handles that the host owns. It does not care for the order
of the handles, and it goes on while handles are cloned and released. -/
structure Stock (I : World → List Handle → Prop) : Prop where
  perm : ∀ {w hs hs'}, I w hs → hs.Perm hs' → I w hs'
  clone : ∀ {w hs h}, I w hs → h ∈ hs → I (w.clone h) (h :: hs)
  release : ∀ {w h hs}, I w (h :: hs) → I (w.release h) hs

/-- Whether a request is one by which values are read. -/
def Request.reads {κ : Type} : {s : Shape} → Request κ s → Bool
  | _, .kind _ | _, .flags _ | _, .toInt _ | _, .toNum _ | _, .toBytes _ | _, .className _
  | _, .deref _ | _, .newRef _ => true
  | _, _ => false

/-- Whether a request only looks at cells: what it makes is at most a count or a reference. -/
def Request.glances {κ : Type} : {s : Shape} → Request κ s → Bool
  | _, .refcount _ | _, .identity _ | _, .arrayLength _ | _, .arrayFetch .. | _, .hashLength _
  | _, .hashFetch .. | _, .hashContains .. => true
  | _, request => request.reads

/-- Whether a request moves the place of an iteration. -/
def Request.turns {κ : Type} : {s : Shape} → Request κ s → Bool
  | _, .hashRewind _ | _, .hashNext _ => true
  | _, _ => false

/-- Whether a request looks at cells, and moves at most the places of iterations. -/
def Request.looks {κ : Type} {s : Shape} (request : Request κ s) : Bool :=
  request.glances || request.turns

theorem Request.glances_of_reads {κ : Type} {s : Shape} {request : Request κ s}
    (hreads : request.reads = true) : request.glances = true := by
  cases request <;> first | rfl | cases hreads

theorem Request.looks_of_glances {κ : Type} {s : Shape} {request : Request κ s}
    (hglances : request.glances = true) : request.looks = true := by
  rw [looks, hglances, Bool.true_or]

theorem Request.looks_of_reads {κ : Type} {s : Shape} {request : Request κ s}
    (hreads : request.reads = true) : request.looks = true :=
  looks_of_glances (glances_of_reads hreads)

theorem Request.isPlain_of_looks {κ : Type} {s : Shape} {request : Request κ s}
    (hlooks : request.looks = true) : request.isPlain = true := by
  cases request <;> first | rfl | cases hlooks

/-! ## Invariants under permitted requests -/

/-- Which requests may be made to which sessions. -/
abbrev Permission := ⦃shape : Shape⦄ → SessionId → Request Handle shape → Prop

/-- Values may be read. -/
class Reads (may : Permission) : Prop where
  reads : ∀ {shape : Shape} (s : SessionId) (request : Request Handle shape),
    request.reads = true → may s request

/-- Cells may be looked at, but not iterated over. -/
class Glances (may : Permission) : Prop where
  glances : ∀ {shape : Shape} (s : SessionId) (request : Request Handle shape),
    request.glances = true → may s request

/-- The cells may be iterated over. -/
class Turns (may : Permission) (cells : List Handle) : Prop where
  turns : ∀ {shape : Shape} (request : Request Handle shape) {c : Handle}, request.turns = true →
    request.cells = [c] → c ∈ cells → may c.session request

/-- Cells may be looked at. -/
class Looks (may : Permission) : Prop where
  looks : ∀ {shape : Shape} (s : SessionId) (request : Request Handle shape),
    request.looks = true → may s request

/-- The session may be asked for anything but text that is none. -/
class Free (may : Permission) (s : SessionId) : Prop where
  free : ∀ {shape : Shape} (request : Request Handle shape), request.isTextual = true → may s request

instance {may : Permission} [Looks may] : Glances may :=
  ⟨fun s request hglances => Looks.looks s request (Request.looks_of_glances hglances)⟩

instance {may : Permission} [Looks may] {cells : List Handle} : Turns may cells :=
  ⟨fun request _ hturns _ _ => Looks.looks _ request (by rw [Request.looks, hturns, Bool.or_true])⟩

instance {may : Permission} [Glances may] : Reads may :=
  ⟨fun s request hreads => Glances.glances s request (Request.glances_of_reads hreads)⟩

/-- An invariant that goes on while the host makes permitted requests to running interpreters. -/
structure Dealing (may : Permission) (I : World → List Handle → Prop) : Prop extends Stock I where
  exchange : ∀ {w w' hs s shape outcome pending} (request : Request Handle shape), may s request →
    (w.session s).stage = .initialized → request.isPlain = true →
    (∀ h ∈ request.cells, h.session = s) → request.cells ⊆ hs → I w hs →
    (exchange s request).run w = (.ok (outcome, pending), w') →
    I w' (exchanged s outcome pending ++ hs)

/-- The session is one of those in scope. -/
class InScope (scope : SessionId → Prop) (s : SessionId) : Prop where
  mem : scope s

/-- The sessions in scope may be asked for anything but text that is none, and the others for a look. -/
abbrev Within (scope : SessionId → Prop) : Permission :=
  fun _ s request => scope s ∧ request.isTextual = true ∨ request.looks = true

instance (scope : SessionId → Prop) : Looks (Within scope) := ⟨fun _ _ => .inr⟩

instance {scope : SessionId → Prop} {s : SessionId} [InScope scope s] : Free (Within scope) s :=
  ⟨fun _ htextual => .inl ⟨InScope.mem, htextual⟩⟩

abbrev Anything : Permission := fun _ _ _ => True

instance : Looks Anything := ⟨fun _ _ _ => trivial⟩

instance (s : SessionId) : Free Anything s := ⟨fun _ _ => trivial⟩

/-- An invariant that goes on through all that the operations of a host are made of, on the sessions
that may be asked for anything. -/
structure Affairs (may : Permission) (I : World → List Handle → Prop) : Prop extends Dealing may I where
  start : ∀ {w hs s}, Free may s → I w hs →
    Ends s.start w fun r w' => I w' (hostStakes (fun _ => []) r ++ hs)
  shutDown : ∀ {w hs s}, Free may s → I w hs → I (w.shutDown s) hs
  disown : ∀ {w hs s}, Free may s → I w hs → I (w.disown s) hs
  bindNamespace : ∀ {w hs s}, Free may s → I w hs → I (w.bindNamespace s) hs
  unbindNamespace : ∀ {w hs s}, Free may s → I w hs → I (w.unbindNamespace s) hs

def Everywhere : SessionId → Prop := fun _ => True

instance (s : SessionId) : InScope Everywhere s := ⟨trivial⟩

abbrev Trade (I : World → List Handle → Prop) : Prop := Dealing (Within Everywhere) I

abbrev Books (I : World → List Handle → Prop) : Prop := Affairs (Within Everywhere) I

/-- The invariant goes on when a cell gets a count that no handle stands for. -/
def Retains (I : World → List Handle → Prop) : Prop :=
  ∀ {w hs h}, I w hs → h ∈ hs → I (w.retain h) hs

/-- An invariant that goes on through each step of a start as well. -/
structure Primitives (may : Permission) (I : World → List Handle → Prop) : Prop extends Affairs may I where
  claim : ∀ {w hs} s, I w hs →
    I { w.update s fun session => { session with claims := true } with claimed := true } hs
  construct : ∀ {w hs} (s : SessionId), (w.session s).stage = .uninitialized → I w hs →
    Ends s.construct w fun r w' => I w' (hostStakes (fun _ => []) r ++ hs)
  abandon : ∀ {w hs} (s : SessionId), I w hs → Ends s.abandon w fun _ w' => I w' hs
  retain : Retains I

def Unfailing (x : HostM α) : Prop := ∀ w, ∃ a w', x.run w = (.ok a, w')

section
variable {I : World → List Handle → Prop} {b b' : List Handle} {x : HostM α} {f : α → HostM β}
  {taken : List Handle} {given : α → List Handle} {after : β → List Handle}

theorem accounts_pure {a : α} (ha : given a = taken) : Accounts I b (pure a) taken given := by
  subst ha
  exact fun _ _ _ hI => hI

theorem accounts_throw (e : HostError) : Accounts I b (throw e : HostM α) e.handles given :=
  fun _ _ _ hI => hI

/-- What comes after a step may depend on what held when it was taken. -/
theorem Accounts.bindFrom (hx : Accounts I b x taken given)
    (hf : ∀ a w w' hs, I w hs → x.run w = (.ok a, w') → Accounts I b (f a) (given a) after) :
    Accounts I b (x >>= f) taken after := by
  intro w σ hb hI
  have hx := hx w σ hb hI
  unfold Ends at hx
  cases hrun : x.run w with
  | mk r w' =>
    rw [hrun] at hx
    cases r with
    | error e => exact ends_of_run (run_bind_error hrun) hx
    | ok a =>
      unfold Ends
      rw [run_bind_ok hrun]
      exact hf a w w' _ hI hrun w' σ hb hx

theorem Accounts.bind (hx : Accounts I b x taken given)
    (hf : ∀ a w w', x.run w = (.ok a, w') → Accounts I b (f a) (given a) after) :
    Accounts I b (x >>= f) taken after :=
  hx.bindFrom fun a w w' _ _ hrun => hf a w w' hrun

theorem Accounts.map {g : α → β} (hx : Accounts I b x taken given)
    (hg : ∀ a, after (g a) = given a) : Accounts I b (g <$> x) taken after := by
  rw [map_eq_pure_bind]
  exact hx.bind fun a _ _ _ => accounts_pure (hg a)

theorem Accounts.get {f : World → HostM β} (hf : ∀ w, Accounts I b (f w) taken after) :
    Accounts I b (get >>= f) taken after := fun w σ hb hI => hf w w σ hb hI

theorem Accounts.mono (hx : Accounts I b x taken given) (hb : b ⊆ b') :
    Accounts I b' x taken given := fun w σ hσ hI => hx w σ (fun _ h => hσ (hb h)) hI

theorem Accounts.attempt (hx : Accounts I b x taken given) :
    Accounts I b x.attempt taken (hostStakes given) := fun w σ hb hI => hx w σ hb hI

theorem HostM.run_attempt (x : HostM α) (w : World) :
    x.attempt.run w = (.ok (x.run w).1, (x.run w).2) := rfl

theorem HostM.run_attempt_eq {w w' : World} {r : Except HostError α} (hrun : x.run w = (r, w')) :
    x.attempt.run w = (.ok r, w') := by
  rw [HostM.run_attempt, hrun]

theorem HostM.run_holding (hs : List Handle) (x : HostM α) (w : World) :
    (HostM.holding hs x).run w = ((x.run w).1, (x.run w).2.releaseAll hs) := by
  rw [HostM.holding, run_bind_ok (HostM.run_attempt x w)]
  rcases x.run w with ⟨_ | _, w'⟩ <;> rfl

theorem HostM.holding_eq_ok {w w' : World} {a : α} {c : Handle}
    (hrun : (HostM.holding [c] x).run w = (.ok a, w')) : ∃ w₁, x.run w = (.ok a, w₁) ∧ w' = w₁.release c := by
  rw [HostM.run_holding] at hrun
  obtain ⟨hok, rfl⟩ := Prod.mk.inj hrun
  exact ⟨_, Prod.ext hok rfl, rfl⟩

theorem HostM.run_release (hs : List Handle) (w : World) :
    (HostM.release hs).run w = (.ok (), w.releaseAll hs) := rfl

theorem World.releaseAll_append (w : World) (hs hs' : List Handle) :
    w.releaseAll (hs ++ hs') = (w.releaseAll hs).releaseAll hs' := List.foldl_append

theorem HostM.run_orRelease (hs : List Handle) (x : HostM α) (w : World) :
    (HostM.orRelease hs x).run w = match x.run w with
      | (.ok a, w') => (.ok a, w')
      | (.error e, w') => (.error e, w'.releaseAll hs) := by
  rw [HostM.orRelease, run_bind_ok (HostM.run_attempt x w)]
  rcases x.run w with ⟨_ | _, w'⟩ <;> rfl

theorem unfailing_attempt (x : HostM α) : Unfailing x.attempt := fun _ => ⟨_, _, rfl⟩

theorem Unfailing.bind (hx : Unfailing x) (hf : ∀ a, Unfailing (f a)) : Unfailing (x >>= f) := by
  intro w
  obtain ⟨a, w', hrun⟩ := hx w
  obtain ⟨b, w'', hrun'⟩ := hf a w'
  exact ⟨b, w'', (run_bind_ok hrun).trans hrun'⟩

theorem unfailing_pure (a : α) : Unfailing (pure a) := fun w => ⟨a, w, rfl⟩

theorem Unfailing.map (hx : Unfailing x) (g : α → β) : Unfailing (g <$> x) := by
  rw [map_eq_pure_bind]
  exact hx.bind fun a => unfailing_pure (g a)

theorem unfailing_release (hs : List Handle) : Unfailing (HostM.release hs) := fun _ => ⟨_, _, rfl⟩

/-- An operation that cannot fail leaves alone what the host owns besides. -/
theorem Accounts.frame (hx : Accounts I b x taken given) (hok : Unfailing x) (rest : List Handle) :
    Accounts I b x (taken ++ rest) fun a => given a ++ rest := by
  intro w σ hb hI
  have hx := hx w (rest ++ σ) (fun _ h => List.mem_append_right _ (hb h)) (by simpa using hI)
  obtain ⟨a, w', hrun⟩ := hok w
  exact ends_of_run hrun (by simpa [hostStakes] using hx.of_run hrun)

/-- An operation that cannot fail may look at what its caller has taken over. -/
theorem Accounts.own (hx : Accounts I (taken ++ b) x [] given) (hok : Unfailing x) :
    Accounts I b x taken fun a => given a ++ taken := by
  intro w σ hb hI
  have hsub : taken ++ b ⊆ taken ++ σ := List.append_subset.2
    ⟨List.subset_append_left .., fun _ h => List.mem_append_right _ (hb h)⟩
  obtain ⟨a, w', hrun⟩ := hok w
  exact ends_of_run hrun (by simpa [hostStakes] using (hx w _ hsub hI).of_run hrun)

end

theorem HostM.holding_ok {hs : List Handle} {x : HostM α} {w w' : World} {a : α}
    (hrun : (HostM.holding hs x).run w = (.ok a, w')) : ∃ w₁, x.run w = (.ok a, w₁) := by
  rw [HostM.run_holding] at hrun
  obtain ⟨hok, -⟩ := Prod.mk.inj hrun
  exact ⟨(x.run w).2, Prod.ext hok rfl⟩

theorem HostM.orRelease_ok {hs : List Handle} {x : HostM α} {w w' : World} {a : α}
    (hrun : (HostM.orRelease hs x).run w = (.ok a, w')) : x.run w = (.ok a, w') := by
  rw [HostM.run_orRelease] at hrun
  generalize x.run w = p at hrun ⊢
  rcases p with ⟨_ | _, w₁⟩ <;> cases hrun
  rfl

namespace Stock

variable {I : World → List Handle → Prop} (hstock : Stock I) {b : List Handle} {x : HostM α}
  {taken : List Handle} {given : α → List Handle}
include hstock

/-- The handles that go in may come in another order, and those that come out may be read off the
result in another way. -/
theorem weaken {taken' : List Handle} {given' : α → List Handle}
    (hx : Accounts I b x taken given) (ht : taken'.Perm taken)
    (hg : ∀ a w w', x.run w = (.ok a, w') → (given a).Perm (given' a)) :
    Accounts I b x taken' given' := by
  intro w σ hb hI
  have hx := hx w σ hb (hstock.perm hI (ht.append_right σ))
  unfold Ends at hx ⊢
  cases hrun : x.run w with
  | mk r w' =>
    rw [hrun] at hx
    cases r with
    | ok a => exact hstock.perm hx ((hg a w w' hrun).append_right σ)
    | error e => exact hx

theorem cloneAll : ∀ (hs : List Handle) {w : World} {σ : List Handle}, hs ⊆ σ → I w σ →
    I (w.cloneAll hs) (hs ++ σ)
  | [], _, _, _, hI => hI
  | h :: hs, w, σ, hsub, hI => by
    have hclone := hstock.clone hI (hsub (.head _))
    exact hstock.perm (cloneAll hs (fun _ hm => .tail _ (hsub (.tail _ hm))) hclone)
      List.perm_middle

theorem releaseAll : ∀ (hs : List Handle) {w : World} {σ : List Handle}, I w (hs ++ σ) →
    I (w.releaseAll hs) σ
  | [], _, _, hI => hI
  | _ :: hs, _, _, hI => releaseAll hs (hstock.release hI)

theorem accounts_clone {hs : List Handle} (hsub : hs ⊆ b) :
    Accounts I b (HostM.clone hs) [] fun _ => hs :=
  fun _ _ hb hI => hstock.cloneAll hs (fun _ h => hb (hsub h)) hI

theorem accounts_release (hs : List Handle) : Accounts I b (HostM.release hs) hs fun _ => [] :=
  fun _ _ _ hI => hstock.releaseAll hs hI

theorem accounts_releaseThrow (hs : List Handle) (e : HostError) :
    Accounts I b (do HostM.release hs; throw e : HostM α) (e.handles ++ hs) given := by
  intro w σ _ hI
  have hperm : (e.handles ++ hs ++ σ).Perm (hs ++ (e.handles ++ σ)) := by
    simpa using List.perm_append_comm.append_right σ
  exact hstock.releaseAll hs (hstock.perm hI hperm)

theorem holding (hs : List Handle) (hx : Accounts I (hs ++ b) x taken given) :
    Accounts I b (HostM.holding hs x) (taken ++ hs) given := by
  intro w σ hb hI
  have hx := hx w (hs ++ σ) (List.append_subset.2 ⟨List.subset_append_left .., fun _ h =>
    List.mem_append_right _ (hb h)⟩) (by simpa using hI)
  unfold Ends at hx ⊢
  rw [HostM.run_holding]
  exact hstock.releaseAll hs (hstock.perm hx (List.perm_append_comm_assoc ..))

theorem orRelease (hs : List Handle) (hx : Accounts I (hs ++ b) x taken given) :
    Accounts I b (HostM.orRelease hs x) (taken ++ hs) fun a => given a ++ hs := by
  intro w σ hb hI
  have hx := hx w (hs ++ σ) (List.append_subset.2 ⟨List.subset_append_left .., fun _ h =>
    List.mem_append_right _ (hb h)⟩) (by simpa using hI)
  unfold Ends at hx ⊢
  rw [HostM.run_orRelease]
  generalize x.run w = p at hx ⊢
  rcases p with ⟨e | a, w'⟩
  · exact hstock.releaseAll hs (hstock.perm hx (List.perm_append_comm_assoc ..))
  · exact hstock.perm hx (by simp [hostStakes])

/-- Handles that are released on failure may be what the result consists of. -/
theorem orReleaseInto (hs : List Handle) (given : α → List Handle) {given' : α → List Handle}
    (hx : Accounts I (hs ++ b) x taken given)
    (hg : ∀ a w w', x.run w = (.ok a, w') → (given a ++ hs).Perm (given' a)) :
    Accounts I b (HostM.orRelease hs x) (taken ++ hs) given' :=
  hstock.weaken (hstock.orRelease hs hx) (.refl _) fun a w w' hrun =>
    hg a w w' (HostM.orRelease_ok hrun)

end Stock

end Embedding

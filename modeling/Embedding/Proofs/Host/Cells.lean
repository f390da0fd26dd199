import Embedding.Host.Crossing
import Embedding.Proofs.Host.Values

/-!
# Accounts of making cells

A value is lent to the making of a cell, and the new cell is handed over.
-/

namespace Embedding

variable {may : Permission} {I : World → List Handle → Prop} {s : SessionId} {w w' : World}

theorem newReference_session {target h : Handle}
    (hrun : (newReference s target).run w = (.ok h, w')) : h.session = s :=
  crossWith_session hrun h (List.mem_cons_self ..)

theorem ensureOwn_ok {v : Value} {h : Handle} {a : Unit}
    (hrun : (ensureOwn s v h).run w = (.ok a, w')) : h.session = s := by
  unfold ensureOwn at hrun
  split at hrun
  · next hs => exact hs
  · cases hrun

theorem newCell_session {v : Value} {h : Handle}
    (hrun : (newCell s v).run w = (.ok h, w')) : h.session = s := by
  cases v with
  | nothing | bool _ | int _ | float _ | text _ | bytes _ =>
    exact crossWith_session hrun h (List.mem_cons_self ..)
  | list items =>
    obtain ⟨array, w₁, -, hrun⟩ := run_bind_eq_ok hrun
    obtain ⟨w₂, hrun⟩ := HostM.holding_ok hrun
    obtain ⟨_, w₃, -, hrun⟩ := run_bind_eq_ok hrun
    exact newReference_session hrun
  | mapping entries =>
    obtain ⟨hash, w₁, -, hrun⟩ := run_bind_eq_ok hrun
    obtain ⟨w₂, hrun⟩ := HostM.holding_ok hrun
    obtain ⟨_, w₃, -, hrun⟩ := run_bind_eq_ok hrun
    exact newReference_session hrun
  | array view | hash view =>
    obtain ⟨_, w₁, -, hrun⟩ := run_bind_eq_ok hrun
    exact newReference_session hrun
  | callable target =>
    cases target with
    | code cell =>
      obtain ⟨_, w₁, -, hrun⟩ := run_bind_eq_ok hrun
      exact newReference_session hrun
    | method receiver name => cases hrun
  | object view =>
    obtain ⟨_, w₁, -, hrun⟩ := run_bind_eq_ok hrun
    obtain ⟨target, w₂, -, hrun⟩ := run_bind_eq_ok hrun
    obtain ⟨w₃, hrun⟩ := HostM.holding_ok hrun
    exact newReference_session hrun

theorem newCells_session : ∀ {vs : List Value} {hs : List Handle} {w w' : World},
    (newCells s vs).run w = (.ok hs, w') → ∀ h ∈ hs, h.session = s
  | [], _, _, _, hrun => by cases hrun; exact nofun
  | v :: vs, _, _, _, hrun => by
    obtain ⟨h, w₁, hh, hrun⟩ := run_bind_eq_ok hrun
    obtain ⟨hs, w₂, hhs, hrun⟩ := run_bind_eq_ok hrun
    cases hrun
    rintro a (_ | ⟨_, ha⟩)
    · exact newCell_session hh
    · exact newCells_session (HostM.orRelease_ok hhs) a ha

theorem accounts_ensureOwn (b : List Handle) (v : Value) (h : Handle) :
    Accounts I b (ensureOwn s v h) [] fun _ => [] := by
  unfold ensureOwn
  split
  · exact accounts_pure rfl
  · exact accounts_throw _

/-- Whether a request makes a cell that refers to no other. -/
def Request.makes {κ : Type} : {s : Shape} → Request κ s → Bool
  | _, .newUndef | _, .newBool _ | _, .newInt _ | _, .newNum _ | _, .newBytes .. | _, .newArray
  | _, .newHash => true
  | _, _ => false

/-- Cells may be made in the session, and containers that were made may be filled. -/
class Makes (may : Permission) (s : SessionId) (I : World → List Handle → Prop) : Prop where
  makes : ∀ {shape : Shape} (request : Request Handle shape), request.makes = true →
    request.isTextual = true → may s request
  arrayStore : ∀ {w w' hs array}, I w hs → (cross s crossing .newArray).run w = (.ok array, w') →
    ∀ index item, may s (.arrayStore array index item)
  hashStore : ∀ {w w' hs hash}, I w hs → (cross s crossing .newHash).run w = (.ok hash, w') →
    ∀ key item, may s (.hashStore hash key item)

instance [Free may s] : Makes may s I where
  makes request _ htextual := Free.free request htextual
  arrayStore _ _ _ _ := Free.free _ rfl
  hashStore _ _ _ _ := Free.free _ rfl

namespace Dealing

variable (hdealing : Dealing may I) [Reads may]
include hdealing

theorem accounts_newReference {target : Handle} (hsession : target.session = s) :
    Accounts I [target] (newReference s target) [] fun h => [h] :=
  hdealing.among (.newRef target) (Reads.reads s _ rfl) rfl rfl (by simp [hsession])

theorem accounts_ownReference (v : Value) (h : Handle) :
    Accounts I [h] (do ensureOwn s v h; newReference s h) [] fun h => [h] :=
  (accounts_ensureOwn [h] v h).bind fun _ _ _ hrun => hdealing.accounts_newReference (ensureOwn_ok hrun)

theorem accounts_storing {b : List Handle} {container item : Handle}
    (request : Request Handle .nothing) (hmay : may s request) (hplain : request.isPlain = true)
    (hcells : request.cells = [container, item]) (hcontainer : container.session = s)
    (hitem : item.session = s) :
    Accounts I (container :: b) (HostM.holding [item] (cross s crossing request)) [item]
      fun _ => [] := by
  have hstore : Accounts I [container, item] (cross s crossing request) [] Answer.stakes :=
    hdealing.among request hmay hplain hcells (by simp [hcontainer, hitem])
  exact hdealing.holding [item] (hstore.mono (by simp))

theorem accounts_making [Makes may s I] {b : List Handle} {shape : Shape} (request : Request Handle shape)
    (hmakes : request.makes = true) (htextual : request.isTextual = true) :
    Accounts I b (cross s crossing request) [] Answer.stakes :=
  hdealing.about request (Makes.makes I request hmakes htextual)
    (by cases request <;> first | rfl | cases hmakes)
    (by cases request <;> first | rfl | cases hmakes)

mutual

theorem accounts_newCell [Makes may s I] : ∀ v : Value, Accounts I v.handles (newCell s v) [] fun h => [h]
  | .nothing => hdealing.accounts_making .newUndef rfl rfl
  | .bool b => hdealing.accounts_making (.newBool b) rfl rfl
  | .int n => hdealing.accounts_making (.newInt n) rfl rfl
  | .float x => hdealing.accounts_making (.newNum x) rfl rfl
  | .text t => hdealing.accounts_making (.newBytes (Utf8.encode t) true) rfl (Request.isTextual_encode t)
  | .bytes bs => hdealing.accounts_making (.newBytes bs false) rfl rfl
  | .list items => by
    refine (hdealing.accounts_making .newArray rfl rfl).bindFrom fun array _ _ _ hI hrun => ?_
    have harray : array.session = s := crossWith_session hrun array (List.mem_cons_self ..)
    refine hdealing.holding [array]
      ((accounts_storeItems harray (Makes.arrayStore hI hrun) items 0).bind fun _ _ _ _ => ?_)
    exact (hdealing.accounts_newReference harray).mono (by simp)
  | .mapping entries => by
    refine (hdealing.accounts_making .newHash rfl rfl).bindFrom fun hash _ _ _ hI hrun => ?_
    have hhash : hash.session = s := crossWith_session hrun hash (List.mem_cons_self ..)
    refine hdealing.holding [hash]
      ((accounts_storeEntries hhash (Makes.hashStore hI hrun) entries).bind fun _ _ _ _ => ?_)
    exact (hdealing.accounts_newReference hhash).mono (by simp)
  | .array view => hdealing.accounts_ownReference _ view.cell
  | .hash view => hdealing.accounts_ownReference _ view.cell
  | .callable (.code cell) => hdealing.accounts_ownReference _ cell
  | .callable (.method ..) => accounts_throw _
  | .object view => by
    refine (accounts_ensureOwn _ _ _).bind fun _ _ _ hrun => ?_
    have hown := ensureOwn_ok hrun
    have hderef : Accounts I [view.reference] (cross s crossing (.deref view.reference)) []
        Answer.stakes := hdealing.among _ (Reads.reads s _ rfl) rfl rfl (by simpa using hown)
    refine hderef.bind fun target _ _ hrun => ?_
    have htarget : target.session = s := crossWith_session hrun target (List.mem_cons_self ..)
    exact hdealing.holding [target] ((hdealing.accounts_newReference htarget).mono (by simp))

theorem accounts_storeItems [Makes may s I] {array : Handle} (harray : array.session = s)
    (hmay : ∀ index item, may s (.arrayStore array index item)) :
    ∀ (items : List Value) (index : Nat),
      Accounts I (array :: Value.handlesOfItems items) (storeItems s array index items) [] fun _ => []
  | [], _ => accounts_pure rfl
  | v :: vs, index => by
    refine ((accounts_newCell v).mono ?_).bind fun item _ _ hrun => ?_
    · exact fun _ hm => .tail _ (List.mem_append_left _ hm)
    refine (hdealing.accounts_storing (.arrayStore array index item) (hmay index item) rfl rfl harray
      (newCell_session hrun)).bind fun _ _ _ _ => ?_
    refine (accounts_storeItems harray hmay vs (index + 1)).mono fun _ hm => ?_
    simp only [Value.handlesOfItems, List.mem_cons, List.mem_append] at hm ⊢
    exact hm.imp_right .inr

theorem accounts_storeEntries [Makes may s I] {hash : Handle} (hhash : hash.session = s)
    (hmay : ∀ key item, may s (.hashStore hash key item)) :
    ∀ entries : List (String × Value),
      Accounts I (hash :: Value.handlesOfEntries entries) (storeEntries s hash entries) [] fun _ => []
  | [] => accounts_pure rfl
  | (key, v) :: entries => by
    refine ((accounts_newCell v).mono ?_).bind fun item _ _ hrun => ?_
    · exact fun _ hm => .tail _ (List.mem_append_left _ hm)
    refine (hdealing.accounts_storing (.hashStore hash key item) (hmay key item) rfl rfl hhash
      (newCell_session hrun)).bind fun _ _ _ _ => ?_
    refine (accounts_storeEntries hhash hmay entries).mono fun _ hm => ?_
    simp only [Value.handlesOfEntries, List.mem_cons, List.mem_append] at hm ⊢
    exact hm.imp_right .inr

end

theorem accounts_newCells [Makes may s I] : ∀ vs : List Value,
    Accounts I (Value.handlesOfItems vs) (newCells s vs) [] id
  | [] => accounts_pure rfl
  | v :: vs => by
    refine ((hdealing.accounts_newCell v).mono (List.subset_append_left ..)).bind fun h _ _ _ => ?_
    have hrest : Accounts I ([h] ++ (v.handles ++ Value.handlesOfItems vs)) (newCells s vs) [] id :=
      (accounts_newCells vs).mono fun _ hm => by simp [hm]
    refine (hdealing.orRelease [h] hrest).bind fun hs _ _ _ => ?_
    exact hdealing.weaken (accounts_pure rfl) List.perm_append_comm fun _ _ _ _ => .refl _

end Dealing

end Embedding

import Embedding.Console.State
import Embedding.Proofs.Heap.Containers
import Embedding.Proofs.Host.Sessions

/-!
# Accounts of a console

The handles of the host are those that registers own, and those that a command works with. A command
that leaves the registers alone hands over what is in its product or in its error.
-/

namespace Embedding

namespace Console

def handles (c : Console) : List Handle := c.registers.values.flatMap Item.handles

def Product.handles (p : Product) : List Handle := p.items.flatMap fun entry => entry.2.handles

end Console

open Console ConsoleM

variable {α β : Type} {I : World → List Handle → Prop} {b b' : List Handle} {c c' : Console}

def stopStakes (given : α → List Handle) : Except Stop α → List Handle
  | .ok a => given a
  | .error .skipped => []
  | .error (.failed e) => e.handles

/-- `Accounts` for commands that leave the registers alone, which lend what they own. The console is
one that gives no fixed answers. -/
def Lends (I : World → List Handle → Prop) (borrowed : List Handle) (x : ConsoleM α)
    (taken : List Handle) (given : α → List Handle) : Prop :=
  ∀ c σ, c.fixable = [] → borrowed ⊆ c.handles ++ σ → I c.world (taken ++ (c.handles ++ σ)) →
    Ends x c fun r c' => (c'.fixable = [] ∧ c'.registers = c.registers) ∧
      I c'.world (stopStakes given r ++ (c.handles ++ σ))

section
variable {x : ConsoleM α} {f : α → ConsoleM β} {taken : List Handle}
  {given : α → List Handle} {after : β → List Handle}

theorem handles_eq_of_registers (h : c'.registers = c.registers) : c'.handles = c.handles := by
  rw [Console.handles, h, Console.handles]

theorem lends_pure {a : α} (ha : given a = taken) : Lends I b (pure a) taken given := by
  subst ha
  exact fun _ _ hf _ hI => ⟨⟨hf, rfl⟩, hI⟩

theorem lends_throw (e : HostError) :
    Lends I b (throw (.failed e) : ConsoleM α) e.handles given :=
  fun _ _ hf _ hI => ⟨⟨hf, rfl⟩, hI⟩

theorem lends_skip_bind : Lends I b ((skip : ConsoleM α) >>= f) [] after :=
  fun _ _ hf _ hI => ⟨⟨hf, rfl⟩, hI⟩

theorem lends_modify {g : World → World} {after : PUnit → List Handle}
    (hg : ∀ w σ, I w (taken ++ σ) → I (g w) (after ⟨⟩ ++ σ)) :
    Lends I b (modify fun c => { c with world := g c.world }) taken after :=
  fun _ _ hf _ hI => ⟨⟨hf, rfl⟩, hg _ _ hI⟩

theorem Lends.bind (hx : Lends I b x taken given)
    (hf : ∀ a c c', x.run c = (.ok a, c') → Lends I b (f a) (given a) after) :
    Lends I b (x >>= f) taken after := by
  intro c σ hfixable hb hI
  have hx := hx c σ hfixable hb hI
  unfold Ends at hx
  cases hrun : x.run c with
  | mk r c' =>
    rw [hrun] at hx
    obtain ⟨⟨hfixable', hregisters⟩, hI'⟩ := hx
    have hhandles := handles_eq_of_registers hregisters
    cases r with
    | error e =>
      exact ends_of_run (run_bind_error hrun) ⟨⟨hfixable', hregisters⟩, by cases e <;> exact hI'⟩
    | ok a =>
      unfold Ends
      rw [run_bind_ok hrun]
      obtain ⟨⟨hfixable'', hregisters'⟩, hI''⟩ :=
        hf a c c' hrun c' σ hfixable' (hhandles ▸ hb) (by rwa [hhandles])
      exact ⟨⟨hfixable'', hregisters'.trans hregisters⟩, hhandles ▸ hI''⟩

theorem Lends.get {f : Console → ConsoleM β}
    (hf : ∀ c, c.fixable = [] → Lends I b (f c) taken after) :
    Lends I b (getThe Console >>= f) taken after := fun c σ hfixable hb hI =>
  hf c hfixable c σ hfixable hb hI

theorem run_act (x : HostM α) (c : Console) : (act x).run c =
    ((x.run c.world).1.mapError .failed, { c with world := (x.run c.world).2 }) := rfl

theorem lends_act {x : HostM α} (hx : Accounts I b x taken given) :
    Lends I b (act x) taken given := by
  intro c σ hf hb hI
  have hx := hx c.world _ hb hI
  unfold Ends at hx ⊢
  rw [run_act]
  cases hrun : x.run c.world with
  | mk r w =>
    rw [hrun] at hx
    cases r <;> exact ⟨⟨hf, rfl⟩, hx⟩

theorem run_need (name : String) (part : Item → Option α) (f : α → ConsoleM β) (c : Console) :
    (need name part >>= f).run c = match (c.registers.get? name).bind part with
      | some a => (f a).run c
      | none => (.error .skipped, c) := by
  rw [need, bind_assoc, run_get_bind]
  cases (c.registers.get? name).bind part <;> rfl

theorem lends_need {part : Item → Option α} {name : String} {f : α → ConsoleM β}
    (hf : ∀ item a, part item = some a → Lends I (item.handles ++ b) (f a) [] after) :
    Lends I b (need name part >>= f) [] after := by
  intro c σ hfixable hb hI
  unfold Ends
  rw [run_need]
  cases hitem : c.registers.get? name with
  | none => exact ⟨⟨hfixable, rfl⟩, hI⟩
  | some item =>
    have hmem : item ∈ c.registers.values := Heap.mem_values_of_get? hitem
    have hsub : item.handles ++ b ⊆ c.handles ++ σ := List.append_subset.2
      ⟨fun h hh => List.mem_append_left _ (List.mem_flatMap.2 ⟨item, hmem, hh⟩), hb⟩
    rw [Option.bind_some]
    cases hpart : part item with
    | none => exact ⟨⟨hfixable, rfl⟩, hI⟩
    | some a => exact hf item a hpart c σ hfixable hsub hI

theorem run_orRelease (hs : List Handle) (x : ConsoleM α) (c : Console) :
    (ConsoleM.orRelease hs x).run c = match x.run c with
      | (.ok a, c') => (.ok a, c')
      | (.error stop, c') => (.error stop, { c' with world := c'.world.releaseAll hs }) := by
  rw [ConsoleM.orRelease, run_tryCatch]
  rcases x.run c with ⟨_ | _, c'⟩ <;> rfl

theorem orRelease_eq_ok {hs : List Handle} {x : ConsoleM α} {a : α}
    (hrun : (ConsoleM.orRelease hs x).run c = (.ok a, c')) : x.run c = (.ok a, c') := by
  rw [run_orRelease] at hrun
  rcases hx : x.run c with ⟨_ | _, c₁⟩ <;> rw [hx] at hrun <;> cases hrun
  rfl

theorem Books.lends_orRelease (hbooks : Books I) (hs : List Handle) (hx : Lends I b x taken given) :
    Lends I b (ConsoleM.orRelease hs x) (taken ++ hs) fun a => given a ++ hs := by
  intro c σ hf hb hI
  have hperm : (taken ++ hs ++ (c.handles ++ σ)).Perm (taken ++ (c.handles ++ (hs ++ σ))) := by
    simpa using (List.perm_append_comm_assoc hs c.handles σ).append_left taken
  have hsub : b ⊆ c.handles ++ (hs ++ σ) := fun h hm => by
    have := hb hm
    simp only [List.mem_append] at this ⊢
    exact this.imp_right .inr
  have hx := hx c (hs ++ σ) hf hsub (hbooks.perm hI hperm)
  unfold Ends at hx ⊢
  rw [run_orRelease]
  cases hrun : x.run c with
  | mk r c' =>
    rw [hrun] at hx
    obtain ⟨hsame, hI'⟩ := hx
    cases r with
    | ok a =>
      refine ⟨hsame, hbooks.perm hI' ?_⟩
      simpa [stopStakes] using (List.perm_append_comm_assoc c.handles hs σ).append_left (given a)
    | error stop =>
      refine ⟨hsame, hbooks.releaseAll hs (hbooks.perm hI' ?_)⟩
      refine List.perm_iff_count.2 fun h => ?_
      cases stop <;> simp only [stopStakes, List.count_append, List.count_nil] <;> omega

end

namespace Books

variable (hbooks : Books I)
include hbooks

theorem lends_weaken {x : ConsoleM α} {taken taken' : List Handle} {given given' : α → List Handle}
    (hx : Lends I b x taken given) (ht : taken'.Perm taken) (hg : ∀ a, (given a).Perm (given' a)) :
    Lends I b x taken' given' := by
  intro c σ hf hb hI
  refine (hx c σ hf hb (hbooks.perm hI (ht.append_right _))).mono fun r c' h => ⟨h.1, ?_⟩
  rcases r with (_ | _) | a
  · exact h.2
  · exact h.2
  · exact hbooks.perm h.2 ((hg _).append_right _)

/-! ## Values of terms -/

theorem lends_clone {hs : List Handle} (hsub : hs ⊆ b) :
    Lends I b (act (HostM.clone hs)) [] fun _ => hs := lends_act (hbooks.accounts_clone hsub)

theorem lends_release (hs rest : List Handle) :
    Lends I b (act (HostM.release hs)) (hs ++ rest) fun _ => rest :=
  lends_act ((hbooks.accounts_release hs).frame (unfailing_release hs) rest)

end Books

mutual

theorem lends_value (hbooks : Books I) : ∀ t : Term, Lends I b (value t) [] Value.handles
  | .register name => by
    refine lends_need fun item v hpart => ?_
    cases item with
    | value u =>
      cases hpart
      exact (hbooks.lends_clone (List.subset_append_left ..)).bind fun _ _ _ _ => lends_pure rfl
    | _ => cases hpart
  | .nothing | .bool _ | .int _ | .float _ | .text _ | .bytes _ => lends_pure rfl
  | .list items => (lends_values hbooks items).bind fun vs _ _ _ => lends_pure rfl
  | .mapping entries => (lends_dict hbooks entries []).bind fun d _ _ _ => lends_pure rfl

theorem lends_values (hbooks : Books I) : ∀ ts : List Term,
    Lends I b (values ts) [] Value.handlesOfItems
  | [] => lends_pure rfl
  | t :: ts => by
    refine (lends_value hbooks t).bind fun v _ _ _ => ?_
    refine (hbooks.lends_orRelease v.handles (lends_values hbooks ts)).bind fun vs _ _ _ => ?_
    exact hbooks.lends_weaken (lends_pure rfl) List.perm_append_comm fun _ => .refl _

theorem lends_dict (hbooks : Books I) : ∀ (rest : List (String × Term)) (entries : Dict Value),
    Lends I b (dict rest entries) (Value.handlesOfEntries entries) Value.handlesOfEntries
  | [], _ => lends_pure rfl
  | (key, t) :: rest, entries => by
    have hvalue := hbooks.lends_orRelease (Value.handlesOfEntries entries) (lends_value hbooks t)
    refine hvalue.bind fun v _ _ _ => ?_
    have hrest := lends_dict hbooks rest (entries.insert key v)
    have hinsert := (handlesOfEntries_insert entries key v).symm
    cases hold : entries.get? key with
    | none =>
      rw [hold] at hinsert
      exact hbooks.lends_weaken hrest (by simpa [Value.handlesOfItems] using hinsert) fun _ => .refl _
    | some old =>
      rw [hold] at hinsert
      have hrelease := (hbooks.lends_release (b := b) old.handles
        (Value.handlesOfEntries (entries.insert key v))).bind fun _ _ _ _ => hrest
      refine hbooks.lends_weaken hrelease (hinsert.trans ?_) fun _ => .refl _
      simpa [Value.handlesOfItems] using List.perm_append_comm

end

theorem length_values : ∀ {ts : List Term} {vs : List Value} {c c' : Console},
    (values ts).run c = (.ok vs, c') → vs.length = ts.length
  | [], _, _, _, hrun => by cases hrun; rfl
  | t :: ts, _, _, _, hrun => by
    obtain ⟨v, c₁, -, hrun⟩ := run_bind_eq_ok hrun
    obtain ⟨vs, c₂, hvs, hrun⟩ := run_bind_eq_ok hrun
    cases hrun
    rw [List.length_cons, List.length_cons, length_values (orRelease_eq_ok hvs)]

theorem handlesOfEntries_zip : ∀ {keys : List String} {vs : List Value},
    vs.length = keys.length → Value.handlesOfEntries (keys.zip vs) = Value.handlesOfItems vs
  | [], [], _ => rfl
  | key :: keys, v :: vs, hlength => by
    rw [List.zip_cons_cons, Value.handlesOfEntries, Value.handlesOfItems,
      handlesOfEntries_zip (Nat.succ.inj hlength)]

theorem lends_pairs (hbooks : Books I) (entries : List (String × Term)) :
    Lends I b (pairs entries) [] Value.handlesOfEntries :=
  (lends_values hbooks (entries.map (·.2))).bind fun vs _ _ hrun =>
    lends_pure (handlesOfEntries_zip (by simpa using length_values hrun))

end Embedding

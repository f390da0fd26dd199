import Embedding.Proofs.Console.Commands

/-!
# Accounts of runs

A line of a console hands what its command made to registers, or releases it. So what the registers
own is at the end of every line all that the host owns.
-/

namespace Embedding

open Console ConsoleM
open HostM (holding)

variable {α : Type} {I : World → List Handle → Prop} {b σ : List Handle} {c c' : Console}

/-- A command that gives no handle up for a bare count. -/
def Console.Command.keepsHandles : Command → Bool
  | .handle _ .intoRaw => false
  | _ => true

/-! ## Registers -/

theorem handles_insert (c : Console) (name : String) (item : Item) :
    (({ c with registers := c.registers.insert name item } : Console).handles ++
      (c.registers.get? name).toList.flatMap Item.handles).Perm (item.handles ++ c.handles) := by
  have h := (Heap.values_insert_perm c.registers name item).flatMap_right Item.handles
  simp only [List.flatMap_append, List.flatMap_singleton] at h
  exact h.trans List.perm_append_comm

theorem handles_erase (c : Console) (name : String) :
    (({ c with registers := c.registers.erase name } : Console).handles ++
      (c.registers.get? name).toList.flatMap Item.handles).Perm c.handles := by
  have h := (Heap.values_erase_perm c.registers name).flatMap_right Item.handles
  rwa [List.flatMap_append] at h

namespace Books

variable (hbooks : Books I)
include hbooks

theorem releaseItem {w : World} (item : Item) (hI : I w (item.handles ++ σ)) :
    I (item.release w) σ := by
  cases item with
  | package p => exact hbooks.unbindNamespace inferInstance hI
  | _ => exact hbooks.releaseAll _ hI

theorem store (name : String) (item : Item) (hfixable : c.fixable = [])
    (hI : I c.world (item.handles ++ (c.handles ++ σ))) :
    ∃ c', (ConsoleM.store name item).run c = (.ok ⟨⟩, c') ∧ c'.fixable = [] ∧
      I c'.world (c'.handles ++ σ) := by
  have hinsert := handles_insert c name item
  have hI : I c.world (item.handles ++ c.handles ++ σ) := by rwa [List.append_assoc]
  have hI := hbooks.perm hI (hinsert.symm.append_right σ)
  unfold ConsoleM.store setRegister
  rw [run_get_bind]
  cases hold : c.registers.get? name with
  | none =>
    rw [hold] at hI
    exact ⟨_, rfl, hfixable, by simpa using hI⟩
  | some old =>
    rw [hold] at hI
    refine ⟨_, rfl, hfixable, hbooks.releaseItem old (hbooks.perm hI ?_)⟩
    simpa [Console.handles] using List.perm_append_comm.append_right σ

/-! ## Commands that change registers -/

/-- A step of something in a register, which goes back there with the handles that it had. -/
theorem ends_step {x : HostM α} {f : α → ConsoleM Product} {given : α → List Handle}
    {name : String} {item : Item} (hfixable : c.fixable = [])
    (hitem : c.registers.get? name = some item) (hI : I c.world (c.handles ++ σ))
    (hx : Accounts I item.handles x [] given)
    (hf : ∀ a w w', x.run w = (.ok a, w') → ∃ (item' : Item) (y : ConsoleM Product),
      item'.handles = item.handles ∧ f a = (do setRegister name item'; y) ∧
        Lends I [] y (given a) Product.handles) :
    Ends (act x >>= f) c fun r c' =>
      c'.fixable = [] ∧ I c'.world (stopStakes Product.handles r ++ (c'.handles ++ σ)) := by
  have hsub : item.handles ⊆ c.handles ++ σ := fun h hh => List.mem_append_left _
    (List.mem_flatMap.2 ⟨item, Heap.mem_values_of_get? hitem, hh⟩)
  have hact := lends_act hx c σ hfixable hsub hI
  unfold Ends at hact ⊢
  rw [run_act] at hact
  rw [run_bind, run_act]
  cases hrun : x.run c.world with
  | mk r w =>
    rw [hrun] at hact
    cases r with
    | error e => exact ⟨hfixable, hact.2⟩
    | ok a =>
      obtain ⟨item', y, hitem', hfa, hy⟩ := hf a _ _ hrun
      have hok : (Except.ok a : Except HostError α).mapError Stop.failed = .ok a := rfl
      rw [hok]
      dsimp only
      rw [hfa, setRegister, run_modify_bind]
      have hinsert := handles_insert { c with world := w } name item'
      rw [show ({ c with world := w } : Console).registers.get? name = some item from hitem,
        hitem', Option.toList_some, List.flatMap_singleton] at hinsert
      have hsame := (List.perm_append_right_iff _).1 (hinsert.trans List.perm_append_comm)
      have hI := hbooks.perm hact.2 ((hsame.symm.append_right σ).append_left (given a))
      obtain ⟨⟨hfixable', hregisters⟩, hI'⟩ := hy
        { c with world := w, registers := c.registers.insert name item' } σ hfixable
        (List.nil_subset _) hI
      exact ⟨hfixable', by rwa [handles_eq_of_registers hregisters]⟩

theorem nextItem_step {name : String} {item : Item} (hfixable : c.fixable = [])
    (hitem : c.registers.get? name = some item) (hI : I c.world (c.handles ++ σ)) :
    Ends (nextItem name item) c fun r c' =>
      c'.fixable = [] ∧ I c'.world (stopStakes Product.handles r ++ (c'.handles ++ σ)) := by
  cases item with
  | arrayCursor cursor =>
    refine hbooks.ends_step hfixable hitem hI (hbooks.accounts_arrayNext cursor) ?_
    rintro ⟨r, cursor'⟩ w w' hrun
    refine ⟨.arrayCursor cursor', _, by simp [Item.handles, cursor.next_array hrun], rfl, ?_⟩
    rcases r with _ | e | v
    · exact lends_pure rfl
    · exact lends_throw e
    · exact lends_act (hbooks.accounts_ofStep [] v)
  | hashCursor cursor =>
    refine hbooks.ends_step hfixable hitem hI (hbooks.accounts_hashNext cursor) ?_
    rintro ⟨r, cursor'⟩ w w' hrun
    refine ⟨.hashCursor cursor', _, by simp [Item.handles, cursor.next_hash hrun], rfl, ?_⟩
    rcases r with _ | e | ⟨key, v⟩
    · exact lends_pure rfl
    · exact lends_throw e
    · exact lends_act (hbooks.accounts_ofStep [.text key] v)
  | cursor cursor =>
    refine hbooks.ends_step hfixable hitem hI (hbooks.accounts_cursorNext cursor) ?_
    rintro ⟨r, cursor'⟩ w w' hrun
    refine ⟨.cursor cursor', _, by simp [Item.handles, cursor.next_cell hrun], rfl, ?_⟩
    rcases r with _ | e | ⟨key | key, v⟩
    · exact lends_pure rfl
    · exact lends_throw e
    · exact lends_act (hbooks.accounts_ofStep [.int key] v)
    · exact lends_act (hbooks.accounts_ofStep [.text key] v)
  | _ => exact ⟨hfixable, hI⟩

theorem drop_ends {name : String} (hfixable : c.fixable = []) (hI : I c.world (c.handles ++ σ)) :
    Ends ((Command.drop name).run) c fun r c' =>
      c'.fixable = [] ∧ I c'.world (stopStakes Product.handles r ++ (c'.handles ++ σ)) := by
  unfold Ends
  simp only [Command.run, run_need]
  cases hitem : c.registers.get? name with
  | none => exact ⟨hfixable, hI⟩
  | some item =>
    have herase := (handles_erase c name).symm
    rw [hitem, Option.toList_some, List.flatMap_singleton] at herase
    have hI := hbooks.perm hI ((herase.trans List.perm_append_comm).append_right σ)
    rw [List.append_assoc] at hI
    exact ⟨hfixable, hbooks.releaseItem item hI⟩

omit hbooks in
theorem run_intoRaw (h : Handle) (w : World) :
    h.intoRaw.run w = (.ok h.cell, (w.retain h).release h) := by
  rw [Handle.intoRaw, run_modify_bind, HostM.release, run_modify_bind, World.releaseAll,
    List.foldl_cons, List.foldl_nil, run_pure]

theorem intoRaw_ends {name : String} (hretains : Retains I) (hfixable : c.fixable = [])
    (hI : I c.world (c.handles ++ σ)) :
    Ends ((Command.handle name .intoRaw).run) c fun r c' =>
      c'.fixable = [] ∧ I c'.world (stopStakes Product.handles r ++ (c'.handles ++ σ)) := by
  unfold Ends
  rw [Command.run, HandleCommand.run, run_need]
  cases hitem : c.registers.get? name with
  | none => exact ⟨hfixable, hI⟩
  | some item =>
    cases item with
    | handle h =>
      have herase := (handles_erase c name).symm
      rw [hitem, Option.toList_some, List.flatMap_singleton] at herase
      have hI := hbooks.perm hI ((herase.trans List.perm_append_comm).append_right σ)
      rw [List.append_assoc] at hI
      have hI := hbooks.release (hretains hI (List.mem_cons_self ..))
      have hrun := run_intoRaw h c.world
      generalize (c.world.retain h).release h = w' at hI hrun
      simp only [Option.bind_some]
      rw [run_modify_bind, run_bind, run_act, hrun]
      exact ⟨hfixable, hI⟩
    | _ => exact ⟨hfixable, hI⟩

theorem accounts_errorReply (e : HostError) :
    Accounts I e.handles (errorReply e) [] fun _ => [] :=
  (hbooks.accounts_errorView e).bind fun _ _ _ _ => accounts_pure rfl

theorem lends_command {command : Command} (hkeep : command.keepsHandles = true)
    (hdrop : ∀ on, command ≠ .drop on) (hnext : ∀ on, command ≠ .next on) :
    Lends I b command.run [] Product.handles := by
  have hvalue (item : Item) (v : Value) (hv : Command.run.value? item = some v) :
      item.handles = v.handles := by
    cases item <;> cases hv
    rfl
  have herror (item : Item) (e : HostError) (he : Command.run.error? item = some e) :
      item.handles = e.handles := by
    cases item <;> cases he
    rfl
  cases command with
  | session s command => exact hbooks.lends_sessionCommand s command
  | handle on command =>
    exact hbooks.lends_handleCommand on command fun h => by subst h; cases hkeep
  | array on command => exact hbooks.lends_arrayCommand on command
  | hash on command => exact hbooks.lends_hashCommand on command
  | container on command => exact hbooks.lends_containerCommand on command
  | callable on command => exact hbooks.lends_callableCommand on command
  | object on command => exact hbooks.lends_objectCommand on command
  | package on command => exact hbooks.lends_packageCommand on command
  | drop on => exact absurd rfl (hdrop on)
  | next on => exact absurd rfl (hnext on)
  | copy on =>
    refine lends_needing Value.handles hvalue fun v => lends_act ?_
    exact (hbooks.accounts_clone (List.subset_append_left ..)).bind fun _ _ _ _ =>
      hbooks.accounts_ofValue v
  | describe on =>
    exact lends_needing Value.handles hvalue fun v => lends_pure rfl
  | inspect on depth =>
    refine lends_needing Value.handles hvalue fun v => lends_shown ?_ fun _ => rfl
    exact (hbooks.accounts_inspect depth v).mono (List.subset_append_left ..)
  | equal x y =>
    refine (lends_value hbooks x).bind fun v _ _ _ => ?_
    refine (hbooks.lends_orRelease v.handles (lends_value hbooks y)).bind fun u _ _ _ => ?_
    have hequal := hbooks.holding (v.handles ++ u.handles)
      ((hbooks.accounts_equal v u).mono (List.subset_append_left _ b))
    exact hbooks.lends_weaken (lends_shown hequal fun _ => rfl) List.perm_append_comm
      fun _ => .refl _
  | extract on type =>
    refine lends_needing Value.handles hvalue fun v => ?_
    refine (lends_act ((hbooks.accounts_extract type v).mono (List.subset_append_left ..))).bind
      fun a _ _ _ => lends_shown ?_ fun _ => rfl
    exact hbooks.holding (type.handles a)
      ((hbooks.accounts_view (type.toValue a)).mono (List.subset_append_left ..))
  | listing on =>
    exact lends_need fun item text _ => lends_pure rfl
  | handleOf on =>
    refine lends_needing (fun h => [h]) (fun item h hh => ?_) fun h =>
      (hbooks.lends_clone (List.subset_append_left ..)).bind fun _ _ _ _ => lends_pure rfl
    cases item with
    | value v => cases v <;> cases hh <;> rfl
    | _ => cases hh <;> rfl
  | error on =>
    refine lends_needing HostError.handles herror fun e => ?_
    exact (lends_act ((hbooks.accounts_errorReply e).mono (List.subset_append_left ..))).bind
      fun _ _ _ _ => lends_pure rfl
  | errorWithoutValue on =>
    refine lends_needing HostError.handles herror fun e => ?_
    refine (hbooks.lends_clone (List.subset_append_left ..)).bind fun _ _ _ _ => ?_
    have hrelease := hbooks.lends_release (b := e.handles ++ b) e.handles []
    rw [List.append_nil] at hrelease
    refine hrelease.bind fun _ _ _ _ => ?_
    have hwithout : e.withoutValue.handles = [] := by cases e <;> rfl
    have hreply := hbooks.accounts_errorReply e.withoutValue
    rw [hwithout] at hreply
    refine (lends_act (hreply.mono (List.nil_subset _))).bind fun _ _ _ _ => lends_pure ?_
    simp [Product.handles, Item.handles, hwithout]
  | errorValue on =>
    refine lends_needing HostError.handles herror fun e => lends_act ?_
    cases hv : e.value? with
    | none => exact hbooks.accounts_ofOption none
    | some v =>
      have hhandles : e.handles = v.handles := by rw [HostError.handles, hv]
      have hclone : Accounts I (e.handles ++ b) (HostM.clone v.handles) [] fun _ => v.handles :=
        hbooks.accounts_clone (hhandles ▸ List.subset_append_left ..)
      refine hclone.bind fun _ _ _ _ => ?_
      have hoption := hbooks.accounts_ofOption (b := e.handles ++ b) (some v)
      rwa [Option.toList_some, Value.handlesOfItems, Value.handlesOfItems, List.append_nil] at hoption

/-- A command that gives handles up for bare counts is one that the invariant must allow. -/
theorem command_ends {command : Command} (hkeep : command.keepsHandles = true ∨ Retains I)
    (hfixable : c.fixable = []) (hI : I c.world (c.handles ++ σ)) :
    Ends command.run c fun r c' =>
      c'.fixable = [] ∧ I c'.world (stopStakes Product.handles r ++ (c'.handles ++ σ)) := by
  have hlends (hkeep : command.keepsHandles = true) (hdrop : ∀ on, command ≠ .drop on)
      (hnext : ∀ on, command ≠ .next on) :=
    hbooks.lends_command (b := []) hkeep hdrop hnext c σ hfixable (List.nil_subset _) hI
  cases command with
  | handle on command =>
    cases command with
    | intoRaw => exact hbooks.intoRaw_ends (hkeep.resolve_left nofun) hfixable hI
    | _ =>
      obtain ⟨⟨hfixable', hregisters⟩, hI'⟩ := hlends rfl nofun nofun
      exact ⟨hfixable', by rwa [handles_eq_of_registers hregisters]⟩
  | drop on => exact hbooks.drop_ends hfixable hI
  | next on =>
    unfold Ends
    simp only [Command.run, run_need]
    cases hitem : c.registers.get? on with
    | none => exact ⟨hfixable, hI⟩
    | some item => exact hbooks.nextItem_step hfixable hitem hI
  | _ =>
    obtain ⟨⟨hfixable', hregisters⟩, hI'⟩ := hlends rfl nofun nofun
    exact ⟨hfixable', by rwa [handles_eq_of_registers hregisters]⟩

/-! ## Lines -/

theorem keep_ends (into : Option String) : ∀ (items : List (String × Item)) {c : Console},
    c.fixable = [] → I c.world (items.flatMap (fun entry => entry.2.handles) ++ c.handles) →
    ∃ c', (keep into items).run c = (.ok ⟨⟩, c') ∧ c'.fixable = [] ∧ I c'.world c'.handles
  | [], c, hfixable, hI => ⟨c, rfl, hfixable, hI⟩
  | (suffix, item) :: items, c, hfixable, hI => by
    rw [List.flatMap_cons, List.append_assoc] at hI
    cases into with
    | none =>
      obtain ⟨c', hrun, hc'⟩ := keep_ends none items (c := { c with world := item.release c.world })
        hfixable (hbooks.releaseItem item hI)
      exact ⟨c', hrun, hc'⟩
    | some name =>
      have hI := hbooks.perm hI (List.Perm.append_left item.handles List.perm_append_comm)
      obtain ⟨c₁, hrun₁, hfixable₁, hI₁⟩ := hbooks.store (name ++ suffix) item hfixable hI
      obtain ⟨c', hrun, hc'⟩ := keep_ends (some name) items hfixable₁
        (hbooks.perm hI₁ List.perm_append_comm)
      exact ⟨c', (run_bind_ok hrun₁).trans hrun, hc'⟩

omit hbooks in
theorem run_line (line : Line) (c : Console) : line.run c =
    match line.command.run.run c with
    | (.ok product, c₁) => (product.reply, ((keep line.into product.items).run c₁).2)
    | (.error .skipped, c₁) => (.skipped, c₁)
    | (.error (.failed e), c₁) =>
      let (view, c₂) := (act e.view).run c₁
      (.failed (match view with
        | .ok view => view
        | .error _ => .nothing),
      (match line.errorInto with
        | some name => (ConsoleM.store name (.error e)).run c₂
        | none => (act (HostM.release e.handles)).run c₂).2) := by
  have hbind {β : Type} (x : StateM Console β) (f : β → StateM Console Reply) (c : Console) :
      (x >>= f) c = f (x c).1 (x c).2 := rfl
  unfold Line.run
  rw [hbind]
  rcases line.command.run.run c with ⟨(_ | e) | product, c₁⟩
  · rfl
  · cases line.errorInto <;> rfl
  · rfl

theorem line_ends {line : Line} (hkeep : line.command.keepsHandles = true ∨ Retains I)
    (hfixable : c.fixable = []) (hI : I c.world c.handles) :
    (line.run c).2.fixable = [] ∧ I (line.run c).2.world (line.run c).2.handles := by
  have hcommand : Ends line.command.run c _ :=
    hbooks.command_ends hkeep hfixable (List.append_nil c.handles ▸ hI)
  unfold Ends at hcommand
  rw [run_line]
  cases hrun : line.command.run.run c with
  | mk r c₁ =>
    rw [hrun] at hcommand
    obtain ⟨hfixable₁, hI₁⟩ := hcommand
    dsimp only at hfixable₁ hI₁
    rw [List.append_nil] at hI₁
    rcases r with (_ | e) | product
    · exact ⟨hfixable₁, hI₁⟩
    · have hview := hbooks.accounts_errorView e c₁.world (e.handles ++ c₁.handles)
        (List.subset_append_left ..) hI₁
      obtain ⟨view, w, hrunView⟩ := unfailing_errorView e c₁.world
      have hI₂ : I w (e.handles ++ (c₁.handles ++ [])) := by
        rw [List.append_nil]
        exact hview.of_run hrunView
      dsimp only
      rw [run_act, hrunView]
      cases line.errorInto with
      | none =>
        have hrelease := hbooks.releaseAll e.handles hI₂
        rw [List.append_nil] at hrelease
        exact ⟨hfixable₁, hrelease⟩
      | some name =>
        obtain ⟨c', hrun', hfixable', hI'⟩ := hbooks.store (c := { c₁ with world := w })
          name (.error e) hfixable₁ hI₂
        dsimp only
        rw [hrun']
        rw [List.append_nil] at hI'
        exact ⟨hfixable', hI'⟩
    · obtain ⟨c', hkeep, hc'⟩ := hbooks.keep_ends line.into product.items hfixable₁ hI₁
      dsimp only
      rw [hkeep]
      exact hc'

/-- What holds of the world and of the registers at the start of a run holds at its end. -/
theorem run_ends : ∀ {lines : List Line} {c : Console},
    (∀ line ∈ lines, line.command.keepsHandles = true ∨ Retains I) → c.fixable = [] →
      I c.world c.handles → I (run lines c).2.world (run lines c).2.handles
  | [], _, _, _, hI => hI
  | line :: lines, c, hkeep, hfixable, hI => by
    obtain ⟨hfixable', hI'⟩ := hbooks.line_ends (hkeep line (.head _)) hfixable hI
    have hrest := run_ends (fun l hl => hkeep l (.tail _ hl)) hfixable' hI'
    have hcons : (run (line :: lines) c).2 = (run lines (line.run c).2).2 := by
      unfold run
      rw [List.mapM_cons]
      rfl
    rwa [hcons]

end Books

/-- A console before its first line: its registers are empty, and no interpreter was started. -/
structure Console.Fresh (c : Console) : Prop where
  registers : c.registers = []
  fixable : c.fixable = []
  world : c.world.Fresh

theorem Console.Fresh.handles {c : Console} (hfresh : c.Fresh) : c.handles = [] := by
  rw [Console.handles, hfresh.registers]
  rfl

def Console.single (setup : Setup) : Console where
  world := { sessions := #[{ engine := { interpreter := { setup } } }] }

theorem session_single (setup : Setup) (s : SessionId) :
    (Console.single setup).world.session s = { engine := { interpreter := { setup } } } ∨
      (Console.single setup).world.session s = default := by
  obtain ⟨_ | i⟩ := s
  · exact .inl rfl
  · exact .inr rfl

theorem fresh_single (setup : Setup) : (Console.single setup).Fresh := by
  refine ⟨rfl, rfl, ?_, ?_, ?_, ?_⟩ <;>
    intro s <;> rcases session_single setup s with hs | hs <;> rw [hs] <;> rfl

end Embedding

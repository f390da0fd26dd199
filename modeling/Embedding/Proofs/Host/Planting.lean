import Embedding.Host.Crossing
import Embedding.Proofs.Heap.Planting
import Embedding.Proofs.Host.Steps

/-!
# Values become trees

While no error is pending, plain data crosses to the interpreter as a tree of new cells.
-/

namespace Embedding

open Heap
open HostM (holding)

variable {w : World} {s : SessionId} {setup : Setup} {g base h h' h₁ : Heap} {v : Value}
  {us : List Value} {a c : CellId} {x : Scalar} {content content' : Content} {T U : List CellId}
  {n : Nat}

section
variable (hk : w.KeptOn s setup g)
include hk

theorem run_leaf (hq : h.Quiet) {request : Request Handle .cell} (hv : v.scalar? = some x)
    (hanswer : Heap.answer setup (request.map Handle.cell) = Heap.newScalar x) :
    ∃ c x T h', (cross s crossing request).run (w.put s h n) = (.ok ⟨s, c⟩, w.put s h' (n + 1)) ∧
      h.Planted h' v c x T := by
  have hp := planted_leaf h hv
  have hrun : (Heap.answer setup (request.map Handle.cell)).run h =
      (.ok ⟨h.cells.size⟩, (h.allocate (.scalar x)).2) := by
    rw [hanswer]
    rfl
  exact ⟨_, x, [], _, hk.run_cross crossing _ hrun (hp.toKeeps.quiet hq), hp⟩

theorem run_storing (hq : base.Quiet) (hf : Filled base h us a content T)
    (hp : Planted h h' v c x U) (request : Request Handle .nothing) (content' : Content)
    (hstore : ∀ h₁, (copy c).run h' = (.ok ⟨h'.cells.size⟩, h₁) →
      h₁.cell? a = some ⟨1, none, content⟩ →
      (Heap.answer setup (request.map Handle.cell)).run h' = (setContent a content').run h₁)
    (hchildren : content'.children = content.children ++ [⟨h'.cells.size⟩]) :
    ∃ h'' T', (holding [⟨s, c⟩] (cross s crossing request)).run (w.put s h' (n + 1)) =
        (.ok (), w.put s h'' n) ∧ Filled base h'' (us ++ [v]) a content' T' := by
  obtain ⟨h₁, hcopy, hroot, hmove⟩ := hf.run_move hp
  obtain ⟨h₂, h₃, hset, hkeeps, hrelease, hmoved⟩ := hmove content'
  have hcross := hk.run_cross (n := n + 1) crossing request
    ((hstore h₁ hcopy hroot).trans hset) (hkeeps.quiet hq)
  exact ⟨h₃, _, hk.run_holding hcross hrelease, hf.add hp hmoved hchildren⟩

theorem run_filled {fill : HostM Unit} (hq : base.Quiet) (hf : Filled base h us a content T)
    (hfill : fill.run (w.put s h' (n + 1)) = (.ok (), w.put s h (n + 1)))
    (hencodes : ∀ {h'}, h'.cell? a = some ⟨1, none, content⟩ →
      EncodesItems h' us content.children T → Encodes h' v (.ofRef a) (a :: T)) :
    ∃ c x T h'', (holding [⟨s, a⟩] (do fill; newReference s ⟨s, a⟩)).run (w.put s h' (n + 1)) =
      (.ok ⟨s, c⟩, w.put s h'' (n + 1)) ∧ base.Planted h'' v c x T := by
  obtain ⟨h₁, h₂, href, hkeeps, hrelease, hp⟩ := hf.run_newRef hencodes
  have hcross := hk.run_cross (n := n + 1) crossing (.newRef ⟨s, a⟩) href (hkeeps.quiet hq)
  exact ⟨_, _, _, h₂, hk.run_holding (by rw [run_bind_ok hfill]; exact hcross) hrelease, hp⟩

mutual

theorem run_newCell : ∀ {v : Value}, v.Plain → ∀ {h n}, h.Quiet → ∃ c x T h',
    (newCell s v).run (w.put s h n) = (.ok ⟨s, c⟩, w.put s h' (n + 1)) ∧ h.Planted h' v c x T
  | .nothing, _, _, _, hq => run_leaf hk hq rfl rfl
  | .bool _, _, _, _, hq => run_leaf hk hq rfl rfl
  | .int _, _, _, _, hq => run_leaf hk hq rfl rfl
  | .float _, _, _, _, hq => run_leaf hk hq rfl rfl
  | .text _, _, _, _, hq => run_leaf hk hq rfl rfl
  | .bytes _, _, _, _, hq => run_leaf hk hq rfl rfl
  | .list items, hplain, h, n, hq => by
    have hf := filled_empty h (.array #[]) rfl
    have hcross := hk.run_cross (n := n) crossing .newArray rfl (hf.toKeeps.quiet hq)
    obtain ⟨h', cells, T, hfill, hf'⟩ := run_storeItems items hplain hq hf
    rw [newCell, run_bind_ok hcross]
    exact run_filled hk hq hf' hfill fun ha hitems => .list ha hitems
  | .mapping entries, hplain, h, n, hq => by
    have hf := filled_empty h (.hash [] 0) rfl
    have hcross := hk.run_cross (n := n) crossing .newHash rfl (hf.toKeeps.quiet hq)
    obtain ⟨h', d, T, hfill, hf', hkeys⟩ := run_storeEntries [] hplain.2 hplain.1 rfl hq hf
    rw [newCell, run_bind_ok hcross]
    exact run_filled hk hq hf' hfill fun ha hitems => .mapping ha hkeys hitems

theorem run_storeItems : ∀ (vs : List Value), Value.PlainItems vs →
    ∀ {base h us a cells T n}, base.Quiet → Filled base h us a (.array cells) T →
    ∃ h' cells' T', (storeItems s ⟨s, a⟩ cells.size vs).run (w.put s h n) =
      (.ok (), w.put s h' n) ∧ Filled base h' (us ++ vs) a (.array cells') T'
  | [], _, base, h, us, a, cells, T, n, _, hf =>
    ⟨h, cells, T, rfl, by rwa [List.append_nil]⟩
  | v :: vs, hplain, base, h, us, a, cells, T, n, hq, hf => by
    obtain ⟨c, x, U, h₁, hnew, hp⟩ := run_newCell hplain.1 (n := n) (hf.toKeeps.quiet hq)
    obtain ⟨h₂, T', hstored, hf'⟩ := run_storing hk (n := n) hq hf hp
      (.arrayStore ⟨s, a⟩ cells.size ⟨s, c⟩) (.array (cells.push ⟨h₁.cells.size⟩))
      (fun h' hcopy hroot =>
        run_arrayStore_end (items_eq_ok_iff.2 ⟨_, (hp.old a (lt_of_cell? hf.root)).trans hf.root, rfl⟩)
          hcopy (items_eq_ok_iff.2 ⟨_, hroot, rfl⟩))
      (by simp [Content.children])
    obtain ⟨h₃, cells', T'', hrest, hf''⟩ := run_storeItems vs (n := n) hplain.2 hq hf'
    refine ⟨h₃, cells', T'', ?_, by rwa [List.append_assoc] at hf''⟩
    rw [Array.size_push] at hrest
    rw [storeItems, run_bind_ok hnew, run_bind_ok hstored, hrest]

theorem run_storeEntries : ∀ {entries} (us : List (String × Value)), Value.PlainEntries entries →
    (Dict.keys (us ++ entries)).Nodup → ∀ {base h a d T n}, Dict.keys d = Dict.keys us →
    base.Quiet → Filled base h (Dict.values us) a (.hash d 0) T →
    ∃ h' d' T', (storeEntries s ⟨s, a⟩ entries).run (w.put s h n) = (.ok (), w.put s h' n) ∧
      Filled base h' (Dict.values (us ++ entries)) a (.hash d' 0) T' ∧
      Dict.keys d' = Dict.keys (us ++ entries)
  | [], us, _, _, base, h, a, d, T, n, hkeys, _, hf =>
    ⟨h, d, T, rfl, by rwa [List.append_nil], by rwa [List.append_nil]⟩
  | (key, v) :: entries, us, hplain, hnodup, base, h, a, d, T, n, hkeys, hq, hf => by
    obtain ⟨c, x, U, h₁, hnew, hp⟩ := run_newCell hplain.1 (n := n) (hf.toKeeps.quiet hq)
    have hkey : Dict.get? d key = none := by
      rw [Dict.get?_eq_none_iff, hkeys]
      rw [Dict.keys, List.map_append, List.nodup_append] at hnodup
      exact fun hm => hnodup.2.2 key hm key (.head _) rfl
    obtain ⟨h₂, T', hstored, hf'⟩ := run_storing hk (n := n) hq hf hp
      (.hashStore ⟨s, a⟩ key ⟨s, c⟩) (.hash (d ++ [(key, ⟨h₁.cells.size⟩)]) 0)
      (fun h' hcopy hroot =>
        run_hashStore_new (hash_eq_ok_iff.2 ⟨_, (hp.old a (lt_of_cell? hf.root)).trans hf.root, rfl⟩)
          hcopy (hash_eq_ok_iff.2 ⟨_, hroot, rfl⟩) hkey)
      (by simp [Content.children, Dict.values])
    rw [List.append_cons] at hnodup ⊢
    have hvalues : Dict.values us ++ [v] = Dict.values (us ++ [(key, v)]) := by simp [Dict.values]
    have hkeys' : Dict.keys (d ++ [(key, ⟨h₁.cells.size⟩)]) = Dict.keys (us ++ [(key, v)]) := by
      simpa [Dict.keys] using hkeys
    rw [hvalues] at hf'
    obtain ⟨h₃, d', T'', hrest, hf'', hkeys''⟩ :=
      run_storeEntries _ (n := n) hplain.2 hnodup hkeys' hq hf'
    exact ⟨h₃, d', T'', by rw [storeEntries, run_bind_ok hnew, run_bind_ok hstored, hrest], hf'', hkeys''⟩

end

end

end Embedding

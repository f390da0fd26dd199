import Embedding.Proofs.Heap.Latitude

/-!
# The contents of all cells

Only packages bring subs into a heap, and only a few operations change a hash. So what is true of the
bodies that a setup provides, and of the hashes that these operations make, is true wherever a heap
has come.
-/

namespace Embedding

/-- A property of contents that no operation on a cell ends. -/
class Content.Lasting (C : Content → Prop) : Prop where
  scalar : ∀ s, C (.scalar s)
  array : ∀ items, C (.array items)
  glob : ∀ name, C (.glob name)
  empty : C (.hash [] 0)
  insert : ∀ {entries cursor}, C (.hash entries cursor) →
    ∀ key c, C (.hash (entries.insert key c) cursor)
  erase : ∀ {entries cursor}, C (.hash entries cursor) → ∀ key, C (.hash (entries.erase key) cursor)
  turn : ∀ {entries cursor}, C (.hash entries cursor) → ∀ place, C (.hash entries place)

/-- As the body of a sub, whatever its name is, the body has the property of contents. -/
def Content.Code (C : Content → Prop) (body : NativeSub) : Prop := ∀ name, C (.code name body)

theorem Setup.AllBodies.mono {setup : Setup} {B B' : NativeSub → Prop} (hall : setup.AllBodies B)
    (h : ∀ body, B body → B' body) : setup.AllBodies B' :=
  ⟨h _ hall.isa, h _ hall.can, fun name p hp sub hsub => h _ (hall.subs name p hp sub hsub),
    fun evaluator he source => h _ (hall.evaluator evaluator he source)⟩

open Content

/-- Everything may be done, and the bodies that come in have the property of contents. -/
def Content.latitude (C : Content → Prop) : Latitude := ⟨fun _ => True, fun _ _ => True, Code C⟩

theorem Content.free_latitude (C : Content → Prop) : (latitude C).Free := ⟨fun _ => trivial, fun _ _ => trivial⟩

namespace Heap

variable {α : Type} {C : Content → Prop} {h h' : Heap} {c : CellId} {x : Cell}

/-- Every cell in the heap has a content with the property. -/
def AllContents (C : Content → Prop) (h : Heap) : Prop := ∀ c x, h.cell? c = some x → C x.content

theorem AllContents.setCell (hall : h.AllContents C) {new : Cell} (hnew : C new.content) :
    (h.setCell c (some new)).AllContents C := by
  intro d y hy
  rw [cell?_setCell] at hy
  split at hy
  · cases hy
    exact hnew
  · exact hall d y hy

theorem AllContents.allocate (hall : h.AllContents C) {content : Content} (hcontent : C content) :
    (h.allocate content).2.AllContents C := by
  intro d y hy
  rw [cell?_allocate] at hy
  split at hy
  · cases hy
    exact hcontent
  · exact hall d y hy

theorem AllContents.shrinks (hall : h.AllContents C) (hs : h.Shrinks h') : h'.AllContents C := by
  intro d y hy
  obtain ⟨z, hz, hsame, -⟩ := hs.cells d y hy
  exact hsame ▸ hall d z hz

theorem AllContents.hash (hall : h.AllContents C) {entries : Dict CellId} {cursor : Nat}
    (hc : h.hash c = .ok (entries, cursor)) : C (.hash entries cursor) := by
  obtain ⟨x, hx, hcontent⟩ := hash_eq_ok_iff.1 hc
  exact hcontent ▸ hall c x hx

variable [Lasting C]

theorem contents_made {content : Content} (hmade : content.Made (latitude C)) : C content := by
  cases content with
  | scalar s => exact Lasting.scalar s
  | array items => exact Lasting.array items
  | hash entries cursor =>
    obtain ⟨rfl, rfl⟩ := hmade
    exact Lasting.empty
  | code name body => exact hmade name
  | glob name => exact Lasting.glob name

theorem contents_becomes {old new : Content} (hold : C old) (hb : old.Becomes new) : C new := by
  cases hb with
  | array items items' => exact Lasting.array items'
  | insert entries cursor key c => exact Lasting.insert hold key c
  | erase entries cursor key => exact Lasting.erase hold key
  | empty entries cursor => exact Lasting.empty
  | turn entries cursor place => exact Lasting.turn hold place

theorem stable_contents : Stable (latitude C) (AllContents C) where
  allocate hall hmade _ := hall.allocate (contents_made hmade)
  recount {_ _ x} hall hx _ _ := hall.setCell (show C x.content from hall _ _ hx)
  drop hall c := hall.shrinks (shrinks_drop _ _ c)
  setContainer hall hx hb _ := hall.setCell (contents_becomes (hall _ _ hx) hb)
  setScalar hall _ _ _ s _ := hall.setCell (Lasting.scalar s)
  setNumified hall _ _ := hall.setCell (Lasting.scalar _)
  setPackage {_ _ x _} hall hx _ := hall.setCell (show C x.content from hall _ _ hx)
  define hall _ _ _ _ := hall
  load hall _ := hall
  made _ := trivial
  named _ _ := trivial

theorem contents_initial : AllContents C .initial := by
  rintro ⟨_ | _ | i⟩ x hx
  · cases hx
  · cases hx
    exact Lasting.scalar _
  · cases hx

theorem contents_clearError : Preserves (AllContents C) clearError := stable_contents.clearError

theorem contents_resolve (target : Target CellId) : Preserves (AllContents C) (resolve target) :=
  stable_contents.resolve target

theorem contents_boot {setup : Setup} (hall : setup.AllBodies (Code C)) (args : List String) :
    Preserves (AllContents C) (boot setup args) := stable_contents.boot hall args

theorem contents_callWithin (depth : Nat) (target : Target CellId) (args : List CellId)
    (context : Context) : Preserves (AllContents C) (callWithin depth target args context) :=
  fun h hall => stable_contents.callWithin depth target args context hall
    ((free_latitude C).callPermitted depth target args context h)

theorem contents_answer {setup : Setup} (hall : setup.AllBodies (Code C)) {s : Shape}
    (request : Request CellId s) : Preserves (AllContents C) (answer setup request) :=
  fun h hh => stable_contents.answer hall request hh ((free_latitude C).request setup request h)

end Heap

theorem Frame.contents_perform {C : Content → Prop} [Lasting C]
    {call : Target CellId → List CellId → HeapM (List CellId)}
    (hcall : ∀ target args, Preserves (Heap.AllContents C) (call target args)) {s : Shape}
    (action : Action s) : Preserves (Frame.On (Heap.AllContents C)) (perform call action) :=
  fun f hall => Heap.stable_contents.on_perform action hall ((free_latitude C).permits action f.heap)
    (fun _ _ _ _ => trivial) fun p _ => hcall p.1 p.2 f.heap hall

namespace Heap

/-! ## Keys of hashes -/

/-- No hash in the heap has a key twice. -/
abbrev Keyed : Heap → Prop :=
  AllContents fun content => ∀ entries cursor, content = .hash entries cursor → entries.keys.Nodup

instance : Lasting fun content =>
    ∀ entries cursor, content = .hash entries cursor → entries.keys.Nodup where
  scalar _ := nofun
  array _ := nofun
  glob _ := nofun
  empty := fun _ _ h => by cases h; exact List.nodup_nil
  insert hold key c := fun _ _ h => by cases h; exact Dict.nodup_keys_insert (hold _ _ rfl) key c
  erase hold key := fun _ _ h => by cases h; exact Dict.nodup_keys_erase (hold _ _ rfl) key
  turn hold _ := fun _ _ h => by cases h; exact hold _ _ rfl

end Heap

theorem Setup.allBodies_keyed (setup : Setup) : setup.AllBodies (Code fun content =>
    ∀ entries cursor, content = .hash entries cursor → entries.keys.Nodup) where
  isa _ := nofun
  can _ := nofun
  subs _ _ _ _ _ _ := nofun
  evaluator _ _ _ _ := nofun

end Embedding

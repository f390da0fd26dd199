import Embedding.Interpreter
import Embedding.Proofs.Heap.Calls

/-!
# Stakes of requests

What an interpreter owes its host for a request. A host that retains a cell is owed a stake in it,
and a host that releases one gives its stake up; for all other requests the stakes are those in the
answer.
-/

namespace Embedding

namespace Request

/-- The stakes that the host receives with the answer. -/
def due : {s : Shape} → Request CellId s → Answer CellId s → List CellId
  | _, .retain c, _ => [c]
  | _, _, answer => answer.stakes

/-- The cell that the host gives its stake in up. -/
def released? : {s : Shape} → Request CellId s → Option CellId
  | _, .release c => some c
  | _, _ => none

/-- All bodies that run for the request end with live cells. -/
def EndsLive (setup : Setup) : {s : Shape} → Request CellId s → Heap → Prop
  | _, .call target args context, h => Heap.CallEndsLive Heap.maxDepth target args context h
  | _, .eval source context, h => ∀ evaluator, setup.evaluator = some evaluator →
      Heap.BodyEndsLive (fun target args => Heap.callWithin Heap.maxDepth target args .list)
        (fun target args => Heap.CallEndsLive Heap.maxDepth target args .list)
        (evaluator source ⟨"(eval)", [], context⟩) h
  | _, _, _ => True

end Request

namespace Heap

theorem tracks_answer (setup : Setup) {s : Shape} (request : Request CellId s)
    (hreq : request.released? = none) (h : Heap) :
    Tracks (answer setup request) h (request.EndsLive setup h) request.due := by
  cases request with
  | construct args => exact (settles_error rfl rfl).tracks _
  | eval source context =>
    unfold answer
    split
    · next evaluator hev =>
      have hinvoke := loses_invoke
        (fun target args h => loses_callWithin maxDepth target args .list h)
        (evaluator source ⟨"(eval)", [], context⟩) context h
      intro σ hs
      obtain ⟨hev', leak, hs', htidy⟩ := hinvoke.tracks σ hs
      exact ⟨hev', leak, hs', fun hlive => htidy (hlive evaluator hev)⟩
    · exact tracks_die h _ _ _
  | require package => exact tracks_require h setup package _
  | call target args context => exact (loses_callWithin maxDepth target args context h).tracks
  | takeError => exact (gives_takeError h).tracks _
  | retain c => exact (settles_retain h c).tracks _
  | release c => cases hreq
  | refcount c =>
    exact (settles_ask ((deathless_cell h c).bind fun _ _ => deathless_ok _) fun _ => rfl).tracks _
  | kind c => exact (settles_ask (deathless_kind h c) fun _ => rfl).tracks _
  | flags c => exact (settles_ask (deathless_map_scalar h c _) fun _ => rfl).tracks _
  | toInt c => exact (settles_ask (deathless_map_scalar h c _) fun _ => rfl).tracks _
  | toNum c => exact (settles_ask (deathless_map_scalar h c _) fun _ => rfl).tracks _
  | toBytes c => exact (settles_ask (deathless_toBytes h c) fun _ => rfl).tracks _
  | newUndef => exact (gives_newScalar .undef h).tracks _
  | newBool b => exact (gives_newScalar (.ofBool b) h).tracks _
  | newInt n => exact (gives_newScalar (.ofInt n) h).tracks _
  | newNum x => exact (gives_newScalar (.ofNum x) h).tracks _
  | newBytes bytes utf8 => exact (gives_newScalar (.ofBytes bytes utf8) h).tracks _
  | assign dst src => exact (settles_assign h dst src).tracks _
  | newRef target => exact (settles_newRef h target).tracks _
  | deref c => exact (settles_deref h c).tracks _
  | className c => exact (settles_ask (deathless_className h c) fun _ => rfl).tracks _
  | identity c => exact (settles_ask (deathless_identity h c) fun _ => rfl).tracks _
  | newArray => exact (gives_alloc rfl h).tracks _
  | arrayLength c => exact (settles_ask (deathless_arrayLength h c) fun _ => rfl).tracks _
  | arrayFetch c index => exact (settles_arrayFetch h c index).tracks _
  | arrayStore c index value => exact (settles_arrayStore h c index value).tracks _
  | arrayPop c => exact (settles_arrayPop h c).tracks _
  | arrayClear c => exact (settles_arrayClear h c).tracks _
  | newHash => exact (gives_alloc rfl h).tracks _
  | hashLength c =>
    exact (settles_ask ((deathless_entries h c).bind fun _ _ => deathless_ok _) fun _ => rfl).tracks _
  | hashFetch c key => exact (settles_hashFetch h c key).tracks _
  | hashStore c key value => exact (settles_hashStore h c key value).tracks _
  | hashDelete c key => exact (settles_hashDelete h c key).tracks _
  | hashContains c key =>
    exact (settles_ask ((deathless_entries h c).bind fun _ _ => deathless_ok _) fun _ => rfl).tracks _
  | hashClear c => exact (settles_hashClear h c).tracks _
  | hashRewind c => exact (settles_hashRewind h c).tracks _
  | hashNext c => exact (settles_hashNext h c).tracks _
  | global slot name create => exact (gives_global h slot name create).tracks _

end Heap

end Embedding

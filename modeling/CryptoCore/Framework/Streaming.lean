import Mathlib.Data.List.Basic

/-!
# Streaming contexts

A context is a state with calls; a call gives an answer and leaves a state. A streaming context
takes a message in chunks, ends it with one call and refuses every call after that. What it answers
depends on the message only, not on the chunks it came in.

`answers` runs a list of calls. `Streams` is the condition on single calls: a predicate for the
states that have taken a message in, one for the states behind the end, and what a chunk, the end
and a call after the end do to them. `Streams.answers_streaming` is what follows for all lists of
chunks and all calls after the end, by induction over the chunks.

The answers are parameters: `accepted` to a chunk, `result` to the end, which may be a failure, and
`refused` to a call that comes too late. So the statement covers contexts that produce a value at
the end and contexts that check one, and says of both that the closed state never changes again.

A context that gives out something with every chunk does not fit here, since its answers depend on
the chunks.
-/

namespace Streaming

variable {S I O α : Type*}

/-- The answers to the calls of a list, one after the other, and the state they leave. -/
def answers (call : S → I → O × S) (s : S) : List I → List O × S
  | [] => ([], s)
  | first :: rest =>
      ((call s first).1 :: (answers call (call s first).2 rest).1,
        (answers call (call s first).2 rest).2)

@[simp] lemma answers_nil (call : S → I → O × S) (s : S) : answers call s [] = ([], s) := rfl

lemma answers_cons {call : S → I → O × S} {s next : S} {first : I} {answer : O}
    (h : call s first = (answer, next)) (rest : List I) :
    answers call s (first :: rest) =
      (answer :: (answers call next rest).1, (answers call next rest).2) := by
  rw [answers, h]

/-- The calls `update` that add a chunk, and the call `final` that ends the message. `After s m`
are the states that have taken the message `m`, `Closed` the states behind the end. -/
structure Streams (call : S → I → O × S) (update : List α → I) (final : I)
    (accepted : O) (result : List α → O) (refused : I → O)
    (After : S → List α → Prop) (Closed : S → Prop) : Prop where
  extend : ∀ {s m} (chunk : List α), After s m →
    ∃ next, call s (update chunk) = (accepted, next) ∧ After next (m ++ chunk)
  finish : ∀ {s m}, After s m → ∃ closed, call s final = (result m, closed) ∧ Closed closed
  refuse : ∀ {s}, Closed s → ∀ c, call s c = (refused c, s)

namespace Streams

variable {call : S → I → O × S} {update : List α → I} {final : I} {accepted : O}
  {result : List α → O} {refused : I → O} {After : S → List α → Prop} {Closed : S → Prop}

/-- Chunks are taken one after the other, and what follows starts from a state that has taken them
all. -/
lemma answers_updates (h : Streams call update final accepted result refused After Closed)
    (chunks : List (List α)) (rest : List I) :
    ∀ {s : S} {m : List α}, After s m → ∃ next, After next (m ++ chunks.flatten) ∧
      answers call s (chunks.map update ++ rest) =
        (chunks.map (fun _ => accepted) ++ (answers call next rest).1,
          (answers call next rest).2) := by
  induction chunks with
  | nil =>
      intro s m hs
      exact ⟨s, by simpa using hs, rfl⟩
  | cons chunk chunks ih =>
      intro s m hs
      obtain ⟨next, hcall, hnext⟩ := h.extend chunk hs
      obtain ⟨last, hlast, hrest⟩ := ih hnext
      refine ⟨last, by simpa using hlast, ?_⟩
      rw [List.map_cons, List.cons_append, answers_cons hcall, hrest]
      rfl

/-- A closed context refuses every call and stays as it is, however many calls there are. -/
lemma answers_refused (h : Streams call update final accepted result refused After Closed)
    {s : S} (hs : Closed s) (later : List I) : answers call s later = (later.map refused, s) := by
  induction later with
  | nil => rfl
  | cons c later ih => rw [answers_cons (h.refuse hs c), ih, List.map_cons]

/-- Chunks, the end, and any calls after it: the answers, and the state behind them. -/
theorem answers_streaming (h : Streams call update final accepted result refused After Closed)
    {s : S} (hs : After s []) (chunks : List (List α)) (later : List I) :
    ∃ closed, answers call s (chunks.map update ++ [final]) =
        (chunks.map (fun _ => accepted) ++ [result chunks.flatten], closed) ∧
      answers call closed later = (later.map refused, closed) := by
  obtain ⟨last, hlast, hrest⟩ := h.answers_updates chunks [final] hs
  rw [List.nil_append] at hlast
  obtain ⟨closed, hfinal, hclosed⟩ := h.finish hlast
  refine ⟨closed, ?_, h.answers_refused hclosed later⟩
  rw [hrest, answers_cons hfinal, answers_nil]

end Streams

end Streaming

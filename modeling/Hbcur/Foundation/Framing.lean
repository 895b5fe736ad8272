import Mathlib.Data.List.Basic

/-!
# Words which arrive in pieces

A machine which takes one symbol at a time, and a receiver which takes several symbols of a
chunk at once.  If the receiver simulates the machine, it does not matter how a word is cut
into chunks.
-/

namespace Hbcur
namespace Foundation

variable {symbol abstract state : Type}

/-!
# One symbol at a time
-/

/-- Feed symbols to a machine, which may refuse to go on. -/
def feed (step : abstract -> symbol -> Option abstract) : abstract -> List symbol -> Option abstract
  | a, [] => some a
  | a, b :: rest =>
      match step a b with
      | none => none
      | some a' => feed step a' rest

theorem feed_cons_of_some {step : abstract -> symbol -> Option abstract} {a a' : abstract}
    {b : symbol} (h : step a b = some a') (rest : List symbol) :
    feed step a (b :: rest) = feed step a' rest := by
  rw [feed, h]

theorem feed_append (step : abstract -> symbol -> Option abstract) (word word' : List symbol) :
    forall a, feed step a (word ++ word') =
      (feed step a word).bind fun a' => feed step a' word' := by
  induction word with
  | nil =>
      intro a
      rfl
  | cons b rest ih =>
      intro a
      rw [List.cons_append, feed, feed]
      cases step a b with
      | none => rfl
      | some a' => exact ih a'

/-- A machine which has refused does not go on. -/
theorem feed_eq_none_of_take {step : abstract -> symbol -> Option abstract} {a : abstract}
    {word : List symbol} {count : Nat} (h : feed step a (word.take count) = none) :
    feed step a word = none := by
  rw [← List.take_append_drop count word, feed_append, h]
  rfl

/-!
# Several symbols at once
-/

/-- What has become of the symbols passed to a receiver. -/
inductive Receipt (state : Type) where
  | refused
  | received (s : state)

/--
The loop of a receiver: a round handles some of the symbols which are left, or refuses them.
Nothing is returned if the rounds run out.
-/
def receiveLoop (round : state -> List symbol -> Option (Nat × state)) :
    Nat -> state -> List symbol -> Option (Receipt state)
  | _, s, [] => some (Receipt.received s)
  | 0, _, _ :: _ => none
  | rounds + 1, s, b :: rest =>
      match round s (b :: rest) with
      | none => some Receipt.refused
      | some (handled, s') => receiveLoop round rounds s' ((b :: rest).drop handled)

/-- Chunks one after another, until one is refused. -/
def receiveChunks (receive : state -> List symbol -> Option (Receipt state)) :
    state -> List (List symbol) -> Option (Receipt state)
  | s, [] => some (Receipt.received s)
  | s, chunk :: rest =>
      match receive s chunk with
      | none => none
      | some Receipt.refused => some Receipt.refused
      | some (Receipt.received s') => receiveChunks receive s' rest

/-- What a receiver has done is what the machine does with the same symbols. -/
def Receipt.Matches (inv : state -> Prop) (view : state -> abstract) :
    Option (Receipt state) -> Option abstract -> Prop
  | some Receipt.refused, none => True
  | some (Receipt.received s), some a => inv s ∧ view s = a
  | _, _ => False

theorem eq_refused_of_matches {inv : state -> Prop} {view : state -> abstract}
    {receipt : Option (Receipt state)} (h : Receipt.Matches inv view receipt none) :
    receipt = some Receipt.refused := by
  cases receipt with
  | none => exact h.elim
  | some receipt =>
      cases receipt with
      | refused => rfl
      | received s => exact h.elim

theorem exists_received_of_matches {inv : state -> Prop} {view : state -> abstract}
    {receipt : Option (Receipt state)} {a : abstract}
    (h : Receipt.Matches inv view receipt (some a)) :
    exists s, receipt = some (Receipt.received s) ∧ inv s ∧ view s = a := by
  cases receipt with
  | none => exact h.elim
  | some receipt =>
      cases receipt with
      | refused => exact h.elim
      | received s => exact ⟨s, rfl, h⟩

/-- A round makes progress and does what the machine does with the symbols handled. -/
structure RoundSimulates (step : abstract -> symbol -> Option abstract) (inv : state -> Prop)
    (view : state -> abstract) (round : state -> List symbol -> Option (Nat × state)) : Prop where
  refuses : forall s word, inv s -> word ≠ [] -> round s word = none ->
    feed step (view s) word = none
  handles : forall s word handled s', inv s -> word ≠ [] -> round s word = some (handled, s') ->
    0 < handled ∧ inv s' ∧ feed step (view s) (word.take handled) = some (view s')

section Simulation

variable {step : abstract -> symbol -> Option abstract} {inv : state -> Prop}
  {view : state -> abstract} {round : state -> List symbol -> Option (Nat × state)}

theorem receiveLoop_matches (h : RoundSimulates step inv view round) :
    forall (rounds : Nat) (s : state) (word : List symbol), inv s -> word.length ≤ rounds ->
      Receipt.Matches inv view (receiveLoop round rounds s word) (feed step (view s) word) := by
  intro rounds
  induction rounds with
  | zero =>
      intro s word hinv hlen
      cases word with
      | nil => exact ⟨hinv, rfl⟩
      | cons b rest => cases hlen
  | succ rounds ih =>
      intro s word hinv hlen
      cases word with
      | nil => exact ⟨hinv, rfl⟩
      | cons b rest =>
          have hne : b :: rest ≠ [] := List.cons_ne_nil b rest
          rw [receiveLoop]
          cases hround : round s (b :: rest) with
          | none =>
              rw [h.refuses s _ hinv hne hround]
              trivial
          | some result =>
              rcases result with ⟨handled, s'⟩
              rcases h.handles s _ handled s' hinv hne hround with ⟨hpos, hinv', hfeed⟩
              have hrest : ((b :: rest).drop handled).length ≤ rounds := by
                rw [List.length_drop]
                omega
              -- the symbols handled, and then the others
              have hword : feed step (view s) (b :: rest) =
                  feed step (view s') ((b :: rest).drop handled) := by
                conv => lhs; rw [← List.take_append_drop handled (b :: rest), feed_append, hfeed]
                rfl
              rw [hword]
              exact ih s' _ hinv' hrest

/-- The whole of a chunk, with a round for each of its symbols. -/
def receiveChunk (round : state -> List symbol -> Option (Nat × state)) (s : state)
    (chunk : List symbol) : Option (Receipt state) :=
  receiveLoop round chunk.length s chunk

/-- The chunks have the effect of the word they make up. -/
theorem receiveChunks_matches (h : RoundSimulates step inv view round) :
    forall (chunks : List (List symbol)) (s : state), inv s ->
      Receipt.Matches inv view (receiveChunks (receiveChunk round) s chunks)
        (feed step (view s) chunks.flatten) := by
  intro chunks
  induction chunks with
  | nil => exact fun s hinv => ⟨hinv, rfl⟩
  | cons chunk rest ih =>
      intro s hinv
      have hchunk := receiveLoop_matches h chunk.length s chunk hinv (Nat.le_refl _)
      rw [List.flatten_cons, feed_append, receiveChunks]
      change Receipt.Matches inv view (receiveChunk round s chunk) _ at hchunk
      cases hfeed : feed step (view s) chunk with
      | none =>
          rw [hfeed] at hchunk
          rw [eq_refused_of_matches hchunk]
          trivial
      | some a =>
          rw [hfeed] at hchunk
          rcases exists_received_of_matches hchunk with ⟨s', heq, hinv', rfl⟩
          rw [heq]
          exact ih s' hinv'

end Simulation

end Foundation
end Hbcur

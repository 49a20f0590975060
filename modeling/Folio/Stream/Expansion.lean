import Folio.Error

/-!
# What comes out of a compressed stream

A decoder puts out bytes until its stream ends or turns out to be damaged. A reader who knows how
much to expect stops it one byte later, so that a small stream cannot blow up to a large output.
A decoder may still work ahead of its reader, and goes on up to the place where it would put out a
byte more than it has room for. Damage before that place is seen and damage behind it is not. For
this it takes only the piece of input that it has begun: the next one is fetched when more output
is asked for.

## Main definitions

* `Expansion` — the bytes that come out of a stream, and how it ends
* `Continuation` — how a decoder goes on after a step
* `StreamDecoder` — a decoder, one step at a time
* `StreamDecoder.full` — all that comes out of a stream
* `StreamDecoder.upTo` — what comes out when the decoder is stopped at a limit
-/

namespace Folio

/-- The bytes that come out of a stream, and what ends them: nothing if it is the end of the
stream, or if no more was asked for. -/
structure Expansion where
  /-- The bytes. -/
  output : ByteArray
  /-- The damage that was met. -/
  fault : Option StreamFault

/-- What a step of a decoder leads to. -/
inductive Continuation (State : Type) where
  /-- There is more to decode. -/
  | again (state : State)
  /-- The stream ends. -/
  | finished
  /-- The stream is damaged. -/
  | failed (fault : StreamFault)
  /-- The next byte cannot be made. This is damage only if the byte is asked for. -/
  | stuck (fault : StreamFault)

/-- How a decoder goes on that cannot read on. A lack of input shows when the next byte is asked
for, and all other damage at once. -/
def Continuation.ofFault {State : Type} : StreamFault → Continuation State
  | .truncated => .stuck .truncated
  | fault => .failed fault

/-- A decoder, one step at a time. A step sees all the output before it and adds to it. -/
structure StreamDecoder where
  /-- What the decoder keeps between two steps. -/
  State : Type
  /-- The state before the first step. -/
  start : ByteArray → State
  /-- Puts out more bytes, and says how to go on. -/
  step : State → ByteArray → ByteArray × Continuation State
  /-- A number of steps after which every stream has ended. -/
  steps : ByteArray → Nat
  /-- How many bytes the decoder has room for when it is asked for the given number of them. -/
  room : Nat → Nat
  /-- The state without the input that has not been fetched. -/
  fetched : State → State

namespace StreamDecoder

/-- Takes steps until the stream ends or `enough` bytes are put out. Without a number of bytes that
are enough, the stream has to end. -/
def run (d : StreamDecoder) (enough : Option Nat) :
    (steps : Nat) → d.State → ByteArray → ByteArray × Continuation d.State
  | 0, _, output => (output, .stuck .truncated)
  | steps + 1, state, output =>
    if enough.any (· ≤ output.size) then (output, .again state)
    else
      match d.step state output with
      | (output, .again state) => d.run enough steps state output
      | ended => ended

/-- All that comes out of a stream. -/
def full (d : StreamDecoder) (input : ByteArray) : Expansion :=
  match d.run none (d.steps input) (d.start input) .empty with
  | (output, .failed fault) | (output, .stuck fault) => ⟨output, some fault⟩
  | (output, _) => ⟨output, none⟩

/-- The damage that the end of a run shows to a reader who asks for `limit` bytes. -/
def shown (d : StreamDecoder) (limit size : Nat) : Continuation d.State → Option StreamFault
  | .failed fault => if size ≤ d.room limit then some fault else none
  | .stuck fault => if size < limit then some fault else none
  | _ => none

/-- What comes out of a stream when a reader asks for `limit` bytes. Once they are put out, the
decoder fills the room that it has left. -/
def upTo (d : StreamDecoder) (limit : Nat) (input : ByteArray) : Expansion :=
  let (output, next) := d.run (some limit) (d.steps input) (d.start input) .empty
  let (reached, last) :=
    match next with
    | .again state => d.run (some (d.room limit + 1)) (d.steps input) (d.fetched state) output
    | _ => (output, next)
  ⟨output.extract 0 limit, d.shown limit reached.size last⟩

end StreamDecoder

end Folio
